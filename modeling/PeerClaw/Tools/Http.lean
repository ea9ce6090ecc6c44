import PeerClaw.Lib.Trace
import PeerClaw.Safety.Ssrf
import PeerClaw.Tools.Tool

/-!
# The tools of the web

`tools/builtin/http.rs`: the tools `http` and `web_fetch` parse the URL they are given,
validate it, and hand it to their client.  The client looks the host up again, connects
to an address of its choice, and follows the redirects that the servers answer with, up
to its limit; the tools set no policy for redirects, and look at none of the URLs on
the way.  Resolver, servers and client are in a `Web`: each lookup, each connection and
each reply has a number, and may differ from those before it.

* `WebTool.execute` — the tools, with the trace of what they validate and request.
* `requested_iff` — the requests of a call are those to the URLs on the trail of its
  redirects.
* `requests_validated_iff` — every request goes to an address that was validated in the
  same call exactly when the client's own lookup and every redirect lead to one.
* `redirected_anywhere` — a server that is asked can send the client wherever it likes.
-/

namespace PeerClaw
namespace Tools

open Lib Safety

/-- Maximum response size. -/
def maxResponseSize : ℕ := 5 * 1024 * 1024

/-- The body of a request. -/
inductive RequestBody
  | json (v : Value)
  | text (s : String)

/-- A request, as it is built. -/
structure HttpRequest where
  method : String
  url : String
  /-- In seconds; the client has a timeout of its own where there is none. -/
  timeout : Option UInt64
  headers : List (String × String)
  body : Option RequestBody

/-- What is read of a response. -/
structure Response where
  status : UInt16
  canonicalReason : Option String
  contentLength : Option UInt64
  body : Except String (List UInt8)

/-- What comes of a request that has been sent. -/
inductive Reply
  | failed (message : String)
  | response (r : Response)
  /-- A redirect that the client can follow. -/
  | redirect (target : Url)

/-- A client and its network. -/
structure Web where
  parse : String → Except String Url
  casing : Text.Casing
  /-- The answer to each lookup: validation makes the first, and the client one for each request. -/
  lookup : ℕ → Resolver
  /-- What the client says of a request before it is sent. -/
  build : HttpRequest → Except String Unit
  /-- The address that the client has a connection to, for one of the addresses of a host: of
  those that were found, or of a connection that it has kept. -/
  connect : ℕ → Url → List IpAddr → Except String IpAddr
  reply : ℕ → Url → IpAddr → Reply
  /-- How many redirects the client follows. -/
  redirectLimit : ℕ
  tooManyRedirects : String

/-- What is validated and requested in one call of a tool. -/
inductive WebEvent
  | validated (url : String)
  | requested (u : Url) (ip : IpAddr)

namespace Web

/-- What validation sees: the first lookup. -/
def validation (web : Web) : UrlEnv := ⟨web.parse, web.casing, web.lookup 0⟩

/-- The address that the request with number `k` is sent to.  A host that is an address is not
looked up, and the connection is to it. -/
def address (web : Web) (k : ℕ) (u : Url) : Except String IpAddr :=
  match u.host with
  | none => .error "URL has no host"
  | some (.address ip) => (web.connect k u [ip]).map fun _ => ip
  | some (.domain name) =>
      match web.lookup (k + 1) name (u.portOrKnownDefault.getD 80) with
      | .error _ => web.connect k u []
      | .ok ips => web.connect k u ips

/-- Send a request, and follow the redirects. -/
def exchange (web : Web) : ℕ → ℕ → Url → Except String Response × List WebEvent
  | limit, k, u =>
      match web.address k u with
      | .error e => (.error e, [])
      | .ok ip =>
          match web.reply k u ip with
          | .failed e => (.error e, [.requested u ip])
          | .response r => (.ok r, [.requested u ip])
          | .redirect target =>
              match limit with
              | 0 => (.error web.tooManyRedirects, [.requested u ip])
              | limit + 1 =>
                  let (result, sent) := exchange web limit (k + 1) target
                  (result, .requested u ip :: sent)

/-- `send()`. -/
def send (web : Web) (request : HttpRequest) (u : Url) : Except String Response × List WebEvent :=
  match web.build request with
  | .error e => (.error e, [])
  | .ok () => web.exchange web.redirectLimit 0 u

/-- What both tools do first: take the URL, parse it and validate it. -/
def checkedUrl (web : Web) (params : Value) : Except ToolError (String × Url) :=
  match requireStr params "url" with
  | .error e => .error e
  | .ok url =>
      match web.parse url with
      | .error e => .error (.invalidParameters ("Invalid URL: " ++ e))
      | .ok parsed =>
          match validateUrl web.validation url with
          | .error e => .error (.notAuthorized e.display)
          | .ok () => .ok (url, parsed)

end Web

/-! ## The tools -/

/-- The tools that request the URL they are given. -/
inductive WebTool
  | http
  | webFetch
  deriving DecidableEq

namespace HttpTool

/-- The methods that are known. -/
def methods : List String := ["GET", "POST", "PUT", "DELETE", "PATCH", "HEAD", "OPTIONS"]

/-- The headers that are strings. -/
def headers (params : Value) : List (String × String) :=
  (((params.get? "headers").bind Value.asObject).getD []).filterMap fun (name, v) =>
    v.asStr.map fun s => (name, s)

def body (params : Value) : Option RequestBody :=
  match params.get? "json" with
  | some json => some (.json json)
  | none => (optionalStr params "body").map .text

def request (casing : Text.Casing) (url : String) (params : Value) :
    Except ToolError HttpRequest :=
  let method := casing.toUppercase ((optionalStr params "method").getD "GET")
  if method ∈ methods then
    .ok
      { method := method
        url := url
        timeout := some (optionalI64 params "timeout" 30).toUInt64
        headers := headers params
        body := body params }
  else .error (.invalidParameters ("Unknown method: " ++ method))

/-- What is made of the response. -/
def read (result : Except String Response) : Except ToolError Response :=
  match result with
  | .error e => .error (.externalService ("Request failed: " ++ e))
  | .ok r =>
      if maxResponseSize < (r.contentLength.getD 0).toNat then
        .error (.executionFailed ("Response too large: " ++
          toString (r.contentLength.getD 0).toNat ++ " bytes (max " ++ toString maxResponseSize ++
          " bytes)"))
      else
        match r.body with
        | .error e => .error (.executionFailed ("Failed to read body: " ++ e))
        | .ok _ => .ok r

end HttpTool

namespace WebFetchTool

def request (url : String) : HttpRequest :=
  { method := "GET", url := url, timeout := none, headers := [], body := none }

/-- What is made of the response. -/
def read (result : Except String Response) : Except ToolError Response :=
  match result with
  | .error e => .error (.externalService ("Fetch failed: " ++ e))
  | .ok r =>
      if 200 ≤ r.status ∧ r.status < 300 then
        match r.body with
        | .error e => .error (.executionFailed ("Failed to read response: " ++ e))
        | .ok _ => .ok r
      else
        .error (.externalService ("HTTP " ++ toString r.status.toNat ++ ": " ++
          r.canonicalReason.getD "Error"))

end WebFetchTool

namespace WebTool

/-- The request that is built for a valid URL. -/
def request (tool : WebTool) (casing : Text.Casing) (url : String) (params : Value) :
    Except ToolError HttpRequest :=
  match tool with
  | .http => HttpTool.request casing url params
  | .webFetch => .ok (WebFetchTool.request url)

def read (tool : WebTool) (result : Except String Response) : Except ToolError Response :=
  match tool with
  | .http => HttpTool.read result
  | .webFetch => WebFetchTool.read result

/-- A call of a tool: its response, and what was validated and requested. -/
def execute (tool : WebTool) (web : Web) (params : Value) :
    Except ToolError Response × List WebEvent :=
  match web.checkedUrl params with
  | .error e => (.error e, [])
  | .ok (url, parsed) =>
      match tool.request web.casing url params with
      | .error e => (.error e, [.validated url])
      | .ok request =>
          let (result, sent) := web.send request parsed
          (tool.read result, .validated url :: sent)

end WebTool

/-! ## The trail of redirects -/

namespace Web

variable (web : Web)

/-- The URL that a server sends the client on to. -/
def next (k : ℕ) (u : Url) : Option Url :=
  match web.address k u with
  | .error _ => none
  | .ok ip =>
      match web.reply k u ip with
      | .redirect target => some target
      | .failed _ => none
      | .response _ => none

/-- The URLs that the redirects lead to from one that is requested, with the numbers of their
requests. -/
def redirects (u : Url) : List (ℕ × Url) := (trail web.next web.redirectLimit 0 u).tail

/-- The request to a URL, if the client has an address for it. -/
def requestTo (hop : ℕ × Url) : Option WebEvent :=
  match web.address hop.1 hop.2 with
  | .error _ => none
  | .ok ip => some (.requested hop.2 ip)

variable {web} {limit k : ℕ} {u v : Url} {ip : IpAddr}

theorem requestTo_of_ok (h : web.address k u = .ok ip) :
    web.requestTo (k, u) = some (.requested u ip) := by
  simp only [requestTo, h]

theorem requestTo_of_error {e : String} (h : web.address k u = .error e) :
    web.requestTo (k, u) = none := by
  simp only [requestTo, h]

theorem next_of_error {e : String} (h : web.address k u = .error e) : web.next k u = none := by
  simp only [next, h]

theorem exchange_of_error {e : String} (h : web.address k u = .error e) :
    web.exchange limit k u = (.error e, []) := by
  unfold exchange
  simp only [h]

/-- **The requests are those of the trail**: each URL on it is requested, if the client has an
address for it. -/
theorem exchange_sent :
    (web.exchange limit k u).2 = (trail web.next limit k u).filterMap web.requestTo := by
  induction limit generalizing k u with
  | zero =>
    cases haddr : web.address k u with
    | error e => simp [exchange_of_error haddr, requestTo_of_error haddr]
    | ok ip =>
      rw [trail_zero, List.filterMap_cons_some (requestTo_of_ok haddr), List.filterMap_nil]
      unfold exchange
      simp only [haddr]
      cases web.reply k u ip with
      | failed e => rfl
      | response r => rfl
      | redirect target => rfl
  | succ limit ih =>
    cases haddr : web.address k u with
    | error e =>
      rw [trail_of_none (next_of_error haddr), exchange_of_error haddr]
      simp [requestTo_of_error haddr]
    | ok ip =>
      unfold exchange
      cases hreply : web.reply k u ip with
      | failed e =>
        have hnext : web.next k u = none := by simp only [next, haddr, hreply]
        rw [trail_of_none hnext, List.filterMap_cons_some (requestTo_of_ok haddr)]
        simp only [haddr, hreply, List.filterMap_nil]
      | response r =>
        have hnext : web.next k u = none := by simp only [next, haddr, hreply]
        rw [trail_of_none hnext, List.filterMap_cons_some (requestTo_of_ok haddr)]
        simp only [haddr, hreply, List.filterMap_nil]
      | redirect target =>
        have hnext : web.next k u = some target := by simp only [next, haddr, hreply]
        rw [trail_of_some hnext, List.filterMap_cons_some (requestTo_of_ok haddr)]
        simp only [haddr, hreply, ih]

theorem requested_iff :
    .requested v ip ∈ (web.exchange limit k u).2 ↔
      ∃ j, (j, v) ∈ trail web.next limit k u ∧ web.address j v = .ok ip := by
  rw [exchange_sent, List.mem_filterMap]
  constructor
  · rintro ⟨⟨j, w⟩, hhop, hreq⟩
    cases haddr : web.address j w with
    | error e =>
      rw [requestTo_of_error haddr] at hreq
      cases hreq
    | ok ip' =>
      rw [requestTo_of_ok haddr] at hreq
      cases hreq
      exact ⟨j, hhop, haddr⟩
  · rintro ⟨j, hhop, haddr⟩
    exact ⟨(j, v), hhop, requestTo_of_ok haddr⟩

theorem not_validated_mem_exchange {url : String} :
    .validated url ∉ (web.exchange limit k u).2 := by
  rw [exchange_sent, List.mem_filterMap]
  rintro ⟨⟨j, w⟩, -, hreq⟩
  cases haddr : web.address j w with
  | error e =>
    rw [requestTo_of_error haddr] at hreq
    cases hreq
  | ok ip =>
    rw [requestTo_of_ok haddr] at hreq
    cases hreq

end Web

/-! ## What was validated and what is requested -/

/-- Validation has accepted the address, for this URL. -/
def Accepted (web : Web) (url : String) (ip : IpAddr) : Prop :=
  validateUrl web.validation url = .ok () ∧
    ∃ u ips, web.parse url = .ok u ∧ web.validation.addressesOf u = .ok ips ∧ ip ∈ ips

/-- Every request goes to an address that was accepted for a URL that is validated in the same
trace. -/
def Covered (web : Web) (events : List WebEvent) : Prop :=
  ∀ u ip, .requested u ip ∈ events → ∃ url, .validated url ∈ events ∧ Accepted web url ip

/-- The client asks for nothing but what was accepted: its own lookup of a host that is a name
leads to an accepted address, and so does every redirect. -/
structure Stays (web : Web) (url : String) (u : Url) : Prop where
  name : ∀ name ip, u.host = some (.domain name) → web.address 0 u = .ok ip → Accepted web url ip
  redirects : ∀ hop ∈ web.redirects u, ∀ ip, web.address hop.1 hop.2 = .ok ip → Accepted web url ip

/-- The call sends a request, for this URL, which is parsed so. -/
structure WebTool.Sends (tool : WebTool) (web : Web) (params : Value) (url : String) (u : Url) :
    Prop where
  checked : web.checkedUrl params = .ok (url, u)
  built : ∃ request, tool.request web.casing url params = .ok request ∧ web.build request = .ok ()

section Calls

variable {web : Web} {params : Value} {tool : WebTool} {url : String} {u : Url} {ip : IpAddr}

theorem checkedUrl_ok_iff :
    web.checkedUrl params = .ok (url, u) ↔
      requireStr params "url" = .ok url ∧ web.parse url = .ok u ∧
        validateUrl web.validation url = .ok () := by
  unfold Web.checkedUrl
  cases hurl : requireStr params "url" with
  | error e => simp
  | ok url' =>
    cases hparse : web.parse url' with
    | error e =>
      simp only [hparse, reduceCtorEq, Except.ok.injEq, false_iff, not_and]
      rintro rfl h
      rw [hparse] at h
      cases h
    | ok parsed =>
      cases hvalid : validateUrl web.validation url' with
      | error e =>
        simp only [hparse, hvalid, reduceCtorEq, Except.ok.injEq, false_iff, not_and]
        rintro rfl -
        rw [hvalid]
        exact nofun
      | ok x =>
        simp only [hparse, hvalid, Except.ok.injEq, Prod.mk.injEq]
        constructor
        · rintro ⟨rfl, rfl⟩
          exact ⟨rfl, hparse, hvalid⟩
        · rintro ⟨rfl, h, -⟩
          rw [hparse] at h
          cases h
          exact ⟨rfl, rfl⟩

theorem WebTool.Sends.trace (h : tool.Sends web params url u) :
    (tool.execute web params).2 = .validated url :: (web.exchange web.redirectLimit 0 u).2 := by
  obtain ⟨hchecked, request, hbuilt, hsound⟩ := h
  simp only [WebTool.execute, hchecked, hbuilt, Web.send, hsound]

theorem sends_of_requested {v : Url} (h : .requested v ip ∈ (tool.execute web params).2) :
    ∃ url u, tool.Sends web params url u := by
  unfold WebTool.execute at h
  cases hchecked : web.checkedUrl params with
  | error e => simp [hchecked] at h
  | ok checked =>
    obtain ⟨url, u⟩ := checked
    cases hbuilt : tool.request web.casing url params with
    | error e => simp [hchecked, hbuilt] at h
    | ok request =>
      cases hsound : web.build request with
      | error e => simp [hchecked, hbuilt, Web.send, hsound] at h
      | ok x => exact ⟨url, u, hchecked, request, hbuilt, hsound⟩

theorem accepted_of_address (hparse : web.parse url = .ok u)
    (hvalid : validateUrl web.validation url = .ok ()) (hhost : u.host = some (.address ip)) :
    Accepted web url ip := by
  obtain ⟨u', ips, hparse', -, haddr, -⟩ := validateUrlInner_ok_iff.1 hvalid
  have hu : u' = u := Except.ok.inj (hparse'.symm.trans hparse)
  subst hu
  refine ⟨hvalid, u', ips, hparse, haddr, ?_⟩
  rw [addressesOf_address hhost haddr]
  exact List.mem_singleton_self ip

/-- The client connects to a host that is an address at that address. -/
theorem address_of_host {k : ℕ} {ip' : IpAddr} (hhost : u.host = some (.address ip))
    (haddr : web.address k u = .ok ip') : ip' = ip := by
  simp only [Web.address, hhost] at haddr
  cases hconnect : web.connect k u [ip] with
  | error e =>
    rw [hconnect] at haddr
    cases haddr
  | ok ip'' =>
    rw [hconnect] at haddr
    cases haddr
    rfl

theorem address_of_no_host {k : ℕ} (hhost : u.host = none) : web.address k u ≠ .ok ip := by
  simp [Web.address, hhost]

/-- The client connects to one of the answers of its lookup of a name. -/
theorem mem_answers_of_address {k : ℕ} {name : String}
    (hconnect : ∀ k u ips ip, web.connect k u ips = .ok ip → ip ∈ ips)
    (hhost : u.host = some (.domain name)) (haddr : web.address k u = .ok ip) :
    ∃ answers, web.lookup (k + 1) name (u.portOrKnownDefault.getD 80) = .ok answers ∧
      ip ∈ answers := by
  simp only [Web.address, hhost] at haddr
  cases hlookup : web.lookup (k + 1) name (u.portOrKnownDefault.getD 80) with
  | error e =>
    rw [hlookup] at haddr
    exact absurd (hconnect _ _ _ _ haddr) List.not_mem_nil
  | ok answers =>
    rw [hlookup] at haddr
    exact ⟨answers, rfl, hconnect _ _ _ _ haddr⟩

/-- The trace of a call is covered when each place on the trail has its address accepted. -/
theorem covered_trace_iff (h : tool.Sends web params url u) :
    Covered web (tool.execute web params).2 ↔
      ∀ hop ∈ trail web.next web.redirectLimit 0 u, ∀ ip,
        web.address hop.1 hop.2 = .ok ip → Accepted web url ip := by
  rw [h.trace]
  constructor
  · intro hcov hop hhop ip haddr
    have hreq : .requested hop.2 ip ∈ (web.exchange web.redirectLimit 0 u).2 :=
      Web.requested_iff.2 ⟨hop.1, hhop, haddr⟩
    obtain ⟨url', hurl', hacc⟩ := hcov hop.2 ip (List.mem_cons_of_mem _ hreq)
    rcases List.mem_cons.1 hurl' with heq | hmem
    · cases heq
      exact hacc
    · exact absurd hmem Web.not_validated_mem_exchange
  · intro hall v ip hreq
    rcases List.mem_cons.1 hreq with heq | hmem
    · cases heq
    · obtain ⟨j, hhop, haddr⟩ := Web.requested_iff.1 hmem
      exact ⟨url, List.mem_cons_self, hall (j, v) hhop ip haddr⟩

/-- A call whose client stays where validation has looked requests nothing else. -/
theorem covered_of_stays (hstays : ∀ url u, tool.Sends web params url u → Stays web url u) :
    Covered web (tool.execute web params).2 := by
  intro v ip hreq
  obtain ⟨url, u, hsends⟩ := sends_of_requested hreq
  refine (covered_trace_iff hsends).2 ?_ v ip hreq
  intro hop hhop ip' haddr
  rw [trail_eq_cons] at hhop
  rcases List.mem_cons.1 hhop with rfl | htail
  · -- the first request: only a name is looked up again
    obtain ⟨-, hparse, hvalid⟩ := checkedUrl_ok_iff.1 hsends.checked
    cases hhost : u.host with
    | none => exact absurd haddr (address_of_no_host hhost)
    | some host =>
      cases host with
      | address ip =>
        rw [address_of_host hhost haddr]
        exact accepted_of_address hparse hvalid hhost
      | domain name => exact (hstays url u hsends).name name ip' hhost haddr
  · exact (hstays url u hsends).redirects hop htail ip' haddr

/-- **Requests and validation**: every request of a call goes to an address that was accepted in
the same call exactly when, if the call sends a request at all, neither the client's own lookup of
a name nor a redirect leads it elsewhere. -/
theorem requests_validated_iff (tool : WebTool) (web : Web) (params : Value) :
    Covered web (tool.execute web params).2 ↔
      ∀ url u, tool.Sends web params url u → Stays web url u := by
  constructor
  · intro hcov url u hsends
    have hall := (covered_trace_iff hsends).1 hcov
    constructor
    · intro name ip _ haddr
      exact hall (0, u) mem_trail_self ip haddr
    · intro hop hhop ip haddr
      exact hall hop (List.mem_of_mem_tail hhop) ip haddr
  · exact covered_of_stays

/-- In a network that answers each lookup as the first, with a client that connects to one of the
answers, and without redirects, every request goes where validation has looked. -/
theorem covered_of_quiet (hsame : web.lookup 1 = web.lookup 0)
    (hconnect : ∀ k u ips ip, web.connect k u ips = .ok ip → ip ∈ ips)
    (hreply : ∀ k u ip v, web.reply k u ip ≠ .redirect v) :
    Covered web (tool.execute web params).2 := by
  refine covered_of_stays fun url u hsends => ?_
  obtain ⟨-, hparse, hvalid⟩ := checkedUrl_ok_iff.1 hsends.checked
  obtain ⟨u', ips, hparse', -, hips, -⟩ := validateUrlInner_ok_iff.1 hvalid
  have hu : u' = u := Except.ok.inj (hparse'.symm.trans hparse)
  subst hu
  constructor
  · intro name ip hhost haddr
    refine ⟨hvalid, u', ips, hparse, hips, ?_⟩
    obtain ⟨answers, hlookup, hmem⟩ := mem_answers_of_address hconnect hhost haddr
    rw [hsame] at hlookup
    rw [addressesOf_domain hhost hlookup hips]
    exact hmem
  · have hnext : web.next 0 u' = none := by
      unfold Web.next
      cases haddr : web.address 0 u' with
      | error e => rfl
      | ok ip =>
        cases hr : web.reply 0 u' ip with
        | failed e => simp only [hr]
        | response r => simp only [hr]
        | redirect v => exact absurd hr (hreply 0 u' ip v)
    intro hop hhop
    rw [Web.redirects, trail_of_none hnext] at hhop
    exact absurd hhop List.not_mem_nil

/-- **A server can send the client anywhere**: whatever a call requests, there is a server that
makes it request any URL that the client can connect to. -/
theorem redirected_anywhere (hsends : tool.Sends web params url u) {first : IpAddr}
    (hfirst : web.address 0 u = .ok first) (hlimit : 0 < web.redirectLimit) {target : Url}
    (htarget : web.address 1 target = .ok ip) :
    ∃ reply, .requested target ip ∈ (tool.execute { web with reply := reply } params).2 := by
  refine ⟨fun _ _ _ => .redirect target, ?_⟩
  set web' : Web := { web with reply := fun _ _ _ => .redirect target }
  have hsends' : tool.Sends web' params url u := ⟨hsends.checked, hsends.built⟩
  have hfirst' : web'.address 0 u = .ok first := hfirst
  have hnext : web'.next 0 u = some target := by
    simp only [Web.next, hfirst', web']
  rw [hsends'.trace]
  refine List.mem_cons_of_mem _ (Web.requested_iff.2 ⟨1, ?_, htarget⟩)
  obtain ⟨n, hn⟩ : ∃ n, web'.redirectLimit = n + 1 := ⟨web.redirectLimit - 1, by
    show web.redirectLimit = _
    omega⟩
  rw [hn, trail_of_some hnext]
  exact List.mem_cons_of_mem _ mem_trail_self

/-- **A name can lead the client anywhere**: whatever validation has found, there is a second
answer with which the client requests the URL at any address it can connect to. -/
theorem rebound_anywhere (hsends : tool.Sends web params url u) {name : String}
    (hhost : u.host = some (.domain name)) (hconnect : web.connect 0 u [ip] = .ok ip) :
    ∃ lookup : ℕ → Resolver, lookup 0 = web.lookup 0 ∧
      .requested u ip ∈ (tool.execute { web with lookup := lookup } params).2 := by
  refine ⟨fun n => if n = 0 then web.lookup 0 else fun _ _ => .ok [ip], rfl, ?_⟩
  set web' : Web :=
    { web with lookup := fun n => if n = 0 then web.lookup 0 else fun _ _ => .ok [ip] }
  have hsends' : tool.Sends web' params url u := ⟨hsends.checked, hsends.built⟩
  rw [hsends'.trace]
  refine List.mem_cons_of_mem _ (Web.requested_iff.2 ⟨0, mem_trail_self, ?_⟩)
  simp only [Web.address, hhost]
  exact hconnect

end Calls

theorem Accepted.not_internal {web : Web} {url : String} {ip : IpAddr} (h : Accepted web url ip) :
    ¬ Internal false ip := by
  obtain ⟨hvalid, u, ips, hparse, haddr, hip⟩ := h
  obtain ⟨u', ips', hparse', -, haddr', hips'⟩ := validateUrlInner_ok_iff.1 hvalid
  have hu : u' = u := Except.ok.inj (hparse'.symm.trans hparse)
  subst hu
  have hsame : ips' = ips := Except.ok.inj (haddr'.symm.trans haddr)
  subst hsame
  exact hips' ip hip

/-- The address of a server outside. -/
def outside : IpAddr := .v4 ⟨93, 184, 216, 34⟩

/-- The service that hands out credentials to the machine it runs on. -/
def metadataUrl : Url := ⟨"http", some (.address (.v4 metadataIpv4)), none⟩

/-- A network in which the server outside redirects to the metadata service. -/
def metadataRedirect : Web where
  parse s :=
    if s = "http://93.184.216.34/" then .ok ⟨"http", some (.address outside), none⟩
    else .error "relative URL without a base"
  casing := .ascii
  lookup _ _ _ := .error "failed to lookup address information"
  build _ := .ok ()
  connect _ _ ips :=
    match ips with
    | [] => .error "error trying to connect"
    | ip :: _ => .ok ip
  reply _ _ ip := if ip = outside then .redirect metadataUrl else .response ⟨200, some "OK", none, .ok []⟩
  redirectLimit := 10
  tooManyRedirects := "too many redirects"

/-- Both tools follow a redirect from a valid URL to the metadata service. -/
theorem metadata_requested (tool : WebTool) :
    .requested metadataUrl (.v4 metadataIpv4) ∈ (tool.execute metadataRedirect
      (.ofFields [("url", .string "http://93.184.216.34/")])).2 := by
  cases tool with
  | http => exact List.mem_cons_of_mem _ (List.mem_cons_of_mem _ List.mem_cons_self)
  | webFetch => exact List.mem_cons_of_mem _ (List.mem_cons_of_mem _ List.mem_cons_self)

/-- The same network without the redirect. -/
private def directWeb : Web :=
  { metadataRedirect with reply := fun _ _ _ => .response ⟨200, some "OK", none, .ok []⟩ }

theorem covered_without_redirect : Covered directWeb (WebTool.http.execute directWeb
    (.ofFields [("url", .string "http://93.184.216.34/")])).2 := by
  refine covered_of_quiet rfl (fun _ _ ips ip h => ?_) nofun
  cases ips with
  | nil => cases h
  | cons first rest =>
      cases h
      exact List.mem_cons_self

theorem redirected_to_metadata : ∃ reply, .requested metadataUrl (.v4 metadataIpv4) ∈
    (WebTool.http.execute { metadataRedirect with reply := reply }
      (.ofFields [("url", .string "http://93.184.216.34/")])).2 := by
  have hsends : WebTool.http.Sends metadataRedirect
      (.ofFields [("url", .string "http://93.184.216.34/")]) "http://93.184.216.34/"
      ⟨"http", some (.address outside), none⟩ := ⟨rfl, _, rfl, rfl⟩
  exact redirected_anywhere hsends rfl (by decide) rfl

/-- The URL of a name, in a network in which the name leads outside. -/
private def namedHost : Web :=
  { metadataRedirect with
    parse := fun _ => .ok ⟨"http", some (.domain "api.example"), none⟩
    lookup := fun _ _ _ => .ok [outside] }

theorem rebound_to_metadata : ∃ lookup : ℕ → Resolver, lookup 0 = namedHost.lookup 0 ∧
    .requested ⟨"http", some (.domain "api.example"), none⟩ (.v4 metadataIpv4) ∈
      (WebTool.http.execute { namedHost with lookup := lookup }
        (.ofFields [("url", .string "http://api.example/")])).2 := by
  have hsends : WebTool.http.Sends namedHost (.ofFields [("url", .string "http://api.example/")])
      "http://api.example/" ⟨"http", some (.domain "api.example"), none⟩ := ⟨rfl, _, rfl, rfl⟩
  exact rebound_anywhere hsends rfl rfl

/-- A request that goes to an address which validation never saw, and would have refused. -/
theorem redirect_not_validated :
    ¬ ∀ tool : WebTool, Covered metadataRedirect (tool.execute metadataRedirect
      (.ofFields [("url", .string "http://93.184.216.34/")])).2 := by
  intro hcov
  obtain ⟨url, -, hacc⟩ := hcov .webFetch _ _ (metadata_requested .webFetch)
  exact hacc.not_internal (.inl ⟨⟨(169 * 2 ^ 8 + 254) * 2 ^ 16, 16⟩, by decide, by decide⟩)

end Tools
end PeerClaw
