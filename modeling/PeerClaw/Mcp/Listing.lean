import PeerClaw.Lib.FiniteMap
import PeerClaw.Lib.Pool
import PeerClaw.Lib.Text
import PeerClaw.Value

/-!
# What the manager lists, and where it sends requests

At a moment when no call is in progress, the names in the maps should be those that the connected
servers have listed, and a request for one of them should go to its server.  A name is in a map
because a connected server has listed it, or because a call still has to connect the server, or to
drop what it had.

* `Sound` — what is in the maps is accounted for, in the midst of calls.
* `faithful_of_orderly` — in every run in which no section leaves anything behind or takes too
  much, the names are those that should be there, and requests for them arrive.
* `listing_not_faithful` — the tools of a server whose resources could not be listed, and a
  resource that has another URI.
-/

/-!
## The manager of MCP servers

The manager has three maps behind three locks: the client of each connected server, and the tools
and resources of all servers under their full names.  A call is cut where it awaits the server,
and between two of these locks.

* `McpManager.advance` — the next section of a call.
* `McpManager.callTool`, `McpManager.readResource` — where a request is sent, and what it names.
-/

namespace PeerClaw

open Lib

/-- `McpTool`. -/
structure McpTool where
  name : String
  description : Option String
  inputSchema : Value

/-- `McpResource`. -/
structure McpResource where
  name : String
  uri : String
  description : Option String
  mimeType : Option String

/-- What is listed. -/
inductive McpKind
  | tool
  | resource
  deriving DecidableEq

/-- `McpClient`: which connection it is, and what the server has listed on it. -/
structure McpClient where
  session : ℕ
  tools : List McpTool
  resources : List McpResource

/-- The names of what the server has listed. -/
def McpClient.names (c : McpClient) : McpKind → List String
  | .tool => c.tools.map McpTool.name
  | .resource => c.resources.map McpResource.name

/-- `McpManager`, without its configuration. -/
structure McpManager where
  clients : FiniteMap String McpClient
  tools : FiniteMap String McpTool
  resources : FiniteMap String McpResource

/-- How connecting to a server turns out. -/
structure Attempt where
  name : String
  /-- The connection, if `McpClient::connect` makes one. -/
  session : Option ℕ
  /-- What `list_tools` returns, if it does. -/
  tools : Option (List McpTool)
  /-- What `list_resources` returns, if it does. -/
  resources : Option (List McpResource)

/-- What is left of a call: of `connect` and `connect_all`, with the servers that follow, and of
`disconnect` and `disconnect_all`. -/
inductive McpTask
  | connecting (a : Attempt) (rest : List Attempt)
  /-- The tools are in the map. -/
  | listedTools (a : Attempt) (session : ℕ) (tools : List McpTool) (rest : List Attempt)
  /-- So are the resources. -/
  | listedResources (name : String) (c : McpClient) (rest : List Attempt)
  | disconnecting (name : String) (rest : List String)
  /-- The client is out of the map. -/
  | droppingTools (name : String) (c : McpClient) (rest : List String)
  /-- So are the tools. -/
  | droppingResources (name : String) (c : McpClient) (rest : List String)

namespace McpManager

/-- `McpManager::new`. -/
def empty : McpManager := ⟨∅, ∅, ∅⟩

/-- The full name of a tool or a resource. -/
def fullName (server name : String) : String := server ++ String.singleton ':' ++ name

/-- Tools are put into the map, one after the other. -/
def insertTools (m : McpManager) (server : String) (tools : List McpTool) : McpManager :=
  { m with tools := tools.foldl (fun map t => map.insert (fullName server t.name) t) m.tools }

def insertResources (m : McpManager) (server : String) (resources : List McpResource) :
    McpManager :=
  { m with
    resources := resources.foldl (fun map r => map.insert (fullName server r.name) r) m.resources }

/-- Whether a full name is one of a server, by how it begins. -/
def ofServer (server id : String) : Bool := Text.startsWith id (server ++ String.singleton ':')

/-- The next server of `connect_all`. -/
def connectNext : List Attempt → Option McpTask
  | [] => none
  | a :: rest => some (.connecting a rest)

/-- The next server of `disconnect_all`. -/
def disconnectNext : List String → Option McpTask
  | [] => none
  | name :: rest => some (.disconnecting name rest)

/-- The next section of a call, and what is left of it.  The error of a server is the end of
`connect`; `connect_all` goes on with the next one. -/
def advance (m : McpManager) : McpTask → McpManager × Option McpTask
  | .connecting a rest =>
      match a.session, a.tools with
      | some session, some tools =>
          (m.insertTools a.name tools, some (.listedTools a session tools rest))
      | _, _ => (m, connectNext rest)
  | .listedTools a session tools rest =>
      match a.resources with
      | some resources =>
          (m.insertResources a.name resources,
            some (.listedResources a.name ⟨session, tools, resources⟩ rest))
      | none => (m, connectNext rest)
  | .listedResources name c rest => ({ m with clients := m.clients.insert name c }, connectNext rest)
  | .disconnecting name rest =>
      match m.clients.lookup name with
      | some c => ({ m with clients := m.clients.erase name }, some (.droppingTools name c rest))
      | none => (m, disconnectNext rest)
  | .droppingTools name c rest =>
      ({ m with tools := m.tools.retain fun id => !ofServer name id },
        some (.droppingResources name c rest))
  | .droppingResources name _ rest =>
      ({ m with resources := m.resources.retain fun id => !ofServer name id }, disconnectNext rest)

/-- The client and the name that a full name is cut into. -/
def route (m : McpManager) (what id : String) : Except String (McpClient × String) :=
  match Text.splitOnce ':' id with
  | none => .error ("Invalid " ++ what ++ " name format: " ++ id)
  | some (server, name) =>
      match m.clients.lookup server with
      | none => .error ("Server not connected: " ++ server)
      | some c => .ok (c, name)

/-- `McpManager::call_tool`: to which client `tools/call` is sent, and with which name. -/
def callTool (m : McpManager) (id : String) : Except String (McpClient × String) := m.route "tool" id

/-- `McpManager::read_resource`: to which client `resources/read` is sent, and with which URI. -/
def readResource (m : McpManager) (id : String) : Except String (McpClient × String) :=
  m.route "resource" id

/-! ## Runs -/

/-- What can happen. -/
inductive Event
  | connect (a : Attempt)
  /-- The servers of an enabled configuration. -/
  | connectAll (servers : List Attempt)
  | disconnect (name : String)
  /-- The names are those of the clients when it is called. -/
  | disconnectAll (names : List String)
  /-- The call at this place runs its next section. -/
  | resume (k : ℕ)

/-- The manager and the calls on it. -/
abbrev Running := Pool McpManager McpTask

/-- A new manager. -/
def started : Running := ⟨empty, []⟩

/-- A call begins, unless it has nothing to do. -/
def begin (p : Running) : Option McpTask → Running
  | some t => p.step advance (.start t)
  | none => p

def step (p : Running) : Event → Running
  | .connect a => begin p (connectNext [a])
  | .connectAll servers => begin p (connectNext servers)
  | .disconnect name => begin p (disconnectNext [name])
  | .disconnectAll names => begin p (disconnectNext names)
  | .resume k => p.step advance (.resume k)

end McpManager
end PeerClaw

namespace PeerClaw
namespace McpManager

open Lib Lib.Machine

/-! ## What should hold -/

/-- The name is in the map. -/
def Has (m : McpManager) : McpKind → String → Prop
  | .tool, id => id ∈ m.tools
  | .resource, id => id ∈ m.resources

/-- A connected server has listed it. -/
def Lists (m : McpManager) (kind : McpKind) (id : String) : Prop :=
  ∃ server c, m.clients.lookup server = some c ∧ ∃ name ∈ c.names kind, id = fullName server name

/-- The names are those that the connected servers have listed, and a request for one of them goes
to the server, with the name of its tool or the URI of its resource. -/
structure Faithful (m : McpManager) : Prop where
  listed : ∀ kind id, m.Has kind id ↔ m.Lists kind id
  called : ∀ server c, m.clients.lookup server = some c → ∀ t ∈ c.tools,
    m.callTool (fullName server t.name) = .ok (c, t.name)
  read : ∀ server c, m.clients.lookup server = some c → ∀ r ∈ c.resources,
    m.readResource (fullName server r.name) = .ok (c, r.uri)

/-! ## What is in the maps for a call -/

/-- A call has put it into the map and is about to connect the server. -/
def Connects (kind : McpKind) (id : String) : McpTask → Prop
  | .listedTools a _ tools _ => kind = .tool ∧ ∃ t ∈ tools, id = fullName a.name t.name
  | .listedResources server c _ => ∃ name ∈ c.names kind, id = fullName server name
  | _ => False

/-- A call is about to drop it. -/
def Drops (kind : McpKind) (id : String) : McpTask → Prop
  | .droppingTools server c _ => ∃ name ∈ c.names kind, id = fullName server name
  | .droppingResources server c _ =>
      kind = .resource ∧ ∃ name ∈ c.names kind, id = fullName server name
  | _ => False

/-- A connected server, or one that a call is about to connect, has listed it. -/
def Needed (p : Running) (kind : McpKind) (id : String) : Prop :=
  p.OwedIn (fun m => m.Lists kind id) fun _ t => Connects kind id t

/-- The same, or a call is about to drop it. -/
def Accounted (p : Running) (kind : McpKind) (id : String) : Prop :=
  p.OwedIn (fun m => m.Lists kind id) fun _ t => Connects kind id t ∨ Drops kind id t

/-- The sections of calls that leave something behind, or take too much.  If the resources cannot
be listed, the server that is connected under this name has listed the tools; a server that is
connected lists what the one before it has listed, under a name without a colon, and its resources
have their URIs as names; and nothing that is needed begins as what is dropped. -/
def OrderlySection (p : Running) : McpTask → Prop
  | .listedTools a _ tools _ => a.resources = none →
      ∀ t ∈ tools, p.shared.Lists .tool (fullName a.name t.name)
  | .listedResources server c _ =>
      (∀ old, p.shared.clients.lookup server = some old → ∀ kind, old.names kind ⊆ c.names kind) ∧
      (c.tools ≠ [] ∨ c.resources ≠ [] → ':' ∉ server.toList) ∧ ∀ r ∈ c.resources, r.uri = r.name
  | .droppingTools server _ _ => ∀ id, Needed p .tool id → ofServer server id = false
  | .droppingResources server _ _ => ∀ id, Needed p .resource id → ofServer server id = false
  | .connecting _ _ | .disconnecting _ _ => True

/-- A section that is orderly, or the beginning of any call. -/
def Orderly (p : Running) (e : Event) : Prop :=
  ∀ k t, e = .resume k → p.taskAt k = some t → OrderlySection p t

/-- The names in the maps are accounted for, those that are needed are there, and the connected
servers can be asked for what they have listed. -/
structure Sound (p : Running) : Prop where
  accounted : ∀ kind id, p.shared.Has kind id → Accounted p kind id
  needed : ∀ kind id, Needed p kind id → p.shared.Has kind id
  plain : ∀ server c, p.shared.clients.lookup server = some c →
    c.tools ≠ [] ∨ c.resources ≠ [] → ':' ∉ server.toList
  uris : ∀ server c, p.shared.clients.lookup server = some c → ∀ r ∈ c.resources, r.uri = r.name

section Maps

variable {m : McpManager} {server id : String} {kind : McpKind}

theorem has_insertTools (tools : List McpTool) : (m.insertTools server tools).Has kind id ↔
    m.Has kind id ∨ kind = .tool ∧ ∃ t ∈ tools, id = fullName server t.name := by
  cases kind with
  | tool => simpa [Has, insertTools] using Finmap.mem_foldl_insert (fun t => fullName server t.name) tools m.tools
  | resource => simp [Has, insertTools]

theorem has_insertResources (resources : List McpResource) :
    (m.insertResources server resources).Has kind id ↔
      m.Has kind id ∨ kind = .resource ∧ ∃ r ∈ resources, id = fullName server r.name := by
  cases kind with
  | tool => simp [Has, insertResources]
  | resource =>
      simpa [Has, insertResources] using
        Finmap.mem_foldl_insert (fun r => fullName server r.name) resources m.resources

theorem ofServer_fullName (name : String) : ofServer server (fullName server name) = true := by
  simp [ofServer, Text.startsWith, fullName]

theorem lists_insert {c : McpClient} :
    Lists { m with clients := m.clients.insert server c } kind id ↔
      (∃ name ∈ c.names kind, id = fullName server name) ∨
      ∃ server' c', server' ≠ server ∧ m.clients.lookup server' = some c' ∧
        ∃ name ∈ c'.names kind, id = fullName server' name := by
  unfold Lists
  simp only [Finmap.lookup_insert_eq]
  constructor
  · rintro ⟨server', c', hlookup, hname⟩
    by_cases hserver : server' = server
    · subst hserver
      rw [if_pos rfl] at hlookup
      obtain rfl := Option.some.inj hlookup
      exact .inl hname
    · rw [if_neg hserver] at hlookup
      exact .inr ⟨server', c', hserver, hlookup, hname⟩
  · rintro (hname | ⟨server', c', hserver, hlookup, hname⟩)
    · exact ⟨server, c, if_pos rfl, hname⟩
    · exact ⟨server', c', by rw [if_neg hserver, hlookup], hname⟩

theorem lookup_of_erase {server' : String} {c : McpClient}
    (h : (m.clients.erase server).lookup server' = some c) :
    server' ≠ server ∧ m.clients.lookup server' = some c := by
  rw [Finmap.lookup_erase_eq] at h
  split at h
  next => cases h
  next hne => exact ⟨hne, h⟩

end Maps

/-! ## Sections -/

section Sections

variable {p : Running} {k : ℕ} {t : McpTask}

/-- What is left of a call after a section, and the manager, account for a name. -/
def AccountedBy (next : McpManager × Option McpTask) (kind : McpKind) (id : String) : Prop :=
  next.1.Lists kind id ∨ ∃ t', next.2 = some t' ∧ (Connects kind id t' ∨ Drops kind id t')

/-- They need it. -/
def NeededBy (next : McpManager × Option McpTask) (kind : McpKind) (id : String) : Prop :=
  next.1.Lists kind id ∨ ∃ t', next.2 = some t' ∧ Connects kind id t'

/-- **The section rule**: what a section of a call has to do with the names for which the manager
and this call have accounted. -/
theorem Sound.resume (h : Sound p) (hk : p.taskAt k = some t)
    (hacc : ∀ kind id, (advance p.shared t).1.Has kind id →
      AccountedBy (advance p.shared t) kind id ∨ p.shared.Has kind id ∧
        (p.shared.Lists kind id ∨ Connects kind id t ∨ Drops kind id t →
          AccountedBy (advance p.shared t) kind id))
    (hneed : ∀ kind id, NeededBy (advance p.shared t) kind id →
      (advance p.shared t).1.Has kind id)
    (hkeep : ∀ kind id, Needed p kind id → (advance p.shared t).1.Has kind id)
    (hplain : ∀ server c, (advance p.shared t).1.clients.lookup server = some c →
      c.tools ≠ [] ∨ c.resources ≠ [] → ':' ∉ server.toList)
    (huris : ∀ server c, (advance p.shared t).1.clients.lookup server = some c →
      ∀ r ∈ c.resources, r.uri = r.name) : Sound (p.step advance (.resume k)) := by
  refine ⟨fun kind id hhas => ?_, fun kind id hneeded => ?_, ?_, ?_⟩
  · rw [Pool.shared_resume hk] at hhas
    unfold Accounted
    rw [Pool.owedIn_resume_iff hk, ← or_assoc]
    rcases hacc kind id hhas with hdone | ⟨hold, hmine⟩
    · exact .inl hdone
    · rcases h.accounted kind id hold with hlists | ⟨j, t', hj, howes⟩
      · exact .inl (hmine (.inl hlists))
      · by_cases hjk : j = k
        · subst hjk
          obtain rfl := Option.some.inj (hk.symm.trans hj)
          exact .inl (hmine (.inr howes))
        · exact .inr ⟨j, t', hjk, hj, howes⟩
  · rw [Pool.shared_resume hk]
    unfold Needed at hneeded
    rw [Pool.owedIn_resume_iff hk, ← or_assoc] at hneeded
    rcases hneeded with hnow | ⟨j, t', -, hj, howes⟩
    · exact hneed kind id hnow
    · exact hkeep kind id (.inr ⟨j, t', hj, howes⟩)
  · rw [Pool.shared_resume hk]
    exact hplain
  · rw [Pool.shared_resume hk]
    exact huris

theorem connectNext_owes {rest : List Attempt} {kind : McpKind} {id : String} {t' : McpTask}
    (h : connectNext rest = some t') : ¬ (Connects kind id t' ∨ Drops kind id t') := by
  cases rest with
  | nil => cases h
  | cons a rest =>
      obtain rfl := Option.some.inj h
      rintro (hfalse | hfalse) <;> exact hfalse

theorem disconnectNext_owes {rest : List String} {kind : McpKind} {id : String} {t' : McpTask}
    (h : disconnectNext rest = some t') : ¬ (Connects kind id t' ∨ Drops kind id t') := by
  cases rest with
  | nil => cases h
  | cons name rest =>
      obtain rfl := Option.some.inj h
      rintro (hfalse | hfalse) <;> exact hfalse

theorem Sound.idle (h : Sound p) (hk : p.taskAt k = some t) {left : Option McpTask}
    (hadvance : advance p.shared t = (p.shared, left))
    (ht : ∀ kind id, Connects kind id t ∨ Drops kind id t → p.shared.Lists kind id)
    (hleft : ∀ kind id t', left = some t' → ¬ Connects kind id t') :
    Sound (p.step advance (.resume k)) := by
  refine h.resume hk ?_ ?_ ?_ ?_ ?_
  all_goals rw [hadvance]
  · intro kind id hhas
    refine .inr ⟨hhas, ?_⟩
    rintro (hlists | howes)
    · exact .inl hlists
    · exact .inl (ht kind id howes)
  · rintro kind id (hlists | ⟨t', hsome, hconnects⟩)
    · exact h.needed kind id (.inl hlists)
    · exact absurd hconnects (hleft kind id t' hsome)
  · exact h.needed
  · exact h.plain
  · exact h.uris

theorem sound_connecting (h : Sound p) {a : Attempt} {rest : List Attempt}
    (hk : p.taskAt k = some (.connecting a rest)) : Sound (p.step advance (.resume k)) := by
  by_cases hlisted : ∃ session tools, a.session = some session ∧ a.tools = some tools
  · obtain ⟨session, tools, hsession, htools⟩ := hlisted
    have hadvance : advance p.shared (.connecting a rest) =
        (p.shared.insertTools a.name tools, some (.listedTools a session tools rest)) := by
      simp only [advance, hsession, htools]
    refine h.resume hk ?_ ?_ ?_ ?_ ?_
    all_goals rw [hadvance]
    · intro kind id hhas
      rcases (has_insertTools tools).1 hhas with hold | hnew
      · refine .inr ⟨hold, ?_⟩
        rintro (hlists | hfalse | hfalse)
        · exact .inl hlists
        · exact hfalse.elim
        · exact hfalse.elim
      · exact .inl (.inr ⟨_, rfl, .inl hnew⟩)
    · rintro kind id (hlists | ⟨t', hsome, hconnects⟩)
      · exact (has_insertTools tools).2 (.inl (h.needed kind id (.inl hlists)))
      · obtain rfl := Option.some.inj hsome
        exact (has_insertTools tools).2 (.inr hconnects)
    · intro kind id hneeded
      exact (has_insertTools tools).2 (.inl (h.needed kind id hneeded))
    · exact h.plain
    · exact h.uris
  · have hadvance : advance p.shared (.connecting a rest) = (p.shared, connectNext rest) := by
      cases hsession : a.session with
      | none => simp only [advance, hsession]
      | some session =>
          cases htools : a.tools with
          | none => simp only [advance, hsession, htools]
          | some tools => exact absurd ⟨session, tools, hsession, htools⟩ hlisted
    refine h.idle hk hadvance ?_ fun kind id t' hsome hconnects =>
      connectNext_owes hsome (.inl hconnects)
    rintro kind id (hfalse | hfalse) <;> exact hfalse.elim

theorem sound_listedTools (h : Sound p) {a : Attempt} {session : ℕ} {tools : List McpTool}
    {rest : List Attempt} (hk : p.taskAt k = some (.listedTools a session tools rest))
    (horderly : OrderlySection p (.listedTools a session tools rest)) :
    Sound (p.step advance (.resume k)) := by
  cases hresources : a.resources with
  | none =>
      have hadvance : advance p.shared (.listedTools a session tools rest) =
          (p.shared, connectNext rest) := by
        simp only [advance, hresources]
      refine h.idle hk hadvance ?_ fun kind id t' hsome hconnects =>
        connectNext_owes hsome (.inl hconnects)
      rintro kind id (⟨rfl, tool, htool, rfl⟩ | hfalse)
      · exact horderly hresources tool htool
      · exact hfalse.elim
  | some resources =>
      have hadvance : advance p.shared (.listedTools a session tools rest) =
          (p.shared.insertResources a.name resources,
            some (.listedResources a.name ⟨session, tools, resources⟩ rest)) := by
        simp only [advance, hresources]
      have hnames : ∀ {kind id}, Connects kind id
          (.listedResources a.name ⟨session, tools, resources⟩ rest) ↔
          (kind = .tool ∧ ∃ t ∈ tools, id = fullName a.name t.name) ∨
          (kind = .resource ∧ ∃ r ∈ resources, id = fullName a.name r.name) := by
        intro kind id
        cases kind <;> simp [Connects, McpClient.names]
      refine h.resume hk ?_ ?_ ?_ ?_ ?_
      all_goals rw [hadvance]
      · intro kind id hhas
        rcases (has_insertResources resources).1 hhas with hold | hnew
        · refine .inr ⟨hold, ?_⟩
          rintro (hlists | hconnects | hfalse)
          · exact .inl hlists
          · exact .inr ⟨_, rfl, .inl (hnames.2 (.inl hconnects))⟩
          · exact hfalse.elim
        · exact .inl (.inr ⟨_, rfl, .inl (hnames.2 (.inr hnew))⟩)
      · rintro kind id (hlists | ⟨t', hsome, hconnects⟩)
        · exact (has_insertResources resources).2 (.inl (h.needed kind id (.inl hlists)))
        · obtain rfl := Option.some.inj hsome
          rcases hnames.1 hconnects with hmine | hnew
          · exact (has_insertResources resources).2
              (.inl (h.needed kind id (.inr ⟨k, _, hk, hmine⟩)))
          · exact (has_insertResources resources).2 (.inr hnew)
      · intro kind id hneeded
        exact (has_insertResources resources).2 (.inl (h.needed kind id hneeded))
      · exact h.plain
      · exact h.uris

theorem sound_listedResources (h : Sound p) {server : String} {c : McpClient}
    {rest : List Attempt} (hk : p.taskAt k = some (.listedResources server c rest))
    (horderly : OrderlySection p (.listedResources server c rest)) :
    Sound (p.step advance (.resume k)) := by
  obtain ⟨hmore, hplain, huris⟩ := horderly
  have hclients : ∀ {server' c'},
      (p.shared.clients.insert server c).lookup server' = some c' →
        server' = server ∧ c' = c ∨ p.shared.clients.lookup server' = some c' := by
    intro server' c' hlookup
    rw [Finmap.lookup_insert_eq] at hlookup
    split at hlookup
    next heq => exact .inl ⟨heq, (Option.some.inj hlookup).symm⟩
    next => exact .inr hlookup
  refine h.resume hk ?_ ?_ ?_ ?_ ?_
  · intro kind id hhas
    refine .inr ⟨hhas, ?_⟩
    rintro (⟨server', c', hlookup, name, hname, hid⟩ | hconnects | hfalse)
    · refine .inl (lists_insert.2 ?_)
      by_cases hserver : server' = server
      · subst hserver
        exact .inl ⟨name, hmore c' hlookup kind hname, hid⟩
      · exact .inr ⟨server', c', hserver, hlookup, name, hname, hid⟩
    · exact .inl (lists_insert.2 (.inl hconnects))
    · exact hfalse.elim
  · rintro kind id (hlists | ⟨t', hsome, hconnects⟩)
    · rcases lists_insert.1 hlists with hmine | ⟨server', c', -, hlookup, hname⟩
      · exact h.needed kind id (.inr ⟨k, _, hk, hmine⟩)
      · exact h.needed kind id (.inl ⟨server', c', hlookup, hname⟩)
    · exact absurd (.inl hconnects) (connectNext_owes hsome)
  · exact h.needed
  · intro server' c' hlookup hsome
    rcases hclients hlookup with ⟨rfl, rfl⟩ | hold
    · exact hplain hsome
    · exact h.plain server' c' hold hsome
  · intro server' c' hlookup
    rcases hclients hlookup with ⟨rfl, rfl⟩ | hold
    · exact huris
    · exact h.uris server' c' hold

theorem sound_disconnecting (h : Sound p) {server : String} {rest : List String}
    (hk : p.taskAt k = some (.disconnecting server rest)) : Sound (p.step advance (.resume k)) := by
  cases hclient : p.shared.clients.lookup server with
  | none =>
      have hadvance : advance p.shared (.disconnecting server rest) =
          (p.shared, disconnectNext rest) := by
        simp only [advance, hclient]
      refine h.idle hk hadvance ?_ fun kind id t' hsome hconnects =>
        disconnectNext_owes hsome (.inl hconnects)
      rintro kind id (hfalse | hfalse) <;> exact hfalse.elim
  | some c =>
      have hadvance : advance p.shared (.disconnecting server rest) =
          ({ p.shared with clients := p.shared.clients.erase server },
            some (.droppingTools server c rest)) := by
        simp only [advance, hclient]
      refine h.resume hk ?_ ?_ ?_ ?_ ?_
      all_goals rw [hadvance]
      · intro kind id hhas
        refine .inr ⟨hhas, ?_⟩
        rintro (⟨server', c', hlookup, hname⟩ | hfalse | hfalse)
        · by_cases hserver : server' = server
          · subst hserver
            obtain rfl := Option.some.inj (hclient.symm.trans hlookup)
            exact .inr ⟨_, rfl, .inr hname⟩
          · refine .inl ⟨server', c', ?_, hname⟩
            rw [Finmap.lookup_erase_eq, if_neg hserver, hlookup]
        · exact hfalse.elim
        · exact hfalse.elim
      · rintro kind id (⟨server', c', hlookup, hname⟩ | ⟨t', hsome, hconnects⟩)
        · exact h.needed kind id (.inl ⟨server', c', (lookup_of_erase hlookup).2, hname⟩)
        · obtain rfl := Option.some.inj hsome
          exact hconnects.elim
      · exact h.needed
      · intro server' c' hlookup
        exact h.plain server' c' (lookup_of_erase hlookup).2
      · intro server' c' hlookup
        exact h.uris server' c' (lookup_of_erase hlookup).2

theorem sound_droppingTools (h : Sound p) {server : String} {c : McpClient} {rest : List String}
    (hk : p.taskAt k = some (.droppingTools server c rest))
    (horderly : OrderlySection p (.droppingTools server c rest)) :
    Sound (p.step advance (.resume k)) := by
  have hkept : ∀ {kind id}, (advance p.shared (.droppingTools server c rest)).1.Has kind id ↔
      p.shared.Has kind id ∧ (kind = .tool → ofServer server id = false) := by
    intro kind id
    cases kind with
    | tool => simpa [Has, advance] using Finmap.mem_retain p.shared.tools fun id => !ofServer server id
    | resource => simp [advance, Has]
  have hstays : ∀ kind id, Needed p kind id →
      (advance p.shared (.droppingTools server c rest)).1.Has kind id := by
    intro kind id hneeded
    refine hkept.2 ⟨h.needed kind id hneeded, ?_⟩
    rintro rfl
    exact horderly id hneeded
  refine h.resume hk ?_ ?_ hstays h.plain h.uris
  · intro kind id hhas
    obtain ⟨hold, hother⟩ := hkept.1 hhas
    refine .inr ⟨hold, ?_⟩
    rintro (hlists | hfalse | ⟨name, hname, rfl⟩)
    · exact .inl hlists
    · exact hfalse.elim
    · cases kind with
      | tool => exact absurd (ofServer_fullName name) (by rw [hother rfl]; exact Bool.false_ne_true)
      | resource => exact .inr ⟨_, rfl, .inr ⟨rfl, name, hname, rfl⟩⟩
  · rintro kind id (hlists | ⟨t', hsome, hconnects⟩)
    · exact hstays kind id (.inl hlists)
    · obtain rfl := Option.some.inj hsome
      exact hconnects.elim

theorem sound_droppingResources (h : Sound p) {server : String} {c : McpClient}
    {rest : List String} (hk : p.taskAt k = some (.droppingResources server c rest))
    (horderly : OrderlySection p (.droppingResources server c rest)) :
    Sound (p.step advance (.resume k)) := by
  have hkept : ∀ {kind id}, (advance p.shared (.droppingResources server c rest)).1.Has kind id ↔
      p.shared.Has kind id ∧ (kind = .resource → ofServer server id = false) := by
    intro kind id
    cases kind with
    | tool => simp [advance, Has]
    | resource =>
        simpa [Has, advance] using Finmap.mem_retain p.shared.resources fun id => !ofServer server id
  have hstays : ∀ kind id, Needed p kind id →
      (advance p.shared (.droppingResources server c rest)).1.Has kind id := by
    intro kind id hneeded
    refine hkept.2 ⟨h.needed kind id hneeded, ?_⟩
    rintro rfl
    exact horderly id hneeded
  refine h.resume hk ?_ ?_ hstays h.plain h.uris
  · intro kind id hhas
    obtain ⟨hold, hother⟩ := hkept.1 hhas
    refine .inr ⟨hold, ?_⟩
    rintro (hlists | hfalse | ⟨rfl, name, -, rfl⟩)
    · exact .inl hlists
    · exact hfalse.elim
    · exact absurd (ofServer_fullName name) (by rw [hother rfl]; exact Bool.false_ne_true)
  · rintro kind id (hlists | ⟨t', hsome, hconnects⟩)
    · exact hstays kind id (.inl hlists)
    · exact absurd (.inl hconnects) (disconnectNext_owes hsome)

theorem sound_section (h : Sound p) (hk : p.taskAt k = some t) (horderly : OrderlySection p t) :
    Sound (p.step advance (.resume k)) := by
  cases t with
  | connecting a rest => exact sound_connecting h hk
  | listedTools a session tools rest => exact sound_listedTools h hk horderly
  | listedResources server c rest => exact sound_listedResources h hk horderly
  | disconnecting server rest => exact sound_disconnecting h hk
  | droppingTools server c rest => exact sound_droppingTools h hk horderly
  | droppingResources server c rest => exact sound_droppingResources h hk horderly

theorem sound_begin (h : Sound p) {o : Option McpTask}
    (ho : ∀ kind id t', o = some t' → ¬ (Connects kind id t' ∨ Drops kind id t')) :
    Sound (begin p o) := by
  cases o with
  | none => exact h
  | some t =>
      refine ⟨fun kind id hhas => ?_, ?_, h.plain, h.uris⟩
      · exact @Pool.owedIn_start _ _ advance _ _ _ (h.accounted kind id hhas) t
      · rintro kind id (hlists | ⟨j, t', hj, hconnects⟩)
        · exact h.needed kind id (.inl hlists)
        · rw [begin, Pool.taskAt_start] at hj
          split at hj
          next =>
              obtain rfl := Option.some.inj hj
              exact absurd (.inl hconnects) (ho kind id t rfl)
          next => exact h.needed kind id (.inr ⟨j, t', hj, hconnects⟩)

theorem sound_step (h : Sound p) {e : Event} (horderly : Orderly p e) : Sound (step p e) := by
  cases e with
  | connect a => exact @sound_begin p h (connectNext [a]) fun _ _ _ => connectNext_owes
  | connectAll servers => exact sound_begin h fun _ _ _ => connectNext_owes
  | disconnect name =>
      exact @sound_begin p h (disconnectNext [name]) fun _ _ _ => disconnectNext_owes
  | disconnectAll names => exact sound_begin h fun _ _ _ => disconnectNext_owes
  | resume k =>
      show Sound (p.step advance (.resume k))
      cases hk : p.taskAt k with
      | none =>
          rw [Pool.step_resume_none hk]
          exact h
      | some t => exact sound_section h hk (horderly k t rfl hk)

end Sections

/-- A full name is cut where it was joined, if the server has no colon. -/
theorem route_fullName {m : McpManager} {server : String} {c : McpClient} (what name : String)
    (hlookup : m.clients.lookup server = some c) (hplain : ':' ∉ server.toList) :
    m.route what (fullName server name) = .ok (c, name) := by
  unfold route fullName
  rw [Text.splitOnce_append hplain]
  dsimp only
  rw [hlookup]

/-- When no call is in progress, all that is accounted for is listed by a connected server. -/
theorem Sound.faithful {p : Running} (h : Sound p) (hquiet : p.Quiescent) : Faithful p.shared where
  listed kind id := ⟨fun hhas => (h.accounted kind id hhas).settled hquiet,
    fun hlists => h.needed kind id (.inl hlists)⟩
  called server c hlookup t ht :=
    route_fullName "tool" t.name hlookup
      (h.plain server c hlookup (.inl (List.ne_nil_of_mem ht)))
  read server c hlookup r hr := by
    rw [h.uris server c hlookup r hr]
    exact route_fullName "resource" r.name hlookup
      (h.plain server c hlookup (.inr (List.ne_nil_of_mem hr)))

/-- **What is listed can be used**: in every run of orderly sections, whenever no call is in
progress. -/
theorem faithful_of_orderly (es : List Event) (h : Along step Orderly started es) :
    Always step (fun p => p.Quiescent → Faithful p.shared) started es := by
  have hstart : Sound started := by
    refine ⟨fun kind id hhas => ?_, fun kind id hneeded => ?_, nofun, nofun⟩
    · cases kind <;> exact absurd hhas (Finmap.notMem_empty)
    · rcases hneeded with ⟨server, c, hlookup, -⟩ | ⟨j, t, hj, -⟩
      · cases hlookup
      · cases hj
  have halways : Always step Sound started es :=
    always_of_inv (fun p e hsound horderly => sound_step hsound horderly) hstart h
  intro pre post hsplit hquiet
  exact (halways pre post hsplit).faithful hquiet

section Example

private def search : McpTool := ⟨"search", none, .ofFields [("type", .string "object")]⟩

/-- A server with a tool and a resource, whose name is its URI. -/
private def docs : Attempt := ⟨"docs", some 1, some [search], some [⟨"notes:1", "notes:1", none, none⟩]⟩

/-- A server is connected, and can be asked for what it has listed. -/
theorem faithful_docs : Always step (fun p => p.Quiescent → Faithful p.shared) started
    [.connect docs, .resume 0, .resume 0, .resume 0] := by
  refine faithful_of_orderly _ ⟨nofun, ?_, ?_, ?_, trivial⟩
  · rintro k t hk ht
    obtain rfl := Event.resume.inj hk
    obtain rfl := Option.some.inj ht
    trivial
  · rintro k t hk ht
    obtain rfl := Event.resume.inj hk
    obtain rfl := Option.some.inj ht
    rintro ⟨⟩
  · rintro k t hk ht
    obtain rfl := Event.resume.inj hk
    obtain rfl := Option.some.inj ht
    refine ⟨nofun, fun _ => by decide, fun r hr => ?_⟩
    rw [List.mem_singleton.1 hr]

/-- A server whose resources cannot be listed. -/
private def halfway : Attempt := { docs with resources := none }

/-- A server with a resource that has another URI. -/
private def files : Attempt :=
  ⟨"files", some 2, some [], some [⟨"readme", "file:///readme.md", none, none⟩]⟩

/-- **What is left behind**: the tools of a server whose resources could not be listed stay in the
map, and nobody is connected that has listed them.  **What is asked for**: the resource of a
server is asked for under its name, which is not its URI. -/
theorem listing_not_faithful :
    ¬ Always step (fun p => p.Quiescent → Faithful p.shared) started
      [.connect halfway, .resume 0, .resume 0] ∧
    ¬ Always step (fun p => p.Quiescent → Faithful p.shared) started
      [.connect files, .resume 0, .resume 0, .resume 0] := by
  constructor
  · intro h
    have hfaithful := h.last (by decide)
    have hleft : "docs:search" ∈ (run step started
        [.connect halfway, .resume 0, .resume 0]).shared.tools := by
      decide
    obtain ⟨server, c, hlookup, -⟩ := (hfaithful.listed .tool "docs:search").1 hleft
    cases hlookup
  · intro h
    have hfaithful := h.last (by decide)
    have hread := hfaithful.read "files" ⟨2, [], [⟨"readme", "file:///readme.md", none, none⟩]⟩ rfl
      ⟨"readme", "file:///readme.md", none, none⟩ (List.mem_singleton_self _)
    have hname : ("readme" : String) = "file:///readme.md" :=
      (Prod.mk.inj (Except.ok.inj hread)).2
    revert hname
    decide

end Example

end McpManager
end PeerClaw
