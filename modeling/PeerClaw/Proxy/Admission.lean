import PeerClaw.Lib.FiniteMap
import PeerClaw.Lib.Pool
import PeerClaw.Lib.Window
import PeerClaw.Proxy.Payment

/-!
# Admission to the proxy

`proxy/mod.rs` admits a request in up to four sections, each with a lock of its own: the
rate limit is checked, a request without a proof of payment asks for the free tier
and then uses it, and at the end the request is recorded for the rate limit.  Each
section has read the clock before it waits for its lock.

* `checkRateLimit`, `checkFreeTier`, `useFreeTier`, `recordRequest` — the sections.
* `admission_bounded` — as long as no counter is set back to a window before its own,
  the limits are kept exactly in the runs in which every grant and every record still
  finds the room that the check before it has found.
* `both_admitted` — two requests that check before either is counted.
-/

namespace PeerClaw
namespace Proxy

open Lib Lib.Machine

/-- What the sections read of the configuration. -/
structure ProxyConfig where
  rateLimitPerMinute : UInt32
  freeTierEnabled : Bool
  freeTierRequestsPerHour : UInt32
  deriving DecidableEq

/-- For each client, the hour or minute it was last counted in, and how often. -/
abbrev UsageMap := FiniteMap String (ℕ × UInt32)

/-- Shared state for the proxy server. -/
structure ProxyState where
  freeTierUsage : UsageMap
  rateLimits : UsageMap
  deriving DecidableEq

/-- Check a counter against its limit. -/
def underLimit (usage : UsageMap) (clientId : String) (current : ℕ) (limit : UInt32) : Bool :=
  match usage.lookup clientId with
  | some (window, count) => if window = current then count < limit else true
  | none => true

/-- Add one to a counter, starting a new window where the old one is another. -/
def countRequest (usage : UsageMap) (clientId : String) (current : ℕ) : UsageMap :=
  let (window, count) := (usage.lookup clientId).getD (current, 0)
  usage.insert clientId (if window = current then (window, count + 1) else (current, 0 + 1))

/-- Check if client has free tier allowance remaining. -/
def checkFreeTier (config : ProxyConfig) (state : ProxyState) (clientId : String) (now : ℕ) : Bool :=
  config.freeTierEnabled &&
    underLimit state.freeTierUsage clientId (now / 3600) config.freeTierRequestsPerHour

/-- Consume a free tier request. -/
def useFreeTier (state : ProxyState) (clientId : String) (now : ℕ) : ProxyState :=
  { state with freeTierUsage := countRequest state.freeTierUsage clientId (now / 3600) }

/-- Check rate limit for a client. -/
def checkRateLimit (config : ProxyConfig) (state : ProxyState) (clientId : String) (now : ℕ) :
    Bool :=
  underLimit state.rateLimits clientId (now / 60) config.rateLimitPerMinute

/-- Record a request for rate limiting. -/
def recordRequest (state : ProxyState) (clientId : String) (now : ℕ) : ProxyState :=
  { state with rateLimits := countRequest state.rateLimits clientId (now / 60) }

/-! ## Requests -/

/-- A request: its headers, the price of its endpoint, and what its sections read from the clock,
in seconds. -/
structure ProxyRequest where
  headers : ProxyHeaders
  price : UInt64
  rateCheckedAt : ℕ
  freeCheckedAt : ℕ
  freeUsedAt : ℕ
  recordedAt : ℕ
  deriving DecidableEq

/-- The client the request names. -/
def ProxyRequest.clientId (r : ProxyRequest) : String := r.headers.clientId.getD "anonymous"

inductive ProxyError
  /-- No proof: the text asks for the price, and for the header `X-Payment-Proof`. -/
  | paymentRequired (price : UInt64)
  | verificationFailed
  | invalidPayment (message : String)
  | rateLimited
  deriving DecidableEq

/-- The next section of a request. -/
inductive ProxyTask
  | rateCheck (r : ProxyRequest)
  | freeCheck (r : ProxyRequest)
  | freeUse (r : ProxyRequest)
  | record (r : ProxyRequest)
  deriving DecidableEq

/-- The proxy, with what it has done: the free requests it has granted, by client and hour, the
requests it has admitted, by client and minute, and the answers; an admitted request is
answered with its price. -/
structure ProxyWorld where
  state : ProxyState
  granted : List (String × ℕ)
  admitted : List (String × ℕ)
  answers : List (Except ProxyError UInt64)

/-- The request is answered, and ends. -/
def ProxyWorld.answer (w : ProxyWorld) (a : Except ProxyError UInt64) :
    ProxyWorld × Option ProxyTask := ({ w with answers := w.answers ++ [a] }, none)

/-- What `proxy_handler` does once the rate limit has been checked: price and payment take no
lock, and a disabled free tier is not asked for. -/
def afterRateLimit (config : ProxyConfig) (w : ProxyWorld) (r : ProxyRequest) :
    ProxyWorld × Option ProxyTask :=
  match PaymentProof.fromHeaders r.headers with
  | some proof =>
      match PaymentProof.verify proof r.price with
      | .error message => w.answer (.error (.invalidPayment message))
      | .ok false => w.answer (.error .verificationFailed)
      | .ok true => (w, some (.record r))
  | none =>
      if config.freeTierEnabled then (w, some (.freeCheck r))
      else w.answer (.error (.paymentRequired r.price))

/-- A section of a request. -/
def ProxyTask.advance (config : ProxyConfig) (w : ProxyWorld) :
    ProxyTask → ProxyWorld × Option ProxyTask
  | .rateCheck r =>
      if checkRateLimit config w.state r.clientId r.rateCheckedAt then afterRateLimit config w r
      else w.answer (.error .rateLimited)
  | .freeCheck r =>
      if checkFreeTier config w.state r.clientId r.freeCheckedAt then (w, some (.freeUse r))
      else w.answer (.error (.paymentRequired r.price))
  | .freeUse r =>
      ({ w with
          state := useFreeTier w.state r.clientId r.freeUsedAt
          granted := w.granted ++ [(r.clientId, r.freeUsedAt / 3600)] },
        some (.record r))
  | .record r =>
      { w with
          state := recordRequest w.state r.clientId r.recordedAt
          admitted := w.admitted ++ [(r.clientId, r.recordedAt / 60)] }.answer (.ok r.price)

abbrev ProxyPool := Pool ProxyWorld ProxyTask

/-- A request arrives, or one goes on. -/
def proxyStep (config : ProxyConfig) (p : ProxyPool) : Lib.Move ProxyRequest → ProxyPool
  | .start r => p.step (ProxyTask.advance config) (.start (.rateCheck r))
  | .resume k => p.step (ProxyTask.advance config) (.resume k)

def freshProxy : ProxyPool := ⟨⟨⟨∅, ∅⟩, [], [], []⟩, []⟩

/-- **The limits are kept.**  In no hour has a client been granted more free requests than the
configuration allows, and in no minute have more of its requests been admitted. -/
def Bounded (config : ProxyConfig) (p : ProxyPool) : Prop :=
  Windows.Within config.freeTierRequestsPerHour.toNat p.shared.granted ∧
    Windows.Within config.rateLimitPerMinute.toNat p.shared.admitted

/-! ## The conditions on a step -/

/-- No section counts for a client in a window before the one its counter stands in. -/
def ClockForward (p : ProxyPool) : Lib.Move ProxyRequest → Prop
  | .start _ => True
  | .resume k =>
      (∀ r, p.taskAt k = some (.freeUse r) →
        ∀ e, p.shared.state.freeTierUsage.lookup r.clientId = some e → e.1 ≤ r.freeUsedAt / 3600) ∧
      (∀ r, p.taskAt k = some (.record r) →
        ∀ e, p.shared.state.rateLimits.lookup r.clientId = some e → e.1 ≤ r.recordedAt / 60)

/-- A section that counts finds the limit not zero, and the check that went before it would
succeed again. -/
def StillRoom (config : ProxyConfig) (p : ProxyPool) : Lib.Move ProxyRequest → Prop
  | .start _ => True
  | .resume k =>
      (∀ r, p.taskAt k = some (.freeUse r) → config.freeTierRequestsPerHour ≠ 0 ∧
        underLimit p.shared.state.freeTierUsage r.clientId (r.freeUsedAt / 3600)
          config.freeTierRequestsPerHour) ∧
      (∀ r, p.taskAt k = some (.record r) → config.rateLimitPerMinute ≠ 0 ∧
        checkRateLimit config p.shared.state r.clientId r.recordedAt)

/-! ## The counters -/

/-- The counters as natural numbers. -/
def windows (usage : UsageMap) : Windows String ℕ :=
  fun clientId => (usage.lookup clientId).map fun e => (e.1, e.2.toNat)

/-- The counters agree with the log, and the log is within the limit. -/
structure Counted (limit : UInt32) (usage : UsageMap) (log : List (String × ℕ)) : Prop where
  tracks : (windows usage).Tracks log
  within : Windows.Within limit.toNat log

section Counters

variable {usage : UsageMap} {clientId : String} {current : ℕ} {limit : UInt32}
  {log : List (String × ℕ)}

theorem windows_eq (usage : UsageMap) (clientId : String) :
    windows usage clientId = (usage.lookup clientId).map fun e => (e.1, e.2.toNat) := rfl

theorem windows_countRequest
    (hfits : (windows usage).countAfter clientId current < 2 ^ 32) :
    windows (countRequest usage clientId current) = (windows usage).record clientId current := by
  have hvalue : ∀ e, (countRequest usage clientId current).lookup clientId = some e →
      (e.1, e.2.toNat) = (current, (windows usage).countAfter clientId current) := by
    intro e he
    unfold countRequest at he
    rw [Finmap.lookup_insert] at he
    unfold Windows.countAfter at hfits ⊢
    rw [windows_eq] at hfits ⊢
    cases hk : usage.lookup clientId with
    | none =>
        rw [hk] at he
        simp only [Option.getD_none, if_true] at he
        rw [← Option.some.inj he]
        rfl
    | some entry =>
        obtain ⟨window, count⟩ := entry
        rw [hk] at he hfits
        simp only [Option.getD_some, Option.map_some] at he hfits ⊢
        by_cases hw : window = current
        · rw [if_pos hw] at he hfits ⊢
          rw [← Option.some.inj he, ← hw, UInt32.toNat_add]
          exact congrArg (Prod.mk window) (Nat.mod_eq_of_lt hfits)
        · rw [if_neg hw] at he ⊢
          rw [← Option.some.inj he]
          rfl
  funext c
  unfold Windows.record
  by_cases hc : c = clientId
  · rw [hc, Function.update_self, windows_eq]
    have hlookup : (countRequest usage clientId current).lookup clientId = some _ :=
      Finmap.lookup_insert _
    rw [hlookup, Option.map_some, hvalue _ hlookup]
  · rw [Function.update_of_ne hc, windows_eq, windows_eq]
    exact congrArg _ (Finmap.lookup_insert_of_ne _ hc)

/-- **The check asks for the count after one more request**, unless the limit is zero. -/
theorem countAfter_le_iff :
    (windows usage).countAfter clientId current ≤ limit.toNat ↔
      limit ≠ 0 ∧ underLimit usage clientId current limit := by
  have hzero : limit ≠ 0 ↔ 1 ≤ limit.toNat := by
    rw [Nat.one_le_iff_ne_zero, ne_eq, ne_eq, ← UInt32.toNat_inj]
    rfl
  rw [hzero]
  unfold Windows.countAfter underLimit
  rw [windows_eq]
  cases hk : usage.lookup clientId with
  | none => simp
  | some entry =>
      obtain ⟨window, count⟩ := entry
      by_cases hw : window = current
      · simp [hw, UInt32.lt_iff_toNat_lt]
        omega
      · simp [hw]

theorem counted_empty (limit : UInt32) : Counted limit ∅ [] where
  tracks := by
    have hnone : windows ∅ = fun _ => none := rfl
    rw [hnone]
    exact Windows.tracks_empty
  within _ _ := Nat.zero_le _

theorem inTime_windows
    (h : ∀ e, usage.lookup clientId = some e → e.1 ≤ current) :
    (windows usage).InTime clientId current := by
  intro w n hk
  rw [windows_eq, Option.map_eq_some_iff] at hk
  obtain ⟨e, he, heq⟩ := hk
  obtain ⟨rfl, -⟩ := Prod.mk.inj heq
  exact h e he

/-- One more request is within the limit exactly when there is still room for it. -/
theorem Counted.within_iff (h : Counted limit usage log)
    (hin : ∀ e, usage.lookup clientId = some e → e.1 ≤ current) :
    Windows.Within limit.toNat (log ++ [(clientId, current)]) ↔
      limit ≠ 0 ∧ underLimit usage clientId current limit := by
  rw [Windows.within_record_iff h.tracks h.within (inTime_windows hin), countAfter_le_iff]

theorem Counted.count (h : Counted limit usage log)
    (hin : ∀ e, usage.lookup clientId = some e → e.1 ≤ current)
    (hwithin : Windows.Within limit.toNat (log ++ [(clientId, current)])) :
    Counted limit (countRequest usage clientId current) (log ++ [(clientId, current)]) where
  tracks := by
    have hroom : (windows usage).countAfter clientId current ≤ limit.toNat :=
      (Windows.within_record_iff h.tracks h.within (inTime_windows hin)).1 hwithin
    rw [windows_countRequest (lt_of_le_of_lt hroom limit.toNat_lt)]
    exact Windows.tracks_record h.tracks (inTime_windows hin)
  within := hwithin

end Counters

/-! ## Runs -/

/-- Both tables agree with what the proxy has done, and keep their limits. -/
structure Admitting (config : ProxyConfig) (p : ProxyPool) : Prop where
  free : Counted config.freeTierRequestsPerHour p.shared.state.freeTierUsage p.shared.granted
  rate : Counted config.rateLimitPerMinute p.shared.state.rateLimits p.shared.admitted

/-- Nothing is counted, granted or admitted. -/
structure Uncounted (w w' : ProxyWorld) : Prop where
  state : w'.state = w.state
  granted : w'.granted = w.granted
  admitted : w'.admitted = w.admitted

variable {config : ProxyConfig} {p : ProxyPool}

theorem Admitting.bounded (h : Admitting config p) : Bounded config p := ⟨h.free.within, h.rate.within⟩

theorem Admitting.uncounted {p' : ProxyPool} (h : Admitting config p)
    (hsame : Uncounted p.shared p'.shared) : Admitting config p' where
  free := by
    rw [hsame.state, hsame.granted]
    exact h.free
  rate := by
    rw [hsame.state, hsame.admitted]
    exact h.rate

theorem uncounted_afterRateLimit (w : ProxyWorld) (r : ProxyRequest) :
    Uncounted w (afterRateLimit config w r).1 := by
  unfold afterRateLimit
  split
  · split <;> exact ⟨rfl, rfl, rfl⟩
  · split <;> exact ⟨rfl, rfl, rfl⟩

/-- **What a step counts.**  It counts nothing, or one granted request, or one admitted one. -/
theorem proxyStep_cases (config : ProxyConfig) (p : ProxyPool) (m : Lib.Move ProxyRequest) :
    (Uncounted p.shared (proxyStep config p m).shared ∧ StillRoom config p m) ∨
    (∃ k r, m = .resume k ∧ p.taskAt k = some (.freeUse r) ∧
      (proxyStep config p m).shared = (ProxyTask.advance config p.shared (.freeUse r)).1) ∨
    (∃ k r, m = .resume k ∧ p.taskAt k = some (.record r) ∧
      (proxyStep config p m).shared = (ProxyTask.advance config p.shared (.record r)).1) := by
  have hfree : ∀ {k t}, p.taskAt k = t → (∀ r, t ≠ some (.freeUse r)) →
      (∀ r, t ≠ some (.record r)) → StillRoom config p (.resume k) := by
    intro k t hk hno hno'
    refine ⟨?_, ?_⟩
    · intro r hr
      exact absurd (hk.symm.trans hr) (hno r)
    · intro r hr
      exact absurd (hk.symm.trans hr) (hno' r)
  cases m with
  | start r => exact .inl ⟨⟨rfl, rfl, rfl⟩, trivial⟩
  | resume k =>
      cases hk : p.taskAt k with
      | none =>
          have hsame : proxyStep config p (.resume k) = p := Pool.step_resume_none hk
          rw [hsame]
          exact .inl ⟨⟨rfl, rfl, rfl⟩, hfree hk nofun nofun⟩
      | some t =>
          have hshared : (proxyStep config p (.resume k)).shared =
              (ProxyTask.advance config p.shared t).1 := Pool.shared_resume hk
          cases t with
          | rateCheck r =>
              refine .inl ⟨?_, hfree hk nofun nofun⟩
              rw [hshared]
              unfold ProxyTask.advance
              dsimp only
              split
              · exact uncounted_afterRateLimit p.shared r
              · exact ⟨rfl, rfl, rfl⟩
          | freeCheck r =>
              refine .inl ⟨?_, hfree hk nofun nofun⟩
              rw [hshared]
              unfold ProxyTask.advance
              dsimp only
              split <;> exact ⟨rfl, rfl, rfl⟩
          | freeUse r => exact .inr (.inl ⟨k, r, rfl, hk, hshared⟩)
          | record r => exact .inr (.inr ⟨k, r, rfl, hk, hshared⟩)

/-- A step keeps the limits exactly when what it counts still has room. -/
theorem bounded_step_iff (h : Admitting config p) {m : Lib.Move ProxyRequest}
    (hclock : ClockForward p m) :
    Bounded config (proxyStep config p m) ↔ StillRoom config p m := by
  rcases proxyStep_cases config p m with ⟨hsame, hroom⟩ | ⟨k, r, rfl, hk, hshared⟩ |
    ⟨k, r, rfl, hk, hshared⟩
  · exact ⟨fun _ => hroom, fun _ => (h.uncounted hsame).bounded⟩
  · have hiff := h.free.within_iff (hclock.1 r hk)
    unfold Bounded
    rw [hshared]
    constructor
    · intro hbounded
      refine ⟨?_, ?_⟩
      · intro r' hr'
        cases hk.symm.trans hr'
        exact hiff.1 hbounded.1
      · intro r' hr'
        cases hk.symm.trans hr'
    · intro hroom
      exact ⟨hiff.2 (hroom.1 r hk), h.rate.within⟩
  · have hiff := h.rate.within_iff (hclock.2 r hk)
    unfold Bounded
    rw [hshared]
    constructor
    · intro hbounded
      refine ⟨?_, ?_⟩
      · intro r' hr'
        cases hk.symm.trans hr'
      · intro r' hr'
        cases hk.symm.trans hr'
        exact hiff.1 hbounded.2
    · intro hroom
      exact ⟨h.free.within, hiff.2 (hroom.2 r hk)⟩

theorem admitting_step (h : Admitting config p) {m : Lib.Move ProxyRequest}
    (hclock : ClockForward p m) (hbounded : Bounded config (proxyStep config p m)) :
    Admitting config (proxyStep config p m) := by
  rcases proxyStep_cases config p m with ⟨hsame, hroom⟩ | ⟨k, r, rfl, hk, hshared⟩ |
    ⟨k, r, rfl, hk, hshared⟩
  · exact h.uncounted hsame
  · unfold Bounded at hbounded
    rw [hshared] at hbounded
    have hcount := h.free.count (hclock.1 r hk) hbounded.1
    refine ⟨?_, ?_⟩
    · rw [hshared]
      exact hcount
    · rw [hshared]
      exact h.rate
  · unfold Bounded at hbounded
    rw [hshared] at hbounded
    have hcount := h.rate.count (hclock.2 r hk) hbounded.2
    refine ⟨?_, ?_⟩
    · rw [hshared]
      exact h.free
    · rw [hshared]
      exact hcount

theorem admitting_fresh (config : ProxyConfig) : Admitting config freshProxy :=
  ⟨counted_empty _, counted_empty _⟩

/-- **When the limits are kept.**  In every interleaving in which no counter is set back to an
earlier window, the limits hold all along exactly when every grant and every record still
finds room. -/
theorem admission_bounded (config : ProxyConfig) (ms : List (Lib.Move ProxyRequest))
    (hclock : Along (proxyStep config) ClockForward freshProxy ms) :
    Always (proxyStep config) (Bounded config) freshProxy ms ↔
      Along (proxyStep config) (StillRoom config) freshProxy ms :=
  always_iff_along (fun _ h => h.bounded) (fun _ _ h hm => bounded_step_iff h hm)
    (fun _ _ h hm hb => admitting_step h hm hb) (admitting_fresh config) hclock

/-! ## Two requests at once -/

/-- A request without any of the headers, with one reading of the clock. -/
def plainRequest (now : ℕ) : ProxyRequest := ⟨⟨none, none, none, none⟩, 10000, now, now, now, now⟩

/-- One request alone. -/
theorem admission_bounded_one :
    Always (proxyStep ⟨1, true, 1⟩) (Bounded ⟨1, true, 1⟩) freshProxy
        [.start (plainRequest 7200), .resume 0, .resume 0, .resume 0, .resume 0] ↔
      Along (proxyStep ⟨1, true, 1⟩) (StillRoom ⟨1, true, 1⟩) freshProxy
        [.start (plainRequest 7200), .resume 0, .resume 0, .resume 0, .resume 0] := by
  refine admission_bounded _ _ ⟨trivial, ?_, ?_, ?_, ?_, trivial⟩
  · refine ⟨?_, ?_⟩ <;> intro r hr <;> cases hr
  · refine ⟨?_, ?_⟩ <;> intro r hr <;> cases hr
  · refine ⟨?_, ?_⟩ <;> intro r hr <;> cases hr
    intro e he
    cases he
  · refine ⟨?_, ?_⟩ <;> intro r hr <;> cases hr
    intro e he
    cases he

/-- **Both are admitted.**  Two requests of one client check the rate limit and the free tier
before either is counted: with limits of one, both are granted in the same hour and
both are admitted in the same minute. -/
theorem both_admitted :
    ¬ Always (proxyStep ⟨1, true, 1⟩) (Bounded ⟨1, true, 1⟩) freshProxy
      [.start (plainRequest 7200), .start (plainRequest 7200), .resume 0, .resume 1, .resume 0,
        .resume 1, .resume 0, .resume 1, .resume 0, .resume 1] := by
  intro h
  have hcount := h.last.2 "anonymous" 120
  revert hcount
  decide

end Proxy
end PeerClaw
