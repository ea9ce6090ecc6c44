import Mathlib.Logic.Function.Basic
import PeerClaw.Inference.Generate
import PeerClaw.Lib.Machine

/-!
# The failover chain and its breakers

`FailoverChain` in `inference/failover.rs`.  A call looks once which backends are not in cooldown,
and tries these, one after the other; other calls do the same meanwhile, and each outcome trips or
resets the breaker of its backend.

* `CircuitBreaker`, `classifyError` — the breakers, and what trips them.
* `Failover.step` — calls begin, try a backend and hear from it; time passes.
* `Faithful` — each breaker says what has been recorded; `RightAnswer` — each call answers with the
  first success among the backends it has tried, or with the last error.
* `Undisturbed` — no other call has tripped a backend between the look and the try.
* `failover_iff` — the properties hold throughout a run exactly where the condition does.
-/

namespace PeerClaw
namespace Inference

open Lib

/-! ## Errors -/

/-- Whether an error is retriable or fatal. -/
inductive ErrorKind
  | retriable
  | fatal
  deriving DecidableEq

/-- Classify an error as retriable or fatal. -/
def classifyError (toLowercase : String → String) : InferenceError → ErrorKind
  | .modelNotFound _ => .fatal
  | .loadFailed msg =>
      if ["auth", "unauthorized", "403"].any (Text.contains msg) then .fatal else .retriable
  | .generationFailed msg =>
      let lower := toLowercase msg
      if ["timeout", "timed out", "rate limit", "429", "overloaded", "503", "502",
          "connection refused", "connection reset"].any (Text.contains lower) then .retriable
      else if ["auth", "unauthorized", "401", "403", "not found", "404"].any
          (Text.contains lower) then .fatal
      -- unknown errors are retriable
      else .retriable

/-! ## Breakers -/

/-- Cooldown escalation tiers: 1 min, 5 min, 30 min, in nanoseconds. -/
def COOLDOWN_TIERS : List ℕ := [60 * 10 ^ 9, 300 * 10 ^ 9, 1800 * 10 ^ 9]

/-- Per-backend circuit breaker state. -/
structure CircuitBreaker where
  /-- Consecutive retriable error count. -/
  errorCount : UInt32
  /-- When the backend is allowed to be tried again, if in cooldown. -/
  cooldownUntil : Option ℕ
  deriving DecidableEq

namespace CircuitBreaker

def new : CircuitBreaker := ⟨0, none⟩

/-- The backend is not in cooldown. -/
def isAvailable (b : CircuitBreaker) (now : ℕ) : Bool :=
  match b.cooldownUntil with
  | none => true
  | some till => till ≤ now

/-- Record a successful call — resets the breaker. -/
def recordSuccess (_ : CircuitBreaker) : CircuitBreaker := ⟨0, none⟩

/-- Record a retriable failure — escalate cooldown. -/
def recordFailure (b : CircuitBreaker) (now : ℕ) : CircuitBreaker :=
  let errorCount := b.errorCount + 1
  let tier := min (errorCount.toNat - 1) (COOLDOWN_TIERS.length - 1)
  ⟨errorCount, some (now + COOLDOWN_TIERS.getD tier 0)⟩

end CircuitBreaker

/-! ## Calls -/

/-- What has been recorded of a backend: a success or a retriable failure, and when. -/
structure Recorded where
  backend : BackendId
  failed : Bool
  time : ℕ

/-- A call in progress, or answered. -/
structure FailoverCall (R : Type) where
  /-- How much had been recorded when it looked which backends are available. -/
  since : ℕ
  /-- The backends that it has still to try. -/
  remaining : List BackendId
  /-- The backend that it is waiting for. -/
  trying : Option BackendId
  lastError : Option InferenceError
  /-- What the backends that it has tried have answered. -/
  tried : List (BackendId × Except InferenceError R)
  answer : Option (Except InferenceError R)

namespace FailoverCall

variable {R : Type}

/-- A call that has found these backends available. -/
def begin (since : ℕ) (backendIds : List BackendId) : FailoverCall R where
  since := since
  remaining := backendIds
  trying := none
  lastError := none
  tried := []
  answer := if backendIds = [] then
      some (.error (.generationFailed "All backends are in cooldown. Try again later."))
    else none

/-- The next backend is tried, or there is none left. -/
def tryNext (c : FailoverCall R) : FailoverCall R :=
  match c.answer, c.trying, c.remaining with
  | none, none, [] =>
      { c with
        answer := some (.error
          (c.lastError.getD (.generationFailed "All backends exhausted"))) }
  | none, none, backend :: rest => { c with trying := some backend, remaining := rest }
  | _, _, _ => c

/-- The backend that will be tried next, if the call goes on now. -/
def next (c : FailoverCall R) : Option BackendId :=
  match c.answer, c.trying with
  | none, none => c.remaining.head?
  | _, _ => none

/-- The backend answers. -/
def hear (c : FailoverCall R) (backend : BackendId) (result : Except InferenceError R) :
    FailoverCall R :=
  let c := { c with trying := none, tried := c.tried ++ [(backend, result)] }
  match result with
  | .ok response => { c with answer := some (.ok response) }
  | .error err => { c with lastError := some err }

end FailoverCall

/-- The chain, with its calls, the time, and what has been recorded. -/
structure Failover (R : Type) where
  /-- The backends, in order, each of which is there once. -/
  chain : List BackendId
  breakers : BackendId → CircuitBreaker
  now : ℕ
  calls : List (FailoverCall R)
  history : List Recorded

/-- What can happen. -/
inductive FailoverMove (R : Type)
  /-- A call looks which backends are available. -/
  | begin
  /-- A call goes on to the next backend. -/
  | tryNext (k : ℕ)
  /-- The backend that a call is waiting for answers. -/
  | hear (k : ℕ) (result : Except InferenceError R)
  /-- Time passes. -/
  | tick (nanos : ℕ)

namespace Failover

variable {R : Type} (toLowercase : String → String)

/-- A new chain. -/
def new (p2pEnabled : Bool) (now : ℕ) : Failover R where
  chain := [.localGguf] ++ (if p2pEnabled then [.peerToPeer] else []) ++ [.ollama, .remoteApi]
  breakers := fun _ => .new
  now := now
  calls := []
  history := []

/-- The outcome of a backend is recorded in its breaker, unless it is a fatal error. -/
def record (s : Failover R) (backend : BackendId) : Except InferenceError R → Failover R
  | .ok _ =>
      { s with
        breakers := Function.update s.breakers backend (s.breakers backend).recordSuccess
        history := s.history ++ [⟨backend, false, s.now⟩] }
  | .error err =>
      match classifyError toLowercase err with
      | .retriable =>
          { s with
            breakers := Function.update s.breakers backend ((s.breakers backend).recordFailure s.now)
            history := s.history ++ [⟨backend, true, s.now⟩] }
      | .fatal => s

/-- `execute_with_failover`, by the moves of any number of calls. -/
def step (s : Failover R) : FailoverMove R → Failover R
  | .begin =>
      let backendIds := s.chain.filter fun b => (s.breakers b).isAvailable s.now
      { s with calls := s.calls ++ [.begin s.history.length backendIds] }
  | .tryNext k =>
      match s.calls[k]? with
      | none => s
      | some c => { s with calls := s.calls.set k c.tryNext }
  | .hear k result =>
      match s.calls[k]? with
      | none => s
      | some c =>
          match c.trying with
          | none => s
          | some backend =>
              { s.record toLowercase backend result with
                calls := s.calls.set k (c.hear backend result) }
  | .tick nanos => { s with now := s.now + nanos }

/-! ## What is asked of the chain -/

/-- What has been recorded of a backend. -/
def recordsOf (backend : BackendId) (history : List Recorded) : List Recorded :=
  history.filter fun r => r.backend = backend

/-- The retriable failures recorded since the last success. -/
def errorsOf (backend : BackendId) (history : List Recorded) : ℕ :=
  ((recordsOf backend history).reverse.takeWhile Recorded.failed).length

/-- How long the cooldown after so many failures is: that of the first, second or third tier. -/
def cooldownFor (errors : ℕ) : ℕ := COOLDOWN_TIERS.getD (min errors 3 - 1) 0

/-- Until when a backend is in cooldown: after the last failure, unless there has been a success. -/
def cooldownOf (backend : BackendId) (history : List Recorded) : Option ℕ :=
  match (recordsOf backend history).getLast? with
  | some r => if r.failed then some (r.time + cooldownFor (errorsOf backend history)) else none
  | none => none

/-- Each breaker says what has been recorded of its backend. -/
def Faithful (s : Failover R) : Prop :=
  ∀ backend, (s.breakers backend).errorCount.toNat = errorsOf backend s.history ∧
    (s.breakers backend).cooldownUntil = cooldownOf backend s.history

/-- An answer is the first success, in the order of the chain, among the backends that have been
tried, or else the last error. -/
def RightAnswer (chain : List BackendId) (c : FailoverCall R) : Prop :=
  ∀ answer, c.answer = some answer → (c.tried.map Prod.fst).Sublist chain ∧
    match answer with
    | .ok response => c.tried.findSome? (fun t => t.2.toOption) = some response
    | .error err => c.tried.findSome? (fun t => t.2.toOption) = none ∧
        ∀ t ∈ c.tried.getLast?, t.2 = .error err

/-- Breakers and answers are right. -/
structure Lawful (s : Failover R) : Prop where
  faithful : s.Faithful
  answers : ∀ c ∈ s.calls, RightAnswer s.chain c

/-- A backend that is tried is not in cooldown. -/
def TriesAvailable (s : Failover R) : FailoverMove R → Prop
  | .tryNext k => ∀ c, s.calls[k]? = some c → ∀ backend ∈ c.next,
      (s.breakers backend).isAvailable s.now
  | _ => True

/-- Where a call tries a backend, what has been recorded of it last since the call has looked, if
anything has, is a success, or a failure whose cooldown is over; and a failure is recorded only as
long as 32 bits suffice to count it. -/
def Undisturbed (s : Failover R) : FailoverMove R → Prop
  | .tryNext k => ∀ c, s.calls[k]? = some c → ∀ backend ∈ c.next,
      ∀ r ∈ (recordsOf backend (s.history.drop c.since)).getLast?, r.failed →
        r.time + cooldownFor (errorsOf backend s.history) ≤ s.now
  | .hear k (.error err) => ∀ c, s.calls[k]? = some c → ∀ backend ∈ c.trying,
      classifyError toLowercase err = .retriable → errorsOf backend s.history + 1 < 2 ^ 32
  | _ => True

/-! ## What is recorded -/

theorem recordsOf_append (backend : BackendId) (h h' : List Recorded) :
    recordsOf backend (h ++ h') = recordsOf backend h ++ recordsOf backend h' :=
  List.filter_append ..

theorem recordsOf_concat (h : List Recorded) (r : Recorded) :
    recordsOf r.backend (h ++ [r]) = recordsOf r.backend h ++ [r] := by
  rw [recordsOf_append]
  congr 1
  exact List.filter_cons_of_pos (decide_eq_true rfl)

theorem recordsOf_concat_ne {backend : BackendId} (h : List Recorded) {r : Recorded}
    (hne : r.backend ≠ backend) : recordsOf backend (h ++ [r]) = recordsOf backend h := by
  have hnone : recordsOf backend [r] = [] :=
    List.filter_cons_of_neg fun heq => hne (of_decide_eq_true heq)
  rw [recordsOf_append, hnone, List.append_nil]

theorem errorsOf_concat (h : List Recorded) (r : Recorded) :
    errorsOf r.backend (h ++ [r]) = if r.failed then errorsOf r.backend h + 1 else 0 := by
  unfold errorsOf
  rw [recordsOf_concat, List.reverse_append, List.reverse_singleton, List.singleton_append,
    List.takeWhile_cons]
  split <;> rfl

theorem cooldownOf_concat (h : List Recorded) (r : Recorded) :
    cooldownOf r.backend (h ++ [r]) =
      if r.failed then some (r.time + cooldownFor (errorsOf r.backend (h ++ [r]))) else none := by
  unfold cooldownOf
  rw [recordsOf_concat, List.getLast?_concat]

theorem errorsOf_concat_ne {backend : BackendId} (h : List Recorded) {r : Recorded}
    (hne : r.backend ≠ backend) : errorsOf backend (h ++ [r]) = errorsOf backend h := by
  unfold errorsOf
  rw [recordsOf_concat_ne h hne]

theorem cooldownOf_concat_ne {backend : BackendId} (h : List Recorded) {r : Recorded}
    (hne : r.backend ≠ backend) : cooldownOf backend (h ++ [r]) = cooldownOf backend h := by
  unfold cooldownOf
  rw [recordsOf_concat_ne h hne, errorsOf_concat_ne h hne]

/-- A backend of which nothing has been recorded lately is in the cooldown that it was in. -/
theorem cooldownOf_take {backend : BackendId} {history : List Recorded} {since : ℕ}
    (hnone : recordsOf backend (history.drop since) = []) :
    cooldownOf backend history = cooldownOf backend (history.take since) := by
  have hrecords : recordsOf backend history = recordsOf backend (history.take since) := by
    conv => lhs; rw [← List.take_append_drop since history]
    rw [recordsOf_append, hnone, List.append_nil]
  unfold cooldownOf errorsOf
  rw [hrecords]

theorem getLast?_recordsOf {backend : BackendId} {history : List Recorded} {since : ℕ}
    {r : Recorded} (hlast : (recordsOf backend (history.drop since)).getLast? = some r) :
    (recordsOf backend history).getLast? = some r := by
  conv => lhs; rw [← List.take_append_drop since history]
  rw [recordsOf_append, List.getLast?_append, hlast]
  rfl

theorem tier_eq (errors : ℕ) :
    COOLDOWN_TIERS.getD (min (errors - 1) (COOLDOWN_TIERS.length - 1)) 0 = cooldownFor errors := by
  unfold cooldownFor
  have hlength : COOLDOWN_TIERS.length - 1 = 2 := rfl
  rw [hlength]
  congr 1
  omega

/-! ## One record -/

variable {toLowercase} {s s' : Failover R} {c : FailoverCall R}

theorem Faithful.success (h : s.Faithful) (backend : BackendId) (response : R) :
    (s.record toLowercase backend (.ok response)).Faithful := by
  intro other
  unfold record
  dsimp only
  by_cases hne : backend = other
  · subst hne
    have herrors := errorsOf_concat s.history ⟨backend, false, s.now⟩
    have hcooldown := cooldownOf_concat s.history ⟨backend, false, s.now⟩
    rw [Function.update_self]
    exact ⟨herrors.symm, hcooldown.symm⟩
  · rw [Function.update_of_ne (Ne.symm hne), errorsOf_concat_ne s.history hne,
      cooldownOf_concat_ne s.history hne]
    exact h other

theorem Faithful.failure_iff (h : s.Faithful) (backend : BackendId) {err : InferenceError}
    (hkind : classifyError toLowercase err = .retriable) :
    (s.record toLowercase backend (.error err)).Faithful ↔
      errorsOf backend s.history + 1 < 2 ^ 32 := by
  have herrors : errorsOf backend (s.history ++ [⟨backend, true, s.now⟩]) =
      errorsOf backend s.history + 1 := errorsOf_concat s.history ⟨backend, true, s.now⟩
  have hcooldown : cooldownOf backend (s.history ++ [⟨backend, true, s.now⟩]) =
      some (s.now + cooldownFor (errorsOf backend s.history + 1)) :=
    (cooldownOf_concat s.history ⟨backend, true, s.now⟩).trans (by rw [if_pos rfl, herrors])
  have hcount := (h backend).1
  have hsucc : ((s.breakers backend).errorCount + 1).toNat =
      (errorsOf backend s.history + 1) % 2 ^ 32 := by
    rw [UInt32.toNat_add, hcount]
    rfl
  unfold record
  simp only [hkind]
  constructor
  · intro hnext
    have hright := (hnext backend).1
    dsimp only at hright
    rw [Function.update_self, herrors] at hright
    have hmod := hsucc.symm.trans hright
    have hlt := Nat.mod_lt (errorsOf backend s.history + 1) (Nat.two_pow_pos 32)
    omega
  · intro hlt other
    dsimp only
    by_cases hne : backend = other
    · subst hne
      rw [Nat.mod_eq_of_lt hlt] at hsucc
      rw [Function.update_self, herrors, hcooldown]
      unfold CircuitBreaker.recordFailure
      dsimp only
      rw [tier_eq, hsucc]
      exact ⟨rfl, rfl⟩
    · rw [Function.update_of_ne (Ne.symm hne), errorsOf_concat_ne s.history hne,
        cooldownOf_concat_ne s.history hne]
      exact h other

/-! ## One call -/

/-- A call that has tried the backends that it found available, in order, up to some point, and
not heard of a success, or has answered. -/
structure Tracked (s : Failover R) (c : FailoverCall R) : Prop where
  order : (c.tried.map Prod.fst ++ (c.trying.toList ++ c.remaining)).Sublist s.chain
  since : c.since ≤ s.history.length
  failed : c.answer = none → ∀ t ∈ c.tried, t.2.toOption = none
  last : c.answer = none → ∀ t ∈ c.tried.getLast?, ∃ err, t.2 = .error err ∧ c.lastError = some err
  waiting : c.trying ≠ none → c.answer = none
  available : ∀ backend ∈ c.remaining,
    ∀ till ∈ cooldownOf backend (s.history.take c.since), till ≤ s.now
  right : RightAnswer s.chain c

theorem Tracked.mono (h : Tracked s c) (hchain : s'.chain = s.chain)
    (hhistory : s.history <+: s'.history) (hnow : s.now ≤ s'.now) : Tracked s' c := by
  have htake : s'.history.take c.since = s.history.take c.since := by
    obtain ⟨rest, hrest⟩ := hhistory
    rw [← hrest, List.take_append_of_le_length h.since]
  refine ⟨hchain ▸ h.order, h.since.trans hhistory.length_le, h.failed, h.last, h.waiting, ?_,
    hchain ▸ h.right⟩
  intro backend hbackend till htill
  rw [htake] at htill
  exact (h.available backend hbackend till htill).trans hnow

theorem rightAnswer_of_none {chain : List BackendId} (h : c.answer = none) :
    RightAnswer chain c := by
  intro answer hanswer
  rw [h] at hanswer
  cases hanswer

/-- A call that has heard of no success may answer with the last error. -/
theorem rightAnswer_error {chain : List BackendId} {err : InferenceError}
    (horder : (c.tried.map Prod.fst).Sublist chain) (hfailed : ∀ t ∈ c.tried, t.2.toOption = none)
    (hlast : ∀ t ∈ c.tried.getLast?, t.2 = .error err) (hanswer : c.answer = some (.error err)) :
    RightAnswer chain c := by
  intro answer h
  obtain rfl := Option.some.inj (hanswer.symm.trans h)
  exact ⟨horder, List.findSome?_eq_none_iff.2 hfailed, hlast⟩

theorem isAvailable_iff (h : s.Faithful) (backend : BackendId) :
    (s.breakers backend).isAvailable s.now ↔
      ∀ till ∈ cooldownOf backend s.history, till ≤ s.now := by
  rw [← (h backend).2]
  unfold CircuitBreaker.isAvailable
  cases (s.breakers backend).cooldownUntil with
  | none => exact iff_of_true rfl fun till htill => nomatch htill
  | some till =>
      rw [decide_eq_true_iff]
      exact ⟨fun hle t ht => Option.some.inj ht ▸ hle, fun hall => hall till rfl⟩

theorem tracked_begin (h : s.Faithful) :
    Tracked s (.begin s.history.length
      (s.chain.filter fun b => (s.breakers b).isAvailable s.now)) := by
  refine ⟨List.filter_sublist, le_rfl, fun _ t ht => absurd ht List.not_mem_nil,
    (fun _ t ht => nomatch ht), fun h => absurd rfl h, fun backend hbackend => ?_, ?_⟩
  · have havailable := (isAvailable_iff h backend).1 (List.mem_filter.1 hbackend).2
    have htake : s.history.take s.history.length = s.history := List.take_length
    exact fun till htill => havailable till (htake ▸ htill)
  · by_cases hempty : s.chain.filter (fun b => (s.breakers b).isAvailable s.now) = []
    · exact rightAnswer_error (List.nil_sublist _) (fun t ht => absurd ht List.not_mem_nil)
        (fun t ht => nomatch ht) (if_pos hempty)
    · exact rightAnswer_of_none (if_neg hempty)

theorem Tracked.tryNext (h : Tracked s c) : Tracked s c.tryNext := by
  unfold FailoverCall.tryNext
  split
  · rename_i hanswer htrying hremaining
    have horder : (c.tried.map Prod.fst).Sublist s.chain :=
      (List.sublist_append_left _ _).trans h.order
    refine ⟨h.order, h.since, (fun hnone => nomatch hnone), (fun hnone => nomatch hnone),
      fun hne => absurd htrying hne, h.available,
      rightAnswer_error horder (h.failed hanswer) (fun t ht => ?_) rfl⟩
    obtain ⟨err, herr, hlast⟩ := h.last hanswer t ht
    rw [herr, hlast]
    rfl
  · rename_i backend rest hanswer htrying hremaining
    have horder := h.order
    rw [htrying, hremaining] at horder
    refine ⟨horder, h.since, fun _ => h.failed hanswer, fun _ => h.last hanswer,
      fun _ => hanswer, fun b hb => h.available b ?_, rightAnswer_of_none hanswer⟩
    rw [hremaining]
    exact List.mem_cons_of_mem _ hb
  · exact h

theorem Tracked.hear (h : Tracked s c) {backend : BackendId} (htrying : c.trying = some backend)
    (result : Except InferenceError R) : Tracked s (c.hear backend result) := by
  have hanswer : c.answer = none := h.waiting (by rw [htrying]; exact Option.some_ne_none _)
  have horder : ((c.tried ++ [(backend, result)]).map Prod.fst ++ c.remaining).Sublist s.chain := by
    have horder := h.order
    rw [htrying] at horder
    rw [List.map_append, List.append_assoc]
    exact horder
  have htried : ((c.tried ++ [(backend, result)]).map Prod.fst).Sublist s.chain :=
    (List.sublist_append_left _ _).trans horder
  unfold FailoverCall.hear
  cases result with
  | ok response =>
      refine ⟨horder, h.since, (fun hnone => nomatch hnone), (fun hnone => nomatch hnone),
        fun hne => absurd rfl hne, h.available, fun answer h' => ?_⟩
      obtain rfl := Option.some.inj h'
      refine ⟨htried, ?_⟩
      dsimp only
      rw [List.findSome?_append, List.findSome?_eq_none_iff.2 (h.failed hanswer)]
      rfl
  | error err =>
      refine ⟨horder, h.since, fun _ t ht => ?_, fun _ t ht => ?_, fun hne => absurd rfl hne,
        h.available, rightAnswer_of_none hanswer⟩
      · rcases List.mem_append.1 ht with ht | ht
        · exact h.failed hanswer t ht
        · obtain rfl := List.mem_singleton.1 ht
          rfl
      · have hlast : (c.tried ++ [(backend, (.error err : Except InferenceError R))]).getLast? =
            some (backend, .error err) := List.getLast?_concat
        obtain rfl := Option.some.inj (hlast.symm.trans ht)
        exact ⟨err, rfl, rfl⟩

/-! ## All calls -/

/-- The breakers are right, and the calls are on their way. -/
structure Going (s : Failover R) : Prop where
  faithful : s.Faithful
  tracked : ∀ c ∈ s.calls, Tracked s c

theorem Going.lawful (h : Going s) : Lawful s := ⟨h.faithful, fun c hc => (h.tracked c hc).right⟩

theorem Going.set (h : Going s) (hfaithful : s'.Faithful) (hchain : s'.chain = s.chain)
    (hhistory : s.history <+: s'.history) (hnow : s.now ≤ s'.now) {k : ℕ} {c' : FailoverCall R}
    (hcalls : s'.calls = s.calls.set k c') (hc' : Tracked s c') : Going s' := by
  refine ⟨hfaithful, fun d hd => ?_⟩
  rw [hcalls] at hd
  rcases List.mem_or_eq_of_mem_set hd with hd | rfl
  · exact (h.tracked d hd).mono hchain hhistory hnow
  · exact hc'.mono hchain hhistory hnow

theorem Going.begin (h : Going s) : Going (step toLowercase s .begin) := by
  refine ⟨h.faithful, fun c hc => ?_⟩
  rcases List.mem_append.1 hc with hc | hc
  · exact (h.tracked c hc).mono rfl List.prefix_rfl le_rfl
  · obtain rfl := List.mem_singleton.1 hc
    exact (tracked_begin h.faithful).mono rfl List.prefix_rfl le_rfl

theorem Going.tick (h : Going s) (nanos : ℕ) : Going (step toLowercase s (.tick nanos)) :=
  ⟨h.faithful, fun c hc => (h.tracked c hc).mono rfl List.prefix_rfl (Nat.le_add_right _ _)⟩

theorem Going.tryNext (h : Going s) (k : ℕ) : Going (step toLowercase s (.tryNext k)) := by
  cases hk : s.calls[k]? with
  | none =>
      simp only [step, hk]
      exact h
  | some c =>
      simp only [step, hk]
      exact h.set h.faithful rfl List.prefix_rfl le_rfl rfl
        (h.tracked c (List.mem_of_getElem? hk)).tryNext

/-- A call tries a backend that is available exactly if it has not been tripped meanwhile. -/
theorem triesAvailable_iff (h : Going s) (k : ℕ) :
    TriesAvailable s (.tryNext k) ↔ Undisturbed toLowercase s (.tryNext k) := by
  unfold TriesAvailable Undisturbed
  refine forall_congr' fun c => imp_congr_right fun hk => forall_congr' fun backend =>
    imp_congr_right fun hnext => ?_
  have htracked := h.tracked c (List.mem_of_getElem? hk)
  have hremaining : backend ∈ c.remaining := by
    unfold FailoverCall.next at hnext
    split at hnext
    · exact List.mem_of_mem_head? hnext
    · cases hnext
  rw [isAvailable_iff h.faithful]
  cases hlast : (recordsOf backend (s.history.drop c.since)).getLast? with
  | none =>
      have hnone := List.getLast?_eq_none_iff.1 hlast
      rw [cooldownOf_take hnone]
      exact iff_of_true (htracked.available backend hremaining) fun r hr => nomatch hr
  | some r =>
      unfold cooldownOf
      rw [getLast?_recordsOf hlast]
      dsimp only
      constructor
      · intro hall r' hr' hfailed
        obtain rfl := Option.some.inj hr'
        exact hall _ (if_pos hfailed)
      · intro hall till htill
        split at htill
        · rename_i hfailed
          obtain rfl := Option.some.inj htill
          exact hall r rfl hfailed
        · cases htill

theorem record_history (s : Failover R) (backend : BackendId) (result : Except InferenceError R) :
    (s.record toLowercase backend result).chain = s.chain ∧
      s.history <+: (s.record toLowercase backend result).history ∧
      (s.record toLowercase backend result).now = s.now := by
  cases result with
  | ok response => exact ⟨rfl, List.prefix_append _ _, rfl⟩
  | error err =>
      cases hkind : classifyError toLowercase err with
      | retriable =>
          simp only [record, hkind]
          exact ⟨trivial, List.prefix_append _ _, trivial⟩
      | fatal =>
          simp only [record, hkind]
          exact ⟨trivial, List.prefix_rfl, trivial⟩

theorem Faithful.record_iff (h : s.Faithful) (backend : BackendId)
    (result : Except InferenceError R) :
    (s.record toLowercase backend result).Faithful ↔
      ∀ err, result = .error err → classifyError toLowercase err = .retriable →
        errorsOf backend s.history + 1 < 2 ^ 32 := by
  cases result with
  | ok response => exact iff_of_true (h.success backend response) fun err herr => nomatch herr
  | error err =>
      cases hkind : classifyError toLowercase err with
      | retriable =>
          rw [h.failure_iff backend hkind]
          exact ⟨fun hlt err' _ _ => hlt, fun hall => hall err rfl hkind⟩
      | fatal =>
          have hsame : s.record toLowercase backend (.error err) = s := by
            unfold record
            simp only [hkind]
          rw [hsame]
          refine iff_of_true h fun err' herr hretriable => ?_
          obtain rfl := Except.error.inj herr
          rw [hkind] at hretriable
          cases hretriable

theorem hear_going (toLowercase : String → String) (h : Going s) (k : ℕ) (result : Except InferenceError R) :
    ((step toLowercase s (.hear k result)).Faithful ↔ Undisturbed toLowercase s (.hear k result)) ∧
      ((step toLowercase s (.hear k result)).Faithful →
        Going (step toLowercase s (.hear k result))) := by
  cases hk : s.calls[k]? with
  | none =>
      have hstep : step toLowercase s (.hear k result) = s := by simp only [step, hk]
      rw [hstep]
      refine ⟨iff_of_true h.faithful ?_, fun _ => h⟩
      cases result with
      | ok response => trivial
      | error err =>
          intro c hc
          rw [hk] at hc
          cases hc
  | some c =>
      cases htrying : c.trying with
      | none =>
          have hstep : step toLowercase s (.hear k result) = s := by simp only [step, hk, htrying]
          rw [hstep]
          refine ⟨iff_of_true h.faithful ?_, fun _ => h⟩
          cases result with
          | ok response => trivial
          | error err =>
              intro c' hc' backend hbackend
              obtain rfl := Option.some.inj (hk.symm.trans hc')
              rw [htrying] at hbackend
              cases hbackend
      | some backend =>
          have hstep : step toLowercase s (.hear k result) =
              { s.record toLowercase backend result with
                calls := s.calls.set k (c.hear backend result) } := by
            simp only [step, hk, htrying]
          have htracked := h.tracked c (List.mem_of_getElem? hk)
          obtain ⟨hchain, hhistory, hnow⟩ := record_history s backend result
          rw [hstep]
          constructor
          · refine (h.faithful.record_iff backend result).trans ?_
            cases result with
            | ok response => exact iff_of_true (fun err herr => nomatch herr) trivial
            | error err =>
                constructor
                · intro hall c' hc' backend' hbackend' hretriable
                  obtain rfl := Option.some.inj (hk.symm.trans hc')
                  obtain rfl := Option.some.inj (htrying.symm.trans hbackend')
                  exact hall err rfl hretriable
                · intro hall err' herr hretriable
                  obtain rfl := Except.error.inj herr
                  exact hall c hk backend htrying hretriable
          · exact fun hfaithful =>
              h.set hfaithful hchain hhistory hnow.ge rfl (htracked.hear htrying result)

/-- **One move.**  It is lawful, and tries an available backend, exactly if nothing has come between;
and then the next one finds things in order. -/
theorem step_going (h : Going s) (m : FailoverMove R) :
    (Lawful (step toLowercase s m) ∧ TriesAvailable s m ↔ Undisturbed toLowercase s m) ∧
      (Lawful (step toLowercase s m) → Going (step toLowercase s m)) := by
  cases m with
  | begin => exact ⟨iff_of_true ⟨h.begin.lawful, trivial⟩ trivial, fun _ => h.begin⟩
  | tryNext k =>
      exact ⟨(and_iff_right (h.tryNext k).lawful).trans (triesAvailable_iff h k),
        fun _ => h.tryNext k⟩
  | hear k result =>
      obtain ⟨hiff, hgoing⟩ := hear_going toLowercase h k result
      refine ⟨?_, fun hlawful => hgoing hlawful.faithful⟩
      rw [← hiff]
      exact ⟨fun hboth => hboth.1.faithful,
        fun hfaithful => ⟨(hgoing hfaithful).lawful, trivial⟩⟩
  | tick nanos => exact ⟨iff_of_true ⟨(h.tick nanos).lawful, trivial⟩ trivial, fun _ => h.tick nanos⟩

/-! ## A call by itself -/

/-- The moves of a call that no other call comes between. -/
def alone (engine : InferenceEngine) (B : Backends) (request : GenerateRequest) (k : ℕ) :
    List BackendId → List (FailoverMove GenerateResponse)
  | [] => [.tryNext k]
  | backend :: rest =>
      [.tryNext k, .hear k (engine.tryBackend B request backend)] ++
        match engine.tryBackend B request backend with
        | .ok _ => []
        | .error _ => alone engine B request k rest

/-- **A call by itself** answers what the chain does when it is called once. -/
theorem alone_answer (engine : InferenceEngine) (B : Backends) (request : GenerateRequest) {k : ℕ}
    {s : Failover GenerateResponse} {c : FailoverCall GenerateResponse}
    {backendIds : List BackendId} (hk : s.calls[k]? = some c) (hanswer : c.answer = none)
    (htrying : c.trying = none) (hremaining : c.remaining = backendIds) :
    ∃ c', (Machine.run (step toLowercase) s (alone engine B request k backendIds)).calls[k]? =
        some c' ∧
      c'.answer = some (engine.tryInOrder B request
        (c.lastError.getD (.generationFailed "All backends exhausted")) backendIds) := by
  have hlt := (List.getElem?_eq_some_iff.1 hk).1
  induction backendIds generalizing s c with
  | nil =>
      have htry : c.tryNext.answer = some (.error
          (c.lastError.getD (.generationFailed "All backends exhausted"))) := by
        simp only [FailoverCall.tryNext, hanswer, htrying, hremaining]
      refine ⟨c.tryNext, ?_, htry⟩
      simp only [alone, Machine.run_cons, Machine.run_nil, step, hk]
      exact List.getElem?_set_self hlt
  | cons backend rest ih =>
      have htry : c.tryNext = { c with trying := some backend, remaining := rest } := by
        simp only [FailoverCall.tryNext, hanswer, htrying, hremaining]
      have hfirst : step toLowercase s (.tryNext k) =
          { s with calls := s.calls.set k { c with trying := some backend, remaining := rest } } := by
        simp only [step, hk, htry]
      have hset : (s.calls.set k { c with trying := some backend, remaining := rest })[k]? =
          some { c with trying := some backend, remaining := rest } := List.getElem?_set_self hlt
      have hsecond : ∀ result : Except InferenceError GenerateResponse,
          (step toLowercase (step toLowercase s (.tryNext k)) (.hear k result)).calls[k]? =
            some (FailoverCall.hear { c with trying := some backend, remaining := rest }
              backend result) := by
        intro result
        rw [hfirst]
        simp only [step, hset]
        refine List.getElem?_set_self ?_
        rw [List.length_set]
        exact hlt
      unfold alone InferenceEngine.tryInOrder
      cases hresult : engine.tryBackend B request backend with
      | ok response => exact ⟨_, hsecond (.ok response), rfl⟩
      | error err =>
          obtain ⟨c', hc', hanswer'⟩ := ih (hsecond (.error err)) hanswer rfl rfl
            (List.getElem?_eq_some_iff.1 (hsecond (.error err))).1
          exact ⟨c', hc', hanswer'⟩

private def bareEngine : InferenceEngine :=
  ⟨⟨true, true, "", false, "", "", ""⟩, [], none, "models", false⟩

private def refusingAll : Backends :=
  ⟨fun _ _ _ _ _ _ => .error "no key", fun _ => .error "no file", fun _ _ => .failed [] "",
    fun _ _ _ _ _ => .failed [] "connection refused"⟩

/-- All three backends are tried. -/
theorem alone_answer_refused : ∃ c', (Machine.run (step id)
    (step id (new false 0) .begin : Failover GenerateResponse)
    (alone bareEngine refusingAll ⟨"m", "Hi", 8, 0, 0, []⟩ 0 [.localGguf, .ollama, .remoteApi])).calls[0]? =
      some c' ∧
    c'.answer = some (bareEngine.tryInOrder refusingAll ⟨"m", "Hi", 8, 0, 0, []⟩
      (.generationFailed "All backends exhausted") [.localGguf, .ollama, .remoteApi]) :=
  alone_answer bareEngine refusingAll _ rfl rfl rfl rfl

/-! ## Runs -/

/-- **When breakers do their work.**  In all moves of a run the breakers say what has been recorded,
the answers are right and no backend is tried in its cooldown, exactly as long as no backend that a
call is about to try has been tripped since the call has looked, and 32 bits suffice for the
failures in a row. -/
theorem failover_iff (toLowercase : String → String) (p2pEnabled : Bool) (now : ℕ)
    (moves : List (FailoverMove R)) :
    Machine.Always (step toLowercase) Lawful (new p2pEnabled now) moves ∧
      Machine.Along (step toLowercase) TriesAvailable (new p2pEnabled now) moves ↔
      Machine.Along (step toLowercase) (Undisturbed toLowercase) (new p2pEnabled now) moves := by
  have hnew : Going (new p2pEnabled now : Failover R) :=
    ⟨fun backend => ⟨rfl, rfl⟩, fun c hc => absurd hc List.not_mem_nil⟩
  exact Machine.always_and_along_iff (fun s hs => hs.lawful)
    (fun s m hs _ => (step_going hs m).1) (fun s m hs _ => (step_going hs m).2) hnew
    Machine.along_true

/-- **A backend is tried in its cooldown.**  Two calls look at the same time; the first trips the
local model, and the second tries it all the same. -/
theorem tried_in_cooldown :
    ¬ Machine.Along (step id) TriesAvailable (new false 0 : Failover Unit)
      [.begin, .begin, .tryNext 0, .hear 0 (.error (.generationFailed "timeout")), .tryNext 1] := by
  intro h
  exact absurd (h.2.2.2.2.1 _ rfl .localGguf rfl) (by decide +kernel)

end Failover

end Inference
end PeerClaw
