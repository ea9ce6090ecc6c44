import PeerClaw.Agent.Bounds
import PeerClaw.Agent.Runtime
import Mathlib.Algebra.Order.BigOperators.Group.List
import Mathlib.Algebra.Order.Field.Rat
import Mathlib.Tactic.Linarith
import Mathlib.Tactic.Positivity

/-!
# What the tasks of an agent spend

A runtime runs one task after another.  A task should keep within the limits of the
budget whenever it records an amount, and in the end every token that a model has
generated for it should have been recorded.  The plain loop does both, since it asks
for as much as a call of the model can cost before it makes it.  The unified loop
asks nobody, and the cost of a run is recorded only if it ends with an answer.

* `plain_ended`, `plain_kept` — the plain loop ends, and does both in every run.
* `unified_kept_iff` — the unified loop, exactly when what it used can be spent when it
  is recorded, and when a run without an answer used nothing.
* `spending_kept_iff` — **the same for every sequence of tasks.**
* `spending_not_kept` — a run of the unified loop that costs too much, and one that is
  stopped.
-/

namespace PeerClaw

open Lib Lib.Machine

/-! ## What should hold of a task -/

/-- The cost of the tokens of some answers. -/
def tokensCost (tokens : List UInt32) : ℚ := (tokens.map fun n => tokenCost n.toNat).sum

/-- A task keeps within the limits whenever it records an amount, and everything that the model
has generated is recorded. -/
structure SpendingKept (r : AgentRuntime) (after : AgentRuntime × TaskReport) : Prop where
  within : ∀ spend ∈ after.2.spends, 0 < spend.amount → spend.after.quota.Within
  recorded : after.1.budget.totalSpent = r.budget.totalSpent + tokensCost after.2.tokens

/-- The answers that a task gets do not report more tokens than were requested. -/
structure TaskInput.Reports (t : TaskInput) : Prop where
  iterations : ∀ i task text tokens,
    (t.iterations i).execute task = .ok (.inference text tokens) → tokens ≤ task.maxTokens
  passes : ∀ i prompt model maxTokens temperature inf,
    (t.passes i).infer prompt model maxTokens temperature = .ok inf →
      inf.tokensGenerated ≤ maxTokens

/-- The tokens that the model reports to the unified loop. -/
def reportedTokens (calls : AgenticCalls) (t : TaskInput) : ℕ :=
  ((unifiedRun calls t).turns.map fun inf => inf.tokensGenerated.toNat).sum

/-- Where the unified loop is used, its tokens can be spent when they are recorded, and there are
none if they are not. -/
structure ChargeFits (calls : AgenticCalls) (r : AgentRuntime) (t : TaskInput) : Prop where
  answered : ∀ out, (unifiedRun calls t).ended = some (.ok out) → reportedTokens calls t = 0 ∨
    (r.budget.newRequest.canSpend t.chargedAt (tokenCost (reportedTokens calls t))).1
  failed : (∀ out, (unifiedRun calls t).ended ≠ some (.ok out)) → reportedTokens calls t = 0

/-! ## Costs -/

theorem tokenCost_nonneg (tokens : ℕ) : 0 ≤ tokenCost tokens := by
  unfold tokenCost
  positivity

theorem tokenCost_mono {m n : ℕ} (h : m ≤ n) : tokenCost m ≤ tokenCost n := by
  have hle : (m : ℚ) ≤ n := by exact_mod_cast h
  unfold tokenCost
  linarith

theorem tokenCost_pos_iff {n : ℕ} : 0 < tokenCost n ↔ n ≠ 0 := by
  unfold tokenCost
  constructor
  · rintro h rfl
    simp at h
  · intro h
    have hpos : (0 : ℚ) < n := by exact_mod_cast Nat.pos_of_ne_zero h
    positivity

theorem tokenCost_add (m n : ℕ) : tokenCost (m + n) = tokenCost m + tokenCost n := by
  unfold tokenCost
  push_cast
  ring

theorem tokensCost_eq (tokens : List UInt32) :
    tokensCost tokens = tokenCost (tokens.map UInt32.toNat).sum := by
  unfold tokensCost
  induction tokens with
  | nil => simp [tokenCost]
  | cons n tokens ih => simp [ih, tokenCost_add]

@[simp] theorem tokensCost_snoc (tokens : List UInt32) (n : UInt32) :
    tokensCost (tokens ++ [n]) = tokensCost tokens + tokenCost n.toNat := by
  simp [tokensCost]

/-! ## The plain loop -/

/-- What a state of the plain loop says about money, and the number of the iteration. -/
structure Ledger where
  iterations : ℕ
  budget : BudgetTracker
  tokens : List UInt32
  spends : List Spend

/-- The ledger of a state. -/
def PlainState.ledger (st : PlainState) : Ledger :=
  ⟨st.iterations, st.budget, st.tokens, st.spends⟩

/-- The ledger is in order, since it began with a total. -/
structure Ledger.InOrder (start : ℚ) (l : Ledger) : Prop where
  nonneg : l.budget.quota.Nonneg
  within : ∀ spend ∈ l.spends, spend.after.quota.Within
  recorded : l.budget.totalSpent = start + tokensCost l.tokens

section Plain

variable (calls : AgenticCalls) (config : AgentConfig) (d : IterationDraw) (st : PlainState)

theorem plainCall_ledger (call : ParsedToolCall) :
    (plainCall config d st call).ledger = st.ledger := by
  unfold plainCall
  split
  · rfl
  · split <;> rfl

theorem plainCalls_ledger (i : ℕ) (parsed : List ParsedToolCall) :
    (plainCalls calls config d i parsed st).ledger = st.ledger := by
  induction parsed generalizing i st with
  | nil => rfl
  | cons call parsed ih =>
      unfold plainCalls
      split
      · rfl
      · rw [ih, plainCall_ledger]

theorem plainTurn_ledger (text : String) (tokens : UInt32) :
    (plainTurn calls config d st text tokens).ledger =
      ⟨st.iterations, st.budget.spend d.spentAt (tokenCost tokens.toNat), st.tokens ++ [tokens],
        st.spends ++ [⟨tokenCost tokens.toNat,
          st.budget.spend d.spentAt (tokenCost tokens.toNat)⟩]⟩ := by
  unfold plainTurn
  cases calls.parseToolCalls text with
  | nil => rfl
  | cons call parsed =>
      simp only [plainCalls_ledger]
      split <;> rfl

/-- **What an iteration does to the ledger**: nothing, or a new hour or day begins, or the
tokens of one answer are recorded after their cost has been asked for. -/
theorem plainIteration_ledger :
    (plainIteration calls config d st).ledger = st.ledger ∨
    (plainIteration calls config d st).ledger =
      { st.ledger with budget := st.budget.resetIfNeeded d.checkedAt } ∨
    ∃ task text tokens, task.maxTokens = config.maxTokens ∧
      d.execute task = .ok (.inference text tokens) ∧
      (st.budget.canSpend d.checkedAt (tokenCost config.maxTokens.toNat)).1 ∧
      (plainIteration calls config d st).ledger =
        let budget := (st.budget.resetIfNeeded d.checkedAt).spend d.spentAt (tokenCost tokens.toNat)
        ⟨st.iterations, budget, st.tokens ++ [tokens],
          st.spends ++ [⟨tokenCost tokens.toNat, budget⟩]⟩ := by
  unfold plainIteration
  split
  · exact .inl rfl
  · split
    · exact .inl rfl
    · refine .inr ?_
      cases hask : st.budget.canSpend d.checkedAt (tokenCost config.maxTokens.toNat) with
      | mk can budget =>
          have hbudget : budget = st.budget.resetIfNeeded d.checkedAt := by
            rw [← BudgetTracker.canSpend_snd d.checkedAt (tokenCost config.maxTokens.toNat), hask]
          subst hbudget
          cases can with
          | false => exact .inl rfl
          | true =>
              simp only
              cases compactedMessages calls config st.conversation with
              | none => exact .inl rfl
              | some conversation =>
                  let task : InferenceTask := ⟨config.model, conversation, config.maxTokens,
                    config.temperature, [], false⟩
                  simp only
                  cases hexecute : d.execute task with
                  | error e => exact .inl rfl
                  | ok data =>
                      cases data with
                      | error message => exact .inl rfl
                      | other => exact .inl rfl
                      | inference text tokens =>
                          refine .inr ⟨task, text, tokens, rfl, hexecute, trivial, ?_⟩
                          exact plainTurn_ledger ..

end Plain

/-- An iteration after which the loop goes on is one of the first 20. -/
theorem iterations_step (calls : AgenticCalls) (config : AgentConfig) (st : PlainState)
    (d : IterationDraw) (hended : ¬ (PlainLoop.step calls config st d).ended.isSome) :
    (¬ st.ended.isSome ∧
      (PlainLoop.step calls config st d).iterations = st.iterations + 1) ∧
    (PlainLoop.step calls config st d).iterations ≤ maxIterations := by
  unfold PlainLoop.step at hended ⊢
  by_cases hst : st.ended.isSome
  · rw [if_pos hst] at hended
    exact absurd hst hended
  · rw [if_neg hst] at hended ⊢
    have hiterations : (plainIteration calls config d
        { st with iterations := st.iterations + 1 }).ledger.iterations = st.iterations + 1 := by
      rcases plainIteration_ledger calls config d { st with iterations := st.iterations + 1 } with
        hsame | hreset | ⟨task, text, tokens, -, -, -, hspent⟩
      · rw [hsame]
        rfl
      · rw [hreset]
        rfl
      · rw [hspent]
    refine ⟨⟨hst, hiterations⟩, hiterations.le.trans ?_⟩
    by_contra hmany
    apply hended
    unfold plainIteration
    split
    · rfl
    · rw [if_pos (show maxIterations < st.iterations + 1 by omega)]
      rfl

/-- **The plain loop ends** in its 21st iteration at the latest. -/
theorem plain_ended (calls : AgenticCalls) (r : AgentRuntime) (t : TaskInput) :
    (Machine.run (PlainLoop.step calls t.config) (PlainLoop.initial r t)
      ((List.range (maxIterations + 1)).map t.iterations)).ended.isSome := by
  by_contra hnot
  have hcount := (count_run (fun st : PlainState => st.ended.isSome)
    (fun st d h => (iterations_step calls t.config st d h).1) hnot).2
  have hle := run_of_inv (I := fun st : PlainState => ¬ st.ended.isSome → st.iterations ≤ maxIterations)
    (fun st d _ _ h => (iterations_step calls t.config st d h).2) (fun _ => Nat.zero_le _)
    along_true hnot
  have hzero : (PlainLoop.initial r t).iterations = 0 := rfl
  rw [List.length_map, List.length_range] at hcount
  omega

theorem plainIteration_inOrder {calls : AgenticCalls} {config : AgentConfig} {d : IterationDraw}
    {st : PlainState} {start : ℚ}
    (hd : ∀ task text tokens, d.execute task = .ok (.inference text tokens) →
      tokens ≤ task.maxTokens)
    (h : st.ledger.InOrder start) : (plainIteration calls config d st).ledger.InOrder start := by
  rcases plainIteration_ledger calls config d st with
    hsame | hreset | ⟨task, text, tokens, hmax, hexecute, hcan, hspent⟩
  · rw [hsame]
    exact h
  · rw [hreset]
    refine ⟨h.nonneg.resets (BudgetTracker.quota_resetIfNeeded _), h.within, ?_⟩
    rw [BudgetTracker.totalSpent_resetIfNeeded]
    exact h.recorded
  · have hle : tokenCost tokens.toNat ≤ tokenCost config.maxTokens.toNat := by
      have hreported := hd task text tokens hexecute
      rw [hmax] at hreported
      exact tokenCost_mono (UInt32.le_iff_toNat_le.1 hreported)
    have hnonneg : (st.budget.resetIfNeeded d.checkedAt).quota.Nonneg :=
      h.nonneg.resets (BudgetTracker.quota_resetIfNeeded _)
    rw [hspent]
    refine ⟨?_, ?_, ?_⟩
    · rw [BudgetTracker.quota_spend]
      exact (hnonneg.resets (BudgetTracker.quota_resetIfNeeded _)).charge (tokenCost_nonneg _)
    · intro spend hspend
      rcases List.mem_append.1 hspend with hspend | hspend
      · exact h.within spend hspend
      · obtain rfl := List.mem_singleton.1 hspend
        exact BudgetTracker.within_spend_of_canSpend h.nonneg hcan hle
    · have hrecorded : st.budget.totalSpent = start + tokensCost st.tokens := h.recorded
      rw [BudgetTracker.totalSpent_spend, BudgetTracker.totalSpent_resetIfNeeded, hrecorded,
        tokensCost_snoc, add_assoc]

/-- **The plain loop keeps within the limits**, and everything is recorded. -/
theorem plain_kept (calls : AgenticCalls) {r : AgentRuntime} {t : TaskInput} (ht : t.Reports)
    (hr : r.budget.quota.Nonneg) :
    SpendingKept r (runPlain calls r t) ∧ (runPlain calls r t).1.budget.quota.Nonneg := by
  have hinitial : (PlainLoop.initial r t).ledger.InOrder r.budget.totalSpent := by
    refine ⟨hr.resets BudgetTracker.quota_newRequest, by simp [PlainState.ledger, PlainLoop.initial],
      ?_⟩
    simp [PlainState.ledger, PlainLoop.initial, tokensCost]
  have hstep : ∀ (st : PlainState) d, st.ledger.InOrder r.budget.totalSpent →
      (∃ i, d = t.iterations i) →
      (PlainLoop.step calls t.config st d).ledger.InOrder r.budget.totalSpent := by
    rintro st d h ⟨i, rfl⟩
    unfold PlainLoop.step
    split
    · exact h
    · exact plainIteration_inOrder (ht.iterations i) ⟨h.nonneg, h.within, h.recorded⟩
  have hdraws : ∀ d ∈ (List.range (maxIterations + 1)).map t.iterations, ∃ i, d = t.iterations i := by
    intro d hd
    obtain ⟨i, -, rfl⟩ := List.mem_map.1 hd
    exact ⟨i, rfl⟩
  have h := run_of_inv hstep hinitial (along_of_forall hdraws)
  exact ⟨⟨fun spend hspend _ => h.within spend hspend, h.recorded⟩, h.nonneg⟩

/-! ## The unified loop -/

/-- The count of tokens of the unified loop is what the model reports. -/
structure Counted (s : AgenticSetup) (st : AgenticState) : Prop where
  total : st.totalTokens = addTokens 0 st.turns
  small : ∀ inf ∈ st.turns, inf.tokensGenerated ≤ s.requestedTokens
  settles : Settles st.totalTokens st.ended

theorem counted_step {s : AgenticSetup} {st : AgenticState} {d : PassDraw}
    (hd : ∀ prompt model maxTokens temperature inf,
      d.infer prompt model maxTokens temperature = .ok inf → inf.tokensGenerated ≤ maxTokens)
    (h : Counted s st) : Counted s (AgenticLoop.step s st d) := by
  unfold AgenticLoop.step
  by_cases hended : st.ended.isSome
  · rw [if_pos hended]
    exact h
  · rw [if_neg hended]
    have hnone : st.ended = none := by simpa using hended
    obtain ⟨turns, kept, chosen, events, -, hturns, hpass⟩ :=
      agenticPass_spec s d { st with iter := st.iter + 1 } hnone
    have hnext : Counted s (agenticPass s d { st with iter := st.iter + 1 }) := by
      refine ⟨?_, ?_, hpass.settles hnone⟩
      · have htotal : st.totalTokens = addTokens 0 st.turns := h.total
        rw [hpass.total, hpass.turned, htotal, addTokens, addTokens, addTokens, List.foldl_append]
      · intro inf hinf
        rw [hpass.turned] at hinf
        rcases List.mem_append.1 hinf with hinf | hinf
        · exact h.small inf hinf
        · obtain ⟨prompt, hasked⟩ := hturns inf hinf
          exact hd prompt _ _ _ inf hasked
    simp only
    split
    · exact ⟨hnext.total, hnext.small, trivial⟩
    · exact hnext

theorem toNat_addTokens {total : UInt32} {turns : List AgenticTurnOutcome}
    (h : total.toNat + (turns.map fun inf => inf.tokensGenerated.toNat).sum < 4294967296) :
    (addTokens total turns).toNat =
      total.toNat + (turns.map fun inf => inf.tokensGenerated.toNat).sum := by
  induction turns generalizing total with
  | nil => simp [addTokens]
  | cons inf turns ih =>
      rw [List.map_cons, List.sum_cons] at h ⊢
      have hadd : (saturatingAdd total inf.tokensGenerated).toNat =
          total.toNat + inf.tokensGenerated.toNat := by
        rw [saturatingAdd, if_pos (by omega), UInt32.toNat_add]
        omega
      have hrest := ih (show (saturatingAdd total inf.tokensGenerated).toNat + _ < _ by
        rw [hadd]
        omega)
      show (addTokens (saturatingAdd total inf.tokensGenerated) turns).toNat = _
      rw [hrest, hadd]
      omega

theorem uint32_min_le_right (n m : UInt32) : min n m ≤ m := by
  rw [UInt32.le_iff_toNat_le]
  show (if n ≤ m then n else m).toNat ≤ _
  split
  · rename_i hle
    exact UInt32.le_iff_toNat_le.1 hle
  · exact le_rfl

theorem requestedTokens_le (s : AgenticSetup) : s.requestedTokens ≤ 16384 :=
  uint32_min_le_right s.maxTokens 16384

section Unified

variable {calls : AgenticCalls} {t : TaskInput}

theorem counted_run (ht : t.Reports) : Counted (unifiedSetup calls t) (unifiedRun calls t) := by
  have hinitial : Counted (unifiedSetup calls t) (AgenticLoop.initial (unifiedSetup calls t)) :=
    ⟨rfl, by simp [AgenticLoop.initial], trivial⟩
  refine run_of_inv (P := fun _ d => ∃ i, d = t.passes i) ?_ hinitial (along_of_forall ?_)
  · rintro st d h ⟨i, rfl⟩
    exact counted_step (ht.passes i) h
  · intro d hd
    obtain ⟨i, -, rfl⟩ := List.mem_map.1 hd
    exact ⟨i, rfl⟩

theorem totalTokens_run (ht : t.Reports) :
    (unifiedRun calls t).totalTokens.toNat = reportedTokens calls t := by
  have hcounted : Counted (unifiedSetup calls t) (unifiedRun calls t) := counted_run ht
  have hbounded : Bounded (unifiedSetup calls t) (unifiedRun calls t) := (bounded_run ..).1
  have hlength : (unifiedRun calls t).turns.length ≤ 20 := hbounded.turns.trans hbounded.iter
  have hsmall : ∀ n ∈ (unifiedRun calls t).turns.map fun inf => inf.tokensGenerated.toNat,
      n ≤ 16384 := by
    intro n hn
    obtain ⟨inf, hinf, rfl⟩ := List.mem_map.1 hn
    have hrequested : (unifiedSetup calls t).requestedTokens ≤ 16384 := requestedTokens_le _
    exact UInt32.le_iff_toNat_le.1 (UInt32.le_trans (hcounted.small inf hinf) hrequested)
  have hsum : reportedTokens calls t ≤ (unifiedRun calls t).turns.length * 16384 := by
    have hle := List.sum_le_card_nsmul _ 16384 hsmall
    simpa [reportedTokens] using hle
  have hfew : (0 : UInt32).toNat + reportedTokens calls t < 4294967296 := by
    rw [UInt32.toNat_zero]
    omega
  rw [hcounted.total, toNat_addTokens hfew, UInt32.toNat_zero, zero_add]
  rfl

theorem tokensCost_run : tokensCost ((unifiedRun calls t).turns.map
    AgenticTurnOutcome.tokensGenerated) = tokenCost (reportedTokens calls t) := by
  rw [tokensCost_eq, List.map_map]
  rfl

theorem unrecorded_kept_iff (r : AgentRuntime) (conversation : List ChatMessage)
    (result : Option AgentResult) :
    SpendingKept r (⟨r.budget.newRequest, conversation⟩,
      ⟨result, (unifiedRun calls t).turns.map AgenticTurnOutcome.tokensGenerated, []⟩) ↔
      reportedTokens calls t = 0 := by
  constructor
  · intro h
    have hrecorded : r.budget.newRequest.totalSpent = r.budget.totalSpent + tokensCost _ :=
      h.recorded
    rw [BudgetTracker.totalSpent_newRequest, tokensCost_run] at hrecorded
    by_contra hne
    have hpos := tokenCost_pos_iff.2 hne
    linarith
  · intro hzero
    refine ⟨by simp, ?_⟩
    show r.budget.newRequest.totalSpent = r.budget.totalSpent + tokensCost _
    rw [BudgetTracker.totalSpent_newRequest, tokensCost_run, hzero]
    simp [tokenCost]

theorem recorded_kept_iff (r : AgentRuntime) (conversation : List ChatMessage)
    (result : Option AgentResult) {budget : BudgetTracker}
    (hbudget : budget =
      r.budget.newRequest.spend t.chargedAt (tokenCost (reportedTokens calls t))) :
    SpendingKept r (⟨budget, conversation⟩,
      ⟨result, (unifiedRun calls t).turns.map AgenticTurnOutcome.tokensGenerated,
        [⟨tokenCost (reportedTokens calls t), budget⟩]⟩) ↔
      (reportedTokens calls t = 0 ∨
        (r.budget.newRequest.canSpend t.chargedAt (tokenCost (reportedTokens calls t))).1) := by
  subst hbudget
  constructor
  · intro h
    by_cases hzero : reportedTokens calls t = 0
    · exact .inl hzero
    · have hwithin := h.within _ (List.mem_singleton_self _) (tokenCost_pos_iff.2 hzero)
      exact .inr ((BudgetTracker.within_spend_iff _ _).1 hwithin)
  · intro h
    refine ⟨fun spend hspend hpos => ?_, ?_⟩
    · obtain rfl := List.mem_singleton.1 hspend
      have hcan := h.resolve_left (tokenCost_pos_iff.1 hpos)
      exact (BudgetTracker.within_spend_iff _ _).2 hcan
    · show (r.budget.newRequest.spend _ _).totalSpent = _ + tokensCost _
      rw [BudgetTracker.totalSpent_spend, BudgetTracker.totalSpent_newRequest, tokensCost_run]

/-- The charge of a run without an answer fits if there is nothing to charge. -/
theorem chargeFits_failed {r : AgentRuntime}
    (h : ∀ out, (unifiedRun calls t).ended ≠ some (.ok out)) :
    ChargeFits calls r t ↔ reportedTokens calls t = 0 :=
  ⟨fun hfits => hfits.failed h, fun hzero => ⟨fun out hout => absurd hout (h out), fun _ => hzero⟩⟩

/-- **The unified loop** keeps within the limits and records everything exactly when its
charge fits. -/
theorem unified_kept_iff (r : AgentRuntime) (ht : t.Reports) :
    SpendingKept r (runTaskViaUnifiedLoop calls r t) ↔ ChargeFits calls r t := by
  have hcounted : Counted (unifiedSetup calls t) (unifiedRun calls t) := counted_run ht
  have hsettles := hcounted.settles
  unfold runTaskViaUnifiedLoop
  cases hended : (unifiedRun calls t).ended with
  | none =>
      rw [chargeFits_failed (by simp [hended])]
      exact unrecorded_kept_iff ..
  | some outcome =>
      cases outcome with
      | ok out =>
          rw [hended] at hsettles
          have htokens : out.outcome.tokensGenerated.toNat = reportedTokens calls t := by
            rw [show out.outcome.tokensGenerated = _ from hsettles]
            exact totalTokens_run ht
          have hfits : ChargeFits calls r t ↔ (reportedTokens calls t = 0 ∨
              (r.budget.newRequest.canSpend t.chargedAt
                (tokenCost (reportedTokens calls t))).1) := by
            refine ⟨fun h => h.answered out hended, fun h => ⟨fun _ _ => h, fun hnot => ?_⟩⟩
            exact absurd hended (hnot out)
          rw [hfits]
          simp only [htokens]
          exact recorded_kept_iff r _ _ rfl
      | err e =>
          rw [chargeFits_failed (by simp [hended])]
          exact unrecorded_kept_iff ..
      | panic =>
          rw [chargeFits_failed (by simp [hended])]
          exact unrecorded_kept_iff ..

end Unified

/-! ## One task after another -/

theorem nonneg_step {calls : AgenticCalls} {r : AgentRuntime} {t : TaskInput} (ht : t.Reports)
    (hr : r.budget.quota.Nonneg) : (AgentRuntime.step calls r t).budget.quota.Nonneg := by
  have hnew := hr.resets BudgetTracker.quota_newRequest
  unfold AgentRuntime.step runTaskWithSession
  split
  · unfold runTaskViaUnifiedLoop
    split
    · show (r.budget.newRequest.spend _ _).quota.Nonneg
      rw [BudgetTracker.quota_spend]
      exact (hnew.resets (BudgetTracker.quota_resetIfNeeded _)).charge (tokenCost_nonneg _)
    all_goals exact hnew
  · exact (plain_kept calls ht hr).2

/-- The condition on a task: it is run by the plain loop, or its charge fits. -/
def TaskFits (calls : AgenticCalls) (r : AgentRuntime) (t : TaskInput) : Prop :=
  t.inferenceSink → ChargeFits calls r t

theorem task_kept_iff {calls : AgenticCalls} {r : AgentRuntime} {t : TaskInput} (ht : t.Reports)
    (hr : r.budget.quota.Nonneg) :
    SpendingKept r (runTaskWithSession calls r t) ↔ TaskFits calls r t := by
  unfold runTaskWithSession TaskFits
  by_cases hsink : t.inferenceSink
  · rw [if_pos hsink, unified_kept_iff r ht]
    exact ⟨fun h _ => h, fun h => h hsink⟩
  · rw [if_neg hsink]
    exact ⟨fun _ h => absurd h hsink, fun _ => (plain_kept calls ht hr).1⟩

/-- **Every sequence of tasks**, for every limits: each task keeps within the limits whenever
it records an amount, and all that the model has generated for it is recorded, exactly when
each task that is run by the unified loop either has an answer and its cost can be spent
when it is recorded, or used no tokens. -/
theorem spending_kept_iff (calls : AgenticCalls) (now : ℕ) (perRequest perHour perDay total : ℚ)
    (conversation : List ChatMessage) (tasks : List TaskInput) (h : ∀ t ∈ tasks, t.Reports) :
    Along (AgentRuntime.step calls) (fun r t => SpendingKept r (runTaskWithSession calls r t))
      ⟨BudgetTracker.new now perRequest perHour perDay total, conversation⟩ tasks ↔
    Along (AgentRuntime.step calls) (TaskFits calls)
      ⟨BudgetTracker.new now perRequest perHour perDay total, conversation⟩ tasks :=
  along_iff_of_inv (I := fun r => r.budget.quota.Nonneg) (fun _ _ hr ht => nonneg_step ht hr)
    (fun _ _ hr ht => task_kept_iff ht hr)
    (BudgetTracker.quota_new now perRequest perHour perDay total) (along_of_forall h)

/-! ## Some tasks -/

/-- Functions that find the same calls in every text. -/
def findsCalls (calls : List ParsedToolCall) : AgenticCalls where
  parseToolCalls _ := calls
  extractAnswer := id
  pruneStringConversation conversation _ _ := some conversation
  pruneConversation messages _ := some messages
  hashArgs _ := 0
  toLowercase := id

/-- A pass in which the model answers with 1000 tokens, if it is not cancelled. -/
def answerPass (cancelled : Bool) : PassDraw where
  cancelled := cancelled
  infer _ _ maxTokens _ := .ok ⟨"done", min 1000 maxTokens, 1, "local", none⟩
  mcpToolCount := 0
  localTools := []
  callMcp _ _ := .error ""
  executeLocal _ _ := .ok ""
  durationMs _ _ := 0
  clock := ""

/-- A task for which the model answers with 1000 tokens in each turn; it is stopped before the
turn `stop`. -/
def answerTask (inferenceSink : Bool) (stop : ℕ) : TaskInput where
  config := ⟨"a", "agent", "llama", 1024, 0, "", [], 4096⟩
  prompts := ⟨"", "", "", "", "", "", "", "", "", "", "", "", "", "", "", "", "", "", ""⟩
  inferenceSink := inferenceSink
  userInput := "hello"
  extras := ⟨false, false, "", 0⟩
  history := []
  systemPrompt := ""
  systemPrefix := ""
  iterations i := {
    stopped := i = stop
    checkedAt := 0
    execute := fun task => .ok (.inference "done" (min 1000 task.maxTokens))
    spentAt := 0
    stoppedBefore := fun _ => false
    executeLocal := fun _ _ => .ok ⟨none, ""⟩
    durationMs := fun _ _ => 0 }
  passes i := answerPass (i = stop)
  chargedAt := 0

theorem answerTask_reports (inferenceSink : Bool) (stop : ℕ) :
    (answerTask inferenceSink stop).Reports where
  iterations i task text tokens h := by
    obtain ⟨rfl, rfl⟩ := TaskData.inference.inj (Except.ok.inj h)
    exact uint32_min_le_right 1000 task.maxTokens
  passes i prompt model maxTokens temperature inf h := by
    obtain rfl := Except.ok.inj h
    exact uint32_min_le_right 1000 maxTokens

/-- A task of each kind, within the limits. -/
theorem spending_kept_each : Along (AgentRuntime.step (findsCalls []))
    (fun r t => SpendingKept r (runTaskWithSession (findsCalls []) r t))
    ⟨BudgetTracker.new 0 10 100 500 5000, []⟩ [answerTask false 1, answerTask true 1] := by
  refine (spending_kept_iff (findsCalls []) 0 10 100 500 5000 []
    [answerTask false 1, answerTask true 1] ?_).2 ?_
  · intro t ht
    rcases List.mem_pair.1 ht with rfl | rfl <;> exact answerTask_reports ..
  · rw [along_cons, along_cons]
    unfold TaskFits
    refine ⟨nofun, fun _ => ⟨fun out hout => .inr ?_, fun h => ?_⟩, trivial⟩
    · decide +kernel
    · exact absurd rfl (h _)

/-- A run of the unified loop that costs more than a request may, and one that is stopped after
its first turn. -/
theorem spending_not_kept :
    ¬ Along (AgentRuntime.step (findsCalls []))
      (fun r t => SpendingKept r (runTaskWithSession (findsCalls []) r t))
      ⟨BudgetTracker.new 0 (1 / 4) 100 500 5000, []⟩ [answerTask true 1] ∧
    ¬ Along (AgentRuntime.step (findsCalls [⟨"shell", .null⟩]))
      (fun r t => SpendingKept r (runTaskWithSession (findsCalls [⟨"shell", .null⟩]) r t))
      ⟨BudgetTracker.new 0 10 100 500 5000, []⟩ [answerTask true 1] := by
  constructor
  · rintro ⟨h, -⟩
    have hspends : (runTaskWithSession (findsCalls [])
        ⟨BudgetTracker.new 0 (1 / 4) 100 500 5000, []⟩ (answerTask true 1)).2.spends =
        [⟨tokenCost 1000, (BudgetTracker.new 0 (1 / 4) 100 500 5000).newRequest.spend 0
          (tokenCost 1000)⟩] := rfl
    have hwithin := h.within ⟨tokenCost 1000, _⟩ (by rw [hspends]; exact List.mem_singleton_self _)
      (tokenCost_pos_iff.2 (by simp))
    have hrequest := hwithin .request
    revert hrequest
    decide +kernel
  · rintro ⟨h, -⟩
    have hrecorded := h.recorded
    revert hrecorded
    decide +kernel

end PeerClaw
