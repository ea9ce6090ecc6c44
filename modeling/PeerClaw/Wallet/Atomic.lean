import PeerClaw.Wallet.Active

/-!
# What a failed call leaves behind

A call of the wallet changes the state in memory under the write lock, and only
then saves it.  An error of the database is returned with the change made; and
`create_escrow` moves the funds before it computes the expiry date of the new
escrow, which may panic.

* `fails_clean_iff` — a call that fails has changed nothing exactly when the
  database stores what the call changes and the expiry date is representable.
* `unstored_stake_stays` — a stake whose save fails is staked all the same.
-/

namespace PeerClaw
namespace Wallet

open Lib Lib.Word

/-! ## Where a call can fail -/

/-- The spending limits allow the call, where they are checked. -/
def Call.WithinLimits (cfg : WalletConfig) (st : WalletState) (c : Call) : Prop :=
  ∀ amount, c.spending = some amount →
    (checkSpendingLimits cfg c.draw.checkedAt amount st).outcome.isOk

/-- The checks of the call on its arguments, the balances and the escrows pass. -/
def Call.Admissible (cfg : WalletConfig) (st : WalletState) : Call → Prop
  | .credit _ amount _ => amount ≠ 0
  | .debit _ amount _ => Affords cfg st amount
  | .createEscrow _ amount _ _ _ => Affords cfg st amount
  | .releaseEscrow _ id => ∃ e, ActiveAt st id e
  | .refundEscrow _ id => ∃ e, ActiveAt st id e
  | .stake _ amount => amount ≤ st.available
  | .unstake _ amount => amount ≤ st.staked
  | .sweepExpiredEscrows _ => True

/-- The expiry date is representable, where the call computes one. -/
def Call.Dated : Call → Prop
  | .createEscrow draw amount recipient jobId timeoutSecs =>
      (Escrow.new draw.now draw.escrowId amount recipient jobId timeoutSecs).isSome
  | _ => True

/-- What the database answers, where the call heeds it. -/
def Call.answer : Call → Except String Unit
  | .sweepExpiredEscrows _ => .ok ()
  | c => c.draw.store

/-- A call that fails leaves the state as it was. -/
def FailsClean (cfg : WalletConfig) (st : WalletState) (c : Call) : Prop :=
  (exec cfg c st).outcome.isOk = false → (exec cfg c st).state = st

/-- Once the checks have passed, nothing can fail after the first change. -/
structure Unfailing (cfg : WalletConfig) (st : WalletState) (c : Call) : Prop where
  /-- A date that cannot be represented comes with no funds to move. -/
  dated : c.WithinLimits cfg st → c.Admissible cfg st → c.Dated ∨ c.spending = some 0
  stores : c.WithinLimits cfg st → c.Admissible cfg st → c.Dated → c.answer = .ok ()

/-! ## The section under the write lock -/

section Locked

variable {cfg : WalletConfig} {st : WalletState} {c : Call}

/-- **A section whose checks fail** changes nothing. -/
theorem locked_refused (h : ¬ c.Admissible cfg st) :
    (locked cfg c st).outcome.isOk = false ∧ (locked cfg c st).state = st := by
  cases c with
  | credit draw amount reason =>
      have hzero : amount = 0 := not_not.1 h
      simp only [locked, Action.map_apply, if_pos hzero]
      exact ⟨rfl, rfl⟩
  | debit draw amount reason =>
      have hlt : satSub st.available cfg.reserveBalance < amount := UInt64.not_le.1 h
      simp only [locked, Action.map_apply, debitLocked, if_pos hlt]
      exact ⟨rfl, trivial⟩
  | createEscrow draw amount recipient jobId timeoutSecs =>
      have hlt : satSub st.available cfg.reserveBalance < amount := UInt64.not_le.1 h
      simp only [locked, Action.map_apply, createEscrowLocked, if_pos hlt]
      exact ⟨rfl, trivial⟩
  | releaseEscrow draw id =>
      rcases releaseEscrowLocked_cases (draw.stamp 0) id st with ⟨e, -, he, -⟩ | ⟨-, hout, hstate⟩
      · exact absurd ⟨e, he⟩ h
      · simp only [locked, Action.map_apply, Outcome.isOk_map]
        exact ⟨hout, hstate⟩
  | refundEscrow draw id =>
      rcases refundEscrowLocked_cases (draw.stamp 0) id st with ⟨e, -, he, -⟩ | ⟨-, hout, hstate⟩
      · exact absurd ⟨e, he⟩ h
      · simp only [locked, Action.map_apply, Outcome.isOk_map]
        exact ⟨hout, hstate⟩
  | stake draw amount =>
      have hlt : st.available < amount := UInt64.not_le.1 h
      simp only [locked, Action.map_apply, stakeLocked, if_pos hlt]
      exact ⟨rfl, trivial⟩
  | unstake draw amount =>
      have hlt : st.staked < amount := UInt64.not_le.1 h
      simp only [locked, Action.map_apply, unstakeLocked, if_pos hlt]
      exact ⟨rfl, trivial⟩
  | sweepExpiredEscrows draw => exact absurd trivial h

/-- **A section whose date cannot be represented** panics with the funds moved. -/
theorem locked_undated (h : c.Admissible cfg st) (hdate : ¬ c.Dated) :
    ∃ amount, c.spending = some amount ∧ (locked cfg c st).outcome = .panic ∧
      (locked cfg c st).state =
        { st with available := st.available - amount, inEscrow := st.inEscrow + amount } := by
  cases c with
  | createEscrow draw amount recipient jobId timeoutSecs =>
      have hnot : ¬ satSub st.available cfg.reserveBalance < amount := UInt64.not_lt.2 h
      have hnone : Escrow.new draw.now draw.escrowId amount recipient jobId timeoutSecs = none :=
        Option.not_isSome_iff_eq_none.1 hdate
      refine ⟨amount, rfl, ?_⟩
      simp only [locked, Action.map_apply, createEscrowLocked, if_neg hnot, hnone]
      exact ⟨rfl, trivial⟩
  | _ => exact absurd trivial hdate

theorem sweepLoop_ok (stamp : ℕ → Stamp) (ids : List EscrowId) :
    ∀ (k : ℕ) (st : WalletState), (sweepLoop stamp k ids st).outcome.isOk := by
  induction ids with
  | nil => exact fun k st => rfl
  | cons id ids ih =>
      intro k st
      obtain ⟨swept, hone⟩ := sweepOne_ok (stamp k) id st
      have hunfold : sweepLoop stamp k (id :: ids) st =
          (sweepOne (stamp k) id >>= fun swept => (fun rest => swept ++ rest) <$>
            sweepLoop stamp (k + swept.length) ids) st := rfl
      rw [hunfold, Action.bind_of_ok hone, Action.map_apply]
      dsimp only
      rw [Outcome.isOk_map]
      exact ih _ _

/-- **Any other section** succeeds, and but for a sweep it changes the state. -/
theorem locked_done (h : c.Admissible cfg st) (hdate : c.Dated) :
    (locked cfg c st).outcome.isOk ∧
      ((∃ draw, c = .sweepExpiredEscrows draw) ∨ (locked cfg c st).state ≠ st) := by
  have hlog : ∀ {st' : WalletState} {tx : Transaction},
      st'.transactions = st.transactions ++ [tx] → st' ≠ st := by
    intro st' tx hlog hsame
    rw [hsame] at hlog
    simp at hlog
  cases c with
  | credit draw amount reason =>
      have hne : amount ≠ 0 := h
      simp only [locked, Action.map_apply, if_neg hne]
      refine ⟨rfl, .inr fun hsame => hne ?_⟩
      have havailable : st.available + amount = st.available := congrArg WalletState.available hsame
      simpa using havailable
  | debit draw amount reason =>
      have hnot : ¬ satSub st.available cfg.reserveBalance < amount := UInt64.not_lt.2 h
      simp only [locked, Action.map_apply, debitLocked, if_neg hnot]
      exact ⟨rfl, .inr (hlog rfl)⟩
  | createEscrow draw amount recipient jobId timeoutSecs =>
      have hnot : ¬ satSub st.available cfg.reserveBalance < amount := UInt64.not_lt.2 h
      obtain ⟨e, hnew⟩ := Option.isSome_iff_exists.1 hdate
      simp only [locked, Action.map_apply, createEscrowLocked, if_neg hnot, hnew]
      exact ⟨rfl, .inr (hlog rfl)⟩
  | releaseEscrow draw id =>
      obtain ⟨e, hlookup, hactive⟩ := h
      simp only [locked, Action.map_apply, releaseEscrowLocked, hlookup, hactive, ne_eq,
        not_true_eq_false, if_false]
      exact ⟨rfl, .inr (hlog rfl)⟩
  | refundEscrow draw id =>
      obtain ⟨e, hlookup, hactive⟩ := h
      simp only [locked, Action.map_apply, refundEscrowLocked, hlookup, hactive, ne_eq,
        not_true_eq_false, if_false]
      exact ⟨rfl, .inr (hlog rfl)⟩
  | stake draw amount =>
      have hnot : ¬ st.available < amount := UInt64.not_lt.2 h
      simp only [locked, Action.map_apply, stakeLocked, if_neg hnot]
      exact ⟨rfl, .inr (hlog rfl)⟩
  | unstake draw amount =>
      have hnot : ¬ st.staked < amount := UInt64.not_lt.2 h
      simp only [locked, Action.map_apply, unstakeLocked, if_neg hnot]
      exact ⟨rfl, .inr (hlog rfl)⟩
  | sweepExpiredEscrows draw =>
      simp only [locked, Action.map_apply, Outcome.isOk_map]
      exact ⟨sweepLoop_ok _ _ _ _, .inl ⟨draw, rfl⟩⟩

end Locked

/-! ## Whole calls -/

/-- A call succeeds when its check does, its section does and the database stores. -/
theorem saved_isOk {α : Type} (x : WalletM α) (store : Except String Unit) (st : WalletState) :
    ((do let a ← x; saveState store; return a : WalletM α) st).outcome.isOk ↔
      (x st).outcome.isOk ∧ store = .ok () := by
  rcases (x st).outcome.ok_or_not with ⟨a, hx⟩ | hx
  · rw [Action.bind_of_ok hx, hx]
    cases store with
    | ok u => exact ⟨fun _ => ⟨rfl, rfl⟩, fun _ => rfl⟩
    | error e =>
        refine ⟨fun h => ?_, fun h => ?_⟩
        · cases h
        · cases h.2
  · rw [(Action.bind_of_not_ok hx).1, hx]
    simp

theorem checked_isOk {α : Type} (cfg : WalletConfig) (now : DateTime) (amount : UInt64)
    (x : WalletM α) (st : WalletState) :
    ((checkSpendingLimits cfg now amount >>= fun _ => x) st).outcome.isOk ↔
      (checkSpendingLimits cfg now amount st).outcome.isOk ∧ (x st).outcome.isOk := by
  have hkeep := checkSpendingLimits_state cfg now amount st
  rcases (checkSpendingLimits cfg now amount st).outcome.ok_or_not with ⟨u, hc⟩ | hc
  · rw [Action.bind_of_ok hc, hkeep, hc]
    exact ⟨fun h => ⟨rfl, h⟩, And.right⟩
  · rw [(Action.bind_of_not_ok hc).1, hc]
    simp

section Calls

variable {cfg : WalletConfig} {st : WalletState} {c : Call}

/-- **When a call succeeds.** -/
theorem exec_isOk_iff : (exec cfg c st).outcome.isOk ↔
    c.WithinLimits cfg st ∧ (locked cfg c st).outcome.isOk ∧ c.answer = .ok () := by
  have hfree : c.spending = none → c.WithinLimits cfg st := by
    intro hnone amount hsome
    rw [hnone] at hsome
    cases hsome
  have hspends : ∀ amount, c.spending = some amount → (c.WithinLimits cfg st ↔
      (checkSpendingLimits cfg c.draw.checkedAt amount st).outcome.isOk) := by
    intro amount hsome
    refine ⟨fun h => h amount hsome, fun h a ha => ?_⟩
    obtain rfl := Option.some.inj (hsome.symm.trans ha)
    exact h
  cases c with
  | credit draw amount reason =>
      simp only [exec, locked, Action.map_apply, Outcome.isOk_map, credit]
      split
      · refine ⟨fun h => ?_, fun h => h.2.1⟩
        cases h
      · rw [saved_isOk]
        exact ⟨fun h => ⟨hfree rfl, h⟩, And.right⟩
  | debit draw amount reason =>
      simp only [exec, locked, Action.map_apply, Outcome.isOk_map, debit]
      rw [checked_isOk, saved_isOk, hspends amount rfl]
      rfl
  | createEscrow draw amount recipient jobId timeoutSecs =>
      simp only [exec, locked, Action.map_apply, Outcome.isOk_map, createEscrow]
      rw [checked_isOk, saved_isOk, hspends amount rfl]
      rfl
  | releaseEscrow draw id =>
      simp only [exec, locked, Action.map_apply, Outcome.isOk_map]
      exact (saved_isOk _ _ _).trans ⟨fun h => ⟨hfree rfl, h⟩, And.right⟩
  | refundEscrow draw id =>
      simp only [exec, locked, Action.map_apply, Outcome.isOk_map]
      exact (saved_isOk _ _ _).trans ⟨fun h => ⟨hfree rfl, h⟩, And.right⟩
  | stake draw amount =>
      simp only [exec, locked, Action.map_apply, Outcome.isOk_map]
      exact (saved_isOk _ _ _).trans ⟨fun h => ⟨hfree rfl, h⟩, And.right⟩
  | unstake draw amount =>
      simp only [exec, locked, Action.map_apply, Outcome.isOk_map]
      exact (saved_isOk _ _ _).trans ⟨fun h => ⟨hfree rfl, h⟩, And.right⟩
  | sweepExpiredEscrows draw =>
      exact ⟨fun h => ⟨hfree rfl, h, rfl⟩, fun h => h.2.1⟩

/-- A call that passes the limits leaves what its section leaves, -/
theorem exec_state_within (h : c.WithinLimits cfg st) :
    (exec cfg c st).state = (locked cfg c st).state := by
  have hstep := step_eq_locked cfg st c
  cases hs : c.spending with
  | none =>
      rw [hs] at hstep
      exact hstep
  | some amount =>
      rw [hs] at hstep
      dsimp only at hstep
      rw [if_pos (h amount hs)] at hstep
      exact hstep

/-- and one that does not pass them leaves the state as it was. -/
theorem exec_state_beyond (h : ¬ c.WithinLimits cfg st) : (exec cfg c st).state = st := by
  have hstep := step_eq_locked cfg st c
  cases hs : c.spending with
  | none =>
      refine absurd (fun amount hsome => ?_) h
      rw [hs] at hsome
      cases hsome
  | some amount =>
      have hfails : ¬ (checkSpendingLimits cfg c.draw.checkedAt amount st).outcome.isOk := by
        intro hok
        refine h fun a ha => ?_
        obtain rfl := Option.some.inj (hs.symm.trans ha)
        exact hok
      rw [hs] at hstep
      dsimp only at hstep
      rw [if_neg hfails] at hstep
      exact hstep

/-- **When a failed call leaves nothing behind**: exactly when nothing can fail after its
first change. -/
theorem fails_clean_iff (cfg : WalletConfig) (st : WalletState) (c : Call) :
    FailsClean cfg st c ↔ Unfailing cfg st c := by
  by_cases hlimits : c.WithinLimits cfg st
  · have hfails : (exec cfg c st).outcome.isOk = false ↔
        ¬ ((locked cfg c st).outcome.isOk ∧ c.answer = .ok ()) := by
      rw [← Bool.not_eq_true, exec_isOk_iff]
      simp only [hlimits, true_and]
    unfold FailsClean
    rw [hfails, exec_state_within hlimits]
    by_cases hadmits : c.Admissible cfg st
    · by_cases hdate : c.Dated
      · obtain ⟨hok, hchanges⟩ := locked_done hadmits hdate
        constructor
        · intro hclean
          refine ⟨fun _ _ => .inl hdate, fun _ _ _ => ?_⟩
          rcases hchanges with ⟨draw, rfl⟩ | hchanges
          · rfl
          · by_contra hanswer
            exact hchanges (hclean fun hboth => hanswer hboth.2)
        · intro hsound hnot
          exact absurd ⟨hok, hsound.stores hlimits hadmits hdate⟩ hnot
      · obtain ⟨amount, hspending, hout, hstate⟩ := locked_undated hadmits hdate
        rw [hstate, hout]
        constructor
        · intro hclean
          refine ⟨fun _ _ => .inr ?_, fun _ _ h => absurd h hdate⟩
          have hsame := hclean fun hboth => by cases hboth.1
          have hescrow : st.inEscrow + amount = st.inEscrow := congrArg WalletState.inEscrow hsame
          have hzero : amount = 0 := by simpa using hescrow
          rw [hspending, hzero]
        · intro hsound _
          rcases hsound.dated hlimits hadmits with h | h
          · exact absurd h hdate
          · obtain rfl := Option.some.inj (hspending.symm.trans h)
            simp
    · obtain ⟨-, hstate⟩ := locked_refused hadmits
      exact ⟨fun _ => ⟨fun _ h => absurd h hadmits, fun _ h => absurd h hadmits⟩,
        fun _ _ => hstate⟩
  · exact ⟨fun _ => ⟨fun h => absurd h hlimits, fun h => absurd h hlimits⟩,
      fun _ _ => exec_state_beyond hlimits⟩

end Calls

section Example

private def unlimited : WalletConfig := ⟨1000, 1000, 1000, 0⟩

private def forty : WalletState := { WalletState.default with available := 40 }

private def fullDisk : Draw := { Draw.fixed .epoch "e" [] with store := .error "no space left" }

/-- **A stake whose save fails** is staked all the same. -/
theorem unstored_stake_stays :
    (exec unlimited (.stake fullDisk 30) forty).outcome =
        .err (.database "no space left") ∧
      (exec unlimited (.stake fullDisk 30) forty).state.staked = 30 ∧
      ¬ FailsClean unlimited forty (.stake fullDisk 30) := by
  refine ⟨rfl, rfl, ?_⟩
  intro hclean
  have hstaked := congrArg WalletState.staked (hclean rfl)
  revert hstaked
  decide

/-- An escrow whose expiry date cannot be represented takes the funds and panics. -/
example : (exec unlimited (.createEscrow (.fixed .epoch "e" []) 30 "bob" "job" 10000000000000000)
    forty).state.available = 10 := by
  decide

end Example

end Wallet
end PeerClaw
