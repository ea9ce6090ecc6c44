import PeerClaw.Wallet.Atomic

/-!
# What a restart finds

The wallet state lives in memory and in the database.  A call changes it in
memory, lets go of the write lock, and saves it under a read lock that it holds
until the database has answered; in between, other calls may change it or save
it.  A sweep saves only if it refunded something.

* `quiescent_persisted` — when no call is in flight, a restart finds the state
  in memory, provided that no escrow was refused a date after its funds moved.
* `undated_escrow_lost` — such an escrow is in memory only.
-/

namespace PeerClaw
namespace Wallet

open Lib Lib.Word Lib.Machine

/-- The two places of the wallet state; a new database has none. -/
structure Durable where
  memory : WalletState
  database : Option WalletState

/-- `Wallet::load_state`. -/
def loadState (database : Option WalletState) : WalletState := database.getD .default

/-- `Wallet::new`: a wallet opened on a database. -/
def opened (database : Option WalletState) : Pool Durable Task :=
  ⟨⟨loadState database, database⟩, []⟩

/-- Whether a section under the write lock is followed by `save_state`. -/
def savesAfter : Outcome WalletError Reply → Bool
  | .ok (.swept ids) => !ids.isEmpty
  | .ok _ => true
  | _ => false

/-- Run the section under the write lock. -/
def changeSection (cfg : WalletConfig) (w : Durable) (c : Call) : Durable × Option Task :=
  let eff := locked cfg c w.memory
  ({ w with memory := eff.state }, if savesAfter eff.outcome then some (.save c) else none)

/-- `Wallet::save_state`, under the read lock. -/
def saveSection (w : Durable) (c : Call) : Durable :=
  match c.draw.store with
  | .ok _ => { w with database := some w.memory }
  | .error _ => w

/-- Run the next section of a call. -/
def persist (cfg : WalletConfig) (w : Durable) : Task → Durable × Option Task
  | .begin c =>
      match c.spending with
      | none => changeSection cfg w c
      | some amount =>
          if (checkSpendingLimits cfg c.draw.checkedAt amount w.memory).outcome.isOk then
            (w, some (.commit c))
          else (w, none)
  | .commit c => changeSection cfg w c
  | .save c => (saveSection w c, none)

/-- A restart would find the state in memory. -/
def Persisted (w : Durable) : Prop := loadState w.database = w.memory

/-- A call starts from the beginning, on a database that stores. -/
def Storing : Move Task → Prop
  | .start t => ∃ c, t = .begin c ∧ c.draw.store = .ok ()
  | .resume _ => True

/-- An escrow that the balance admits has an expiry date, or holds nothing. -/
def Datable (cfg : WalletConfig) (p : Pool Durable Task) : Move Task → Prop
  | .start _ => True
  | .resume k => ∀ c, p.taskAt k = some (.commit c) → c.Admissible cfg p.shared.memory →
      c.Dated ∨ c.spending = some 0

/-- The call that a task is the rest of. -/
def Task.call : Task → Call
  | .begin c | .commit c | .save c => c

/-- The task has a change to save. -/
def Task.Saving : Task → Prop
  | .save _ => True
  | _ => False

/-! ## Sections -/

theorem sweepLoop_empty (stamp : ℕ → Stamp) (ids : List EscrowId) :
    ∀ (k : ℕ) (st : WalletState), (sweepLoop stamp k ids st).outcome = .ok [] →
      (sweepLoop stamp k ids st).state = st := by
  induction ids with
  | nil => exact fun k st _ => rfl
  | cons id ids ih =>
      intro k st
      have hunfold : sweepLoop stamp k (id :: ids) st =
          (sweepOne (stamp k) id >>= fun swept => (fun rest => swept ++ rest) <$>
            sweepLoop stamp (k + swept.length) ids) st := rfl
      rw [hunfold]
      cases hlookup : st.escrows.lookup id with
      | none =>
          have hone : sweepOne (stamp k) id st = ⟨.ok [], st, []⟩ := by
            simp only [sweepOne, hlookup]
          rw [Action.bind_of_ok (a := []) (by rw [hone]), hone]
          simp only [Action.map_apply]
          intro hout
          refine ih _ _ ?_
          obtain ⟨rest, hrest⟩ : ∃ rest, (sweepLoop stamp (k + 0) ids st).outcome = .ok rest :=
            Outcome.isOk_iff.1 (sweepLoop_ok ..)
          rw [List.length_nil, hrest] at hout ⊢
          exact hout
      | some e =>
          have hone : (sweepOne (stamp k) id st).outcome = .ok [id] := by
            simp only [sweepOne, hlookup]
          rw [Action.bind_of_ok hone]
          simp only [Action.map_apply]
          intro hout
          obtain ⟨rest, hrest⟩ := Outcome.isOk_iff.1
            (sweepLoop_ok stamp ids (k + [id].length) (sweepOne (stamp k) id st).state)
          rw [hrest] at hout
          cases hout

section Sections

variable {cfg : WalletConfig} {st : WalletState} {c : Call}

/-- **A section that is not followed by a save** changed nothing, unless it panicked. -/
theorem locked_unsaved (hdated : c.Admissible cfg st → c.Dated ∨ c.spending = some 0)
    (hnot : savesAfter (locked cfg c st).outcome = false) : (locked cfg c st).state = st := by
  by_cases hadmits : c.Admissible cfg st
  · by_cases hdate : c.Dated
    · have hok := (locked_done hadmits hdate).1
      cases c with
      | sweepExpiredEscrows draw =>
          simp only [locked, Action.map_apply, sweepExpiredEscrows] at hnot ⊢
          refine sweepLoop_empty _ _ _ _ ?_
          obtain ⟨swept, hswept⟩ := Outcome.isOk_iff.1
            (sweepLoop_ok draw.stamp (expiredIds draw.now draw.order st) 0 st)
          rw [hswept] at hnot ⊢
          simp only [Outcome.map, savesAfter, Bool.not_eq_false', List.isEmpty_iff] at hnot
          rw [hnot]
      | _ =>
          simp only [locked, Action.map_apply, Outcome.isOk_map] at hok hnot
          obtain ⟨a, ha⟩ := Outcome.isOk_iff.1 hok
          rw [ha] at hnot
          cases hnot
    · obtain ⟨amount, hspending, -, hstate⟩ := locked_undated hadmits hdate
      have hzero : c.spending = some 0 := (hdated hadmits).resolve_left hdate
      obtain rfl := Option.some.inj (hspending.symm.trans hzero)
      rw [hstate]
      simp
  · exact (locked_refused hadmits).2

/-- Only a debit or a new escrow takes the money in a second section, and only a new escrow
has a date. -/
theorem dated_of_free (h : c.spending = none) : c.Dated := by
  cases c with
  | createEscrow draw amount recipient jobId timeoutSecs => cases h
  | _ => exact trivial

theorem changeSection_owes {w : Durable}
    (hdated : c.Admissible cfg w.memory → c.Dated ∨ c.spending = some 0) :
    (∃ t, (changeSection cfg w c).2 = some t ∧ t.Saving) ∨ (changeSection cfg w c).1 = w := by
  unfold changeSection
  cases hsaves : savesAfter (locked cfg c w.memory).outcome with
  | true => exact .inl ⟨.save c, by simp [hsaves], trivial⟩
  | false =>
      right
      simp only [locked_unsaved hdated hsaves]

end Sections

/-! ## Runs -/

theorem persist_call {cfg : WalletConfig} {w : Durable} {t t' : Task}
    (h : (persist cfg w t).2 = some t') : t'.call = t.call := by
  have hchange : ∀ c, (changeSection cfg w c).2 = some t' → t'.call = c := by
    intro c hc
    simp only [changeSection, Option.ite_none_right_eq_some, Option.some.injEq] at hc
    rw [← hc.2]
    rfl
  cases t with
  | begin c =>
      simp only [persist] at h
      split at h
      · exact hchange c h
      · split at h
        · obtain rfl := Option.some.inj h
          rfl
        · cases h
  | commit c => exact hchange c h
  | save c => cases h

/-- Every call in flight is on a database that stores. -/
def AllStoring (p : Pool Durable Task) : Prop :=
  ∀ k t, p.taskAt k = some t → t.call.draw.store = .ok ()

theorem allStoring_move (cfg : WalletConfig) {p : Pool Durable Task} {m : Move Task}
    (h : AllStoring p) (hm : Storing m) : AllStoring (p.step (persist cfg) m) := by
  intro j t hj
  cases m with
  | start t₀ =>
      obtain ⟨c, rfl, hc⟩ := hm
      rw [Pool.taskAt_start] at hj
      split at hj
      · obtain rfl := Option.some.inj hj
        exact hc
      · exact h j t hj
  | resume k =>
      cases hk : p.taskAt k with
      | none =>
          rw [Pool.step_resume_none hk] at hj
          exact h j t hj
      | some t₀ =>
          rw [Pool.taskAt_resume hk] at hj
          split at hj
          · rw [persist_call hj]
            exact h k t₀ hk
          · exact h j t hj

/-- One move: whatever is not in the database yet, some call in flight has to save. -/
theorem owed_move (cfg : WalletConfig) {p : Pool Durable Task} {m : Move Task}
    (h : p.Owed Persisted Task.Saving) (hstore : AllStoring p) (hdate : Datable cfg p m) :
    (p.step (persist cfg) m).Owed Persisted Task.Saving := by
  refine Pool.owed_step h ?_
  rintro k t rfl hk
  cases t with
  | begin c =>
      simp only [persist]
      split
      · next hfree =>
          rcases changeSection_owes (w := p.shared) fun _ => .inl (dated_of_free hfree) with
            howes | hsame
          · exact .inr (.inl howes)
          · exact .inr (.inr ⟨hsame, id⟩)
      · split
        · exact .inr (.inr ⟨rfl, id⟩)
        · exact .inr (.inr ⟨rfl, id⟩)
  | commit c =>
      rcases changeSection_owes (hdate c hk) with howes | hsame
      · exact .inr (.inl howes)
      · exact .inr (.inr ⟨hsame, id⟩)
  | save c =>
      left
      have hok : c.draw.store = .ok () := hstore k _ hk
      simp only [persist, saveSection, hok]
      rfl

/-- **Nothing is lost.**  In every state in which no call is in flight, a restart would find
the state in memory. -/
theorem quiescent_persisted (cfg : WalletConfig) (database : Option WalletState)
    {moves : List (Move Task)} (hstore : ∀ m ∈ moves, Storing m)
    (hdate : Along (Pool.step (persist cfg)) (Datable cfg) (opened database) moves) :
    Always (Pool.step (persist cfg)) (fun p => p.Quiescent → Persisted p.shared)
      (opened database) moves := by
  have hstep : ∀ (p : Pool Durable Task) (m : Move Task),
      p.Owed Persisted Task.Saving ∧ AllStoring p → Storing m ∧ Datable cfg p m →
        (p.step (persist cfg) m).Owed Persisted Task.Saving ∧
          AllStoring (p.step (persist cfg) m) :=
    fun p m h hm => ⟨owed_move cfg h.1 h.2 hm.2, allStoring_move cfg h.2 hm.1⟩
  have hstart : (opened database).Owed Persisted Task.Saving ∧ AllStoring (opened database) :=
    ⟨.inl rfl, fun k t hk => by cases hk⟩
  have howed := always_of_inv hstep hstart (along_and.2 ⟨along_of_forall hstore, hdate⟩)
  intro pre post hsplit hquiet
  exact (howed pre post hsplit).1.settled hquiet

section Example

private def unlimitedWallet : WalletConfig := ⟨1000, 1000, 1000, 0⟩

private def drawAt (id : String) : Draw := .fixed .epoch id []

private def ask (c : Call) : Move Task := .start (.begin c)

/-- A stake comes between the check of an escrow and its change, and the escrow before the
save of the stake. -/
private def interleaved : List (Move Task) :=
  [ask (.credit (drawAt "a") 40 "gift"), .resume 0, .resume 0,
    ask (.stake (drawAt "s") 30), ask (.createEscrow (drawAt "e") 5 "bob" "job" 60),
    .resume 2, .resume 1, .resume 2, .resume 1, .resume 2]

private theorem interleaved_storing : ∀ m ∈ interleaved, Storing m := by
  simp only [interleaved, List.forall_mem_cons]
  exact ⟨⟨_, rfl, rfl⟩, trivial, trivial, ⟨_, rfl, rfl⟩, ⟨_, rfl, rfl⟩, trivial, trivial, trivial,
    trivial, trivial, List.forall_mem_nil _⟩

theorem quiescent_persisted_interleaved :
    Always (Pool.step (persist unlimitedWallet)) (fun p => p.Quiescent → Persisted p.shared)
      (opened none) interleaved := by
  refine quiescent_persisted unlimitedWallet none interleaved_storing
    ⟨trivial, ?_, ?_, trivial, trivial, ?_, ?_, ?_, ?_, ?_, trivial⟩
  case refine_5 =>
    rintro c ⟨⟩ -
    exact .inl rfl
  all_goals
    rintro c ⟨⟩

/-- An escrow whose expiry date cannot be represented, with 40 to take it from. -/
private def undatedEscrow : List (Move Task) :=
  [ask (.credit (drawAt "a") 40 "gift"), .resume 0, .resume 0,
    ask (.createEscrow (drawAt "e") 30 "bob" "job" 10000000000000000), .resume 1, .resume 1]

/-- **A panic after the funds have moved**: 10 are available in memory, and 40 after a
restart. -/
theorem undated_escrow_lost :
    (∀ m ∈ undatedEscrow, Storing m) ∧
      ¬ Always (Pool.step (persist unlimitedWallet)) (fun p => p.Quiescent → Persisted p.shared)
        (opened none) undatedEscrow := by
  constructor
  · simp only [undatedEscrow, List.forall_mem_cons]
    exact ⟨⟨_, rfl, rfl⟩, trivial, trivial, ⟨_, rfl, rfl⟩, trivial, trivial, List.forall_mem_nil _⟩
  · intro halways
    have hquiet :
        (run (Pool.step (persist unlimitedWallet)) (opened none) undatedEscrow).Quiescent := by
      decide
    have havailable := congrArg WalletState.available (halways.last hquiet)
    revert havailable
    decide

end Example

end Wallet
end PeerClaw
