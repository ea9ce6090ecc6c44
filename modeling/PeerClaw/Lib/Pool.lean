import PeerClaw.Lib.Machine
import Mathlib.Data.Nat.Basic

/-!
# Pools: concurrent tasks on one shared state

A task is a program cut at its lock acquisitions: what is left of it is a value
of `τ`, and `advance` runs its next critical section on the shared state and
says what is left afterwards, `none` when the task has ended.  A **pool** is a
shared state with any number of tasks on it, and a move either starts a task or
lets one of them run its next section.  The pool is a machine of
`Lib.Machine`, so a schedule is a list of moves and a statement about every
list of moves is a statement about every interleaving.

A task keeps its place in the pool when it ends, so places never shift.

* `Pool.Quiescent` — no task is in flight.
* `inv_step` — a property of the shared state is kept by a move when every
  section of a task in the pool keeps it.
* `Pool.Owed`, `owed_step` — a property that holds, or that some task in flight
  still has to bring about.
* `Pool.OwedIn`, `owedIn_resume` — the same where a debt depends on the shared state.
* `Pool.drop` — a task is cancelled where it stands.
* `Pool.count` — how many tasks of the pool are in a given situation, with what
  a start, a section and a cancellation do to the number.
* `Pool.resumeSpawning` — a section that also spawns tasks.
-/

namespace Lib

/-- A shared state and the tasks on it, by place; a task that has ended leaves
its place empty. -/
structure Pool (σ τ : Type) where
  shared : σ
  tasks : List (Option τ)

/-- What a scheduler can do. -/
inductive Move (τ : Type)
  /-- A new task is started. -/
  | start (t : τ)
  /-- The task at this place runs its next section. -/
  | resume (k : ℕ)
  deriving DecidableEq

namespace Pool

variable {σ τ : Type}

/-- The task at a place, if there is one that has not ended. -/
def taskAt (p : Pool σ τ) (k : ℕ) : Option τ := p.tasks[k]?.join

/-- No task is in flight. -/
def Quiescent (p : Pool σ τ) : Prop := ∀ t ∈ p.tasks, t = none

instance (p : Pool σ τ) : Decidable p.Quiescent :=
  decidable_of_iff (∀ t ∈ p.tasks, t.isNone) (by simp [Quiescent])

/-- The pool after a move. -/
def step (advance : σ → τ → σ × Option τ) (p : Pool σ τ) : Move τ → Pool σ τ
  | .start t => { p with tasks := p.tasks ++ [some t] }
  | .resume k =>
      match p.taskAt k with
      | none => p
      | some t =>
          let next := advance p.shared t
          ⟨next.1, p.tasks.set k next.2⟩

/-! ## Places -/

variable {advance : σ → τ → σ × Option τ} {p : Pool σ τ}

theorem taskAt_eq_none_of_quiescent (h : p.Quiescent) (k : ℕ) : p.taskAt k = none := by
  unfold taskAt
  cases hk : p.tasks[k]? with
  | none => rfl
  | some t => exact h t (List.mem_of_getElem? hk)

theorem lt_length_of_taskAt {k : ℕ} {t : τ} (h : p.taskAt k = some t) : k < p.tasks.length := by
  unfold taskAt at h
  by_contra hge
  rw [List.getElem?_eq_none (not_lt.1 hge)] at h
  cases h

theorem mem_tasks_of_taskAt {k : ℕ} {t : τ} (h : p.taskAt k = some t) : some t ∈ p.tasks := by
  unfold taskAt at h
  exact List.mem_of_getElem? (Option.join_eq_some_iff.1 h)

theorem taskAt_start (t : τ) (j : ℕ) :
    (p.step advance (.start t)).taskAt j = if j = p.tasks.length then some t else p.taskAt j := by
  show (p.tasks ++ [some t])[j]?.join = _
  rcases lt_trichotomy j p.tasks.length with hj | hj | hj
  · rw [if_neg (Nat.ne_of_lt hj), List.getElem?_append_left hj]
    rfl
  · subst hj
    simp
  · rw [if_neg (Nat.ne_of_gt hj), List.getElem?_eq_none (by rw [List.length_append]; exact hj)]
    unfold taskAt
    rw [List.getElem?_eq_none (Nat.le_of_lt hj)]

theorem step_resume_none {k : ℕ} (h : p.taskAt k = none) : p.step advance (.resume k) = p := by
  simp only [step, h]

theorem shared_resume {k : ℕ} {t : τ} (h : p.taskAt k = some t) :
    (p.step advance (.resume k)).shared = (advance p.shared t).1 := by
  simp only [step, h]

theorem taskAt_resume {k : ℕ} {t : τ} (h : p.taskAt k = some t) (j : ℕ) :
    (p.step advance (.resume k)).taskAt j =
      if j = k then (advance p.shared t).2 else p.taskAt j := by
  have hlt := lt_length_of_taskAt h
  have htasks : (p.step advance (.resume k)).tasks = p.tasks.set k (advance p.shared t).2 := by
    simp only [step, h]
  unfold taskAt
  rw [htasks]
  by_cases hj : j = k
  · subst hj
    rw [if_pos rfl, List.getElem?_set_self hlt]
    rfl
  · rw [if_neg hj, List.getElem?_set_ne (Ne.symm hj)]

/-- **Invariants of the shared state.**  A move keeps what every section of a
task of the pool keeps. -/
theorem inv_step {I : σ → Prop} (hI : I p.shared) {m : Move τ}
    (hsection : ∀ k t, m = .resume k → p.taskAt k = some t → I (advance p.shared t).1) :
    I (p.step advance m).shared := by
  cases m with
  | start t => exact hI
  | resume k =>
      cases hk : p.taskAt k with
      | none =>
          rw [step_resume_none hk]
          exact hI
      | some t =>
          rw [shared_resume hk]
          exact hsection k t rfl hk

/-! ## What a task still has to do -/

/-- The shared state is settled, or a task in flight owes it. -/
def Owed (Settled : σ → Prop) (Owes : τ → Prop) (p : Pool σ τ) : Prop :=
  Settled p.shared ∨ ∃ k t, p.taskAt k = some t ∧ Owes t

variable {Settled : σ → Prop} {Owes : τ → Prop}

theorem Owed.settled (h : p.Owed Settled Owes) (hquiet : p.Quiescent) : Settled p.shared := by
  rcases h with h | ⟨k, t, hk, -⟩
  · exact h
  · rw [taskAt_eq_none_of_quiescent hquiet k] at hk
    cases hk

/-- **Debts are paid.**  A section settles the state, or owes it to a section of the same task,
or changes nothing and owed nothing. -/
theorem owed_step (h : p.Owed Settled Owes) {m : Move τ}
    (hsection : ∀ k t, m = .resume k → p.taskAt k = some t →
      Settled (advance p.shared t).1 ∨
      (∃ t', (advance p.shared t).2 = some t' ∧ Owes t') ∨
      ((advance p.shared t).1 = p.shared ∧ ¬ Owes t)) :
    (p.step advance m).Owed Settled Owes := by
  cases m with
  | start t =>
      rcases h with h | ⟨k, t', hk, howes⟩
      · exact .inl h
      · refine .inr ⟨k, t', ?_, howes⟩
        rw [taskAt_start, if_neg (Nat.ne_of_lt (lt_length_of_taskAt hk)), hk]
  | resume k =>
      cases hk : p.taskAt k with
      | none =>
          rw [step_resume_none hk]
          exact h
      | some t =>
          rcases hsection k t rfl hk with hset | ⟨t', hleft, howes⟩ | ⟨hsame, hfree⟩
          · refine .inl ?_
            rw [shared_resume hk]
            exact hset
          · refine .inr ⟨k, t', ?_, howes⟩
            rw [taskAt_resume hk, if_pos rfl, hleft]
          · rcases h with h | ⟨j, t', hj, howes⟩
            · refine .inl ?_
              rw [shared_resume hk, hsame]
              exact h
            · have hne : j ≠ k := by
                intro heq
                rw [heq, hk] at hj
                obtain rfl := Option.some.inj hj
                exact hfree howes
              refine .inr ⟨j, t', ?_, howes⟩
              rw [taskAt_resume hk, if_neg hne, hj]

/-- The shared state is settled, or a task in flight owes it as things are. -/
def OwedIn (Settled : σ → Prop) (Owing : σ → τ → Prop) (p : Pool σ τ) : Prop :=
  Settled p.shared ∨ ∃ k t, p.taskAt k = some t ∧ Owing p.shared t

variable {Owing : σ → τ → Prop}

theorem OwedIn.settled (h : p.OwedIn Settled Owing) (hquiet : p.Quiescent) : Settled p.shared := by
  rcases h with h | ⟨k, t, hk, -⟩
  · exact h
  · rw [taskAt_eq_none_of_quiescent hquiet k] at hk
    cases hk

theorem owedIn_start (h : p.OwedIn Settled Owing) (t : τ) :
    (p.step advance (.start t)).OwedIn Settled Owing := by
  rcases h with h | ⟨k, t', hk, howes⟩
  · exact .inl h
  · refine .inr ⟨k, t', ?_, howes⟩
    rw [taskAt_start, if_neg (Nat.ne_of_lt (lt_length_of_taskAt hk)), hk]

/-- What is owed after a section: the state is settled, or what is left of the task owes it, or
another task does. -/
theorem owedIn_resume_iff {k : ℕ} {t : τ} (hk : p.taskAt k = some t) :
    (p.step advance (.resume k)).OwedIn Settled Owing ↔
      Settled (advance p.shared t).1 ∨
        (∃ t', (advance p.shared t).2 = some t' ∧ Owing (advance p.shared t).1 t') ∨
        ∃ j t', j ≠ k ∧ p.taskAt j = some t' ∧ Owing (advance p.shared t).1 t' := by
  unfold OwedIn
  rw [shared_resume hk]
  simp only [taskAt_resume hk]
  constructor
  · rintro (hshared | ⟨j, t', hj, howes⟩)
    · exact .inl hshared
    · by_cases hjk : j = k
      · rw [if_pos hjk] at hj
        exact .inr (.inl ⟨t', hj, howes⟩)
      · rw [if_neg hjk] at hj
        exact .inr (.inr ⟨j, t', hjk, hj, howes⟩)
  · rintro (hshared | ⟨t', hleft, howes⟩ | ⟨j, t', hjk, hj, howes⟩)
    · exact .inl hshared
    · exact .inr ⟨k, t', by rw [if_pos rfl, hleft], howes⟩
    · exact .inr ⟨j, t', by rw [if_neg hjk, hj], howes⟩

/-- **Debts change hands.**  After a section the state is settled, or what is left of the task
owes it, or another task does; or the section takes nothing from what was settled or owed
before. -/
theorem owedIn_resume {k : ℕ} {t : τ} (hk : p.taskAt k = some t) (h : p.OwedIn Settled Owing)
    (hsection : Settled (advance p.shared t).1 ∨
      (∃ t', (advance p.shared t).2 = some t' ∧ Owing (advance p.shared t).1 t') ∨
      (∃ j t', j ≠ k ∧ p.taskAt j = some t' ∧ Owing (advance p.shared t).1 t') ∨
      ((Settled p.shared → Settled (advance p.shared t).1) ∧
        (∀ j t', j ≠ k → p.taskAt j = some t' → Owing p.shared t' →
          Owing (advance p.shared t).1 t') ∧
        ¬ Owing p.shared t)) :
    (p.step advance (.resume k)).OwedIn Settled Owing := by
  rw [owedIn_resume_iff hk]
  rcases hsection with hset | hleft | hother | ⟨hkeep, hothers, hfree⟩
  · exact .inl hset
  · exact .inr (.inl hleft)
  · exact .inr (.inr hother)
  · rcases h with h | ⟨j, t', hj, howes⟩
    · exact .inl (hkeep h)
    · have hne : j ≠ k := by
        intro heq
        rw [heq, hk] at hj
        obtain rfl := Option.some.inj hj
        exact hfree howes
      exact .inr (.inr ⟨j, t', hne, hj, hothers j t' hne hj howes⟩)

/-! ## Cancellation -/

/-- The task at a place is dropped: nothing more of it runs. -/
def drop (p : Pool σ τ) (k : ℕ) : Pool σ τ := { p with tasks := p.tasks.set k none }

theorem taskAt_drop (k j : ℕ) : (p.drop k).taskAt j = if j = k then none else p.taskAt j := by
  unfold taskAt drop
  by_cases hj : j = k
  · subst hj
    rw [if_pos rfl]
    by_cases hlt : j < p.tasks.length
    · rw [List.getElem?_set_self hlt]
      rfl
    · rw [List.getElem?_eq_none (by rw [List.length_set]; exact not_lt.1 hlt)]
      rfl
  · rw [if_neg hj, List.getElem?_set_ne (Ne.symm hj)]

/-! ## Counting tasks -/

/-- How many tasks of the pool are in a situation. -/
def count (P : τ → Bool) (p : Pool σ τ) : ℕ := p.tasks.countP fun t => t.any P

variable {P : τ → Bool}

theorem count_congr {Q : τ → Bool} (h : ∀ k t, p.taskAt k = some t → P t = Q t) :
    p.count P = p.count Q := by
  refine List.countP_congr ?_
  intro o ho
  cases o with
  | none => rfl
  | some t =>
      obtain ⟨k, hk⟩ := List.getElem?_of_mem ho
      have hat : p.taskAt k = some t := by
        unfold taskAt
        rw [hk]
        rfl
      rw [Option.any_some, Option.any_some, h k t hat]

theorem any_eq_some {κ : Type} [DecidableEq κ] (key : τ → Option κ) (left : Option τ) (a : κ) :
    left.any (fun t => key t = some a) = decide (left.bind key = some a) := by
  cases left <;> rfl

theorem countP_eq_some {κ : Type} [DecidableEq κ] (key : τ → Option κ) (tasks : List τ) (a : κ) :
    tasks.countP (fun t => key t = some a) = (tasks.filterMap key).count a := by
  induction tasks with
  | nil => rfl
  | cons t tasks ih =>
      rw [List.countP_cons, ih, List.filterMap_cons]
      cases key t with
      | none => rfl
      | some b =>
          rw [List.count_cons]
          simp only [Option.some.injEq, decide_eq_true_eq, beq_iff_eq]

theorem count_start (t : τ) :
    (p.step advance (.start t)).count P = p.count P + (P t).toNat := by
  show (p.tasks ++ [some t]).countP _ = _
  rw [List.countP_append, List.countP_singleton]
  cases hP : P t <;> simp [count, hP]

theorem countP_set {tasks : List (Option τ)} {k : ℕ} {t : τ} (h : tasks[k]?.join = some t)
    (left : Option τ) :
    (tasks.set k left).countP (fun t => t.any P) + (P t).toNat =
      tasks.countP (fun t => t.any P) + (left.any P).toNat := by
  obtain ⟨hlt, hget⟩ := List.getElem?_eq_some_iff.1 (Option.join_eq_some_iff.1 h)
  have hpos : (P t).toNat ≤ tasks.countP fun t => t.any P := by
    cases hP : P t with
    | false => exact Nat.zero_le _
    | true =>
        refine List.countP_pos_iff.2 ⟨some t, ?_, hP⟩
        exact List.mem_of_getElem? (Option.join_eq_some_iff.1 h)
  rw [List.countP_set hlt, hget, Option.any_some]
  cases hP : P t <;> cases hleft : left.any P <;> rw [hP] at hpos <;>
    simp only [Bool.toNat_true, Bool.toNat_false, if_true, Bool.false_eq_true, if_false] at hpos ⊢ <;>
    omega

theorem count_resume {k : ℕ} {t : τ} (h : p.taskAt k = some t) :
    (p.step advance (.resume k)).count P + (P t).toNat =
      p.count P + ((advance p.shared t).2.any P).toNat := by
  have htasks : (p.step advance (.resume k)).tasks = p.tasks.set k (advance p.shared t).2 := by
    simp only [step, h]
  unfold count
  rw [htasks]
  exact countP_set h _

theorem count_drop {k : ℕ} {t : τ} (h : p.taskAt k = some t) :
    (p.drop k).count P + (P t).toNat = p.count P := countP_set h none

theorem drop_none {k : ℕ} (h : p.taskAt k = none) (P : τ → Bool) :
    (p.drop k).count P = p.count P := by
  show (p.tasks.set k none).countP _ = p.tasks.countP _
  cases hk : p.tasks[k]? with
  | none => rw [List.set_eq_of_length_le (List.getElem?_eq_none_iff.1 hk)]
  | some t =>
      have ht : t = none := by
        unfold taskAt at h
        rw [hk] at h
        exact h
      obtain ⟨hlt, hget⟩ := List.getElem?_eq_some_iff.1 hk
      rw [ht] at hget
      rw [← hget, List.set_getElem_self]

/-! ## Spawning -/

/-- The task at a place runs its next section, which may spawn tasks. -/
def resumeSpawning (advance : σ → τ → σ × Option τ × List τ) (p : Pool σ τ) (k : ℕ) : Pool σ τ :=
  match p.taskAt k with
  | none => p
  | some t =>
      let next := advance p.shared t
      ⟨next.1, p.tasks.set k next.2.1 ++ next.2.2.map some⟩

variable {advance : σ → τ → σ × Option τ × List τ}

theorem resumeSpawning_none {k : ℕ} (h : p.taskAt k = none) :
    p.resumeSpawning advance k = p := by
  simp only [resumeSpawning, h]

theorem shared_resumeSpawning {k : ℕ} {t : τ} (h : p.taskAt k = some t) :
    (p.resumeSpawning advance k).shared = (advance p.shared t).1 := by
  simp only [resumeSpawning, h]

theorem count_resumeSpawning (advance : σ → τ → σ × Option τ × List τ) {k : ℕ} {t : τ}
    (h : p.taskAt k = some t) :
    (p.resumeSpawning advance k).count P + (P t).toNat =
      p.count P + ((advance p.shared t).2.1.any P).toNat + (advance p.shared t).2.2.countP P := by
  have htasks : (p.resumeSpawning advance k).tasks =
      p.tasks.set k (advance p.shared t).2.1 ++ (advance p.shared t).2.2.map some := by
    simp only [resumeSpawning, h]
  have hset := countP_set (P := P) h (advance p.shared t).2.1
  have hspawned : ((advance p.shared t).2.2.map some).countP (fun t => t.any P) =
      (advance p.shared t).2.2.countP P := by
    rw [List.countP_map]
    rfl
  unfold count
  rw [htasks, List.countP_append, hspawned]
  omega

end Pool
end Lib
