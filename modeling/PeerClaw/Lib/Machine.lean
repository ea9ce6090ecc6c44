import Mathlib.Data.List.Nodup

/-!
# Machines and their runs

A machine here is nothing but a step function `step : σ → ι → σ`: from a state
and an input it computes the next state.  Everything nondeterministic about a
real system — which call comes next, what the clock says, which message is
delivered — is part of the input, so a statement about *every* list of inputs
is a statement about every run.

* `run` — the state after a list of inputs.
* `Along P` — a condition `P` on the state and the input holds at every step.
* `Always I` — a condition `I` holds in every state the run goes through.
* `collect out` — everything the steps of a run put out, in order.
* `logged out` — the machine that keeps what its steps put out in a log.

The rules turn a fact about one step into a fact about a whole run:
`run_of_inv`, `always_of_inv`, `along_of_inv` for invariants, `count_run` for
machines that count their steps, and `collect_nodup` for outputs that can never
repeat because each one leaves a mark behind.
-/

namespace Lib
namespace Machine

variable {σ ι ο : Type*} (step : σ → ι → σ)

/-- The state after a list of inputs. -/
def run (s : σ) (is : List ι) : σ := is.foldl step s

/-- `P` holds of the state and the input at every step of the run. -/
def Along (P : σ → ι → Prop) : σ → List ι → Prop
  | _, [] => True
  | s, i :: is => P s i ∧ Along P (step s i) is

/-- `I` holds in every state of the run, the first and the last included. -/
def Always (I : σ → Prop) (s : σ) (is : List ι) : Prop :=
  ∀ pre post, is = pre ++ post → I (run step s pre)

/-- What the steps of a run put out, in order. -/
def collect (out : σ → ι → List ο) : σ → List ι → List ο
  | _, [] => []
  | s, i :: is => out s i ++ collect out (step s i) is

/-- The machine with a log: it writes down what its steps put out. -/
def logged (out : σ → ι → List ο) (s : σ × List ο) (i : ι) : σ × List ο :=
  (step s.1 i, s.2 ++ out s.1 i)

/-! ## Unfolding a run -/

@[simp] theorem run_nil (s : σ) : run step s [] = s := rfl

@[simp] theorem run_cons (s : σ) (i : ι) (is : List ι) :
    run step s (i :: is) = run step (step s i) is := rfl

theorem run_append (s : σ) (is js : List ι) :
    run step s (is ++ js) = run step (run step s is) js := List.foldl_append

@[simp] theorem along_nil (P : σ → ι → Prop) (s : σ) : Along step P s [] := trivial

@[simp] theorem along_cons (P : σ → ι → Prop) (s : σ) (i : ι) (is : List ι) :
    Along step P s (i :: is) ↔ P s i ∧ Along step P (step s i) is := Iff.rfl

theorem along_append (P : σ → ι → Prop) (s : σ) (is js : List ι) :
    Along step P s (is ++ js) ↔ Along step P s is ∧ Along step P (run step s is) js := by
  induction is generalizing s with
  | nil => simp
  | cons i is ih => simp [ih, and_assoc]

theorem collect_map {κ : Type*} (out : σ → ι → List ο) (g : ο → κ) (s : σ) (is : List ι) :
    collect step (fun s i => (out s i).map g) s is = (collect step out s is).map g := by
  induction is generalizing s with
  | nil => rfl
  | cons i is ih => simp [collect, ih]

theorem exists_of_mem_collect {out : σ → ι → List ο} {x : ο} {s : σ} {is : List ι}
    (h : x ∈ collect step out s is) : ∃ s', ∃ i ∈ is, x ∈ out s' i := by
  induction is generalizing s with
  | nil => cases h
  | cons i is ih =>
    rcases List.mem_append.1 h with hnow | hlater
    · exact ⟨s, i, List.mem_cons_self, hnow⟩
    · obtain ⟨s', j, hj, hx⟩ := ih hlater
      exact ⟨s', j, List.mem_cons_of_mem _ hj, hx⟩

theorem collect_eq_nil_iff {out : σ → ι → List ο} {s : σ} {is : List ι} :
    collect step out s is = [] ↔ Along step (fun s i => out s i = []) s is := by
  induction is generalizing s with
  | nil => exact iff_of_true rfl trivial
  | cons i is ih => rw [collect, List.append_eq_nil_iff, ih, along_cons]

theorem along_congr {P Q : σ → ι → Prop} (h : ∀ s i, P s i ↔ Q s i) {s : σ} {is : List ι} :
    Along step P s is ↔ Along step Q s is := by
  induction is generalizing s with
  | nil => rfl
  | cons i is ih => rw [along_cons, along_cons, h, ih]

theorem along_logged (out : σ → ι → List ο) (P : σ → ι → Prop) (s : σ) (log : List ο)
    (is : List ι) : Along (logged step out) (fun s => P s.1) (s, log) is ↔ Along step P s is := by
  induction is generalizing s log with
  | nil => simp
  | cons i is ih => simp [logged, ih]

variable {step}

theorem Along.mono {P Q : σ → ι → Prop} (hPQ : ∀ s i, P s i → Q s i) {s : σ} {is : List ι}
    (h : Along step P s is) : Along step Q s is := by
  induction is generalizing s with
  | nil => trivial
  | cons i is ih => exact ⟨hPQ s i h.1, ih h.2⟩

theorem along_and {P Q : σ → ι → Prop} {s : σ} {is : List ι} :
    Along step (fun s i => P s i ∧ Q s i) s is ↔ Along step P s is ∧ Along step Q s is := by
  induction is generalizing s with
  | nil => simp
  | cons i is ih => simp [ih, and_assoc, and_left_comm]

theorem along_true {s : σ} {is : List ι} : Along step (fun _ _ => True) s is := by
  induction is generalizing s with
  | nil => trivial
  | cons i is ih => exact ⟨trivial, ih⟩

/-- A condition on the inputs alone holds along the run when it holds of them
all. -/
theorem along_of_forall {P : ι → Prop} {s : σ} {is : List ι} (h : ∀ i ∈ is, P i) :
    Along step (fun _ => P) s is := by
  induction is generalizing s with
  | nil => trivial
  | cons i is ih =>
      exact ⟨h i (List.mem_cons_self ..), ih fun j hj => h j (List.mem_cons_of_mem _ hj)⟩

theorem always_nil {I : σ → Prop} {s : σ} : Always step I s [] ↔ I s := by
  constructor
  · intro h
    exact h [] [] rfl
  · intro h pre post hsplit
    have hpre : pre = [] := (List.append_eq_nil_iff.1 hsplit.symm).1
    subst hpre
    exact h

theorem always_cons {I : σ → Prop} {s : σ} {i : ι} {is : List ι} :
    Always step I s (i :: is) ↔ I s ∧ Always step I (step s i) is := by
  constructor
  · intro h
    refine ⟨h [] (i :: is) rfl, ?_⟩
    intro pre post hsplit
    exact h (i :: pre) post (by rw [hsplit]; rfl)
  · rintro ⟨hs, h⟩ pre post hsplit
    cases pre with
    | nil => exact hs
    | cons j pre =>
        obtain ⟨rfl, hrest⟩ := List.cons.inj hsplit
        exact h pre post hrest

theorem Always.head {I : σ → Prop} {s : σ} {is : List ι} (h : Always step I s is) : I s :=
  h [] is rfl

theorem always_append {I : σ → Prop} {s : σ} {is js : List ι} :
    Always step I s (is ++ js) ↔ Always step I s is ∧ Always step I (run step s is) js := by
  induction is generalizing s with
  | nil =>
      rw [List.nil_append, run_nil, always_nil]
      exact ⟨fun h => ⟨h.head, h⟩, fun h => h.2⟩
  | cons i is ih => rw [List.cons_append, always_cons, always_cons, run_cons, ih, and_assoc]

theorem Always.last {I : σ → Prop} {s : σ} {is : List ι} (h : Always step I s is) :
    I (run step s is) :=
  h is [] (List.append_nil is).symm

/-! ## Invariants -/

section Invariant

variable {I : σ → Prop} {P Q : σ → ι → Prop}

/-- **The invariant rule.**  What holds at the start and is kept by every
allowed step holds at the end of every run of allowed steps. -/
theorem run_of_inv (hstep : ∀ s i, I s → P s i → I (step s i)) {s : σ} {is : List ι}
    (hs : I s) (h : Along step P s is) : I (run step s is) := by
  induction is generalizing s with
  | nil => exact hs
  | cons i is ih => exact ih (hstep s i hs h.1) h.2

theorem always_of_inv (hstep : ∀ s i, I s → P s i → I (step s i)) {s : σ} {is : List ι}
    (hs : I s) (h : Along step P s is) : Always step I s is := by
  intro pre post hsplit
  subst hsplit
  rw [along_append] at h
  exact run_of_inv hstep hs h.1

/-- Under an invariant, what every allowed step satisfies holds along the
run. -/
theorem along_of_inv (hstep : ∀ s i, I s → P s i → I (step s i) ∧ Q s i) {s : σ} {is : List ι}
    (hs : I s) (h : Along step P s is) : Along step Q s is := by
  induction is generalizing s with
  | nil => trivial
  | cons i is ih =>
      obtain ⟨hI, hQ⟩ := hstep s i hs h.1
      exact ⟨hQ, ih hI h.2⟩

/-- Two conditions that come to the same under an invariant hold along the same runs. -/
theorem along_iff_of_inv {R : σ → ι → Prop} (hstep : ∀ s i, I s → R s i → I (step s i))
    (hiff : ∀ s i, I s → R s i → (Q s i ↔ P s i)) {s : σ} {is : List ι} (hs : I s)
    (hR : Along step R s is) : Along step Q s is ↔ Along step P s is := by
  induction is generalizing s with
  | nil => rfl
  | cons i is ih =>
      rw [along_cons, along_cons, hiff s i hs hR.1, ih (hstep s i hs hR.1) hR.2]

/-- Two conditions that come to the same under an invariant, which each step that meets the first
keeps, hold along the same runs. -/
theorem along_iff_of_kept (hkept : ∀ s i, I s → Q s i → I (step s i))
    (hiff : ∀ s i, I s → (Q s i ↔ P s i)) {s : σ} {is : List ι} (hs : I s) :
    Along step Q s is ↔ Along step P s is := by
  induction is generalizing s with
  | nil => rfl
  | cons i is ih =>
      rw [along_cons, along_cons]
      constructor
      · rintro ⟨hQ, hrest⟩
        exact ⟨(hiff s i hs).1 hQ, (ih (hkept s i hs hQ)).1 hrest⟩
      · rintro ⟨hP, hrest⟩
        have hQ : Q s i := (hiff s i hs).2 hP
        exact ⟨hQ, (ih (hkept s i hs hQ)).2 hrest⟩

/-- **Where a law holds exactly as long as a condition does.**  If a step from a good state
is lawful, with what it does, exactly under the condition, and a lawful step leaves a good state,
then a run is lawful throughout exactly when the condition holds all along. -/
theorem always_and_along_iff {L : σ → Prop} {R : σ → ι → Prop} (hlawful : ∀ s, I s → L s)
    (hstep : ∀ s i, I s → R s i → (L (step s i) ∧ Q s i ↔ P s i))
    (hgood : ∀ s i, I s → R s i → L (step s i) → I (step s i)) {s : σ} {is : List ι} (hs : I s)
    (hR : Along step R s is) : Always step L s is ∧ Along step Q s is ↔ Along step P s is := by
  induction is generalizing s with
  | nil => exact ⟨fun _ => trivial, fun _ => ⟨always_nil.2 (hlawful s hs), trivial⟩⟩
  | cons i is ih =>
      have hiff := hstep s i hs hR.1
      rw [always_cons, along_cons, along_cons]
      constructor
      · rintro ⟨⟨-, halways⟩, hQ, hrest⟩
        have hnext : L (step s i) := halways [] is rfl
        have hkept : I (step s i) := hgood s i hs hR.1 hnext
        exact ⟨hiff.1 ⟨hnext, hQ⟩, (ih hkept hR.2).1 ⟨halways, hrest⟩⟩
      · rintro ⟨hP, hrest⟩
        obtain ⟨hnext, hQ⟩ := hiff.2 hP
        obtain ⟨halways, halong⟩ := (ih (hgood s i hs hR.1 hnext) hR.2).2 hrest
        exact ⟨⟨hlawful s hs, halways⟩, hQ, halong⟩

/-- Where every step from a good state is good exactly under a condition, a run
is good throughout exactly when the condition holds all along. -/
theorem always_along_iff {R : σ → ι → Prop}
    (hstep : ∀ s i, I s → R s i → (I (step s i) ∧ Q s i ↔ P s i)) {s : σ} {is : List ι}
    (hs : I s) (hR : Along step R s is) :
    Always step I s is ∧ Along step Q s is ↔ Along step P s is :=
  always_and_along_iff (fun _ h => h) hstep (fun _ _ _ _ h => h) hs hR

theorem always_iff_along {L : σ → Prop} {R : σ → ι → Prop} (hlawful : ∀ s, I s → L s)
    (hstep : ∀ s i, I s → R s i → (L (step s i) ↔ P s i))
    (hgood : ∀ s i, I s → R s i → L (step s i) → I (step s i)) {s : σ} {is : List ι} (hs : I s)
    (hR : Along step R s is) : Always step L s is ↔ Along step P s is := by
  have hboth : Always step L s is ∧ Along step (fun _ _ => True) s is ↔ Along step P s is :=
    always_and_along_iff hlawful
      (fun s i hI hR => (and_iff_left trivial).trans (hstep s i hI hR)) hgood hs hR
  exact (and_iff_left along_true).symm.trans hboth

end Invariant

/-! ## Machines that count their steps -/

/-- A machine that counts the steps after which it goes on has counted all of them if it still
does. -/
theorem count_run {count : σ → ℕ} (Ended : σ → Prop)
    (hstep : ∀ s i, ¬ Ended (step s i) → ¬ Ended s ∧ count (step s i) = count s + 1) {s : σ}
    {is : List ι} (h : ¬ Ended (run step s is)) :
    ¬ Ended s ∧ count (run step s is) = count s + is.length := by
  induction is generalizing s with
  | nil => exact ⟨h, rfl⟩
  | cons i is ih =>
      obtain ⟨hnext, hrest⟩ := ih h
      obtain ⟨hs, hone⟩ := hstep s i hnext
      refine ⟨hs, ?_⟩
      rw [run_cons, hrest, hone, List.length_cons]
      omega

/-! ## Outputs that never repeat -/

/-- If an output is only put out in states that have not seen it, every step
that puts it out makes its successor have seen it, and what has been seen
stays seen, then no output occurs twice in a run. -/
theorem collect_nodup {P : σ → ι → Prop} {I : σ → Prop} {out : σ → ι → List ο}
    (Seen : σ → ο → Prop)
    (hinv : ∀ s i, I s → P s i → I (step s i))
    (hfresh : ∀ s i, I s → P s i → (out s i).Nodup ∧ ∀ o ∈ out s i, ¬ Seen s o)
    (hmark : ∀ s i, I s → P s i → ∀ o ∈ out s i, Seen (step s i) o)
    (hkeep : ∀ s i o, I s → P s i → Seen s o → Seen (step s i) o)
    {s : σ} {is : List ι} (hs : I s) (h : Along step P s is) :
    (collect step out s is).Nodup ∧ ∀ o ∈ collect step out s is, ¬ Seen s o := by
  induction is generalizing s with
  | nil => simp [collect]
  | cons i is ih =>
      obtain ⟨hnd, hnew⟩ := hfresh s i hs h.1
      obtain ⟨ihnd, ihnew⟩ := ih (hinv s i hs h.1) h.2
      constructor
      · refine List.nodup_append.2 ⟨hnd, ihnd, ?_⟩
        rintro o ho o' ho' rfl
        exact ihnew o ho' (hmark s i hs h.1 o ho)
      · intro o ho hseen
        rcases List.mem_append.1 ho with ho | ho
        · exact hnew o ho hseen
        · exact ihnew o ho (hkeep s i o hs h.1 hseen)

end Machine
end Lib
