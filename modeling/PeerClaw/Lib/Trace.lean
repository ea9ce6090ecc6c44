import Mathlib.Data.List.Basic
import Mathlib.Tactic.Common

/-!
# Lawful traces

A trace is a list of events in the order in which they happened.  A **law** says
of every event whether it is allowed after those before it, and a trace is lawful
when each of its events is.

* `Lawful` — every event of the trace is allowed where it stands.
* `Continues` — the same of the events that are added to a trace.
* `lawful_append_iff` — a trace that goes on is lawful exactly when it was so far
  and what is added continues it.
-/

namespace Lib
namespace Trace

variable {ε : Type*} (law : List ε → ε → Prop)

/-- Every event is allowed after those before it. -/
def Lawful (log : List ε) : Prop := ∀ pre e post, log = pre ++ e :: post → law pre e

/-- Every event of the second list is allowed after the first and those before it. -/
def Continues : List ε → List ε → Prop
  | _, [] => True
  | log, e :: es => law log e ∧ Continues (log ++ [e]) es

variable {law}

theorem lawful_nil : Lawful law [] := by
  intro pre e post h
  simp at h

theorem Lawful.of_append {log more : List ε} (h : Lawful law (log ++ more)) : Lawful law log := by
  rintro pre e post rfl
  exact h pre e (post ++ more) (by simp)

theorem lawful_snoc {log : List ε} {e : ε} :
    Lawful law (log ++ [e]) ↔ Lawful law log ∧ law log e := by
  constructor
  · intro h
    exact ⟨h.of_append, h log e [] rfl⟩
  · rintro ⟨h, he⟩ pre e' post hsplit
    rcases List.eq_nil_or_concat post with rfl | ⟨post, last, rfl⟩
    · obtain ⟨rfl, hlast⟩ := List.append_inj' hsplit rfl
      obtain rfl := List.singleton_inj.1 hlast
      exact he
    · have hinit : log ++ [e] = (pre ++ e' :: post) ++ [last] := by
        rw [hsplit]
        simp
      obtain ⟨rfl, -⟩ := List.append_inj' hinit rfl
      exact h pre e' post rfl

theorem continues_append {log es fs : List ε} :
    Continues law log (es ++ fs) ↔ Continues law log es ∧ Continues law (log ++ es) fs := by
  induction es generalizing log with
  | nil => simp [Continues]
  | cons e es ih =>
      have hassoc : log ++ e :: es = (log ++ [e]) ++ es := by simp
      rw [List.cons_append, Continues, Continues, ih, hassoc, and_assoc]

/-- **A trace that goes on** is lawful when it was so far and what is added
continues it. -/
theorem lawful_append_iff {log es : List ε} :
    Lawful law (log ++ es) ↔ Lawful law log ∧ Continues law log es := by
  induction es generalizing log with
  | nil => simp [Continues]
  | cons e es ih =>
      have hassoc : log ++ e :: es = (log ++ [e]) ++ es := by simp
      rw [hassoc, ih, lawful_snoc, Continues, and_assoc]

theorem lawful_of_continues {log : List ε} (h : Continues law [] log) : Lawful law log := by
  rw [← List.nil_append log]
  exact lawful_append_iff.2 ⟨lawful_nil, h⟩

end Trace
end Lib

/-!
## Trails

A trail starts at a place and goes on to the place that `next` names, as long as it
names one and the number of steps stays within a limit.
-/

namespace Lib

variable {α : Type*}

/-- The places on the way from `a`, each with its number: `k` is the number of `a`. -/
def trail (next : ℕ → α → Option α) : ℕ → ℕ → α → List (ℕ × α)
  | 0, k, a => [(k, a)]
  | limit + 1, k, a =>
      (k, a) :: match next k a with
        | none => []
        | some b => trail next limit (k + 1) b

variable {next : ℕ → α → Option α} {limit k : ℕ} {a b : α}

@[simp]
theorem trail_zero : trail next 0 k a = [(k, a)] := rfl

theorem trail_of_none (h : next k a = none) : trail next limit k a = [(k, a)] := by
  cases limit with
  | zero => rfl
  | succ limit => simp only [trail, h]

theorem trail_of_some (h : next k a = some b) :
    trail next (limit + 1) k a = (k, a) :: trail next limit (k + 1) b := by
  simp only [trail, h]

theorem trail_eq_cons (next : ℕ → α → Option α) (limit k : ℕ) (a : α) :
    trail next limit k a = (k, a) :: (trail next limit k a).tail := by
  cases limit with
  | zero => rfl
  | succ limit => rfl

theorem mem_trail_self : (k, a) ∈ trail next limit k a := by
  rw [trail_eq_cons]
  exact List.mem_cons_self

end Lib
