import Mathlib.Data.List.Basic

/-!
# Checks

A check returns nothing or an error, and a list of checks stops at the first
error.

* `bind_ok_iff` — a sequence succeeds when each of its parts does.
* `forM_ok_iff` — a loop of checks succeeds when every check does.
* `ite_error_ok_iff` — a check that fails on a condition succeeds when it does not hold.
* `Sat` — what is known of the value and of the error, and the rules for it
  (`Sat.bind`, `Sat.ite`, `Sat.mapError`, `Sat.mapM`).
-/

namespace Lib
namespace Check

variable {ε α β : Type}

theorem bind_ok_iff {x : Except ε α} {f : α → Except ε β} {b : β} :
    x >>= f = .ok b ↔ ∃ a, x = .ok a ∧ f a = .ok b := by
  cases x with
  | error e => simp [bind, Except.bind]
  | ok a => simp [bind, Except.bind]

theorem forM_ok_iff {f : α → Except ε Unit} {xs : List α} :
    xs.forM f = .ok () ↔ ∀ x ∈ xs, f x = .ok () := by
  induction xs with
  | nil => exact ⟨fun _ _ hx => absurd hx List.not_mem_nil, fun _ => rfl⟩
  | cons x xs ih =>
      have hcons : (x :: xs).forM f = f x >>= fun _ => xs.forM f := rfl
      rw [hcons, bind_ok_iff, List.forall_mem_cons]
      constructor
      · rintro ⟨⟨⟩, hx, hxs⟩
        exact ⟨hx, ih.1 hxs⟩
      · rintro ⟨hx, hxs⟩
        exact ⟨(), hx, ih.2 hxs⟩

theorem ite_error_ok_iff {c : Prop} [Decidable c] {e : ε} {x : Except ε α} {a : α} :
    (if c then .error e else x) = .ok a ↔ ¬ c ∧ x = .ok a := by
  by_cases hc : c
  · simp [hc]
  · simp [hc]

/-! ## What is known of a result -/

/-- The value satisfies `P`, and the error `Q`. -/
inductive Sat (P : α → Prop) (Q : ε → Prop) : Except ε α → Prop
  | ok {a : α} (h : P a) : Sat P Q (.ok a)
  | error {e : ε} (h : Q e) : Sat P Q (.error e)

section Rules

variable {P P' : α → Prop} {R : β → Prop} {Q : ε → Prop} {x : Except ε α} {f : α → Except ε β}

theorem Sat.of_ok {a : α} (h : Sat P Q (.ok a)) : P a := by
  cases h with
  | ok h => exact h

theorem Sat.of_error {e : ε} (h : Sat P Q (.error e)) : Q e := by
  cases h with
  | error h => exact h

theorem Sat.pure {a : α} (h : P a) : Sat P Q (Pure.pure a) := .ok h

/-- **The rule of sequence.** -/
theorem Sat.bind (hx : Sat P Q x) (hf : ∀ a, P a → Sat R Q (f a)) : Sat R Q (x >>= f) := by
  cases hx with
  | ok h => exact hf _ h
  | error h => exact .error h

theorem Sat.ite {c : Prop} [Decidable c] {x y : Except ε α} (hx : c → Sat P Q x)
    (hy : ¬ c → Sat P Q y) : Sat P Q (if c then x else y) := by
  by_cases hc : c
  · rw [if_pos hc]
    exact hx hc
  · rw [if_neg hc]
    exact hy hc

theorem Sat.mapError {ε' : Type} {x : Except ε' α} {g : ε' → ε} (h : ∀ e, Q (g e)) :
    Sat (fun _ => True) Q (x.mapError g) := by
  cases x with
  | ok a => exact .ok trivial
  | error e => exact .error (h e)

theorem Sat.mapM {xs : List α} (h : ∀ a ∈ xs, Sat (fun _ => True) Q (f a)) :
    Sat (fun _ => True) Q (xs.mapM f) := by
  induction xs with
  | nil => exact .pure trivial
  | cons a xs ih =>
      rw [List.mapM_cons]
      refine (h a (List.mem_cons_self ..)).bind fun b _ => ?_
      exact (ih fun a' ha' => h a' (List.mem_cons_of_mem _ ha')).bind fun bs _ => .pure trivial

end Rules

end Check
end Lib
