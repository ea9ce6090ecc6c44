import PeerClaw.Lib.Action
import PeerClaw.Lib.Pool

/-!
# Methods, cut into sections

A method that takes several locks one after the other is a block of actions, one
for each lock, and what is left of a call is a task `τ`: `resume` runs its next
section and says what is left afterwards.  A section that fails or panics ends
the call.  The pool may run these sections on a state that holds more than they
see — a log, say — so the part they see is read off with `get`.

* `Runs` — the sections of the tasks are what moves the world.
* `finish_bind`, `finish_map` — a task run to its end, section by section, does
  what the block of its sections does.
* `run_alone` — a call that has the pool to itself is run to its end.
-/

namespace Lib
namespace Section

open Machine

/-! ## A task on its own -/

section Alone

variable {ω τ : Type} (advance : ω → τ → ω × Option τ)

/-- What is left of a call, run for a number of sections. -/
def finish : ℕ → ω → Option τ → ω
  | n + 1, w, some t => finish n (advance w t).1 (advance w t).2
  | _, w, _ => w

@[simp] theorem finish_none (n : ℕ) (w : ω) : finish advance n w none = w := by
  cases n <;> rfl

/-- A call that has a task of its own in the pool runs as it would outside it. -/
theorem run_alone (n : ℕ) : ∀ (w : ω) (t : Option τ),
    (run (Pool.step advance) ⟨w, [t]⟩ (List.replicate n (.resume 0))).shared =
      finish advance n w t := by
  induction n with
  | zero =>
      intro w t
      cases t <;> rfl
  | succ n ih =>
      intro w t
      rw [List.replicate_succ, run_cons]
      cases t with
      | none =>
          have hstep : Pool.step advance ⟨w, [none]⟩ (.resume 0) = ⟨w, [none]⟩ := rfl
          rw [hstep, ih, finish_none, finish_none]
      | some t => exact ih _ _

end Alone

/-! ## Sections that are actions -/

variable {ω σ ε τ : Type}

/-- The sections of the tasks act on a part of the world, and nothing else changes
that part. -/
structure Runs (resume : τ → Action σ ε (Option τ)) (get : ω → σ)
    (advance : ω → τ → ω × Option τ) : Prop where
  state : ∀ w t, get (advance w t).1 = (resume t (get w)).state
  left : ∀ w t, (advance w t).2 = (resume t (get w)).outcome.toOption.join

variable {resume : τ → Action σ ε (Option τ)} {get : ω → σ} {advance : ω → τ → ω × Option τ}
  (hruns : Runs resume get advance) {t : τ} {α β : Type} {x : Action σ ε α} {f : α → Option τ}

include hruns

theorem advance_map (h : resume t = f <$> x) (w : ω) :
    get (advance w t).1 = (x (get w)).state ∧
      (advance w t).2 = (x (get w)).outcome.toOption.bind f := by
  refine ⟨?_, ?_⟩
  · rw [hruns.state, h, Action.map_apply]
  · rw [hruns.left, h, Action.map_apply]
    cases (x (get w)).outcome <;> rfl

theorem finish_map (h : resume t = (fun _ => none) <$> x) (n : ℕ) (w : ω) :
    get (finish advance (n + 1) w (some t)) = (x (get w)).state := by
  obtain ⟨hstate, hleft⟩ := advance_map hruns h w
  rw [finish, hleft, ← hstate]
  cases (x (get w)).outcome <;> exact congrArg get (finish_none ..)

theorem finish_bind {y : α → Action σ ε β} (h : resume t = f <$> x) {n : ℕ}
    (hrest : ∀ a w, get (finish advance n w (f a)) = (y a (get w)).state) (w : ω) :
    get (finish advance (n + 1) w (some t)) = ((x >>= y) (get w)).state := by
  obtain ⟨hstate, hleft⟩ := advance_map hruns h w
  rw [finish, hleft]
  rcases (x (get w)).outcome.ok_or_not with ⟨a, hx⟩ | hx
  · rw [Action.bind_of_ok hx, hx, ← hstate]
    exact hrest a _
  · rw [(Action.bind_of_not_ok hx).2.1, Outcome.toOption_of_not_ok hx, ← hstate]
    exact congrArg get (finish_none ..)

end Section
end Lib
