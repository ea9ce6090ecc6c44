import Mathlib.Data.List.Basic

/-!
# Computations under locks

A call that takes reader-writer locks on the parts of a shared state and gives
them back when their guards go out of scope.  The locks are not reentrant: a call
that asks for a lock that it holds itself waits forever, unless both times it is
to read.  Here such a call is **stuck**, and what it has done so far stays done.

* `Guarded` — a computation on a state, given the guards that are held around it.
* `locking` — take a lock, and hold it for the length of a computation.
* `locking_read` — a lock that is only held for reading is taken for reading once more.
-/

namespace Lib

/-- What a lock is taken for. -/
inductive Mode
  | read
  | write
  deriving DecidableEq

/-- Whether a lock that is taken for the second cannot be had for the first. -/
def Mode.clashes : Mode → Mode → Bool
  | .read, .read => false
  | _, _ => true

/-- How a computation ends. -/
inductive Progress (L σ α : Type)
  | done (a : α) (s : σ)
  /-- It waits for a lock that it holds itself. -/
  | stuck (lock : L) (s : σ)

/-- A computation on a state, given the guards that are held around it. -/
def Guarded (L σ α : Type) : Type := List (L × Mode) → σ → Progress L σ α

namespace Guarded

variable {L σ α β : Type}

instance : Monad (Guarded L σ) where
  pure a := fun _ s => .done a s
  bind f g := fun held s =>
    match f held s with
    | .done a s' => g a held s'
    | .stuck lock s' => .stuck lock s'

/-- The state. -/
def get : Guarded L σ σ := fun _ s => .done s s

/-- Change the state. -/
def modify (f : σ → σ) : Guarded L σ Unit := fun _ s => .done () (f s)

@[simp] theorem pure_apply (a : α) (held : List (L × Mode)) (s : σ) :
    (pure a : Guarded L σ α) held s = .done a s := rfl

@[simp] theorem get_apply (held : List (L × Mode)) (s : σ) :
    (get : Guarded L σ σ) held s = .done s s := rfl

@[simp] theorem modify_apply (f : σ → σ) (held : List (L × Mode)) (s : σ) :
    (modify f : Guarded L σ Unit) held s = .done () (f s) := rfl

theorem bind_done {f : Guarded L σ α} {held : List (L × Mode)} {s s' : σ} {a : α}
    (h : f held s = .done a s') (g : α → Guarded L σ β) : (f >>= g) held s = g a held s' := by
  simp only [bind, h]

theorem bind_stuck {f : Guarded L σ α} {held : List (L × Mode)} {s s' : σ} {lock : L}
    (h : f held s = .stuck lock s') (g : α → Guarded L σ β) :
    (f >>= g) held s = .stuck lock s' := by
  simp only [bind, h]

/-! ## Locks -/

variable [DecidableEq L]

/-- Take a lock, and hold it for the length of the computation. -/
def locking (mode : Mode) (lock : L) (body : Guarded L σ α) : Guarded L σ α := fun held s =>
  if held.any fun guard => guard.1 = lock && mode.clashes guard.2 then .stuck lock s
  else body ((lock, mode) :: held) s

/-- Hold a lock for reading. -/
abbrev reading (lock : L) (body : Guarded L σ α) : Guarded L σ α := locking .read lock body

/-- Hold a lock for writing. -/
abbrev writing (lock : L) (body : Guarded L σ α) : Guarded L σ α := locking .write lock body

variable {mode : Mode} {lock : L} {body : Guarded L σ α} {held : List (L × Mode)} {s : σ}

/-- A lock that is only held for reading is taken for reading once more. -/
theorem locking_read (h : ∀ guard ∈ held, guard.1 = lock → guard.2 = .read) :
    locking .read lock body held s = body ((lock, .read) :: held) s := by
  refine if_neg ?_
  intro hany
  obtain ⟨guard, hmem, hclash⟩ := List.any_eq_true.1 hany
  simp only [Bool.and_eq_true, decide_eq_true_eq] at hclash
  rw [h guard hmem hclash.1] at hclash
  cases hclash.2

end Guarded
end Lib
