import Mathlib.Data.Set.Insert
import Mathlib.Logic.Function.Basic

/-!
# Items that pass from hand to hand

Items come in once and wait; a worker brings an item from there to a shelf, and a
worker takes it from the shelf for good.  Waiting room, shelf and the list of the
items that are finished are never written together, so on its way an item is
only in the hand of a worker, and several workers may have seen the same item
waiting.

The steps carry the conditions under which no item gets lost or is in two
places: an item is new when it comes in, it is put on the shelf only when it is
neither finished nor being taken away, and a worker who has taken one away does
not fail.

* `Orderly` — what holds of the places and the hands.
* `Orderly.one_place` — where all hands are empty, every item is in exactly one
  place.
-/

namespace Lib

/-- What a worker has in hand. -/
inductive Hand (ι : Type)
  /-- It has seen the item waiting. -/
  | seen (i : ι)
  /-- It is bringing the item to the shelf. -/
  | bringing (i : ι)
  /-- It has taken the item from the shelf. -/
  | removing (i : ι)

/-- The places an item can be in, and what is in the hands of the workers. -/
structure Custody (ι : Type) where
  /-- Every item that has come in. -/
  known : List ι
  waiting : Set ι
  shelf : Set ι
  finished : List ι
  hand : ℕ → Option (Hand ι)

namespace Custody

variable {ι : Type}

/-- What a worker can do, and when. -/
inductive Step (s : Custody ι) : Custody ι → Prop
  /-- A new item comes in. -/
  | arrive (i : ι) (hnew : i ∉ s.known) :
      Step s { s with known := s.known ++ [i], waiting := insert i s.waiting }
  /-- See an item waiting. -/
  | see (k : ℕ) (i : ι) (hwait : i ∈ s.waiting) (hempty : s.hand k = none) :
      Step s { s with hand := Function.update s.hand k (some (.seen i)) }
  /-- Give up before the item is fetched. -/
  | leave (k : ℕ) (i : ι) (hhand : s.hand k = some (.seen i)) :
      Step s { s with hand := Function.update s.hand k none }
  /-- Fetch the item, whether or not it still waits. -/
  | fetch (k : ℕ) (i : ι) (hhand : s.hand k = some (.seen i)) :
      Step s { s with
        waiting := s.waiting \ {i}
        hand := Function.update s.hand k (some (.bringing i)) }
  /-- Put the item on the shelf, where it is neither finished nor being taken away. -/
  | shelve (k : ℕ) (i : ι) (hhand : s.hand k = some (.bringing i)) (hfinished : i ∉ s.finished)
      (hfree : ∀ j, s.hand j ≠ some (.removing i)) :
      Step s { s with shelf := insert i s.shelf, hand := Function.update s.hand k none }
  /-- Take an item from the shelf. -/
  | take (k : ℕ) (i : ι) (hshelf : i ∈ s.shelf) (hempty : s.hand k = none) :
      Step s { s with
        shelf := s.shelf \ {i}
        hand := Function.update s.hand k (some (.removing i)) }
  /-- Finish the item. -/
  | finish (k : ℕ) (i : ι) (hhand : s.hand k = some (.removing i)) :
      Step s { s with finished := s.finished ++ [i], hand := Function.update s.hand k none }

/-- Some hand has the item. -/
def Held (s : Custody ι) (i : ι) : Prop :=
  ∃ k, s.hand k = some (.bringing i) ∨ s.hand k = some (.removing i)

/-- Places and hands fit together. -/
structure Orderly (s : Custody ι) : Prop where
  /-- No item is lost. -/
  somewhere : ∀ i ∈ s.known, i ∈ s.waiting ∨ i ∈ s.shelf ∨ i ∈ s.finished ∨ s.Held i
  seen_known : ∀ {k i}, s.hand k = some (.seen i) → i ∈ s.known
  held_known : ∀ {i}, s.Held i → i ∈ s.known
  waiting_known : ∀ {i}, i ∈ s.waiting → i ∈ s.known
  shelf_known : ∀ {i}, i ∈ s.shelf → i ∈ s.known
  finished_known : ∀ {i}, i ∈ s.finished → i ∈ s.known
  /-- What waits is nowhere else. -/
  waiting_only : ∀ {i}, i ∈ s.waiting → i ∉ s.shelf ∧ i ∉ s.finished ∧ ¬ s.Held i
  /-- What is on the shelf is neither finished nor being taken away. -/
  shelf_only : ∀ {i}, i ∈ s.shelf → i ∉ s.finished ∧ ∀ k, s.hand k ≠ some (.removing i)
  /-- What is being taken away is not finished. -/
  removing_only : ∀ {k i}, s.hand k = some (.removing i) → i ∉ s.finished
  /-- Two workers do not take the same item away. -/
  removing_once : ∀ {j k i}, s.hand j = some (.removing i) → s.hand k = some (.removing i) → j = k
  finished_once : s.finished.Nodup

theorem orderly_empty : Orderly (⟨[], ∅, ∅, [], fun _ => none⟩ : Custody ι) := by
  constructor <;> simp [Held]

/-- **Where all hands are empty, every item is in exactly one place.** -/
theorem Orderly.one_place {s : Custody ι} (h : Orderly s) (hidle : ∀ k, s.hand k = none) {i : ι}
    (hi : i ∈ s.known) :
    (i ∈ s.waiting ∧ i ∉ s.shelf ∧ i ∉ s.finished) ∨
      (i ∉ s.waiting ∧ i ∈ s.shelf ∧ i ∉ s.finished) ∨
      (i ∉ s.waiting ∧ i ∉ s.shelf ∧ i ∈ s.finished) := by
  by_cases hwait : i ∈ s.waiting
  · obtain ⟨hshelf, hfin, -⟩ := h.waiting_only hwait
    exact .inl ⟨hwait, hshelf, hfin⟩
  · by_cases hshelf : i ∈ s.shelf
    · exact .inr (.inl ⟨hwait, hshelf, (h.shelf_only hshelf).1⟩)
    · refine .inr (.inr ⟨hwait, hshelf, ?_⟩)
      rcases h.somewhere i hi with hi | hi | hi | ⟨k, hk⟩
      · exact absurd hi hwait
      · exact absurd hi hshelf
      · exact hi
      · simp [hidle k] at hk

/-! ## Each step keeps the order -/

/-- **Every step keeps the order.**  In each case the facts about the item that
moves come first. -/
theorem Step.orderly {s s' : Custody ι} (h : Orderly s) (hstep : Step s s') : Orderly s' := by
  cases hstep with
  | arrive i hnew =>
      -- a new item is nowhere yet
      have hshelf : i ∉ s.shelf := fun hi => hnew (h.shelf_known hi)
      have hfinished : i ∉ s.finished := fun hi => hnew (h.finished_known hi)
      have hheld : ¬ s.Held i := fun hi => hnew (h.held_known hi)
      obtain ⟨_, _, _, _, _, _, _, _, _, _, _⟩ := h
      unfold Held at *
      constructor <;> simp only [Held, Set.mem_insert_iff, List.mem_append, List.mem_singleton] <;>
        grind
  | see k i hwait hempty =>
      have hknown := h.waiting_known hwait
      obtain ⟨_, _, _, _, _, _, _, _, _, _, _⟩ := h
      unfold Held at *
      constructor <;> simp only [Held, Function.update_apply] <;> grind
  | leave k i hhand =>
      obtain ⟨_, _, _, _, _, _, _, _, _, _, _⟩ := h
      unfold Held at *
      constructor <;> simp only [Held, Function.update_apply] <;> grind
  | fetch k i hhand =>
      have hknown := h.seen_known hhand
      obtain ⟨_, _, _, _, _, _, _, _, _, _, _⟩ := h
      unfold Held at *
      constructor <;>
        simp only [Held, Function.update_apply, Set.mem_sdiff, Set.mem_singleton_iff] <;> grind
  | shelve k i hhand hfinished hfree =>
      have hheld : s.Held i := ⟨k, .inl hhand⟩
      have hknown := h.held_known hheld
      have hwait : i ∉ s.waiting := fun hi => (h.waiting_only hi).2.2 hheld
      obtain ⟨_, _, _, _, _, _, _, _, _, _, _⟩ := h
      unfold Held at *
      constructor <;> simp only [Held, Function.update_apply, Set.mem_insert_iff] <;> grind
  | take k i hshelf hempty =>
      obtain ⟨hfinished, hfree⟩ := h.shelf_only hshelf
      have hknown := h.shelf_known hshelf
      have hwait : i ∉ s.waiting := fun hi => (h.waiting_only hi).1 hshelf
      obtain ⟨_, _, _, _, _, _, _, _, _, _, _⟩ := h
      unfold Held at *
      constructor <;>
        simp only [Held, Function.update_apply, Set.mem_sdiff, Set.mem_singleton_iff] <;> grind
  | finish k i hhand =>
      have hheld : s.Held i := ⟨k, .inr hhand⟩
      have hknown := h.held_known hheld
      have hfinished := h.removing_only hhand
      have hwait : i ∉ s.waiting := fun hi => (h.waiting_only hi).2.2 hheld
      have hshelf : i ∉ s.shelf := fun hi => (h.shelf_only hi).2 k hhand
      obtain ⟨_, _, _, _, _, _, _, _, _, _, _⟩ := h
      unfold Held at *
      constructor <;> simp only [Held, Function.update_apply, List.mem_append, List.mem_singleton] <;>
        grind

end Custody
end Lib
