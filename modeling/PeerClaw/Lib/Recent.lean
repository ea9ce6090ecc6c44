import Mathlib.Data.List.DropRight
import Mathlib.Data.List.Infix
import Mathlib.Algebra.BigOperators.Group.List.Basic
import Mathlib.Algebra.GroupWithZero.Nat

/-!
# The latest entries within a budget

What is said last is kept first: from the end of a list backwards, entries are taken as long as
they fit in a budget.

* `total` — the size of a list.
* `Longest` — the longest end of a list within a budget.
* `recent` — how it is collected; `longest_iff`, that it is.
* `recent_rtake` — what is collected from the last entries alone.
* `recent_eq_iff` — an end of the list does as well as the list when it is long enough.
-/

namespace Lib
namespace Recent

variable {α : Type*} (size : α → ℕ)

/-- The size of a list. -/
def total (xs : List α) : ℕ := (xs.map size).sum

/-- The longest end of a list within a budget. -/
structure Longest (budget : ℕ) (xs kept : List α) : Prop where
  suffix : kept <:+ xs
  fits : total size kept ≤ budget
  longest : ∀ ys, ys <:+ xs → total size ys ≤ budget → ys.length ≤ kept.length

/-- What is taken from the front while there is room. -/
def collect : ℕ → List α → List α
  | _, [] => []
  | room, x :: xs => if size x ≤ room then x :: collect (room - size x) xs else []

/-- From the end backwards, entries are taken while they fit. -/
def recent (budget : ℕ) (xs : List α) : List α := (collect size budget xs.reverse).reverse

variable {size} {budget room n : ℕ} {x : α} {xs ys kept : List α}

@[simp] theorem total_nil : total size [] = 0 := rfl

@[simp] theorem total_cons (x : α) (xs : List α) : total size (x :: xs) = size x + total size xs :=
  rfl

@[simp] theorem total_append (xs ys : List α) :
    total size (xs ++ ys) = total size xs + total size ys := by
  unfold total
  rw [List.map_append, List.sum_append]

@[simp] theorem total_reverse (xs : List α) : total size xs.reverse = total size xs := by
  induction xs with
  | nil => rfl
  | cons x xs ih => simp [ih, Nat.add_comm]

/-! ## From the front -/

theorem collect_prefix (room : ℕ) (xs : List α) : collect size room xs <+: xs := by
  induction xs generalizing room with
  | nil => exact List.prefix_rfl
  | cons x xs ih =>
      unfold collect
      split
      · exact List.cons_prefix_cons.2 ⟨rfl, ih _⟩
      · exact List.nil_prefix

theorem total_collect_le (room : ℕ) (xs : List α) : total size (collect size room xs) ≤ room := by
  induction xs generalizing room with
  | nil => exact Nat.zero_le _
  | cons x xs ih =>
      unfold collect
      split
      · have hrest := ih (room - size x)
        rw [total_cons]
        omega
      · exact Nat.zero_le _

theorem length_le_collect (hstart : ys <+: xs) (hfits : total size ys ≤ room) :
    ys.length ≤ (collect size room xs).length := by
  induction xs generalizing room ys with
  | nil => exact hstart.length_le
  | cons x xs ih =>
      cases ys with
      | nil => exact Nat.zero_le _
      | cons y ys =>
          obtain ⟨rfl, hrest⟩ := List.cons_prefix_cons.1 hstart
          rw [total_cons] at hfits
          unfold collect
          rw [if_pos (by omega), List.length_cons, List.length_cons]
          have hle := ih hrest (show total size ys ≤ room - size y by omega)
          omega

theorem collect_take (n room : ℕ) (xs : List α) :
    collect size room (xs.take n) = (collect size room xs).take n := by
  induction xs generalizing n room with
  | nil => simp [collect]
  | cons x xs ih =>
      cases n with
      | zero => simp [collect]
      | succ n =>
          rw [List.take_succ_cons]
          unfold collect
          split
          · rw [List.take_succ_cons, ih]
          · rfl

/-! ## From the end -/

/-- **What is collected is the longest end within the budget.** -/
theorem longest_recent (size : α → ℕ) (budget : ℕ) (xs : List α) :
    Longest size budget xs (recent size budget xs) := by
  constructor
  · unfold recent
    rw [← List.reverse_prefix, List.reverse_reverse]
    exact collect_prefix _ _
  · unfold recent
    rw [total_reverse]
    exact total_collect_le _ _
  · intro ys hsuffix hfits
    have hle := length_le_collect (List.reverse_prefix.2 hsuffix)
      (show total size ys.reverse ≤ budget by rwa [total_reverse])
    unfold recent
    rwa [List.length_reverse, ← List.length_reverse]

theorem longest_iff : Longest size budget xs kept ↔ kept = recent size budget xs := by
  constructor
  · intro h
    have hrecent := longest_recent size budget xs
    have hlength : kept.length = (recent size budget xs).length :=
      Nat.le_antisymm (hrecent.longest kept h.suffix h.fits)
        (h.longest _ hrecent.suffix hrecent.fits)
    rw [List.suffix_iff_eq_drop.1 h.suffix, List.suffix_iff_eq_drop.1 hrecent.suffix, hlength]
  · rintro rfl
    exact longest_recent size budget xs

theorem recent_rtake (n : ℕ) (xs : List α) :
    recent size budget (xs.rtake n) = (recent size budget xs).rtake n := by
  unfold recent
  rw [List.rtake_eq_reverse_take_reverse, List.rtake_eq_reverse_take_reverse,
    List.reverse_reverse, List.reverse_reverse, collect_take]

theorem rtake_of_suffix (h : ys <:+ xs) : xs.rtake ys.length = ys := by
  unfold List.rtake
  exact (List.suffix_iff_eq_drop.1 h).symm

theorem rtake_eq_self (h : xs.length ≤ n) : xs.rtake n = xs := by
  unfold List.rtake
  rw [Nat.sub_eq_zero_of_le h, List.drop_zero]

theorem length_rtake (n : ℕ) (xs : List α) : (xs.rtake n).length = min n xs.length := by
  unfold List.rtake
  rw [List.length_drop]
  omega

theorem rtake_suffix (n : ℕ) (xs : List α) : xs.rtake n <:+ xs := List.drop_suffix _ _

/-- The last entries of what is behind the last entries of something else. -/
theorem rtake_append_rtake (n : ℕ) (xs ys : List α) :
    (xs.rtake n ++ ys).rtake n = (xs ++ ys).rtake n := by
  unfold List.rtake
  rw [List.length_append, List.length_append, List.length_drop, List.drop_append,
    List.drop_append, List.drop_drop, List.length_drop]
  congr 2 <;> omega

/-- **An end of the list does as well as the whole exactly if it has room for what is collected
from that.** -/
theorem recent_eq_iff (h : ys <:+ xs) :
    recent size budget ys = recent size budget xs ↔ (recent size budget xs).length ≤ ys.length := by
  rw [← rtake_of_suffix h, recent_rtake, rtake_of_suffix h]
  constructor
  · intro heq
    rw [← heq, length_rtake]
    exact Nat.min_le_left _ _
  · exact rtake_eq_self

end Recent
end Lib

/-!
## Shedding load

A load is made up of weights.  As long as it is over a limit the weights are taken off,
one after the other in a fixed order.

* `shed` — the load in the end.
* `lt_shed_iff` — it is still over the limit exactly when it would be without any of the
  weights.
* `shed_lands_iff` — how far below the limit it lands is decided at the weight that
  brings it there.
-/

namespace Lib

/-- Take weights off a load while it is over the limit. -/
def shed (limit : ℕ) : ℕ → List ℕ → ℕ
  | load, [] => load
  | load, w :: ws => if limit < load then shed limit (load - w) ws else load

variable {limit : ℕ}

theorem shed_of_le {load : ℕ} (h : load ≤ limit) (ws : List ℕ) : shed limit load ws = load := by
  cases ws with
  | nil => rfl
  | cons w ws => exact if_neg (by omega)

theorem shed_append (load : ℕ) (ws ws' : List ℕ) :
    shed limit load (ws ++ ws') = shed limit (shed limit load ws) ws' := by
  induction ws generalizing load with
  | nil => rfl
  | cons w ws ih =>
      rw [List.cons_append, shed, shed]
      split
      · exact ih _
      · rw [shed_of_le (by omega)]

/-- **Still over the limit.** -/
theorem lt_shed_iff (load : ℕ) (ws : List ℕ) :
    limit < shed limit load ws ↔ limit < load - ws.sum := by
  induction ws generalizing load with
  | nil => simp [shed]
  | cons w ws ih =>
      rw [shed, List.sum_cons]
      split
      · rw [ih]
        omega
      · omega

/-- **Where it lands.**  The load ends within the limit by a margin, if it ends within it, exactly
when the weight that brings it within the limit does so by that margin. -/
theorem shed_lands_iff (margin : ℕ) {load : ℕ} (h : limit < load) (ws : List ℕ) :
    (shed limit load ws ≤ limit → shed limit load ws + margin ≤ limit) ↔
      ∀ before w after, ws = before ++ w :: after → limit < load - before.sum →
        load - (before.sum + w) ≤ limit → load - (before.sum + w) + margin ≤ limit := by
  induction ws generalizing load with
  | nil =>
      constructor
      · intro _ before w after hsplit
        simp at hsplit
      · intro _ hle
        rw [shed] at hle
        omega
  | cons w ws ih =>
      rw [shed, if_pos h]
      by_cases hover : limit < load - w
      · rw [ih hover]
        constructor
        · intro hall before w' after hsplit hbefore hafter
          cases before with
          | nil =>
              obtain ⟨rfl, -⟩ := List.cons.inj hsplit
              simp only [List.sum_nil, Nat.zero_add] at hafter
              omega
          | cons b before =>
              obtain ⟨rfl, hrest⟩ := List.cons.inj hsplit
              have hnow := hall before w' after hrest
              rw [List.sum_cons] at hbefore hafter ⊢
              omega
        · intro hall before w' after hsplit hbefore hafter
          have hnow := hall (w :: before) w' after (by rw [hsplit, List.cons_append])
          rw [List.sum_cons] at hnow
          omega
      · rw [shed_of_le (by omega)]
        constructor
        · intro hmargin before w' after hsplit hbefore hafter
          cases before with
          | nil =>
              obtain ⟨rfl, -⟩ := List.cons.inj hsplit
              rw [List.sum_nil, Nat.zero_add] at hafter ⊢
              exact hmargin hafter
          | cons b before =>
              obtain ⟨rfl, -⟩ := List.cons.inj hsplit
              rw [List.sum_cons] at hbefore
              omega
        · intro hall hle
          have hnow := hall [] w ws rfl
          rw [List.sum_nil, Nat.zero_add] at hnow
          exact hnow h hle

end Lib
