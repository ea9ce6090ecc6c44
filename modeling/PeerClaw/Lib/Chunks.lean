import Mathlib.Data.Nat.Basic
import Mathlib.Data.List.Basic

/-!
# Files sent in pieces

A file is cut into pieces of a fixed size, the last one shorter, and put
together again by writing each piece at its offset into a file of the right
length that is blank at first.  Pieces may come in any order and more than once.

* `piece`, `pieces` — the pieces, by index, and all of them.
* `writeAt` — write at an offset, as `seek` and `write_all` do.
* `Filled` — the file holds the pieces in a set of indices, and is blank elsewhere;
  `Filled.write` — writing a piece adds its index to the set.
* `Filled.eq_iff` — the file is the original exactly when what is missing was blank
  there too.
-/

namespace Lib
namespace Chunks

variable {α : Type} (n : ℕ)

/-- The piece with this index. -/
def piece (xs : List α) (i : ℕ) : List α := (xs.drop (i * n)).take n

/-- How many pieces there are. -/
def count (size : ℕ) : ℕ := (size + n - 1) / n

/-- All pieces, in order. -/
def pieces (xs : List α) : List (List α) := (List.range (count n xs.length)).map (piece n xs)

/-- Write at an offset, over what is there; a gap before it becomes blank. -/
def writeAt (blank : α) (file : List α) (offset : ℕ) (data : List α) : List α :=
  (file ++ List.replicate (offset - file.length) blank).take offset ++ data ++
    file.drop (offset + data.length)

variable {n}

theorem lt_count_iff (hn : 0 < n) {size i : ℕ} : i < count n size ↔ i * n < size := by
  unfold count
  rw [Nat.lt_div_iff_mul_lt hn]
  omega

theorem length_piece (xs : List α) (i : ℕ) : (piece n xs i).length = min n (xs.length - i * n) := by
  unfold piece
  rw [List.length_take, List.length_drop]

theorem getElem?_piece (xs : List α) (i j : ℕ) :
    (piece n xs i)[j]? = if j < n then xs[i * n + j]? else none := by
  unfold piece
  by_cases hj : j < n
  · rw [if_pos hj, List.getElem?_take_of_lt hj, List.getElem?_drop]
  · rw [if_neg hj]
    refine List.getElem?_eq_none ?_
    rw [List.length_take]
    omega

theorem getElem?_pieces (hn : 0 < n) (xs : List α) (i : ℕ) :
    (pieces n xs)[i]? = if i * n < xs.length then some (piece n xs i) else none := by
  unfold pieces
  rw [List.getElem?_map]
  by_cases hi : i * n < xs.length
  · rw [if_pos hi, List.getElem?_range ((lt_count_iff hn).2 hi)]
    rfl
  · have hnot : ¬ i < count n xs.length := fun h => hi ((lt_count_iff hn).1 h)
    have hnone : (List.range (count n xs.length))[i]? = none := by
      refine List.getElem?_eq_none ?_
      rw [List.length_range]
      omega
    rw [if_neg hi, hnone]
    rfl

section Write

variable {blank : α} {file data : List α} {offset : ℕ}

theorem length_writeAt (h : offset + data.length ≤ file.length) :
    (writeAt blank file offset data).length = file.length := by
  unfold writeAt
  simp only [List.length_append, List.length_take, List.length_replicate, List.length_drop]
  omega

theorem getElem?_writeAt (h : offset + data.length ≤ file.length) (j : ℕ) :
    (writeAt blank file offset data)[j]? =
      if offset ≤ j ∧ j < offset + data.length then data[j - offset]? else file[j]? := by
  have hgap : offset - file.length = 0 := by omega
  have htake : (file.take offset).length = offset := by
    rw [List.length_take]
    omega
  unfold writeAt
  rw [hgap, List.replicate_zero, List.append_nil]
  rcases Nat.lt_or_ge j offset with hlow | hlow
  · rw [if_neg (by omega), List.append_assoc, List.getElem?_append_left (by omega),
      List.getElem?_take_of_lt hlow]
  · rw [List.append_assoc, List.getElem?_append_right (by omega), htake]
    rcases Nat.lt_or_ge j (offset + data.length) with hmid | hmid
    · rw [if_pos ⟨hlow, hmid⟩, List.getElem?_append_left (by omega)]
    · rw [if_neg (by omega), List.getElem?_append_right (by omega), List.getElem?_drop]
      congr 1
      omega

end Write

/-- The file has the length of the original, holds the pieces whose index is in the set, and is
blank elsewhere. -/
structure Filled (n : ℕ) (blank : α) (xs : List α) (S : ℕ → Prop) (file : List α) : Prop where
  length : file.length = xs.length
  held : ∀ j, S (j / n) → file[j]? = xs[j]?
  blank : ∀ j, ¬ S (j / n) → j < xs.length → file[j]? = some blank

section Filled

variable {blank : α} {xs file : List α} {S : ℕ → Prop}

theorem filled_blank : Filled n blank xs (fun _ => False) (List.replicate xs.length blank) where
  length := List.length_replicate
  held := fun j h => h.elim
  blank := by
    intro j _ hj
    rw [List.getElem?_replicate, if_pos hj]

/-- **Writing a piece.** -/
theorem Filled.write (hn : 0 < n) (h : Filled n blank xs S file) {i : ℕ} (hi : i * n < xs.length) :
    Filled n blank xs (fun k => S k ∨ k = i) (writeAt blank file (i * n) (piece n xs i)) := by
  have hlen := length_piece (n := n) xs i
  have hfits : i * n + (piece n xs i).length ≤ file.length := by
    rw [h.length]
    omega
  -- inside the file, the places that are written are those of the piece
  have hplace : ∀ j, j < xs.length →
      (i * n ≤ j ∧ j < i * n + (piece n xs i).length ↔ j / n = i) := by
    intro j hj
    rw [Nat.div_eq_iff hn]
    omega
  refine ⟨by rw [length_writeAt hfits, h.length], ?_, ?_⟩
  · intro j hj
    rw [getElem?_writeAt hfits]
    rcases Nat.lt_or_ge j xs.length with hlt | hge
    · by_cases hin : j / n = i
      · obtain ⟨hlow, hhigh⟩ := (hplace j hlt).2 hin
        rw [if_pos ⟨hlow, hhigh⟩, getElem?_piece, if_pos (by omega)]
        congr 1
        omega
      · rw [if_neg fun hmid => hin ((hplace j hlt).1 hmid)]
        exact h.held j (hj.resolve_right hin)
    · rw [if_neg (by omega), List.getElem?_eq_none hge, List.getElem?_eq_none (by rw [h.length]; exact hge)]
  · intro j hnot hlt
    rw [getElem?_writeAt hfits, if_neg fun hmid => hnot (.inr ((hplace j hlt).1 hmid))]
    exact h.blank j (fun hS => hnot (.inl hS)) hlt

/-- **When the file is the original.** -/
theorem Filled.eq_iff (h : Filled n blank xs S file) :
    file = xs ↔ ∀ j x, xs[j]? = some x → ¬ S (j / n) → x = blank := by
  constructor
  · rintro rfl j x hx hnot
    obtain ⟨hlt, -⟩ := List.getElem?_eq_some_iff.1 hx
    rw [h.blank j hnot hlt] at hx
    exact (Option.some.inj hx).symm
  · intro hrest
    refine List.ext_getElem? fun j => ?_
    by_cases hS : S (j / n)
    · exact h.held j hS
    · rcases Nat.lt_or_ge j xs.length with hlt | hge
      · rw [h.blank j hS hlt]
        have hx : xs[j]? = some xs[j] := List.getElem?_eq_getElem hlt
        rw [hx, hrest j _ hx hS]
      · rw [List.getElem?_eq_none hge, List.getElem?_eq_none (by rw [h.length]; exact hge)]

end Filled

end Chunks
end Lib
