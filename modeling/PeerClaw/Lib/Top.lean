import Mathlib.Data.List.Perm.Basic
import Mathlib.Order.Lattice

/-!
# The best of a list

The first few of a list by a score, the best first; among equals any of them.

* `Best` — a list holds the best of another.
* `best_sort_take` — sorting and taking the first gives them.
* `Best.take_filter` — of the best, the first that pass a test; `Best.take_filter_iff` — these are
  the best of all that pass it if and only if there are enough of them.
-/

namespace Lib

variable {α β σ : Type*} [LinearOrder σ] {score : α → σ} {n k : ℕ} {xs ys best : List α}

/-- The best `n` of a list, or all where there are fewer, in descending order. -/
structure Best (score : α → σ) (n : ℕ) (xs best : List α) : Prop where
  length_eq : best.length = min n xs.length
  descending : best.Pairwise fun a b => score b ≤ score a
  others : ∃ rest, (best ++ rest).Perm xs ∧ ∀ a ∈ best, ∀ b ∈ rest, score b ≤ score a

theorem Best.of_perm (h : Best score n xs best) (hperm : xs.Perm ys) : Best score n ys best := by
  obtain ⟨rest, hrest, hle⟩ := h.others
  refine ⟨?_, h.descending, rest, hrest.trans hperm, hle⟩
  rw [h.length_eq, hperm.length_eq]

theorem Best.mem (h : Best score n xs best) {a : α} (ha : a ∈ best) : a ∈ xs := by
  obtain ⟨rest, hrest, -⟩ := h.others
  exact hrest.subset (List.mem_append_left rest ha)

/-- What comes first of a list in descending order is the best of it. -/
theorem best_take (h : xs.Pairwise fun a b => score b ≤ score a) (n : ℕ) :
    Best score n xs (xs.take n) := by
  have hsplit := List.take_append_drop n xs
  rw [← hsplit, List.pairwise_append] at h
  exact ⟨List.length_take, h.1, xs.drop n, by rw [hsplit], h.2.2⟩

/-- **Sorting, and taking the first.** -/
theorem best_sort_take (score : α → σ) (n : ℕ) (xs : List α) :
    Best score n xs ((xs.mergeSort fun a b => decide (score b ≤ score a)).take n) := by
  have hsorted : (xs.mergeSort fun a b => decide (score b ≤ score a)).Pairwise
      fun a b => decide (score b ≤ score a) = true := by
    refine List.pairwise_mergeSort (fun a b c hab hbc => ?_) (fun a b => ?_) xs
    · simp only [decide_eq_true_eq] at hab hbc ⊢
      exact le_trans hbc hab
    · simp only [Bool.or_eq_true, decide_eq_true_eq]
      exact le_total _ _
  exact (best_take (hsorted.imp of_decide_eq_true) n).of_perm (List.mergeSort_perm _ _)

theorem Best.take_filter (h : Best score k xs best) (p : α → Bool) (n : ℕ) :
    Best score n (best.filter p) ((best.filter p).take n) :=
  best_take (h.descending.filter p) n

/-- **They are the best of all that pass the test** if and only if there are enough of them. -/
theorem Best.take_filter_iff (h : Best score k xs best) (p : α → Bool) (n : ℕ) :
    Best score n (xs.filter p) ((best.filter p).take n) ↔
      min n (xs.filter p).length ≤ (best.filter p).length := by
  constructor
  · intro hall
    rw [← hall.length_eq, List.length_take]
    exact Nat.min_le_right _ _
  · intro henough
    obtain ⟨rest, hperm, hle⟩ := h.others
    have hfilter := hperm.filter p
    rw [List.filter_append] at hfilter
    have hlen := hfilter.length_eq
    rw [List.length_append] at hlen
    obtain ⟨hlength, hdesc, more, hmore, hlemore⟩ := h.take_filter p n
    refine ⟨?_, hdesc, more ++ rest.filter p, ?_, ?_⟩
    · rw [hlength]
      omega
    · rw [← List.append_assoc]
      exact (hmore.append_right _).trans hfilter
    · intro a ha b hb
      rcases List.mem_append.1 hb with hb | hb
      · exact hlemore a ha b hb
      · have ha' := List.mem_of_mem_filter (List.mem_of_mem_take ha)
        exact hle a ha' b (List.mem_of_mem_filter hb)

/-- The best are still the best when each is replaced by something with the same score. -/
theorem Best.filterMap (score' : β → σ) (f : α → Option β) (h : Best score n xs best)
    (hf : ∀ a ∈ xs, ∃ b, f a = some b ∧ score' b = score a) :
    Best score' n (xs.filterMap f) (best.filterMap f) := by
  have hlen : ∀ ys : List α, (∀ a ∈ ys, a ∈ xs) → (ys.filterMap f).length = ys.length := by
    intro ys hys
    rw [List.filterMap_length_eq_length]
    intro a ha
    obtain ⟨b, hb, -⟩ := hf a (hys a ha)
    rw [hb]
    rfl
  obtain ⟨rest, hperm, hle⟩ := h.others
  have hrest : ∀ a ∈ rest, a ∈ xs := fun a ha => hperm.subset (List.mem_append_right best ha)
  refine ⟨?_, ?_, rest.filterMap f, ?_, ?_⟩
  · rw [hlen best fun a => h.mem, hlen xs fun a ha => ha, h.length_eq]
  · rw [List.pairwise_filterMap]
    refine h.descending.imp_of_mem fun {a b} ha hb hab a' ha' b' hb' => ?_
    obtain ⟨a'', hfa, hsa⟩ := hf a (h.mem ha)
    obtain ⟨b'', hfb, hsb⟩ := hf b (h.mem hb)
    rw [hfa] at ha'
    rw [hfb] at hb'
    obtain rfl := Option.some.inj ha'
    obtain rfl := Option.some.inj hb'
    rwa [hsa, hsb]
  · rw [← List.filterMap_append]
    exact hperm.filterMap f
  · intro a' ha' b' hb'
    obtain ⟨a, ha, hfa⟩ := List.mem_filterMap.1 ha'
    obtain ⟨b, hb, hfb⟩ := List.mem_filterMap.1 hb'
    obtain ⟨a'', hfa', hsa⟩ := hf a (h.mem ha)
    obtain ⟨b'', hfb', hsb⟩ := hf b (hrest b hb)
    rw [hfa] at hfa'
    rw [hfb] at hfb'
    obtain rfl := Option.some.inj hfa'
    obtain rfl := Option.some.inj hfb'
    rw [hsa, hsb]
    exact hle a ha b hb

end Lib
