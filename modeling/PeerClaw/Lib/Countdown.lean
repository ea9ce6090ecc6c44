import Mathlib.Data.DFinsupp.WellFounded
import Mathlib.Algebra.Order.BigOperators.Group.Finset
import Mathlib.Data.Fintype.Basic
import Mathlib.Logic.Relation
import Mathlib.Data.Finset.Max
import Mathlib.Data.List.Nodup

/-!
# Loops that count

A walk moves from place to place.  A move goes **forward**, to a place of smaller
height, or it **loops**: it goes anywhere, and the counter of the place it leaves
goes up, which it can do only as long as it is below its limit.  A move forward may
set the counter of its own place back.

However the loops are nested or cross each other, no walk goes on for ever
(`walk_ends`): the counters of the lower places come first, and a counter that is
set back belongs to a place that has been passed.

* `Drops` — some component is smaller, and none before it is larger.
* `height_lt` — heights for a finite graph without cycles.
-/

namespace Lib
namespace Countdown

/-! ## Measures that drop -/

/-- Some component is smaller, and none of those before it is larger. -/
def Drops {n : ℕ} (a b : Fin n → ℕ) : Prop := ∃ i, a i < b i ∧ ∀ j < i, a j ≤ b j

theorem wellFounded_drops (n : ℕ) : WellFounded (Drops (n := n)) := by
  have hlex : WellFounded fun a b : Lex (Fin n → ℕ) => a < b := wellFounded_lt
  refine Subrelation.wf (r := fun a b : Fin n → ℕ => toLex a < toLex b) ?_ hlex
  rintro a b ⟨i, hi, hle⟩
  -- the first component that is smaller decides
  obtain ⟨k, hk, hmin⟩ := wellFounded_lt.has_min {j : Fin n | a j < b j} ⟨i, hi⟩
  refine ⟨k, fun j hj => ?_, hk⟩
  have hnot : ¬ a j < b j := fun hlt => hmin j hlt hj
  have hki : k ≤ i := not_lt.1 fun hlt => hmin i hi hlt
  exact le_antisymm (hle j (lt_of_lt_of_le hj hki)) (not_lt.1 hnot)

/-- **A run whose measure drops** as long as it goes on ends. -/
theorem ends_of_drops {σ : Type*} {n : ℕ} (m : σ → Fin n → ℕ) {s : ℕ → σ} {Ended : σ → Prop}
    (h : ∀ k, Ended (s k) ∨ Drops (m (s (k + 1))) (m (s k))) : ∃ k, Ended (s k) := by
  have hall : ∀ x k, m (s k) = x → ∃ k, Ended (s k) := by
    intro x
    induction x using (wellFounded_drops n).induction with
    | h x ih =>
        rintro k rfl
        rcases h k with hended | hdrops
        · exact ⟨k, hended⟩
        · exact ih _ hdrops (k + 1) rfl
  exact hall _ 0 rfl

/-! ## Heights -/

section Height

variable {P : Type*} (edge : P → P → Prop) (places : Finset P)

open Classical in
/-- How many places can be reached from a place. -/
noncomputable def height (p : P) : ℕ := (places.filter (Relation.TransGen edge p)).card

variable {edge places}

theorem height_le (p : P) : height edge places p ≤ places.card := by
  classical
  unfold height
  exact Finset.card_filter_le _ _

/-- **Without cycles every edge goes down.** -/
theorem height_lt (hacyclic : ∀ p, ¬ Relation.TransGen edge p p) {p q : P} (h : edge p q)
    (hq : q ∈ places) : height edge places q < height edge places p := by
  classical
  unfold height
  refine Finset.card_lt_card ((Finset.ssubset_iff_of_subset ?_).2 ⟨q, ?_, ?_⟩)
  · intro r hr
    rw [Finset.mem_filter] at hr ⊢
    exact ⟨hr.1, .head h hr.2⟩
  · exact Finset.mem_filter.2 ⟨hq, .single h⟩
  · intro hmem
    exact hacyclic q (Finset.mem_filter.1 hmem).2

theorem acyclic_of_rank (rank : P → ℕ) (h : ∀ p q, edge p q → rank p < rank q) (p : P) :
    ¬ Relation.TransGen edge p p := by
  have hlt : ∀ {q}, Relation.TransGen edge p q → rank p < rank q := by
    intro q hq
    induction hq with
    | single hq => exact h _ _ hq
    | tail _ hr ih => exact ih.trans (h _ _ hr)
  intro hp
  exact lt_irrefl _ (hlt hp)

end Height

/-! ## Walks -/

section Walk

variable {P : Type*} (height limit : P → ℕ)

/-- Where a walk is, and the counters of the places. -/
structure Walk (P : Type*) where
  place : P
  count : P → ℕ

/-- A move to a smaller height; it may change the counter of the place it leaves. -/
def Forward (x y : Walk P) : Prop :=
  height y.place < height x.place ∧ ∀ p, p ≠ x.place → y.count p = x.count p

/-- A move to any place, which counts. -/
def Loops (x y : Walk P) : Prop :=
  x.count x.place < limit x.place ∧ x.count x.place < y.count x.place ∧
    ∀ p, p ≠ x.place → y.count p = x.count p

/-- What is left of the counter of a place that has not been passed. -/
def left (x : Walk P) (p : P) : ℕ :=
  if height p ≤ height x.place then limit p - x.count p else 0

variable {height limit} in
/-- Nobody else's counter is set back before its place has been passed. -/
theorem left_le {x y : Walk P} {p : P} (hheight : height p ≤ height x.place)
    (hsame : y.count p = x.count p) : left height limit y p ≤ left height limit x p := by
  unfold left
  rw [if_pos hheight, hsame]
  split
  · exact le_rfl
  · exact Nat.zero_le _

variable (places : Finset P) (n : ℕ)

/-- The measure of a walk: what is left of the counters, the lower places first, and in the
end the height. -/
def measure (x : Walk P) (i : Fin (n + 2)) : ℕ :=
  if (i : ℕ) ≤ n then ∑ p ∈ places with height p = i, left height limit x p else height x.place

variable {height limit places n} {x y : Walk P}

theorem measure_forward (h : Forward height x y) :
    Drops (measure height limit places n y) (measure height limit places n x) := by
  refine ⟨Fin.last (n + 1), ?_, fun j hj => ?_⟩
  · have hlast : ¬ ((Fin.last (n + 1) : Fin (n + 2)) : ℕ) ≤ n := by simp
    rw [measure, measure, if_neg hlast, if_neg hlast]
    exact h.1
  · have hle : (j : ℕ) ≤ n := by
      have hlt : (j : ℕ) < n + 1 := hj
      omega
    rw [measure, measure, if_pos hle, if_pos hle]
    refine Finset.sum_le_sum fun p _ => ?_
    by_cases hp : height p ≤ height y.place
    · -- a place that has not been passed is not the one that was left
      have hne : p ≠ x.place := by
        rintro rfl
        exact absurd h.1 (not_lt.2 hp)
      exact left_le (hp.trans h.1.le) (h.2 p hne)
    · rw [left, if_neg hp]
      exact Nat.zero_le _

theorem measure_loops (hx : x.place ∈ places) (hn : height x.place ≤ n)
    (h : Loops limit x y) :
    Drops (measure height limit places n y) (measure height limit places n x) := by
  obtain ⟨hlimit, hcount, hsame⟩ := h
  refine ⟨⟨height x.place, by omega⟩, ?_, fun j hj => ?_⟩
  · rw [measure, measure, if_pos hn, if_pos hn]
    refine Finset.sum_lt_sum (fun p hp => ?_) ⟨x.place, ?_, ?_⟩
    · obtain ⟨-, hheight⟩ := Finset.mem_filter.1 hp
      have hheight : height p = height x.place := hheight
      by_cases hp : p = x.place
      · subst hp
        unfold left
        rw [if_pos le_rfl]
        split <;> omega
      · exact left_le hheight.le (hsame p hp)
    · exact Finset.mem_filter.2 ⟨hx, rfl⟩
    · unfold left
      rw [if_pos le_rfl]
      split <;> omega
  · have hlt : (j : ℕ) < height x.place := hj
    have hle : (j : ℕ) ≤ n := by omega
    rw [measure, measure, if_pos hle, if_pos hle]
    refine Finset.sum_le_sum fun p hp => ?_
    obtain ⟨-, hheight⟩ := Finset.mem_filter.1 hp
    have hne : p ≠ x.place := by
      rintro rfl
      omega
    exact left_le (by omega) (hsame p hne)

/-- **Walks end**, however their loops are nested or cross each other. -/
theorem walk_ends {σ : Type*} {s : ℕ → σ} {Ended : σ → Prop} (walk : σ → Walk P)
    (hbound : ∀ p ∈ places, height p ≤ n)
    (h : ∀ k, Ended (s k) ∨ ((walk (s k)).place ∈ places ∧
      (Forward height (walk (s k)) (walk (s (k + 1))) ∨
        Loops limit (walk (s k)) (walk (s (k + 1)))))) :
    ∃ k, Ended (s k) := by
  refine ends_of_drops (fun x => measure height limit places n (walk x)) fun k => ?_
  rcases h k with hended | ⟨hplace, hforward | hloops⟩
  · exact .inl hended
  · exact .inr (measure_forward hforward)
  · exact .inr (measure_loops hplace (hbound _ hplace) hloops)

end Walk

end Countdown
end Lib

/-!
## Topological orders

A list of the vertices of a graph in which every edge comes **from before** leads each edge
forward, and a graph with such a list has no cycle (`acyclic_of_fromBefore`).  Conversely, in a
graph without a cycle no set of vertices is such that each has an edge into it from inside
(`exists_no_edge_into`), so that an algorithm that takes one vertex after the other, each when no
edge into it is left, cannot get stuck.
-/

namespace Lib
namespace Topological

variable {P : Type*} (edge : P → P → Prop)

/-- Every edge into a vertex of the list comes from a vertex before it. -/
def FromBefore (out : List P) : Prop :=
  ∀ pre v post, out = pre ++ v :: post → ∀ u, edge u v → u ∈ pre

variable {edge}

theorem fromBefore_nil : FromBefore edge ([] : List P) := by
  intro pre v post h
  cases pre <;> cases h

theorem FromBefore.concat {out : List P} (h : FromBefore edge out) {v : P}
    (hv : ∀ u, edge u v → u ∈ out) : FromBefore edge (out ++ [v]) := by
  intro pre w post heq u hedge
  rcases List.eq_nil_or_concat post with rfl | ⟨post, z, rfl⟩
  · obtain ⟨rfl, hlast⟩ := List.append_inj' heq rfl
    cases hlast
    exact hv u hedge
  · have hsplit : out ++ [v] = (pre ++ w :: post) ++ [z] := by simpa using heq
    exact h pre w post (List.append_inj' hsplit rfl).1 u hedge

/-- **Edges lead forward.** -/
theorem FromBefore.sublist {out : List P} (h : FromBefore edge out) {u v : P} (hedge : edge u v)
    (hv : v ∈ out) : List.Sublist [u, v] out := by
  obtain ⟨pre, post, rfl⟩ := List.append_of_mem hv
  have hu : u ∈ pre := h pre v post rfl u hedge
  have hfirst : List.Sublist [u] pre := List.singleton_sublist.2 hu
  have hsecond : List.Sublist [v] (v :: post) := List.singleton_sublist.2 List.mem_cons_self
  exact hfirst.append hsecond

/-- **A graph with a topological order has no cycle.** -/
theorem acyclic_of_fromBefore [DecidableEq P] {out : List P} (h : FromBefore edge out)
    (hnodup : out.Nodup) (hall : ∀ u v, edge u v → v ∈ out) (p : P) :
    ¬ Relation.TransGen edge p p := by
  refine Countdown.acyclic_of_rank out.idxOf (fun u v hedge => ?_) p
  obtain ⟨pre, post, rfl⟩ := List.append_of_mem (hall u v hedge)
  have hu : u ∈ pre := h pre v post rfl u hedge
  have hv : v ∉ pre := fun hmem => (List.nodup_append.1 hnodup).2.2 v hmem v List.mem_cons_self rfl
  rw [List.idxOf_append_of_mem hu, List.idxOf_append_of_notMem hv, List.idxOf_cons_self]
  exact List.idxOf_lt_length_of_mem hu

/-- **Without a cycle there is always a vertex to begin with.** -/
theorem exists_no_edge_into (hacyclic : ∀ p, ¬ Relation.TransGen edge p p) {places : Finset P}
    (hne : places.Nonempty) : ∃ v ∈ places, ∀ u ∈ places, ¬ edge u v := by
  obtain ⟨v, hv, hmax⟩ := places.exists_max_image (Countdown.height edge places) hne
  refine ⟨v, hv, fun u hu hedge => ?_⟩
  have hlt := Countdown.height_lt hacyclic hedge hv
  have hle := hmax u hu
  omega

end Topological
end Lib
