import Mathlib.Data.Finmap
import Mathlib.Algebra.BigOperators.Group.Multiset.Defs
import Mathlib.Algebra.Order.BigOperators.Group.Multiset
import Mathlib.Tactic.Ring

/-!
# Finite maps without an order

A hash map, seen from outside, is a finite map with no order on its entries:
that is Mathlib's `Finmap`.  This file names the non-dependent case and adds
the operations programs use on such maps and Mathlib does not have:

* `update` — change the value under a key that is present (`get_mut`);
* `retain` — drop the entries whose key fails a test;
* `mapVal` — apply a function to every value;
* `weigh` — the sum of a weight over all values;
* `len` — the number of entries.

The laws that matter are those of `weigh`: what an insertion and an update do
to the sum (`weigh_insert_new`, `weigh_insert_old`), and that no single value
outweighs the whole map (`le_weigh`).
-/

namespace Lib

/-- A finite map from keys to values. -/
abbrev FiniteMap (K V : Type) := Finmap (fun _ : K => V)

end Lib

namespace Finmap

open Lib

section Operations

variable {K V W : Type}

/-- Change the value stored under a key, if there is one. -/
def update [DecidableEq K] (m : FiniteMap K V) (k : K) (f : V → V) : FiniteMap K V :=
  match m.lookup k with
  | some v => m.insert k (f v)
  | none => m

/-- Keep only the entries whose key passes the test. -/
def retain (m : FiniteMap K V) (p : K → Bool) : FiniteMap K V where
  entries := m.entries.filter fun e => p e.1
  nodupKeys := by
    have hkeys : m.entries.keys.Nodup := Multiset.nodup_keys.2 m.nodupKeys
    exact Multiset.nodup_keys.1
      (Multiset.nodup_of_le (Multiset.map_le_map (Multiset.filter_le _ _)) hkeys)

/-- Apply a function to every value. -/
def mapVal (m : FiniteMap K V) (f : V → W) : FiniteMap K W where
  entries := m.entries.map fun e => ⟨e.1, f e.2⟩
  nodupKeys := by
    have hkeys : m.entries.keys.Nodup := Multiset.nodup_keys.2 m.nodupKeys
    refine Multiset.nodup_keys.1 ?_
    rw [Multiset.keys, Multiset.map_map]
    exact hkeys

/-- The sum of a weight over all values of the map. -/
def weigh (m : FiniteMap K V) (w : V → ℕ) : ℕ := (m.entries.map fun e => w e.2).sum

/-- The number of entries. -/
def len (m : FiniteMap K V) : ℕ := Multiset.card m.entries

theorem len_eq_weigh (m : FiniteMap K V) : m.len = m.weigh fun _ => 1 := by
  simp [len, weigh]

theorem weigh_mapVal (m : FiniteMap K V) (f : V → W) (w : W → ℕ) :
    (m.mapVal f).weigh w = m.weigh fun v => w (f v) := by
  simp [weigh, mapVal]

end Operations

variable {K V W : Type} [DecidableEq K]

/-! ## Lookups -/

theorem lookup_insert_eq (m : FiniteMap K V) (k j : K) (v : V) :
    (m.insert k v).lookup j = if j = k then some v else m.lookup j := by
  by_cases h : j = k
  · subst h; simp
  · simp [h, Finmap.lookup_insert_of_ne]

/-- An insertion changes nothing exactly if the value is there already. -/
theorem insert_eq_self_iff {m : FiniteMap K V} {k : K} {v : V} :
    m.insert k v = m ↔ m.lookup k = some v := by
  constructor
  · intro h
    rw [← h]
    exact Finmap.lookup_insert m
  · intro h
    refine Finmap.ext_lookup fun j => ?_
    rw [lookup_insert_eq]
    split
    · rename_i heq
      rw [heq, h]
    · rfl

theorem lookup_erase_eq (m : FiniteMap K V) (k j : K) :
    (m.erase k).lookup j = if j = k then none else m.lookup j := by
  by_cases h : j = k
  · subst h; simp
  · simp [h, Finmap.lookup_erase_ne]

theorem lookup_insert_fun (m : FiniteMap K V) (k : K) (v : V) :
    (m.insert k v).lookup = Function.update m.lookup k (some v) := by
  funext j
  rw [lookup_insert_eq, Function.update_apply]

theorem lookup_erase_fun (m : FiniteMap K V) (k : K) :
    (m.erase k).lookup = Function.update m.lookup k none := by
  funext j
  rw [lookup_erase_eq, Function.update_apply]

theorem lookup_update (m : FiniteMap K V) (k j : K) (f : V → V) :
    (m.update k f).lookup j = if j = k then (m.lookup k).map f else m.lookup j := by
  unfold update
  cases hk : m.lookup k with
  | none =>
      by_cases h : j = k
      · subst h; simp [hk]
      · simp [h]
  | some v => simp [lookup_insert_eq]

theorem update_of_lookup {m : FiniteMap K V} {k : K} {v : V} (h : m.lookup k = some v)
    (f : V → V) : m.update k f = m.insert k (f v) := by
  unfold update
  rw [h]

theorem lookup_retain (m : FiniteMap K V) (p : K → Bool) (k : K) :
    (m.retain p).lookup k = if p k then m.lookup k else none := by
  refine Option.ext ?_
  intro v
  have hmem : ∀ n : FiniteMap K V, n.lookup k = some v ↔ (⟨k, v⟩ : Sigma fun _ : K => V) ∈ n.entries :=
    fun n => Finmap.lookup_eq_some_iff
  rw [hmem]
  by_cases hp : p k
  · simp [retain, hp, hmem]
  · simp [retain, hp]

theorem mem_retain (m : FiniteMap K V) (p : K → Bool) {k : K} :
    k ∈ m.retain p ↔ k ∈ m ∧ p k = true := by
  rw [← Finmap.lookup_isSome, ← Finmap.lookup_isSome, lookup_retain]
  by_cases hkeep : p k = true
  · rw [if_pos hkeep]
    simp [hkeep]
  · rw [if_neg hkeep]
    simp [hkeep]

theorem mem_foldl_insert {k : K} (key : V → K) (vs : List V) (m : FiniteMap K V) :
    k ∈ vs.foldl (fun m v => m.insert (key v) v) m ↔ k ∈ m ∨ ∃ v ∈ vs, k = key v := by
  induction vs generalizing m with
  | nil => simp
  | cons v vs ih =>
      rw [List.foldl_cons, ih, Finmap.mem_insert]
      constructor
      · rintro ((hkey | hold) | ⟨v', hv', hkey⟩)
        · exact .inr ⟨v, List.mem_cons_self, hkey⟩
        · exact .inl hold
        · exact .inr ⟨v', List.mem_cons_of_mem _ hv', hkey⟩
      · rintro (hold | ⟨v', hv', hkey⟩)
        · exact .inl (.inr hold)
        · rcases List.mem_cons.1 hv' with rfl | hv'
          · exact .inl (.inl hkey)
          · exact .inr ⟨v', hv', hkey⟩

theorem lookup_mapVal (m : FiniteMap K V) (f : V → W) (k : K) :
    (m.mapVal f).lookup k = (m.lookup k).map f := by
  refine Option.ext ?_
  intro w
  rw [Finmap.lookup_eq_some_iff]
  simp only [mapVal, Multiset.mem_map, Option.map_eq_some_iff, Finmap.lookup_eq_some_iff]
  constructor
  · rintro ⟨⟨j, v⟩, hv, he⟩
    obtain ⟨rfl, hw⟩ := Sigma.mk.inj_iff.1 he
    exact ⟨v, hv, eq_of_heq hw⟩
  · rintro ⟨v, hv, rfl⟩
    exact ⟨⟨k, v⟩, hv, rfl⟩

theorem mapVal_insert (m : FiniteMap K V) (f : V → W) (k : K) (v : V) :
    (m.insert k v).mapVal f = (m.mapVal f).insert k (f v) := by
  refine Finmap.ext_lookup ?_
  intro j
  rw [lookup_mapVal, lookup_insert_eq, lookup_insert_eq, lookup_mapVal]
  by_cases h : j = k <;> simp [h]

theorem mem_mapVal (m : FiniteMap K V) (f : V → W) (k : K) : k ∈ m.mapVal f ↔ k ∈ m := by
  rw [← Finmap.lookup_isSome, ← Finmap.lookup_isSome, lookup_mapVal]
  simp

/-! ## Weights -/

theorem weigh_insert_new {m : FiniteMap K V} {k : K} (h : k ∉ m) (v : V) (w : V → ℕ) :
    weigh (m.insert k v) w = w v + weigh m w := by
  simp [weigh, Finmap.entries_insert_of_notMem h]

theorem weigh_erase {m : FiniteMap K V} {k : K} {v : V} (h : m.lookup k = some v) (w : V → ℕ) :
    weigh m w = w v + weigh (m.erase k) w := by
  have hback : (m.erase k).insert k v = m := by
    refine Finmap.ext_lookup ?_
    intro j
    rw [lookup_insert_eq, lookup_erase_eq]
    by_cases hj : j = k
    · subst hj; simp [h]
    · simp [hj]
  calc weigh m w = weigh ((m.erase k).insert k v) w := by rw [hback]
    _ = w v + weigh (m.erase k) w := weigh_insert_new Finmap.notMem_erase_self v w

/-- Replacing a value changes the weight by the difference of the two. -/
theorem weigh_insert_old {m : FiniteMap K V} {k : K} {v : V} (h : m.lookup k = some v) (v' : V)
    (w : V → ℕ) : weigh (m.insert k v') w + w v = weigh m w + w v' := by
  have hback : m.insert k v' = (m.erase k).insert k v' := by
    refine Finmap.ext_lookup ?_
    intro j
    rw [lookup_insert_eq, lookup_insert_eq, lookup_erase_eq]
    by_cases hj : j = k <;> simp [hj]
  rw [hback, weigh_insert_new Finmap.notMem_erase_self, weigh_erase h w]
  ring

theorem weigh_insert_le (m : FiniteMap K V) (k : K) (v : V) (w : V → ℕ) :
    weigh (m.insert k v) w ≤ weigh m w + w v := by
  cases h : m.lookup k with
  | none =>
      have hnew : k ∉ m := Finmap.lookup_eq_none.1 h
      rw [weigh_insert_new hnew]
      omega
  | some old =>
      have hold := weigh_insert_old h v w
      omega

theorem len_insert_le (m : FiniteMap K V) (k : K) (v : V) : (m.insert k v).len ≤ m.len + 1 := by
  rw [len_eq_weigh, len_eq_weigh]
  exact weigh_insert_le m k v _

theorem len_le_insert (m : FiniteMap K V) (k : K) (v : V) : m.len ≤ (m.insert k v).len := by
  rw [len_eq_weigh, len_eq_weigh]
  cases h : m.lookup k with
  | none =>
      have hnew : k ∉ m := Finmap.lookup_eq_none.1 h
      rw [weigh_insert_new hnew]
      omega
  | some old =>
      have hold := weigh_insert_old h v fun _ => 1
      omega

theorem len_erase {m : FiniteMap K V} {k : K} {v : V} (h : m.lookup k = some v) :
    (m.erase k).len + 1 = m.len := by
  rw [len_eq_weigh, len_eq_weigh, weigh_erase h, Nat.add_comm]

theorem len_insert_old {m : FiniteMap K V} {k : K} {v : V} (h : m.lookup k = some v) (v' : V) :
    (m.insert k v').len = m.len := by
  have hold := weigh_insert_old h v' fun _ => 1
  rw [len_eq_weigh, len_eq_weigh]
  omega

theorem sum_le_weigh {ks : List K} (hnd : ks.Nodup) (w : V → ℕ) :
    ∀ m : FiniteMap K V, (ks.map fun k => ((m.lookup k).map w).getD 0).sum ≤ weigh m w := by
  induction ks with
  | nil => exact fun m => Nat.zero_le _
  | cons k ks ih =>
      intro m
      obtain ⟨hnot, hnd⟩ := List.nodup_cons.1 hnd
      rw [List.map_cons, List.sum_cons]
      cases hk : m.lookup k with
      | none =>
          have hrest := ih hnd m
          simpa using hrest
      | some v =>
          -- the others are looked up in the rest of the map
          have hothers : (ks.map fun j => ((m.lookup j).map w).getD 0) =
              ks.map fun j => (((m.erase k).lookup j).map w).getD 0 := by
            refine List.map_congr_left fun j hj => ?_
            have hne : j ≠ k := fun h => hnot (h ▸ hj)
            rw [lookup_erase_eq, if_neg hne]
          have hrest := ih hnd (m.erase k)
          rw [hothers, weigh_erase hk w]
          simpa using hrest

theorem le_weigh {m : FiniteMap K V} {k : K} {v : V} (h : m.lookup k = some v) (w : V → ℕ) :
    w v ≤ weigh m w := by
  rw [weigh_erase h w]
  exact Nat.le_add_right _ _

end Finmap
