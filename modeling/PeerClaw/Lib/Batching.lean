import PeerClaw.Lib.FiniteMap
import Mathlib.Data.List.Perm.Basic
import Mathlib.Data.Finset.Sort

/-!
# Batches: grouping and matching answers

What a batch processor does with a list of requests, whatever they are: it
groups them by a key, hands each group to somebody who returns answers in any
order, each under an identifier, and matches the answers with those who wait.

* `IterOrder` — an order in which a hash map may be iterated over.
* `groupBy` — the groups, as a map; `groups_perm` — they are the list again.
* `correlate` — take each answer to the one who waits under its identifier, once;
  `correlate_perm` — everybody who waits is served exactly once, with the first
  answer under their own identifier, whatever the answers are.
-/

namespace Lib

/-- An order in which a hash map is iterated over: unspecified, but each key comes once. -/
structure IterOrder (K V : Type) [DecidableEq K] where
  keys : FiniteMap K V → List K
  nodup : ∀ m, (keys m).Nodup
  mem_keys : ∀ m k, k ∈ keys m ↔ k ∈ m

section Order

variable {K V : Type} [DecidableEq K]

/-- The order of the ranks of the keys. -/
def IterOrder.ranked {α : Type} [LinearOrder α] (rank : K → α) (hrank : Function.Injective rank) :
    IterOrder K V :=
  haveI : IsTrans K fun a b => rank a ≤ rank b := ⟨fun _ _ _ => le_trans⟩
  haveI : Std.Antisymm fun a b : K => rank a ≤ rank b := ⟨fun _ _ h h' => hrank (le_antisymm h h')⟩
  haveI : Std.Total fun a b : K => rank a ≤ rank b := ⟨fun a b => le_total (rank a) (rank b)⟩
  { keys := fun m => m.keys.sort fun a b => rank a ≤ rank b
    nodup := fun m => m.keys.sort_nodup _
    mem_keys := fun m k => by rw [Finset.mem_sort, Finmap.mem_keys] }

/-- The entries of a map, in the order of its iteration. -/
def IterOrder.entries (order : IterOrder K V) (m : FiniteMap K V) : List (K × V) :=
  (order.keys m).filterMap fun k => (m.lookup k).map fun v => (k, v)

theorem IterOrder.mem_entries (order : IterOrder K V) {m : FiniteMap K V} {e : K × V} :
    e ∈ order.entries m ↔ m.lookup e.1 = some e.2 := by
  unfold IterOrder.entries
  rw [List.mem_filterMap]
  constructor
  · rintro ⟨k, -, hk⟩
    obtain ⟨v, hv, rfl⟩ := Option.map_eq_some_iff.1 hk
    exact hv
  · intro h
    refine ⟨e.1, (order.mem_keys m e.1).2 (Finmap.mem_of_lookup_eq_some h), ?_⟩
    rw [h]
    rfl

theorem IterOrder.nodup_entries (order : IterOrder K V) (m : FiniteMap K V) :
    (order.entries m).Nodup := by
  refine (order.nodup m).filterMap ?_
  intro k k' e he he'
  obtain ⟨v, -, rfl⟩ := Option.map_eq_some_iff.1 he
  obtain ⟨v', -, heq⟩ := Option.map_eq_some_iff.1 he'
  exact (congrArg Prod.fst heq).symm

/-- The entries, listed in any order, are those of a list that says the same as the map. -/
theorem IterOrder.entries_perm (order : IterOrder K V) {m : FiniteMap K V} {es : List (K × V)}
    (hnd : es.Nodup) (h : ∀ e, m.lookup e.1 = some e.2 ↔ e ∈ es) : (order.entries m).Perm es := by
  refine (List.perm_ext_iff_of_nodup (order.nodup_entries m) hnd).2 ?_
  intro e
  rw [order.mem_entries, h]

end Order

/-! ## Groups -/

section Groups

variable {X K : Type} [DecidableEq K] (key : X → K)

/-- Put an element at the end of its group. -/
def addToGroup (m : FiniteMap K (List X)) (x : X) : FiniteMap K (List X) :=
  m.insert (key x) ((m.lookup (key x)).getD [] ++ [x])

/-- The elements of a list by their key, each group in the order of the list. -/
def groupBy (xs : List X) : FiniteMap K (List X) := xs.foldl (addToGroup key) ∅

/-- What is under a key: the group, unless it is empty. -/
def groupOf (xs : List X) (k : K) : Option (List X) :=
  if xs.filter (fun x => key x = k) = [] then none else some (xs.filter fun x => key x = k)

theorem lookup_groupBy (xs : List X) (k : K) : (groupBy key xs).lookup k = groupOf key xs k := by
  induction xs using List.reverseRecOn with
  | nil => rfl
  | append_singleton xs x ih =>
      have hstep : groupBy key (xs ++ [x]) = addToGroup key (groupBy key xs) x :=
        List.foldl_concat ..
      rw [hstep, addToGroup, Finmap.lookup_insert_eq]
      unfold groupOf
      rw [List.filter_append]
      by_cases hk : k = key x
      · subst hk
        rw [if_pos rfl, ih, groupOf]
        by_cases hempty : xs.filter (fun y => key y = key x) = []
        · simp [hempty]
        · simp [hempty]
      · rw [if_neg hk, ih, groupOf]
        simp [Ne.symm hk]

theorem flatMap_filter_perm {ks : List K} (hnd : ks.Nodup) {xs : List X}
    (hcover : ∀ x ∈ xs, key x ∈ ks) : (ks.flatMap fun k => xs.filter fun x => key x = k).Perm xs := by
  induction ks generalizing xs with
  | nil =>
      have hnone : xs = [] := List.eq_nil_iff_forall_not_mem.2 fun x hx =>
        absurd (hcover x hx) (List.not_mem_nil)
      rw [hnone]
      exact List.Perm.refl _
  | cons k ks ih =>
      obtain ⟨hnot, hnd⟩ := List.nodup_cons.1 hnd
      have hrest : (ks.flatMap fun k' => xs.filter fun x => key x = k') =
          ks.flatMap fun k' => (xs.filter fun x => ¬ key x = k).filter fun x => key x = k' := by
        refine List.flatMap_congr fun k' hk' => ?_
        rw [List.filter_filter]
        refine List.filter_congr fun x _ => ?_
        have hne : k' ≠ k := fun h => hnot (h ▸ hk')
        by_cases hx : key x = k'
        · simp [hx, hne]
        · simp [hx]
      have hcover' : ∀ x ∈ xs.filter fun x => ¬ key x = k, key x ∈ ks := by
        intro x hx
        obtain ⟨hmem, hne⟩ := List.mem_filter.1 hx
        rcases List.mem_cons.1 (hcover x hmem) with h | h
        · exact absurd h (of_decide_eq_true hne)
        · exact h
      have hperm := ih hnd hcover'
      rw [List.flatMap_cons, hrest]
      have happ := List.filter_append_perm (fun x => decide (key x = k)) xs
      refine List.Perm.trans (List.Perm.append_left _ hperm) ?_
      simpa using happ

/-- Where no two elements share a key, selecting by the key of one gives that one. -/
theorem filter_key_eq {xs : List X} (hnd : (xs.map key).Nodup) {x : X} (hx : x ∈ xs) :
    xs.filter (fun y => key y = key x) = [x] := by
  induction xs with
  | nil => cases hx
  | cons y ys ih =>
      obtain ⟨hnot, hnd⟩ := List.nodup_cons.1 hnd
      rcases List.mem_cons.1 hx with rfl | hmem
      · have hnone : ys.filter (fun y => key y = key x) = [] := by
          refine List.filter_eq_nil_iff.2 fun y hy heq => hnot ?_
          exact of_decide_eq_true heq ▸ List.mem_map_of_mem hy
        simp [hnone]
      · have hne : key y ≠ key x := fun heq => hnot (heq ▸ List.mem_map_of_mem hmem)
        simpa [hne] using ih hnd hmem

/-- **The groups are the list.**  Put together again in any order, they hold each element as
often as the list did. -/
theorem groups_perm (order : IterOrder K (List X)) (xs : List X) :
    ((order.entries (groupBy key xs)).flatMap Prod.snd).Perm xs := by
  have hentries : order.entries (groupBy key xs) =
      (order.keys (groupBy key xs)).map fun k => (k, xs.filter fun x => key x = k) := by
    have hall : ∀ k ∈ order.keys (groupBy key xs),
        (((groupBy key xs).lookup k).map fun v => (k, v)) =
          some (k, xs.filter fun x => key x = k) := by
      intro k hk
      obtain ⟨v, hv⟩ := Finmap.mem_iff.1 ((order.mem_keys _ k).1 hk)
      have hgroup := hv
      rw [lookup_groupBy, groupOf] at hgroup
      split at hgroup
      · cases hgroup
      · rw [hv, Option.map_some, ← Option.some.inj hgroup]
    unfold IterOrder.entries
    rw [List.filterMap_congr hall, List.filterMap_eq_map']
  rw [hentries, List.flatMap_map]
  refine flatMap_filter_perm key (order.nodup _) ?_
  intro x hx
  rw [order.mem_keys, ← Finmap.lookup_isSome, lookup_groupBy, groupOf, if_neg]
  · rfl
  · intro hempty
    have hmem : x ∈ xs.filter fun y => key y = key x := List.mem_filter.2 ⟨hx, by simp⟩
    rw [hempty] at hmem
    cases hmem

theorem key_of_mem_group (order : IterOrder K (List X)) {xs : List X} {g : K × List X}
    (hg : g ∈ order.entries (groupBy key xs)) {x : X} (hx : x ∈ g.2) : key x = g.1 ∧ x ∈ xs := by
  have hlook := (order.mem_entries).1 hg
  rw [lookup_groupBy, groupOf] at hlook
  split at hlook
  · cases hlook
  · rw [← Option.some.inj hlook] at hx
    obtain ⟨hmem, hkey⟩ := List.mem_filter.1 hx
    exact ⟨of_decide_eq_true hkey, hmem⟩

end Groups

/-! ## Answers -/

section Answers

variable {K C R O X : Type} [DecidableEq K]

/-- Take each answer to the one who waits under its identifier, and strike them off: the answers
taken, and who still waits. -/
def correlate : List (K × R) → FiniteMap K C → List (C × K × R) × FiniteMap K C
  | [], waiting => ([], waiting)
  | (k, r) :: rest, waiting =>
      match waiting.lookup k with
      | some c =>
          let later := correlate rest (waiting.erase k)
          ((c, k, r) :: later.1, later.2)
      | none => correlate rest waiting

/-- The answer under an identifier: the first one listed. -/
def firstFor (answers : List (K × R)) (k : K) : Option R :=
  (answers.find? fun a => a.1 = k).map Prod.snd

theorem firstFor_cons_self (k : K) (r : R) (rest : List (K × R)) :
    firstFor ((k, r) :: rest) k = some r := by
  simp [firstFor]

theorem firstFor_cons_ne {k j : K} (h : j ≠ k) (r : R) (rest : List (K × R)) :
    firstFor ((k, r) :: rest) j = firstFor rest j := by
  simp [firstFor, Ne.symm h]

theorem mem_of_firstFor {answers : List (K × R)} {k : K} {r : R}
    (h : firstFor answers k = some r) : (k, r) ∈ answers := by
  obtain ⟨a, ha, rfl⟩ := Option.map_eq_some_iff.1 h
  have hkey : decide (a.1 = k) = true := List.find?_some (p := fun b : K × R => decide (b.1 = k)) ha
  rw [← of_decide_eq_true hkey]
  exact List.mem_of_find?_eq_some ha

variable (key : X → K) (chan : X → C)

/-- The map says who waits, and under which identifier. -/
def Waiting (waiting : FiniteMap K C) (xs : List X) : Prop :=
  ∀ k c, waiting.lookup k = some c ↔ ∃ x ∈ xs, key x = k ∧ chan x = c

/-- **Everybody is served once.**  Whatever the answers are, those taken and the notices to
those who still wait afterwards are one for each who waited: the first answer under their own
identifier, or the notice that there is none. -/
theorem correlate_perm (order : IterOrder K C) (g : K → R → O) (h : K → O)
    (answers : List (K × R)) {waiting : FiniteMap K C} {xs : List X} (hnd : (xs.map key).Nodup)
    (hw : Waiting key chan waiting xs) :
    ((correlate answers waiting).1.map (fun m => (m.1, g m.2.1 m.2.2)) ++
      (order.entries (correlate answers waiting).2).map fun e => (e.2, h e.1)).Perm
      (xs.map fun x => (chan x, (firstFor answers (key x)).elim (h (key x)) (g (key x)))) := by
  induction answers generalizing waiting xs with
  | nil =>
      have hentries : (order.entries waiting).Perm (xs.map fun x => (key x, chan x)) := by
        refine order.entries_perm ?_ ?_
        · refine List.Nodup.of_map Prod.fst ?_
          rw [List.map_map]
          exact hnd
        · rintro ⟨k, c⟩
          rw [hw k c]
          simp
      have hmap := hentries.map fun e => (e.2, h e.1)
      rw [List.map_map] at hmap
      exact hmap
  | cons a rest ih =>
      obtain ⟨k, r⟩ := a
      unfold correlate
      cases hlook : waiting.lookup k with
      | none =>
          have hsame : (xs.map fun x =>
              (chan x, (firstFor ((k, r) :: rest) (key x)).elim (h (key x)) (g (key x)))) =
              xs.map fun x => (chan x, (firstFor rest (key x)).elim (h (key x)) (g (key x))) := by
            refine List.map_congr_left fun x hx => ?_
            have hne : key x ≠ k := by
              intro heq
              rw [(hw k (chan x)).2 ⟨x, hx, heq, rfl⟩] at hlook
              cases hlook
            rw [firstFor_cons_ne hne]
          rw [hsame]
          exact ih hnd hw
      | some c =>
          obtain ⟨x, hx, rfl, rfl⟩ := (hw k c).1 hlook
          obtain ⟨as, bs, rfl⟩ := List.append_of_mem hx
          have hperm : (as ++ x :: bs).Perm (x :: (as ++ bs)) := List.perm_middle
          have hnd' : (key x :: (as ++ bs).map key).Nodup := (hperm.map key).nodup_iff.1 hnd
          obtain ⟨hnot, hnd'⟩ := List.nodup_cons.1 hnd'
          have hother : ∀ y ∈ as ++ bs, key y ≠ key x := fun y hy heq =>
            hnot (heq ▸ List.mem_map_of_mem hy)
          have hw' : Waiting key chan (waiting.erase (key x)) (as ++ bs) := by
            intro j d
            rw [Finmap.lookup_erase_eq]
            by_cases hj : j = key x
            · rw [if_pos hj]
              refine iff_of_false (by simp) ?_
              rintro ⟨y, hy, hkey, -⟩
              exact hother y hy (hkey.trans hj)
            · rw [if_neg hj, hw j d]
              constructor
              · rintro ⟨y, hy, hkey, hchan⟩
                rcases List.mem_cons.1 (hperm.mem_iff.1 hy) with rfl | hy
                · exact absurd hkey.symm hj
                · exact ⟨y, hy, hkey, hchan⟩
              · rintro ⟨y, hy, hkey, hchan⟩
                exact ⟨y, hperm.mem_iff.2 (List.mem_cons_of_mem _ hy), hkey, hchan⟩
          have hrest : ((as ++ bs).map fun y =>
              (chan y, (firstFor ((key x, r) :: rest) (key y)).elim (h (key y)) (g (key y)))) =
              (as ++ bs).map fun y => (chan y, (firstFor rest (key y)).elim (h (key y)) (g (key y))) := by
            refine List.map_congr_left fun y hy => ?_
            rw [firstFor_cons_ne (hother y hy)]
          have hfirst : (firstFor ((key x, r) :: rest) (key x)).elim (h (key x)) (g (key x)) =
              g (key x) r := by
            rw [firstFor_cons_self]
            rfl
          refine List.Perm.trans ?_ (hperm.map _).symm
          rw [List.map_cons (l := as ++ bs), hfirst, hrest]
          exact (ih hnd' hw').cons _

/-- Entering those who wait one by one, each under an identifier of their own. -/
theorem waiting_foldl {xs : List X} (hnd : (xs.map key).Nodup) :
    Waiting key chan (xs.foldl (fun m x => m.insert (key x) (chan x)) ∅) xs := by
  induction xs using List.reverseRecOn with
  | nil => simp [Waiting]
  | append_singleton xs x ih =>
      rw [List.map_append, List.nodup_append] at hnd
      obtain ⟨hnd, -, hdisj⟩ := hnd
      intro k c
      rw [List.foldl_concat, Finmap.lookup_insert_eq]
      by_cases hk : k = key x
      · rw [if_pos hk]
        constructor
        · intro heq
          exact ⟨x, List.mem_append_right _ (List.mem_singleton_self x), hk.symm,
            Option.some.inj heq⟩
        · rintro ⟨y, hy, hkey, rfl⟩
          rcases List.mem_append.1 hy with hy | hy
          · exact absurd (hkey.trans hk)
              (hdisj _ (List.mem_map_of_mem hy) _ (List.mem_singleton_self _))
          · rw [List.mem_singleton.1 hy]
      · rw [if_neg hk, ih hnd k c]
        constructor
        · rintro ⟨y, hy, hkey, hchan⟩
          exact ⟨y, List.mem_append_left _ hy, hkey, hchan⟩
        · rintro ⟨y, hy, hkey, hchan⟩
          rcases List.mem_append.1 hy with hy | hy
          · exact ⟨y, hy, hkey, hchan⟩
          · rw [List.mem_singleton.1 hy] at hkey
            exact absurd hkey.symm hk

end Answers

end Lib
