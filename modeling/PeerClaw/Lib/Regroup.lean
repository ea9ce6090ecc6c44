import Mathlib.Data.Set.Finite.Basic

/-!
# Groups that are read again

Named groups of items are written one after the other and read again, each under a name that may
be another one.  What is read is what was written exactly when each group gets the name of one
with the same items, and no two get the same.

* `regroup` — the items that are read under a name.
* `regroup_iff` — when they are those that were written.
* `sentFrom` — where groups go that may stay where the one before them went.
* `readBack_iff` — when groups that are written in any order are read again.
-/

namespace Lib

variable {κ σ α : Type*} [DecidableEq σ]

/-- The items that are read under a name, if each group goes where it is sent. -/
def regroup (sent : κ → σ) (items : κ → List α) (groups : List κ) (name : σ) : List α :=
  (groups.filter fun g => sent g = name).flatMap items

section Regroup

variable {sent : κ → σ} {items : κ → List α} {groups : List κ} {name : σ} {g : κ}

@[simp] theorem regroup_nil : regroup sent items [] name = [] := rfl

theorem regroup_cons : regroup sent items (g :: groups) name =
    (if sent g = name then items g else []) ++ regroup sent items groups name := by
  unfold regroup
  by_cases h : sent g = name
  · simp [h]
  · simp [h]

theorem regroup_eq_nil (h : ∀ g ∈ groups, sent g ≠ name) : regroup sent items groups name = [] := by
  have hnone : groups.filter (fun g => decide (sent g = name)) = [] := by simpa using h
  rw [regroup, hnone, List.flatMap_nil]

theorem regroup_eq (hnd : groups.Nodup) (hg : g ∈ groups) (hsent : sent g = name)
    (honly : ∀ g' ∈ groups, sent g' = name → g' = g) :
    regroup sent items groups name = items g := by
  induction groups with
  | nil => cases hg
  | cons a groups ih =>
      obtain ⟨ha, hnd⟩ := List.nodup_cons.1 hnd
      rw [regroup_cons]
      rcases List.mem_cons.1 hg with rfl | hg
      · rw [if_pos hsent, regroup_eq_nil, List.append_nil]
        intro g' hg' hsent'
        exact ha (honly g' (List.mem_cons_of_mem _ hg') hsent' ▸ hg')
      · have hne : sent a ≠ name := fun h => ha (honly a List.mem_cons_self h ▸ hg)
        rw [if_neg hne, List.nil_append]
        exact ih hnd hg fun g' hg' => honly g' (List.mem_cons_of_mem a hg')

/-- **What is read is what was written** exactly when the groups change places among themselves, and
only with groups of the same items. -/
theorem regroup_iff {place : κ → σ} (hplace : Function.Injective place) (hnd : groups.Nodup)
    (hitems : ∀ g ∈ groups, items g ≠ []) :
    (∀ g ∈ groups, regroup sent items groups (place g) = items g) ↔
      (∀ g ∈ groups, ∃ g' ∈ groups, sent g = place g' ∧ items g' = items g) ∧
        ∀ g ∈ groups, ∀ g' ∈ groups, sent g = sent g' → g = g' := by
  constructor
  · intro h
    have hsource : ∀ g : { g // g ∈ groups }, ∃ g' : { g // g ∈ groups },
        sent g'.1 = place g.1 := by
      rintro ⟨g, hg⟩
      by_contra hnone
      push Not at hnone
      have hnil : regroup sent items groups (place g) = [] :=
        regroup_eq_nil fun g' hg' => hnone ⟨g', hg'⟩
      exact hitems g hg (by rw [← h g hg, hnil])
    choose source hsource using hsource
    have hinj : Function.Injective source := by
      intro g g' heq
      have hsame := (hsource g).symm.trans ((congrArg (fun x => sent x.1) heq).trans (hsource g'))
      exact Subtype.ext (hplace hsame)
    -- as many groups are sent as there are places
    have hfinite : Finite { g // g ∈ groups } := List.finite_toSet groups
    have hsurj : Function.Surjective source := Finite.surjective_of_injective hinj
    have hsent : ∀ g (hg : g ∈ groups), ∃ g' : { g // g ∈ groups }, source g' = ⟨g, hg⟩ :=
      fun g hg => hsurj ⟨g, hg⟩
    have honce : ∀ g ∈ groups, ∀ g' ∈ groups, sent g = sent g' → g = g' := by
      intro g hg g' hg' heq
      obtain ⟨t, ht⟩ := hsent g hg
      obtain ⟨t', ht'⟩ := hsent g' hg'
      have hplaces : place t.1 = place t'.1 := by
        rw [← hsource t, ← hsource t', ht, ht', heq]
      have htt : t = t' := Subtype.ext (hplace hplaces)
      rw [htt, ht'] at ht
      exact (Subtype.mk.inj ht).symm
    refine ⟨fun g hg => ?_, honce⟩
    obtain ⟨t, ht⟩ := hsent g hg
    have hto : sent g = place t.1 := by rw [← hsource t, ht]
    refine ⟨t.1, t.2, hto, ?_⟩
    rw [← h t.1 t.2]
    exact regroup_eq hnd hg hto fun g' hg' hsent' =>
      honce g' hg' g hg (hsent'.trans hto.symm)
  · rintro ⟨hsent, honce⟩ g hg
    choose! dest hdest hplaced hsame using hsent
    have hinj : ∀ g ∈ groups, ∀ g' ∈ groups, dest g = dest g' → g = g' := by
      intro g hg g' hg' heq
      exact honce g hg g' hg' (by rw [hplaced g hg, hplaced g' hg', heq])
    have hsurj : ∃ g' ∈ groups, dest g' = g := by
      have hfinite : Finite { g // g ∈ groups } := List.finite_toSet groups
      have hself : Function.Injective
          fun x : { g // g ∈ groups } => (⟨dest x.1, hdest x.1 x.2⟩ : { g // g ∈ groups }) := by
        intro x y heq
        exact Subtype.ext (hinj x.1 x.2 y.1 y.2 (Subtype.mk.inj heq))
      obtain ⟨x, hx⟩ := Finite.surjective_of_injective hself ⟨g, hg⟩
      exact ⟨x.1, x.2, Subtype.mk.inj hx⟩
    obtain ⟨g', hg', rfl⟩ := hsurj
    rw [hsame g' hg']
    exact regroup_eq hnd hg' (hplaced g' hg') fun x hx hsent' =>
      honce x hx g' hg' (hsent'.trans (hplaced g' hg').symm)

theorem regroup_all_iff {sent : κ → Option κ} [DecidableEq κ] (hnd : groups.Nodup)
    (hgroups : ∀ g, g ∈ groups ↔ items g ≠ []) :
    (∀ name, regroup sent items groups (some name) = items name) ↔
      (∀ g ∈ groups, ∃ g', sent g = some g' ∧ items g' = items g) ∧
        ∀ g ∈ groups, ∀ g' ∈ groups, sent g = sent g' → g = g' := by
  have hmain : (∀ g ∈ groups, regroup sent items groups (some g) = items g) ↔ _ :=
    regroup_iff (Option.some_injective κ) hnd fun g => (hgroups g).1
  have hsame : (∀ g ∈ groups, ∃ g' ∈ groups, sent g = some g' ∧ items g' = items g) ↔
      ∀ g ∈ groups, ∃ g', sent g = some g' ∧ items g' = items g := by
    refine forall₂_congr fun g hg => ?_
    constructor
    · rintro ⟨g', -, h⟩
      exact ⟨g', h⟩
    · rintro ⟨g', hsent, hitems⟩
      refine ⟨g', (hgroups _).2 ?_, hsent, hitems⟩
      rw [hitems]
      exact (hgroups g).1 hg
  rw [← hsame, ← hmain]
  constructor
  · intro h g _
    exact h g
  · intro h name
    by_cases hname : name ∈ groups
    · exact h name hname
    · have hnil : items name = [] := not_not.1 (mt (hgroups name).2 hname)
      rw [hnil]
      refine regroup_eq_nil fun g hg hsent => ?_
      obtain ⟨g', hg', heq, -⟩ := (hmain.1 h).1 g hg
      rw [hsent] at heq
      exact hname (Option.some.inj heq ▸ hg')

theorem regroup_congr {sent' : κ → σ} (h : ∀ g ∈ groups, sent g = sent' g) :
    regroup sent items groups name = regroup sent' items groups name := by
  induction groups with
  | nil => rfl
  | cons g groups ih =>
      obtain ⟨hg, hrest⟩ := List.forall_mem_cons.1 h
      rw [regroup_cons, regroup_cons, hg, ih hrest]

end Regroup

/-! ## Groups that go where the one before them went -/

section Running

variable {τ : Type*} [DecidableEq κ] (next : τ → κ → τ)

/-- Where each group goes, if that depends on where the one before it went. -/
def sentFrom : τ → List κ → κ → τ
  | now, [] => fun _ => now
  | now, g :: groups => fun k => if k = g then next now g else sentFrom (next now g) groups k

variable {next} {now : τ} {groups : List κ} {g k : κ}

theorem sentFrom_self : sentFrom next now (g :: groups) g = next now g := if_pos rfl

theorem sentFrom_of_ne (h : k ≠ g) :
    sentFrom next now (g :: groups) k = sentFrom next (next now g) groups k := if_neg h

theorem sentFrom_after {a b : List κ} (hnd : (a ++ g :: k :: b).Nodup) :
    sentFrom next now (a ++ g :: k :: b) k =
      next (sentFrom next now (a ++ g :: k :: b) g) k := by
  induction a generalizing now with
  | nil =>
      have hne : k ≠ g := by
        rintro rfl
        simp at hnd
      rw [List.nil_append, sentFrom_of_ne hne, sentFrom_self, sentFrom_self]
  | cons c a ih =>
      obtain ⟨hc, hnd⟩ := List.nodup_cons.1 hnd
      have hk : k ≠ c := by
        rintro rfl
        simp at hc
      have hg : g ≠ c := by
        rintro rfl
        simp at hc
      rw [List.cons_append, sentFrom_of_ne hk, sentFrom_of_ne hg]
      exact ih hnd

theorem sentFrom_of_const {dest : κ → τ} (h : ∀ g ∈ groups, ∀ now, next now g = dest g)
    (hk : k ∈ groups) : sentFrom next now groups k = dest k := by
  induction groups generalizing now with
  | nil => cases hk
  | cons g groups ih =>
      obtain ⟨hg, hrest⟩ := List.forall_mem_cons.1 h
      by_cases heq : k = g
      · rw [heq, sentFrom_self, hg]
      · rw [sentFrom_of_ne heq]
        exact ih hrest ((List.mem_cons.1 hk).resolve_left heq)

theorem regroup_sentFrom {place : τ → σ} {items : κ → List α} {name : σ} (h : g ∉ groups) :
    regroup (fun k => place (sentFrom next now (g :: groups) k)) items (g :: groups) name =
      (if place (next now g) = name then items g else []) ++
        regroup (fun k => place (sentFrom next (next now g) groups k)) items groups name := by
  rw [regroup_cons, sentFrom_self]
  congr 1
  apply regroup_congr
  intro k hk
  have hne : k ≠ g := by
    rintro rfl
    exact h hk
  rw [sentFrom_of_ne hne]

end Running

/-! ## Every order -/

section Orders

variable {τ : Type*} [DecidableEq κ] (blank : κ → Prop) [DecidablePred blank] (dest : κ → τ)

/-- A group without a name stays with the one before it. -/
def follow (now : τ) (g : κ) : τ := if blank g then now else dest g

/-- What the groups come back as, in the order of a list. -/
def readBack (place : τ → Option κ) (items : κ → List α) (now : τ) (groups : List κ) (name : κ) :
    List α :=
  regroup (fun g => place (sentFrom (follow blank dest) now groups g)) items groups (some name)

/-- The groups that may come in any order, after those that come first. -/
def Free (items : κ → List α) (first free : List κ) : Prop :=
  free.Nodup ∧ ∀ g, g ∈ free ↔ items g ≠ [] ∧ g ∉ first

variable {blank dest} {place : τ → Option κ} {items : κ → List α} {now : τ} {first free : List κ} {g k : κ}

omit [DecidableEq κ] in
theorem nodup_append_free (hfirst : first.Nodup) (hfree : Free items first free) :
    (first ++ free).Nodup := by
  rw [List.nodup_append]
  refine ⟨hfirst, hfree.1, ?_⟩
  rintro a ha _ hb rfl
  exact ((hfree.2 a).1 hb).2 ha

theorem mem_append_free (hpresent : ∀ g ∈ first, items g ≠ []) (hfree : Free items first free) :
    g ∈ first ++ free ↔ items g ≠ [] := by
  rw [List.mem_append, hfree.2]
  constructor
  · rintro (hg | ⟨hg, -⟩)
    · exact hpresent g hg
    · exact hg
  · intro hg
    by_cases hfirst : g ∈ first
    · exact .inl hfirst
    · exact .inr ⟨hg, hfirst⟩

theorem exists_order (hfirst : first.Nodup) (hpresent : ∀ g ∈ first, items g ≠ [])
    (hfree : Free items first free) (hk : k ∈ free) (hg : items g ≠ []) (hne : g ≠ k) :
    ∃ order, Free items first order ∧ ∃ a h b, first ++ order = a ++ h :: k :: b := by
  have hperm : ∀ order : List κ, order.Perm free → Free items first order := fun order horder =>
    ⟨horder.nodup_iff.2 hfree.1, fun g => horder.mem_iff.trans (hfree.2 g)⟩
  rcases List.eq_nil_or_concat first with rfl | ⟨a, h, rfl⟩
  · have hgfree : g ∈ free := (hfree.2 g).2 ⟨hg, List.not_mem_nil⟩
    have hgk : g ∈ free.erase k := (List.mem_erase_of_ne hne).2 hgfree
    refine ⟨g :: k :: (free.erase k).erase g, hperm _ ?_, [], g, _, rfl⟩
    have hswap : (g :: k :: (free.erase k).erase g).Perm (k :: g :: (free.erase k).erase g) :=
      List.Perm.swap ..
    have hback : (k :: g :: (free.erase k).erase g).Perm (k :: free.erase k) :=
      (List.perm_cons_erase hgk).symm.cons k
    exact (hswap.trans hback).trans (List.perm_cons_erase hk).symm
  · refine ⟨k :: free.erase k, hperm _ (List.perm_cons_erase hk).symm, a, h, free.erase k, ?_⟩
    simp

/-- A group that is alone stays where the reader begins if it has no name. -/
theorem sentFrom_alone (hfirst : first.Nodup) (hpresent : ∀ g ∈ first, items g ≠ [])
    (hfree : Free items first free) (hk : items k ≠ []) (hblank : blank k)
    (halone : ∀ g, items g ≠ [] → g = k) :
    first ++ free = [k] ∧ sentFrom (follow blank dest) now (first ++ free) k = now := by
  have hone : first ++ free = [k] := by
    refine List.perm_singleton.1 ((List.perm_ext_iff_of_nodup (nodup_append_free hfirst hfree)
      (List.nodup_singleton k)).2 fun g => ?_)
    rw [mem_append_free hpresent hfree, List.mem_singleton]
    constructor
    · exact halone g
    · rintro rfl
      exact hk
  rw [hone, sentFrom_self]
  exact ⟨rfl, if_pos hblank⟩

/-- **One order.** -/
theorem readBack_order_iff (hfirst : first.Nodup) (hpresent : ∀ g ∈ first, items g ≠ [])
    (hfree : Free items first free) :
    (∀ name, readBack blank dest place items now (first ++ free) name = items name) ↔
      (∀ g, items g ≠ [] → ∃ g',
        place (sentFrom (follow blank dest) now (first ++ free) g) = some g' ∧
          items g' = items g) ∧
      Set.InjOn (fun g => place (sentFrom (follow blank dest) now (first ++ free) g))
        {g | items g ≠ []} := by
  have hgroups : ∀ g, g ∈ first ++ free ↔ items g ≠ [] :=
    fun g => mem_append_free hpresent hfree
  refine (regroup_all_iff (nodup_append_free hfirst hfree) hgroups).trans (and_congr ?_ ?_)
  · exact forall_congr' fun g => imp_congr_left (hgroups g)
  · exact forall_congr' fun g => ⟨fun h hg g' hg' => h ((hgroups g).2 hg) g' ((hgroups g').2 hg'),
      fun h hg g' hg' => h ((hgroups g).1 hg) ((hgroups g').1 hg')⟩

/-- **What is written in any order is read again** exactly when there is one group, and it belongs
where the reader begins, or every group has a name, the items of the group with the name it is read
under, and that name alone. -/
theorem readBack_iff (hfirst : first.Nodup) (hpresent : ∀ g ∈ first, items g ≠ [])
    (hnamed : ∀ g ∈ first, ¬ blank g) (hfinite : {g | items g ≠ []}.Finite) :
    (∀ free, Free items first free → ∀ name,
        readBack blank dest place items now (first ++ free) name = items name) ↔
      (∃ g, place now = some g ∧ blank g ∧ ∀ g', items g' ≠ [] → g' = g) ∨
        (∀ g, items g ≠ [] → ¬ blank g ∧ ∃ g', place (dest g) = some g' ∧ items g' = items g) ∧
          Set.InjOn (fun g => place (dest g)) {g | items g ≠ []} := by
  obtain ⟨free₀, hfree₀⟩ : ∃ free, Free items first free := by
    refine ⟨hfinite.toFinset.toList.filter (· ∉ first), hfinite.toFinset.nodup_toList.filter _,
      fun g => ?_⟩
    simp
  have hsent : (∀ g, items g ≠ [] → ¬ blank g) → ∀ {free}, Free items first free → ∀ g,
      items g ≠ [] → sentFrom (follow blank dest) now (first ++ free) g = dest g := by
    intro hall free hfree g hg
    refine sentFrom_of_const (fun g' hg' _ => if_neg (hall g' ?_))
      ((mem_append_free hpresent hfree).2 hg)
    exact (mem_append_free hpresent hfree).1 hg'
  have hall_iff : (∀ g, items g ≠ [] → ¬ blank g) → ∀ {free}, Free items first free →
      ((∀ name, readBack blank dest place items now (first ++ free) name = items name) ↔
        (∀ g, items g ≠ [] → ∃ g', place (dest g) = some g' ∧ items g' = items g) ∧
          Set.InjOn (fun g => place (dest g)) {g | items g ≠ []}) := by
    intro hall free hfree
    rw [readBack_order_iff hfirst hpresent hfree]
    refine and_congr (forall₂_congr fun g hg => ?_) (Set.EqOn.injOn_iff fun g hg => ?_)
    · rw [hsent hall hfree g hg]
    · exact congrArg place (hsent hall hfree g hg)
  constructor
  · intro h
    by_cases hall : ∀ g, items g ≠ [] → ¬ blank g
    · obtain ⟨hitems, hinj⟩ := (hall_iff hall hfree₀).1 (h free₀ hfree₀)
      exact .inr ⟨fun g hg => ⟨hall g hg, hitems g hg⟩, hinj⟩
    · push Not at hall
      obtain ⟨k, hk, hblank⟩ := hall
      have hkfree : k ∈ free₀ := (hfree₀.2 k).2 ⟨hk, fun hmem => hnamed k hmem hblank⟩
      by_cases hother : ∃ g, items g ≠ [] ∧ g ≠ k
      · exfalso
        -- in some order the group without a name comes right behind another
        obtain ⟨g, hg, hne⟩ := hother
        obtain ⟨order, horder, a, g', b, heq⟩ :=
          exists_order hfirst hpresent hfree₀ hkfree hg hne
        have hnd := nodup_append_free hfirst horder
        have hinj := ((readBack_order_iff hfirst hpresent horder).1 (h order horder)).2
        have hg' : items g' ≠ [] := by
          rw [← mem_append_free hpresent horder, heq]
          simp
        rw [heq] at hnd hinj
        have hstay : sentFrom (follow blank dest) now (a ++ g' :: k :: b) k = _ :=
          sentFrom_after hnd
        rw [follow, if_pos hblank] at hstay
        have hsame : k = g' := hinj hk hg' (congrArg place hstay)
        subst hsame
        have hrepeat := (List.nodup_append.1 hnd).2.1
        simp at hrepeat
      · push Not at hother
        obtain ⟨-, hstay⟩ : first ++ free₀ = [k] ∧
            sentFrom (follow blank dest) now (first ++ free₀) k = now :=
          sentFrom_alone hfirst hpresent hfree₀ hk hblank hother
        obtain ⟨g, hplace, hitems⟩ :=
          ((readBack_order_iff hfirst hpresent hfree₀).1 (h free₀ hfree₀)).1 k hk
        rw [hstay] at hplace
        obtain rfl : g = k := hother g (hitems ▸ hk)
        exact .inl ⟨g, hplace, hblank, hother⟩
  · rintro (⟨k, hplace, hblank, halone⟩ | ⟨hitems, hinj⟩) free hfree
    · rw [readBack_order_iff hfirst hpresent hfree]
      constructor
      · intro g hg
        obtain rfl := halone g hg
        rw [(sentFrom_alone hfirst hpresent hfree hg hblank halone).2]
        exact ⟨g, hplace, rfl⟩
      · intro g hg g' hg' _
        exact (halone g hg).trans (halone g' hg').symm
    · exact (hall_iff (fun g hg => (hitems g hg).1) hfree).2
        ⟨fun g hg => (hitems g hg).2, hinj⟩

end Orders

end Lib
