import PeerClaw.Vector.Loading

/-!
# What a section of a call on the store does

`Section` lists what the next section of a call can do, once it is known what the call has found
so far (`TaskOk`).  Everything that a call on one collection leaves alone is read off it.

* `section_advance` — a section does one of the listed things.
* `section_owed` — a file that memory is ahead of is owed to some call in progress.
-/

namespace PeerClaw
namespace VectorStore

open Lib

variable {V : Vectx}

/-! ## Calls in progress -/

/-- The `Arc` points at a collection with this name. -/
def Holds (s : VectorStore V) (name : String) (arc : Arc) : Prop :=
  ∃ c, s.memory.heap[arc]? = some c ∧ (V.config c).name = name

/-- The snapshot of a collection that can be read again. -/
def Taken (name : String) (snap : CollectionSnapshot V) : Prop :=
  PlainName name ∧ ∃ c, (V.config c).name = name ∧ snap = snapshotOf name c ∧ Readable c

/-- What a call in progress has found. -/
def TaskOk (storage : Path) (s : VectorStore V) (t : StoreTask V) : Prop :=
  match t.stage with
  | .create _ => PlainName t.name
  | .get _ | .remove => True
  | .change _ arc => PlainName t.name ∧ s.Holds t.name arc
  | .fetch changed => PlainName t.name ∧ changed < s.memory.heap.length
  | .snapshot changed arc =>
      PlainName t.name ∧ changed < s.memory.heap.length ∧ s.Holds t.name arc
  | .write changed _ snap => changed < s.memory.heap.length ∧ Taken t.name snap
  | .rename changed _ snap =>
      changed < s.memory.heap.length ∧ Taken t.name snap ∧
        s.files.lookup (tmpPath storage t.name) = some snap
  | .removeFile => PlainName t.name

/-- The snapshot is what memory has under the name. -/
def Current (s : VectorStore V) (name : String) (arc : Arc) (snap : CollectionSnapshot V) : Prop :=
  s.memory.collections.lookup name = some arc ∧
    ∃ c, s.memory.heap[arc]? = some c ∧ snap = snapshotOf name c

/-- The call will put the file of a collection right, if nothing else happens to it. -/
def Owing (name : String) (s : VectorStore V) (t : StoreTask V) : Prop :=
  t.name = name ∧
    match t.stage with
    | .fetch _ => ∃ arc, s.memory.collections.lookup name = some arc
    | .snapshot _ arc => s.memory.collections.lookup name = some arc
    | .write _ arc snap | .rename _ arc snap => s.Current name arc snap
    | .removeFile => s.memory.collections.lookup name = none
    | _ => False

/-! ## Sections -/

/-- What a section does to the store, and what is left of the call. -/
inductive Section (storage : Path) (s : VectorStore V) :
    StoreTask V → VectorStore V → Option (StoreTask V) → Prop
  /-- The call returns before it has changed anything. -/
  | refused {name stage result} (hfree : ∀ n, ¬ Owing n s ⟨name, stage⟩) :
      Section storage s ⟨name, stage⟩ (s.ret name none result) none
  | made {name dim c} (hname : (V.config c).name = name) :
      Section storage s ⟨name, .create dim⟩ { s with memory := s.memory.insert name c }
        (some ⟨name, .fetch s.memory.heap.length⟩)
  | found {name change arc} (hplain : PlainName name) (hholds : s.Holds name arc) :
      Section storage s ⟨name, .get change⟩ s (some ⟨name, .change change arc⟩)
  | changed {name change arc c c'} (hc : s.memory.heap[arc]? = some c)
      (hname : (V.config c).name = name) (hconfig : V.config c' = V.config c) :
      Section storage s ⟨name, .change change arc⟩
        { s with memory := { s.memory with heap := s.memory.heap.set arc c' } }
        (some ⟨name, .fetch arc⟩)
  /-- The collection has been deleted before it was saved. -/
  | gone {name changed e} (hnone : s.memory.collections.lookup name = none) :
      Section storage s ⟨name, .fetch changed⟩ (s.ret name (some changed) (.error e)) none
  | fetched {name changed arc} (hlookup : s.memory.collections.lookup name = some arc) :
      Section storage s ⟨name, .fetch changed⟩ s (some ⟨name, .snapshot changed arc⟩)
  | taken {name changed arc c} (hc : s.memory.heap[arc]? = some c) :
      Section storage s ⟨name, .snapshot changed arc⟩ s
        (some ⟨name, .write changed arc (snapshotOf name c)⟩)
  | written {name changed arc snap} :
      Section storage s ⟨name, .write changed arc snap⟩
        { s with files := s.files.insert (tmpPath storage name) snap }
        (some ⟨name, .rename changed arc snap⟩)
  | renamed {name changed arc snap} :
      Section storage s ⟨name, .rename changed arc snap⟩
        ({ s with files := (s.files.erase (tmpPath storage name)).insert (finalPath storage name) snap
          }.ret name (some changed) (.ok true)) none
  | removed {name} (hplain : PlainName name) :
      Section storage s ⟨name, .remove⟩
        { s with memory := { s.memory with collections := s.memory.collections.erase name } }
        (some ⟨name, .removeFile⟩)
  | unlinked {name} :
      Section storage s ⟨name, .removeFile⟩
        ({ s with files := s.files.erase (finalPath storage name) }.ret name none (.ok true)) none

variable {cfg : VectorStoreConfig} {storage : Path} {s s' : VectorStore V} {t : StoreTask V}
  {rest : Option (StoreTask V)}

theorem config_apply (hl : V.Lawful) {change : Change} {c c' : V.Collection}
    (h : change.apply c = .ok c') : V.config c' = V.config c := by
  cases change with
  | upsert id vector payload => exact hl.config_upsert h
  | delete id => exact hl.config_delete h

/-- **A section does one of the listed things.** -/
theorem section_advance (hl : V.Lawful) (hheld : s.memory.Held) (htask : TaskOk storage s t) :
    Section storage s t (advance cfg storage s t).1 (advance cfg storage s t).2 := by
  obtain ⟨name, stage⟩ := t
  unfold TaskOk at htask
  unfold advance
  cases stage with
  | create dim =>
      dsimp only
      split
      · exact .refused fun n h => h.2
      · refine .made ?_
        rw [hl.config_new]
        rfl
  | get change =>
      dsimp only
      cases hlookup : s.memory.collections.lookup name with
      | none => exact .refused fun n h => h.2
      | some arc =>
          obtain ⟨hplain, c, hc, hname⟩ := hheld name arc hlookup
          dsimp only
          rw [hc]
          dsimp only
          cases change.check c with
          | error e => exact .refused fun n h => h.2
          | ok u => exact .found hplain ⟨c, hc, hname⟩
  | change change arc =>
      obtain ⟨-, c, hc, hname⟩ := htask
      dsimp only at hc ⊢
      rw [hc]
      dsimp only
      cases happly : change.apply c with
      | error e => exact .refused fun n h => h.2
      | ok c' => exact .changed hc hname (config_apply hl happly)
  | fetch changed =>
      dsimp only
      cases hlookup : s.memory.collections.lookup name with
      | none => exact .gone hlookup
      | some arc => exact .fetched hlookup
  | snapshot changed arc =>
      obtain ⟨-, -, c, hc, -⟩ := htask
      dsimp only at hc ⊢
      rw [hc]
      exact .taken hc
  | write changed arc snap => exact .written
  | rename changed arc snap =>
      obtain ⟨-, -, hfile⟩ := htask
      dsimp only at hfile ⊢
      rw [hfile]
      exact .renamed
  | remove =>
      dsimp only
      split
      · rename_i hmem
        obtain ⟨arc, hlookup⟩ := Finmap.mem_iff.1 hmem
        exact .removed (hheld name arc hlookup).1
      · exact .refused fun n h => h.2
  | removeFile => exact .unlinked

/-! ## What a section leaves alone -/

theorem Section.heap (h : Section storage s t s' rest) {arc : Arc} {c : V.Collection}
    (hc : s.memory.heap[arc]? = some c) :
    ∃ c', s'.memory.heap[arc]? = some c' ∧ V.config c' = V.config c := by
  cases h with
  | made hname =>
      exact ⟨c, (Memory.heap_insert (List.getElem?_eq_some_iff.1 hc).1).trans hc, rfl⟩
  | @changed name change arc' c₀ c' hc₀ hname hconfig =>
      by_cases harc : arc' = arc
      · subst harc
        obtain rfl := Option.some.inj (hc₀.symm.trans hc)
        exact ⟨c', List.getElem?_set_self (List.getElem?_eq_some_iff.1 hc).1, hconfig⟩
      · exact ⟨c, (List.getElem?_set_ne harc).trans hc, rfl⟩
  | _ => exact ⟨c, hc, rfl⟩

theorem Section.heap_other (h : Section storage s t s' rest) {arc : Arc} {c : V.Collection}
    (hc : s.memory.heap[arc]? = some c) (hname : (V.config c).name ≠ t.name) :
    s'.memory.heap[arc]? = some c := by
  cases h with
  | made hname => exact (Memory.heap_insert (List.getElem?_eq_some_iff.1 hc).1).trans hc
  | @changed name change arc' c₀ c' hc₀ hname₀ hconfig =>
      by_cases harc : arc' = arc
      · subst harc
        obtain rfl := Option.some.inj (hc₀.symm.trans hc)
        exact absurd hname₀ hname
      · exact (List.getElem?_set_ne harc).trans hc
  | _ => exact hc

theorem Section.length_le (h : Section storage s t s' rest) :
    s.memory.heap.length ≤ s'.memory.heap.length := by
  cases h with
  | made hname => exact (List.length_append ..).symm ▸ Nat.le_add_right ..
  | changed hc hname hconfig => exact (List.length_set ..).symm ▸ le_refl _
  | _ => exact le_refl _

theorem Section.lookup_other (h : Section storage s t s' rest) {n : String} (hn : n ≠ t.name) :
    s'.memory.collections.lookup n = s.memory.collections.lookup n := by
  cases h with
  | made hname =>
      refine (Finmap.lookup_insert_eq ..).trans ?_
      rw [if_neg hn]
  | removed hplain =>
      refine (Finmap.lookup_erase_eq ..).trans ?_
      rw [if_neg hn]
  | _ => rfl

theorem Section.lookup (h : Section storage s t s' rest) {n : String} {arc : Arc}
    (hlookup : s'.memory.collections.lookup n = some arc) :
    s.memory.collections.lookup n = some arc ∨ arc = s.memory.heap.length := by
  cases h with
  | made hname =>
      have hinsert := (Finmap.lookup_insert_eq ..).symm.trans hlookup
      split at hinsert
      · exact .inr (Option.some.inj hinsert).symm
      · exact .inl hinsert
  | removed hplain =>
      have herase := (Finmap.lookup_erase_eq ..).symm.trans hlookup
      split at herase
      · cases herase
      · exact .inl herase
  | _ => exact .inl hlookup

theorem Section.files_other (h : Section storage s t s' rest) (htask : TaskOk storage s t)
    {n : String} (hplain : PlainName n) (hn : n ≠ t.name) :
    s'.files.lookup (finalPath storage n) = s.files.lookup (finalPath storage n) ∧
      s'.files.lookup (tmpPath storage n) = s.files.lookup (tmpPath storage n) := by
  cases h with
  | written =>
      have hname := htask.2.1
      refine ⟨(Finmap.lookup_insert_eq ..).trans ?_, (Finmap.lookup_insert_eq ..).trans ?_⟩
      · rw [if_neg (tmpPath_ne_finalPath hname hplain).symm]
      · rw [if_neg fun heq => hn ((tmpPath_inj hplain hname).1 heq)]
  | renamed =>
      have hname := htask.2.1.1
      refine ⟨(Finmap.lookup_insert_eq ..).trans ?_, (Finmap.lookup_insert_eq ..).trans ?_⟩
      · rw [if_neg fun heq => hn ((finalPath_inj hplain hname).1 heq), Finmap.lookup_erase_eq,
          if_neg (tmpPath_ne_finalPath hname hplain).symm]
      · rw [if_neg (tmpPath_ne_finalPath hplain hname), Finmap.lookup_erase_eq,
          if_neg fun heq => hn ((tmpPath_inj hplain hname).1 heq)]
  | unlinked =>
      have hname : PlainName _ := htask
      refine ⟨(Finmap.lookup_erase_eq ..).trans ?_, (Finmap.lookup_erase_eq ..).trans ?_⟩
      · rw [if_neg fun heq => hn ((finalPath_inj hplain hname).1 heq)]
      · rw [if_neg (tmpPath_ne_finalPath hplain hname)]
  | _ => exact ⟨rfl, rfl⟩

/-! ## What is owed -/

theorem Holds.kept (h : Section storage s t s' rest) {name : String} {arc : Arc}
    (hholds : s.Holds name arc) : s'.Holds name arc := by
  obtain ⟨c, hc, hname⟩ := hholds
  obtain ⟨c', hc', hconfig⟩ := h.heap hc
  exact ⟨c', hc', by rw [hconfig, hname]⟩

theorem Section.get?_other (h : Section storage s t s' rest) (hheld : s.memory.Held) {n : String}
    (hn : n ≠ t.name) : s'.memory.get? n = s.memory.get? n := by
  unfold Memory.get?
  rw [h.lookup_other hn]
  cases hlookup : s.memory.collections.lookup n with
  | none => rfl
  | some arc =>
      obtain ⟨-, c, hc, hname⟩ := hheld n arc hlookup
      exact (h.heap_other hc (by rwa [hname])).trans hc.symm

theorem Current.other (h : Section storage s t s' rest) (hheld : s.memory.Held) {n : String}
    (hn : n ≠ t.name) {arc : Arc} {snap : CollectionSnapshot V} (hcurrent : s.Current n arc snap) :
    s'.Current n arc snap := by
  obtain ⟨hlookup, c, hc, hsnap⟩ := hcurrent
  obtain ⟨-, c₀, hc₀, hname⟩ := hheld n arc hlookup
  obtain rfl := Option.some.inj (hc₀.symm.trans hc)
  exact ⟨(h.lookup_other hn).trans hlookup, c₀, h.heap_other hc (by rwa [hname]), hsnap⟩

theorem Owing.other (h : Section storage s t s' rest) (hheld : s.memory.Held) {n : String}
    (hn : n ≠ t.name) {t' : StoreTask V} (howing : Owing n s t') : Owing n s' t' := by
  obtain ⟨name, stage⟩ := t'
  obtain ⟨rfl, howing⟩ := howing
  refine ⟨rfl, ?_⟩
  have hlookup := h.lookup_other hn
  cases stage with
  | fetch changed => exact howing.imp fun arc harc => hlookup.trans harc
  | snapshot changed arc => exact hlookup.trans howing
  | write changed arc snap => exact Current.other h hheld hn howing
  | rename changed arc snap => exact Current.other h hheld hn howing
  | removeFile => exact hlookup.trans howing
  | create dim => exact howing
  | get change => exact howing
  | change change arc => exact howing
  | remove => exact howing

theorem Owing.of_memory {n : String} {t' : StoreTask V} (hmemory : s'.memory = s.memory)
    (howing : Owing n s t') : Owing n s' t' := by
  unfold Owing Current at howing ⊢
  rwa [hmemory]

/-- If there is no collection under a name, only a removal is owed to it, whatever becomes of
the collections that were there. -/
theorem Owing.of_none {n : String} {t' : StoreTask V}
    (hnone : s.memory.collections.lookup n = none)
    (hnone' : s'.memory.collections.lookup n = none) (howing : Owing n s t') : Owing n s' t' := by
  obtain ⟨name, stage⟩ := t'
  obtain ⟨rfl, howing⟩ := howing
  refine ⟨rfl, ?_⟩
  have habsurd : ∀ {arc : Arc}, s.memory.collections.lookup name ≠ some arc := by
    intro arc harc
    rw [hnone] at harc
    cases harc
  cases stage with
  | fetch changed => exact absurd howing.choose_spec habsurd
  | snapshot changed arc => exact absurd howing habsurd
  | write changed arc snap => exact absurd howing.1 habsurd
  | rename changed arc snap => exact absurd howing.1 habsurd
  | removeFile => exact hnone'
  | create dim => exact howing
  | get change => exact howing
  | change change arc => exact howing
  | remove => exact howing

end VectorStore
end PeerClaw
