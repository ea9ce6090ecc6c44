import PeerClaw.Vector.Store

/-!
# What a store finds when it is opened

A directory is tidy if every file that `load_collections` reads is the snapshot of the collection
it is named after.  A store that is opened on such a directory has exactly these collections.

* `loadCollections_of_tidy` — what is loaded of a tidy directory.
* `reloads_of_settled` — if memory has what the files have, a restart finds what memory has.
-/

namespace PeerClaw

open Lib

/-! ## Paths -/

/-- A name that can be the name of a file. -/
def PlainName (name : String) : Prop := name ≠ "" ∧ '/' ∉ name.toList

section Paths

variable {storage : Path} {name name' : String}

theorem finalPath_plain (h : PlainName name) :
    finalPath storage name = storage ++ [name ++ ".json"] := by
  have hlength : (name ++ ".json").toList.length = name.toList.length + 5 := by simp
  have hpath : ∀ s : String, s.toList.length < 5 → name ++ ".json" ≠ s := by
    rintro s hs rfl
    omega
  refine Path.join_of_plain storage ?_ (hpath "" (by decide)) (hpath "." (by decide))
    (hpath ".." (by decide))
  rw [String.toList_append, List.mem_append]
  rintro (hslash | hslash)
  · exact h.2 hslash
  · exact absurd hslash (by decide)

theorem tmpPath_plain (h : PlainName name) :
    tmpPath storage name = storage ++ ["." ++ name ++ ".json.tmp"] := by
  have hlength : ("." ++ name ++ ".json.tmp").toList.length = name.toList.length + 10 := by
    simp
  have hpath : ∀ s : String, s.toList.length < 5 → "." ++ name ++ ".json.tmp" ≠ s := by
    rintro s hs rfl
    omega
  refine Path.join_of_plain storage ?_ (hpath "" (by decide)) (hpath "." (by decide))
    (hpath ".." (by decide))
  rw [String.toList_append, String.toList_append, List.mem_append, List.mem_append]
  rintro ((hslash | hslash) | hslash)
  · exact absurd hslash (by decide)
  · exact h.2 hslash
  · exact absurd hslash (by decide)

theorem finalPath_inj (h : PlainName name) (h' : PlainName name') :
    finalPath storage name = finalPath storage name' ↔ name = name' := by
  rw [finalPath_plain h, finalPath_plain h', List.append_cancel_left_eq, List.cons.injEq,
    and_iff_left rfl, ← String.toList_inj, String.toList_append, String.toList_append,
    List.append_cancel_right_eq, String.toList_inj]

theorem tmpPath_inj (h : PlainName name) (h' : PlainName name') :
    tmpPath storage name = tmpPath storage name' ↔ name = name' := by
  rw [tmpPath_plain h, tmpPath_plain h', List.append_cancel_left_eq, List.cons.injEq,
    and_iff_left rfl, ← String.toList_inj]
  simp [String.toList_inj]

theorem extension_append (s : String) :
    (storage ++ [s]).getLast?.bind Path.extension = Path.extension s := by
  rw [List.getLast?_concat]
  rfl

theorem extension_finalPath (h : PlainName name) :
    (finalPath storage name).getLast?.bind Path.extension = some "json" := by
  have hne : name.toList ≠ [] := fun hnil => h.1 (String.toList_eq_nil_iff.1 hnil)
  have hname : name ++ ".json" = String.ofList (name.toList ++ '.' :: "json".toList) := by
    rw [← String.toList_inj, String.toList_ofList, String.toList_append]
    rfl
  rw [finalPath_plain h, extension_append, hname, Path.extension_of_suffix (by decide) hne (by decide)]
  rfl

theorem extension_tmpPath (h : PlainName name) :
    (tmpPath storage name).getLast?.bind Path.extension = some "tmp" := by
  have hname : "." ++ name ++ ".json.tmp" =
      String.ofList (("." ++ name ++ ".json").toList ++ '.' :: "tmp".toList) := by
    rw [← String.toList_inj, String.toList_ofList]
    simp
  rw [tmpPath_plain h, extension_append, hname,
    Path.extension_of_suffix (by decide) (by simp) (by decide)]
  rfl

theorem tmpPath_ne_finalPath (h : PlainName name) (h' : PlainName name') :
    tmpPath storage name ≠ finalPath storage name' := by
  intro heq
  have hext : (tmpPath storage name).getLast?.bind Path.extension = some "tmp" :=
    extension_tmpPath h
  rw [heq, extension_finalPath h'] at hext
  exact absurd hext (by decide)

end Paths

/-! ## Collections and snapshots -/

section Loading

variable {V : Vectx}

/-- What is known of `vectx`: a collection keeps its configuration, and its points can be put
into a new collection of the same configuration, which then has these points. -/
structure Vectx.Lawful (V : Vectx) : Prop where
  config_new : ∀ cfg, V.config (V.new cfg) = cfg
  points_new : ∀ cfg, V.getAllPoints (V.new cfg) = []
  config_upsert : ∀ {c p c'}, V.upsert c p = .ok c' → V.config c' = V.config c
  config_delete : ∀ {c id c'}, V.delete c id = .ok c' → V.config c' = V.config c
  batchUpsert_new : ∀ {c ps}, ps.Perm (V.getAllPoints c) →
    ∃ c', V.batchUpsert (V.new (V.config c)) ps = .ok c' ∧ V.config c' = V.config c ∧
      (V.getAllPoints c').Perm (V.getAllPoints c)

/-- Two collections with the same configuration and the same points. -/
structure Vectx.Same (V : Vectx) (c c' : V.Collection) : Prop where
  config : V.config c = V.config c'
  points : (V.getAllPoints c).Perm (V.getAllPoints c')

theorem Vectx.Same.symm {c c' : V.Collection} (h : V.Same c c') : V.Same c' c :=
  ⟨h.config.symm, h.points.symm⟩

theorem Vectx.Same.trans {c c' c'' : V.Collection} (h : V.Same c c') (h' : V.Same c' c'') :
    V.Same c c'' :=
  ⟨h.config.trans h'.config, h.points.trans h'.points⟩

/-- Every point of a collection is read as it was written. -/
def Readable (c : V.Collection) : Prop := ∀ p ∈ V.getAllPoints c, V.reread p = some p

theorem config_snapshotOf (c : V.Collection) :
    (snapshotOf (V.config c).name c).config = V.config c := by
  simp [snapshotOf, CollectionSnapshot.config]

/-- A file is the snapshot of a collection with its name. -/
def FileOf (storage : Path) (path : Path) (snap : CollectionSnapshot V) (c : V.Collection) : Prop :=
  PlainName (V.config c).name ∧ path = finalPath storage (V.config c).name ∧
    snap = snapshotOf (V.config c).name c ∧ Readable c

/-- Every file that is loaded is the snapshot of a collection with its name. -/
def Tidy (storage : Path) (files : Files V) : Prop :=
  ∀ path snap, files.lookup path = some snap → path.dropLast = storage → path ≠ [] →
    path.getLast?.bind Path.extension = some "json" → ∃ c, FileOf storage path snap c

/-- A snapshot is what memory has of a collection. -/
def Keeps (snap : CollectionSnapshot V) (c : V.Collection) : Prop :=
  snap.config = V.config c ∧ snap.points.Perm (V.getAllPoints c)

theorem keeps_snapshotOf_iff {c c' : V.Collection} :
    Keeps (snapshotOf (V.config c).name c) c' ↔ V.Same c c' := by
  unfold Keeps
  rw [config_snapshotOf]
  exact ⟨fun h => ⟨h.1, h.2⟩, fun h => ⟨h.config, h.points⟩⟩

/-! ## Memory -/

namespace Memory

/-- Every collection has the name it is under. -/
def Held (m : Memory V) : Prop :=
  ∀ name arc, m.collections.lookup name = some arc →
    PlainName name ∧ ∃ c, m.heap[arc]? = some c ∧ (V.config c).name = name

theorem held_empty : (empty : Memory V).Held := by
  intro name arc h
  cases h

theorem Held.get?_eq {m : Memory V} (h : m.Held) {name : String} {arc : Arc}
    (hlookup : m.collections.lookup name = some arc) :
    ∃ c, m.get? name = some c ∧ m.heap[arc]? = some c ∧ (V.config c).name = name := by
  obtain ⟨-, c, hc, hname⟩ := h name arc hlookup
  refine ⟨c, ?_, hc, hname⟩
  unfold get?
  rw [hlookup]
  exact hc

theorem Held.lt {m : Memory V} (h : m.Held) {name : String} {arc : Arc}
    (hlookup : m.collections.lookup name = some arc) : arc < m.heap.length := by
  obtain ⟨-, c, hc, -⟩ := h name arc hlookup
  exact (List.getElem?_eq_some_iff.1 hc).1

theorem heap_insert {m : Memory V} {name : String} {c : V.Collection} {arc : Arc}
    (h : arc < m.heap.length) : (m.insert name c).heap[arc]? = m.heap[arc]? :=
  List.getElem?_append_left h

theorem heap_insert_new {m : Memory V} {name : String} {c : V.Collection} :
    (m.insert name c).heap[m.heap.length]? = some c :=
  List.getElem?_concat_length

theorem Held.insert {m : Memory V} (h : m.Held) {name : String} {c : V.Collection}
    (hplain : PlainName name) (hname : (V.config c).name = name) : (m.insert name c).Held := by
  intro n arc hlookup
  have hlookup' : (m.collections.insert name m.heap.length).lookup n = some arc := hlookup
  rw [Finmap.lookup_insert_eq] at hlookup'
  split at hlookup'
  · rename_i heq
    obtain rfl := Option.some.inj hlookup'
    exact ⟨heq ▸ hplain, c, heap_insert_new, hname.trans heq.symm⟩
  · obtain ⟨hn, c', hc', hname'⟩ := h n arc hlookup'
    exact ⟨hn, c', (heap_insert (h.lt hlookup')).trans hc', hname'⟩

theorem Held.get?_insert {m : Memory V} (h : m.Held) (name n : String) (c : V.Collection) :
    (m.insert name c).get? n = if n = name then some c else m.get? n := by
  have hlookup : (m.insert name c).collections.lookup n =
      if n = name then some m.heap.length else m.collections.lookup n :=
    Finmap.lookup_insert_eq ..
  unfold get?
  rw [hlookup]
  split
  · exact heap_insert_new
  · cases hn : m.collections.lookup n with
    | none => rfl
    | some arc => exact heap_insert (h.lt hn)

end Memory

/-! ## Loading -/

variable {storage : Path} {files : Files V}

theorem mem_listing {entries : List Path} (h : IsListing storage files entries) (path : Path) :
    path ∈ entries ↔ path ∈ files ∧ path ≠ [] ∧ path.dropLast = storage := by
  unfold IsListing at h
  rw [← Multiset.mem_coe, h, Finset.mem_val, Finset.mem_filter, Finmap.mem_keys]

theorem mapM_reread {c : V.Collection} (h : Readable c) :
    (V.getAllPoints c).mapM V.reread = some (V.getAllPoints c) := by
  unfold Readable at h
  generalize V.getAllPoints c = points at h
  induction points with
  | nil => rfl
  | cons p ps ih =>
      obtain ⟨hp, hps⟩ := List.forall_mem_cons.1 h
      rw [List.mapM_cons, hp, ih hps]
      rfl

/-- The file of a collection is loaded as a collection with the same points. -/
theorem loadEntry_of_file (hl : V.Lawful) {path : Path} {snap : CollectionSnapshot V}
    {c : V.Collection} (hlookup : files.lookup path = some snap) (hfile : FileOf storage path snap c)
    (m : Memory V) :
    ∃ c', loadEntry files m path = .ok (m.insert (V.config c).name c') ∧ V.Same c' c := by
  obtain ⟨hplain, hpath, hsnap, hread⟩ := hfile
  have hext : path.getLast?.bind Path.extension = some "json" := by
    rw [hpath]
    exact extension_finalPath hplain
  have hpoints : snap.points.mapM V.reread = some (V.getAllPoints c) := by
    rw [hsnap]
    exact mapM_reread hread
  have hconfig : snap.config = V.config c := by rw [hsnap, config_snapshotOf]
  have hname : snap.name = (V.config c).name := by rw [hsnap]; rfl
  unfold loadEntry
  rw [if_neg (not_not.2 hext), hlookup]
  dsimp only
  rw [hpoints]
  dsimp only
  rw [hconfig, hname]
  split
  · rename_i hempty
    refine ⟨_, rfl, hl.config_new _, ?_⟩
    rw [hl.points_new, List.isEmpty_iff.1 hempty]
  · obtain ⟨c', hbatch, hc', hperm⟩ := hl.batchUpsert_new (List.Perm.refl (V.getAllPoints c))
    rw [hbatch]
    exact ⟨c', rfl, hc', hperm⟩

/-- What has been loaded after some entries: the collections of their files, and what there was
before. -/
theorem loadEntries_of_tidy (hl : V.Lawful) (htidy : Tidy storage files) {entries : List Path}
    (hentries : ∀ path ∈ entries, path ∈ files ∧ path ≠ [] ∧ path.dropLast = storage) :
    ∀ {m : Memory V}, m.Held → ∃ m', entries.foldlM (loadEntry files) m = .ok m' ∧ m'.Held ∧
      ∀ name, PlainName name → if finalPath storage name ∈ entries then
        ∃ snap c, files.lookup (finalPath storage name) = some snap ∧ m'.get? name = some c ∧
          Keeps snap c
        else m'.get? name = m.get? name := by
  induction entries with
  | nil =>
      intro m hm
      exact ⟨m, rfl, hm, fun name _ => rfl⟩
  | cons path entries ih =>
      intro m hm
      obtain ⟨⟨hmem, hne, hdir⟩, hrest⟩ := List.forall_mem_cons.1 hentries
      obtain ⟨snap, hlookup⟩ := Finmap.mem_iff.1 hmem
      by_cases hext : path.getLast?.bind Path.extension = some "json"
      · obtain ⟨c, hfile⟩ := htidy path snap hlookup hdir hne hext
        obtain ⟨c', hentry, hsame⟩ := loadEntry_of_file hl hlookup hfile m
        obtain ⟨hplain, hpath, hsnap, -⟩ := hfile
        have hname : (V.config c').name = (V.config c).name := by rw [hsame.config]
        obtain ⟨m', hfold, hheld, hget⟩ := ih hrest (hm.insert hplain hname)
        refine ⟨m', ?_, hheld, fun name hn => ?_⟩
        · rw [List.foldlM_cons, hentry]
          exact hfold
        · have hname' := hget name hn
          rw [hm.get?_insert] at hname'
          by_cases hin : finalPath storage name ∈ entries
          · rw [if_pos (List.mem_cons_of_mem _ hin)]
            rwa [if_pos hin] at hname'
          · rw [if_neg hin] at hname'
            by_cases heq : name = (V.config c).name
            · rw [if_pos heq] at hname'
              have hthis : finalPath storage name = path := by rw [heq, hpath]
              rw [hthis, if_pos List.mem_cons_self]
              refine ⟨snap, c', hlookup, hname', ?_⟩
              rw [hsnap, keeps_snapshotOf_iff]
              exact hsame.symm
            · rw [if_neg heq] at hname'
              have hnot : finalPath storage name ≠ path := by
                rw [hpath]
                exact fun h => heq ((finalPath_inj hn hplain).1 h)
              rwa [if_neg (fun h => (List.mem_cons.1 h).elim hnot hin)]
      · have hentry : loadEntry files m path = .ok m := by
          unfold loadEntry
          rw [if_pos hext]
        obtain ⟨m', hfold, hheld, hget⟩ := ih hrest hm
        refine ⟨m', ?_, hheld, fun name hn => ?_⟩
        · rw [List.foldlM_cons, hentry]
          exact hfold
        · have hnot : finalPath storage name ≠ path := by
            rintro rfl
            exact hext (extension_finalPath hn)
          have hiff : finalPath storage name ∈ path :: entries ↔ finalPath storage name ∈ entries := by
            rw [List.mem_cons, or_iff_right hnot]
          rw [if_congr hiff rfl rfl]
          exact hget name hn

/-- What memory has of a collection is in its file. -/
def Settled (storage : Path) (files : Files V) (m : Memory V) (name : String) : Prop :=
  Option.Rel Keeps (files.lookup (finalPath storage name)) (m.get? name)

/-- **A tidy directory is loaded**, and memory then has what its files have. -/
theorem loadCollections_of_tidy (hl : V.Lawful) (htidy : Tidy storage files) {entries : List Path}
    (hlisting : IsListing storage files entries) :
    ∃ m, loadCollections files entries = .ok m ∧ m.Held ∧
      ∀ name, PlainName name → Settled storage files m name := by
  obtain ⟨m, hload, hheld, hget⟩ := loadEntries_of_tidy hl htidy
    (fun path hpath => (mem_listing hlisting path).1 hpath) Memory.held_empty
  refine ⟨m, hload, hheld, fun name hplain => ?_⟩
  have hname := hget name hplain
  unfold Settled
  split at hname
  · obtain ⟨snap, c, hlookup, hc, hkeeps⟩ := hname
    rw [hlookup, hc]
    exact .some hkeeps
  · rename_i hnot
    have hnone : files.lookup (finalPath storage name) = none := by
      cases hlookup : files.lookup (finalPath storage name) with
      | none => rfl
      | some snap =>
          refine absurd ((mem_listing hlisting _).2 ⟨Finmap.mem_of_lookup_eq_some hlookup, ?_, ?_⟩) hnot
          · rw [finalPath_plain hplain]
            exact List.append_ne_nil_of_right_ne_nil _ (List.cons_ne_nil _ _)
          · rw [finalPath_plain hplain, List.dropLast_concat]
    rw [hname, hnone]
    exact .none

theorem same_of_keeps {snap : Option (CollectionSnapshot V)} {c c' : Option V.Collection}
    (h : Option.Rel Keeps snap c) (h' : Option.Rel Keeps snap c') : Option.Rel V.Same c c' := by
  cases h with
  | none =>
      cases h'
      exact .none
  | some hkeeps =>
      cases h' with
      | some hkeeps' =>
          exact .some ⟨hkeeps.1.symm.trans hkeeps'.1, hkeeps.2.symm.trans hkeeps'.2⟩

/-- A restart finds the collections and points that memory has. -/
def Reloads (storage : Path) (files : Files V) (m : Memory V) : Prop :=
  ∀ entries, IsListing storage files entries →
    ∃ m', loadCollections files entries = .ok m' ∧
      ∀ name, Option.Rel V.Same (m'.get? name) (m.get? name)

/-- **If memory has what the files have**, a restart finds what memory has. -/
theorem reloads_of_settled (hl : V.Lawful) (htidy : Tidy storage files) {m : Memory V} (hheld : m.Held)
    (hsettled : ∀ name, PlainName name → Settled storage files m name) :
    Reloads storage files m := by
  intro entries hlisting
  obtain ⟨m', hload, hheld', hsettled'⟩ := loadCollections_of_tidy hl htidy hlisting
  refine ⟨m', hload, fun name => ?_⟩
  have hnone : ∀ {m : Memory V}, m.Held → ¬ PlainName name → m.get? name = none := by
    intro m hm hplain
    cases hlookup : m.collections.lookup name with
    | none =>
        unfold Memory.get?
        rw [hlookup]
        rfl
    | some arc => exact absurd (hm name arc hlookup).1 hplain
  by_cases hplain : PlainName name
  · exact same_of_keeps (hsettled' name hplain) (hsettled name hplain)
  · rw [hnone hheld hplain, hnone hheld' hplain]
    exact .none

end Loading

end PeerClaw
