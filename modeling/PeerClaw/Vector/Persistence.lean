import PeerClaw.Vector.Sections

/-!
# What a restart finds of the collections

A call changes a collection and saves it later, and other calls may do the same in between.
What memory has of a collection is in its file, or some call in progress owes it.  That holds as
long as every section does no harm (`Harmless`): an older snapshot is not renamed over a newer
one, the file of a live collection is not removed, and two calls do not share a temporary file.

* `files_faithful` — in every run of harmless sections, a restart finds what memory has whenever
  no call is in progress, and a call that failed has left nothing behind.
* `overtaken_upsert_lost` — two calls that have both returned `Ok`, and one point on disk.
-/

namespace PeerClaw
namespace VectorStore

open Lib Lib.Machine

variable {V : Vectx} {cfg : VectorStoreConfig} {storage : Path}

/-! ## The condition -/

/-- Another call will put the file of a collection right. -/
def Elsewhere (p : Running V) (k : ℕ) (name : String) : Prop :=
  ∃ j t, j ≠ k ∧ p.taskAt j = some t ∧ Owing name p.shared t

/-- The call is between its write and its rename. -/
def Renaming (name : String) (t : StoreTask V) : Prop :=
  t.name = name ∧
    match t.stage with
    | .rename .. => True
    | _ => False

/-- A section that does no harm: what is saved can be read again, one call at a time has the
temporary file of a collection, and what a rename or a removal leaves is what memory has, or
another call is still to put it right. -/
def Harmless (p : Running V) (k : ℕ) (t : StoreTask V) : Prop :=
  match t.stage with
  | .snapshot _ arc => ∀ c, p.shared.memory.heap[arc]? = some c → Readable c
  | .write .. => ∀ j t', p.taskAt j = some t' → ¬ Renaming t.name t'
  | .rename _ arc snap => p.shared.Current t.name arc snap ∨ Elsewhere p k t.name
  | .removeFile =>
      p.shared.memory.collections.lookup t.name = none ∨ Elsewhere p k t.name
  | _ => True

/-- Collections are given names that are names of files, and every section is harmless. -/
def Safe (p : Running V) : Event → Prop
  | .call c =>
      match c with
      | .createCollection name | .createCollectionWithDim name _ => PlainName name
      | _ => True
  | .resume k => ∀ t, p.taskAt k = some t → Harmless p k t
  | .reopen _ => True

/-! ## The invariant -/

/-- A call that returned an error has left nothing in memory. -/
def Clean (s : VectorStore V) : Prop :=
  ∀ r ∈ s.returned, ∀ e, r.result = .error e → ∀ arc, r.changed = some arc →
    s.memory.collections.lookup r.name ≠ some arc

/-- The collections that failed calls have changed are no new ones. -/
def Known (s : VectorStore V) : Prop :=
  ∀ r ∈ s.returned, ∀ e, r.result = .error e → ∀ arc, r.changed = some arc →
    arc < s.memory.heap.length

structure Inv (storage : Path) (p : Running V) : Prop where
  held : p.shared.memory.Held
  tidy : Tidy storage p.shared.files
  clean : Clean p.shared
  known : Known p.shared
  tasks : ∀ k t, p.taskAt k = some t → TaskOk storage p.shared t
  /-- One call at a time has the temporary file of a collection. -/
  alone : ∀ name j k t t', p.taskAt j = some t → p.taskAt k = some t' → Renaming name t →
    Renaming name t' → j = k
  owed : ∀ name, PlainName name →
    p.OwedIn (fun s => Settled storage s.files s.memory name) (Owing name)

section Sections

variable {s s' : VectorStore V} {t : StoreTask V} {rest : Option (StoreTask V)}

theorem held_section (h : Section storage s t s' rest) (htask : TaskOk storage s t)
    (hheld : s.memory.Held) : s'.memory.Held := by
  have hheap : ∀ {arc : Arc} {c : V.Collection}, s.memory.heap[arc]? = some c →
      ∃ c', s'.memory.heap[arc]? = some c' ∧ V.config c' = V.config c := h.heap
  cases h with
  | made hname => exact hheld.insert htask hname
  | @changed name change arc c c' hc hname hconfig =>
      intro n arc' hlookup
      obtain ⟨hplain, c₀, hc₀, hname₀⟩ := hheld n arc' hlookup
      obtain ⟨c₁, hc₁, hconfig₁⟩ := hheap hc₀
      exact ⟨hplain, c₁, hc₁, by rw [hconfig₁, hname₀]⟩
  | removed hplain =>
      intro n arc hlookup
      have herase := (Finmap.lookup_erase_eq ..).symm.trans hlookup
      split at herase
      · cases herase
      · exact hheld n arc herase
  | _ => exact hheld

theorem tidy_section (h : Section storage s t s' rest) (htask : TaskOk storage s t)
    (htidy : Tidy storage s.files) : Tidy storage s'.files := by
  have herase : ∀ path, Tidy storage (s.files.erase path) := by
    intro path path' snap hlookup
    rw [Finmap.lookup_erase_eq] at hlookup
    split at hlookup
    · cases hlookup
    · exact htidy path' snap hlookup
  cases h with
  | @written name changed arc snap =>
      intro path snap' hlookup hdir hne hext
      have hinsert := (Finmap.lookup_insert_eq ..).symm.trans hlookup
      split at hinsert
      · rename_i hpath
        rw [hpath, extension_tmpPath htask.2.1] at hext
        exact absurd hext (by decide)
      · exact htidy path snap' hinsert hdir hne hext
  | @renamed name changed arc snap =>
      intro path snap' hlookup hdir hne hext
      have hinsert := (Finmap.lookup_insert_eq ..).symm.trans hlookup
      split at hinsert
      · rename_i hpath
        obtain ⟨hplain, c, rfl, hsnap, hread⟩ := htask.2.1
        obtain rfl := Option.some.inj hinsert
        exact ⟨c, hplain, hpath, hsnap, hread⟩
      · exact herase _ path snap' hinsert hdir hne hext
  | unlinked => exact herase _
  | _ => exact htidy

/-- What a call returns that fails after it has changed a collection. -/
theorem returned_section (h : Section storage s t s' rest) :
    ∀ r ∈ s'.returned, r ∈ s.returned ∨ ∀ e, r.result = .error e → ∀ arc, r.changed = some arc →
      t.stage = .fetch arc ∧ r.name = t.name ∧ s'.memory.collections.lookup t.name = none := by
  have hret : ∀ {s : VectorStore V} {name changed result},
      ∀ r ∈ (s.ret name changed result).returned, r ∈ s.returned ∨ r = ⟨name, changed, result⟩ := by
    intro s name changed result r hr
    rcases List.mem_append.1 hr with hr | hr
    · exact .inl hr
    · exact .inr (List.mem_singleton.1 hr)
  intro r hr
  cases h with
  | refused hfree =>
      refine (hret r hr).imp id ?_
      rintro rfl e he arc ⟨⟩
  | gone hnone =>
      refine (hret r hr).imp id ?_
      rintro rfl e he arc ⟨⟩
      exact ⟨rfl, rfl, hnone⟩
  | renamed =>
      refine (hret r hr).imp id ?_
      rintro rfl e ⟨⟩
  | unlinked =>
      refine (hret r hr).imp id ?_
      rintro rfl e ⟨⟩
  | _ => exact .inl hr

theorem known_section (h : Section storage s t s' rest) (htask : TaskOk storage s t)
    (hknown : Known s) : Known s' := by
  intro r hr e he arc harc
  refine lt_of_lt_of_le ?_ h.length_le
  rcases returned_section h r hr with hr | hr
  · exact hknown r hr e he arc harc
  · obtain ⟨hstage, -, -⟩ := hr e he arc harc
    unfold TaskOk at htask
    rw [hstage] at htask
    exact htask.2

theorem clean_section (h : Section storage s t s' rest) (hknown : Known s) (hclean : Clean s) :
    Clean s' := by
  intro r hr e he arc harc hlookup
  rcases returned_section h r hr with hr | hr
  · rcases h.lookup hlookup with hbefore | hnew
    · exact hclean r hr e he arc harc hbefore
    · exact absurd hnew (Nat.ne_of_lt (hknown r hr e he arc harc))
  · obtain ⟨-, hname, hnone⟩ := hr e he arc harc
    rw [hname, hnone] at hlookup
    cases hlookup

theorem taskOk_rest (h : Section storage s t s' rest) (htask : TaskOk storage s t)
    (hheld : s.memory.Held) {t' : StoreTask V} (hrest : rest = some t')
    (hread : ∀ changed arc, t.stage = .snapshot changed arc →
      ∀ c, s.memory.heap[arc]? = some c → Readable c) : TaskOk storage s' t' := by
  cases h with
  | made hname =>
      obtain rfl := Option.some.inj hrest
      exact ⟨htask, by simp [Memory.insert]⟩
  | found hplain hholds =>
      obtain rfl := Option.some.inj hrest
      exact ⟨hplain, hholds⟩
  | changed hc hname hconfig =>
      obtain rfl := Option.some.inj hrest
      refine ⟨htask.1, ?_⟩
      simpa using (List.getElem?_eq_some_iff.1 hc).1
  | fetched hlookup =>
      obtain rfl := Option.some.inj hrest
      exact ⟨htask.1, htask.2, (hheld _ _ hlookup).2⟩
  | taken hc =>
      obtain rfl := Option.some.inj hrest
      obtain ⟨hplain, hchanged, c', hc', hname⟩ := htask
      obtain rfl := Option.some.inj (hc'.symm.trans hc)
      exact ⟨hchanged, hplain, c', hname, rfl, hread _ _ rfl c' hc⟩
  | written =>
      obtain rfl := Option.some.inj hrest
      refine ⟨htask.1, htask.2, ?_⟩
      exact (Finmap.lookup_insert_eq ..).trans (if_pos rfl)
  | removed hplain =>
      obtain rfl := Option.some.inj hrest
      exact hplain
  | _ => cases hrest

/-- What another call has found stays, unless the two share a temporary file. -/
theorem taskOk_other (h : Section storage s t s' rest) (htask : TaskOk storage s t)
    {t' : StoreTask V} (htask' : TaskOk storage s t')
    (hshare : Renaming t.name t' → (∀ a b c, t.stage ≠ .write a b c) ∧
      ∀ a b c, t.stage ≠ .rename a b c) : TaskOk storage s' t' := by
  obtain ⟨name, stage⟩ := t'
  have hlt : ∀ {arc : Arc}, arc < s.memory.heap.length → arc < s'.memory.heap.length :=
    fun harc => lt_of_lt_of_le harc h.length_le
  cases stage with
  | change change arc => exact ⟨htask'.1, htask'.2.kept h⟩
  | fetch changed => exact ⟨htask'.1, hlt htask'.2⟩
  | snapshot changed arc => exact ⟨htask'.1, hlt htask'.2.1, htask'.2.2.kept h⟩
  | write changed arc snap => exact ⟨hlt htask'.1, htask'.2⟩
  | rename changed arc snap =>
      obtain ⟨hchanged, htaken, hfile⟩ := htask'
      refine ⟨hlt hchanged, htaken, ?_⟩
      by_cases hname : name = t.name
      · obtain ⟨hwrite, hrename⟩ := hshare ⟨hname, trivial⟩
        cases h with
        | written => exact absurd rfl (hwrite _ _ _)
        | renamed => exact absurd rfl (hrename _ _ _)
        | unlinked =>
            refine (Finmap.lookup_erase_eq ..).trans ?_
            rw [if_neg (tmpPath_ne_finalPath htaken.1 htask), hfile]
        | _ => exact hfile
      · exact (h.files_other htask htaken.1 hname).2.trans hfile
  | create dim => exact htask'
  | get change => exact htask'
  | remove => exact htask'
  | removeFile => exact htask'

theorem renaming_rest (h : Section storage s t s' rest) {name : String} {t' : StoreTask V}
    (hrest : rest = some t') (hrenaming : Renaming name t') :
    t.name = name ∧ ∃ a b c, t.stage = .write a b c := by
  cases h with
  | written =>
      obtain rfl := Option.some.inj hrest
      exact ⟨hrenaming.1, _, _, _, rfl⟩
  | refused hfree => cases hrest
  | gone hnone => cases hrest
  | renamed => cases hrest
  | unlinked => cases hrest
  | _ =>
      obtain rfl := Option.some.inj hrest
      exact absurd hrenaming.2 id

end Sections

theorem settled_of_current {s : VectorStore V} (hheld : s.memory.Held) {files : Files V}
    {name : String} {arc : Arc} {snap : CollectionSnapshot V} (hcurrent : s.Current name arc snap)
    (hfile : files.lookup (finalPath storage name) = some snap) :
    Settled storage files s.memory name := by
  obtain ⟨hlookup, c, hc, hsnap⟩ := hcurrent
  obtain ⟨c₀, hget, hc₀, hname⟩ := hheld.get?_eq hlookup
  obtain rfl := Option.some.inj (hc₀.symm.trans hc)
  unfold Settled
  rw [hfile, hget, hsnap, ← hname]
  exact .some (keeps_snapshotOf_iff.2 ⟨rfl, .refl _⟩)

theorem settled_of_none {s : VectorStore V} {files : Files V} {name : String}
    (hnone : s.memory.collections.lookup name = none)
    (hfile : files.lookup (finalPath storage name) = none) :
    Settled storage files s.memory name := by
  unfold Settled Memory.get?
  rw [hfile, hnone]
  exact .none

section Moves

variable {p : Running V} {k : ℕ} {t : StoreTask V} {s' : VectorStore V}
  {rest : Option (StoreTask V)}

/-- **What a section owes** for its own collection: the file is as memory has it, or what is left
of the call owes it, or another call does, or nothing has changed. -/
theorem owed_same (h : Section storage p.shared t s' rest) (hheld : p.shared.memory.Held)
    (htask : TaskOk storage p.shared t) (hharm : Harmless p k t) :
    Settled storage s'.files s'.memory t.name ∨
      (∃ t', rest = some t' ∧ Owing t.name s' t') ∨
      (∃ j t', j ≠ k ∧ p.taskAt j = some t' ∧ Owing t.name s' t') ∨
      ((Settled storage p.shared.files p.shared.memory t.name →
          Settled storage s'.files s'.memory t.name) ∧
        (∀ j t', j ≠ k → p.taskAt j = some t' → Owing t.name p.shared t' → Owing t.name s' t') ∧
        ¬ Owing t.name p.shared t) := by
  have helsewhere : ∀ {name}, s'.memory = p.shared.memory → Elsewhere p k name →
      ∃ j t', j ≠ k ∧ p.taskAt j = some t' ∧ Owing name s' t' := by
    rintro name hmemory ⟨j, t', hj, ht', howing⟩
    exact ⟨j, t', hj, ht', howing.of_memory hmemory⟩
  cases h with
  | @refused name stage result hfree =>
      exact .inr (.inr (.inr ⟨id, fun _ _ _ _ h => h.of_memory rfl, hfree name⟩))
  | @made name dim c hname =>
      refine .inr (.inl ⟨_, rfl, rfl, p.shared.memory.heap.length, ?_⟩)
      exact (Finmap.lookup_insert_eq ..).trans (if_pos rfl)
  | found hplain hholds => exact .inr (.inr (.inr ⟨id, fun _ _ _ _ h => h, fun h => h.2⟩))
  | @changed name change arc c c' hc hname hconfig =>
      cases hlookup : p.shared.memory.collections.lookup name with
      | some arc' => exact .inr (.inl ⟨_, rfl, rfl, arc', hlookup⟩)
      | none =>
          -- the collection that is changed has been deleted
          refine .inr (.inr (.inr ⟨fun hsettled => ?_, fun _ _ _ _ h => ?_, fun h => h.2⟩))
          · unfold Settled Memory.get? at hsettled ⊢
            dsimp only at hsettled ⊢
            rw [hlookup] at hsettled ⊢
            exact hsettled
          · exact h.of_none hlookup hlookup
  | @gone name changed e hnone =>
      refine .inr (.inr (.inr ⟨id, fun _ _ _ _ h => h.of_memory rfl, fun h => ?_⟩))
      obtain ⟨arc, harc⟩ := h.2
      rw [hnone] at harc
      cases harc
  | fetched hlookup => exact .inr (.inl ⟨_, rfl, rfl, hlookup⟩)
  | @taken name changed arc c hc =>
      by_cases hlookup : p.shared.memory.collections.lookup name = some arc
      · exact .inr (.inl ⟨_, rfl, rfl, hlookup, c, hc, rfl⟩)
      · exact .inr (.inr (.inr ⟨id, fun _ _ _ _ h => h, fun h => hlookup h.2⟩))
  | @written name changed arc snap =>
      by_cases hcurrent : p.shared.Current name arc snap
      · exact .inr (.inl ⟨_, rfl, rfl, hcurrent⟩)
      · refine .inr (.inr (.inr ⟨fun hsettled => ?_, fun _ _ _ _ h => h.of_memory rfl,
          fun h => hcurrent h.2⟩))
        have hplain : PlainName name := htask.2.1
        unfold Settled at hsettled ⊢
        dsimp only
        rwa [Finmap.lookup_insert_eq, if_neg (tmpPath_ne_finalPath hplain hplain).symm]
  | @renamed name changed arc snap =>
      rcases hharm with hcurrent | hother
      · exact .inl (settled_of_current hheld hcurrent
          ((Finmap.lookup_insert_eq ..).trans (if_pos rfl)))
      · exact .inr (.inr (.inl (helsewhere rfl hother)))
  | @removed name hplain =>
      refine .inr (.inl ⟨_, rfl, rfl, ?_⟩)
      exact (Finmap.lookup_erase_eq ..).trans (if_pos rfl)
  | @unlinked name =>
      rcases hharm with hnone | hother
      · exact .inl (settled_of_none hnone ((Finmap.lookup_erase_eq ..).trans (if_pos rfl)))
      · exact .inr (.inr (.inl (helsewhere rfl hother)))

theorem owed_resume (hl : V.Lawful) (hk : p.taskAt k = some t) (hheld : p.shared.memory.Held)
    (htask : TaskOk storage p.shared t) (hharm : Harmless p k t) {n : String} (hplain : PlainName n)
    (howed : p.OwedIn (fun s => Settled storage s.files s.memory n) (Owing n)) :
    (p.step (advance cfg storage) (.resume k)).OwedIn
      (fun s => Settled storage s.files s.memory n) (Owing n) := by
  refine Pool.owedIn_resume hk howed ?_
  have hsec : Section storage p.shared t (advance cfg storage p.shared t).1
      (advance cfg storage p.shared t).2 := section_advance hl hheld htask
  by_cases hn : n = t.name
  · subst hn
    exact owed_same hsec hheld htask hharm
  · refine .inr (.inr (.inr ⟨fun hsettled => ?_, fun _ _ _ _ h => h.other hsec hheld hn,
      fun h => hn h.1.symm⟩))
    unfold Settled at hsettled ⊢
    rwa [(hsec.files_other htask hplain hn).1, hsec.get?_other hheld hn]

theorem inv_opened : Inv storage (opened : Running V) where
  held := Memory.held_empty
  tidy _ _ h := by cases h
  clean _ hr := by cases hr
  known _ hr := by cases hr
  tasks k t h := by cases h
  alone name j k t t' h := by cases h
  owed _ _ := .inl .none

theorem inv_call {c : StoreCall} (h : Inv storage p) (hsafe : Safe p (.call c)) :
    Inv storage (step cfg storage p (.call c)) where
  held := h.held
  tidy := h.tidy
  clean := h.clean
  known := h.known
  tasks j t' ht' := by
    unfold step at ht'
    rw [Pool.taskAt_start] at ht'
    split at ht'
    · obtain rfl := Option.some.inj ht'
      cases c with
      | createCollection name => exact hsafe
      | createCollectionWithDim name dim => exact hsafe
      | upsert collection id vector payload => exact trivial
      | delete collection id => exact trivial
      | deleteCollection name => exact trivial
    · exact h.tasks j t' ht'
  alone name j k t₁ t₂ h₁ h₂ hren₁ hren₂ := by
    have hstart : ¬ Renaming name (c.task cfg : StoreTask V) := by
      cases c <;> exact fun hren => hren.2
    unfold step at h₁ h₂
    rw [Pool.taskAt_start] at h₁ h₂
    split at h₁
    · obtain rfl := Option.some.inj h₁
      exact absurd hren₁ hstart
    · split at h₂
      · obtain rfl := Option.some.inj h₂
        exact absurd hren₂ hstart
      · exact h.alone name j k t₁ t₂ h₁ h₂ hren₁ hren₂
  owed name hplain := by
    unfold step
    exact Pool.owedIn_start (h.owed name hplain) _

theorem inv_resume (hl : V.Lawful) (h : Inv storage p) (hk : p.taskAt k = some t)
    (hharm : Harmless p k t) : Inv storage (step cfg storage p (.resume k)) := by
  have htask := h.tasks k t hk
  have hsec : Section storage p.shared t (advance cfg storage p.shared t).1
      (advance cfg storage p.shared t).2 := section_advance hl h.held htask
  have hwriting : ∀ {j t'}, p.taskAt j = some t' → Renaming t.name t' →
      ∀ a b c, t.stage ≠ .write a b c := by
    intro j t' hj hren a b c hstage
    unfold Harmless at hharm
    rw [hstage] at hharm
    exact hharm j t' hj hren
  refine ⟨?_, ?_, ?_, ?_, ?_, ?_, ?_⟩
  case refine_7 => exact fun name hplain => owed_resume hl hk h.held htask hharm hplain (h.owed name hplain)
  case refine_5 =>
    intro j t' ht'
    unfold step at ht' ⊢
    rw [Pool.shared_resume hk]
    rw [Pool.taskAt_resume hk] at ht'
    split at ht'
    · refine taskOk_rest hsec htask h.held ht' fun changed arc hstage => ?_
      unfold Harmless at hharm
      rw [hstage] at hharm
      exact hharm
    · rename_i hne
      refine taskOk_other hsec htask (h.tasks j t' ht') fun hren => ⟨hwriting ht' hren, ?_⟩
      intro a b c hstage
      exact hne (h.alone t.name j k t' t ht' hk hren ⟨rfl, by rw [hstage]; trivial⟩)
  case refine_6 =>
    intro name j₁ j₂ t₁ t₂ h₁ h₂ hren₁ hren₂
    unfold step at h₁ h₂
    rw [Pool.taskAt_resume hk] at h₁ h₂
    have hclash : ∀ {t' j t''}, (advance cfg storage p.shared t).2 = some t' → Renaming name t' →
        p.taskAt j = some t'' → Renaming name t'' → False := by
      intro t' j t'' hrest hren hj hren'
      obtain ⟨hname, a, b, c, hstage⟩ := renaming_rest hsec hrest hren
      exact hwriting hj (hname ▸ hren') a b c hstage
    by_cases hj₁ : j₁ = k
    · by_cases hj₂ : j₂ = k
      · rw [hj₁, hj₂]
      · rw [if_pos hj₁] at h₁
        rw [if_neg hj₂] at h₂
        exact (hclash h₁ hren₁ h₂ hren₂).elim
    · rw [if_neg hj₁] at h₁
      by_cases hj₂ : j₂ = k
      · rw [if_pos hj₂] at h₂
        exact (hclash h₂ hren₂ h₁ hren₁).elim
      · rw [if_neg hj₂] at h₂
        exact h.alone name j₁ j₂ t₁ t₂ h₁ h₂ hren₁ hren₂
  all_goals
    unfold step
    rw [Pool.shared_resume hk]
  · exact held_section hsec htask h.held
  · exact tidy_section hsec htask h.tidy
  · exact clean_section hsec h.known h.clean
  · exact known_section hsec htask h.known

theorem inv_reopen (hl : V.Lawful) (h : Inv storage p) (entries : List Path) :
    Inv storage (step cfg storage p (.reopen entries)) := by
  unfold step reopen
  dsimp only
  split
  · rename_i hopen
    obtain ⟨m, hload, hheld, hsettled⟩ := loadCollections_of_tidy hl h.tidy hopen.2
    rw [hload]
    exact {
      held := hheld
      tidy := h.tidy
      clean := fun _ hr => by cases hr
      known := fun _ hr => by cases hr
      tasks := fun k t ht => by cases ht
      alone := fun name j k t t' ht => by cases ht
      owed := fun name hplain => .inl (hsettled name hplain) }
  · exact h

theorem inv_step (hl : V.Lawful) {e : Event} (h : Inv storage p) (hsafe : Safe p e) :
    Inv storage (step cfg storage p e) := by
  cases e with
  | call c => exact inv_call h hsafe
  | resume k =>
      cases hk : p.taskAt k with
      | none =>
          have hsame : step cfg storage p (.resume k) = p := Pool.step_resume_none hk
          rwa [hsame]
      | some t => exact inv_resume hl h hk (hsafe t hk)
  | reopen entries => exact inv_reopen hl h entries

end Moves

/-! ## Runs -/

/-- When no call is in progress, a restart would find the collections and points in memory, and a
call that returned an error has left nothing behind. -/
def Faithful (storage : Path) (p : Running V) : Prop :=
  (p.Quiescent → Reloads storage p.shared.files p.shared.memory) ∧ Clean p.shared

/-- **Files keep up with memory** in every run whose sections do no harm. -/
theorem files_faithful (hl : V.Lawful) (cfg : VectorStoreConfig) (storage : Path) {es : List Event}
    (hsafe : Along (step cfg storage) Safe (opened : Running V) es) :
    Always (step cfg storage) (Faithful storage) (opened : Running V) es := by
  have hinv := always_of_inv (fun p e (h : Inv storage p) => inv_step hl h) inv_opened hsafe
  intro pre post hsplit
  have h := hinv pre post hsplit
  refine ⟨fun hquiet => ?_, h.clean⟩
  exact reloads_of_settled hl h.tidy h.held fun name hplain => (h.owed name hplain).settled hquiet

section Example

/-- Points in a list, the latest last. -/
private def listed : Vectx where
  Point := String × List Float32 × Option Value
  Collection := CollectionConfig × List (String × List Float32 × Option Value)
  Error := Empty
  point id vector payload := (id, vector, payload)
  new cfg := (cfg, [])
  config := Prod.fst
  getAllPoints := Prod.snd
  upsert c p := .ok (c.1, c.2.filter (fun q => q.1 ≠ p.1) ++ [p])
  delete c id := .ok (c.1, c.2.filter fun q => q.1 ≠ id)
  batchUpsert c ps := .ok (c.1, c.2 ++ ps)
  reread := some

private theorem listed_lawful : listed.Lawful where
  config_new _ := rfl
  points_new _ := rfl
  config_upsert h := by
    rw [← Except.ok.inj h]
    rfl
  config_delete h := by
    rw [← Except.ok.inj h]
    rfl
  batchUpsert_new {c ps} h := ⟨(c.1, ps), rfl, rfl, h⟩

private def plain : VectorStoreConfig := ⟨1, false, false, .cosine⟩

/-- A collection is created and a point put into it. -/
private def quiet : List Event :=
  [.call (.createCollection "m"), .resume 0, .resume 0, .resume 0, .resume 0, .resume 0,
    .call (.upsert "m" "a" [1] none), .resume 1, .resume 1, .resume 1, .resume 1, .resume 1,
    .resume 1, .reopen [["store", "m.json"]]]

private theorem safe_resume {p : Running listed} {k : ℕ} {t : StoreTask listed}
    (hk : p.taskAt k = some t) (h : Harmless p k t) : Safe p (.resume k) := by
  intro t' ht'
  obtain rfl := Option.some.inj (hk.symm.trans ht')
  exact h

theorem files_faithful_quiet :
    Always (step plain ["store"]) (Faithful ["store"]) (opened : Running listed) quiet := by
  refine files_faithful listed_lawful plain ["store"]
    ⟨?_, ?_, ?_, ?_, ?_, ?_, ?_, ?_, ?_, ?_, ?_, ?_, ?_, ?_, trivial⟩
  case refine_1 => exact ⟨by decide, by decide⟩
  case refine_2 => exact safe_resume rfl trivial
  case refine_3 => exact safe_resume rfl trivial
  case refine_4 => exact safe_resume rfl fun _ _ _ _ => rfl
  case refine_5 =>
    refine safe_resume rfl fun j t' hj hren => ?_
    match j with
    | 0 =>
        cases hj
        exact hren.2
    | j + 1 => cases hj
  case refine_6 => exact safe_resume rfl (.inl ⟨by decide, _, rfl, rfl⟩)
  case refine_7 => exact trivial
  case refine_8 => exact safe_resume rfl trivial
  case refine_9 => exact safe_resume rfl trivial
  case refine_10 => exact safe_resume rfl trivial
  case refine_11 => exact safe_resume rfl fun _ _ _ _ => rfl
  case refine_12 =>
    refine safe_resume rfl fun j t' hj hren => ?_
    match j with
    | 0 => cases hj
    | 1 =>
        cases hj
        exact hren.2
    | j + 2 => cases hj
  case refine_13 => exact safe_resume rfl (.inl ⟨by decide, _, rfl, rfl⟩)
  case refine_14 => exact trivial

/-- Two points are put into a collection: the first call takes its snapshot before the second
point is there, and renames its file after the second call. -/
private def overtaken : List Event :=
  [.call (.createCollection "m"), .resume 0, .resume 0, .resume 0, .resume 0, .resume 0,
    .call (.upsert "m" "a" [1] none), .call (.upsert "m" "b" [1] none),
    .resume 1, .resume 1, .resume 1, .resume 1,
    .resume 2, .resume 2, .resume 2, .resume 2, .resume 2, .resume 2, .resume 1, .resume 1]

/-- How many points a collection has. -/
private def size (c : Option listed.Collection) : Option ℕ := c.map fun c => (listed.getAllPoints c).length

private theorem size_eq {c c' : Option listed.Collection} (h : Option.Rel listed.Same c c') :
    size c = size c' := by
  cases h with
  | none => rfl
  | some hsame => exact congrArg some hsame.points.length_eq

/-- **An older snapshot is renamed over a newer one**: all three calls have returned `Ok`, and a
restart finds one point of two. -/
theorem overtaken_upsert_lost :
    (run (step plain ["store"]) (opened : Running listed) overtaken).shared.returned.map
        (fun r => r.result.isOk) = [true, true, true] ∧
      ¬ Always (step plain ["store"]) (Faithful ["store"]) (opened : Running listed) overtaken := by
  refine ⟨by decide, fun halways => ?_⟩
  have hquiet : (run (step plain ["store"]) (opened : Running listed) overtaken).Quiescent := by
    decide
  obtain ⟨m, hload, hsame⟩ := halways.last.1 hquiet [["store", "m.json"]] (by decide)
  have hfile : (loadCollections (run (step plain ["store"]) (opened : Running listed)
      overtaken).shared.files [["store", "m.json"]]).toOption.map (fun m => size (m.get? "m")) =
        some (some 1) := by decide
  rw [hload] at hfile
  have hsize : size (m.get? "m") = some 1 := Option.some.inj hfile
  rw [size_eq (hsame "m")] at hsize
  revert hsize
  decide

end Example

end VectorStore
end PeerClaw
