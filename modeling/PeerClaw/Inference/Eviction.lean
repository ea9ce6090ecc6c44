import PeerClaw.Inference.Accounting

/-!
# Evictions that an insertion makes

`ensure_capacity` evicts as it goes: one model for the slot, and then one after the other until the
memory suffices.  It finds out that the memory will not suffice only when nothing is left to
evict, and what it has evicted by then is gone.

* `IsLru`, `Evicts` — the evictions that an insertion may make: of models that are not in use, the
  least recently used one first, as long as they are needed.
* `InsertsWell` — an insertion that fails changes nothing, and one that succeeds makes no others.
* `insertsWell_iff` — which insertions are such.
* `evicted_in_vain` — one that evicts a model and fails.
-/

namespace PeerClaw
namespace Inference

open Lib

namespace ModelCache

variable {F : Type} [F32 F]

/-! ## What an insertion owes the cache -/

/-- A model that is not in use, and none such has been used less recently. -/
structure IsLru (c : ModelCache F) (id : ModelId) (model : LoadedModel F) : Prop where
  lookup : c.models.lookup id = some model
  free : model.refCount = 0
  least : ∀ id' model', c.models.lookup id' = some model' → model'.refCount = 0 →
    model.lastUsed ≤ model'.lastUsed

/-- With the model in the cache, both limits are respected. -/
def Fits (model : LoadedModel F) (c : ModelCache F) : Prop :=
  (c.models.insert model.info.id model).len ≤ c.maxModels ∧
    c.currentMemoryMb.toNat + memory model ≤ c.maxMemoryMb.toNat

/-- Evictions in the order of the last use, each of which is needed: without it the model does not
fit, or it is the one that the model replaces. -/
inductive Evicts (model : LoadedModel F) : ModelCache F → ModelCache F → Prop
  | done (c : ModelCache F) : Evicts model c c
  | next {c c' : ModelCache F} {id : ModelId} {old : LoadedModel F} (lru : c.IsLru id old)
      (needed : id = model.info.id ∨ ¬ c.Fits model) (rest : Evicts model (c.drop id old) c') :
      Evicts model c c'

/-- An insertion that fails leaves the cache as it was, and one that succeeds evicts only models
that are not in use, in the order of their last use, and no more than it needs to. -/
structure InsertsWell (order : IterOrder ModelId (LoadedModel F)) (model : LoadedModel F)
    (c : ModelCache F) : Prop where
  kept : (insert order model c).outcome.isOk = false → (insert order model c).state = c
  evicted : (insert order model c).outcome.isOk →
    ∃ c', Evicts model c c' ∧ (insert order model c).state = (store model c').state

/-! ## The models that can be evicted -/

/-- The id of the model that is evicted first. -/
def leastUsed (order : IterOrder ModelId (LoadedModel F)) (c : ModelCache F) : Option ModelId :=
  ((c.candidates order).argmin Prod.snd).map Prod.fst

/-- The models that are not in use, in the order in which they are evicted. -/
def lru (order : IterOrder ModelId (LoadedModel F)) : ℕ → ModelCache F → List (LoadedModel F)
  | 0, _ => []
  | n + 1, c =>
      match c.leastUsed order with
      | some id =>
          match c.models.lookup id with
          | some model => model :: lru order n (c.drop id model)
          | none => []
      | none => []

/-- No model can be evicted. -/
def NoneFree (c : ModelCache F) : Prop :=
  ∀ id model, c.models.lookup id = some model → model.refCount ≠ 0

/-- Without some of the models that can be evicted, the memory suffices, by the counter and in
arithmetic of 32 bits. -/
def RoomFor (order : IterOrder ModelId (LoadedModel F)) (needed : UInt32) (c : ModelCache F) :
    Prop :=
  ∃ n, (c.currentMemoryMb.toNat - (((c.lru order c.models.len).take n).map memory).sum +
    needed.toNat) % 2 ^ 32 ≤ c.maxMemoryMb.toNat

section Evictions

variable {order : IterOrder ModelId (LoadedModel F)} {c c' : ModelCache F} {needed : UInt32}
  {model : LoadedModel F}

omit [F32 F] in
theorem mem_candidates {id : ModelId} {old : LoadedModel F} (hlook : c.models.lookup id = some old)
    (hfree : old.refCount = 0) : (id, old.lastUsed) ∈ c.candidates order := by
  refine List.mem_filterMap.2 ⟨id, (order.mem_keys _ _).2 (Finmap.mem_of_lookup_eq_some hlook), ?_⟩
  simp only [hlook]
  rw [if_pos hfree]

omit [F32 F] in
theorem lastUsed_of_mem_candidates {id : ModelId} {used : ℕ} (h : (id, used) ∈ c.candidates order) :
    ∃ old, c.models.lookup id = some old ∧ old.refCount = 0 ∧ used = old.lastUsed := by
  obtain ⟨id', -, hid⟩ := List.mem_filterMap.1 h
  cases hlook : c.models.lookup id' with
  | none =>
      rw [hlook] at hid
      cases hid
  | some old =>
      simp only [hlook] at hid
      split at hid
      · rename_i hfree
        obtain ⟨rfl, rfl⟩ := Prod.mk.inj (Option.some.inj hid)
        exact ⟨old, hlook, hfree, rfl⟩
      · cases hid

omit [F32 F] in
theorem isLru_of_leastUsed {id : ModelId} (h : c.leastUsed order = some id) :
    ∃ old, c.IsLru id old := by
  obtain ⟨⟨id, used⟩, hmin, rfl⟩ := Option.map_eq_some_iff.1 h
  obtain ⟨old, hlook, hfree, rfl⟩ := lastUsed_of_mem_candidates (List.argmin_mem hmin)
  refine ⟨old, hlook, hfree, fun id' model' hlook' hfree' => ?_⟩
  have hmem : (id', model'.lastUsed) ∈ c.candidates order := mem_candidates hlook' hfree'
  have hle : Prod.snd (id, old.lastUsed) ≤ Prod.snd (id', model'.lastUsed) :=
    List.le_of_mem_argmin hmem hmin
  exact hle

omit [F32 F] in
theorem leastUsed_eq_none_iff : c.leastUsed order = none ↔ c.NoneFree := by
  unfold leastUsed
  rw [Option.map_eq_none_iff, List.argmin_eq_none]
  constructor
  · intro h id old hlook hfree
    have hmem : (id, old.lastUsed) ∈ c.candidates order := mem_candidates hlook hfree
    rw [h] at hmem
    cases hmem
  · intro h
    refine List.eq_nil_iff_forall_not_mem.2 ?_
    rintro ⟨id, used⟩ hmem
    obtain ⟨old, hlook, hfree, -⟩ := lastUsed_of_mem_candidates hmem
    exact h id old hlook hfree

/-- **One eviction.** -/
theorem evictLru_spec (order : IterOrder ModelId (LoadedModel F)) (c : ModelCache F) :
    (∃ id old, c.leastUsed order = some id ∧ c.IsLru id old ∧
      evictLru order c = ⟨.ok (), c.drop id old, []⟩) ∨
    (c.leastUsed order = none ∧ c.NoneFree ∧ evictLru order c = ⟨.err .allModelsInUse, c, []⟩) := by
  cases hleast : c.leastUsed order with
  | none =>
      have hmin : (c.candidates order).argmin Prod.snd = none := Option.map_eq_none_iff.1 hleast
      refine .inr ⟨rfl, leastUsed_eq_none_iff.1 hleast, ?_⟩
      unfold evictLru
      rw [hmin]
  | some id =>
      obtain ⟨old, hlru⟩ := isLru_of_leastUsed hleast
      obtain ⟨⟨id', used⟩, hmin, rfl⟩ := Option.map_eq_some_iff.1 hleast
      refine .inl ⟨id', old, rfl, hlru, ?_⟩
      unfold evictLru
      simp only [hmin, hlru.lookup]

theorem toNat_satSub32 (a b : UInt32) : (satSub32 a b).toNat = a.toNat - b.toNat := by
  unfold satSub32
  split
  · rename_i h
    exact UInt32.toNat_sub_of_le a b h
  · rename_i h
    rw [UInt32.le_iff_toNat_le] at h
    show 0 = _
    omega

omit [F32 F] in
theorem fits_iff : c.currentMemoryMb + needed ≤ c.maxMemoryMb ↔
    (c.currentMemoryMb.toNat + needed.toNat) % 2 ^ 32 ≤ c.maxMemoryMb.toNat := by
  rw [UInt32.le_iff_toNat_le, UInt32.toNat_add]

/-- There is room if the check passes, or there is after the first eviction. -/
theorem roomFor_iff {id : ModelId} {old : LoadedModel F} (hleast : c.leastUsed order = some id)
    (hlook : c.models.lookup id = some old) :
    c.RoomFor order needed ↔
      c.currentMemoryMb + needed ≤ c.maxMemoryMb ∨ (c.drop id old).RoomFor order needed := by
  have hlen := (shrunk_drop hlook).2
  have hlru : c.lru order c.models.len =
      old :: (c.drop id old).lru order (c.drop id old).models.len := by
    rw [← hlen]
    simp only [lru, hleast, hlook]
  have hcounter : (c.drop id old).currentMemoryMb.toNat = c.currentMemoryMb.toNat - memory old :=
    toNat_satSub32 _ _
  have hmax : (c.drop id old).maxMemoryMb = c.maxMemoryMb := rfl
  unfold RoomFor
  rw [hlru, fits_iff, hcounter, hmax]
  constructor
  · rintro ⟨n, h⟩
    cases n with
    | zero => exact .inl (by simpa using h)
    | succ n =>
        rw [List.take_succ_cons, List.map_cons, List.sum_cons, ← Nat.sub_sub] at h
        exact .inr ⟨n, h⟩
  · rintro (h | ⟨n, h⟩)
    · exact ⟨0, by simpa using h⟩
    · refine ⟨n + 1, ?_⟩
      rw [List.take_succ_cons, List.map_cons, List.sum_cons, ← Nat.sub_sub]
      exact h

theorem roomFor_iff_of_none (hleast : c.leastUsed order = none) :
    c.RoomFor order needed ↔ c.currentMemoryMb + needed ≤ c.maxMemoryMb := by
  have hlru : c.lru order c.models.len = [] := by
    cases c.models.len with
    | zero => rfl
    | succ n => simp only [lru, hleast]
  unfold RoomFor
  rw [hlru, fits_iff]
  simp

theorem not_fits_of_lt (h : ¬ c.currentMemoryMb + model.info.estimateRamMb ≤ c.maxMemoryMb) :
    ¬ c.Fits model := by
  rw [fits_iff] at h
  rintro ⟨-, hfits⟩
  exact h ((Nat.mod_le _ _).trans hfits)

/-! ## The loop -/

omit [F32 F] in
theorem noneFree_of_len (h : c.models.len = 0) : c.NoneFree := by
  intro id old hlook
  have hlen := Finmap.len_erase hlook
  omega

/-- What evictions made for the memory of a model come to: they succeed exactly if there is room,
each of them is needed, and they change the cache if they fail with something to evict. -/
structure MakesRoom (order : IterOrder ModelId (LoadedModel F)) (model : LoadedModel F)
    (c : ModelCache F) (e : Effect (ModelCache F) CacheError Unit) : Prop where
  isOk_iff : e.outcome.isOk ↔ c.RoomFor order model.info.estimateRamMb
  evicts : Evicts model c e.state
  kept : c.NoneFree → e.state = c
  changed : e.outcome.isOk = false → ¬ c.NoneFree → e.state.models.len < c.models.len

theorem makesRoom_of_fits (h : c.currentMemoryMb + model.info.estimateRamMb ≤ c.maxMemoryMb) :
    MakesRoom order model c ⟨.ok (), c, []⟩ where
  isOk_iff := iff_of_true rfl ⟨0, by simpa using fits_iff.1 h⟩
  evicts := .done c
  kept := fun _ => rfl
  changed := fun h => by cases h

theorem makesRoom_of_noneFree (hfree : c.NoneFree)
    (h : ¬ c.currentMemoryMb + model.info.estimateRamMb ≤ c.maxMemoryMb)
    {e : Effect (ModelCache F) CacheError Unit} (hfail : e.outcome.isOk = false)
    (hstate : e.state = c) : MakesRoom order model c e where
  isOk_iff := by
    rw [roomFor_iff_of_none (leastUsed_eq_none_iff.2 hfree), hfail]
    exact iff_of_false Bool.false_ne_true h
  evicts := by
    rw [hstate]
    exact .done c
  kept := fun _ => hstate
  changed := fun _ hnot => absurd hfree hnot

/-- **The loop.** -/
theorem makesRoom_evictUntilFits {n : ℕ} (hn : c.models.len ≤ n) :
    MakesRoom order model c (evictUntilFits order model.info.estimateRamMb n c) := by
  induction n generalizing c with
  | zero =>
      have hfree := noneFree_of_len (Nat.le_zero.1 hn)
      unfold evictUntilFits
      split
      · rename_i hfits
        exact makesRoom_of_fits hfits
      · rename_i hover
        exact makesRoom_of_noneFree hfree hover rfl rfl
  | succ n ih =>
      unfold evictUntilFits
      split
      · rename_i hfits
        exact makesRoom_of_fits hfits
      · rename_i hover
        split
        · rename_i hnone
          exact makesRoom_of_noneFree (noneFree_of_len hnone) hover rfl rfl
        · rcases evictLru_spec order c with ⟨id, old, hleast, hlru, heq⟩ | ⟨-, hfree, heq⟩
          · have hlen := (shrunk_drop hlru.lookup).2
            have hnext := ih (c := c.drop id old) (by omega)
            have hsome : ¬ c.NoneFree := fun h => h id old hlru.lookup hlru.free
            have hshrunk := shrunk_evictUntilFits order model.info.estimateRamMb n (c.drop id old)
            rw [Action.bind_of_ok (a := ()) (by rw [heq]), heq]
            refine ⟨?_, ?_, fun h => absurd h hsome, fun _ _ => ?_⟩
            · rw [roomFor_iff hleast hlru.lookup, or_iff_right hover]
              exact hnext.isOk_iff
            · exact .next hlru (.inr (not_fits_of_lt hover)) hnext.evicts
            · have hle := hshrunk.len
              dsimp only
              omega
          · obtain ⟨hfail, hstate, -⟩ := Action.bind_of_not_ok
              (f := fun _ => evictUntilFits order model.info.estimateRamMb n) (s := c)
              (x := evictLru order) (by rw [heq]; rfl)
            rw [heq] at hstate
            exact makesRoom_of_noneFree hfree hover hfail hstate

/-- The loop is entered only if the memory is too little when it is looked at. -/
theorem makesRoom_ensureSpace :
    MakesRoom order model c (ensureSpace order model.info.estimateRamMb c c) := by
  unfold ensureSpace
  split
  · exact makesRoom_evictUntilFits le_rfl
  · rename_i hroom
    exact makesRoom_of_fits (UInt32.not_lt.1 hroom)

/-- After an eviction for the slot the memory is still looked at as it was before. -/
theorem ensureSpace_drop (model : LoadedModel F) {id : ModelId} {old : LoadedModel F} (hleast : c.leastUsed order = some id)
    (hlru : c.IsLru id old) :
    ((ensureSpace order model.info.estimateRamMb c (c.drop id old)).outcome.isOk ↔
      c.RoomFor order model.info.estimateRamMb) ∧
    Evicts model (c.drop id old)
      (ensureSpace order model.info.estimateRamMb c (c.drop id old)).state := by
  have hlen := (shrunk_drop hlru.lookup).2
  unfold ensureSpace
  rw [roomFor_iff hleast hlru.lookup]
  split
  · rename_i hover
    have hroom : MakesRoom order model (c.drop id old)
        (evictUntilFits order model.info.estimateRamMb c.models.len (c.drop id old)) :=
      makesRoom_evictUntilFits (by omega)
    rw [or_iff_right (UInt32.not_le.2 hover)]
    exact ⟨hroom.isOk_iff, hroom.evicts⟩
  · rename_i hroom
    exact ⟨iff_of_true rfl (.inl (UInt32.not_lt.1 hroom)), .done _⟩

/-! ## An insertion -/

theorem insertsWell_iff_ensureCapacity :
    InsertsWell order model c ↔
      ((ensureCapacity order model.info.estimateRamMb c).outcome.isOk = false →
        (ensureCapacity order model.info.estimateRamMb c).state = c) ∧
      ((ensureCapacity order model.info.estimateRamMb c).outcome.isOk →
        ∃ c', Evicts model c c' ∧
          (store model (ensureCapacity order model.info.estimateRamMb c).state).state =
            (store model c').state) := by
  rcases (ensureCapacity order model.info.estimateRamMb c).outcome.ok_or_not with ⟨u, hok⟩ | hfail
  · have hisOk : (ensureCapacity order model.info.estimateRamMb c).outcome.isOk :=
      Outcome.isOk_iff.2 ⟨u, hok⟩
    have hinsert : insert order model c = _ := Action.bind_of_ok hok
    constructor
    · rintro ⟨-, hevicted⟩
      rw [hinsert] at hevicted
      refine ⟨fun h => ?_, fun _ => hevicted rfl⟩
      rw [hisOk] at h
      cases h
    · rintro ⟨-, hevicted⟩
      refine ⟨fun h => ?_, fun _ => ?_⟩
      · rw [hinsert] at h
        cases h
      · rw [hinsert]
        exact hevicted hisOk
  · obtain ⟨hnot, hstate, -⟩ := Action.bind_of_not_ok (f := fun _ => store model) hfail
    have hnot : (insert order model c).outcome.isOk = false := hnot
    have hstate : (insert order model c).state = _ := hstate
    constructor
    · rintro ⟨hkept, -⟩
      refine ⟨fun _ => hstate ▸ hkept hnot, fun h => ?_⟩
      rw [hfail] at h
      cases h
    · rintro ⟨hkept, -⟩
      refine ⟨fun _ => hstate.trans (hkept hfail), fun h => ?_⟩
      rw [hnot] at h
      cases h

theorem Fits.drop (h : c.Fits model) {id : ModelId} {old : LoadedModel F}
    (hlook : c.models.lookup id = some old) : (c.drop id old).Fits model := by
  have hcounter : (c.drop id old).currentMemoryMb.toNat = c.currentMemoryMb.toNat - memory old :=
    toNat_satSub32 _ _
  have hsum := h.2
  refine ⟨?_, ?_⟩
  · have hlen := (shrunk_drop hlook).2
    have hless : ((c.drop id old).models.insert model.info.id model).len ≤ c.models.len := by
      have hle := Finmap.len_insert_le (c.drop id old).models model.info.id model
      omega
    exact (hless.trans (Finmap.len_le_insert _ _ _)).trans h.1
  · rw [hcounter]
    show _ ≤ c.maxMemoryMb.toNat
    omega

/-- The evictions that a model needs do not touch other models where it fits. -/
theorem Evicts.lookup_eq (h : Evicts model c c') (hfits : c.Fits model) {id : ModelId}
    (hid : id ≠ model.info.id) : c'.models.lookup id = c.models.lookup id := by
  induction h with
  | done c => rfl
  | next lru needed rest ih =>
      rename_i first old
      obtain rfl := needed.resolve_right (not_not.2 hfits)
      rw [ih (hfits.drop lru.lookup)]
      exact Finmap.lookup_erase_ne hid

end Evictions

theorem insertsWell_iff_of_full {order : IterOrder ModelId (LoadedModel F)} {model : LoadedModel F}
    {c : ModelCache F} (hfull : c.maxModels ≤ c.models.len) :
    InsertsWell order model c ↔
      (c.NoneFree ∨ c.RoomFor order model.info.estimateRamMb) ∧
        (c.Fits model → ∀ id ∈ c.leastUsed order, id = model.info.id) := by
  rw [insertsWell_iff_ensureCapacity]
  unfold ensureCapacity ensureSlot
  rw [if_pos hfull]
  rcases evictLru_spec order c with ⟨id, old, hleast, hlru, heq⟩ | ⟨hleast, hfree, heq⟩
  · have hsome : ¬ c.NoneFree := fun h => h id old hlru.lookup hlru.free
    obtain ⟨hisOk, hevicts⟩ := ensureSpace_drop model hleast hlru
    have hlen := (shrunk_drop hlru.lookup).2
    have hle := (shrunk_ensureSpace order model.info.estimateRamMb c (c.drop id old)).len
    rw [Action.bind_of_ok (a := ()) (by rw [heq]), heq, hleast, or_iff_right hsome, hisOk]
    simp only [Option.mem_some_iff, forall_eq']
    constructor
    · rintro ⟨hkept, hevicted⟩
      refine ⟨?_, fun hfits => ?_⟩
      · by_contra hroom
        have hstate := hkept (by simpa using mt hisOk.1 hroom)
        rw [hstate] at hle
        omega
      · -- the model fits, so that only the one it replaces may be gone
        by_contra hne
        have hpass : c.currentMemoryMb + model.info.estimateRamMb ≤ c.maxMemoryMb := by
          by_contra hover
          exact not_fits_of_lt hover hfits
        obtain ⟨c', hc', hstate⟩ := hevicted ((roomFor_iff hleast hlru.lookup).2 (.inl hpass))
        unfold ensureSpace at hstate
        rw [if_neg (UInt32.not_lt.2 hpass)] at hstate
        have hmodels : (c.models.erase id).insert model.info.id model =
            c'.models.insert model.info.id model := congrArg ModelCache.models hstate
        have hlookup := congrArg (Finmap.lookup id) hmodels
        rw [Finmap.lookup_insert_of_ne _ hne, Finmap.lookup_insert_of_ne _ hne,
          Finmap.lookup_erase, hc'.lookup_eq hfits hne, hlru.lookup] at hlookup
        cases hlookup
    · rintro ⟨hroom, hsame⟩
      refine ⟨fun hfail => ?_, fun _ => ⟨_, .next hlru ?_ hevicts, rfl⟩⟩
      · rw [hisOk.2 hroom] at hfail
        cases hfail
      · by_cases hfits : c.Fits model
        · exact .inl (hsame hfits)
        · exact .inr hfits
  · obtain ⟨hfail, hstate, -⟩ := Action.bind_of_not_ok (s := c) (x := evictLru order)
      (f := fun _ => ensureSpace order model.info.estimateRamMb c) (by rw [heq]; rfl)
    rw [hfail, hstate, heq, hleast]
    simp [hfree]

theorem insertsWell_iff_of_slot {order : IterOrder ModelId (LoadedModel F)} {model : LoadedModel F}
    {c : ModelCache F} (hslot : ¬ c.maxModels ≤ c.models.len) :
    InsertsWell order model c ↔ c.NoneFree ∨ c.RoomFor order model.info.estimateRamMb := by
  rw [insertsWell_iff_ensureCapacity]
  unfold ensureCapacity ensureSlot
  rw [if_neg hslot]
  have hmakes : MakesRoom order model c (ensureSpace order model.info.estimateRamMb c c) :=
    makesRoom_ensureSpace
  constructor
  · rintro ⟨hkept, -⟩
    by_contra hnot
    rw [not_or] at hnot
    have hfail : (ensureSpace order model.info.estimateRamMb c c).outcome.isOk = false := by
      simpa using mt hmakes.isOk_iff.1 hnot.2
    have hless := hmakes.changed hfail hnot.1
    have hstate : (ensureSpace order model.info.estimateRamMb c c).state = c := hkept hfail
    rw [hstate] at hless
    exact lt_irrefl _ hless
  · rintro (hfree | hsuffices)
    · exact ⟨fun _ => hmakes.kept hfree, fun _ => ⟨_, hmakes.evicts, rfl⟩⟩
    · refine ⟨fun hfail => ?_, fun _ => ⟨_, hmakes.evicts, rfl⟩⟩
      have hok := hmakes.isOk_iff.2 hsuffices
      exact absurd (hfail.symm.trans hok) Bool.false_ne_true

/-- **When an insertion keeps its promises.** -/
theorem insertsWell_iff (order : IterOrder ModelId (LoadedModel F)) (model : LoadedModel F)
    (c : ModelCache F) :
    InsertsWell order model c ↔
      (c.NoneFree ∨ c.RoomFor order model.info.estimateRamMb) ∧
        (c.Fits model → c.maxModels ≤ c.models.len →
          ∀ id ∈ c.leastUsed order, id = model.info.id) := by
  by_cases hfull : c.maxModels ≤ c.models.len
  · rw [insertsWell_iff_of_full hfull]
    exact and_congr_right fun _ => forall_congr' fun _ => (imp_iff_right hfull).symm
  · rw [insertsWell_iff_of_slot hfull]
    exact (and_iff_left fun _ h => absurd h hfull).symm

/-! ## A model evicted in vain -/

/-- A cache of one model, with room for 1500 MB more. -/
def nearlyFull : ModelCache ℚ where
  models := Finmap.insert "llama-7b" sevenB ∅
  maxModels := 10
  maxMemoryMb := 6000
  currentMemoryMb := 4500

/-- A model of fourteen billion parameters; it takes 8000 MB. -/
def fourteenB : LoadedModel ℚ := ⟨⟨"llama-14b", .Q4_K_M, 14⟩, 0, 0⟩

/-- **A model evicted in vain.**  A model of 8000 MB does not fit into a cache of 6000 MB, and the
model that was in the cache is gone. -/
theorem evicted_in_vain : ¬ InsertsWell (alphabetical _) fourteenB nearlyFull := by
  rw [insertsWell_iff_of_slot (by decide +kernel)]
  rintro (hfree | ⟨n, hroom⟩)
  · exact hfree "llama-7b" sevenB (Finmap.lookup_insert _) rfl
  · have hneeded : fourteenB.info.estimateRamMb = 8000 := by decide +kernel
    rw [hneeded] at hroom
    have hmax : nearlyFull.maxMemoryMb.toNat = 6000 := rfl
    have hcounter : nearlyFull.currentMemoryMb.toNat = 4500 := rfl
    have hword : (8000 : UInt32).toNat = 8000 := rfl
    rw [hmax, hcounter, hword] at hroom
    omega

end ModelCache
end Inference
end PeerClaw
