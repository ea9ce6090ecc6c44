import PeerClaw.Inference.Cache
import PeerClaw.Lib.Machine
import Mathlib.Data.String.Basic

/-!
# The accounts of the model cache

The memory counter of `ModelCache` is kept by hand: `insert` adds the estimate of
the model it stores and `evict_lru` subtracts that of the model it drops.

* `evictLru_cases`, `evictUntilFits_loop`, `ensureCapacity_ok` — what the
  evictions do, and what they ensure when they succeed.
* `cache_accounts_iff` — in a run of calls on a new cache the counter is the sum
  of the estimates, and both limits are respected, in every state exactly when
  every model that is stored is stored under an id that is not in the cache any
  more, and its estimate added to the counter is in range.
* `reinserted_counts_twice` — a model inserted twice is in the cache once and on
  the counter twice.

`insert` stores with `HashMap::insert`, which drops the model that was under
the id before, and nothing subtracts what that one took.
-/

namespace PeerClaw
namespace Inference

open Lib Lib.Machine

namespace ModelCache

variable {F : Type} [F32 F]

/-! ## Evictions -/

section Evictions

variable {order : IterOrder ModelId (LoadedModel F)} {c : ModelCache F} {needed : UInt32}

/-- What a model counts for. -/
def memory (model : LoadedModel F) : ℕ := model.info.estimateRamMb.toNat

/-- The counter is the sum of the estimates, and both limits are respected. -/
structure Accounted (c : ModelCache F) : Prop where
  counter : c.currentMemoryMb.toNat = c.models.weigh memory
  count : c.models.len ≤ c.maxModels
  space : c.currentMemoryMb ≤ c.maxMemoryMb

/-- What evictions do to a cache: they drop models, and count right if it was right. -/
structure Shrunk (c c' : ModelCache F) : Prop where
  maxModels : c'.maxModels = c.maxModels
  maxMemoryMb : c'.maxMemoryMb = c.maxMemoryMb
  len : c'.models.len ≤ c.models.len
  counter : c'.currentMemoryMb ≤ c.currentMemoryMb
  accounted : c.Accounted → c'.Accounted

theorem Shrunk.refl (c : ModelCache F) : c.Shrunk c :=
  ⟨rfl, rfl, Nat.le_refl _, UInt32.le_refl _, id⟩

theorem Shrunk.trans {c c' c'' : ModelCache F} (h : c.Shrunk c') (h' : c'.Shrunk c'') :
    c.Shrunk c'' where
  maxModels := h'.maxModels.trans h.maxModels
  maxMemoryMb := h'.maxMemoryMb.trans h.maxMemoryMb
  len := Nat.le_trans h'.len h.len
  counter := UInt32.le_trans h'.counter h.counter
  accounted := fun ha => h'.accounted (h.accounted ha)

omit [F32 F] in
theorem of_mem_candidates {id : ModelId} {used : ℕ} (h : (id, used) ∈ c.candidates order) :
    ∃ model, c.models.lookup id = some model ∧ model.refCount = 0 := by
  obtain ⟨id', -, hid⟩ := List.mem_filterMap.1 h
  cases hlook : c.models.lookup id' with
  | none =>
      rw [hlook] at hid
      cases hid
  | some model =>
      simp only [hlook] at hid
      split at hid
      · rename_i hfree
        obtain ⟨rfl, -⟩ := Prod.mk.inj (Option.some.inj hid)
        exact ⟨model, hlook, hfree⟩
      · cases hid

/-- **One eviction.**  It drops a model that is not in use, or reports that there is none. -/
theorem evictLru_cases (order : IterOrder ModelId (LoadedModel F)) (c : ModelCache F) :
    (∃ id model, c.models.lookup id = some model ∧ model.refCount = 0 ∧
      evictLru order c = ⟨.ok (), c.drop id model, []⟩) ∨
    evictLru order c = ⟨.err .allModelsInUse, c, []⟩ := by
  unfold evictLru
  cases hmin : (c.candidates order).argmin Prod.snd with
  | none => exact .inr rfl
  | some least =>
      obtain ⟨id, used⟩ := least
      obtain ⟨model, hlook, hfree⟩ := of_mem_candidates (List.argmin_mem hmin)
      refine .inl ⟨id, model, hlook, hfree, ?_⟩
      simp only [hlook]

theorem satSub32_le (a b : UInt32) : satSub32 a b ≤ a := by
  unfold satSub32
  split
  · rename_i h
    rw [UInt32.le_iff_toNat_le, UInt32.toNat_sub_of_le a b h]
    omega
  · rw [UInt32.le_iff_toNat_le]
    exact Nat.zero_le _

theorem shrunk_drop {id : ModelId} {model : LoadedModel F} (h : c.models.lookup id = some model) :
    c.Shrunk (c.drop id model) ∧ (c.drop id model).models.len + 1 = c.models.len := by
  have hlen : (c.models.erase id).len + 1 = c.models.len := Finmap.len_erase h
  have hle : satSub32 c.currentMemoryMb model.info.estimateRamMb ≤ c.currentMemoryMb :=
    satSub32_le _ _
  refine ⟨⟨rfl, rfl, by show (c.models.erase id).len ≤ _; omega, hle, ?_⟩, hlen⟩
  rintro ⟨hcounter, hcount, hmem⟩
  have hsum := Finmap.weigh_erase h memory
  have hfits : model.info.estimateRamMb ≤ c.currentMemoryMb := by
    rw [UInt32.le_iff_toNat_le, hcounter, hsum]
    exact Nat.le_add_right _ _
  refine ⟨?_, by show (c.models.erase id).len ≤ c.maxModels; omega, UInt32.le_trans hle hmem⟩
  show (satSub32 c.currentMemoryMb model.info.estimateRamMb).toNat = _
  rw [satSub32, if_pos hfits, UInt32.toNat_sub_of_le _ _ hfits, hcounter, hsum]
  exact Nat.add_sub_cancel_left _ _

theorem shrunk_evictLru (order : IterOrder ModelId (LoadedModel F)) (c : ModelCache F) :
    c.Shrunk (evictLru order c).state := by
  rcases evictLru_cases order c with ⟨id, model, hlook, -, heq⟩ | heq
  · rw [heq]
    exact (shrunk_drop hlook).1
  · rw [heq]
    exact Shrunk.refl c

theorem len_evictLru (h : (evictLru order c).outcome = .ok ()) :
    (evictLru order c).state.models.len + 1 = c.models.len := by
  rcases evictLru_cases order c with ⟨id, model, hlook, -, heq⟩ | heq
  · rw [heq]
    exact (shrunk_drop hlook).2
  · rw [heq] at h
    cases h

theorem shrunk_evictUntilFits (order : IterOrder ModelId (LoadedModel F)) (needed : UInt32) (n : ℕ)
    (c : ModelCache F) : c.Shrunk (evictUntilFits order needed n c).state := by
  induction n generalizing c with
  | zero =>
      unfold evictUntilFits
      split <;> exact Shrunk.refl c
  | succ n ih =>
      unfold evictUntilFits
      split
      · exact Shrunk.refl c
      · split
        · exact Shrunk.refl c
        · exact Action.bind_rel (R := Shrunk) Shrunk.trans (shrunk_evictLru order c) fun _ => ih _

theorem evictUntilFits_fits {n : ℕ} (h : (evictUntilFits order needed n c).outcome.isOk) :
    (evictUntilFits order needed n c).state.currentMemoryMb + needed ≤ c.maxMemoryMb := by
  induction n generalizing c with
  | zero =>
      unfold evictUntilFits at h ⊢
      split at h
      · rename_i hfits
        rw [if_pos hfits]
        exact hfits
      · cases h
  | succ n ih =>
      unfold evictUntilFits at h ⊢
      split at h
      · rename_i hfits
        rw [if_pos hfits]
        exact hfits
      · rename_i hover
        rw [if_neg hover]
        split at h
        · cases h
        · rename_i hsome
          rw [if_neg hsome]
          obtain ⟨a, ha, hout, hstate⟩ := Action.bind_isOk h
          rw [hout] at h
          rw [hstate, ← (shrunk_evictLru order c).maxMemoryMb]
          exact ih h

/-- One round more makes no difference once there is a round for each model. -/
theorem evictUntilFits_succ {n : ℕ} (h : c.models.len ≤ n) :
    evictUntilFits order needed n c = evictUntilFits order needed (n + 1) c := by
  induction n generalizing c with
  | zero =>
      have hnone : c.models.len = 0 := Nat.le_zero.1 h
      simp only [evictUntilFits, hnone, if_true]
  | succ n ih =>
      have hrest : (do evictLru order; evictUntilFits order needed n) c =
          (do evictLru order; evictUntilFits order needed (n + 1)) c := by
        rcases (evictLru order c).outcome.ok_or_not with ⟨⟨⟩, hok⟩ | hfail
        · have hlen := len_evictLru hok
          rw [Action.bind_of_ok hok, Action.bind_of_ok hok, ih (by omega)]
        · show Action.bind _ _ c = Action.bind _ _ c
          unfold Action.bind
          cases hout : (evictLru order c).outcome with
          | ok a => rw [hout] at hfail; cases hfail
          | err e => rfl
          | panic => rfl
      show ite _ _ (ite _ _ _) = ite _ _ (ite _ _ _)
      rw [hrest]

/-- **The loop.**  With a round for each model the bound is never what ends it. -/
theorem evictUntilFits_loop {n : ℕ} (h : c.models.len ≤ n) :
    evictUntilFits order needed n c =
      if c.currentMemoryMb + needed ≤ c.maxMemoryMb then ⟨.ok (), c, []⟩
      else if c.models.len = 0 then outOfMemory needed c
      else (do evictLru order; evictUntilFits order needed n) c := by
  rw [evictUntilFits_succ h]
  rfl

/-! ## Making room -/

theorem shrunk_ensureSlot : c.Shrunk (ensureSlot order c c).state := by
  unfold ensureSlot
  split
  · exact shrunk_evictLru order c
  · exact Shrunk.refl c

theorem shrunk_ensureSpace (order : IterOrder ModelId (LoadedModel F)) (needed : UInt32)
    (c c' : ModelCache F) : c'.Shrunk (ensureSpace order needed c c').state := by
  unfold ensureSpace
  split
  · exact shrunk_evictUntilFits order needed _ c'
  · exact Shrunk.refl c'

theorem shrunk_ensureCapacity (order : IterOrder ModelId (LoadedModel F)) (needed : UInt32)
    (c : ModelCache F) : c.Shrunk (ensureCapacity order needed c).state := by
  exact Action.bind_rel (R := Shrunk) Shrunk.trans shrunk_ensureSlot fun _ => shrunk_ensureSpace order needed c _

theorem len_ensureSlot (h : (ensureSlot order c c).outcome = .ok ()) (ha : c.Accounted) :
    (ensureSlot order c c).state.models.len < c.maxModels := by
  have hcount := ha.count
  unfold ensureSlot at h ⊢
  split at h
  · rename_i hfull
    rw [if_pos hfull]
    have hlen := len_evictLru h
    omega
  · rename_i hroom
    rw [if_neg hroom]
    exact Nat.lt_of_not_le hroom

theorem toNat_add_of_lt {a b : UInt32} (h : a.toNat + b.toNat < 2 ^ 32) :
    (a + b).toNat = a.toNat + b.toNat := by
  rw [UInt32.toNat_add, Nat.mod_eq_of_lt h]

/-- With space made, so much more may be added to the counter, unless the first check was
made on a sum that had overflowed. -/
theorem space_ensureSpace {c' : ModelCache F} (hc : c.Shrunk c')
    (h : (ensureSpace order needed c c').outcome.isOk)
    (hlt : c.currentMemoryMb.toNat + needed.toNat < 2 ^ 32) :
    (ensureSpace order needed c c').state.currentMemoryMb.toNat + needed.toNat ≤
      c.maxMemoryMb.toNat := by
  have hcounter : (ensureSpace order needed c c').state.currentMemoryMb.toNat ≤
      c.currentMemoryMb.toNat := by
    have hle := UInt32.le_trans (shrunk_ensureSpace order needed c c').counter hc.counter
    exact UInt32.le_iff_toNat_le.1 hle
  have hsum := toNat_add_of_lt hlt
  unfold ensureSpace at h hcounter ⊢
  split at h
  · rename_i hover
    rw [if_pos hover] at hcounter ⊢
    have hfits := UInt32.le_iff_toNat_le.1 (evictUntilFits_fits h)
    rw [hc.maxMemoryMb, toNat_add_of_lt (by omega)] at hfits
    exact hfits
  · rename_i hroom
    rw [if_neg hroom] at hcounter ⊢
    have hfits : (c.currentMemoryMb + needed).toNat ≤ c.maxMemoryMb.toNat := by
      rw [UInt32.lt_iff_toNat_lt] at hroom
      exact Nat.le_of_not_lt hroom
    omega

/-- **What `ensure_capacity` ensures.** -/
theorem ensureCapacity_ok (h : (ensureCapacity order needed c).outcome.isOk) (ha : c.Accounted) :
    (ensureCapacity order needed c).state.models.len < c.maxModels ∧
    (c.currentMemoryMb.toNat + needed.toNat < 2 ^ 32 →
      (ensureCapacity order needed c).state.currentMemoryMb.toNat + needed.toNat ≤
        c.maxMemoryMb.toNat) := by
  unfold ensureCapacity at h ⊢
  obtain ⟨⟨⟩, hslot, hout, hstate⟩ := Action.bind_isOk h
  rw [hout] at h
  rw [hstate]
  refine ⟨?_, fun hlt => space_ensureSpace shrunk_ensureSlot h hlt⟩
  have hlen := len_ensureSlot hslot ha
  have hle := (shrunk_ensureSpace order needed c (ensureSlot order c c).state).len
  omega

end Evictions

/-! ## Calls and runs -/

/-- A call, with what it draws from the clock and from the order of the map. -/
inductive Call (F : Type) [F32 F]
  | get (modelId : ModelId) (now : ℕ)
  | release (modelId : ModelId)
  | insert (order : IterOrder ModelId (LoadedModel F)) (model : LoadedModel F)
  | clear

/-- The cache after a call, however it ended. -/
def step (c : ModelCache F) : Call F → ModelCache F
  | .get modelId now => (get modelId now c).state
  | .release modelId => (release modelId c).state
  | .insert order model => (insert order model c).state
  | .clear => (clear c).state

/-- The model can be stored in this cache and added to its counter: no other model loses its
place to it unaccounted for, and the sum is in range. -/
structure StoresCleanly (order : IterOrder ModelId (LoadedModel F)) (model : LoadedModel F)
    (c : ModelCache F) : Prop where
  /-- The evictions leave no model under its id, or one that counts for nothing. -/
  unshadowed : ∀ old, (ensureCapacity order model.info.estimateRamMb c).state.models.lookup
    model.info.id = some old → memory old = 0
  /-- `current + needed` does not overflow, or the model evicted for the slot made up for it. -/
  in_range : c.currentMemoryMb.toNat + memory model < 2 ^ 32 ∨
    (ensureCapacity order model.info.estimateRamMb c).state.currentMemoryMb.toNat + memory model ≤
      c.maxMemoryMb.toNat

/-- The condition on a call: an insertion that finds room stores cleanly. -/
def CallClean (c : ModelCache F) : Call F → Prop
  | .insert order model => (ensureCapacity order model.info.estimateRamMb c).outcome.isOk →
      StoresCleanly order model c
  | _ => True

section Steps

variable {c : ModelCache F}

theorem Accounted.touch (ha : c.Accounted) {id : ModelId} {model : LoadedModel F}
    (h : c.models.lookup id = some model) (used refs : ℕ) :
    Accounted { c with
      models := c.models.insert id { model with lastUsed := used, refCount := refs } } := by
  have hsum := Finmap.weigh_insert_old h { model with lastUsed := used, refCount := refs } memory
  have hsame : memory { model with lastUsed := used, refCount := refs } = memory model := rfl
  have hcounter := ha.counter
  refine ⟨?_, ?_, ha.space⟩
  · show c.currentMemoryMb.toNat = (c.models.insert id _).weigh memory
    omega
  · show (c.models.insert id _).len ≤ c.maxModels
    rw [Finmap.len_insert_old h]
    exact ha.count

theorem accounted_get (ha : c.Accounted) (id : ModelId) (now : ℕ) :
    (get id now c).state.Accounted := by
  unfold get
  split
  · rename_i model h
    exact ha.touch h now (model.refCount + 1)
  · exact ha

theorem accounted_release (ha : c.Accounted) (id : ModelId) : (release id c).state.Accounted := by
  unfold release
  split
  · rename_i model h
    exact ha.touch h model.lastUsed (model.refCount - 1)
  · exact ha

theorem accounted_clear (ha : c.Accounted) : (clear c).state.Accounted := by
  unfold clear
  split
  · exact ⟨rfl, Nat.zero_le _, UInt32.le_iff_toNat_le.2 (Nat.zero_le _)⟩
  · exact ha

/-- **Storing.**  With a slot made, the accounts stay right exactly when nothing was under the
id that counted, and the exact sum is within the limit. -/
theorem accounted_store {model : LoadedModel F} (ha : c.Accounted)
    (hslot : c.models.len < c.maxModels) :
    (store model c).state.Accounted ↔
      (∀ old, c.models.lookup model.info.id = some old → memory old = 0) ∧
        c.currentMemoryMb.toNat + memory model ≤ c.maxMemoryMb.toNat := by
  have hword : (c.currentMemoryMb + model.info.estimateRamMb).toNat =
      (c.currentMemoryMb.toNat + memory model) % 2 ^ 32 := UInt32.toNat_add _ _
  have hmax := c.maxMemoryMb.toNat_lt
  have hcounter := ha.counter
  have hlen : (c.models.insert model.info.id model).len ≤ c.maxModels :=
    Nat.le_trans (Finmap.len_insert_le _ _ _) hslot
  -- how far the sum over the map is from the sum the counter stands for
  have hsum : ∃ lost, (c.models.insert model.info.id model).weigh memory + lost =
      c.currentMemoryMb.toNat + memory model ∧ lost < 2 ^ 32 ∧
      ((∀ old, c.models.lookup model.info.id = some old → memory old = 0) ↔ lost = 0) := by
    cases hold : c.models.lookup model.info.id with
    | none =>
        refine ⟨0, ?_, by omega, by simp⟩
        rw [Finmap.weigh_insert_new (Finmap.lookup_eq_none.1 hold)]
        omega
    | some old =>
        refine ⟨memory old, ?_, old.info.estimateRamMb.toNat_lt, by simp⟩
        rw [Finmap.weigh_insert_old hold]
        omega
  obtain ⟨lost, hsum, hlt, hlost⟩ := hsum
  rw [hlost]
  constructor
  · rintro ⟨hafter, -, hmem⟩
    have hafter : (c.currentMemoryMb + model.info.estimateRamMb).toNat =
      (c.models.insert model.info.id model).weigh memory := hafter
    have hmem : (c.currentMemoryMb + model.info.estimateRamMb).toNat ≤ c.maxMemoryMb.toNat :=
      UInt32.le_iff_toNat_le.1 hmem
    omega
  · rintro ⟨rfl, hfits⟩
    have hexact : (c.currentMemoryMb + model.info.estimateRamMb).toNat =
        c.currentMemoryMb.toNat + memory model := by omega
    refine ⟨?_, hlen, ?_⟩
    · show (c.currentMemoryMb + model.info.estimateRamMb).toNat = _
      rw [hexact, ← hsum]
      rfl
    · show c.currentMemoryMb + model.info.estimateRamMb ≤ c.maxMemoryMb
      rw [UInt32.le_iff_toNat_le, hexact]
      exact hfits

/-- **Inserting.** -/
theorem accounted_insert (order : IterOrder ModelId (LoadedModel F)) (model : LoadedModel F)
    (ha : c.Accounted) :
    (insert order model c).state.Accounted ↔ CallClean c (.insert order model) := by
  have hshrunk := shrunk_ensureCapacity order model.info.estimateRamMb c
  unfold insert
  rcases (ensureCapacity order model.info.estimateRamMb c).outcome.ok_or_not with
    ⟨⟨⟩, hok⟩ | hfail
  · have hisOk : (ensureCapacity order model.info.estimateRamMb c).outcome.isOk :=
      Outcome.isOk_iff.2 ⟨(), hok⟩
    obtain ⟨hslot, hspace⟩ := ensureCapacity_ok hisOk ha
    rw [Action.bind_of_ok hok, accounted_store (hshrunk.accounted ha)
      (by rw [hshrunk.maxModels]; exact hslot), hshrunk.maxMemoryMb]
    constructor
    · rintro ⟨hunshadowed, hfits⟩ -
      exact ⟨hunshadowed, .inr hfits⟩
    · intro hclean
      obtain ⟨hunshadowed, hrange⟩ := hclean hisOk
      exact ⟨hunshadowed, hrange.elim hspace id⟩
  · rw [(Action.bind_of_not_ok hfail).2.1]
    refine iff_of_true (hshrunk.accounted ha) ?_
    intro hok
    rw [hfail] at hok
    cases hok

theorem accounted_step (ha : c.Accounted) (call : Call F) :
    (step c call).Accounted ↔ CallClean c call := by
  cases call with
  | get modelId now => exact iff_of_true (accounted_get ha modelId now) trivial
  | release modelId => exact iff_of_true (accounted_release ha modelId) trivial
  | insert order model => exact accounted_insert order model ha
  | clear => exact iff_of_true (accounted_clear ha) trivial

end Steps

theorem step_limits (c : ModelCache F) (call : Call F) :
    (step c call).maxModels = c.maxModels ∧ (step c call).maxMemoryMb = c.maxMemoryMb := by
  cases call with
  | get modelId now =>
      show (get modelId now c).state.maxModels = _ ∧ (get modelId now c).state.maxMemoryMb = _
      unfold get
      split <;> exact ⟨rfl, rfl⟩
  | release modelId =>
      show (release modelId c).state.maxModels = _ ∧ (release modelId c).state.maxMemoryMb = _
      unfold release
      split <;> exact ⟨rfl, rfl⟩
  | insert order model =>
      have hshrunk := shrunk_ensureCapacity order model.info.estimateRamMb c
      show (insert order model c).state.maxModels = _ ∧ (insert order model c).state.maxMemoryMb = _
      unfold insert
      rcases (ensureCapacity order model.info.estimateRamMb c).outcome.ok_or_not with
        ⟨⟨⟩, hok⟩ | hfail
      · rw [Action.bind_of_ok hok]
        exact ⟨hshrunk.maxModels, hshrunk.maxMemoryMb⟩
      · rw [(Action.bind_of_not_ok hfail).2.1]
        exact ⟨hshrunk.maxModels, hshrunk.maxMemoryMb⟩
  | clear =>
      show (clear c).state.maxModels = _ ∧ (clear c).state.maxMemoryMb = _
      unfold clear
      split <;> exact ⟨rfl, rfl⟩

theorem accounted_new (maxModels : ℕ) (maxMemoryMb : UInt32) :
    (new maxModels maxMemoryMb : ModelCache F).Accounted :=
  ⟨rfl, Nat.zero_le _, UInt32.le_iff_toNat_le.2 (Nat.zero_le _)⟩

/-- What is asked of a cache with these limits. -/
structure Within (maxModels : ℕ) (maxMemoryMb : UInt32) (c : ModelCache F) : Prop where
  counter : c.currentMemoryMb.toNat = c.models.weigh memory
  count : c.models.len ≤ maxModels
  space : c.currentMemoryMb ≤ maxMemoryMb

/-- **The accounts of the cache.**  In a run of calls on a new cache the counter is the sum of
the estimates, and both limits are respected, throughout exactly when every model that is
stored is stored cleanly. -/
theorem cache_accounts_iff (maxModels : ℕ) (maxMemoryMb : UInt32) (calls : List (Call F)) :
    Always step (Within maxModels maxMemoryMb) (new maxModels maxMemoryMb) calls ↔
      Along step CallClean (new maxModels maxMemoryMb) calls := by
  refine always_iff_along (R := fun _ _ => True)
    (I := fun c => c.Accounted ∧ c.maxModels = maxModels ∧ c.maxMemoryMb = maxMemoryMb)
    ?_ ?_ ?_ ⟨accounted_new maxModels maxMemoryMb, rfl, rfl⟩ along_true
  · rintro c ⟨⟨hcounter, hcount, hmem⟩, rfl, rfl⟩
    exact ⟨hcounter, hcount, hmem⟩
  · rintro c call ⟨ha, rfl, rfl⟩ -
    obtain ⟨hmodels, hmemory⟩ := step_limits c call
    rw [← accounted_step ha call]
    constructor
    · rintro ⟨hcounter, hcount, hmem⟩
      exact ⟨hcounter, hmodels ▸ hcount, hmemory ▸ hmem⟩
    · rintro ⟨hcounter, hcount, hmem⟩
      exact ⟨hcounter, hmodels ▸ hcount, hmemory ▸ hmem⟩
  · rintro c call ⟨-, rfl, rfl⟩ - ⟨hcounter, hcount, hmem⟩
    obtain ⟨hmodels, hmemory⟩ := step_limits c call
    exact ⟨⟨hcounter, hmodels.symm ▸ hcount, hmemory.symm ▸ hmem⟩, hmodels, hmemory⟩

/-! ## A model inserted twice -/

theorem ensureCapacity_of_room (order : IterOrder ModelId (LoadedModel F)) {needed : UInt32}
    {c : ModelCache F} (hslot : c.models.len < c.maxModels)
    (hspace : c.currentMemoryMb + needed ≤ c.maxMemoryMb) :
    ensureCapacity order needed c = ⟨.ok (), c, []⟩ := by
  unfold ensureCapacity ensureSlot ensureSpace
  rw [if_neg (Nat.not_le.2 hslot), if_neg (UInt32.not_lt.2 hspace)]
  rfl

theorem insert_of_room (order : IterOrder ModelId (LoadedModel F)) {model : LoadedModel F}
    {c : ModelCache F} (hslot : c.models.len < c.maxModels)
    (hspace : c.currentMemoryMb + model.info.estimateRamMb ≤ c.maxMemoryMb) :
    (insert order model c).state = (store model c).state := by
  have hroom := ensureCapacity_of_room order hslot hspace
  unfold insert
  rw [Action.bind_of_ok (a := ()) (by rw [hroom]), hroom]

/-- The order of the ids. -/
def alphabetical (V : Type) : IterOrder ModelId V := IterOrder.ranked id Function.injective_id

/-- A model of seven billion parameters. -/
def sevenB : LoadedModel ℚ := ⟨⟨"llama-7b", .Q4_K_M, 7⟩, 0, 0⟩

theorem estimate_sevenB : sevenB.info.estimateRamMb = 4500 := by decide +kernel

/-- **A model inserted twice is counted twice.**  The cache holds one model of 4500 MB and its
counter says 9000. -/
theorem reinserted_counts_twice :
    ¬ Always step (Within 10 100000) (new 10 100000)
      [.insert (alphabetical _) sevenB, .insert (alphabetical _) sevenB] := by
  intro h
  have hfirst : step (new 10 100000) (.insert (alphabetical _) sevenB) =
      (store sevenB (new 10 100000)).state :=
    insert_of_room _ (by decide) (by rw [estimate_sevenB]; decide)
  have hcounter : (store sevenB (new 10 100000)).state.currentMemoryMb = 4500 := by
    show (0 : UInt32) + sevenB.info.estimateRamMb = 4500
    rw [estimate_sevenB]
    rfl
  have hlen : (store sevenB (new 10 100000)).state.models.len ≤ 1 := Finmap.len_insert_le _ _ _
  have hroom : ensureCapacity (alphabetical _) sevenB.info.estimateRamMb
      (store sevenB (new 10 100000)).state = ⟨.ok (), (store sevenB (new 10 100000)).state, []⟩ := by
    refine ensureCapacity_of_room _ (Nat.lt_of_le_of_lt hlen (by decide)) ?_
    rw [hcounter, estimate_sevenB]
    decide
  rw [always_cons, hfirst, always_cons, always_nil] at h
  obtain ⟨-, ⟨hcounter, hcount, hspace⟩, ⟨hcounter', hcount', hspace'⟩⟩ := h
  obtain ⟨hmodels, hmemory⟩ := step_limits (store sevenB (new 10 100000)).state
    (.insert (alphabetical _) sevenB)
  have hclean := (accounted_step ⟨hcounter, hcount, hspace⟩ (.insert (alphabetical _) sevenB)).1
    ⟨hcounter', hmodels.symm ▸ hcount', hmemory.symm ▸ hspace'⟩
  have hshadow := (hclean (by rw [hroom]; rfl)).unshadowed
  rw [hroom] at hshadow
  have hzero : memory sevenB = 0 := hshadow sevenB (Finmap.lookup_insert _)
  rw [memory, estimate_sevenB] at hzero
  cases hzero

end ModelCache
end Inference
end PeerClaw
