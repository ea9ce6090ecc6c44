import PeerClaw.Lib.Batching
import PeerClaw.Lib.Action
import Mathlib.Data.List.MinMax
import Mathlib.Data.Rat.Floor

/-!
# The model cache

`ModelCache` in `inference/cache.rs`: loaded models by id, a limit on their
number, a limit on their memory, and a counter of the memory they take.

* `ModelInfo.estimateRamMb` — what a model counts for; the operations on floats
  are a parameter.
* `ModelCache.get`, `release`, `insert`, `clear` — the methods.
* `ModelCache.ensureCapacity` — the evictions before an insertion, by least
  recent use among the models that are not in use.
-/

namespace PeerClaw
namespace Inference

open Lib

/-- What the memory estimate needs of `f32`; nothing depends on its rounding. -/
class F32 (F : Type) extends Mul F, Add F where
  /-- A whole number written as a literal. -/
  lit : ℕ → F
  /-- The cast `as u32`: truncates, and saturates at both ends. -/
  asU32 : F → UInt32

/-- Exact arithmetic, in place of `f32` where the values are small. -/
instance : F32 ℚ where
  lit := fun n => n
  asU32 := fun q => UInt32.ofNat (min ⌊q⌋.toNat (2 ^ 32 - 1))

/-- Quantization type. -/
inductive Quantization
  | F32 | F16 | Q8_0 | Q6_K | Q5_K_M | Q4_K_M | Q4_0 | Q3_K_M | Q2_K | Unknown
  deriving DecidableEq, Repr

/-- The model ids are file names without their extension. -/
abbrev ModelId := String

/-- What the cache reads of a model's metadata. -/
structure ModelInfo (F : Type) where
  id : ModelId
  quantization : Quantization
  /-- Number of parameters in billions. -/
  parametersBillions : F
  deriving DecidableEq

/-- The factor of the estimate: megabytes for each billion of parameters. -/
def Quantization.mbPerBillion : Quantization → ℕ
  | .F32 => 4000
  | .F16 => 2000
  | .Q8_0 => 1000
  | .Q6_K => 750
  | .Q5_K_M => 625
  | .Q4_K_M => 500
  | .Q4_0 => 500
  | .Q3_K_M => 375
  | .Q2_K => 250
  | .Unknown => 500

/-- Estimate RAM requirements in MB: the weights and the KV cache. -/
def ModelInfo.estimateRamMb {F : Type} [F32 F] (info : ModelInfo F) : UInt32 :=
  let baseSize := info.parametersBillions * F32.lit info.quantization.mbPerBillion
  F32.asU32 (baseSize + F32.lit 1000)

/-- A loaded model ready for inference. -/
structure LoadedModel (F : Type) where
  info : ModelInfo F
  /-- The instant of the last use. -/
  lastUsed : ℕ
  /-- Reference count for concurrent usage. -/
  refCount : ℕ
  deriving DecidableEq

/-- LRU cache for loaded models. -/
structure ModelCache (F : Type) where
  models : FiniteMap ModelId (LoadedModel F)
  maxModels : ℕ
  maxMemoryMb : UInt32
  currentMemoryMb : UInt32

inductive CacheError
  | allModelsInUse
  | insufficientMemory (needed available : UInt32)
  deriving DecidableEq, Repr

variable {F : Type} [F32 F]

/-- Saturating subtraction on `u32`. -/
def satSub32 (a b : UInt32) : UInt32 := if b ≤ a then a - b else 0

namespace ModelCache

/-! ## The operations -/

def new (maxModels : ℕ) (maxMemoryMb : UInt32) : ModelCache F where
  models := ∅
  maxModels := maxModels
  maxMemoryMb := maxMemoryMb
  currentMemoryMb := 0

/-- Get a loaded model by ID: it is used now, and by one more. -/
def get (modelId : ModelId) (now : ℕ) : Action (ModelCache F) CacheError (Option (LoadedModel F)) :=
  fun c =>
    match c.models.lookup modelId with
    | some model =>
        let used := { model with lastUsed := now, refCount := model.refCount + 1 }
        ⟨.ok (some used), { c with models := c.models.insert modelId used }, []⟩
    | none => ⟨.ok none, c, []⟩

/-- Release a reference to a model. -/
def release (modelId : ModelId) : Action (ModelCache F) CacheError Unit := fun c =>
  match c.models.lookup modelId with
  | some model =>
      let released := { model with refCount := model.refCount - 1 }
      ⟨.ok (), { c with models := c.models.insert modelId released }, []⟩
  | none => ⟨.ok (), c, []⟩

/-- The models not in use, with their last use, in the order of the map. -/
def candidates (order : IterOrder ModelId (LoadedModel F)) (c : ModelCache F) : List (ModelId × ℕ) :=
  (order.keys c.models).filterMap fun id =>
    match c.models.lookup id with
    | some model => if model.refCount = 0 then some (id, model.lastUsed) else none
    | none => none

/-- The cache without a model, and without its memory. -/
def drop (c : ModelCache F) (id : ModelId) (model : LoadedModel F) : ModelCache F :=
  { c with
    models := c.models.erase id
    currentMemoryMb := satSub32 c.currentMemoryMb model.info.estimateRamMb }

/-- Evict the least recently used model. -/
def evictLru (order : IterOrder ModelId (LoadedModel F)) : Action (ModelCache F) CacheError Unit := fun c =>
  match (c.candidates order).argmin Prod.snd with
  | some (id, _) =>
      match c.models.lookup id with
      | some model => ⟨.ok (), c.drop id model, []⟩
      | none => ⟨.ok (), c, []⟩
  | none => ⟨.err .allModelsInUse, c, []⟩

/-- There is not enough space, and nothing left to evict. -/
def outOfMemory (neededMb : UInt32) : Action (ModelCache F) CacheError Unit := fun c =>
  ⟨.err (.insufficientMemory neededMb (satSub32 c.maxMemoryMb c.currentMemoryMb)), c, []⟩

/-- Evict models until we have enough space; the count bounds the rounds of the loop. -/
def evictUntilFits (order : IterOrder ModelId (LoadedModel F)) (neededMb : UInt32) :
    ℕ → Action (ModelCache F) CacheError Unit
  | 0 => fun c =>
      if c.currentMemoryMb + neededMb ≤ c.maxMemoryMb then ⟨.ok (), c, []⟩
      else outOfMemory neededMb c
  | count + 1 => fun c =>
      if c.currentMemoryMb + neededMb ≤ c.maxMemoryMb then ⟨.ok (), c, []⟩
      else if c.models.len = 0 then outOfMemory neededMb c
      else (do evictLru order; evictUntilFits order neededMb count) c

/-- Check the limit on the number of models, as it was found. -/
def ensureSlot (order : IterOrder ModelId (LoadedModel F)) (found : ModelCache F) :
    Action (ModelCache F) CacheError Unit :=
  if found.maxModels ≤ found.models.len then evictLru order else pure ()

/-- Check the limit on the memory, by the counter as it was found. -/
def ensureSpace (order : IterOrder ModelId (LoadedModel F)) (neededMb : UInt32) (found : ModelCache F) :
    Action (ModelCache F) CacheError Unit :=
  if found.maxMemoryMb < found.currentMemoryMb + neededMb then
    evictUntilFits order neededMb found.models.len
  else pure ()

/-- Ensure we have capacity for a model of the given size. The counter and the number of models
are read once, before the first eviction. -/
def ensureCapacity (order : IterOrder ModelId (LoadedModel F)) (neededMb : UInt32) :
    Action (ModelCache F) CacheError Unit := fun found =>
  (do ensureSlot order found; ensureSpace order neededMb found) found

/-- Store a model and add to the counter. -/
def store (model : LoadedModel F) : Action (ModelCache F) CacheError Unit := fun c =>
  ⟨.ok (), { c with
    models := c.models.insert model.info.id model
    currentMemoryMb := c.currentMemoryMb + model.info.estimateRamMb }, []⟩

/-- Insert a loaded model into the cache. -/
def insert (order : IterOrder ModelId (LoadedModel F)) (model : LoadedModel F) :
    Action (ModelCache F) CacheError Unit := do
  ensureCapacity order model.info.estimateRamMb
  store model

/-- Clear the cache, unloading all models. -/
def clear : Action (ModelCache F) CacheError Unit := fun c =>
  if ∀ id ∈ c.models.keys, ∀ model ∈ c.models.lookup id, model.refCount = 0 then
    ⟨.ok (), { c with models := ∅, currentMemoryMb := 0 }, []⟩
  else ⟨.err .allModelsInUse, c, []⟩

end ModelCache
end Inference
end PeerClaw
