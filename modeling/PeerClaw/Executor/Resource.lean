import PeerClaw.Executor.Payload
import PeerClaw.Inference.Cache

/-!
# Resources and routing

`executor/resource.rs` and `executor/router.rs`: the state that `ResourceMonitor`
keeps of the node, with its three counts of active tasks, and `TaskRouter`, which
reads it to decide where a task is executed.

* `taskStarted`, `taskCompleted` — the counts, one `u32` for each type of task.
  Adding wraps, as it does in a release build, and subtracting saturates.
* `routeWithRequirements` — the decision: locally, on the network, or nowhere.
* `atLimit_congr` — of the counts, the decision reads that of the type of the task.

The loads and the thresholds are `f64` numbers, and stay such.
-/

namespace PeerClaw

open Lib
open Inference (satSub32)

/-- Task type for tracking active tasks. -/
inductive TaskType
  | inference
  | wasm
  | web
  deriving DecidableEq, Repr

/-- The type that `execute_local` tracks a task under. -/
def ExecutionTask.tracked : ExecutionTask → TaskType
  | .inference _ => .inference
  | .wasmExecution _ => .wasm
  | .webFetch _ => .web
  | .webSearch _ => .web

/-- Resource requirements for task execution. -/
structure ResourceRequirements where
  ramMb : UInt32
  vramMb : Option UInt32
  cpuCores : UInt16

/-- Current resource state. -/
structure ResourceState where
  cpuUsage : Float
  ramTotalMb : UInt32
  ramAvailableMb : UInt32
  gpuUsage : Option Float
  vramAvailableMb : Option UInt32
  loadedModels : List String
  activeInferenceTasks : UInt32
  activeWasmTasks : UInt32
  activeWebTasks : UInt32

namespace ResourceState

/-- `ResourceState::default`. -/
def default : ResourceState := ⟨0, 0, 0, none, none, [], 0, 0, 0⟩

/-- The count of the active tasks of a type. -/
def active (s : ResourceState) : TaskType → UInt32
  | .inference => s.activeInferenceTasks
  | .wasm => s.activeWasmTasks
  | .web => s.activeWebTasks

/-- The state with another count of the active tasks of a type. -/
def setActive (s : ResourceState) (n : UInt32) : TaskType → ResourceState
  | .inference => { s with activeInferenceTasks := n }
  | .wasm => { s with activeWasmTasks := n }
  | .web => { s with activeWebTasks := n }

/-- Check if we can handle the given resource requirements. -/
def canHandle (s : ResourceState) (requirements : ResourceRequirements) : Bool :=
  if s.ramAvailableMb < requirements.ramMb then false
  else
    match requirements.vramMb with
    | none => true
    | some required =>
        match s.vramAvailableMb with
        | some available => decide (required ≤ available)
        | none => false

/-- Calculate available capacity ratio. -/
def availableCapacity (s : ResourceState) : Float :=
  let cpuAvailable := 1.0 - s.cpuUsage
  let ramRatio := s.ramAvailableMb.toFloat / (max s.ramTotalMb 1).toFloat
  (cpuAvailable + ramRatio) / 2.0

/-- Check if a model is loaded. -/
def hasModel (s : ResourceState) (modelId : String) : Bool := s.loadedModels.contains modelId

/-! ## The monitor -/

/-- `ResourceMonitor::task_started`. -/
def taskStarted (s : ResourceState) (taskType : TaskType) : ResourceState :=
  s.setActive (s.active taskType + 1) taskType

/-- `ResourceMonitor::task_completed`. -/
def taskCompleted (s : ResourceState) (taskType : TaskType) : ResourceState :=
  s.setActive (satSub32 (s.active taskType) 1) taskType

/-- `ResourceMonitor::register_loaded_model`. -/
def registerLoadedModel (s : ResourceState) (modelId : String) : ResourceState :=
  if s.hasModel modelId then s else { s with loadedModels := s.loadedModels ++ [modelId] }

/-- `ResourceMonitor::unregister_model`. -/
def unregisterModel (s : ResourceState) (modelId : String) : ResourceState :=
  { s with loadedModels := s.loadedModels.filter (· ≠ modelId) }

/-- One turn of the background updates. -/
def refresh (s : ResourceState) (cpuUsage : Float) (ramTotalMb ramUsedMb : UInt32)
    (gpuUsage : Option Float) : ResourceState :=
  { s with
    cpuUsage := cpuUsage
    ramTotalMb := ramTotalMb
    ramAvailableMb := satSub32 ramTotalMb ramUsedMb
    gpuUsage := gpuUsage }

@[simp] theorem active_setActive (s : ResourceState) (n : UInt32) (t t' : TaskType) :
    (s.setActive n t).active t' = if t' = t then n else s.active t' := by
  cases t <;> cases t' <;> rfl

@[simp] theorem active_refresh (s : ResourceState) (cpu : Float) (total used : UInt32)
    (gpu : Option Float) (t : TaskType) : (s.refresh cpu total used gpu).active t = s.active t := by
  cases t <;> rfl

@[simp] theorem active_unregisterModel (s : ResourceState) (modelId : String) (t : TaskType) :
    (s.unregisterModel modelId).active t = s.active t := by
  cases t <;> rfl

@[simp] theorem active_registerLoadedModel (s : ResourceState) (modelId : String) (t : TaskType) :
    (s.registerLoadedModel modelId).active t = s.active t := by
  unfold registerLoadedModel
  split
  · rfl
  · cases t <;> rfl

theorem toNat_active_taskStarted (s : ResourceState) (t t' : TaskType) :
    ((s.taskStarted t).active t').toNat =
      if t' = t then ((s.active t).toNat + 1) % 2 ^ 32 else (s.active t').toNat := by
  unfold taskStarted
  rw [active_setActive]
  split
  · rw [UInt32.toNat_add]
    rfl
  · rfl

theorem toNat_active_taskCompleted (s : ResourceState) (t t' : TaskType) :
    ((s.taskCompleted t).active t').toNat =
      if t' = t then (s.active t).toNat - 1 else (s.active t').toNat := by
  unfold taskCompleted
  rw [active_setActive]
  split
  · unfold satSub32
    split
    · rename_i hle
      rw [UInt32.toNat_sub_of_le _ _ hle]
      rfl
    · rename_i hlt
      have hzero : (s.active t).toNat < 1 := UInt32.lt_iff_toNat_lt.1 (UInt32.not_le.1 hlt)
      rw [Nat.lt_one_iff.1 hzero]
      rfl
  · rfl

end ResourceState

/-! ## The router -/

/-- Configuration for task routing. -/
structure RouterConfig where
  localUtilizationThreshold : Float
  offloadThreshold : Float
  allowNetworkOffload : Bool
  maxConcurrentInference : UInt32
  maxConcurrentWasm : UInt32

/-- `RouterConfig::default`. -/
def RouterConfig.default : RouterConfig := ⟨0.8, 0.9, true, 2, 10⟩

/-- Filter for finding suitable network peers to handle a task. -/
structure PeerFilter where
  minRamMb : Option UInt32
  minVramMb : Option UInt32
  minCpuCores : Option UInt16
  requiredModel : Option String
  requiredCapabilities : List String
  deriving DecidableEq

/-- The decision from the router. -/
inductive RoutingDecision
  | executeLocally
  | offloadToNetwork (requirements : PeerFilter)
  | insufficientResources (reason : String)
  deriving DecidableEq

namespace RouterConfig

variable (c : RouterConfig)

/-- Whether as many tasks of the type are active as may be. -/
def atLimit (s : ResourceState) : ExecutionTask → Bool
  | .inference _ => decide (c.maxConcurrentInference ≤ s.activeInferenceTasks)
  | .wasmExecution _ => decide (c.maxConcurrentWasm ≤ s.activeWasmTasks)
  | _ => false

/-- Check if task should be executed locally. -/
def shouldExecuteLocally (s : ResourceState) (requirements : ResourceRequirements)
    (task : ExecutionTask) : Bool :=
  if !s.canHandle requirements then false
  else
    let loaded :=
      match task with
      | .inference t => s.hasModel t.model
      | _ => false
    if loaded then true
    else
      let utilization := 1.0 - s.availableCapacity
      if c.localUtilizationThreshold < utilization then false
      else !c.atLimit s task

/-- Check if task should be offloaded to the network. -/
def shouldOffload (s : ResourceState) (requirements : ResourceRequirements) : Bool :=
  let utilization := 1.0 - s.availableCapacity
  if !s.canHandle requirements then c.allowNetworkOffload
  else if c.offloadThreshold < utilization then c.allowNetworkOffload
  else false

/-- Build explanation for why resources are insufficient. -/
def buildInsufficientReason (s : ResourceState) (requirements : ResourceRequirements) : String :=
  let ram :=
    if s.ramAvailableMb < requirements.ramMb then
      ["need " ++ toString requirements.ramMb ++ "MB RAM, have " ++ toString s.ramAvailableMb ++
        "MB"]
    else []
  let vram :=
    match requirements.vramMb with
    | none => []
    | some required =>
        match s.vramAvailableMb with
        | none => ["GPU required but not available"]
        | some available =>
            if available < required then
              ["need " ++ toString required ++ "MB VRAM, have " ++ toString available ++ "MB"]
            else []
  let network := if !c.allowNetworkOffload then ["network offload disabled"] else []
  let reasons := ram ++ vram ++ network
  if reasons.isEmpty then "unknown resource constraint" else "; ".intercalate reasons

/-- Convert task requirements to job requirements for network offload. -/
def toJobRequirements (requirements : ResourceRequirements) (task : ExecutionTask) : PeerFilter where
  minRamMb := some requirements.ramMb
  minVramMb := requirements.vramMb
  minCpuCores := some requirements.cpuCores
  requiredModel :=
    match task with
    | .inference t => some t.model
    | _ => none
  requiredCapabilities :=
    match task with
    | .inference _ => ["inference"]
    | .wasmExecution _ => ["wasm"]
    | _ => ["web_proxy"]

/-- `TaskRouter::route_with_requirements` in a state of the monitor. -/
def routeWithRequirements (s : ResourceState) (task : ExecutionTask)
    (requirements : ResourceRequirements) : RoutingDecision :=
  if c.shouldExecuteLocally s requirements task then .executeLocally
  else if c.shouldOffload s requirements then
    .offloadToNetwork (toJobRequirements requirements task)
  else .insufficientResources (c.buildInsufficientReason s requirements)

variable {c} {s s' : ResourceState}

theorem atLimit_congr {task : ExecutionTask} (h : s.active task.tracked = s'.active task.tracked) :
    c.atLimit s task = c.atLimit s' task := by
  cases task with
  | inference t => exact congrArg (fun n => decide (c.maxConcurrentInference ≤ n)) h
  | wasmExecution t => exact congrArg (fun n => decide (c.maxConcurrentWasm ≤ n)) h
  | webFetch t => rfl
  | webSearch t => rfl

end RouterConfig
end PeerClaw
