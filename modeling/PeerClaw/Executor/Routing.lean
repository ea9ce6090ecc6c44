import PeerClaw.Executor.Resource

/-!
# Tasks that are placed nowhere

A task goes to the network if the node lacks what the task needs, or if the node is busier than one
threshold.  It is not executed on the node if the node is busier than another threshold, or if as
many tasks of its kind are active as may be.  So there are tasks that are not executed on the node
and do not go to the network either, and the router takes them for tasks without resources.

* `never_insufficient_iff` — with offloading allowed, when a task is placed.
* `insufficient_unknown` — where it is not, the router has no reason to give.
* `limit_not_offloaded` — a third inference on a node that is half idle.
-/

namespace PeerClaw

/-- How busy the node is. -/
def ResourceState.utilization (s : ResourceState) : Float := 1.0 - s.availableCapacity

/-- The model of an inference is loaded. -/
def ResourceState.loadedFor (s : ResourceState) : ExecutionTask → Bool
  | .inference t => s.hasModel t.model
  | _ => false

namespace RouterConfig

variable {c : RouterConfig} {s : ResourceState} {requirements : ResourceRequirements}
  {task : ExecutionTask}

/-! ## The two questions -/

theorem shouldExecuteLocally_iff : c.shouldExecuteLocally s requirements task = true ↔
    s.canHandle requirements = true ∧ (s.loadedFor task = true ∨
      ¬ c.localUtilizationThreshold < s.utilization ∧ c.atLimit s task = false) := by
  have hasked : c.shouldExecuteLocally s requirements task =
      if !s.canHandle requirements then false
      else if s.loadedFor task then true
      else if c.localUtilizationThreshold < s.utilization then false
      else !c.atLimit s task := by
    cases task <;> rfl
  rw [hasked]
  cases s.canHandle requirements with
  | false => simp
  | true =>
      cases s.loadedFor task with
      | true => simp
      | false =>
          by_cases hbusy : c.localUtilizationThreshold < s.utilization
          · simp [hbusy]
          · simp [hbusy]

theorem shouldOffload_iff : c.shouldOffload s requirements = true ↔ c.allowNetworkOffload = true ∧
    (s.canHandle requirements = false ∨ c.offloadThreshold < s.utilization) := by
  unfold shouldOffload
  rw [← ResourceState.utilization]
  cases s.canHandle requirements with
  | false => simp
  | true =>
      by_cases hbusy : c.offloadThreshold < s.utilization
      · simp [hbusy]
      · simp [hbusy]

/-! ## The decision -/

/-- The task is executed on the node, or else it goes to the network. -/
def Placed (c : RouterConfig) (s : ResourceState) (requirements : ResourceRequirements)
    (task : ExecutionTask) : Prop :=
  (∀ reason, c.routeWithRequirements s task requirements ≠ .insufficientResources reason) ∧
    (c.shouldExecuteLocally s requirements task = false →
      c.routeWithRequirements s task requirements =
        .offloadToNetwork (toJobRequirements requirements task))

theorem placed_iff : Placed c s requirements task ↔
    c.shouldExecuteLocally s requirements task = true ∨ c.shouldOffload s requirements = true := by
  unfold Placed routeWithRequirements
  cases c.shouldExecuteLocally s requirements task with
  | true => simp
  | false => cases c.shouldOffload s requirements <;> simp

/-- **When a task is placed.**  With offloading allowed: if the node lacks what the task needs, if
the model of the task is loaded, if the node is busier than the threshold for offloading, or if it
is no busier than the threshold for execution and fewer tasks of the kind are active than may be. -/
theorem never_insufficient_iff (c : RouterConfig) (hallow : c.allowNetworkOffload = true)
    (s : ResourceState) (requirements : ResourceRequirements) (task : ExecutionTask) :
    Placed c s requirements task ↔
      s.canHandle requirements = false ∨ s.loadedFor task = true ∨
        c.offloadThreshold < s.utilization ∨
        ¬ c.localUtilizationThreshold < s.utilization ∧ c.atLimit s task = false := by
  rw [placed_iff, shouldExecuteLocally_iff, shouldOffload_iff]
  cases s.canHandle requirements with
  | false => simp [hallow]
  | true =>
      simp only [hallow, true_and, Bool.true_eq_false, false_or]
      tauto

theorem buildInsufficientReason_of_canHandle (hallow : c.allowNetworkOffload = true)
    (h : s.canHandle requirements = true) :
    c.buildInsufficientReason s requirements = "unknown resource constraint" := by
  unfold ResourceState.canHandle at h
  split at h
  · cases h
  · next hram =>
      unfold buildInsufficientReason
      rw [if_neg hram, hallow]
      cases hneeded : requirements.vramMb with
      | none => rfl
      | some needed =>
          rw [hneeded] at h
          cases havailable : s.vramAvailableMb with
          | none =>
              rw [havailable] at h
              cases h
          | some available =>
              rw [havailable] at h
              have hle : needed ≤ available := of_decide_eq_true h
              simp only [if_neg (UInt32.not_lt.2 hle)]
              rfl

/-- **A task that is placed nowhere** although offloading is allowed has all it needs: the router
finds no reason. -/
theorem insufficient_unknown (hallow : c.allowNetworkOffload = true) {reason : String}
    (h : c.routeWithRequirements s task requirements = .insufficientResources reason) :
    reason = "unknown resource constraint" := by
  unfold routeWithRequirements at h
  split at h
  · cases h
  · split at h
    · cases h
    · next hoffload =>
        have hhandles : s.canHandle requirements = true := by
          by_contra hlacks
          exact hoffload (shouldOffload_iff.2 ⟨hallow, .inl (Bool.eq_false_iff.2 hlacks)⟩)
        rw [buildInsufficientReason_of_canHandle hallow hhandles] at h
        cases h
        rfl

section Example

/-- A node with room in which two inferences are active. -/
private def halfIdle : ResourceState :=
  { ResourceState.default with
    cpuUsage := 0.5
    ramTotalMb := 16000
    ramAvailableMb := 8000
    activeInferenceTasks := 2 }

private def small : ResourceRequirements := ⟨100, none, 1⟩

/-- The model is loaded, and a third inference is executed. -/
theorem never_insufficient_iff_loaded :
    Placed .default { halfIdle with loadedModels := ["tiny"] } small
      (.inference (.new "tiny" "hi")) :=
  (never_insufficient_iff .default rfl _ _ _).2 (.inr (.inl (by decide)))

/-- **A third inference**, on a node that is half idle: the default limit is reached, and the
threshold for offloading is not.  And a task on a node between the two default thresholds. -/
theorem limit_not_offloaded :
    RouterConfig.default.allowNetworkOffload = true ∧
      RouterConfig.default.routeWithRequirements halfIdle (.inference (.new "tiny" "hi")) small =
        .insufficientResources "unknown resource constraint" ∧
      RouterConfig.default.routeWithRequirements
          { halfIdle with cpuUsage := 0.75, ramAvailableMb := 800 }
          (.webSearch ⟨"news", 10, .duckDuckGo⟩) small =
        .insufficientResources "unknown resource constraint" := by
  refine ⟨rfl, ?_, ?_⟩
  · decide +kernel
  · decide +kernel

end Example

end RouterConfig
end PeerClaw
