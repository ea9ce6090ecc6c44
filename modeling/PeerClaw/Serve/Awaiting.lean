import PeerClaw.Executor.Capacity
import PeerClaw.Tools.Registry

/-!
# What is awaited of the event loop

`peerclaw serve` has one event loop.  It answers the inference requests and the commands of
tools that wait in its channels, and bids and results only arrive when it polls the swarm.
`Reply` is what nothing else produces.  Here are the two places where other modules await
such a reply: the executor, when it offloads a task, and the tools that send the node a
command.

* `callReplies` — what a call of the executor awaits; `callReplies_eq_nil_iff` — when nothing.
* `toolReplies` — what a call of a tool awaits; `toolReplies_eq_nil_iff` — when nothing.
-/

namespace PeerClaw

open Lib

/-- What only another iteration of the event loop produces. -/
inductive Reply
  /-- The answer to an `InferenceRequest` that was queued on `inference_tx`. -/
  | inference
  /-- The reply to a `NodeToolCommand` that was queued on `node_tool_tx`; some are awaited for a
  limited time. -/
  | nodeTool (timeout : Bool)
  /-- The bids for a job. -/
  | bids
  /-- The result of a job. -/
  | jobResult
  deriving DecidableEq

/-- The reply is awaited without an end. -/
def Reply.endless : Reply → Bool
  | .inference => true
  | .nodeTool timeout => !timeout
  | _ => false

/-! ## The executor -/

/-- What a call of the executor meets. -/
structure Routing where
  state : ResourceState
  /-- What `routing_requirements_for_task` says. -/
  requirements : ResourceRequirements
  /-- Whether `connected_peers` is empty. -/
  alone : Bool
  /-- Whether the request of an offloaded task is stored and published. -/
  broadcast : Bool
  /-- Whether a bid is there, is accepted, and the winner told. -/
  accepted : Bool

/-- What the executor finds when it goes on. -/
def Routing.draw (r : Routing) : TaskExecutor.Draw := ⟨true, r.requirements, r.alone, false⟩

namespace TaskExecutor

variable (x : TaskExecutor) (r : Routing)

/-- Whether a call comes to wait for the remote executor, in so many waits. -/
def offloads : ℕ → Future → Bool
  | _, .remote _ _ => true
  | _, .remoteStreaming _ _ => true
  | 0, _ => false
  | n + 1, f =>
      match (x.resume r.state r.draw f).2 with
      | some next => offloads n next
      | none => false

/-- What `RemoteExecutor::execute` awaits: when the request is out, bids, and when one is
accepted, the result. -/
def remoteReplies : List Reply :=
  if r.broadcast then .bids :: (if r.accepted then [.jobResult] else []) else []

/-- What a call of the executor awaits.  Its last wait but two is for the peers. -/
def callReplies (c : Call) : List Reply := if x.offloads r 2 c.future then remoteReplies r else []

/-- The router does not offload the task. -/
def KeepsHere (task : ExecutionTask) : Prop :=
  ∀ requirements,
    x.router.routeWithRequirements r.state task r.requirements ≠ .offloadToNetwork requirements

/-- A call is not offloaded, or its request cannot be sent.  Without peers a task is executed
here, unless it is streamed. -/
def Stays : Call → Prop
  | .execute task =>
      x.KeepsHere r task ∨ (x.network = true ∧ r.alone = true) ∨ x.remoteExecutor = false ∨
        r.broadcast = false
  | .executeInferenceStreaming task =>
      x.KeepsHere r (.inference task) ∨ x.remoteExecutor = false ∨ r.broadcast = false
  | _ => True

variable {x r}

theorem offloads_execute_iff {task : ExecutionTask} :
    x.offloads r 2 (.route task) = true ↔
      ¬ x.KeepsHere r task ∧ (x.network = true → r.alone = false) ∧ x.remoteExecutor = true := by
  unfold KeepsHere
  cases hroute : x.router.routeWithRequirements r.state task r.requirements with
  | offloadToNetwork requirements =>
      cases hnet : x.network <;> cases hremote : x.remoteExecutor <;> cases halone : r.alone <;>
        simp [offloads, resume, Routing.draw, hroute, hnet, hremote, halone]
  | executeLocally => simp [offloads, resume, Routing.draw, hroute]
  | insufficientResources reason => simp [offloads, resume, Routing.draw, hroute]

theorem offloads_streaming_iff {task : InferenceTask} :
    x.offloads r 2 (.routeStreaming task) = true ↔
      ¬ x.KeepsHere r (.inference task) ∧ x.remoteExecutor = true := by
  unfold KeepsHere
  cases hroute : x.router.routeWithRequirements r.state (.inference task) r.requirements with
  | offloadToNetwork requirements =>
      cases hremote : x.remoteExecutor <;>
        simp [offloads, resume, Routing.draw, hroute, hremote]
  | executeLocally => simp [offloads, resume, Routing.draw, hroute]
  | insufficientResources reason => simp [offloads, resume, Routing.draw, hroute]

theorem remoteReplies_eq_nil_iff : remoteReplies r = [] ↔ r.broadcast = false := by
  unfold remoteReplies
  cases r.broadcast with
  | true => simp
  | false => simp

/-- **When a call of the executor awaits nothing.** -/
theorem callReplies_eq_nil_iff {c : Call} : x.callReplies r c = [] ↔ x.Stays r c := by
  unfold callReplies
  cases c with
  | execute task =>
      show (if x.offloads r 2 (.route task) = true then _ else _) = [] ↔ _
      have hiff := @offloads_execute_iff x r task
      unfold Stays
      split
      · rename_i hoff
        obtain ⟨hkeep, halone, hremote⟩ := hiff.1 hoff
        rw [remoteReplies_eq_nil_iff]
        constructor
        · exact fun h => .inr (.inr (.inr h))
        · rintro (h | ⟨hnet, h⟩ | h | h)
          · exact absurd h hkeep
          · rw [halone hnet] at h
            cases h
          · rw [hremote] at h
            cases h
          · exact h
      · rename_i hoff
        refine iff_of_true rfl ?_
        by_contra hnot
        rw [not_or, not_or, not_or] at hnot
        refine hoff (hiff.2 ⟨hnot.1, fun hnet => ?_, by simpa using hnot.2.2.1⟩)
        by_contra halone
        exact hnot.2.1 ⟨hnet, by simpa using halone⟩
  | executeInferenceStreaming task =>
      show (if x.offloads r 2 (.routeStreaming task) = true then _ else _) = [] ↔ _
      have hiff := @offloads_streaming_iff x r task
      unfold Stays
      split
      · rename_i hoff
        obtain ⟨hkeep, hremote⟩ := hiff.1 hoff
        rw [remoteReplies_eq_nil_iff]
        constructor
        · exact fun h => .inr (.inr h)
        · rintro (h | h | h)
          · exact absurd h hkeep
          · rw [hremote] at h
            cases h
          · exact h
      · rename_i hoff
        refine iff_of_true rfl ?_
        by_contra hnot
        rw [not_or, not_or] at hnot
        exact hoff (hiff.2 ⟨hnot.1, by simpa using hnot.2.1⟩)
  | executeLocal task => exact iff_of_true rfl trivial
  | executeInferenceStreamingPrint task => exact iff_of_true rfl trivial

end TaskExecutor

/-! ## Tools that send the node a command -/

namespace Tools

/-- `MAX_AGENT_DEPTH`. -/
def maxAgentDepth : UInt32 := 3

/-- Whether a number is greater than zero, as an `f64`. -/
def positive : Number → Bool
  | .posInt n => 0 < n
  | .negInt _ => false
  | .float text => !Text.startsWith text "-" && text ≠ "0.0"

/-- The budget that `agent_spawn` reads is greater than zero; without one it is 2. -/
def budgetPositive (params : Value) : Bool :=
  match params.get? "budget" with
  | some (.number n) => positive n
  | _ => true

/-- The payload of a job that `job_submit` submits. -/
def jobPayload (params : Value) (jobType : String) : Option String :=
  match jobType with
  | "inference" => (optionalStr params "prompt").or (optionalStr params "payload")
  | "web_fetch" => (optionalStr params "url").or (optionalStr params "payload")
  | "wasm" => (optionalStr params "tool_name").or (optionalStr params "payload")
  | "compute" | "storage" => optionalStr params "payload"
  | _ => none

/-- Whether the execution of a tool sends a `NodeToolCommand`, and if so, whether it awaits the
reply for a limited time. -/
def command (agentDepth : UInt32) (name : String) (params : Value) : Option Bool :=
  match name with
  | "job_submit" =>
      ((optionalStr params "type").bind (jobPayload params)).map fun _ => false
  | "job_status" => (optionalStr params "job_id").map fun _ => false
  | "peer_discovery" | "wallet_balance" => some false
  | "llm_task" => (optionalStr params "task").map fun _ => false
  | "agent_spawn" =>
      if maxAgentDepth ≤ agentDepth then none
      else
        match optionalStr params "goal" with
        | some _ => if budgetPositive params then some true else none
        | none => none
  | _ => none

/-- What a tool is executed with. -/
structure Toolbox where
  registry : ToolRegistry
  env : EgressEnv
  ctx : ToolContext

/-- What a call of a tool awaits, where the context has a `node_tool_tx`. -/
def Toolbox.replies (box : Toolbox) (name : String) (params : Value) : List PeerClaw.Reply :=
  match box.registry.screen box.env box.ctx name params with
  | .ok _ => ((command box.ctx.agentDepth name params).map PeerClaw.Reply.nodeTool).toList
  | .error _ => []

/-- **When a call of a tool awaits nothing.** -/
theorem Toolbox.replies_eq_nil_iff {box : Toolbox} {name : String} {params : Value} :
    box.replies name params = [] ↔
      (box.registry.screen box.env box.ctx name params = .ok () →
        command box.ctx.agentDepth name params = none) := by
  unfold Toolbox.replies
  cases box.registry.screen box.env box.ctx name params with
  | ok u => simp
  | error e => simp

end Tools
end PeerClaw
