import PeerClaw.Serve.Activities
import PeerClaw.Crew.Messages

/-!
# The event loop of `peerclaw serve`

One iteration polls the swarm, takes a request, a command of a tool and a task of the agent
from their channels, drains those of crews and flows, and looks at the bids.  All of it is
done inline: what a stage starts, the loop awaits before it comes to the next one.  The
stages that start none of this — the dial queue, the submitted jobs, the broadcasts, the
statistics, the sweep of the escrows, the advertisements — are left out.

* `EventLoop.step` — a sender puts something into a channel, or the loop does one stage.
* `Activity.Calm` — what a stage starts awaits nothing of the loop.
* `blocked_run` — a reply without a time limit is awaited for ever.
* `agentTask_blocks` — so does a task of the agent block the loop.
* `awaits_nothing_iff` — in which runs the loop never awaits a reply that only a later
  iteration produces.
-/

namespace PeerClaw

open Lib Tools

/-! ## What waits in the channels -/

/-- `InferenceRequest`, without where the answer goes. -/
structure InferenceRequest where
  prompt : String
  model : String
  maxTokens : UInt32
  temperature : Float32
  /-- There is a `stream_delta_tx`. -/
  streamed : Bool

/-- `NodeToolCommand`, without where the reply goes. -/
inductive NodeToolCommand
  | submitP2pJob (jobType : String) (budget : Float) (payload : String)
  | describeP2pJob (jobId : String)
  | queryPeers
  | queryWallet (includeHistory : Bool) (historyLimit : ℕ)
  | inferenceRequest (prompt : String) (model : Option String) (maxTokens : UInt32)
      (temperature : Float32) (systemPrompt : Option String)
  | spawnSubAgent (goal taskType : String) (budget : Float) (model : Option String)

/-- `AgentTaskRequest`: a task for the agent of the node. -/
structure AgentTaskRequest where
  description : String
  extras : AgentTaskExtras

structure CrewKickoffJob where
  spec : CrewSpec
  inputs : Value

structure FlowKickoffJob where
  spec : FlowSpec CrewSpec
  inputs : Value

/-- The task of an inference request. -/
def InferenceRequest.call (r : InferenceRequest) : TaskExecutor.Call :=
  let task : InferenceTask :=
    { InferenceTask.new r.model r.prompt with maxTokens := r.maxTokens, temperature := r.temperature }
  if r.streamed then .executeInferenceStreaming task else .execute (.inference task)

/-! ## The node -/

/-- What is fixed while the loop runs. -/
structure ServeNode where
  localPeerId : String
  router : RouterConfig
  box : Toolbox
  flows : FlowWorld
  crews : CrewWorld
  /-- The agent of `--agent`, as it was loaded. -/
  agent : Option AgentConfig
  /-- The web server is enabled. -/
  web : Bool
  /-- `--crew-worker`. -/
  crewWorker : Bool
  /-- `crew_worker_prompt_fmt`. -/
  crewWorkerPromptFmt : String

/-- What a poll of the swarm brings. -/
inductive SwarmEvent
  /-- Nothing, or an event for which the loop executes nothing. -/
  | quiet
  /-- A bid is accepted; the request of the job may be pending here. -/
  | bidAccepted (winnerPeerId : String) (pending : Option JobRequest)
  /-- A task of a crew is offered, and how its checks and its claim turn out. -/
  | crewTaskOffer (source : Option String) (offer : CrewTaskOffer) (nowMs : UInt64)
      (verified claimed : Bool)

/-- A pending request whose bids have been collected. -/
structure CollectedBids where
  request : JobRequest
  /-- Who made the best bid, if it could be accepted. -/
  winner : Option String
  /-- The job could be started. -/
  started : Bool
  routing : Routing

/-- What a stage of the loop finds. -/
structure StageDraws where
  event : SwarmEvent
  routing : Routing
  /-- The names of the models that are available. -/
  models : List String
  agent : AgentDraws
  crew : ℕ → AgentDraws
  crewRouting : ℕ → ℕ → Routing
  /-- There is an MCP manager. -/
  mcp : Bool
  flow : FlowDraws
  collected : List CollectedBids

/-- What a stage starts and awaits. -/
inductive Activity
  | call (routing : Routing) (call : TaskExecutor.Call)
  | task (run : AgentRun)
  | crew (job : CrewKickoffJob)
  | flow (job : FlowKickoffJob) (defaultModel : String)

/-- The stages of an iteration, in order. -/
inductive Stage
  | poll
  | inference
  | nodeTool
  | agentTask
  | crews
  | flows
  | ticks
  deriving DecidableEq

/-- The state of the loop. -/
structure EventLoop where
  stage : Stage
  /-- The configuration of the agent; a sub-agent with a model of its own leaves it there. -/
  agent : Option AgentConfig
  inferenceRx : List InferenceRequest
  nodeToolRx : List NodeToolCommand
  agentTaskRx : List AgentTaskRequest
  crewKickoffRx : List CrewKickoffJob
  flowKickoffRx : List FlowKickoffJob
  /-- What the last stage awaited. -/
  awaited : List Reply

/-- What is put into a channel. -/
inductive Sent
  | inference (request : InferenceRequest)
  | command (command : NodeToolCommand)
  | agentTask (request : AgentTaskRequest)
  | crew (job : CrewKickoffJob)
  | flow (job : FlowKickoffJob)

/-- What happens next. -/
inductive LoopInput
  | send (sent : Sent)
  /-- The loop does its next stage. -/
  | proceed (draws : StageDraws)

namespace ServeNode

variable (n : ServeNode)

/-- The executor: `Runtime::new` gives it the network and the remote executor. -/
def executor : TaskExecutor := ⟨n.router, true, true⟩

/-- Crews have the sink of the web server if there is an agent. -/
def crewWorld : CrewWorld := { n.crews with inferenceSink := n.agent.isSome }

/-! ## What the stages start -/

/-- The task that is executed for the offer of a crew. -/
def offeredTask (offer : CrewTaskOffer) (firstModel : String) : InferenceTask :=
  let hint := Text.trim offer.modelHint
  (InferenceTask.new (if hint = "" then firstModel else hint)
    (subst n.crewWorkerPromptFmt [("summary", Text.trim offer.summary)])).withMaxTokens 256

/-- `handle_network_event`, as far as it executes a task. -/
def onEvent (models : List String) : SwarmEvent → Option ExecutionTask
  | .quiet => none
  | .bidAccepted winnerPeerId pending =>
      if winnerPeerId = n.localPeerId then pending.bind executeProviderJob else none
  | .crewTaskOffer source offer nowMs verified claimed =>
      match source with
      | none => none
      | some src =>
          if !n.crewWorker || src = n.localPeerId then none
          else if offer.expiresAtMs < nowMs then none
          else if !verified || !claimed then none
          else models.head?.map fun firstModel => .inference (n.offeredTask offer firstModel)

/-- A task that the agent of the node runs: it has the sink of the web server, and no sessions
are stored. -/
def agentRun (d : AgentDraws) (config : AgentConfig) (userInput : String)
    (extras : AgentTaskExtras) : AgentRun where
  runtime := d.runtime
  input := { d with history := [] }.input config n.crews.prompts true userInput extras

/-- What a command of a tool starts. -/
def onCommand (d : StageDraws) (agent : Option AgentConfig) : NodeToolCommand → List Activity
  | .inferenceRequest prompt model maxTokens temperature systemPrompt =>
      let system := (systemPrompt.map fun s => (⟨.system, s⟩ : ChatMessage)).toList
      let task : InferenceTask :=
        ⟨model.getD ((agent.map AgentConfig.model).getD "default"), system ++ [.user prompt],
          maxTokens, temperature, [], false⟩
      [.call d.routing (.execute (.inference task))]
  | .spawnSubAgent goal _ _ model =>
      match agent with
      | some config =>
          [.task (n.agentRun d.agent.unstoppable { config with model := model.getD config.model }
            goal .none)]
      | none => []
  | _ => []

/-- The task of `execute_job_locally`, for a job that the node won from itself. -/
def executeJobLocally (request : JobRequest) : Option ExecutionTask :=
  let payload := request.payload.getD []
  match request.resourceType with
  | .inference model tokens =>
      let text := fromUtf8Lossy payload
      let prompt := if text.isEmpty then "Hello, how are you?" else text
      some (.inference ((InferenceTask.new model prompt).withMaxTokens tokens))
  | .webFetch _ => some (.webFetch (.get (fromUtf8Lossy payload)))
  | _ => none

/-- `auto_accept_bids`, for one request. -/
def onBids (bids : CollectedBids) : Option Activity :=
  if bids.request.requesterId = n.localPeerId ∧ bids.winner = some n.localPeerId ∧
      bids.started = true then
    (executeJobLocally bids.request).map fun task => .call bids.routing (.execute task)
  else none

/-- What the next stage starts. -/
def starts (st : EventLoop) (d : StageDraws) : List Activity :=
  match st.stage with
  | .poll => ((n.onEvent d.models d.event).map fun task =>
      Activity.call d.routing (.execute task)).toList
  | .inference => (st.inferenceRx.head?.map fun r => Activity.call d.routing r.call).toList
  | .nodeTool => ((st.nodeToolRx.head?.map (n.onCommand d st.agent)).getD [])
  | .agentTask =>
      match st.agent, st.agentTaskRx.head? with
      | some config, some r => [.task (n.agentRun d.agent config r.description r.extras)]
      | _, _ => []
  | .crews => (st.crewKickoffRx.head?.map Activity.crew).toList
  | .flows =>
      match st.flowKickoffRx.head?, d.models.head?.getD "" with
      | some _, "" => []
      | some job, defaultModel => [.flow job defaultModel]
      | none, _ => []
  | .ticks => d.collected.filterMap n.onBids

/-! ## What they await -/

/-- What an activity awaits. -/
def replies (d : StageDraws) : Activity → List Reply
  | .call routing c => n.executor.callReplies routing c
  | .task run => taskReplies n.executor n.box n.crews.calls (fun _ => d.routing) run
  | .crew job =>
      crewReplies n.executor n.box n.crewWorld job.spec job.inputs .none d.crew d.crewRouting
  | .flow job defaultModel =>
      flowReplies
        ⟨n.executor, n.box, { n.flows with defaultModel := defaultModel, mcpConnected := d.mcp },
          n.crewWorld⟩ job.spec job.inputs ⟨d.mcp, d.mcp, "", 0⟩ d.flow

/-- A call stays here, or its request is not sent; a task, a crew or a flow is calm. -/
def Calm (d : StageDraws) : Activity → Prop
  | .call routing c => n.executor.Stays routing c
  | .task run => TaskCalm n.executor n.box n.crews.calls (fun _ => d.routing) run
  | .crew job =>
      CrewCalm n.executor n.box n.crewWorld job.spec job.inputs .none d.crew d.crewRouting
  | .flow job defaultModel =>
      FlowCalm
        ⟨n.executor, n.box, { n.flows with defaultModel := defaultModel, mcpConnected := d.mcp },
          n.crewWorld⟩ job.spec job.inputs ⟨d.mcp, d.mcp, "", 0⟩ d.flow

end ServeNode

/-! ## The loop -/

namespace EventLoop

variable (n : ServeNode)

/-- The state in which the loop begins. -/
def start : EventLoop := ⟨.poll, n.agent, [], [], [], [], [], []⟩

/-- The agent after a command. -/
def afterCommand (agent : Option AgentConfig) : NodeToolCommand → Option AgentConfig
  | .spawnSubAgent _ _ _ model =>
      agent.map fun config => { config with model := model.getD config.model }
  | _ => agent

/-- The state in which the next stage leaves the loop.  Crews and flows are run until there is
none. -/
def advance (st : EventLoop) : EventLoop :=
  match st.stage with
  | .poll => { st with stage := .inference }
  | .inference => { st with stage := .nodeTool, inferenceRx := st.inferenceRx.tail }
  | .nodeTool =>
      { st with
        stage := .agentTask
        agent := (st.nodeToolRx.head?.map (afterCommand st.agent)).getD st.agent
        nodeToolRx := st.nodeToolRx.tail }
  | .agentTask => { st with stage := .crews, agentTaskRx := st.agentTaskRx.tail }
  | .crews =>
      { st with
        stage := if st.crewKickoffRx.isEmpty then .flows else .crews
        crewKickoffRx := st.crewKickoffRx.tail }
  | .flows =>
      { st with
        stage := if st.flowKickoffRx.isEmpty then .ticks else .flows
        flowKickoffRx := st.flowKickoffRx.tail }
  | .ticks => { st with stage := .poll }

/-- Put something into a channel, if there is room; otherwise its sender waits. -/
def push {α : Type} (capacity : ℕ) (rx : List α) (a : α) : List α :=
  if rx.length < capacity then rx ++ [a] else rx

/-- Something is sent to the loop.  Only the web server sends tasks for the agent, crews and
flows. -/
def receive (st : EventLoop) : Sent → EventLoop
  | .inference request => { st with inferenceRx := push 32 st.inferenceRx request }
  | .command command => { st with nodeToolRx := push 64 st.nodeToolRx command }
  | .agentTask request =>
      if n.web && n.agent.isSome then { st with agentTaskRx := push 32 st.agentTaskRx request }
      else st
  | .crew job => if n.web then { st with crewKickoffRx := push 8 st.crewKickoffRx job } else st
  | .flow job => if n.web then { st with flowKickoffRx := push 8 st.flowKickoffRx job } else st

/-- A reply is awaited that will not come. -/
def blocked (st : EventLoop) : Bool := st.awaited.any Reply.endless

/-- A step.  A loop that awaits a reply without a time limit does not come to its next stage. -/
def step (st : EventLoop) : LoopInput → EventLoop
  | .send sent => receive n st sent
  | .proceed d =>
      if st.blocked then st
      else { st.advance with awaited := (n.starts st d).flatMap (n.replies d) }

/-- The loop awaits nothing that only a later iteration produces. -/
def AwaitsNothing (st : EventLoop) : Prop := st.awaited = []

/-- Everything that a stage starts is calm. -/
def Calm (st : EventLoop) : LoopInput → Prop
  | .send _ => True
  | .proceed d => ∀ a ∈ n.starts st d, n.Calm d a

end EventLoop

/-! ## When nothing is awaited -/

section Results

open EventLoop

variable {n : ServeNode} {st : EventLoop} {d : StageDraws}

theorem ServeNode.replies_eq_nil_iff {a : Activity} : n.replies d a = [] ↔ n.Calm d a := by
  cases a with
  | call routing c => exact TaskExecutor.callReplies_eq_nil_iff
  | task run => exact taskReplies_eq_nil_iff
  | crew job => exact crewReplies_eq_nil_iff
  | flow job defaultModel => exact flowReplies_eq_nil_iff

theorem receive_frame (n : ServeNode) (st : EventLoop) (sent : Sent) :
    (receive n st sent).awaited = st.awaited ∧ (receive n st sent).stage = st.stage := by
  cases sent with
  | inference request => exact ⟨rfl, rfl⟩
  | command command => exact ⟨rfl, rfl⟩
  | agentTask request =>
      simp only [receive]
      constructor <;> split <;> rfl
  | crew job =>
      simp only [receive]
      constructor <;> split <;> rfl
  | flow job =>
      simp only [receive]
      constructor <;> split <;> rfl

theorem not_blocked (h : st.AwaitsNothing) : st.blocked = false := by
  unfold AwaitsNothing at h
  unfold blocked
  rw [h]
  rfl

theorem step_proceed (h : st.blocked = false) :
    step n st (.proceed d) =
      { st.advance with awaited := (n.starts st d).flatMap (n.replies d) } :=
  if_neg (by simp [h])

theorem step_of_blocked (h : st.blocked = true) : step n st (.proceed d) = st := if_pos h

theorem awaitsNothing_step_iff (h : st.AwaitsNothing) (i : LoopInput) :
    (step n st i).AwaitsNothing ↔ Calm n st i := by
  cases i with
  | send sent =>
      refine iff_of_true ?_ trivial
      exact (receive_frame n st sent).1.trans h
  | proceed d =>
      rw [step_proceed (not_blocked h)]
      show (n.starts st d).flatMap (n.replies d) = [] ↔ ∀ a ∈ n.starts st d, n.Calm d a
      rw [List.flatMap_eq_nil_iff]
      exact forall₂_congr fun a _ => ServeNode.replies_eq_nil_iff

/-- **The loop never awaits a reply that only a later iteration of it produces** exactly in the
runs in which everything that is run inline is calm: the executor does not offload it, no agent
asks a model through the sink of the web server, and no tool sends the node a command. -/
theorem awaits_nothing_iff (n : ServeNode) (inputs : List LoopInput) :
    Machine.Always (step n) AwaitsNothing (start n) inputs ↔
      Machine.Along (step n) (Calm n) (start n) inputs := by
  refine Machine.always_iff_along (I := AwaitsNothing) (R := fun _ _ => True) (fun _ h => h)
    (fun st i h _ => awaitsNothing_step_iff h i) (fun _ _ _ _ h => h) ?_ Machine.along_true
  rfl

/-! ## A loop that is blocked -/

theorem blocked_step (h : st.blocked = true) (i : LoopInput) :
    (step n st i).awaited = st.awaited ∧ (step n st i).stage = st.stage := by
  cases i with
  | send sent => exact receive_frame n st sent
  | proceed d =>
      rw [step_of_blocked h]
      exact ⟨rfl, rfl⟩

/-- **A reply without a time limit is awaited for ever.** -/
theorem blocked_run (h : st.blocked = true) (inputs : List LoopInput) :
    (Machine.run (step n) st inputs).blocked = true ∧
      (Machine.run (step n) st inputs).stage = st.stage := by
  induction inputs generalizing st with
  | nil => exact ⟨h, rfl⟩
  | cons i inputs ih =>
      obtain ⟨hawaited, hstage⟩ := @blocked_step n st h i
      have hnext : (step n st i).blocked = true := by
        unfold blocked at h ⊢
        rw [hawaited]
        exact h
      obtain ⟨hblocked, hrest⟩ := ih hnext
      exact ⟨hblocked, hrest.trans hstage⟩

theorem inference_mem_unifiedReplies {setup : AgenticSetup} {passes : ℕ → PassDraw}
    (h : ¬ FirstPassEnds setup passes) : Reply.inference ∈ unifiedReplies setup passes := by
  have hne : unifiedReplies setup passes ≠ [] := fun hnil => h (unifiedReplies_eq_nil_iff.1 hnil)
  obtain ⟨reply, hmem⟩ := List.exists_mem_of_ne_nil _ hne
  obtain ⟨st, d, -, hpass⟩ := Machine.exists_of_mem_collect _ hmem
  unfold passReplies at hpass
  split at hpass
  · cases hpass
  · split at hpass
    · cases hpass
    · split at hpass
      · cases hpass
      · rwa [List.mem_singleton.1 hpass] at hmem

/-- **The first task of the agent blocks the loop for ever**, unless its first pass asks no
model. -/
theorem agentTask_blocks {config : AgentConfig} {r : AgentTaskRequest} (hstage : st.stage = .agentTask)
    (hagent : st.agent = some config) (htask : st.agentTaskRx.head? = some r)
    (hasks : ¬ FirstPassEnds
      (unifiedSetup n.crews.calls (n.agentRun d.agent config r.description r.extras).input)
        d.agent.passes) (inputs : List LoopInput) :
    (Machine.run (step n) st (.proceed d :: inputs)).blocked = true := by
  refine (blocked_run ?_ inputs).1
  cases hblocked : st.blocked with
  | true =>
    rw [step_of_blocked hblocked]
    exact hblocked
  | false =>
    have hstarts : n.starts st d = [.task (n.agentRun d.agent config r.description r.extras)] := by
      unfold ServeNode.starts
      rw [hstage]
      dsimp only
      rw [hagent, htask]
    rw [step_proceed hblocked, hstarts]
    unfold blocked
    rw [List.any_eq_true]
    refine ⟨.inference, ?_, rfl⟩
    show Reply.inference ∈ List.flatMap _ _
    rw [List.flatMap_singleton]
    exact inference_mem_unifiedReplies hasks

end Results

section Example

open EventLoop

private def assistant : AgentConfig :=
  ⟨"agent_1", "assistant", "llama-3.2-3b", 512, 0.7, "", [], 4096⟩

private def calls : AgenticCalls where
  parseToolCalls := fun _ => []
  extractAnswer := fun text => text
  pruneStringConversation := fun text _ _ => some text
  pruneConversation := fun messages _ => some messages
  hashArgs := fun _ => 0
  toLowercase := Text.toAsciiLowercase

private def node : ServeNode where
  localPeerId := "12D3KooWNode"
  router := .default
  box := ⟨⟨∅⟩, ⟨fun _ => .error "relative URL without a base", .ascii⟩,
    ⟨"session", none, "12D3KooWNode", true, [], none, 0⟩⟩
  flows := ⟨"", fun _ => .error "", fun _ => .error "", none, fun _ => true, false, []⟩
  crews := ⟨calls, ⟨"", "", "", "", "", "", "", "", "", "", "", "", "", "", "", "", "", "", ""⟩,
    "", [], false, fun _ => ""⟩
  agent := some assistant
  web := true
  crewWorker := false
  crewWorkerPromptFmt := ""

private def alone : Routing := ⟨.default, ⟨0, none, 0⟩, true, false, false⟩

private def silent : AgentDraws where
  history := []
  systemPrompt := ""
  systemPrefix := ""
  iterations := fun _ => ⟨false, 0, fun _ => .error "", 0, fun _ => false, fun _ _ => .error "",
    fun _ _ => 0⟩
  passes := fun _ => ⟨false, fun _ _ _ _ => .error "", 0, [], fun _ _ => .error "",
    fun _ _ => .error "", fun _ _ => 0, "12:00:00"⟩
  chargedAt := 0
  madeAt := 0

private def quiet : StageDraws where
  event := .quiet
  routing := alone
  models := ["llama-3.2-3b"]
  agent := silent
  crew := fun _ => silent
  crewRouting := fun _ _ => alone
  mcp := false
  flow := ⟨[], [], ⟨fun _ => .error "", fun _ _ => .error ""⟩, fun outputs => outputs,
    fun _ => ⟨alone, silent, fun _ => alone, fun _ => silent, fun _ _ => alone⟩⟩
  collected := []

private def greeting : AgentTaskRequest := ⟨"Say hello.", .none⟩

private def reached : EventLoop :=
  Machine.run (step node) (start node)
    (.send (.agentTask greeting) :: List.replicate 3 (.proceed quiet))

/-- A node with `--agent` is given a task for the agent: when it comes to it, it awaits an answer
that it would have to give itself, and never does anything else. -/
theorem agentTask_never_answered :
    ¬ Machine.Always (step node) AwaitsNothing (start node)
      (.send (.agentTask greeting) :: List.replicate 4 (.proceed quiet)) := by
  intro h
  have hasks : ¬ FirstPassEnds (unifiedSetup node.crews.calls
      (node.agentRun silent assistant greeting.description greeting.extras).input)
        silent.passes := by
    rintro (hcut | hstopped)
    · unfold compacted at hcut
      split at hcut <;> cases hcut
    · cases hstopped
  have hblocked := @agentTask_blocks node reached quiet assistant greeting rfl rfl rfl hasks []
  have hfree := not_blocked h.last
  exact Bool.false_ne_true (hfree.symm.trans hblocked)

end Example

end PeerClaw
