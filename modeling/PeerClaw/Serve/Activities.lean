import PeerClaw.Serve.Awaiting
import PeerClaw.Crew.Orchestrator

/-!
# What agents, crews and flows await

The event loop runs agents, crews and flows inside an iteration.  An agent without an
inference sink asks the executor itself and then calls the tools that the answer names; with
the sink of the web server it queues an `InferenceRequest` and awaits the answer.  For each
of them, `…Replies` is what it awaits of the event loop, and `…Calm` says when that is
nothing, by the answers it gets.

* `iterationReplies` — an iteration of the plain loop.
* `passReplies` — a pass of the unified loop.
* `taskReplies`, `crewReplies`, `flowReplies` — a task, a crew, a flow.
* `taskReplies_eq_nil_iff`, `crewReplies_eq_nil_iff`, `flowReplies_eq_nil_iff` — when they
  await nothing.
-/

namespace PeerClaw

open Lib Tools

/-! ## The plain loop -/

section Plain

variable (x : TaskExecutor) (box : Toolbox) (calls : AgenticCalls) (config : AgentConfig)
  (d : IterationDraw)

/-- The conversation that the model is asked with in an iteration, if it is asked. -/
def asksWith (st : PlainState) : Option (List ChatMessage) :=
  if d.stopped then none
  else if maxIterations < st.iterations then none
  else if !(st.budget.canSpend d.checkedAt (tokenCost config.maxTokens.toNat)).1 then none
  else compactedMessages calls config st.conversation

/-- What the model is asked. -/
def iterationTask (conversation : List ChatMessage) : InferenceTask :=
  ⟨config.model, conversation, config.maxTokens, config.temperature, [], false⟩

/-- The tool is not in the list of the allowed ones. -/
def refuses (name : String) : Bool :=
  !config.allowedTools.isEmpty && !config.allowedTools.contains name

/-- What the tool calls of an iteration await, from the `i`th on. -/
def callsReplies : ℕ → List ParsedToolCall → List Reply
  | _, [] => []
  | i, call :: rest =>
      if d.stoppedBefore i then []
      else (if refuses config call.name then [] else box.replies call.name call.args) ++
        callsReplies (i + 1) rest

/-- What an iteration awaits. -/
def iterationReplies (r : Routing) (st : PlainState) : List Reply :=
  match asksWith calls config d st with
  | none => []
  | some conversation =>
      x.callReplies r (.execute (.inference (iterationTask config conversation))) ++
        match d.execute (iterationTask config conversation) with
        | .ok (.inference text _) =>
            callsReplies box config d 0 (mergeCalls (calls.parseToolCalls text) [])
        | _ => []

/-- The calls that are made before the task is stopped, from the `i`th on. -/
def madeCalls : ℕ → List ParsedToolCall → List ParsedToolCall
  | _, [] => []
  | i, call :: rest => if d.stoppedBefore i then [] else call :: madeCalls (i + 1) rest

/-- A call that is refused, fails before its tool is executed, or whose tool sends the node no
command. -/
def SendsNothing (call : ParsedToolCall) : Prop :=
  refuses config call.name = true ∨
    (box.registry.screen box.env box.ctx call.name call.args = .ok () →
      command box.ctx.agentDepth call.name call.args = none)

/-- The model is not asked through the network, and calls no tool that sends the node a
command. -/
def IterationCalm (r : Routing) (st : PlainState) : Prop :=
  ∀ conversation, asksWith calls config d st = some conversation →
    x.Stays r (.execute (.inference (iterationTask config conversation))) ∧
      ∀ text tokens, d.execute (iterationTask config conversation) = .ok (.inference text tokens) →
        ∀ call ∈ madeCalls d 0 (mergeCalls (calls.parseToolCalls text) []),
          SendsNothing box config call

variable {x box calls config d}

theorem callsReplies_eq_nil_iff {i : ℕ} {called : List ParsedToolCall} :
    callsReplies box config d i called = [] ↔
      ∀ call ∈ madeCalls d i called, SendsNothing box config call := by
  induction called generalizing i with
  | nil => simp [callsReplies, madeCalls]
  | cons call rest ih =>
      unfold callsReplies madeCalls
      cases d.stoppedBefore i with
      | true => simp
      | false =>
          rw [if_neg Bool.false_ne_true, if_neg Bool.false_ne_true, List.append_eq_nil_iff,
            List.forall_mem_cons, ih]
          refine and_congr_left fun _ => ?_
          unfold SendsNothing
          cases refuses config call.name with
          | true => simp
          | false =>
              rw [if_neg Bool.false_ne_true, Toolbox.replies_eq_nil_iff]
              simp

/-- **When an iteration of the plain loop awaits nothing.** -/
theorem iterationReplies_eq_nil_iff {r : Routing} {st : PlainState} :
    iterationReplies x box calls config d r st = [] ↔
      IterationCalm x box calls config d r st := by
  unfold iterationReplies IterationCalm
  cases hask : asksWith calls config d st with
  | none => simp
  | some conversation =>
      dsimp only
      rw [List.append_eq_nil_iff, TaskExecutor.callReplies_eq_nil_iff]
      constructor
      · rintro ⟨hstays, hcalls⟩ conversation' hconv
        obtain rfl := Option.some.inj hconv
        refine ⟨hstays, fun text tokens hanswer => ?_⟩
        rw [hanswer] at hcalls
        exact callsReplies_eq_nil_iff.1 hcalls
      · intro h
        obtain ⟨hstays, hcalls⟩ := h conversation rfl
        refine ⟨hstays, ?_⟩
        split
        · rename_i text tokens hanswer
          exact callsReplies_eq_nil_iff.2 (hcalls text tokens hanswer)
        · rfl

end Plain

/-! ## The unified loop -/

section Unified

variable (s : AgenticSetup)

/-- What a pass awaits: the answer of the model.  It does not come as long as the pass waits for
it in an iteration of the event loop, so that nothing is awaited after it. -/
def passReplies (st : AgenticState) (d : PassDraw) : List Reply :=
  if st.ended.isSome then []
  else
    match compacted s st.conversation with
    | none => []
    | some _ => if d.cancelled then [] else [.inference]

/-- What the passes of a task await. -/
def unifiedReplies (passes : ℕ → PassDraw) : List Reply :=
  Machine.collect (AgenticLoop.step s) (passReplies s) (AgenticLoop.initial s)
    ((List.range agenticMaxIters).map passes)

/-- The first pass asks no model: the task is stopped, or its prompt cannot be cut. -/
def FirstPassEnds (passes : ℕ → PassDraw) : Prop :=
  compacted s (AgenticLoop.initial s).conversation = none ∨ (passes 0).cancelled = true

variable {s}

theorem collect_of_ended {st : AgenticState} (h : st.ended.isSome) (ds : List PassDraw) :
    Machine.collect (AgenticLoop.step s) (passReplies s) st ds = [] := by
  induction ds with
  | nil => rfl
  | cons d ds ih =>
      have hstep : AgenticLoop.step s st d = st := if_pos h
      rw [Machine.collect, hstep, ih, List.append_nil]
      exact if_pos h

theorem ended_step {st : AgenticState} {d : PassDraw}
    (h : compacted s st.conversation = none ∨ d.cancelled = true) :
    (AgenticLoop.step s st d).ended.isSome := by
  have hpass : (agenticPass s d { st with iter := st.iter + 1 }).ended.isSome := by
    unfold agenticPass
    cases hcompacted : compacted s st.conversation with
    | none => rfl
    | some conversation =>
        have hcancelled : d.cancelled = true := by
          rcases h with h | h
          · rw [hcompacted] at h
            cases h
          · exact h
        rw [hcancelled]
        rfl
  unfold AgenticLoop.step
  split
  · assumption
  · dsimp only
    rw [if_neg]
    · exact hpass
    · rintro ⟨hnone, -⟩
      rw [Option.isNone_iff_eq_none.1 hnone] at hpass
      cases hpass

/-- **With a sink, a task awaits nothing exactly when its first pass asks nothing.** -/
theorem unifiedReplies_eq_nil_iff {passes : ℕ → PassDraw} :
    unifiedReplies s passes = [] ↔ FirstPassEnds s passes := by
  have hrange : (List.range agenticMaxIters).map passes =
      passes 0 :: ((List.range agenticMaxIters).map passes).tail := rfl
  unfold unifiedReplies FirstPassEnds
  rw [hrange, Machine.collect, List.append_eq_nil_iff]
  have hstart : (AgenticLoop.initial s).ended.isSome = false := rfl
  unfold passReplies
  rw [hstart, if_neg Bool.false_ne_true]
  cases hcompacted : compacted s (AgenticLoop.initial s).conversation with
  | none =>
      exact iff_of_true ⟨rfl, collect_of_ended (ended_step (.inl hcompacted)) _⟩ (.inl rfl)
  | some conversation =>
      cases hcancelled : (passes 0).cancelled with
      | true =>
          exact iff_of_true ⟨rfl, collect_of_ended (ended_step (.inr hcancelled)) _⟩ (.inr rfl)
      | false => simp

end Unified

/-! ## Tasks of a runtime -/

section Tasks

variable (x : TaskExecutor) (box : Toolbox) (calls : AgenticCalls) (routing : ℕ → Routing)
  (run : AgentRun)

/-- What an iteration of the plain loop awaits, unless the task has ended. -/
def plainOut (st : PlainState) (d : IterationDraw) : List Reply :=
  if st.ended.isSome then []
  else iterationReplies x box calls run.input.config d (routing st.iterations)
    { st with iterations := st.iterations + 1 }

/-- What the iterations of a task await. -/
def plainReplies : List Reply :=
  Machine.collect (PlainLoop.step calls run.input.config) (plainOut x box calls routing run)
    (PlainLoop.initial run.runtime run.input)
    ((List.range (maxIterations + 1)).map run.input.iterations)

/-- What a task awaits. -/
def taskReplies : List Reply :=
  if run.input.inferenceSink then unifiedReplies (unifiedSetup calls run.input) run.input.passes
  else plainReplies x box calls routing run

/-- Every iteration of the plain loop is calm. -/
def PlainCalm : Prop :=
  Machine.Along (PlainLoop.step calls run.input.config)
    (fun st d => st.ended = none →
      IterationCalm x box calls run.input.config d (routing st.iterations)
        { st with iterations := st.iterations + 1 })
    (PlainLoop.initial run.runtime run.input)
    ((List.range (maxIterations + 1)).map run.input.iterations)

/-- With a sink the first pass asks no model, and without one every iteration is calm. -/
def TaskCalm : Prop :=
  if run.input.inferenceSink then FirstPassEnds (unifiedSetup calls run.input) run.input.passes
  else PlainCalm x box calls routing run

variable {x box calls routing run}

/-- **When a task awaits nothing.** -/
theorem taskReplies_eq_nil_iff :
    taskReplies x box calls routing run = [] ↔ TaskCalm x box calls routing run := by
  unfold taskReplies TaskCalm
  cases run.input.inferenceSink with
  | true => exact unifiedReplies_eq_nil_iff
  | false =>
      rw [if_neg Bool.false_ne_true, if_neg Bool.false_ne_true]
      unfold plainReplies PlainCalm
      rw [Machine.collect_eq_nil_iff]
      refine Machine.along_congr _ fun st d => ?_
      unfold plainOut
      cases hended : st.ended with
      | some result => simp
      | none => simpa using iterationReplies_eq_nil_iff

end Tasks

/-! ## Crews -/

section Crews

variable (x : TaskExecutor) (box : Toolbox) (w : CrewWorld) (spec : CrewSpec) (inputs : Value)
  (extras : AgentTaskExtras) (draws : ℕ → AgentDraws) (routing : ℕ → ℕ → Routing)

/-- What a crew awaits: what the tasks of its agents do, one after the other. -/
def crewReplies : List Reply :=
  (runCrew w spec inputs extras draws).2.zipIdx.flatMap fun e =>
    taskReplies x box w.calls (routing e.2) e.1

/-- The tasks that the agents of a crew are given are calm. -/
def CrewCalm : Prop :=
  ∀ e ∈ (runCrew w spec inputs extras draws).2.zipIdx, TaskCalm x box w.calls (routing e.2) e.1

variable {x box w spec inputs extras draws routing}

/-- **When a crew awaits nothing.** -/
theorem crewReplies_eq_nil_iff :
    crewReplies x box w spec inputs extras draws routing = [] ↔
      CrewCalm x box w spec inputs extras draws routing := by
  unfold crewReplies CrewCalm
  rw [List.flatMap_eq_nil_iff]
  exact forall₂_congr fun e _ => taskReplies_eq_nil_iff

end Crews

/-! ## Flows -/

section Nodes

variable (w : FlowWorld) (spec : FlowSpec CrewSpec) (inputs : Value) (d : FlowDraw CrewSpec)
  (st : FlowState) (cur : String) (n : FlowNode CrewSpec)

/-- What the agent of a node is given. -/
def agentBlock : String :=
  priorContextBlock spec cur st.outputs ++ "\n\n## Task\n" ++
    interpolateContext n.prompt (buildTemplateContext inputs st.outputs) ++ "\n"

/-- The session of the agent of a node. -/
def agentSession : Option String :=
  if !n.includeChatHistory then none
  else if Text.trim n.agentSessionKey = "" then some s!"flow_agent_{n.id}"
  else some n.agentSessionKey

/-- What a classifier asks. -/
def classifyTask : InferenceTask :=
  { InferenceTask.new (if Text.trim n.classifyModel = "" then w.defaultModel else n.classifyModel)
      (classifyBody inputs st n) with
    maxTokens := max (n.maxTokens.getD 128) 16
    temperature := n.temperature.getD 0.2 }

/-- What a prompt asks. -/
def llmTask : InferenceTask :=
  { InferenceTask.new (if Text.trim n.model = "" then w.defaultModel else n.model)
      (priorContextBlock spec cur st.outputs ++ "\n\n" ++
        interpolateContext n.prompt (buildTemplateContext inputs st.outputs) ++
        (if Text.toAsciiLowercase n.outputFormat = "json" then
          "\n\nRespond with valid JSON only. No markdown fences."
          else "")) with
    maxTokens := n.maxTokens.getD 512
    temperature := n.temperature.getD 0.7 }

theorem visitAgent_congr {d' : FlowDraw CrewSpec}
    (h : d.runTask (agentConfig w n) (agentBlock spec inputs st cur n) (agentSession n) =
      d'.runTask (agentConfig w n) (agentBlock spec inputs st cur n) (agentSession n)) :
    visitAgent w spec inputs d st cur n = visitAgent w spec inputs d' st cur n := by
  unfold agentBlock agentSession at h
  unfold visitAgent
  dsimp only
  rw [h]

theorem visitClassify_congr {d' : FlowDraw CrewSpec}
    (h : d.execute (classifyTask w inputs st n) = d'.execute (classifyTask w inputs st n)) :
    visitClassify w inputs d st cur n = visitClassify w inputs d' st cur n := by
  unfold classifyTask at h
  unfold visitClassify inferText
  dsimp only
  rw [h]

theorem visitLlm_congr {d' : FlowDraw CrewSpec}
    (h : d.execute (llmTask w spec inputs st cur n) = d'.execute (llmTask w spec inputs st cur n)) :
    visitLlm w spec inputs d st cur n = visitLlm w spec inputs d' st cur n := by
  unfold llmTask at h
  unfold visitLlm inferText
  dsimp only
  rw [h]

end Nodes

/-- What a crew or an agent inside a flow draws. -/
structure NestedDraws where
  /-- What the executor meets, when the node asks it itself. -/
  routing : Routing
  agent : AgentDraws
  agentRouting : ℕ → Routing
  crew : ℕ → AgentDraws
  crewRouting : ℕ → ℕ → Routing

/-- A runtime that runs a task without a flag that stops it. -/
def AgentDraws.unstoppable (d : AgentDraws) : AgentDraws :=
  { d with
    iterations := fun i => { d.iterations i with stopped := false, stoppedBefore := fun _ => false }
    passes := fun i => { d.passes i with cancelled := false } }

section Flows

/-- What is fixed when flows are run. -/
structure FlowSetting where
  executor : TaskExecutor
  box : Toolbox
  world : FlowWorld
  crews : CrewWorld

variable (x : FlowSetting) (spec : FlowSpec CrewSpec) (inputs : Value) (extras : AgentTaskExtras)

/-- The task of an agent node. -/
def nodeRun (nested : NestedDraws) (st : FlowState) (cur : String) (n : FlowNode CrewSpec) :
    AgentRun where
  runtime := nested.agent.runtime
  input := nested.agent.unstoppable.input (agentConfig x.world n) x.crews.prompts
    x.crews.inferenceSink (agentBlock spec inputs st cur n) extras

/-- What a node awaits. -/
def nodeReplies (nested : NestedDraws) (st : FlowState) (cur : String) (n : FlowNode CrewSpec) :
    List Reply :=
  match n.readKind with
  | .agent =>
      taskReplies x.executor x.box x.crews.calls nested.agentRouting
        (nodeRun x spec inputs extras nested st cur n)
  | .crew =>
      match n.crewSpec with
      | some crew =>
          crewReplies x.executor x.box x.crews crew (crewInputs inputs n) extras
            (fun i => (nested.crew i).unstoppable) nested.crewRouting
      | none => []
  | .classify =>
      if n.classifyCategories.isEmpty then []
      else x.executor.callReplies nested.routing
        (.execute (.inference (classifyTask x.world inputs st n)))
  | .llm =>
      x.executor.callReplies nested.routing
        (.execute (.inference (llmTask x.world spec inputs st cur n)))
  | _ => []

/-- An agent or a crew at the node is calm, and a prompt is not sent through the network. -/
def NodeCalm (nested : NestedDraws) (st : FlowState) (cur : String) (n : FlowNode CrewSpec) :
    Prop :=
  match n.readKind with
  | .agent =>
      TaskCalm x.executor x.box x.crews.calls nested.agentRouting
        (nodeRun x spec inputs extras nested st cur n)
  | .crew =>
      ∀ crew, n.crewSpec = some crew →
        CrewCalm x.executor x.box x.crews crew (crewInputs inputs n) extras
          (fun i => (nested.crew i).unstoppable) nested.crewRouting
  | .classify =>
      n.classifyCategories ≠ [] →
        x.executor.Stays nested.routing (.execute (.inference (classifyTask x.world inputs st n)))
  | .llm =>
      x.executor.Stays nested.routing
        (.execute (.inference (llmTask x.world spec inputs st cur n)))
  | _ => True

/-- A turn of the interpreter: its answers, and what is drawn below it. -/
abbrev FlowTurn := FlowDraw CrewSpec × NestedDraws

/-- The node of the next turn of the interpreter, and the state in which it is visited. -/
def atNode (st : FlowState) : Option (FlowState × String × FlowNode CrewSpec) :=
  match st.cursor with
  | none => none
  | some cur =>
      let st := { st with stepsGuard := st.stepsGuard + 1, cursor := none }
      if FlowRun.maxSteps < st.stepsGuard then none
      else (spec.node? cur).map fun n => (st, cur, n)

/-- What a turn awaits. -/
def turnReplies (st : FlowState) (turn : FlowTurn) : List Reply :=
  match atNode spec st with
  | some (st, cur, n) => nodeReplies x spec inputs extras turn.2 st cur n
  | none => []

/-- The node of a turn is calm. -/
def TurnCalm (st : FlowState) (turn : FlowTurn) : Prop :=
  ∀ e, atNode spec st = some e → NodeCalm x spec inputs extras turn.2 e.1 e.2.1 e.2.2

/-- What a flow without a start draws for each node that asks something. -/
structure LegacyTurns where
  calls : LegacyCalls CrewSpec
  iterate : StepOutputs → StepOutputs
  nested : ℕ → NestedDraws

/-- What a flow draws. -/
structure FlowDraws where
  /-- The order in which the in-degrees are iterated over. -/
  order : List String
  turns : List FlowTurn
  legacy : LegacyTurns

/-- What a flow without a start asks, node by node. -/
def legacyAsked (draws : LegacyTurns) (order : List String) : List (String × Asked CrewSpec) :=
  (runLegacyTopo ⟨x.world.defaultModel, CrewSpec.validate⟩ draws.calls spec inputs draws.iterate
    order).asked

/-- What a node of a flow without a start awaits. -/
def askedReplies (nested : NestedDraws) : Asked CrewSpec → List Reply
  | .task t => x.executor.callReplies nested.routing (.execute (.inference t))
  | .crew crew inputs =>
      crewReplies x.executor x.box x.crews crew inputs extras
        (fun i => (nested.crew i).unstoppable) nested.crewRouting

/-- A prompt is not sent through the network, and a crew is calm. -/
def AskedCalm (nested : NestedDraws) : Asked CrewSpec → Prop
  | .task t => x.executor.Stays nested.routing (.execute (.inference t))
  | .crew crew inputs =>
      CrewCalm x.executor x.box x.crews crew inputs extras
        (fun i => (nested.crew i).unstoppable) nested.crewRouting

/-- What a flow awaits. -/
def flowReplies (draws : FlowDraws) : List Reply :=
  match spec.validateForRun draws.order with
  | .ok _ =>
      if spec.hasInterpreterStart then
        Machine.collect
          (fun st (turn : FlowTurn) => FlowRun.step (some FlowRun.maxSteps) x.world spec inputs st
            turn.1)
          (turnReplies x spec inputs extras) (FlowRun.initial spec) draws.turns
      else
        (legacyAsked x spec inputs draws.legacy draws.order).zipIdx.flatMap fun e =>
          askedReplies x extras (draws.legacy.nested e.2) e.1.2
  | _ => []

/-- The nodes of a flow that is valid are calm. -/
def FlowCalm (draws : FlowDraws) : Prop :=
  spec.validateForRun draws.order = .ok () →
    if spec.hasInterpreterStart then
      Machine.Along
        (fun st (turn : FlowTurn) => FlowRun.step (some FlowRun.maxSteps) x.world spec inputs st
          turn.1)
        (TurnCalm x spec inputs extras) (FlowRun.initial spec) draws.turns
    else
      ∀ e ∈ (legacyAsked x spec inputs draws.legacy draws.order).zipIdx,
        AskedCalm x extras (draws.legacy.nested e.2) e.1.2

variable {x spec inputs extras}

theorem nodeReplies_eq_nil_iff {nested : NestedDraws} {st : FlowState} {cur : String}
    {n : FlowNode CrewSpec} :
    nodeReplies x spec inputs extras nested st cur n = [] ↔
      NodeCalm x spec inputs extras nested st cur n := by
  unfold nodeReplies NodeCalm
  cases n.readKind with
  | agent => exact taskReplies_eq_nil_iff
  | crew =>
      cases n.crewSpec with
      | none => simp
      | some crew =>
          dsimp only
          rw [crewReplies_eq_nil_iff]
          exact ⟨fun h crew' hcrew => Option.some.inj hcrew ▸ h, fun h => h crew rfl⟩
  | classify =>
      dsimp only
      cases n.classifyCategories with
      | nil => simp
      | cons category categories => simpa using TaskExecutor.callReplies_eq_nil_iff
  | llm => exact TaskExecutor.callReplies_eq_nil_iff
  | _ => exact iff_of_true rfl trivial

theorem turnReplies_eq_nil_iff {st : FlowState} {turn : FlowTurn} :
    turnReplies x spec inputs extras st turn = [] ↔ TurnCalm x spec inputs extras st turn := by
  unfold turnReplies TurnCalm
  cases atNode spec st with
  | none => simp
  | some e =>
      dsimp only
      rw [nodeReplies_eq_nil_iff]
      exact ⟨fun h e' he => Option.some.inj he ▸ h, fun h => h e rfl⟩

theorem askedReplies_eq_nil_iff {nested : NestedDraws} {asked : Asked CrewSpec} :
    askedReplies x extras nested asked = [] ↔ AskedCalm x extras nested asked := by
  cases asked with
  | task t => exact TaskExecutor.callReplies_eq_nil_iff
  | crew crew inputs => exact crewReplies_eq_nil_iff

/-- **When a flow awaits nothing.** -/
theorem flowReplies_eq_nil_iff {draws : FlowDraws} :
    flowReplies x spec inputs extras draws = [] ↔ FlowCalm x spec inputs extras draws := by
  unfold flowReplies FlowCalm
  cases spec.validateForRun draws.order with
  | err e => simp
  | panic => simp
  | ok u =>
      dsimp only
      rw [forall_prop_of_true rfl]
      cases spec.hasInterpreterStart with
      | true =>
          rw [if_pos rfl, if_pos rfl, Machine.collect_eq_nil_iff]
          exact Machine.along_congr _ fun st turn => turnReplies_eq_nil_iff
      | false =>
          rw [if_neg Bool.false_ne_true, if_neg Bool.false_ne_true, List.flatMap_eq_nil_iff]
          exact forall₂_congr fun e _ => askedReplies_eq_nil_iff

end Flows

end PeerClaw
