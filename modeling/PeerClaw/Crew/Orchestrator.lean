import PeerClaw.Agent.Runtime
import PeerClaw.Flow.Legacy

/-!
# Crews

`CrewSpec` of `crew/spec.rs` and `run_crew` of `crew/orchestrator.rs`.  The tasks of a crew are
run one after the other, each by an agent with a runtime of its own, and the answers of the
tasks that a task names are put before its prompt.  A hierarchical crew first asks its manager
for a plan; a crew that delegates picks an agent for each task.

* `CrewSpec.validate` — what is checked of a specification.
* `CrewRun.step` — one task; `runCrew` — a whole run, with the tasks that its agents were given.
* `runs_eq_nil_iff` — which crews never ask an agent.
-/

namespace PeerClaw

open Lib

/-! ## Specifications -/

inductive CrewProcess
  | sequential
  | hierarchical
  | delegate
  deriving DecidableEq

structure CrewAgentDef where
  id : String
  role : String
  goal : String
  backstory : String
  llm : String
  /-- No tools stand for all builtin ones. -/
  tools : List String

structure CrewTaskDef where
  id : String
  description : String
  expectedOutput : String
  agentId : String
  /-- The tasks whose outputs are injected. -/
  context : List String

structure CrewSpec where
  agents : List CrewAgentDef
  tasks : List CrewTaskDef
  process : CrewProcess
  managerAgentId : Option String

namespace CrewSpec

variable (spec : CrewSpec)

/-- What `validate` checks of a task. -/
def checkTask (t : CrewTaskDef) : Except String Unit :=
  if t.agentId ∉ spec.agents.map CrewAgentDef.id then
    .error s!"task {t.id} references unknown agent {t.agentId}"
  else
    match t.context.find? fun c => c ∉ spec.tasks.map CrewTaskDef.id with
    | some c => .error s!"task {t.id} references unknown context task {c}"
    | none => .ok ()

/-- What `validate` checks of the manager. -/
def checkManager : Except String Unit :=
  match spec.process, spec.managerAgentId with
  | .hierarchical, some mid | .delegate, some mid =>
      if mid ∉ spec.agents.map CrewAgentDef.id then .error s!"manager_agent_id {mid} not found"
      else .ok ()
  | _, _ => .ok ()

/-- `CrewSpec::validate`. -/
def validate : Except String Unit :=
  if spec.agents.isEmpty then .error "crew needs at least one agent"
  else if spec.tasks.isEmpty then .error "crew needs at least one task"
  else
    match spec.tasks.forM spec.checkTask with
    | .error e => .error e
    | .ok _ => spec.checkManager

/-- The id of the manager: the one that is named, or the first agent. -/
def managerId : Option String :=
  spec.managerAgentId.or ((spec.agents.head?).map CrewAgentDef.id)

/-- The first agent with an id. -/
def agent? (id : String) : Option CrewAgentDef := spec.agents.find? fun a => a.id = id

end CrewSpec

/-! ## What a run is given -/

/-- What does not change while crews are run. -/
structure CrewWorld where
  calls : AgenticCalls
  prompts : PromptBundle
  /-- `crew_agent_system_fmt`. -/
  crewAgentSystemFmt : String
  builtinNames : List String
  /-- There is an inference sink. -/
  inferenceSink : Bool
  /-- How a list of ids is displayed for debugging. -/
  debugIds : List String → String

/-- What a runtime draws when it runs a task. -/
structure AgentDraws where
  history : List (String × String)
  systemPrompt : String
  systemPrefix : String
  iterations : ℕ → IterationDraw
  passes : ℕ → PassDraw
  chargedAt : ℕ
  /-- When the runtime was made. -/
  madeAt : ℕ

/-- A task of a runtime, with the answers it gets. -/
def AgentDraws.input (d : AgentDraws) (config : AgentConfig) (prompts : PromptBundle)
    (inferenceSink : Bool) (userInput : String) (extras : AgentTaskExtras) : TaskInput where
  config := config
  prompts := prompts
  inferenceSink := inferenceSink
  userInput := userInput
  extras := extras
  history := d.history
  systemPrompt := d.systemPrompt
  systemPrefix := d.systemPrefix
  iterations := d.iterations
  passes := d.passes
  chargedAt := d.chargedAt

/-- A runtime that is made for one task, of a crew or of a flow. -/
def AgentDraws.runtime (d : AgentDraws) : AgentRuntime :=
  ⟨.new d.madeAt 50 500 2000 10000, []⟩

/-- A runtime and the task it runs. -/
structure AgentRun where
  runtime : AgentRuntime
  input : TaskInput

/-- The options of the tasks of a crew. -/
def AgentTaskExtras.none : AgentTaskExtras := ⟨false, false, "", 0⟩

/-- `interpolate_template`: the placeholder of a key is the key in braces. -/
def interpolateTemplate : String → Value → String := interpolateContext

/-- The words of a description that occur in the role and the goal of an agent. -/
def delegateScore (toLowercase : String → String) (description : String) (agent : CrewAgentDef) :
    ℕ :=
  let haystack := toLowercase s!"{agent.role} {agent.goal}"
  ((Text.splitWhitespace (toLowercase description)).filter fun w => Text.contains haystack w).length

/-- `Iterator::max_by_key`: the last of the elements with the greatest key. -/
def maxByKey {α : Type} (key : α → ℕ) : List α → Option α
  | [] => none
  | a :: rest =>
      match maxByKey key rest with
      | some b => if key a ≤ key b then some b else some a
      | none => some a

/-! ## A run -/

/-- The variables of a run; the runs of agents are kept to speak about them. -/
structure CrewState where
  planPreamble : String
  outputs : FiniteMap String String
  tasksOutput : List CrewTaskOutput
  totalTokens : UInt32
  runs : List AgentRun
  /-- How the run ended, before its last task was done. -/
  ended : Option (Outcome String CrewOutput)

/-- A run ends. -/
def CrewState.finish (st : CrewState) (outcome : Outcome String CrewOutput) : CrewState :=
  { st with ended := some outcome }

section Run

variable (w : CrewWorld) (spec : CrewSpec) (inputs : Value) (extras : AgentTaskExtras)
  (draws : ℕ → AgentDraws)

/-- The configuration of the agent of a crew. -/
def crewAgentConfig (a : CrewAgentDef) : AgentConfig where
  id := s!"crew_{a.id}"
  name := a.id
  model := a.llm
  maxTokens := 2048
  temperature := 0.5
  systemPrompt := subst w.crewAgentSystemFmt
    [("role", a.role), ("goal", a.goal), ("backstory", a.backstory)]
  allowedTools := if a.tools.isEmpty then w.builtinNames else a.tools
  contextWindow := 4096

/-- An agent with a runtime of its own is given a prompt; if it does not panic, the run goes on
with its result. -/
def CrewState.ask (st : CrewState) (a : CrewAgentDef) (prompt : String)
    (next : CrewState → AgentResult → CrewState) : CrewState :=
  let d := draws st.runs.length
  let run : AgentRun :=
    ⟨d.runtime, d.input (crewAgentConfig w a) w.prompts w.inferenceSink prompt extras⟩
  let st := { st with runs := st.runs ++ [run] }
  match (runTaskWithSession w.calls run.runtime run.input).2.result with
  | some res => next st res
  | none => st.finish .panic

/-- The agent that runs a task. -/
def chooseAgent (task : CrewTaskDef) : Except String CrewAgentDef :=
  match spec.process with
  | .delegate =>
      let desc := interpolateTemplate task.description inputs
      let others := spec.agents.filter fun a => some a.id ≠ spec.managerId
      match (maxByKey (delegateScore w.calls.toLowercase desc) others).or
          (spec.agent? task.agentId) with
      | some a => .ok a
      | none => .error s!"no agent available for task {task.id}"
  | _ =>
      match spec.agent? task.agentId with
      | some a => .ok a
      | none => .error s!"agent {task.agentId} missing"

/-- The prompt of a task. -/
def userBlock (st : CrewState) (task : CrewTaskDef) : String :=
  let prior := task.context.map fun cid =>
    match st.outputs.lookup cid with
    | some prev => s!"## Prior task {cid}\n{prev}\n\n"
    | none => ""
  st.planPreamble ++ Text.join "" prior ++
    s!"## Current task\n{interpolateTemplate task.description inputs}\n\n" ++
    s!"Expected output: {interpolateTemplate task.expectedOutput inputs}\n" ++
    "Produce the final deliverable clearly."

/-- What is kept of the result of a task. -/
def CrewState.record (st : CrewState) (task : CrewTaskDef) (a : CrewAgentDef) (res : AgentResult) :
    CrewState :=
  { st with
    totalTokens := st.totalTokens + res.totalTokens
    outputs := st.outputs.insert task.id res.answer
    tasksOutput := st.tasksOutput ++ [{
      taskId := task.id
      agentId := match spec.process with
        | .delegate => a.id
        | _ => task.agentId
      answer := res.answer
      iterations := res.iterations
      tokens := res.totalTokens
      success := res.success
      error := res.error }] }

/-- A task. -/
def CrewRun.step (st : CrewState) (task : CrewTaskDef) : CrewState :=
  if st.ended.isSome then st
  else
    match chooseAgent w spec inputs task with
    | .error e => st.finish (.err e)
    | .ok a =>
        st.ask w extras draws a (userBlock inputs st task) fun st res => st.record spec task a res

/-- What the manager is asked. -/
def planPrompt : String :=
  "You coordinate this crew. Tasks (in order): " ++ w.debugIds (spec.tasks.map CrewTaskDef.id) ++
    s!".\nInputs: {inputs.render}\n" ++
    "Reply with a short bullet plan (max 8 lines) for how the crew should execute."

/-- The manager of a hierarchical crew is asked for a plan. -/
def planCrew (st : CrewState) : CrewState :=
  match spec.managerId with
  | none =>
      st.finish (.err "hierarchical crew needs manager_agent_id or at least one agent")
  | some mgrId =>
      match spec.agent? mgrId with
      | none => st.finish (.err "manager agent not found")
      | some mgr =>
          st.ask w extras draws mgr (planPrompt w spec inputs) fun st res =>
            { st with planPreamble := s!"## Manager plan\n{res.answer}\n\n" }

/-- The state in which a run begins. -/
def CrewState.start : CrewState := ⟨"", ∅, [], 0, [], none⟩

/-- The tasks have been run: the last one gives the output. -/
def CrewState.output (st : CrewState) : Outcome String CrewOutput :=
  match st.ended with
  | some outcome => outcome
  | none =>
      .ok {
        raw := (st.outputs.lookup ((spec.tasks.getLast?.map CrewTaskDef.id).getD "")).getD ""
        tasksOutput := st.tasksOutput
        tokenUsage := .ofFields [("total_tokens", .nat st.totalTokens.toUInt64)] }

/-- The tasks of a crew, after its plan. -/
def crewState : CrewState :=
  let st := match spec.process with
    | .hierarchical => planCrew w spec inputs extras draws .start
    | _ => .start
  Machine.run (CrewRun.step w spec inputs extras draws) st spec.tasks

/-- `run_crew`: the output, and the tasks that the agents were given. -/
def runCrew : Outcome String CrewOutput × List AgentRun :=
  match spec.validate with
  | .error e => (.err e, [])
  | .ok _ =>
      let st := crewState w spec inputs extras draws
      (st.output spec, st.runs)

/-! ## Which crews ask an agent -/

variable {w spec inputs extras draws}

theorem CrewSpec.agent?_of_mem {id : String} (h : id ∈ spec.agents.map CrewAgentDef.id) :
    ∃ a, spec.agent? id = some a := by
  obtain ⟨a, ha, rfl⟩ := List.mem_map.1 h
  exact Option.isSome_iff_exists.1 (List.find?_isSome.2 ⟨a, ha, by simp⟩)

theorem CrewSpec.validate_ok_iff : spec.validate = .ok () ↔ spec.agents ≠ [] ∧ spec.tasks ≠ [] ∧
    (∀ t ∈ spec.tasks, spec.checkTask t = .ok ()) ∧ spec.checkManager = .ok () := by
  unfold CrewSpec.validate
  rw [Check.ite_error_ok_iff, Check.ite_error_ok_iff, ← Check.forM_ok_iff]
  simp only [List.isEmpty_iff]
  cases spec.tasks.forM spec.checkTask with
  | error e => simp
  | ok u => simp

/-- What a valid specification says: there are tasks, they name agents of the crew, and so does a
crew that has a manager. -/
theorem CrewSpec.of_validate (h : spec.validate = .ok ()) :
    spec.tasks ≠ [] ∧ (∀ t ∈ spec.tasks, ∃ a, spec.agent? t.agentId = some a) ∧
      (spec.process = .hierarchical → ∃ id mgr, spec.managerId = some id ∧
        spec.agent? id = some mgr) := by
  obtain ⟨hagents, htasks, hcheck, hmanager⟩ := CrewSpec.validate_ok_iff.1 h
  refine ⟨htasks, fun t ht => ?_, fun hprocess => ?_⟩
  · have hagent := (Check.ite_error_ok_iff.1 (hcheck t ht)).1
    exact CrewSpec.agent?_of_mem (not_not.1 hagent)
  · unfold CrewSpec.checkManager at hmanager
    rw [hprocess] at hmanager
    unfold CrewSpec.managerId
    cases hnamed : spec.managerAgentId with
    | some mid =>
        rw [hnamed] at hmanager
        have hmem := (Check.ite_error_ok_iff.1 hmanager).1
        obtain ⟨mgr, hmgr⟩ := CrewSpec.agent?_of_mem (not_not.1 hmem)
        exact ⟨mid, mgr, rfl, hmgr⟩
    | none =>
        obtain ⟨a, rest, hlist⟩ := List.exists_cons_of_ne_nil hagents
        have hmem : a.id ∈ spec.agents.map CrewAgentDef.id := by simp [hlist]
        obtain ⟨mgr, hmgr⟩ := CrewSpec.agent?_of_mem hmem
        exact ⟨a.id, mgr, by rw [hlist]; rfl, hmgr⟩

/-- In a valid specification the ids in the context of a task are those of tasks. -/
theorem CrewSpec.context_of_validate (h : spec.validate = .ok ()) {t : CrewTaskDef}
    (ht : t ∈ spec.tasks) {id : String} (hid : id ∈ t.context) :
    id ∈ spec.tasks.map CrewTaskDef.id := by
  obtain ⟨-, -, hcheck, -⟩ := CrewSpec.validate_ok_iff.1 h
  have hcontext := (Check.ite_error_ok_iff.1 (hcheck t ht)).2
  split at hcontext
  · cases hcontext
  · rename_i hfind
    simpa using List.find?_eq_none.1 hfind id hid

theorem runs_ask {next : CrewState → AgentResult → CrewState}
    (hnext : ∀ st res, (next st res).runs = st.runs) (st : CrewState) (a : CrewAgentDef)
    (prompt : String) : (st.ask w extras draws a prompt next).runs ≠ [] := by
  unfold CrewState.ask
  dsimp only
  split
  · rw [hnext]
    simp
  · simp [CrewState.finish]

theorem runs_planCrew {id : String} {mgr : CrewAgentDef} (hid : spec.managerId = some id)
    (hmgr : spec.agent? id = some mgr) (st : CrewState) :
    (planCrew w spec inputs extras draws st).runs ≠ [] := by
  unfold planCrew
  rw [hid]
  dsimp only
  rw [hmgr]
  apply runs_ask
  intro st res
  rfl

theorem runs_step {st : CrewState} (h : st.runs ≠ []) (task : CrewTaskDef) :
    (CrewRun.step w spec inputs extras draws st task).runs ≠ [] := by
  unfold CrewRun.step
  split
  · exact h
  · split
    · exact h
    · apply runs_ask
      intro st res
      rfl

theorem runs_run {st : CrewState} (h : st.runs ≠ []) (tasks : List CrewTaskDef) :
    (Machine.run (CrewRun.step w spec inputs extras draws) st tasks).runs ≠ [] := by
  induction tasks generalizing st with
  | nil => exact h
  | cons task tasks ih => exact ih (runs_step h task)

theorem chooseAgent_of_agent (w : CrewWorld) (inputs : Value) {task : CrewTaskDef}
    {a : CrewAgentDef} (hagent : spec.agent? task.agentId = some a) :
    ∃ b, chooseAgent w spec inputs task = .ok b := by
  unfold chooseAgent
  split
  · dsimp only
    rw [hagent]
    cases maxByKey _ _ with
    | some b => exact ⟨b, rfl⟩
    | none => exact ⟨a, rfl⟩
  · rw [hagent]
    exact ⟨a, rfl⟩

theorem runs_step_of_agent {st : CrewState} (hended : st.ended = none) {task : CrewTaskDef}
    {a : CrewAgentDef} (hagent : spec.agent? task.agentId = some a) :
    (CrewRun.step w spec inputs extras draws st task).runs ≠ [] := by
  obtain ⟨b, hchoose⟩ := chooseAgent_of_agent w inputs hagent
  unfold CrewRun.step
  rw [hended, hchoose, Option.isSome_none, if_neg Bool.false_ne_true]
  dsimp only
  apply runs_ask
  intro st res
  rfl

/-- **A crew asks an agent exactly if it is valid.** -/
theorem runs_eq_nil_iff :
    (runCrew w spec inputs extras draws).2 = [] ↔ ∃ e, spec.validate = .error e := by
  unfold runCrew
  cases hvalid : spec.validate with
  | error e => exact iff_of_true rfl ⟨e, rfl⟩
  | ok u =>
      refine iff_of_false ?_ (by simp)
      obtain ⟨htasks, hagents, hmanager⟩ := CrewSpec.of_validate hvalid
      show (crewState w spec inputs extras draws).runs ≠ []
      unfold crewState
      cases htask : spec.tasks with
      | nil => exact absurd htask htasks
      | cons task tasks =>
          obtain ⟨a, hagent⟩ := hagents task (by simp [htask])
          cases hprocess : spec.process with
          | hierarchical =>
              obtain ⟨id, mgr, hid, hmgr⟩ := hmanager hprocess
              exact runs_run (runs_planCrew hid hmgr _) _
          | sequential => exact runs_run (runs_step_of_agent rfl hagent) tasks
          | delegate => exact runs_run (runs_step_of_agent rfl hagent) tasks

end Run

end PeerClaw
