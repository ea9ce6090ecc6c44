import PeerClaw.Agent.Egress
import PeerClaw.Crew.Orchestrator
import PeerClaw.Serve.Awaiting

/-!
# Sub-agents

An agent that calls `agent_spawn` sends a command to the node, and the node runs the goal on the
runtime of its one agent.  The depth that the tool compares with its limit is that of the context
of the call, which both loops of the runtime make with a depth of 0; the command has the budget
and a model, of which the node takes the model.

* `SubAgentTool.execute` — what the tool checks, and the command that it sends.
* `SubAgents.step` — a task of the agent, a call from elsewhere, the next command.
-/

namespace PeerClaw

open Lib Tools

/-! ## The tool -/

/-- `NodeToolCommand::SpawnSubAgent`, without where the reply goes. -/
structure SpawnCommand where
  goal : String
  taskType : String
  budget : ℚ
  model : Option String

/-- What a node with an agent has while it runs. -/
structure AgentHost where
  calls : AgenticCalls
  registry : ToolRegistry
  env : EgressEnv
  peerId : String
  /-- `serde_json::Number::as_f64`. -/
  asF64 : Number → ℚ

namespace AgentHost

variable (n : AgentHost)

/-- `SubAgentTool::execute`, until the command is sent. -/
def spawnSubAgent (agentDepth : UInt32) (nodeToolTx : Bool) (params : Value) :
    Except ToolError SpawnCommand := do
  if maxAgentDepth ≤ agentDepth then
    throw (.executionFailed ("Maximum sub-agent depth (" ++ toString maxAgentDepth.toNat ++
      ") reached. Cannot spawn deeper sub-agents."))
  let goal ← requireStr params "goal"
  let budget : ℚ :=
    match params.get? "budget" with
    | some (.number x) => n.asF64 x
    | _ => 2
  if budget ≤ 0 then throw (.invalidParameters "budget must be positive")
  if !nodeToolTx then
    throw (.executionFailed
      "agent_spawn requires a running node (use `peerclaw serve --agent`)")
  return ⟨goal, (optionalStr params "task_type").getD "general", budget, optionalStr params "model"⟩

/-- The command that a call sends in a context, if it is one of `agent_spawn` and comes so far. -/
def spawned (ctx : ToolContext) (call : ParsedToolCall) : Option SpawnCommand :=
  if call.name = "agent_spawn" then
    match n.registry.screen n.env ctx call.name call.args with
    | .ok () => (n.spawnSubAgent ctx.agentDepth true call.args).toOption
    | .error _ => none
  else none

/-- The context that `AgentRuntime::new` makes. -/
def toolContext (config : AgentConfig) : ToolContext where
  sessionId := config.id
  jobId := none
  peerId := n.peerId
  sandboxed := false
  availableSecrets := []
  egressPolicy := none
  agentDepth := 0

/-- The context that the unified loop makes for a call; the session is its own. -/
def unifiedContext (toolSession : String) : ToolContext where
  sessionId := toolSession
  jobId := none
  peerId := n.peerId
  sandboxed := false
  availableSecrets := []
  egressPolicy := none
  agentDepth := 0

/-- The command of an event of the unified loop. -/
def spawnedBy (toolSession : String) : ToolEvent → Option SpawnCommand
  | .ran _ true call => n.spawned (n.unifiedContext toolSession) call
  | .ran _ false _ | .blocked _ _ | .refused _ _ => none

/-- The command of a call that the plain loop has noted; it is made if the tool is allowed. -/
def spawnedFrom (config : AgentConfig) (record : ToolCallRecord) : Option SpawnCommand :=
  if config.allowedTools.isEmpty || config.allowedTools.contains record.toolName then
    n.spawned (n.toolContext config) ⟨record.toolName, record.args⟩
  else none

/-- The commands that the calls of a run send, in order. -/
def spawns (r : AgentRuntime) (t : TaskInput) (toolSession : String) : List SpawnCommand :=
  if t.inferenceSink then (unifiedRun n.calls t).events.filterMap (n.spawnedBy toolSession)
  else (plainRun n.calls r t).toolCalls.filterMap (n.spawnedFrom t.config)

end AgentHost

/-! ## The node -/

/-- A command that waits, and how many spawned agents the chain has that ends with its own. -/
structure WaitingSpawn where
  command : SpawnCommand
  level : ℕ

/-- What the node knows of its agent, and the commands that wait. -/
structure SubAgents where
  /-- `AgentRuntime::config`. -/
  config : AgentConfig
  runtime : AgentRuntime
  commands : List WaitingSpawn
  /-- The loop waits for ever, or has panicked. -/
  stopped : Bool

/-- A run of the agent, with the answers it gets.  It may wait for room in the channel of
commands, which nobody makes. -/
structure AgentTurn where
  task : TaskInput
  toolSession : String
  /-- The command for which there is no room. -/
  blockedAt : Option ℕ

/-- What happens next. -/
inductive SpawnInput
  /-- A task of the agent. -/
  | task (turn : AgentTurn)
  /-- A call in a context of its own: from a conversation, a crew, a flow. -/
  | call (ctx : ToolContext) (call : ParsedToolCall)
  /-- The node takes the next command. -/
  | handle (turn : AgentTurn)

namespace SubAgents

variable (n : AgentHost)

/-- The task of a turn, which is run with the configuration of the runtime. -/
def AgentTurn.input (turn : AgentTurn) (config : AgentConfig) : TaskInput :=
  { turn.task with config := config }

/-- The task of a sub-agent, which has no session and no flag that stops it. -/
def AgentTurn.subInput (turn : AgentTurn) (config : AgentConfig) (goal : String) : TaskInput :=
  { turn.task with
    config := config
    userInput := goal
    extras := .none
    history := []
    iterations := fun i =>
      { turn.task.iterations i with stopped := false, stoppedBefore := fun _ => false }
    passes := fun i => { turn.task.passes i with cancelled := false } }

/-- The configuration with which a sub-agent is run. -/
def subConfig (config : AgentConfig) (command : SpawnCommand) : AgentConfig :=
  { config with model := command.model.getD config.model }

/-- The commands that are sent before the run waits for ever. -/
def sent (blockedAt : Option ℕ) (commands : List SpawnCommand) : List SpawnCommand :=
  match blockedAt with
  | none => commands
  | some k => commands.take k

/-- The agent runs a task: what it spawns is one level deeper than itself.  Where the run waits for
ever, what it would cost to its end is counted all the same. -/
def runTask (st : SubAgents) (t : TaskInput) (toolSession : String) (blockedAt : Option ℕ)
    (level : ℕ) : SubAgents :=
  let after := runTaskWithSession n.calls st.runtime t
  let commands := (sent blockedAt (n.spawns st.runtime t toolSession)).map fun c =>
    (⟨c, level + 1⟩ : WaitingSpawn)
  { st with
    runtime := after.1
    commands := st.commands ++ commands
    stopped := after.2.result.isNone || blockedAt.isSome }

/-- The next command is run on the runtime of the agent. -/
def handle (st : SubAgents) (turn : AgentTurn) : SubAgents :=
  match st.commands with
  | [] => st
  | c :: rest =>
      let config := subConfig st.config c.command
      runTask n { st with config := config, commands := rest }
        (AgentTurn.subInput turn config c.command.goal) turn.toolSession turn.blockedAt c.level

/-- The node does one thing. -/
def step (st : SubAgents) (i : SpawnInput) : SubAgents :=
  if st.stopped then st
  else
    match i with
    | .task turn =>
        runTask n st (AgentTurn.input turn st.config) turn.toolSession turn.blockedAt 0
    | .call ctx call =>
        { st with commands := st.commands ++
            (n.spawned { ctx with agentDepth := 0 } call).toList.map fun c => ⟨c, 1⟩ }
    | .handle turn => handle n st turn

/-- The node before anything has happened. -/
def start (config : AgentConfig) (runtime : AgentRuntime) : SubAgents := ⟨config, runtime, [], false⟩

end SubAgents
end PeerClaw
