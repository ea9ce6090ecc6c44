import PeerClaw.Executor.Payload
import PeerClaw.Value
import Mathlib.Data.Rat.Defs
import PeerClaw.Agent.Budget

/-!
# Agents: what a runtime is given and what it returns

The configuration of an `AgentRuntime`, the tool calls it finds in the output of a
model, and the result of a task it has run.  Amounts are exact.
-/

namespace PeerClaw

/-- The configuration of an agent. -/
structure AgentConfig where
  id : String
  name : String
  model : String
  maxTokens : UInt32
  temperature : Float32
  systemPrompt : String
  allowedTools : List String
  /-- The size of the context window of the model, in tokens. -/
  contextWindow : UInt32

/-- A tool call that has been made. -/
structure ToolCallRecord where
  toolName : String
  args : Value
  result : String
  success : Bool
  durationMs : UInt64

/-- A tool call in the output of a model. -/
structure ParsedToolCall where
  name : String
  args : Value

/-- The result of a task. -/
structure AgentResult where
  answer : String
  toolCalls : List ToolCallRecord
  iterations : UInt32
  totalTokens : UInt32
  budgetSpent : ℚ
  success : Bool
  error : Option String

/-- What the executor returns for a task of inference. -/
inductive TaskData
  | inference (text : String) (tokensGenerated : UInt32)
  | error (message : String)
  /-- The result of another kind of task. -/
  | other

end PeerClaw

/-!
## The specification of an agent

What `agent/spec.rs` reads of the file of an agent, and how the configuration of a
runtime and its budget come from it.
-/

namespace PeerClaw

/-- A single egress rule within the network policy. -/
structure NetworkPolicyRule where
  /-- A host, or `*.` and a domain. -/
  host : String
  port : Option UInt16
  methods : List String
  tools : List String
  action : String

/-- Network egress policy: deny-by-default or allow-by-default with rules. -/
structure NetworkPolicySpec where
  default : String
  rules : List NetworkPolicyRule

structure AgentMeta where
  name : String

structure ModelSpec where
  name : String
  maxTokens : UInt32
  temperature : Float32
  systemPrompt : String
  contextWindow : Option UInt32

structure BudgetSpec where
  perRequest : ℚ
  perHour : ℚ
  perDay : ℚ
  total : ℚ

structure ToolsSpec where
  builtin : List String

/-- The specification of an agent. -/
structure AgentSpec where
  agent : AgentMeta
  model : ModelSpec
  budget : BudgetSpec
  tools : ToolsSpec
  networkPolicy : Option NetworkPolicySpec

/-- `DEFAULT_CONTEXT_WINDOW`. -/
def defaultContextWindow : UInt32 := 4096

/-- Create from an `AgentSpec`, with a fresh id. -/
def AgentConfig.fromSpec (id : String) (spec : AgentSpec) : AgentConfig where
  id := id
  name := spec.agent.name
  model := spec.model.name
  maxTokens := spec.model.maxTokens
  temperature := spec.model.temperature
  systemPrompt := spec.model.systemPrompt
  allowedTools := spec.tools.builtin
  contextWindow := spec.model.contextWindow.getD defaultContextWindow

/-- The budget that a runtime begins with. -/
def BudgetTracker.fromSpec (now : ℕ) (spec : AgentSpec) : BudgetTracker :=
  .new now spec.budget.perRequest spec.budget.perHour spec.budget.perDay spec.budget.total

end PeerClaw
