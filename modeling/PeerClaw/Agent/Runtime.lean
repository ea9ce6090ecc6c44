import PeerClaw.Agent.UnifiedLoop
import PeerClaw.Agent.Budget

/-!
# The runtime of an agent

`run_task_with_session` in `agent/runtime.rs`.  A task is run in one of two ways:
with an inference sink by the unified loop, and without one by a loop of its own,
the plain loop.  Both use the budget of the runtime, but not at the same places: the
plain loop asks before each call of the model and records its cost right after it,
and the other way records what the whole run cost, once it has an answer.

* `PlainLoop.step` — an iteration of the plain loop.
* `runPlain`, `runTaskViaUnifiedLoop`, `runTaskWithSession` — a task.
-/

namespace PeerClaw

open Lib

/-! ## Tasks -/

/-- `MAX_ITERATIONS`. -/
def maxIterations : ℕ := 20

/-- The cost of some tokens, at `COST_PER_1K_TOKENS`. -/
def tokenCost (tokens : ℕ) : ℚ := tokens / 1000 * (1 / 2)

/-- What a local tool puts out: a message, if it has one, and the data as text. -/
structure ToolText where
  message : Option String
  data : String

/-- The answers that one iteration of the plain loop gets. -/
structure IterationDraw where
  /-- The stop flag, at the start. -/
  stopped : Bool
  /-- When the budget is asked. -/
  checkedAt : ℕ
  execute : InferenceTask → Except String TaskData
  /-- When the cost is recorded. -/
  spentAt : ℕ
  /-- The stop flag, before each tool call. -/
  stoppedBefore : ℕ → Bool
  executeLocal : String → Value → Except String ToolText
  durationMs : String → Value → UInt64

/-- Extra options of a task. -/
structure AgentTaskExtras where
  useMcp : Bool
  /-- There is an MCP manager. -/
  mcp : Bool
  skillBlock : String
  modelCtxChars : ℕ

/-- A task, with the public fields of the runtime as they are when it is run, and the answers it
gets. -/
structure TaskInput where
  config : AgentConfig
  prompts : PromptBundle
  /-- There is an inference sink. -/
  inferenceSink : Bool
  userInput : String
  extras : AgentTaskExtras
  /-- The turns of the session that could be loaded, with the roles. -/
  history : List (String × String)
  /-- What `build_system_prompt` returns. -/
  systemPrompt : String
  /-- What `build_agentic_system_prefix` returns. -/
  systemPrefix : String
  iterations : ℕ → IterationDraw
  passes : ℕ → PassDraw
  /-- When the cost of a run of the unified loop is recorded. -/
  chargedAt : ℕ

/-- The fields of a runtime that its tasks change. -/
structure AgentRuntime where
  budget : BudgetTracker
  conversation : List ChatMessage

/-- An amount that was recorded, and the tracker right after. -/
structure Spend where
  amount : ℚ
  after : BudgetTracker

/-- What a task leaves: its result, unless it panics, the tokens of every answer of the model,
and what was recorded. -/
structure TaskReport where
  result : Option AgentResult
  tokens : List UInt32
  spends : List Spend

/-! ## The plain loop -/

/-- The variables of the plain loop.  The tokens and the amounts are kept to speak about them. -/
structure PlainState where
  budget : BudgetTracker
  conversation : List ChatMessage
  toolCalls : List ToolCallRecord
  iterations : ℕ
  totalTokens : UInt32
  ended : Option (Option AgentResult)
  tokens : List UInt32
  spends : List Spend

namespace PlainState

variable (st : PlainState)

/-- `extract_last_text`. -/
def extractLastText (extractAnswer : String → String) : String :=
  match st.conversation.reverse.find? fun m => m.role = .assistant with
  | some m => extractAnswer m.content
  | none => ""

/-- The result, as things stand. -/
def result (answer : String) (success : Bool) (error : Option String) : AgentResult where
  answer := answer
  toolCalls := st.toolCalls
  iterations := UInt32.ofNat st.iterations
  totalTokens := st.totalTokens
  budgetSpent := st.budget.totalSpent
  success := success
  error := error

/-- The task fails. -/
def fail (answer error : String) : PlainState :=
  { st with ended := some (some (st.result answer false (some error))) }

/-- The task has an answer. -/
def answer (text : String) : PlainState :=
  { st with ended := some (some (st.result text true none)) }

/-- The task panics. -/
def abort : PlainState := { st with ended := some none }

/-- Say something as the user. -/
def say (text : String) : PlainState :=
  { st with conversation := st.conversation ++ [.user text] }

/-- Note a tool call. -/
def record (call : ParsedToolCall) (result : String) (success : Bool) (durationMs : UInt64) :
    PlainState :=
  { st with toolCalls := st.toolCalls ++ [⟨call.name, call.args, result, success, durationMs⟩] }

end PlainState

/-- `conversation_char_size`. -/
def conversationCharSize (messages : List ChatMessage) : ℕ :=
  (messages.map fun m => Text.byteLen m.content.toList + 20).sum

/-- `needs_compaction`. -/
def needsCompaction (messages : List ChatMessage) (contextWindowTokens : UInt32) : Bool :=
  contextWindowTokens.toNat * 4 * 3 / 4 < conversationCharSize messages

section Plain

variable (calls : AgenticCalls) (config : AgentConfig) (d : IterationDraw)

/-- The conversation, pruned if it is too long. -/
def compactedMessages (messages : List ChatMessage) : Option (List ChatMessage) :=
  if needsCompaction messages config.contextWindow then
    calls.pruneConversation messages (config.contextWindow.toNat * 4 * 3 / 4)
  else some messages

/-- A tool call. -/
def plainCall (st : PlainState) (call : ParsedToolCall) : PlainState :=
  if !config.allowedTools.isEmpty && !config.allowedTools.contains call.name then
    let msg := s!"Tool '{call.name}' is not in allowed tools list"
    (st.say s!"Tool error: {msg}").record call msg false 0
  else
    match d.executeLocal call.name call.args with
    | .ok output =>
        let text := output.message.getD output.data
        (st.say s!"Tool result for {call.name}:\n{text}").record call text true
          (d.durationMs call.name call.args)
    | .error e =>
        (st.say s!"Tool '{call.name}' failed: {e}").record call s!"Tool error: {e}" false
          (d.durationMs call.name call.args)

/-- The tool calls of an iteration, one after the other, from the `i`th on. -/
def plainCalls : ℕ → List ParsedToolCall → PlainState → PlainState
  | _, [], st => st
  | i, call :: rest, st =>
      if d.stoppedBefore i then st.fail (st.extractLastText calls.extractAnswer) "Stopped by user"
      else plainCalls (i + 1) rest (plainCall config d st call)

/-- The text of an answer without the markup of tools. -/
def finalText (text : String) : String :=
  let cleaned := calls.extractAnswer text
  if Text.trim cleaned ≠ "" then cleaned
  else if Text.trim text ≠ "" then Text.trim text
  else "(No text in the model's final reply after stripping tool markup. See logs or retry.)"

/-- An answer of the model: its cost is recorded, and its tool calls are made. -/
def plainTurn (st : PlainState) (text : String) (tokens : UInt32) : PlainState :=
  let amount := tokenCost tokens.toNat
  let budget := st.budget.spend d.spentAt amount
  let st := { st with
    totalTokens := st.totalTokens + tokens
    budget := budget
    conversation := st.conversation ++ [⟨.assistant, text⟩]
    tokens := st.tokens ++ [tokens]
    spends := st.spends ++ [⟨amount, budget⟩] }
  match calls.parseToolCalls text with
  | [] => st.answer (finalText calls text)
  | parsed =>
      let unique := mergeCalls parsed []
      let merged := parsed.length - unique.length
      let st := if 0 < merged then st.say
        s!"(System: merged {merged} duplicate tool call(s); each unique call runs once.)" else st
      plainCalls calls config d 0 unique st

/-- What the executor returns for the task of an iteration. -/
def plainResult (st : PlainState) : Except String TaskData → PlainState
  | .ok (.inference text tokens) => plainTurn calls config d st text tokens
  | .ok (.error e) => st.fail "" s!"Inference error: {e}"
  | .ok .other => st.fail "" "Unexpected response type"
  | .error e => st.fail "" s!"Executor error: {e}"

/-- The body of the plain loop. -/
def plainIteration (st : PlainState) : PlainState :=
  if d.stopped then st.fail (st.extractLastText calls.extractAnswer) "Stopped by user"
  else if maxIterations < st.iterations then
    st.fail (st.extractLastText calls.extractAnswer) "Max iterations reached"
  else
    match st.budget.canSpend d.checkedAt (tokenCost config.maxTokens.toNat) with
    | (false, budget) =>
        let st := { st with budget := budget }
        st.fail (st.extractLastText calls.extractAnswer) "Budget exhausted"
    | (true, budget) =>
        let st := { st with budget := budget }
        match compactedMessages calls config st.conversation with
        | none => st.abort
        | some conversation =>
            plainResult calls config d { st with conversation := conversation }
              (d.execute ⟨config.model, conversation, config.maxTokens, config.temperature, [],
                false⟩)

end Plain

namespace PlainLoop

/-- A turn of a session as a message. -/
def historyMessage (turn : String × String) : ChatMessage :=
  if turn.1 = "assistant" then ⟨.assistant, turn.2⟩ else .user turn.2

/-- The state in which the plain loop begins. -/
def initial (r : AgentRuntime) (t : TaskInput) : PlainState where
  budget := r.budget.newRequest
  conversation := ⟨.system, t.systemPrompt⟩ :: t.history.map historyMessage ++ [.user t.userInput]
  toolCalls := []
  iterations := 0
  totalTokens := 0
  ended := none
  tokens := []
  spends := []

/-- One iteration. -/
def step (calls : AgenticCalls) (config : AgentConfig) (st : PlainState) (d : IterationDraw) :
    PlainState :=
  if st.ended.isSome then st
  else plainIteration calls config d { st with iterations := st.iterations + 1 }

end PlainLoop

/-! ## A task -/

/-- A task without an inference sink. -/
def runPlain (calls : AgenticCalls) (r : AgentRuntime) (t : TaskInput) :
    AgentRuntime × TaskReport :=
  let st := Machine.run (PlainLoop.step calls t.config) (PlainLoop.initial r t)
    ((List.range (maxIterations + 1)).map t.iterations)
  (⟨st.budget, st.conversation⟩, ⟨st.ended.join, st.tokens, st.spends⟩)

/-- The session, as a text. -/
def historyText (prompts : PromptBundle) (history : List (String × String)) : String :=
  if history.isEmpty then ""
  else
    Text.trimEndMatches '\n' prompts.agentRuntimePriorConversationHeader ++ "\n" ++
      Text.join "" (history.map fun turn =>
        let label := if turn.1 = "user" then "User"
          else if turn.1 = "assistant" then "Assistant" else "Message"
        label ++ ": " ++ turn.2 ++ "\n\n") ++ "\n"

/-- What the unified loop is given for a task. -/
def unifiedSetup (calls : AgenticCalls) (t : TaskInput) : AgenticSetup where
  prompts := t.prompts
  calls := calls
  registry := true
  mcp := t.extras.useMcp && t.extras.mcp
  allowedLocalTools := if t.config.allowedTools.isEmpty then none else some t.config.allowedTools
  systemPrefix := t.systemPrefix
  conversationBody :=
    (if Text.trim t.config.systemPrompt = "" then ""
      else t.prompts.agentRuntimeInstructionsBlock (Text.trim t.config.systemPrompt)) ++
    t.extras.skillBlock ++ historyText t.prompts t.history ++
    t.prompts.agentRuntimeTaskBody t.userInput
  model := t.config.model
  maxTokens := t.config.maxTokens
  temperature := t.config.temperature
  modelCtxChars := if 0 < t.extras.modelCtxChars then t.extras.modelCtxChars else 48000

/-- The unified loop, when it has ended. -/
def unifiedRun (calls : AgenticCalls) (t : TaskInput) : AgenticState :=
  Machine.run (AgenticLoop.step (unifiedSetup calls t)) (AgenticLoop.initial (unifiedSetup calls t))
    ((List.range agenticMaxIters).map t.passes)

/-- `run_task_via_unified_loop`. -/
def runTaskViaUnifiedLoop (calls : AgenticCalls) (r : AgentRuntime) (t : TaskInput) :
    AgentRuntime × TaskReport :=
  let budget := r.budget.newRequest
  let tokens := (unifiedRun calls t).turns.map AgenticTurnOutcome.tokensGenerated
  match (unifiedRun calls t).ended with
  | some (.ok out) =>
      let amount := tokenCost out.outcome.tokensGenerated.toNat
      let budget := budget.spend t.chargedAt amount
      ({ r with budget := budget },
        { result := some {
            answer := out.outcome.text
            toolCalls := out.toolRecords
            iterations := UInt32.ofNat out.iterations
            totalTokens := out.outcome.tokensGenerated
            budgetSpent := budget.totalSpent
            success := true
            error := none }
          tokens := tokens
          spends := [⟨amount, budget⟩] })
  | some (.err e) =>
      ({ r with budget := budget },
        { result := some {
            answer := if e = "Stopped by user" then "Stopped by user." else ""
            toolCalls := []
            iterations := 0
            totalTokens := 0
            budgetSpent := budget.totalSpent
            success := false
            error := some e }
          tokens := tokens
          spends := [] })
  | some .panic | none => ({ r with budget := budget }, ⟨none, tokens, []⟩)

/-- A task: the runtime after it, and what it leaves. -/
def runTaskWithSession (calls : AgenticCalls) (r : AgentRuntime) (t : TaskInput) :
    AgentRuntime × TaskReport :=
  if t.inferenceSink then runTaskViaUnifiedLoop calls r t else runPlain calls r t

/-- A runtime runs one task after another. -/
def AgentRuntime.step (calls : AgenticCalls) (r : AgentRuntime) (t : TaskInput) : AgentRuntime :=
  (runTaskWithSession calls r t).1

end PeerClaw
