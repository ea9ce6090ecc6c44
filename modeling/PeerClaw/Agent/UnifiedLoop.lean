import PeerClaw.Agent.Config
import PeerClaw.Lib.Action
import PeerClaw.Lib.Machine

/-!
# The unified loop

`run_unified_agentic_loop` in `agent/unified_loop.rs`: a model is asked, the tool
calls in its answer are made, and their results are appended to the conversation,
until an answer has no calls in it.  One pass of the loop is one step of a machine
whose input is everything the pass asks of others.

* `filterCalls` — calls that have been made too often are dropped.
* `execCall`, `execCalls` — the calls of a pass.
* `AgenticLoop.step` — a pass.
-/

namespace PeerClaw

open Lib

/-! ## What a run is given -/

/-- The result of one turn of the model. -/
structure AgenticTurnOutcome where
  text : String
  tokensGenerated : UInt32
  tokensPerSecond : Float32
  location : String
  providerPeerId : Option String

/-- The texts that are put into a conversation. -/
structure PromptBundle where
  agentRuntimePriorConversationHeader : String
  agentRuntimeInstructionsFmt : String
  agentRuntimeTaskBodySuffix : String
  unifiedFinalTurnSuffix : String
  unifiedAssistantTurnMarker : String
  unifiedCompactRetrySuffix : String
  unifiedUrlFetchNudge : String
  unifiedPreambleNudge : String
  unifiedEmptyFinalReply : String
  unifiedAllCallsBlocked : String
  unifiedConversationUserLabel : String
  unifiedToolResultsHeader : String
  unifiedToolResultsFollowup : String
  unifiedAllToolsFailedSuffix : String
  unifiedMaxItersError : String
  unifiedMcpOnlyToolError : String
  unifiedRepeatCallWarning : String
  unifiedMergeDuplicatesNotice : String
  unifiedSkippedCallsNotice : String

/-- `subst`. -/
def subst (template : String) (pairs : List (String × String)) : String :=
  pairs.foldl (fun s pair => Text.replace s ("\x7b" ++ pair.1 ++ "\x7d") pair.2) template

namespace PromptBundle

variable (prompts : PromptBundle)

def agentRuntimeInstructionsBlock (spec : String) : String :=
  subst prompts.agentRuntimeInstructionsFmt [("spec", spec)]

def agentRuntimeTaskBody (userInput : String) : String :=
  subst prompts.agentRuntimeTaskBodySuffix [("user_input", userInput)]

def unifiedRepeatWarning (name : String) (count : ℕ) : String :=
  subst prompts.unifiedRepeatCallWarning [("name", name), ("count", toString count)]

def unifiedMergeDuplicates (merged : ℕ) : String :=
  subst prompts.unifiedMergeDuplicatesNotice [("duplicate_calls_merged", toString merged)]

def unifiedSkippedCalls (d max : ℕ) : String :=
  subst prompts.unifiedSkippedCallsNotice [("d", toString d), ("max", toString max)]

end PromptBundle

/-- Functions that the loops call. -/
structure AgenticCalls where
  /-- `parse_tool_calls`. -/
  parseToolCalls : String → List ParsedToolCall
  /-- `extract_answer`. -/
  extractAnswer : String → String
  /-- `prune_string_conversation`; it may panic. -/
  pruneStringConversation : String → ℕ → ℕ → Option String
  /-- `prune_conversation`; it may panic. -/
  pruneConversation : List ChatMessage → ℕ → Option (List ChatMessage)
  /-- The hash of the text of some arguments. -/
  hashArgs : String → UInt64
  /-- `str::to_lowercase`. -/
  toLowercase : String → String

/-- The arguments of `run_unified_agentic_loop`, and the functions it calls. -/
structure AgenticSetup where
  prompts : PromptBundle
  calls : AgenticCalls
  /-- There is a registry of local tools. -/
  registry : Bool
  /-- MCP is enabled. -/
  mcp : Bool
  allowedLocalTools : Option (List String)
  /-- What `build_agentic_system_prefix` returns. -/
  systemPrefix : String
  conversationBody : String
  model : String
  maxTokens : UInt32
  temperature : Float32
  modelCtxChars : ℕ

/-- The answers that one pass gets. -/
structure PassDraw where
  /-- The pass is cancelled. -/
  cancelled : Bool
  infer : String → String → UInt32 → Float32 → Except String AgenticTurnOutcome
  /-- How many MCP tools there are. -/
  mcpToolCount : ℕ
  /-- The names of the local tools of the registry. -/
  localTools : List String
  /-- `McpManager::call_tool`, with the result as JSON. -/
  callMcp : String → Value → Except String String
  /-- `ToolRegistry::execute_local`, with the output as JSON. -/
  executeLocal : String → Value → Except String String
  durationMs : String → Value → UInt64
  /-- The time, as it is shown in a log. -/
  clock : String

/-! ## The state of a run -/

/-- What happens to a tool call. -/
inductive ToolEvent
  /-- It is made, in a pass, with a local tool or an MCP tool. -/
  | ran (pass : ℕ) (isLocal : Bool) (call : ParsedToolCall)
  /-- It is dropped, because it has been made too often. -/
  | blocked (pass : ℕ) (call : ParsedToolCall)
  /-- Its tool is not allowed. -/
  | refused (pass : ℕ) (call : ParsedToolCall)

/-- What a run returns. -/
structure AgenticOutput where
  outcome : AgenticTurnOutcome
  toolLogs : List String
  toolRecords : List ToolCallRecord
  iterations : ℕ

/-- The name of a tool and the hash of the arguments. -/
abbrev CallSig := String × UInt64

/-- The variables of the loop.  The turns of the model and the events are kept to speak about
them. -/
structure AgenticState where
  /-- The number of the pass; 0 before the first. -/
  iter : ℕ
  conversation : String
  toolLogs : List String
  toolRecords : List ToolCallRecord
  totalTokens : UInt32
  consecutiveAllFailPasses : ℕ
  toolCallHistory : List CallSig
  toolPreambleNudges : ℕ
  urlFetchNudges : ℕ
  ended : Option (Outcome String AgenticOutput)
  turns : List AgenticTurnOutcome
  events : List ToolEvent

namespace AgenticState

variable (st : AgenticState)

/-- The run returns, or panics. -/
def finish (outcome : Outcome String AgenticOutput) : AgenticState := { st with ended := some outcome }

/-- Append to the conversation. -/
def say (text : String) : AgenticState := { st with conversation := st.conversation ++ text }

/-- Note an event. -/
def note (e : ToolEvent) : AgenticState := { st with events := st.events ++ [e] }

end AgenticState

/-- Add two numbers of 32 bits; the sum saturates. -/
def saturatingAdd (a b : UInt32) : UInt32 :=
  if a.toNat + b.toNat < 4294967296 then a + b else 4294967295

/-! ## What a pass looks at -/

/-- `AGENTIC_MAX_ITERS`. -/
def agenticMaxIters : ℕ := 20

/-- `AGENTIC_MAX_TOOL_CALLS_PER_PASS`. -/
def agenticMaxToolCallsPerPass : ℕ := 4

/-- `response_looks_like_intent_without_delivery`. -/
def responseLooksLikeIntentWithoutDelivery (toLowercase : String → String) (response : String) :
    Bool :=
  let t := Text.trim response
  let lower := toLowercase t
  let preamble := ["i'll ", "i will ", "let me ", "i'm going to ", "i am going to ",
    "gathering information", "authoritative sources", "i'll start", "i'll begin"].any
      fun phrase => Text.contains lower phrase
  if 2800 < t.length then false
  else if (Text.contains t "(1)" && Text.contains t "(2)") || 2 ≤ Text.countMatches t "##" then false
  else preamble && t.length < 1400

/-- `goal_suggests_network_fetch`. -/
def goalSuggestsNetworkFetch (toLowercase : String → String) (conversation : String)
    (afterPrefix : ℕ) : Bool :=
  let tail := ((Text.dropBytes afterPrefix conversation.toList).map String.ofList).getD ""
  let lower := toLowercase tail
  let hasUrlToken := ["http://", "https://", "www.", "url:"].any
    fun token => Text.contains lower token
  let fetchPhrase := ["fetch and summarize", "fetch this", "summarize this url", "this page"].any
    fun phrase => Text.contains lower phrase
  hasUrlToken || fetchPhrase || (Text.contains lower "summarize" && hasUrlToken)

namespace AgenticSetup

variable (s : AgenticSetup)

/-- The number of tokens that the model may generate. -/
def requestedTokens : UInt32 := min s.maxTokens 16384

/-- `prefix_len`. -/
def prefixLen : ℕ := Text.byteLen s.systemPrefix.toList

/-- `conv_max_chars`. -/
def convMaxChars : ℕ := max (s.modelCtxChars - (s.requestedTokens.toNat * 4 + 200)) 2000

/-- A local tool is allowed; no list, or an empty one, allows every tool. -/
def allows (name : String) : Bool :=
  match s.allowedLocalTools with
  | none => true
  | some names => names.isEmpty || names.contains name

/-- `agentic_action_tools_available`. -/
def actionToolsAvailable (d : PassDraw) : Bool :=
  if s.mcp && 0 < d.mcpToolCount then true
  else if !s.registry then false
  else d.localTools.any s.allows

end AgenticSetup

/-- The turn of the model is an error. -/
def AgenticTurnOutcome.isError (inf : AgenticTurnOutcome) : Bool :=
  inf.location = "error" || Text.startsWith inf.text "Error: Inference error:" ||
    Text.startsWith inf.text "Error: "

/-! ## The calls of a pass -/

/-- The name of the tool of a call and the hash of its arguments. -/
def callSig (s : AgenticSetup) (call : ParsedToolCall) : CallSig :=
  (call.name, s.calls.hashArgs call.args.render)

/-- What is left of some calls. -/
structure Filtered where
  kept : List ParsedToolCall
  history : List CallSig
  warnings : List String
  events : List ToolEvent

/-- Drop the calls that have been let through four times, and warn of those that have been twice. -/
def filterCalls (s : AgenticSetup) (pass : ℕ) : List ParsedToolCall → List CallSig → Filtered
  | [], history => ⟨[], history, [], []⟩
  | call :: calls, history =>
      let repeatCount := history.count (callSig s call)
      if 4 ≤ repeatCount then
        let rest := filterCalls s pass calls history
        { rest with events := .blocked pass call :: rest.events }
      else
        let rest := filterCalls s pass calls (history ++ [callSig s call])
        { rest with
          kept := call :: rest.kept
          warnings := if 2 ≤ repeatCount then
            s.prompts.unifiedRepeatWarning call.name (repeatCount + 1) :: rest.warnings
            else rest.warnings }

/-- The name of a tool and the text of the arguments. -/
def callKey (call : ParsedToolCall) : String × String := (call.name, call.args.render)

/-- Keep the first of the calls with the same name and arguments. -/
def mergeCalls : List ParsedToolCall → List (String × String) → List ParsedToolCall
  | [], _ => []
  | call :: calls, seen =>
      if callKey call ∈ seen then mergeCalls calls seen
      else call :: mergeCalls calls (callKey call :: seen)

/-- A text, cut after 220 characters. -/
def logPreview (summary : String) : String :=
  if 220 < summary.length then String.ofList (summary.toList.take 217) ++ "…" else summary

/-- A text, cut after 3000 bytes; cutting inside a character panics. -/
def truncatedSummary (summary : String) : Option String :=
  if 3000 < Text.byteLen summary.toList then
    (Text.takeBytes 3000 summary.toList).map fun cs => String.ofList cs ++ "… (truncated)"
  else some summary

section Calls

variable (s : AgenticSetup) (d : PassDraw)

/-- The call of an MCP tool or a local one: what it puts out and whether it succeeded. -/
def callTool (st : AgenticState) (call : ParsedToolCall) : AgenticState × String × Bool :=
  if ':' ∈ call.name.toList then
    if s.mcp then
      let st := st.note (.ran st.iter false call)
      match d.callMcp call.name call.args with
      | .ok result => (st, result, true)
      | .error e => (st, s!"ERROR: {e}", false)
    else
      (st, "ERROR: MCP tool requested but MCP is not enabled or has no connected tools", false)
  else if s.registry then
    let st := st.note (.ran st.iter true call)
    match d.executeLocal call.name call.args with
    | .ok output => (st, output, true)
    | .error e => (st, (Value.ofFields [("error", .string e)]).render, false)
  else (st, Text.trim s.prompts.unifiedMcpOnlyToolError, false)

/-- Note a call in the records and the logs. -/
def recordCall (st : AgenticState) (call : ParsedToolCall) (summary preview : String)
    (success : Bool) (durationMs : UInt64) : AgenticState :=
  { st with
    toolRecords := st.toolRecords ++ [⟨call.name, call.args, summary, success, durationMs⟩]
    toolLogs := st.toolLogs ++ [s!"[{d.clock}] {call.name} → {preview}"] }

/-- A call that is refused. -/
def refuseCall (st : AgenticState) (call : ParsedToolCall) : AgenticState :=
  let msg := s!"ERROR: Tool '{call.name}' is not in the allowed tools list"
  let st := recordCall d (st.note (.refused st.iter call)) call msg
    (String.ofList (msg.toList.take 220)) false 0
  st.say s!"Tool: {call.name}\nResult: {msg}\n\n"

/-- A call; the result says whether it failed. -/
def execCall (st : AgenticState) (call : ParsedToolCall) : AgenticState × Bool :=
  if ':' ∉ call.name.toList ∧ !s.allows call.name then (refuseCall d st call, true)
  else
    match callTool s d st call with
    | (st, summary, success) =>
        let st := recordCall d st call summary (logPreview summary) success
          (d.durationMs call.name call.args)
        match truncatedSummary summary with
        | none => (st.finish .panic, !success)
        | some text => (st.say s!"Tool: {call.name}\nResult: {text}\n\n", !success)

/-- The calls of a pass, one after the other; the result says how many failed. -/
def execCalls : List ParsedToolCall → AgenticState → AgenticState × ℕ
  | [], st => (st, 0)
  | call :: calls, st =>
      match execCall s d st call with
      | (st, failed) =>
          if st.ended.isSome then (st, 0)
          else
            match execCalls calls st with
            | (st, failures) => (st, failures + failed.toNat)

end Calls

/-! ## A pass -/

section Passes

variable (s : AgenticSetup) (d : PassDraw) (st : AgenticState) (inf : AgenticTurnOutcome)

/-- A text with a line break at its end. -/
def withNewline (text : String) : String := if Text.endsWith text "\n" then text else text ++ "\n"

/-- The answer of a run. -/
def answerWith (text : String) : AgenticState :=
  st.finish (.ok ⟨{ inf with text := text, tokensGenerated := st.totalTokens }, st.toolLogs,
    st.toolRecords, st.iter⟩)

/-- The text of an answer without the markup of tools; `fallback` if nothing is left. -/
def answerText (fallback : String) : String :=
  let cleaned := s.calls.extractAnswer inf.text
  if Text.trim cleaned ≠ "" then cleaned
  else if Text.trim inf.text ≠ "" then Text.trim inf.text
  else fallback

/-- What stands for an answer that is empty. -/
def emptyAnswer : String :=
  match st.toolRecords.getLast? with
  | some last =>
      let preview := String.ofList (last.result.toList.take 4000)
      if Text.trim preview = "" then
        s!"Completed {st.toolRecords.length} tool call(s). No additional commentary from model."
      else preview
  | none => Text.trim s.prompts.unifiedEmptyFinalReply

/-- The model is nudged. -/
def nudge (text : String) : AgenticState :=
  st.say ("\n\nAssistant:\n" ++ Text.trim inf.text ++ "\n\n" ++ Text.trim text ++ "\n")

/-- A turn without tool calls: the model is nudged, or this is the answer. -/
def finalPass : AgenticState :=
  if st.urlFetchNudges < 2 ∧ st.iter < agenticMaxIters ∧ st.toolLogs.isEmpty ∧
      st.toolRecords.isEmpty ∧
      goalSuggestsNetworkFetch s.calls.toLowercase st.conversation s.prefixLen ∧
      s.actionToolsAvailable d then
    nudge { st with urlFetchNudges := st.urlFetchNudges + 1 } inf s.prompts.unifiedUrlFetchNudge
  else if st.toolPreambleNudges < 2 ∧ st.iter < agenticMaxIters ∧ s.actionToolsAvailable d ∧
      responseLooksLikeIntentWithoutDelivery s.calls.toLowercase inf.text then
    nudge { st with toolPreambleNudges := st.toolPreambleNudges + 1 } inf
      s.prompts.unifiedPreambleNudge
  else answerWith st inf (answerText s inf (emptyAnswer s st))

/-- The part of the conversation that is kept when the model could not answer. -/
def goalSection (conversation : List Char) : Option (List Char) :=
  let goals := ["Goal:", "### Agent goal", "### Task", "### User thread"].filterMap fun goal =>
    (Text.splitAtFirst goal.toList conversation).map Prod.snd
  let tail := match goals with
    | tail :: _ => some tail
    | [] => Text.dropBytes s.prefixLen conversation
  tail.bind fun tail =>
    match Text.splitAtFirst "\n\nAssistant:".toList tail with
    | some (goal, _) => some goal
    | none => Text.takeBytes (min (Text.byteLen tail) 2000) tail

/-- The model could not answer: the conversation is cut down to the goal. -/
def retryPass : AgenticState :=
  match goalSection s st.conversation.toList, Text.takeBytes s.prefixLen st.conversation.toList with
  | some goal, some head =>
      { st with conversation := String.ofList head ++ "\n\n" ++ String.ofList goal ++ "\n\n" ++
          Text.trim s.prompts.unifiedCompactRetrySuffix ++ "\n" }
  | _, _ => st.finish .panic

/-- What is said about the calls that are made. -/
def announceCalls (merged dropped : ℕ) : AgenticState :=
  st.say ("\n\nAssistant:\n" ++ inf.text ++ s.prompts.unifiedConversationUserLabel ++
    (if 0 < merged then s.prompts.unifiedMergeDuplicates merged ++ "\n" else "") ++
    (if 0 < dropped then
      s.prompts.unifiedSkippedCalls dropped agenticMaxToolCallsPerPass ++ "\n" else "") ++
    withNewline s.prompts.unifiedToolResultsHeader)

/-- What is said when the calls have been made. -/
def followUp (failures count : ℕ) : AgenticState :=
  let st := if failures < count then st.say (withNewline s.prompts.unifiedToolResultsFollowup) else st
  if count ≤ failures then
    let st := { st with consecutiveAllFailPasses := st.consecutiveAllFailPasses + 1 }
    if 2 ≤ st.consecutiveAllFailPasses then
      st.say ("\n" ++ Text.trim s.prompts.unifiedAllToolsFailedSuffix ++ "\n")
    else st
  else { st with consecutiveAllFailPasses := 0 }

/-- The calls that are left are merged and cut off, and made. -/
def runCalls (kept : List ParsedToolCall) : AgenticState :=
  let unique := mergeCalls kept []
  let chosen := unique.take agenticMaxToolCallsPerPass
  let st := announceCalls s st inf (kept.length - unique.length) (unique.length - chosen.length)
  match execCalls s d chosen st with
  | (st, failures) => if st.ended.isSome then st else followUp s st failures chosen.length

/-- A turn with tool calls. -/
def toolPass (calls : List ParsedToolCall) : AgenticState :=
  let filtered := filterCalls s st.iter calls st.toolCallHistory
  let st := { st with
    toolCallHistory := filtered.history
    events := st.events ++ filtered.events }
  let st := if filtered.warnings.isEmpty then st
    else st.say ("\n" ++ Text.join "" (filtered.warnings.map fun w => w ++ "\n"))
  if filtered.kept.isEmpty then
    answerWith st inf (answerText s inf (Text.trim s.prompts.unifiedAllCallsBlocked))
  else runCalls s d st inf filtered.kept

/-- What is done with a turn of the model. -/
def turnPass : AgenticState :=
  let st := { st with
    totalTokens := saturatingAdd st.totalTokens inf.tokensGenerated
    turns := st.turns ++ [inf] }
  if inf.isError then retryPass s st
  else
    match s.calls.parseToolCalls inf.text with
    | [] => finalPass s d st inf
    | calls => toolPass s d st inf calls

/-- The conversation, compacted if it is too long. -/
def compacted (conversation : String) : Option String :=
  if s.convMaxChars < Text.byteLen conversation.toList then
    s.calls.pruneStringConversation conversation s.prefixLen s.convMaxChars
  else some conversation

/-- The body of the loop. -/
def agenticPass : AgenticState :=
  match compacted s st.conversation with
  | none => st.finish .panic
  | some conversation =>
      let st := { st with conversation := conversation }
      let st := if st.iter = agenticMaxIters then
        st.say ("\n\n" ++ Text.trim s.prompts.unifiedFinalTurnSuffix ++ "\n") else st
      if d.cancelled then st.finish (.err "Stopped by user")
      else
        let prompt := if st.iter = 1 then
          st.conversation ++ s.prompts.unifiedAssistantTurnMarker else st.conversation
        match d.infer prompt s.model s.requestedTokens s.temperature with
        | .error e => st.finish (.err e)
        | .ok inf => turnPass s d st inf

end Passes

namespace AgenticLoop

/-- The state in which the loop begins. -/
def initial (s : AgenticSetup) : AgenticState where
  iter := 0
  conversation := s.systemPrefix ++ "\n\n" ++ s.conversationBody
  toolLogs := []
  toolRecords := []
  totalTokens := 0
  consecutiveAllFailPasses := 0
  toolCallHistory := []
  toolPreambleNudges := 0
  urlFetchNudges := 0
  ended := none
  turns := []
  events := []

/-- One pass; after the last one the run fails. -/
def step (s : AgenticSetup) (st : AgenticState) (d : PassDraw) : AgenticState :=
  if st.ended.isSome then st
  else
    let st := agenticPass s d { st with iter := st.iter + 1 }
    if st.ended.isNone ∧ agenticMaxIters ≤ st.iter then
      st.finish (.err (Text.trim s.prompts.unifiedMaxItersError))
    else st

end AgenticLoop

end PeerClaw
