import PeerClaw.Flow.Spec
import PeerClaw.Agent.Config
import PeerClaw.Lib.FiniteMap
import PeerClaw.Lib.Machine
import Mathlib.Data.List.Sort
import PeerClaw.Value

/-!
# The graph interpreter

`run_interpreter` in `flow/interpreter.rs` walks a flow from its start node.  A
cursor stands at a node; what the node does depends on its kind, and `pick_next`
takes one of its outgoing edges.  One turn of the loop is one step of a machine
whose input is everything the turn asks of others: the value of a condition, the
answer of a tool or a model.

* `pickNext` — the edge that is taken.
* `visit` — what a node does: the new state, and the branch to take.
* `FlowRun.step` — one turn of the loop, with or without the cap on their number.
-/

/-!
## Templates

The texts of a flow have placeholders in them, which are replaced one key after
the other in the text as it then stands.
-/

namespace PeerClaw

open Lib

/-- `value_to_string`: the text of a string, and the JSON of anything else. -/
def valueToString : Value → String
  | .string s => s
  | v => v.render

/-- Replace the placeholders `pattern key` by the values of an object. -/
def interpolateWith (pattern : String → String) (template : String) (context : Value) : String :=
  match context.asObject with
  | none => template
  | some fields =>
      fields.foldl (fun s field => Text.replace s (pattern field.1) (valueToString field.2)) template

/-- `interpolate_inputs`: the placeholder of a key is the key in braces after a dollar sign. -/
def interpolateInputs : String → Value → String := interpolateWith fun k => "$\x7b" ++ k ++ "\x7d"

/-- `interpolate_context`: the placeholder of a key is the key in braces. -/
def interpolateContext : String → Value → String := interpolateWith fun k => "\x7b" ++ k ++ "\x7d"

/-- `build_template_context`: the inputs, and over them the outputs. -/
def buildTemplateContext (inputs : Value) (outputs : Fields) : Value :=
  .object (Fields.insertAll (Fields.insertAll [] (inputs.asObject.getD [])) outputs)

example : interpolateInputs "$\x7ba\x7d and \x7ba\x7d" (.ofFields [("a", .string "x")]) =
    "x and \x7ba\x7d" := by decide

end PeerClaw

namespace PeerClaw

open Lib

/-! ## What a flow asks of others -/

/-- The variables of a condition. -/
structure Activation where
  inputs : Value
  outputs : Value
  state : Value
  inputAsText : String
  iteration : UInt32

/-- What an expression evaluates to. -/
inductive CelValue
  | bool (b : Bool)
  | int (i : Int64)
  | uint (u : UInt64)
  | null
  /-- Another value, by how it is printed. -/
  | other (debug : String)

/-- The content of an answer of an MCP tool. -/
inductive McpContent
  | text (text : String)
  | image (data mimeType : String)
  | resource (uri : String) (text : Option String)

structure McpToolResult where
  content : List McpContent
  isError : Bool

/-- A hit of a vector search. -/
structure SearchResult where
  id : String
  score : Number
  payload : Option Value
  text : Option String

/-- What the guardrails ask of the safety layer. -/
structure SafetyChecks where
  /-- `scan_inbound` fails. -/
  leaks : String → Bool
  /-- The sanitizer has a warning. -/
  warns : String → Bool
  /-- The policy has a violation that blocks. -/
  blocks : String → Bool

/-- What does not change while a flow runs. -/
structure FlowWorld where
  defaultModel : String
  /-- `serde_json::from_str`. -/
  parseJson : String → Except String Value
  /-- `serde_json::from_str`, for an array. -/
  parseJsonArray : String → Except String (List Value)
  safety : Option SafetyChecks
  /-- `guard_urls_allowed`. -/
  urlsAllowed : String → Bool
  mcpConnected : Bool
  builtinNames : List String

/-- The answers that one turn of the loop gets. -/
structure FlowDraw (χ : Type) where
  /-- A program is compiled and executed. -/
  celExecute : String → Activation → Except String CelValue
  /-- The same, with the value turned into JSON. -/
  celJson : String → Activation → Except String Value
  callTool : String → Value → Except String McpToolResult
  searchText : String → String → ℕ → Except String (List SearchResult)
  /-- A crew is validated and run. -/
  runCrew : χ → Value → Except String Value
  /-- `run_task_with_session`: the configuration, the task and the session. -/
  runTask : AgentConfig → String → Option String → AgentResult
  execute : InferenceTask → Except String TaskData

/-! ## Errors -/

/-- Why a flow fails. -/
inductive FlowError
  | noStart
  | missingNode (id : String)
  /-- A branch node was not told which branch to take. -/
  | noBranch (id what : String)
  | missingEdge (id want : String)
  | ambiguous (id : String) (count : ℕ)
  | unknownKind (id kind : String)
  | maxSteps
  /-- A node could not do what it does. -/
  | failed (message : String)
  deriving DecidableEq

/-- The text of an error. -/
def FlowError.text : FlowError → String
  | .noStart => "interpreter mode requires exactly one start node"
  | .missingNode id => s!"missing node {id}"
  | .noBranch id what => s!"node {id}: {what} internal error"
  | .missingEdge id want => s!"node {id}: missing '{want}' labeled outgoing edge"
  | .ambiguous id count =>
      s!"node {id}: ambiguous outgoing edges ({count}); use one unlabeled edge or one default label"
  | .unknownKind id kind => s!"node {id}: unknown kind '{kind}' for interpreter mode"
  | .maxSteps => "flow interpreter: max steps exceeded (infinite loop?)"
  | .failed message => message

/-- Go on if a condition holds. -/
def require (p : Prop) [Decidable p] (message : String) : Except FlowError Unit :=
  if p then .ok () else .error (.failed message)

/-- The value, if there is one. -/
def orFail {α : Type} (x : Option α) (message : String) : Except FlowError α :=
  match x with
  | some a => .ok a
  | none => .error (.failed message)

/-- The value of a call, or its error as a message. -/
def orFailWith {α : Type} (x : Except String α) (message : String → String) : Except FlowError α :=
  x.mapError fun e => .failed (message e)

/-! ## The edge that is taken -/

section PickNext

variable {χ : Type}

/-- The first edge with the label of a branch. -/
def pickLabeled (id what : String) (outs : List Outgoing) (branch : Option String) :
    Except FlowError (Option String) :=
  match branch with
  | none => .error (.noBranch id what)
  | some branch =>
      let want := Text.toAsciiLowercase branch
      match labeled want outs with
      | out :: _ => .ok (some out.1)
      | [] => .error (.missingEdge id want)

/-- The only edge, or the only one without a label, or the only default. -/
def pickOnly (id : String) (outs : List Outgoing) : Except FlowError (Option String) :=
  match outs with
  | [] => .ok none
  | [out] => .ok (some out.1)
  | outs =>
      match unlabeled outs, labeled "default" outs with
      | [out], _ => .ok (some out.1)
      | _, [out] => .ok (some out.1)
      | _, _ => .error (.ambiguous id outs.length)

/-- `pick_next`. -/
def pickNext (n : FlowNode χ) (outs : List Outgoing) (branch : Option String) :
    Except FlowError (Option String) :=
  match n.readKind with
  | .ifElse => pickLabeled n.id "if/else" outs branch
  | .while => pickLabeled n.id "while" outs branch
  | .guardrails => pickLabeled n.id "guardrails" outs branch
  | .approval => pickLabeled n.id "user approval" outs branch
  | _ => pickOnly n.id outs

end PickNext

/-! ## The state of a run -/

/-- The variables of the loop. -/
structure FlowState where
  /-- The node that comes next; the loop ends when there is none. -/
  cursor : Option String
  outputs : Fields
  stateMap : Fields
  /-- How often each while node has looped since it was last left. -/
  whileIter : FiniteMap String UInt32
  /-- The steps of the output. -/
  steps : List Value
  stepsGuard : ℕ
  /-- The error that ended the loop. -/
  error : Option FlowError

namespace FlowState

/-- The output of the node at the cursor. -/
def record (st : FlowState) (cur : String) (out : Value) : FlowState :=
  { st with outputs := st.outputs.insert cur out }

/-- One more step in the output of the run. -/
def push (st : FlowState) (fields : List (String × Value)) : FlowState :=
  { st with steps := st.steps ++ [.ofFields fields] }

/-- Set a variable of the flow. -/
def assign (st : FlowState) (key : String) (v : Value) : FlowState :=
  { st with stateMap := st.stateMap.insert key v }

end FlowState

/-- `input_as_text`. -/
def inputAsText (inputs : Value) : String :=
  match (inputs.get? "input_as_text").bind Value.asStr with
  | some s => s
  | none => ((inputs.get? "text").bind Value.asStr).getD inputs.render

/-- `prior_context_block`: the outputs of the nodes with an edge to this one, by their ids. -/
def priorContextBlock {χ : Type} (spec : FlowSpec χ) (id : String) (outputs : Fields) : String :=
  let sources := (spec.edges.filter fun e => e.target = id).map FlowEdge.source
  let blocks := (sources.insertionSort (· ≤ ·)).map fun sid =>
    match outputs.get? sid with
    | some out => "\n\n--- from " ++ sid ++ " ---\n" ++ valueToString out
    | none => ""
  Text.join "" blocks

/-! ## What the nodes do -/

/-- A turn at a node: the state it leaves, and the branch it takes. -/
abbrev Turn := Except FlowError (FlowState × Option String)

section Nodes

variable {χ : Type} (w : FlowWorld) (spec : FlowSpec χ) (inputs : Value) (d : FlowDraw χ)
  (st : FlowState) (cur : String) (n : FlowNode χ)

/-- The variables of an expression. -/
def activation (iteration : UInt32) : Activation where
  inputs := inputs
  outputs := .object st.outputs
  state := .object st.stateMap
  inputAsText := inputAsText inputs
  iteration := iteration

/-- `cel_bool`. -/
def celBool (expr : String) (act : Activation) : Except FlowError Bool :=
  if Text.trim expr = "" then .ok false
  else
    match d.celExecute (Text.trim expr) act with
    | .error message => .error (.failed message)
    | .ok (.bool b) => .ok b
    | .ok (.int i) => .ok (i ≠ 0)
    | .ok (.uint u) => .ok (u ≠ 0)
    | .ok .null => .ok false
    | .ok (.other debug) => .error (.failed s!"CEL result is not bool: {debug}")

/-- `cel_json_value`. -/
def celJsonValue (expr : String) (act : Activation) : Except FlowError Value :=
  if Text.trim expr = "" then .error (.failed "empty CEL expression")
  else orFailWith (d.celJson (Text.trim expr) act) id

/-- Run a task of inference. -/
def inferText (task : InferenceTask) : Except FlowError String :=
  match d.execute task with
  | .error message => .error (.failed message)
  | .ok (.inference text _) => .ok text
  | .ok (.error message) => .error (.failed message)
  | .ok .other => .error (.failed "non-inference flow step")

def visitStart : Turn :=
  let st := st.record cur inputs
  .ok (st.push [("id", .string cur), ("kind", .string "start"), ("output", inputs)], none)

def visitEnd : FlowState :=
  st.push [("id", .string cur), ("kind", .string "end"), ("output", .null)]

/-- The approval is simulated: the inputs say how it turns out. -/
def visitApproval : Turn :=
  let raw := (((inputs.get? "human_approval").orElse fun _ =>
    inputs.get? "simulated_human_approval").bind Value.asStr).getD "approve"
  let branch := if Text.toAsciiLowercase raw = "reject" then "reject" else "approve"
  let out := Value.ofFields [("branch", .string branch),
    ("message", .string (Text.trim n.prompt)), ("simulated", .bool true)]
  let st := st.record cur out
  .ok (st.push [("id", .string cur), ("kind", .string "user_approval"),
    ("branch", .string branch), ("output", out)], some branch)

def visitIf : Turn := do
  let cond ← celBool d n.conditionCel (activation inputs st 0)
  let branch := if cond then "true" else "false"
  return (st.push [("id", .string cur), ("kind", .string (Text.toAsciiLowercase n.kind)),
    ("branch", .string branch)], some branch)

/-- How a while node goes on. -/
inductive WhileMove
  /-- It has looped as often as it may. -/
  | exhausted
  /-- Its condition does not hold. -/
  | exit (iteration : UInt32)
  /-- Its condition holds. -/
  | loop (iteration : UInt32)
  deriving DecidableEq

/-- How often a while node may loop. -/
def FlowNode.maxIter : UInt32 := if n.maxIterations = 0 then 100 else n.maxIterations

/-- How often a while node has looped since it was last left. -/
def FlowState.done : UInt32 := (st.whileIter.lookup cur).getD 0

/-- How a while node goes on: the condition sees how often it has looped. -/
def whileMove : Except FlowError WhileMove :=
  let done := st.done cur
  if n.maxIter ≤ done then .ok .exhausted
  else do
    let cond ← celBool d n.conditionCel (activation inputs st done)
    return if cond then .loop done else .exit done

/-- Leave a while node, or loop once more. -/
def goOn : WhileMove → FlowState × Option String
  | .exhausted =>
      let st := { st with whileIter := st.whileIter.erase cur }
      (st.push [("id", .string cur), ("kind", .string "while"), ("branch", .string "exit"),
        ("reason", .string "max_iterations")], some "exit")
  | .exit _ =>
      let st := { st with whileIter := st.whileIter.erase cur }
      (st.push [("id", .string cur), ("kind", .string "while"), ("branch", .string "exit")],
        some "exit")
  | .loop done =>
      let st := { st with whileIter := st.whileIter.insert cur (st.done cur + 1) }
      (st.push [("id", .string cur), ("kind", .string "while"), ("branch", .string "loop"),
        ("iteration", .nat done.toUInt64)], some "loop")

def visitWhile : Turn := do
  let move ← whileMove inputs d st cur n
  return goOn st cur move

/-- Whether a text passes a check of the guardrails. -/
def passesCheck (layer : SafetyChecks) (text check : String) : Bool :=
  match Text.toAsciiLowercase check with
  | "leak" | "pii" => !layer.leaks text
  | "injection" | "jailbreak" => !layer.warns text
  | "policy" | "moderation" | "hallucination" | "nsfw" => !layer.blocks text
  | "url" | "url_filter" => w.urlsAllowed text
  | "custom" =>
      let needle := Text.trim n.guardrailCustomSubstring
      needle = "" ||
        !Text.contains (Text.toAsciiLowercase text) (Text.toAsciiLowercase needle)
  | _ => true

/-- The text that guardrails look at. -/
def guardrailText : Except FlowError String :=
  if Text.trim n.guardrailInputTemplate ≠ "" then
    .ok (interpolateContext n.guardrailInputTemplate (buildTemplateContext inputs st.outputs))
  else
    let sid := Text.trim n.sourceNodeId
    if sid = "" then
      .error (.failed s!"node {n.id}: guardrails needs source_node_id or guardrail_input_template")
    else .ok ((st.outputs.get? sid).elim "" valueToString)

def visitGuardrails : Turn := do
  let text ← guardrailText inputs st n
  let checks :=
    if n.guardrailChecks.isEmpty then ["leak", "injection", "policy"] else n.guardrailChecks
  let passed := match w.safety with
    | some layer => checks.all fun check => passesCheck w n layer text check
    | none => true
  let forced := !passed && n.guardrailContinueOnError
  let pass := passed || forced
  let branch := if pass then "pass" else "fail"
  let out := Value.ofFields [("pass", .bool pass), ("forced_pass", .bool forced),
    ("text_preview", .string (String.ofList (text.toList.take 500)))]
  let st := st.record cur out
  return (st.push [("id", .string cur), ("kind", .string "guardrails"),
    ("branch", .string branch), ("output", out)], some branch)

/-- The arguments of an MCP tool. -/
def mcpArguments : Except FlowError Value :=
  let raw := interpolateContext n.mcpArgumentsJson (buildTemplateContext inputs st.outputs)
  if Text.trim raw = "" then .ok (.object [])
  else orFailWith (w.parseJson raw) fun e =>
    s!"node {n.id}: mcp_arguments_json must be JSON object: {e}"

/-- The texts in the answer of an MCP tool. -/
def McpToolResult.texts (result : McpToolResult) : List String :=
  result.content.filterMap fun
    | .text text => some text
    | .resource _ text => text
    | .image .. => none

def visitMcp : Turn := do
  let toolId := Text.trim n.mcpToolId
  require (toolId ≠ "") s!"node {n.id}: mcp needs mcp_tool_id (server:tool)"
  let args ← mcpArguments w inputs st n
  require (w.mcpConnected) s!"node {n.id}: MCP is not connected on this node"
  let result ← orFailWith (d.callTool toolId args) fun e => s!"MCP call failed: {e}"
  let out := Value.ofFields [("text", .string (Text.join "\n" result.texts)),
    ("is_error", .bool result.isError)]
  let st := st.record cur out
  return (st.push [("id", .string cur), ("kind", .string "mcp"), ("output", out)], none)

def visitFileSearch : Turn := do
  let coll := Text.trim n.vectorCollection
  require (coll ≠ "") s!"node {n.id}: file_search needs vector_collection"
  let q := interpolateContext n.vectorQueryTemplate (buildTemplateContext inputs st.outputs)
  require (Text.trim q ≠ "") s!"node {n.id}: file_search needs vector_query_template"
  let topK := if n.vectorTopK = 0 then 10 else min n.vectorTopK.toNat 100
  let results ← orFailWith (d.searchText coll q topK) fun e => s!"vector search: {e}"
  let items := results.map fun r =>
    Value.ofFields [("id", .string r.id), ("score", .number r.score),
      ("text", .string (r.text.getD "")), ("payload", r.payload.getD .null)]
  let out := Value.ofFields [("results", .array items), ("query", .string q)]
  let st := st.record cur out
  return (st.push [("id", .string cur), ("kind", .string "file_search"), ("output", out)], none)

/-- The value that a node sets a variable to. -/
def stateValue : Except FlowError Value :=
  if Text.trim n.stateValueCel ≠ "" then celJsonValue d n.stateValueCel (activation inputs st 0)
  else
    let raw := interpolateContext n.stateValueJson (buildTemplateContext inputs st.outputs)
    if Text.trim raw = "" then .ok .null
    else
      match w.parseJson raw with
      | .ok v => .ok v
      | .error _ => .ok (.string raw)

def visitSetState : Turn := do
  let key := Text.trim n.stateKey
  require (key ≠ "") s!"node {n.id}: set_state needs state_key"
  let v ← stateValue w inputs d st n
  let out := Value.ofFields [("state_key", .string key), ("value", v)]
  let st := (st.assign key v).record cur out
  return (st.push [("id", .string cur), ("kind", .string "set_state"), ("output", out)], none)

/-- A row of a transform: the variable it sets, and its value before any row has been
applied. -/
def transformRow (act : Activation) (row : Value) : Except FlowError (String × Value) := do
  let key ← orFail ((row.get? "key").bind Value.asStr)
    s!"node {n.id}: each transform row needs string key"
  let cel ← orFail ((row.get? "cel").bind Value.asStr)
    s!"node {n.id}: each transform row needs string cel"
  let v ← celJsonValue d cel act
  return (key, v)

/-- What a transform sets, and its output. -/
abbrev Transformed := Except FlowError (List (String × Value) × Value)

def transformObject : Transformed := do
  let raw := interpolateContext (Text.trim n.transformObjectJson)
    (buildTemplateContext inputs st.outputs)
  let v ← orFailWith (w.parseJson raw) fun e => s!"node {n.id}: transform_object_json: {e}"
  let fields ← orFail v.asObject s!"node {n.id}: transform_object_json must be a JSON object"
  return (fields, .ofFields [("mode", .string "object"), ("keys", .texts (fields.map Prod.fst))])

def transformExpressions : Transformed := do
  let rows ← orFailWith (w.parseJsonArray n.transformExpressionsJson) fun e =>
    s!"node {n.id}: transform_expressions_json must be a JSON array: {e}"
  require (!rows.isEmpty) (s!"node {n.id}: transform expressions mode needs at least one " ++
    "\x7bkey, cel\x7d row")
  let applied ← rows.mapM (transformRow d n (activation inputs st 0))
  let entries := applied.map fun row =>
    Value.ofFields [("key", .string row.1), ("value", row.2)]
  return (applied, .ofFields [("mode", .string "expressions"), ("applied", .array entries)])

def transformCopy : Transformed := do
  let fromId := Text.trim n.transformFromNodeId
  let key := Text.trim n.stateKey
  require (fromId ≠ "" ∧ key ≠ "")
    (s!"node {n.id}: transform (copy) needs transform_from_node_id and state_key, " ++
      "or use expressions/object mode")
  return ([(key, (st.outputs.get? fromId).getD .null)],
    .ofFields [("copied_from", .string fromId), ("state_key", .string key),
      ("mode", .string "copy")])

/-- What a transform does, by its mode. -/
def transformed : Transformed :=
  let mode := Text.toAsciiLowercase n.transformMode
  let hasObj : Bool := Text.trim n.transformObjectJson ≠ ""
  let hasExpr : Bool := Text.trim n.transformExpressionsJson ≠ ""
  let useObject : Bool := mode = "object" || (hasObj && mode ≠ "copy" && mode ≠ "expressions")
  let useExpr : Bool := mode = "expressions" || (hasExpr && mode ≠ "object" && !useObject)
  if useObject then transformObject w inputs st n
  else if useExpr then transformExpressions w inputs d st n
  else transformCopy st n

def visitTransform : Turn := do
  let (set, out) ← transformed w inputs d st n
  let st := FlowState.record { st with stateMap := Fields.insertAll st.stateMap set } cur out
  return (st.push [("id", .string cur), ("kind", .string "transform"), ("output", out)], none)

/-- The inputs of a crew. -/
def crewInputs : Value :=
  if n.prompt = "" then inputs
  else .ofFields [("flow_prompt", .string (interpolateInputs n.prompt inputs))]

def visitCrew : Turn := do
  let crew ← orFail n.crewSpec s!"flow node {n.id}: crew requires crew_spec"
  let v ← orFailWith (d.runCrew crew (crewInputs inputs n)) id
  let st := st.record cur v
  return (st.push [("id", .string cur), ("kind", .string "crew"), ("output", v)], none)

/-- The configuration of the agent of a node. -/
def agentConfig : AgentConfig where
  id := s!"flow_{n.id}"
  name := if Text.trim n.name = "" then n.id else n.name
  model := if Text.trim n.model = "" then w.defaultModel else n.model
  maxTokens := n.maxTokens.getD 2048
  temperature := n.temperature.getD 0.5
  systemPrompt :=
    let system :=
      if Text.trim n.instructions = "" then "You are a helpful assistant." else n.instructions
    if Text.toAsciiLowercase n.outputFormat = "json" then
      system ++ "\n\nRespond with valid JSON only. Do not wrap in markdown fences or add " ++
        "commentary outside the JSON."
    else system
  allowedTools := if n.tools.isEmpty then w.builtinNames else n.tools
  contextWindow := 4096

def visitAgent : Turn :=
  let user := interpolateContext n.prompt (buildTemplateContext inputs st.outputs)
  let block := priorContextBlock spec cur st.outputs ++ "\n\n## Task\n" ++ user ++ "\n"
  let session :=
    if !n.includeChatHistory then none
    else if Text.trim n.agentSessionKey = "" then some s!"flow_agent_{n.id}"
    else some n.agentSessionKey
  let res := d.runTask (agentConfig w n) block session
  let out := Value.ofFields [("text", .string res.answer),
    ("iterations", .nat res.iterations.toUInt64), ("tokens", .nat res.totalTokens.toUInt64),
    ("success", .bool res.success), ("error", res.error.elim .null .string)]
  let st := st.record cur out
  .ok (st.push [("id", .string cur), ("kind", .string "agent"), ("output", out)], none)

/-- What a classifier is asked. -/
def classifyBody : String :=
  let input :=
    if Text.trim n.classifyInputTemplate = "" then inputAsText inputs
    else interpolateContext n.classifyInputTemplate (buildTemplateContext inputs st.outputs)
  "You are a classifier. Possible categories (reply with exactly one label from this list): [" ++
    Text.join ", " n.classifyCategories ++ "].\n\nText to classify:\n" ++ input ++
    "\n\nReply with only the category label, no punctuation or explanation." ++
    (if Text.trim n.classifyExamplesJson = "" then ""
      else "\n\nFew-shot examples (JSON):\n" ++ Text.trim n.classifyExamplesJson) ++
    (if Text.toAsciiLowercase n.outputFormat = "json" then
      "\n\nReturn JSON: \x7b\"category\": \"<label>\"\x7d only."
      else "")

def visitClassify : Turn := do
  require (!n.classifyCategories.isEmpty) s!"node {n.id}: classify needs at least one category"
  let model := if Text.trim n.classifyModel = "" then w.defaultModel else n.classifyModel
  let task := { InferenceTask.new model (classifyBody inputs st n) with
    maxTokens := max (n.maxTokens.getD 128) 16
    temperature := n.temperature.getD 0.2 }
  let text ← inferText d task
  let out := Value.ofFields [("text", .string text), ("category", .string (Text.trim text))]
  let st := st.record cur out
  return (st.push [("id", .string cur), ("kind", .string "classify"), ("output", out)], none)

def visitLlm : Turn := do
  let prompt := interpolateContext n.prompt (buildTemplateContext inputs st.outputs)
  let full := priorContextBlock spec cur st.outputs ++ "\n\n" ++ prompt ++
    (if Text.toAsciiLowercase n.outputFormat = "json" then
      "\n\nRespond with valid JSON only. No markdown fences."
      else "")
  let model := if Text.trim n.model = "" then w.defaultModel else n.model
  let task := { InferenceTask.new model full with
    maxTokens := n.maxTokens.getD 512
    temperature := n.temperature.getD 0.7 }
  let text ← inferText d task
  let out := Value.ofFields [("text", .string text)]
  let st := st.record cur out
  return (st.push [("id", .string cur), ("kind", .string "llm"), ("output", out)], none)

/-- What a node does, for every kind but the end. -/
def visit : Turn :=
  match n.readKind with
  | .note => .ok (st, none)
  | .start => visitStart inputs st cur
  | .finish => .ok (visitEnd st cur, none)
  | .approval => visitApproval inputs st cur n
  | .ifElse => visitIf inputs d st cur n
  | .while => visitWhile inputs d st cur n
  | .guardrails => visitGuardrails w inputs st cur n
  | .mcp => visitMcp w inputs d st cur n
  | .fileSearch => visitFileSearch inputs d st cur n
  | .setState => visitSetState w inputs d st cur n
  | .transform => visitTransform w inputs d st cur n
  | .crew => visitCrew inputs d st cur n
  | .agent => visitAgent w spec inputs d st cur n
  | .classify => visitClassify w inputs d st cur n
  | .llm => visitLlm w spec inputs d st cur n
  | .unknown kind => .error (.unknownKind n.id kind)

end Nodes

/-! ## The loop -/

namespace FlowRun

variable {χ : Type}

/-- The cap on the number of turns. -/
def maxSteps : ℕ := 10000

/-- The state in which the loop begins. -/
def initial (spec : FlowSpec χ) : FlowState where
  cursor := (spec.nodes.find? fun n => n.readKind = .start).map FlowNode.id
  outputs := []
  stateMap := []
  whileIter := ∅
  steps := []
  stepsGuard := 0
  error := if (spec.nodes.find? fun n => n.readKind = .start).isSome then none else some .noStart

/-- Where the cursor goes; the end breaks out of the loop. -/
def follow (n : FlowNode χ) (outs : List Outgoing) (branch : Option String) :
    Except FlowError (Option String) :=
  if n.readKind = .finish then .ok none else pickNext n outs branch

/-- What a turn does at the node under the cursor. -/
def body (w : FlowWorld) (spec : FlowSpec χ) (inputs : Value) (d : FlowDraw χ) (st : FlowState)
    (cur : String) : Except FlowError FlowState :=
  match spec.node? cur with
  | none => .error (.missingNode cur)
  | some n => do
      let (st, branch) ← visit w spec inputs d st cur n
      let next ← follow n (spec.outgoing cur) branch
      return { st with cursor := next }

/-- One turn of the loop, with a cap on their number or without one. -/
def step (cap : Option ℕ) (w : FlowWorld) (spec : FlowSpec χ) (inputs : Value) (st : FlowState)
    (d : FlowDraw χ) : FlowState :=
  match st.cursor with
  | none => st
  | some cur =>
      let st := { st with stepsGuard := st.stepsGuard + 1, cursor := none }
      if cap.any fun cap => cap < st.stepsGuard then { st with error := some .maxSteps }
      else
        match body w spec inputs d st cur with
        | .ok st => st
        | .error e => { st with error := some e }

/-- The loop has ended. -/
def Ended (st : FlowState) : Prop := st.cursor = none

end FlowRun

end PeerClaw
