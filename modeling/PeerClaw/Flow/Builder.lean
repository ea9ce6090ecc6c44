import PeerClaw.Flow.Spec
import PeerClaw.Lib.Separated

/-!
# The workflow builder

`flowCompile.ts` turns the JSON of a flow into the nodes and edges of a canvas, and these into
JSON again.  Each node of the canvas keeps what the inspector shows of it as `data`; which of
it is written back depends on the type of the node.

* `flowSpecToReactFlow` — a flow is opened.
* `compileFlowSpec` — a flow is saved.
* `FlowSpecJson.toSpec` — what `serde` reads of the JSON.
* `roundTrip` — a flow is opened and saved.
-/

namespace PeerClaw

open Lib

/-! ## What JavaScript does with texts -/

/-- The characters that `String.prototype.trim` removes: unlike Rust, it takes U+FEFF for white
space, and U+0085 not. -/
def jsIsSpace (c : Char) : Bool := (Text.isWhitespace c && c.val ≠ 0x85) || c.val = 0xFEFF

def jsTrimChars (cs : List Char) : List Char :=
  ((cs.dropWhile jsIsSpace).reverse.dropWhile jsIsSpace).reverse

/-- `String.prototype.trim`. -/
def jsTrim (s : String) : String := String.ofList (jsTrimChars s.toList)

/-- `String.prototype.toLowerCase`: which characters it changes is a matter of the Unicode
tables. -/
structure JsCasing where
  toLowerCase : String → String
  ascii : ∀ s, (∀ c ∈ s.toList, c.val < 128) → toLowerCase s = Text.toAsciiLowercase s
  /-- No other character becomes a comma. -/
  comma : ∀ s, ',' ∈ (toLowerCase s).toList → ',' ∈ s.toList

/-- What is left of the pieces between the commas of a text, if anything is. -/
def listEntries (clean : String → String) (s : String) : List String :=
  (Entries.entries ',' (fun p => (clean (String.ofList p)).toList) s.toList).map String.ofList

/-! ## JSON -/

/-- `FlowNodeJson`.  Every field but the id may be absent. -/
structure FlowNodeJson (χ : Type) where
  id : String
  kind : Option String := none
  name : Option String := none
  prompt : Option String := none
  crewSpec : Option χ := none
  instructions : Option String := none
  model : Option String := none
  tools : Option (List String) := none
  temperature : Option Float32 := none
  maxTokens : Option UInt32 := none
  includeChatHistory : Option Bool := none
  outputFormat : Option String := none
  agentSessionKey : Option String := none
  classifyCategories : Option (List String) := none
  classifyModel : Option String := none
  classifyInputTemplate : Option String := none
  classifyExamplesJson : Option String := none
  conditionCel : Option String := none
  ifCaseName : Option String := none
  maxIterations : Option UInt32 := none
  sourceNodeId : Option String := none
  guardrailChecks : Option (List String) := none
  guardrailInputTemplate : Option String := none
  guardrailContinueOnError : Option Bool := none
  guardrailCustomSubstring : Option String := none
  mcpToolId : Option String := none
  mcpArgumentsJson : Option String := none
  vectorCollection : Option String := none
  vectorQueryTemplate : Option String := none
  vectorTopK : Option UInt32 := none
  transformFromNodeId : Option String := none
  transformMode : Option String := none
  transformExpressionsJson : Option String := none
  transformObjectJson : Option String := none
  stateKey : Option String := none
  stateValueJson : Option String := none
  stateValueCel : Option String := none

structure FlowSpecJson (χ : Type) where
  name : Option String := none
  nodes : List (FlowNodeJson χ)
  edges : List FlowEdge

/-- What `serde` reads: a field that is absent has its default. -/
def FlowNodeJson.toNode {χ : Type} (n : FlowNodeJson χ) : FlowNode χ where
  id := n.id
  kind := n.kind.getD ""
  name := n.name.getD ""
  prompt := n.prompt.getD ""
  crewSpec := n.crewSpec
  instructions := n.instructions.getD ""
  model := n.model.getD ""
  tools := n.tools.getD []
  temperature := n.temperature
  maxTokens := n.maxTokens
  includeChatHistory := n.includeChatHistory.getD false
  outputFormat := n.outputFormat.getD ""
  agentSessionKey := n.agentSessionKey.getD ""
  classifyCategories := n.classifyCategories.getD []
  classifyModel := n.classifyModel.getD ""
  classifyInputTemplate := n.classifyInputTemplate.getD ""
  classifyExamplesJson := n.classifyExamplesJson.getD ""
  conditionCel := n.conditionCel.getD ""
  maxIterations := n.maxIterations.getD 0
  sourceNodeId := n.sourceNodeId.getD ""
  guardrailChecks := n.guardrailChecks.getD []
  guardrailInputTemplate := n.guardrailInputTemplate.getD ""
  guardrailContinueOnError := n.guardrailContinueOnError.getD false
  guardrailCustomSubstring := n.guardrailCustomSubstring.getD ""
  mcpToolId := n.mcpToolId.getD ""
  mcpArgumentsJson := n.mcpArgumentsJson.getD ""
  vectorCollection := n.vectorCollection.getD ""
  vectorQueryTemplate := n.vectorQueryTemplate.getD ""
  vectorTopK := n.vectorTopK.getD 0
  transformFromNodeId := n.transformFromNodeId.getD ""
  transformMode := n.transformMode.getD ""
  transformExpressionsJson := n.transformExpressionsJson.getD ""
  transformObjectJson := n.transformObjectJson.getD ""
  stateKey := n.stateKey.getD ""
  stateValueJson := n.stateValueJson.getD ""
  stateValueCel := n.stateValueCel.getD ""

def FlowSpecJson.toSpec {χ : Type} (spec : FlowSpecJson χ) : FlowSpec χ where
  name := spec.name.getD ""
  nodes := spec.nodes.map FlowNodeJson.toNode
  edges := spec.edges

/-! ## The canvas -/

/-- `FlowNodeData`: what the inspector shows of a node. -/
structure FlowNodeData where
  title : Option String := none
  instructions : Option String := none
  model : Option String := none
  toolsStr : Option String := none
  prompt : Option String := none
  temperature : Option Float32 := none
  maxTokens : Option UInt32 := none
  includeChatHistory : Option Bool := none
  outputFormat : Option String := none
  agentSessionKey : Option String := none
  conditionCel : Option String := none
  ifCaseName : Option String := none
  maxIterations : Option UInt32 := none
  sourceNodeId : Option String := none
  guardrailInputTemplate : Option String := none
  guardrailContinueOnError : Option Bool := none
  guardrailCustomSubstring : Option String := none
  guardrailChecksStr : Option String := none
  mcpToolId : Option String := none
  mcpArgsJson : Option String := none
  vectorCollection : Option String := none
  vectorQuery : Option String := none
  vectorTopK : Option UInt32 := none
  categoriesStr : Option String := none
  classifyModel : Option String := none
  classifyInputTemplate : Option String := none
  classifyExamplesJson : Option String := none
  approvalMessage : Option String := none
  transformFrom : Option String := none
  transformMode : Option String := none
  transformExpressionsJson : Option String := none
  transformObjectJson : Option String := none
  stateKey : Option String := none
  stateValueJson : Option String := none
  stateValueCel : Option String := none

/-- A node of the canvas. -/
structure RfNode where
  id : String
  type : String
  data : FlowNodeData

/-- An edge of the canvas. -/
structure RfEdge where
  source : String
  target : String
  sourceHandle : Option String
  /-- `data.label`. -/
  label : Option String

structure ReactFlow where
  nodes : List RfNode
  edges : List RfEdge

/-! ## Opening a flow -/

/-- `rustKindToRf`. -/
def rustKindToRf (k : String) : String :=
  match k with
  | "file_search" => "fileSearch"
  | "set_state" => "setState"
  | "user_approval" => "userApproval"
  | "classify" => "classify"
  | "" => "llm"
  | k => k

section Open

variable {χ : Type}

/-- A node is put on the canvas. -/
def openNode (n : FlowNodeJson χ) : RfNode where
  id := n.id
  type := rustKindToRf (n.kind.getD "llm")
  data :=
    { title := some (n.name.getD "")
      prompt := some (n.prompt.getD "")
      instructions := n.instructions
      model := n.model
      toolsStr := n.tools.map (Text.join ", ")
      temperature := n.temperature
      maxTokens := n.maxTokens
      includeChatHistory := some (n.includeChatHistory = some true)
      outputFormat := some (n.outputFormat.getD "")
      agentSessionKey := some (n.agentSessionKey.getD "")
      conditionCel := n.conditionCel
      ifCaseName := some (n.ifCaseName.getD "")
      maxIterations := n.maxIterations
      sourceNodeId := n.sourceNodeId
      guardrailInputTemplate := some (n.guardrailInputTemplate.getD "")
      guardrailContinueOnError := some (n.guardrailContinueOnError = some true)
      guardrailCustomSubstring := some (n.guardrailCustomSubstring.getD "")
      guardrailChecksStr := n.guardrailChecks.map (Text.join ", ")
      mcpToolId := n.mcpToolId
      mcpArgsJson := n.mcpArgumentsJson
      vectorCollection := n.vectorCollection
      vectorQuery := n.vectorQueryTemplate
      vectorTopK := n.vectorTopK
      categoriesStr := some ((n.classifyCategories.map (Text.join ", ")).getD "")
      classifyModel := some (n.classifyModel.getD "")
      classifyInputTemplate := some (n.classifyInputTemplate.getD "")
      classifyExamplesJson := some (n.classifyExamplesJson.getD "")
      approvalMessage := if n.kind = some "user_approval" then n.prompt else none
      transformFrom := n.transformFromNodeId
      transformMode := some (n.transformMode.getD "")
      transformExpressionsJson := some (n.transformExpressionsJson.getD "")
      transformObjectJson := some (n.transformObjectJson.getD "")
      stateKey := n.stateKey
      stateValueJson := n.stateValueJson
      stateValueCel := some (n.stateValueCel.getD "") }

/-- An edge is put on the canvas: the label is its handle, and, if it is not empty, its data. -/
def openEdge (e : FlowEdge) : RfEdge where
  source := e.source
  target := e.target
  sourceHandle := e.label
  label := e.label.filter fun s => s ≠ ""

/-- `flowSpecToReactFlow`. -/
def flowSpecToReactFlow (spec : FlowSpecJson χ) : ReactFlow where
  nodes := spec.nodes.map openNode
  edges := spec.edges.map openEdge

end Open

/-! ## Saving a flow -/

/-- `mapRfKindToRust`. -/
def mapRfKindToRust (kind : String) : String :=
  match kind with
  | "fileSearch" => "file_search"
  | "setState" => "set_state"
  | kind => kind

/-- A list that is not empty, if the text is not blank. -/
def listOf (clean : String → String) (text : Option String) : Option (List String) :=
  text.bind fun s =>
    if jsTrim s = "" then none
    else
      let t := listEntries clean s
      if t.isEmpty then none else some t

/-- `toolsArray`. -/
def toolsArray : Option String → Option (List String) := listOf jsTrim

section Save

variable (js : JsCasing)

/-- `guardrailList`. -/
def guardrailList : Option String → Option (List String) :=
  listOf fun s => js.toLowerCase (jsTrim s)

variable (χ : Type)

/-- `compileOne`: a note is not exported. -/
def compileOne (n : RfNode) : Option (FlowNodeJson χ) :=
  let d := n.data
  let base : FlowNodeJson χ :=
    { id := n.id
      kind := some (mapRfKindToRust n.type)
      name := some (d.title.getD "")
      prompt := some (d.prompt.getD "") }
  match n.type with
  | "" | "note" => none
  | "agent" => some { base with
      instructions := some (d.instructions.getD "")
      model := some (d.model.getD "")
      tools := toolsArray d.toolsStr
      temperature := d.temperature
      maxTokens := d.maxTokens
      includeChatHistory := some (d.includeChatHistory = some true)
      outputFormat := some (d.outputFormat.getD "")
      agentSessionKey := some (d.agentSessionKey.getD "") }
  | "llm" => some { base with
      model := some (d.model.getD "")
      temperature := d.temperature
      maxTokens := d.maxTokens
      outputFormat := some (d.outputFormat.getD "") }
  | "if" => some { base with
      conditionCel := some (d.conditionCel.getD "true")
      ifCaseName := some (d.ifCaseName.getD "") }
  | "while" => some { base with
      conditionCel := some (d.conditionCel.getD "iteration < 3")
      maxIterations := match d.maxIterations with
        | some k => some (if 0 < k then k else 100)
        | none => some 100 }
  | "guardrails" => some { base with
      sourceNodeId := some (d.sourceNodeId.getD "")
      guardrailChecks := guardrailList js d.guardrailChecksStr
      guardrailInputTemplate := some (d.guardrailInputTemplate.getD "")
      guardrailContinueOnError := some (d.guardrailContinueOnError = some true)
      guardrailCustomSubstring := some (d.guardrailCustomSubstring.getD "") }
  | "mcp" => some { base with
      mcpToolId := some (d.mcpToolId.getD "")
      mcpArgumentsJson := some (d.mcpArgsJson.getD "\x7b\x7d") }
  | "classify" => some { base with
      kind := some "classify"
      classifyCategories := some (listEntries jsTrim (d.categoriesStr.getD ""))
      classifyModel := some (d.classifyModel.getD "")
      classifyInputTemplate := some (d.classifyInputTemplate.getD "")
      classifyExamplesJson := some (d.classifyExamplesJson.getD "")
      outputFormat := some (d.outputFormat.getD "")
      temperature := d.temperature
      maxTokens := d.maxTokens
      prompt := some (d.prompt.getD "") }
  | "userApproval" => some { base with
      kind := some "user_approval"
      prompt := some ((d.approvalMessage.or d.prompt).getD "") }
  | "fileSearch" => some { base with
      vectorCollection := some (d.vectorCollection.getD "")
      vectorQueryTemplate := some (d.vectorQuery.getD "")
      vectorTopK := match d.vectorTopK with
        | some k => some (if 0 < k then min 100 k else 0)
        | none => some 0 }
  | "setState" => some { base with
      stateKey := some (d.stateKey.getD "")
      stateValueJson := some (d.stateValueJson.getD "null")
      stateValueCel := some (d.stateValueCel.getD "") }
  | "transform" => some { base with
      transformFromNodeId := some (d.transformFrom.getD "")
      stateKey := some (d.stateKey.getD "")
      transformMode := some (d.transformMode.getD "")
      transformExpressionsJson := some (d.transformExpressionsJson.getD "")
      transformObjectJson := some (d.transformObjectJson.getD "") }
  | _ => some base

/-- `edgeLabel`: the handle, or the label, in lower case without white space around it, if
anything is left. -/
def edgeLabel (e : RfEdge) : Option String :=
  let trimmed (label : Option String) := (label.map jsTrim).filter fun s => s ≠ ""
  ((trimmed e.sourceHandle).or (trimmed e.label)).map js.toLowerCase

/-- `compileFlowSpec`: an edge stays if both of its ends do. -/
def compileFlowSpec (canvas : ReactFlow) (flowName : String) : FlowSpecJson χ :=
  let flowNodes := canvas.nodes.filterMap (compileOne js χ)
  let ids := flowNodes.map FlowNodeJson.id
  { name := some flowName
    nodes := flowNodes
    edges := (canvas.edges.filter fun e => e.source ∈ ids && e.target ∈ ids).map fun e =>
      { source := e.source, target := e.target, label := edgeLabel js e } }

variable {χ}

/-- A flow is opened and saved. -/
def roundTrip (flowName : String) (spec : FlowSpecJson χ) : FlowSpecJson χ :=
  compileFlowSpec js χ (flowSpecToReactFlow spec) flowName

end Save

end PeerClaw
