import PeerClaw.Lib.Text
import PeerClaw.Lib.Check

/-!
# Flow graphs

The specification of a flow in `flow/mod.rs`: nodes of many kinds, and edges with
labels between them.  The kind of a node is a text, read without regard to case;
`NodeKind` is what it is read as.  A flow is valid when it has a node, and its
edges join nodes that it has (`FlowSpec.mem_ids_of_validate`).

The specification of a crew is a parameter `χ`: a node only hands it on.
-/

namespace PeerClaw

open Lib

/-! ## Specifications -/

/-- A node of a flow. -/
structure FlowNode (χ : Type) where
  id : String
  kind : String := ""
  name : String := ""
  prompt : String := ""
  /-- A nested crew. -/
  crewSpec : Option χ := none
  instructions : String := ""
  model : String := ""
  tools : List String := []
  temperature : Option Float32 := none
  maxTokens : Option UInt32 := none
  includeChatHistory : Bool := false
  outputFormat : String := ""
  agentSessionKey : String := ""
  classifyCategories : List String := []
  classifyModel : String := ""
  classifyInputTemplate : String := ""
  classifyExamplesJson : String := ""
  conditionCel : String := ""
  /-- 0 stands for the default cap. -/
  maxIterations : UInt32 := 0
  sourceNodeId : String := ""
  guardrailChecks : List String := []
  guardrailInputTemplate : String := ""
  guardrailContinueOnError : Bool := false
  guardrailCustomSubstring : String := ""
  mcpToolId : String := ""
  mcpArgumentsJson : String := ""
  vectorCollection : String := ""
  vectorQueryTemplate : String := ""
  vectorTopK : UInt32 := 0
  transformFromNodeId : String := ""
  transformMode : String := ""
  transformExpressionsJson : String := ""
  transformObjectJson : String := ""
  stateKey : String := ""
  stateValueJson : String := ""
  stateValueCel : String := ""

/-- An edge of a flow; the label names a branch. -/
structure FlowEdge where
  source : String
  target : String
  label : Option String := none
  deriving DecidableEq

/-- A flow. -/
structure FlowSpec (χ : Type) where
  name : String := ""
  nodes : List (FlowNode χ)
  edges : List FlowEdge

/-- What the kind of a node is read as. -/
inductive NodeKind
  | note
  | start
  | finish
  | approval
  | ifElse
  | while
  | guardrails
  | mcp
  | fileSearch
  | setState
  | transform
  | crew
  | agent
  | classify
  | llm
  | unknown (kind : String)
  deriving DecidableEq

/-- Read a kind, in lower case. -/
def NodeKind.parse (kind : String) : NodeKind :=
  match kind with
  | "note" => .note
  | "start" => .start
  | "end" => .finish
  | "human_approval" | "humanapproval" | "user_approval" | "userapproval" => .approval
  | "if" | "ifelse" => .ifElse
  | "while" => .while
  | "guardrails" => .guardrails
  | "mcp" => .mcp
  | "file_search" | "filesearch" => .fileSearch
  | "set_state" | "setstate" => .setState
  | "transform" => .transform
  | "crew" => .crew
  | "agent" => .agent
  | "classify" => .classify
  | "" | "llm" => .llm
  | other => .unknown other

section Specs

variable {χ : Type}

/-- What the kind of a node is read as. -/
def FlowNode.readKind (n : FlowNode χ) : NodeKind := .parse (Text.toAsciiLowercase n.kind)

/-! ## Edges -/

/-- `normalize_label`: the label in lower case without white space around it, if anything is
left. -/
def normalizeLabel (label : Option String) : Option String :=
  (label.map fun s => Text.toAsciiLowercase (Text.trim s)).filter fun s => s ≠ ""

/-- The end of an edge, with its label. -/
abbrev Outgoing := String × Option String

/-- `outgoing_map`, at a node: the edges that leave it, in the order of the specification. -/
def FlowSpec.outgoing (spec : FlowSpec χ) (id : String) : List Outgoing :=
  (spec.edges.filter fun e => e.source = id).map fun e => (e.target, e.label)

/-- The edges without a label. -/
def unlabeled (outs : List Outgoing) : List Outgoing :=
  outs.filter fun out =>
    match out.2 with
    | some s => Text.trim s = ""
    | none => true

/-- The edges with a label that reads `want`. -/
def labeled (want : String) (outs : List Outgoing) : List Outgoing :=
  outs.filter fun out => normalizeLabel out.2 = some want

/-- The ids of the nodes. -/
def FlowSpec.ids (spec : FlowSpec χ) : List String := spec.nodes.map FlowNode.id

/-- The first node with an id. -/
def FlowSpec.node? (spec : FlowSpec χ) (id : String) : Option (FlowNode χ) :=
  spec.nodes.find? fun n => n.id = id

/-! ## Validation -/

/-- What `FlowSpec::validate` checks of an edge. -/
def checkEdge (ids : List String) (e : FlowEdge) : Except String Unit :=
  if e.source ∉ ids then .error s!"edge from unknown node {e.source}"
  else if e.target ∉ ids then .error s!"edge to unknown node {e.target}"
  else .ok ()

/-- `FlowSpec::validate`. -/
def FlowSpec.validate (spec : FlowSpec χ) : Except String Unit :=
  if spec.nodes.isEmpty then .error "flow needs nodes"
  else spec.edges.forM (checkEdge spec.ids)

/-- `FlowSpec::has_interpreter_start`. -/
def FlowSpec.hasInterpreterStart (spec : FlowSpec χ) : Bool :=
  spec.nodes.any fun n => n.readKind = .start

theorem FlowSpec.mem_ids_of_validate {spec : FlowSpec χ} (h : spec.validate = .ok ())
    {e : FlowEdge} (he : e ∈ spec.edges) : e.source ∈ spec.ids ∧ e.target ∈ spec.ids := by
  unfold FlowSpec.validate at h
  split at h
  · cases h
  · have hedge := Check.forM_ok_iff.1 h e he
    unfold checkEdge at hedge
    split at hedge
    · cases hedge
    · split at hedge
      · cases hedge
      · exact ⟨not_not.1 ‹_›, not_not.1 ‹_›⟩

/-! ## Finding nodes -/

theorem FlowSpec.node?_of_mem {spec : FlowSpec χ} {id : String} (h : id ∈ spec.ids) :
    ∃ n ∈ spec.nodes, spec.node? id = some n ∧ n.id = id := by
  obtain ⟨n, hn, rfl⟩ := List.mem_map.1 h
  cases hfind : spec.node? n.id with
  | none =>
      have hnot := List.find?_eq_none.1 hfind n hn
      simp at hnot
  | some m =>
      have hid : m.id = n.id := by simpa using List.find?_some hfind
      exact ⟨m, List.mem_of_find?_eq_some hfind, rfl, hid⟩

theorem FlowSpec.mem_edges_of_outgoing {spec : FlowSpec χ} {id : String} {out : Outgoing}
    (h : out ∈ spec.outgoing id) : ⟨id, out.1, out.2⟩ ∈ spec.edges := by
  obtain ⟨e, he, rfl⟩ := List.mem_map.1 h
  obtain ⟨hmem, hsource⟩ := List.mem_filter.1 he
  have hid : e.source = id := of_decide_eq_true hsource
  subst hid
  exact hmem

end Specs

end PeerClaw

/-!
## Which flows the interpreter takes

`validate_interpreter` checks a flow with a start node before it is run: every
node has the outgoing edges its kind needs, the nodes that guardrails and
transforms name exist, and every node can be reached from the start.  A note is
not checked, and no kind is turned down.

* `validateInterpreter_ok` — what is known of a flow that is taken.
-/

namespace PeerClaw

open Lib

section Validation

variable {χ : Type}

/-- What `validate_interpreter` checks of the edges that leave a node. -/
def checkOutgoing (n : FlowNode χ) (outs : List Outgoing) : Except String Unit :=
  let has (want : String) : Bool := outs.any fun out => normalizeLabel out.2 = some want
  match n.readKind with
  | .note => .ok ()
  | .ifElse =>
      if !has "true" || !has "false" then
        .error s!"node {n.id}: if/else needs outgoing edges labeled true and false"
      else .ok ()
  | .while =>
      if !has "loop" || !has "exit" then
        .error s!"node {n.id}: while needs outgoing edges labeled loop and exit"
      else .ok ()
  | .guardrails =>
      if !has "pass" || !has "fail" then
        .error s!"node {n.id}: guardrails needs outgoing edges labeled pass and fail"
      else .ok ()
  | .approval =>
      if !has "approve" || !has "reject" then
        .error s!"node {n.id}: user approval needs outgoing edges labeled approve and reject"
      else .ok ()
  | .finish =>
      if !outs.isEmpty then .error s!"node {n.id}: end node must have no outgoing edges"
      else .ok ()
  | _ =>
      -- no successor stops the flow; of several, one must be the default
      if 1 < outs.length ∧ (labeled "default" outs).length ≠ 1 ∧ (unlabeled outs).length ≠ 1 then
        .error s!"node {n.id}: multiple outgoing edges need exactly one default label or one unlabeled edge"
      else .ok ()

/-- What `validate_interpreter` checks of the nodes that guardrails refer to. -/
def checkSource (ids : List String) (n : FlowNode χ) : Except String Unit :=
  let sid := Text.trim n.sourceNodeId
  if n.readKind ≠ .guardrails then .ok ()
  else if Text.trim n.guardrailInputTemplate = "" then
    if sid = "" then
      .error s!"node {n.id}: guardrails needs source_node_id or guardrail_input_template"
    else if sid ∉ ids then
      .error s!"node {n.id}: guardrails source_node_id '{sid}' not found"
    else .ok ()
  else if sid ≠ "" ∧ sid ∉ ids then
    .error s!"node {n.id}: guardrails source_node_id '{sid}' not found"
  else .ok ()

/-- What `validate_interpreter` checks of the node that a transform copies from. -/
def checkTransform (ids : List String) (n : FlowNode χ) : Except String Unit :=
  let mode := Text.toAsciiLowercase n.transformMode
  let copyMode : Bool := mode = "copy" ||
    (mode = "" && Text.trim n.transformExpressionsJson = "" && Text.trim n.transformObjectJson = "")
  let fid := Text.trim n.transformFromNodeId
  if n.readKind = .transform ∧ copyMode ∧ fid ≠ "" ∧ fid ∉ ids then
    .error s!"node {n.id}: transform_from_node_id '{fid}' not found"
  else .ok ()

/-- What `validate_interpreter` checks of a node; a note is not checked. -/
def FlowSpec.checkNode (spec : FlowSpec χ) (n : FlowNode χ) : Except String Unit := do
  if n.readKind ≠ .note then
    checkOutgoing n (spec.outgoing n.id)
    checkSource spec.ids n
    checkTransform spec.ids n

/-- The search for the nodes that can be reached, with some fuel: the last node that was
pushed is taken next. -/
def FlowSpec.reachFrom (spec : FlowSpec χ) : ℕ → List String → List String → List String
  | 0, _, seen => seen
  | _ + 1, [], seen => seen
  | fuel + 1, x :: stack, seen =>
      if x ∈ seen then spec.reachFrom fuel stack seen
      else spec.reachFrom fuel (((spec.outgoing x).map Prod.fst).reverse ++ stack) (seen ++ [x])

/-- The nodes that can be reached from a node: every edge is pushed once at most. -/
def FlowSpec.reached (spec : FlowSpec χ) (id : String) : List String :=
  spec.reachFrom (spec.edges.length + 1) [id] []

/-- What `validate_interpreter` checks of the way to a node. -/
def checkReached (reached : List String) (n : FlowNode χ) : Except String Unit :=
  if n.readKind ≠ .note ∧ n.id ∉ reached then
    .error s!"node {n.id} is not reachable from start"
  else .ok ()

/-- `validate_interpreter`. -/
def validateInterpreter (spec : FlowSpec χ) : Except String Unit :=
  match spec.nodes.filter fun n => n.readKind = .start with
  | [start] => do
      spec.nodes.forM spec.checkNode
      let so := (spec.outgoing start.id).length
      if so ≠ 1 then throw s!"start node must have exactly one outgoing edge, found {so}"
      spec.nodes.forM (checkReached (spec.reached start.id))
  | starts => .error s!"flow must have exactly one start node, found {starts.length}"

/-! ## What is known of a flow that is taken -/

/-- The outgoing edges of every node that is not a note have been checked. -/
theorem validateInterpreter_ok {spec : FlowSpec χ} (h : validateInterpreter spec = .ok ())
    {n : FlowNode χ} (hn : n ∈ spec.nodes) (hkind : n.readKind ≠ .note) :
    checkOutgoing n (spec.outgoing n.id) = .ok () := by
  unfold validateInterpreter at h
  split at h
  · obtain ⟨⟨⟩, hnodes, -⟩ := Check.bind_ok_iff.1 h
    have hnode := Check.forM_ok_iff.1 hnodes n hn
    rw [FlowSpec.checkNode, if_pos hkind] at hnode
    obtain ⟨⟨⟩, hout, -⟩ := Check.bind_ok_iff.1 hnode
    exact hout
  · cases h

end Validation

end PeerClaw
