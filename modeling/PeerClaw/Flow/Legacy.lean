import PeerClaw.Flow.Order
import PeerClaw.Flow.Interpreter

/-!
# Flows without a start

`run_legacy_topo` in `flow/interpreter.rs` runs the nodes of a flow in the order of
`execution_order`.  A crew is handed the inputs of the flow, and any other node
is a prompt, to which the outputs of all the steps so far are appended.

Two hash maps are iterated over on the way: the in-degrees, from which the order
of the nodes is computed, and the outputs.  The orders of the iterations are
inputs of the model.

* `order_independent_iff` — which flows are run in the same way whatever these orders are.
* `two_sources` — a flow that is not.
-/

namespace PeerClaw

open Lib

/-! ## What a run asks of others -/

/-- The output of a task of a crew. -/
structure CrewTaskOutput where
  taskId : String
  agentId : String
  answer : String
  iterations : UInt32
  tokens : UInt32
  success : Bool
  error : Option String

/-- The output of a crew. -/
structure CrewOutput where
  raw : String
  tasksOutput : List CrewTaskOutput
  tokenUsage : Value

def CrewTaskOutput.toValue (out : CrewTaskOutput) : Value :=
  .ofFields ([("task_id", .string out.taskId), ("agent_id", .string out.agentId),
    ("answer", .string out.answer), ("iterations", .nat out.iterations.toUInt64),
    ("tokens", .nat out.tokens.toUInt64), ("success", .bool out.success)] ++
    out.error.toList.map fun e => ("error", .string e))

def CrewOutput.toValue (out : CrewOutput) : Value :=
  .ofFields [("raw", .string out.raw),
    ("tasks_output", .array (out.tasksOutput.map CrewTaskOutput.toValue)),
    ("token_usage", out.tokenUsage)]

/-- What is fixed when a flow is run. -/
structure LegacyWorld (χ : Type) where
  defaultModel : String
  /-- `CrewSpec::validate`. -/
  validateCrew : χ → Except String Unit

/-- The models and the crews, whose answers depend on what they are asked. -/
structure LegacyCalls (χ : Type) where
  execute : InferenceTask → Except String TaskData
  runCrew : χ → Value → Except String CrewOutput

/-- What a node asks. -/
inductive Asked (χ : Type)
  | task (t : InferenceTask)
  | crew (crew : χ) (inputs : Value)

/-- A map, with its entries in the order in which they came. -/
abbrev StepOutputs := List (String × Value)

/-- Set an entry. -/
def StepOutputs.put (outputs : StepOutputs) (id : String) (v : Value) : StepOutputs :=
  if id ∈ outputs.map Prod.fst then outputs.map fun out => if out.1 = id then (id, v) else out
  else outputs ++ [(id, v)]

/-- The order in which a map is iterated over. -/
def Iterates (iterate : StepOutputs → StepOutputs) : Prop := ∀ outputs, (iterate outputs).Perm outputs

/-! ## The run -/

/-- The variables of the loop, and what has been asked so far. -/
structure LegacyState (χ : Type) where
  outputs : StepOutputs
  steps : List Value
  asked : List (String × Asked χ)

namespace LegacyState

variable {χ : Type}

def start : LegacyState χ := ⟨[], [], []⟩

/-- A node asks something. -/
def ask (st : LegacyState χ) (id : String) (what : Asked χ) : LegacyState χ :=
  { st with asked := st.asked ++ [(id, what)] }

/-- A node has its output. -/
def finish (st : LegacyState χ) (id kind : String) (v : Value) : LegacyState χ :=
  { st with
    outputs := st.outputs.put id v
    steps := st.steps ++ [.ofFields [("id", .string id), ("kind", .string kind), ("output", v)]] }

end LegacyState

section Run

variable {χ : Type}

/-- A node that is run as a crew. -/
def FlowNode.isCrew (n : FlowNode χ) : Bool := n.readKind = .crew || n.crewSpec.isSome

/-- The outputs of the steps so far, as they are appended to a prompt. -/
def priorSteps (outputs : StepOutputs) : String :=
  Text.join "" (outputs.map fun out => "\n\n--- prior step " ++ out.1 ++ " ---\n" ++ out.2.render)

variable (w : LegacyWorld χ) (calls : LegacyCalls χ) (spec : FlowSpec χ) (inputs : Value)
  (iterate : StepOutputs → StepOutputs)

/-- What the model is asked at a node. -/
def promptTask (n : FlowNode χ) (outputs : StepOutputs) : InferenceTask :=
  (InferenceTask.new w.defaultModel
    (interpolateInputs n.prompt inputs ++ priorSteps (iterate outputs))).withMaxTokens 512

/-- A crew. -/
def legacyCrew (n : FlowNode χ) (st : LegacyState χ) : LegacyState χ × Except String Unit :=
  match n.crewSpec with
  | none => (st, .error s!"flow node {n.id}: crew steps require \"crew_spec\"")
  | some crew =>
      match w.validateCrew crew with
      | .error e => (st, .error e)
      | .ok _ =>
          let st := st.ask n.id (.crew crew (crewInputs inputs n))
          match calls.runCrew crew (crewInputs inputs n) with
          | .error e => (st, .error e)
          | .ok out => (st.finish n.id "crew" out.toValue, .ok ())

/-- A prompt. -/
def legacyLlm (n : FlowNode χ) (st : LegacyState χ) : LegacyState χ × Except String Unit :=
  let task := promptTask w inputs iterate n st.outputs
  let st := st.ask n.id (.task task)
  match calls.execute task with
  | .error e => (st, .error e)
  | .ok (.inference text _) => (st.finish n.id "llm" (.ofFields [("text", .string text)]), .ok ())
  | .ok (.error e) => (st, .error e)
  | .ok .other => (st, .error "non-inference flow step")

/-- What a node does; a note does nothing. -/
def legacyNode (n : FlowNode χ) (st : LegacyState χ) : LegacyState χ × Except String Unit :=
  if n.readKind = .note then (st, .ok ())
  else if n.isCrew then legacyCrew w calls inputs n st
  else legacyLlm w calls inputs iterate n st

/-- The loop over the nodes. -/
def legacyLoop : List String → LegacyState χ → LegacyState χ × Except String Unit
  | [], st => (st, .ok ())
  | id :: ids, st =>
      match spec.node? id with
      | none => (st, .error s!"missing node {id}")
      | some n =>
          match legacyNode w calls inputs iterate n st with
          | (st, .error e) => (st, .error e)
          | (st, .ok _) => legacyLoop ids st

/-- What there is to see of a run. -/
structure LegacyRun (χ : Type) where
  asked : List (String × Asked χ)
  steps : List Value
  /-- `FlowRunOutput`. -/
  output : Outcome String (List Value)

/-- What a node has been asked in a run. -/
def LegacyRun.prompt (r : LegacyRun χ) (id : String) : Option (Asked χ) :=
  (r.asked.find? fun asked => asked.1 = id).map Prod.snd

/-- `run_legacy_topo`, where the map of the in-degrees is iterated over in the order `order`. -/
def runLegacyTopo (order : List String) : LegacyRun χ :=
  match spec.executionOrder order with
  | .err e => ⟨[], [], .err e⟩
  | .panic => ⟨[], [], .panic⟩
  | .ok out =>
      match legacyLoop w calls spec inputs iterate out .start with
      | (st, .error e) => ⟨st.asked, st.steps, .err e⟩
      | (st, .ok _) => ⟨st.asked, st.steps, .ok st.steps⟩

/-- Two runs are the same: the prompts of every node, the list of steps, and the output. -/
structure SameRun (r₁ r₂ : LegacyRun χ) : Prop where
  prompts : ∀ id, r₁.prompt id = r₂.prompt id
  steps : r₁.steps = r₂.steps
  output : r₁.output.toOption = r₂.output.toOption

/-! ## The steps of a flow -/

/-- Whether the node under an id is no note. -/
def FlowSpec.isStep (id : String) : Bool := (spec.node? id).all fun n => n.readKind ≠ .note

/-- Whether the node under an id is a prompt. -/
def FlowSpec.isPrompt (id : String) : Bool :=
  (spec.node? id).any fun n => n.readKind ≠ .note && !n.isCrew

/-- A step is a prompt, or a crew with a specification that is valid. -/
def FlowSpec.canRun (id : String) : Bool :=
  (spec.node? id).any fun n => !n.isCrew ||
    n.crewSpec.any fun crew => (w.validateCrew crew).toOption.isSome

/-- The steps up to the first that cannot run, and whether all can; there are none if there is
no order. -/
def FlowSpec.plan (order : List String) : List String × Bool :=
  match spec.executionOrder order with
  | .ok out => ((out.filter spec.isStep).takeWhile (spec.canRun w),
      (out.filter spec.isStep).all (spec.canRun w))
  | _ => ([], false)

/-! ## Only the steps that can run matter -/

variable {w calls spec inputs iterate} {n : FlowNode χ} {id : String}

theorem isStep_of_node (h : spec.node? id = some n) : spec.isStep id = decide (n.readKind ≠ .note) := by
  simp [FlowSpec.isStep, h]

theorem isPrompt_of_node (h : spec.node? id = some n) :
    spec.isPrompt id = (decide (n.readKind ≠ .note) && !n.isCrew) := by
  simp [FlowSpec.isPrompt, h]

theorem canRun_of_node (h : spec.node? id = some n) :
    spec.canRun w id = (!n.isCrew ||
      n.crewSpec.any fun crew => (w.validateCrew crew).toOption.isSome) := by
  simp [FlowSpec.canRun, h]

theorem legacyNode_stuck (hnode : spec.node? id = some n) (hnote : n.readKind ≠ .note)
    (hrun : spec.canRun w id = false) (st : LegacyState χ) :
    ∃ e, legacyNode w calls inputs iterate n st = (st, .error e) := by
  rw [canRun_of_node hnode, Bool.or_eq_false_iff] at hrun
  obtain ⟨hcrew, hspec⟩ := hrun
  have hcrew : n.isCrew = true := by simpa using hcrew
  rw [legacyNode, if_neg hnote, if_pos hcrew, legacyCrew]
  cases hcases : n.crewSpec with
  | none => exact ⟨_, rfl⟩
  | some crew =>
      rw [hcases] at hspec
      cases hvalid : w.validateCrew crew with
      | error e => exact ⟨e, by simp only [hvalid]⟩
      | ok u => simp [hvalid, Except.toOption] at hspec

theorem legacyLoop_cons (hnode : spec.node? id = some n) (ids : List String) (st : LegacyState χ) :
    legacyLoop w calls spec inputs iterate (id :: ids) st =
      match legacyNode w calls inputs iterate n st with
      | (st, .error e) => (st, .error e)
      | (st, .ok _) => legacyLoop w calls spec inputs iterate ids st := by
  rw [legacyLoop, hnode]

/-- **The loop does what it does at the steps up to the first that cannot run**, and it comes to
its end if it does so there and all can. -/
theorem legacyLoop_steps (ids : List String) (st : LegacyState χ) :
    (legacyLoop w calls spec inputs iterate ids st).1 = (legacyLoop w calls spec inputs iterate
        ((ids.filter spec.isStep).takeWhile (spec.canRun w)) st).1 ∧
      ((legacyLoop w calls spec inputs iterate ids st).2 = .ok () ↔
        (legacyLoop w calls spec inputs iterate
          ((ids.filter spec.isStep).takeWhile (spec.canRun w)) st).2 = .ok () ∧
        (ids.filter spec.isStep).all (spec.canRun w) = true) := by
  induction ids generalizing st with
  | nil => simp [legacyLoop]
  | cons id ids ih =>
      cases hnode : spec.node? id with
      | none =>
          have hstep : spec.isStep id = true := by simp [FlowSpec.isStep, hnode]
          have hrun : spec.canRun w id = false := by simp [FlowSpec.canRun, hnode]
          simp [legacyLoop, hnode, hstep, hrun]
      | some n =>
          by_cases hnote : n.readKind = .note
          · have hstep : spec.isStep id = false := by simp [isStep_of_node hnode, hnote]
            have hskip : legacyNode w calls inputs iterate n st = (st, .ok ()) := by
              rw [legacyNode, if_pos hnote]
            rw [List.filter_cons_of_neg (by simp [hstep]), legacyLoop_cons hnode, hskip]
            exact ih st
          · have hstep : spec.isStep id = true := by simp [isStep_of_node hnode, hnote]
            rw [List.filter_cons_of_pos hstep, List.all_cons]
            cases hrun : spec.canRun w id with
            | false =>
                obtain ⟨e, hstuck⟩ : ∃ e, legacyNode w calls inputs iterate n st = (st, .error e) :=
                  legacyNode_stuck hnode hnote hrun st
                rw [List.takeWhile_cons_of_neg (by simp [hrun]), legacyLoop_cons hnode, hstuck]
                simp [legacyLoop]
            | true =>
                rw [List.takeWhile_cons_of_pos hrun, legacyLoop_cons hnode, legacyLoop_cons hnode]
                obtain ⟨st', result⟩ := legacyNode w calls inputs iterate n st
                cases result with
                | error e => simp
                | ok u => simpa using ih st'

/-- **What there is to see of a run** is what its plan leads to. -/
theorem run_plan (order : List String) {st : LegacyState χ} {result : Except String Unit}
    (h : legacyLoop w calls spec inputs iterate (spec.plan w order).1 .start = (st, result)) :
    (runLegacyTopo w calls spec inputs iterate order).asked = st.asked ∧
      (runLegacyTopo w calls spec inputs iterate order).steps = st.steps ∧
      (runLegacyTopo w calls spec inputs iterate order).output.toOption =
        if result = .ok () ∧ (spec.plan w order).2 = true then some st.steps else none := by
  unfold FlowSpec.plan at h ⊢
  unfold runLegacyTopo
  cases hout : spec.executionOrder order with
  | err e =>
      rw [hout] at h
      cases h
      exact ⟨rfl, rfl, rfl⟩
  | panic =>
      rw [hout] at h
      cases h
      exact ⟨rfl, rfl, rfl⟩
  | ok out =>
      rw [hout] at h
      obtain ⟨hstate, hresult⟩ :
          (legacyLoop w calls spec inputs iterate out .start).1 = _ ∧ _ := legacyLoop_steps out .start
      dsimp only at h ⊢
      rw [h] at hstate hresult
      generalize legacyLoop w calls spec inputs iterate out .start = outcome at hstate hresult
      obtain ⟨st', result'⟩ := outcome
      dsimp only at hstate hresult
      subst hstate
      cases result' with
      | error e =>
          have hnot : ¬ (result = .ok () ∧ (out.filter spec.isStep).all (spec.canRun w) = true) := by
            rw [← hresult]
            simp
          rw [if_neg hnot]
          exact ⟨rfl, rfl, rfl⟩
      | ok u =>
          rw [if_pos (hresult.1 rfl)]
          exact ⟨rfl, rfl, rfl⟩

/-! ## Flows that are run in the same way -/

theorem iterate_short (h : Iterates iterate) {outputs : StepOutputs} (hlen : outputs.length ≤ 1) :
    iterate outputs = outputs := by
  have hperm := h outputs
  cases outputs with
  | nil => exact hperm.eq_nil
  | cons out outputs =>
      obtain rfl : outputs = [] := List.eq_nil_of_length_eq_zero (by simpa using hlen)
      exact List.perm_singleton.1 hperm

theorem length_put_le (outputs : StepOutputs) (id : String) (v : Value) :
    (outputs.put id v).length ≤ outputs.length + 1 := by
  unfold StepOutputs.put
  split <;> simp

theorem length_legacyNode_le (n : FlowNode χ) (st : LegacyState χ) :
    (legacyNode w calls inputs iterate n st).1.outputs.length ≤ st.outputs.length + 1 := by
  have hput : ∀ v, (st.outputs.put n.id v).length ≤ st.outputs.length + 1 :=
    fun v => length_put_le _ _ v
  unfold legacyNode legacyCrew legacyLlm
  split
  · exact Nat.le_succ _
  · split
    · split
      · exact Nat.le_succ _
      · split
        · exact Nat.le_succ _
        · dsimp only
          split
          · exact Nat.le_succ _
          · exact hput _
    · dsimp only
      split
      · exact Nat.le_succ _
      · exact hput _
      · exact Nat.le_succ _
      · exact Nat.le_succ _

/-- **Where no prompt comes after two outputs**, the order of the outputs does not matter. -/
theorem legacyLoop_congr {iterate' : StepOutputs → StepOutputs} (h : Iterates iterate)
    (h' : Iterates iterate') {ids : List String} {st : LegacyState χ}
    (hprompts : ∀ id ∈ ids.drop (2 - st.outputs.length), spec.isPrompt id = false) :
    legacyLoop w calls spec inputs iterate ids st =
      legacyLoop w calls spec inputs iterate' ids st := by
  induction ids generalizing st with
  | nil => rfl
  | cons id ids ih =>
      cases hnode : spec.node? id with
      | none => simp [legacyLoop, hnode]
      | some n =>
          have hsame : legacyNode w calls inputs iterate n st =
              legacyNode w calls inputs iterate' n st := by
            by_cases hshort : st.outputs.length ≤ 1
            · simp only [legacyNode, legacyLlm, promptTask, iterate_short h hshort,
                iterate_short h' hshort]
            · -- it is no prompt, so the outputs are not read
              have hzero : 2 - st.outputs.length = 0 := by omega
              have hnot := hprompts id (by rw [hzero]; exact List.mem_cons_self ..)
              rw [isPrompt_of_node hnode] at hnot
              unfold legacyNode
              split
              · rfl
              · next hnote =>
                  have hcrew : n.isCrew = true := by simpa [hnote] using hnot
                  rw [if_pos hcrew, if_pos hcrew]
          rw [legacyLoop_cons hnode, legacyLoop_cons hnode, hsame]
          have hlen : (legacyNode w calls inputs iterate' n st).1.outputs.length ≤
              st.outputs.length + 1 := length_legacyNode_le n st
          generalize legacyNode w calls inputs iterate' n st = turn at hlen ⊢
          obtain ⟨st', result⟩ := turn
          have hlen : st'.outputs.length ≤ st.outputs.length + 1 := hlen
          cases result with
          | error e => rfl
          | ok u =>
              refine ih fun id' hid' => hprompts id' ?_
              cases hdrop : 2 - st.outputs.length with
              | zero => exact List.mem_cons_of_mem _ (List.drop_subset _ _ hid')
              | succ k => exact List.drop_subset_drop_left ids (by omega) hid'

/-! ## Models that always answer -/

/-- Models and crews that always answer the same. -/
def answering (χ : Type) (text : String) : LegacyCalls χ where
  execute := fun _ => .ok (.inference text 0)
  runCrew := fun _ _ => .ok ⟨text, [], .null⟩

/-- What the node under an id then puts out. -/
def answer (spec : FlowSpec χ) (text id : String) : String × Value :=
  if (spec.node? id).any FlowNode.isCrew then ("crew", (CrewOutput.mk text [] .null).toValue)
  else ("llm", .ofFields [("text", .string text)])

/-- What it asks. -/
def asks (w : LegacyWorld χ) (spec : FlowSpec χ) (inputs : Value)
    (iterate : StepOutputs → StepOutputs) (id : String) (outputs : StepOutputs) :
    Option (Asked χ) :=
  (spec.node? id).bind fun n =>
    if n.isCrew then n.crewSpec.map fun crew => .crew crew (crewInputs inputs n)
    else some (.task (promptTask w inputs iterate n outputs))

/-- The state after a step. -/
def LegacyState.after (st : LegacyState χ) (spec : FlowSpec χ) (text id : String)
    (what : Asked χ) : LegacyState χ :=
  (st.ask id what).finish id (answer spec text id).1 (answer spec text id).2

variable {text : String}

/-- **A step that can run** asks, and gets its output. -/
theorem legacyNode_answering (hnode : spec.node? id = some n) (hstep : spec.isStep id = true)
    (hrun : spec.canRun w id = true) (st : LegacyState χ) :
    ∃ what, asks w spec inputs iterate id st.outputs = some what ∧
      legacyNode w (answering χ text) inputs iterate n st = (st.after spec text id what, .ok ()) := by
  obtain rfl : n.id = id := by simpa using List.find?_some hnode
  have hnote : ¬ n.readKind = .note := by simpa [isStep_of_node hnode] using hstep
  rw [canRun_of_node hnode] at hrun
  unfold LegacyState.after answer asks
  rw [hnode, legacyNode, if_neg hnote]
  by_cases hcrew : n.isCrew = true
  · obtain ⟨crew, hcases, hvalid⟩ : ∃ crew, n.crewSpec = some crew ∧
        (w.validateCrew crew).toOption.isSome = true := by
      simpa [hcrew, Option.any_eq_true] using hrun
    cases hok : w.validateCrew crew with
    | error e => simp [hok, Except.toOption] at hvalid
    | ok u =>
        refine ⟨.crew crew (crewInputs inputs n), by simp [hcrew, hcases], ?_⟩
        simp [hcrew, legacyCrew, hcases, hok, answering]
  · refine ⟨.task (promptTask w inputs iterate n st.outputs), by simp [hcrew], ?_⟩
    simp [hcrew, legacyLlm, answering]

/-- The entry of a step in the list of steps. -/
def stepEntry (spec : FlowSpec χ) (text id : String) : Value :=
  .ofFields [("id", .string id), ("kind", .string (answer spec text id).1),
    ("output", (answer spec text id).2)]

theorem put_new {outputs : StepOutputs} {v : Value} (h : id ∉ outputs.map Prod.fst) :
    outputs.put id v = outputs ++ [(id, v)] := by
  rw [StepOutputs.put, if_neg h]

theorem outputs_after {st : LegacyState χ} {what : Asked χ} (h : id ∉ st.outputs.map Prod.fst) :
    (st.after spec text id what).outputs = st.outputs ++ [(id, (answer spec text id).2)] :=
  put_new h

/-- Some steps have been run: each has its output and its entry, and has been asked. -/
structure Ran (spec : FlowSpec χ) (text : String) (ids : List String) (st st' : LegacyState χ) :
    Prop where
  outputs : st'.outputs = st.outputs ++ ids.map fun id => (id, (answer spec text id).2)
  steps : st'.steps = st.steps ++ ids.map (stepEntry spec text)
  asked : ∃ asked, asked.map Prod.fst = ids ∧ st'.asked = st.asked ++ asked

/-- **Steps that can run** are all run. -/
theorem legacyLoop_answering {ids : List String} {st : LegacyState χ}
    (hsteps : ∀ id ∈ ids, spec.isStep id = true ∧ spec.canRun w id = true)
    (hnodup : (st.outputs.map Prod.fst ++ ids).Nodup) :
    ∃ st', legacyLoop w (answering χ text) spec inputs iterate ids st = (st', .ok ()) ∧
      Ran spec text ids st st' := by
  induction ids generalizing st with
  | nil => exact ⟨st, rfl, by simp, by simp, [], rfl, by simp⟩
  | cons id ids ih =>
      obtain ⟨hstep, hrun⟩ := hsteps id (List.mem_cons_self ..)
      obtain ⟨n, hnode, -⟩ := (Option.any_eq_true ..).1 hrun
      obtain ⟨what, -, hnext⟩ : ∃ what, asks w spec inputs iterate id st.outputs = some what ∧
          legacyNode w (answering χ text) inputs iterate n st = _ :=
        legacyNode_answering hnode hstep hrun st
      have hnew : id ∉ st.outputs.map Prod.fst := by
        intro hmem
        exact (List.nodup_append.1 hnodup).2.2 id hmem id (List.mem_cons_self ..) rfl
      have hrest : ((st.after spec text id what).outputs.map Prod.fst ++ ids).Nodup := by
        rw [outputs_after hnew]
        simpa using hnodup
      obtain ⟨st', hloop, hran⟩ :=
        ih (fun id' hid' => hsteps id' (List.mem_cons_of_mem _ hid')) hrest
      obtain ⟨asked, hasked, heq⟩ := hran.asked
      refine ⟨st', ?_, ?_, ?_, (id, what) :: asked, ?_, ?_⟩
      · rw [legacyLoop_cons hnode, hnext]
        exact hloop
      · rw [hran.outputs, outputs_after hnew]
        simp
      · rw [hran.steps]
        simp [LegacyState.after, LegacyState.ask, LegacyState.finish, stepEntry]
      · rw [List.map_cons, hasked]
      · rw [heq]
        simp [LegacyState.after, LegacyState.ask, LegacyState.finish]

/-! ## Blocks that tell in which order they stand -/

/-- The text of an output. -/
def blockChars (out : String × Value) : List Char :=
  "\n\n--- prior step ".toList ++ out.1.toList ++ " ---\n".toList ++ out.2.render.toList

theorem blockChars_mk (id : String) (v : Value) : blockChars (id, v) =
    "\n\n--- prior step ".toList ++ id.toList ++ " ---\n".toList ++ v.render.toList := rfl

theorem toList_block (out : String × Value) :
    ("\n\n--- prior step " ++ out.1 ++ " ---\n" ++ out.2.render).toList = blockChars out := by
  obtain ⟨id, v⟩ := out
  rw [blockChars_mk, String.toList_append, String.toList_append, String.toList_append]

theorem toList_priorSteps (outputs : StepOutputs) :
    (priorSteps outputs).toList = outputs.flatMap blockChars := by
  rw [priorSteps, Text.toList_join_empty]
  induction outputs with
  | nil => rfl
  | cons out outputs ih =>
      rw [List.map_cons, List.map_cons, List.flatten_cons, toList_block, ih, List.flatMap_cons]

theorem no_shift {c : Char} {front front' v rest rest' : List Char} (hv : c ∉ v)
    (hlt : front.length < front'.length) (hle : front'.length ≤ front.length + v.length) :
    front ++ c :: (v ++ rest) ≠ front' ++ c :: rest' := by
  intro h
  have hget : (front ++ c :: (v ++ rest))[front'.length]? = some c := by
    rw [h]
    simp
  obtain ⟨d, hd⟩ : ∃ d, front'.length = front.length + (d + 1) :=
    ⟨front'.length - front.length - 1, by omega⟩
  rw [hd, List.getElem?_append_right (Nat.le_add_right _ _), Nat.add_sub_cancel_left,
    List.getElem?_cons_succ, List.getElem?_append_left (by omega)] at hget
  exact hv (List.mem_of_getElem? hget)

/-- **Two blocks whose values begin with a mark** stand in either order only if their names are
the same. -/
theorem name_eq_of_comm {c : Char} {p q a b v v' : List Char} (hv : c ∉ v) (hv' : c ∉ v')
    (ha : a.length ≤ v'.length) (hb : b.length ≤ v.length)
    (h : (p ++ a ++ q ++ c :: v) ++ (p ++ b ++ q ++ c :: v') =
      (p ++ b ++ q ++ c :: v') ++ (p ++ a ++ q ++ c :: v)) : a = b := by
  have hsplit : ∀ front w rest : List Char, (front ++ c :: w) ++ rest = front ++ c :: (w ++ rest) := by
    intro front w rest
    simp
  rw [hsplit, hsplit] at h
  rcases lt_trichotomy a.length b.length with hlt | heq | hlt
  · exact absurd h (no_shift hv (by simp; omega) (by simp; omega))
  · have hfront := (List.append_inj h (by simp; omega)).1
    have hname := (List.append_inj' hfront rfl).1
    exact (List.append_inj' hname heq).2
  · exact absurd h.symm (no_shift hv' (by simp; omega) (by simp; omega))

/-- A text of a given length without anything to escape. -/
def filler (k : ℕ) : String := String.ofList (List.replicate k 'z')

theorem toList_quote_filler (k : ℕ) :
    (Value.quote (filler k)).toList = '"' :: (List.replicate k 'z' ++ ['"']) := by
  have hz : Value.escapeChar 'z' = ['z'] := by decide
  simp [Value.quote, filler, List.flatMap_replicate, hz]

variable (spec) in
/-- **The outputs begin with a brace** that does not come again, and are as long as one likes. -/
theorem render_answer (k : ℕ) (id : String) : ∃ v, '\x7b' ∉ v ∧ k ≤ v.length ∧
    (answer spec (filler k) id).2.render.toList = '\x7b' :: v := by
  unfold answer
  split
  · have hfields : (CrewOutput.mk (filler k) [] .null).toValue = .object
        [("raw", .string (filler k)), ("tasks_output", .array []), ("token_usage", .null)] := by
      have h₁ : ¬ "tasks_output" < "raw" := by decide
      have h₂ : ¬ "token_usage" < "raw" := by decide
      have h₃ : ¬ "token_usage" < "tasks_output" := by decide
      simp [CrewOutput.toValue, Value.ofFields, Fields.insertAll, Fields.insert, h₁, h₂, h₃]
    have hraw : (Value.quote "raw").toList = "\"raw\"".toList := by decide
    have htasks : (Value.quote "tasks_output").toList = "\"tasks_output\"".toList := by decide
    have husage : (Value.quote "token_usage").toList = "\"token_usage\"".toList := by decide
    refine ⟨"\"raw\":".toList ++ ('"' :: (List.replicate k 'z' ++ ['"'])) ++
      ",\"tasks_output\":[],\"token_usage\":null\x7d".toList, by simp, by simp; omega, ?_⟩
    rw [hfields]
    simp [Value.render, Value.renderAll, Value.renderFields, Text.join, toList_quote_filler, hraw,
      htasks, husage]
  · have hfields : Value.ofFields [("text", .string (filler k))] =
        .object [("text", .string (filler k))] := rfl
    have htext : (Value.quote "text").toList = "\"text\"".toList := by decide
    refine ⟨"\"text\":".toList ++ ('"' :: (List.replicate k 'z' ++ ['"'])) ++ ['\x7d'],
      by simp, by simp; omega, ?_⟩
    rw [hfields]
    simp [Value.render, Value.renderFields, Text.join, toList_quote_filler, htext]

/-! ## The prompt of a step -/

theorem legacyLoop_append {ids ids' : List String} {st st' : LegacyState χ}
    (h : legacyLoop w calls spec inputs iterate ids st = (st', .ok ())) :
    legacyLoop w calls spec inputs iterate (ids ++ ids') st =
      legacyLoop w calls spec inputs iterate ids' st' := by
  induction ids generalizing st with
  | nil =>
      cases h
      rfl
  | cons id ids ih =>
      cases hnode : spec.node? id with
      | none => simp [legacyLoop, hnode] at h
      | some n =>
          rw [legacyLoop_cons hnode] at h
          rw [List.cons_append, legacyLoop_cons hnode]
          generalize legacyNode w calls inputs iterate n st = turn at h ⊢
          obtain ⟨st₁, result⟩ := turn
          cases result with
          | error e => cases h
          | ok u => exact ih h

/-- **What a prompt is** when everybody answers: it has the outputs of the steps before it, in
the order in which they are iterated over. -/
theorem prompt_answering {before after : List String} {order : List String}
    (hplan : (spec.plan w order).1 = before ++ id :: after) (hnodup : (before ++ id :: after).Nodup)
    (hsteps : ∀ i ∈ before ++ id :: after, spec.isStep i = true ∧ spec.canRun w i = true)
    (hnode : spec.node? id = some n) (hcrew : n.isCrew = false) :
    (runLegacyTopo w (answering χ text) spec inputs iterate order).prompt id =
      some (.task (promptTask w inputs iterate n
        (before.map fun i => (i, (answer spec text i).2)))) := by
  obtain ⟨hstep, hrun⟩ := hsteps id (List.mem_append_right _ (List.mem_cons_self ..))
  obtain ⟨st, hloop, hran⟩ : ∃ st, legacyLoop w (answering χ text) spec inputs iterate before .start =
      (st, .ok ()) ∧ Ran spec text before .start st :=
    legacyLoop_answering (fun i hi => hsteps i (List.mem_append_left _ hi))
      (List.Nodup.of_append_left hnodup)
  have houtputs : st.outputs = before.map fun i => (i, (answer spec text i).2) := hran.outputs
  obtain ⟨asked, hasked, heq⟩ := hran.asked
  obtain ⟨what, hwhat, hturn⟩ : ∃ what, asks w spec inputs iterate id st.outputs = some what ∧
      legacyNode w (answering χ text) inputs iterate n st = _ :=
    legacyNode_answering hnode hstep hrun st
  have hnew : id ∉ st.outputs.map Prod.fst := by
    rw [houtputs]
    intro hmem
    have hmem : id ∈ before := by simpa using hmem
    exact (List.nodup_append.1 hnodup).2.2 id hmem id (List.mem_cons_self ..) rfl
  have hrest : ((st.after spec text id what).outputs.map Prod.fst ++ after).Nodup := by
    rw [outputs_after hnew, houtputs]
    simpa [Function.comp_def] using hnodup
  obtain ⟨st', hloop', hran'⟩ : ∃ st', legacyLoop w (answering χ text) spec inputs iterate after
      (st.after spec text id what) = (st', .ok ()) ∧ Ran spec text after _ st' :=
    legacyLoop_answering
      (fun i hi => hsteps i (List.mem_append_right _ (List.mem_cons_of_mem _ hi))) hrest
  obtain ⟨asked', -, heq'⟩ := hran'.asked
  have hwhole : legacyLoop w (answering χ text) spec inputs iterate (spec.plan w order).1 .start =
      (st', .ok ()) := by
    rw [hplan, legacyLoop_append hloop, legacyLoop_cons hnode, hturn]
    exact hloop'
  have hnone : asked.find? (fun asked => asked.1 = id) = none := by
    rw [List.find?_eq_none]
    intro entry hentry hid
    have hmem : id ∈ before := by
      rw [← hasked, ← of_decide_eq_true hid]
      exact List.mem_map_of_mem hentry
    exact (List.nodup_append.1 hnodup).2.2 id hmem id (List.mem_cons_self ..) rfl
  have htask : what = .task (promptTask w inputs iterate n st.outputs) := by
    simpa [asks, hnode, hcrew] using hwhat.symm
  rw [LegacyRun.prompt, (run_plan order hwhole).1, heq']
  show Option.map Prod.snd (List.find? _ ((st.asked ++ [(id, what)]) ++ asked')) = _
  rw [heq, htask, houtputs]
  simp [LegacyState.start, hnone]

/-! ## Which flows are run in the same way -/

theorem plan_steps {order : List String} :
    ∀ i ∈ (spec.plan w order).1, spec.isStep i = true ∧ spec.canRun w i = true := by
  intro i hi
  unfold FlowSpec.plan at hi
  cases hout : spec.executionOrder order with
  | ok out =>
      rw [hout] at hi
      have hmem := (List.takeWhile_sublist _).subset hi
      exact ⟨(List.mem_filter.1 hmem).2, List.all_eq_true.1 List.all_takeWhile i hi⟩
  | err e => simp [hout] at hi
  | panic => simp [hout] at hi

theorem plan_nodup (hids : spec.ids.Nodup) {order : List String} (horder : order.Perm spec.ids) :
    (spec.plan w order).1.Nodup := by
  unfold FlowSpec.plan
  cases hout : spec.executionOrder order with
  | ok out =>
      have hnodup : out.Nodup := (executionOrder_perm hids horder hout).nodup_iff.2 hids
      exact (hnodup.filter _).sublist (List.takeWhile_sublist _)
  | err e => exact List.nodup_nil
  | panic => exact List.nodup_nil

/-- The first two entries the other way round. -/
def swapFirst : StepOutputs → StepOutputs
  | out :: out' :: outputs => out' :: out :: outputs
  | outputs => outputs

theorem iterates_same : Iterates fun outputs => outputs := fun _ => .refl _

theorem iterates_swapFirst : Iterates swapFirst := by
  intro outputs
  rcases outputs with _ | ⟨out, _ | ⟨out', outputs⟩⟩
  · exact .refl _
  · exact .refl _
  · exact .swap _ _ _

theorem promptTask_inj {iterate' : StepOutputs → StepOutputs} {outputs : StepOutputs}
    (h : promptTask w inputs iterate n outputs = promptTask w inputs iterate' n outputs) :
    priorSteps (iterate outputs) = priorSteps (iterate' outputs) := by
  have hmessages := congrArg InferenceTask.messages h
  simp only [promptTask, InferenceTask.withMaxTokens, InferenceTask.new, ChatMessage.user,
    List.cons.injEq, ChatMessage.mk.injEq, true_and, and_true] at hmessages
  exact (String.append_right_inj _).1 hmessages

/-- **A prompt after two outputs** shows in which order they are iterated over. -/
theorem prompt_depends (hids : spec.ids.Nodup) {order : List String} (horder : order.Perm spec.ids)
    (hmem : id ∈ (spec.plan w order).1.drop 2) (hprompt : spec.isPrompt id = true) :
    ∃ calls, ¬ SameRun (runLegacyTopo w calls spec inputs (fun outputs => outputs) order)
      (runLegacyTopo w calls spec inputs swapFirst order) := by
  obtain ⟨n, hnode, hn⟩ := (Option.any_eq_true ..).1 hprompt
  have hcrew : n.isCrew = false := by
    have hboth := Bool.and_eq_true_iff.1 hn
    simpa using hboth.2
  obtain ⟨between, after, hsplit⟩ := List.append_of_mem hmem
  obtain ⟨a, b, hplan⟩ : ∃ a b, (spec.plan w order).1 = (a :: b :: between) ++ id :: after := by
    generalize (spec.plan w order).1 = plan at hsplit
    rcases plan with _ | ⟨a, _ | ⟨b, plan⟩⟩
    · simp at hsplit
    · simp at hsplit
    · exact ⟨a, b, by simpa using hsplit⟩
  have hnodup : ((a :: b :: between) ++ id :: after).Nodup := hplan ▸ plan_nodup hids horder
  refine ⟨answering χ (filler (a.length + b.length)), fun hsame => ?_⟩
  have hprompts := hsame.prompts id
  rw [prompt_answering hplan hnodup (hplan ▸ plan_steps) hnode hcrew,
    prompt_answering hplan hnodup (hplan ▸ plan_steps) hnode hcrew] at hprompts
  have htasks := promptTask_inj (Asked.task.inj (Option.some.inj hprompts))
  have hblocks := congrArg String.toList htasks
  rw [toList_priorSteps, toList_priorSteps] at hblocks
  simp only [List.map_cons, swapFirst, List.flatMap_cons] at hblocks
  -- the blocks of the first two steps stand in either order
  rw [← List.append_assoc, ← List.append_assoc] at hblocks
  have hcomm := List.append_cancel_right hblocks
  obtain ⟨v, hv, hlong, hrender⟩ := render_answer spec (a.length + b.length) a
  obtain ⟨v', hv', hlong', hrender'⟩ := render_answer spec (a.length + b.length) b
  rw [blockChars_mk, blockChars_mk, hrender, hrender'] at hcomm
  have hnames : a.toList = b.toList := by
    refine name_eq_of_comm hv hv' ?_ ?_ hcomm
    · rw [String.length_toList]
      omega
    · rw [String.length_toList]
      omega
  have hsame : a = b := String.toList_injective hnames
  simp [hsame] at hnodup

theorem sameRun_of_plan {calls : LegacyCalls χ} {iterate' : StepOutputs → StepOutputs}
    (h : Iterates iterate) (h' : Iterates iterate') {order order' : List String}
    (hplan : spec.plan w order = spec.plan w order')
    (hprompts : ∀ id ∈ (spec.plan w order).1.drop 2, spec.isPrompt id = false) :
    SameRun (runLegacyTopo w calls spec inputs iterate order)
      (runLegacyTopo w calls spec inputs iterate' order') := by
  have hloops : legacyLoop w calls spec inputs iterate (spec.plan w order).1 .start =
      legacyLoop w calls spec inputs iterate' (spec.plan w order).1 .start :=
    legacyLoop_congr h h' hprompts
  cases hrun : legacyLoop w calls spec inputs iterate (spec.plan w order).1 .start with
  | mk st result =>
      obtain ⟨hasked, hsteps, houtput⟩ := run_plan order hrun
      rw [hloops, hplan] at hrun
      obtain ⟨hasked', hsteps', houtput'⟩ := run_plan order' hrun
      refine ⟨fun id => ?_, ?_, ?_⟩
      · rw [LegacyRun.prompt, LegacyRun.prompt, hasked, hasked']
      · rw [hsteps, hsteps']
      · rw [houtput, houtput', hplan]

/-- **The list of steps tells the plan**, when everybody answers. -/
theorem plan_of_sameRun (hids : spec.ids.Nodup) {order order' : List String}
    (horder : order.Perm spec.ids) (horder' : order'.Perm spec.ids)
    (h : SameRun (runLegacyTopo w (answering χ text) spec inputs iterate order)
      (runLegacyTopo w (answering χ text) spec inputs iterate order')) :
    spec.plan w order = spec.plan w order' := by
  have hread : ∀ i, (stepEntry spec text i).get? "id" = some (.string i) := by
    intro i
    have h₁ : ¬ "kind" < "id" := by decide
    have h₂ : ¬ "output" < "id" := by decide
    have h₃ : ¬ "output" < "kind" := by decide
    simp [stepEntry, Value.ofFields, Fields.insertAll, Fields.insert, Value.get?, Value.asObject,
      Fields.get?, h₁, h₂, h₃]
  have hrun : ∀ {order : List String}, order.Perm spec.ids → ∃ st : LegacyState χ,
      legacyLoop w (answering χ text) spec inputs iterate (spec.plan w order).1 .start =
        (st, .ok ()) ∧ st.steps = (spec.plan w order).1.map (stepEntry spec text) := by
    intro order horder
    obtain ⟨st, hloop, hran⟩ : ∃ st, legacyLoop w (answering χ text) spec inputs iterate
        (spec.plan w order).1 .start = (st, .ok ()) ∧ Ran spec text _ .start st :=
      legacyLoop_answering plan_steps (plan_nodup hids horder)
    exact ⟨st, hloop, hran.steps⟩
  obtain ⟨st, hloop, hst⟩ := hrun horder
  obtain ⟨st', hloop', hst'⟩ := hrun horder'
  obtain ⟨-, hsteps, houtput⟩ := run_plan order hloop
  obtain ⟨-, hsteps', houtput'⟩ := run_plan order' hloop'
  refine Prod.ext ?_ ?_
  · have hentries := h.steps
    rw [hsteps, hsteps', hst, hst'] at hentries
    refine List.map_injective_iff.2 (fun i j heq => ?_) hentries
    have hid := congrArg (fun v : Value => v.get? "id") heq
    simpa [hread] using hid
  · have hcomplete := congrArg Option.isSome h.output
    rw [houtput, houtput'] at hcomplete
    simpa [apply_ite] using hcomplete

/-- A flow is run in the same way, whatever the maps are iterated over in, whatever the models and
the crews answer. -/
def FlowSpec.OrderIndependent (w : LegacyWorld χ) (spec : FlowSpec χ) (inputs : Value) : Prop :=
  ∀ (calls : LegacyCalls χ) (order order' : List String)
    (iterate iterate' : StepOutputs → StepOutputs),
    order.Perm spec.ids → order'.Perm spec.ids → Iterates iterate → Iterates iterate' →
      SameRun (runLegacyTopo w calls spec inputs iterate order)
        (runLegacyTopo w calls spec inputs iterate' order')

/-- The steps come in one order, whatever the map of the in-degrees is iterated over in. -/
def FlowSpec.OneOrder (w : LegacyWorld χ) (spec : FlowSpec χ) : Prop :=
  ∀ order order' : List String, order.Perm spec.ids → order'.Perm spec.ids →
    spec.plan w order = spec.plan w order'

/-- Every prompt is one of the first two steps. -/
def FlowSpec.PromptsFirst (w : LegacyWorld χ) (spec : FlowSpec χ) : Prop :=
  ∀ order : List String, order.Perm spec.ids →
    ∀ id ∈ (spec.plan w order).1.drop 2, spec.isPrompt id = false

/-- **When the maps do not matter**: exactly when the steps come in one order, and no prompt comes
after two of them. -/
theorem order_independent_iff (w : LegacyWorld χ) (inputs : Value) (hids : spec.ids.Nodup) :
    spec.OrderIndependent w inputs ↔ spec.OneOrder w ∧ spec.PromptsFirst w := by
  constructor
  · intro h
    refine ⟨fun order order' horder horder' => ?_, fun order horder id hid => ?_⟩
    · exact plan_of_sameRun hids horder horder'
        (h (answering χ "") order order' _ _ horder horder' iterates_same iterates_same)
    · by_contra hprompt
      rw [Bool.not_eq_false] at hprompt
      obtain ⟨calls, hdepends⟩ : ∃ calls, ¬ SameRun
          (runLegacyTopo w calls spec inputs (fun outputs => outputs) order)
          (runLegacyTopo w calls spec inputs swapFirst order) :=
        prompt_depends hids horder hid hprompt
      exact hdepends (h calls order order _ _ horder horder iterates_same iterates_swapFirst)
  · rintro ⟨hone, hfirst⟩ calls order order' iterate iterate' horder horder' h h'
    exact sameRun_of_plan h h' (hone order order' horder horder') (hfirst order horder)

/-- **With one node that no edge leads to**, the steps come in one order. -/
theorem oneOrder_of_source (h : (spec.sources spec.ids).length ≤ 1) : spec.OneOrder w := by
  have hsources : ∀ {order : List String}, order.Perm spec.ids →
      spec.sources order = spec.sources spec.ids := by
    intro order horder
    have hperm : (spec.sources order).Perm (spec.sources spec.ids) := horder.filter _
    generalize spec.sources spec.ids = sources at h hperm
    rcases sources with _ | ⟨id, _ | ⟨id', sources⟩⟩
    · exact hperm.eq_nil
    · exact List.perm_singleton.1 hperm
    · simp at h
  intro order order' horder horder'
  unfold FlowSpec.plan FlowSpec.executionOrder
  rw [hsources horder, hsources horder']

end Run

section Example

/-- A world without crews. -/
private def plainWorld : LegacyWorld Empty := ⟨"llama3.2:3b", fun _ => .ok ()⟩

/-- Two prompts, with or without an edge between them. -/
private def two (edges : List FlowEdge) : FlowSpec Empty where
  nodes := [{ id := "a", prompt := "x" }, { id := "b", prompt := "y" }]
  edges := edges

theorem order_independent_chain : (two [⟨"a", "b", none⟩]).OrderIndependent plainWorld .null := by
  have hone : (two [⟨"a", "b", none⟩]).OneOrder plainWorld := oneOrder_of_source (by decide)
  refine (order_independent_iff plainWorld .null (by decide)).2 ⟨hone, fun order horder id hid => ?_⟩
  have hplan : (two [⟨"a", "b", none⟩]).plan plainWorld (two [⟨"a", "b", none⟩]).ids =
      (["a", "b"], true) := by decide
  rw [hone order _ horder (.refl _), hplan] at hid
  simp at hid

/-- **Two prompts without an edge** into them are run in the order of a hash map. -/
theorem two_sources : (two []).ids.Nodup ∧ ¬ (two []).OrderIndependent plainWorld .null := by
  refine ⟨by decide, fun h => ?_⟩
  have hsame := h (answering Empty "") ["a", "b"] ["b", "a"] _ _ (.refl _) (.swap _ _ _)
    iterates_same iterates_same
  have hplan := plan_of_sameRun (by decide) (.refl _) (.swap _ _ _) hsame
  exact absurd hplan (by decide)

end Example

end PeerClaw
