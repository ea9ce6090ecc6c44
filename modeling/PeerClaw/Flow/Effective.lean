import PeerClaw.Flow.Structure

/-!
# What the interpreter reads of a flow

A node has fields for every kind, and the interpreter reads those of its own.  `effective`
is the node with these fields alone, and with their defaults written out, where the
interpreter cannot tell the difference.

* `visit_effective` — a node does what its effective fields do.
* `follow_effective` — and is left by the same edge.
-/

namespace PeerClaw

open Lib

/-! ## Texts -/

/-- A text, or the empty one if it is blank. -/
def unblank (s : String) : String := if Text.trim s = "" then "" else s

@[simp] theorem trim_unblank (s : String) : Text.trim (unblank s) = Text.trim s := by
  unfold unblank
  split
  · rename_i h
    rw [h]
    decide
  · rfl

theorem unblank_of_not_blank {s : String} (h : Text.trim s ≠ "") : unblank s = s := if_neg h

theorem unblank_eq_empty_iff {s : String} : unblank s = "" ↔ Text.trim s = "" := by
  unfold unblank
  split
  · simp [*]
  · rename_i h
    refine iff_of_false ?_ h
    rintro rfl
    exact h (by decide)

@[simp] theorem toLower_toLower (c : Char) : c.toLower.toLower = c.toLower := by
  have hnot : ¬ (c.toLower.val ≥ 65 ∧ c.toLower.val ≤ 90) := by
    unfold Char.toLower
    split <;> grind [UInt32.toNat_add, Char.toNat_val]
  conv_lhs => unfold Char.toLower
  exact dif_neg hnot

@[simp] theorem toAsciiLowercase_idem (s : String) :
    Text.toAsciiLowercase (Text.toAsciiLowercase s) = Text.toAsciiLowercase s := by
  simp [Text.toAsciiLowercase, List.map_map, Function.comp_def]

theorem replaceFrom_of_not_mem {c : Char} {pattern replacement : List Char} {cs : List Char}
    (h : c ∉ cs) (fuel : ℕ) : Text.replaceFrom (c :: pattern) replacement fuel cs = cs := by
  induction fuel generalizing cs with
  | zero => rfl
  | succ fuel ih =>
      cases cs with
      | nil => rfl
      | cons a cs =>
          obtain ⟨hne, hrest⟩ := not_or.1 (fun hor => h (List.mem_cons.2 hor))
          have hhead : ((c :: pattern).isPrefixOf (a :: cs)) = false := by
            simp [List.isPrefixOf, hne]
          rw [Text.replaceFrom, hhead, if_neg Bool.false_ne_true, ih hrest]

theorem interpolateContext_of_no_brace {s : String} (h : '\x7b' ∉ s.toList) (context : Value) :
    interpolateContext s context = s := by
  unfold interpolateContext interpolateWith
  cases context.asObject with
  | none => rfl
  | some fields =>
      dsimp only
      induction fields with
      | nil => rfl
      | cons field fields ih =>
          have hsame : Text.replace s ("\x7b" ++ field.1 ++ "\x7d") (valueToString field.2) = s := by
            have hpattern : ("\x7b" ++ field.1 ++ "\x7d").toList =
                '\x7b' :: (field.1.toList ++ ['\x7d']) := by simp
            rw [Text.replace, hpattern, replaceFrom_of_not_mem h, String.ofList_toList]
          rw [List.foldl_cons, hsame, ih]

/-! ## Nodes -/

section Nodes

variable {χ : Type}

/-- Whether only JSON is asked for. -/
def jsonOnly (format : String) : String := if Text.toAsciiLowercase format = "json" then "json" else ""

/-- The kind, with one name for each. -/
def FlowNode.effectiveKind (n : FlowNode χ) : String :=
  match n.readKind with
  | .approval => "user_approval"
  | .fileSearch => "file_search"
  | .setState => "set_state"
  | .llm => "llm"
  | _ => Text.toAsciiLowercase n.kind

/-- The fields that the interpreter reads of a node of its kind. -/
def FlowNode.effective (n : FlowNode χ) : FlowNode χ :=
  let base : FlowNode χ := { id := n.id, kind := n.effectiveKind }
  match n.readKind with
  | .note | .start | .finish | .unknown _ => base
  | .approval => { base with prompt := n.prompt }
  | .ifElse => { base with conditionCel := unblank n.conditionCel }
  | .while => { base with conditionCel := unblank n.conditionCel, maxIterations := n.maxIter }
  | .guardrails =>
      { base with
        sourceNodeId := unblank n.sourceNodeId
        guardrailChecks :=
          if n.guardrailChecks.isEmpty then ["leak", "injection", "policy"]
          else n.guardrailChecks.map Text.toAsciiLowercase
        guardrailInputTemplate := unblank n.guardrailInputTemplate
        guardrailContinueOnError := n.guardrailContinueOnError
        guardrailCustomSubstring := unblank n.guardrailCustomSubstring }
  | .mcp =>
      { base with mcpToolId := unblank n.mcpToolId, mcpArgumentsJson := n.mcpArgumentsJson }
  | .fileSearch =>
      { base with
        vectorCollection := unblank n.vectorCollection
        vectorQueryTemplate := n.vectorQueryTemplate
        vectorTopK := if n.vectorTopK = 0 then 10 else min 100 n.vectorTopK }
  | .setState =>
      { base with
        stateKey := unblank n.stateKey
        stateValueCel := unblank n.stateValueCel
        stateValueJson :=
          if Text.trim n.stateValueCel ≠ "" then ""
          else if n.stateValueJson = "" then "null" else n.stateValueJson }
  | .transform =>
      { base with
        transformFromNodeId := unblank n.transformFromNodeId
        stateKey := unblank n.stateKey
        transformMode := Text.toAsciiLowercase n.transformMode
        transformExpressionsJson := n.transformExpressionsJson
        transformObjectJson := unblank n.transformObjectJson }
  | .crew => { base with crewSpec := n.crewSpec, prompt := n.prompt }
  | .agent =>
      { base with
        name := unblank n.name
        prompt := n.prompt
        instructions := unblank n.instructions
        model := unblank n.model
        tools := n.tools
        temperature := some (n.temperature.getD 0.5)
        maxTokens := some (n.maxTokens.getD 2048)
        includeChatHistory := n.includeChatHistory
        outputFormat := jsonOnly n.outputFormat
        agentSessionKey := if n.includeChatHistory then unblank n.agentSessionKey else "" }
  | .classify =>
      { base with
        classifyCategories := n.classifyCategories
        classifyModel := unblank n.classifyModel
        classifyInputTemplate := unblank n.classifyInputTemplate
        classifyExamplesJson := unblank n.classifyExamplesJson
        outputFormat := jsonOnly n.outputFormat
        temperature := some (n.temperature.getD 0.2)
        maxTokens := some (max (n.maxTokens.getD 128) 16) }
  | .llm =>
      { base with
        prompt := n.prompt
        model := unblank n.model
        outputFormat := jsonOnly n.outputFormat
        temperature := some (n.temperature.getD 0.7)
        maxTokens := some (n.maxTokens.getD 512) }

theorem FlowNode.effective_id (n : FlowNode χ) : n.effective.id = n.id := by
  unfold FlowNode.effective
  cases n.readKind <;> rfl

theorem FlowNode.effective_kind (n : FlowNode χ) : n.effective.kind = n.effectiveKind := by
  unfold FlowNode.effective
  cases n.readKind <;> rfl

theorem FlowNode.readKind_effective (n : FlowNode χ) : n.effective.readKind = n.readKind := by
  have hlower : NodeKind.parse (Text.toAsciiLowercase (Text.toAsciiLowercase n.kind)) =
      n.readKind := by rw [toAsciiLowercase_idem]; rfl
  rw [FlowNode.readKind, FlowNode.effective_kind]
  unfold FlowNode.effectiveKind
  cases hkind : n.readKind with
  | approval => exact (by decide : NodeKind.parse (Text.toAsciiLowercase "user_approval") = .approval)
  | fileSearch => exact (by decide : NodeKind.parse (Text.toAsciiLowercase "file_search") = .fileSearch)
  | setState => exact (by decide : NodeKind.parse (Text.toAsciiLowercase "set_state") = .setState)
  | llm => exact (by decide : NodeKind.parse (Text.toAsciiLowercase "llm") = .llm)
  | _ => exact hlower.trans hkind

/-! ## What a node does -/

variable {w : FlowWorld} {spec : FlowSpec χ} {inputs : Value} {d : FlowDraw χ} {st : FlowState}
  {cur : String} {n : FlowNode χ}

theorem celBool_unblank (expr : String) (act : Activation) :
    celBool d (unblank expr) act = celBool d expr act := by
  unfold celBool
  rw [trim_unblank]

theorem celJsonValue_unblank (expr : String) (act : Activation) :
    celJsonValue d (unblank expr) act = celJsonValue d expr act := by
  unfold celJsonValue
  rw [trim_unblank]

theorem ite_unblank_map {β : Type} (s : String) (default : β) (f : String → β) :
    (if Text.trim (unblank s) = "" then default else f (unblank s)) =
      if Text.trim s = "" then default else f s := by
  rw [trim_unblank]
  split
  · rfl
  · rw [unblank_of_not_blank ‹_›]

theorem ite_unblank (s default : String) :
    (if Text.trim (unblank s) = "" then default else unblank s) =
      if Text.trim s = "" then default else s :=
  ite_unblank_map s default id

theorem jsonOnly_idem (format : String) :
    Text.toAsciiLowercase (jsonOnly format) = "json" ↔ Text.toAsciiLowercase format = "json" := by
  unfold jsonOnly
  split
  · rename_i h
    exact iff_of_true (by decide) h
  · rename_i h
    exact iff_of_false (by decide) h

theorem visitIf_effective (hkind : n.readKind = .ifElse) :
    visitIf inputs d st cur n.effective = visitIf inputs d st cur n := by
  have hcel : n.effective.conditionCel = unblank n.conditionCel := by
    rw [FlowNode.effective, hkind]
  have hk : Text.toAsciiLowercase n.effective.kind = Text.toAsciiLowercase n.kind := by
    rw [FlowNode.effective_kind, FlowNode.effectiveKind, hkind, toAsciiLowercase_idem]
  unfold visitIf
  rw [hcel, hk, celBool_unblank]

theorem max16 (a : UInt32) : max (max a 16) 16 = max a 16 := by
  have hmax : ∀ a b : UInt32, max a b = if a ≤ b then b else a := fun _ _ => rfl
  rw [hmax a 16]
  split
  · rfl
  · rename_i h
    rw [hmax, if_neg h]

theorem toNat_min100 (k : UInt32) : (min 100 k).toNat = min 100 k.toNat := by
  have hmin : min 100 k = if 100 ≤ k then 100 else k := rfl
  rw [hmin]
  split
  · rename_i h
    have hle : 100 ≤ k.toNat := UInt32.le_iff_toNat_le.1 h
    rw [min_eq_left hle]
    rfl
  · rename_i h
    have hle : ¬ 100 ≤ k.toNat := fun hle => h (UInt32.le_iff_toNat_le.2 hle)
    rw [min_eq_right (by omega)]

theorem maxIter_effective (hkind : n.readKind = .while) : n.effective.maxIter = n.maxIter := by
  have heff : n.effective.maxIterations = n.maxIter := by rw [FlowNode.effective, hkind]
  have hne : n.maxIter ≠ 0 := by
    unfold FlowNode.maxIter
    split
    · decide
    · assumption
  rw [FlowNode.maxIter, heff, if_neg hne]

theorem visitWhile_effective (hkind : n.readKind = .while) :
    visitWhile inputs d st cur n.effective = visitWhile inputs d st cur n := by
  have hcel : n.effective.conditionCel = unblank n.conditionCel := by
    rw [FlowNode.effective, hkind]
  unfold visitWhile whileMove
  rw [hcel, maxIter_effective hkind]
  simp only [celBool_unblank]

theorem visitGuardrails_effective (hkind : n.readKind = .guardrails) :
    visitGuardrails w inputs st cur n.effective = visitGuardrails w inputs st cur n := by
  have heff : n.effective =
      { id := n.id
        kind := n.effectiveKind
        sourceNodeId := unblank n.sourceNodeId
        guardrailChecks :=
          if n.guardrailChecks.isEmpty then ["leak", "injection", "policy"]
          else n.guardrailChecks.map Text.toAsciiLowercase
        guardrailInputTemplate := unblank n.guardrailInputTemplate
        guardrailContinueOnError := n.guardrailContinueOnError
        guardrailCustomSubstring := unblank n.guardrailCustomSubstring } := by
    rw [FlowNode.effective, hkind]
  have htext : guardrailText inputs st n.effective = guardrailText inputs st n := by
    rw [heff]
    unfold guardrailText
    dsimp only
    rw [trim_unblank, trim_unblank]
    split
    · rw [unblank_of_not_blank ‹_›]
    · rfl
  have hcheck : ∀ layer text check,
      passesCheck w n.effective layer text check = passesCheck w n layer text check := by
    intro layer text check
    rw [heff]
    unfold passesCheck
    dsimp only
    rw [trim_unblank]
  have hlower : ∀ layer text check,
      passesCheck w n layer text (Text.toAsciiLowercase check) =
        passesCheck w n layer text check := by
    intro layer text check
    unfold passesCheck
    rw [toAsciiLowercase_idem]
  have hall : ∀ layer text,
      ((if n.effective.guardrailChecks.isEmpty then ["leak", "injection", "policy"]
        else n.effective.guardrailChecks).all fun check =>
          passesCheck w n.effective layer text check) =
      ((if n.guardrailChecks.isEmpty then ["leak", "injection", "policy"]
        else n.guardrailChecks).all fun check => passesCheck w n layer text check) := by
    intro layer text
    simp only [hcheck]
    rw [heff]
    dsimp only
    cases hchecks : n.guardrailChecks with
    | nil => rfl
    | cons check checks =>
        have hcomp : ((fun check => passesCheck w n layer text check) ∘ Text.toAsciiLowercase) =
            fun check => passesCheck w n layer text check := by
          funext check
          rw [Function.comp_apply, hlower]
        rw [if_neg (by simp), if_neg (by simp), if_neg (by simp), List.all_map, hcomp]
  have hcont : n.effective.guardrailContinueOnError = n.guardrailContinueOnError := by
    simp only [heff]
  unfold visitGuardrails
  rw [htext, hcont]
  simp only [hall]

theorem visitMcp_effective (hkind : n.readKind = .mcp) :
    visitMcp w inputs d st cur n.effective = visitMcp w inputs d st cur n := by
  rw [FlowNode.effective, hkind]
  unfold visitMcp mcpArguments
  dsimp only
  rw [trim_unblank]

theorem visitFileSearch_effective (hkind : n.readKind = .fileSearch) :
    visitFileSearch inputs d st cur n.effective = visitFileSearch inputs d st cur n := by
  have htop : (if n.effective.vectorTopK = 0 then 10 else min n.effective.vectorTopK.toNat 100) =
      if n.vectorTopK = 0 then 10 else min n.vectorTopK.toNat 100 := by
    rw [FlowNode.effective, hkind]
    dsimp only
    split
    · rfl
    · rename_i hne
      have hmin : min 100 n.vectorTopK ≠ 0 := by
        intro hzero
        have hnat : min 100 n.vectorTopK.toNat = 0 := by rw [← toNat_min100, hzero]; rfl
        exact hne (UInt32.toNat_inj.1 (by rw [UInt32.toNat_zero]; omega))
      rw [if_neg hmin, toNat_min100]
      omega
  unfold visitFileSearch
  rw [htop, FlowNode.effective, hkind]
  dsimp only
  rw [trim_unblank]

theorem visitSetState_effective (hnull : w.parseJson "null" = .ok .null)
    (hkind : n.readKind = .setState) :
    visitSetState w inputs d st cur n.effective = visitSetState w inputs d st cur n := by
  have hempty : ∀ context, interpolateContext "" context = "" :=
    interpolateContext_of_no_brace (by decide)
  have hnullText : ∀ context, interpolateContext "null" context = "null" :=
    interpolateContext_of_no_brace (by decide)
  have hvalue : stateValue w inputs d st n.effective = stateValue w inputs d st n := by
    rw [FlowNode.effective, hkind]
    unfold stateValue
    dsimp only
    rw [trim_unblank, celJsonValue_unblank]
    split
    · rfl
    · split
      · rename_i hjson
        rw [hjson, hempty, hnullText, hnull, if_neg (by decide), if_pos (by decide)]
      · rfl
  have hkey : Text.trim n.effective.stateKey = Text.trim n.stateKey := by
    rw [FlowNode.effective, hkind]
    exact trim_unblank n.stateKey
  unfold visitSetState
  rw [hvalue, hkey, FlowNode.effective_id]

theorem visitTransform_effective (hkind : n.readKind = .transform) :
    visitTransform w inputs d st cur n.effective = visitTransform w inputs d st cur n := by
  rw [FlowNode.effective, hkind]
  unfold visitTransform transformed transformObject transformExpressions transformCopy transformRow
  dsimp only
  simp only [trim_unblank, toAsciiLowercase_idem]

theorem visitCrew_effective (hkind : n.readKind = .crew) :
    visitCrew inputs d st cur n.effective = visitCrew inputs d st cur n := by
  rw [FlowNode.effective, hkind]
  rfl

theorem agentConfig_effective (hkind : n.readKind = .agent) :
    agentConfig w n.effective = agentConfig w n := by
  rw [FlowNode.effective, hkind]
  unfold agentConfig
  dsimp only
  simp only [ite_unblank, jsonOnly_idem, Option.getD_some]

theorem visitAgent_effective (hkind : n.readKind = .agent) :
    visitAgent w spec inputs d st cur n.effective = visitAgent w spec inputs d st cur n := by
  have hconfig : agentConfig w n.effective = agentConfig w n := agentConfig_effective hkind
  have hsession : (if !n.effective.includeChatHistory then none
      else if Text.trim n.effective.agentSessionKey = "" then some s!"flow_agent_{n.effective.id}"
      else some n.effective.agentSessionKey) =
      if !n.includeChatHistory then none
      else if Text.trim n.agentSessionKey = "" then some s!"flow_agent_{n.id}"
      else some n.agentSessionKey := by
    rw [FlowNode.effective, hkind]
    dsimp only
    cases n.includeChatHistory with
    | false => rfl
    | true =>
        simp only [Bool.not_true, Bool.false_eq_true, if_false, if_true]
        exact ite_unblank_map n.agentSessionKey (some s!"flow_agent_{n.id}") some
  have hprompt : n.effective.prompt = n.prompt := by simp only [FlowNode.effective, hkind]
  unfold visitAgent
  rw [hconfig, hsession, hprompt]

theorem visitClassify_effective (hkind : n.readKind = .classify) :
    visitClassify w inputs d st cur n.effective = visitClassify w inputs d st cur n := by
  have hmax : max (max (n.maxTokens.getD 128) 16) 16 = max (n.maxTokens.getD 128) 16 :=
    max16 _
  have hbody : classifyBody inputs st n.effective = classifyBody inputs st n := by
    rw [FlowNode.effective, hkind]
    unfold classifyBody
    dsimp only
    rw [ite_unblank_map n.classifyInputTemplate (inputAsText inputs) fun template =>
      interpolateContext template (buildTemplateContext inputs st.outputs)]
    simp only [trim_unblank, jsonOnly_idem]
  unfold visitClassify
  rw [hbody, FlowNode.effective, hkind]
  dsimp only
  simp only [ite_unblank, Option.getD_some, hmax]

theorem visitLlm_effective (hkind : n.readKind = .llm) :
    visitLlm w spec inputs d st cur n.effective = visitLlm w spec inputs d st cur n := by
  rw [FlowNode.effective, hkind]
  unfold visitLlm
  dsimp only
  simp only [ite_unblank, jsonOnly_idem, Option.getD_some]

theorem visitApproval_effective (hkind : n.readKind = .approval) :
    visitApproval inputs st cur n.effective = visitApproval inputs st cur n := by
  rw [FlowNode.effective, hkind]
  rfl

/-- **A node does what its effective fields do.** -/
theorem visit_effective (hnull : w.parseJson "null" = .ok .null) :
    visit w spec inputs d st cur n.effective = visit w spec inputs d st cur n := by
  unfold visit
  rw [FlowNode.readKind_effective]
  cases hkind : n.readKind with
  | note => rfl
  | start => rfl
  | finish => rfl
  | approval => exact visitApproval_effective hkind
  | ifElse => exact visitIf_effective hkind
  | «while» => exact visitWhile_effective hkind
  | guardrails => exact visitGuardrails_effective hkind
  | mcp => exact visitMcp_effective hkind
  | fileSearch => exact visitFileSearch_effective hkind
  | setState => exact visitSetState_effective hnull hkind
  | transform => exact visitTransform_effective hkind
  | crew => exact visitCrew_effective hkind
  | agent => exact visitAgent_effective hkind
  | classify => exact visitClassify_effective hkind
  | llm => exact visitLlm_effective hkind
  | unknown kind => exact congrArg (fun id => Except.error (FlowError.unknownKind id kind)) n.effective_id

theorem follow_effective (outs : List Outgoing) (branch : Option String) :
    FlowRun.follow n.effective outs branch = FlowRun.follow n outs branch := by
  unfold FlowRun.follow pickNext
  rw [FlowNode.readKind_effective, FlowNode.effective_id]

end Nodes

end PeerClaw
