import PeerClaw.Flow.Interpreter
import PeerClaw.Flow.Order

/-!
# Structural errors of a run

The validator and the interpreter decide by two sets of rules which edges a node
may have.  A run of a flow that the validator takes never fails for the graph —
a missing node, a missing branch, edges to choose from, a kind that nobody
knows — as long as the cursor stays away from two kinds of node, which the
validator lets through.

* `structurally_sound_iff` — a run has no structural error exactly when every node it
  comes to is of a known kind, and no note it comes to has edges to choose from.
* `ambiguous_note` — a flow that is taken and fails at a note.
-/

namespace PeerClaw

open Lib Lib.Check Lib.Machine

/-- The error is about the graph. -/
def FlowError.Structural : FlowError → Prop
  | .missingNode _ | .noBranch .. | .missingEdge .. | .ambiguous .. | .unknownKind .. => True
  | .noStart | .maxSteps | .failed _ => False

/-- A node could not do what it does. -/
def FlowError.IsFailed (e : FlowError) : Prop := ∃ message, e = .failed message

theorem FlowError.IsFailed.not_structural {e : FlowError} (h : e.IsFailed) : ¬ e.Structural := by
  obtain ⟨message, rfl⟩ := h
  exact id

/-- A kind that the interpreter knows. -/
def NodeKind.Known : NodeKind → Prop
  | .unknown _ => False
  | _ => True

instance : DecidablePred NodeKind.Known := fun kind => by
  cases kind <;> unfold NodeKind.Known <;> infer_instance

/-! ## What a turn does -/

/-- The branches that a node of a kind takes. -/
def NodeKind.branches : NodeKind → List String
  | .ifElse => ["true", "false"]
  | .while => ["loop", "exit"]
  | .guardrails => ["pass", "fail"]
  | .approval => ["approve", "reject"]
  | _ => []

section Turns

/-- What is known of a turn at a node: only a while node changes its counter, and a branch
node takes one of its branches. -/
structure Leaves (kind : NodeKind) (st : FlowState) (turn : FlowState × Option String) : Prop where
  error : turn.1.error = st.error
  guard : turn.1.stepsGuard = st.stepsGuard
  counts : kind ≠ .while → turn.1.whileIter = st.whileIter
  branch : kind.branches ≠ [] → ∃ b ∈ kind.branches, turn.2 = some b

variable {χ : Type} {w : FlowWorld} {spec : FlowSpec χ} {inputs : Value} {d : FlowDraw χ}
  {st : FlowState} {cur : String} {n : FlowNode χ} {α : Type}

/-- An action that fails only with a message. -/
abbrev Mild (x : Except FlowError α) : Prop := Sat (fun _ => True) FlowError.IsFailed x

theorem mild_require (p : Prop) [Decidable p] (message : String) : Mild (require p message) :=
  Sat.ite (fun _ => .ok trivial) fun _ => .error ⟨message, rfl⟩

theorem mild_orFail (x : Option α) (message : String) : Mild (orFail x message) := by
  cases x with
  | some a => exact .ok trivial
  | none => exact .error ⟨message, rfl⟩

theorem mild_orFailWith (x : Except String α) (message : String → String) :
    Mild (orFailWith x message) :=
  Sat.mapError fun e => ⟨message e, rfl⟩

theorem mild_celBool (expr : String) (act : Activation) : Mild (celBool d expr act) := by
  unfold celBool
  refine Sat.ite (fun _ => .ok trivial) fun _ => ?_
  cases d.celExecute (Text.trim expr) act with
  | error message => exact .error ⟨message, rfl⟩
  | ok v =>
      cases v with
      | other debug => exact .error ⟨_, rfl⟩
      | _ => exact .ok trivial

theorem mild_celJsonValue (expr : String) (act : Activation) : Mild (celJsonValue d expr act) :=
  Sat.ite (fun _ => .error ⟨_, rfl⟩) fun _ => mild_orFailWith _ _

theorem mild_inferText (task : InferenceTask) : Mild (inferText d task) := by
  unfold inferText
  cases d.execute task with
  | error message => exact .error ⟨message, rfl⟩
  | ok data =>
      cases data with
      | inference text tokens => exact .ok trivial
      | error message => exact .error ⟨message, rfl⟩
      | other => exact .error ⟨_, rfl⟩

theorem mild_stateValue : Mild (stateValue w inputs d st n) := by
  unfold stateValue
  refine Sat.ite (fun _ => mild_celJsonValue _ _) fun _ =>
    Sat.ite (fun _ => .ok trivial) fun _ => ?_
  split
  · exact .ok trivial
  · exact .ok trivial

theorem mild_mcpArguments : Mild (mcpArguments w inputs st n) :=
  Sat.ite (fun _ => .ok trivial) fun _ => mild_orFailWith _ _

theorem mild_guardrailText : Mild (guardrailText inputs st n) :=
  Sat.ite (fun _ => .ok trivial) fun _ =>
    Sat.ite (fun _ => .error ⟨_, rfl⟩) fun _ => .ok trivial

theorem mild_transformRow (act : Activation) (row : Value) : Mild (transformRow d n act row) := by
  unfold transformRow
  refine (mild_orFail ..).bind fun key _ => (mild_orFail ..).bind fun cel _ => ?_
  exact (mild_celJsonValue ..).bind fun v _ => .pure trivial

theorem mild_transformObject : Mild (transformObject w inputs st n) := by
  unfold transformObject
  exact (mild_orFailWith ..).bind fun _ _ => (mild_orFail ..).bind fun _ _ => .pure trivial

theorem mild_transformExpressions : Mild (transformExpressions w inputs d st n) := by
  unfold transformExpressions
  refine (mild_orFailWith ..).bind fun _ _ => (mild_require ..).bind fun _ _ => ?_
  exact (Sat.mapM fun row _ => mild_transformRow _ row).bind fun _ _ => .pure trivial

theorem mild_transformed : Mild (transformed w inputs d st n) := by
  unfold transformed
  refine Sat.ite (fun _ => mild_transformObject) fun _ =>
    Sat.ite (fun _ => mild_transformExpressions) fun _ => ?_
  unfold transformCopy
  exact (mild_require ..).bind fun _ _ => .pure trivial

theorem mild_whileMove : Mild (whileMove inputs d st cur n) := by
  unfold whileMove
  exact Sat.ite (fun _ => .ok trivial) fun _ => (mild_celBool ..).bind fun _ _ => .pure trivial

theorem mem_either {bs : List String} {p : Prop} [Decidable p] {a b : String} (ha : a ∈ bs)
    (hb : b ∈ bs) : ∃ branch ∈ bs, some (if p then a else b) = some branch := by
  by_cases hp : p
  · exact ⟨a, ha, by rw [if_pos hp]⟩
  · exact ⟨b, hb, by rw [if_neg hp]⟩

theorem leaves_plain {kind : NodeKind} {st' : FlowState} (hnone : kind.branches = [])
    (herror : st'.error = st.error) (hguard : st'.stepsGuard = st.stepsGuard)
    (hcounts : st'.whileIter = st.whileIter) :
    Sat (Leaves kind st) FlowError.IsFailed (pure (st', none)) :=
  .ok ⟨herror, hguard, fun _ => hcounts, fun h => absurd hnone h⟩

theorem visitApproval_leaves : Sat (Leaves .approval st) FlowError.IsFailed
    (visitApproval inputs st cur n) := by
  unfold visitApproval
  exact .ok ⟨rfl, rfl, fun _ => rfl, fun _ => mem_either (by decide) (by decide)⟩

theorem visitIf_leaves : Sat (Leaves .ifElse st) FlowError.IsFailed
    (visitIf inputs d st cur n) := by
  unfold visitIf
  exact (mild_celBool ..).bind fun cond _ =>
    .pure ⟨rfl, rfl, fun _ => rfl, fun _ => mem_either (by decide) (by decide)⟩

theorem visitGuardrails_leaves : Sat (Leaves .guardrails st) FlowError.IsFailed
    (visitGuardrails w inputs st cur n) := by
  unfold visitGuardrails
  exact mild_guardrailText.bind fun text _ =>
    .pure ⟨rfl, rfl, fun _ => rfl, fun _ => mem_either (by decide) (by decide)⟩

theorem visitMcp_leaves : Sat (Leaves .mcp st) FlowError.IsFailed
    (visitMcp w inputs d st cur n) := by
  unfold visitMcp
  refine (mild_require ..).bind fun _ _ => mild_mcpArguments.bind fun args _ => ?_
  refine (mild_require ..).bind fun _ _ => (mild_orFailWith ..).bind fun result _ => ?_
  exact leaves_plain rfl rfl rfl rfl

theorem visitFileSearch_leaves : Sat (Leaves .fileSearch st) FlowError.IsFailed
    (visitFileSearch inputs d st cur n) := by
  unfold visitFileSearch
  refine (mild_require ..).bind fun _ _ => (mild_require ..).bind fun _ _ => ?_
  exact (mild_orFailWith ..).bind fun results _ => leaves_plain rfl rfl rfl rfl

theorem visitSetState_leaves : Sat (Leaves .setState st) FlowError.IsFailed
    (visitSetState w inputs d st cur n) := by
  unfold visitSetState
  refine (mild_require ..).bind fun _ _ => mild_stateValue.bind fun v _ => ?_
  exact leaves_plain rfl rfl rfl rfl

theorem visitTransform_leaves : Sat (Leaves .transform st) FlowError.IsFailed
    (visitTransform w inputs d st cur n) := by
  unfold visitTransform
  exact mild_transformed.bind fun result _ => leaves_plain rfl rfl rfl rfl

theorem visitCrew_leaves : Sat (Leaves .crew st) FlowError.IsFailed
    (visitCrew inputs d st cur n) := by
  unfold visitCrew
  refine (mild_orFail ..).bind fun crew _ => (mild_orFailWith ..).bind fun v _ => ?_
  exact leaves_plain rfl rfl rfl rfl

theorem visitClassify_leaves : Sat (Leaves .classify st) FlowError.IsFailed
    (visitClassify w inputs d st cur n) := by
  unfold visitClassify
  refine (mild_require ..).bind fun _ _ => (mild_inferText ..).bind fun text _ => ?_
  exact leaves_plain rfl rfl rfl rfl

theorem visitLlm_leaves : Sat (Leaves .llm st) FlowError.IsFailed
    (visitLlm w spec inputs d st cur n) := by
  unfold visitLlm
  exact (mild_inferText ..).bind fun text _ => leaves_plain rfl rfl rfl rfl

theorem goOn_leaves (move : WhileMove) : Leaves .while st (goOn st cur move) := by
  refine ⟨?_, ?_, fun h => absurd rfl h, fun _ => ?_⟩
  · cases move <;> rfl
  · cases move <;> rfl
  · cases move with
    | exhausted => exact ⟨"exit", by decide, rfl⟩
    | exit iteration => exact ⟨"exit", by decide, rfl⟩
    | loop iteration => exact ⟨"loop", by decide, rfl⟩

/-- **What a turn does**, at a node of a known kind: it fails with a message, or it leaves
everything but the outputs, the variables and its own counter, and takes a branch of the
node. -/
theorem visit_leaves (hknown : n.readKind.Known) :
    Sat (Leaves n.readKind st) FlowError.IsFailed (visit w spec inputs d st cur n) := by
  unfold visit
  cases hkind : n.readKind with
  | note => exact leaves_plain rfl rfl rfl rfl
  | start => exact leaves_plain rfl rfl rfl rfl
  | finish => exact leaves_plain rfl rfl rfl rfl
  | approval => exact visitApproval_leaves
  | ifElse => exact visitIf_leaves
  | «while» => exact mild_whileMove.bind fun move _ => .pure (goOn_leaves move)
  | guardrails => exact visitGuardrails_leaves
  | mcp => exact visitMcp_leaves
  | fileSearch => exact visitFileSearch_leaves
  | setState => exact visitSetState_leaves
  | transform => exact visitTransform_leaves
  | crew => exact visitCrew_leaves
  | agent => exact leaves_plain rfl rfl rfl rfl
  | classify => exact visitClassify_leaves
  | llm => exact visitLlm_leaves
  | unknown kind =>
      rw [hkind] at hknown
      exact hknown.elim

end Turns

/-! ## The edges that are checked and the edges that are taken -/

/-- There are edges to choose from, and neither one without a label nor one default among
them. -/
def Ambiguous (outs : List Outgoing) : Prop :=
  1 < outs.length ∧ (unlabeled outs).length ≠ 1 ∧ (labeled "default" outs).length ≠ 1

instance : DecidablePred Ambiguous := fun _ => inferInstanceAs (Decidable (_ ∧ _ ∧ _))

section Edges

variable {χ : Type} {n : FlowNode χ} {id : String} {outs : List Outgoing}

theorem pickOnly_ambiguous (h : Ambiguous outs) :
    pickOnly id outs = .error (.ambiguous id outs.length) := by
  obtain ⟨hlen, hunlabeled, hdefault⟩ := h
  unfold pickOnly
  split
  · simp at hlen
  · simp at hlen
  · split
    · next hone => rw [hone] at hunlabeled; exact absurd rfl hunlabeled
    · next hone _ => rw [‹labeled "default" _ = _›] at hdefault; exact absurd rfl hdefault
    · rfl

/-- **Where there is nothing to choose**, an edge is taken, or there is none. -/
theorem pickOnly_ok (h : ¬ Ambiguous outs) : ∃ next, pickOnly id outs = .ok next := by
  unfold pickOnly
  split
  · exact ⟨_, rfl⟩
  · exact ⟨_, rfl⟩
  · next hnil hone =>
      have hlen : 1 < outs.length := by
        rcases outs with _ | ⟨a, _ | ⟨b, rest⟩⟩
        · exact absurd rfl hnil
        · exact absurd rfl (hone a)
        · simp
      split
      · exact ⟨_, rfl⟩
      · exact ⟨_, rfl⟩
      · next hunlabeled hdefault =>
          refine absurd ⟨hlen, ?_, ?_⟩ h
          · intro hlone
            obtain ⟨out, hout⟩ := List.length_eq_one_iff.1 hlone
            exact hunlabeled out hout
          · intro hlone
            obtain ⟨out, hout⟩ := List.length_eq_one_iff.1 hlone
            exact hdefault out hout

theorem lowercase_branch {kind : NodeKind} {b : String} (hb : b ∈ kind.branches) :
    Text.toAsciiLowercase b = b := by
  cases kind <;> simp only [NodeKind.branches, List.mem_cons, List.not_mem_nil, or_false] at hb
  all_goals rcases hb with rfl | rfl <;> decide

theorem labeled_ne_nil {want : String} :
    (outs.any fun out => normalizeLabel out.2 = some want) = true ↔ labeled want outs ≠ [] := by
  simp [labeled]

/-- A node that has been checked has an edge for each of its branches. -/
theorem labeled_of_check (h : checkOutgoing n outs = .ok ()) {b : String}
    (hb : b ∈ n.readKind.branches) : labeled b outs ≠ [] := by
  have htwo : ∀ {p q : String} {e : String},
      (if (!(outs.any fun out => normalizeLabel out.2 = some p) ||
        !(outs.any fun out => normalizeLabel out.2 = some q)) = true then
          (.error e : Except String Unit) else .ok ()) = .ok () →
      b ∈ [p, q] → labeled b outs ≠ [] := by
    intro p q e hok hmem
    split at hok
    · cases hok
    · next hboth =>
        rw [Bool.or_eq_true, not_or] at hboth
        rw [← labeled_ne_nil]
        rcases List.mem_cons.1 hmem with rfl | hmem
        · simpa using hboth.1
        · rw [List.mem_singleton.1 hmem]
          simpa using hboth.2
  unfold checkOutgoing at h
  cases hkind : n.readKind <;> rw [hkind] at h hb
  case ifElse => exact htwo h hb
  case «while» => exact htwo h hb
  case guardrails => exact htwo h hb
  case approval => exact htwo h hb
  all_goals cases hb

/-- A node without branches that has been checked has nothing to choose. -/
theorem not_ambiguous_of_check (h : checkOutgoing n outs = .ok ()) (hnone : n.readKind.branches = [])
    (hnote : n.readKind ≠ .note) : ¬ Ambiguous outs := by
  rintro ⟨hlen, hunlabeled, hdefault⟩
  unfold checkOutgoing at h
  cases hkind : n.readKind <;> rw [hkind] at h hnone hnote
  case note => exact hnote rfl
  case finish =>
    cases outs with
    | nil => simp at hlen
    | cons out outs => cases h
  case ifElse => cases hnone
  case «while» => cases hnone
  case guardrails => cases hnone
  case approval => cases hnone
  all_goals
    dsimp only at h
    rw [if_pos ⟨hlen, hdefault, hunlabeled⟩] at h
    cases h

theorem pickNext_branch {b : String} {out : Outgoing} {rest : List Outgoing}
    (hb : b ∈ n.readKind.branches) (hfirst : labeled b outs = out :: rest) :
    pickNext n outs (some b) = .ok (some out.1) := by
  have hpick : ∀ what, pickLabeled n.id what outs (some b) = .ok (some out.1) := by
    intro what
    simp only [pickLabeled, lowercase_branch hb, hfirst]
  unfold pickNext
  cases hkind : n.readKind <;> rw [hkind] at hb
  case ifElse => exact hpick _
  case «while» => exact hpick _
  case guardrails => exact hpick _
  case approval => exact hpick _
  all_goals cases hb

theorem pickNext_plain {branch : Option String} (hnone : n.readKind.branches = []) :
    pickNext n outs branch = pickOnly n.id outs := by
  unfold pickNext
  cases hkind : n.readKind <;> rw [hkind] at hnone
  case ifElse => cases hnone
  case «while» => cases hnone
  case guardrails => cases hnone
  case approval => cases hnone

theorem normalizeLabel_of_unlabeled {out : Outgoing} (h : out ∈ unlabeled outs) :
    normalizeLabel out.2 = none := by
  obtain ⟨-, hout⟩ := List.mem_filter.1 h
  cases hlabel : out.2 with
  | none => rfl
  | some s =>
      rw [hlabel] at hout
      have htrim : Text.trim s = "" := of_decide_eq_true hout
      simp only [normalizeLabel, Option.map_some, htrim]
      rfl

/-- Why an edge is the one to take. -/
def Chosen (n : FlowNode χ) (outs : List Outgoing) (branch label : Option String) : Prop :=
  (n.readKind.branches ≠ [] → ∃ b, branch = some b ∧
    normalizeLabel label = some (Text.toAsciiLowercase b)) ∧
  (n.readKind.branches = [] →
    outs.length = 1 ∨ normalizeLabel label = none ∨ normalizeLabel label = some "default")

theorem pickLabeled_mem {what next : String} {branch : Option String}
    (h : pickLabeled id what outs branch = .ok (some next)) :
    ∃ b label, branch = some b ∧ (next, label) ∈ outs ∧
      normalizeLabel label = some (Text.toAsciiLowercase b) := by
  cases branch with
  | none => cases h
  | some b =>
      simp only [pickLabeled] at h
      cases hfirst : labeled (Text.toAsciiLowercase b) outs with
      | nil =>
          rw [hfirst] at h
          cases h
      | cons out rest =>
          rw [hfirst] at h
          have hout : out ∈ labeled (Text.toAsciiLowercase b) outs := by
            rw [hfirst]
            exact List.mem_cons_self ..
          obtain ⟨hmem, hlabel⟩ := List.mem_filter.1 hout
          obtain ⟨target, label⟩ := out
          cases h
          exact ⟨b, label, rfl, hmem, of_decide_eq_true hlabel⟩

theorem pickOnly_mem {next : String} (h : pickOnly id outs = .ok (some next)) :
    ∃ label, (next, label) ∈ outs ∧
      (outs.length = 1 ∨ normalizeLabel label = none ∨ normalizeLabel label = some "default") := by
  unfold pickOnly at h
  split at h
  · cases h
  · cases h
    exact ⟨_, List.mem_singleton.2 rfl, .inl rfl⟩
  · split at h
    · next out hone =>
        have hout : out ∈ unlabeled outs := by
          rw [hone]
          exact List.mem_singleton.2 rfl
        have hnone := normalizeLabel_of_unlabeled hout
        cases h
        exact ⟨out.2, (List.mem_filter.1 hout).1, .inr (.inl hnone)⟩
    · next out hone _ =>
        have hout : out ∈ labeled "default" outs := by
          rw [hone]
          exact List.mem_singleton.2 rfl
        obtain ⟨hmem, hlabel⟩ := List.mem_filter.1 hout
        cases h
        exact ⟨out.2, hmem, .inr (.inr (of_decide_eq_true hlabel))⟩
    · cases h

/-- **The edge that is taken** is one of the node's, and there is a reason for it. -/
theorem pickNext_mem {next : String} {branch : Option String}
    (h : pickNext n outs branch = .ok (some next)) :
    ∃ label, (next, label) ∈ outs ∧ Chosen n outs branch label := by
  by_cases hnone : n.readKind.branches = []
  · rw [pickNext_plain hnone] at h
    obtain ⟨label, hmem, hwhy⟩ := pickOnly_mem h
    exact ⟨label, hmem, fun hb => absurd hnone hb, fun _ => hwhy⟩
  · have hlabeled : ∃ what, pickNext n outs branch = pickLabeled n.id what outs branch := by
      unfold pickNext
      cases hkind : n.readKind <;> rw [hkind] at hnone
      case ifElse => exact ⟨_, rfl⟩
      case «while» => exact ⟨_, rfl⟩
      case guardrails => exact ⟨_, rfl⟩
      case approval => exact ⟨_, rfl⟩
      all_goals exact absurd rfl hnone
    obtain ⟨what, hpick⟩ := hlabeled
    rw [hpick] at h
    obtain ⟨b, label, hbranch, hmem, hlabel⟩ := pickLabeled_mem h
    exact ⟨label, hmem, fun _ => ⟨b, hbranch, hlabel⟩, fun hb => absurd hb hnone⟩

end Edges

/-! ## Runs -/

namespace FlowRun

variable {χ : Type}

/-- A node that the interpreter knows how to pass. -/
def Passable (spec : FlowSpec χ) (n : FlowNode χ) : Prop :=
  n.readKind.Known ∧ (n.readKind = .note → ¬ Ambiguous (spec.outgoing n.id))

instance (spec : FlowSpec χ) : DecidablePred (Passable spec) := fun n =>
  inferInstanceAs (Decidable (n.readKind.Known ∧ (_ → _)))

/-- The turn would be the one too many. -/
def Capped (cap : Option ℕ) (st : FlowState) : Prop := ∃ c, cap = some c ∧ c < st.stepsGuard + 1

/-- The node under the cursor can be passed, unless the turn is one too many. -/
def Clear (cap : Option ℕ) (spec : FlowSpec χ) (st : FlowState) : Prop :=
  ∀ cur n, st.cursor = some cur → spec.node? cur = some n → ¬ Capped cap st → Passable spec n

/-- The run has not failed for the graph. -/
def Sound (st : FlowState) : Prop := ∀ e, st.error = some e → ¬ e.Structural

/-- The cursor is at a node of the flow. -/
def OnGraph (spec : FlowSpec χ) (st : FlowState) : Prop := ∀ cur, st.cursor = some cur → cur ∈ spec.ids

variable {w : FlowWorld} {spec : FlowSpec χ} {inputs : Value} {d : FlowDraw χ} {st : FlowState}
  {cap : Option ℕ} {cur : String} {n : FlowNode χ}

theorem step_ended (h : st.cursor = none) : step cap w spec inputs st d = st := by
  unfold step
  rw [h]

theorem any_of_capped (hcap : Capped cap st) :
    (cap.any fun c => decide (c < st.stepsGuard + 1)) = true := by
  obtain ⟨c, rfl, hlt⟩ := hcap
  exact decide_eq_true hlt

theorem any_of_not_capped (hcap : ¬ Capped cap st) :
    (cap.any fun c => decide (c < st.stepsGuard + 1)) = false := by
  cases cap with
  | none => rfl
  | some c => exact decide_eq_false fun hlt => hcap ⟨c, rfl, hlt⟩

theorem step_capped (h : st.cursor = some cur) (hcap : Capped cap st) :
    step cap w spec inputs st d =
      { st with stepsGuard := st.stepsGuard + 1, cursor := none, error := some .maxSteps } := by
  unfold step
  rw [h]
  exact if_pos (any_of_capped hcap)

/-- The state in which a turn begins. -/
def taken (st : FlowState) : FlowState :=
  { st with stepsGuard := st.stepsGuard + 1, cursor := none }

theorem step_body (h : st.cursor = some cur) (hcap : ¬ Capped cap st) :
    step cap w spec inputs st d = match body w spec inputs d (taken st) cur with
      | .ok st' => st'
      | .error e => { taken st with error := some e } := by
  simp only [step, h, taken, any_of_not_capped hcap]
  rfl

theorem node?_id (h : spec.node? cur = some n) : n.id = cur := by
  simpa using List.find?_some h

theorem node?_mem (h : spec.node? cur = some n) : n ∈ spec.nodes := List.mem_of_find?_eq_some h

theorem onGraph_follow {branch : Option String} {next : Option String}
    (hvalid : spec.validate = .ok ()) (h : follow n (spec.outgoing cur) branch = .ok next) :
    ∀ id, next = some id → id ∈ spec.ids := by
  rintro id rfl
  unfold follow at h
  split at h
  · cases h
  · obtain ⟨label, hmem, -⟩ := pickNext_mem h
    exact (FlowSpec.mem_ids_of_validate hvalid (FlowSpec.mem_edges_of_outgoing hmem)).2

/-- From a node that can be passed there is an edge to follow, or none. -/
theorem follow_ok {turn : FlowState × Option String} (hinterp : validateInterpreter spec = .ok ())
    (hnode : spec.node? cur = some n) (hpass : Passable spec n) (hturn : Leaves n.readKind st turn) :
    ∃ next, follow n (spec.outgoing cur) turn.2 = .ok next := by
  obtain rfl := node?_id hnode
  have hcheck := fun hnote => validateInterpreter_ok hinterp (node?_mem hnode) hnote
  by_cases hfinish : n.readKind = .finish
  · exact ⟨none, by rw [follow, if_pos hfinish]⟩
  rw [follow, if_neg hfinish]
  by_cases hnone : n.readKind.branches = []
  · rw [pickNext_plain hnone]
    refine pickOnly_ok ?_
    by_cases hnote : n.readKind = .note
    · exact hpass.2 hnote
    · exact not_ambiguous_of_check (hcheck hnote) hnone hnote
  · have hnote : n.readKind ≠ .note := by
      intro hnote
      rw [hnote] at hnone
      exact hnone rfl
    obtain ⟨b, hb, hbranch⟩ := hturn.branch hnone
    obtain ⟨out, rest, hfirst⟩ := List.exists_cons_of_ne_nil (labeled_of_check (hcheck hnote) hb)
    exact ⟨some out.1, by rw [hbranch, pickNext_branch hb hfirst]⟩

section Valid

variable (hvalid : spec.validate = .ok ()) (hinterp : validateInterpreter spec = .ok ())

include hvalid hinterp in
/-- **A turn at a node that can be passed** fails with a message, or moves on along the
graph. -/
theorem body_passable (hnode : spec.node? cur = some n) (hpass : Passable spec n) :
    Sat (fun st' => st'.error = st.error ∧ OnGraph spec st') FlowError.IsFailed
      (body w spec inputs d st cur) := by
  unfold body
  rw [hnode]
  refine (visit_leaves hpass.1).bind fun turn hturn => ?_
  obtain ⟨next, hnext⟩ := follow_ok hinterp hnode hpass hturn
  obtain ⟨st', branch⟩ := turn
  dsimp only at hnext ⊢
  rw [hnext]
  exact .ok ⟨hturn.error, onGraph_follow hvalid hnext⟩

theorem body_impassable (hnode : spec.node? cur = some n) (hpass : ¬ Passable spec n) :
    ∃ e, body w spec inputs d st cur = .error e ∧ e.Structural := by
  obtain rfl := node?_id hnode
  unfold body
  rw [hnode]
  by_cases hknown : n.readKind.Known
  · have hnote : n.readKind = .note ∧ Ambiguous (spec.outgoing n.id) := by
      by_contra hnot
      refine hpass ⟨hknown, fun hnote hambiguous => hnot ⟨hnote, hambiguous⟩⟩
    have hvisit : visit w spec inputs d st n.id n = .ok (st, none) := by
      unfold visit
      rw [hnote.1]
    have hfollow : follow n (spec.outgoing n.id) none =
        .error (.ambiguous n.id (spec.outgoing n.id).length) := by
      rw [follow, if_neg (by rw [hnote.1]; decide), pickNext_plain (by rw [hnote.1]; rfl),
        pickOnly_ambiguous hnote.2]
    refine ⟨.ambiguous n.id (spec.outgoing n.id).length, ?_, trivial⟩
    dsimp only
    rw [hvisit]
    simp only [bind, Except.bind, hfollow]
  · obtain ⟨kind, hkind⟩ : ∃ kind, n.readKind = .unknown kind := by
      cases hkind : n.readKind with
      | unknown kind => exact ⟨kind, rfl⟩
      | _ =>
          rw [hkind] at hknown
          exact absurd trivial hknown
    refine ⟨.unknownKind n.id kind, ?_, trivial⟩
    have hvisit : visit w spec inputs d st n.id n = .error (.unknownKind n.id kind) := by
      unfold visit
      rw [hkind]
    dsimp only
    rw [hvisit]
    rfl

/-- What holds along a run that has not failed for the graph. -/
structure Inv (spec : FlowSpec χ) (st : FlowState) : Prop where
  sound : Sound st
  onGraph : OnGraph spec st

include hvalid hinterp in
theorem step_sound_iff (h : Inv spec st) :
    (Sound (step cap w spec inputs st d) ↔ Clear cap spec st) ∧
      (Sound (step cap w spec inputs st d) → Inv spec (step cap w spec inputs st d)) := by
  cases hcursor : st.cursor with
  | none =>
      rw [step_ended hcursor]
      refine ⟨⟨fun _ cur n hcur => ?_, fun _ => h.sound⟩, fun _ => h⟩
      rw [hcursor] at hcur
      cases hcur
  | some cur =>
      by_cases hcap : Capped cap st
      · rw [step_capped hcursor hcap]
        have hsound : ∀ e, some FlowError.maxSteps = some e → ¬ e.Structural := by
          rintro e ⟨⟩
          exact id
        refine ⟨⟨fun _ _ _ _ _ hnot => absurd hcap hnot, fun _ => hsound⟩, fun _ => ⟨hsound, ?_⟩⟩
        intro cur' hcur
        cases hcur
      · obtain ⟨n, hn, hnode, -⟩ := FlowSpec.node?_of_mem (h.onGraph cur hcursor)
        have hclear : Clear cap spec st ↔ Passable spec n := by
          constructor
          · intro hclear
            exact hclear cur n hcursor hnode hcap
          · intro hpass cur' n' hcur hn' _
            obtain rfl := Option.some.inj (hcursor.symm.trans hcur)
            obtain rfl := Option.some.inj (hnode.symm.trans hn')
            exact hpass
        rw [hclear, step_body hcursor hcap]
        by_cases hpass : Passable spec n
        · have hbody : Sat _ FlowError.IsFailed (body w spec inputs d (taken st) cur) :=
            body_passable hvalid hinterp hnode hpass
          cases hresult : body w spec inputs d (taken st) cur with
          | ok st' =>
              rw [hresult] at hbody
              obtain ⟨herror, hgraph⟩ := hbody.of_ok
              have hsound : Sound st' := by
                intro e he
                exact h.sound e (by rw [← he, herror]; rfl)
              exact ⟨⟨fun _ => hpass, fun _ => hsound⟩, fun _ => ⟨hsound, hgraph⟩⟩
          | error e =>
              rw [hresult] at hbody
              have hsound : Sound { taken st with error := some e } := by
                rintro e' ⟨⟩
                exact hbody.of_error.not_structural
              refine ⟨⟨fun _ => hpass, fun _ => hsound⟩, fun _ => ⟨hsound, ?_⟩⟩
              intro cur' hcur
              cases hcur
        · obtain ⟨e, hresult, hstructural⟩ :
              ∃ e, body w spec inputs d (taken st) cur = .error e ∧ e.Structural :=
            body_impassable hnode hpass
          rw [hresult]
          have hunsound : ¬ Sound { taken st with error := some e } :=
            fun hsound => hsound e rfl hstructural
          exact ⟨⟨fun hsound => absurd hsound hunsound, fun h => absurd h hpass⟩,
            fun hsound => absurd hsound hunsound⟩

end Valid

theorem initial_of_start (hstart : spec.hasInterpreterStart) :
    ∃ n ∈ spec.nodes, n.readKind = .start ∧ (initial spec).cursor = some n.id ∧
      (initial spec).error = none := by
  obtain ⟨n, hn, hkind⟩ := List.any_eq_true.1 hstart
  cases hfind : spec.nodes.find? fun n => n.readKind = .start with
  | none => exact absurd hkind (by simpa using List.find?_eq_none.1 hfind n hn)
  | some m =>
      refine ⟨m, List.mem_of_find?_eq_some hfind, by simpa using List.find?_some hfind, ?_, ?_⟩
      · simp only [initial, hfind, Option.map_some]
      · simp only [initial, hfind, Option.isSome_some, if_true]

theorem inv_initial (hstart : spec.hasInterpreterStart) : Inv spec (initial spec) := by
  obtain ⟨n, hn, -, hcursor, herror⟩ := initial_of_start hstart
  refine ⟨fun e he => ?_, fun cur hcur => ?_⟩
  · rw [herror] at he
    cases he
  · obtain rfl := Option.some.inj (hcursor.symm.trans hcur)
    exact List.mem_map_of_mem hn

/-- **When a run does not fail for the graph**: exactly when every node it comes to has a
kind that is known, and is not a note with edges to choose from. -/
theorem structurally_sound_iff (w : FlowWorld) (inputs : Value) {order : List String}
    (hrun : spec.validateForRun order = .ok ()) (hstart : spec.hasInterpreterStart)
    (draws : List (FlowDraw χ)) :
    Always (step (some maxSteps) w spec inputs) Sound (initial spec) draws ↔
      Along (step (some maxSteps) w spec inputs) (fun st _ => Clear (some maxSteps) spec st)
        (initial spec) draws := by
  obtain ⟨hvalid, hinterp⟩ := FlowSpec.valid_of_run hrun hstart
  exact always_iff_along (R := fun _ _ => True) (fun st h => Inv.sound h)
    (fun st d h _ => (step_sound_iff hvalid hinterp h).1)
    (fun st d h _ => (step_sound_iff hvalid hinterp h).2) (inv_initial hstart) along_true

theorem clear_of_passable (hnodes : ∀ n ∈ spec.nodes, Passable spec n) : Clear cap spec st :=
  fun _ n _ hnode _ => hnodes n (node?_mem hnode)

/-- **A flow all of whose nodes can be passed** never fails for the graph. -/
theorem structurally_sound (w : FlowWorld) (inputs : Value) {order : List String}
    (hrun : spec.validateForRun order = .ok ()) (hstart : spec.hasInterpreterStart)
    (hnodes : ∀ n ∈ spec.nodes, Passable spec n) (draws : List (FlowDraw χ)) :
    Always (step (some maxSteps) w spec inputs) Sound (initial spec) draws := by
  obtain ⟨hvalid, hinterp⟩ := FlowSpec.valid_of_run hrun hstart
  have hall : ∀ (st : FlowState) (d : FlowDraw χ), Inv spec st → True →
      Inv spec (step (some maxSteps) w spec inputs st d) := by
    intro st d h _
    exact (step_sound_iff hvalid hinterp h).2
      ((step_sound_iff hvalid hinterp h).1.2 (clear_of_passable hnodes))
  intro pre post hsplit
  exact (always_of_inv hall (inv_initial hstart) along_true pre post hsplit).sound

section Example

/-- A world in which nothing can be asked. -/
def silentWorld : FlowWorld where
  defaultModel := "llama3.2:3b"
  parseJson := fun _ => .error "EOF while parsing a value"
  parseJsonArray := fun _ => .error "EOF while parsing a value"
  safety := none
  urlsAllowed := fun _ => true
  mcpConnected := false
  builtinNames := []

/-- Every question fails, but conditions hold. -/
def holdingDraw : FlowDraw Empty where
  celExecute := fun _ _ => .ok (.bool true)
  celJson := fun _ _ => .error "CEL exec"
  callTool := fun _ _ => .error "closed"
  searchText := fun _ _ _ => .error "closed"
  runCrew := fun crew _ => crew.elim
  runTask := fun _ _ _ => ⟨"", [], 0, 0, 0, false, none⟩
  execute := fun _ => .error "closed"

/-- A note between the start and two ends. -/
private def forked (kind : String) : FlowSpec Empty where
  nodes := [{ id := "s", kind := "start" }, { id := "n", kind := kind }, { id := "a", kind := "end" },
    { id := "b", kind := "end" }]
  edges := [⟨"s", "n", none⟩, ⟨"n", "a", some "left"⟩, ⟨"n", "b", some "right"⟩]

/-- An if between the start and two ends. -/
private def decided : FlowSpec Empty where
  nodes := [{ id := "s", kind := "start" }, { id := "n", kind := "IF" }, { id := "a", kind := "end" },
    { id := "b", kind := "end" }]
  edges := [⟨"s", "n", none⟩, ⟨"n", "a", some " True "⟩, ⟨"n", "b", some "false"⟩]

theorem structurally_sound_decided :
    Always (step (some maxSteps) silentWorld decided .null) Sound (initial decided)
      [holdingDraw, holdingDraw, holdingDraw] := by
  have hrun : decided.validateForRun [] = .ok () := by decide
  have hnodes : ∀ n ∈ decided.nodes, Passable decided n := by decide
  refine (structurally_sound_iff silentWorld .null hrun (by decide) _).2 ?_
  exact ⟨clear_of_passable hnodes, clear_of_passable hnodes, clear_of_passable hnodes, trivial⟩

theorem decided_sound : Always (step (some maxSteps) silentWorld decided .null) Sound
    (initial decided) (List.replicate 20 holdingDraw) := by
  have hrun : decided.validateForRun [] = .ok () := by decide
  exact structurally_sound silentWorld .null hrun (by decide) (by decide) _

/-- **A note with two labelled edges** is taken by the validator and stops the run. -/
theorem ambiguous_note :
    (forked "note").validateForRun [] = .ok () ∧ (forked "note").hasInterpreterStart ∧
      (run (step (some maxSteps) silentWorld (forked "note") .null) (initial (forked "note"))
        [holdingDraw, holdingDraw]).error = some (.ambiguous "n" 2) ∧
      ¬ Always (step (some maxSteps) silentWorld (forked "note") .null) Sound
        (initial (forked "note")) [holdingDraw, holdingDraw] := by
  have herror : (run (step (some maxSteps) silentWorld (forked "note") .null)
      (initial (forked "note")) [holdingDraw, holdingDraw]).error = some (.ambiguous "n" 2) := by
    decide
  refine ⟨by decide, by decide, herror, ?_⟩
  intro halways
  exact halways.last _ herror trivial

end Example

end FlowRun

end PeerClaw
