import PeerClaw.Flow.SavedNode
import PeerClaw.Flow.Order
import PeerClaw.Crew.Orchestrator

/-!
# Opening and saving a flow

A flow that is opened in the builder and saved again should do what it did.  It does if every
node that the interpreter can come to is saved as it is, and every label is read as it was.

* `builder_faithful_iff` — when a flow is the same after it was opened and saved.
* `builder_runs_eq` — then it runs in the same way.
* `crew_flow_changed` — a flow of a crew has no crew after it was saved.
-/

namespace PeerClaw

open Lib

section RoundTrips

variable {χ : Type} {js : JsCasing} {flowName : String} {spec : FlowSpecJson χ}

/-! ## Labels -/

/-- A label that reads the same after it was trimmed and put in lower case by the builder. -/
def LabelKept (js : JsCasing) (label : Option String) : Prop :=
  ∀ s, label = some s →
    Text.toAsciiLowercase (Text.trim (js.toLowerCase (jsTrim s))) =
      Text.toAsciiLowercase (Text.trim s)

theorem filter_ne_empty_inj {s t : String} :
    (some s).filter (fun s => s ≠ "") = (some t).filter (fun s => s ≠ "") ↔ s = t := by
  rw [Option.filter_some, Option.filter_some]
  by_cases hs : s = ""
  · by_cases ht : t = ""
    · simp [hs, ht]
    · simp [hs, ht, Ne.symm ht]
  · by_cases ht : t = "" <;> simp [hs, ht]

/-- The handle of an edge is its label, so that its data do not matter. -/
theorem edgeLabel_openEdge (e : FlowEdge) :
    edgeLabel js (openEdge e) =
      ((e.label.map jsTrim).filter fun s => s ≠ "").map js.toLowerCase := by
  unfold edgeLabel openEdge
  cases e.label with
  | none => rfl
  | some s =>
      have hempty : jsTrim "" = "" := by decide
      by_cases hs : s = ""
      · simp [Option.filter_some, hs, hempty]
      · by_cases htrim : jsTrim s = ""
        · simp [Option.filter_some, hs, htrim]
        · simp [Option.filter_some, hs, htrim]

theorem normalizeLabel_edgeLabel_iff (e : FlowEdge) :
    normalizeLabel (edgeLabel js (openEdge e)) = normalizeLabel e.label ↔ LabelKept js e.label := by
  rw [edgeLabel_openEdge]
  unfold LabelKept
  cases e.label with
  | none => simp
  | some s =>
      have hsaved : normalizeLabel ((((some s).map jsTrim).filter fun s => s ≠ "").map js.toLowerCase) =
          (some (Text.toAsciiLowercase (Text.trim (js.toLowerCase (jsTrim s))))).filter
            fun s => s ≠ "" := by
        by_cases htrim : jsTrim s = ""
        · have hempty : Text.toAsciiLowercase (Text.trim "") = "" := by decide
          simp [normalizeLabel, Option.filter_some, htrim, js.toLowerCase_empty, hempty]
        · simp [normalizeLabel, Option.filter_some, htrim]
      rw [hsaved]
      refine filter_ne_empty_inj.trans ?_
      simp

/-! ## Edges and nodes -/

/-- The ids of the nodes that are saved. -/
def savedIds (js : JsCasing) (spec : FlowSpecJson χ) : List String :=
  (spec.nodes.filterMap (saved js)).map FlowNodeJson.id

theorem roundTrip_nodes : (roundTrip js flowName spec).nodes = spec.nodes.filterMap (saved js) := by
  unfold roundTrip compileFlowSpec flowSpecToReactFlow
  exact List.filterMap_map

theorem roundTrip_edges : (roundTrip js flowName spec).edges =
    (spec.edges.filter fun e => e.source ∈ savedIds js spec && e.target ∈ savedIds js spec).map
      fun e => { e with label := edgeLabel js (openEdge e) } := by
  have hnodes := @roundTrip_nodes χ js flowName spec
  unfold roundTrip compileFlowSpec flowSpecToReactFlow at hnodes ⊢
  unfold savedIds
  dsimp only at hnodes ⊢
  rw [hnodes, List.filter_map, List.map_map]
  rfl

theorem roundTrip_edges_iff :
    (roundTrip js flowName spec).edges.map FlowEdge.effective = spec.edges.map FlowEdge.effective ↔
      ∀ e ∈ spec.edges, (e.source ∈ savedIds js spec ∧ e.target ∈ savedIds js spec) ∧
        LabelKept js e.label := by
  have hedge : ∀ e : FlowEdge, FlowEdge.effective { e with label := edgeLabel js (openEdge e) } =
      e.effective ↔ LabelKept js e.label := by
    intro e
    rw [← normalizeLabel_edgeLabel_iff]
    simp [FlowEdge.effective]
  rw [roundTrip_edges, ← List.filterMap_eq_filter, List.map_filterMap, List.map_filterMap,
    List.filterMap_eq_map_iff_forall_eq_some]
  refine forall_congr' fun e => imp_congr_right fun _ => ?_
  rw [← hedge]
  by_cases hends : e.source ∈ savedIds js spec ∧ e.target ∈ savedIds js spec
  · simp [Option.guard, hends]
  · rw [← Decidable.not_iff_not]
    simp [Option.guard, hends]

/-- A run can come to a node, or it is no note. -/
def FlowSpecJson.acts (spec : FlowSpecJson χ) (n : FlowNodeJson χ) : Bool :=
  n.toNode.readKind ≠ .note || spec.toSpec.touches n.id

theorem saved_effective_iff {n : FlowNodeJson χ} :
    (saved js n).map (fun m => m.toNode.effective) = some n.toNode.effective ↔ NodeKept js n := by
  by_cases hnote : n.kind.getD "" = "note"
  · have hnone : saved js n = none := by
      unfold saved compileOne openNode
      rw [kind_eq_some hnote (by decide)]
      rfl
    have hkept : NodeKept js n = False := by
      unfold NodeKept
      rw [hnote]
      rfl
    rw [hnone, hkept]
    simp
  · obtain ⟨m, hm, -, -, hiff⟩ := @savesAs_nodeKept χ js n hnote
    rw [hm, ← hiff]
    simp

/-- A node that is saved is a note or touched by an edge if it was before. -/
theorem acts_saved {n m : FlowNodeJson χ} (hm : saved js n = some m) :
    spec.acts m = spec.acts n := by
  have hnote : n.kind.getD "" ≠ "note" := by
    intro hnote
    unfold saved compileOne openNode at hm
    rw [kind_eq_some hnote (by decide)] at hm
    cases hm
  obtain ⟨m', hm', hid, hread, -⟩ := @savesAs_nodeKept χ js n hnote
  obtain rfl := Option.some.inj (hm'.symm.trans hm)
  unfold FlowSpecJson.acts
  rw [hread, hid]

theorem acting_eq (spec : FlowSpecJson χ) :
    spec.toSpec.acting = (spec.nodes.filter spec.acts).map FlowNodeJson.toNode := by
  unfold FlowSpec.acting FlowSpecJson.toSpec
  rw [List.filter_map]
  rfl

theorem roundTrip_nodes_iff
    (htouches : ∀ id, (roundTrip js flowName spec).toSpec.touches id = spec.toSpec.touches id) :
    (roundTrip js flowName spec).toSpec.acting.map FlowNode.effective =
        spec.toSpec.acting.map FlowNode.effective ↔
      ∀ n ∈ spec.nodes, spec.acts n → NodeKept js n := by
  have hacts : (roundTrip js flowName spec).acts = spec.acts := by
    funext m
    unfold FlowSpecJson.acts
    rw [htouches]
  have hfilter : (spec.nodes.filterMap (saved js)).filter spec.acts =
      (spec.nodes.filter spec.acts).filterMap (saved js) := by
    rw [List.filter_filterMap, List.filterMap_filter]
    refine List.filterMap_congr fun n _ => ?_
    cases hm : saved js n with
    | none => simp
    | some m =>
        rw [Option.filter_some, acts_saved hm]
  rw [acting_eq, acting_eq, hacts, roundTrip_nodes, hfilter, List.map_map, List.map_map,
    List.map_filterMap, List.filterMap_eq_map_iff_forall_eq_some]
  simp only [List.mem_filter, and_imp]
  exact forall_congr' fun n => imp_congr_right fun _ => imp_congr_right fun _ => saved_effective_iff

/-- Where every node is kept that an edge touches, the ends of the edges are saved. -/
theorem mem_savedIds (hvalid : spec.toSpec.validate = .ok ())
    (hkept : ∀ n ∈ spec.nodes, spec.acts n → NodeKept js n) {e : FlowEdge} (he : e ∈ spec.edges) :
    e.source ∈ savedIds js spec ∧ e.target ∈ savedIds js spec := by
  have hend : ∀ id ∈ spec.toSpec.ids, spec.toSpec.touches id = true → id ∈ savedIds js spec := by
    intro id hid htouched
    obtain ⟨node, hnode, rfl⟩ := List.mem_map.1 hid
    obtain ⟨n, hn, rfl⟩ := List.mem_map.1 hnode
    have hacts : spec.acts n = true := by
      unfold FlowSpecJson.acts
      rw [Bool.or_eq_true]
      exact .inr htouched
    have hnote : n.kind.getD "" ≠ "note" := by
      intro hnote
      have hnode := hkept n hn hacts
      unfold NodeKept at hnode
      rw [hnote] at hnode
      exact hnode
    obtain ⟨m, hm, hmid, -⟩ := @savesAs_nodeKept χ js n hnote
    exact List.mem_map.2 ⟨m, List.mem_filterMap.2 ⟨n, hn, hm⟩, hmid⟩
  have hids := FlowSpec.mem_ids_of_validate hvalid he
  have htouched := @FlowSpec.touches_of_mem χ spec.toSpec e he
  exact ⟨hend _ hids.1 htouched.1, hend _ hids.2 htouched.2⟩

/-! ## Flows -/

/-- What a flow must be like to be saved as it is: the nodes that act are kept, and so are the
labels. -/
def FlowSpecJson.Kept (js : JsCasing) (spec : FlowSpecJson χ) : Prop :=
  (∀ n ∈ spec.nodes, spec.acts n → NodeKept js n) ∧ ∀ e ∈ spec.edges, LabelKept js e.label

theorem sameFlow_roundTrip_iff (hvalid : spec.toSpec.validate = .ok ()) :
    SameFlow spec.toSpec (roundTrip js flowName spec).toSpec ↔ spec.Kept js := by
  constructor
  · intro hsame
    have hedges := (@roundTrip_edges_iff χ js flowName spec).1 hsame.edges
    exact ⟨(roundTrip_nodes_iff hsame.touches).1 hsame.nodes, fun e he => (hedges e he).2⟩
  · intro hkept
    have hedges := (@roundTrip_edges_iff χ js flowName spec).2 fun e he =>
      ⟨mem_savedIds hvalid hkept.1 he, hkept.2 e he⟩
    have htouches : ∀ id,
        (roundTrip js flowName spec).toSpec.touches id = spec.toSpec.touches id := by
      intro id
      rw [touches_effective, touches_effective]
      exact congrArg (List.any · _) hedges
    exact ⟨(roundTrip_nodes_iff htouches).2 hkept.1, hedges⟩

/-- **Opening and saving a flow changes nothing** of a flow that the interpreter takes if and
only if every node that acts is kept by its fields, and every label by its letters. -/
theorem builder_faithful_iff {order : List String}
    (hrun : spec.toSpec.validateForRun order = .ok ()) (hstart : spec.toSpec.hasInterpreterStart) :
    SameFlow spec.toSpec (roundTrip js flowName spec).toSpec ↔ spec.Kept js :=
  sameFlow_roundTrip_iff (FlowSpec.valid_of_run hrun hstart).1

/-- **A flow that is kept runs as it did**, whatever it is asked and answered. -/
theorem builder_runs_eq {order : List String} (hrun : spec.toSpec.validateForRun order = .ok ())
    (hstart : spec.toSpec.hasInterpreterStart) (hkept : spec.Kept js) {w : FlowWorld}
    (hnull : w.parseJson "null" = .ok .null) (inputs : Value) (cap : Option ℕ)
    (draws : List (FlowDraw χ)) :
    Machine.run (FlowRun.step cap w (roundTrip js flowName spec).toSpec inputs)
        (FlowRun.initial (roundTrip js flowName spec).toSpec) draws =
      Machine.run (FlowRun.step cap w spec.toSpec inputs) (FlowRun.initial spec.toSpec) draws := by
  obtain ⟨hvalid, hinterp⟩ := FlowSpec.valid_of_run hrun hstart
  exact ((sameFlow_roundTrip_iff hvalid).2 hkept).run_eq hnull hinterp cap draws

end RoundTrips

section Example

/-- Letters of ASCII alone have another case. -/
private def asciiCasing : JsCasing where
  toLowerCase := Text.toAsciiLowercase
  ascii _ _ := rfl
  comma s h := (comma_mem_toAsciiLowercase s).1 h

/-- An if between the start and two ends. -/
private def asking : FlowSpecJson Empty where
  nodes := [{ id := "s", kind := some "start" },
    { id := "n", kind := some "if", conditionCel := some "size(input) > 3" },
    { id := "a", kind := some "end" }, { id := "b", kind := some "end" }]
  edges := [⟨"s", "n", none⟩, ⟨"n", "a", some " True "⟩, ⟨"n", "b", some "false"⟩]

theorem builder_faithful_asking :
    SameFlow asking.toSpec (roundTrip asciiCasing "asking" asking).toSpec := by
  have hrun : asking.toSpec.validateForRun [] = .ok () := by decide
  refine (builder_faithful_iff hrun (by decide)).2 ⟨?_, ?_⟩
  · unfold asking
    simp only [List.forall_mem_cons, List.not_mem_nil, IsEmpty.forall_iff, implies_true, and_true]
    exact ⟨fun _ => trivial, fun _ => rfl, fun _ => trivial, fun _ => trivial⟩
  · unfold asking
    simp only [List.forall_mem_cons, List.not_mem_nil, IsEmpty.forall_iff, implies_true, and_true]
    refine ⟨?_, ?_, ?_⟩
    · rintro s ⟨⟩
    · rintro s ⟨⟩
      decide
    · rintro s ⟨⟩
      decide

/-- From the start to the end. -/
private def straightFlow : FlowSpecJson Empty where
  nodes := [{ id := "s", kind := some "start" }, { id := "e", kind := some "end" }]
  edges := [⟨"s", "e", some " Next "⟩]

/-- A world that reads `null` and no more. -/
private def nullWorld : FlowWorld := { FlowRun.silentWorld with parseJson := fun _ => .ok .null }

theorem straight_runs_eq :
    Machine.run (FlowRun.step none nullWorld (roundTrip asciiCasing "s" straightFlow).toSpec .null)
        (FlowRun.initial (roundTrip asciiCasing "s" straightFlow).toSpec)
        (List.replicate 2 FlowRun.holdingDraw) =
      Machine.run (FlowRun.step none nullWorld straightFlow.toSpec .null)
        (FlowRun.initial straightFlow.toSpec) (List.replicate 2 FlowRun.holdingDraw) := by
  have hrun : straightFlow.toSpec.validateForRun [] = .ok () := by decide
  refine builder_runs_eq hrun (by decide) ⟨?_, ?_⟩ rfl .null none _
  · unfold straightFlow
    simp only [List.forall_mem_cons, List.not_mem_nil, IsEmpty.forall_iff, implies_true, and_true]
    exact ⟨fun _ => trivial, fun _ => trivial⟩
  · unfold straightFlow
    simp only [List.forall_mem_cons, List.not_mem_nil, IsEmpty.forall_iff, implies_true, and_true]
    rintro s ⟨⟩
    decide

/-- `FlowSpec::from_crew`, for a crew of one. -/
private def crewFlow : FlowSpecJson CrewSpec where
  nodes := [{ id := "s", kind := some "start", name := some "Start" },
    { id := "crew", kind := some "crew", name := some "Crew",
      crewSpec := some
        { agents := [⟨"writer", "Writer", "Write", "", "", []⟩]
          tasks := [⟨"t", "Write a page", "A page", "writer", []⟩]
          process := .sequential
          managerAgentId := none } },
    { id := "e", kind := some "end", name := some "End" }]
  edges := [⟨"s", "crew", none⟩, ⟨"crew", "e", none⟩]

/-- **The flow of a crew is taken by the interpreter**, and after it was opened and saved the
crew is gone. -/
theorem crew_flow_changed :
    crewFlow.toSpec.validateForRun [] = .ok () ∧ crewFlow.toSpec.hasInterpreterStart ∧
      crewFlow.toSpec.nodes.map FlowNode.readKind = [.start, .crew, .finish] ∧
      (roundTrip asciiCasing "crew" crewFlow).toSpec.nodes.map (fun n => n.crewSpec.isSome) =
        [false, false, false] ∧
      ¬ SameFlow crewFlow.toSpec (roundTrip asciiCasing "crew" crewFlow).toSpec := by
  refine ⟨by decide, by decide, by decide, by decide, ?_⟩
  intro hsame
  have hcrews := congrArg (List.map fun n => n.crewSpec.isSome) hsame.nodes
  exact absurd hcrews (by decide)

end Example

end PeerClaw
