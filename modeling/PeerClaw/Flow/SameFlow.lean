import PeerClaw.Flow.Effective

/-!
# Flows that do the same

Two flows are the same for the interpreter if it reads the same of their nodes and of their
edges.  A note that no edge touches is not compared: no run comes to it.

* `SameFlow` — two flows with the same effective nodes and edges.
* `SameFlow.run_eq` — they run in the same way, whatever is asked on the way.
-/

namespace PeerClaw

open Lib

section Same

variable {χ : Type}

/-- An edge as the interpreter reads it. -/
def FlowEdge.effective (e : FlowEdge) : FlowEdge := { e with label := normalizeLabel e.label }

/-- An edge begins or ends at an id. -/
def FlowSpec.touches (spec : FlowSpec χ) (id : String) : Bool :=
  spec.edges.any fun e => e.source = id || e.target = id

/-- The nodes but for the notes that no edge touches. -/
def FlowSpec.acting (spec : FlowSpec χ) : List (FlowNode χ) :=
  spec.nodes.filter fun n => n.readKind ≠ .note || spec.touches n.id

/-- The second flow has the nodes of the first, as the interpreter reads them, and its
edges. -/
structure SameFlow (a b : FlowSpec χ) : Prop where
  nodes : b.acting.map FlowNode.effective = a.acting.map FlowNode.effective
  edges : b.edges.map FlowEdge.effective = a.edges.map FlowEdge.effective

/-! ## Edges -/

/-- Where the edges of a node lead, and their labels as they are read. -/
def reads (outs : List Outgoing) : List Outgoing := outs.map fun out => (out.1, normalizeLabel out.2)

theorem toAsciiLowercase_eq_empty_iff {s : String} : Text.toAsciiLowercase s = "" ↔ s = "" := by
  unfold Text.toAsciiLowercase
  rw [← String.toList_inj, String.toList_ofList, ← String.toList_inj]
  exact List.map_eq_nil_iff

theorem normalizeLabel_eq_none_iff {label : Option String} :
    normalizeLabel label = none ↔ ∀ s, label = some s → Text.trim s = "" := by
  cases label with
  | none => simp [normalizeLabel]
  | some s => simp [normalizeLabel, toAsciiLowercase_eq_empty_iff]

theorem map_fst_labeled (want : String) (outs : List Outgoing) :
    (labeled want outs).map Prod.fst =
      ((reads outs).filter fun out => out.2 = some want).map Prod.fst := by
  unfold labeled reads
  rw [List.filter_map, List.map_map]
  rfl

theorem map_fst_unlabeled (outs : List Outgoing) :
    (unlabeled outs).map Prod.fst =
      ((reads outs).filter fun out => out.2 = none).map Prod.fst := by
  unfold unlabeled reads
  rw [List.filter_map, List.map_map]
  refine congrArg (List.map Prod.fst) (List.filter_congr fun out _ => ?_)
  rw [Bool.eq_iff_iff, Function.comp_apply, decide_eq_true_iff, normalizeLabel_eq_none_iff]
  cases out.2 with
  | none => simp
  | some s => simp

theorem pickLabeled_reads {outs outs' : List Outgoing} (h : reads outs = reads outs')
    (id what : String) (branch : Option String) :
    pickLabeled id what outs branch = pickLabeled id what outs' branch := by
  unfold pickLabeled
  cases branch with
  | none => rfl
  | some b =>
      dsimp only
      have hfst := map_fst_labeled (Text.toAsciiLowercase b) outs
      rw [h, ← map_fst_labeled] at hfst
      cases hleft : labeled (Text.toAsciiLowercase b) outs with
      | nil =>
          rw [hleft, List.map_nil] at hfst
          rw [List.map_eq_nil_iff.1 hfst.symm]
      | cons out rest =>
          cases hright : labeled (Text.toAsciiLowercase b) outs' with
          | nil => simp [hleft, hright] at hfst
          | cons out' rest' =>
              rw [hleft, hright] at hfst
              exact congrArg (fun target => Except.ok (some target)) (List.cons.inj hfst).1

theorem pickOnly_eq (id : String) (outs : List Outgoing) :
    pickOnly id outs =
      match outs.map Prod.fst with
      | [] => .ok none
      | [target] => .ok (some target)
      | targets =>
          match (unlabeled outs).map Prod.fst, (labeled "default" outs).map Prod.fst with
          | [target], _ => .ok (some target)
          | _, [target] => .ok (some target)
          | _, _ => .error (.ambiguous id targets.length) := by
  unfold pickOnly
  rcases outs with _ | ⟨out, _ | ⟨out', rest⟩⟩
  · rfl
  · rfl
  · dsimp only [List.map_cons]
    rcases unlabeled (out :: out' :: rest) with _ | ⟨u, _ | ⟨u', us⟩⟩ <;>
      rcases labeled "default" (out :: out' :: rest) with _ | ⟨l, _ | ⟨l', ls⟩⟩ <;> simp

theorem pickOnly_reads {outs outs' : List Outgoing} (h : reads outs = reads outs') (id : String) :
    pickOnly id outs = pickOnly id outs' := by
  have htargets : outs.map Prod.fst = outs'.map Prod.fst := by
    have hmap := congrArg (List.map Prod.fst) h
    unfold reads at hmap
    rwa [List.map_map, List.map_map] at hmap
  rw [pickOnly_eq, pickOnly_eq, htargets, map_fst_unlabeled, map_fst_unlabeled, map_fst_labeled,
    map_fst_labeled, h]

/-- **The edge that is taken** depends on what is read of the edges. -/
theorem follow_reads {outs outs' : List Outgoing} (h : reads outs = reads outs') (n : FlowNode χ)
    (branch : Option String) : FlowRun.follow n outs branch = FlowRun.follow n outs' branch := by
  unfold FlowRun.follow pickNext
  split
  · rfl
  · cases n.readKind with
    | ifElse => exact pickLabeled_reads h ..
    | «while» => exact pickLabeled_reads h ..
    | guardrails => exact pickLabeled_reads h ..
    | approval => exact pickLabeled_reads h ..
    | _ => exact pickOnly_reads h ..

/-! ## Nodes and runs -/

variable {a b : FlowSpec χ}

theorem node?_acting {spec : FlowSpec χ} {id : String} (h : spec.touches id = true) :
    spec.node? id = spec.acting.find? fun n => n.id = id := by
  unfold FlowSpec.node? FlowSpec.acting
  rw [List.find?_filter]
  refine congrArg (fun p => List.find? p spec.nodes) (funext fun n => ?_)
  by_cases hid : n.id = id
  · subst hid
    simp [h]
  · simp [hid]

theorem find?_effective (id : String) (nodes : List (FlowNode χ)) :
    (nodes.map FlowNode.effective).find? (fun n => n.id = id) =
      (nodes.find? fun n => n.id = id).map FlowNode.effective := by
  rw [List.find?_map]
  refine congrArg (Option.map FlowNode.effective) ?_
  refine congrArg (fun p => List.find? p nodes) (funext fun n => ?_)
  rw [Function.comp_apply, FlowNode.effective_id]

theorem touches_effective (spec : FlowSpec χ) (id : String) :
    spec.touches id = (spec.edges.map FlowEdge.effective).any fun e => e.source = id || e.target = id := by
  rw [List.any_map]
  rfl

/-- The cursor is at an id that an edge touches. -/
def FlowSpec.CursorTouched (spec : FlowSpec χ) (st : FlowState) : Prop :=
  ∀ cur, st.cursor = some cur → spec.touches cur = true

theorem FlowSpec.touches_of_mem {spec : FlowSpec χ} {e : FlowEdge} (he : e ∈ spec.edges) :
    spec.touches e.source = true ∧ spec.touches e.target = true := by
  unfold FlowSpec.touches
  rw [List.any_eq_true, List.any_eq_true]
  exact ⟨⟨e, he, by simp⟩, ⟨e, he, by simp⟩⟩

theorem FlowSpec.cursorTouched_step (spec : FlowSpec χ) {w : FlowWorld} {inputs : Value}
    {cap : Option ℕ} {d : FlowDraw χ} {st : FlowState} (h : spec.CursorTouched st) :
    spec.CursorTouched (FlowRun.step cap w spec inputs st d) := by
  unfold FlowRun.step
  cases hcursor : st.cursor with
  | none => exact h
  | some cur =>
      dsimp only
      split
      · intro id hid
        cases hid
      · split
        · rename_i st' hbody
          intro id hid
          unfold FlowRun.body at hbody
          split at hbody
          · cases hbody
          · obtain ⟨⟨st'', branch⟩, -, hrest⟩ := Check.bind_ok_iff.1 hbody
            obtain ⟨next, hnext, hst⟩ := Check.bind_ok_iff.1 hrest
            obtain rfl := Except.ok.inj hst
            obtain rfl : next = some id := hid
            unfold FlowRun.follow at hnext
            split at hnext
            · cases hnext
            · obtain ⟨label, hmem, -⟩ := pickNext_mem hnext
              exact (FlowSpec.touches_of_mem (FlowSpec.mem_edges_of_outgoing hmem)).2
        · intro id hid
          cases hid

theorem FlowSpec.cursorTouched_initial (spec : FlowSpec χ) (h : validateInterpreter spec = .ok ()) :
    spec.CursorTouched (FlowRun.initial spec) := by
  intro id hid
  unfold validateInterpreter at h
  split at h
  · rename_i start hstarts
    obtain ⟨⟨⟩, -, hrest⟩ := Check.bind_ok_iff.1 h
    have hid' : start.id = id := by
      have hfind : spec.nodes.find? (fun n => n.readKind = .start) = some start := by
        rw [← List.head?_filter, hstarts]
        rfl
      unfold FlowRun.initial at hid
      rw [hfind] at hid
      exact Option.some.inj hid
    have hone : (spec.outgoing start.id).length = 1 := by
      by_contra hne
      dsimp only at hrest
      rw [if_pos hne] at hrest
      cases hrest
    obtain ⟨out, hout⟩ := List.length_eq_one_iff.1 hone
    have hmem : out ∈ spec.outgoing start.id := by rw [hout]; exact List.mem_singleton_self out
    rw [← hid']
    exact (FlowSpec.touches_of_mem (FlowSpec.mem_edges_of_outgoing hmem)).1
  · cases h

namespace SameFlow

theorem touches (h : SameFlow a b) (id : String) : b.touches id = a.touches id := by
  rw [touches_effective, h.edges, ← touches_effective]

theorem node? (h : SameFlow a b) {id : String} (htouched : a.touches id = true) :
    (b.node? id).map FlowNode.effective = (a.node? id).map FlowNode.effective := by
  rw [node?_acting htouched, node?_acting ((h.touches id).trans htouched), ← find?_effective,
    ← find?_effective, h.nodes]

theorem reads (h : SameFlow a b) (id : String) : PeerClaw.reads (b.outgoing id) = PeerClaw.reads (a.outgoing id) := by
  have hspec : ∀ spec : FlowSpec χ, PeerClaw.reads (spec.outgoing id) =
      ((spec.edges.map FlowEdge.effective).filter fun e => e.source = id).map
        fun e => (e.target, e.label) := by
    intro spec
    unfold PeerClaw.reads FlowSpec.outgoing
    rw [List.map_map, List.filter_map, List.map_map]
    rfl
  rw [hspec, hspec, h.edges]

theorem priorContextBlock (h : SameFlow a b) (id : String) (outputs : Fields) :
    PeerClaw.priorContextBlock b id outputs = PeerClaw.priorContextBlock a id outputs := by
  have hspec : ∀ spec : FlowSpec χ, (spec.edges.filter fun e => e.target = id).map FlowEdge.source =
      ((spec.edges.map FlowEdge.effective).filter fun e => e.target = id).map FlowEdge.source := by
    intro spec
    rw [List.filter_map, List.map_map]
    rfl
  unfold PeerClaw.priorContextBlock
  rw [hspec, hspec, h.edges]

variable {w : FlowWorld} {inputs : Value} {d : FlowDraw χ} {st : FlowState} {cur : String}

theorem visit (h : SameFlow a b) (n : FlowNode χ) :
    PeerClaw.visit w b inputs d st cur n = PeerClaw.visit w a inputs d st cur n := by
  unfold PeerClaw.visit
  cases n.readKind with
  | agent =>
      dsimp only
      unfold visitAgent
      rw [h.priorContextBlock]
  | llm =>
      dsimp only
      unfold visitLlm
      rw [h.priorContextBlock]
  | _ => rfl

theorem body (h : SameFlow a b) (hnull : w.parseJson "null" = .ok .null)
    (htouched : a.touches cur = true) :
    FlowRun.body w b inputs d st cur = FlowRun.body w a inputs d st cur := by
  have hnode := h.node? htouched
  unfold FlowRun.body
  cases hb : b.node? cur with
  | none =>
      rw [hb, Option.map_none] at hnode
      rw [Option.map_eq_none_iff.1 hnode.symm]
  | some m =>
      rw [hb, Option.map_some] at hnode
      obtain ⟨n, ha, heff⟩ := Option.map_eq_some_iff.1 hnode.symm
      have hvisit : PeerClaw.visit w b inputs d st cur m = PeerClaw.visit w a inputs d st cur n := by
        rw [h.visit, ← visit_effective hnull, ← heff, visit_effective hnull]
      have hfollow : ∀ branch, FlowRun.follow m (b.outgoing cur) branch =
          FlowRun.follow n (a.outgoing cur) branch := by
        intro branch
        rw [follow_reads (h.reads cur), ← follow_effective, ← heff, follow_effective]
      rw [ha]
      dsimp only
      rw [hvisit]
      simp only [hfollow]

theorem step (h : SameFlow a b) (hnull : w.parseJson "null" = .ok .null) {cap : Option ℕ}
    (htouched : a.CursorTouched st) :
    FlowRun.step cap w b inputs st d = FlowRun.step cap w a inputs st d := by
  unfold FlowRun.step
  cases hcursor : st.cursor with
  | none => rfl
  | some cur =>
      dsimp only
      rw [h.body hnull (htouched cur hcursor)]

theorem initial (h : SameFlow a b) : FlowRun.initial b = FlowRun.initial a := by
  have hstart : ∀ spec : FlowSpec χ,
      (spec.nodes.find? fun n => n.readKind = .start).map FlowNode.effective =
        (spec.acting.map FlowNode.effective).find? fun n => n.readKind = .start := by
    intro spec
    unfold FlowSpec.acting
    rw [List.find?_map, List.find?_filter]
    refine congrArg (Option.map FlowNode.effective) ?_
    refine congrArg (fun p => List.find? p spec.nodes) (funext fun n => ?_)
    rw [Function.comp_apply, FlowNode.readKind_effective]
    by_cases hkind : n.readKind = .start
    · simp [hkind]
    · simp [hkind]
  have hsame := (hstart b).trans ((congrArg _ h.nodes).trans (hstart a).symm)
  have hid : (b.nodes.find? fun n => n.readKind = .start).map FlowNode.id =
      (a.nodes.find? fun n => n.readKind = .start).map FlowNode.id := by
    have hmap := congrArg (Option.map FlowNode.id) hsame
    rw [Option.map_map, Option.map_map] at hmap
    have hcomp : (FlowNode.id ∘ FlowNode.effective : FlowNode χ → String) = FlowNode.id :=
      funext FlowNode.effective_id
    rwa [hcomp] at hmap
  have hsome : (b.nodes.find? fun n => n.readKind = .start).isSome =
      (a.nodes.find? fun n => n.readKind = .start).isSome := by
    have hmap := congrArg Option.isSome hid
    rwa [Option.isSome_map, Option.isSome_map] at hmap
  unfold FlowRun.initial
  rw [hid, hsome]

/-- **Two flows that are the same run in the same way**, whatever they are asked and answered. -/
theorem run_eq (h : SameFlow a b) (hnull : w.parseJson "null" = .ok .null)
    (hvalid : validateInterpreter a = .ok ()) (cap : Option ℕ) (draws : List (FlowDraw χ)) :
    Machine.run (FlowRun.step cap w b inputs) (FlowRun.initial b) draws =
      Machine.run (FlowRun.step cap w a inputs) (FlowRun.initial a) draws := by
  rw [h.initial]
  have hinv := a.cursorTouched_initial hvalid
  generalize FlowRun.initial a = st at hinv
  induction draws generalizing st with
  | nil => rfl
  | cons d draws ih =>
      rw [Machine.run_cons, Machine.run_cons, h.step hnull hinv]
      exact ih _ (a.cursorTouched_step hinv)

end SameFlow

end Same

end PeerClaw
