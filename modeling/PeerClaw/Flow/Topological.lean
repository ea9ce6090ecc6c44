import PeerClaw.Flow.Order
import PeerClaw.Lib.Countdown

/-!
# When a flow has an order

`execution_order` should find an order of every flow without a cycle, in which edges lead
forward, and of no other flow.

* `SafeEdges`, `FlowSpec.SafeFrom` — no number of edges is missing or zero when it is lowered.
* `kahn_fromBefore` — the nodes that have come are such that their edges come from before.
* `executionOrder_ok_iff` — flows with an order are the flows without a cycle.
* `empty_flow_no_order` — the flow without a node has none.
-/

namespace PeerClaw

open Lib Lib.Topological

section Order

variable {χ : Type} (spec : FlowSpec χ)

/-- An edge of the flow, without its label. -/
def FlowSpec.HasEdge (a b : String) : Prop := ∃ e ∈ spec.edges, e.source = a ∧ e.target = b

/-- No way along the edges comes back; a node with an edge to itself has one that does. -/
def FlowSpec.Acyclic : Prop := ∀ id, ¬ Relation.TransGen spec.HasEdge id id

/-- Where edges to these nodes are used, each is in the map with a number that is not zero. -/
def SafeEdges : List String → FiniteMap String ℕ → Prop
  | [], _ => True
  | v :: vs, indeg => ∃ d, indeg.lookup v = some (d + 1) ∧ SafeEdges vs (indeg.insert v d)

/-- In every turn of the loop the edges are used safely. -/
def FlowSpec.SafeFrom : ℕ → List String → FiniteMap String ℕ → Prop
  | 0, _, _ => True
  | _ + 1, [], _ => True
  | fuel + 1, u :: queue, indeg =>
      SafeEdges (spec.successors u) indeg ∧ ∀ indeg' queue',
        useEdges (spec.successors u) indeg queue = some (indeg', queue') →
          SafeFrom fuel queue' indeg'

variable {spec}

theorem safeEdges_of_counts {vs : List String} {m : FiniteMap String ℕ}
    (h : ∀ v ∈ vs, ∃ d, m.lookup v = some d ∧ vs.count v ≤ d) : SafeEdges vs m := by
  induction vs generalizing m with
  | nil => trivial
  | cons v vs ih =>
      obtain ⟨d, hd, hle⟩ := h v (List.mem_cons_self ..)
      rw [List.count_cons_self] at hle
      obtain ⟨d, rfl⟩ : ∃ d', d = d' + 1 := ⟨d - 1, by omega⟩
      exact ⟨d, hd, ih (counts_rest hd h)⟩

theorem safeFrom_of_kahn (hvalid : spec.validate = .ok ()) {fuel : ℕ} {out queue : List String}
    {indeg : FiniteMap String ℕ} (h : Kahn spec out queue indeg) :
    spec.SafeFrom fuel queue indeg := by
  induction fuel generalizing out queue indeg with
  | zero => trivial
  | succ fuel ih =>
      cases queue with
      | nil => trivial
      | cons u queue =>
          refine ⟨safeEdges_of_counts (kahn_counts hvalid h), fun indeg' queue' huse => ?_⟩
          obtain ⟨indeg'', queue'', huse', hnext⟩ := kahn_step hvalid h
          cases huse.symm.trans huse'
          exact ih hnext

/-- No edge into a node is left when all of them come from nodes that have come. -/
theorem edgesLeft_eq_zero_iff {out : List String} {v : String} :
    spec.edgesLeft out v = 0 ↔ ∀ u, spec.HasEdge u v → u ∈ out := by
  unfold FlowSpec.edgesLeft FlowSpec.HasEdge
  rw [List.countP_eq_zero]
  constructor
  · rintro h u ⟨e, he, rfl, rfl⟩
    by_contra hnot
    exact h e he (by simp [hnot])
  · intro h e he
    simp only [decide_eq_true_eq, not_and, not_not]
    intro htarget
    exact h e.source ⟨e, he, rfl, htarget⟩

/-- **Edges come from before** in all that the loop puts out. -/
theorem kahn_fromBefore (hvalid : spec.validate = .ok ()) {fuel : ℕ} {out queue out' : List String}
    {indeg : FiniteMap String ℕ} (h : Kahn spec out queue indeg)
    (hbefore : FromBefore spec.HasEdge out)
    (hrun : spec.orderFrom fuel queue indeg out = some out') : FromBefore spec.HasEdge out' := by
  induction fuel generalizing out queue indeg with
  | zero =>
      cases hrun
      exact hbefore
  | succ fuel ih =>
      cases queue with
      | nil =>
          cases hrun
          exact hbefore
      | cons u queue =>
          obtain ⟨indeg', queue', huse, hnext⟩ := kahn_step hvalid h
          rw [FlowSpec.orderFrom, huse] at hrun
          have hzero : spec.edgesLeft out u = 0 := ((h.queued u).1 (by simp)).2
          exact ih hnext (hbefore.concat (edgesLeft_eq_zero_iff.1 hzero)) hrun

theorem validate_of_edges (hnodes : spec.nodes ≠ [])
    (hedges : ∀ e ∈ spec.edges, e.source ∈ spec.ids ∧ e.target ∈ spec.ids) :
    spec.validate = .ok () := by
  unfold FlowSpec.validate
  rw [if_neg (by simpa using hnodes)]
  refine Check.forM_ok_iff.2 fun e he => ?_
  unfold checkEdge
  rw [if_neg (not_not.2 (hedges e he).1), if_neg (not_not.2 (hedges e he).2)]

theorem kahn_ends (hvalid : spec.validate = .ok ()) {order : List String}
    (hids : spec.ids.Nodup) (horder : order.Perm spec.ids) :
    ∃ out indeg, spec.orderFrom (spec.nodes.length + 1) (spec.sources order) spec.inDegrees [] =
      some out ∧ Kahn spec out [] indeg := by
  refine kahn_run hvalid (kahn_sources horder hids) ?_
  simp [FlowSpec.ids]

/-- **Without a cycle the loop puts out every node.** -/
theorem ids_subset_of_acyclic (hvalid : spec.validate = .ok ()) (hacyclic : spec.Acyclic)
    {out : List String} {indeg : FiniteMap String ℕ} (h : Kahn spec out [] indeg) :
    spec.ids ⊆ out := by
  by_contra hnot
  obtain ⟨v, hv, hvout⟩ : ∃ v ∈ spec.ids, v ∉ out := by simpa [List.subset_def] using hnot
  -- of the nodes that are missing, one has no edge into it from another
  have hmissing : ((spec.ids.filter (· ∉ out)).toFinset).Nonempty := ⟨v, by simp [hv, hvout]⟩
  obtain ⟨w, hw, hfirst⟩ := exists_no_edge_into hacyclic hmissing
  obtain ⟨hwids, hwout⟩ : w ∈ spec.ids ∧ w ∉ out := by simpa using hw
  refine hwout ?_
  rw [← List.append_nil out, h.queued w, edgesLeft_eq_zero_iff]
  refine ⟨hwids, fun u hedge => ?_⟩
  by_contra hu
  obtain ⟨e, he, rfl, -⟩ := id hedge
  have huids : e.source ∈ spec.ids := (FlowSpec.mem_ids_of_validate hvalid he).1
  exact hfirst e.source (by simp [huids, hu]) hedge

/-- **When `execution_order` has an order.**  For a flow with nodes, under distinct ids, whose
edges join them, it returns one exactly if the flow has no cycle; that is an order of all the nodes
in which every edge leads forward; and it never looks for a number that is not there, or lowers
one that is zero. -/
theorem executionOrder_ok_iff (spec : FlowSpec χ) (order : List String) (hnodes : spec.nodes ≠ [])
    (hids : spec.ids.Nodup)
    (hedges : ∀ e ∈ spec.edges, e.source ∈ spec.ids ∧ e.target ∈ spec.ids)
    (horder : order.Perm spec.ids) :
    ((∃ out, spec.executionOrder order = .ok out) ↔ spec.Acyclic) ∧
    (∀ out, spec.executionOrder order = .ok out →
      out.Perm spec.ids ∧ ∀ e ∈ spec.edges, List.Sublist [e.source, e.target] out) ∧
    spec.SafeFrom (spec.nodes.length + 1) (spec.sources order) spec.inDegrees := by
  have hvalid : spec.validate = .ok () := validate_of_edges hnodes hedges
  have hstart := kahn_sources horder hids
  obtain ⟨found, indeg, hrun, hkahn⟩ := kahn_ends hvalid hids horder
  have hfound : ∀ out, spec.executionOrder order = .ok out → out = found := by
    intro out hout
    simp only [FlowSpec.executionOrder, hvalid, hrun] at hout
    split at hout
    · cases hout
    · cases hout
      rfl
  have hbefore : FromBefore spec.HasEdge found :=
    kahn_fromBefore hvalid hstart fromBefore_nil hrun
  refine ⟨⟨?_, fun hacyclic => ?_⟩, fun out hout => ?_, safeFrom_of_kahn hvalid hstart⟩
  · rintro ⟨out, hout⟩
    have hperm := executionOrder_perm hids horder hout
    cases hfound out hout
    refine acyclic_of_fromBefore hbefore (hperm.nodup_iff.2 hids) ?_
    rintro u v ⟨e, he, rfl, rfl⟩
    exact hperm.mem_iff.2 (hedges e he).2
  · have hall : spec.ids ⊆ found := ids_subset_of_acyclic hvalid hacyclic hkahn
    have hnodup : found.Nodup := by simpa using hkahn.nodup
    have hinto : found ⊆ spec.ids := fun v hv => ((hkahn.queued v).1 (by simpa using hv)).1
    have hlength : found.length = spec.nodes.length := by
      have hle := (hids.subperm hall).length_le
      have hge := (hnodup.subperm hinto).length_le
      rw [FlowSpec.ids, List.length_map] at hle hge
      exact le_antisymm hge hle
    refine ⟨found, ?_⟩
    simp only [FlowSpec.executionOrder, hvalid, hrun]
    rw [if_neg (not_not.2 hlength)]
  · have hperm := executionOrder_perm hids horder hout
    refine ⟨hperm, fun e he => ?_⟩
    cases hfound out hout
    exact hbefore.sublist ⟨e, he, rfl, rfl⟩ (hperm.mem_iff.2 (hedges e he).2)

/-- Two edges from one node to another. -/
theorem executionOrder_ok_double :
    (∃ out, FlowSpec.executionOrder (χ := Unit) ⟨"double", [{ id := "a" }, { id := "b" }],
      [⟨"a", "b", none⟩, ⟨"a", "b", none⟩]⟩ ["b", "a"] = .ok out) ↔
    FlowSpec.Acyclic (χ := Unit) ⟨"double", [{ id := "a" }, { id := "b" }],
      [⟨"a", "b", none⟩, ⟨"a", "b", none⟩]⟩ :=
  (executionOrder_ok_iff _ _ (by simp) (by decide) (by decide) (by decide)).1

/-- The flow without a node has no cycle, and is turned down. -/
theorem empty_flow_no_order :
    ¬ ∀ (spec : FlowSpec Unit) (order : List String), spec.ids.Nodup →
      (∀ e ∈ spec.edges, e.source ∈ spec.ids ∧ e.target ∈ spec.ids) → order.Perm spec.ids →
      ((∃ out, spec.executionOrder order = .ok out) ↔ spec.Acyclic) := by
  intro h
  have hempty := h ⟨"empty", [], []⟩ [] List.nodup_nil (by simp) (List.Perm.refl [])
  have hacyclic : (⟨"empty", [], []⟩ : FlowSpec Unit).Acyclic := by
    refine Countdown.acyclic_of_rank (fun _ => 0) ?_
    rintro a b ⟨e, he, -⟩
    cases he
  obtain ⟨out, hout⟩ := hempty.2 hacyclic
  cases hout

end Order

end PeerClaw
