import PeerClaw.Flow.Spec
import PeerClaw.Lib.FiniteMap
import PeerClaw.Lib.Action

/-!
# The order of a flow without a start

`FlowSpec::execution_order` sorts the nodes of a legacy flow so that edges go
forward: Kahn's algorithm, on the number of edges into each node that have not
been used yet.  These numbers are in a hash map, and the nodes without an edge
into them come first in the order in which the map is iterated over.

`validate_for_run` takes a flow with a start node when the interpreter does, and
a flow without one when it has such an order.

* `Kahn` — what holds of the loop: the map counts the edges that are left, and a node
  is queued when none is (`kahn_sources`, `kahn_step`, `kahn_run`).
* `executionOrder_perm` — the order, where there is one, is one of all the nodes.
-/

namespace PeerClaw

open Lib

section Order

variable {χ : Type} (spec : FlowSpec χ)

/-- How many edges go into each node. -/
def FlowSpec.inDegrees : FiniteMap String ℕ :=
  spec.edges.foldl (fun m e => m.insert e.target ((m.lookup e.target).getD 0 + 1))
    (spec.nodes.foldl (fun m n => m.insert n.id 0) ∅)

/-- The nodes that the edges of a node lead to. -/
def FlowSpec.successors (id : String) : List String :=
  (spec.edges.filter fun e => e.source = id).map FlowEdge.target

/-- A `usize` less one; zero wraps. -/
def wrappingPred : ℕ → ℕ
  | 0 => 18446744073709551615
  | d + 1 => d

/-- Use the edges to some nodes: a node that has no edge left into it is queued.  A node that
is not in the map makes `unwrap` panic. -/
def useEdges : List String → FiniteMap String ℕ → List String →
    Option (FiniteMap String ℕ × List String)
  | [], indeg, queue => some (indeg, queue)
  | v :: vs, indeg, queue =>
      match indeg.lookup v with
      | none => none
      | some d =>
          let left := wrappingPred d
          useEdges vs (indeg.insert v left) (if left = 0 then queue ++ [v] else queue)

/-- The loop of `execution_order`, with some fuel. -/
def FlowSpec.orderFrom : ℕ → List String → FiniteMap String ℕ → List String → Option (List String)
  | 0, _, _, out => some out
  | _ + 1, [], _, out => some out
  | fuel + 1, u :: queue, indeg, out =>
      match useEdges (spec.successors u) indeg queue with
      | none => none
      | some (indeg, queue) => orderFrom fuel queue indeg (out ++ [u])

/-- The nodes without an edge into them, in the order in which the map is iterated over. -/
def FlowSpec.sources (order : List String) : List String :=
  order.filter fun id => spec.inDegrees.lookup id = some 0

/-- `FlowSpec::execution_order`; a node is queued once at most. -/
def FlowSpec.executionOrder (order : List String) : Outcome String (List String) :=
  match spec.validate with
  | .error e => .err e
  | .ok _ =>
      match spec.orderFrom (spec.nodes.length + 1) (spec.sources order) spec.inDegrees [] with
      | none => .panic
      | some out =>
          if out.length ≠ spec.nodes.length then .err "flow has a cycle" else .ok out

/-- `FlowSpec::validate_for_run`. -/
def FlowSpec.validateForRun (order : List String) : Outcome String Unit :=
  match spec.validate with
  | .error e => .err e
  | .ok _ =>
      if spec.hasInterpreterStart then
        match validateInterpreter spec with
        | .error e => .err e
        | .ok _ => .ok ()
      else (spec.executionOrder order).map fun _ => ()

variable {spec} in
theorem FlowSpec.valid_of_run {order : List String} (h : spec.validateForRun order = .ok ())
    (hstart : spec.hasInterpreterStart) :
    spec.validate = .ok () ∧ validateInterpreter spec = .ok () := by
  unfold FlowSpec.validateForRun at h
  cases hvalid : spec.validate with
  | error e =>
      rw [hvalid] at h
      cases h
  | ok u =>
      rw [hvalid] at h
      simp only [hstart, if_true] at h
      cases hinterp : validateInterpreter spec with
      | error e =>
          rw [hinterp] at h
          cases h
      | ok u' => exact ⟨rfl, rfl⟩

/-! ## Kahn's algorithm -/

/-- How many edges lead to a node from nodes that have not come yet. -/
def FlowSpec.edgesLeft (out : List String) (v : String) : ℕ :=
  spec.edges.countP fun e => e.target = v ∧ e.source ∉ out

variable {spec}

theorem lookup_zeros (ns : List (FlowNode χ)) (m : FiniteMap String ℕ) (v : String) :
    (ns.foldl (fun m n => m.insert n.id 0) m).lookup v =
      if v ∈ ns.map FlowNode.id then some 0 else m.lookup v := by
  induction ns generalizing m with
  | nil => rfl
  | cons n ns ih =>
      rw [List.foldl_cons, ih, Finmap.lookup_insert_eq, List.map_cons]
      by_cases hv : v = n.id
      · simp [hv]
      · simp [hv]

theorem lookup_counts (es : List FlowEdge) {m : FiniteMap String ℕ} {v : String} {k : ℕ}
    (h : m.lookup v = some k) :
    (es.foldl (fun m e => m.insert e.target ((m.lookup e.target).getD 0 + 1)) m).lookup v =
      some (k + es.countP fun e => e.target = v) := by
  induction es generalizing m k with
  | nil => exact h
  | cons e es ih =>
      rw [List.foldl_cons, List.countP_cons]
      by_cases hv : e.target = v
      · have hone : (m.insert e.target ((m.lookup e.target).getD 0 + 1)).lookup v = some (k + 1) := by
          rw [Finmap.lookup_insert_eq, if_pos hv.symm, hv, h]
          rfl
        rw [ih hone]
        simp [hv]
        omega
      · have hsame : (m.insert e.target ((m.lookup e.target).getD 0 + 1)).lookup v = some k := by
          rw [Finmap.lookup_insert_eq, if_neg (Ne.symm hv), h]
        rw [ih hsame]
        simp [hv]

theorem lookup_inDegrees {v : String} (hv : v ∈ spec.ids) :
    spec.inDegrees.lookup v = some (spec.edgesLeft [] v) := by
  have hzero : (spec.nodes.foldl (fun m n => m.insert n.id 0) (∅ : FiniteMap String ℕ)).lookup v =
      some 0 := by
    rw [lookup_zeros]
    exact if_pos hv
  unfold FlowSpec.inDegrees FlowSpec.edgesLeft
  rw [lookup_counts spec.edges hzero]
  simp

theorem edgesLeft_split {out : List String} {u : String} (hu : u ∉ out) (v : String) :
    spec.edgesLeft out v = spec.edgesLeft (out ++ [u]) v + (spec.successors u).count v := by
  unfold FlowSpec.edgesLeft FlowSpec.successors
  induction spec.edges with
  | nil => rfl
  | cons e es ih =>
      rw [List.countP_cons, List.countP_cons, ih]
      by_cases hsource : e.source = u
      · by_cases hv : e.target = v
        · simp [hsource, hv, hu]
          omega
        · simp [hsource, hv]
      · by_cases hv : e.target = v ∧ e.source ∉ out
        · simp [hsource, hv]
          omega
        · simp [hsource, hv]

/-- When an edge has been used, the map is still large enough for the others. -/
theorem counts_rest {v : String} {vs : List String} {m : FiniteMap String ℕ} {d : ℕ}
    (hd : m.lookup v = some (d + 1))
    (h : ∀ w ∈ v :: vs, ∃ d, m.lookup w = some d ∧ (v :: vs).count w ≤ d) :
    ∀ w ∈ vs, ∃ d', (m.insert v d).lookup w = some d' ∧ vs.count w ≤ d' := by
  intro w hw
  obtain ⟨d', hd', hle⟩ := h w (List.mem_cons_of_mem _ hw)
  rw [Finmap.lookup_insert_eq]
  by_cases hwv : w = v
  · subst hwv
    cases hd.symm.trans hd'
    rw [List.count_cons_self] at hle
    exact ⟨d, if_pos rfl, by omega⟩
  · rw [List.count_cons_of_ne (Ne.symm hwv)] at hle
    exact ⟨d', by rw [if_neg hwv, hd'], hle⟩

/-- **What using some edges does**: the map is less by their number, and the nodes that have
none left are queued, each once. -/
theorem useEdges_spec {vs : List String} {m : FiniteMap String ℕ} (queue : List String)
    (h : ∀ v ∈ vs, ∃ d, m.lookup v = some d ∧ vs.count v ≤ d) :
    ∃ m' new, useEdges vs m queue = some (m', queue ++ new) ∧
      (∀ v, m'.lookup v = (m.lookup v).map fun d => d - vs.count v) ∧ new.Nodup ∧
      ∀ v, v ∈ new ↔ v ∈ vs ∧ m.lookup v = some (vs.count v) := by
  induction vs generalizing m queue with
  | nil => exact ⟨m, [], by simp [useEdges], by simp, List.nodup_nil, by simp⟩
  | cons v vs ih =>
      obtain ⟨d, hd, hle⟩ := h v (List.mem_cons_self ..)
      rw [List.count_cons_self] at hle
      obtain ⟨d, rfl⟩ : ∃ d', d = d' + 1 := ⟨d - 1, by omega⟩
      have hrest := counts_rest hd h
      obtain ⟨m', new, huse, hlookup, hnodup, hnew⟩ := ih (if d = 0 then queue ++ [v] else queue) hrest
      refine ⟨m', (if d = 0 then [v] else []) ++ new, ?_, fun w => ?_, ?_, fun w => ?_⟩
      · rw [useEdges, hd]
        dsimp only [wrappingPred]
        rw [huse]
        split <;> simp
      · rw [hlookup, Finmap.lookup_insert_eq]
        by_cases hwv : w = v
        · subst hwv
          rw [if_pos rfl, hd, List.count_cons_self]
          simp
        · rw [if_neg hwv, List.count_cons_of_ne (Ne.symm hwv)]
      · by_cases hzero : d = 0
        · -- the last edge has been used, so the node is not queued again
          subst hzero
          have hnot : v ∉ new := by
            intro hv
            have hmem := ((hnew v).1 hv).1
            have hpos := List.count_pos_iff.2 hmem
            omega
          simpa using ⟨hnot, hnodup⟩
        · simpa [hzero] using hnodup
      · rw [List.mem_append, hnew, Finmap.lookup_insert_eq]
        by_cases hwv : w = v
        · subst hwv
          rw [if_pos rfl, hd, List.count_cons_self]
          by_cases hzero : d = 0
          · subst hzero
            have hcount : vs.count w = 0 := by omega
            simp [hcount]
          · have hmem : vs.count w = d → w ∈ vs := fun heq => List.count_pos_iff.1 (by omega)
            simp only [hzero, if_false, List.not_mem_nil, false_or, Option.some.injEq,
              List.mem_cons, true_or, true_and, Nat.add_right_cancel_iff]
            constructor
            · rintro ⟨-, heq⟩
              exact heq
            · intro heq
              exact ⟨hmem heq.symm, heq⟩
        · rw [if_neg hwv, List.count_cons_of_ne (Ne.symm hwv)]
          have hnone : w ∉ (if d = 0 then [v] else []) := by
            split <;> simp [hwv]
          simp [hnone, hwv]

/-- What holds of the loop: a node has been queued when no edge into it is left, once. -/
structure Kahn (spec : FlowSpec χ) (out queue : List String) (indeg : FiniteMap String ℕ) :
    Prop where
  nodup : (out ++ queue).Nodup
  lookup : ∀ v ∈ spec.ids, indeg.lookup v = some (spec.edgesLeft out v)
  queued : ∀ v, v ∈ out ++ queue ↔ v ∈ spec.ids ∧ spec.edgesLeft out v = 0

/-- It holds when the loop begins, in whatever order the map is iterated over. -/
theorem kahn_sources {order : List String} (horder : order.Perm spec.ids) (hids : spec.ids.Nodup) :
    Kahn spec [] (spec.sources order) spec.inDegrees := by
  refine ⟨?_, fun v hv => lookup_inDegrees hv, fun v => ?_⟩
  · exact (horder.nodup_iff.2 hids).filter _
  · unfold FlowSpec.sources
    rw [List.nil_append, List.mem_filter, horder.mem_iff, decide_eq_true_iff]
    constructor
    · rintro ⟨hv, hzero⟩
      rw [lookup_inDegrees hv] at hzero
      exact ⟨hv, Option.some.inj hzero⟩
    · rintro ⟨hv, hzero⟩
      exact ⟨hv, by rw [lookup_inDegrees hv, hzero]⟩

theorem Kahn.notMem_out {out queue : List String} {indeg : FiniteMap String ℕ} {u : String}
    (h : Kahn spec out (u :: queue) indeg) : u ∉ out := by
  intro hmem
  exact (List.nodup_append.1 h.nodup).2.2 u hmem u (List.mem_cons_self ..) rfl

theorem mem_ids_of_successors (hvalid : spec.validate = .ok ()) {u v : String}
    (hv : v ∈ spec.successors u) : v ∈ spec.ids := by
  obtain ⟨e, he, rfl⟩ := List.mem_map.1 hv
  exact (FlowSpec.mem_ids_of_validate hvalid (List.mem_filter.1 he).1).2

theorem kahn_counts {out queue : List String} {indeg : FiniteMap String ℕ} {u : String}
    (hvalid : spec.validate = .ok ()) (h : Kahn spec out (u :: queue) indeg) :
    ∀ v ∈ spec.successors u, ∃ d, indeg.lookup v = some d ∧ (spec.successors u).count v ≤ d := by
  intro v hv
  refine ⟨_, h.lookup v (mem_ids_of_successors hvalid hv), ?_⟩
  rw [edgesLeft_split h.notMem_out v]
  exact Nat.le_add_left _ _

/-- **One turn of the loop** keeps it, and does not panic. -/
theorem kahn_step {out queue : List String} {indeg : FiniteMap String ℕ} {u : String}
    (hvalid : spec.validate = .ok ()) (h : Kahn spec out (u :: queue) indeg) :
    ∃ indeg' queue', useEdges (spec.successors u) indeg queue = some (indeg', queue') ∧
      Kahn spec (out ++ [u]) queue' indeg' := by
  have hsplit : ∀ v, spec.edgesLeft out v =
      spec.edgesLeft (out ++ [u]) v + (spec.successors u).count v := edgesLeft_split h.notMem_out
  have htargets : ∀ v ∈ spec.successors u, v ∈ spec.ids := fun v =>
    mem_ids_of_successors hvalid
  obtain ⟨indeg', new, huse, hlookup, hnodup, hnew⟩ := useEdges_spec queue (kahn_counts hvalid h)
  have hready : ∀ v, v ∈ new ↔ v ∈ spec.successors u ∧ spec.edgesLeft (out ++ [u]) v = 0 := by
    intro v
    rw [hnew]
    refine and_congr_right fun hv => ?_
    rw [h.lookup v (htargets v hv), Option.some.injEq, hsplit v]
    omega
  have hfirst : (out ++ [u]) ++ (queue ++ new) = (out ++ u :: queue) ++ new := by simp
  refine ⟨indeg', queue ++ new, huse, ?_, fun v hv => ?_, fun v => ?_⟩
  · rw [hfirst]
    refine List.nodup_append.2 ⟨h.nodup, hnodup, ?_⟩
    rintro v hv w hw rfl
    -- a node that was queued had no edge left
    have hzero := ((h.queued v).1 hv).2
    have hmem := List.count_pos_iff.2 ((hready v).1 hw).1
    rw [hsplit v] at hzero
    omega
  · rw [hlookup, h.lookup v hv, hsplit v]
    simp
  · rw [hfirst, List.mem_append, h.queued, hready]
    by_cases hv : v ∈ spec.successors u
    · have hpos := List.count_pos_iff.2 hv
      have hnot : spec.edgesLeft out v ≠ 0 := by
        rw [hsplit v]
        omega
      simp [hnot, hv, htargets v hv]
    · have hzero := List.count_eq_zero.2 hv
      simp [hsplit v, hzero, hv]

/-- **The loop** comes to an end with an empty queue. -/
theorem kahn_run (hvalid : spec.validate = .ok ()) {fuel : ℕ} {out queue : List String}
    {indeg : FiniteMap String ℕ} (h : Kahn spec out queue indeg)
    (hfuel : spec.ids.length < fuel + out.length) :
    ∃ out' indeg', spec.orderFrom fuel queue indeg out = some out' ∧ Kahn spec out' [] indeg' := by
  induction fuel generalizing out queue indeg with
  | zero =>
      have hsub : (out ++ queue).length ≤ spec.ids.length :=
        (h.nodup.subperm fun v hv => ((h.queued v).1 hv).1).length_le
      rw [List.length_append] at hsub
      omega
  | succ fuel ih =>
      cases queue with
      | nil => exact ⟨out, indeg, rfl, h⟩
      | cons u queue =>
          obtain ⟨indeg', queue', huse, hnext⟩ := kahn_step hvalid h
          rw [FlowSpec.orderFrom, huse]
          refine ih hnext ?_
          rw [List.length_append, List.length_singleton]
          omega

/-- **What `execution_order` returns**: with distinct ids it does not panic, and an order is one
of all the nodes. -/
theorem executionOrder_perm {order out : List String} (hids : spec.ids.Nodup)
    (horder : order.Perm spec.ids) (h : spec.executionOrder order = .ok out) :
    out.Perm spec.ids := by
  unfold FlowSpec.executionOrder at h
  cases hvalid : spec.validate with
  | error e =>
      rw [hvalid] at h
      cases h
  | ok u =>
      have hfuel : spec.ids.length < spec.nodes.length + 1 + ([] : List String).length := by
        simp [FlowSpec.ids]
      obtain ⟨out', indeg', hrun, hkahn⟩ := kahn_run hvalid (kahn_sources horder hids) hfuel
      rw [hvalid, hrun] at h
      dsimp only at h
      split at h
      · cases h
      · next hlen =>
          cases h
          have hnodup : out.Nodup := by simpa using hkahn.nodup
          have hsub : out ⊆ spec.ids := fun v hv => ((hkahn.queued v).1 (by simpa using hv)).1
          refine (hnodup.subperm hsub).perm_of_length_le ?_
          rw [FlowSpec.ids, List.length_map]
          exact (not_not.1 hlen).ge

end Order

end PeerClaw
