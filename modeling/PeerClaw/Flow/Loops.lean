import PeerClaw.Flow.Structure
import PeerClaw.Lib.Countdown
import PeerClaw.Lib.Trace

/-!
# While nodes

A while node counts how often it has looped, and forgets the count when it is
left.  Loops may be nested or cross each other, so no count grows all along; but
a flow that has no cycles apart from the edges its while nodes loop through is a
walk of `Lib.Countdown`, and its runs end.

* `body_walks` — one turn goes down the graph, or it loops and counts.
* `loops_end` — every run ends, whatever the conditions evaluate to; between two exits a
  while node loops as often as it may at most, and its condition sees how often it has.
-/

namespace PeerClaw

open Lib Lib.Check Lib.Machine Lib.Trace Lib.Countdown

/-! ## The graph without its loops -/

section Graph

variable {χ : Type} (spec : FlowSpec χ)

/-- The id belongs to a while node. -/
def FlowSpec.IsWhile (id : String) : Prop := ∃ n ∈ spec.nodes, n.id = id ∧ n.readKind = .while

/-- An edge that is not one a while node loops through. -/
def FlowSpec.Residual (u v : String) : Prop :=
  ∃ e ∈ spec.edges, e.source = u ∧ e.target = v ∧
    ¬ (spec.IsWhile u ∧ normalizeLabel e.label = some "loop")

/-- How often the node under an id may loop. -/
def FlowSpec.limit (id : String) : ℕ := ((spec.node? id).map fun n => n.maxIter.toNat).getD 0

variable {spec} in
theorem FlowSpec.limit_of_node {id : String} {n : FlowNode χ} (h : spec.node? id = some n) :
    spec.limit id = n.maxIter.toNat := by
  rw [FlowSpec.limit, h]
  rfl

end Graph

/-! ## What a while node does -/

section While

variable {χ : Type} {inputs : Value} {d : FlowDraw χ} {st : FlowState} {cur id : String}
  {n : FlowNode χ} {move : WhileMove} {iteration : UInt32}

/-- How often a while node has looped since it was last left. -/
def FlowState.looped (st : FlowState) (id : String) : ℕ := (st.done id).toNat

theorem looped_congr {st st' : FlowState} (h : st.whileIter = st'.whileIter) :
    st.looped id = st'.looped id := by
  rw [FlowState.looped, FlowState.looped, FlowState.done, FlowState.done, h]

/-- How a while node can go on. -/
def WhileMove.Possible (n : FlowNode χ) (done : UInt32) : WhileMove → Prop
  | .exhausted => n.maxIter ≤ done
  | .exit iteration | .loop iteration => iteration = done ∧ done < n.maxIter

/-- **A while node goes on** as its counter lets it, and the condition sees the counter. -/
theorem whileMove_ok (h : whileMove inputs d st cur n = .ok move) :
    move.Possible n (st.done cur) := by
  unfold whileMove at h
  dsimp only at h
  split at h
  · next hle =>
      cases h
      exact hle
  · next hlt =>
      have hlt : st.done cur < n.maxIter := UInt32.not_le.1 hlt
      obtain ⟨cond, -, hmove⟩ := bind_ok_iff.1 h
      cases cond with
      | false =>
          cases hmove
          exact ⟨rfl, hlt⟩
      | true =>
          cases hmove
          exact ⟨rfl, hlt⟩

theorem looped_goOn_ne (hid : id ≠ cur) : (goOn st cur move).1.looped id = st.looped id := by
  have herase : ((st.whileIter.erase cur).lookup id).getD 0 = (st.whileIter.lookup id).getD 0 := by
    rw [Finmap.lookup_erase_ne hid]
  cases move with
  | exhausted => exact congrArg UInt32.toNat herase
  | exit iteration => exact congrArg UInt32.toNat herase
  | loop iteration =>
      refine congrArg UInt32.toNat ?_
      show ((st.whileIter.insert cur _).lookup id).getD 0 = (st.whileIter.lookup id).getD 0
      rw [Finmap.lookup_insert_of_ne _ hid]

theorem looped_goOn_exit (h : ∀ iteration, move ≠ .loop iteration) :
    (goOn st cur move).1.looped cur = 0 := by
  have herase : ((st.whileIter.erase cur).lookup cur).getD 0 = 0 := by
    rw [Finmap.lookup_erase]
    rfl
  cases move with
  | exhausted => exact congrArg UInt32.toNat herase
  | exit iteration => exact congrArg UInt32.toNat herase
  | loop iteration => exact absurd rfl (h iteration)

/-- A node that loops counts; the counter is below its limit and does not wrap. -/
theorem looped_goOn_loop (hlt : st.done cur < n.maxIter) :
    (goOn st cur (.loop iteration)).1.looped cur = st.looped cur + 1 := by
  have hinsert : (goOn st cur (.loop iteration)).1.done cur = st.done cur + 1 := by
    show ((st.whileIter.insert cur _).lookup cur).getD 0 = _
    rw [Finmap.lookup_insert]
    rfl
  have hbound : (st.done cur).toNat < n.maxIter.toNat := UInt32.lt_iff_toNat_lt.1 hlt
  have hmax : n.maxIter.toNat < 4294967296 := n.maxIter.toNat_lt
  unfold FlowState.looped
  rw [hinsert, UInt32.toNat_add]
  have hone : (1 : UInt32).toNat = 1 := rfl
  omega

end While

/-! ## Events -/

/-- What happens at a while node. -/
inductive LoopEvent
  /-- Its condition is evaluated. -/
  | asks (id : String) (iteration : UInt32)
  /-- Its loop edge is taken. -/
  | loops (id : String)
  /-- Its exit edge is taken. -/
  | exits (id : String)
  deriving DecidableEq

/-- How often a node has looped since its last exit. -/
def sinceExit (id : String) (log : List LoopEvent) : ℕ :=
  log.foldl (fun k e =>
    match e with
    | .asks .. => k
    | .loops i => if i = id then k + 1 else k
    | .exits i => if i = id then 0 else k) 0

section Law

variable {χ : Type} {spec : FlowSpec χ} {log : List LoopEvent} {id i : String}

@[simp] theorem sinceExit_asks {iteration : UInt32} :
    sinceExit id (log ++ [.asks i iteration]) = sinceExit id log := by
  simp [sinceExit]

@[simp] theorem sinceExit_loops :
    sinceExit id (log ++ [.loops i]) = if i = id then sinceExit id log + 1 else sinceExit id log := by
  simp [sinceExit]

@[simp] theorem sinceExit_exits :
    sinceExit id (log ++ [.exits i]) = if i = id then 0 else sinceExit id log := by
  simp [sinceExit]

/-- The condition sees how often its node has looped since the last exit, and a node that
loops may do so once more. -/
def LoopLaw (spec : FlowSpec χ) (log : List LoopEvent) : LoopEvent → Prop
  | .asks id iteration => iteration.toNat = sinceExit id log
  | .loops id => sinceExit id log < spec.limit id
  | .exits _ => True

/-- **Between two exits** a node loops as often as it may at most. -/
theorem sinceExit_le (h : Lawful (LoopLaw spec) log) : sinceExit id log ≤ spec.limit id := by
  induction log using List.reverseRecOn with
  | nil => exact Nat.zero_le _
  | append_singleton log e ih =>
      obtain ⟨hlog, he⟩ := lawful_snoc.1 h
      have hle := ih hlog
      cases e with
      | asks i iteration => rwa [sinceExit_asks]
      | loops i =>
          rw [sinceExit_loops]
          split
          · next hid =>
              subst hid
              exact he
          · exact hle
      | exits i =>
          rw [sinceExit_exits]
          split
          · exact Nat.zero_le _
          · exact hle

end Law

/-! ## Turns -/

namespace FlowRun

variable {χ : Type}

/-- What a while node asks before it goes on. -/
def asked (cur : String) : WhileMove → List LoopEvent
  | .exhausted => []
  | .exit iteration | .loop iteration => [.asks cur iteration]

/-- The edge it takes. -/
def took (cur : String) : WhileMove → LoopEvent
  | .exhausted | .exit _ => .exits cur
  | .loop _ => .loops cur

/-- The events at a while node; a condition that fails has been asked, too. -/
def whileEvents (spec : FlowSpec χ) (inputs : Value) (d : FlowDraw χ) (st : FlowState) (cur : String)
    (n : FlowNode χ) : List LoopEvent :=
  match whileMove inputs d st cur n with
  | .error _ => [.asks cur (st.done cur)]
  | .ok move =>
      match follow n (spec.outgoing cur) (goOn st cur move).2 with
      | .error _ => asked cur move
      | .ok _ => asked cur move ++ [took cur move]

/-- The events of a turn. -/
def loopEvents (cap : Option ℕ) (spec : FlowSpec χ) (inputs : Value) (st : FlowState)
    (d : FlowDraw χ) : List LoopEvent :=
  match st.cursor with
  | none => []
  | some cur =>
      if cap.any fun cap => cap < st.stepsGuard + 1 then []
      else
        match spec.node? cur with
        | none => []
        | some n => if n.readKind = .while then whileEvents spec inputs d (taken st) cur n else []

variable {w : FlowWorld} {spec : FlowSpec χ} {inputs : Value} {d : FlowDraw χ} {st st' : FlowState}
  {cap : Option ℕ} {cur : String} {n : FlowNode χ} {turn : FlowState × Option String}

theorem visit_while (hkind : n.readKind = .while) :
    visit w spec inputs d st cur n = visitWhile inputs d st cur n := by
  unfold visit
  rw [hkind]

theorem known_of_visit (h : visit w spec inputs d st cur n = .ok turn) : n.readKind.Known := by
  unfold visit at h
  cases hkind : n.readKind with
  | unknown kind =>
      rw [hkind] at h
      cases h
  | _ => trivial

theorem body_ok (h : body w spec inputs d st cur = .ok st') :
    ∃ n turn next, spec.node? cur = some n ∧ visit w spec inputs d st cur n = .ok turn ∧
      follow n (spec.outgoing cur) turn.2 = .ok next ∧ st' = { turn.1 with cursor := next } := by
  unfold body at h
  cases hnode : spec.node? cur with
  | none =>
      rw [hnode] at h
      cases h
  | some n =>
      rw [hnode] at h
      obtain ⟨turn, hturn, h⟩ := bind_ok_iff.1 h
      obtain ⟨next, hnext, h⟩ := bind_ok_iff.1 h
      cases h
      exact ⟨n, turn, next, rfl, hturn, hnext, rfl⟩

/-! ## One turn goes down the graph, or it counts -/

/-- An edge with another label than the loop's is one of the graph without loops. -/
theorem residual_of_label {next : String} {label : Option String}
    (hmem : (next, label) ∈ spec.outgoing cur) (hlabel : normalizeLabel label ≠ some "loop") :
    spec.Residual cur next :=
  ⟨_, FlowSpec.mem_edges_of_outgoing hmem, rfl, rfl, fun h => hlabel h.2⟩

theorem two_le_of_while (hinterp : validateInterpreter spec = .ok ()) (h : spec.IsWhile cur) :
    (spec.outgoing cur).length ≠ 1 := by
  obtain ⟨n, hn, rfl, hkind⟩ := h
  have hcheck := validateInterpreter_ok hinterp hn (by rw [hkind]; decide)
  have hloop : labeled "loop" (spec.outgoing n.id) ≠ [] :=
    labeled_of_check hcheck (by rw [hkind]; decide)
  have hexit : labeled "exit" (spec.outgoing n.id) ≠ [] :=
    labeled_of_check hcheck (by rw [hkind]; decide)
  intro hone
  obtain ⟨out, hout⟩ := List.length_eq_one_iff.1 hone
  rw [hout] at hloop hexit
  have hread : ∀ {want}, labeled want [out] ≠ [] → normalizeLabel out.2 = some want := by
    intro want hne
    by_contra hnot
    exact hne (by simp [labeled, hnot])
  have hboth := (hread hloop).symm.trans (hread hexit)
  exact absurd hboth (by decide)

/-- **A node that is no while node** is left through an edge of the graph without loops. -/
theorem residual_of_plain {next : String} (hinterp : validateInterpreter spec = .ok ())
    (hkind : n.readKind ≠ .while) (hturn : Leaves n.readKind st turn)
    (h : follow n (spec.outgoing cur) turn.2 = .ok (some next)) : spec.Residual cur next := by
  unfold follow at h
  split at h
  · cases h
  · obtain ⟨label, hmem, hchosen⟩ := pickNext_mem h
    by_cases hnone : n.readKind.branches = []
    · -- the edge is the only one, or it has not the label of a loop
      rcases hchosen.2 hnone with hone | hlabel | hlabel
      · refine ⟨_, FlowSpec.mem_edges_of_outgoing hmem, rfl, rfl, fun hloop => ?_⟩
        exact two_le_of_while hinterp hloop.1 hone
      · exact residual_of_label hmem (by rw [hlabel]; exact Option.some_ne_none _ |>.symm)
      · exact residual_of_label hmem (by rw [hlabel]; decide)
    · obtain ⟨b, hb, hlabel⟩ := hchosen.1 hnone
      obtain ⟨b', hmem', hb'⟩ := hturn.branch hnone
      obtain rfl := Option.some.inj (hb.symm.trans hb')
      refine residual_of_label hmem ?_
      rw [hlabel, lowercase_branch hmem']
      cases hcases : n.readKind <;> rw [hcases] at hmem' hkind <;>
        simp only [NodeKind.branches, List.mem_cons, List.not_mem_nil, or_false] at hmem'
      case «while» => exact absurd rfl hkind
      all_goals rcases hmem' with rfl | rfl <;> decide

/-- How many nodes there are below a node, in the graph without loops. -/
noncomputable def depth (spec : FlowSpec χ) : String → ℕ :=
  Countdown.height spec.Residual spec.ids.toFinset

/-- A run, as a walk. -/
def walk (st : FlowState) : Walk String := ⟨st.cursor.getD "", st.looped⟩

section Valid

variable (hvalid : spec.validate = .ok ()) (hinterp : validateInterpreter spec = .ok ())
  (hacyclic : ∀ id, ¬ Relation.TransGen spec.Residual id id)

include hvalid hacyclic in
theorem depth_lt {next : String} (h : spec.Residual cur next) :
    depth spec next < depth spec cur := by
  refine height_lt hacyclic h ?_
  obtain ⟨e, he, -, rfl, -⟩ := h
  exact List.mem_toFinset.2 (FlowSpec.mem_ids_of_validate hvalid he).2

include hvalid hinterp hacyclic in
/-- **One turn** goes down the graph without loops, or it loops and counts. -/
theorem body_walks {next : String} (hcursor : st.cursor = some cur)
    (h : body w spec inputs d (taken st) cur = .ok st') (hnext : st'.cursor = some next) :
    Forward (depth spec) (walk st) (walk st') ∨ Loops spec.limit (walk st) (walk st') := by
  have hplace : (walk st).place = cur := by rw [walk, hcursor]; rfl
  have hplace' : (walk st').place = next := by rw [walk, hnext]; rfl
  obtain ⟨n, turn, next', hnode, hvisit, hfollow, rfl⟩ := body_ok h
  obtain rfl : next' = some next := hnext
  by_cases hkind : n.readKind = .while
  · rw [visit_while hkind] at hvisit
    obtain ⟨move, hmove, hturn⟩ := bind_ok_iff.1 hvisit
    obtain rfl : goOn (taken st) cur move = turn := Except.ok.inj hturn
    have hothers : ∀ p, p ≠ cur → (goOn (taken st) cur move).1.looped p = st.looped p :=
      fun p hp => looped_goOn_ne hp
    cases move with
    | loop iteration =>
        obtain ⟨-, hlt⟩ := whileMove_ok hmove
        refine .inr ⟨?_, ?_, fun p hp => hothers p (hplace ▸ hp)⟩
        · rw [hplace, FlowSpec.limit_of_node hnode]
          exact UInt32.lt_iff_toNat_lt.1 hlt
        · rw [hplace]
          show st.looped cur < (goOn (taken st) cur (.loop iteration)).1.looped cur
          rw [looped_goOn_loop hlt]
          exact Nat.lt_succ_self _
    | _ =>
        have hresidual : spec.Residual cur next := by
          unfold follow at hfollow
          rw [if_neg (by rw [hkind]; decide)] at hfollow
          obtain ⟨label, hmem, hchosen⟩ := pickNext_mem hfollow
          obtain ⟨b, hb, hlabel⟩ := hchosen.1 (by rw [hkind]; decide)
          obtain rfl : b = "exit" := (Option.some.inj hb).symm
          exact residual_of_label hmem (by rw [hlabel]; decide)
        refine .inl ⟨?_, fun p hp => hothers p (hplace ▸ hp)⟩
        rw [hplace, hplace']
        exact depth_lt hvalid hacyclic hresidual
  · have hturn : Leaves n.readKind (taken st) turn := by
      have hsat : Sat (Leaves n.readKind (taken st)) FlowError.IsFailed
          (visit w spec inputs d (taken st) cur n) := visit_leaves (known_of_visit hvisit)
      rw [hvisit] at hsat
      exact hsat.of_ok
    refine .inl ⟨?_, fun p _ => looped_congr (hturn.counts hkind)⟩
    rw [hplace, hplace']
    exact depth_lt hvalid hacyclic (residual_of_plain hinterp hkind hturn hfollow)

/-! ## Every run ends -/

theorem not_capped : ¬ Capped none st := by
  rintro ⟨c, ⟨⟩, -⟩

/-- The state of a run without a cap on its turns, after some of them. -/
def after (w : FlowWorld) (spec : FlowSpec χ) (inputs : Value) (draws : ℕ → FlowDraw χ) (k : ℕ) :
    FlowState :=
  run (step none w spec inputs) (initial spec) ((List.range k).map draws)

theorem after_succ (draws : ℕ → FlowDraw χ) (k : ℕ) : after w spec inputs draws (k + 1) =
    step none w spec inputs (after w spec inputs draws k) (draws k) := by
  simp [after, run, List.range_succ]

include hvalid in
/-- The cursor is at a node of the flow, as long as there is a cursor. -/
theorem onGraph_step (d : FlowDraw χ) (h : OnGraph spec st) :
    OnGraph spec (step cap w spec inputs st d) := by
  cases hcursor : st.cursor with
  | none => rwa [step_ended hcursor]
  | some cur =>
      by_cases hcap : Capped cap st
      · rw [step_capped hcursor hcap]
        rintro id ⟨⟩
      · rw [step_body hcursor hcap]
        cases hbody : body w spec inputs d (taken st) cur with
        | error e => rintro id ⟨⟩
        | ok st' =>
            obtain ⟨n, turn, next, -, -, hfollow, rfl⟩ := body_ok hbody
            exact onGraph_follow hvalid hfollow

include hvalid hinterp hacyclic in
/-- **Every run ends**, however its conditions evaluate and without a cap on its turns. -/
theorem run_ends (hstart : spec.hasInterpreterStart) (draws : ℕ → FlowDraw χ) :
    ∃ k, Ended (after w spec inputs draws k) := by
  have hgraph : ∀ k, OnGraph spec (after w spec inputs draws k) := by
    intro k
    induction k with
    | zero => exact (inv_initial hstart).onGraph
    | succ k ih =>
        rw [after_succ]
        exact onGraph_step hvalid (draws k) ih
  by_contra hnever
  have hwalks : ∀ k, (walk (after w spec inputs draws k)).place ∈ spec.ids.toFinset ∧
      (Forward (depth spec) (walk (after w spec inputs draws k))
          (walk (after w spec inputs draws (k + 1))) ∨
        Loops spec.limit (walk (after w spec inputs draws k))
          (walk (after w spec inputs draws (k + 1)))) := by
    intro k
    obtain ⟨cur, hcursor⟩ := Option.ne_none_iff_exists'.1 fun hnone => hnever ⟨k, hnone⟩
    obtain ⟨next, hnext⟩ := Option.ne_none_iff_exists'.1 fun hnone => hnever ⟨k + 1, hnone⟩
    refine ⟨?_, ?_⟩
    · rw [walk, hcursor]
      exact List.mem_toFinset.2 (hgraph k cur hcursor)
    · rw [after_succ, step_body hcursor not_capped] at hnext ⊢
      cases hbody : body w spec inputs (draws k) (taken (after w spec inputs draws k)) cur with
      | ok st' =>
          rw [hbody] at hnext
          exact body_walks hvalid hinterp hacyclic hcursor hbody hnext
      | error e =>
          rw [hbody] at hnext
          cases hnext
  have hbound : ∀ p ∈ spec.ids.toFinset, depth spec p ≤ spec.ids.toFinset.card :=
    fun p _ => height_le p
  exact hnever (walk_ends walk hbound fun k => .inr (hwalks k))

end Valid

/-! ## Every event is lawful -/

/-- As long as a run goes on, its log and its counters agree. -/
def Counted (st : FlowState) (log : List LoopEvent) : Prop :=
  ∀ cur, st.cursor = some cur → ∀ id, sinceExit id log = st.looped id

theorem counted_initial (spec : FlowSpec χ) : Counted (initial spec) [] := fun _ _ _ => rfl

theorem counted_ended {log : List LoopEvent} (h : st.cursor = none) : Counted st log := by
  intro cur hcur
  rw [h] at hcur
  cases hcur

section Law

variable {log : List LoopEvent} {move : WhileMove} (h : ∀ id, sinceExit id log = st.looped id)

include h in
theorem asked_lawful (hmove : move.Possible n (st.done cur)) :
    Continues (LoopLaw spec) log (asked cur move) := by
  cases move with
  | exhausted => trivial
  | exit iteration =>
      obtain ⟨rfl, -⟩ := hmove
      exact ⟨(h cur).symm, trivial⟩
  | loop iteration =>
      obtain ⟨rfl, -⟩ := hmove
      exact ⟨(h cur).symm, trivial⟩

theorem sinceExit_asked {id : String} : sinceExit id (log ++ asked cur move) = sinceExit id log := by
  cases move <;> simp [asked]

include h in
theorem took_lawful (hnode : spec.node? cur = some n) (hmove : move.Possible n (st.done cur)) :
    LoopLaw spec (log ++ asked cur move) (took cur move) := by
  cases move with
  | exhausted => trivial
  | exit iteration => trivial
  | loop iteration =>
      obtain ⟨-, hlt⟩ := hmove
      show sinceExit cur (log ++ asked cur (.loop iteration)) < spec.limit cur
      rw [sinceExit_asked, h cur, FlowSpec.limit_of_node hnode]
      exact UInt32.lt_iff_toNat_lt.1 hlt

include h in
theorem took_counted (hmove : move.Possible n (st.done cur)) (id : String) :
    sinceExit id (log ++ asked cur move ++ [took cur move]) = (goOn st cur move).1.looped id := by
  have hexit : (∀ iteration, move ≠ .loop iteration) →
      (if cur = id then 0 else sinceExit id log) = (goOn st cur move).1.looped id := by
    intro hmove
    by_cases hid : cur = id
    · subst hid
      rw [if_pos rfl, looped_goOn_exit hmove]
    · rw [if_neg hid, looped_goOn_ne (Ne.symm hid), h id]
  cases move with
  | exhausted =>
      rw [took, sinceExit_exits, sinceExit_asked]
      exact hexit (by simp)
  | exit iteration =>
      rw [took, sinceExit_exits, sinceExit_asked]
      exact hexit (by simp)
  | loop iteration =>
      rw [took, sinceExit_loops, sinceExit_asked]
      by_cases hid : cur = id
      · subst hid
        rw [if_pos rfl, looped_goOn_loop hmove.2, h cur]
      · rw [if_neg hid, looped_goOn_ne (Ne.symm hid), h id]

end Law

theorem body_while (hnode : spec.node? cur = some n) (hkind : n.readKind = .while) :
    body w spec inputs d st cur = do
      let move ← whileMove inputs d st cur n
      let next ← follow n (spec.outgoing cur) (goOn st cur move).2
      return { (goOn st cur move).1 with cursor := next } := by
  unfold body
  rw [hnode]
  dsimp only
  rw [visit_while hkind, visitWhile]
  cases whileMove inputs d st cur n <;> rfl

theorem loopEvents_ended (h : st.cursor = none) : loopEvents cap spec inputs st d = [] := by
  simp only [loopEvents, h]

theorem loopEvents_capped (hcursor : st.cursor = some cur) (hcap : Capped cap st) :
    loopEvents cap spec inputs st d = [] := by
  unfold loopEvents
  rw [hcursor]
  exact if_pos (any_of_capped hcap)

theorem loopEvents_node (hcursor : st.cursor = some cur) (hcap : ¬ Capped cap st)
    (hnode : spec.node? cur = some n) : loopEvents cap spec inputs st d =
      if n.readKind = .while then whileEvents spec inputs d (taken st) cur n else [] := by
  simp only [loopEvents, hcursor, any_of_not_capped hcap, hnode]
  rfl

/-- **A turn at a while node** puts out lawful events, and goes on counting. -/
theorem while_lawful {log : List LoopEvent} (h : ∀ id, sinceExit id log = st.looped id)
    (hnode : spec.node? cur = some n) (hkind : n.readKind = .while) :
    Continues (LoopLaw spec) log (whileEvents spec inputs d st cur n) ∧
      Sat (fun st' => Counted st' (log ++ whileEvents spec inputs d st cur n)) (fun _ => True)
        (body w spec inputs d st cur) := by
  rw [body_while hnode hkind, whileEvents]
  cases hmove : whileMove inputs d st cur n with
  | error e => exact ⟨⟨(h cur).symm, trivial⟩, .error trivial⟩
  | ok move =>
      have hpossible := whileMove_ok hmove
      simp only [bind, Except.bind]
      cases hfollow : follow n (spec.outgoing cur) (goOn st cur move).2 with
      | error e => exact ⟨asked_lawful h hpossible, .error trivial⟩
      | ok next =>
          refine ⟨continues_append.2 ⟨asked_lawful h hpossible, ?_, trivial⟩, .ok fun _ _ id => ?_⟩
          · exact took_lawful h hnode hpossible
          · rw [← List.append_assoc]
            exact took_counted h hpossible id

theorem plain_counted {log : List LoopEvent} (h : ∀ id, sinceExit id log = st.looped id)
    (hnode : spec.node? cur = some n) (hkind : n.readKind ≠ .while) :
    Sat (fun st' => Counted st' log) (fun _ => True) (body w spec inputs d st cur) := by
  cases hbody : body w spec inputs d st cur with
  | error e => exact .error trivial
  | ok st' =>
      refine .ok fun _ _ id => ?_
      obtain ⟨n', turn, next, hnode', hvisit, -, rfl⟩ := body_ok hbody
      obtain rfl := Option.some.inj (hnode.symm.trans hnode')
      have hturn : Sat (Leaves n.readKind st) FlowError.IsFailed (visit w spec inputs d st cur n) :=
        visit_leaves (known_of_visit hvisit)
      rw [hvisit] at hturn
      rw [h id]
      exact looped_congr (hturn.of_ok.counts hkind).symm

/-- **One turn** puts out lawful events. -/
theorem step_lawful (w : FlowWorld) (inputs : Value) (d : FlowDraw χ) {log : List LoopEvent}
    (h : Counted st log) :
    Continues (LoopLaw spec) log (loopEvents cap spec inputs st d) ∧
      Counted (step cap w spec inputs st d) (log ++ loopEvents cap spec inputs st d) := by
  cases hcursor : st.cursor with
  | none =>
      rw [loopEvents_ended hcursor, step_ended hcursor]
      exact ⟨trivial, counted_ended hcursor⟩
  | some cur =>
      by_cases hcap : Capped cap st
      · rw [loopEvents_capped hcursor hcap, step_capped hcursor hcap]
        exact ⟨trivial, counted_ended rfl⟩
      · have hlog : ∀ id, sinceExit id log = (taken st).looped id := h cur hcursor
        have hresult : ∀ {log'}, Sat (fun st' => Counted st' log') (fun _ => True)
            (body w spec inputs d (taken st) cur) → Counted (step cap w spec inputs st d) log' := by
          intro log' hbody
          rw [step_body hcursor hcap]
          cases hcases : body w spec inputs d (taken st) cur with
          | error e => exact counted_ended rfl
          | ok st' =>
              rw [hcases] at hbody
              exact hbody.of_ok
        cases hnode : spec.node? cur with
        | none =>
            have hevents : loopEvents cap spec inputs st d = [] := by
              simp [loopEvents, hcursor, hnode]
            have hbody : body w spec inputs d (taken st) cur = .error (.missingNode cur) := by
              simp [body, hnode]
            rw [hevents]
            exact ⟨trivial, hresult (by rw [hbody]; exact .error trivial)⟩
        | some n =>
            rw [loopEvents_node hcursor hcap hnode]
            by_cases hkind : n.readKind = .while
            · rw [if_pos hkind]
              obtain ⟨hlawful, hbody⟩ := while_lawful hlog hnode hkind
              exact ⟨hlawful, hresult hbody⟩
            · rw [if_neg hkind, List.append_nil]
              exact ⟨trivial, hresult (plain_counted hlog hnode hkind)⟩

/-- **Every log is lawful**, with a cap on the turns or without one. -/
theorem run_lawful (cap : Option ℕ) (w : FlowWorld) (spec : FlowSpec χ) (inputs : Value)
    (draws : List (FlowDraw χ)) : Lawful (LoopLaw spec)
      (collect (step cap w spec inputs) (loopEvents cap spec inputs) (initial spec) draws) := by
  have hall : ∀ (draws : List (FlowDraw χ)) (st : FlowState) (log : List LoopEvent),
      Counted st log → Continues (LoopLaw spec) log
        (collect (step cap w spec inputs) (loopEvents cap spec inputs) st draws) := by
    intro draws
    induction draws with
    | nil => exact fun _ _ _ => trivial
    | cons d draws ih =>
        intro st log h
        obtain ⟨hlawful, hcounted⟩ := step_lawful w inputs d h
        exact continues_append.2 ⟨hlawful, ih _ _ hcounted⟩
  exact lawful_of_continues (hall draws (initial spec) [] (counted_initial spec))

/-- **Loops end**: in a flow that is taken and has no cycles apart from the edges its while
nodes loop through, every run ends, whatever its conditions evaluate to and without a cap
on its turns; the condition of a while node sees how often it has looped since its last
exit, and between two exits it loops as often as it may at most. -/
theorem loops_end (w : FlowWorld) (inputs : Value) {order : List String}
    (hrun : spec.validateForRun order = .ok ()) (hstart : spec.hasInterpreterStart)
    (hacyclic : ∀ id, ¬ Relation.TransGen spec.Residual id id) :
    (∀ draws : ℕ → FlowDraw χ, ∃ k, Ended (after w spec inputs draws k)) ∧
      ∀ (cap : Option ℕ) (draws : List (FlowDraw χ)), Lawful (LoopLaw spec)
          (collect (step cap w spec inputs) (loopEvents cap spec inputs) (initial spec) draws) ∧
        ∀ id pre, pre <+: collect (step cap w spec inputs) (loopEvents cap spec inputs)
          (initial spec) draws → sinceExit id pre ≤ spec.limit id := by
  obtain ⟨hvalid, hinterp⟩ := FlowSpec.valid_of_run hrun hstart
  refine ⟨run_ends hvalid hinterp hacyclic hstart, fun cap draws => ?_⟩
  have hlawful := run_lawful cap w spec inputs draws
  refine ⟨hlawful, ?_⟩
  intro id pre hpre
  obtain ⟨post, hpost⟩ := hpre
  rw [← hpost] at hlawful
  exact sinceExit_le hlawful.of_append

theorem guard_step : (step cap w spec inputs st d).stepsGuard ≤ st.stepsGuard + 1 := by
  cases hcursor : st.cursor with
  | none =>
      rw [step_ended hcursor]
      exact Nat.le_succ _
  | some cur =>
      by_cases hcap : Capped cap st
      · rw [step_capped hcursor hcap]
      · rw [step_body hcursor hcap]
        cases hbody : body w spec inputs d (taken st) cur with
        | error e => exact le_rfl
        | ok st' =>
            obtain ⟨n, turn, next, -, hvisit, -, rfl⟩ := body_ok hbody
            have hturn : Sat (Leaves n.readKind (taken st)) FlowError.IsFailed
                (visit w spec inputs d (taken st) cur n) := visit_leaves (known_of_visit hvisit)
            rw [hvisit] at hturn
            exact hturn.of_ok.guard.le

/-- **Up to the cap on the turns** the cap makes no difference. -/
theorem run_capped (w : FlowWorld) (spec : FlowSpec χ) (inputs : Value) {draws : List (FlowDraw χ)}
    {st : FlowState} (hlen : st.stepsGuard + draws.length ≤ maxSteps) :
    run (step (some maxSteps) w spec inputs) st draws = run (step none w spec inputs) st draws := by
  induction draws generalizing st with
  | nil => rfl
  | cons d draws ih =>
      rw [List.length_cons] at hlen
      have hcap : ¬ Capped (some maxSteps) st := by
        rintro ⟨c, ⟨⟩, hlt⟩
        omega
      have hsame : step (some maxSteps) w spec inputs st d = step none w spec inputs st d := by
        cases hcursor : st.cursor with
        | none => rw [step_ended hcursor, step_ended hcursor]
        | some cur => rw [step_body hcursor hcap, step_body hcursor not_capped]
      have hguard : (step none w spec inputs st d).stepsGuard ≤ st.stepsGuard + 1 := guard_step
      rw [run_cons, run_cons, hsame]
      exact ih (by omega)

section Example

/-- A while node that loops to itself. -/
private def spinning : FlowSpec Empty where
  nodes := [{ id := "s", kind := "start" }, { id := "w", kind := "while", conditionCel := "true" },
    { id := "e", kind := "end" }]
  edges := [⟨"s", "w", none⟩, ⟨"w", "w", some "loop"⟩, ⟨"w", "e", some "exit"⟩]

/-- The edges of the graph without loops go up this order. -/
private def position (id : String) : ℕ := if id = "s" then 0 else if id = "w" then 1 else 2

private theorem spinning_acyclic (id : String) : ¬ Relation.TransGen spinning.Residual id id := by
  refine acyclic_of_rank position ?_ id
  rintro u v ⟨e, he, rfl, rfl, hnot⟩
  have hedges : e = ⟨"s", "w", none⟩ ∨ e = ⟨"w", "w", some "loop"⟩ ∨ e = ⟨"w", "e", some "exit"⟩ := by
    simpa [spinning] using he
  rcases hedges with rfl | rfl | rfl
  · decide
  · refine absurd ⟨?_, by decide⟩ hnot
    exact ⟨_, List.mem_cons_of_mem _ (List.mem_cons_self ..), rfl, by decide⟩
  · decide

/-- A condition that never fails is asked a hundred times. -/
theorem loops_end_spinning :
    (∃ k, Ended (after silentWorld spinning .null (fun _ => holdingDraw) k)) ∧
      ∀ pre, pre <+: collect (step none silentWorld spinning .null)
        (loopEvents none spinning .null) (initial spinning) (List.replicate 5 holdingDraw) →
          sinceExit "w" pre ≤ 100 := by
  have hrun : spinning.validateForRun [] = .ok () := by decide
  obtain ⟨hends, hlogs⟩ := loops_end silentWorld .null hrun (by decide) spinning_acyclic
  refine ⟨hends _, fun pre hpre => ?_⟩
  exact (hlogs none (List.replicate 5 holdingDraw)).2 "w" pre hpre

/-- It loops as often with the cap as without. -/
theorem run_capped_spinning :
    run (step (some maxSteps) silentWorld spinning .null) (initial spinning)
        (List.replicate 500 holdingDraw) =
      run (step none silentWorld spinning .null) (initial spinning)
        (List.replicate 500 holdingDraw) :=
  run_capped silentWorld spinning .null (by rw [List.length_replicate]; decide)

end Example

end FlowRun

end PeerClaw
