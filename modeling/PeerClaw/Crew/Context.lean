import PeerClaw.Agent.Spending
import PeerClaw.Crew.Orchestrator

/-!
# The context of a task

A task of a crew names the tasks whose answers are put before its prompt.  `CrewSpec::validate`
looks for their ids among all tasks of the crew; `run_crew` looks for their answers among those it
has so far, of which it keeps one for each id.

* `CrewState.Keeps` — which answer is kept under an id.
* `Injected` — a prompt has the answer of a task; `ContextsInjected` — all prompts of a run have all
  that they refer to.
* `CrewSpec.InOrder` — the ids of a context are unambiguous, and their tasks come before.
* `contextsInjected_iff` — that is what makes contexts complete, whatever the agents answer.
* `later_not_injected` — a crew that is valid and refers to a later task.
-/

namespace PeerClaw

open Lib

/-! ## The last of an id -/

section LastAt

variable {α : Type} {ids rest : List α} {id x : α} {j k : ℕ}

/-- The last place of an id in a list is the `j`th. -/
def LastAt (ids : List α) (id : α) (j : ℕ) : Prop :=
  ids[j]? = some id ∧ ∀ k, j < k → ids[k]? ≠ some id

theorem LastAt.lt_length (h : LastAt ids id j) : j < ids.length :=
  (List.getElem?_eq_some_iff.1 h.1).1

theorem LastAt.unique (hj : LastAt ids id j) (hk : LastAt ids id k) : j = k := by
  rcases lt_trichotomy j k with hlt | heq | hlt
  · exact absurd hk.1 (hj.2 k hlt)
  · exact heq
  · exact absurd hj.1 (hk.2 j hlt)

theorem lastAt_concat (h : LastAt (ids ++ [x]) id j) :
    (x = id ∧ j = ids.length) ∨ (x ≠ id ∧ LastAt ids id j) := by
  obtain ⟨hj, hlast⟩ := h
  rcases lt_or_ge j ids.length with hlt | hge
  · right
    have hne : (ids ++ [x])[ids.length]? ≠ some id := hlast _ hlt
    rw [List.getElem?_concat_length] at hne
    rw [List.getElem?_append_left hlt] at hj
    refine ⟨fun heq => hne (by rw [heq]), hj, fun k hjk hk => ?_⟩
    apply hlast k hjk
    rw [List.getElem?_append_left (List.getElem?_eq_some_iff.1 hk).1]
    exact hk
  · left
    have hle := (List.getElem?_eq_some_iff.1 hj).1
    rw [List.length_append, List.length_singleton] at hle
    have heq : j = ids.length := by omega
    subst heq
    rw [List.getElem?_concat_length] at hj
    exact ⟨Option.some.inj hj, rfl⟩

/-- All places of an id in a list are the last one in its first part exactly if there is a single
one, and this one is in the first part. -/
theorem forall_lastAt_iff (hid : id ∈ ids ++ rest) :
    (∀ j, (ids ++ rest)[j]? = some id → LastAt ids id j) ↔
      ∃ j < ids.length, ∀ k, (ids ++ rest)[k]? = some id ↔ k = j := by
  constructor
  · intro h
    obtain ⟨j, hj⟩ := List.mem_iff_getElem?.1 hid
    refine ⟨j, (h j hj).lt_length, fun k => ⟨fun hk => (h k hk).unique (h j hj), ?_⟩⟩
    rintro rfl
    exact hj
  · rintro ⟨j, hlt, hsingle⟩ k hk
    obtain rfl := (hsingle k).1 hk
    rw [List.getElem?_append_left hlt] at hk
    refine ⟨hk, fun later hlater hagain => ?_⟩
    have hboth : (ids ++ rest)[later]? = some id := by
      rw [List.getElem?_append_left (List.getElem?_eq_some_iff.1 hagain).1]
      exact hagain
    have heq := (hsingle later).1 hboth
    omega

end LastAt

/-! ## The answers so far -/

/-- The output that was the last to be kept under an id, and the number of its task. -/
structure CrewState.Keeps (st : CrewState) (id : String) (j : ℕ) (out : CrewTaskOutput) : Prop where
  output : st.tasksOutput[j]? = some out
  last : LastAt (st.tasksOutput.map CrewTaskOutput.taskId) id j

section Run

variable (w : CrewWorld) (spec : CrewSpec) (inputs : Value) (extras : AgentTaskExtras)
  (draws : ℕ → AgentDraws)

/-- Where the tasks of a crew begin. -/
def CrewRun.begin : CrewState :=
  match spec.process with
  | .hierarchical => planCrew w spec inputs extras draws .start
  | _ => .start

/-- The state after some tasks. -/
def CrewRun.after (tasks : List CrewTaskDef) : CrewState :=
  Machine.run (CrewRun.step w spec inputs extras draws) (CrewRun.begin w spec inputs extras draws)
    tasks

/-- What is put before a prompt of a task that has been done. -/
def priorBlock (id answer : String) : String := s!"## Prior task {id}\n{answer}\n\n"

/-- The prompt of a task has the answer of the `j`th task under an id: it is the one that is kept,
and the agent is given it. -/
def Injected (st : CrewState) (task : CrewTaskDef) (id : String) (j : ℕ) : Prop :=
  ∃ out run, st.Keeps id j out ∧
    (CrewRun.step w spec inputs extras draws st task).runs = st.runs ++ [run] ∧
    (priorBlock id out.answer).toList <:+: run.input.userInput.toList

/-- In the prompt of each task that a run gets to are the answers of all tasks that its context
names. -/
def ContextsInjected : Prop :=
  ∀ pre task post, spec.tasks = pre ++ task :: post →
    (CrewRun.after w spec inputs extras draws pre).ended = none →
    ∀ id ∈ task.context, ∀ j, (spec.tasks.map CrewTaskDef.id)[j]? = some id →
      Injected w spec inputs extras draws (CrewRun.after w spec inputs extras draws pre) task id j

end Run

/-- Each id in a context is that of a single task, and this one comes before. -/
def CrewSpec.InOrder (spec : CrewSpec) : Prop :=
  ∀ pre task post, spec.tasks = pre ++ task :: post →
    ∀ id ∈ task.context, ∃ j < pre.length,
      ∀ k, (spec.tasks.map CrewTaskDef.id)[k]? = some id ↔ k = j

/-! ## One task -/

variable {w : CrewWorld} {spec : CrewSpec} {inputs : Value} {extras : AgentTaskExtras}
  {draws : ℕ → AgentDraws} {st : CrewState} {task : CrewTaskDef} {tasks : List CrewTaskDef}

theorem ask_of_going {next : CrewState → AgentResult → CrewState} {a : CrewAgentDef}
    {prompt : String} (h : (st.ask w extras draws a prompt next).ended = none) :
    ∃ runs res, st.ask w extras draws a prompt next = next { st with runs := runs } res := by
  unfold CrewState.ask at h ⊢
  dsimp only at h ⊢
  split at h
  · rename_i res _
    exact ⟨_, res, rfl⟩
  · cases h

theorem step_of_chosen (hended : st.ended = none) {a : CrewAgentDef}
    (hchoose : chooseAgent w spec inputs task = .ok a) :
    CrewRun.step w spec inputs extras draws st task =
      st.ask w extras draws a (userBlock inputs st task) fun st res => st.record spec task a res := by
  rw [CrewRun.step, hended, Option.isSome_none, if_neg Bool.false_ne_true, hchoose]

theorem step_of_going (h : (CrewRun.step w spec inputs extras draws st task).ended = none) :
    st.ended = none ∧ ∃ runs a res, CrewRun.step w spec inputs extras draws st task =
      CrewState.record spec { st with runs := runs } task a res := by
  cases hst : st.ended with
  | some outcome =>
      rw [CrewRun.step, hst, Option.isSome_some, if_pos rfl, hst] at h
      cases h
  | none =>
      refine ⟨rfl, ?_⟩
      cases hchoose : chooseAgent w spec inputs task with
      | error e =>
          rw [CrewRun.step, hst, hchoose] at h
          cases h
      | ok a =>
          rw [step_of_chosen hst hchoose] at h ⊢
          obtain ⟨runs, res, heq⟩ := ask_of_going h
          exact ⟨runs, a, res, by rw [heq, hst]⟩

/-- A task for which there is an agent is given to one, with its prompt. -/
theorem runs_step_eq (hended : st.ended = none) {a : CrewAgentDef}
    (hagent : spec.agent? task.agentId = some a) :
    ∃ run, (CrewRun.step w spec inputs extras draws st task).runs = st.runs ++ [run] ∧
      run.input.userInput = userBlock inputs st task := by
  obtain ⟨b, hchoose⟩ := chooseAgent_of_agent w inputs hagent
  rw [step_of_chosen hended hchoose]
  unfold CrewState.ask
  dsimp only
  split
  · exact ⟨_, rfl, rfl⟩
  · exact ⟨_, rfl, rfl⟩

/-- An answer that is kept under an id of the context is in the prompt. -/
theorem priorBlock_infix {id answer : String} (hid : id ∈ task.context)
    (hlookup : st.outputs.lookup id = some answer) :
    (priorBlock id answer).toList <:+: (userBlock inputs st task).toList := by
  -- the plan is before the answers, and the task behind them
  have hjoin : ∀ (before after₁ after₂ after₃ : String) (prior : List String),
      priorBlock id answer ∈ prior → (priorBlock id answer).toList <:+:
        (before ++ Text.join "" prior ++ after₁ ++ after₂ ++ after₃).toList := by
    intro before after₁ after₂ after₃ prior hmem
    have hflat := List.infix_of_mem_flatten (List.mem_map_of_mem (f := String.toList) hmem)
    rw [← Text.toList_join_empty] at hflat
    rw [String.append_assoc, String.append_assoc, String.toList_append, String.toList_append]
    exact hflat.trans ((List.suffix_append _ _).isInfix.trans (List.prefix_append _ _).isInfix)
  unfold userBlock
  refine hjoin _ _ _ _ _ (List.mem_map.2 ⟨id, hid, ?_⟩)
  rw [hlookup]
  rfl

/-! ## What has been kept -/

/-- The outputs are those of the tasks so far, and the table has the last one of each id. -/
structure CrewState.Logs (st : CrewState) (tasks : List CrewTaskDef) : Prop where
  taskIds : st.tasksOutput.map CrewTaskOutput.taskId = tasks.map CrewTaskDef.id
  lookup : ∀ id j out, st.Keeps id j out → st.outputs.lookup id = some out.answer

theorem record_logs (h : st.Logs tasks) (runs : List AgentRun) (task : CrewTaskDef)
    (a : CrewAgentDef) (res : AgentResult) :
    (CrewState.record spec { st with runs := runs } task a res).Logs (tasks ++ [task]) where
  taskIds := by simp [CrewState.record, h.taskIds]
  lookup := by
    rintro id j out ⟨hout, hlast⟩
    unfold CrewState.record at hout hlast ⊢
    dsimp only at hout hlast ⊢
    rw [List.map_append, List.map_singleton] at hlast
    rw [Finmap.lookup_insert_eq]
    rcases lastAt_concat hlast with ⟨heq, hj⟩ | ⟨hne, hlast⟩
    · rw [hj, List.length_map, List.getElem?_concat_length] at hout
      obtain rfl := Option.some.inj hout
      rw [if_pos heq.symm]
    · have hlt := hlast.lt_length
      rw [List.length_map] at hlt
      rw [List.getElem?_append_left hlt] at hout
      rw [if_neg (Ne.symm hne)]
      exact h.lookup id j out ⟨hout, hlast⟩

theorem tasksOutput_begin (h : (CrewRun.begin w spec inputs extras draws).ended = none) :
    (CrewRun.begin w spec inputs extras draws).tasksOutput = [] := by
  unfold CrewRun.begin at h ⊢
  split
  · rename_i hprocess
    rw [hprocess] at h
    unfold planCrew at h ⊢
    cases hid : spec.managerId with
    | none => rfl
    | some id =>
        rw [hid] at h
        dsimp only at h ⊢
        cases hmgr : spec.agent? id with
        | none => rfl
        | some mgr =>
            rw [hmgr] at h
            obtain ⟨runs, res, heq⟩ := ask_of_going h
            dsimp only
            rw [heq]
            rfl
  · rfl

theorem after_concat (tasks : List CrewTaskDef) (task : CrewTaskDef) :
    CrewRun.after w spec inputs extras draws (tasks ++ [task]) =
      CrewRun.step w spec inputs extras draws (CrewRun.after w spec inputs extras draws tasks)
        task := Machine.run_append _ _ _ _

/-- **After some tasks their outputs are there**, if the run has not ended. -/
theorem after_logs (h : (CrewRun.after w spec inputs extras draws tasks).ended = none) :
    (CrewRun.after w spec inputs extras draws tasks).Logs tasks := by
  induction tasks using List.reverseRecOn with
  | nil =>
      have hempty : (CrewRun.after w spec inputs extras draws []).tasksOutput = [] :=
        tasksOutput_begin h
      refine ⟨by rw [hempty]; rfl, fun id j out hkeeps => ?_⟩
      have hout := hkeeps.output
      rw [hempty] at hout
      cases hout
  | append_singleton tasks task ih =>
      rw [after_concat] at h ⊢
      obtain ⟨hbefore, runs, a, res, heq⟩ := step_of_going h
      rw [heq]
      exact record_logs (ih hbefore) runs task a res

/-- **A prompt has the answer of a task** whose id its context names exactly if that is the last one
with the id so far. -/
theorem injected_iff (hended : st.ended = none) (hlogs : st.Logs tasks) {a : CrewAgentDef}
    (hagent : spec.agent? task.agentId = some a) {id : String} (hid : id ∈ task.context) {j : ℕ} :
    Injected w spec inputs extras draws st task id j ↔ LastAt (tasks.map CrewTaskDef.id) id j := by
  rw [← hlogs.taskIds]
  constructor
  · rintro ⟨out, run, hkeeps, -⟩
    exact hkeeps.last
  · intro hlast
    have hlt := hlast.lt_length
    rw [List.length_map] at hlt
    have hkeeps : st.Keeps id j st.tasksOutput[j] := ⟨List.getElem?_eq_getElem hlt, hlast⟩
    obtain ⟨run, hruns, hprompt⟩ := runs_step_eq hended hagent
    refine ⟨_, run, hkeeps, hruns, ?_⟩
    rw [hprompt]
    exact priorBlock_infix hid (hlogs.lookup _ _ _ hkeeps)

/-! ## Agents that always answer -/

theorem result_of_stopped (calls : AgenticCalls) (r : AgentRuntime) (t : TaskInput)
    (hsink : t.inferenceSink = false) (hstopped : ∀ i, (t.iterations i).stopped = true) :
    ∃ res, (runTaskWithSession calls r t).2.result = some res := by
  have hended := plain_ended calls r t
  have hreturns : (Machine.run (PlainLoop.step calls t.config) (PlainLoop.initial r t)
      ((List.range (maxIterations + 1)).map t.iterations)).ended ≠ some none := by
    refine Machine.run_of_inv (I := fun st : PlainState => st.ended ≠ some none)
      (P := fun _ d => d.stopped = true) (fun st d h hd => ?_) (fun h => nomatch h)
      (Machine.along_of_forall fun d hd => ?_)
    · unfold PlainLoop.step
      split
      · exact h
      · unfold plainIteration
        rw [if_pos hd]
        exact fun heq => nomatch heq
    · obtain ⟨i, -, rfl⟩ := List.mem_map.1 hd
      exact hstopped i
  unfold runTaskWithSession runPlain
  rw [hsink, if_neg Bool.false_ne_true]
  obtain ⟨ended, heq⟩ := Option.isSome_iff_exists.1 hended
  dsimp only
  rw [heq] at hreturns ⊢
  cases ended with
  | none => exact absurd rfl hreturns
  | some res => exact ⟨res, rfl⟩

/-- A world without an inference sink. -/
private def quietWorld : CrewWorld where
  calls := ⟨fun _ => [], id, fun text _ _ => some text, fun messages _ => some messages, fun _ => 0,
    Text.toAsciiLowercase⟩
  prompts := ⟨"", "", "", "", "", "", "", "", "", "", "", "", "", "", "", "", "", "", ""⟩
  crewAgentSystemFmt := ""
  builtinNames := []
  inferenceSink := false
  debugIds := fun _ => ""

/-- An agent that sees the flag at once, and returns the last answer of its session. -/
private def quietDraws : AgentDraws where
  history := [("assistant", "Done.")]
  systemPrompt := ""
  systemPrefix := ""
  iterations := fun _ => ⟨true, 0, fun _ => .error "", 0, fun _ => true, fun _ _ => .error "",
    fun _ _ => 0⟩
  passes := fun _ => ⟨true, fun _ _ _ _ => .error "", 0, [], fun _ _ => .error "",
    fun _ _ => .error "", fun _ _ => 0, "12:00:00"⟩
  chargedAt := 0
  madeAt := 0

theorem ended_ask_quiet {next : CrewState → AgentResult → CrewState}
    (hnext : ∀ st res, (next st res).ended = st.ended) (hended : st.ended = none)
    (a : CrewAgentDef) (prompt : String) :
    (st.ask quietWorld extras (fun _ => quietDraws) a prompt next).ended = none := by
  obtain ⟨res, hres⟩ := result_of_stopped quietWorld.calls quietDraws.runtime
    (quietDraws.input (crewAgentConfig quietWorld a) quietWorld.prompts
      quietWorld.inferenceSink prompt extras) rfl fun _ => rfl
  unfold CrewState.ask
  dsimp only
  rw [hres]
  exact (hnext _ _).trans hended

theorem ended_begin_quiet (hvalid : spec.validate = .ok ()) :
    (CrewRun.begin quietWorld spec inputs extras fun _ => quietDraws).ended = none := by
  unfold CrewRun.begin
  split
  · rename_i hprocess
    obtain ⟨-, -, hmanager⟩ := CrewSpec.of_validate hvalid
    obtain ⟨id, mgr, hid, hmgr⟩ := hmanager hprocess
    unfold planCrew
    rw [hid]
    dsimp only
    rw [hmgr]
    apply ended_ask_quiet
    · intro st res
      rfl
    · rfl
  · rfl

theorem ended_after_quiet (hvalid : spec.validate = .ok ()) (htasks : ∀ t ∈ tasks, t ∈ spec.tasks) :
    (CrewRun.after quietWorld spec inputs extras (fun _ => quietDraws) tasks).ended =
      none := by
  induction tasks using List.reverseRecOn with
  | nil => exact ended_begin_quiet hvalid
  | append_singleton tasks task ih =>
      have hbefore := ih fun t ht => htasks t (List.mem_append_left _ ht)
      obtain ⟨a, hagent⟩ := (CrewSpec.of_validate hvalid).2.1 task (htasks task (by simp))
      obtain ⟨b, hchoose⟩ := chooseAgent_of_agent quietWorld inputs hagent
      rw [after_concat, step_of_chosen hbefore hchoose]
      apply ended_ask_quiet
      · intro st res
        rfl
      · exact hbefore

/-! ## When contexts are complete -/

/-- **When contexts are complete.**  Whatever the agents of a valid crew answer, in the prompt of
each task are the answers of all tasks that its context names, exactly if each of these ids is that of
a single task, which comes before. -/
theorem contextsInjected_iff (spec : CrewSpec) (hvalid : spec.validate = .ok ()) :
    (∀ w inputs extras draws, ContextsInjected w spec inputs extras draws) ↔ spec.InOrder := by
  have hplaces : ∀ pre task post, spec.tasks = pre ++ task :: post → ∀ id ∈ task.context,
      ((∀ j, (spec.tasks.map CrewTaskDef.id)[j]? = some id →
          LastAt (pre.map CrewTaskDef.id) id j) ↔
        ∃ j < pre.length, ∀ k, (spec.tasks.map CrewTaskDef.id)[k]? = some id ↔ k = j) := by
    intro pre task post hsplit id hid
    have hmem := CrewSpec.context_of_validate hvalid (by simp [hsplit]) hid
    rw [hsplit, List.map_append] at hmem ⊢
    rw [forall_lastAt_iff hmem, List.length_map]
  have hagents := (CrewSpec.of_validate hvalid).2.1
  constructor
  · intro h pre task post hsplit id hid
    obtain ⟨a, hagent⟩ := hagents task (by simp [hsplit])
    have hended : (CrewRun.after quietWorld spec .null .none (fun _ => quietDraws) pre).ended =
        none := ended_after_quiet hvalid fun t ht => by simp [hsplit, ht]
    refine (hplaces pre task post hsplit id hid).1 fun j hj => ?_
    exact (injected_iff hended (after_logs hended) hagent hid).1
      (h quietWorld .null .none (fun _ => quietDraws) pre task post hsplit hended id hid j hj)
  · intro h w inputs extras draws pre task post hsplit hended id hid j hj
    obtain ⟨a, hagent⟩ := hagents task (by simp [hsplit])
    refine (injected_iff hended (after_logs hended) hagent hid).2 ?_
    exact (hplaces pre task post hsplit id hid).2 (h pre task post hsplit id hid) j hj

/-! ## A task that comes later -/

section Example

private def author : CrewAgentDef := ⟨"author", "author", "reports", "", "llama3.2:3b", []⟩

private def research : CrewTaskDef := ⟨"research", "Find the facts.", "", "author", []⟩

private def summary : CrewTaskDef := ⟨"summary", "Sum them up.", "", "author", ["research"]⟩

/-- A crew in which the facts are found after they have been summed up is valid, and its first prompt
is without them. -/
theorem later_not_injected :
    (CrewSpec.mk [author] [summary, research] .sequential none).validate = .ok () ∧
      ¬ ∀ w inputs extras draws, ContextsInjected w
        (CrewSpec.mk [author] [summary, research] .sequential none) inputs extras draws := by
  refine ⟨by decide +kernel, fun h => ?_⟩
  obtain ⟨out, run, hkeeps, -⟩ := h quietWorld .null .none (fun _ => quietDraws) [] summary
    [research] rfl rfl "research" (by simp [summary]) 1 rfl
  exact nomatch hkeeps.output

/-- In the other order the answer is there. -/
theorem earlier_injected :
    (CrewSpec.mk [author] [research, summary] .delegate none).validate = .ok () ∧
      ∀ w inputs extras draws, ContextsInjected w
        (CrewSpec.mk [author] [research, summary] .delegate none) inputs extras draws := by
  refine ⟨by decide +kernel, (contextsInjected_iff _ (by decide +kernel)).2
    fun pre task post hsplit id hid => ?_⟩
  have hplace : ∀ k, ([research, summary].map CrewTaskDef.id)[k]? = some "research" ↔ k = 0 := by
    intro k
    match k with
    | 0 => decide
    | 1 => decide
    | k + 2 => simp
  match pre, hsplit with
  | [], hsplit =>
      obtain rfl := (List.cons.inj hsplit).1
      cases hid
  | [_], hsplit =>
      obtain ⟨-, hrest⟩ := List.cons.inj hsplit
      obtain rfl := (List.cons.inj hrest).1
      obtain rfl := List.mem_singleton.1 hid
      exact ⟨0, Nat.one_pos, hplace⟩
  | _ :: _ :: pre, hsplit => simp at hsplit

end Example

end PeerClaw
