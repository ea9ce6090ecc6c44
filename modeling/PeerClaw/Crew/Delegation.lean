import PeerClaw.Crew.Orchestrator

/-!
# Whom a crew delegates to

In delegate mode a task goes to the agent, other than the manager, that matches it best: the score
of an agent is how many words of the description occur in its role and its goal.  If nothing
matches, the task is to go to the agent it is assigned to.  The search is for the last agent with
the greatest score, and it finds one where every score is zero, too.

* `Delegates` — the agent is the one that the task should go to.
* `chooseAgent_delegate` — the agent that is chosen.
* `delegates_iff` — when it is the right one.
* `agentId_of_mem_tasksOutput` — what a run reports are the agents that are chosen.
* `unmatched_goes_to_last` — a task that matches nobody.
-/

namespace PeerClaw

open Lib

/-! ## The last of the greatest -/

section MaxByKey

variable {α : Type} {key : α → ℕ} {xs : List α} {a : α}

theorem maxByKey_eq_none_iff : maxByKey key xs = none ↔ xs = [] := by
  cases xs with
  | nil => simp [maxByKey]
  | cons x xs =>
      unfold maxByKey
      cases maxByKey key xs with
      | none => simp
      | some b => by_cases h : key x ≤ key b <;> simp [h]

theorem maxByKey_spec (h : maxByKey key xs = some a) : a ∈ xs ∧ ∀ b ∈ xs, key b ≤ key a := by
  induction xs generalizing a with
  | nil => cases h
  | cons x xs ih =>
      unfold maxByKey at h
      cases hrest : maxByKey key xs with
      | none =>
          rw [hrest] at h
          obtain rfl := Option.some.inj h
          obtain rfl := maxByKey_eq_none_iff.1 hrest
          simp
      | some b =>
          obtain ⟨hmem, hle⟩ := ih hrest
          rw [hrest] at h
          dsimp only at h
          split at h
          · rename_i hxb
            obtain rfl := Option.some.inj h
            exact ⟨List.mem_cons_of_mem _ hmem, List.forall_mem_cons.2 ⟨hxb, hle⟩⟩
          · rename_i hbx
            obtain rfl := Option.some.inj h
            refine ⟨List.mem_cons_self, List.forall_mem_cons.2 ⟨le_rfl, fun c hc => ?_⟩⟩
            exact (hle c hc).trans (not_le.1 hbx).le

theorem maxByKey_of_const {k : ℕ} (h : ∀ b ∈ xs, key b = k) : maxByKey key xs = xs.getLast? := by
  induction xs with
  | nil => rfl
  | cons x xs ih =>
      obtain ⟨hx, hxs⟩ := List.forall_mem_cons.1 h
      unfold maxByKey
      rw [ih hxs]
      cases hlast : xs.getLast? with
      | none =>
          obtain rfl := List.getLast?_eq_none_iff.1 hlast
          rfl
      | some b =>
          have hb : key b = k := hxs b (List.mem_of_getLast? hlast)
          rw [List.getLast?_cons, hlast]
          dsimp only
          rw [if_pos (by rw [hx, hb])]
          rfl

end MaxByKey

/-! ## The choice -/

/-- The agents other than the manager. -/
def CrewSpec.others (spec : CrewSpec) : List CrewAgentDef :=
  spec.agents.filter fun a => some a.id ≠ spec.managerId

section Choice

variable (w : CrewWorld) (spec : CrewSpec) (inputs : Value) (task : CrewTaskDef)

/-- How well an agent matches a task. -/
def taskScore (a : CrewAgentDef) : ℕ :=
  delegateScore w.calls.toLowercase (interpolateTemplate task.description inputs) a

/-- The agent is the one that the task should go to: the best of those that match it, and the one
it is assigned to if none does. -/
structure Delegates (a : CrewAgentDef) : Prop where
  best : (∃ b ∈ spec.others, 0 < taskScore w inputs task b) →
    a ∈ spec.others ∧ ∀ b ∈ spec.others, taskScore w inputs task b ≤ taskScore w inputs task a
  assigned : (∀ b ∈ spec.others, taskScore w inputs task b = 0) → a.id = task.agentId

variable {w spec inputs task}

theorem chooseAgent_delegate (hmode : spec.process = .delegate) {a : CrewAgentDef} :
    chooseAgent w spec inputs task = .ok a ↔
      (maxByKey (taskScore w inputs task) spec.others).or (spec.agent? task.agentId) = some a := by
  have hscore : delegateScore w.calls.toLowercase (interpolateTemplate task.description inputs) =
      taskScore w inputs task := rfl
  have hothers : (spec.agents.filter fun a => some a.id ≠ spec.managerId) = spec.others := rfl
  simp only [chooseAgent, hmode]
  rw [hscore, hothers]
  cases (maxByKey (taskScore w inputs task) spec.others).or (spec.agent? task.agentId) with
  | none => simp
  | some b => simp

theorem CrewSpec.id_of_agent? {id : String} {a : CrewAgentDef} (h : spec.agent? id = some a) :
    a.id = id := by
  have hfound := List.find?_some h
  simpa using hfound

/-- **When a task goes to the right agent.**  An agent is chosen, and it is the right one exactly
when some agent other than the manager matches the task, or the last of them, if there is any, is the
one that the task is assigned to. -/
theorem delegates_iff (w : CrewWorld) (spec : CrewSpec) (inputs : Value) (task : CrewTaskDef)
    (hvalid : spec.validate = .ok ()) (hmode : spec.process = .delegate)
    (htask : task ∈ spec.tasks) :
    (∃ a, chooseAgent w spec inputs task = .ok a ∧ Delegates w spec inputs task a) ↔
      (∃ b ∈ spec.others, 0 < taskScore w inputs task b) ∨
        ∀ b ∈ spec.others.getLast?, b.id = task.agentId := by
  obtain ⟨assigned, hassigned⟩ := (CrewSpec.of_validate hvalid).2.1 task htask
  by_cases hmatch : ∃ b ∈ spec.others, 0 < taskScore w inputs task b
  · refine iff_of_true ?_ (.inl hmatch)
    obtain ⟨b, hb, hpos⟩ := hmatch
    cases hmax : maxByKey (taskScore w inputs task) spec.others with
    | none =>
        rw [maxByKey_eq_none_iff.1 hmax] at hb
        cases hb
    | some a =>
        refine ⟨a, (chooseAgent_delegate hmode).2 (by rw [hmax]; rfl), ?_, fun hzero => ?_⟩
        · exact fun _ => maxByKey_spec hmax
        · exact absurd (hzero b hb) hpos.ne'
  · have hzero : ∀ b ∈ spec.others, taskScore w inputs task b = 0 := by
      intro b hb
      by_contra hne
      exact hmatch ⟨b, hb, Nat.pos_of_ne_zero hne⟩
    rw [or_iff_right hmatch]
    simp only [chooseAgent_delegate hmode, maxByKey_of_const hzero, hassigned]
    cases hlast : spec.others.getLast? with
    | none =>
        refine iff_of_true ⟨assigned, rfl, fun h => absurd h hmatch, fun _ => ?_⟩ (by simp)
        exact CrewSpec.id_of_agent? hassigned
    | some last =>
        constructor
        · rintro ⟨a, ha, h⟩ b hb
          obtain rfl := Option.some.inj ha
          obtain rfl := Option.some.inj hb
          exact h.assigned hzero
        · intro h
          exact ⟨last, rfl, fun h' => absurd h' hmatch, fun _ => h last rfl⟩

end Choice

/-! ## What a run reports -/

section Run

variable {w : CrewWorld} {spec : CrewSpec} {inputs : Value} {extras : AgentTaskExtras}
  {draws : ℕ → AgentDraws}

/-- What is reported of a task: it is run by the agent that is chosen for it. -/
def ReportsChoice (w : CrewWorld) (spec : CrewSpec) (inputs : Value) (task : CrewTaskDef)
    (out : CrewTaskOutput) : Prop :=
  out.taskId = task.id ∧ ∃ a, chooseAgent w spec inputs task = .ok a ∧ out.agentId = a.id

theorem tasksOutput_ask {next : CrewState → AgentResult → CrewState} {st : CrewState}
    {a : CrewAgentDef} {prompt : String} {out : CrewTaskOutput}
    (h : out ∈ (st.ask w extras draws a prompt next).tasksOutput) :
    out ∈ st.tasksOutput ∨ ∃ st' res, st'.tasksOutput = st.tasksOutput ∧
      out ∈ (next st' res).tasksOutput := by
  unfold CrewState.ask at h
  dsimp only at h
  split at h
  · rename_i res _
    refine .inr ⟨_, res, ?_, h⟩
    rfl
  · exact .inl h

theorem tasksOutput_step (hmode : spec.process = .delegate) {st : CrewState} {task : CrewTaskDef}
    {out : CrewTaskOutput}
    (h : out ∈ (CrewRun.step w spec inputs extras draws st task).tasksOutput) :
    out ∈ st.tasksOutput ∨ ReportsChoice w spec inputs task out := by
  unfold CrewRun.step at h
  split at h
  · exact .inl h
  · split at h
    · exact .inl h
    · rename_i a hchoose
      rcases tasksOutput_ask h with h | ⟨st', res, hsame, h⟩
      · exact .inl h
      · rcases List.mem_append.1 h with h | h
        · exact .inl (hsame ▸ h)
        · obtain rfl := List.mem_singleton.1 h
          exact .inr ⟨rfl, a, hchoose, by rw [hmode]⟩

theorem tasksOutput_run (hmode : spec.process = .delegate) (tasks : List CrewTaskDef)
    {st : CrewState} {out : CrewTaskOutput}
    (h : out ∈ (Machine.run (CrewRun.step w spec inputs extras draws) st tasks).tasksOutput) :
    out ∈ st.tasksOutput ∨ ∃ task ∈ tasks, ReportsChoice w spec inputs task out := by
  induction tasks generalizing st with
  | nil => exact .inl h
  | cons task tasks ih =>
      rcases ih h with h | ⟨later, hlater, h⟩
      · rcases tasksOutput_step hmode h with h | h
        · exact .inl h
        · exact .inr ⟨task, List.mem_cons_self, h⟩
      · exact .inr ⟨later, List.mem_cons_of_mem _ hlater, h⟩

/-- **The agents that a run reports are those that are chosen.** -/
theorem agentId_of_mem_tasksOutput (hmode : spec.process = .delegate) :
    ∀ report ∈ (crewState w spec inputs extras draws).tasksOutput,
      ∃ task ∈ spec.tasks, ReportsChoice w spec inputs task report := by
  intro report hreport
  unfold crewState at hreport
  rw [hmode] at hreport
  rcases tasksOutput_run hmode spec.tasks hreport with h | h
  · cases h
  · exact h

end Run

/-! ## A task that matches nobody -/

section Example

private def world : CrewWorld where
  calls := ⟨fun _ => [], id, fun text _ _ => some text, fun messages _ => some messages, fun _ => 0,
    Text.toAsciiLowercase⟩
  prompts := ⟨"", "", "", "", "", "", "", "", "", "", "", "", "", "", "", "", "", "", ""⟩
  crewAgentSystemFmt := ""
  builtinNames := []
  inferenceSink := false
  debugIds := fun _ => ""

private def member (id role goal : String) : CrewAgentDef := ⟨id, role, goal, "", "llama3.2:3b", []⟩

private def boss : CrewAgentDef := member "lead" "manager" "plan"

private def cook : CrewAgentDef := member "cook" "chef" "meals"

private def driver : CrewAgentDef := member "driver" "courier" "parcels"

private def calculate : CrewTaskDef := ⟨"t1", "42", "", "cook", []⟩

private def deliver : CrewTaskDef := ⟨"t2", "parcels", "", "cook", []⟩

private def crew : CrewSpec := ⟨[boss, cook, driver], [calculate, deliver], .delegate, none⟩

/-- A task that is assigned to the cook and matches nobody goes to the driver. -/
theorem unmatched_goes_to_last :
    ¬ ∃ a, chooseAgent world crew .null calculate = .ok a ∧
      Delegates world crew .null calculate a := by
  rintro ⟨a, hchoose, hdelegates⟩
  have hchosen : (chooseAgent world crew .null calculate).toOption.map CrewAgentDef.id =
      some "driver" := by decide +kernel
  rw [hchoose] at hchosen
  have hassigned : a.id = "cook" := hdelegates.assigned (by decide +kernel)
  exact absurd ((Option.some.inj hchosen).symm.trans hassigned) (by decide)

/-- A task that matches the driver goes to the driver. -/
theorem match_goes_to_best : ∃ a, chooseAgent world crew .null deliver = .ok a ∧
    Delegates world crew .null deliver a :=
  (delegates_iff world crew .null deliver (by decide +kernel) rfl (by simp [crew])).2
    (.inl ⟨driver, List.mem_filter.2 ⟨by simp [crew], by decide +kernel⟩, by decide +kernel⟩)

/-- A runtime whose session ends with an answer, and that is stopped before it asks. -/
private def answered : AgentDraws where
  history := [("assistant", "Done.")]
  systemPrompt := ""
  systemPrefix := ""
  iterations _ := ⟨true, 0, fun _ => .error "", 0, fun _ => true, fun _ _ => .error "", fun _ _ => 0⟩
  passes _ := ⟨true, fun _ _ _ _ => .error "", 0, [], fun _ _ => .error "", fun _ _ => .error "",
    fun _ _ => 0, "12:00:00"⟩
  chargedAt := 0
  madeAt := 0

/-- The reports of a crew that delegates. -/
theorem crew_reports_chosen : crew.process = .delegate ∧
    ∀ report ∈ (crewState world crew .null .none fun _ => answered).tasksOutput,
      ∃ task ∈ crew.tasks, ReportsChoice world crew .null task report :=
  ⟨rfl, agentId_of_mem_tasksOutput rfl⟩

end Example

end PeerClaw
