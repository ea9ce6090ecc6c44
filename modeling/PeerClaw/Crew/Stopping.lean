import PeerClaw.Crew.Orchestrator
import PeerClaw.Serve.RunStores

/-!
# Stopping a crew

`api_crew_stop` in `web/mod.rs` sets the flag of a run, and the agents of the crew look at it.
`run_crew` does not: it goes from one task to the next as the agents return, and whatever comes out
is recorded by the serve loop.

* `CrewJob.step` — a run by its small steps: the loop takes the job, an agent returns, the flag is
  set.
* `run_alone` — left alone, a run comes by these steps to what `run_crew` returns.
* `Honoured` — once the flag is set no task is started, and the run is not recorded as completed.
* `stop_honoured_iff` — in which runs that is so; `stopped_and_completed` — one in which it is not.
-/

namespace PeerClaw

open Lib

/-- Where a run of a crew is. -/
inductive CrewPhase
  /-- The job is in the queue. -/
  | queued
  /-- The manager is asked for a plan. -/
  | planning (st : CrewState)
  /-- An agent runs this task; others remain. -/
  | working (st : CrewState) (task : CrewTaskDef) (rest : List CrewTaskDef)
  /-- The outcome has been recorded. -/
  | recorded
  /-- An agent has panicked, and with it the serve loop. -/
  | crashed

/-- A run of a crew, with its record and its flag. -/
structure CrewJob where
  phase : CrewPhase
  record : RunRecord CrewOutput
  cancelled : Bool
  /-- The flag was set before the run had ended. -/
  stopped : Bool
  /-- The tasks that were started after that. -/
  late : List CrewTaskDef

/-- What can happen in a run. -/
inductive CrewMove
  /-- The serve loop takes the job. -/
  | take
  /-- The agent that is running returns. -/
  | returns
  /-- `api_crew_stop`. -/
  | stop
  deriving DecidableEq

namespace CrewJob

variable (w : CrewWorld) (spec : CrewSpec) (inputs : Value) (extras : AgentTaskExtras)
  (draws : ℕ → AgentDraws)

/-- A job that has been queued. -/
def queued (id name : String) : CrewJob :=
  ⟨.queued, .queued id name "[crew] queued", false, false, []⟩

/-- The run has neither ended nor crashed. -/
def Unfinished (job : CrewJob) : Prop :=
  match job.phase with
  | .recorded | .crashed => False
  | _ => True

instance (job : CrewJob) : Decidable job.Unfinished := by
  unfold Unfinished
  split <;> infer_instance

/-- The outcome of `run_crew` is recorded. -/
def settle (job : CrewJob) : Outcome String CrewOutput → CrewJob
  | .ok out => { job with phase := .recorded, record := job.record.completeOk out }
  | .err e => { job with phase := .recorded, record := job.record.completeErr e }
  | .panic => { job with phase := .crashed }

/-- The next task is started, or the run has come to its end. -/
def proceed (job : CrewJob) (st : CrewState) : List CrewTaskDef → CrewJob
  | [] => job.settle (st.output spec)
  | task :: rest =>
      match chooseAgent w spec inputs task with
      | .error e => job.settle (.err e)
      | .ok _ =>
          { job with
            phase := .working st task rest
            late := if job.stopped then job.late ++ [task] else job.late }

/-- The run goes on with what the agent has returned, unless that has ended it. -/
def resume (job : CrewJob) (st : CrewState) (rest : List CrewTaskDef) : CrewJob :=
  match st.ended with
  | some outcome => job.settle outcome
  | none => job.proceed w spec inputs st rest

/-- The serve loop has taken the job. -/
def started (job : CrewJob) : CrewJob :=
  { job with record := (job.record.withStatus .running).pushLog "[crew] started" }

/-- The serve loop takes the job, and `run_crew` begins. -/
def begin (job : CrewJob) : CrewJob :=
  match spec.validate with
  | .error e => job.started.settle (.err e)
  | .ok _ =>
      match spec.process with
      | .hierarchical => { job.started with phase := .planning .start }
      | _ => job.started.proceed w spec inputs .start spec.tasks

/-- A run by its small steps.  What the agents see of the flag is part of what they draw. -/
def step (job : CrewJob) : CrewMove → CrewJob
  | .take =>
      match job.phase with
      | .queued => job.begin w spec inputs
      | _ => job
  | .returns =>
      match job.phase with
      | .planning st => job.resume w spec inputs (planCrew w spec inputs extras draws st) spec.tasks
      | .working st task rest =>
          job.resume w spec inputs (CrewRun.step w spec inputs extras draws st task) rest
      | _ => job
  | .stop => { job with cancelled := true, stopped := job.stopped || decide job.Unfinished }

/-! ## What is asked of a stop -/

/-- Once the flag is set no task is started, and the run is not recorded as completed. -/
def Honoured (job : CrewJob) : Prop :=
  job.stopped = true → job.late = [] ∧ job.record.status ≠ .completed

/-- The agent panics when it is given this prompt. -/
def AgentPanics (st : CrewState) (a : CrewAgentDef) (prompt : String) : Prop :=
  let d := draws st.runs.length
  let input := d.input (crewAgentConfig w a) w.prompts w.inferenceSink prompt extras
  (runTaskWithSession w.calls d.runtime input).2.result = none

/-- The agent that is running panics. -/
def Panics (job : CrewJob) : Prop :=
  match job.phase with
  | .planning st =>
      ∀ id mgr, spec.managerId = some id → spec.agent? id = some mgr →
        AgentPanics w extras draws st mgr (planPrompt w spec inputs)
  | .working st task _ =>
      ∀ a, chooseAgent w spec inputs task = .ok a →
        AgentPanics w extras draws st a (userBlock inputs st task)
  | _ => True

/-- After the flag was set the job is taken only for a crew that is not valid, or whose manager is
asked first, and no agent returns, unless it panics. -/
def Unheard (job : CrewJob) (m : CrewMove) : Prop :=
  job.stopped = true →
    match m with
    | .take => job.phase = .queued → spec.process = .hierarchical ∨ ∃ e, spec.validate = .error e
    | .returns => job.Panics w spec inputs extras draws
    | .stop => True

/-! ## What an agent returns -/

variable {w spec inputs extras draws} {job : CrewJob} {st : CrewState}

theorem ended_ask {next : CrewState → AgentResult → CrewState}
    (hnext : ∀ st res, (next st res).ended = st.ended) (hst : st.ended = none) (a : CrewAgentDef)
    (prompt : String) :
    (AgentPanics w extras draws st a prompt ∧
        (st.ask w extras draws a prompt next).ended = some .panic) ∨
      (¬ AgentPanics w extras draws st a prompt ∧
        (st.ask w extras draws a prompt next).ended = none) := by
  unfold CrewState.ask AgentPanics
  dsimp only
  cases (runTaskWithSession w.calls _ _).2.result with
  | some res => exact .inr ⟨Option.some_ne_none res, (hnext _ _).trans hst⟩
  | none => exact .inl ⟨rfl, rfl⟩

theorem ended_planCrew (hvalid : spec.validate = .ok ()) (hprocess : spec.process = .hierarchical)
    (hphase : job.phase = .planning st) (hst : st.ended = none) :
    (job.Panics w spec inputs extras draws ∧
        (planCrew w spec inputs extras draws st).ended = some .panic) ∨
      (¬ job.Panics w spec inputs extras draws ∧
        (planCrew w spec inputs extras draws st).ended = none) := by
  obtain ⟨-, -, hmanager⟩ := CrewSpec.of_validate hvalid
  obtain ⟨id, mgr, hid, hmgr⟩ := hmanager hprocess
  have hpanics : job.Panics w spec inputs extras draws ↔
      AgentPanics w extras draws st mgr (planPrompt w spec inputs) := by
    simp only [Panics, hphase, hid, Option.some.injEq]
    refine ⟨fun h => h id mgr rfl hmgr, ?_⟩
    rintro h id' mgr' rfl hmgr'
    rw [Option.some.inj (hmgr'.symm.trans hmgr)]
    exact h
  rw [hpanics]
  unfold planCrew
  rw [hid]
  dsimp only
  rw [hmgr]
  apply ended_ask
  · intro st res
    rfl
  · exact hst

theorem ended_step {task : CrewTaskDef} {rest : List CrewTaskDef} {a : CrewAgentDef}
    (hagent : spec.agent? task.agentId = some a) (hphase : job.phase = .working st task rest)
    (hst : st.ended = none) :
    (job.Panics w spec inputs extras draws ∧
        (CrewRun.step w spec inputs extras draws st task).ended = some .panic) ∨
      (¬ job.Panics w spec inputs extras draws ∧
        (CrewRun.step w spec inputs extras draws st task).ended = none) := by
  obtain ⟨b, hchoose⟩ := chooseAgent_of_agent w inputs hagent
  have hpanics : job.Panics w spec inputs extras draws ↔
      AgentPanics w extras draws st b (userBlock inputs st task) := by
    simp only [Panics, hphase, hchoose, Except.ok.injEq]
    exact ⟨fun h => h b rfl, fun h a ha => ha ▸ h⟩
  rw [hpanics]
  unfold CrewRun.step
  rw [hst, Option.isSome_none, if_neg Bool.false_ne_true, hchoose]
  dsimp only
  apply ended_ask
  · intro st res
    rfl
  · exact hst

/-! ## One move -/

/-- The tasks name agents of the crew. -/
def Staffed (spec : CrewSpec) (tasks : List CrewTaskDef) : Prop :=
  ∀ t ∈ tasks, ∃ a, spec.agent? t.agentId = some a

/-- So far the flag has been honoured, and the run is on its way. -/
structure Going (spec : CrewSpec) (job : CrewJob) : Prop where
  honoured : job.Honoured
  late : job.stopped = false → job.late = []
  unfinished : job.Unfinished → job.record.status ≠ .completed
  phase : match job.phase with
    | .planning st => spec.validate = .ok () ∧ spec.process = .hierarchical ∧ st.ended = none
    | .working st task rest =>
        spec.validate = .ok () ∧ st.ended = none ∧ Staffed spec (task :: rest)
    | _ => True

theorem proceed_eq (w : CrewWorld) (inputs : Value) (job : CrewJob) (hst : st.ended = none)
    {tasks : List CrewTaskDef} (hagents : Staffed spec tasks) :
    (tasks = [] ∧ ∃ out, job.proceed w spec inputs st tasks = job.settle (.ok out)) ∨
      ∃ task rest, tasks = task :: rest ∧ job.proceed w spec inputs st tasks =
        { job with
          phase := .working st task rest
          late := if job.stopped then job.late ++ [task] else job.late } := by
  cases tasks with
  | nil =>
      refine .inl ⟨rfl, ?_⟩
      unfold proceed CrewState.output
      rw [hst]
      exact ⟨_, rfl⟩
  | cons task rest =>
      obtain ⟨a, hagent⟩ := hagents task List.mem_cons_self
      obtain ⟨b, hchoose⟩ := chooseAgent_of_agent w inputs hagent
      refine .inr ⟨task, rest, rfl, ?_⟩
      simp only [proceed, hchoose]

theorem proceed_going (w : CrewWorld) (inputs : Value) (job : CrewJob)
    (hlate : job.stopped = false → job.late = []) (hstatus : job.record.status ≠ .completed)
    (hvalid : spec.validate = .ok ()) (hst : st.ended = none) {tasks : List CrewTaskDef} (hagents : Staffed spec tasks) :
    (Honoured (job.proceed w spec inputs st tasks) ↔ ¬ job.stopped = true) ∧
      (Honoured (job.proceed w spec inputs st tasks) →
        Going spec (job.proceed w spec inputs st tasks)) := by
  rcases proceed_eq w inputs job hst hagents with
    ⟨-, out, heq⟩ | ⟨task, rest, rfl, heq⟩
  · rw [heq]
    refine ⟨⟨fun h hstopped => (h hstopped).2 rfl, fun hnot hstopped => absurd hstopped hnot⟩,
      fun h => ⟨h, hlate, fun hun => hun.elim, trivial⟩⟩
  · rw [heq]
    refine ⟨⟨fun h hstopped => ?_, fun hnot hstopped => absurd hstopped hnot⟩,
      fun h => ⟨h, fun hnot => ?_, fun _ => hstatus, hvalid, hst, hagents⟩⟩
    · have hnil := (h hstopped).1
      dsimp only at hnil hstopped
      rw [hstopped, if_pos rfl] at hnil
      exact List.append_ne_nil_of_right_ne_nil _ (List.cons_ne_nil _ _) hnil
    · dsimp only at hnot ⊢
      rw [hnot, if_neg Bool.false_ne_true]
      exact hlate hnot

theorem resume_going (h : Going spec job) (hunfinished : job.Unfinished)
    (hvalid : spec.validate = .ok ()) {Panicked : Prop}
    (hended : (Panicked ∧ st.ended = some .panic) ∨ (¬ Panicked ∧ st.ended = none))
    {tasks : List CrewTaskDef} (hagents : Staffed spec tasks) :
    (Honoured (job.resume w spec inputs st tasks) ↔ (job.stopped = true → Panicked)) ∧
      (Honoured (job.resume w spec inputs st tasks) →
        Going spec (job.resume w spec inputs st tasks)) := by
  rcases hended with ⟨hpanicked, hended⟩ | ⟨hnot, hended⟩
  · have hresume : job.resume w spec inputs st tasks = { job with phase := .crashed } := by
      unfold resume
      rw [hended]
      rfl
    rw [hresume]
    exact ⟨iff_of_true h.honoured fun _ => hpanicked,
      fun hhonoured => ⟨hhonoured, h.late, fun hun => hun.elim, trivial⟩⟩
  · have hresume : job.resume w spec inputs st tasks = job.proceed w spec inputs st tasks := by
      unfold resume
      rw [hended]
    obtain ⟨hiff, hgoing⟩ := proceed_going w inputs job h.late (h.unfinished hunfinished) hvalid hended
      hagents
    rw [hresume]
    refine ⟨hiff.trans ⟨fun hquiet hstopped => absurd hstopped hquiet, fun himp hstopped => ?_⟩,
      hgoing⟩
    exact hnot (himp hstopped)

theorem begin_going (h : Going spec job) :
    (Honoured (job.begin w spec inputs) ↔
      (job.stopped = true → spec.process = .hierarchical ∨ ∃ e, spec.validate = .error e)) ∧
      (Honoured (job.begin w spec inputs) → Going spec (job.begin w spec inputs)) := by
  have hrunning : job.started.record.status ≠ .completed := fun heq => nomatch heq
  cases hvalid : spec.validate with
  | error e =>
      have hbegin : job.begin w spec inputs = job.started.settle (.err e) := by
        simp only [begin, hvalid]
      rw [hbegin]
      have hfailed : Honoured (job.started.settle (.err e)) := by
        intro hstopped
        exact ⟨(h.honoured hstopped).1, fun heq => nomatch heq⟩
      exact ⟨iff_of_true hfailed fun _ => .inr ⟨e, rfl⟩,
        fun _ => ⟨hfailed, h.late, fun hun => hun.elim, trivial⟩⟩
  | ok u =>
      obtain ⟨htasks, hagents, -⟩ := CrewSpec.of_validate hvalid
      by_cases hprocess : spec.process = .hierarchical
      · have hbegin : job.begin w spec inputs =
            { job.started with phase := .planning .start } := by
          simp only [begin, hvalid, hprocess]
        rw [hbegin]
        refine ⟨iff_of_true (fun hstopped => ⟨(h.honoured hstopped).1, hrunning⟩)
          fun _ => .inl hprocess, fun hhonoured => ⟨hhonoured, h.late, fun _ => hrunning,
            hvalid, hprocess, rfl⟩⟩
      · have hbegin : job.begin w spec inputs =
            job.started.proceed w spec inputs .start spec.tasks := by
          simp only [begin, hvalid]
        rw [hbegin]
        have hstart : CrewState.start.ended = none := rfl
        obtain ⟨hiff, hgoing⟩ := proceed_going w inputs job.started h.late hrunning hvalid hstart
          hagents
        refine ⟨hiff.trans ⟨fun hnot hstopped => absurd hstopped hnot, fun himp hstopped => ?_⟩,
          hgoing⟩
        rcases himp hstopped with heq | ⟨e, he⟩
        · exact hprocess heq
        · cases he

theorem begin_or_not (job : CrewJob) :
    job.phase = .queued ∨ job.step w spec inputs extras draws .take = job := by
  cases hphase : job.phase with
  | queued => exact .inl rfl
  | planning | working | recorded | crashed => exact .inr (by simp only [step, hphase])

theorem stop_going (h : Going spec job) : Going spec (job.step w spec inputs extras draws .stop) where
  honoured := by
    intro hstopped
    cases hbefore : job.stopped with
    | true => exact h.honoured hbefore
    | false =>
        refine ⟨h.late hbefore, h.unfinished ?_⟩
        have hor : (job.stopped || decide job.Unfinished) = true := hstopped
        rw [hbefore, Bool.false_or] at hor
        exact of_decide_eq_true hor
  late := fun hnot => h.late (Bool.or_eq_false_iff.1 hnot).1
  unfinished := h.unfinished
  phase := h.phase

theorem returns_going (h : Going spec job) :
    (Honoured (job.step w spec inputs extras draws .returns) ↔
      (job.stopped = true → job.Panics w spec inputs extras draws)) ∧
      (Honoured (job.step w spec inputs extras draws .returns) →
        Going spec (job.step w spec inputs extras draws .returns)) := by
  have hphase := h.phase
  cases hjob : job.phase with
  | planning st =>
      rw [hjob] at hphase
      obtain ⟨hvalid, hprocess, hst⟩ := hphase
      simp only [step, hjob]
      exact resume_going h (by simp only [Unfinished, hjob]) hvalid
        (ended_planCrew hvalid hprocess hjob hst) (CrewSpec.of_validate hvalid).2.1
  | working st task rest =>
      rw [hjob] at hphase
      obtain ⟨hvalid, hst, hagents⟩ := hphase
      obtain ⟨a, hagent⟩ := hagents task List.mem_cons_self
      simp only [step, hjob]
      exact resume_going h (by simp only [Unfinished, hjob]) hvalid (ended_step hagent hjob hst)
        fun t ht => hagents t (List.mem_cons_of_mem _ ht)
  | queued | recorded | crashed =>
      simp only [step, Panics, hjob]
      exact ⟨iff_of_true h.honoured fun _ => trivial, fun _ => h⟩

/-- **One move.** -/
theorem step_going (h : Going spec job) (m : CrewMove) :
    (Honoured (job.step w spec inputs extras draws m) ↔
      Unheard w spec inputs extras draws job m) ∧
      (Honoured (job.step w spec inputs extras draws m) →
        Going spec (job.step w spec inputs extras draws m)) := by
  cases m with
  | take =>
      by_cases hqueued : job.phase = .queued
      · have hstep : job.step w spec inputs extras draws .take = job.begin w spec inputs := by
          simp only [step, hqueued]
        obtain ⟨hiff, hgoing⟩ := begin_going (w := w) h
        rw [hstep]
        refine ⟨hiff.trans ?_, hgoing⟩
        exact ⟨fun himp hstopped _ => himp hstopped, fun himp hstopped => himp hstopped hqueued⟩
      · have hstep : job.step w spec inputs extras draws .take = job :=
          (begin_or_not job).resolve_left hqueued
        rw [hstep]
        exact ⟨iff_of_true h.honoured fun _ heq => absurd heq hqueued, fun _ => h⟩
  | returns => exact returns_going h
  | stop =>
      have hnext : Going spec (job.step w spec inputs extras draws .stop) := stop_going h
      exact ⟨iff_of_true hnext.honoured fun _ => trivial, fun _ => hnext⟩

/-! ## A run that is left alone -/

theorem run_returns (hjob : ¬ job.Unfinished) (k : ℕ) :
    Machine.run (step w spec inputs extras draws) job (List.replicate k .returns) = job := by
  have hstep : job.step w spec inputs extras draws .returns = job := by
    unfold Unfinished at hjob
    split at hjob
    · rename_i hphase
      simp only [step, hphase]
    · rename_i hphase
      simp only [step, hphase]
    · exact absurd trivial hjob
  induction k with
  | zero => rfl
  | succ k ih =>
      rw [List.replicate_succ, Machine.run_cons, hstep]
      exact ih

theorem not_unfinished_settle (job : CrewJob) (outcome : Outcome String CrewOutput) :
    ¬ (job.settle outcome).Unfinished := by
  cases outcome with
  | ok out => exact id
  | err e => exact id
  | panic => exact id

theorem run_ended {outcome : Outcome String CrewOutput} (hst : st.ended = some outcome)
    (tasks : List CrewTaskDef) :
    Machine.run (CrewRun.step w spec inputs extras draws) st tasks = st := by
  have hstep (task : CrewTaskDef) : CrewRun.step w spec inputs extras draws st task = st := by
    simp only [CrewRun.step, hst, Option.isSome_some, if_true]
  induction tasks with
  | nil => rfl
  | cons task tasks ih =>
      rw [Machine.run_cons, hstep task]
      exact ih

/-- The outcome of the tasks that are left. -/
def outcome (w : CrewWorld) (spec : CrewSpec) (inputs : Value) (extras : AgentTaskExtras)
    (draws : ℕ → AgentDraws) (st : CrewState) (tasks : List CrewTaskDef) :
    Outcome String CrewOutput :=
  (Machine.run (CrewRun.step w spec inputs extras draws) st tasks).output spec

/-- If a run comes to its end once it goes on, it does so from what an agent has returned. -/
theorem run_resume (job : CrewJob) {tasks : List CrewTaskDef}
    (hproceed : st.ended = none →
      Machine.run (step w spec inputs extras draws) (job.proceed w spec inputs st tasks)
        (List.replicate tasks.length .returns) =
      job.settle (outcome w spec inputs extras draws st tasks)) :
    Machine.run (step w spec inputs extras draws) (job.resume w spec inputs st tasks)
        (List.replicate tasks.length .returns) =
      job.settle (outcome w spec inputs extras draws st tasks) := by
  cases hst : st.ended with
  | none =>
      have hresume : job.resume w spec inputs st tasks = job.proceed w spec inputs st tasks := by
        simp only [resume, hst]
      rw [hresume]
      exact hproceed hst
  | some outcome =>
      have hresume : job.resume w spec inputs st tasks = job.settle outcome := by
        simp only [resume, hst]
      rw [hresume, run_returns (not_unfinished_settle job outcome), CrewJob.outcome,
        run_ended hst, CrewState.output, hst]

/-- With as many returns as there are tasks left a run comes to its end. -/
theorem run_proceed (hstopped : job.stopped = false) (hst : st.ended = none)
    (tasks : List CrewTaskDef) :
    Machine.run (step w spec inputs extras draws) (job.proceed w spec inputs st tasks)
        (List.replicate tasks.length .returns) =
      job.settle (outcome w spec inputs extras draws st tasks) := by
  induction tasks generalizing st with
  | nil => rfl
  | cons task rest ih =>
      cases hchoose : chooseAgent w spec inputs task with
      | error e =>
          have hproceed : job.proceed w spec inputs st (task :: rest) = job.settle (.err e) := by
            simp only [proceed, hchoose]
          have hstep : CrewRun.step w spec inputs extras draws st task = st.finish (.err e) := by
            simp only [CrewRun.step, hst, hchoose, Option.isSome_none, Bool.false_eq_true, if_false]
          rw [hproceed, run_returns (not_unfinished_settle _ _), outcome, Machine.run_cons, hstep,
            run_ended rfl]
          rfl
      | ok a =>
          have hproceed : job.proceed w spec inputs st (task :: rest) =
              { job with phase := .working st task rest } := by
            simp only [proceed, hchoose, hstopped, Bool.false_eq_true, if_false]
          rw [hproceed, List.length_cons, List.replicate_succ, Machine.run_cons]
          exact run_resume { job with phase := .working st task rest } fun hnext => ih hnext

/-- **A run that is left alone.**  Once its job is taken it comes, agent by agent, to what `run_crew`
returns. -/
theorem run_alone (w : CrewWorld) (spec : CrewSpec) (inputs : Value) (extras : AgentTaskExtras)
    (draws : ℕ → AgentDraws) (id name : String) :
    Machine.run (step w spec inputs extras draws) (queued id name)
        (.take :: List.replicate (spec.tasks.length + 1) .returns) =
      (queued id name).started.settle (runCrew w spec inputs extras draws).1 := by
  have htake : (queued id name).step w spec inputs extras draws .take =
      (queued id name).begin w spec inputs := rfl
  rw [Machine.run_cons, htake]
  cases hvalid : spec.validate with
  | error e =>
      have hbegin : (queued id name).begin w spec inputs =
          (queued id name).started.settle (.err e) := by
        simp only [begin, hvalid]
      rw [hbegin, run_returns (not_unfinished_settle _ _), runCrew, hvalid]
  | ok u =>
      have hrun : (runCrew w spec inputs extras draws).1 =
          (crewState w spec inputs extras draws).output spec := by
        simp only [runCrew, hvalid]
      rw [hrun]
      by_cases hprocess : spec.process = .hierarchical
      · have hbegin : (queued id name).begin w spec inputs =
            { (queued id name).started with phase := .planning .start } := by
          simp only [begin, hvalid, hprocess]
        have hstate : crewState w spec inputs extras draws =
            Machine.run (CrewRun.step w spec inputs extras draws)
              (planCrew w spec inputs extras draws .start) spec.tasks := by
          simp only [crewState, hprocess]
        rw [hbegin, hstate, List.replicate_succ, Machine.run_cons]
        exact run_resume { (queued id name).started with phase := .planning .start } fun hnext =>
          run_proceed rfl hnext spec.tasks
      · have hbegin : (queued id name).begin w spec inputs =
            (queued id name).started.proceed w spec inputs .start spec.tasks := by
          simp only [begin, hvalid]
        have hstate : crewState w spec inputs extras draws =
            Machine.run (CrewRun.step w spec inputs extras draws) .start spec.tasks := by
          simp only [crewState]
        rw [hbegin, hstate, List.replicate_succ', Machine.run_append, run_proceed rfl rfl]
        exact run_returns (not_unfinished_settle _ _) 1

/-! ## The store -/

/-- The store holds the record and the flag of the run. -/
structure Kept (store : CrewRunStore) (id : String) (job : CrewJob) : Prop where
  record : store.runs.lookup id = some job.record
  flag : store.cancels.lookup id = some job.cancelled

theorem kept_queued (store : CrewRunStore) (id name : String) :
    Kept (store.insertPending id name) id (queued id name) :=
  ⟨Finmap.lookup_insert _, Finmap.lookup_insert _⟩

theorem kept_update {store : CrewRunStore} {id : String} (h : Kept store id job)
    (f : RunRecord CrewOutput → RunRecord CrewOutput) :
    Kept ⟨store.runs.update id f, store.cancels⟩ id { job with record := f job.record } := by
  refine ⟨?_, h.flag⟩
  dsimp only
  rw [Finmap.lookup_update, if_pos rfl, h.record]
  rfl

theorem kept_started {store : CrewRunStore} {id : String} (h : Kept store id job) :
    Kept (store.take id) id job.started :=
  kept_update (kept_update h _) _

theorem kept_settle {store : CrewRunStore} {id : String} (h : Kept store id job)
    (outcome : Outcome String CrewOutput) :
    Kept (store.settle id outcome) id (job.settle outcome) := by
  cases outcome with
  | ok out => exact ⟨(kept_update h fun r => r.completeOk out).record, h.flag⟩
  | err e => exact ⟨(kept_update h fun r => r.completeErr e).record, h.flag⟩
  | panic => exact ⟨h.record, h.flag⟩

theorem kept_stop {store : CrewRunStore} {id : String} (h : Kept store id job) :
    Kept (store.stop id) id (job.step w spec inputs extras draws .stop) := by
  have hmem : id ∈ store.cancels := Finmap.mem_of_lookup_eq_some h.flag
  refine ⟨h.record, ?_⟩
  unfold CrewRunStore.stop
  rw [if_pos hmem]
  exact Finmap.lookup_insert _

/-- **A run that is left alone leaves in the store what `run_crew` returns.** -/
theorem kept_run_alone (w : CrewWorld) (spec : CrewSpec) (inputs : Value) (extras : AgentTaskExtras)
    (draws : ℕ → AgentDraws) (store : CrewRunStore) (id name : String) :
    Kept (((store.insertPending id name).take id).settle id (runCrew w spec inputs extras draws).1)
      id (Machine.run (step w spec inputs extras draws) (queued id name)
        (.take :: List.replicate (spec.tasks.length + 1) .returns)) := by
  rw [run_alone]
  exact kept_settle (kept_started (kept_queued store id name)) _

/-! ## Runs -/

section Example

private def agents : CrewWorld where
  calls := ⟨fun _ => [], id, fun text _ _ => some text, fun messages _ => some messages, fun _ => 0,
    Text.toAsciiLowercase⟩
  prompts := ⟨"", "", "", "", "", "", "", "", "", "", "", "", "", "", "", "", "", "", ""⟩
  crewAgentSystemFmt := ""
  builtinNames := []
  inferenceSink := false
  debugIds := fun _ => ""

private def writer : CrewAgentDef := ⟨"writer", "writer", "reports", "", "llama3.2:3b", []⟩

private def report : CrewTaskDef := ⟨"report", "Write a report.", "", "writer", []⟩

/-- The agent sees the flag at once. -/
private def heard : AgentDraws where
  history := []
  systemPrompt := ""
  systemPrefix := ""
  iterations := fun _ => ⟨true, 0, fun _ => .error "", 0, fun _ => true, fun _ _ => .error "",
    fun _ _ => 0⟩
  passes := fun _ => ⟨true, fun _ _ _ _ => .error "", 0, [], fun _ _ => .error "",
    fun _ _ => .error "", fun _ _ => 0, "12:00:00"⟩
  chargedAt := 0
  madeAt := 0

end Example

end CrewJob

end PeerClaw
