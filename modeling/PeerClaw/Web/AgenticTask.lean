import PeerClaw.Lib.FiniteMap
import PeerClaw.Lib.Machine
import PeerClaw.Web.Completions

/-!
# The result of an agentic task

`api_create_task` in `web/mod.rs` runs a task with the unified loop.  What the model streams goes
through a channel to a forwarder, which puts it behind what the result of the task is so far; when the
loop has returned its answer takes the place of that.  Nobody waits for the forwarder.

* `WebTask`, `AgenticRun` — a task as it is stored, and what runs it.
* `AgenticRun.move` — what can happen in a run, and what that does to its task.
* `AgenticTasks.step` — any number of tasks, in any order.
* `AgenticTasks.Settled` — the result of a task that has ended is its answer; `Keeps` — and it stays so.
* `keeps_iff` — in which runs that holds: those in which the forwarder is never late.
* `late_chunk` — one in which it is.
-/

namespace PeerClaw

open Lib

/-! ## The tasks -/

/-- The status of a task. -/
inductive WebTaskStatus
  | pending
  | running
  | completed
  | cancelled
  | failed
  deriving DecidableEq

structure WebTask where
  id : String
  status : WebTaskStatus
  completedAt : Option String
  result : Option String
  logs : List String
  tokensUsed : UInt32
  iterations : UInt32

/-- What `run_unified_agentic_inference` returns. -/
abbrev AgenticOutcome := Except String InferenceResponse

namespace AgenticOutcome

/-- The status that is recorded. -/
def status : AgenticOutcome → WebTaskStatus
  | .ok _ => .completed
  | .error e => if e = "Stopped by user" then .cancelled else .failed

/-- The final answer, or the text of the error. -/
def answer : AgenticOutcome → String
  | .ok resp => resp.text
  | .error e => if e = "Stopped by user" then "Stopped by user." else s!"Agentic: {e}"

end AgenticOutcome

namespace WebTask

variable (t : WebTask)

/-- The task has ended. -/
def Ended : Prop := t.status = .completed ∨ t.status = .cancelled ∨ t.status = .failed

instance : Decidable t.Ended := inferInstanceAs (Decidable (_ ∨ _ ∨ _))

def pushLog (line : String) : WebTask := { t with logs := t.logs ++ [line] }

/-- What has been streamed is put behind the result. -/
def append (chunk : String) : WebTask :=
  { t with result := some (t.result.getD "" ++ chunk) }

/-- The outcome is recorded. -/
def record (now clock : String) : AgenticOutcome → WebTask
  | .ok resp =>
      { t with
        status := .completed
        completedAt := some now
        result := some resp.text
        tokensUsed := resp.tokensGenerated
        iterations := if t.iterations = 0 then 1 else t.iterations }
  | .error e =>
      { t with
        status := AgenticOutcome.status (.error e)
        completedAt := some now
        result := some (AgenticOutcome.answer (.error e))
        logs := t.logs ++ [s!"[{clock}] {e}"] }

end WebTask

/-- The store of tasks. -/
abbrev TaskStore := List WebTask

namespace TaskStore

/-- The first task with an id. -/
def get (store : TaskStore) (id : String) : Option WebTask := store.find? fun t => t.id = id

/-- It is changed. -/
def update (id : String) (f : WebTask → WebTask) : TaskStore → TaskStore
  | [] => []
  | t :: ts => if t.id = id then f t :: ts else t :: update id f ts

theorem get_cons (t : WebTask) (ts : TaskStore) (id : String) :
    get (t :: ts) id = if t.id = id then some t else get ts id := by
  unfold get
  rw [List.find?_cons]
  by_cases h : t.id = id
  · simp [h]
  · simp [h]

theorem get_update (store : TaskStore) {id : String} {f : WebTask → WebTask}
    (hf : ∀ t, (f t).id = t.id) (id' : String) : get (update id f store) id' =
      if id' = id then (get store id).map f else get store id' := by
  induction store with
  | nil => simp [update, get]
  | cons t ts ih =>
      unfold update
      by_cases hid : t.id = id
      · rw [if_pos hid, get_cons, get_cons, get_cons, hf, hid, if_pos rfl]
        by_cases hid' : id' = id
        · rw [hid', if_pos rfl, if_pos rfl]
          rfl
        · rw [if_neg (Ne.symm hid'), if_neg hid', if_neg (Ne.symm hid')]
      · rw [if_neg hid, get_cons, get_cons, get_cons, if_neg hid, ih]
        by_cases hid' : id' = id
        · rw [hid', if_neg hid, if_pos rfl, if_pos rfl]
        · rw [if_neg hid', if_neg hid']

end TaskStore

/-! ## A run -/

/-- Where a run is. -/
inductive AgenticPhase
  | spawned
  /-- The loop runs. -/
  | running
  /-- The loop has returned. -/
  | returned (outcome : AgenticOutcome)
  /-- Its outcome has been recorded. -/
  | recorded (outcome : AgenticOutcome)

/-- What runs a task: the loop, and the forwarder with its channel. -/
structure AgenticRun where
  phase : AgenticPhase
  /-- What is in the channel. -/
  chunks : List String
  /-- The forwarder has taken this, and waits for the store. -/
  held : Option String
  cancelled : Bool

/-- What can happen in a run. -/
inductive AgenticMove
  /-- The task that has been spawned says so; it may be one with the tools of MCP only. -/
  | start (mcpOnly : Bool) (clock : String)
  /-- A token is streamed. -/
  | send (chunk : String)
  /-- The forwarder receives one. -/
  | take
  /-- The forwarder has got the store. -/
  | append
  /-- `append_log`. -/
  | appendLog (line : String)
  /-- `set_react_pass`. -/
  | setReactPass (pass : UInt32)
  /-- `set_tokens`. -/
  | setTokens (tokens : UInt32)
  /-- `record_tool_step`. -/
  | recordToolStep (line : String) (tokens : UInt32)
  /-- `api_task_stop`. -/
  | stop (clock : String)
  /-- The loop returns. -/
  | finish (outcome : AgenticOutcome)
  /-- Its outcome is recorded. -/
  | record (now clock : String)

namespace AgenticRun

/-- The progress of a task is recorded while the loop runs. -/
def progress (run : AgenticRun) (f : WebTask → WebTask) :
    Option (AgenticRun × (WebTask → WebTask)) :=
  match run.phase with
  | .running => some (run, f)
  | _ => none

/-- What happens in a run, and what that does to its task; nothing if it cannot happen. -/
def move (run : AgenticRun) : AgenticMove → Option (AgenticRun × (WebTask → WebTask))
  | .start mcpOnly clock =>
      match run.phase with
      | .spawned =>
          let kind := if mcpOnly then "MCP-only agentic run started"
            else "Agentic run started (local tools + optional MCP)"
          some ({ run with phase := .running },
            fun t => { t with status := .running, logs := t.logs ++ [s!"[{clock}] {kind}"] })
      | _ => none
  | .send chunk =>
      match run.phase with
      | .running => some ({ run with chunks := run.chunks ++ [chunk] }, id)
      | _ => none
  | .take =>
      match run.held, run.chunks with
      | none, chunk :: rest => some ({ run with chunks := rest, held := some chunk }, id)
      | _, _ => none
  | .append =>
      match run.held with
      | some chunk => some ({ run with held := none }, fun t => t.append chunk)
      | none => none
  | .appendLog line => run.progress fun t => t.pushLog line
  | .setReactPass pass => run.progress fun t => { t with iterations := pass }
  | .setTokens tokens => run.progress fun t => { t with tokensUsed := tokens }
  | .recordToolStep line tokens =>
      run.progress fun t => { t.pushLog line with tokensUsed := tokens }
  | .stop clock =>
      -- the flag is removed when the loop has returned, but it may have been looked up before
      some ({ run with cancelled := true }, fun t =>
        if t.status = .running ∨ t.status = .pending then
          t.pushLog s!"[{clock}] Stop requested — exits after the current model or tool step"
        else t)
  | .finish outcome =>
      match run.phase with
      | .running => some ({ run with phase := .returned outcome }, id)
      | _ => none
  | .record now clock =>
      match run.phase with
      | .returned outcome =>
          some ({ run with phase := .recorded outcome }, fun t => t.record now clock outcome)
      | _ => none

end AgenticRun

/-! ## All of them -/

/-- The store, and the runs by the ids of their tasks. -/
structure AgenticTasks where
  store : TaskStore
  runs : FiniteMap String AgenticRun

/-- What can happen: a task is created, or something happens in the run of one. -/
inductive AgenticEvent
  | create (id clock : String)
  | run (id : String) (m : AgenticMove)

namespace AgenticTasks

/-- The state in which the server begins. -/
def initial : AgenticTasks := ⟨[], ∅⟩

/-- A task with its run; a new id is never one that has been used. -/
def create (st : AgenticTasks) (id clock : String) : AgenticTasks :=
  if id ∈ st.runs then st
  else
    ⟨st.store ++ [⟨id, .pending, none, none, [s!"[{clock}] Task created"], 0, 0⟩],
      st.runs.insert id ⟨.spawned, [], none, false⟩⟩

def step (st : AgenticTasks) : AgenticEvent → AgenticTasks
  | .create id clock => st.create id clock
  | .run id m =>
      match (st.runs.lookup id).bind fun run => run.move m with
      | some (run, f) => ⟨TaskStore.update id f st.store, st.runs.insert id run⟩
      | none => st

/-! ## What is asked of the results -/

/-- The result of a task that has ended is its answer. -/
def Settled (st : AgenticTasks) : Prop :=
  ∀ id run t, st.runs.lookup id = some run → TaskStore.get st.store id = some t → t.Ended →
    ∃ outcome, run.phase = .recorded outcome ∧ t.status = outcome.status ∧
      t.result = some outcome.answer

/-- In every state the results are the answers, and once a task has ended its status and its result
stay as they are. -/
structure Keeps (events : List AgenticEvent) : Prop where
  settled : Machine.Always step Settled initial events
  stays : ∀ pre post, events = pre ++ post → ∀ id t,
    TaskStore.get (Machine.run step initial pre).store id = some t → t.Ended →
    ∃ t', TaskStore.get (Machine.run step initial events).store id = some t' ∧
      t'.status = t.status ∧ t'.result = t.result

/-- What the forwarder puts behind a result that has been recorded is empty. -/
def InTime (st : AgenticTasks) : AgenticEvent → Prop
  | .run id .append => ∀ run chunk outcome, st.runs.lookup id = some run →
      run.held = some chunk → run.phase = .recorded outcome → chunk = ""
  | _ => True

/-! ## One run -/

end AgenticTasks

namespace AgenticRun

variable {run run' : AgenticRun} {t : WebTask} {m : AgenticMove} {f : WebTask → WebTask}

/-- The task fits what has become of its run. -/
def Consistent (run : AgenticRun) (t : WebTask) : Prop :=
  match run.phase with
  | .recorded outcome => t.status = outcome.status ∧ t.result = some outcome.answer
  | _ => ¬ t.Ended

theorem ended_status (outcome : AgenticOutcome) (h : t.status = outcome.status) : t.Ended := by
  unfold WebTask.Ended
  rw [h]
  cases outcome with
  | ok resp => exact .inl rfl
  | error e =>
      unfold AgenticOutcome.status
      dsimp only
      split
      · exact .inr (.inl rfl)
      · exact .inr (.inr rfl)

/-- What a move does to a run and its task. -/
inductive Does (run : AgenticRun) : AgenticMove → AgenticRun → (WebTask → WebTask) → Prop
  /-- The loop goes on, and neither the status of the task nor its result changes. -/
  | quiet {m : AgenticMove} {run' : AgenticRun} {f : WebTask → WebTask}
      (hphase : run'.phase = run.phase)
      (hsame : ∀ t, (f t).id = t.id ∧ (f t).status = t.status ∧ (f t).result = t.result) :
      Does run m run' f
  | start {m : AgenticMove} {f : WebTask → WebTask} (hphase : run.phase = .spawned)
      (hrunning : ∀ t, (f t).id = t.id ∧ (f t).status = .running) :
      Does run m { run with phase := .running } f
  | append {chunk : String} (hheld : run.held = some chunk) :
      Does run .append { run with held := none } fun t => t.append chunk
  | finish {outcome : AgenticOutcome} (hphase : run.phase = .running) :
      Does run (.finish outcome) { run with phase := .returned outcome } id
  | record {outcome : AgenticOutcome} {now clock : String} (hphase : run.phase = .returned outcome) :
      Does run (.record now clock) { run with phase := .recorded outcome } fun t =>
        t.record now clock outcome

theorem progress_does
    (hsame : ∀ t, (f t).id = t.id ∧ (f t).status = t.status ∧ (f t).result = t.result)
    {g : WebTask → WebTask} (hmove : run.progress f = some (run', g)) : Does run m run' g := by
  unfold progress at hmove
  split at hmove
  · obtain ⟨rfl, rfl⟩ := Prod.mk.inj (Option.some.inj hmove)
    exact .quiet rfl hsame
  · cases hmove

theorem move_does (hmove : run.move m = some (run', f)) : Does run m run' f := by
  cases m with
  | appendLog line | setReactPass pass | setTokens tokens | recordToolStep line tokens =>
      unfold move at hmove
      dsimp only at hmove
      refine progress_does ?_ hmove
      exact fun _ => ⟨rfl, rfl, rfl⟩
  | start mcpOnly clock =>
      unfold move at hmove
      dsimp only at hmove
      split at hmove
      · rename_i hphase
        obtain ⟨rfl, rfl⟩ := Prod.mk.inj (Option.some.inj hmove)
        exact .start hphase fun _ => ⟨rfl, rfl⟩
      · cases hmove
  | send chunk | take =>
      unfold move at hmove
      dsimp only at hmove
      split at hmove
      · obtain ⟨rfl, rfl⟩ := Prod.mk.inj (Option.some.inj hmove)
        exact .quiet rfl fun _ => ⟨rfl, rfl, rfl⟩
      · cases hmove
  | append =>
      unfold move at hmove
      dsimp only at hmove
      split at hmove
      · rename_i hheld
        obtain ⟨rfl, rfl⟩ := Prod.mk.inj (Option.some.inj hmove)
        exact .append hheld
      · cases hmove
  | stop clock =>
      obtain ⟨rfl, rfl⟩ := Prod.mk.inj (Option.some.inj hmove)
      refine .quiet rfl fun t => ?_
      split
      · exact ⟨rfl, rfl, rfl⟩
      · exact ⟨rfl, rfl, rfl⟩
  | finish outcome =>
      unfold move at hmove
      dsimp only at hmove
      split at hmove
      · rename_i hphase
        obtain ⟨rfl, rfl⟩ := Prod.mk.inj (Option.some.inj hmove)
        exact .finish hphase
      · cases hmove
  | record now clock =>
      unfold move at hmove
      dsimp only at hmove
      split at hmove
      · rename_i hphase
        obtain ⟨rfl, rfl⟩ := Prod.mk.inj (Option.some.inj hmove)
        exact .record hphase
      · cases hmove

theorem move_id (hmove : run.move m = some (run', f)) (t : WebTask) : (f t).id = t.id := by
  cases move_does hmove with
  | quiet hphase hsame => exact (hsame t).1
  | start hphase hrunning => exact (hrunning t).1
  | append hheld | finish hphase => rfl
  | record hphase =>
      rename_i outcome now clock
      cases outcome with
      | ok resp => rfl
      | error e => rfl

theorem move_recorded (hmove : run.move m = some (run', f)) {outcome : AgenticOutcome}
    (h : run.phase = .recorded outcome) : run'.phase = .recorded outcome := by
  cases move_does hmove with
  | quiet hphase hsame => exact hphase.trans h
  | append hheld => exact h
  | start hphase hrunning | finish hphase | record hphase =>
      rw [h] at hphase
      cases hphase

/-- **A move keeps a run and its task consistent**, but for a late one of the forwarder. -/
theorem move_consistent (h : run.Consistent t) (hmove : run.move m = some (run', f))
    (htime : m = .append → ∀ chunk outcome, run.held = some chunk →
      run.phase = .recorded outcome → chunk = "") : run'.Consistent (f t) := by
  cases move_does hmove with
  | quiet hphase hsame =>
      unfold Consistent WebTask.Ended at h ⊢
      rwa [hphase, (hsame t).2.1, (hsame t).2.2]
  | start hphase hrunning =>
      unfold Consistent WebTask.Ended
      rw [(hrunning t).2]
      simp
  | append hheld =>
      rename_i chunk
      unfold Consistent at h ⊢
      dsimp only
      cases hphase : run.phase with
      | spawned | running | returned outcome =>
          rw [hphase] at h
          exact h
      | recorded outcome =>
          rw [hphase] at h
          obtain rfl := htime rfl chunk outcome hheld hphase
          refine ⟨h.1, ?_⟩
          unfold WebTask.append
          rw [h.2]
          simp
  | finish hphase =>
      unfold Consistent at h ⊢
      rw [hphase] at h
      exact h
  | record hphase =>
      rename_i outcome now clock
      cases outcome with
      | ok resp => exact ⟨rfl, rfl⟩
      | error e => exact ⟨rfl, rfl⟩

end AgenticRun

/-! ## All runs -/

namespace AgenticTasks

variable {st : AgenticTasks} {e : AgenticEvent}

theorem get_append (store : TaskStore) (t : WebTask) (id : String) :
    TaskStore.get (store ++ [t]) id =
      (TaskStore.get store id).or (if t.id = id then some t else none) := by
  unfold TaskStore.get
  rw [List.find?_append]
  by_cases h : t.id = id
  · simp [h]
  · simp [h]

theorem step_cases (st : AgenticTasks) (e : AgenticEvent) (id : String) :
    ((step st e).runs.lookup id = st.runs.lookup id ∧
      TaskStore.get (step st e).store id = TaskStore.get st.store id) ∨
    (∃ clock : String, st.runs.lookup id = none ∧
      (step st e).runs.lookup id = some ⟨.spawned, [], none, false⟩ ∧
      TaskStore.get (step st e).store id = (TaskStore.get st.store id).or
        (some ⟨id, .pending, none, none, [s!"[{clock}] Task created"], 0, 0⟩)) ∨
    ∃ m run run' f, e = .run id m ∧ st.runs.lookup id = some run ∧
      run.move m = some (run', f) ∧ (step st e).runs.lookup id = some run' ∧
      TaskStore.get (step st e).store id = (TaskStore.get st.store id).map f := by
  cases e with
  | create id' clock =>
      unfold step create
      dsimp only
      by_cases hused : id' ∈ st.runs
      · rw [if_pos hused]
        exact .inl ⟨rfl, rfl⟩
      · rw [if_neg hused]
        dsimp only
        rw [Finmap.lookup_insert_eq, get_append]
        dsimp only
        by_cases hid : id = id'
        · subst hid
          rw [if_pos rfl, if_pos rfl]
          exact .inr (.inl ⟨clock, Finmap.lookup_eq_none.2 hused, rfl, rfl⟩)
        · rw [if_neg hid, if_neg (Ne.symm hid), Option.or_none]
          exact .inl ⟨rfl, rfl⟩
  | run id' m =>
      unfold step
      dsimp only
      cases hlookup : st.runs.lookup id' with
      | none => exact .inl ⟨rfl, rfl⟩
      | some run =>
          rw [Option.bind_some]
          cases hmove : run.move m with
          | none => exact .inl ⟨rfl, rfl⟩
          | some next =>
              obtain ⟨run', f⟩ := next
              dsimp only
              rw [Finmap.lookup_insert_eq, TaskStore.get_update _ (AgenticRun.move_id hmove)]
              by_cases hid : id = id'
              · subst hid
                rw [if_pos rfl, if_pos rfl]
                exact .inr (.inr ⟨m, run, run', f, rfl, hlookup, hmove, rfl, rfl⟩)
              · rw [if_neg hid, if_neg hid]
                exact .inl ⟨rfl, rfl⟩

/-- A task is stored exactly if it has a run, and it fits that. -/
inductive Fits : Option AgenticRun → Option WebTask → Prop
  | none : Fits none none
  | some {run : AgenticRun} {t : WebTask} : run.Consistent t → Fits (some run) (some t)

/-- All tasks fit their runs. -/
def Good (st : AgenticTasks) : Prop :=
  ∀ id, Fits (st.runs.lookup id) (TaskStore.get st.store id)

theorem Good.task {id : String} {run : AgenticRun} (h : Good st)
    (hlookup : st.runs.lookup id = some run) :
    ∃ t, TaskStore.get st.store id = some t ∧ run.Consistent t := by
  have hfits : Fits (st.runs.lookup id) (TaskStore.get st.store id) := h id
  rw [hlookup] at hfits
  cases hget : TaskStore.get st.store id with
  | none =>
      rw [hget] at hfits
      cases hfits
  | some t =>
      rw [hget] at hfits
      cases hfits with
      | some hconsistent => exact ⟨t, rfl, hconsistent⟩

theorem Good.recorded {id : String} {run : AgenticRun} {t : WebTask} (h : Good st)
    (hlookup : st.runs.lookup id = some run) (hget : TaskStore.get st.store id = some t)
    (hended : t.Ended) : ∃ outcome, run.phase = .recorded outcome ∧
      t.status = outcome.status ∧ t.result = some outcome.answer := by
  obtain ⟨t', hget', hconsistent⟩ := h.task hlookup
  obtain rfl := Option.some.inj (hget.symm.trans hget')
  unfold AgenticRun.Consistent at hconsistent
  cases hphase : run.phase with
  | spawned | running | returned outcome =>
      rw [hphase] at hconsistent
      exact absurd hended hconsistent
  | recorded outcome =>
      rw [hphase] at hconsistent
      exact ⟨outcome, rfl, hconsistent⟩

theorem good_initial : Good initial := fun _ => .none

theorem Good.settled (h : Good st) : Settled st := fun _ _ _ hlookup hget hended =>
  h.recorded hlookup hget hended

theorem Good.step (h : Good st) (htime : InTime st e) : Good (step st e) := by
  intro id
  rcases step_cases st e id with ⟨hlookup, hget⟩ | ⟨clock, hnone, hlookup, hget⟩ |
    ⟨m, run, run', f, rfl, hrun, hmove, hlookup, hget⟩
  · rw [hlookup, hget]
    exact h id
  · rw [hlookup, hget]
    have hfits : Fits (st.runs.lookup id) (TaskStore.get st.store id) := h id
    rw [hnone] at hfits
    generalize TaskStore.get st.store id = stored at hfits ⊢
    cases hfits with
    | none =>
        refine .some ?_
        unfold AgenticRun.Consistent WebTask.Ended
        simp
  · obtain ⟨t, hstored, hconsistent⟩ := h.task hrun
    rw [hlookup, hget, hstored]
    refine .some (AgenticRun.move_consistent hconsistent hmove ?_)
    rintro rfl chunk outcome hheld hphase
    exact htime run chunk outcome hrun hheld hphase

/-- **A step keeps the results exactly if the forwarder is not late in it.** -/
theorem settled_step_iff (h : Good st) : Settled (step st e) ↔ InTime st e := by
  constructor
  · intro hsettled
    cases e with
    | create id clock => exact trivial
    | run id m =>
        cases m with
        | append =>
            intro run chunk outcome hrun hheld hphase
            obtain ⟨t, hstored, hconsistent⟩ := h.task hrun
            unfold AgenticRun.Consistent at hconsistent
            rw [hphase] at hconsistent
            obtain ⟨hstatus, hresult⟩ := hconsistent
            have hmove : run.move .append =
                some ({ run with held := none }, fun t => t.append chunk) := by
              unfold AgenticRun.move
              rw [hheld]
            have hstep : step st (.run id .append) =
                ⟨TaskStore.update id (fun t => t.append chunk) st.store,
                  st.runs.insert id { run with held := none }⟩ := by
              unfold step
              dsimp only
              rw [hrun, Option.bind_some, hmove]
            have hget : TaskStore.get (step st (.run id .append)).store id =
                some (t.append chunk) := by
              rw [hstep, TaskStore.get_update _ (AgenticRun.move_id hmove), if_pos rfl, hstored]
              rfl
            have hlookup : (step st (.run id .append)).runs.lookup id =
                some { run with held := none } := by
              rw [hstep, Finmap.lookup_insert_eq, if_pos rfl]
            obtain ⟨outcome', hphase', -, hanswer⟩ := hsettled id _ _ hlookup hget
              (AgenticRun.ended_status outcome hstatus)
            obtain rfl : outcome = outcome' := by
              rw [hphase] at hphase'
              exact AgenticPhase.recorded.inj hphase'
            -- the answer with the chunk behind it is the answer
            unfold WebTask.append at hanswer
            rw [hresult] at hanswer
            have hsame : outcome.answer ++ chunk = outcome.answer := Option.some.inj hanswer
            simpa using hsame
        | _ => exact trivial
  · intro htime
    exact (h.step htime).settled

theorem recorded_run (events : List AgenticEvent) {id : String} {outcome : AgenticOutcome}
    (h : ∃ run, st.runs.lookup id = some run ∧ run.phase = .recorded outcome) :
    ∃ run, (Machine.run step st events).runs.lookup id = some run ∧
      run.phase = .recorded outcome := by
  refine Machine.run_of_inv (P := fun _ _ => True)
    (I := fun st : AgenticTasks => ∃ run, st.runs.lookup id = some run ∧ run.phase = .recorded outcome)
    ?_ h Machine.along_true
  rintro st e ⟨run, hrun, hphase⟩ -
  rcases step_cases st e id with ⟨hlookup, -⟩ | ⟨clock, hnone, -, -⟩ |
    ⟨m, run₁, run', f, rfl, hrun₁, hmove, hlookup, -⟩
  · exact ⟨run, hlookup.trans hrun, hphase⟩
  · rw [hrun] at hnone
    cases hnone
  · obtain rfl := Option.some.inj (hrun.symm.trans hrun₁)
    exact ⟨run', hlookup, AgenticRun.move_recorded hmove hphase⟩

/-- **The results are the answers, and stay so, in exactly the runs in which the forwarder puts
nothing behind a result that has been recorded.** -/
theorem keeps_iff (events : List AgenticEvent) :
    Keeps events ↔ Machine.Along step InTime initial events := by
  have hsettled : Machine.Always step Settled initial events ↔
      Machine.Along step InTime initial events := by
    refine Machine.always_iff_along (I := Good) (R := fun _ _ => True) (fun _ h => h.settled)
      (fun _ _ h _ => settled_step_iff h) ?_ good_initial Machine.along_true
    intro st e h _ hnext
    exact h.step ((settled_step_iff h).1 hnext)
  constructor
  · intro h
    exact hsettled.1 h.settled
  · intro h
    have hgood : Machine.Always step Good initial events :=
      Machine.always_of_inv (fun _ _ hgood htime => hgood.step htime) good_initial h
    refine ⟨hsettled.2 h, ?_⟩
    rintro pre post rfl id t hget hended
    obtain ⟨run, hrun⟩ : ∃ run, (Machine.run step initial pre).runs.lookup id = some run := by
      have hfits := (hgood pre post rfl) id
      rw [hget] at hfits
      cases hlookup : (Machine.run step initial pre).runs.lookup id with
      | none =>
          rw [hlookup] at hfits
          cases hfits
      | some run => exact ⟨run, rfl⟩
    obtain ⟨outcome, hphase, hstatus, hresult⟩ :=
      (hgood pre post rfl).recorded hrun hget hended
    obtain ⟨run', hrun', hphase'⟩ := recorded_run post ⟨run, hrun, hphase⟩
    rw [← Machine.run_append] at hrun'
    obtain ⟨t', hget', hconsistent⟩ := hgood.last.task hrun'
    unfold AgenticRun.Consistent at hconsistent
    rw [hphase'] at hconsistent
    exact ⟨t', hget', hconsistent.1.trans hstatus.symm, hconsistent.2.trans hresult.symm⟩

/-- The forwarder has taken the last chunk of an answer, and gets the store after the answer. -/
def lateForwarder : List AgenticEvent :=
  [.create "t" "09:00:00", .run "t" (.start false "09:00:01"), .run "t" (.send "Hel"),
    .run "t" .take, .run "t" .append, .run "t" (.send "lo"), .run "t" .take,
    .run "t" (.finish (.ok ⟨"Hello", 2⟩)), .run "t" (.record "now" "09:00:02"), .run "t" .append]

theorem late_chunk : ¬ Keeps lateForwarder := by
  intro h
  obtain ⟨t', hget, -, hresult⟩ := h.stays (lateForwarder.take 9) [.run "t" .append] rfl "t"
    ⟨"t", .completed, some "now", some "Hello", ["[09:00:00] Task created",
      "[09:00:01] Agentic run started (local tools + optional MCP)"], 2, 1⟩ rfl (.inl rfl)
  obtain rfl : (⟨"t", .completed, some "now", some "Hellolo", ["[09:00:00] Task created",
      "[09:00:01] Agentic run started (local tools + optional MCP)"], 2, 1⟩ : WebTask) = t' :=
    Option.some.inj hget
  exact absurd hresult (by decide)

end AgenticTasks

end PeerClaw
