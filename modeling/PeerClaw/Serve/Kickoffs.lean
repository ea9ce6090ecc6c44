import PeerClaw.Serve.EventLoop
import PeerClaw.Serve.RunStores

/-!
# Kickoffs

`api_crew_kickoff` and `api_flow_kickoff` in `web/mod.rs` put the record of a run into its store, and
only then try to queue its job.  The serve loop takes the jobs and brings the records to their end.

* `Kickoffs.step` — a kickoff, or something that the serve loop does.
* `Matched` — every run that has not ended has a job that is queued or executed.
* `FailsClean` — a kickoff that is answered with `success = false` leaves no record behind.
* `kickoffs_iff` — in which runs that is so; `full_queue_leaves_record` — one in which it is not.
-/

namespace PeerClaw

open Lib

/-- A kickoff: the id that is drawn for the run, the name of its specification, and the job. -/
structure Kickoff (Job : Type) where
  runId : String
  name : String
  job : Job

/-- `CrewKickoffResponse` and `FlowKickoffResponse`. -/
structure KickoffResponse where
  success : Bool
  runId : Option String
  error : Option String

def KickoffResponse.accepted (runId : String) : KickoffResponse := ⟨true, some runId, none⟩

def KickoffResponse.refused (error : String) : KickoffResponse := ⟨false, none, some error⟩

/-- The job that the serve loop awaits. -/
inductive Executing
  | crew (k : Kickoff CrewKickoffJob)
  | flow (k : Kickoff FlowKickoffJob)

/-- The stores, the channels and the serve loop. -/
structure Kickoffs where
  crewStore : CrewRunStore
  flowStore : FlowRunStore
  crewRx : List (Kickoff CrewKickoffJob)
  flowRx : List (Kickoff FlowKickoffJob)
  executing : Option Executing
  /-- The serve loop has not dropped its ends of the channels. -/
  listening : Bool
  /-- The serve loop has panicked, and the process is gone. -/
  crashed : Bool

/-- What can happen. -/
inductive KickoffMove
  | crewKickoff (k : Kickoff CrewKickoffJob)
  /-- The nodes of the flow are iterated over in this order. -/
  | flowKickoff (k : Kickoff FlowKickoffJob) (order : List String)
  | takeCrew
  /-- `run_crew` returns. -/
  | finishCrew (outcome : Outcome String CrewOutput)
  /-- These are the models that are available. -/
  | takeFlow (models : List String)
  /-- The flow that is executed writes a line of its log. -/
  | flowLog (line : String)
  /-- `run_flow_with_extras` returns. -/
  | finishFlow (outcome : Outcome String FlowRunOutput)
  /-- `api_crew_stop`. -/
  | crewStop (id : String)
  /-- The serve loop ends. -/
  | close

namespace Kickoffs

/-- The state in which a node begins. -/
def start : Kickoffs := ⟨⟨∅, ∅⟩, ⟨∅⟩, [], [], none, true, false⟩

variable (wired : Bool) (st : Kickoffs)

/-- There is room in the queue of the crews, and it is open. -/
def crewRoom : Bool := st.listening && decide (st.crewRx.length < 8)

def flowRoom : Bool := st.listening && decide (st.flowRx.length < 8)

/-- What both kinds of kickoffs do: the record is written, and then the job is put into the queue, if
there is room. -/
def kickoff (kind : String) (valid : Outcome String Unit) (runId : String) (room : Bool)
    (recorded queued : Kickoffs) : Kickoffs × Option KickoffResponse :=
  if wired = false then (st, some (.refused s!"{kind} kickoff not wired on this node"))
  else
    match valid with
    | .err e => (st, some (.refused e))
    -- the handler panics, and nobody is answered
    | .panic => (st, none)
    | .ok _ =>
        if room then (queued, some (.accepted runId))
        else (recorded, some (.refused s!"{kind} queue full"))

/-- `api_crew_kickoff`. -/
def apiCrewKickoff (k : Kickoff CrewKickoffJob) : Kickoffs × Option KickoffResponse :=
  let recorded := { st with crewStore := st.crewStore.insertPending k.runId k.name }
  st.kickoff wired "crew" (.ofExcept k.job.spec.validate) k.runId st.crewRoom recorded
    { recorded with crewRx := st.crewRx ++ [k] }

/-- `api_flow_kickoff`. -/
def apiFlowKickoff (k : Kickoff FlowKickoffJob) (order : List String) :
    Kickoffs × Option KickoffResponse :=
  let recorded := { st with flowStore := st.flowStore.insertPending k.runId k.name }
  st.kickoff wired "flow" (k.job.spec.validateForRun order) k.runId st.flowRoom recorded
    { recorded with flowRx := st.flowRx ++ [k] }

/-! ## The serve loop -/

def takeCrew : Kickoffs :=
  match st.executing, st.crewRx with
  | none, k :: rest =>
      { st with
        crewStore := st.crewStore.take k.runId
        crewRx := rest
        executing := some (.crew k) }
  | _, _ => st

def finishCrew (outcome : Outcome String CrewOutput) : Kickoffs :=
  match st.executing, outcome with
  | some (.crew _), .panic => { st with crashed := true }
  | some (.crew k), outcome =>
      { st with crewStore := st.crewStore.settle k.runId outcome, executing := none }
  | _, _ => st

/-- A flow is executed with the first model; without one it fails. -/
def takeFlow (models : List String) : Kickoffs :=
  match st.executing, st.flowRx with
  | none, k :: rest =>
      let store := st.flowStore.take k.runId
      if models.head?.getD "" = "" then
        { st with
          flowStore := store.completeErr k.runId "no models available for flow execution"
          flowRx := rest }
      else { st with flowStore := store, flowRx := rest, executing := some (.flow k) }
  | _, _ => st

def flowLog (line : String) : Kickoffs :=
  match st.executing with
  | some (.flow k) => { st with flowStore := st.flowStore.pushLog k.runId line }
  | _ => st

def finishFlow (outcome : Outcome String FlowRunOutput) : Kickoffs :=
  match st.executing, outcome with
  | some (.flow _), .panic => { st with crashed := true }
  | some (.flow k), outcome =>
      { st with flowStore := st.flowStore.settle k.runId outcome, executing := none }
  | _, _ => st

/-- The serve loop ends when it executes nothing, and what is queued is dropped. -/
def close : Kickoffs :=
  match st.executing with
  | none => { st with crewRx := [], flowRx := [], listening := false }
  | some _ => st

/-- A move, with what a kickoff is answered. -/
def respond : KickoffMove → Kickoffs × Option KickoffResponse
  | .crewKickoff k => st.apiCrewKickoff wired k
  | .flowKickoff k order => st.apiFlowKickoff wired k order
  | .takeCrew => (st.takeCrew, none)
  | .finishCrew outcome => (st.finishCrew outcome, none)
  | .takeFlow models => (st.takeFlow models, none)
  | .flowLog line => (st.flowLog line, none)
  | .finishFlow outcome => (st.finishFlow outcome, none)
  | .crewStop id => ({ st with crewStore := st.crewStore.stop id }, none)
  | .close => (st.close, none)

/-- Once the process is gone nothing happens. -/
def handle (m : KickoffMove) : Kickoffs × Option KickoffResponse :=
  if st.crashed then (st, none) else st.respond wired m

def step (m : KickoffMove) : Kickoffs := (st.handle wired m).1

/-! ## What is asked of them -/

/-- The crews that are executed or queued. -/
def crewIds : List String :=
  match st.executing with
  | some (.crew k) => k.runId :: st.crewRx.map Kickoff.runId
  | _ => st.crewRx.map Kickoff.runId

/-- The flows that are executed or queued. -/
def flowIds : List String :=
  match st.executing with
  | some (.flow k) => k.runId :: st.flowRx.map Kickoff.runId
  | _ => st.flowRx.map Kickoff.runId

/-- Every run that has not ended has a job that is queued or executed. -/
structure Matched : Prop where
  crews : st.crewStore.runs.Matched st.crewIds
  flows : st.flowStore.runs.Matched st.flowIds

/-- The stores hold the same records. -/
structure SameRuns (st st' : Kickoffs) : Prop where
  crews : st'.crewStore.runs = st.crewStore.runs
  flows : st'.flowStore.runs = st.flowStore.runs

/-- A kickoff that is answered with `success = false` leaves no record behind. -/
def FailsClean (m : KickoffMove) : Prop :=
  ∀ response, (st.handle wired m).2 = some response → response.success = false →
    st.SameRuns (st.step wired m)

/-- The record of a job that is dropped has come to its end. -/
def Ended {Output Job : Type} (runs : RunStore Output) (k : Kickoff Job) : Prop :=
  ∀ r, runs.lookup k.runId = some r → ¬ r.Unfinished

/-- A kickoff that gets as far as its record finds room in an open queue, unless that very record is
there already; and the serve loop does not end with a job whose run has not. -/
def Roomy (m : KickoffMove) : Prop :=
  st.crashed = false →
    match m with
    | .crewKickoff k =>
        wired = true → k.job.spec.validate = .ok () → st.crewRoom = true ∨
          st.crewStore.runs.lookup k.runId = some (.queued k.runId k.name "[crew] queued")
    | .flowKickoff k order =>
        wired = true → k.job.spec.validateForRun order = .ok () → st.flowRoom = true ∨
          st.flowStore.runs.lookup k.runId = some (.queued k.runId k.name "[flow] queued")
    | .close =>
        st.executing = none →
          (∀ k ∈ st.crewRx, Ended st.crewStore.runs k) ∧
            ∀ k ∈ st.flowRx, Ended st.flowStore.runs k
    | _ => True

/-! ## A kickoff -/

variable {wired} {st}

/-- A kickoff does what is asked of it exactly if it does not get as far as its record, or there is
room, or the record is there already. -/
theorem kickoff_iff (h : st.Matched) {recorded queued : Kickoffs} (hqueued : queued.Matched)
    {Already : Prop} (hsame : st.SameRuns recorded ↔ Already)
    (hcrews : recorded.crewIds = st.crewIds) (hflows : recorded.flowIds = st.flowIds) {kind : String}
    {valid : Outcome String Unit} {runId : String} {room : Bool}
    {out : Kickoffs × Option KickoffResponse}
    (hout : st.kickoff wired kind valid runId room recorded queued = out) :
    (out.1.Matched ∧ ∀ response, out.2 = some response → response.success = false →
        st.SameRuns out.1) ↔
      (wired = true → valid = .ok () → room = true ∨ Already) := by
  subst hout
  have hkept : st.SameRuns st := ⟨rfl, rfl⟩
  unfold kickoff
  cases wired with
  | false => exact iff_of_true ⟨h, fun _ _ _ => hkept⟩ fun heq => nomatch heq
  | true =>
      cases valid with
      | err e => exact iff_of_true ⟨h, fun _ _ _ => hkept⟩ fun _ heq => nomatch heq
      | panic => exact iff_of_true ⟨h, fun _ _ _ => hkept⟩ fun _ heq => nomatch heq
      | ok u =>
          cases room with
          | true =>
              refine iff_of_true ⟨hqueued, fun response hresponse hfailed => ?_⟩
                fun _ _ => .inl rfl
              cases hresponse
              cases hfailed
          | false =>
              constructor
              · rintro ⟨-, hclean⟩ - -
                exact .inr (hsame.1 (hclean _ rfl rfl))
              · intro hroom
                have halready : Already :=
                  (hroom rfl rfl).resolve_left Bool.false_ne_true
                have hrecorded : st.SameRuns recorded := hsame.2 halready
                refine ⟨⟨?_, ?_⟩, fun _ _ _ => hrecorded⟩
                · show recorded.crewStore.runs.Matched recorded.crewIds
                  rw [hrecorded.crews, hcrews]
                  exact h.crews
                · show recorded.flowStore.runs.Matched recorded.flowIds
                  rw [hrecorded.flows, hflows]
                  exact h.flows

theorem crewIds_queue (k : Kickoff CrewKickoffJob) :
    ({ st with crewRx := st.crewRx ++ [k] } : Kickoffs).crewIds = st.crewIds ++ [k.runId] := by
  unfold crewIds
  dsimp only
  rw [List.map_append]
  split <;> rfl

theorem flowIds_queue (k : Kickoff FlowKickoffJob) :
    ({ st with flowRx := st.flowRx ++ [k] } : Kickoffs).flowIds = st.flowIds ++ [k.runId] := by
  unfold flowIds
  dsimp only
  rw [List.map_append]
  split <;> rfl

theorem apiCrewKickoff_iff (h : st.Matched) (k : Kickoff CrewKickoffJob)
    {out : Kickoffs × Option KickoffResponse} (hout : st.apiCrewKickoff wired k = out) :
    (out.1.Matched ∧ ∀ response, out.2 = some response → response.success = false →
        st.SameRuns out.1) ↔
      (wired = true → k.job.spec.validate = .ok () → st.crewRoom = true ∨
        st.crewStore.runs.lookup k.runId = some (.queued k.runId k.name "[crew] queued")) := by
  have hvalid : (Outcome.ofExcept k.job.spec.validate = .ok ()) ↔ k.job.spec.validate = .ok () := by
    cases k.job.spec.validate with
    | error e => exact iff_of_false (fun heq => nomatch heq) fun heq => nomatch heq
    | ok u => exact iff_of_true rfl rfl
  have hqueued : Matched { st with
      crewStore := st.crewStore.insertPending k.runId k.name
      crewRx := st.crewRx ++ [k] } := by
    refine ⟨?_, h.flows⟩
    have hcrews := h.crews.queue k.runId (.queued k.runId k.name "[crew] queued")
    rw [← crewIds_queue] at hcrews
    exact hcrews
  have hsame : st.SameRuns { st with crewStore := st.crewStore.insertPending k.runId k.name } ↔
      st.crewStore.runs.lookup k.runId = some (.queued k.runId k.name "[crew] queued") :=
    ⟨fun hsame => Finmap.insert_eq_self_iff.1 hsame.crews,
      fun hlook => ⟨Finmap.insert_eq_self_iff.2 hlook, rfl⟩⟩
  rw [← hvalid]
  exact kickoff_iff h hqueued hsame rfl rfl hout

theorem apiFlowKickoff_iff (h : st.Matched) (k : Kickoff FlowKickoffJob) (order : List String)
    {out : Kickoffs × Option KickoffResponse} (hout : st.apiFlowKickoff wired k order = out) :
    (out.1.Matched ∧ ∀ response, out.2 = some response → response.success = false →
        st.SameRuns out.1) ↔
      (wired = true → k.job.spec.validateForRun order = .ok () → st.flowRoom = true ∨
        st.flowStore.runs.lookup k.runId = some (.queued k.runId k.name "[flow] queued")) := by
  have hqueued : Matched { st with
      flowStore := st.flowStore.insertPending k.runId k.name
      flowRx := st.flowRx ++ [k] } := by
    refine ⟨h.crews, ?_⟩
    have hflows := h.flows.queue k.runId (.queued k.runId k.name "[flow] queued")
    rw [← flowIds_queue] at hflows
    exact hflows
  have hsame : st.SameRuns { st with flowStore := st.flowStore.insertPending k.runId k.name } ↔
      st.flowStore.runs.lookup k.runId = some (.queued k.runId k.name "[flow] queued") :=
    ⟨fun hsame => Finmap.insert_eq_self_iff.1 hsame.flows,
      fun hlook => ⟨rfl, Finmap.insert_eq_self_iff.2 hlook⟩⟩
  exact kickoff_iff h hqueued hsame rfl rfl hout

/-! ## The serve loop -/

theorem matched_takeCrew (h : st.Matched) : st.takeCrew.Matched := by
  obtain ⟨crewStore, flowStore, crewRx, flowRx, executing, listening, crashed⟩ := st
  cases executing with
  | some job => exact h
  | none =>
      cases crewRx with
      | nil => exact h
      | cons k rest => exact ⟨CrewRunStore.matched_take h.crews List.mem_cons_self, h.flows⟩

theorem matched_finishCrew (h : st.Matched) (outcome : Outcome String CrewOutput) :
    (st.finishCrew outcome).Matched := by
  obtain ⟨crewStore, flowStore, crewRx, flowRx, executing, listening, crashed⟩ := st
  cases executing with
  | none => exact h
  | some job =>
      cases job with
      | flow k => exact h
      | crew k =>
          cases outcome with
          | panic => exact ⟨h.crews, h.flows⟩
          | ok out => exact ⟨CrewRunStore.matched_settle h.crews nofun, h.flows⟩
          | err e => exact ⟨CrewRunStore.matched_settle h.crews nofun, h.flows⟩

theorem matched_takeFlow (h : st.Matched) (models : List String) :
    (st.takeFlow models).Matched := by
  obtain ⟨crewStore, flowStore, crewRx, flowRx, executing, listening, crashed⟩ := st
  cases executing with
  | some job => exact h
  | none =>
      cases flowRx with
      | nil => exact h
      | cons k rest =>
          have htake := FlowRunStore.matched_take h.flows List.mem_cons_self
          unfold takeFlow
          dsimp only
          split
          · exact ⟨h.crews, FlowRunStore.matched_completeErr htake _⟩
          · exact ⟨h.crews, htake⟩

theorem matched_flowLog (h : st.Matched) (line : String) : (st.flowLog line).Matched := by
  obtain ⟨crewStore, flowStore, crewRx, flowRx, executing, listening, crashed⟩ := st
  cases executing with
  | none => exact h
  | some job =>
      cases job with
      | crew k => exact h
      | flow k => exact ⟨h.crews, h.flows.update List.mem_cons_self _⟩

theorem matched_finishFlow (h : st.Matched) (outcome : Outcome String FlowRunOutput) :
    (st.finishFlow outcome).Matched := by
  obtain ⟨crewStore, flowStore, crewRx, flowRx, executing, listening, crashed⟩ := st
  cases executing with
  | none => exact h
  | some job =>
      cases job with
      | crew k => exact h
      | flow k =>
          cases outcome with
          | panic => exact ⟨h.crews, h.flows⟩
          | ok out => exact ⟨h.crews, FlowRunStore.matched_settle h.flows nofun⟩
          | err e => exact ⟨h.crews, FlowRunStore.matched_settle h.flows nofun⟩

/-- The loop may end exactly if the jobs that it drops are of runs that have ended. -/
theorem matched_close_iff (h : st.Matched) :
    st.close.Matched ↔ (st.executing = none →
      (∀ k ∈ st.crewRx, Ended st.crewStore.runs k) ∧ ∀ k ∈ st.flowRx, Ended st.flowStore.runs k) := by
  obtain ⟨crewStore, flowStore, crewRx, flowRx, executing, listening, crashed⟩ := st
  cases executing with
  | some job => exact iff_of_true h fun heq => nomatch heq
  | none =>
      rw [forall_prop_of_true rfl]
      have hcrews := RunStore.matched_nil_iff h.crews
      have hflows := RunStore.matched_nil_iff h.flows
      simp only [crewIds, List.forall_mem_map] at hcrews
      simp only [flowIds, List.forall_mem_map] at hflows
      exact ⟨fun hclosed => ⟨hcrews.1 hclosed.crews, hflows.1 hclosed.flows⟩,
        fun hended => ⟨hcrews.2 hended.1, hflows.2 hended.2⟩⟩

/-! ## Runs -/

theorem handle_crashed (h : st.crashed = true) (m : KickoffMove) :
    st.handle wired m = (st, none) := if_pos h

theorem handle_running (wired : Bool) (h : st.crashed = false) (m : KickoffMove) :
    st.handle wired m = st.respond wired m := if_neg (Bool.eq_false_iff.1 h)

/-- A move that nobody is answered does what is asked of it exactly if it leaves every run that has
not ended with a job. -/
theorem unanswered_iff {m : KickoffMove} {st' : Kickoffs}
    (hhandle : st.handle wired m = (st', none)) :
    ((st.step wired m).Matched ∧ FailsClean wired st m) ↔ st'.Matched := by
  unfold FailsClean step
  rw [hhandle]
  exact and_iff_left fun response heq => nomatch heq

/-- **One move.** -/
theorem step_iff (h : st.Matched) (m : KickoffMove) :
    ((st.step wired m).Matched ∧ FailsClean wired st m) ↔ Roomy wired st m := by
  cases hcrashed : st.crashed with
  | true =>
      rw [unanswered_iff (handle_crashed hcrashed m)]
      exact iff_of_true h fun hnot => nomatch hcrashed.symm.trans hnot
  | false =>
      have hroomy {P : Prop} : (st.crashed = false → P) ↔ P := forall_prop_of_true hcrashed
      cases m with
      | crewKickoff k =>
          have hhandle := handle_running wired hcrashed (.crewKickoff k)
          exact (apiCrewKickoff_iff h k hhandle.symm).trans hroomy.symm
      | flowKickoff k order =>
          have hhandle := handle_running wired hcrashed (.flowKickoff k order)
          exact (apiFlowKickoff_iff h k order hhandle.symm).trans hroomy.symm
      | takeCrew =>
          rw [unanswered_iff (handle_running wired hcrashed .takeCrew)]
          exact iff_of_true (matched_takeCrew h) fun _ => trivial
      | finishCrew outcome =>
          rw [unanswered_iff (handle_running wired hcrashed (.finishCrew outcome))]
          exact iff_of_true (matched_finishCrew h outcome) fun _ => trivial
      | takeFlow models =>
          rw [unanswered_iff (handle_running wired hcrashed (.takeFlow models))]
          exact iff_of_true (matched_takeFlow h models) fun _ => trivial
      | flowLog line =>
          rw [unanswered_iff (handle_running wired hcrashed (.flowLog line))]
          exact iff_of_true (matched_flowLog h line) fun _ => trivial
      | finishFlow outcome =>
          rw [unanswered_iff (handle_running wired hcrashed (.finishFlow outcome))]
          exact iff_of_true (matched_finishFlow h outcome) fun _ => trivial
      | crewStop id =>
          rw [unanswered_iff (handle_running wired hcrashed (.crewStop id))]
          exact iff_of_true ⟨h.crews, h.flows⟩ fun _ => trivial
      | close =>
          rw [unanswered_iff (handle_running wired hcrashed .close), matched_close_iff h]
          exact hroomy.symm

/-- **When records and jobs agree.**  In a run every run that has not ended has a job, and a kickoff
that is refused leaves no record behind, exactly as long as a kickoff that gets as far as its record
finds room in an open queue, and the serve loop drops no job when it ends. -/
theorem kickoffs_iff (wired : Bool) (moves : List KickoffMove) :
    Machine.Always (step wired) Matched start moves ∧
        Machine.Along (step wired) (FailsClean wired) start moves ↔
      Machine.Along (step wired) (Roomy wired) start moves := by
  have hstart : start.Matched :=
    ⟨(fun id r hlook => nomatch hlook), (fun id r hlook => nomatch hlook)⟩
  have hstep (st : Kickoffs) (m : KickoffMove) (h : st.Matched) :
      (step wired st m).Matched ∧ FailsClean wired st m ↔ Roomy wired st m := step_iff h m
  exact Machine.always_along_iff (fun st m h _ => hstep st m h) hstart Machine.along_true

/-! ## A kickoff too many -/

section Example

private def editor : CrewAgentDef := ⟨"editor", "editor", "texts", "", "llama3.2:3b", []⟩

private def edit : CrewKickoffJob :=
  ⟨⟨[editor], [⟨"edit", "Edit the text.", "", "editor", []⟩], .sequential, none⟩, .null⟩

private def kick (runId : String) : KickoffMove := .crewKickoff ⟨runId, "editors", edit⟩

/-- While the serve loop is busy nine crews are kicked off.  The queue holds eight of them; the ninth
is refused, and leaves the record of a run that nobody will execute. -/
theorem full_queue_leaves_record :
    ¬ Machine.Always (step true) Matched start
      (["1", "2", "3", "4", "5", "6", "7", "8", "9"].map kick) := by
  intro h
  have hlook : (Machine.run (step true) start
      (["1", "2", "3", "4", "5", "6", "7", "8", "9"].map kick)).crewStore.runs.lookup "9" =
        some (.queued "9" "editors" "[crew] queued") := by rfl
  have hids := h.last.crews "9" _ hlook (.inl rfl)
  revert hids
  decide +kernel

end Example

end Kickoffs

end PeerClaw
