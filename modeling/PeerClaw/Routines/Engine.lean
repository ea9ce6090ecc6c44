import PeerClaw.Value
import PeerClaw.Time
import PeerClaw.Lib.Pool
import PeerClaw.Lib.Batching

/-!
# The routine engine

`routines/mod.rs`.  Routines are registered by id, with a status.  `start` runs
the startup routines, then spawns a loop for every routine with an interval or a
cron schedule and a listener for events; `stop` clears a flag that the loops read
when they wake.

Every call and every spawned task is a task of a pool, cut at its locks and where
it waits.  A loop keeps a copy of its routine: nothing after the snapshot reads
`routines` again.

* `RoutineEngine.advance` — the next section of a task, with what it spawns.
* `RoutineEngine.step` — the engine after a call, or after a section of a task.

What a cron schedule parses to and when it comes up next belongs to a library:
whether it parses is a parameter, and whether it comes up again an input.
-/

namespace PeerClaw
namespace Routines

open Lib

/-! ## Routines -/

/-- Routine trigger types. -/
inductive RoutineTrigger
  | cron (schedule : String)
  | interval (seconds : UInt64)
  | event (eventType : String)
  | webhook (path : String)
  | startup
  | manual
  deriving DecidableEq

/-- Routine status. -/
inductive RoutineStatus
  | idle
  | running
  | completed
  | failed
  | disabled
  deriving DecidableEq

/-- Routine action. -/
inductive RoutineAction
  | prompt (prompt : String)
  | tool (name : String) (params : Value)
  | command (command : String)
  | readFile (path : String)
  | custom (handler : String) (data : Value)

/-- Routine definition. -/
structure Routine where
  id : String
  name : String
  description : String
  trigger : RoutineTrigger
  action : RoutineAction
  timeoutSecs : Option UInt64
  enabled : Bool

/-- Event for triggering routines. -/
structure RoutineEvent where
  eventType : String
  source : String
  data : Value
  timestamp : DateTime

/-! ## Tasks -/

/-- The two triggers that get a loop. -/
inductive LoopKind
  | interval
  | cron
  deriving DecidableEq

/-- Whether a trigger gets a loop of this kind. -/
def LoopKind.matches : LoopKind → RoutineTrigger → Bool
  | .interval, .interval _ => true
  | .cron, .cron _ => true
  | _, _ => false

/-- What runs a routine, and so what follows the run. -/
inductive Origin
  | loop (kind : LoopKind)
  | event
  /-- `run_startup_routines`, with the routines that are still to run. -/
  | startup (rest : List Routine)

/-- Where a run of a routine stands. -/
inductive RunStage
  /-- Before the status becomes `Running`. -/
  | mark
  /-- Before the executor is called. -/
  | call
  | execute
  /-- Before the status becomes that of the result. -/
  | record (status : RoutineStatus)
  /-- Before the time of the run is stored. -/
  | stamp
  deriving DecidableEq

/-- Where a loop stands between two runs. -/
inductive LoopStage
  | enter
  | top
  | sleep
  deriving DecidableEq

/-- Where `start` stands. -/
inductive StartStage
  | begin
  /-- Before the startup routines are looked up. -/
  | startups
  /-- Before the next of these is run. -/
  | next (rest : List Routine)
  /-- Before the routines with a trigger of this kind are looked up. -/
  | snapshot (kind : LoopKind)
  /-- Before the loop of the next of these is spawned. -/
  | spawn (kind : LoopKind) (rest : List Routine)
  /-- Before the event listener is spawned. -/
  | listen

/-- Where the event listener stands. -/
inductive ListenStage
  /-- Before it has locked `event_rx`. -/
  | lock
  | top
  | recv
  /-- Before the matching routines are looked up. -/
  | dispatch (event : RoutineEvent)

/-- A call in progress, or a spawned task. -/
inductive Task
  | run (origin : Origin) (routine : Routine) (stage : RunStage)
  | loop (kind : LoopKind) (routine : Routine) (stage : LoopStage)
  | start (stage : StartStage)
  | listener (stage : ListenStage)

/-- What follows a run. -/
def Origin.after (routine : Routine) : Origin → Option Task
  | .loop kind => some (.loop kind routine .top)
  | .event => none
  | .startup rest => some (.start (.next rest))

/-! ## The engine -/

/-- What the tasks share. -/
structure Shared where
  running : Bool
  routines : FiniteMap String Routine
  status : FiniteMap String RoutineStatus
  lastRun : FiniteMap String DateTime
  /-- The events in the channel. -/
  events : List RoutineEvent
  /-- Whether a listener holds the receiving end. -/
  receiving : Bool

/-- What is fixed for an engine. -/
structure RoutineEngine where
  /-- `RoutineConfig::enabled`. -/
  enabled : Bool
  /-- The order in which `routines` is iterated over. -/
  order : IterOrder String Routine
  /-- Whether a cron schedule parses. -/
  parses : String → Bool

/-- What a section finds. -/
structure Draw where
  /-- Whether what the task waits for is there. -/
  ready : Bool
  /-- The status of the executor's result. -/
  status : RoutineStatus
  /-- Whether the cron schedule comes up again. -/
  upcoming : Bool
  now : DateTime

namespace RoutineEngine

variable (x : RoutineEngine)

/-- The enabled routines with a trigger that passes the test. -/
def enabledWith (s : Shared) (test : RoutineTrigger → Bool) : List Routine :=
  ((x.order.entries s.routines).map Prod.snd).filter fun r => r.enabled && test r.trigger

/-- Whether a loop gets to its first turn: an interval of no seconds panics, and a schedule that
does not parse is an error. -/
def enters (routine : Routine) : Bool :=
  match routine.trigger with
  | .interval seconds => decide (seconds ≠ 0)
  | .cron schedule => x.parses schedule
  | _ => false

/-- The next section of a run. -/
def advanceRun (d : Draw) (s : Shared) (origin : Origin) (routine : Routine) :
    RunStage → Shared × Option Task × List Task
  | .mark =>
      ({ s with status := s.status.insert routine.id .running }, some (.run origin routine .call), [])
  | .call => (s, some (.run origin routine .execute), [])
  | .execute => (s, some (.run origin routine (.record d.status)), [])
  | .record status =>
      ({ s with status := s.status.insert routine.id status }, some (.run origin routine .stamp), [])
  | .stamp =>
      ({ s with lastRun := s.lastRun.insert routine.id d.now }, origin.after routine, [])

/-- The next section of a loop. -/
def advanceLoop (d : Draw) (s : Shared) (kind : LoopKind) (routine : Routine) :
    LoopStage → Shared × Option Task × List Task
  | .enter => (s, if x.enters routine then some (.loop kind routine .top) else none, [])
  | .top =>
      (s, if s.running && (kind == .interval || d.upcoming) then some (.loop kind routine .sleep)
        else none, [])
  | .sleep => (s, if s.running then some (.run (.loop kind) routine .mark) else none, [])

/-- The next section of `start`. -/
def advanceStart (s : Shared) : StartStage → Shared × Option Task × List Task
  | .begin =>
      if x.enabled then ({ s with running := true }, some (.start .startups), [])
      else (s, none, [])
  | .startups => (s, some (.start (.next (x.enabledWith s (· == .startup)))), [])
  | .next [] => (s, some (.start (.snapshot .interval)), [])
  | .next (routine :: rest) => (s, some (.run (.startup rest) routine .mark), [])
  | .snapshot kind => (s, some (.start (.spawn kind (x.enabledWith s kind.matches))), [])
  | .spawn kind (routine :: rest) =>
      (s, some (.start (.spawn kind rest)), [.loop kind routine .enter])
  | .spawn .interval [] => (s, some (.start .listen), [])
  | .listen => (s, some (.start (.snapshot .cron)), [.listener .lock])
  | .spawn .cron [] => (s, none, [])

/-- The next section of the event listener. -/
def advanceListener (s : Shared) : ListenStage → Shared × Option Task × List Task
  | .lock =>
      if s.receiving then (s, some (.listener .lock), [])
      else ({ s with receiving := true }, some (.listener .top), [])
  | .top =>
      if s.running then (s, some (.listener .recv), [])
      else ({ s with receiving := false }, none, [])
  | .recv =>
      match s.events with
      | [] => (s, some (.listener .top), [])
      | event :: events => ({ s with events := events }, some (.listener (.dispatch event)), [])
  | .dispatch event =>
      (s, some (.listener .top),
        (x.enabledWith s (· == .event event.eventType)).map fun r => .run .event r .mark)

/-- The next section of a task: what is shared afterwards, what is left of the task, and what it
has spawned. -/
def advance (d : Draw) (s : Shared) (t : Task) : Shared × Option Task × List Task :=
  if d.ready then
    match t with
    | .run origin routine stage => advanceRun d s origin routine stage
    | .loop kind routine stage => x.advanceLoop d s kind routine stage
    | .start stage => x.advanceStart s stage
    | .listener stage => x.advanceListener s stage
  else (s, some t, [])

/-- `RoutineEngine::register`, under the locks of both maps. -/
def register (s : Shared) (routine : Routine) : Shared :=
  { s with
    routines := s.routines.insert routine.id routine
    status := s.status.insert routine.id .idle }

/-- `RoutineEngine::unregister`, under the locks of both maps. -/
def unregister (s : Shared) (id : String) : Shared :=
  if id ∈ s.routines then
    { s with routines := s.routines.erase id, status := s.status.erase id }
  else s

/-- The capacity of the channel of events. -/
def eventCapacity : ℕ := 100

/-- What can happen to an engine. -/
inductive Event
  | register (routine : Routine)
  | unregister (id : String)
  | start
  | stop
  /-- `send_event`, when there is room. -/
  | send (event : RoutineEvent)
  /-- The next section of the task at this place. -/
  | poll (k : ℕ) (d : Draw)

/-- The engine after an event. -/
def step (p : Pool Shared Task) : Event → Pool Shared Task
  | .register routine => { p with shared := register p.shared routine }
  | .unregister id => { p with shared := unregister p.shared id }
  | .start => { p with tasks := p.tasks ++ [some (.start .begin)] }
  | .stop => { p with shared := { p.shared with running := false } }
  | .send event =>
      if p.shared.events.length < eventCapacity then
        { p with shared := { p.shared with events := p.shared.events ++ [event] } }
      else p
  | .poll k d => p.resumeSpawning (x.advance d) k

/-- `RoutineEngine::new`. -/
def new : Pool Shared Task := ⟨⟨false, ∅, ∅, ∅, [], false⟩, []⟩

end RoutineEngine
end Routines
end PeerClaw
