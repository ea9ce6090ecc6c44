import PeerClaw.Flow.Legacy

/-!
# The stores of runs

`CrewRunStore` in `crew/store.rs` and `FlowRunStore` in `flow/mod.rs` hold a record of each run
that has been kicked off, by its id.

* `RunRecord`, `RunStore` — the records, with or without when things happened.
* `CrewRunStore`, `FlowRunStore` — what the two do to them; the one also has a flag for each run by
  which it is cancelled.
* `RunStore.Matched` — the runs that have not ended are among these; what keeps it so.
-/

namespace PeerClaw

open Lib

/-- The status of a run. -/
inductive RunStatus
  | pending
  | running
  | completed
  | failed
  deriving DecidableEq

/-- A record of a run, without times. -/
structure RunRecord (Output : Type) where
  id : String
  status : RunStatus
  name : String
  error : Option String
  output : Option Output
  logs : Option (List String)

namespace RunRecord

variable {Output : Type} (r : RunRecord Output)

/-- The record of a run that waits. -/
def queued (id name line : String) : RunRecord Output := ⟨id, .pending, name, none, none, some [line]⟩

/-- The run has not ended. -/
def Unfinished : Prop := r.status = .pending ∨ r.status = .running

instance : Decidable r.Unfinished := inferInstanceAs (Decidable (_ ∨ _))

def pushLog (line : String) : RunRecord Output := { r with logs := some (r.logs.getD [] ++ [line]) }

def withStatus (status : RunStatus) : RunRecord Output := { r with status := status }

/-- The run has ended with an output. -/
def completeOk (out : Output) : RunRecord Output :=
  { r with status := .completed, output := some out, error := none }

/-- The run has ended with an error. -/
def completeErr (err : String) : RunRecord Output := { r with status := .failed, error := some err }

variable {r} in
@[simp] theorem unfinished_pushLog {line : String} : (r.pushLog line).Unfinished ↔ r.Unfinished :=
  Iff.rfl

theorem not_unfinished_completeOk (out : Output) : ¬ (r.completeOk out).Unfinished := by
  rintro (h | h) <;> cases h

theorem not_unfinished_completeErr (err : String) : ¬ (r.completeErr err).Unfinished := by
  rintro (h | h) <;> cases h

end RunRecord

/-- The records of runs, by id. -/
abbrev RunStore (Output : Type) := FiniteMap String (RunRecord Output)

namespace RunStore

variable {Output : Type} {runs : RunStore Output} {ids : List String}

/-- Every run that has not ended is one of these. -/
def Matched (runs : RunStore Output) (ids : List String) : Prop :=
  ∀ id r, runs.lookup id = some r → r.Unfinished → id ∈ ids

theorem Matched.queue (h : runs.Matched ids) (id : String) (r : RunRecord Output) :
    Matched (runs.insert id r) (ids ++ [id]) := by
  intro id' r' hlook hun
  rw [Finmap.lookup_insert_eq] at hlook
  split at hlook
  · rename_i heq
    rw [heq]
    exact List.mem_append_right _ List.mem_cons_self
  · exact List.mem_append_left _ (h id' r' hlook hun)

theorem Matched.update (h : runs.Matched ids) {id : String} (hid : id ∈ ids)
    (f : RunRecord Output → RunRecord Output) : Matched (runs.update id f) ids := by
  intro id' r' hlook hun
  rw [Finmap.lookup_update] at hlook
  split at hlook
  · rename_i heq
    exact heq ▸ hid
  · exact h id' r' hlook hun

theorem Matched.finish {id : String} (h : runs.Matched (id :: ids))
    {f : RunRecord Output → RunRecord Output} (hf : ∀ r, ¬ (f r).Unfinished) :
    Matched (runs.update id f) ids := by
  intro id' r' hlook hun
  rw [Finmap.lookup_update] at hlook
  split at hlook
  · obtain ⟨r, -, rfl⟩ := Option.map_eq_some_iff.1 hlook
    exact absurd hun (hf r)
  · rename_i hne
    exact (List.mem_cons.1 (h id' r' hlook hun)).resolve_left hne

/-- No run is left exactly if those of which there is a record have ended. -/
theorem matched_nil_iff (h : runs.Matched ids) :
    runs.Matched [] ↔ ∀ id ∈ ids, ∀ r, runs.lookup id = some r → ¬ r.Unfinished := by
  constructor
  · intro hnone id _ r hlook hun
    exact List.not_mem_nil (hnone id r hlook hun)
  · intro hended id r hlook hun
    exact absurd hun (hended id (h id r hlook hun) r hlook)

end RunStore

/-! ## Crews -/

structure CrewRunStore where
  runs : RunStore CrewOutput
  cancels : FiniteMap String Bool

namespace CrewRunStore

variable (store : CrewRunStore) (id : String)

def insertPending (name : String) : CrewRunStore where
  runs := store.runs.insert id (.queued id name "[crew] queued")
  cancels := store.cancels.insert id false

def updateStatus (status : RunStatus) : CrewRunStore :=
  { store with runs := store.runs.update id fun r => r.withStatus status }

def pushLog (line : String) : CrewRunStore :=
  { store with runs := store.runs.update id fun r => r.pushLog line }

def completeOk (out : CrewOutput) : CrewRunStore :=
  { store with runs := store.runs.update id fun r => r.completeOk out }

def completeErr (err : String) : CrewRunStore :=
  { store with runs := store.runs.update id fun r => r.completeErr err }

/-- `api_crew_stop`. -/
def stop : CrewRunStore :=
  { store with cancels := if id ∈ store.cancels then store.cancels.insert id true else store.cancels }

/-- What the serve loop does to the record when it takes the job. -/
def take : CrewRunStore := (store.updateStatus id .running).pushLog id "[crew] started"

/-- What the serve loop does with the outcome of `run_crew`; a panic ends the loop. -/
def settle : Outcome String CrewOutput → CrewRunStore
  | .ok out => store.completeOk id out
  | .err e => store.completeErr id e
  | .panic => store

variable {store id} {ids : List String}

theorem matched_take (h : store.runs.Matched ids) (hid : id ∈ ids) :
    (store.take id).runs.Matched ids :=
  (h.update hid _).update hid _

theorem matched_settle (h : store.runs.Matched (id :: ids)) {outcome : Outcome String CrewOutput}
    (hreturned : outcome ≠ .panic) : (store.settle id outcome).runs.Matched ids := by
  cases outcome with
  | ok out => exact h.finish fun r => r.not_unfinished_completeOk out
  | err e => exact h.finish fun r => r.not_unfinished_completeErr e
  | panic => exact absurd rfl hreturned

end CrewRunStore

/-! ## Flows -/

/-- The output of a flow: its steps. -/
abbrev FlowRunOutput := List Value

structure FlowRunStore where
  runs : RunStore FlowRunOutput

namespace FlowRunStore

variable (store : FlowRunStore) (id : String)

def insertPending (name : String) : FlowRunStore :=
  ⟨store.runs.insert id (.queued id name "[flow] queued")⟩

def updateStatus (status : RunStatus) : FlowRunStore :=
  ⟨store.runs.update id fun r => r.withStatus status⟩

def pushLog (line : String) : FlowRunStore := ⟨store.runs.update id fun r => r.pushLog line⟩

def completeOk (out : FlowRunOutput) : FlowRunStore :=
  ⟨store.runs.update id fun r => (r.completeOk out).pushLog "[flow] completed successfully"⟩

def completeErr (err : String) : FlowRunStore :=
  ⟨store.runs.update id fun r => (r.completeErr err).pushLog s!"[flow] failed: {err}"⟩

/-- What the serve loop does to the record when it takes the job. -/
def take : FlowRunStore := (store.updateStatus id .running).pushLog id "[flow] started"

/-- What the serve loop does with the outcome of `run_flow_with_extras`; a panic ends the loop. -/
def settle : Outcome String FlowRunOutput → FlowRunStore
  | .ok out => store.completeOk id out
  | .err e => store.completeErr id e
  | .panic => store

variable {store id} {ids : List String}

theorem matched_take (h : store.runs.Matched ids) (hid : id ∈ ids) :
    (store.take id).runs.Matched ids :=
  (h.update hid _).update hid _

theorem matched_completeErr (h : store.runs.Matched (id :: ids)) (err : String) :
    (store.completeErr id err).runs.Matched ids :=
  h.finish fun r => RunRecord.unfinished_pushLog.not.2 (r.not_unfinished_completeErr err)

theorem matched_settle (h : store.runs.Matched (id :: ids))
    {outcome : Outcome String FlowRunOutput} (hreturned : outcome ≠ .panic) :
    (store.settle id outcome).runs.Matched ids := by
  cases outcome with
  | ok out =>
      exact h.finish fun r => RunRecord.unfinished_pushLog.not.2 (r.not_unfinished_completeOk out)
  | err e => exact matched_completeErr h e
  | panic => exact absurd rfl hreturned

end FlowRunStore

end PeerClaw
