import PeerClaw.Routines.Engine

/-!
# What runs after `unregister`

`unregister` removes a routine and its status, and nothing else: the loops and the
runs that have a copy of the routine go on, and store its status again.

* `routines_tidy_iff` — in every run of the engine, a routine is only run while it
  is registered, a registered routine has at most one loop, and only registered
  routines have a status, exactly when along the run no task that has a copy of a
  routine comes to a run, or to a status, after the routine is gone, and no loop is
  spawned, nor a routine registered, where there is a loop already.
* `loop_outlives_unregister` — a loop wakes after its routine was unregistered: the
  status is back, and the routine is run.
-/

namespace PeerClaw
namespace Routines

open Lib

/-! ## What a task does -/

/-- The routine that a task is running. -/
def Task.runs : Task → Option String
  | .run _ routine .execute => some routine.id
  | _ => none

/-- The routine whose loop a task is. -/
def Task.loops : Task → Option String
  | .loop _ routine _ => some routine.id
  | .run (.loop _) routine _ => some routine.id
  | _ => none

/-- The routine whose status a task is about to store. -/
def Task.stores : Task → Option String
  | .run _ routine .mark => some routine.id
  | .run _ routine (.record _) => some routine.id
  | _ => none

/-- The routine that a task is about to run. -/
def Task.calls : Task → Option String
  | .run _ routine .call => some routine.id
  | _ => none

/-- The routine that a task is about to spawn a loop of. -/
def Task.spawns : Task → Option String
  | .start (.spawn _ (routine :: _)) => some routine.id
  | _ => none

/-- How many tasks are running a routine. -/
def runsOf (p : Pool Shared Task) (id : String) : ℕ := p.count fun t => t.runs = some id

/-- How many live loops a routine has. -/
def loopsOf (p : Pool Shared Task) (id : String) : ℕ := p.count fun t => t.loops = some id

/-! ## The property and the condition -/

/-- A routine is only run while it is registered, a registered routine has at most one loop, and
only registered routines have a status. -/
structure Tidy (p : Pool Shared Task) : Prop where
  runs : ∀ id, runsOf p id ≠ 0 → id ∈ p.shared.routines
  loops : ∀ id ∈ p.shared.routines, loopsOf p id ≤ 1
  status : ∀ id ∈ p.shared.status, id ∈ p.shared.routines

/-- No task comes to a run or to a status of a routine that is gone, no routine goes while it is
run, and no loop comes to another loop of a registered routine. -/
def Orderly (p : Pool Shared Task) : RoutineEngine.Event → Prop
  | .register routine => loopsOf p routine.id ≤ 1
  | .unregister id => runsOf p id = 0
  | .poll k d =>
      ∀ t, p.taskAt k = some t → d.ready = true →
        (∀ id, t.stores = some id → id ∈ p.shared.routines) ∧
        (∀ id, t.calls = some id → id ∈ p.shared.routines) ∧
        ∀ id, t.spawns = some id → id ∈ p.shared.routines → loopsOf p id = 0
  | _ => True

/-! ## One section -/

section Section

variable {x : RoutineEngine} {d : Draw} {s : Shared} {t : Task}

/-- What a section leaves and spawns, in terms of what the task was about to do. -/
structure Effect (s : Shared) (t : Task) (next : Shared × Option Task × List Task) : Prop where
  routines : next.1.routines = s.routines
  status : ∀ id, id ∈ next.1.status ↔ id ∈ s.status ∨ t.stores = some id
  runs : next.2.1.bind Task.runs = t.calls
  spawnedRuns : ∀ t' ∈ next.2.2, t'.runs = none
  loops : next.2.1.bind Task.loops = none ∨ next.2.1.bind Task.loops = t.loops
  spawnedLoops : next.2.2.filterMap Task.loops = t.spawns.toList
  spawner : t.spawns ≠ none → t.loops = none

theorem mem_insert_status {m : FiniteMap String RoutineStatus} {id id' : String}
    {v : RoutineStatus} : id ∈ m.insert id' v ↔ id ∈ m ∨ some id' = some id := by
  rw [Finmap.mem_insert, Option.some.injEq, or_comm, eq_comm]

theorem Origin.after_runs (r : Routine) (origin : Origin) :
    (origin.after r).bind Task.runs = none := by
  cases origin <;> rfl

theorem Origin.after_loops (r : Routine) (origin : Origin) (stage : RunStage) :
    (origin.after r).bind Task.loops = (Task.run origin r stage).loops := by
  cases origin <;> rfl

theorem effect_run (d : Draw) (s : Shared) (origin : Origin) (r : Routine) (stage : RunStage) :
    Effect s (.run origin r stage) (RoutineEngine.advanceRun d s origin r stage) := by
  have hloops : ∀ st st' : RunStage,
      (Task.run origin r st).loops = (Task.run origin r st').loops := by
    intro st st'
    cases origin <;> rfl
  cases stage with
  | mark =>
      exact ⟨rfl, fun id => mem_insert_status, rfl, by simp [RoutineEngine.advanceRun],
        .inr (hloops _ _), rfl, fun h => absurd rfl h⟩
  | call =>
      exact ⟨rfl, fun id => by simp [RoutineEngine.advanceRun, Task.stores], rfl,
        by simp [RoutineEngine.advanceRun], .inr (hloops _ _), rfl, fun h => absurd rfl h⟩
  | execute =>
      exact ⟨rfl, fun id => by simp [RoutineEngine.advanceRun, Task.stores], rfl,
        by simp [RoutineEngine.advanceRun], .inr (hloops _ _), rfl, fun h => absurd rfl h⟩
  | record status =>
      exact ⟨rfl, fun id => mem_insert_status, rfl, by simp [RoutineEngine.advanceRun],
        .inr (hloops _ _), rfl, fun h => absurd rfl h⟩
  | stamp =>
      exact ⟨rfl, fun id => by simp [RoutineEngine.advanceRun, Task.stores],
        Origin.after_runs r origin, by simp [RoutineEngine.advanceRun],
        .inr (Origin.after_loops r origin .stamp), rfl, fun h => absurd rfl h⟩

/-- A section that stores no status, starts no run and spawns no loop. -/
theorem Effect.quiet {next : Shared × Option Task × List Task}
    (hroutines : next.1.routines = s.routines) (hstatus : next.1.status = s.status)
    (hstores : t.stores = none) (hcalls : t.calls = none) (hspawns : t.spawns = none)
    (hruns : next.2.1.bind Task.runs = none)
    (hloops : next.2.1.bind Task.loops = none ∨ next.2.1.bind Task.loops = t.loops)
    (hspawned : ∀ t' ∈ next.2.2, t'.runs = none ∧ t'.loops = none) : Effect s t next where
  routines := hroutines
  status id := by simp [hstatus, hstores]
  runs := by rw [hruns, hcalls]
  spawnedRuns t' ht' := (hspawned t' ht').1
  loops := hloops
  spawnedLoops := by
    rw [hspawns]
    exact List.filterMap_eq_nil_iff.2 fun t' ht' => (hspawned t' ht').2
  spawner h := absurd hspawns h

theorem effect_loop (x : RoutineEngine) (d : Draw) (s : Shared) (kind : LoopKind) (r : Routine)
    (stage : LoopStage) : Effect s (.loop kind r stage) (x.advanceLoop d s kind r stage) := by
  cases stage with
  | enter =>
      refine Effect.quiet rfl rfl rfl rfl rfl ?_ ?_ (by simp [RoutineEngine.advanceLoop])
      · dsimp only [RoutineEngine.advanceLoop]
        split <;> rfl
      · dsimp only [RoutineEngine.advanceLoop]
        split
        · exact .inr rfl
        · exact .inl rfl
  | top =>
      refine Effect.quiet rfl rfl rfl rfl rfl ?_ ?_ (by simp [RoutineEngine.advanceLoop])
      · dsimp only [RoutineEngine.advanceLoop]
        split <;> rfl
      · dsimp only [RoutineEngine.advanceLoop]
        split
        · exact .inr rfl
        · exact .inl rfl
  | sleep =>
      refine Effect.quiet rfl rfl rfl rfl rfl ?_ ?_ (by simp [RoutineEngine.advanceLoop])
      · dsimp only [RoutineEngine.advanceLoop]
        split <;> rfl
      · dsimp only [RoutineEngine.advanceLoop]
        split
        · exact .inr rfl
        · exact .inl rfl

theorem effect_start (x : RoutineEngine) (s : Shared) (stage : StartStage) :
    Effect s (.start stage) (x.advanceStart s stage) := by
  cases stage with
  | begin =>
      dsimp only [RoutineEngine.advanceStart]
      split
      · exact Effect.quiet rfl rfl rfl rfl rfl rfl (.inl rfl) (by simp)
      · exact Effect.quiet rfl rfl rfl rfl rfl rfl (.inl rfl) (by simp)
  | startups => exact Effect.quiet rfl rfl rfl rfl rfl rfl (.inl rfl) (by simp [RoutineEngine.advanceStart])
  | next rest =>
      cases rest with
      | nil => exact Effect.quiet rfl rfl rfl rfl rfl rfl (.inl rfl) (by simp [RoutineEngine.advanceStart])
      | cons r rest =>
          exact Effect.quiet rfl rfl rfl rfl rfl rfl (.inl rfl) (by simp [RoutineEngine.advanceStart])
  | snapshot kind =>
      exact Effect.quiet rfl rfl rfl rfl rfl rfl (.inl rfl) (by simp [RoutineEngine.advanceStart])
  | listen =>
      exact Effect.quiet rfl rfl rfl rfl rfl rfl (.inl rfl)
        (by simp [RoutineEngine.advanceStart, Task.runs, Task.loops])
  | spawn kind rest =>
      cases rest with
      | nil =>
          cases kind with
          | interval => exact Effect.quiet rfl rfl rfl rfl rfl rfl (.inl rfl) (by simp [RoutineEngine.advanceStart])
          | cron => exact Effect.quiet rfl rfl rfl rfl rfl rfl (.inl rfl) (by simp [RoutineEngine.advanceStart])
      | cons r rest =>
          exact ⟨rfl, fun id => by simp [RoutineEngine.advanceStart, Task.stores], rfl,
            by simp [RoutineEngine.advanceStart, Task.runs], .inl rfl, rfl, fun _ => rfl⟩

theorem effect_listener (x : RoutineEngine) (s : Shared) (stage : ListenStage) :
    Effect s (.listener stage) (x.advanceListener s stage) := by
  cases stage with
  | lock =>
      dsimp only [RoutineEngine.advanceListener]
      split
      · exact Effect.quiet rfl rfl rfl rfl rfl rfl (.inl rfl) (by simp)
      · exact Effect.quiet rfl rfl rfl rfl rfl rfl (.inl rfl) (by simp)
  | top =>
      dsimp only [RoutineEngine.advanceListener]
      split
      · exact Effect.quiet rfl rfl rfl rfl rfl rfl (.inl rfl) (by simp)
      · exact Effect.quiet rfl rfl rfl rfl rfl rfl (.inl rfl) (by simp)
  | recv =>
      dsimp only [RoutineEngine.advanceListener]
      split
      · exact Effect.quiet rfl rfl rfl rfl rfl rfl (.inl rfl) (by simp)
      · exact Effect.quiet rfl rfl rfl rfl rfl rfl (.inl rfl) (by simp)
  | dispatch event =>
      refine Effect.quiet rfl rfl rfl rfl rfl rfl (.inl rfl) ?_
      intro t' ht'
      obtain ⟨r, -, rfl⟩ := List.mem_map.1 ht'
      exact ⟨rfl, rfl⟩

/-- **What a section does.** -/
theorem effect_advance (hready : d.ready = true) : Effect s t (x.advance d s t) := by
  unfold RoutineEngine.advance
  rw [if_pos hready]
  cases t with
  | run origin r stage => exact effect_run d s origin r stage
  | loop kind r stage => exact effect_loop x d s kind r stage
  | start stage => exact effect_start x s stage
  | listener stage => exact effect_listener x s stage

end Section

/-! ## One event -/

section Event

variable {x : RoutineEngine} {p : Pool Shared Task} {d : Draw} {t : Task} {k : ℕ}

theorem runsOf_poll (hk : p.taskAt k = some t) (hready : d.ready = true) (id : String) :
    runsOf (x.step p (.poll k d)) id + (decide (t.runs = some id)).toNat =
      runsOf p id + (decide (t.calls = some id)).toNat := by
  have heffect := effect_advance (x := x) (s := p.shared) (t := t) hready
  have hcount := Pool.count_resumeSpawning (P := fun t => t.runs = some id) (x.advance d) hk
  rw [Pool.any_eq_some, heffect.runs] at hcount
  have hspawned : (x.advance d p.shared t).2.2.countP (fun t => t.runs = some id) = 0 := by
    refine List.countP_eq_zero.2 ?_
    intro t' ht'
    rw [heffect.spawnedRuns t' ht']
    simp
  rw [hspawned, Nat.add_zero] at hcount
  exact hcount

theorem loopsOf_poll (hk : p.taskAt k = some t) (hready : d.ready = true) (id : String) :
    loopsOf (x.step p (.poll k d)) id ≤ loopsOf p id + (decide (t.spawns = some id)).toNat ∧
      (t.spawns = some id → loopsOf (x.step p (.poll k d)) id = loopsOf p id + 1) := by
  have heffect := effect_advance (x := x) (s := p.shared) (t := t) hready
  have hcount := Pool.count_resumeSpawning (P := fun t => t.loops = some id) (x.advance d) hk
  rw [Pool.any_eq_some, Pool.countP_eq_some, heffect.spawnedLoops] at hcount
  have hspawned : t.spawns.toList.count id = (decide (t.spawns = some id)).toNat := by
    cases t.spawns with
    | none => rfl
    | some id' =>
        rw [Option.toList_some, List.count_singleton]
        by_cases hid : id' = id <;> simp [hid]
  rw [hspawned] at hcount
  have hstep : loopsOf (x.step p (.poll k d)) id = (p.resumeSpawning (x.advance d) k).count
      fun t => t.loops = some id := rfl
  unfold loopsOf at hstep ⊢
  constructor
  · rcases heffect.loops with hleft | hleft
    · rw [hleft] at hcount
      simp only [reduceCtorEq, decide_false, Bool.toNat_false] at hcount
      omega
    · rw [hleft] at hcount
      omega
  · intro hspawns
    have hnone : t.loops = none := heffect.spawner (by rw [hspawns]; simp)
    have hleft : (x.advance d p.shared t).2.1.bind Task.loops = none := by
      rcases heffect.loops with hleft | hleft
      · exact hleft
      · rw [hleft, hnone]
    rw [hleft, hnone, hspawns] at hcount
    simp only [reduceCtorEq, decide_false, decide_true, Bool.toNat_false, Bool.toNat_true] at hcount
    omega

theorem tidy_poll_iff (h : Tidy p) : Tidy (x.step p (.poll k d)) ↔ Orderly p (.poll k d) := by
  cases hk : p.taskAt k with
  | none =>
      have hstay : x.step p (.poll k d) = p := Pool.resumeSpawning_none hk
      rw [hstay]
      refine ⟨fun _ t ht => ?_, fun _ => h⟩
      rw [hk] at ht
      cases ht
  | some t =>
      by_cases hready : d.ready = true
      · have heffect := effect_advance (x := x) (s := p.shared) (t := t) hready
        have hshared : (x.step p (.poll k d)).shared = (x.advance d p.shared t).1 :=
          Pool.shared_resumeSpawning hk
        have hroutines : (x.step p (.poll k d)).shared.routines = p.shared.routines := by
          rw [hshared, heffect.routines]
        have horderly : Orderly p (.poll k d) ↔
            (∀ id, t.stores = some id → id ∈ p.shared.routines) ∧
            (∀ id, t.calls = some id → id ∈ p.shared.routines) ∧
            ∀ id, t.spawns = some id → id ∈ p.shared.routines → loopsOf p id = 0 := by
          simp [Orderly, hk, hready]
        rw [horderly]
        constructor
        · rintro ⟨hruns, hloops, hstatus⟩
          refine ⟨?_, ?_, ?_⟩
          · intro id hid
            rw [← hroutines]
            refine hstatus id ?_
            rw [hshared, heffect.status]
            exact .inr hid
          · intro id hid
            rw [← hroutines]
            refine hruns id ?_
            have hcount := runsOf_poll (x := x) hk hready id
            have hnone : t.runs = none := by
              cases t with
              | run origin r stage => cases stage <;> first | rfl | cases hid
              | _ => rfl
            rw [hid, hnone] at hcount
            simp only [reduceCtorEq, decide_false, decide_true, Bool.toNat_false, Bool.toNat_true]
              at hcount
            omega
          · intro id hid hmem
            have hone := (loopsOf_poll (x := x) hk hready id).2 hid
            have hle := hloops id (by rw [hroutines]; exact hmem)
            omega
        · rintro ⟨hstores, hcalls, hspawns⟩
          constructor
          · intro id hid
            rw [hroutines]
            by_cases hcall : t.calls = some id
            · exact hcalls id hcall
            · have hcount := runsOf_poll (x := x) hk hready id
              simp only [hcall, decide_false, Bool.toNat_false] at hcount
              exact h.runs id (by omega)
          · intro id hmem
            rw [hroutines] at hmem
            have hle := (loopsOf_poll (x := x) hk hready id).1
            have hbefore := h.loops id hmem
            by_cases hspawn : t.spawns = some id
            · rw [hspawns id hspawn hmem, Nat.zero_add] at hle
              exact le_trans hle (Bool.toNat_le _)
            · simp only [hspawn, decide_false, Bool.toNat_false] at hle
              omega
          · intro id hmem
            rw [hshared, heffect.status] at hmem
            rw [hroutines]
            rcases hmem with hmem | hstore
            · exact h.status id hmem
            · exact hstores id hstore
      · have hadvance : x.advance d p.shared t = (p.shared, some t, []) := if_neg hready
        have hruns : ∀ id, runsOf (x.step p (.poll k d)) id = runsOf p id := by
          intro id
          have hcount := Pool.count_resumeSpawning (P := fun t => t.runs = some id)
            (x.advance d) hk
          rw [hadvance] at hcount
          exact Nat.add_right_cancel hcount
        have hloops : ∀ id, loopsOf (x.step p (.poll k d)) id = loopsOf p id := by
          intro id
          have hcount := Pool.count_resumeSpawning (P := fun t => t.loops = some id)
            (x.advance d) hk
          rw [hadvance] at hcount
          exact Nat.add_right_cancel hcount
        have hshared : (x.step p (.poll k d)).shared = p.shared := by
          have hnext : (x.step p (.poll k d)).shared = (x.advance d p.shared t).1 :=
            Pool.shared_resumeSpawning hk
          rw [hnext, hadvance]
        refine ⟨fun _ t' _ hready' => absurd hready' hready, fun _ => ?_⟩
        constructor
        · intro id hid
          rw [hruns] at hid
          rw [hshared]
          exact h.runs id hid
        · intro id hmem
          rw [hshared] at hmem
          rw [hloops]
          exact h.loops id hmem
        · intro id hmem
          rw [hshared] at hmem ⊢
          exact h.status id hmem

theorem mem_insert_routines {m : FiniteMap String Routine} {id : String} {r : Routine} :
    id ∈ m.insert r.id r ↔ id = r.id ∨ id ∈ m := Finmap.mem_insert

theorem tidy_register_iff (h : Tidy p) (r : Routine) :
    Tidy (x.step p (.register r)) ↔ Orderly p (.register r) := by
  constructor
  · rintro ⟨-, hloops, -⟩
    exact hloops r.id (mem_insert_routines.2 (.inl rfl))
  · intro hone
    constructor
    · intro id hid
      exact mem_insert_routines.2 (.inr (h.runs id hid))
    · intro id hid
      rcases mem_insert_routines.1 hid with rfl | hid
      · exact hone
      · exact h.loops id hid
    · intro id hid
      rcases mem_insert_status.1 hid with hid | hid
      · exact mem_insert_routines.2 (.inr (h.status id hid))
      · exact mem_insert_routines.2 (.inl (Option.some.inj hid).symm)

theorem mem_erase {V : Type} {m : FiniteMap String V} {id id' : String} :
    id ∈ m.erase id' ↔ id ≠ id' ∧ id ∈ m := by
  rw [Finmap.mem_erase]

/-- `unregister`, where the engine is tidy. -/
theorem tidy_unregister_iff (h : Tidy p) (id : String) :
    Tidy (x.step p (.unregister id)) ↔ Orderly p (.unregister id) := by
  have hcases : (x.step p (.unregister id)) = { p with shared := RoutineEngine.unregister p.shared id } :=
    rfl
  rw [hcases]
  unfold RoutineEngine.unregister
  by_cases hmem : id ∈ p.shared.routines
  · rw [if_pos hmem]
    constructor
    · rintro ⟨hruns, -, -⟩
      by_contra hne
      exact (mem_erase.1 (hruns id hne)).1 rfl
    · intro hzero
      constructor
      · intro id' hid'
        refine mem_erase.2 ⟨?_, h.runs id' hid'⟩
        rintro rfl
        exact hid' hzero
      · intro id' hid'
        exact h.loops id' (mem_erase.1 hid').2
      · intro id' hid'
        obtain ⟨hne, hstatus⟩ := mem_erase.1 hid'
        exact mem_erase.2 ⟨hne, h.status id' hstatus⟩
  · rw [if_neg hmem]
    refine ⟨fun _ => ?_, fun _ => h⟩
    by_contra hne
    exact hmem (h.runs id hne)

/-- What changes neither the tasks nor the routines nor their status. -/
theorem Tidy.same {s : Shared} (h : Tidy p) (hroutines : s.routines = p.shared.routines)
    (hstatus : s.status = p.shared.status) : Tidy { p with shared := s } where
  runs id hid := by
    show id ∈ s.routines
    rw [hroutines]
    exact h.runs id hid
  loops id hid := by
    have hmem : id ∈ s.routines := hid
    rw [hroutines] at hmem
    exact h.loops id hmem
  status id hid := by
    have hmem : id ∈ s.status := hid
    rw [hstatus] at hmem
    show id ∈ s.routines
    rw [hroutines]
    exact h.status id hmem

theorem tidy_start (h : Tidy p) : Tidy (x.step p .start) := by
  have hcount : ∀ key : Task → Option String, key (.start .begin) = none → ∀ id,
      (x.step p .start).count (fun t => key t = some id) = p.count fun t => key t = some id := by
    intro key hkey id
    show (p.tasks ++ [some (Task.start .begin)]).countP _ = p.tasks.countP _
    rw [List.countP_append, List.countP_singleton]
    simp [hkey]
  constructor
  · intro id hid
    refine h.runs id ?_
    rwa [runsOf, hcount Task.runs rfl id] at hid
  · intro id hid
    rw [loopsOf, hcount Task.loops rfl id]
    exact h.loops id hid
  · exact h.status

theorem tidy_step_iff (h : Tidy p) (e : RoutineEngine.Event) :
    Tidy (x.step p e) ↔ Orderly p e := by
  cases e with
  | register r => exact tidy_register_iff h r
  | unregister id => exact tidy_unregister_iff h id
  | poll k d => exact tidy_poll_iff h
  | start => exact ⟨fun _ => trivial, fun _ => tidy_start h⟩
  | stop => exact ⟨fun _ => trivial, fun _ => h.same rfl rfl⟩
  | send event =>
      refine ⟨fun _ => trivial, fun _ => ?_⟩
      dsimp only [RoutineEngine.step]
      split
      · exact h.same rfl rfl
      · exact h

theorem tidy_new : Tidy RoutineEngine.new where
  runs _ hid := absurd rfl hid
  loops _ hid := absurd hid Finmap.notMem_empty
  status _ hid := absurd hid Finmap.notMem_empty

end Event

/-! ## Whole runs -/

/-- **Which routines run.**  In every run of the engine, whatever is registered, unregistered,
started and stopped when, a routine is only run while it is registered, a registered routine has
at most one live loop, and only registered routines have a status, in every state, exactly when
every event along the run is orderly. -/
theorem routines_tidy_iff (x : RoutineEngine) (events : List RoutineEngine.Event) :
    Machine.Always x.step Tidy RoutineEngine.new events ↔
      Machine.Along x.step Orderly RoutineEngine.new events := by
  refine Machine.always_iff_along (I := Tidy) (R := fun _ _ => True) (fun p h => h) ?_ ?_ tidy_new
    Machine.along_true
  · intro p e h _
    exact tidy_step_iff h e
  · intro p e _ _ hnext
    exact hnext

theorem enabledWith_single (x : RoutineEngine) {s : Shared} {r : Routine}
    (h : s.routines = Finmap.insert r.id r ∅) (test : RoutineTrigger → Bool) :
    x.enabledWith s test = [r].filter fun r => r.enabled && test r.trigger := by
  have hentries : x.order.entries s.routines = [(r.id, r)] := by
    refine List.perm_singleton.1 (x.order.entries_perm (List.nodup_singleton _) ?_)
    rintro ⟨id, r'⟩
    rw [h, Finmap.lookup_insert_eq, List.mem_singleton, Prod.mk.injEq]
    by_cases hid : id = r.id
    · simp [hid, eq_comm]
    · simp [hid]
  unfold RoutineEngine.enabledWith
  rw [hentries]
  rfl

/-- A loop that wakes while the engine is running starts a run, whatever is registered. -/
theorem loop_wakes (x : RoutineEngine) {d : Draw} (hready : d.ready = true) (s : Shared)
    (hrunning : s.running = true) (t : Option Task) (kind : LoopKind) (r : Routine) :
    Machine.run x.step ⟨s, [t, some (.loop kind r .sleep)]⟩ [.poll 1 d, .poll 1 d, .poll 1 d] =
      ⟨{ s with status := s.status.insert r.id .running },
        [t, some (.run (.loop kind) r .execute)]⟩ := by
  simp [RoutineEngine.step, Pool.resumeSpawning, Pool.taskAt, RoutineEngine.advance, hready,
    RoutineEngine.advanceLoop, RoutineEngine.advanceRun, hrunning]

/-- A routine that is run every minute. -/
def backup : Routine := ⟨"backup", "Backup", "", .interval 60, .command "backup.sh", none, true⟩

/-- An engine that lists its routines by id. -/
def byId : RoutineEngine := ⟨true, IterOrder.ranked id Function.injective_id, fun _ => true⟩

/-- A section that finds what it waits for. -/
def ready : Draw := ⟨true, .completed, true, ⟨0, by decide⟩⟩

/-- The routine is registered and its loop spawned, and the loop sleeps. -/
def untilAsleep : List RoutineEngine.Event :=
  [.register backup, .start] ++ List.replicate 5 (.poll 0 ready) ++ List.replicate 2 (.poll 1 ready)

/-- What is shared while the loop sleeps. -/
def registered : Shared :=
  ⟨true, Finmap.insert "backup" backup ∅, Finmap.insert "backup" .idle ∅, ∅, [], false⟩

theorem run_untilAsleep : Machine.run byId.step RoutineEngine.new untilAsleep =
    ⟨registered, [some (.start (.spawn .interval [])), some (.loop .interval backup .sleep)]⟩ := by
  have hselected : ∀ test : RoutineTrigger → Bool, byId.enabledWith registered test =
      [backup].filter fun r => r.enabled && test r.trigger := enabledWith_single byId rfl
  have hbegin : Machine.run byId.step RoutineEngine.new
      [.register backup, .start, .poll 0 ready] = ⟨registered, [some (.start .startups)]⟩ := rfl
  -- no routine is run at startup, and one gets a loop
  have hstartups : Machine.run byId.step ⟨registered, [some (.start .startups)]⟩
      [.poll 0 ready] = ⟨registered, [some (.start (.next []))]⟩ := by
    show (⟨registered, [some (.start (.next (byId.enabledWith registered
      (· == .startup))))]⟩ : Pool Shared Task) = _
    rw [hselected]
    rfl
  have hnext : Machine.run byId.step ⟨registered, [some (.start (.next []))]⟩ [.poll 0 ready] =
      ⟨registered, [some (.start (.snapshot .interval))]⟩ := rfl
  have hloops : Machine.run byId.step ⟨registered, [some (.start (.snapshot .interval))]⟩
      [.poll 0 ready] = ⟨registered, [some (.start (.spawn .interval [backup]))]⟩ := by
    show (⟨registered, [some (.start (.spawn .interval (byId.enabledWith registered
      LoopKind.interval.matches)))]⟩ : Pool Shared Task) = _
    rw [hselected]
    rfl
  have hsplit : untilAsleep = [.register backup, .start, .poll 0 ready] ++ ([.poll 0 ready] ++
      ([.poll 0 ready] ++ ([.poll 0 ready] ++
      [.poll 0 ready, .poll 1 ready, .poll 1 ready]))) := rfl
  rw [hsplit, Machine.run_append, hbegin, Machine.run_append, hstartups, Machine.run_append, hnext,
    Machine.run_append, hloops]
  rfl

/-- The routine is unregistered, and then the loop wakes. -/
def untilRun : List RoutineEngine.Event :=
  untilAsleep ++ [.unregister "backup", .poll 1 ready, .poll 1 ready, .poll 1 ready]

/-- What is shared once the routine is gone. -/
def unregistered : Shared :=
  ⟨true, (Finmap.insert "backup" backup ∅).erase "backup",
    (Finmap.insert "backup" .idle ∅).erase "backup", ∅, [], false⟩

theorem run_untilRun : Machine.run byId.step RoutineEngine.new untilRun =
    ⟨{ unregistered with status := unregistered.status.insert "backup" .running },
      [some (.start (.spawn .interval [])), some (.run (.loop .interval) backup .execute)]⟩ := by
  have hunregister : RoutineEngine.unregister registered "backup" = unregistered := by
    have hmem : "backup" ∈ registered.routines := Finmap.mem_insert.2 (.inl rfl)
    unfold RoutineEngine.unregister
    rw [if_pos hmem]
    rfl
  unfold untilRun
  rw [Machine.run_append, run_untilAsleep, Machine.run_cons]
  show Machine.run byId.step ⟨RoutineEngine.unregister registered "backup", _⟩ _ = _
  rw [hunregister]
  exact loop_wakes byId rfl unregistered rfl _ _ _

/-- **A loop outlives its routine.**  The loop of a routine sleeps while the routine is
unregistered; it wakes, stores the status `Running` of a routine that is not there, and runs
it. -/
theorem loop_outlives_unregister :
    "backup" ∉ (Machine.run byId.step RoutineEngine.new untilRun).shared.routines ∧
      (Machine.run byId.step RoutineEngine.new untilRun).shared.status.lookup "backup" =
        some .running ∧
      runsOf (Machine.run byId.step RoutineEngine.new untilRun) "backup" = 1 ∧
      ¬ Machine.Always byId.step Tidy RoutineEngine.new untilRun := by
  have hgone : "backup" ∉ unregistered.routines := Finmap.notMem_erase_self
  rw [run_untilRun]
  refine ⟨hgone, Finmap.lookup_insert _, rfl, ?_⟩
  intro hrun
  have htidy := hrun.last
  rw [run_untilRun] at htidy
  exact hgone (htidy.status "backup" (Finmap.mem_insert.2 (.inl rfl)))

end Routines
end PeerClaw
