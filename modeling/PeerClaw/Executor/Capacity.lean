import PeerClaw.Executor.Resource
import PeerClaw.Lib.Pool

/-!
# The counts of active tasks

Calls on the executor as futures, each cut where it waits: a call may be polled
at any time, and dropped at any time.  A task that is executed locally is counted
by `task_started` before and uncounted by `task_completed` after; between the two
the future waits for the work, and nothing uncounts the task when the future is
dropped there.

* `counts_exact_iff` — in every run, the three counts are the numbers of tasks that
  are being executed, and a node that executes nothing is at no limit that a new
  node is not at, exactly when no counted task is dropped, nothing is executed that
  no count is kept of, and no count wraps.
* `dropped_task_leaks` — an inference whose caller goes away stays counted.

Streaming counts a task that a peer executes and `execute` does not; whether such a
task is one that is being executed is therefore left open (`offloaded`).
-/

namespace PeerClaw

open Lib

/-- What of the executor decides where its calls wait. -/
structure TaskExecutor where
  router : RouterConfig
  /-- `with_network` has been called. -/
  network : Bool
  /-- `with_remote_executor` has been called. -/
  remoteExecutor : Bool

namespace TaskExecutor

/-! ## Calls as futures -/

/-- A call on the executor. -/
inductive Call
  | execute (task : ExecutionTask)
  | executeLocal (task : ExecutionTask)
  | executeInferenceStreaming (task : InferenceTask)
  | executeInferenceStreamingPrint (task : InferenceTask)

/-- A call in progress, by what it waits for. -/
inductive Future
  /-- `execute`: the requirements and the state of the node. -/
  | route (task : ExecutionTask)
  /-- `execute_local`: the monitor, to count the task. -/
  | start (task : ExecutionTask)
  /-- The work of a task that is counted. -/
  | work (taskType : TaskType)
  /-- The monitor, to uncount the task. -/
  | complete (taskType : TaskType)
  /-- `execute_remote`: the connected peers. -/
  | peers (task : ExecutionTask) (requirements : PeerFilter)
  /-- `execute_remote`: the remote executor. -/
  | remote (task : ExecutionTask) (requirements : PeerFilter)
  /-- `execute_inference_streaming`: the requirements and the state of the node. -/
  | routeStreaming (task : InferenceTask)
  /-- Streaming: the monitor, to count the task before it is executed here, or offloaded. -/
  | startStreaming (task : InferenceTask) (requirements : Option PeerFilter)
  /-- Streaming: the remote executor, with the task counted. -/
  | remoteStreaming (task : InferenceTask) (requirements : PeerFilter)
  /-- `execute_inference_streaming_print`, before its first poll. -/
  | print (task : InferenceTask)
  /-- The work of `execute_inference_streaming_print`. -/
  | printing (task : InferenceTask)

/-- The future of a call. -/
def Call.future : Call → Future
  | .execute task => .route task
  | .executeLocal task => .start task
  | .executeInferenceStreaming task => .routeStreaming task
  | .executeInferenceStreamingPrint task => .print task

/-- What a poll finds. -/
structure Draw where
  /-- Whether what the future waits for is there. -/
  ready : Bool
  /-- What `routing_requirements_for_task` says. -/
  requirements : ResourceRequirements
  /-- Whether `connected_peers` is empty. -/
  alone : Bool
  /-- Whether the remote executor returns a result. -/
  delivered : Bool

variable (x : TaskExecutor)

/-- What a future does when what it waits for is there: the monitor afterwards, and the next
wait. -/
def resume (s : ResourceState) (d : Draw) : Future → ResourceState × Option Future
  | .route task =>
      match x.router.routeWithRequirements s task d.requirements with
      | .executeLocally => (s, some (.start task))
      | .offloadToNetwork requirements =>
          if x.network then (s, some (.peers task requirements))
          else if x.remoteExecutor then (s, some (.remote task requirements))
          else (s, some (.start task))
      | .insufficientResources _ => (s, none)
  | .start task => (s.taskStarted task.tracked, some (.work task.tracked))
  | .work taskType => (s, some (.complete taskType))
  | .complete taskType => (s.taskCompleted taskType, none)
  | .peers task requirements =>
      if d.alone then (s, some (.start task))
      else if x.remoteExecutor then (s, some (.remote task requirements))
      else (s, some (.start task))
  | .remote task _ => if d.delivered then (s, none) else (s, some (.start task))
  | .routeStreaming task =>
      match x.router.routeWithRequirements s (.inference task) d.requirements with
      | .executeLocally => (s, some (.startStreaming task none))
      | .offloadToNetwork requirements => (s, some (.startStreaming task (some requirements)))
      | .insufficientResources _ => (s, none)
  | .startStreaming task requirements =>
      let counted := s.taskStarted .inference
      match requirements with
      | none => (counted, some (.work .inference))
      | some requirements =>
          if x.remoteExecutor then (counted, some (.remoteStreaming task requirements))
          else (counted, some (.work .inference))
  | .remoteStreaming _ _ =>
      if d.delivered then (s, some (.complete .inference)) else (s, some (.work .inference))
  | .print task => (s, some (.printing task))
  | .printing _ => (s, none)

/-- A poll. -/
def poll (d : Draw) (s : ResourceState) (f : Future) : ResourceState × Option Future :=
  if d.ready then x.resume s d f else (s, some f)

/-- What can happen to the executor and to its monitor. -/
inductive Event
  | call (c : Call)
  | poll (k : ℕ) (d : Draw)
  /-- The caller goes away, or the future panics. -/
  | drop (k : ℕ)
  | refresh (cpuUsage : Float) (ramTotalMb ramUsedMb : UInt32) (gpuUsage : Option Float)
  | registerLoadedModel (modelId : String)
  | unregisterModel (modelId : String)

/-- The executor after an event. -/
def step (p : Pool ResourceState Future) : Event → Pool ResourceState Future
  | .call c => p.step (fun s f => (s, some f)) (.start c.future)
  | .poll k d => p.step (x.poll d) (.resume k)
  | .drop k => p.drop k
  | .refresh cpu total used gpu => { p with shared := p.shared.refresh cpu total used gpu }
  | .registerLoadedModel id => { p with shared := p.shared.registerLoadedModel id }
  | .unregisterModel id => { p with shared := p.shared.unregisterModel id }

/-- A new executor, with the monitor as `ResourceMonitor::new` makes it. -/
def idle : Pool ResourceState Future := ⟨.default, []⟩

/-! ## The property and the condition -/

/-- The type of the task that a future executes, if it executes one. -/
def Future.executing (offloaded : Bool) : Future → Option TaskType
  | .work taskType => some taskType
  | .complete taskType => some taskType
  | .remote task _ => if offloaded then some task.tracked else none
  | .remoteStreaming _ _ => if offloaded then some .inference else none
  | .printing _ => some .inference
  | _ => none

/-- The type that a future has counted its task under, and has still to uncount. -/
def Future.counted : Future → Option TaskType
  | .work taskType => some taskType
  | .complete taskType => some taskType
  | .remoteStreaming _ _ => some .inference
  | _ => none

/-- The number of tasks of a type that are being executed. -/
def executing (offloaded : Bool) (p : Pool ResourceState Future) (t : TaskType) : ℕ :=
  p.count fun f => f.executing offloaded = some t

/-- The counts are those of the tasks that are being executed, and no capacity is missing when
there are none. -/
structure Exact (offloaded : Bool) (p : Pool ResourceState Future) : Prop where
  counts : ∀ t, (p.shared.active t).toNat = executing offloaded p t
  free : ∀ task : ExecutionTask, executing offloaded p task.tracked = 0 →
    x.router.atLimit p.shared task = x.router.atLimit .default task

/-- One more task of a type can be counted. -/
def HasRoom (offloaded : Bool) (p : Pool ResourceState Future) (t : TaskType) : Prop :=
  executing offloaded p t + 1 < 2 ^ 32

/-- A task that is counted is executed and is not dropped, one that is executed is counted, and
no count is at its end. -/
def Kept (offloaded : Bool) (p : Pool ResourceState Future) : Event → Prop
  | .drop k => ∀ f, p.taskAt k = some f → f.counted = none
  | .poll k d =>
      ∀ f, p.taskAt k = some f → d.ready = true →
        match f with
        | .route task =>
            (∃ r, x.router.routeWithRequirements p.shared task d.requirements =
              .offloadToNetwork r) → x.network = false → x.remoteExecutor = true →
              offloaded = false
        | .peers _ _ => d.alone = false → x.remoteExecutor = true → offloaded = false
        | .start task => HasRoom offloaded p task.tracked
        | .startStreaming _ requirements =>
            HasRoom offloaded p .inference ∧
              (requirements.isSome → x.remoteExecutor = true → offloaded = true)
        | .print _ => False
        | _ => True
  | _ => True

/-! ## What a future does to the counts -/

/-- **The invariant.**  The counts are those of the futures that have a task to uncount, and
these are the futures that execute one. -/
structure Sound (offloaded : Bool) (p : Pool ResourceState Future) : Prop where
  counts : ∀ t, (p.shared.active t).toNat = p.count fun f => f.counted = some t
  same : ∀ k f, p.taskAt k = some f → f.executing offloaded = f.counted

/-- The type that a future is about to count its task under. -/
def Future.starts : Future → Option TaskType
  | .start task => some task.tracked
  | .startStreaming _ _ => some .inference
  | _ => none

variable {x} {offloaded : Bool} {p : Pool ResourceState Future} {s : ResourceState} {d : Draw}
  {f : Future} {k : ℕ}

/-- **What a future does to the counts.**  It counts its task, or uncounts it, or leaves the
counts as they are. -/
theorem resume_cases (s : ResourceState) (d : Draw) (f : Future) :
    (∃ t, f.starts = some t ∧ f.counted = none ∧ (x.resume s d f).1 = s.taskStarted t ∧
      (x.resume s d f).2.bind Future.counted = some t) ∨
    (∃ t, f.starts = none ∧ f.counted = some t ∧ (x.resume s d f).1 = s.taskCompleted t ∧
      (x.resume s d f).2.bind Future.counted = none) ∨
    (f.starts = none ∧ (x.resume s d f).1 = s ∧
      (x.resume s d f).2.bind Future.counted = f.counted) := by
  cases f with
  | start task => exact .inl ⟨_, rfl, rfl, rfl, rfl⟩
  | startStreaming task requirements =>
      refine .inl ⟨_, rfl, rfl, ?_⟩
      cases requirements with
      | none => exact ⟨rfl, rfl⟩
      | some r =>
          dsimp only [resume]
          split <;> exact ⟨rfl, rfl⟩
  | complete t => exact .inr (.inl ⟨t, rfl, rfl, rfl, rfl⟩)
  | work t => exact .inr (.inr ⟨rfl, rfl, rfl⟩)
  | print task => exact .inr (.inr ⟨rfl, rfl, rfl⟩)
  | printing task => exact .inr (.inr ⟨rfl, rfl, rfl⟩)
  | remote task r =>
      refine .inr (.inr ⟨rfl, ?_⟩)
      dsimp only [resume]
      split <;> exact ⟨rfl, rfl⟩
  | remoteStreaming task r =>
      refine .inr (.inr ⟨rfl, ?_⟩)
      dsimp only [resume]
      split <;> exact ⟨rfl, rfl⟩
  | peers task r =>
      refine .inr (.inr ⟨rfl, ?_⟩)
      dsimp only [resume]
      repeat' split
      all_goals exact ⟨rfl, rfl⟩
  | route task =>
      refine .inr (.inr ⟨rfl, ?_⟩)
      dsimp only [resume]
      repeat' split
      all_goals exact ⟨rfl, rfl⟩
  | routeStreaming task =>
      refine .inr (.inr ⟨rfl, ?_⟩)
      dsimp only [resume]
      split <;> exact ⟨rfl, rfl⟩

/-- Where the wait after this one is that of a task which is executed and not counted, or
counted and not executed, the condition fails. -/
theorem kept_poll_iff (hf : p.taskAt k = some f) (hsame : f.executing offloaded = f.counted) :
    x.Kept offloaded p (.poll k d) ↔
      (d.ready = true → (∀ t, f.starts = some t → HasRoom offloaded p t) ∧
        ∀ f', (x.resume p.shared d f).2 = some f' → f'.executing offloaded = f'.counted) := by
  simp only [Kept, hf, Option.some.injEq, forall_eq']
  refine imp_congr_right fun _ => ?_
  cases f with
  | route task =>
      simp only [resume, Future.starts]
      cases hroute : x.router.routeWithRequirements p.shared task d.requirements with
      | executeLocally => simp [Future.executing, Future.counted]
      | insufficientResources reason => simp
      | offloadToNetwork requirements =>
          cases hnetwork : x.network with
          | true => simp [Future.executing, Future.counted]
          | false =>
              cases hremote : x.remoteExecutor <;> simp [Future.executing, Future.counted]
  | start task => simp [resume, Future.starts, Future.executing, Future.counted]
  | work t => simp [resume, Future.starts, Future.executing, Future.counted]
  | complete t => simp [resume, Future.starts]
  | peers task r =>
      simp only [resume, Future.starts]
      split
      · simp [Future.executing, Future.counted, *]
      · split
        · simp [Future.executing, Future.counted, *]
        · simp [Future.executing, Future.counted, *]
  | remote task r =>
      simp only [resume, Future.starts]
      split <;> simp [Future.executing, Future.counted]
  | routeStreaming task =>
      simp only [resume, Future.starts]
      split <;> simp [Future.executing, Future.counted]
  | startStreaming task r =>
      cases r with
      | none => simp [resume, Future.starts, Future.executing, Future.counted]
      | some r =>
          simp only [resume, Future.starts]
          split <;> simp [Future.executing, Future.counted, *]
  | remoteStreaming task r =>
      simp only [resume, Future.starts]
      split <;> simp [Future.executing, Future.counted]
  | print task => simp [resume, Future.starts, Future.executing, Future.counted]
  | printing task => simp [resume, Future.starts]

/-! ## One step -/

theorem Sound.executing (h : Sound offloaded p) (t : TaskType) :
    executing offloaded p t = p.count fun f => f.counted = some t :=
  Pool.count_congr fun k f hk => by rw [h.same k f hk]

theorem Sound.exact (h : Sound offloaded p) : x.Exact offloaded p where
  counts t := by
    rw [h.executing t]
    exact h.counts t
  free task hfree := by
    refine RouterConfig.atLimit_congr (UInt32.toNat_inj.1 ?_)
    rw [h.counts, ← h.executing, hfree]
    cases task <;> rfl

theorem count_poll (hf : p.taskAt k = some f) (d : Draw) (P : Future → Bool) :
    (x.step p (.poll k d)).count P + (P f).toNat =
      p.count P + ((x.poll d p.shared f).2.any P).toNat := Pool.count_resume hf

/-- A count after a poll is the number of futures that have a task to uncount, on 32 bits. -/
theorem active_poll (h : Sound offloaded p) (hf : p.taskAt k = some f) (d : Draw) (t : TaskType) :
    ((x.step p (.poll k d)).shared.active t).toNat =
      (x.step p (.poll k d)).count (fun f => f.counted = some t) % 2 ^ 32 := by
  have hcount := count_poll (x := x) hf d fun f => f.counted = some t
  have hshared : (x.step p (.poll k d)).shared = (x.poll d p.shared f).1 := Pool.shared_resume hf
  have hlt : (p.shared.active t).toNat < 2 ^ 32 := UInt32.toNat_lt _
  have hbefore := h.counts t
  rw [Pool.any_eq_some] at hcount
  rw [hshared]
  unfold poll at hcount ⊢
  by_cases hready : d.ready = true
  · rw [if_pos hready] at hcount ⊢
    rcases resume_cases (x := x) p.shared d f with
      ⟨u, -, hf', hs, hleft⟩ | ⟨u, -, hf', hs, hleft⟩ | ⟨-, hs, hleft⟩
    · rw [hf', hleft] at hcount
      rw [hs, ResourceState.toNat_active_taskStarted]
      by_cases htu : t = u
      · subst htu
        simp at hcount ⊢
        omega
      · have hne : ¬ u = t := Ne.symm htu
        simp [htu, hne] at hcount ⊢
        omega
    · rw [hf', hleft] at hcount
      rw [hs, ResourceState.toNat_active_taskCompleted]
      by_cases htu : t = u
      · subst htu
        simp at hcount ⊢
        omega
      · have hne : ¬ u = t := Ne.symm htu
        simp [htu, hne] at hcount ⊢
        omega
    · rw [hleft] at hcount
      rw [hs]
      omega
  · rw [if_neg hready] at hcount ⊢
    simp only [Option.bind_some] at hcount
    show (p.shared.active t).toNat = _
    omega

/-- After a poll, the tasks that are executed and those that are counted differ by the one that
was polled. -/
theorem executing_poll (h : Sound offloaded p) (hf : p.taskAt k = some f) (d : Draw)
    (t : TaskType) :
    executing offloaded (x.step p (.poll k d)) t +
        ((x.poll d p.shared f).2.any fun f => f.counted = some t).toNat =
      (x.step p (.poll k d)).count (fun f => f.counted = some t) +
        ((x.poll d p.shared f).2.any fun f => f.executing offloaded = some t).toNat := by
  have hcounted := count_poll (x := x) hf d fun f => f.counted = some t
  have hexecuting := count_poll (x := x) hf d fun f => f.executing offloaded = some t
  have hsame := h.executing t
  unfold executing at hsame ⊢
  rw [h.same k f hf] at hexecuting
  omega

theorem taskAt_poll (hf : p.taskAt k = some f) (d : Draw) (j : ℕ) :
    (x.step p (.poll k d)).taskAt j =
      if j = k then (x.poll d p.shared f).2 else p.taskAt j := Pool.taskAt_resume hf j

theorem exists_differ {a b : Option TaskType} (h : a ≠ b) :
    ∃ t, decide (a = some t) ≠ decide (b = some t) := by
  cases a with
  | some t =>
      refine ⟨t, ?_⟩
      simp [Ne.symm h]
  | none =>
      cases b with
      | none => exact absurd rfl h
      | some t => exact ⟨t, by simp⟩

theorem sound_poll (h : Sound offloaded p) (hf : p.taskAt k = some f)
    (hkept : x.Kept offloaded p (.poll k d)) : Sound offloaded (x.step p (.poll k d)) := by
  rw [kept_poll_iff hf (h.same k f hf)] at hkept
  have hleft : ∀ f', (x.poll d p.shared f).2 = some f' → f'.executing offloaded = f'.counted := by
    unfold poll
    split
    · rename_i hready
      exact (hkept hready).2
    · rintro f' ⟨⟩
      exact h.same k f hf
  constructor
  · intro t
    rw [active_poll h hf d t, Nat.mod_eq_of_lt]
    -- no count wraps
    have hcount := count_poll (x := x) hf d fun f => f.counted = some t
    have hlt : (p.shared.active t).toNat < 2 ^ 32 := UInt32.toNat_lt _
    have hbefore := h.counts t
    have hone := Bool.toNat_le ((x.poll d p.shared f).2.any fun f => f.counted = some t)
    by_cases hready : d.ready = true
    · have hpoll : x.poll d p.shared f = x.resume p.shared d f := if_pos hready
      rw [Pool.any_eq_some, hpoll] at hcount
      rcases resume_cases (x := x) p.shared d f with
        ⟨u, hstart, hf', -, hnext⟩ | ⟨u, -, hf', -, hnext⟩ | ⟨-, -, hnext⟩
      · have hroom := (hkept hready).1 u hstart
        unfold HasRoom at hroom
        rw [h.executing u] at hroom
        by_cases htu : t = u
        · subst htu
          rw [hnext] at hcount
          simp only [decide_true, Bool.toNat_true] at hcount
          omega
        · have hne : ¬ u = t := Ne.symm htu
          rw [hnext] at hcount
          simp only [Option.some.injEq, hne, decide_false, Bool.toNat_false] at hcount
          omega
      · rw [hnext] at hcount
        simp only [reduceCtorEq, decide_false, Bool.toNat_false] at hcount
        omega
      · rw [hnext] at hcount
        omega
    · have hpoll : x.poll d p.shared f = (p.shared, some f) := if_neg hready
      rw [hpoll, Option.any_some] at hcount
      omega
  · intro j f' hj
    rw [taskAt_poll hf] at hj
    split at hj
    · exact hleft f' hj
    · exact h.same j f' hj

theorem kept_of_exact_poll (h : Sound offloaded p) (hf : p.taskAt k = some f)
    (hexact : x.Exact offloaded (x.step p (.poll k d))) : x.Kept offloaded p (.poll k d) := by
  rw [kept_poll_iff hf (h.same k f hf)]
  intro hready
  have hpoll : x.poll d p.shared f = x.resume p.shared d f := if_pos hready
  have hcount : ∀ t, (x.step p (.poll k d)).count (fun f => f.counted = some t) % 2 ^ 32 =
      executing offloaded (x.step p (.poll k d)) t := by
    intro t
    rw [← active_poll h hf d t]
    exact hexact.counts t
  have hlt : ∀ t, (p.count fun f => f.counted = some t) < 2 ^ 32 := by
    intro t
    rw [← h.counts t]
    exact UInt32.toNat_lt _
  constructor
  · intro t hstart
    obtain ⟨u, hstart', hf', -, hnext⟩ | ⟨u, hnone, -⟩ | ⟨hnone, -⟩ :=
      resume_cases (x := x) p.shared d f
    · obtain rfl : u = t := Option.some.inj (hstart'.symm.trans hstart)
      have hone := count_poll (x := x) hf d fun f => f.counted = some u
      have hdiff := executing_poll (x := x) h hf d u
      rw [Pool.any_eq_some, hpoll, hnext, hf'] at hone
      rw [Pool.any_eq_some, hpoll, hnext] at hdiff
      simp only [decide_true, Bool.toNat_true, reduceCtorEq, decide_false, Bool.toNat_false]
        at hone hdiff
      have hbound := hlt u
      have hwrap := hcount u
      unfold HasRoom
      rw [h.executing u]
      omega
    · rw [hnone] at hstart
      cases hstart
    · rw [hnone] at hstart
      cases hstart
  · intro f' hleft
    by_contra hne
    obtain ⟨t, ht⟩ := exists_differ hne
    have hone := count_poll (x := x) hf d fun f => f.counted = some t
    have hdiff := executing_poll (x := x) h hf d t
    rw [hpoll, hleft] at hone hdiff
    simp only [Option.any_some] at hone hdiff
    have hbound := hlt t
    have hwrap := hcount t
    cases hexec : decide (f'.executing offloaded = some t) <;>
      cases hcnt : decide (f'.counted = some t) <;> rw [hexec, hcnt] at ht <;>
      simp only [hexec, hcnt, Bool.toNat_true, Bool.toNat_false, ne_eq, not_true] at ht hone hdiff <;>
      omega

/-- Dropping a future that has no task to uncount keeps the invariant, and dropping one that
does leaves a count that is too high. -/
theorem drop_iff (h : Sound offloaded p) :
    (x.Kept offloaded p (.drop k) → Sound offloaded (x.step p (.drop k))) ∧
      (x.Exact offloaded (x.step p (.drop k)) → x.Kept offloaded p (.drop k)) := by
  constructor
  · intro hkept
    constructor
    · intro t
      show (p.shared.active t).toNat = (p.drop k).count _
      rw [h.counts t]
      cases hk : p.taskAt k with
      | none => rw [Pool.drop_none hk]
      | some f =>
          have hcount := Pool.count_drop (P := fun f => f.counted = some t) hk
          rw [hkept f hk] at hcount
          simpa using hcount.symm
    · intro j f hj
      have hdrop : (p.drop k).taskAt j = some f := hj
      rw [Pool.taskAt_drop] at hdrop
      split at hdrop
      · cases hdrop
      · exact h.same j f hdrop
  · intro hexact f hk
    by_contra hne
    obtain ⟨t, ht⟩ := Option.ne_none_iff_exists'.1 hne
    have hcount := Pool.count_drop (P := fun f => f.executing offloaded = some t) hk
    have hafter : (p.shared.active t).toNat = executing offloaded (p.drop k) t := hexact.counts t
    have hbefore := h.counts t
    rw [← h.executing t] at hbefore
    rw [h.same k f hk, ht] at hcount
    simp only [decide_true, Bool.toNat_true] at hcount
    unfold executing at hbefore hafter
    omega

theorem sound_call (h : Sound offloaded p) (c : Call) : Sound offloaded (x.step p (.call c)) := by
  have hfresh : c.future.counted = none ∧ c.future.executing offloaded = none := by
    cases c <;> exact ⟨rfl, rfl⟩
  constructor
  · intro t
    have hcount : (p.step (fun s f => (s, some f)) (.start c.future)).count
        (fun f => f.counted = some t) = _ := Pool.count_start c.future
    rw [hfresh.1] at hcount
    exact (h.counts t).trans hcount.symm
  · intro j f hj
    have hstart : (p.step (fun s f => (s, some f)) (.start c.future)).taskAt j = some f := hj
    rw [Pool.taskAt_start] at hstart
    split at hstart
    · obtain rfl := Option.some.inj hstart
      rw [hfresh.1, hfresh.2]
    · exact h.same j f hstart

theorem Sound.of_active (h : Sound offloaded p) {s : ResourceState}
    (hs : ∀ t, s.active t = p.shared.active t) : Sound offloaded { p with shared := s } where
  counts t := by
    show (s.active t).toNat = _
    rw [hs t]
    exact h.counts t
  same := h.same

/-- One event: it keeps the invariant where it keeps the condition, and keeps the condition where
it leaves the counts exact. -/
theorem step_iff (h : Sound offloaded p) (e : Event) :
    (x.Kept offloaded p e → Sound offloaded (x.step p e)) ∧
      (x.Exact offloaded (x.step p e) → x.Kept offloaded p e) := by
  cases e with
  | call c => exact ⟨fun _ => sound_call h c, fun _ => trivial⟩
  | drop k => exact drop_iff h
  | poll k d =>
      cases hk : p.taskAt k with
      | some f => exact ⟨sound_poll h hk, kept_of_exact_poll h hk⟩
      | none =>
          have hstay : x.step p (.poll k d) = p := Pool.step_resume_none hk
          rw [hstay]
          refine ⟨fun _ => h, fun _ f hf => ?_⟩
          rw [hk] at hf
          cases hf
  | refresh cpu total used gpu =>
      exact ⟨fun _ => h.of_active (ResourceState.active_refresh _ _ _ _ _), fun _ => trivial⟩
  | registerLoadedModel id =>
      exact ⟨fun _ => h.of_active (ResourceState.active_registerLoadedModel _ _), fun _ => trivial⟩
  | unregisterModel id =>
      exact ⟨fun _ => h.of_active (ResourceState.active_unregisterModel _ _), fun _ => trivial⟩

theorem sound_idle : Sound offloaded idle where
  counts t := by cases t <;> rfl
  same k f hk := by cases hk

end TaskExecutor

open TaskExecutor

/-! ## Whole runs -/

/-- **The counts of active tasks.**  In every run of the executor, whatever is called, polled and
dropped when, every count is the number of tasks of its type that are being executed, in every
state, and a node that executes none of them is at no limit that a new node is not at, exactly
when along the run no counted task is dropped, nothing is executed that no count is kept of, and
no count wraps. -/
theorem counts_exact_iff (x : TaskExecutor) (offloaded : Bool) (events : List Event) :
    Machine.Always x.step (x.Exact offloaded) idle events ↔
      Machine.Along x.step (x.Kept offloaded) idle events := by
  refine Machine.always_iff_along (I := Sound offloaded) (R := fun _ _ => True)
    (fun p h => h.exact) ?_ ?_ sound_idle Machine.along_true
  · intro p e h _
    exact ⟨(step_iff h e).2, fun hkept => ((step_iff h e).1 hkept).exact⟩
  · intro p e h _ hexact
    exact (step_iff h e).1 ((step_iff h e).2 hexact)

/-- **Dropped tasks stay counted.**  Two inferences are counted, and their callers go away while
the work goes on: nothing is in flight, two inferences are active, and the node takes itself for
one at its limit. -/
theorem dropped_task_leaks :
    let x : TaskExecutor := ⟨.default, false, false⟩
    let task : ExecutionTask := .inference (.new "llama-3.2-3b" "Hello")
    let ready : TaskExecutor.Draw := ⟨true, ⟨0, none, 0⟩, true, false⟩
    let events : List Event :=
      [.call (.executeLocal task), .call (.executeLocal task), .poll 0 ready, .poll 1 ready,
        .drop 0, .drop 1]
    (∀ offloaded, ¬ Machine.Always x.step (x.Exact offloaded) idle events) ∧
      (Machine.run x.step idle events).Quiescent ∧
      x.router.atLimit (Machine.run x.step idle events).shared task = true := by
  intro x task ready events
  refine ⟨?_, by rintro t (_ | ⟨_, _ | ⟨_, ⟨⟩⟩⟩) <;> rfl, rfl⟩
  intro offloaded hrun
  have hcount := hrun.last.counts .inference
  have hnone : executing offloaded (Machine.run x.step idle events) .inference = 0 := rfl
  have htwo : ((Machine.run x.step idle events).shared.active .inference).toNat = 2 := rfl
  rw [hnone, htwo] at hcount
  cases hcount

end PeerClaw
