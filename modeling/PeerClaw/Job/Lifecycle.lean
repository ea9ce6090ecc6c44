import PeerClaw.Job.Sections
import PeerClaw.Lib.Trace

/-!
# The life of a job

What is written about one job — its status, that it was started, that a result was
submitted — is a trace, and a job that is handled well leaves a lawful one: the
status only moves forward, the job is started once, and it is completed only
after a result.

* `lifecycle_iff` — the trace is lawful in every state of a run exactly when every
  call finds the job no further than it takes it, starts it only once, and
  completes it only after a result.
* `lifecycle_goes_back` — no call looks at the status: a job is started again
  after its result, announced again after it was completed, and completed
  without a result.

An active job's status is always the furthest of its trace (`Tracked`), so the
condition can be read off the job the call finds.
-/

namespace PeerClaw

open Lib Lib.Machine Lib.Trace

/-! ## How far a job is -/

/-- How far a job with this status is; a job can end in several ways. -/
def JobStatus.rank : JobStatus → ℕ
  | .pending => 0
  | .inProgress => 1
  | .pendingVerification => 2
  | .completed | .failed | .timedOut | .cancelled => 3

/-- A status is followed by itself, and by those further on. -/
instance : PartialOrder JobStatus where
  le s t := s = t ∨ s.rank < t.rank
  le_refl _ := .inl rfl
  le_trans s t u hst htu := by
    rcases hst with rfl | hst
    · exact htu
    · rcases htu with rfl | htu
      · exact .inr hst
      · exact .inr (hst.trans htu)
  le_antisymm s t hst hts := by
    rcases hst with rfl | hst
    · rfl
    · rcases hts with rfl | hts
      · rfl
      · omega

instance (s t : JobStatus) : Decidable (s ≤ t) :=
  inferInstanceAs (Decidable (s = t ∨ s.rank < t.rank))

namespace Jobs

/-! ## What is written about a job -/

/-- Something that is written about a job. -/
inductive Event
  /-- Its status is set. -/
  | status (s : JobStatus)
  /-- `started_at` is set. -/
  | started
  /-- A result is submitted. -/
  | result
  deriving DecidableEq

/-- What storing a job as active writes. -/
def opened (job : Job) : List Event :=
  (if job.result.isSome then [.result] else []) ++ .status job.status ::
    if job.startedAt.isSome then [.started] else []

/-- The status of a job that is settled. -/
def settledStatus (success : Bool) : JobStatus := if success then .completed else .failed

/-- What a call that succeeds writes about the job. -/
def Call.writes (id : JobId) : Call → List Event
  | .acceptBid a => if a.jobId = id then [.status .pending] else []
  | .bidAccepted job => if job.id = id then opened job else []
  | .startJob _ j => if j = id then [.status .inProgress, .started] else []
  | .submitResult j _ => if j = id then [.result, .status .pendingVerification] else []
  | .settleJob s => if s.jobId = id then [.status (settledStatus s.success)] else []
  | _ => []

/-- What a call writes about the job. -/
def events (cfg : WalletConfig) (id : JobId) (m : JobManager) (c : Call) : List Event :=
  if (exec cfg c m).outcome.isOk then c.writes id else []

/-! ## The law -/

/-- The status does not go back to `s`. -/
def NotBeyond (log : List Event) (s : JobStatus) : Prop := ∀ s', .status s' ∈ log → s' ≤ s

/-- What may be written next: a status no earlier status is beyond — `Completed` only after
a result — and a start only once. -/
def law (log : List Event) : Event → Prop
  | .status s => NotBeyond log s ∧ (s = .completed → .result ∈ log)
  | .started => .started ∉ log
  | .result => True

/-- The manager, and what was written about the job so far. -/
abbrev Traced := JobManager × List Event

/-- A call finds the job no further than it takes it; it starts the job, or stores it as
started, only once; and it completes the job, or stores it as completed, only with a
result. -/
def InOrder (cfg : WalletConfig) (id : JobId) (s : Traced) : Call → Prop
  | .acceptBid a => a.jobId = id → (∃ request bid escrow, Accepts cfg s.1 a request bid escrow) →
      NotBeyond s.2 .pending
  | .bidAccepted job => job.id = id → NotBeyond s.2 job.status ∧
      (job.startedAt.isSome → .started ∉ s.2) ∧
      (job.status = .completed → job.result.isSome ∨ .result ∈ s.2)
  | .startJob _ j => j = id → ∀ job, s.1.activeJobs.lookup id = some job →
      job.status ≤ .inProgress ∧ .started ∉ s.2
  | .submitResult j _ => j = id → ∀ job, s.1.activeJobs.lookup id = some job →
      job.status ≤ .pendingVerification
  | .settleJob t => t.jobId = id → ∀ job, s.1.activeJobs.lookup id = some job →
      Funded s.1.wallet job → t.draw.store = .ok () →
      job.status ≤ settledStatus t.success ∧ (t.success → .result ∈ s.2)
  | _ => True

/-! ## The status of an active job -/

/-- The status was written, and none is beyond it. -/
def Furthest (log : List Event) (s : JobStatus) : Prop := .status s ∈ log ∧ NotBeyond log s

/-- The status of the job, while it is active, is the furthest written. -/
def Tracked (id : JobId) (s : Traced) : Prop :=
  ∀ job, s.1.activeJobs.lookup id = some job → Furthest s.2 job.status

section Trace

variable {log : List Event} {s t : JobStatus}

theorem Furthest.notBeyond_iff (h : Furthest log s) : NotBeyond log t ↔ s ≤ t :=
  ⟨fun ht => ht s h.1, fun hst s' hs' => (h.2 s' hs').trans hst⟩

theorem furthest_of_last {post : List Event} (h : Lawful law (log ++ .status s :: post))
    (hpost : ∀ s', .status s' ∉ post) : Furthest (log ++ .status s :: post) s := by
  refine ⟨by simp, ?_⟩
  intro s' hs'
  have hbefore := (h log (.status s) post rfl).1
  rcases List.mem_append.1 hs' with hs' | hs'
  · exact hbefore s' hs'
  · rcases List.mem_cons.1 hs' with hs' | hs'
    · obtain rfl := Event.status.inj hs'
      exact le_refl s'
    · exact absurd hs' (hpost s')

theorem furthest_opened {job : Job} (h : Lawful law (log ++ opened job)) :
    Furthest (log ++ opened job) job.status := by
  unfold opened at h ⊢
  rw [← List.append_assoc] at h ⊢
  refine furthest_of_last h ?_
  intro s'
  split <;> simp

/-- Storing a job continues a trace exactly when the job is not behind it. -/
theorem continues_opened {job : Job} : Continues law log (opened job) ↔
    NotBeyond log job.status ∧ (job.startedAt.isSome → .started ∉ log) ∧
      (job.status = .completed → job.result.isSome ∨ .result ∈ log) := by
  unfold opened
  cases job.result.isSome <;> cases job.startedAt.isSome <;>
    simp [Continues, law, NotBeyond, and_comm, and_assoc]

theorem continues_start : Continues law log [.status .inProgress, .started] ↔
    NotBeyond log .inProgress ∧ .started ∉ log := by
  simp [Continues, law]

theorem continues_submit : Continues law log [.result, .status .pendingVerification] ↔
    NotBeyond log .pendingVerification := by
  simp [Continues, law, NotBeyond]

theorem continues_settle {success : Bool} : Continues law log [.status (settledStatus success)] ↔
    NotBeyond log (settledStatus success) ∧ (success → .result ∈ log) := by
  cases success <;> simp [Continues, law, settledStatus]

end Trace

/-! ## One call -/

section Step

variable {cfg : WalletConfig} {id : JobId} {m : JobManager} {log : List Event} {c : Call}

theorem onJob_isOk_iff {j : JobId} {f : Job → Job} :
    (onJob j f m).outcome.isOk ↔ ∃ job, m.activeJobs.lookup j = some job := by
  unfold onJob
  cases m.activeJobs.lookup j <;> simp [Outcome.isOk]

theorem acceptBid_isOk_iff {a : Acceptance} :
    (acceptBid cfg a m).outcome.isOk ↔ ∃ request bid escrow, Accepts cfg m a request bid escrow := by
  rcases acceptBid_cases cfg a m with ⟨request, bid, escrow, hacc, hout, -⟩ | ⟨hnot, hstate⟩
  · rw [hout]
    exact ⟨fun _ => ⟨request, bid, escrow, hacc⟩, fun _ => rfl⟩
  · rw [hnot]
    refine ⟨fun h => ?_, ?_⟩
    · cases h
    · rintro ⟨request, bid, escrow, hacc⟩
      rw [(acceptBid_of_accepts hacc).1] at hnot
      cases hnot

theorem exec_start_isOk {now : DateTime} {j : JobId} :
    (exec cfg (.startJob now j) m).outcome.isOk ↔ ∃ job, m.activeJobs.lookup j = some job := by
  rw [exec, Action.map_apply, Outcome.isOk_map]
  exact onJob_isOk_iff

theorem exec_submit_isOk {j : JobId} {result : JobResult} :
    (exec cfg (.submitResult j result) m).outcome.isOk ↔
      ∃ job, m.activeJobs.lookup j = some job := by
  rw [exec, Action.map_apply, Outcome.isOk_map]
  exact onJob_isOk_iff

theorem exec_settle_isOk {t : Settlement} :
    (exec cfg (.settleJob t) m).outcome.isOk ↔ ∃ job, m.activeJobs.lookup t.jobId = some job ∧
      Funded m.wallet job ∧ t.draw.store = .ok () := by
  rw [exec, Action.map_apply, Outcome.isOk_map]
  exact settleJob_isOk_iff

theorem exec_accept_isOk {a : Acceptance} : (exec cfg (.acceptBid a) m).outcome.isOk ↔
    ∃ request bid escrow, Accepts cfg m a request bid escrow := by
  rw [exec, Action.map_apply, Outcome.isOk_map]
  exact acceptBid_isOk_iff

/-- A call that has nothing to do with the job writes nothing about it. -/
theorem events_of_writes (h : c.writes id = []) : events cfg id m c = [] := by
  unfold events
  rw [h, ite_self]

/-- **What a call writes continues the trace** exactly when it is in order. -/
theorem continues_iff (cfg : WalletConfig) (c : Call) (h : Tracked id (m, log)) :
    Continues law log (events cfg id m c) ↔ InOrder cfg id (m, log) c := by
  cases c with
  | createRequest request =>
      rw [events_of_writes rfl]
      exact Iff.rfl
  | receiveBid bid =>
      rw [events_of_writes rfl]
      exact Iff.rfl
  | wallet c =>
      rw [events_of_writes rfl]
      exact Iff.rfl
  | acceptBid a =>
      by_cases hid : a.jobId = id
      · by_cases hacc : ∃ request bid escrow, Accepts cfg m a request bid escrow
        · have hevents : events cfg id m (.acceptBid a) = [.status .pending] :=
            (if_pos (exec_accept_isOk.2 hacc)).trans (if_pos hid)
          rw [hevents]
          simp [InOrder, hid, hacc, Continues, law]
        · have hevents : events cfg id m (.acceptBid a) = [] :=
            if_neg fun hok => hacc (exec_accept_isOk.1 hok)
          rw [hevents]
          simp [InOrder, hacc, Continues]
      · have hevents : events cfg id m (.acceptBid a) = [] := events_of_writes (if_neg hid)
        rw [hevents]
        simp [InOrder, hid, Continues]
  | bidAccepted job =>
      by_cases hid : job.id = id
      · have hevents : events cfg id m (.bidAccepted job) = opened job :=
          (if_pos rfl).trans (if_pos hid)
        rw [hevents, continues_opened]
        simp [InOrder, hid]
      · have hevents : events cfg id m (.bidAccepted job) = [] := events_of_writes (if_neg hid)
        rw [hevents]
        simp [InOrder, hid, Continues]
  | startJob now j =>
      by_cases hid : j = id
      · subst hid
        cases hjob : m.activeJobs.lookup j with
        | none =>
            have hevents : events cfg j m (.startJob now j) = [] :=
              if_neg fun hok => by simpa [hjob] using exec_start_isOk.1 hok
            rw [hevents]
            simp [InOrder, hjob, Continues]
        | some job =>
            have hevents : events cfg j m (.startJob now j) = [.status .inProgress, .started] :=
              (if_pos (exec_start_isOk.2 ⟨job, hjob⟩)).trans (if_pos rfl)
            rw [hevents, continues_start, (h job hjob).notBeyond_iff]
            simp [InOrder, hjob]
      · have hevents : events cfg id m (.startJob now j) = [] := events_of_writes (if_neg hid)
        rw [hevents]
        simp [InOrder, hid, Continues]
  | submitResult j result =>
      by_cases hid : j = id
      · subst hid
        cases hjob : m.activeJobs.lookup j with
        | none =>
            have hevents : events cfg j m (.submitResult j result) = [] :=
              if_neg fun hok => by simpa [hjob] using exec_submit_isOk.1 hok
            rw [hevents]
            simp [InOrder, hjob, Continues]
        | some job =>
            have hevents : events cfg j m (.submitResult j result) =
                [.result, .status .pendingVerification] :=
              (if_pos (exec_submit_isOk.2 ⟨job, hjob⟩)).trans (if_pos rfl)
            rw [hevents, continues_submit, (h job hjob).notBeyond_iff]
            simp [InOrder, hjob]
      · have hevents : events cfg id m (.submitResult j result) = [] := events_of_writes (if_neg hid)
        rw [hevents]
        simp [InOrder, hid, Continues]
  | settleJob t =>
      by_cases hid : t.jobId = id
      · subst hid
        by_cases hpaid : ∃ job, m.activeJobs.lookup t.jobId = some job ∧ Funded m.wallet job ∧
            t.draw.store = .ok ()
        · have hevents : events cfg t.jobId m (.settleJob t) = [.status (settledStatus t.success)] :=
            (if_pos (exec_settle_isOk.2 hpaid)).trans (if_pos rfl)
          obtain ⟨job, hjob, hfunded, hstore⟩ := hpaid
          rw [hevents, continues_settle, (h job hjob).notBeyond_iff]
          simp [InOrder, hjob, hfunded, hstore]
        · have hevents : events cfg t.jobId m (.settleJob t) = [] :=
            if_neg fun hok => hpaid (exec_settle_isOk.1 hok)
          rw [hevents]
          refine ⟨fun _ _ job hjob hfunded hstore => ?_, fun _ => trivial⟩
          exact absurd ⟨job, hjob, hfunded, hstore⟩ hpaid
      · have hevents : events cfg id m (.settleJob t) = [] := events_of_writes (if_neg hid)
        rw [hevents]
        simp [InOrder, hid, Continues]

/-- Where the active job under the identifier stays, so does what is known of it. -/
theorem Tracked.same {m' : JobManager} {more : List Event} (h : Tracked id (m, log))
    (hactive : m'.activeJobs.lookup id = m.activeJobs.lookup id) (hmore : more = []) :
    Tracked id (m', log ++ more) := by
  intro job hjob
  rw [hactive] at hjob
  rw [hmore, List.append_nil]
  exact h job hjob

theorem tracked_onJob {j : JobId} {f : Job → Job} {more : List Event}
    (h : Tracked id (m, log)) (hother : j ≠ id → more = [])
    (hfails : m.activeJobs.lookup j = none → more = [])
    (hwrites : ∀ job, j = id → m.activeJobs.lookup id = some job →
      Furthest (log ++ more) (f job).status) :
    Tracked id ((onJob j f m).state, log ++ more) := by
  unfold onJob
  cases hjob : m.activeJobs.lookup j with
  | none => exact h.same rfl (hfails hjob)
  | some job =>
      by_cases hid : j = id
      · subst hid
        intro job' hjob'
        have hnew : f job = job' := by simpa using hjob'
        rw [← hnew]
        exact hwrites job rfl hjob
      · refine h.same ?_ (hother hid)
        dsimp only
        rw [Finmap.lookup_insert_eq, if_neg (Ne.symm hid)]

/-- **The status of an active job is the furthest written**, as long as the trace is
lawful. -/
theorem tracked_step (cfg : WalletConfig) (c : Call) (h : Tracked id (m, log))
    (hlawful : Lawful law (log ++ events cfg id m c)) :
    Tracked id (step cfg m c, log ++ events cfg id m c) := by
  unfold step
  cases c with
  | createRequest request => exact h.same rfl (events_of_writes rfl)
  | receiveBid bid =>
      refine h.same ?_ (events_of_writes rfl)
      obtain ⟨bids, hstate⟩ := receiveBid_state bid m
      rw [exec, Action.map_apply, hstate]
  | wallet c =>
      refine h.same ?_ (events_of_writes rfl)
      rw [exec, Action.map_apply]
      rfl
  | acceptBid a =>
      rw [exec, Action.map_apply]
      rcases acceptBid_cases cfg a m with ⟨request, bid, escrow, hacc, hout, hstate⟩ | ⟨hnot, hstate⟩
      · by_cases hid : a.jobId = id
        · have hevents : events cfg id m (.acceptBid a) = [.status .pending] :=
            (if_pos (exec_accept_isOk.2 ⟨request, bid, escrow, hacc⟩)).trans (if_pos hid)
          intro job hjob
          rw [hstate] at hjob
          have hlookup : (m.activeJobs.insert a.jobId
            (.new a.createdAt request bid escrow.id)).lookup id = some job := hjob
          have hnew : Job.new a.createdAt request bid escrow.id = job := by
            simpa [hid] using hlookup
          rw [hevents] at hlawful ⊢
          rw [← hnew]
          exact furthest_of_last hlawful (by simp)
        · refine h.same ?_ (events_of_writes (if_neg hid))
          rw [hstate]
          show (m.activeJobs.insert a.jobId _).lookup id = _
          rw [Finmap.lookup_insert_eq, if_neg (Ne.symm hid)]
      · have hevents : events cfg id m (.acceptBid a) = [] := by
          refine if_neg ?_
          rw [exec, Action.map_apply, Outcome.isOk_map, hnot]
          simp
        refine h.same ?_ hevents
        rcases hstate with hstate | ⟨request, bid, -, hstate⟩ <;> rw [hstate]
  | bidAccepted job =>
      by_cases hid : job.id = id
      · have hevents : events cfg id m (.bidAccepted job) = opened job :=
          (if_pos rfl).trans (if_pos hid)
        intro job' hjob'
        have hlookup : (m.activeJobs.insert job.id job).lookup id = some job' := hjob'
        obtain rfl : job = job' := by simpa [hid] using hlookup
        rw [hevents] at hlawful ⊢
        exact furthest_opened hlawful
      · refine h.same ?_ (events_of_writes (if_neg hid))
        show (m.activeJobs.insert job.id job).lookup id = _
        rw [Finmap.lookup_insert_eq, if_neg (Ne.symm hid)]
  | startJob now j =>
      rw [exec, Action.map_apply]
      refine tracked_onJob h (fun hid => events_of_writes (if_neg hid)) (fun hjob => ?_) ?_
      · exact if_neg fun hok => by simpa [hjob] using exec_start_isOk.1 hok
      · rintro job rfl hjob
        have hevents : events cfg j m (.startJob now j) = [.status .inProgress, .started] :=
          (if_pos (exec_start_isOk.2 ⟨job, hjob⟩)).trans (if_pos rfl)
        rw [hevents] at hlawful ⊢
        exact furthest_of_last hlawful (by simp)
  | submitResult j result =>
      rw [exec, Action.map_apply]
      refine tracked_onJob h (fun hid => events_of_writes (if_neg hid)) (fun hjob => ?_) ?_
      · exact if_neg fun hok => by simpa [hjob] using exec_submit_isOk.1 hok
      · rintro job rfl hjob
        have hevents : events cfg j m (.submitResult j result) =
            [.result] ++ [.status .pendingVerification] :=
          (if_pos (exec_submit_isOk.2 ⟨job, hjob⟩)).trans (if_pos rfl)
        rw [hevents, ← List.append_assoc] at hlawful ⊢
        exact furthest_of_last hlawful (by simp)
  | settleJob t =>
      rw [exec, Action.map_apply]
      by_cases hid : t.jobId = id
      · -- either way the job is no longer active
        have hgone : (settleJob t m).state.activeJobs.lookup id = none := by
          rcases settleJob_cases t m with ⟨hnone, -, hstate⟩ | ⟨job, -, hrest⟩
          · rw [hstate, ← hid, hnone]
          · rcases hrest with ⟨-, -, hstate⟩ | ⟨-, -, hstate⟩ <;>
              · rw [hstate, ← hid]
                exact Finmap.lookup_erase ..
        intro job hjob
        exact absurd (hgone.symm.trans hjob) (by simp)
      · refine h.same ?_ (events_of_writes (if_neg hid))
        rcases settleJob_cases t m with ⟨-, -, hstate⟩ | ⟨job, -, hrest⟩
        · rw [hstate]
        · rcases hrest with ⟨-, -, hstate⟩ | ⟨-, -, hstate⟩ <;>
            · rw [hstate]
              show (m.activeJobs.erase t.jobId).lookup id = _
              rw [Finmap.lookup_erase_eq, if_neg (Ne.symm hid)]

end Step

/-! ## Every run -/

/-- **The life of a job is lawful** exactly when every call is in order: for every run of
calls in any order and with any repetitions, from any manager on which the job is not
active yet. -/
theorem lifecycle_iff (cfg : WalletConfig) (id : JobId) {m : JobManager}
    (hnew : id ∉ m.activeJobs) (calls : List Call) :
    Always (logged (step cfg) (events cfg id)) (fun s => Lawful law s.2) (m, []) calls ↔
      Along (logged (step cfg) (events cfg id)) (InOrder cfg id) (m, []) calls := by
  refine always_iff_along (I := fun s => Lawful law s.2 ∧ Tracked id s) (fun s hs => hs.1) ?_ ?_ ?_
    along_true
  · rintro ⟨m, log⟩ c ⟨hlawful, htracked⟩ -
    rw [← continues_iff cfg c htracked]
    show Lawful law (log ++ _) ↔ _
    rw [lawful_append_iff]
    exact ⟨fun h => h.2, fun h => ⟨hlawful, h⟩⟩
  · rintro ⟨m, log⟩ c ⟨-, htracked⟩ - hlawful
    exact ⟨hlawful, tracked_step cfg c htracked hlawful⟩
  · refine ⟨lawful_nil, ?_⟩
    intro job hjob
    exact absurd (Finmap.mem_of_lookup_eq_some hjob) hnew

section Example

open Sample

/-- The job is created, gets a bid, and the bid is accepted. -/
private def agreed : List Call :=
  [.createRequest request, .receiveBid (bid "b" "bob" 40),
    .acceptBid (acceptance "b" "e" (.ok ()))]

private def fetched : JobResult := ⟨[], "", ⟨none, none, none⟩, ⟨0, 0, none⟩⟩

/-- It is started, gets its result and is settled. -/
private def living : List Call :=
  agreed ++ [.startJob .epoch jobId, .submitResult jobId fetched, .settleJob (settlement true)]

section Moves

variable {cfg : WalletConfig} {id : JobId} {s : Traced} (status : JobStatus)

private theorem status_of_lookup {job : Job}
    (hlookup : (s.1.activeJobs.lookup id).map Job.status = some status)
    (hjob : s.1.activeJobs.lookup id = some job) : job.status = status := by
  rw [hjob] at hlookup
  exact Option.some.inj hlookup

private theorem inOrder_start {now : DateTime}
    (hlookup : (s.1.activeJobs.lookup id).map Job.status = some status)
    (hle : status ≤ .inProgress) (hnot : .started ∉ s.2) : InOrder cfg id s (.startJob now id) := by
  intro _ job hjob
  rw [status_of_lookup status hlookup hjob]
  exact ⟨hle, hnot⟩

private theorem inOrder_submit {result : JobResult}
    (hlookup : (s.1.activeJobs.lookup id).map Job.status = some status)
    (hle : status ≤ .pendingVerification) : InOrder cfg id s (.submitResult id result) := by
  intro _ job hjob
  rw [status_of_lookup status hlookup hjob]
  exact hle

private theorem inOrder_settle {t : Settlement}
    (hlookup : (s.1.activeJobs.lookup id).map Job.status = some status)
    (hle : status ≤ settledStatus t.success) (hresult : .result ∈ s.2) :
    InOrder cfg id s (.settleJob t) := by
  intro _ job hjob _ _
  rw [status_of_lookup status hlookup hjob]
  exact ⟨hle, fun _ => hresult⟩

end Moves

theorem lifecycle_iff_living :
    Always (logged (step config) (events config jobId)) (fun s => Lawful law s.2)
      (.new funds, []) living := by
  refine (lifecycle_iff config jobId (Finmap.notMem_empty) living).2
    ⟨trivial, trivial, ?_, inOrder_start .pending rfl (by decide) (by decide),
      inOrder_submit .inProgress rfl (by decide),
      inOrder_settle .pendingVerification rfl (by decide) (by decide), trivial⟩
  intro _ _ s' hs'
  cases hs'

/-- **No call looks at the status**: a job is started again after its result; one is started
twice; and one is completed, its escrow released, without a result. -/
theorem lifecycle_goes_back :
    (¬ Always (logged (step config) (events config jobId)) (fun s => Lawful law s.2)
      (.new funds, []) (agreed ++ [.submitResult jobId fetched, .startJob .epoch jobId])) ∧
    (¬ Always (logged (step config) (events config jobId)) (fun s => Lawful law s.2)
      (.new funds, []) (agreed ++ [.startJob .epoch jobId, .startJob .epoch jobId])) ∧
    ¬ Always (logged (step config) (events config jobId)) (fun s => Lawful law s.2)
      (.new funds, []) (agreed ++ [.settleJob (settlement true)]) := by
  refine ⟨fun h => ?_, fun h => ?_, fun h => ?_⟩
  · have hback := (h.last [.status .pending, .result, .status .pendingVerification]
      (.status .inProgress) [.started] rfl).1 .pendingVerification (by simp)
    revert hback
    decide
  · have htwice := h.last [.status .pending, .status .inProgress, .started, .status .inProgress]
      .started [] rfl
    exact htwice (by simp)
  · have hearned := (h.last [.status .pending] (.status .completed) [] rfl).2 rfl
    revert hearned
    decide

end Example

end Jobs
end PeerClaw
