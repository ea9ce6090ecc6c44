import PeerClaw.Job.Manager
import PeerClaw.Wallet.Active
import PeerClaw.Lib.Section

/-!
# The job manager's calls, cut at their locks

A call of the job manager that takes more than one lock is a task of several
sections: `accept_bid` has eight — two lookups, the three sections of
`create_escrow`, and one each to drop the request, drop the bids and store the
job — and `settle_job` up to six.  The world is the manager together with what
the calls have done so far: the jobs created, and the jobs completed.

* `job_call_alone` — a call that nothing interrupts does what the method does.
* `turns` — what one section can do, with the condition under which it does it.
-/

namespace PeerClaw
namespace Jobs

open Lib Lib.Machine

/-- What is left of a call, from the section that comes next. -/
inductive Task
  /-- `create_request` stores the request. -/
  | createStore (request : JobRequest)
  /-- It makes room for bids. -/
  | createBids (id : JobId)
  | receive (bid : JobBid)
  /-- `accept_bid` looks the request up. -/
  | acceptRequest (a : Acceptance)
  /-- It looks the bid up. -/
  | acceptBid (a : Acceptance) (request : JobRequest)
  /-- It has the wallet check the spending limits. -/
  | acceptLimits (a : Acceptance) (request : JobRequest) (bid : JobBid)
  /-- It has the wallet create the escrow. -/
  | acceptEscrow (a : Acceptance) (request : JobRequest) (bid : JobBid)
  /-- It has the wallet save its state, and makes the job. -/
  | acceptSave (a : Acceptance) (request : JobRequest) (bid : JobBid) (escrow : Escrow)
  /-- It drops the request. -/
  | acceptDrop (id : JobId) (job : Job)
  /-- It drops the bids. -/
  | acceptDropBids (id : JobId) (job : Job)
  /-- It stores the job. -/
  | acceptStore (id : JobId) (job : Job)
  | announce (job : Job)
  | start (now : DateTime) (id : JobId)
  | submit (id : JobId) (result : JobResult)
  /-- `settle_job` takes the job out. -/
  | settleTake (s : Settlement)
  /-- It has the wallet release or refund the escrow. -/
  | settleResolve (s : Settlement) (job : Job)
  /-- It has the wallet save its state. -/
  | settleSave (s : Settlement) (job : Job) (amount : UInt64)
  /-- It has the wallet credit the amount. -/
  | settleCredit (s : Settlement) (job : Job) (amount : UInt64)
  /-- It has the wallet save its state once more. -/
  | settleCreditSave (s : Settlement) (job : Job)
  /-- It stores the completed job. -/
  | settleComplete (s : Settlement) (job : Job)
  /-- A call of the wallet, cut at its own locks. -/
  | wallet (t : Wallet.Task)

/-- Resolve the escrow of a job; a release says how much it paid. -/
def resolveLocked (s : Settlement) (job : Job) : WalletM UInt64 :=
  if s.success then (fun r => r.2.1) <$> Wallet.releaseEscrowLocked (s.draw.stamp 0) job.escrowId
  else (fun _ => 0) <$> Wallet.refundEscrowLocked (s.draw.stamp 0) job.escrowId

/-- Credit an amount that was paid. -/
def creditPayment (s : Settlement) (amount : UInt64) : WalletM Transaction :=
  Wallet.creditLocked (s.creditDraw.stamp 0) amount ("job_payment:" ++ s.jobId.val)

/-- What is left of a settlement once the wallet is saved: a refund pays nothing,
and a credit of nothing is turned away before it takes a lock. -/
def afterSave (s : Settlement) (job : Job) (amount : UInt64) : Task :=
  if s.success ∧ amount ≠ 0 then .settleCredit s job amount else .settleComplete s job

/-- The next section of a call of the wallet. -/
def resumeWallet (cfg : WalletConfig) (t : Wallet.Task) : JobM (Option Task) := fun m =>
  let next := Wallet.advance cfg ⟨m.wallet, []⟩ t
  ⟨.ok (next.2.map .wallet), m.setWallet next.1.state, []⟩

/-- Run the next section; it says what is left of the call. -/
def resume (cfg : WalletConfig) : Task → JobM (Option Task)
  | .createStore request => (fun _ => some (.createBids request.id)) <$> storeRequest request
  | .createBids id => (fun _ => none) <$> openBids id
  | .receive bid => (fun _ => none) <$> receiveBid bid
  | .acceptRequest a => (fun request => some (.acceptBid a request)) <$> findRequest a.jobId
  | .acceptBid a request => (fun bid => some (.acceptLimits a request bid)) <$> findBid a
  | .acceptLimits a request bid => (fun _ => some (.acceptEscrow a request bid)) <$>
      onWallet (Wallet.checkSpendingLimits cfg a.draw.checkedAt bid.price)
  | .acceptEscrow a request bid => (fun escrow => some (.acceptSave a request bid escrow)) <$>
      onWallet (Wallet.createEscrowLocked cfg a.draw bid.price bid.bidderId a.jobId.val
        request.timeoutSecs)
  | .acceptSave a request bid escrow =>
      (fun _ => some (.acceptDrop a.jobId (.new a.createdAt request bid escrow.id))) <$>
        onWallet (Wallet.saveState a.draw.store)
  | .acceptDrop id job => (fun _ => some (.acceptDropBids id job)) <$> dropRequest id
  | .acceptDropBids id job => (fun _ => some (.acceptStore id job)) <$> dropBids id
  | .acceptStore id job => (fun _ => none) <$> storeJob id job
  | .announce job => (fun _ => none) <$> bidAccepted job
  | .start now id => (fun _ => none) <$> startJob now id
  | .submit id result => (fun _ => none) <$> submitResult id result
  | .settleTake s => (fun job => some (.settleResolve s job)) <$> takeJob s.jobId
  | .settleResolve s job => (fun amount => some (.settleSave s job amount)) <$>
      onWallet (resolveLocked s job)
  | .settleSave s job amount => (fun _ => some (afterSave s job amount)) <$>
      onWallet (Wallet.saveState s.draw.store)
  | .settleCredit s job amount => (fun _ => some (.settleCreditSave s job)) <$>
      onWallet (creditPayment s amount)
  | .settleCreditSave s job => (fun _ => some (.settleComplete s job)) <$>
      onWallet (Wallet.saveState s.creditDraw.store).attempt
  | .settleComplete s job => (fun _ => none) <$> completeJob s job
  | .wallet t => resumeWallet cfg t

/-- The manager, with what its calls have done so far. -/
structure World where
  manager : JobManager
  /-- The jobs `create_request` has stored. -/
  created : List JobId
  /-- The jobs `settle_job` has completed, those that were trimmed since included. -/
  completed : List JobId

/-- The job that the next section creates. -/
def Task.creates : Task → List JobId
  | .createStore request => [request.id]
  | _ => []

/-- The job that the next section completes. -/
def Task.completes : Task → List JobId
  | .settleComplete _ job => [job.id]
  | _ => []

/-- A section that fails or panics ends its call. -/
def advance (cfg : WalletConfig) (w : World) (t : Task) : World × Option Task :=
  (⟨(resume cfg t w.manager).state, w.created ++ t.creates, w.completed ++ t.completes⟩,
    (resume cfg t w.manager).outcome.toOption.join)

/-- A manager with calls in flight. -/
abbrev JobPool := Pool World Task

/-- A new manager on which no call has been made yet. -/
def idle (wallet : WalletState) : JobPool := ⟨⟨.new wallet, [], []⟩, []⟩

/-- A call before its first section. -/
def Call.task : Call → Task
  | .createRequest request => .createStore request
  | .receiveBid bid => .receive bid
  | .acceptBid a => .acceptRequest a
  | .bidAccepted job => .announce job
  | .startJob now id => .start now id
  | .submitResult id result => .submit id result
  | .settleJob s => .settleTake s
  | .wallet c => .wallet (.begin c)

theorem runs (cfg : WalletConfig) : Section.Runs (resume cfg) World.manager (advance cfg) :=
  ⟨fun _ _ => rfl, fun _ _ => rfl⟩

/-! ## A call on its own -/

/-- `accept_bid`, section by section. -/
theorem acceptBid_eq (cfg : WalletConfig) (a : Acceptance) :
    acceptBid cfg a = (do
      let request ← findRequest a.jobId
      let bid ← findBid a
      onWallet (Wallet.checkSpendingLimits cfg a.draw.checkedAt bid.price)
      let escrow ← onWallet (Wallet.createEscrowLocked cfg a.draw bid.price bid.bidderId
        a.jobId.val request.timeoutSecs)
      onWallet (Wallet.saveState a.draw.store)
      let job := Job.new a.createdAt request bid escrow.id
      dropRequest a.jobId
      dropBids a.jobId
      storeJob a.jobId job
      return job) := by
  have hpure : ∀ e : Escrow, onWallet (pure e) = pure e := fun _ => rfl
  simp only [acceptBid, lockPrice, Wallet.createEscrow, onWallet_bind, hpure, bind_assoc, pure_bind]

theorem payment_eq (s : Settlement) (job : Job) :
    payment s job = (do
      let amount ← resolveLocked s job
      Wallet.saveState s.draw.store
      if s.success ∧ amount ≠ 0 then do
        let _ ← creditPayment s amount
        (Wallet.saveState s.creditDraw.store).attempt
      else pure ()) := by
  unfold payment resolveLocked
  cases s.success with
  | true =>
      simp only [if_true, true_and, Wallet.releaseEscrow, bind_assoc, pure_bind, bind_map_left]
      refine bind_congr ?_
      intro r
      refine bind_congr ?_
      intro _
      unfold Wallet.credit
      by_cases hzero : r.2.1 = 0
      · rw [if_pos hzero, if_neg (not_not.2 hzero), Action.attempt_fail]
      · have hok : ∀ st, (creditPayment s r.2.1 st).outcome.isOk := fun _ => rfl
        rw [if_neg hzero, if_pos hzero]
        refine (Action.attempt_bind hok _).trans (bind_congr ?_)
        intro tx
        exact Action.attempt_map (fun _ => tx) (Wallet.saveState s.creditDraw.store)
  | false => simp [Wallet.refundEscrow]

/-- `settle_job`, section by section. -/
theorem settleJob_eq (s : Settlement) :
    settleJob s = (do
      let job ← takeJob s.jobId
      let amount ← onWallet (resolveLocked s job)
      onWallet (Wallet.saveState s.draw.store)
      onWallet (if s.success ∧ amount ≠ 0 then do
        let _ ← creditPayment s amount
        (Wallet.saveState s.creditDraw.store).attempt
      else pure ())
      completeJob s job) := by
  simp only [settleJob, payment_eq, onWallet_bind, bind_assoc]

theorem finish_accept (cfg : WalletConfig) (a : Acceptance) (w : World) :
    (Section.finish (advance cfg) 8 w (some (.acceptRequest a))).manager =
      (acceptBid cfg a w.manager).state := by
  rw [acceptBid_eq]
  refine Section.finish_bind (runs cfg) rfl (fun request => ?_) w
  refine Section.finish_bind (runs cfg) rfl ?_
  intro bid
  refine Section.finish_bind (runs cfg) rfl ?_
  intro _
  refine Section.finish_bind (runs cfg) rfl ?_
  intro escrow
  refine Section.finish_bind (runs cfg) rfl ?_
  intro _
  refine Section.finish_bind (runs cfg) rfl ?_
  intro _
  refine Section.finish_bind (runs cfg) rfl ?_
  intro _
  exact Section.finish_bind (runs cfg) rfl fun _ _ => rfl

theorem finish_settle (cfg : WalletConfig) (s : Settlement) (w : World) :
    (Section.finish (advance cfg) 8 w (some (.settleTake s))).manager =
      (settleJob s w.manager).state := by
  rw [settleJob_eq]
  refine Section.finish_bind (runs cfg) rfl (fun job => ?_) w
  refine Section.finish_bind (runs cfg) rfl ?_
  intro amount
  refine Section.finish_bind (runs cfg) rfl ?_
  intro _ w
  unfold afterSave
  by_cases hpays : s.success ∧ amount ≠ 0
  · rw [if_pos hpays, if_pos hpays, onWallet_bind, bind_assoc]
    refine Section.finish_bind (runs cfg) rfl (fun _ => ?_) w
    refine Section.finish_bind (runs cfg) rfl ?_
    intro _ w
    exact Section.finish_map (runs cfg) rfl _ w
  · rw [if_neg hpays, if_neg hpays]
    exact Section.finish_map (runs cfg) rfl _ w

/-- Once a call of the wallet has let go of the write lock, it changes nothing more. -/
theorem finish_committed (cfg : WalletConfig) (n : ℕ) (w : World) (v : Wallet.World)
    (c : Wallet.Call) :
    (Section.finish (advance cfg) (n + 1) w
      ((Wallet.commitSection cfg v c).2.map .wallet)).manager = w.manager := by
  rcases Wallet.commitSection_left cfg v c with hleft | ⟨c', hleft⟩
  · rw [hleft]
    rfl
  · rw [hleft]
    show (Section.finish (advance cfg) n (advance cfg w (.wallet (.save c'))).1 none).manager = _
    rw [Section.finish_none]
    rfl

theorem finish_wallet (cfg : WalletConfig) (c : Wallet.Call) (w : World) :
    (Section.finish (advance cfg) 8 w (some (.wallet (.begin c)))).manager =
      w.manager.setWallet (Wallet.step cfg w.manager.wallet c) := by
  have hfirst : ∀ t, advance cfg w (.wallet t) =
      (⟨w.manager.setWallet (Wallet.advance cfg ⟨w.manager.wallet, []⟩ t).1.state,
        w.created ++ [], w.completed ++ []⟩,
        (Wallet.advance cfg ⟨w.manager.wallet, []⟩ t).2.map .wallet) := fun _ => rfl
  rw [Wallet.step_eq_locked, Section.finish, hfirst, Wallet.advance]
  cases hc : c.spending with
  | none => exact finish_committed cfg 6 _ _ c
  | some amount =>
      dsimp only
      split
      · exact finish_committed cfg 5 _ _ c
      · rfl

/-- **A call that nothing interrupts** does what the method does. -/
theorem job_call_alone (cfg : WalletConfig) (w : World) (c : Call) :
    (run (Pool.step (advance cfg)) ⟨w, []⟩
      (.start c.task :: List.replicate 8 (.resume 0))).shared.manager = step cfg w.manager c := by
  have hstart : Pool.step (advance cfg) ⟨w, []⟩ (.start c.task) = ⟨w, [some c.task]⟩ := rfl
  rw [run_cons, hstart, Section.run_alone, step]
  cases c with
  | createRequest request =>
      rw [exec, Action.map_apply]
      exact Section.finish_bind (runs cfg) rfl (fun _ w => Section.finish_map (runs cfg) rfl _ w) w
  | receiveBid bid =>
      rw [exec, Action.map_apply]
      exact Section.finish_map (runs cfg) rfl _ w
  | acceptBid a =>
      rw [exec, Action.map_apply]
      exact finish_accept cfg a w
  | bidAccepted job =>
      rw [exec, Action.map_apply]
      exact Section.finish_map (runs cfg) rfl _ w
  | startJob now id =>
      rw [exec, Action.map_apply]
      exact Section.finish_map (runs cfg) rfl _ w
  | submitResult id result =>
      rw [exec, Action.map_apply]
      exact Section.finish_map (runs cfg) rfl _ w
  | settleJob s =>
      rw [exec, Action.map_apply]
      exact finish_settle cfg s w
  | wallet c =>
      rw [exec, Action.map_apply]
      exact finish_wallet cfg c w

/-! ## What one section can do -/

/-- The next section of the task can fail, and nothing is lost by it. -/
def Task.MayStop : Task → Prop
  | .receive _ | .acceptRequest _ | .acceptBid _ _ | .acceptLimits _ _ _ | .acceptEscrow _ _ _
  | .start _ _ | .submit _ _ | .settleTake _ => True
  | _ => False

/-- The escrow of a job is active. -/
def Funded (w : WalletState) (job : Job) : Prop := ∃ e, Wallet.ActiveAt w job.escrowId e

/-- What the next section of a task leaves, and what is left of the task. -/
inductive Turns (cfg : WalletConfig) (m : JobManager) : Task → JobManager → Option Task → Prop
  /-- The request is stored. -/
  | create (request : JobRequest) : Turns cfg m (.createStore request)
      { m with requests := m.requests.insert request.id request } (some (.createBids request.id))
  | openBids (id : JobId) : Turns cfg m (.createBids id) { m with bids := m.bids.insert id [] } none
  | receive (bid : JobBid) (jobBids : List JobBid) : m.bids.lookup bid.jobId = some jobBids →
      Turns cfg m (.receive bid)
        { m with bids := m.bids.insert bid.jobId (jobBids ++ [bid]) } none
  /-- The request is there. -/
  | request (a : Acceptance) (request : JobRequest) : m.requests.lookup a.jobId = some request →
      Turns cfg m (.acceptRequest a) m (some (.acceptBid a request))
  /-- The bid is there, and has not expired. -/
  | bid (a : Acceptance) (request : JobRequest) (bid : JobBid) :
      bidNamed (getBids m a.jobId) a.bidId = some bid → bid.isExpired a.checkedAt = false →
      Turns cfg m (.acceptBid a request) m (some (.acceptLimits a request bid))
  | allow (a : Acceptance) (request : JobRequest) (bid : JobBid) :
      Turns cfg m (.acceptLimits a request bid) m (some (.acceptEscrow a request bid))
  /-- The escrow is created. -/
  | escrow (a : Acceptance) (request : JobRequest) (bid : JobBid) (e : Escrow) (w : WalletState) :
      Escrow.new a.draw.now a.draw.escrowId bid.price bid.bidderId a.jobId.val
        request.timeoutSecs = some e →
      Wallet.Affords cfg m.wallet bid.price → w.escrows = m.wallet.escrows.insert e.id e →
      Turns cfg m (.acceptEscrow a request bid) (m.setWallet w) (some (.acceptSave a request bid e))
  /-- The wallet is saved. -/
  | save (a : Acceptance) (request : JobRequest) (bid : JobBid) (e : Escrow) :
      a.draw.store = .ok () → Turns cfg m (.acceptSave a request bid e) m
        (some (.acceptDrop a.jobId (.new a.createdAt request bid e.id)))
  /-- It is not, and the escrow stays. -/
  | unsaved (a : Acceptance) (request : JobRequest) (bid : JobBid) (e : Escrow) :
      a.draw.store ≠ .ok () → Turns cfg m (.acceptSave a request bid e) m none
  | drop (id : JobId) (job : Job) : Turns cfg m (.acceptDrop id job)
      { m with requests := m.requests.erase id } (some (.acceptDropBids id job))
  | dropBids (id : JobId) (job : Job) : Turns cfg m (.acceptDropBids id job)
      { m with bids := m.bids.erase id } (some (.acceptStore id job))
  | store (id : JobId) (job : Job) : Turns cfg m (.acceptStore id job)
      { m with activeJobs := m.activeJobs.insert id job } none
  | announce (job : Job) : Turns cfg m (.announce job)
      { m with activeJobs := m.activeJobs.insert job.id job } none
  /-- An active job is started. -/
  | start (now : DateTime) (id : JobId) (job : Job) : m.activeJobs.lookup id = some job →
      Turns cfg m (.start now id)
        { m with activeJobs := m.activeJobs.insert id (started now job) } none
  /-- An active job gets its result. -/
  | submit (id : JobId) (result : JobResult) (job : Job) : m.activeJobs.lookup id = some job →
      Turns cfg m (.submit id result)
        { m with activeJobs := m.activeJobs.insert id (withResult result job) } none
  /-- An active job is taken out. -/
  | take (s : Settlement) (job : Job) : m.activeJobs.lookup s.jobId = some job →
      Turns cfg m (.settleTake s) { m with activeJobs := m.activeJobs.erase s.jobId }
        (some (.settleResolve s job))
  /-- Its escrow is resolved. -/
  | resolve (s : Settlement) (job : Job) (amount : UInt64) (w : WalletState) :
      Funded m.wallet job → Wallet.Resolves m.wallet w job.escrowId →
      Turns cfg m (.settleResolve s job) (m.setWallet w) (some (.settleSave s job amount))
  /-- It is not active, and the job is lost. -/
  | unresolved (s : Settlement) (job : Job) : ¬ Funded m.wallet job →
      Turns cfg m (.settleResolve s job) m none
  | settleSave (s : Settlement) (job : Job) (amount : UInt64) : s.draw.store = .ok () →
      Turns cfg m (.settleSave s job amount) m (some (afterSave s job amount))
  /-- The wallet is not saved, and the job is lost. -/
  | settleUnsaved (s : Settlement) (job : Job) (amount : UInt64) : s.draw.store ≠ .ok () →
      Turns cfg m (.settleSave s job amount) m none
  | credit (s : Settlement) (job : Job) (amount : UInt64) (w : WalletState) :
      w.escrows = m.wallet.escrows →
      Turns cfg m (.settleCredit s job amount) (m.setWallet w) (some (.settleCreditSave s job))
  | creditSave (s : Settlement) (job : Job) :
      Turns cfg m (.settleCreditSave s job) m (some (.settleComplete s job))
  | complete (s : Settlement) (job : Job) : Turns cfg m (.settleComplete s job)
      (completeJob s job m).state none
  /-- The wallet does something. -/
  | wallet (t : Wallet.Task) : Turns cfg m (.wallet t)
      (m.setWallet (Wallet.advance cfg ⟨m.wallet, []⟩ t).1.state)
      ((Wallet.advance cfg ⟨m.wallet, []⟩ t).2.map .wallet)
  /-- The section fails, and makes no escrow active. -/
  | stop (t : Task) (w : WalletState) : t.MayStop → Wallet.Shrinks m.wallet w →
      Turns cfg m t (m.setWallet w) none

section Inversion

variable {cfg : WalletConfig} {m : JobManager}

theorem Turns.failed {t : Task} (ht : t.MayStop) : Turns cfg m t m none :=
  .stop t m.wallet ht (.refl _)

/-- A section that hands on what it computed, told from its two ways to end. -/
theorem turns_map {t : Task} {α : Type} {x : JobM α} {f : α → Option Task}
    (h : resume cfg t = f <$> x)
    (hok : ∀ a, (x m).outcome = .ok a → Turns cfg m t (x m).state (f a))
    (hnot : (x m).outcome.isOk = false → Turns cfg m t (x m).state none) :
    Turns cfg m t (resume cfg t m).state (resume cfg t m).outcome.toOption.join := by
  rw [h, Action.map_apply]
  rcases (x m).outcome.ok_or_not with ⟨a, ha⟩ | hx
  · rw [ha]
    exact hok a ha
  · have hnone : ((x m).outcome.map f).toOption = none :=
      Outcome.toOption_of_not_ok (by rw [Outcome.isOk_map, hx])
    rw [hnone]
    exact hnot hx

theorem turns_onJob {t : Task} {id : JobId} {f : Job → Job} (ht : t.MayStop)
    (h : resume cfg t = (fun _ => none) <$> onJob id f)
    (hok : ∀ job, m.activeJobs.lookup id = some job →
      Turns cfg m t { m with activeJobs := m.activeJobs.insert id (f job) } none) :
    Turns cfg m t (resume cfg t m).state (resume cfg t m).outcome.toOption.join := by
  cases hjob : m.activeJobs.lookup id with
  | none =>
      refine turns_map h ?_ ?_ <;> simp only [onJob, hjob]
      · intro a ha
        cases ha
      · intro _
        exact .failed ht
  | some job =>
      refine turns_map h ?_ ?_ <;> simp only [onJob, hjob]
      · intro _ _
        exact hok job hjob
      · intro hx
        cases hx

theorem onWallet_save (store : Except String Unit) (m : JobManager) :
    (onWallet (Wallet.saveState store) m).state = m := by
  cases store <;> rfl

theorem resolveLocked_cases (s : Settlement) (job : Job) (w : WalletState) :
    (∃ amount, Funded w job ∧ (resolveLocked s job w).outcome = .ok amount ∧
      Wallet.Resolves w (resolveLocked s job w).state job.escrowId) ∨
    (¬ Funded w job ∧ (resolveLocked s job w).outcome.isOk = false ∧
      (resolveLocked s job w).state = w) := by
  unfold resolveLocked
  cases s.success with
  | true =>
      simp only [if_true, Action.map_apply]
      rcases Wallet.releaseEscrowLocked_cases (s.draw.stamp 0) job.escrowId w with
        ⟨e, tx, he, hok, hres⟩ | ⟨hno, hnot, hstate⟩
      · exact .inl ⟨e.amount, ⟨e, he⟩, by rw [hok]; rfl, hres⟩
      · exact .inr ⟨hno, by rw [Outcome.isOk_map, hnot], hstate⟩
  | false =>
      simp only [Bool.false_eq_true, if_false, Action.map_apply]
      rcases Wallet.refundEscrowLocked_cases (s.draw.stamp 0) job.escrowId w with
        ⟨e, tx, he, hok, hres⟩ | ⟨hno, hnot, hstate⟩
      · exact .inl ⟨0, ⟨e, he⟩, by rw [hok]; rfl, hres⟩
      · exact .inr ⟨hno, by rw [Outcome.isOk_map, hnot], hstate⟩

/-- The wallet does its part of a settlement exactly when the escrow is active and the
database stores. -/
theorem payment_ok_iff {s : Settlement} {job : Job} {w : WalletState} :
    (payment s job w).outcome = .ok () ↔ Funded w job ∧ s.draw.store = .ok () := by
  rw [payment_eq]
  rcases resolveLocked_cases s job w with ⟨amount, hfunded, hok, -⟩ | ⟨hno, hnot, -⟩
  · rw [Action.bind_of_ok hok]
    dsimp only
    by_cases hstore : s.draw.store = .ok ()
    · rw [Action.bind_of_ok (Wallet.saveState_ok_iff (u := ()).2 hstore)]
      refine ⟨fun _ => ⟨hfunded, hstore⟩, fun _ => ?_⟩
      dsimp only
      split
      · have hcredit : ∀ st, ∃ tx, (creditPayment s amount st).outcome = .ok tx := fun _ => ⟨_, rfl⟩
        obtain ⟨tx, htx⟩ := hcredit (Wallet.saveState s.draw.store (resolveLocked s job w).state).state
        rw [Action.bind_of_ok htx]
        cases s.creditDraw.store <;> rfl
      · rfl
    · have hfails : (Wallet.saveState s.draw.store (resolveLocked s job w).state).outcome.isOk =
          false := by
        refine Outcome.not_ok ?_
        intro h
        exact hstore (Wallet.saveState_ok_iff.1 h)
      refine ⟨fun h => ?_, fun h => absurd h.2 hstore⟩
      exact absurd h (Outcome.ne_ok (Action.bind_of_not_ok hfails).1 ())
  · refine ⟨fun h => ?_, fun h => absurd h.1 hno⟩
    exact absurd h (Outcome.ne_ok (Action.bind_of_not_ok hnot).1 ())

/-- Once the escrow is resolved, the rest of a payment leaves the escrows alone. -/
theorem payment_escrows (s : Settlement) (job : Job) (w : WalletState) :
    (payment s job w).state.escrows = (resolveLocked s job w).state.escrows := by
  rw [payment_eq]
  rcases (resolveLocked s job w).outcome.ok_or_not with ⟨amount, hok⟩ | hnot
  · rw [Action.bind_of_ok hok]
    generalize (resolveLocked s job w).state = w'
    cases s.draw.store with
    | error _ => rfl
    | ok _ =>
        show (((if s.success ∧ amount ≠ 0 then do
            let _ ← creditPayment s amount
            (Wallet.saveState s.creditDraw.store).attempt
          else pure ()) : WalletM Unit) w').state.escrows = _
        split
        · cases s.creditDraw.store <;> rfl
        · rfl
  · rw [(Action.bind_of_not_ok hnot).2.1]

theorem payment_release_escrows {s : Settlement} {job : Job} {w : WalletState} {e : Escrow}
    (hs : s.success = true) (he : Wallet.ActiveAt w job.escrowId e) :
    (payment s job w).state.escrows =
      w.escrows.update job.escrowId fun e => { e with status := .released } := by
  rw [payment_escrows]
  unfold resolveLocked
  rw [if_pos hs, Action.map_apply]
  exact Wallet.releaseEscrowLocked_escrows he

/-- A payment makes nothing active, -/
theorem payment_shrinks (s : Settlement) (job : Job) (w : WalletState) :
    Wallet.Shrinks w (payment s job w).state := by
  have hescrows : Wallet.Shrinks (resolveLocked s job w).state (payment s job w).state :=
    .of_escrows (payment_escrows s job w)
  rcases resolveLocked_cases s job w with ⟨_, -, -, hresolves⟩ | ⟨-, -, hstate⟩
  · exact hresolves.shrinks.trans hescrows
  · rw [hstate] at hescrows
    exact hescrows

/-- and leaves the escrow of the job resolved. -/
theorem payment_resolved (s : Settlement) (job : Job) (w : WalletState) :
    ¬ Funded (payment s job w).state job := by
  rintro ⟨e, he⟩
  have hresolved : Wallet.ActiveAt (resolveLocked s job w).state job.escrowId e :=
    ⟨(congrArg (Finmap.lookup job.escrowId) (payment_escrows s job w)).symm.trans he.1, he.2⟩
  rcases resolveLocked_cases s job w with ⟨_, -, -, hresolves⟩ | ⟨hno, -, hstate⟩
  · exact hresolves.not_active hresolved
  · rw [hstate] at hresolved
    exact hno ⟨e, hresolved⟩

theorem payment_unfunded {s : Settlement} {job : Job} {w : WalletState} (hno : ¬ Funded w job) :
    (payment s job w).state = w := by
  rw [payment_eq]
  rcases resolveLocked_cases s job w with ⟨_, hfunded, -⟩ | ⟨-, hnot, hstate⟩
  · exact absurd hfunded hno
  · rw [(Action.bind_of_not_ok hnot).2.1, hstate]

theorem settleJob_wallet {s : Settlement} {job : Job}
    (hjob : m.activeJobs.lookup s.jobId = some job) :
    (settleJob s m).state.wallet = (payment s job m.wallet).state := by
  rcases settleJob_cases s m with ⟨hnone, -⟩ | ⟨d, hd, hrest⟩
  · rw [hnone] at hjob
    cases hjob
  · obtain rfl : d = job := Option.some.inj (hd.symm.trans hjob)
    rcases hrest with ⟨-, -, hstate⟩ | ⟨-, -, hstate⟩ <;>
      · rw [hstate]
        rfl

/-- `settle_job` succeeds exactly when the job is active, its escrow is, and the database
stores. -/
theorem settleJob_isOk_iff {s : Settlement} :
    (settleJob s m).outcome.isOk ↔ ∃ job, m.activeJobs.lookup s.jobId = some job ∧
      Funded m.wallet job ∧ s.draw.store = .ok () := by
  rcases settleJob_cases s m with ⟨hnone, hnot, -⟩ | ⟨job, hjob, hrest⟩
  · rw [hnone, hnot]
    simp
  · rw [hjob]
    simp only [Option.some.injEq, exists_eq_left', ← payment_ok_iff]
    rcases hrest with ⟨hpay, hout, -⟩ | ⟨hpay, hnot, -⟩
    · rw [hpay, hout]
      simp [Outcome.isOk]
    · rw [hnot]
      simp [Outcome.ne_ok hpay ()]

/-- **What one section of a call can do.** -/
theorem turns (cfg : WalletConfig) (m : JobManager) (t : Task) :
    Turns cfg m t (resume cfg t m).state (resume cfg t m).outcome.toOption.join := by
  cases t with
  | createStore request => exact .create request
  | createBids id => exact .openBids id
  | receive bid =>
      refine turns_map (x := receiveBid bid) rfl ?_ ?_
      all_goals unfold receiveBid; cases hbids : m.bids.lookup bid.jobId
      · intro a ha
        cases ha
      · intro _ _
        exact .receive bid _ hbids
      · intro _
        exact .failed trivial
      · intro hx
        cases hx
  | acceptRequest a =>
      refine turns_map (x := findRequest a.jobId) rfl ?_ ?_ <;> rw [findRequest_state]
      · intro request hreq
        exact .request a request (findRequest_ok_iff.1 hreq)
      · intro _
        exact .failed trivial
  | acceptBid a request =>
      refine turns_map (x := findBid a) rfl ?_ ?_ <;> rw [findBid_state]
      · intro bid hbid
        obtain ⟨hnamed, hunexpired⟩ := findBid_ok_iff.1 hbid
        exact .bid a request bid hnamed hunexpired
      · intro _
        exact .failed trivial
  | acceptLimits a request bid =>
      have hstate : (onWallet (Wallet.checkSpendingLimits cfg a.draw.checkedAt bid.price) m).state =
          m := by
        rw [onWallet_state, Wallet.checkSpendingLimits_state]
      refine turns_map (x := onWallet _) rfl ?_ ?_ <;> rw [hstate]
      · intro _ _
        exact .allow a request bid
      · intro _
        exact .failed trivial
  | acceptEscrow a request bid =>
      refine turns_map (x := onWallet _) rfl ?_ ?_
      · intro e he
        have hlocked := onWallet_ok_iff.1 he
        obtain ⟨hnew, hescrows⟩ := Wallet.createEscrowLocked_ok hlocked
        exact .escrow a request bid e _ hnew (Wallet.createEscrowLocked_affords hlocked) hescrows
      · intro hnot
        refine .stop _ _ trivial ?_
        intro id d hd
        rcases Wallet.createEscrowLocked_active hd with hold | ⟨-, hok⟩
        · exact hold
        · obtain ⟨e, he⟩ := Outcome.isOk_iff.1 hok
          exact absurd (onWallet_ok_iff.2 he) (Outcome.ne_ok hnot e)
  | acceptSave a request bid e =>
      refine turns_map (x := onWallet _) rfl ?_ ?_ <;> rw [onWallet_save]
      · intro u hu
        exact .save a request bid e (Wallet.saveState_ok_iff.1 (onWallet_ok_iff.1 hu))
      · intro hnot
        refine .unsaved a request bid e ?_
        intro hstore
        exact Outcome.ne_ok hnot () (onWallet_ok_iff.2 (Wallet.saveState_ok_iff.2 hstore))
  | acceptDrop id job => exact .drop id job
  | acceptDropBids id job => exact .dropBids id job
  | acceptStore id job => exact .store id job
  | announce job => exact .announce job
  | start now id => exact turns_onJob trivial rfl fun job hjob => .start now id job hjob
  | submit id result => exact turns_onJob trivial rfl fun job hjob => .submit id result job hjob
  | settleTake s =>
      refine turns_map (x := takeJob s.jobId) rfl ?_ ?_
      all_goals unfold takeJob; cases hjob : m.activeJobs.lookup s.jobId
      · intro a ha
        cases ha
      · intro job h
        cases h
        exact .take s _ hjob
      · intro _
        exact .failed trivial
      · intro hx
        cases hx
  | settleResolve s job =>
      refine turns_map (x := onWallet _) rfl ?_ ?_
      · intro amount hok
        rcases resolveLocked_cases s job m.wallet with ⟨_, hfunded, -, hres⟩ | ⟨-, hnot, -⟩
        · exact .resolve s job amount _ hfunded hres
        · exact absurd (onWallet_ok_iff.1 hok) (Outcome.ne_ok hnot amount)
      · intro hx
        rcases resolveLocked_cases s job m.wallet with ⟨amount, -, hok, -⟩ | ⟨hno, -, hstate⟩
        · exact absurd (onWallet_ok_iff.2 hok) (Outcome.ne_ok hx amount)
        · rw [onWallet_state, hstate]
          exact .unresolved s job hno
  | settleSave s job amount =>
      refine turns_map (x := onWallet _) rfl ?_ ?_ <;> rw [onWallet_save]
      · intro u hu
        exact .settleSave s job amount (Wallet.saveState_ok_iff.1 (onWallet_ok_iff.1 hu))
      · intro hnot
        refine .settleUnsaved s job amount ?_
        intro hstore
        exact Outcome.ne_ok hnot () (onWallet_ok_iff.2 (Wallet.saveState_ok_iff.2 hstore))
  | settleCredit s job amount => exact .credit s job amount _ rfl
  | settleCreditSave s job =>
      have hattempt : resume cfg (.settleCreditSave s job) m =
          ⟨.ok (some (.settleComplete s job)), m, []⟩ := by
        cases hstore : s.creditDraw.store <;>
          simp only [resume, Action.map_apply, onWallet, Action.zoom, Action.attempt, hstore] <;> rfl
      rw [hattempt]
      exact .creditSave s job
  | settleComplete s job => exact .complete s job
  | wallet t => exact .wallet t

end Inversion

/-- A call that starts at a place of the pool and runs for a number of sections. -/
def Sample.calling (k n : ℕ) (c : Call) : List (Move Task) :=
  .start c.task :: List.replicate n (.resume k)

end Jobs
end PeerClaw
