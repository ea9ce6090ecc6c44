import PeerClaw.Job.State
import PeerClaw.Wallet.Operations

/-!
# The job manager: its calls

The methods of `JobManager` in `job/mod.rs`.  It keeps four collections, each
behind a lock of its own, and shares the wallet with the rest of the node; every
lock that a method takes is a definition here, and the method is their
sequence.  Broadcasting is best effort and reports no failure, so it is left
out.

A job is `requests` until a bid is accepted, `active_jobs` until it is settled,
and `completed_jobs` afterwards.
-/

namespace PeerClaw

open Lib

/-- The job manager and the wallet it works with. -/
structure JobManager where
  /-- Requests awaiting bids. -/
  requests : FiniteMap JobId JobRequest
  /-- Bids received for requests. -/
  bids : FiniteMap JobId (List JobBid)
  /-- Jobs being executed. -/
  activeJobs : FiniteMap JobId Job
  /-- Recent history. -/
  completedJobs : List Job
  wallet : WalletState

/-- `JobManager::new`. -/
def JobManager.new (wallet : WalletState) : JobManager where
  requests := ∅
  bids := ∅
  activeJobs := ∅
  completedJobs := []
  wallet := wallet

/-- The manager after the wallet has changed. -/
def JobManager.setWallet (m : JobManager) (wallet : WalletState) : JobManager :=
  { m with wallet := wallet }

theorem JobManager.wallet_setWallet (m : JobManager) (w : WalletState) :
    (m.setWallet w).wallet = w := rfl

theorem JobManager.setWallet_setWallet (m : JobManager) (w w' : WalletState) :
    (m.setWallet w).setWallet w' = m.setWallet w' := rfl

/-- An action on the job manager. -/
abbrev JobM (α : Type) := Action JobManager JobError α

namespace Jobs

/-- Run an action of the wallet. -/
def onWallet {α : Type} (x : WalletM α) : JobM α :=
  .zoom JobManager.wallet JobManager.setWallet .wallet x

/-! ## The requester's side -/

/-- Store a request under its id. -/
def storeRequest (request : JobRequest) : JobM Unit := fun m =>
  ⟨.ok (), { m with requests := m.requests.insert request.id request }, []⟩

/-- Start to collect bids. -/
def openBids (id : JobId) : JobM Unit := fun m =>
  ⟨.ok (), { m with bids := m.bids.insert id [] }, []⟩

/-- `JobManager::create_request`. -/
def createRequest (request : JobRequest) : JobM JobId := do
  storeRequest request
  openBids request.id
  return request.id

/-- `JobManager::receive_bid`. -/
def receiveBid (bid : JobBid) : JobM Unit := fun m =>
  match m.bids.lookup bid.jobId with
  | none => ⟨.err (.notFound bid.jobId), m, []⟩
  | some jobBids => ⟨.ok (), { m with bids := m.bids.insert bid.jobId (jobBids ++ [bid]) }, []⟩

/-- `JobManager::get_bids`. -/
def getBids (m : JobManager) (id : JobId) : List JobBid := (m.bids.lookup id).getD []

/-- The arguments of `accept_bid`, with what it draws. -/
structure Acceptance where
  jobId : JobId
  bidId : BidId
  /-- `Utc::now()` in `is_expired`. -/
  checkedAt : DateTime
  /-- What `create_escrow` draws. -/
  draw : Draw
  /-- `Utc::now()` in `Job::new`. -/
  createdAt : DateTime

/-- Look a request up. -/
def findRequest (id : JobId) : JobM JobRequest := fun m =>
  match m.requests.lookup id with
  | none => ⟨.err (.notFound id), m, []⟩
  | some request => ⟨.ok request, m, []⟩

/-- The first bid received under an id. -/
def bidNamed (bids : List JobBid) (id : BidId) : Option JobBid :=
  bids.find? fun b => decide (b.id = id)

/-- Look a bid up; it must not have expired. -/
def findBid (a : Acceptance) : JobM JobBid := fun m =>
  match (m.bids.lookup a.jobId).bind fun jobBids => bidNamed jobBids a.bidId with
  | none => ⟨.err (.bidNotFound a.bidId), m, []⟩
  | some bid =>
      if bid.isExpired a.checkedAt then ⟨.err .bidExpired, m, []⟩ else ⟨.ok bid, m, []⟩

/-- Have the wallet lock the price of the bid. -/
def lockPrice (cfg : WalletConfig) (a : Acceptance) (request : JobRequest) (bid : JobBid) :
    WalletM Escrow :=
  Wallet.createEscrow cfg a.draw bid.price bid.bidderId a.jobId.val request.timeoutSecs

/-- Take a request out. -/
def dropRequest (id : JobId) : JobM Unit := fun m =>
  ⟨.ok (), { m with requests := m.requests.erase id }, []⟩

/-- Take the bids for a request out. -/
def dropBids (id : JobId) : JobM Unit := fun m =>
  ⟨.ok (), { m with bids := m.bids.erase id }, []⟩

/-- Store an active job. -/
def storeJob (id : JobId) (job : Job) : JobM Unit := fun m =>
  ⟨.ok (), { m with activeJobs := m.activeJobs.insert id job }, []⟩

/-- `JobManager::accept_bid`. -/
def acceptBid (cfg : WalletConfig) (a : Acceptance) : JobM Job := do
  let request ← findRequest a.jobId
  let bid ← findBid a
  let escrow ← onWallet (lockPrice cfg a request bid)
  let job := Job.new a.createdAt request bid escrow.id
  dropRequest a.jobId
  dropBids a.jobId
  storeJob a.jobId job
  return job

/-! ## The provider's side -/

/-- `JobManager::bid_accepted`. -/
def bidAccepted (job : Job) : JobM Unit := storeJob job.id job

/-! ## Execution and settlement -/

/-- `JobManager::get_job`. -/
def getJob (m : JobManager) (id : JobId) : Option Job := m.activeJobs.lookup id

/-- Rewrite an active job. -/
def onJob (id : JobId) (f : Job → Job) : JobM Unit := fun m =>
  match m.activeJobs.lookup id with
  | none => ⟨.err (.notFound id), m, []⟩
  | some job => ⟨.ok (), { m with activeJobs := m.activeJobs.insert id (f job) }, []⟩

/-- A job that is started at the instant `now`. -/
def started (now : DateTime) (job : Job) : Job :=
  { job with status := .inProgress, startedAt := some now }

/-- A job with its result. -/
def withResult (result : JobResult) (job : Job) : Job :=
  { job with result := some result, status := .pendingVerification }

/-- `JobManager::start_job`. -/
def startJob (now : DateTime) (id : JobId) : JobM Unit := onJob id (started now)

/-- `JobManager::submit_result`. -/
def submitResult (id : JobId) (result : JobResult) : JobM Unit := onJob id (withResult result)

/-- The arguments of `settle_job`, with what it draws. -/
structure Settlement where
  jobId : JobId
  success : Bool
  /-- What `release_escrow` or `refund_escrow` draws. -/
  draw : Draw
  /-- What `credit` draws. -/
  creditDraw : Draw
  /-- `Utc::now()` when the job is completed. -/
  completedAt : DateTime

/-- Take an active job out. -/
def takeJob (id : JobId) : JobM Job := fun m =>
  match m.activeJobs.lookup id with
  | none => ⟨.err (.notFound id), m, []⟩
  | some job => ⟨.ok job, { m with activeJobs := m.activeJobs.erase id }, []⟩

/-- What the wallet does for a settlement.  After a success the payment is
credited to the local wallet, and whether that worked does not matter. -/
def payment (s : Settlement) (job : Job) : WalletM Unit :=
  if s.success then do
    let released ← Wallet.releaseEscrow s.draw job.escrowId
    (Wallet.credit s.creditDraw released.2.1 ("job_payment:" ++ s.jobId.val)).attempt
  else do
    let _ ← Wallet.refundEscrow s.draw job.escrowId
    pure ()

/-- A job that has been settled. -/
def settled (s : Settlement) (job : Job) : Job :=
  { job with
    status := if s.success then .completed else .failed
    completedAt := some s.completedAt }

/-- Store a completed job. -/
def completeJob (s : Settlement) (job : Job) : JobM Unit := fun m =>
  let completed := m.completedJobs ++ [settled s job]
  -- only the last hundred are kept
  ⟨.ok (), { m with completedJobs := completed.drop (completed.length - 100) }, []⟩

/-- `JobManager::settle_job`. -/
def settleJob (s : Settlement) : JobM Unit := do
  let job ← takeJob s.jobId
  onWallet (payment s job)
  completeJob s job

/-! ## One interface to all of them -/

/-- A call of the job manager's interface, or of the wallet's, with what it draws. -/
inductive Call
  | createRequest (request : JobRequest)
  | receiveBid (bid : JobBid)
  | acceptBid (a : Acceptance)
  | bidAccepted (job : Job)
  | startJob (now : DateTime) (id : JobId)
  | submitResult (id : JobId) (result : JobResult)
  | settleJob (s : Settlement)
  | wallet (c : Wallet.Call)

/-- What a call returns. -/
inductive Reply
  | done
  | created (id : JobId)
  | accepted (job : Job)
  | wallet (r : Wallet.Reply)

/-- Run one call. -/
def exec (cfg : WalletConfig) : Call → JobM Reply
  | .createRequest request => .created <$> createRequest request
  | .receiveBid bid => (fun _ => .done) <$> receiveBid bid
  | .acceptBid a => .accepted <$> acceptBid cfg a
  | .bidAccepted job => (fun _ => .done) <$> bidAccepted job
  | .startJob now id => (fun _ => .done) <$> startJob now id
  | .submitResult id result => (fun _ => .done) <$> submitResult id result
  | .settleJob s => (fun _ => .done) <$> settleJob s
  | .wallet c => .wallet <$> onWallet (Wallet.exec cfg c)

/-- The state after one call. -/
def step (cfg : WalletConfig) (m : JobManager) (c : Call) : JobManager := (exec cfg c m).state

/-! ## What the calls do -/

section Specs

variable {cfg : WalletConfig} {m : JobManager}

theorem onWallet_ok_iff {α : Type} {x : WalletM α} {a : α} :
    (onWallet x m).outcome = .ok a ↔ (x m.wallet).outcome = .ok a :=
  Action.zoom_ok_iff

theorem onWallet_state {α : Type} (x : WalletM α) (m : JobManager) :
    (onWallet x m).state = { m with wallet := (x m.wallet).state } := rfl

theorem onWallet_not_ok {α : Type} {x : WalletM α} (h : (x m.wallet).outcome.isOk = false) :
    (onWallet x m).outcome.isOk = false := by
  rcases (onWallet x m).outcome.ok_or_not with ⟨a, ha⟩ | hnot
  · rw [onWallet_ok_iff.1 ha] at h
    cases h
  · exact hnot

theorem onWallet_err {α : Type} {x : WalletM α} {e : WalletError}
    (h : (x m.wallet).outcome = .err e) : (onWallet x m).outcome = .err (.wallet e) :=
  Action.zoom_err h

theorem onWallet_bind {α β : Type} (x : WalletM α) (f : α → WalletM β) :
    onWallet (x >>= f) = onWallet x >>= fun a => onWallet (f a) :=
  Action.zoom_bind JobManager.wallet_setWallet JobManager.setWallet_setWallet x f

theorem findRequest_ok_iff {id : JobId} {request : JobRequest} :
    (findRequest id m).outcome = .ok request ↔ m.requests.lookup id = some request := by
  unfold findRequest
  cases m.requests.lookup id <;> simp

theorem findRequest_state (id : JobId) (m : JobManager) : (findRequest id m).state = m := by
  unfold findRequest
  cases m.requests.lookup id <;> rfl

/-- The bid that a call of `accept_bid` finds is the first one received under that
id for the job, and it has not expired. -/
theorem findBid_ok_iff {a : Acceptance} {bid : JobBid} :
    (findBid a m).outcome = .ok bid ↔
      bidNamed (getBids m a.jobId) a.bidId = some bid ∧ bid.isExpired a.checkedAt = false := by
  have hbids : ((m.bids.lookup a.jobId).bind fun jobBids => bidNamed jobBids a.bidId) =
      bidNamed (getBids m a.jobId) a.bidId := by
    unfold getBids
    cases m.bids.lookup a.jobId <;> rfl
  unfold findBid
  rw [hbids]
  cases bidNamed (getBids m a.jobId) a.bidId with
  | none => simp
  | some b =>
      by_cases hexp : b.isExpired a.checkedAt
      · simp only [hexp, if_true, Option.some.injEq]
        constructor
        · intro h
          cases h
        · rintro ⟨rfl, h⟩
          rw [hexp] at h
          cases h
      · simp only [hexp, Option.some.injEq]
        constructor
        · intro h
          cases h
          exact ⟨rfl, Bool.eq_false_iff.2 hexp⟩
        · rintro ⟨rfl, -⟩
          rfl

theorem findBid_state (a : Acceptance) (m : JobManager) : (findBid a m).state = m := by
  unfold findBid
  cases (m.bids.lookup a.jobId).bind fun jobBids => bidNamed jobBids a.bidId with
  | none => rfl
  | some b =>
      dsimp only
      split <;> rfl

/-- The state after a bid is accepted. -/
def accepted (m : JobManager) (a : Acceptance) (w : WalletState) (job : Job) : JobManager :=
  { m with
    requests := m.requests.erase a.jobId
    bids := m.bids.erase a.jobId
    activeJobs := m.activeJobs.insert a.jobId job
    wallet := w }

/-- What `accept_bid` went through when it returns a job. -/
structure Accepts (cfg : WalletConfig) (m : JobManager) (a : Acceptance) (request : JobRequest)
    (bid : JobBid) (escrow : Escrow) : Prop where
  requested : m.requests.lookup a.jobId = some request
  named : bidNamed (getBids m a.jobId) a.bidId = some bid
  unexpired : bid.isExpired a.checkedAt = false
  locked : (lockPrice cfg a request bid m.wallet).outcome = .ok escrow

/-- What `accept_bid` went through when the wallet turned it down. -/
structure Refused (cfg : WalletConfig) (m : JobManager) (a : Acceptance) (request : JobRequest)
    (bid : JobBid) : Prop where
  requested : m.requests.lookup a.jobId = some request
  named : bidNamed (getBids m a.jobId) a.bidId = some bid
  unexpired : bid.isExpired a.checkedAt = false
  notLocked : (lockPrice cfg a request bid m.wallet).outcome.isOk = false

/-- What `accept_bid` finds before it turns to the wallet. -/
structure Finds (m : JobManager) (a : Acceptance) (request : JobRequest) (bid : JobBid) : Prop where
  requested : m.requests.lookup a.jobId = some request
  named : bidNamed (getBids m a.jobId) a.bidId = some bid
  unexpired : bid.isExpired a.checkedAt = false

/-- What `accept_bid` does once the price is locked. -/
def storeAccepted (a : Acceptance) (request : JobRequest) (bid : JobBid) (escrow : Escrow) :
    JobM Job := do
  let job := Job.new a.createdAt request bid escrow.id
  dropRequest a.jobId
  dropBids a.jobId
  storeJob a.jobId job
  return job

/-- With a request and a bid, all depends on the wallet; -/
theorem acceptBid_of_finds (cfg : WalletConfig) {a : Acceptance} {request : JobRequest}
    {bid : JobBid} (h : Finds m a request bid) :
    (acceptBid cfg a m).outcome =
        ((onWallet (lockPrice cfg a request bid) >>= storeAccepted a request bid) m).outcome ∧
      (acceptBid cfg a m).state =
        ((onWallet (lockPrice cfg a request bid) >>= storeAccepted a request bid) m).state := by
  unfold acceptBid
  rw [Action.bind_of_ok (findRequest_ok_iff.2 h.requested), findRequest_state,
    Action.bind_of_ok (findBid_ok_iff.2 ⟨h.named, h.unexpired⟩), findBid_state]
  exact ⟨rfl, rfl⟩

/-- without, nothing happens. -/
theorem acceptBid_of_not_finds (cfg : WalletConfig) {a : Acceptance}
    (h : ¬ ∃ request bid, Finds m a request bid) :
    (acceptBid cfg a m).outcome.isOk = false ∧ (acceptBid cfg a m).state = m := by
  unfold acceptBid
  rcases (findRequest a.jobId m).outcome.ok_or_not with ⟨request, hreq⟩ | hreq
  · have hfails : (findBid a m).outcome.isOk = false := by
      rcases (findBid a m).outcome.ok_or_not with ⟨bid, hbid⟩ | hbid
      · obtain ⟨hnamed, hunexpired⟩ := findBid_ok_iff.1 hbid
        exact absurd ⟨request, bid, findRequest_ok_iff.1 hreq, hnamed, hunexpired⟩ h
      · exact hbid
    rw [Action.bind_of_ok hreq, findRequest_state]
    exact ⟨(Action.bind_of_not_ok hfails).1,
      (Action.bind_of_not_ok hfails).2.1.trans (findBid_state a m)⟩
  · exact ⟨(Action.bind_of_not_ok hreq).1,
      (Action.bind_of_not_ok hreq).2.1.trans (findRequest_state a.jobId m)⟩

/-- A call of `accept_bid` that goes through returns the job and stores it. -/
theorem acceptBid_of_accepts {a : Acceptance} {request : JobRequest} {bid : JobBid}
    {escrow : Escrow} (h : Accepts cfg m a request bid escrow) :
    (acceptBid cfg a m).outcome = .ok (.new a.createdAt request bid escrow.id) ∧
      (acceptBid cfg a m).state = accepted m a (lockPrice cfg a request bid m.wallet).state
        (.new a.createdAt request bid escrow.id) := by
  obtain ⟨hout, hstate⟩ := acceptBid_of_finds cfg ⟨h.requested, h.named, h.unexpired⟩
  rw [hout, hstate, Action.bind_of_ok (onWallet_ok_iff.2 h.locked)]
  exact ⟨rfl, rfl⟩

/-- **What `accept_bid` does**: it returns a job made from the request and from the
first bid under the id, or it leaves all but the wallet as it was. -/
theorem acceptBid_cases (cfg : WalletConfig) (a : Acceptance) (m : JobManager) :
    (∃ request bid escrow, Accepts cfg m a request bid escrow ∧
      (acceptBid cfg a m).outcome = .ok (.new a.createdAt request bid escrow.id) ∧
      (acceptBid cfg a m).state = accepted m a (lockPrice cfg a request bid m.wallet).state
        (.new a.createdAt request bid escrow.id)) ∨
    (acceptBid cfg a m).outcome.isOk = false ∧ ((acceptBid cfg a m).state = m ∨
      ∃ request bid, Refused cfg m a request bid ∧ (acceptBid cfg a m).state =
        { m with wallet := (lockPrice cfg a request bid m.wallet).state }) := by
  by_cases hfinds : ∃ request bid, Finds m a request bid
  · obtain ⟨request, bid, hfinds⟩ := hfinds
    rcases (lockPrice cfg a request bid m.wallet).outcome.ok_or_not with ⟨escrow, hesc⟩ | hesc
    · have haccepts : Accepts cfg m a request bid escrow :=
        ⟨hfinds.requested, hfinds.named, hfinds.unexpired, hesc⟩
      exact .inl ⟨request, bid, escrow, haccepts, acceptBid_of_accepts haccepts⟩
    · right
      obtain ⟨hout, hstate⟩ := acceptBid_of_finds cfg hfinds
      have hrefused : Refused cfg m a request bid :=
        ⟨hfinds.requested, hfinds.named, hfinds.unexpired, hesc⟩
      have hfails := Action.bind_of_not_ok (f := storeAccepted a request bid) (onWallet_not_ok hesc)
      exact ⟨hout ▸ hfails.1, .inr ⟨request, bid, hrefused, hstate.trans hfails.2.1⟩⟩
  · right
    obtain ⟨hnot, hstate⟩ := acceptBid_of_not_finds cfg hfinds
    exact ⟨hnot, .inl hstate⟩

theorem receiveBid_state (bid : JobBid) (m : JobManager) :
    ∃ bids, (receiveBid bid m).state = { m with bids := bids } := by
  unfold receiveBid
  cases m.bids.lookup bid.jobId with
  | none => exact ⟨m.bids, rfl⟩
  | some jobBids => exact ⟨_, rfl⟩

theorem onJob_bids (id : JobId) (f : Job → Job) (m : JobManager) :
    (onJob id f m).state.bids = m.bids := by
  unfold onJob
  cases m.activeJobs.lookup id <;> rfl

theorem onJob_wallet (id : JobId) (f : Job → Job) (m : JobManager) :
    (onJob id f m).state.wallet = m.wallet := by
  unfold onJob
  cases m.activeJobs.lookup id <;> rfl

/-- The manager once an active job is taken out, with what the wallet became. -/
def taken (m : JobManager) (id : JobId) (w : WalletState) : JobManager :=
  { m with activeJobs := m.activeJobs.erase id, wallet := w }

/-- **What `settle_job` does**: nothing when the job is not active; otherwise the
job is taken out, whether or not the wallet then does its part. -/
theorem settleJob_cases (s : Settlement) (m : JobManager) :
    (m.activeJobs.lookup s.jobId = none ∧ (settleJob s m).outcome.isOk = false ∧
      (settleJob s m).state = m) ∨
    ∃ job, m.activeJobs.lookup s.jobId = some job ∧
      ((payment s job m.wallet).outcome = .ok () ∧ (settleJob s m).outcome = .ok () ∧
        (settleJob s m).state =
          (completeJob s job (taken m s.jobId (payment s job m.wallet).state)).state ∨
      (payment s job m.wallet).outcome.isOk = false ∧ (settleJob s m).outcome.isOk = false ∧
        (settleJob s m).state = taken m s.jobId (payment s job m.wallet).state) := by
  unfold settleJob
  cases hjob : m.activeJobs.lookup s.jobId with
  | none =>
      left
      have htake : takeJob s.jobId m = ⟨.err (.notFound s.jobId), m, []⟩ := by
        unfold takeJob
        rw [hjob]
      have hnot : (takeJob s.jobId m).outcome.isOk = false := by rw [htake]; rfl
      refine ⟨rfl, (Action.bind_of_not_ok hnot).1, (Action.bind_of_not_ok hnot).2.1.trans ?_⟩
      rw [htake]
  | some job =>
      right
      refine ⟨job, rfl, ?_⟩
      have htake : takeJob s.jobId m = ⟨.ok job, taken m s.jobId m.wallet, []⟩ := by
        unfold takeJob
        rw [hjob]
        rfl
      rw [Action.bind_of_ok (a := job) (by rw [htake]), htake]
      dsimp only
      have hwallet : (taken m s.jobId m.wallet).wallet = m.wallet := rfl
      rcases (payment s job m.wallet).outcome.ok_or_not with ⟨⟨⟩, hpay⟩ | hpay
      · left
        rw [← hwallet] at hpay
        rw [Action.bind_of_ok (onWallet_ok_iff.2 hpay)]
        exact ⟨hpay, rfl, rfl⟩
      · right
        rw [← hwallet] at hpay
        exact ⟨hpay, (Action.bind_of_not_ok (onWallet_not_ok hpay)).1,
          (Action.bind_of_not_ok (onWallet_not_ok hpay)).2.1⟩

theorem settleJob_unknown {s : Settlement} (h : m.activeJobs.lookup s.jobId = none) :
    (settleJob s m).state = m := by
  rcases settleJob_cases s m with ⟨-, -, hstate⟩ | ⟨job, hjob, -⟩
  · exact hstate
  · rw [h] at hjob
    cases hjob

end Specs

/-! ## A job to look at -/

namespace Sample

/-- Limits that never bind here. -/
def config : WalletConfig := ⟨1000, 1000, 1000, 0⟩

/-- A wallet of a hundred. -/
def funds : WalletState := { WalletState.default with available := 100 }

def jobId : JobId := ⟨"job"⟩

/-- A request for a web page, within a budget of fifty. -/
def request : JobRequest where
  id := jobId
  resourceType := .webFetch 1
  units := 1
  maxBudget := 50
  requirements := .default
  timeoutSecs := 300
  createdAt := .epoch
  expiresAt := .ofSecs 60 (by decide)
  requesterId := "alice"
  payload := none

/-- A bid for it that is good for a minute. -/
def bid (id bidder : String) (price : UInt64) : JobBid where
  id := ⟨id⟩
  jobId := jobId
  bidderId := bidder
  price := price
  estimatedLatencyMs := 100
  createdAt := .epoch
  expiresAt := .ofSecs 60 (by decide)
  status := .pending
  reputation := 0.5
  message := none

/-- Accept a bid, under a given escrow, on a database that stores or not. -/
def acceptance (bidId escrowId : String) (store : Except String Unit) : Acceptance where
  jobId := jobId
  bidId := ⟨bidId⟩
  checkedAt := .epoch
  draw := { Draw.fixed .epoch escrowId [] with store := store }
  createdAt := .epoch

/-- Settle the job. -/
def settlement (success : Bool) : Settlement where
  jobId := jobId
  success := success
  draw := .fixed .epoch "release" []
  creditDraw := .fixed .epoch "credit" []
  completedAt := .epoch

/-- A sweep after ten minutes. -/
def sweep (escrowIds : List String) : Wallet.Call :=
  .sweepExpiredEscrows (.fixed (.ofSecs 600 (by decide)) "sweep" (escrowIds.map EscrowId.mk))

end Sample

end Jobs
end PeerClaw
