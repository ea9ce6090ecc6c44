import PeerClaw.Runtime.Gossip
import PeerClaw.Job.Escrows
import PeerClaw.Job.Selection
import PeerClaw.Encoding
import PeerClaw.Lib.MessagePack

/-!
# Remote execution

`RemoteExecutor::execute` of `executor/remote.rs`, from the point where the task
has become a job request.  It broadcasts the request, waits for bids, accepts
the best one, tells the winner, polls the job manager for a result, and settles
the job; it returns early at every stage.

Between two of its accesses to the job manager anything can happen there: a
message arrives or a local call is made.  So the executor is a machine of
stages, and a run interleaves its moves with the inputs of the node.  Clocks,
fresh identifiers, the network and the moment at which the wait times out are
drawn by the move.

The second half says what the inputs of a node do to one job: each either
settles it, or leaves it with the escrow it has.
-/

namespace PeerClaw

open Lib Lib.Machine

/-! ## Errors and their texts -/

/-- What a `WalletError` is displayed as. -/
def WalletError.text : WalletError → String
  | .insufficientBalance available required =>
      "Insufficient balance: have " ++ toString available ++ " μPCLAW, need " ++
        toString required ++ " μPCLAW"
  | .escrowNotFound id => "Escrow not found: " ++ id.val
  | .escrowAlreadyResolved id => "Escrow already resolved: " ++ id.val
  | .invalidAmount message => "Invalid amount: " ++ message
  | .database message => "Database error: " ++ message
  | .spendingLimitExceeded limitType limit =>
      "Spending limit exceeded: " ++ limitType ++ " limit is " ++ toString limit ++ " μPCLAW"

/-- What a `JobError` is displayed as. -/
def JobError.text : JobError → String
  | .notFound id => "Job not found: " ++ id.val
  | .bidNotFound id => "Bid not found: " ++ id.val
  | .bidExpired => "Bid expired"
  | .wallet e => "Wallet error: " ++ e.text

/-- Why remote execution fails. -/
inductive ExecutorError
  | insufficientResources (message : String)
  | inferenceError (message : String)
  | timeout
  deriving DecidableEq, Repr

/-- Handles remote task execution via the P2P network. -/
structure RemoteExecutor where
  localPeerId : String
  /-- `network::serialize_message`. -/
  serializeMessage : JobMessage → Except String (List UInt8)

namespace RemoteExecutor

open Jobs

/-! ## The stages -/

/-- What the executor does next. -/
inductive Stage
  /-- Serialize the request and store it locally. -/
  | broadcast
  | publishRequest
  | collectBids
  | acceptBid (bid : JobBid)
  /-- Tell the winner. -/
  | notify (bid : JobBid) (job : Job)
  /-- Poll the job manager. -/
  | waitForResult
  | settle (result : JobResult)
  /-- `execute` has returned; a job result still becomes the result of the task. -/
  | done (outcome : Outcome ExecutorError JobResult)

/-- The job manager, and where the executor is. -/
structure State where
  manager : JobManager
  stage : Stage

/-- What a move of the executor draws. -/
structure Draws where
  /-- What `publish` returns. -/
  published : Except String Unit
  /-- It is time to poll. -/
  polls : Bool
  /-- The result timeout is over. -/
  elapsed : Bool
  /-- `Utc::now()` in `is_expired`. -/
  checkedAt : DateTime
  /-- What `create_escrow` or `release_escrow` draws. -/
  draw : Draw
  /-- What `credit` draws. -/
  creditDraw : Draw
  /-- `Utc::now()` when the job is created or completed. -/
  stampedAt : DateTime

/-- The state before `execute` has done anything. -/
def State.start (m : JobManager) : State := ⟨m, .broadcast⟩

/-- Go on to another stage. -/
def State.goto (s : State) (stage : Stage) : State := { s with stage := stage }

/-- `execute` returns an error. -/
def State.fails (s : State) (e : ExecutorError) : State := s.goto (.done (.err e))

/-- Call the job manager, and go on with what it returns. -/
def State.call {α : Type} (s : State) (x : JobM α) (next : α → Stage) : State where
  manager := (x s.manager).state
  stage :=
    match (x s.manager).outcome with
    | .ok a => next a
    | .err e => .done (.err (.inferenceError e.text))
    | .panic => .done .panic

/-- Publish a message, and go on if that worked. -/
def State.publish (s : State) (x : RemoteExecutor) (message : JobMessage)
    (published : Except String Unit) (next : Stage) : State :=
  match x.serializeMessage message with
  | .error e => s.fails (.inferenceError e)
  | .ok _ =>
      match published with
      | .error e => s.fails (.inferenceError e)
      | .ok _ => s.goto next

/-- The message that carries the request. -/
def requestMessage (x : RemoteExecutor) (request : JobRequest) : JobMessage :=
  .request ⟨request, x.localPeerId, []⟩

/-- The message that tells the winner. -/
def acceptMessage (id : JobId) (bid : JobBid) (job : Job) : JobMessage :=
  .bidAccepted ⟨id, bid.id.val, bid.bidderId, job.escrowId.val, []⟩

/-- The acceptance of the bid that was selected. -/
def Draws.acceptance (d : Draws) (id : JobId) (bid : JobBid) : Acceptance :=
  ⟨id, bid.id, d.checkedAt, d.draw, d.stampedAt⟩

/-- The settlement of the job. -/
def Draws.settlement (d : Draws) (id : JobId) : Settlement :=
  ⟨id, true, d.draw, d.creditDraw, d.stampedAt⟩

/-- What polling finds, when it is time to. -/
def Draws.found (d : Draws) (m : JobManager) (id : JobId) : Option JobResult :=
  if d.polls then (getJob m id).bind Job.result else none

/-- One move of `RemoteExecutor::execute`. -/
def advance (cfg : WalletConfig) (x : RemoteExecutor) (request : JobRequest) (d : Draws)
    (s : State) : State :=
  match s.stage with
  | .broadcast =>
      match x.serializeMessage (requestMessage x request) with
      | .error e => s.fails (.inferenceError e)
      | .ok _ => s.call (createRequest request) fun _ => .publishRequest
  | .publishRequest => s.publish x (requestMessage x request) d.published .collectBids
  | .collectBids =>
      match getBids s.manager request.id with
      | [] => s.fails (.insufficientResources "No peers available to handle task")
      | bids =>
          match selectBestBid bids with
          | none => s.goto (.done .panic)
          | some bid => s.goto (.acceptBid bid)
  | .acceptBid bid => s.call (Jobs.acceptBid cfg (d.acceptance request.id bid)) (.notify bid)
  | .notify bid job => s.publish x (acceptMessage request.id bid job) d.published .waitForResult
  | .waitForResult =>
      -- the deadline is looked at after the poll, if that is due
      match d.found s.manager request.id with
      | some result => s.goto (.settle result)
      | none => if d.elapsed then s.fails .timeout else s
  | .settle result => s.call (settleJob (d.settlement request.id)) fun _ => .done (.ok result)
  | .done _ => s

/-! ## Runs -/

/-- The executor moves, or something happens at the node. -/
inductive Move
  | node (input : Runtime.Input)
  | executor (d : Draws)

/-- What the executor runs with: the wallet's configuration, the decoder of gossip, the
executor itself and the request. -/
structure Setting where
  cfg : WalletConfig
  decode : Runtime.Decoder
  executor : RemoteExecutor
  request : JobRequest

/-- The state after a move. -/
def step (x : Setting) (s : State) : Move → State
  | .node input => { s with manager := Runtime.step x.cfg x.decode s.manager input }
  | .executor d => advance x.cfg x.executor x.request d s

/-- A bid has been accepted, and `execute` has not returned. -/
def Stage.Awaits : Stage → Prop
  | .notify _ _ | .waitForResult | .settle _ => True
  | _ => False

instance (stage : Stage) : Decidable stage.Awaits := by
  cases stage <;> unfold Stage.Awaits <;> infer_instance

/-- What happens at the node while a result is awaited. -/
def seen (s : State) : Move → List Runtime.Input
  | .node input => if s.stage.Awaits then [input] else []
  | .executor _ => []

/-- The state, and what has happened since a bid was accepted. -/
abbrev Watched := State × List Runtime.Input

/-- The machine that keeps a log of it. -/
def watch (x : Setting) : Watched → Move → Watched := logged (step x) seen

/-- The message can be serialized and is published. -/
def Sends (x : RemoteExecutor) (message : JobMessage) (published : Except String Unit) : Prop :=
  (∃ data, x.serializeMessage message = .ok data) ∧ published = .ok ()

section Moves

variable {x : Setting} {s : State} {log : List Runtime.Input}

/-- The executor's moves are not logged, -/
theorem watch_executor (d : Draws) :
    watch x (s, log) (.executor d) = (step x s (.executor d), log) := by
  simp [watch, logged, seen]

/-- nor is what happens while no result is awaited. -/
theorem watch_node (h : ¬ s.stage.Awaits) (input : Runtime.Input) :
    watch x (s, log) (.node input) = (step x s (.node input), log) := by
  simp [watch, logged, seen, h]

theorem publish_cases (s : State) (x : RemoteExecutor) (message : JobMessage)
    (published : Except String Unit) (next : Stage) :
    (Sends x message published ∧ s.publish x message published next = s.goto next) ∨
      (¬ Sends x message published ∧ ∃ e, s.publish x message published next = s.fails e) := by
  unfold State.publish Sends
  cases x.serializeMessage message with
  | error e => exact .inr ⟨by simp, _, rfl⟩
  | ok data =>
      cases published with
      | error e => exact .inr ⟨by simp, _, rfl⟩
      | ok u => exact .inl ⟨⟨⟨data, rfl⟩, rfl⟩, rfl⟩

end Moves

/-! ## What happens to the job at the node -/

/-- The input settles the job: a result for it arrives, or a local call settles it. -/
def Settles (decode : Runtime.Decoder) (id : JobId) : Runtime.Input → Prop
  | .gossip g => ∃ msg, g.CarriesResult decode msg ∧ msg.jobId = id
  | .call (.settleJob s) => s.jobId = id
  | .call _ => False

/-- Something in the log settles the job. -/
def SettledIn (decode : Runtime.Decoder) (id : JobId) (log : List Runtime.Input) : Prop :=
  ∃ input ∈ log, Settles decode id input

/-- Other calls leave the job to the executor: none accepts a bid for it, stores it as
active or creates an escrow for it.  Gossip is arbitrary.  (`auto_accept_bids` skips the
requests of the executor, which name no requester, and nothing calls `bid_accepted`.) -/
def LeavesJob (id : JobId) : Runtime.Input → Prop
  | .gossip _ => True
  | .call c => ¬ c.MayLock id ∧ ∀ job, c = .bidAccepted job → job.id ≠ id

/-- The condition on a move. -/
def MoveLeaves (id : JobId) : Move → Prop
  | .node input => LeavesJob id input
  | .executor _ => True

/-- The escrow of the active job. -/
def escrowOf (m : JobManager) (id : JobId) : Option EscrowId :=
  (m.activeJobs.lookup id).map Job.escrowId

/-- Every active escrow of the job is on record with it. -/
def Accounted (id : JobId) (m : JobManager) : Prop :=
  ∀ i, JobEscrow m.wallet id i → escrowOf m id = some i

/-- No escrow for the job is active, and neither is the job. -/
def Clean (id : JobId) (m : JobManager) : Prop :=
  (∀ i, ¬ JobEscrow m.wallet id i) ∧ m.activeJobs.lookup id = none

/-! ## What one input does -/

section Inputs

variable {cfg : WalletConfig} {decode : Runtime.Decoder} {id : JobId} {m : JobManager}
  {input : Runtime.Input} {i : EscrowId}

theorem clean_iff : Clean id m ↔ Accounted id m ∧ m.activeJobs.lookup id = none := by
  constructor
  · rintro ⟨hescrows, hjob⟩
    exact ⟨fun i hi => absurd hi (hescrows i), hjob⟩
  · rintro ⟨haccounted, hjob⟩
    refine ⟨fun i hi => ?_, hjob⟩
    have hrecord := haccounted i hi
    simp [escrowOf, hjob] at hrecord

theorem settleJob_lookup (s : Settlement) (m : JobManager) (id : JobId) :
    (settleJob s m).state.activeJobs.lookup id =
      if id = s.jobId then none else m.activeJobs.lookup id := by
  have htaken : ∀ w, (taken m s.jobId w).activeJobs.lookup id =
      if id = s.jobId then none else m.activeJobs.lookup id := fun w => Finmap.lookup_erase_eq ..
  rcases settleJob_cases s m with ⟨hnone, -, hstate⟩ | ⟨job, -, ⟨-, -, hstate⟩ | ⟨-, -, hstate⟩⟩
  · rw [hstate]
    split
    · next hid => rw [hid, hnone]
    · rfl
  · rw [hstate]
    exact htaken (payment s job m.wallet).state
  · rw [hstate]
    exact htaken (payment s job m.wallet).state

theorem settleJob_jobEscrow {s : Settlement} (h : JobEscrow (settleJob s m).state.wallet id i) :
    JobEscrow m.wallet id i ∧ escrowOf m s.jobId ≠ some i := by
  cases hjob : m.activeJobs.lookup s.jobId with
  | none =>
      rw [settleJob_unknown hjob] at h
      exact ⟨h, by simp [escrowOf, hjob]⟩
  | some job =>
      rw [settleJob_wallet hjob] at h
      obtain ⟨e, hactive, hfor⟩ := h
      refine ⟨⟨e, payment_shrinks s job m.wallet i e hactive, hfor⟩, ?_⟩
      intro hescrow
      have hid : job.escrowId = i := by simpa [escrowOf, hjob] using hescrow
      subst hid
      exact payment_resolved s job m.wallet ⟨e, hactive⟩

/-- So does a result that arrives, -/
theorem storeResult_lookup (g : Runtime.Gossip) (msg : JobResultMessage) (m : JobManager)
    (id : JobId) : (Runtime.storeResult g msg m).state.activeJobs.lookup id =
      if id = msg.jobId then none else m.activeJobs.lookup id := by
  cases hjob : m.activeJobs.lookup msg.jobId with
  | none =>
      rw [Runtime.storeResult_unknown hjob]
      split
      · next hid => rw [hid, hjob]
      · rfl
  | some job =>
      rw [Runtime.storeResult_known hjob, settleJob_lookup]
      show (if id = msg.jobId then none else _) = _
      by_cases hid : id = msg.jobId
      · rw [if_pos hid, if_pos hid]
      · rw [if_neg hid, if_neg hid, Finmap.lookup_insert_eq, if_neg hid]

/-- which is stored with the job first. -/
theorem storeResult_jobEscrow {g : Runtime.Gossip} {msg : JobResultMessage}
    (h : JobEscrow (Runtime.storeResult g msg m).state.wallet id i) :
    JobEscrow m.wallet id i ∧ escrowOf m msg.jobId ≠ some i := by
  cases hjob : m.activeJobs.lookup msg.jobId with
  | none =>
      rw [Runtime.storeResult_unknown hjob] at h
      exact ⟨h, by simp [escrowOf, hjob]⟩
  | some job =>
      rw [Runtime.storeResult_known hjob] at h
      obtain ⟨hbefore, hescrow⟩ := settleJob_jobEscrow h
      refine ⟨hbefore, ?_⟩
      simpa [escrowOf, hjob, Runtime.Gossip.settlement, withResult] using hescrow

theorem onJob_escrowOf (f : Job → Job) (hf : ∀ job, (f job).escrowId = job.escrowId)
    (j id : JobId) (m : JobManager) : escrowOf (onJob j f m).state id = escrowOf m id := by
  unfold onJob escrowOf
  cases hjob : m.activeJobs.lookup j with
  | none => rfl
  | some job =>
      dsimp only
      rw [Finmap.lookup_insert_eq]
      by_cases hid : id = j
      · rw [if_pos hid, hid, hjob]
        simp [hf]
      · rw [if_neg hid]

/-- **An input that settles the job** takes it out of the active ones. -/
theorem lookup_of_settles (cfg : WalletConfig) (m : JobManager) (h : Settles decode id input) :
    (Runtime.step cfg decode m input).activeJobs.lookup id = none := by
  cases input with
  | gossip g =>
      obtain ⟨msg, hcarries, rfl⟩ := h
      unfold Runtime.step
      dsimp only
      rw [Runtime.handle_result hcarries, storeResult_lookup, if_pos rfl]
  | call c =>
      cases c with
      | settleJob s =>
          obtain rfl : s.jobId = id := h
          unfold Runtime.step Jobs.step
          dsimp only
          rw [exec, Action.map_apply]
          dsimp only
          rw [settleJob_lookup, if_pos rfl]
      | _ => exact h.elim

/-- **Any other input** leaves the job where it is, with its escrow. -/
theorem escrowOf_of_not_settles (cfg : WalletConfig) (m : JobManager) (hleaves : LeavesJob id input)
    (h : ¬ Settles decode id input) :
    escrowOf (Runtime.step cfg decode m input) id = escrowOf m id := by
  cases input with
  | gossip g =>
      unfold Runtime.step
      dsimp only
      by_cases hcarries : ∃ msg, g.CarriesResult decode msg
      · obtain ⟨msg, hcarries⟩ := hcarries
        have hid : id ≠ msg.jobId := fun hid => h ⟨msg, hcarries, hid.symm⟩
        unfold escrowOf
        rw [Runtime.handle_result hcarries, storeResult_lookup, if_neg hid]
      · obtain ⟨bids, hstate⟩ := Runtime.handle_other (m := m) hcarries
        rw [hstate]
        rfl
  | call c =>
      unfold Runtime.step Jobs.step
      dsimp only
      cases c with
      | createRequest request => rfl
      | receiveBid bid =>
          obtain ⟨bids, hstate⟩ := receiveBid_state bid m
          rw [exec, Action.map_apply, hstate]
          rfl
      | acceptBid a =>
          rw [exec, Action.map_apply]
          have hid : id ≠ a.jobId := fun hid => hleaves.1 hid.symm
          rcases acceptBid_cases cfg a m with ⟨request, bid, e, -, -, hstate⟩ |
            ⟨-, hstate | ⟨request, bid, -, hstate⟩⟩
          · unfold escrowOf
            rw [hstate]
            show Option.map _ ((m.activeJobs.insert a.jobId _).lookup id) = _
            rw [Finmap.lookup_insert_eq, if_neg hid]
          · rw [hstate]
          · rw [hstate]
            rfl
      | bidAccepted job =>
          have hid : id ≠ job.id := fun hid => hleaves.2 job rfl hid.symm
          show Option.map _ ((m.activeJobs.insert job.id job).lookup id) = _
          rw [Finmap.lookup_insert_eq, if_neg hid]
          rfl
      | startJob now j =>
          rw [exec, Action.map_apply]
          exact onJob_escrowOf (started now) (fun _ => rfl) j id m
      | submitResult j result =>
          rw [exec, Action.map_apply]
          exact onJob_escrowOf (withResult result) (fun _ => rfl) j id m
      | settleJob s =>
          rw [exec, Action.map_apply]
          have hid : id ≠ s.jobId := fun hid => h hid.symm
          unfold escrowOf
          rw [settleJob_lookup, if_neg hid]
      | wallet c =>
          rw [exec, Action.map_apply]
          rfl

/-- **No input** makes an escrow of the job active, and one that settles the job resolves
the escrow on record. -/
theorem jobEscrow_of_step (hleaves : LeavesJob id input)
    (h : JobEscrow (Runtime.step cfg decode m input).wallet id i) :
    JobEscrow m.wallet id i ∧ (Settles decode id input → escrowOf m id ≠ some i) := by
  cases input with
  | gossip g =>
      unfold Runtime.step at h
      dsimp only at h
      by_cases hcarries : ∃ msg, g.CarriesResult decode msg
      · obtain ⟨msg, hcarries⟩ := hcarries
        rw [Runtime.handle_result hcarries] at h
        obtain ⟨hbefore, hescrow⟩ := storeResult_jobEscrow h
        refine ⟨hbefore, ?_⟩
        rintro ⟨msg', hcarries', rfl⟩
        have hsame : some (JobMessage.result msg) = some (.result msg') :=
          hcarries.2.symm.trans hcarries'.2
        obtain rfl := JobMessage.result.inj (Option.some.inj hsame)
        exact hescrow
      · obtain ⟨bids, hstate⟩ := Runtime.handle_other (m := m) hcarries
        rw [hstate] at h
        exact ⟨h, fun ⟨msg, hmsg, _⟩ => absurd ⟨msg, hmsg⟩ hcarries⟩
  | call c =>
      have hbefore : JobEscrow m.wallet id i := (step_jobEscrow h).resolve_right hleaves.1
      refine ⟨hbefore, fun hsettles => ?_⟩
      cases c with
      | settleJob s =>
          obtain rfl : s.jobId = id := hsettles
          have hstep : (Runtime.step cfg decode m (.call (.settleJob s))).wallet =
              (settleJob s m).state.wallet := by
            unfold Runtime.step Jobs.step
            dsimp only
            rw [exec, Action.map_apply]
          rw [hstep] at h
          exact (settleJob_jobEscrow h).2
      | _ => exact hsettles.elim

theorem Accounted.step (h : Accounted id m) (hleaves : LeavesJob id input) :
    Accounted id (Runtime.step cfg decode m input) := by
  intro i hi
  obtain ⟨hbefore, hsettles⟩ := jobEscrow_of_step hleaves hi
  have hrecord := h i hbefore
  by_cases hs : Settles decode id input
  · exact absurd hrecord (hsettles hs)
  · rw [escrowOf_of_not_settles cfg m hleaves hs]
    exact hrecord

theorem lookup_of_none (hleaves : LeavesJob id input) (h : m.activeJobs.lookup id = none) :
    (Runtime.step cfg decode m input).activeJobs.lookup id = none := by
  by_cases hs : Settles decode id input
  · exact lookup_of_settles cfg m hs
  · have hescrow := escrowOf_of_not_settles cfg m hleaves hs
    unfold escrowOf at hescrow
    rw [h] at hescrow
    exact Option.map_eq_none_iff.1 hescrow

theorem Clean.step (h : Clean id m) (hleaves : LeavesJob id input) :
    Clean id (Runtime.step cfg decode m input) := by
  obtain ⟨haccounted, hjob⟩ := clean_iff.1 h
  exact clean_iff.2 ⟨haccounted.step hleaves, lookup_of_none hleaves hjob⟩

end Inputs

/-! ## A run to look at -/

namespace Sample

open Jobs.Sample MessagePack

/-- A text in MessagePack. -/
def str (s : String) : List UInt8 := text (utf8 s)

/-- The fetch of a page in MessagePack. -/
def fetchBytes : List UInt8 :=
  entry (str "WebFetch") (array [str "https://a.io", str "GET", array [], nil, uint 30])

/-- The request that offloads it: it names no requester. -/
def fetchRequest : JobRequest :=
  { Jobs.Sample.request with
    maxBudget := 1000000
    timeoutSecs := 30
    requesterId := ""
    payload := some fetchBytes }

/-- The request in MessagePack. -/
def requestBytes : List UInt8 :=
  array [str "job", entry (str "WebFetch") (array [uint 1]), uint 1, uint 1000000,
    array [nil, float64 0x3fd3333333333333, array [], array [], array []], uint 30,
    str "1970-01-01T00:00:00Z", str "1970-01-01T00:01:00Z", str "",
    array (fetchBytes.map fun b => uint b.toNat)]

/-- The two messages that are sent about it. -/
def serializeMessage : JobMessage → Except String (List UInt8)
  | .request msg =>
      .ok (entry (str "Request") (array [requestBytes, str msg.requesterPeerId, array []]))
  | .bidAccepted msg =>
      .ok (entry (str "BidAccepted") (array [str msg.jobId.val, str msg.bidId,
        str msg.winnerPeerId, str msg.escrowId, array []]))
  | _ => .error "not sent here"

/-- Bob's result: an empty one. -/
def result : JobResult := ⟨[], "", ⟨none, none, none⟩, ⟨0, 0, none⟩⟩

def resultMessage : JobResultMessage := ⟨jobId, result, "bob", []⟩

def resultBytes : List UInt8 :=
  entry (str "Result") (array [str "job", array [array [], str "",
    array [nil, nil, nil],
    array [uint 0, uint 0, nil]], str "bob", array []])

/-- Bob's result as it arrives. -/
def resultGossip : Runtime.Gossip where
  topic := topics.jobStatus
  data := resultBytes
  source := some "bob"
  draw := .fixed .epoch "release" []
  creditDraw := .fixed .epoch "credit" []
  completedAt := .epoch

/-- A decoder that knows bob's message. -/
def decode : Runtime.Decoder := fun data =>
  if data = resultBytes then some (.result resultMessage) else none

/-- Alice's node. -/
def setting : Setting where
  cfg := config
  decode := decode
  executor := ⟨"alice", serializeMessage⟩
  request := fetchRequest

theorem carriesResult : resultGossip.CarriesResult decode resultMessage :=
  ⟨rfl, if_pos rfl⟩

/-- All goes well at a move, unless the wait times out. -/
def draws (elapsed : Bool) : Draws where
  published := .ok ()
  polls := true
  elapsed := elapsed
  checkedAt := .epoch
  draw := .fixed .epoch "e" []
  creditDraw := .fixed .epoch "credit" []
  stampedAt := .epoch

/-- The executor makes a move. -/
def moves : Move := .executor (draws false)

/-- Bob's bid is accepted, and he is told. -/
def accepting : List Move :=
  [moves, moves, .node (.call (.receiveBid (bid "b" "bob" 40))), moves, moves, moves]

/-- The wait times out. -/
def timesOut : Move := .executor (draws true)

/-- Bob answers, and the wait times out all the same. -/
def answered : List Move := accepting ++ [.node (.gossip resultGossip), timesOut]

/-- Bob never answers. -/
def unanswered : List Move := accepting ++ [timesOut]

theorem clean_new : Clean setting.request.id (.new funds) := by
  refine ⟨?_, rfl⟩
  rintro i ⟨e, ⟨hlookup, -⟩, -⟩
  cases hlookup

theorem receiveBid_leaves (b : JobBid) :
    MoveLeaves setting.request.id (.node (.call (.receiveBid b))) :=
  ⟨id, by rintro job ⟨⟩⟩

theorem answered_leaves : Along (watch setting)
    (fun _ => MoveLeaves setting.request.id) (.start (.new funds), []) answered :=
  ⟨trivial, trivial, receiveBid_leaves _, trivial, trivial, trivial, trivial, trivial, trivial⟩

theorem unanswered_leaves : Along (watch setting)
    (fun _ => MoveLeaves setting.request.id) (.start (.new funds), []) unanswered :=
  ⟨trivial, trivial, receiveBid_leaves _, trivial, trivial, trivial, trivial, trivial⟩

end Sample

end RemoteExecutor
end PeerClaw
