import PeerClaw.Job.Sections
import PeerClaw.Lib.Machine

/-!
# Gossip about jobs

The messages of `job/network.rs`, and what `Runtime::handle_gossip_message` does
with them to the job manager.  A result that arrives for an active job is stored
and the job settled, in one go.

* `releases_authorised_iff` — in every sequence of gossip and local calls, every
  escrow that gossip releases is the escrow of a job whose winning bidder sent the
  result, exactly when every result for a job with an active escrow comes from
  that bidder.
* `stranger_is_paid_for` — it need not: the handler looks neither at
  `provider_peer_id` nor at the source.

Bytes are decoded by the MessagePack library, which is a parameter here.  What
requests and acceptances do to the provider, and what other topics do to other
components, leaves the job manager alone.
-/

namespace PeerClaw

open Lib Lib.Machine

/-! ## Messages -/

/-- Job request broadcast message. -/
structure JobRequestMessage where
  request : JobRequest
  requesterPeerId : String
  signature : List UInt8

/-- Bid message sent to the requester. -/
structure JobBidMessage where
  bid : JobBid
  bidderPeerId : String
  signature : List UInt8

/-- Notification that a bid was accepted. -/
structure BidAcceptedMessage where
  jobId : JobId
  bidId : String
  winnerPeerId : String
  escrowId : String
  signature : List UInt8

/-- Job result message from the provider. -/
structure JobResultMessage where
  jobId : JobId
  result : JobResult
  providerPeerId : String
  signature : List UInt8

/-- Status updates that can be broadcast. -/
inductive JobStatusUpdate
  | started
  | progress (percent : UInt8) (message : Option String)
  | completed
  | failed (reason : String)
  | cancelled

/-- Job status update message. -/
structure JobStatusMessage where
  jobId : JobId
  status : JobStatusUpdate
  peerId : String
  timestamp : UInt64

/-- Message types sent over the network for job coordination. -/
inductive JobMessage
  | request (msg : JobRequestMessage)
  | bid (msg : JobBidMessage)
  | bidAccepted (msg : BidAcceptedMessage)
  | result (msg : JobResultMessage)
  | statusUpdate (msg : JobStatusMessage)

/-- Topic for broadcasting job requests. -/
def topics.jobRequests : String := "peerclaw/jobs/requests/v1"

/-- Topic for broadcasting job bids. -/
def topics.jobBids : String := "peerclaw/jobs/bids/v1"

/-- Topic for job status updates. -/
def topics.jobStatus : String := "peerclaw/jobs/status/v1"

namespace Runtime

open Jobs (Call Settlement Funded settleJob submitResult receiveBid payment withResult)

/-! ## The handler -/

/-- `deserialize_message`: `none` when the bytes are not a message. -/
abbrev Decoder := List UInt8 → Option JobMessage

/-- A message that arrives, with what handling it draws. -/
structure Gossip where
  topic : String
  data : List UInt8
  /-- The peer it comes from, which the transport has authenticated. -/
  source : Option String
  /-- What `release_escrow` draws. -/
  draw : Draw
  /-- What `credit` draws. -/
  creditDraw : Draw
  /-- `Utc::now()` when the job is completed. -/
  completedAt : DateTime

/-- The settlement of a job whose result has arrived. -/
def Gossip.settlement (g : Gossip) (id : JobId) : Settlement :=
  ⟨id, true, g.draw, g.creditDraw, g.completedAt⟩

/-- Store a result and settle its job; errors are logged. -/
def storeResult (g : Gossip) (msg : JobResultMessage) : JobM Unit :=
  Action.attempt do
    submitResult msg.jobId msg.result
    settleJob (g.settlement msg.jobId)

/-- `Runtime::handle_gossip_message`, on the job manager. -/
def handleGossipMessage (decode : Decoder) (g : Gossip) : JobM Unit :=
  if g.topic = topics.jobRequests then
    -- the request goes to the provider's side
    pure ()
  else if g.topic = topics.jobBids then
    match decode g.data with
    | some (.bid msg) => (receiveBid msg.bid).attempt
    | _ => pure ()
  else if g.topic = topics.jobStatus then
    match decode g.data with
    | some (.result msg) => storeResult g msg
    | _ => pure ()
  else pure ()

/-- What happens to the job manager of a node: gossip arrives, or a local call is made. -/
inductive Input
  | gossip (g : Gossip)
  | call (c : Call)

/-- The job manager afterwards. -/
def step (cfg : WalletConfig) (decode : Decoder) (m : JobManager) : Input → JobManager
  | .gossip g => (handleGossipMessage decode g m).state
  | .call c => Jobs.step cfg m c

/-- The message is a job result on its topic. -/
def Gossip.CarriesResult (decode : Decoder) (g : Gossip) (msg : JobResultMessage) : Prop :=
  g.topic = topics.jobStatus ∧ decode g.data = some (.result msg)

/-! ## Who is paid for -/

/-- The result comes from the peer whose bid won the job. -/
def FromBidder (g : Gossip) (msg : JobResultMessage) (job : Job) : Prop :=
  msg.providerPeerId = job.bid.bidderId ∧ g.source = some job.bid.bidderId

/-- An escrow that was active is released. -/
def Releases (w w' : WalletState) (i : EscrowId) : Prop :=
  (∃ e, Wallet.ActiveAt w i e) ∧ ∃ e, w'.escrows.lookup i = some e ∧ e.status = .released

/-- An escrow that gossip releases is that of an active job whose result this is, and the
result comes from the peer whose bid won the job. -/
def Authorised (cfg : WalletConfig) (decode : Decoder) (m : JobManager) : Input → Prop
  | .call _ => True
  | .gossip g => ∀ i, Releases m.wallet (step cfg decode m (.gossip g)).wallet i →
      ∃ msg job, g.CarriesResult decode msg ∧ m.activeJobs.lookup msg.jobId = some job ∧
        job.escrowId = i ∧ FromBidder g msg job

/-- A result for a job whose escrow is active comes from the peer whose bid won the job. -/
def Authentic (decode : Decoder) (m : JobManager) : Input → Prop
  | .call _ => True
  | .gossip g => ∀ msg job, g.CarriesResult decode msg → m.activeJobs.lookup msg.jobId = some job →
      Funded m.wallet job → FromBidder g msg job

/-! ## What gossip does -/

section Handler

variable {cfg : WalletConfig} {decode : Decoder} {m : JobManager} {g : Gossip}
  {msg : JobResultMessage} {job : Job}

theorem handle_result (h : g.CarriesResult decode msg) :
    handleGossipMessage decode g = storeResult g msg := by
  have hrequests : ¬ topics.jobStatus = topics.jobRequests := by decide
  have hbids : ¬ topics.jobStatus = topics.jobBids := by decide
  unfold handleGossipMessage
  rw [h.1, if_neg hrequests, if_neg hbids, if_pos rfl, h.2]

/-- Gossip that carries no result leaves everything but the bids as it was. -/
theorem handle_other (h : ¬ ∃ msg, g.CarriesResult decode msg) :
    ∃ bids, (handleGossipMessage decode g m).state = { m with bids := bids } := by
  unfold handleGossipMessage
  split
  · exact ⟨m.bids, rfl⟩
  · split
    · cases decode g.data with
      | none => exact ⟨m.bids, rfl⟩
      | some message =>
          cases message with
          | bid msg => exact Jobs.receiveBid_state msg.bid m
          | _ => exact ⟨m.bids, rfl⟩
    · split
      · next htopic =>
          cases hdecode : decode g.data with
          | none => exact ⟨m.bids, rfl⟩
          | some message =>
              cases message with
              | result msg => exact absurd ⟨msg, htopic, hdecode⟩ h
              | _ => exact ⟨m.bids, rfl⟩
      · exact ⟨m.bids, rfl⟩

theorem storeResult_unknown (h : m.activeJobs.lookup msg.jobId = none) :
    (storeResult g msg m).state = m := by
  have hsubmit : submitResult msg.jobId msg.result m = ⟨.err (.notFound msg.jobId), m, []⟩ := by
    unfold submitResult Jobs.onJob
    rw [h]
  have hnot : (submitResult msg.jobId msg.result m).outcome.isOk = false := by
    rw [hsubmit]
    rfl
  show ((submitResult msg.jobId msg.result >>= fun _ => settleJob (g.settlement msg.jobId)) m).state =
    m
  rw [(Action.bind_of_not_ok hnot).2.1, hsubmit]

/-- **A result for an active job** is stored, and the job settled. -/
theorem storeResult_known (h : m.activeJobs.lookup msg.jobId = some job) :
    (storeResult g msg m).state = (settleJob (g.settlement msg.jobId)
      { m with activeJobs := m.activeJobs.insert msg.jobId (withResult msg.result job) }).state := by
  have hsubmit : submitResult msg.jobId msg.result m = ⟨.ok (),
      { m with activeJobs := m.activeJobs.insert msg.jobId (withResult msg.result job) }, []⟩ := by
    unfold submitResult Jobs.onJob
    rw [h]
  show ((submitResult msg.jobId msg.result >>= fun _ => settleJob (g.settlement msg.jobId)) m).state =
    _
  rw [Action.bind_of_ok (a := ()) (by rw [hsubmit]), hsubmit]

theorem storeResult_wallet (h : m.activeJobs.lookup msg.jobId = some job) :
    (storeResult g msg m).state.wallet =
      (payment (g.settlement msg.jobId) (withResult msg.result job) m.wallet).state := by
  rw [storeResult_known h]
  exact Jobs.settleJob_wallet (by simp [Gossip.settlement])

theorem not_releases (w : WalletState) (i : EscrowId) : ¬ Releases w w i := by
  rintro ⟨⟨e, he, hactive⟩, d, hd, hreleased⟩
  rw [he] at hd
  cases hd
  rw [hactive] at hreleased
  cases hreleased

/-- The wallet of a node where a result is stored releases the escrow of the job, if that
is active, and no other. -/
theorem releases_iff (h : m.activeJobs.lookup msg.jobId = some job) {i : EscrowId} :
    Releases m.wallet (storeResult g msg m).state.wallet i ↔
      job.escrowId = i ∧ Funded m.wallet job := by
  rw [storeResult_wallet h]
  have hescrows : ∀ {e : Escrow}, Wallet.ActiveAt m.wallet job.escrowId e →
      (payment (g.settlement msg.jobId) (withResult msg.result job) m.wallet).state.escrows =
        m.wallet.escrows.update job.escrowId fun e => { e with status := .released } :=
    fun he => Jobs.payment_release_escrows rfl he
  constructor
  · intro hrel
    by_cases hfunded : Funded m.wallet job
    · obtain ⟨e, he⟩ := hfunded
      refine ⟨?_, e, he⟩
      by_contra hne
      obtain ⟨⟨d, hd, hactive⟩, f, hf, hreleased⟩ := hrel
      rw [hescrows he, Finmap.lookup_update, if_neg (Ne.symm hne), hd] at hf
      cases hf
      rw [hactive] at hreleased
      cases hreleased
    · have hsame : (payment (g.settlement msg.jobId) (withResult msg.result job) m.wallet).state =
          m.wallet := Jobs.payment_unfunded hfunded
      rw [hsame] at hrel
      exact absurd hrel (not_releases _ _)
  · rintro ⟨rfl, e, he⟩
    refine ⟨⟨e, he⟩, { e with status := .released }, ?_, rfl⟩
    rw [hescrows he, Finmap.lookup_update]
    simp [he.1]

/-- **One message**: what it releases is authorised exactly when it is authentic. -/
theorem authorised_iff (cfg : WalletConfig) (decode : Decoder) (m : JobManager) (input : Input) :
    Authorised cfg decode m input ↔ Authentic decode m input := by
  cases input with
  | call c => exact Iff.rfl
  | gossip g =>
      unfold Authorised Authentic step
      dsimp only
      constructor
      · intro h msg job hcarries hjob hfunded
        have hrel : Releases m.wallet (handleGossipMessage decode g m).state.wallet job.escrowId := by
          rw [handle_result hcarries]
          exact (releases_iff hjob).2 ⟨rfl, hfunded⟩
        obtain ⟨msg', job', hcarries', hjob', -, hfrom⟩ := h job.escrowId hrel
        have hsame : some (JobMessage.result msg) = some (.result msg') :=
          hcarries.2.symm.trans hcarries'.2
        obtain rfl := JobMessage.result.inj (Option.some.inj hsame)
        obtain rfl : job = job' := Option.some.inj (hjob.symm.trans hjob')
        exact hfrom
      · intro h i hrel
        by_cases hcarries : ∃ msg, g.CarriesResult decode msg
        · obtain ⟨msg, hcarries⟩ := hcarries
          rw [handle_result hcarries] at hrel
          cases hjob : m.activeJobs.lookup msg.jobId with
          | none =>
              rw [storeResult_unknown hjob] at hrel
              exact absurd hrel (not_releases _ _)
          | some job =>
              obtain ⟨hid, hfunded⟩ := (releases_iff hjob).1 hrel
              exact ⟨msg, job, hcarries, hjob, hid, h msg job hcarries hjob hfunded⟩
        · obtain ⟨bids, hstate⟩ := handle_other (m := m) hcarries
          rw [hstate] at hrel
          exact absurd hrel (not_releases _ _)

end Handler

/-! ## Every sequence of messages -/

/-- **Gossip releases only what its sender has earned** exactly when results are authentic:
for every sequence of messages with arbitrary contents from arbitrary peers,
interleaved with local calls, from any job manager. -/
theorem releases_authorised_iff (cfg : WalletConfig) (decode : Decoder) (m : JobManager)
    (inputs : List Input) :
    Along (step cfg decode) (Authorised cfg decode) m inputs ↔
      Along (step cfg decode) (Authentic decode) m inputs :=
  along_iff_of_inv (I := fun _ => True) (fun _ _ _ _ => trivial)
    (fun m input _ _ => authorised_iff cfg decode m input) trivial along_true

section Example

open Jobs.Sample

/-- Mallory's result for the job: an empty one. -/
private def forgedResult : JobResultMessage :=
  ⟨jobId, ⟨[], "", ⟨none, none, none⟩, ⟨0, 0, none⟩⟩, "mallory", []⟩

/-- The message in MessagePack: a map of the variant's name to an array of its fields. -/
private def forgedBytes : List UInt8 :=
  [0x81, 0xa6, 0x52, 0x65, 0x73, 0x75, 0x6c, 0x74, 0x94, 0xa3, 0x6a, 0x6f, 0x62,
    0x94, 0x90, 0xa0, 0x93, 0xc0, 0xc0, 0xc0, 0x93, 0x00, 0x00, 0xc0,
    0xa7, 0x6d, 0x61, 0x6c, 0x6c, 0x6f, 0x72, 0x79, 0x90]

/-- A decoder that knows this message. -/
private def decodeForged : Decoder := fun data =>
  if data = forgedBytes then some (.result forgedResult) else none

private def forgedGossip : Gossip where
  topic := topics.jobStatus
  data := forgedBytes
  source := some "mallory"
  draw := .fixed .epoch "release" []
  creditDraw := .fixed .epoch "credit" []
  completedAt := .epoch

/-- Bob's bid for the job is accepted, and mallory publishes a result for it. -/
private def forging : List Input :=
  [.call (.createRequest request), .call (.receiveBid (bid "b" "bob" 40)),
    .call (.acceptBid (acceptance "b" "e" (.ok ()))), .gossip forgedGossip]

/-- **A stranger's result is paid for**: the job is bob's, mallory sends an empty result
under her own name, and bob's escrow is released. -/
theorem stranger_is_paid_for :
    (((run (step config decodeForged) (.new funds) forging).wallet.escrows.lookup ⟨"e"⟩).map
        Escrow.status = some .released) ∧
      ¬ Along (step config decodeForged) (Authorised config decodeForged) (.new funds) forging := by
  refine ⟨by decide, ?_⟩
  rintro ⟨-, -, -, hauthorised, -⟩
  have hauthentic := (authorised_iff config decodeForged _ _).1 hauthorised
  have hcarries : forgedGossip.CarriesResult decodeForged forgedResult := ⟨rfl, if_pos rfl⟩
  obtain ⟨hbidder, -⟩ := hauthentic forgedResult _ hcarries rfl ⟨_, rfl, rfl⟩
  revert hbidder
  decide

end Example

end Runtime
end PeerClaw
