import PeerClaw.Runtime.Gossip
import PeerClaw.Encoding
import PeerClaw.Lib.Separated

/-!
# What signatures are over

Requests and bids of `job/network.rs` and the manifests of `p2p/resource.rs` are
signed, and the bytes that are signed leave fields out: of a request and a bid
they have the peer and the job, and of a manifest neither the models nor the
uptime.

* `nothing_bound` — every request, bid and manifest shares its bytes with one that
  differs from it in what is agreed on.
* `jobBytes_iff` — what the bytes of a request or a bid do determine.
-/

namespace PeerClaw

open Lib Lib.Separated

/-! ## Requests and bids -/

/-- What a request and a bid are signed as: what they are, who sends them and the job. -/
def jobBytes (kind peerId : String) (jobId : JobId) : List UInt8 :=
  utf8 kind ++ utf8 peerId ++ utf8 ":" ++ utf8 jobId.val

/-- `JobRequestMessage::signable_bytes`. -/
def JobRequestMessage.signableBytes (m : JobRequestMessage) : List UInt8 :=
  jobBytes "job_request:" m.requesterPeerId m.request.id

/-- `JobBidMessage::signable_bytes`. -/
def JobBidMessage.signableBytes (m : JobBidMessage) : List UInt8 :=
  jobBytes "job_bid:" m.bidderPeerId m.bid.jobId

/-- The check of an Ed25519 signature over some bytes, with a key. -/
abbrev Ed25519 := List UInt8 → List UInt8 → Bool

/-- `JobRequestMessage::verify`. -/
def JobRequestMessage.verify (check : Ed25519) (m : JobRequestMessage) : Bool :=
  if m.signature.length ≠ 64 then false else check m.signableBytes m.signature

/-- `JobBidMessage::verify`. -/
def JobBidMessage.verify (check : Ed25519) (m : JobBidMessage) : Bool :=
  if m.signature.length ≠ 64 then false else check m.signableBytes m.signature

/-- **What the bytes determine**: the peer and the job, where neither has a colon in it. -/
theorem jobBytes_iff {kind peerId peerId' : String} {jobId jobId' : JobId}
    (hpeer : ':' ∉ peerId.toList) (hjob : ':' ∉ jobId.val.toList) :
    jobBytes kind peerId' jobId' = jobBytes kind peerId jobId ↔ peerId' = peerId ∧ jobId' = jobId := by
  constructor
  · intro h
    have htexts : ∀ (p : String) (j : JobId), jobBytes kind p j =
        Utf8.encode (kind.toList ++ joined ':' [p.toList, j.val.toList]) := by
      intro p j
      have hcolon : utf8 ":" = Utf8.encode [':'] := utf8_eq_encode_toList ":"
      have hcut : joined ':' [p.toList, j.val.toList] = p.toList ++ ([':'] ++ j.val.toList) := by
        simp
      rw [jobBytes, hcolon, hcut, Utf8.encode_append, Utf8.encode_append, Utf8.encode_append,
        utf8_eq_encode_toList, utf8_eq_encode_toList, utf8_eq_encode_toList]
      simp only [List.append_assoc]
    rw [htexts, htexts] at h
    have hjoined := List.append_cancel_left (Utf8.encode_injective h)
    have hfree : Free ':' [peerId.toList, jobId.val.toList] := by
      simp [Separated.Free, hpeer, hjob]
    have hparts : [peerId.toList, jobId.val.toList] = [peerId'.toList, jobId'.val.toList] :=
      joined_inj hfree (Eq.refl 2) hjoined.symm
    simp only [List.cons.injEq, String.toList_inj, and_true] at hparts
    exact ⟨hparts.1.symm, JobId.eq_of_val hparts.2.symm⟩
  · rintro ⟨rfl, rfl⟩
    rfl

/-- The bid of a peer for one job does not stand for another. -/
theorem jobBytes_bid : ':' ∉ "peer".toList ∧ ':' ∉ "job-1".toList ∧
    (jobBytes "job_bid:" "peer" ⟨"job-2"⟩ = jobBytes "job_bid:" "peer" ⟨"job-1"⟩ ↔
      "peer" = "peer" ∧ (⟨"job-2"⟩ : JobId) = ⟨"job-1"⟩) :=
  ⟨by decide, by decide, jobBytes_iff (by decide) (by decide)⟩

/-! ## Manifests -/

/-- GPU vendor. -/
inductive GpuVendor
  | nvidia
  | amd
  | apple
  | intel
  | other
  deriving DecidableEq

/-- GPU information. -/
structure GpuInfo where
  vendor : GpuVendor
  vramMb : UInt32
  computeCapability : String
  modelName : String
  deriving DecidableEq

/-- Available resources on a peer. -/
structure Resources where
  cpuCores : UInt16
  cpuAvailableMhz : UInt32
  gpu : Option GpuInfo
  storageAvailableBytes : UInt64
  bandwidthMbps : UInt32
  ramAvailableMb : UInt32
  deriving DecidableEq

/-- Capability flags for a peer. -/
inductive Capability
  | wasmSandbox
  | inference
  | storage
  | relay
  | webProxy
  | llmProvider
  deriving DecidableEq

/-- Resource manifest advertised to the network. -/
structure ResourceManifest where
  peerId : String
  timestamp : UInt64
  signature : List UInt8
  resources : Resources
  capabilities : List Capability
  supportedModels : List String
  uptimeHours : UInt64
  deriving DecidableEq

/-- What `rmp_serde::to_vec` makes of the parts of a manifest; it may fail. -/
structure ManifestToVec where
  resources : Resources → Option (List UInt8)
  capabilities : List Capability → Option (List UInt8)

/-- `u64::to_le_bytes`. -/
def toLeBytes (n : UInt64) : List UInt8 :=
  (List.range 8).map fun i => UInt8.ofNat (n.toNat / 256 ^ i)

/-- `ResourceManifest::signing_bytes`. -/
def ResourceManifest.signingBytes (toVec : ManifestToVec) (m : ResourceManifest) : List UInt8 :=
  utf8 m.peerId ++ toLeBytes m.timestamp ++ (toVec.resources m.resources).getD [] ++
    (toVec.capabilities m.capabilities).getD []

/-! ## What is agreed on -/

/-- The job, the bid, the bidder, the price, the latency and the expiry of two bids are the
same. -/
structure JobBid.Agrees (b b' : JobBid) : Prop where
  jobId : b.jobId = b'.jobId
  id : b.id = b'.id
  bidderId : b.bidderId = b'.bidderId
  price : b.price = b'.price
  estimatedLatencyMs : b.estimatedLatencyMs = b'.estimatedLatencyMs
  expiresAt : b.expiresAt = b'.expiresAt

/-- The job, the resource, the units, the budget and the timeout of two requests are the
same. -/
structure JobRequest.Agrees (r r' : JobRequest) : Prop where
  id : r.id = r'.id
  resourceType : r.resourceType = r'.resourceType
  units : r.units = r'.units
  maxBudget : r.maxBudget = r'.maxBudget
  timeoutSecs : r.timeoutSecs = r'.timeoutSecs

/-- Everything advertised is the same. -/
def ResourceManifest.Agrees (m m' : ResourceManifest) : Prop :=
  { m with signature := [] } = { m' with signature := [] }

/-- The bytes of the bid belong to no bid that disagrees with it. -/
def JobBidMessage.Bound (m : JobBidMessage) : Prop :=
  ∀ m' : JobBidMessage, m'.signableBytes = m.signableBytes → m'.bid.Agrees m.bid

/-- The bytes of the request belong to no request that disagrees with it. -/
def JobRequestMessage.Bound (m : JobRequestMessage) : Prop :=
  ∀ m' : JobRequestMessage, m'.signableBytes = m.signableBytes → m'.request.Agrees m.request

/-- The bytes of the manifest belong to no manifest that disagrees with it. -/
def ResourceManifest.Bound (toVec : ManifestToVec) (m : ResourceManifest) : Prop :=
  ∀ m' : ResourceManifest, m'.signingBytes toVec = m.signingBytes toVec → m'.Agrees m

theorem UInt64.succ_ne (n : UInt64) : n + 1 ≠ n := by simp

/-- **Nothing is bound**: every bid shares its bytes with one at another price, every request
with one with another budget, and every manifest with one with another uptime. -/
theorem nothing_bound (toVec : ManifestToVec) (b : JobBidMessage) (r : JobRequestMessage)
    (m : ResourceManifest) : ¬ b.Bound ∧ ¬ r.Bound ∧ ¬ m.Bound toVec := by
  refine ⟨fun hbound => ?_, fun hbound => ?_, fun hbound => ?_⟩
  · have hagrees := hbound { b with bid := { b.bid with price := b.bid.price + 1 } } rfl
    exact UInt64.succ_ne _ hagrees.price
  · have hagrees :=
      hbound { r with request := { r.request with maxBudget := r.request.maxBudget + 1 } } rfl
    exact UInt64.succ_ne _ hagrees.maxBudget
  · have hagrees := hbound { m with uptimeHours := m.uptimeHours + 1 } rfl
    exact UInt64.succ_ne _ (congrArg ResourceManifest.uptimeHours hagrees)

section Example

private def bidAt (price : UInt64) : JobBidMessage where
  bid := ⟨⟨"bid_1"⟩, ⟨"job-123"⟩, "bob", price, 120, .epoch, .epoch, .pending, 0.5, none⟩
  bidderPeerId := "bob"
  signature := []

/-- **Two prices, one signature.** -/
theorem one_signature_two_prices :
    (bidAt 3000000).signableBytes = (bidAt 1).signableBytes ∧
      ¬ (bidAt 3000000).bid.Agrees (bidAt 1).bid := by
  refine ⟨rfl, fun hagrees => ?_⟩
  have hprice : (3000000 : UInt64) = 1 := hagrees.price
  exact absurd hprice (by decide)

end Example

end PeerClaw
