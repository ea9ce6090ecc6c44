import PeerClaw.Wallet.State

/-!
# Jobs: their data

The types of `job/request.rs`, `job/bid.rs` and `job/execution.rs`, and the
resources of `job/pricing.rs` that a request can ask for.  A job is a request
whose bid was accepted; its identifier is the request's, and the escrow that
pays for it is known by its identifier alone.

Scores and reputations are `f64` numbers, and stay such: nothing proved here
depends on what they are.
-/

namespace PeerClaw

open Lib

/-! ## Requests -/

/-- Unique identifier for a job. -/
structure JobId where
  val : String
  deriving DecidableEq, Repr

theorem JobId.eq_of_val {i j : JobId} (h : i.val = j.val) : i = j := by
  cases i
  cases j
  cases h
  rfl

/-- Storage operation type. -/
inductive StorageOperation
  | read
  | write
  deriving DecidableEq, Repr

/-- Types of resources that can be requested or offered. -/
inductive ResourceType
  | inference (model : String) (tokens : UInt32)
  | embedding (model : String) (tokens : UInt32)
  | imageGeneration (model : String) (count : UInt32)
  | cpu (cores : UInt16) (durationSecs : UInt64)
  | gpu (vramMb : UInt32) (durationSecs : UInt64)
  | storage (operation : StorageOperation) (bytes : UInt64)
  | webFetch (urlCount : UInt32)
  | vectorSearch (queryCount : UInt32)
  | wasmTool (toolName : String) (invocations : UInt32)
  deriving DecidableEq, Repr

/-- Requirements for job execution. -/
structure JobRequirements where
  maxLatencyMs : Option UInt32
  minReputation : Option Float
  capabilities : List String
  preferredPeers : List String
  excludedPeers : List String

/-- `JobRequirements::default`: untrusted peers are excluded. -/
def JobRequirements.default : JobRequirements := ⟨none, some 0.3, [], [], []⟩

/-- A request for resources from an agent. -/
structure JobRequest where
  id : JobId
  resourceType : ResourceType
  /-- What is counted depends on the resource. -/
  units : UInt32
  /-- Maximum budget, in μPCLAW. -/
  maxBudget : UInt64
  requirements : JobRequirements
  timeoutSecs : UInt64
  createdAt : DateTime
  /-- No more bids are accepted after this instant. -/
  expiresAt : DateTime
  requesterId : String
  /-- A prompt for inference, say. -/
  payload : Option (List UInt8)

namespace JobRequest

/-- `JobRequest::extract_units`. -/
def extractUnits : ResourceType → UInt32
  | .inference _ tokens => tokens
  | .embedding _ tokens => tokens
  | .imageGeneration _ count => count
  | .cpu cores durationSecs => (cores.toUInt64 * durationSecs).toUInt32
  | .gpu _ durationSecs => durationSecs.toUInt32
  | .storage _ bytes => (bytes / 1024).toUInt32
  | .webFetch urlCount => urlCount
  | .vectorSearch queryCount => queryCount
  | .wasmTool _ invocations => invocations

/-- `JobRequest::new` at the instant `now` and with the fresh id `id`; the window
for bids is a minute, and `none` is the panic when it ends out of range. -/
def new (now : DateTime) (id : JobId) (resourceType : ResourceType)
    (maxBudget timeoutSecs : UInt64) : Option JobRequest := do
  let window ← durationSeconds 60
  let expiresAt ← now.plus window
  return {
    id := id
    resourceType := resourceType
    units := extractUnits resourceType
    maxBudget := maxBudget
    requirements := .default
    timeoutSecs := timeoutSecs
    createdAt := now
    expiresAt := expiresAt
    requesterId := ""
    payload := none }

/-- `JobRequest::with_payload`. -/
def withPayload (r : JobRequest) (payload : List UInt8) : JobRequest :=
  { r with payload := some payload }

end JobRequest

/-! ## Bids -/

/-- Unique identifier for a bid. -/
structure BidId where
  val : String
  deriving DecidableEq, Repr

/-- Status of a bid. -/
inductive BidStatus
  | pending
  | accepted
  | rejected
  | expired
  | withdrawn
  deriving DecidableEq, Repr

/-- A bid from a peer to fulfill a job request. -/
structure JobBid where
  id : BidId
  /-- The job being bid on. -/
  jobId : JobId
  bidderId : String
  /-- Offered price, in μPCLAW. -/
  price : UInt64
  estimatedLatencyMs : UInt32
  createdAt : DateTime
  expiresAt : DateTime
  status : BidStatus
  /-- The bidder's reputation at the time of the bid. -/
  reputation : Float
  message : Option String

namespace JobBid

/-- `JobBid::is_expired`. -/
def isExpired (b : JobBid) (now : DateTime) : Bool := decide (b.expiresAt < now)

/-- `JobBid::is_valid`. -/
def isValid (b : JobBid) (now : DateTime) : Bool := decide (b.status = .pending) && !b.isExpired now

/-- `JobBid::score`: the higher, the better.  Latency counts only when it is
within what is asked for. -/
def score (b : JobBid) (maxLatencyMs : Option UInt32) : Float :=
  let latency := b.estimatedLatencyMs.toFloat
  let score := 0.0 + b.reputation * 40.0
  let score := match maxLatencyMs with
    | some maxLat =>
        if b.estimatedLatencyMs ≤ maxLat then score + (1.0 - latency / maxLat.toFloat) * 30.0
        else score
    | none => score + if 1000.0 / latency < 30.0 then 1000.0 / latency else 30.0
  score + 30.0 / (1.0 + b.price.toFloat / 1000000.0)

/-- `partial_cmp` of two scores; what cannot be compared counts as equal. -/
def compareScores (x y : Float) : Ordering := if x < y then .lt else if y < x then .gt else .eq

/-- Two bids by their scores. -/
def compareBids (maxLatencyMs : Option UInt32) (a b : JobBid) : Ordering :=
  compareScores (a.score maxLatencyMs) (b.score maxLatencyMs)

end JobBid

/-- `Iterator::max_by`: of several greatest elements, the last. -/
def maxBy {α : Type} (compare : α → α → Ordering) : List α → Option α
  | [] => none
  | a :: as => some (as.foldl (fun best b => if compare best b = .gt then best else b) a)

/-- `select_best_bid` of `job/bid.rs`, at the instant `now`. -/
def selectBestBid (now : DateTime) (bids : List JobBid) (maxLatencyMs : Option UInt32) :
    Option JobBid :=
  maxBy (JobBid.compareBids maxLatencyMs)
    ((bids.filter fun b => b.isValid now).filter fun b =>
      maxLatencyMs.all fun maxLat => decide (b.estimatedLatencyMs ≤ maxLat))

theorem mem_of_maxBy {α : Type} {compare : α → α → Ordering} {as : List α} {a : α}
    (h : maxBy compare as = some a) : a ∈ as := by
  cases as with
  | nil => cases h
  | cons b bs =>
      obtain rfl := Option.some.inj h
      clear h
      induction bs generalizing b with
      | nil => simp
      | cons c cs ih =>
          rw [List.foldl_cons]
          by_cases hgt : compare b c = .gt
          · rw [if_pos hgt]
            rcases List.mem_cons.1 (ih b) with hb | hcs
            · rw [hb]
              simp
            · simp [hcs]
          · rw [if_neg hgt]
            exact List.mem_cons_of_mem b (ih c)

/-- The bid that is selected is one of the list, and was valid when selected. -/
theorem selectBestBid_some {now : DateTime} {bids : List JobBid} {maxLatencyMs : Option UInt32}
    {b : JobBid} (h : selectBestBid now bids maxLatencyMs = some b) :
    b ∈ bids ∧ b.isValid now := by
  have hmem := (List.mem_filter.1 (mem_of_maxBy h)).1
  exact List.mem_filter.1 hmem

/-! ## Jobs -/

/-- Status of a job. -/
inductive JobStatus
  /-- Created, bid accepted, awaiting execution. -/
  | pending
  /-- Being executed. -/
  | inProgress
  /-- Result submitted, awaiting verification. -/
  | pendingVerification
  /-- Completed successfully. -/
  | completed
  | failed
  | timedOut
  | cancelled
  deriving DecidableEq, Repr

/-- Actual resource usage during job execution. -/
structure ActualUsage where
  /-- Tokens processed, for inference and embedding. -/
  tokens : Option UInt32
  computeTimeMs : Option UInt64
  bytes : Option UInt64
  deriving DecidableEq

/-- Execution performance metrics. -/
structure ExecutionMetrics where
  /-- Time to the first byte. -/
  ttfbMs : UInt64
  totalTimeMs : UInt64
  /-- For inference. -/
  tokensPerSec : Option Float

/-- Result of a completed job. -/
structure JobResult where
  /-- What it means depends on the kind of job. -/
  data : List UInt8
  /-- A hash of the data. -/
  hash : String
  actualUsage : ActualUsage
  metrics : ExecutionMetrics

/-- An active job being executed. -/
structure Job where
  /-- The same as the id of the request. -/
  id : JobId
  request : JobRequest
  /-- The winning bid. -/
  bid : JobBid
  /-- The escrow that holds the payment. -/
  escrowId : EscrowId
  status : JobStatus
  /-- When the bid was accepted. -/
  createdAt : DateTime
  startedAt : Option DateTime
  completedAt : Option DateTime
  result : Option JobResult
  error : Option String
  verificationAttempts : UInt32

/-- `Job::new` at the instant `now`. -/
def Job.new (now : DateTime) (request : JobRequest) (bid : JobBid) (escrowId : EscrowId) : Job where
  id := request.id
  request := request
  bid := bid
  escrowId := escrowId
  status := .pending
  createdAt := now
  startedAt := none
  completedAt := none
  result := none
  error := none
  verificationAttempts := 0

/-- Why an operation on jobs fails. -/
inductive JobError
  | notFound (id : JobId)
  | bidNotFound (id : BidId)
  | bidExpired
  | wallet (e : WalletError)
  deriving DecidableEq, Repr

end PeerClaw
