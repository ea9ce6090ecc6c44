import PeerClaw.Job.State
import PeerClaw.Lib.Boundary

/-!
# The list of jobs

The serve loop lists the jobs for the web interface: the requests that wait for bids, the
jobs being executed, and the recent ones.  Of the ids of other peers it shows the last
eight bytes.

* `jobList` — the list; there is none where an id is cut inside a character.
* `isSome_jobList_iff` — when there is one.
-/

namespace PeerClaw

open Lib

/-- What a storage operation is printed as. -/
def StorageOperation.debug : StorageOperation → String
  | .read => "Read"
  | .write => "Write"

/-- What a `ResourceType` is displayed as. -/
def ResourceType.display : ResourceType → String
  | .inference model tokens => s!"Inference: {model} ({tokens} tokens)"
  | .embedding model tokens => s!"Embedding: {model} ({tokens} tokens)"
  | .imageGeneration model count => s!"ImageGen: {model} ({count} images)"
  | .cpu cores durationSecs => s!"CPU: {cores} cores for {durationSecs}s"
  | .gpu vramMb durationSecs => s!"GPU: {vramMb}MB VRAM for {durationSecs}s"
  | .storage operation bytes => "Storage " ++ operation.debug ++ s!": {bytes} bytes"
  | .webFetch urlCount => s!"WebFetch: {urlCount} URLs"
  | .vectorSearch queryCount => s!"VectorSearch: {queryCount} queries"
  | .wasmTool toolName invocations => s!"WASM {toolName}: {invocations} invocations"

/-- What a `JobStatus` is displayed as. -/
def JobStatus.display : JobStatus → String
  | .pending => "Pending"
  | .inProgress => "In Progress"
  | .pendingVerification => "Pending Verification"
  | .completed => "Completed"
  | .failed => "Failed"
  | .timedOut => "Timed Out"
  | .cancelled => "Cancelled"

/-- A job as the web interface shows it. -/
structure WebJobInfo where
  id : String
  jobType : String
  status : String
  provider : Option String
  requester : String
  priceMicro : UInt64
  createdAt : UInt64
  location : Option String
  deriving DecidableEq

/-- The last eight bytes of an id, after three dots; cutting inside a character panics. -/
def lastEight (id : String) : Option String :=
  (Text.dropBytes (Text.byteLen id.toList - 8) id.toList).map fun rest =>
    "..." ++ String.ofList rest

/-- A request that waits for bids. -/
def pendingInfo (bidsCount : JobId → ℕ) (req : JobRequest) : Option WebJobInfo :=
  (if 8 < Text.byteLen req.requesterId.toList then lastEight req.requesterId
    else some req.requesterId).map fun requester =>
    { id := req.id.val
      jobType := req.resourceType.display
      status := s!"Pending ({bidsCount req.id} bids)"
      provider := none
      requester := requester
      priceMicro := req.maxBudget
      createdAt := req.createdAt.unixSecs
      location := some "Awaiting bids" }

/-- A job that is executed or was. -/
def jobInfo (job : Job) : Option WebJobInfo :=
  (lastEight job.bid.bidderId).bind fun provider =>
    (lastEight job.request.requesterId).map fun requester =>
      { id := job.id.val
        jobType := job.request.resourceType.display
        status := job.status.display
        provider := some provider
        requester := requester
        priceMicro := job.bid.price
        createdAt := job.createdAt.unixSecs
        location := some "Network" }

/-- The list of jobs. -/
def jobList (bidsCount : JobId → ℕ) (pending : List JobRequest) (active completed : List Job) :
    Option (List WebJobInfo) :=
  (pending.mapM (pendingInfo bidsCount)).bind fun pending =>
    (active.mapM jobInfo).bind fun active =>
      (completed.mapM jobInfo).map fun completed => pending ++ active ++ completed

/-- An id has at most eight bytes, or its last eight are whole characters. -/
def EndsInEight (id : String) : Prop :=
  Text.byteLen id.toList ≤ 8 ∨ Text.IsBoundary (Text.byteLen id.toList - 8) id.toList

theorem isSome_lastEight_iff (id : String) : (lastEight id).isSome ↔ EndsInEight id := by
  rw [lastEight, Option.isSome_map, Text.isSome_dropBytes_iff, EndsInEight]
  constructor
  · exact .inr
  · rintro (hshort | hboundary)
    · rw [Nat.sub_eq_zero_of_le hshort]
      exact Text.isBoundary_zero _
    · exact hboundary

theorem isSome_pendingInfo_iff (bidsCount : JobId → ℕ) (req : JobRequest) :
    (pendingInfo bidsCount req).isSome ↔ EndsInEight req.requesterId := by
  rw [pendingInfo, Option.isSome_map]
  split
  · exact isSome_lastEight_iff _
  · rename_i hshort
    exact iff_of_true rfl (.inl (not_lt.1 hshort))

theorem isSome_jobInfo_iff (job : Job) :
    (jobInfo job).isSome ↔ EndsInEight job.bid.bidderId ∧ EndsInEight job.request.requesterId := by
  rw [← isSome_lastEight_iff, ← isSome_lastEight_iff, jobInfo]
  cases lastEight job.bid.bidderId with
  | none => simp
  | some provider => simp

/-- The ids that the list of jobs shows. -/
def shownIds (pending : List JobRequest) (jobs : List Job) : List String :=
  pending.map JobRequest.requesterId ++
    jobs.flatMap fun job => [job.bid.bidderId, job.request.requesterId]

/-- **When the jobs can be listed.** -/
theorem isSome_jobList_iff (bidsCount : JobId → ℕ) (pending : List JobRequest)
    (active completed : List Job) :
    (jobList bidsCount pending active completed).isSome ↔
      ∀ id ∈ shownIds pending (active ++ completed), EndsInEight id := by
  have hlist : (jobList bidsCount pending active completed).isSome ↔
      (pending.mapM (pendingInfo bidsCount)).isSome ∧ (active.mapM jobInfo).isSome ∧
        (completed.mapM jobInfo).isSome := by
    unfold jobList
    cases pending.mapM (pendingInfo bidsCount) with
    | none => simp
    | some infos => cases active.mapM jobInfo <;> simp
  rw [hlist, isSome_mapM_iff, isSome_mapM_iff, isSome_mapM_iff]
  simp only [isSome_pendingInfo_iff, isSome_jobInfo_iff, shownIds, List.mem_append, List.mem_map,
    List.mem_flatMap, List.mem_cons, List.not_mem_nil, or_false]
  constructor
  · rintro ⟨hpending, hactive, hcompleted⟩ id (⟨req, hreq, rfl⟩ | ⟨job, hjob | hjob, rfl | rfl⟩)
    · exact hpending req hreq
    · exact (hactive job hjob).1
    · exact (hactive job hjob).2
    · exact (hcompleted job hjob).1
    · exact (hcompleted job hjob).2
  · intro h
    refine ⟨fun req hreq => h _ (.inl ⟨req, hreq, rfl⟩), ?_, ?_⟩
    · exact fun job hjob => ⟨h _ (.inr ⟨job, .inl hjob, .inl rfl⟩),
        h _ (.inr ⟨job, .inl hjob, .inr rfl⟩)⟩
    · exact fun job hjob => ⟨h _ (.inr ⟨job, .inr hjob, .inl rfl⟩),
        h _ (.inr ⟨job, .inr hjob, .inr rfl⟩)⟩

end PeerClaw
