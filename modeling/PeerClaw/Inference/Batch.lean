import PeerClaw.Lib.Batching

/-!
# Processing a batch of inference requests

`BatchProcessor::run` in `inference/batch.rs`, from the point where it has a
batch: the requests are grouped by model, each group is handed to the inference
function in one call, and what comes back, a list of results keyed by request
id, is distributed over the reply channels.

* `processGroup`, `processBatch` — the code.
* `answer` — what a request should be told: the first result under its own id in
  the answer of the call for its model, or an error that there is none.
* `processBatch_perm` — exactly that is sent, once to each request, for every
  inference function, as long as the ids of the batch differ.
-/

namespace PeerClaw
namespace Inference

open Lib

/-- A request id, 128 bits. -/
abbrev Uuid := BitVec 128

/-- A reply channel, which is the number of the call of `submit` that waits on it. -/
abbrev ReplyTo := ℕ

/-- A single inference request in the batch queue. -/
structure BatchRequest where
  id : Uuid
  /-- Agent id, peer id, or "api". -/
  source : String
  model : String
  prompt : String
  maxTokens : UInt32
  temperature : Float32
  /-- When the request was submitted, in nanoseconds. -/
  submittedAt : ℕ
  /-- Channel to send result back. -/
  resultTx : ReplyTo

/-- What the processor reads of an inference result. -/
structure GenerateResponse where
  text : String
  tokensGenerated : UInt32
  tokensPerSecond : Float

/-- Response from a batched inference request. -/
structure BatchResponse where
  requestId : Uuid
  text : String
  tokensGenerated : UInt32
  tokensPerSecond : Float
  queueTimeMs : UInt64
  inferenceTimeMs : UInt64
  batchSize : ℕ

/-- The errors the queue and the processor report. -/
inductive BatchError
  | queueFull
  | inferenceFailed (message : String)
  | shutdown
  deriving DecidableEq, Repr

/-- What is sent on a reply channel. -/
abbrev Reply := Except BatchError BatchResponse

/-- The input of the inference function for one request. -/
abbrev BatchInput := Uuid × String × UInt32 × Float32

/-- What the inference function makes of a group, result by result, in any order. -/
abbrev Results := List (Uuid × Except String GenerateResponse)

/-- The clock around one call of the inference function: when it began, when it returned, and
when the result at each place of its answer is distributed. -/
structure GroupTimes where
  inferenceStart : ℕ
  inferenceEnd : ℕ
  distributedAt : ℕ → ℕ

/-- What the world contributes to a batch: the inference function, the times, the order in which
hash maps are iterated over, and how an id is displayed. -/
structure World where
  inferenceFn : String → List BatchInput → Results
  times : String → GroupTimes
  modelOrder : IterOrder String (List BatchRequest)
  senderOrder : IterOrder Uuid ReplyTo
  display : Uuid → String

/-- `duration.as_millis() as u64` of the time since an instant. -/
def millisSince (since now : ℕ) : UInt64 := UInt64.ofNat ((now - since) / 1000000)

/-! ## The code -/

/-- The input of the inference function. -/
def batchInput (requests : List BatchRequest) : List BatchInput :=
  requests.map fun req => (req.id, req.prompt, req.maxTokens, req.temperature)

/-- When the request with this id was submitted, as the list of the group has it. -/
def submittedAt (requests : List BatchRequest) (id : Uuid) : Option ℕ :=
  (requests.find? fun req => req.id = id).map BatchRequest.submittedAt

/-- The response to a request, from the result at a place of the answer. -/
def respond (t : GroupTimes) (requests : List BatchRequest) (id : Uuid)
    (result : Except String GenerateResponse × ℕ) : Reply :=
  match result.1 with
  | .ok gen =>
      let submitted := (submittedAt requests id).getD t.inferenceStart
      .ok {
        requestId := id
        text := gen.text
        tokensGenerated := gen.tokensGenerated
        tokensPerSecond := gen.tokensPerSecond
        queueTimeMs := millisSince submitted (t.distributedAt result.2)
        inferenceTimeMs := millisSince t.inferenceStart t.inferenceEnd
        batchSize := requests.length }
  | .error e => .error (.inferenceFailed e)

/-- The error for a request that got no result. -/
def noResult (W : World) (id : Uuid) : Reply :=
  .error (.inferenceFailed ("No result returned for request " ++ W.display id))

/-- The reply channels of a group, by request id. -/
def resultSenders (requests : List BatchRequest) : FiniteMap Uuid ReplyTo :=
  requests.foldl (fun senders req => senders.insert req.id req.resultTx) ∅

/-- The results of a group, each with its place in the answer. -/
def results (W : World) (model : String) (requests : List BatchRequest) :
    List (Uuid × Except String GenerateResponse × ℕ) :=
  (W.inferenceFn model (batchInput requests)).zipIdx.map fun r => (r.1.1, r.1.2, r.2)

/-- Process one model group: run the inference, distribute the results to waiting callers, and
send errors to those that did not get a response. -/
def processGroup (W : World) (model : String) (requests : List BatchRequest) :
    List (ReplyTo × Reply) :=
  let distributed := correlate (results W model requests) (resultSenders requests)
  (distributed.1.map fun m => (m.1, respond (W.times model) requests m.2.1 m.2.2)) ++
    (W.senderOrder.entries distributed.2).map fun e => (e.2, noResult W e.1)

/-- The groups of a batch, in the order of the map. -/
def byModel (W : World) (batch : List BatchRequest) : List (String × List BatchRequest) :=
  W.modelOrder.entries (groupBy BatchRequest.model batch)

/-- Process a batch: everything that is sent, in order. -/
def processBatch (W : World) (batch : List BatchRequest) : List (ReplyTo × Reply) :=
  (byModel W batch).flatMap fun g => processGroup W g.1 g.2

/-! ## What a request should be told -/

/-- The requests of a batch that go to the same call. -/
def groupFor (batch : List BatchRequest) (model : String) : List BatchRequest :=
  batch.filter fun req => req.model = model

/-- The reply to a request of a group, by the first result under its own id. -/
def answer (W : World) (model : String) (requests : List BatchRequest) (req : BatchRequest) :
    Reply :=
  (firstFor (results W model requests) req.id).elim (noResult W req.id)
    (respond (W.times model) requests req.id)

section Batch

variable {W : World} {model : String} {requests batch : List BatchRequest}

/-- **One group.**  Each request is answered once. -/
theorem processGroup_perm (hids : (requests.map BatchRequest.id).Nodup) :
    (processGroup W model requests).Perm
      (requests.map fun req => (req.resultTx, answer W model requests req)) := by
  have hwaiting : Waiting BatchRequest.id BatchRequest.resultTx (resultSenders requests) requests :=
    waiting_foldl BatchRequest.id BatchRequest.resultTx hids
  exact correlate_perm BatchRequest.id BatchRequest.resultTx W.senderOrder
    (respond (W.times model) requests) (noResult W) (results W model requests) hids hwaiting

theorem processGroup_channels (W : World) (model : String)
    (hids : (requests.map BatchRequest.id).Nodup) :
    ((processGroup W model requests).map Prod.fst).Perm
      (requests.map BatchRequest.resultTx) := by
  have hgroup : ((processGroup W model requests).map Prod.fst).Perm _ :=
    (processGroup_perm hids).map Prod.fst
  rwa [List.map_map] at hgroup

theorem mem_byModel {g : String × List BatchRequest} (hg : g ∈ byModel W batch) :
    g.2 = groupFor batch g.1 := by
  have hlook := W.modelOrder.mem_entries.1 hg
  rw [lookup_groupBy, groupOf] at hlook
  split at hlook
  · cases hlook
  · exact (Option.some.inj hlook).symm

/-- **A batch.**  Each request is answered once, from the call for its own model. -/
theorem processBatch_perm (hids : (batch.map BatchRequest.id).Nodup) :
    (processBatch W batch).Perm
      (batch.map fun req => (req.resultTx, answer W req.model (groupFor batch req.model) req)) := by
  have hgroups : (processBatch W batch).Perm ((byModel W batch).flatMap fun g =>
      g.2.map fun req => (req.resultTx, answer W req.model (groupFor batch req.model) req)) := by
    refine List.Perm.flatMap_left _ fun g hg => ?_
    have hgroup := mem_byModel hg
    have hnd : (g.2.map BatchRequest.id).Nodup := by
      rw [hgroup]
      exact hids.sublist (List.filter_sublist.map _)
    refine (processGroup_perm hnd).trans (List.Perm.of_eq ?_)
    refine List.map_congr_left fun req hreq => ?_
    rw [(key_of_mem_group BatchRequest.model W.modelOrder hg hreq).1, hgroup]
  refine hgroups.trans ?_
  rw [← List.map_flatMap]
  exact (groups_perm BatchRequest.model W.modelOrder batch).map _

/-! ## What an answer says -/

theorem submittedAt_eq (hids : (requests.map BatchRequest.id).Nodup) {req : BatchRequest}
    (hreq : req ∈ requests) : submittedAt requests req.id = some req.submittedAt := by
  unfold submittedAt
  induction requests with
  | nil => cases hreq
  | cons r rest ih =>
      obtain ⟨hnot, hnd⟩ := List.nodup_cons.1 hids
      rcases List.mem_cons.1 hreq with rfl | hmem
      · simp
      · have hne : r.id ≠ req.id := fun h => hnot (h ▸ List.mem_map_of_mem hmem)
        simpa [hne] using ih hnd hmem

theorem mem_results {id : Uuid} {r : Except String GenerateResponse} {k : ℕ}
    (h : (id, r, k) ∈ results W model requests) :
    (W.inferenceFn model (batchInput requests))[k]? = some (id, r) := by
  obtain ⟨⟨⟨id', r'⟩, k'⟩, hmem, heq⟩ := List.mem_map.1 h
  obtain ⟨rfl, rfl, rfl⟩ : id' = id ∧ r' = r ∧ k' = k := by simpa using heq
  exact List.mem_zipIdx_iff_getElem?.1 hmem

/-- The response that a result at place `k` of the answer gives to a request. -/
def responseTo (W : World) (batch : List BatchRequest) (req : BatchRequest)
    (gen : GenerateResponse) (k : ℕ) : BatchResponse where
  requestId := req.id
  text := gen.text
  tokensGenerated := gen.tokensGenerated
  tokensPerSecond := gen.tokensPerSecond
  queueTimeMs := millisSince req.submittedAt ((W.times req.model).distributedAt k)
  inferenceTimeMs := millisSince (W.times req.model).inferenceStart (W.times req.model).inferenceEnd
  batchSize := (groupFor batch req.model).length

/-- The answer of the inference function to the call that a request is part of. -/
def answersFor (W : World) (batch : List BatchRequest) (req : BatchRequest) : Results :=
  W.inferenceFn req.model (batchInput (groupFor batch req.model))

/-- The reply is made from the result at place `k` of the answer to the request's call, and that
result is under the request's own id. -/
def MadeFrom (W : World) (batch : List BatchRequest) (req : BatchRequest) (reply : Reply) (k : ℕ) :
    Prop :=
  (∃ gen, (answersFor W batch req)[k]? = some (req.id, .ok gen) ∧
    reply = .ok (responseTo W batch req gen k)) ∨
  (∃ e, (answersFor W batch req)[k]? = some (req.id, .error e) ∧
    reply = .error (.inferenceFailed e))

/-- There is no result under the request's id, and the reply is an error that says so. -/
def Unanswered (W : World) (batch : List BatchRequest) (req : BatchRequest) (reply : Reply) : Prop :=
  (∀ r, (req.id, r) ∉ answersFor W batch req) ∧ reply = noResult W req.id

/-- **An answer is a result under the request's own id, or an error.** -/
theorem answer_cases (hids : (batch.map BatchRequest.id).Nodup) {req : BatchRequest}
    (hreq : req ∈ batch) :
    (∃ k, MadeFrom W batch req (answer W req.model (groupFor batch req.model) req) k) ∨
      Unanswered W batch req (answer W req.model (groupFor batch req.model) req) := by
  have hnd : ((groupFor batch req.model).map BatchRequest.id).Nodup :=
    hids.sublist (List.filter_sublist.map _)
  have hmem : req ∈ groupFor batch req.model := List.mem_filter.2 ⟨hreq, by simp⟩
  unfold answer
  cases hfirst : firstFor (results W req.model (groupFor batch req.model)) req.id with
  | none =>
      refine .inr ⟨?_, rfl⟩
      intro r hr
      obtain ⟨k, hk⟩ := List.mem_iff_getElem?.1 hr
      have hlisted : (req.id, r, k) ∈ results W req.model (groupFor batch req.model) :=
        List.mem_map.2 ⟨((req.id, r), k), List.mem_zipIdx_iff_getElem?.2 hk, rfl⟩
      simp only [firstFor, Option.map_eq_none_iff, List.find?_eq_none] at hfirst
      exact hfirst _ hlisted (by simp)
  | some r =>
      obtain ⟨result, k⟩ := r
      have hplace := mem_results (mem_of_firstFor hfirst)
      refine .inl ⟨k, ?_⟩
      cases result with
      | error e => exact .inr ⟨e, hplace, rfl⟩
      | ok gen =>
          refine .inl ⟨gen, hplace, ?_⟩
          simp only [Option.elim_some, respond, submittedAt_eq hnd hmem, Option.getD_some, responseTo]

end Batch

end Inference
end PeerClaw
