import PeerClaw.Executor.Remote
import PeerClaw.Lib.Utf8

/-!
# The payload of an offloaded task

A task is offloaded as a job request: `task_to_request` turns it into a resource
and a payload, and `execute_provider_job` turns these into a task again.  The
payload has two writers — `RemoteExecutor` writes the whole task in MessagePack,
and `handle_job_submit` the text the user typed — and one reader, which takes it
for a text.

* `offloaded_never_agrees` — no inference or fetch that `RemoteExecutor` offloads
  is the one that the provider executes: the prompt, or the URL, is the
  MessagePack of the whole task.
* `submitted_executed` — what `handle_job_submit` writes is read
  as it was typed.

MessagePack is a library's.  What is used of it is that it writes every text of a
task with its length before it, so that the payload is longer than the text
(`WritesTexts`).
-/

namespace PeerClaw

open Lib

/-! ## Tasks -/

/-- Who says a message of a chat. -/
inductive MessageRole
  | system
  | user
  | assistant
  deriving DecidableEq, Repr

/-- A chat message. -/
structure ChatMessage where
  role : MessageRole
  content : String
  deriving DecidableEq, Repr

/-- `ChatMessage::user`. -/
def ChatMessage.user (content : String) : ChatMessage := ⟨.user, content⟩

/-- LLM inference task. -/
structure InferenceTask where
  model : String
  messages : List ChatMessage
  maxTokens : UInt32
  temperature : Float32
  stopSequences : List String
  stream : Bool

/-- `InferenceTask::new`. -/
def InferenceTask.new (model prompt : String) : InferenceTask where
  model := model
  messages := [.user prompt]
  maxTokens := 1024
  temperature := 0.7
  stopSequences := []
  stream := false

/-- `InferenceTask::with_max_tokens`. -/
def InferenceTask.withMaxTokens (t : InferenceTask) (maxTokens : UInt32) : InferenceTask :=
  { t with maxTokens := maxTokens }

inductive HttpMethod
  | get
  | post
  | put
  | delete
  | patch
  | head
  deriving DecidableEq, Repr

/-- HTTP fetch task. -/
structure WebFetchTask where
  url : String
  method : HttpMethod
  headers : List (String × String)
  body : Option (List UInt8)
  timeoutSecs : UInt32
  deriving DecidableEq

/-- `WebFetchTask::get`. -/
def WebFetchTask.get (url : String) : WebFetchTask where
  url := url
  method := .get
  headers := []
  body := none
  timeoutSecs := 30

inductive SearchEngine
  | default
  | google
  | bing
  | duckDuckGo
  deriving DecidableEq, Repr

/-- Web search task. -/
structure WebSearchTask where
  query : String
  maxResults : UInt32
  engine : SearchEngine
  deriving DecidableEq

/-- A JSON value. -/
inductive Json
  | null
  | bool (b : Bool)
  | number (x : Float)
  | string (s : String)
  | array (values : List Json)
  | object (fields : List (String × Json))

/-- Capabilities that can be granted to WASM tools. -/
structure WasmCapabilities where
  networkAccess : Bool
  filesystemRead : Bool
  filesystemWrite : Bool
  allowedHosts : List String
  deriving DecidableEq

/-- WASM tool execution task. -/
structure WasmTask where
  toolHash : String
  function : String
  params : Json
  capabilities : WasmCapabilities
  timeoutSecs : UInt32
  maxFuel : UInt64

/-- A task that can be executed locally or remotely. -/
inductive ExecutionTask
  | inference (t : InferenceTask)
  | webFetch (t : WebFetchTask)
  | webSearch (t : WebSearchTask)
  | wasmExecution (t : WasmTask)

/-! ## The requester's side -/

/-- `to_micro`. -/
def toMicro (pclaw : Float) : UInt64 := (pclaw * 1000000.0).toUInt64

/-- `rmp_serde::to_vec`. -/
abbrev ToVec := ExecutionTask → Except String (List UInt8)

namespace RemoteExecutor

/-- The resource that a task asks for, its budget and its timeout. -/
def resourcesOf : ExecutionTask → ResourceType × UInt64 × UInt64
  | .inference t => (.inference t.model t.maxTokens, toMicro 10.0, 300)
  | .webFetch t => (.webFetch 1, toMicro 1.0, t.timeoutSecs.toUInt64)
  | .webSearch _ => (.webFetch 10, toMicro 2.0, 60)
  | .wasmExecution t => (.wasmTool t.toolHash 1, toMicro 5.0, t.timeoutSecs.toUInt64)

/-- `RemoteExecutor::task_to_request` at the instant `now` and with the fresh id `id`. -/
def taskToRequest (toVec : ToVec) (now : DateTime) (id : JobId) (task : ExecutionTask) :
    Outcome ExecutorError JobRequest :=
  let (resourceType, maxBudget, timeoutSecs) := resourcesOf task
  match JobRequest.new now id resourceType maxBudget timeoutSecs with
  | none => .panic
  | some request =>
      match toVec task with
      | .error e => .err (.inferenceError e)
      | .ok payload => .ok (request.withPayload payload)

end RemoteExecutor

/-- What `handle_job_submit` asks for, by the type of the job. -/
def submittedResource (jobType payload : String) : Option ResourceType :=
  match jobType with
  | "inference" => some (.inference "llama-3.2-3b" 500)
  | "web_fetch" => some (.webFetch 1)
  | "wasm" => some (.wasmTool payload 1)
  | "compute" => some (.cpu 1 300)
  | "storage" => some (.storage .read (UInt64.ofNat (utf8 payload).length))
  | _ => none

/-- The request of `handle_job_submit`; a job type that is not known is an error. -/
def handleJobSubmit (now : DateTime) (id : JobId) (localPeerId jobType : String) (budget : Float)
    (payload : String) : Outcome String JobRequest :=
  match submittedResource jobType payload with
  | none => .err ("Unknown job type: " ++ jobType)
  | some resourceType =>
      match JobRequest.new now id resourceType (toMicro budget) 300 with
      | none => .panic
      | some request =>
          .ok ({ request with requesterId := localPeerId }.withPayload (utf8 payload))

/-! ## The provider's side -/

/-- `String::from_utf8_lossy`. -/
def fromUtf8Lossy (bytes : List UInt8) : String := String.ofList (Utf8.decodeLossy bytes)

/-- The task that `execute_provider_job` executes for a request; `none` where the resource is
not supported. -/
def executeProviderJob (request : JobRequest) : Option ExecutionTask :=
  let payload := request.payload.getD []
  match request.resourceType with
  | .inference model tokens =>
      let text := fromUtf8Lossy payload
      let prompt := if text.isEmpty then "Hello" else text
      some (.inference ((InferenceTask.new model prompt).withMaxTokens tokens))
  | .webFetch _ => some (.webFetch (.get (fromUtf8Lossy payload)))
  | _ => none

/-! ## What the two sides should agree on -/

/-- The second task asks for what the first does: the same model, messages and token limit,
or the same URL. -/
def Agrees : ExecutionTask → ExecutionTask → Prop
  | .inference t, .inference u =>
      u.model = t.model ∧ u.messages = t.messages ∧ u.maxTokens = t.maxTokens
  | .webFetch t, .webFetch u => u.url = t.url
  | _, _ => False

/-- The task is an inference or a fetch. -/
def ExecutionTask.InferenceOrFetch : ExecutionTask → Prop
  | .inference _ | .webFetch _ => True
  | _ => False

/-- The texts of an inference or a fetch. -/
def ExecutionTask.texts : ExecutionTask → List String
  | .inference t => t.model :: t.messages.map ChatMessage.content ++ t.stopSequences
  | .webFetch t => t.url :: t.headers.flatMap fun h => [h.1, h.2]
  | _ => []

/-- MessagePack writes every text with its length before it. -/
def WritesTexts (toVec : ToVec) : Prop :=
  ∀ task bytes, toVec task = .ok bytes → ∀ s ∈ task.texts, MessagePack.text (utf8 s) <:+: bytes

/-! ## Reading a payload as a text -/

section Lossy

variable {bytes : List UInt8} {s : String}

theorem utf8_fromUtf8Lossy (bytes : List UInt8) :
    utf8 (fromUtf8Lossy bytes) = Utf8.encode (Utf8.decodeLossy bytes) :=
  utf8_eq_encode _

/-- **A text is read as it was written.** -/
theorem fromUtf8Lossy_utf8 (s : String) : fromUtf8Lossy (utf8 s) = s := by
  have hencode : utf8 s = Utf8.encode s.toList := by
    rw [← utf8_eq_encode, String.ofList_toList]
  rw [hencode, fromUtf8Lossy, Utf8.decodeLossy_encode, String.ofList_toList]

theorem length_le_fromUtf8Lossy (bytes : List UInt8) :
    bytes.length ≤ (utf8 (fromUtf8Lossy bytes)).length := by
  rw [utf8_fromUtf8Lossy]
  exact Utf8.length_le_encode_decodeLossy bytes

/-- **What holds a text in MessagePack** is not read as that text: it is too long. -/
theorem fromUtf8Lossy_ne (h : MessagePack.text (utf8 s) <:+: bytes) : fromUtf8Lossy bytes ≠ s := by
  rintro rfl
  have hread := length_le_fromUtf8Lossy bytes
  have hheader := MessagePack.length_lt_text (utf8 (fromUtf8Lossy bytes))
  have hlength := h.length_le
  omega

theorem fromUtf8Lossy_not_empty (h : MessagePack.text (utf8 s) <:+: bytes) :
    (fromUtf8Lossy bytes).isEmpty = false := by
  refine Bool.eq_false_iff.2 fun hempty => ?_
  have hread := length_le_fromUtf8Lossy bytes
  rw [String.isEmpty_iff.1 hempty] at hread
  have hheader := MessagePack.length_lt_text (utf8 s)
  have hlength := h.length_le
  have hnothing : (utf8 "").length = 0 := by decide
  omega

end Lossy

/-! ## The two writers and the reader -/

section Writers

variable {toVec : ToVec} {now : DateTime} {id : JobId} {task : ExecutionTask} {request : JobRequest}

theorem JobRequest.new_resource {resourceType : ResourceType} {maxBudget timeoutSecs : UInt64}
    (h : JobRequest.new now id resourceType maxBudget timeoutSecs = some request) :
    request.resourceType = resourceType := by
  unfold JobRequest.new at h
  simp only [Option.bind_eq_bind, Option.bind_eq_some_iff, Option.pure_def, Option.some.injEq] at h
  obtain ⟨_, -, _, -, rfl⟩ := h
  rfl

/-- A request that `task_to_request` returns has the task's resource, and its MessagePack. -/
theorem taskToRequest_ok (h : RemoteExecutor.taskToRequest toVec now id task = .ok request) :
    ∃ payload, toVec task = .ok payload ∧ request.payload = some payload ∧
      request.resourceType = (RemoteExecutor.resourcesOf task).1 := by
  unfold RemoteExecutor.taskToRequest at h
  dsimp only at h
  cases hnew : JobRequest.new now id (RemoteExecutor.resourcesOf task).1
      (RemoteExecutor.resourcesOf task).2.1 (RemoteExecutor.resourcesOf task).2.2 with
  | none =>
      rw [hnew] at h
      cases h
  | some fresh =>
      rw [hnew] at h
      cases hvec : toVec task with
      | error e =>
          rw [hvec] at h
          cases h
      | ok payload =>
          rw [hvec] at h
          obtain rfl := Outcome.ok.inj h
          have hresource := JobRequest.new_resource hnew
          exact ⟨payload, rfl, rfl, hresource⟩

/-- **No inference or fetch that is offloaded is the one executed**, however the task is
serialized, as long as its texts are written in MessagePack. -/
theorem offloaded_never_agrees (hwrites : WritesTexts toVec) (hkind : task.InferenceOrFetch)
    (hrequest : RemoteExecutor.taskToRequest toVec now id task = .ok request) :
    ∃ executed, executeProviderJob request = some executed ∧ ¬ Agrees task executed := by
  obtain ⟨payload, hvec, hpayload, hresource⟩ := taskToRequest_ok hrequest
  have htexts := hwrites task payload hvec
  unfold executeProviderJob
  rw [hpayload, hresource]
  cases task with
  | inference t =>
      refine ⟨_, rfl, ?_⟩
      have hmodel : MessagePack.text (utf8 t.model) <:+: payload :=
        htexts t.model (List.mem_cons_self ..)
      rintro ⟨-, hmessages, -⟩
      have hprompt : [ChatMessage.user (fromUtf8Lossy payload)] = t.messages := by
        rw [← hmessages]
        simp [InferenceTask.withMaxTokens, InferenceTask.new, fromUtf8Lossy_not_empty hmodel]
      refine fromUtf8Lossy_ne (htexts (fromUtf8Lossy payload) ?_) rfl
      simp [ExecutionTask.texts, ← hprompt, ChatMessage.user]
  | webFetch t =>
      refine ⟨_, rfl, ?_⟩
      exact fromUtf8Lossy_ne (htexts t.url (List.mem_cons_self ..))
  | webSearch t => exact hkind.elim
  | wasmExecution t => exact hkind.elim

theorem handleJobSubmit_ok {localPeerId jobType payload : String} {budget : Float}
    (h : handleJobSubmit now id localPeerId jobType budget payload = .ok request) :
    request.payload = some (utf8 payload) ∧
      submittedResource jobType payload = some request.resourceType := by
  unfold handleJobSubmit at h
  cases hresource : submittedResource jobType payload with
  | none =>
      rw [hresource] at h
      cases h
  | some resourceType =>
      rw [hresource] at h
      dsimp only at h
      cases hnew : JobRequest.new now id resourceType (toMicro budget) 300 with
      | none =>
          rw [hnew] at h
          cases h
      | some fresh =>
          rw [hnew] at h
          obtain rfl := Outcome.ok.inj h
          exact ⟨rfl, congrArg some (JobRequest.new_resource hnew).symm⟩

/-- **What is submitted is what is executed**: the provider of an inference or a fetch that was
typed gets the prompt or the URL back from its bytes; it executes no other jobs. -/
theorem submitted_executed {localPeerId jobType payload : String} {budget : Float}
    (h : handleJobSubmit now id localPeerId jobType budget payload = .ok request) :
    executeProviderJob request =
      if jobType = "inference" then
        some (.inference ((InferenceTask.new "llama-3.2-3b"
          (if payload = "" then "Hello" else payload)).withMaxTokens 500))
      else if jobType = "web_fetch" then some (.webFetch (.get payload))
      else none := by
  obtain ⟨hbytes, hresource⟩ := handleJobSubmit_ok h
  have htext : fromUtf8Lossy (request.payload.getD []) = payload := by
    rw [hbytes, Option.getD_some, fromUtf8Lossy_utf8]
  unfold executeProviderJob
  dsimp only
  rw [htext]
  unfold submittedResource at hresource
  split at hresource
  · rw [← Option.some.inj hresource]
    simp [String.isEmpty_iff]
  · rw [← Option.some.inj hresource]
    simp
  · rw [← Option.some.inj hresource]
    simp
  · rw [← Option.some.inj hresource]
    simp
  · rw [← Option.some.inj hresource]
    simp
  · cases hresource

/-- A prompt that was typed, with a character of two bytes. -/
theorem submitted_cafe : ∃ request,
    handleJobSubmit .epoch ⟨"job"⟩ "peer" "inference" 5 "café" = .ok request ∧
      executeProviderJob request =
        some (.inference ((InferenceTask.new "llama-3.2-3b" "café").withMaxTokens 500)) := by
  have hsome : ∃ request, handleJobSubmit .epoch ⟨"job"⟩ "peer" "inference" 5 "café" =
      .ok request := ⟨_, rfl⟩
  obtain ⟨request, hrequest⟩ := hsome
  exact ⟨request, hrequest, by simpa using submitted_executed hrequest⟩

end Writers

section Example

open RemoteExecutor.Sample MessagePack

private def roleName : MessageRole → String
  | .system => "system"
  | .user => "user"
  | .assistant => "assistant"

private def methodName : HttpMethod → String
  | .get => "GET"
  | .post => "POST"
  | .put => "PUT"
  | .delete => "DELETE"
  | .patch => "PATCH"
  | .head => "HEAD"

private def bodyBytes : Option (List UInt8) → List UInt8
  | none => nil
  | some body => array (body.map fun b => uint b.toNat)

/-- An inference or a fetch in MessagePack: structures are arrays, and a variant is a map
from its name. -/
private def taskBytes : ToVec
  | .inference t => .ok (entry (str "Inference") (array [str t.model,
      array (t.messages.map fun m => array [str (roleName m.role), str m.content]),
      uint t.maxTokens.toNat, float32 t.temperature.toBits, array (t.stopSequences.map str),
      bool t.stream]))
  | .webFetch t => .ok (entry (str "WebFetch") (array [str t.url, str (methodName t.method),
      array (t.headers.map fun h => array [str h.1, str h.2]), bodyBytes t.body,
      uint t.timeoutSecs.toNat]))
  | _ => .error "not written here"

private theorem writesTexts_taskBytes : WritesTexts taskBytes := by
  have hself : ∀ s, text (utf8 s) <:+: str s := fun s => List.infix_rfl
  intro task bytes hbytes s hs
  cases task with
  | inference t =>
      obtain rfl := Except.ok.inj hbytes
      refine infix_entry ?_
      rcases List.mem_append.1 hs with hs | hs
      · rcases List.mem_cons.1 hs with rfl | hs
        · exact infix_array (.head _) (hself _)
        · obtain ⟨message, hmessage, rfl⟩ := List.mem_map.1 hs
          refine infix_array (.tail _ (.head _)) ?_
          refine infix_array (List.mem_map_of_mem hmessage) ?_
          exact infix_array (.tail _ (.head _)) (hself _)
      · refine infix_array (.tail _ (.tail _ (.tail _ (.tail _ (.head _))))) ?_
        exact infix_array (List.mem_map_of_mem hs) (hself _)
  | webFetch t =>
      obtain rfl := Except.ok.inj hbytes
      refine infix_entry ?_
      rcases List.mem_cons.1 hs with rfl | hs
      · exact infix_array (.head _) (hself _)
      · obtain ⟨header, hheader, hs⟩ := List.mem_flatMap.1 hs
        refine infix_array (.tail _ (.tail _ (.head _))) ?_
        refine infix_array (List.mem_map_of_mem hheader) ?_
        rcases List.mem_pair.1 hs with rfl | rfl
        · exact infix_array (.head _) (hself _)
        · exact infix_array (.tail _ (.head _)) (hself _)
  | webSearch t => cases hbytes
  | wasmExecution t => cases hbytes

theorem offloaded_never_agrees_prompt : ∃ request,
    RemoteExecutor.taskToRequest taskBytes .epoch ⟨"job"⟩ (.inference (.new "llama-3.2-3b" "Hi")) =
        .ok request ∧
      ∃ executed, executeProviderJob request = some executed ∧
        ¬ Agrees (.inference (.new "llama-3.2-3b" "Hi")) executed := by
  have hsome : ∃ request, RemoteExecutor.taskToRequest taskBytes .epoch ⟨"job"⟩
      (.inference (.new "llama-3.2-3b" "Hi")) = .ok request := ⟨_, rfl⟩
  obtain ⟨request, hrequest⟩ := hsome
  exact ⟨request, hrequest, offloaded_never_agrees writesTexts_taskBytes trivial hrequest⟩

/-- The MessagePack of a fetch, as a text. -/
private def fetchText : String :=
  "\uFFFD\uFFFDWebFetch\uFFFD\uFFFDhttps://a.io\uFFFDGET\uFFFD\uFFFD\x1e"

private theorem fetchText_eq : fromUtf8Lossy fetchBytes = fetchText := by
  have hdecode : Utf8.decodeLossy fetchBytes = fetchText.toList := by decide
  rw [fromUtf8Lossy, hdecode, String.ofList_toList]

/-- **A fetch of the wrong page**: the provider of a fetch of `https://a.io` takes the whole
task for the URL. -/
theorem fetches_payload : ∃ request,
    RemoteExecutor.taskToRequest taskBytes .epoch ⟨"job"⟩ (.webFetch (.get "https://a.io")) =
        .ok request ∧
      executeProviderJob request = some (.webFetch (.get fetchText)) ∧
      ¬ ∃ executed, executeProviderJob request = some executed ∧
        Agrees (.webFetch (.get "https://a.io")) executed := by
  refine ⟨_, rfl, ?_, ?_⟩
  · rw [← fetchText_eq]
    rfl
  · rintro ⟨executed, hexecuted, hagrees⟩
    obtain rfl := Option.some.inj hexecuted
    have hurl : fromUtf8Lossy fetchBytes = "https://a.io" := hagrees
    rw [fetchText_eq] at hurl
    revert hurl
    decide

end Example

end PeerClaw
