import PeerClaw.Inference.Generate
import PeerClaw.Serve.EventLoop

/-!
# Chat completions

A chat completion goes through the handler of `web/openai.rs`, the serve loop, the executor and
the inference engine.  Each of them does it in two ways: it returns the text, or it also pushes the
pieces of the text into a channel, from which the handler makes the events that it streams.

* `ChatExecutor.execute`, `executeInferenceStreaming` — the executor.
* `serveInference` — the serve loop.
* `WebNode.chatCompletions` — the handler.
-/

namespace PeerClaw

open Lib Inference

/-! ## The executor -/

/-- What an `ExecutorError` is displayed as. -/
def ExecutorError.text : ExecutorError → String
  | .insufficientResources message => "Insufficient resources: " ++ message
  | .inferenceError message => "Inference error: " ++ message
  | .timeout => "Timeout"

/-- `InferenceTask::with_temperature`. -/
def InferenceTask.withTemperature (t : InferenceTask) (temperature : Float32) : InferenceTask :=
  { t with temperature := temperature }

/-- A message in the prompt. -/
def ChatMessage.line (m : ChatMessage) : String :=
  match m.role with
  | .system => "System: " ++ m.content ++ "\n"
  | .user => "User: " ++ m.content ++ "\n"
  | .assistant => "Assistant: " ++ m.content ++ "\n"

/-- What the engine is asked to generate. -/
def InferenceTask.request (t : InferenceTask) : GenerateRequest where
  model := t.model
  prompt := String.join (t.messages.map ChatMessage.line) ++ "Assistant:"
  maxTokens := t.maxTokens
  temperature := t.temperature
  topP := 0.9
  stopSequences := t.stopSequences

/-- What of the executor an inference goes through. -/
structure ChatExecutor where
  /-- The decision of the router, with the requirements of the task. -/
  route : ExecutionTask → RoutingDecision
  inferenceEngine : Option InferenceEngine
  /-- The connected peers, if there is a network. -/
  network : Option (List String)
  /-- What becomes of a task that is offered to the network. -/
  remoteExecutor : Option (ExecutionTask → PeerFilter → Except ExecutorError TaskData)
  /-- `find_gguf_model`. -/
  findGgufModel : String → Except ExecutorError String

namespace ChatExecutor

variable (x : ChatExecutor) (B : Backends) (task : InferenceTask)

/-- `execute_inference_local`. -/
def executeInferenceLocal : Except ExecutorError TaskData :=
  match x.inferenceEngine with
  | some engine =>
      match engine.generate B task.request with
      | .error e => .error (.inferenceError e.text)
      | .ok response => .ok (.inference response.text response.tokensGenerated)
  | none =>
      match x.findGgufModel task.model with
      | .error e => .error e
      | .ok path =>
          match B.ggufLoad path with
          | .error e => .error (.inferenceError ("Failed to load model: " ++ e))
          | .ok () =>
              match (B.gguf path task.request).response with
              | .error e => .error (.inferenceError ("Generation failed: " ++ e))
              | .ok response => .ok (.inference response.text response.tokensGenerated)

/-- `execute_inference_local_streaming`: what it sends, and what it returns. -/
def executeInferenceLocalStreaming : List String × Except ExecutorError TaskData :=
  match x.inferenceEngine with
  | some engine =>
      ((engine.generateStreaming B task.request).1,
        match (engine.generateStreaming B task.request).2 with
        | .error e => .error (.inferenceError e.text)
        | .ok response => .ok (.inference response.text response.tokensGenerated))
  | none =>
      match x.findGgufModel task.model with
      | .error e => ([], .error e)
      | .ok path =>
          match B.ggufLoad path with
          | .error e => ([], .error (.inferenceError ("Failed to load model: " ++ e)))
          | .ok () =>
              ((B.gguf path task.request).fragments,
                match (B.gguf path task.request).response with
                | .error e => .error (.inferenceError ("Streaming generation failed: " ++ e))
                | .ok response => .ok (.inference response.text response.tokensGenerated))

/-- An error of a local execution becomes its data. -/
def orError : Except ExecutorError TaskData → TaskData
  | .ok data => data
  | .error e => .error e.text

/-- `execute_local`, of an inference. -/
def executeLocal : TaskData := orError (x.executeInferenceLocal B task)

/-- `execute_remote`, of an inference. -/
def executeRemote (peerFilter : PeerFilter) : TaskData :=
  if x.network = some [] then x.executeLocal B task
  else
    match x.remoteExecutor with
    | some remote =>
        match remote (.inference task) peerFilter with
        | .ok result => result
        | .error _ => x.executeLocal B task
    | none => x.executeLocal B task

/-- `TaskExecutor::execute`, of an inference. -/
def execute : Except ExecutorError TaskData :=
  match x.route (.inference task) with
  | .executeLocally => .ok (x.executeLocal B task)
  | .offloadToNetwork requirements => .ok (x.executeRemote B task requirements)
  | .insufficientResources reason => .error (.insufficientResources reason)

/-- A local execution that streams. -/
def streamLocal : List String × TaskData :=
  ((x.executeInferenceLocalStreaming B task).1, orError (x.executeInferenceLocalStreaming B task).2)

/-- What is sent when a peer has executed the task. -/
def peerDelta : TaskData → String
  | .inference text _ => text
  | .error e => e
  | .other => "Unexpected response type"

/-- `execute_inference_streaming`. -/
def executeInferenceStreaming : List String × Except ExecutorError TaskData :=
  match x.route (.inference task) with
  | .insufficientResources reason => ([], .error (.insufficientResources reason))
  | .executeLocally => ((x.streamLocal B task).1, .ok (x.streamLocal B task).2)
  | .offloadToNetwork requirements =>
      match x.remoteExecutor with
      | some remote =>
          match remote (.inference task) requirements with
          | .ok result => ([peerDelta result], .ok result)
          | .error _ => ((x.streamLocal B task).1, .ok (x.streamLocal B task).2)
      | none => ((x.streamLocal B task).1, .ok (x.streamLocal B task).2)

end ChatExecutor

/-! ## The serve loop -/

/-- What the handlers read of an `InferenceResponse`. -/
structure InferenceResponse where
  text : String
  tokensGenerated : UInt32

/-- What the serve loop makes of the result of a task. -/
def InferenceResponse.ofResult : Except ExecutorError TaskData → InferenceResponse
  | .ok (.inference text tokens) => ⟨text, tokens⟩
  | .ok (.error e) => ⟨"Error: " ++ e, 0⟩
  | .ok .other => ⟨"Unexpected response type", 0⟩
  | .error e => ⟨"Error: " ++ e.text, 0⟩

/-- The task of an inference request. -/
def InferenceRequest.task (r : InferenceRequest) : InferenceTask :=
  ((InferenceTask.new r.model r.prompt).withMaxTokens r.maxTokens).withTemperature r.temperature

/-- The serve loop has taken a request: what goes into its channel for pieces, and the response. -/
def serveInference (B : Backends) (x : ChatExecutor) (r : InferenceRequest) :
    List String × InferenceResponse :=
  if r.streamed then
    ((x.executeInferenceStreaming B r.task).1,
      .ofResult (x.executeInferenceStreaming B r.task).2)
  else ([], .ofResult (x.execute B r.task))

/-! ## The handler -/

/-- OpenAI message format. -/
structure OpenAiMessage where
  role : String
  content : Option String

/-- What is read of a chat completion request. -/
structure ChatCompletionRequest where
  model : String
  messages : List OpenAiMessage
  temperature : Option Float32
  maxTokens : Option UInt32
  stream : Option Bool

/-- A message of the conversation, as it stands in the prompt. -/
def OpenAiMessage.line (m : OpenAiMessage) : String :=
  let content := m.content.getD ""
  if m.role = "system" then "System: " ++ content ++ "\n\n"
  else if m.role = "user" then "User: " ++ content ++ "\n"
  else if m.role = "assistant" then "Assistant: " ++ content ++ "\n\n"
  else m.role ++ ": " ++ content ++ "\n"

/-- Convert OpenAI messages to a prompt string. -/
def messagesToPrompt (messages : List OpenAiMessage) : String :=
  String.join (messages.map OpenAiMessage.line) ++ "Assistant:"

/-- The inference request of a chat completion. -/
def ChatCompletionRequest.inference (req : ChatCompletionRequest) (streamed : Bool) :
    InferenceRequest where
  prompt := messagesToPrompt req.messages
  model := req.model
  maxTokens := req.maxTokens.getD 500
  temperature := req.temperature.getD 0.7
  streamed := streamed

/-- What an error response says. -/
structure ErrorDetail where
  message : String
  errorType : String
  deriving DecidableEq

structure Usage where
  promptTokens : UInt32
  completionTokens : UInt32
  totalTokens : UInt32

/-- A chat completion, with the one choice that it has. -/
structure ChatCompletionResponse where
  id : String
  created : UInt64
  model : String
  role : String
  content : Option String
  finishReason : String
  usage : Usage

/-- A chunk of a chat completion, with the one choice that it has. -/
structure ChatCompletionChunk where
  id : String
  created : UInt64
  model : String
  role : Option String
  content : Option String
  finishReason : Option String

/-- An event of the stream. -/
inductive SseEvent
  | chunk (c : ChatCompletionChunk)
  /-- The sentinel `[DONE]`. -/
  | done

inductive CompletionResponse
  | json (r : ChatCompletionResponse)
  | sse (events : List SseEvent)

/-- The channel to the serve loop. -/
inductive InferenceChannel
  | absent
  | closed
  | open

/-- How the wait of a request for its response ends. -/
inductive ResponseWait
  | inTime
  /-- After 120 seconds. -/
  | late
  /-- The request has been dropped. -/
  | cancelled

/-- A node, and what is drawn when it handles a request. -/
structure WebNode where
  inferenceTx : InferenceChannel
  executor : ChatExecutor
  wait : ResponseWait
  completionId : String
  created : UInt64

namespace WebNode

variable (n : WebNode) (B : Backends) (req : ChatCompletionRequest)

/-- The request is sent to the serve loop. -/
def send (r : InferenceRequest) : Except ErrorDetail (List String × InferenceResponse) :=
  match n.inferenceTx with
  | .absent =>
      .error ⟨"Inference not available. Start node with inference support.", "service_unavailable"⟩
  | .closed => .error ⟨"Failed to send inference request", "internal_error"⟩
  | .open => .ok (serveInference B n.executor r)

/-- `handle_non_streaming`. -/
def handleNonStreaming : Except ErrorDetail CompletionResponse :=
  match n.send B (req.inference false) with
  | .error e => .error e
  | .ok (_, response) =>
      match n.wait with
      | .late => .error ⟨"Inference timeout", "timeout"⟩
      | .cancelled => .error ⟨"Inference cancelled", "cancelled"⟩
      | .inTime =>
          let promptTokens := UInt32.ofNat ((messagesToPrompt req.messages).utf8ByteSize / 4)
          .ok (.json
            { id := n.completionId
              created := n.created
              model := req.model
              role := "assistant"
              content := some response.text
              finishReason := "stop"
              usage := ⟨promptTokens, response.tokensGenerated,
                promptTokens + response.tokensGenerated⟩ })

/-- An event with one of the three things that a chunk says. -/
def chunk (role content finishReason : Option String) : SseEvent :=
  .chunk ⟨n.completionId, n.created, req.model, role, content, finishReason⟩

/-- `handle_streaming`, for a client that reads to the end. -/
def handleStreaming : Except ErrorDetail CompletionResponse :=
  match n.send B (req.inference true) with
  | .error e => .error e
  | .ok (deltas, _) =>
      .ok (.sse (n.chunk req (some "assistant") none none ::
        deltas.map (fun delta => n.chunk req none (some delta) none) ++
        [n.chunk req none none (some "stop"), .done]))

/-- `POST /v1/chat/completions`. -/
def chatCompletions : Except ErrorDetail CompletionResponse :=
  if req.stream.getD false then n.handleStreaming B req else n.handleNonStreaming B req

end WebNode
end PeerClaw
