import PeerClaw.Inference.Batch
import PeerClaw.Lib.Text

/-!
# Generating text, at once and in pieces

`InferenceEngine` in `inference/mod.rs` sends a request to the remote API, to a local model or to
Ollama, whichever the live settings and the registry of models ask for, or, when it has been
enabled, to the failover chain of `inference/failover.rs`, which tries one backend after the other.
It does this twice: `generate` returns the text, and `generate_streaming` also calls back with each
piece of it.

* `Backends` — what the backends do, which is not this program's to say.
* `InferenceEngine.generate`, `generateStreaming` — the code.
* `InferenceEngine.generation` — what the backends do for a request, errors as they are reported.
* `generate_eq`, `generateStreaming_fst` — the one returns its outcome, the other its pieces.
-/

namespace PeerClaw
namespace Inference

open Lib

/-! ## Requests and settings -/

/-- Request for text generation. -/
structure GenerateRequest where
  model : String
  prompt : String
  maxTokens : UInt32
  temperature : Float32
  topP : Float32
  stopSequences : List String

/-- Live settings read on every generation. -/
structure InferenceLiveSettings where
  useLocalGguf : Bool
  useOllama : Bool
  ollamaUrl : String
  remoteApiEnabled : Bool
  remoteApiBaseUrl : String
  /-- If empty, the requested model id is sent to the remote API. -/
  remoteApiModel : String
  remoteApiKey : String

/-- Whether the remote API is enabled and has an address and a key. -/
def InferenceLiveSettings.remoteApiConfigured (live : InferenceLiveSettings) : Bool :=
  live.remoteApiEnabled && !(Text.trim live.remoteApiBaseUrl).isEmpty &&
    !(Text.trim live.remoteApiKey).isEmpty

/-- The model that the remote API is asked for. -/
def InferenceLiveSettings.remoteModel (live : InferenceLiveSettings) (model : String) : String :=
  if (Text.trim live.remoteApiModel).isEmpty then model else Text.trim live.remoteApiModel

/-- The available models with their files, in the order in which they are iterated over. -/
abbrev ModelRegistry := List (String × String)

/-- `ModelRegistry::get`, of which the path is used: an exact match first, then a prefix match. -/
def ModelRegistry.get (registry : ModelRegistry) (modelId : String) : Option String :=
  match registry.find? (fun info => info.1 = modelId) with
  | some info => some info.2
  | none => (registry.find? fun info => Text.startsWith info.1 modelId).map Prod.snd

/-- The errors of a generation. -/
inductive InferenceError
  | modelNotFound (message : String)
  | loadFailed (message : String)
  | generationFailed (message : String)
  deriving DecidableEq

/-- What an `InferenceError` is displayed as. -/
def InferenceError.text : InferenceError → String
  | .modelNotFound message => "Model not found: " ++ message
  | .loadFailed message => "Model load failed: " ++ message
  | .generationFailed message => "Generation failed: " ++ message

/-! ## The backends -/

/-- What a backend does when it generates a text: the pieces in which it streams it, and whether it
gets to the end.  The pieces make up the text that it returns when it does not stream. -/
inductive Generation
  | done (fragments : List String) (tokensGenerated : UInt32) (tokensPerSecond : Float)
  | failed (fragments : List String) (error : String)

namespace Generation

/-- What it streams. -/
def fragments : Generation → List String
  | .done fragments _ _ => fragments
  | .failed fragments _ => fragments

/-- What it returns. -/
def response : Generation → Except String GenerateResponse
  | .done fragments tokens speed => .ok ⟨String.join fragments, tokens, speed⟩
  | .failed _ error => .error error

/-- The same, with the error as somebody else reports it. -/
def reported (report : String → String) : Generation → Generation
  | .done fragments tokens speed => .done fragments tokens speed
  | .failed fragments error => .failed fragments (report error)

@[simp] theorem fragments_reported (report : String → String) (g : Generation) :
    (g.reported report).fragments = g.fragments := by
  cases g <;> rfl

end Generation

/-- The answer of the remote API, with the seconds that it took. -/
structure RemoteGenerateResult where
  text : String
  tokensGenerated : UInt32
  elapsed : Float

/-- What the backends do. -/
structure Backends where
  /-- `remote_openai::chat_completion`, by base URL, key, model and the rest of the request. -/
  chatCompletion : String → String → String → String → UInt32 → Float32 →
    Except String RemoteGenerateResult
  /-- `GgufEngine::load`. -/
  ggufLoad : String → Except String Unit
  /-- `GgufEngine::generate` and `generate_streaming`, by the path that has been loaded. -/
  gguf : String → GenerateRequest → Generation
  /-- `OllamaProvider::generate` and `generate_streaming`, by URL, model and the rest of the
  request. -/
  ollama : String → String → String → UInt32 → Float32 → Generation

namespace Backends

variable (B : Backends) (live : InferenceLiveSettings) (request : GenerateRequest)

/-- The remote API is asked. -/
def remoteApi : Except InferenceError GenerateResponse :=
  match B.chatCompletion (Text.trim live.remoteApiBaseUrl) (Text.trim live.remoteApiKey)
      (live.remoteModel request.model) request.prompt request.maxTokens request.temperature with
  | .error e => .error (.generationFailed e)
  | .ok r =>
      .ok ⟨r.text, r.tokensGenerated,
        if 0.0 < r.elapsed then r.tokensGenerated.toFloat / r.elapsed else 0.0⟩

/-- What Ollama does for the request. -/
def askOllama : Generation :=
  B.ollama live.ollamaUrl request.model request.prompt request.maxTokens request.temperature

end Backends

/-! ## The failover chain -/

/-- Identifies a backend in the failover chain. -/
inductive BackendId
  | localGguf
  | peerToPeer
  | ollama
  | remoteApi
  deriving DecidableEq

/-- The engine, of which the failover chain is given by the backends that are not in cooldown. -/
structure InferenceEngine where
  live : InferenceLiveSettings
  registry : ModelRegistry
  failover : Option (List BackendId)
  /-- The models directory, as it is shown for debugging. -/
  modelsDir : String
  /-- Whether there is a file with the extension `gguf` in it. -/
  hasGguf : Bool

namespace InferenceEngine

variable (engine : InferenceEngine) (B : Backends) (request : GenerateRequest)

/-- `try_local_gguf`. -/
def tryLocalGguf : Except InferenceError GenerateResponse :=
  if !engine.live.useLocalGguf then .error (.modelNotFound "Local GGUF disabled")
  else
    match engine.registry.get request.model with
    | none =>
        .error (.modelNotFound ("Model '" ++ request.model ++ "' not found in local registry"))
    | some path =>
        match B.ggufLoad path with
        | .error e => .error (.loadFailed ("GGUF load failed: " ++ e))
        | .ok () =>
            match (B.gguf path request).response with
            | .error e => .error (.generationFailed ("GGUF generate failed: " ++ e))
            | .ok response => .ok response

/-- `try_ollama`. -/
def tryOllama : Except InferenceError GenerateResponse :=
  if !engine.live.useOllama then .error (.modelNotFound "Ollama disabled")
  else
    match (B.askOllama engine.live request).response with
    | .error e => .error (.generationFailed e)
    | .ok response => .ok response

/-- `try_remote_api`. -/
def tryRemoteApi : Except InferenceError GenerateResponse :=
  if !engine.live.remoteApiConfigured then
    .error (.modelNotFound "Remote API disabled or not configured")
  else B.remoteApi engine.live request

/-- A backend of the chain is tried. -/
def tryBackend : BackendId → Except InferenceError GenerateResponse
  | .localGguf => engine.tryLocalGguf B request
  | .peerToPeer =>
      .error (.modelNotFound "P2P inference routing not yet wired into failover chain")
  | .ollama => engine.tryOllama B request
  | .remoteApi => engine.tryRemoteApi B request

/-- The backends are tried in order; the error is the last one. -/
def tryInOrder (lastError : InferenceError) : List BackendId → Except InferenceError GenerateResponse
  | [] => .error lastError
  | backend :: backends =>
      match engine.tryBackend B request backend with
      | .ok response => .ok response
      | .error err => tryInOrder err backends

/-- `FailoverChain::execute_with_failover`. -/
def executeWithFailover (backends : List BackendId) : Except InferenceError GenerateResponse :=
  if backends.isEmpty then
    .error (.generationFailed "All backends are in cooldown. Try again later.")
  else
    engine.tryInOrder B request (.generationFailed "All backends exhausted") backends

/-! ## The two ways -/

/-- The file of the model that is run locally, if one is. -/
def localPath : Option String :=
  if engine.live.useLocalGguf then engine.registry.get request.model else none

/-- What is said when there is neither a local model nor Ollama. -/
def hint : String :=
  if !engine.hasGguf then
    "No inference backend available for '" ++ request.model ++
      "'. Enable Ollama (Settings → Inference → Ollama) or a remote API, " ++
      "or download a GGUF model. Models dir: " ++ engine.modelsDir
  else
    "Model '" ++ request.model ++ "' not found. Available GGUF files exist but may need Ollama " ++
      "(llama.cpp not wired yet). Enable Ollama in Settings → Inference."

/-- `InferenceEngine::generate`. -/
def generate : Except InferenceError GenerateResponse :=
  match engine.failover with
  | some backends => engine.executeWithFailover B request backends
  | none =>
      if engine.live.remoteApiConfigured then B.remoteApi engine.live request
      else
        match engine.localPath request with
        | some path =>
            match B.ggufLoad path with
            | .error e => .error (.loadFailed ("GGUF load failed: " ++ e))
            | .ok () =>
                match (B.gguf path request).response with
                | .error e => .error (.generationFailed ("GGUF generate failed: " ++ e))
                | .ok response => .ok response
        | none =>
            if engine.live.useOllama then
              match (B.askOllama engine.live request).response with
              | .error e => .error (.generationFailed e)
              | .ok response => .ok response
            else .error (.modelNotFound (engine.hint request))

/-- `InferenceEngine::generate_streaming`: what it has called back with, and what it returns. -/
def generateStreaming : List String × Except InferenceError GenerateResponse :=
  match engine.failover with
  | some _ =>
      match engine.generate B request with
      | .error e => ([], .error e)
      | .ok response => (if response.text.isEmpty then [] else [response.text], .ok response)
  | none =>
      if engine.live.remoteApiConfigured then
        match B.remoteApi engine.live request with
        | .error e => ([], .error e)
        | .ok response => ([response.text], .ok response)
      else
        match engine.localPath request with
        | some path =>
            match B.ggufLoad path with
            | .error e => ([], .error (.loadFailed ("GGUF load failed: " ++ e)))
            | .ok () =>
                ((B.gguf path request).fragments,
                  match (B.gguf path request).response with
                  | .error e => .error (.generationFailed ("GGUF stream failed: " ++ e))
                  | .ok response => .ok response)
        | none =>
            if engine.live.useOllama then
              ((B.askOllama engine.live request).fragments,
                match (B.askOllama engine.live request).response with
                | .error e => .error (.generationFailed e)
                | .ok response => .ok response)
            else ([], .error (.modelNotFound (engine.hint request)))

/-! ## What the backends do for a request -/

/-- A text that is there at once. -/
def atOnce (pieces : GenerateResponse → List String) :
    Except InferenceError GenerateResponse → Generation
  | .error e => .failed [] e.text
  | .ok r => .done (pieces r) r.tokensGenerated r.tokensPerSecond

/-- What the backend does that the request is sent to, errors as they are reported. -/
def generation : Generation :=
  match engine.failover with
  | some backends =>
      atOnce (fun r => if r.text.isEmpty then [] else [r.text])
        (engine.executeWithFailover B request backends)
  | none =>
      if engine.live.remoteApiConfigured then
        atOnce (fun r => [r.text]) (B.remoteApi engine.live request)
      else
        match engine.localPath request with
        | some path =>
            match B.ggufLoad path with
            | .error e => .failed [] (InferenceError.loadFailed ("GGUF load failed: " ++ e)).text
            | .ok () => (B.gguf path request).reported
                fun e => (InferenceError.generationFailed ("GGUF generate failed: " ++ e)).text
        | none =>
            if engine.live.useOllama then
              (B.askOllama engine.live request).reported
                fun e => (InferenceError.generationFailed e).text
            else .failed [] (InferenceError.modelNotFound (engine.hint request)).text

variable {engine B request}

theorem response_atOnce {pieces : GenerateResponse → List String}
    (hpieces : ∀ r, String.join (pieces r) = r.text)
    (result : Except InferenceError GenerateResponse) :
    (atOnce pieces result).response = result.mapError InferenceError.text := by
  cases result with
  | error e => rfl
  | ok r => simp [atOnce, Generation.response, hpieces, Except.mapError]

theorem join_unless_empty (s : String) :
    String.join (if s.isEmpty then [] else [s]) = s := by
  by_cases hs : s.isEmpty = true
  · rw [if_pos hs, String.isEmpty_iff.1 hs]
    rfl
  · rw [if_neg hs]
    simp

theorem response_reported (report : String → String) (g : Generation) :
    (g.reported report).response = g.response.mapError report := by
  cases g <;> rfl

/-- **The whole text.**  `generate` returns what the backend does, errors as they are displayed. -/
theorem generate_eq :
    (engine.generate B request).mapError InferenceError.text =
      (engine.generation B request).response := by
  unfold generate generation
  cases engine.failover with
  | some backends => exact (response_atOnce (fun r => join_unless_empty r.text) _).symm
  | none =>
      simp only
      split
      · exact (response_atOnce (fun r => by simp) _).symm
      · cases engine.localPath request with
        | some path =>
            simp only
            cases B.ggufLoad path with
            | error e => rfl
            | ok u =>
                simp only [response_reported]
                cases (B.gguf path request).response with
                | error e => rfl
                | ok r => rfl
        | none =>
            simp only
            split
            · rw [response_reported]
              cases (B.askOllama engine.live request).response with
              | error e => rfl
              | ok r => rfl
            · rfl

/-- **The pieces.**  `generate_streaming` calls back with what the backend streams. -/
theorem generateStreaming_fst :
    (engine.generateStreaming B request).1 = (engine.generation B request).fragments := by
  unfold generateStreaming generation
  cases hfailover : engine.failover with
  | some backends =>
      simp only [generate, hfailover]
      cases engine.executeWithFailover B request backends with
      | error e => rfl
      | ok r => rfl
  | none =>
      simp only
      split
      · cases B.remoteApi engine.live request with
        | error e => rfl
        | ok r => rfl
      · cases engine.localPath request with
        | some path =>
            simp only
            cases B.ggufLoad path with
            | error e => rfl
            | ok u => rw [Generation.fragments_reported]
        | none =>
            simp only
            split
            · rw [Generation.fragments_reported]
            · rfl

end InferenceEngine
end Inference
end PeerClaw
