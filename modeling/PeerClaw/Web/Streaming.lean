import PeerClaw.Web.Completions

/-!
# A completion reads the same in pieces

The chunks of a streamed chat completion should make up the content that the same request gets
when it is not streamed.  They do where a backend gets to the end; an error is content only where
nothing is streamed.

* `ChatExecutor.localGeneration` — what the backends do for a task that is executed locally.
* `executeLocal_text`, `executeInferenceLocalStreaming_fst` — its two readings.
* `streams_the_same_iff` — for which requests the two agree.
* `not_always_the_same` — three that they do not agree on.
-/

namespace PeerClaw

open Lib Inference

/-! ## What should hold -/

/-- The content of the chunks. -/
def SseEvent.content : SseEvent → Option String
  | .chunk c => c.content
  | .done => none

/-- What the streamed request says, when the other one gets an answer. -/
def WebNode.StreamsTheSame (n : WebNode) (B : Backends) (req : ChatCompletionRequest) : Prop :=
  ∀ r, n.chatCompletions B { req with stream := some false } = .ok (.json r) →
    ∃ events, n.chatCompletions B { req with stream := some true } = .ok (.sse events) ∧
      r.content = some (String.join (events.filterMap SseEvent.content))

namespace ChatExecutor

/-! ## What the backends do for a task -/

/-- What is done for a task that is executed locally, errors as they are reported. -/
def localGeneration (x : ChatExecutor) (B : Backends) (task : InferenceTask) : Generation :=
  match x.inferenceEngine with
  | some engine =>
      (engine.generation B task.request).reported fun e => (ExecutorError.inferenceError e).text
  | none =>
      match x.findGgufModel task.model with
      | .error e => .failed [] e.text
      | .ok path =>
          match B.ggufLoad path with
          | .error e =>
              .failed [] (ExecutorError.inferenceError ("Failed to load model: " ++ e)).text
          | .ok () => (B.gguf path task.request).reported
              fun e => (ExecutorError.inferenceError ("Generation failed: " ++ e)).text

end ChatExecutor

/-- What a client reads of it that does not stream. -/
def Inference.Generation.content : Generation → String
  | .done fragments _ _ => String.join fragments
  | .failed _ error => "Error: " ++ error

/-- It gets to the end, unless what it has streamed happens to be the text of its error. -/
def Inference.Generation.ReadsTheSame : Generation → Prop
  | .done _ _ _ => True
  | .failed fragments error => String.join fragments = "Error: " ++ error

/-- What a peer sends back is not an error. -/
def TaskData.Readable : TaskData → Prop
  | .error _ => False
  | .inference _ _ | .other => True

namespace Inference.Generation

theorem content_eq_iff (g : Generation) :
    g.content = String.join g.fragments ↔ g.ReadsTheSame := by
  cases g with
  | done fragments tokens speed => exact iff_of_true rfl trivial
  | failed fragments error => exact eq_comm

theorem content_of_ok {g : Generation} {r : GenerateResponse} (h : g.response = .ok r)
    (report : String → String) : (g.reported report).content = r.text := by
  cases g with
  | done fragments tokens speed =>
      cases h
      rfl
  | failed fragments error => cases h

theorem content_of_error {g : Generation} {e : String} (h : g.response = .error e)
    (report : String → String) : (g.reported report).content = "Error: " ++ report e := by
  cases g with
  | done fragments tokens speed => cases h
  | failed fragments error =>
      cases h
      rfl

end Inference.Generation

namespace ChatExecutor

/-- The tasks whose text is the same either way.  The task is not refused; if it is executed
locally, the backend that it comes to gets to the end; if a peer executes it, the peer sends no
error, and the node either knows of a connected peer or would itself say what the peer says. -/
def SaysTheSame (x : ChatExecutor) (B : Backends) (task : InferenceTask) : Prop :=
  match x.route (.inference task) with
  | .insufficientResources _ => False
  | .executeLocally => (x.localGeneration B task).ReadsTheSame
  | .offloadToNetwork requirements =>
      match x.remoteExecutor with
      | none => (x.localGeneration B task).ReadsTheSame
      | some remote =>
          match remote (.inference task) requirements with
          | .error _ => (x.localGeneration B task).ReadsTheSame
          | .ok result =>
              if x.network = some [] then (x.localGeneration B task).content = peerDelta result
              else result.Readable

/-! ## The two readings -/

section Readings

variable {x : ChatExecutor} {B : Backends} {task : InferenceTask}

/-- **Executed at once.**  The text of a local execution is that of what the backends do. -/
theorem executeLocal_text : (InferenceResponse.ofResult (.ok (x.executeLocal B task))).text =
    (x.localGeneration B task).content := by
  unfold executeLocal executeInferenceLocal localGeneration
  cases x.inferenceEngine with
  | some engine =>
      have hwhole : (engine.generate B task.request).mapError InferenceError.text =
          (engine.generation B task.request).response := InferenceEngine.generate_eq
      simp only
      cases hgen : engine.generate B task.request with
      | error e =>
          rw [hgen] at hwhole
          exact (Generation.content_of_error hwhole.symm _).symm
      | ok r =>
          rw [hgen] at hwhole
          exact (Generation.content_of_ok hwhole.symm _).symm
  | none =>
      simp only
      cases x.findGgufModel task.model with
      | error e => rfl
      | ok path =>
          simp only
          cases B.ggufLoad path with
          | error e => rfl
          | ok u =>
              simp only
              cases hgen : (B.gguf path task.request).response with
              | error e =>
                  exact (Generation.content_of_error hgen fun e =>
                    (ExecutorError.inferenceError ("Generation failed: " ++ e)).text).symm
              | ok r => exact (Generation.content_of_ok hgen _).symm

/-- **Executed in pieces.**  A local execution streams what the backends stream. -/
theorem executeInferenceLocalStreaming_fst :
    (x.executeInferenceLocalStreaming B task).1 = (x.localGeneration B task).fragments := by
  unfold executeInferenceLocalStreaming localGeneration
  cases x.inferenceEngine with
  | some engine =>
      simp only [Generation.fragments_reported]
      exact engine.generateStreaming_fst
  | none =>
      simp only
      cases x.findGgufModel task.model with
      | error e => rfl
      | ok path =>
          simp only
          cases B.ggufLoad path with
          | error e => rfl
          | ok u => rw [Generation.fragments_reported]

theorem error_append_ne (e : String) : "Error: " ++ e ≠ e := by
  intro h
  have hlength := congrArg String.length h
  rw [String.length_append] at hlength
  have hprefix : "Error: ".length = 7 := rfl
  omega

theorem error_append_ne_empty (e : String) : "Error: " ++ e ≠ "" := by
  intro h
  have hlength := congrArg String.length h
  rw [String.length_append] at hlength
  have hprefix : "Error: ".length = 7 := rfl
  have hempty : "".length = 0 := rfl
  omega

/-- What a peer sends back is said the same way unless it is an error. -/
theorem peerDelta_eq_iff (data : TaskData) :
    (InferenceResponse.ofResult (.ok data)).text = peerDelta data ↔ data.Readable := by
  cases data with
  | inference text tokens => exact iff_of_true rfl trivial
  | error e => exact iff_of_false (error_append_ne e) not_false
  | other => exact iff_of_true rfl trivial

/-- A local execution agrees with itself when what the backends do reads the same. -/
theorem local_agrees_iff : (InferenceResponse.ofResult (.ok (x.executeLocal B task))).text =
    String.join (x.streamLocal B task).1 ↔ (x.localGeneration B task).ReadsTheSame := by
  rw [executeLocal_text, streamLocal, executeInferenceLocalStreaming_fst]
  exact Generation.content_eq_iff _

/-- **Routes.**  The text of an execution is what its streaming counterpart streams exactly for
the tasks that say the same. -/
theorem execute_agrees_iff : (InferenceResponse.ofResult (x.execute B task)).text =
    String.join (x.executeInferenceStreaming B task).1 ↔ x.SaysTheSame B task := by
  unfold execute executeInferenceStreaming SaysTheSame
  cases x.route (.inference task) with
  | insufficientResources reason =>
      exact iff_of_false (error_append_ne_empty _) not_false
  | executeLocally => exact local_agrees_iff
  | offloadToNetwork requirements =>
      simp only [executeRemote]
      cases x.remoteExecutor with
      | none =>
          simp only [ite_self]
          exact local_agrees_iff
      | some remote =>
          simp only
          cases remote (.inference task) requirements with
          | error e =>
              simp only [ite_self]
              exact local_agrees_iff
          | ok result =>
              simp only [String.join_cons, String.join_nil, String.append_empty]
              by_cases hnetwork : x.network = some []
              · rw [if_pos hnetwork, if_pos hnetwork, executeLocal_text]
              · rw [if_neg hnetwork, if_neg hnetwork]
                exact peerDelta_eq_iff result

end Readings
end ChatExecutor

/-! ## The handler -/

namespace WebNode

variable (n : WebNode) (B : Backends) (req : ChatCompletionRequest)

theorem content_chunks (deltas : List String) :
    (n.chunk req (some "assistant") none none ::
      deltas.map (fun delta => n.chunk req none (some delta) none) ++
      [n.chunk req none none (some "stop"), .done]).filterMap SseEvent.content = deltas := by
  have hpieces : (deltas.map fun delta => n.chunk req none (some delta) none).filterMap
      SseEvent.content = deltas := by
    rw [List.filterMap_map]
    exact List.filterMap_some
  rw [List.cons_append, List.filterMap_cons_none rfl, List.filterMap_append, hpieces]
  exact List.append_nil deltas

theorem streams_the_same_answered (hchannel : n.inferenceTx = .open) (hwait : n.wait = .inTime) :
    n.StreamsTheSame B req ↔ n.executor.SaysTheSame B (req.inference false).task := by
  rw [← ChatExecutor.execute_agrees_iff]
  unfold StreamsTheSame chatCompletions
  simp only [Option.getD_some, Bool.false_eq_true, if_false, if_true, handleNonStreaming,
    handleStreaming, send, hchannel, hwait]
  constructor
  · intro h
    obtain ⟨events, hevents, hcontent⟩ := h _ rfl
    cases hevents
    rw [content_chunks] at hcontent
    exact Option.some.inj hcontent
  · intro h r hr
    cases hr
    refine ⟨_, rfl, ?_⟩
    rw [content_chunks]
    exact congrArg some h

/-- **Streamed and whole.**  The chunks of a streamed completion make up the content of the same
completion that is not streamed exactly if that gets no answer — there is no way to the serve loop,
or the response does not come in time — or its task says the same either way. -/
theorem streams_the_same_iff : n.StreamsTheSame B req ↔
    (n.inferenceTx = .open → n.wait = .inTime →
      n.executor.SaysTheSame B (req.inference false).task) := by
  cases hchannel : n.inferenceTx with
  | absent => simp [StreamsTheSame, chatCompletions, handleNonStreaming, send, hchannel]
  | closed => simp [StreamsTheSame, chatCompletions, handleNonStreaming, send, hchannel]
  | «open» =>
      cases hwait : n.wait with
      | late => simp [StreamsTheSame, chatCompletions, handleNonStreaming, send, hchannel, hwait]
      | cancelled =>
          simp [StreamsTheSame, chatCompletions, handleNonStreaming, send, hchannel, hwait]
      | inTime =>
          rw [streams_the_same_answered n B req hchannel hwait]
          exact ⟨fun h _ _ => h, fun h => h rfl rfl⟩

/-! ## Requests that do not agree -/

/-- Ollama is enabled and not there. -/
def unreachable : Backends where
  chatCompletion _ _ _ _ _ _ := .error "remote API request failed"
  ggufLoad _ := .ok ()
  gguf _ _ := .done ["local ", "text"] 2 1
  ollama _ _ _ _ _ := .failed [] "Ollama request failed: connection refused"

/-- A node with an engine that has the settings of a new one, but for Ollama. -/
def answering (route : RoutingDecision) (network : List String)
    (remote : Except ExecutorError TaskData) : WebNode where
  inferenceTx := .open
  executor :=
    { route := fun _ => route
      inferenceEngine := some
        { live := ⟨true, true, "http://localhost:11434", false, "", "", ""⟩
          registry := [("llama-3.2-3b-q4_k_m", "models/llama-3.2-3b-q4_k_m.gguf")]
          failover := none
          modelsDir := "\"models\""
          hasGguf := true }
      network := some network
      remoteExecutor := some fun _ _ => remote
      findGgufModel := fun _ => .error (.inferenceError "Model not found") }
  wait := .inTime
  completionId := "chatcmpl-0"
  created := 0

/-- A question for a model. -/
def asking (model : String) : ChatCompletionRequest :=
  ⟨model, [⟨"user", some "hello"⟩], none, none, none⟩

/-- An error of a backend is content, and is not streamed; an error of a peer is content with a
prefix that is not streamed; and what is streamed comes from a peer that is not on the list of
connected ones, where the content does not. -/
theorem not_always_the_same :
    ¬ (answering .executeLocally [] (.error .timeout)).StreamsTheSame unreachable
      (asking "mistral") ∧
    ¬ (answering (.offloadToNetwork ⟨none, none, none, none, []⟩) ["bob"]
      (.ok (.error "out of memory"))).StreamsTheSame unreachable (asking "mistral") ∧
    ¬ (answering (.offloadToNetwork ⟨none, none, none, none, []⟩) []
      (.ok (.inference "text of bob" 3))).StreamsTheSame unreachable (asking "llama-3.2-3b") := by
  refine ⟨?_, ?_, ?_⟩
  · rw [streams_the_same_answered _ _ _ rfl rfl]
    intro h
    exact ChatExecutor.error_append_ne_empty _ (Eq.symm h)
  · rw [streams_the_same_answered _ _ _ rfl rfl]
    exact not_false
  · rw [streams_the_same_answered _ _ _ rfl rfl]
    intro h
    have hsays : "local text" = "text of bob" := h
    exact absurd hsays (by decide)

end WebNode
end PeerClaw
