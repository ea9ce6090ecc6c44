import PeerClaw.Inference.Cache
import PeerClaw.Lib.Pool

/-!
# The local inference engine

`GgufEngine` in `inference/gguf.rs` keeps one loaded model behind a mutex.  A request
for local inference (`inference/mod.rs`, `inference/failover.rs`) calls `load` with the
path of its model and then `generate`, and each takes the mutex for itself.

* `GgufEngine.load`, `GgufEngine.generate` — the two sections.
* `engine_serves_own_model` — in every interleaving in which no load puts another
  model in the place of the one a request has loaded and not yet used, every text
  was generated by the model of its own request.
* `swapped_model_answers` — two requests for two models.
-/

namespace PeerClaw
namespace Inference

open Lib Lib.Machine

/-- Handle to a loaded GGUF model. -/
structure GgufModelHandle where
  id : ModelId
  path : String
  memoryMb : UInt32
  deriving DecidableEq

inductive GgufError
  | generationFailed (message : String)
  /-- Whatever the backend reports. -/
  | backend (message : String)
  deriving DecidableEq

/-- A request for local inference, with what the backend does if it is asked to load the model,
and to generate the text. -/
structure LocalRequest where
  path : String
  loadModel : Outcome GgufError (ModelId × UInt32)
  generateText : Outcome GgufError String
  deriving DecidableEq

/-- The text that is returned, with the id of the model that the response names. -/
structure GeneratedText where
  text : String
  modelId : ModelId
  deriving DecidableEq

/-- The engine: the cached model behind its mutex, which a panic poisons. -/
structure GgufEngine where
  cached : Option GgufModelHandle
  poisoned : Bool
  deriving DecidableEq

namespace GgufEngine

/-- Have the backend load the model, and cache it. -/
def loadFromFile (r : LocalRequest) : Action GgufEngine GgufError Unit := fun e =>
  match r.loadModel with
  | .ok (id, memoryMb) => ⟨.ok (), { e with cached := some ⟨id, r.path, memoryMb⟩ }, []⟩
  | .err error => ⟨.err error, e, []⟩
  | .panic => ⟨.panic, { e with poisoned := true }, []⟩

/-- Load a model, keeping the cached one if it has the same path. -/
def load (r : LocalRequest) : Action GgufEngine GgufError Unit := fun e =>
  if e.poisoned then ⟨.panic, e, []⟩
  else
    match e.cached with
    | some h => if h.path = r.path then ⟨.ok (), e, []⟩ else loadFromFile r e
    | none => loadFromFile r e

/-- Generate text using the cached model. -/
def generate (r : LocalRequest) : Action GgufEngine GgufError GeneratedText := fun e =>
  if e.poisoned then ⟨.panic, e, []⟩
  else
    match e.cached with
    | none => ⟨.err (.generationFailed "No model loaded — call load() first"), e, []⟩
    | some model =>
        match r.generateText with
        | .ok text => ⟨.ok ⟨text, model.id⟩, e, []⟩
        | .err error => ⟨.err error, e, []⟩
        | .panic => ⟨.panic, { e with poisoned := true }, []⟩

end GgufEngine

/-- What is left of a request. -/
inductive LocalTask
  | load (r : LocalRequest)
  | generate (r : LocalRequest)
  deriving DecidableEq

/-- A text that was returned: the path the request asked for, the model that was loaded while it
was generated, and the text. -/
structure ServedText where
  path : String
  loaded : Option GgufModelHandle
  response : GeneratedText
  deriving DecidableEq

/-- The engine, and the texts it has returned. -/
structure EngineWorld where
  engine : GgufEngine
  served : List ServedText
  deriving DecidableEq

/-- The next section of a request: `load`, and after it `generate`. -/
def LocalTask.advance (w : EngineWorld) : LocalTask → EngineWorld × Option LocalTask
  | .load r =>
      let loaded := GgufEngine.load r w.engine
      match loaded.outcome with
      | .ok () => ({ w with engine := loaded.state }, some (.generate r))
      | _ => ({ w with engine := loaded.state }, none)
  | .generate r =>
      let generated := GgufEngine.generate r w.engine
      match generated.outcome with
      | .ok response =>
          (⟨generated.state, w.served ++ [⟨r.path, w.engine.cached, response⟩]⟩, none)
      | _ => ({ w with engine := generated.state }, none)

/-- The engine with the requests that are being served. -/
abbrev EnginePool := Pool EngineWorld LocalTask

/-- A request arrives, or one goes on. -/
def engineStep (p : EnginePool) : Lib.Move LocalRequest → EnginePool
  | .start r => p.step LocalTask.advance (.start (.load r))
  | .resume k => p.step LocalTask.advance (.resume k)

def idleEngine : EnginePool := ⟨⟨⟨none, false⟩, []⟩, []⟩

/-- **Every text comes from the model that was asked for.** -/
def ServesOwnModel (p : EnginePool) : Prop :=
  ∀ t ∈ p.shared.served, ∃ h, t.loaded = some h ∧ h.path = t.path

/-! ## The condition on a run -/

/-- The load would replace the cached model. -/
def Replaces (r : LocalRequest) (e : GgufEngine) : Prop :=
  e.poisoned = false ∧ (∀ h, e.cached = some h → h.path ≠ r.path) ∧ r.loadModel.isOk

/-- A request whose load replaces the cached model finds no request for another one between its
own load and its generation. -/
def NobodyDisplaced (p : EnginePool) : Lib.Move LocalRequest → Prop
  | .start _ => True
  | .resume k => ∀ r, p.taskAt k = some (.load r) → Replaces r p.shared.engine →
      ∀ j r', p.taskAt j = some (.generate r') → r'.path = r.path

/-! ## The invariant -/

/-- The cached model has this path. -/
def GgufEngine.Holds (e : GgufEngine) (path : String) : Prop :=
  ∃ h, e.cached = some h ∧ h.path = path

/-- Every text so far is right, and every request that is about to generate finds its model. -/
structure EngineSound (p : EnginePool) : Prop where
  served : ServesOwnModel p
  ready : ∀ j r, p.taskAt j = some (.generate r) → p.shared.engine.Holds r.path

section Sections

variable {e : GgufEngine} {r : LocalRequest}

/-- **What `load` does.**  It leaves the model cached that it was asked for, or fails and leaves
the one that was cached; and where it had another one before, it has replaced it. -/
theorem load_cases (r : LocalRequest) (e : GgufEngine) :
    ((GgufEngine.load r e).outcome = .ok () ∧ (GgufEngine.load r e).state.Holds r.path ∧
      (Replaces r e ∨ (GgufEngine.load r e).state = e)) ∨
    ((GgufEngine.load r e).outcome ≠ .ok () ∧ (GgufEngine.load r e).state.cached = e.cached) := by
  unfold GgufEngine.load
  cases hp : e.poisoned with
  | true => exact .inr ⟨nofun, rfl⟩
  | false =>
      have hfile : (∀ h, e.cached = some h → h.path ≠ r.path) →
          ((GgufEngine.loadFromFile r e).outcome = .ok () ∧
            (GgufEngine.loadFromFile r e).state.Holds r.path ∧
            (Replaces r e ∨ (GgufEngine.loadFromFile r e).state = e)) ∨
          ((GgufEngine.loadFromFile r e).outcome ≠ .ok () ∧
            (GgufEngine.loadFromFile r e).state.cached = e.cached) := by
        intro hother
        unfold GgufEngine.loadFromFile
        cases hload : r.loadModel with
        | ok loaded => exact .inl ⟨rfl, ⟨_, rfl, rfl⟩, .inl ⟨hp, hother, by rw [hload]; rfl⟩⟩
        | err error => exact .inr ⟨nofun, rfl⟩
        | panic => exact .inr ⟨nofun, rfl⟩
      rw [if_neg Bool.false_ne_true]
      split
      · rename_i h hc
        by_cases hpath : h.path = r.path
        · rw [if_pos hpath]
          exact .inl ⟨rfl, ⟨h, hc, hpath⟩, .inr rfl⟩
        · rw [if_neg hpath]
          refine hfile ?_
          intro h' hh'
          rw [hc] at hh'
          exact Option.some.inj hh' ▸ hpath
      · rename_i hc
        exact hfile (by rw [hc]; nofun)

theorem cached_generate (r : LocalRequest) (e : GgufEngine) :
    (GgufEngine.generate r e).state.cached = e.cached := by
  unfold GgufEngine.generate
  split
  · rfl
  · split
    · rfl
    · split <;> rfl

end Sections

/-! ## Runs -/

variable {p : EnginePool}

theorem engineSound_start (h : EngineSound p) (r : LocalRequest) :
    EngineSound (engineStep p (.start r)) := by
  refine ⟨h.served, ?_⟩
  intro j r' hj
  have hj : (p.step LocalTask.advance (.start (.load r))).taskAt j = some (.generate r') := hj
  rw [Pool.taskAt_start] at hj
  split at hj
  · cases hj
  · exact h.ready j r' hj

theorem engineSound_load (h : EngineSound p) {k : ℕ} {r : LocalRequest}
    (hk : p.taskAt k = some (.load r)) (hclean : NobodyDisplaced p (.resume k)) :
    EngineSound (engineStep p (.resume k)) := by
  have hshared : (engineStep p (.resume k)).shared = (LocalTask.advance p.shared (.load r)).1 :=
    Pool.shared_resume hk
  have htask : ∀ j, (engineStep p (.resume k)).taskAt j =
      if j = k then (LocalTask.advance p.shared (.load r)).2 else p.taskAt j :=
    Pool.taskAt_resume hk
  rcases load_cases r p.shared.engine with ⟨hok, hholds, hwhy⟩ | ⟨hfail, hsame⟩
  · have hadvance : LocalTask.advance p.shared (.load r) =
        ({ p.shared with engine := (GgufEngine.load r p.shared.engine).state },
          some (.generate r)) := by
      simp only [LocalTask.advance, hok]
    rw [hadvance] at hshared htask
    refine ⟨by unfold ServesOwnModel; rw [hshared]; exact h.served, ?_⟩
    intro j r' hj
    rw [hshared]
    rw [htask] at hj
    split at hj
    · cases hj
      exact hholds
    · rcases hwhy with hrep | hunchanged
      · rw [hclean r hk hrep j r' hj]
        exact hholds
      · show (GgufEngine.load r p.shared.engine).state.Holds r'.path
        rw [hunchanged]
        exact h.ready j r' hj
  · have hadvance : LocalTask.advance p.shared (.load r) =
        ({ p.shared with engine := (GgufEngine.load r p.shared.engine).state }, none) := by
      unfold LocalTask.advance
      dsimp only
      split
      · rename_i hok
        exact absurd hok hfail
      · rfl
    rw [hadvance] at hshared htask
    refine ⟨by unfold ServesOwnModel; rw [hshared]; exact h.served, ?_⟩
    intro j r' hj
    rw [htask] at hj
    split at hj
    · cases hj
    · obtain ⟨m, hm, hpath⟩ := h.ready j r' hj
      rw [hshared]
      exact ⟨m, hsame.trans hm, hpath⟩

theorem engineSound_generate (h : EngineSound p) {k : ℕ} {r : LocalRequest}
    (hk : p.taskAt k = some (.generate r)) : EngineSound (engineStep p (.resume k)) := by
  have hshared : (engineStep p (.resume k)).shared =
      (LocalTask.advance p.shared (.generate r)).1 := Pool.shared_resume hk
  have htask : ∀ j, (engineStep p (.resume k)).taskAt j =
      if j = k then (LocalTask.advance p.shared (.generate r)).2 else p.taskAt j :=
    Pool.taskAt_resume hk
  have hcached := cached_generate r p.shared.engine
  have hready : ∀ w : EngineWorld, w.engine = (GgufEngine.generate r p.shared.engine).state →
      ∀ j r', p.taskAt j = some (.generate r') → w.engine.Holds r'.path := by
    intro w hw j r' hj
    obtain ⟨m, hm, hpath⟩ := h.ready j r' hj
    rw [hw]
    exact ⟨m, hcached.trans hm, hpath⟩
  have hdone : (LocalTask.advance p.shared (.generate r)).2 = none := by
    unfold LocalTask.advance
    dsimp only
    split <;> rfl
  have hengine : (LocalTask.advance p.shared (.generate r)).1.engine =
      (GgufEngine.generate r p.shared.engine).state := by
    unfold LocalTask.advance
    dsimp only
    split <;> rfl
  refine ⟨?_, ?_⟩
  · unfold ServesOwnModel
    rw [hshared]
    unfold LocalTask.advance
    dsimp only
    split
    · intro t ht
      rcases List.mem_append.1 ht with ht | ht
      · exact h.served t ht
      · rw [List.mem_singleton.1 ht]
        exact h.ready k r hk
    · exact h.served
  · intro j r' hj
    rw [hshared]
    rw [htask, hdone] at hj
    split at hj
    · cases hj
    · exact hready _ hengine j r' hj

theorem engineSound_step (h : EngineSound p) {m : Lib.Move LocalRequest} (hclean : NobodyDisplaced p m) :
    EngineSound (engineStep p m) := by
  cases m with
  | start r => exact engineSound_start h r
  | resume k =>
      cases hk : p.taskAt k with
      | none =>
          have hsame : engineStep p (.resume k) = p := Pool.step_resume_none hk
          rw [hsame]
          exact h
      | some t =>
          cases t with
          | load r => exact engineSound_load h hk hclean
          | generate r => exact engineSound_generate h hk

theorem engineSound_idle : EngineSound idleEngine where
  served := nofun
  ready := by
    intro j r hj
    cases hj

/-- **Every request is answered by its own model.**  In every interleaving in which no load
displaces the model of a request that has yet to generate, every text was generated while
the model of its own request was loaded. -/
theorem engine_serves_own_model (ms : List (Lib.Move LocalRequest))
    (hclean : Along engineStep NobodyDisplaced idleEngine ms) :
    Always engineStep ServesOwnModel idleEngine ms := by
  have hsound : Always engineStep EngineSound idleEngine ms :=
    always_of_inv (fun _ _ h hm => engineSound_step h hm) engineSound_idle hclean
  exact fun pre post hsplit => (hsound pre post hsplit).served

/-! ## Two requests -/

def askLlama : LocalRequest := ⟨"models/llama.gguf", .ok ("llama", 4096), .ok "I am a llama."⟩

def askPhi : LocalRequest := ⟨"models/phi.gguf", .ok ("phi", 2048), .ok "I am phi."⟩

/-- One request after the other. -/
theorem engine_serves_in_turn :
    Always engineStep ServesOwnModel idleEngine
      [.start askLlama, .resume 0, .resume 0, .start askPhi, .resume 1, .resume 1] := by
  refine engine_serves_own_model _ ⟨trivial, ?_, ?_, trivial, ?_, ?_, trivial⟩
  · intro r hr hrep j r' hj
    cases List.mem_singleton.1 (Pool.mem_tasks_of_taskAt hj)
  · intro r hr
    cases hr
  · intro r hr hrep j r' hj
    rcases List.mem_pair.1 (Pool.mem_tasks_of_taskAt hj) with h | h <;> cases h
  · intro r hr
    cases hr

/-- **The other model answers.**  Both requests load their models before the first one generates;
its text comes from the second one's model. -/
theorem swapped_model_answers :
    ¬ Always engineStep ServesOwnModel idleEngine
      [.start askLlama, .start askPhi, .resume 0, .resume 1, .resume 0] := by
  intro h
  obtain ⟨m, hm, hpath⟩ := h.last _ (List.mem_singleton_self
    (⟨"models/llama.gguf", some ⟨"phi", "models/phi.gguf", 2048⟩, ⟨"I am a llama.", "phi"⟩⟩ :
      ServedText))
  cases hm
  revert hpath
  decide

end Inference
end PeerClaw
