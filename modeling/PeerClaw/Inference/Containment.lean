import PeerClaw.Inference.Receiver
import PeerClaw.Lib.Machine

/-!
# The files of a download and the models directory

The paths of the partial file and of the final file are made of what a peer says: the id of the
model and its file name.

* `Contained` — whatever has been done to files has been done below the models directory.
* `Careful` — the id and the file name do not lead out of it.
* `downloads_contained_iff` — the one holds throughout a run exactly where the other does.
* `id_escapes` — an id that leads out.
-/

namespace PeerClaw
namespace Inference
namespace Receiver

open Lib

variable {Hash : Type} [DecidableEq Hash] (blake3 : Bytes → Hash)

/-- The calls of a receiver. -/
inductive Call (Hash : Type)
  | startDownload (metadata : ModelMetadata Hash)
  | writeChunk (modelId : ModelId) (chunkIndex : UInt32) (data : Bytes)
  | completeDownload (modelId : ModelId)
  | cancelDownload (modelId : ModelId)

/-- A call, with what the file system answers. -/
def step (r : Receiver Hash) : Io × Call Hash → Receiver Hash
  | (io, .startDownload metadata) => (startDownload io metadata r).state
  | (io, .writeChunk modelId chunkIndex data) =>
      (writeChunk blake3 io modelId chunkIndex data r).state
  | (io, .completeDownload modelId) => (completeDownload blake3 io modelId r).state
  | (io, .cancelDownload modelId) => (cancelDownload io modelId r).state

/-- Whatever has been done to files has been done below the models directory. -/
def Contained (r : Receiver Hash) : Prop := ∀ op ∈ r.done, ∀ p ∈ op.paths, r.modelsDir <+: p

/-- The file of the model can be moved to its place. -/
structure Moves (io : Io) (state : DownloadState Hash) : Prop extends
    Movable blake3 state io where
  complete : state.isComplete = true

/-- A model for which a partial file is created has an id that, below the directory for partial
files, stays in the models directory, and one that is moved to its place has such a file name. -/
def Careful (r : Receiver Hash) : Io × Call Hash → Prop
  | (io, .startDownload metadata) =>
      Creates io metadata r → Path.Under r.modelsDir 1 (metadata.id ++ ".partial")
  | (io, .completeDownload modelId) =>
      ∀ state, r.pendingDownloads.lookup modelId = some state →
        Moves blake3 io state.toDownloadState →
          Path.Under r.modelsDir 0 state.metadata.filename
  | _ => True

/-- And so are the paths of the partial files. -/
structure Keeping (r : Receiver Hash) : Prop where
  contained : r.Contained
  pending : ∀ id state, r.pendingDownloads.lookup id = some state → r.modelsDir <+: state.path

variable {blake3} {r : Receiver Hash} {metadata : ModelMetadata Hash}

section Paths

omit [DecidableEq Hash]

theorem tempDir_eq (r : Receiver Hash) : r.tempDir = r.modelsDir ++ ["partial"] :=
  Path.join_of_plain r.modelsDir (by decide) (by decide) (by decide) (by decide)

/-- The partial file is in the models directory exactly if the id does not lead out. -/
theorem isPrefix_path_iff (r : Receiver Hash) (metadata : ModelMetadata Hash) :
    r.modelsDir <+: (PartialDownload.new metadata r.tempDir).path ↔
      Path.Under r.modelsDir 1 (metadata.id ++ ".partial") := by
  unfold PartialDownload.new
  rw [tempDir_eq]
  exact Path.isPrefix_join_iff r.modelsDir ["partial"] (metadata.id ++ ".partial")

/-- The final file is in the models directory exactly if its name does not lead out. -/
theorem isPrefix_finalPath_iff (r : Receiver Hash) (metadata : ModelMetadata Hash) :
    r.modelsDir <+: r.finalPath metadata ↔ Path.Under r.modelsDir 0 metadata.filename := by
  have h := Path.isPrefix_join_iff r.modelsDir [] metadata.filename
  rw [List.append_nil] at h
  exact h

theorem contained_did_iff (r : Receiver Hash) (op : FileOp) :
    (r.did op).Contained ↔ r.Contained ∧ ∀ p ∈ op.paths, r.modelsDir <+: p := by
  unfold Contained did
  simp only [List.forall_mem_append, List.forall_mem_singleton]

theorem contained_did_tempDir_iff (r : Receiver Hash) :
    (r.did (.createDirAll r.tempDir)).Contained ↔ r.Contained := by
  rw [contained_did_iff]
  refine and_iff_left fun p hp => ?_
  obtain rfl := List.mem_singleton.1 hp
  rw [tempDir_eq]
  exact List.prefix_append _ _

theorem contained_created_iff (r : Receiver Hash) (metadata : ModelMetadata Hash) :
    (r.created metadata).Contained ↔
      r.Contained ∧ Path.Under r.modelsDir 1 (metadata.id ++ ".partial") := by
  unfold created
  rw [contained_did_iff, contained_did_tempDir_iff, ← isPrefix_path_iff]
  exact and_congr_right fun _ => List.forall_mem_singleton

end Paths

/-! ## One call -/

omit [DecidableEq Hash] in
theorem Keeping.congr {r' : Receiver Hash} (h : Keeping r) (hdir : r'.modelsDir = r.modelsDir)
    (hcontained : r'.Contained)
    (hpending : ∀ id state, r'.pendingDownloads.lookup id = some state →
      r.pendingDownloads.lookup id = some state) : Keeping r' := by
  refine ⟨hcontained, fun id state hlook => ?_⟩
  rw [hdir]
  exact h.pending id state (hpending id state hlook)

omit [DecidableEq Hash] in
theorem startDownload_contained (h : Keeping r) (io : Io) (metadata : ModelMetadata Hash) :
    ((startDownload io metadata r).state.Contained ↔
      (Creates io metadata r → Path.Under r.modelsDir 1 (metadata.id ++ ".partial"))) ∧
    ((startDownload io metadata r).state.Contained → Keeping (startDownload io metadata r).state) := by
  generalize hstart : startDownload io metadata r = effect
  have hspec := hstart ▸ startDownload_spec io metadata r
  cases hspec with
  | refused not => exact ⟨iff_of_true h.contained fun hc => absurd hc not, fun _ => h⟩
  | notCreated not =>
      have hcontained := (contained_did_tempDir_iff r).2 h.contained
      exact ⟨iff_of_true hcontained fun hc => absurd hc not,
        fun _ => h.congr rfl hcontained fun _ _ hlook => hlook⟩
  | notSized creates =>
      refine ⟨?_, fun hcontained => h.congr rfl hcontained fun _ _ hlook => hlook⟩
      rw [contained_created_iff]
      exact ⟨fun hc _ => hc.2, fun hunder => ⟨h.contained, hunder creates⟩⟩
  | started creates =>
      have hiff : (r.started metadata).Contained ↔ (r.created metadata).Contained := by
        refine (contained_did_iff _ _).trans (and_iff_left_of_imp fun hcontained p hp => ?_)
        obtain rfl := List.mem_singleton.1 hp
        exact (isPrefix_path_iff r metadata).2 ((contained_created_iff r metadata).1 hcontained).2
      refine ⟨?_, fun hcontained => ⟨hcontained, fun id state hlook => ?_⟩⟩
      · rw [hiff, contained_created_iff]
        exact ⟨fun hc _ => hc.2, fun hunder => ⟨h.contained, hunder creates⟩⟩
      · have hlook : (r.pendingDownloads.insert metadata.id
            (.new metadata r.tempDir)).lookup id = some state := hlook
        rw [Finmap.lookup_insert_eq] at hlook
        split at hlook
        · obtain rfl := Option.some.inj hlook
          exact (isPrefix_path_iff r metadata).2
            ((contained_created_iff r metadata).1 (hiff.1 hcontained)).2
        · exact h.pending id state hlook

theorem writeChunk_contained (h : Keeping r) (io : Io) (modelId : ModelId) (index : UInt32)
    (data : Bytes) : Keeping (writeChunk blake3 io modelId index data r).state := by
  generalize hwrite : writeChunk blake3 io modelId index data r = effect
  have hspec := hwrite ▸ writeChunk_spec blake3 io modelId index data r
  have hdid : ∀ {state : PartialDownload Hash}, r.pendingDownloads.lookup modelId = some state →
      ∀ offset data, (r.did (.write state.path offset data)).Contained := by
    intro state lookup offset data
    refine (contained_did_iff _ _).2 ⟨h.contained, fun p hp => ?_⟩
    obtain rfl := List.mem_singleton.1 hp
    exact h.pending modelId state lookup
  cases hspec with
  | refused => exact h
  | failed written lookup valid =>
      exact h.congr rfl (hdid lookup _ _) fun _ _ hlook => hlook
  | wrote lookup valid =>
      rename_i state
      refine ⟨hdid lookup _ _, fun id state' hlook => ?_⟩
      have hlook : (r.pendingDownloads.insert modelId _).lookup id = some state' := hlook
      rw [Finmap.lookup_insert_eq] at hlook
      split at hlook
      · obtain rfl := Option.some.inj hlook
        exact h.pending modelId state lookup
      · exact h.pending id state' hlook

omit [DecidableEq Hash] in
theorem Keeping.take (h : Keeping r) (modelId : ModelId) : Keeping (r.take modelId) := by
  refine h.congr rfl h.contained fun id state hlook => ?_
  have hlook : (r.pendingDownloads.erase modelId).lookup id = some state := hlook
  rw [Finmap.lookup_erase_eq] at hlook
  split at hlook
  · cases hlook
  · exact hlook

omit [DecidableEq Hash] in
theorem Keeping.removed (h : Keeping r) {modelId : ModelId} {state : PartialDownload Hash}
    (lookup : r.pendingDownloads.lookup modelId = some state) (removed : Bool) :
    Keeping (if removed then (r.take modelId).did (.remove state.path) else r.take modelId) := by
  have htake := h.take modelId
  split
  · refine htake.congr rfl ((contained_did_iff _ _).2 ⟨htake.contained, fun p hp => ?_⟩)
      fun _ _ hlook => hlook
    obtain rfl := List.mem_singleton.1 hp
    exact h.pending modelId state lookup
  · exact htake

theorem completeDownload_contained (h : Keeping r) (io : Io) (modelId : ModelId) :
    ((completeDownload blake3 io modelId r).state.Contained ↔
      ∀ state, r.pendingDownloads.lookup modelId = some state →
        Moves blake3 io state.toDownloadState →
          Path.Under r.modelsDir 0 state.metadata.filename) ∧
    ((completeDownload blake3 io modelId r).state.Contained →
      Keeping (completeDownload blake3 io modelId r).state) := by
  generalize hcomplete : completeDownload blake3 io modelId r = effect
  have hspec := hcomplete ▸ completeDownload_spec blake3 io modelId r
  -- a download that is not moved
  have hkept : ∀ {state : PartialDownload Hash} {r' : Receiver Hash}, Keeping r' →
      r.pendingDownloads.lookup modelId = some state →
      ¬ Moves blake3 io state.toDownloadState →
      (r'.Contained ↔ ∀ state, r.pendingDownloads.lookup modelId = some state →
        Moves blake3 io state.toDownloadState →
          Path.Under r.modelsDir 0 state.metadata.filename) ∧ (r'.Contained → Keeping r') := by
    intro state r' hr lookup hnot
    refine ⟨iff_of_true hr.contained fun state' lookup' hmoves => ?_, fun _ => hr⟩
    obtain rfl := Option.some.inj (lookup.symm.trans lookup')
    exact absurd hmoves hnot
  cases hspec with
  | absent lookup =>
      refine ⟨iff_of_true h.contained fun state lookup' => ?_, fun _ => h⟩
      rw [lookup] at lookup'
      cases lookup'
  | incomplete lookup missing =>
      refine hkept (h.take modelId) lookup fun hmoves => ?_
      exact Bool.false_ne_true (missing.symm.trans hmoves.complete)
  | unread lookup complete read =>
      refine hkept (h.take modelId) lookup fun hmoves => ?_
      obtain ⟨contents, hread, -⟩ := hmoves.contents
      rw [read] at hread
      cases hread
  | mismatch lookup complete read wrong =>
      refine hkept (h.removed lookup io.remove) lookup fun hmoves => ?_
      obtain ⟨contents, hread, hright⟩ := hmoves.contents
      obtain rfl := Except.ok.inj (read.symm.trans hread)
      exact wrong hright
  | unmoved lookup complete read right rename =>
      refine hkept (h.take modelId) lookup fun hmoves => ?_
      have hrename := hmoves.rename
      rw [rename] at hrename
      cases hrename
  | moved lookup complete read right rename =>
      rename_i state contents
      have hiff : ((r.take modelId).did (.rename state.path (r.finalPath state.metadata))).Contained ↔
          Path.Under r.modelsDir 0 state.metadata.filename := by
        rw [contained_did_iff, ← isPrefix_finalPath_iff]
        constructor
        · exact fun hc => hc.2 _ (List.mem_cons_of_mem _ List.mem_cons_self)
        · intro hfinal
          refine ⟨(h.take modelId).contained, fun p hp => ?_⟩
          rcases List.mem_cons.1 hp with rfl | hp
          · exact h.pending modelId state lookup
          · obtain rfl := List.mem_singleton.1 hp
            exact hfinal
      refine ⟨hiff.trans ⟨fun hunder state' lookup' _ => ?_, fun hunder => ?_⟩, fun hcontained => ?_⟩
      · obtain rfl := Option.some.inj (lookup.symm.trans lookup')
        exact hunder
      · exact hunder state lookup ⟨⟨⟨contents, read, right⟩, rename⟩, complete⟩
      · exact (h.take modelId).congr rfl hcontained fun _ _ hlook => hlook

omit [DecidableEq Hash] in
theorem cancelDownload_contained (h : Keeping r) (io : Io) (modelId : ModelId) :
    Keeping (cancelDownload io modelId r).state := by
  unfold cancelDownload
  cases hlook : r.pendingDownloads.lookup modelId with
  | none => exact h
  | some state => exact h.removed hlook io.remove

/-! ## All calls -/

theorem step_contained (h : Keeping r) (call : Io × Call Hash) :
    ((step blake3 r call).Contained ↔ Careful blake3 r call) ∧
      ((step blake3 r call).Contained → Keeping (step blake3 r call)) := by
  obtain ⟨io, call⟩ := call
  cases call with
  | startDownload metadata => exact startDownload_contained h io metadata
  | writeChunk modelId chunkIndex data =>
      have hnext : Keeping (writeChunk blake3 io modelId chunkIndex data r).state :=
        writeChunk_contained h io modelId chunkIndex data
      exact ⟨iff_of_true hnext.contained trivial, fun _ => hnext⟩
  | completeDownload modelId => exact completeDownload_contained h io modelId
  | cancelDownload modelId =>
      have hnext : Keeping (cancelDownload io modelId r).state := cancelDownload_contained h io modelId
      exact ⟨iff_of_true hnext.contained trivial, fun _ => hnext⟩

/-- **Files stay in the models directory**, in all calls of a run, exactly as long as no id and no
file name leads out of it. -/
theorem downloads_contained_iff (blake3 : Bytes → Hash) (modelsDir : Path)
    (availableModels : FiniteMap ModelId (ModelMetadata Hash)) (calls : List (Io × Call Hash)) :
    Machine.Always (step blake3) Contained (new modelsDir availableModels) calls ↔
      Machine.Along (step blake3) (Careful blake3) (new modelsDir availableModels) calls := by
  have hnew : Keeping (new modelsDir availableModels) :=
    ⟨fun op hop => absurd hop List.not_mem_nil, fun id state hlook => nomatch hlook⟩
  exact Machine.always_iff_along (fun r h => h.contained)
    (fun r call h _ => (step_contained h call).1)
    (fun r call h _ => (step_contained h call).2) hnew Machine.along_true

/-- **An id leads out of the models directory.** -/
theorem id_escapes :
    ¬ Machine.Always (step id) Contained (new ["data", "models"] ∅)
      [(Io.fine [], .startDownload ⟨"../../evil", 1, 1, [1], [[1]], "m.gguf"⟩)] := by
  intro h
  have hdone := h.last
  exact absurd (hdone (.create ["data", "evil.partial"]) (by decide +kernel) _ List.mem_cons_self)
    (by decide)

end Receiver
end Inference
end PeerClaw
