import PeerClaw.Inference.Distribution
import PeerClaw.Lib.Paths

/-!
# The receiver of a model and its files

The downloads of `ModelDistributor` in `inference/distribution.rs` once more, with the paths they
name and a file system that may fail at every step.  What the file system answers is a parameter
of each call; what is done to files is written down.

* `Receiver` — the downloads, and what they have done to files.
* `startDownload`, `writeChunk`, `completeDownload`, `cancelDownload`.
* `KeepsDownload` — a download that cannot be completed yet is kept; `keepsDownload_iff` — it is
  only where it can be completed.
-/

namespace PeerClaw
namespace Inference

open Lib

/-- What is done to a file. -/
inductive FileOp
  | createDirAll (path : Path)
  | create (path : Path)
  | setLen (path : Path) (size : ℕ)
  | write (path : Path) (offset : ℕ) (data : Bytes)
  | remove (path : Path)
  | rename (path target : Path)
  deriving DecidableEq

/-- The files that it is done to. -/
def FileOp.paths : FileOp → List Path
  | .createDirAll path => [path]
  | .create path => [path]
  | .setLen path _ => [path]
  | .write path _ _ => [path]
  | .remove path => [path]
  | .rename path target => [path, target]

/-- What the file system answers in the course of a call. -/
structure Io where
  createDirAll : Except String Unit
  create : Except String Unit
  setLen : Except String Unit
  openWrite : Except String Unit
  seek : Except String Unit
  /-- `write_all` may fail after some of the bytes. -/
  writeAll : Except (ℕ × String) Unit
  read : Except String Bytes
  remove : Bool
  rename : Except String Unit

/-- A file system that answers well, and reads these contents. -/
def Io.fine (contents : Bytes) : Io :=
  ⟨.ok (), .ok (), .ok (), .ok (), .ok (), .ok (), .ok contents, true, .ok ()⟩

variable {Hash : Type} [DecidableEq Hash] (blake3 : Bytes → Hash)

/-- A download, with the path of its partial file. -/
structure PartialDownload (Hash : Type) extends DownloadState Hash where
  path : Path

/-- `DownloadState::new`: the path is below the directory for partial files, unless the id says
otherwise. -/
def PartialDownload.new (metadata : ModelMetadata Hash) (tempDir : Path) : PartialDownload Hash where
  toDownloadState := .new metadata
  path := tempDir.join (metadata.id ++ ".partial")

/-- What a peer has of the models that it downloads. -/
structure Receiver (Hash : Type) where
  modelsDir : Path
  availableModels : FiniteMap ModelId (ModelMetadata Hash)
  pendingDownloads : FiniteMap ModelId (PartialDownload Hash)
  /-- What has been done to files, in order. -/
  done : List FileOp

namespace Receiver

/-- A receiver that downloads nothing yet. -/
def new (modelsDir : Path) (availableModels : FiniteMap ModelId (ModelMetadata Hash)) :
    Receiver Hash :=
  ⟨modelsDir, availableModels, ∅, []⟩

/-- Something is done to a file. -/
def did (r : Receiver Hash) (op : FileOp) : Receiver Hash := { r with done := r.done ++ [op] }

/-- The directory of the partial files. -/
def tempDir (r : Receiver Hash) : Path := r.modelsDir.join "partial"

/-- Where the file of a model goes in the end. -/
def finalPath (r : Receiver Hash) (metadata : ModelMetadata Hash) : Path :=
  r.modelsDir.join metadata.filename

/-- Start downloading a model from a peer. -/
def startDownload (io : Io) (metadata : ModelMetadata Hash) :
    Action (Receiver Hash) (DistributionError Hash) Unit := fun r =>
  if metadata.id ∈ r.availableModels then ⟨.err (.modelExists metadata.id), r, []⟩
  else if metadata.id ∈ r.pendingDownloads then ⟨.err (.alreadyDownloading metadata.id), r, []⟩
  else
    match io.createDirAll with
    | .error e => ⟨.err (.ioError e), r, []⟩
    | .ok () =>
        let r := r.did (.createDirAll r.tempDir)
        let state := PartialDownload.new metadata r.tempDir
        match io.create with
        | .error e => ⟨.err (.ioError e), r, []⟩
        | .ok () =>
            let r := r.did (.create state.path)
            match io.setLen with
            | .error e => ⟨.err (.ioError e), r, []⟩
            | .ok () =>
                let r := r.did (.setLen state.path metadata.sizeBytes)
                ⟨.ok (), { r with
                  pendingDownloads := r.pendingDownloads.insert metadata.id state }, []⟩

/-- Write a received chunk to the partial file. -/
def writeChunk (io : Io) (modelId : ModelId) (chunkIndex : UInt32) (data : Bytes) :
    Action (Receiver Hash) (DistributionError Hash) Bool := fun r =>
  match r.pendingDownloads.lookup modelId with
  | none => ⟨.err (.notDownloading modelId), r, []⟩
  | some state =>
      if state.metadata.verifyChunk blake3 chunkIndex data then
        match io.openWrite with
        | .error e => ⟨.err (.ioError e), r, []⟩
        | .ok () =>
            let offset := chunkIndex.toNat * CHUNK_SIZE
            match io.seek with
            | .error e => ⟨.err (.ioError e), r, []⟩
            | .ok () =>
                match io.writeAll with
                | .error (written, e) =>
                    ⟨.err (.ioError e), r.did (.write state.path offset (data.take written)), []⟩
                | .ok () =>
                    let r := r.did (.write state.path offset data)
                    let marked := state.markReceived chunkIndex data.length
                    ⟨.ok marked.isComplete, { r with
                      pendingDownloads :=
                        r.pendingDownloads.insert modelId { state with toDownloadState := marked } },
                      []⟩
      else ⟨.err (.chunkVerificationFailed modelId chunkIndex), r, []⟩

/-- Complete a download by moving the file to its final location. -/
def completeDownload (io : Io) (modelId : ModelId) :
    Action (Receiver Hash) (DistributionError Hash) Path := fun r =>
  match r.pendingDownloads.lookup modelId with
  | none => ⟨.err (.notDownloading modelId), r, []⟩
  | some state =>
      let r := { r with pendingDownloads := r.pendingDownloads.erase modelId }
      if state.isComplete then
        match io.read with
        | .error e => ⟨.err (.ioError e), r, []⟩
        | .ok fileContents =>
            let fileHash := blake3 fileContents
            if fileHash = state.metadata.fileHash then
              let finalPath := r.finalPath state.metadata
              match io.rename with
              | .error e => ⟨.err (.ioError e), r, []⟩
              | .ok () =>
                  let r := r.did (.rename state.path finalPath)
                  ⟨.ok finalPath, { r with
                    availableModels := r.availableModels.insert modelId state.metadata }, []⟩
            else
              ⟨.err (.fileVerificationFailed modelId state.metadata.fileHash fileHash),
                if io.remove then r.did (.remove state.path) else r, []⟩
      else ⟨.err (.downloadIncomplete modelId), r, []⟩

/-- Cancel a download. -/
def cancelDownload (io : Io) (modelId : ModelId) : Action (Receiver Hash) Empty Bool := fun r =>
  match r.pendingDownloads.lookup modelId with
  | none => ⟨.ok false, r, []⟩
  | some state =>
      let r := { r with pendingDownloads := r.pendingDownloads.erase modelId }
      ⟨.ok true, if io.remove then r.did (.remove state.path) else r, []⟩

/-! ## A download that cannot be completed yet -/

/-- Some chunks, each with what the file system answers when it is written. -/
abbrev Deliveries := List (Io × UInt32 × Bytes)

/-- The chunks are written. -/
def deliver (modelId : ModelId) (r : Receiver Hash) (chunks : Deliveries) : Receiver Hash :=
  chunks.foldl (fun r c => (writeChunk blake3 c.1 modelId c.2.1 c.2.2 r).state) r

/-- The missing chunks of a download, all of which can be written. -/
structure Missing (state : DownloadState Hash) (chunks : Deliveries) : Prop where
  valid : ∀ c ∈ chunks, state.metadata.verifyChunk blake3 c.2.1 c.2.2
  written : ∀ c ∈ chunks, c.1.openWrite = .ok () ∧ c.1.seek = .ok () ∧ c.1.writeAll = .ok ()
  all : ∀ i, state.receivedChunks[i]? = some false → ∃ c ∈ chunks, c.2.1.toNat = i

/-- The file is what it should be, and can be moved. -/
structure Movable (state : DownloadState Hash) (io : Io) : Prop where
  contents : ∃ contents, io.read = .ok contents ∧ blake3 contents = state.metadata.fileHash
  rename : io.rename = .ok ()

/-- The error says that the download is not complete, or that a file operation has failed. -/
def Resumable (modelId : ModelId) (e : DistributionError Hash) : Prop :=
  e = .downloadIncomplete modelId ∨ ∃ message, e = .ioError message

/-- **A download that cannot be completed yet is kept** as it is, and when the missing chunks have
been delivered it can be completed. -/
structure KeepsDownload (io : Io) (modelId : ModelId) (r : Receiver Hash) : Prop where
  kept : ∀ e, (completeDownload blake3 io modelId r).outcome = .err e → Resumable modelId e →
    (completeDownload blake3 io modelId r).state.pendingDownloads.lookup modelId =
      r.pendingDownloads.lookup modelId
  resumed : ∀ e, (completeDownload blake3 io modelId r).outcome = .err e → Resumable modelId e →
    ∀ state chunks io', r.pendingDownloads.lookup modelId = some state →
      Missing blake3 state.toDownloadState chunks → Movable blake3 state.toDownloadState io' →
        (completeDownload blake3 io' modelId
          (deliver blake3 modelId (completeDownload blake3 io modelId r).state chunks)).outcome.isOk

/-- The download is complete, its file can be read, and can be moved unless it is not what it
should be. -/
def Completable (io : Io) (state : DownloadState Hash) : Prop :=
  state.isComplete = true ∧ ∃ contents, io.read = .ok contents ∧
    (blake3 contents = state.metadata.fileHash → io.rename = .ok ())

/-! ## What the calls can do -/

/-- A download is taken out. -/
def take (r : Receiver Hash) (modelId : ModelId) : Receiver Hash :=
  { r with pendingDownloads := r.pendingDownloads.erase modelId }

/-- The partial file of a download is created. -/
structure Creates (io : Io) (metadata : ModelMetadata Hash) (r : Receiver Hash) : Prop where
  unknown : metadata.id ∉ r.availableModels
  idle : metadata.id ∉ r.pendingDownloads
  createDirAll : io.createDirAll = .ok ()
  create : io.create = .ok ()

/-- The directory and the file of a download are created. -/
def created (r : Receiver Hash) (metadata : ModelMetadata Hash) : Receiver Hash :=
  (r.did (.createDirAll r.tempDir)).did (.create (PartialDownload.new metadata r.tempDir).path)

/-- A download is begun. -/
def started (r : Receiver Hash) (metadata : ModelMetadata Hash) : Receiver Hash :=
  { (r.created metadata).did
      (.setLen (PartialDownload.new metadata r.tempDir).path metadata.sizeBytes) with
    pendingDownloads := r.pendingDownloads.insert metadata.id (.new metadata r.tempDir) }

/-- How starting a download ends. -/
inductive Starts (io : Io) (metadata : ModelMetadata Hash) (r : Receiver Hash) :
    Effect (Receiver Hash) (DistributionError Hash) Unit → Prop
  | refused {e : DistributionError Hash} (not : ¬ Creates io metadata r) :
      Starts io metadata r ⟨.err e, r, []⟩
  | notCreated {e : DistributionError Hash} (not : ¬ Creates io metadata r) :
      Starts io metadata r ⟨.err e, r.did (.createDirAll r.tempDir), []⟩
  | notSized {e : DistributionError Hash} (creates : Creates io metadata r) :
      Starts io metadata r ⟨.err e, r.created metadata, []⟩
  | started (creates : Creates io metadata r) :
      Starts io metadata r ⟨.ok (), r.started metadata, []⟩

/-- A chunk is received. -/
def wrote (r : Receiver Hash) (modelId : ModelId) (state : PartialDownload Hash) (index : UInt32)
    (data : Bytes) : Receiver Hash :=
  { r.did (.write state.path (index.toNat * CHUNK_SIZE) data) with
    pendingDownloads := r.pendingDownloads.insert modelId
      { state with toDownloadState := state.markReceived index data.length } }

/-- How writing a chunk ends. -/
inductive Writes (io : Io) (modelId : ModelId) (index : UInt32) (data : Bytes) (r : Receiver Hash) :
    Effect (Receiver Hash) (DistributionError Hash) Bool → Prop
  | refused {e : DistributionError Hash} : Writes io modelId index data r ⟨.err e, r, []⟩
  | failed {state : PartialDownload Hash} {e : DistributionError Hash} (written : ℕ)
      (lookup : r.pendingDownloads.lookup modelId = some state)
      (valid : state.metadata.verifyChunk blake3 index data) :
      Writes io modelId index data r
        ⟨.err e, r.did (.write state.path (index.toNat * CHUNK_SIZE) (data.take written)), []⟩
  | wrote {state : PartialDownload Hash}
      (lookup : r.pendingDownloads.lookup modelId = some state)
      (valid : state.metadata.verifyChunk blake3 index data) :
      Writes io modelId index data r
        ⟨.ok (state.markReceived index data.length).isComplete,
          r.wrote modelId state index data, []⟩

/-- How completing a download ends. -/
inductive Completes (io : Io) (modelId : ModelId) (r : Receiver Hash) :
    Effect (Receiver Hash) (DistributionError Hash) Path → Prop
  | absent (lookup : r.pendingDownloads.lookup modelId = none) :
      Completes io modelId r ⟨.err (.notDownloading modelId), r, []⟩
  | incomplete {state : PartialDownload Hash}
      (lookup : r.pendingDownloads.lookup modelId = some state) (missing : state.isComplete = false) :
      Completes io modelId r ⟨.err (.downloadIncomplete modelId), r.take modelId, []⟩
  | unread {state : PartialDownload Hash} {e : String}
      (lookup : r.pendingDownloads.lookup modelId = some state) (complete : state.isComplete = true)
      (read : io.read = .error e) :
      Completes io modelId r ⟨.err (.ioError e), r.take modelId, []⟩
  | mismatch {state : PartialDownload Hash} {contents : Bytes}
      (lookup : r.pendingDownloads.lookup modelId = some state) (complete : state.isComplete = true)
      (read : io.read = .ok contents) (wrong : blake3 contents ≠ state.metadata.fileHash) :
      Completes io modelId r
        ⟨.err (.fileVerificationFailed modelId state.metadata.fileHash (blake3 contents)),
          if io.remove then (r.take modelId).did (.remove state.path) else r.take modelId, []⟩
  | unmoved {state : PartialDownload Hash} {contents : Bytes} {e : String}
      (lookup : r.pendingDownloads.lookup modelId = some state) (complete : state.isComplete = true)
      (read : io.read = .ok contents) (right : blake3 contents = state.metadata.fileHash)
      (rename : io.rename = .error e) :
      Completes io modelId r ⟨.err (.ioError e), r.take modelId, []⟩
  | moved {state : PartialDownload Hash} {contents : Bytes}
      (lookup : r.pendingDownloads.lookup modelId = some state) (complete : state.isComplete = true)
      (read : io.read = .ok contents) (right : blake3 contents = state.metadata.fileHash)
      (rename : io.rename = .ok ()) :
      Completes io modelId r
        ⟨.ok (r.finalPath state.metadata),
          { (r.take modelId).did (.rename state.path (r.finalPath state.metadata)) with
            availableModels := r.availableModels.insert modelId state.metadata }, []⟩

variable {blake3} {io : Io} {modelId : ModelId} {r : Receiver Hash} {state : PartialDownload Hash}

omit [DecidableEq Hash] in
theorem startDownload_spec (io : Io) (metadata : ModelMetadata Hash) (r : Receiver Hash) :
    Starts io metadata r (startDownload io metadata r) := by
  unfold startDownload
  split
  · rename_i hknown
    exact .refused fun h => h.unknown hknown
  split
  · rename_i hpending
    exact .refused fun h => h.idle hpending
  rename_i hnew hidle
  cases hdir : io.createDirAll with
  | error e => exact .refused fun h => nomatch hdir ▸ h.createDirAll
  | ok u =>
      cases hcreate : io.create with
      | error e => exact .notCreated fun h => nomatch hcreate ▸ h.create
      | ok u =>
          have hcreates : Creates io metadata r := ⟨hnew, hidle, hdir, hcreate⟩
          cases io.setLen with
          | error e => exact .notSized hcreates
          | ok u => exact .started hcreates

theorem writeChunk_spec (blake3 : Bytes → Hash) (io : Io) (modelId : ModelId) (index : UInt32)
    (data : Bytes) (r : Receiver Hash) :
    Writes blake3 io modelId index data r (writeChunk blake3 io modelId index data r) := by
  unfold writeChunk
  cases hlook : r.pendingDownloads.lookup modelId with
  | none => exact .refused
  | some state =>
      dsimp only
      split
      · rename_i hvalid
        cases io.openWrite with
        | error e => exact .refused
        | ok u =>
            cases io.seek with
            | error e => exact .refused
            | ok u =>
                rcases io.writeAll with ⟨written, e⟩ | u
                · exact .failed written hlook hvalid
                · exact .wrote hlook hvalid
      · exact .refused

theorem completeDownload_spec (blake3 : Bytes → Hash) (io : Io) (modelId : ModelId)
    (r : Receiver Hash) : Completes blake3 io modelId r (completeDownload blake3 io modelId r) := by
  unfold completeDownload
  cases hlook : r.pendingDownloads.lookup modelId with
  | none => exact .absent hlook
  | some state =>
      dsimp only
      cases hcomplete : state.isComplete with
      | false => exact .incomplete hlook hcomplete
      | true =>
          rw [if_pos rfl]
          cases hread : io.read with
          | error e => exact .unread hlook hcomplete hread
          | ok contents =>
              dsimp only
              by_cases hhash : blake3 contents = state.metadata.fileHash
              · rw [if_pos hhash]
                cases hrename : io.rename with
                | error e => exact .unmoved hlook hcomplete hread hhash hrename
                | ok u => exact .moved hlook hcomplete hread hhash hrename
              · rw [if_neg hhash]
                exact .mismatch hlook hcomplete hread hhash

omit [DecidableEq Hash] in
theorem Completes.gone {effect : Effect (Receiver Hash) (DistributionError Hash) Path}
    (h : Completes blake3 io modelId r effect) :
    effect.state.pendingDownloads.lookup modelId = none := by
  have htake : (r.take modelId).pendingDownloads.lookup modelId = none :=
    Finmap.lookup_erase modelId r.pendingDownloads
  cases h with
  | absent lookup => exact lookup
  | incomplete => exact htake
  | unread => exact htake
  | mismatch =>
      dsimp only
      split
      · exact htake
      · exact htake
  | unmoved => exact htake
  | moved => exact htake

theorem completeDownload_gone (io : Io) (modelId : ModelId) (r : Receiver Hash) :
    (completeDownload blake3 io modelId r).state.pendingDownloads.lookup modelId = none :=
  (completeDownload_spec blake3 io modelId r).gone

theorem deliver_gone (h : r.pendingDownloads.lookup modelId = none) (chunks : Deliveries) :
    deliver blake3 modelId r chunks = r := by
  induction chunks with
  | nil => rfl
  | cons c chunks ih =>
      have hwrite : (writeChunk blake3 c.1 modelId c.2.1 c.2.2 r).state = r := by
        unfold writeChunk
        rw [h]
      unfold deliver at ih ⊢
      rw [List.foldl_cons, hwrite]
      exact ih

/-- **After an attempt to complete it, a download cannot be resumed**: no chunk is written, and it
is never complete. -/
theorem completeDownload_final (io io' : Io) (modelId : ModelId) (r : Receiver Hash)
    (chunks : Deliveries) :
    (completeDownload blake3 io' modelId
      (deliver blake3 modelId (completeDownload blake3 io modelId r).state chunks)).outcome =
        .err (.notDownloading modelId) := by
  have hgone : (completeDownload blake3 io modelId r).state.pendingDownloads.lookup modelId = none :=
    completeDownload_gone io modelId r
  rw [deliver_gone hgone]
  generalize (completeDownload blake3 io modelId r).state = r' at hgone ⊢
  unfold completeDownload
  rw [hgone]

omit [DecidableEq Hash] in
theorem not_completable_iff {state : DownloadState Hash} :
    ¬ Completable blake3 io state ↔ state.isComplete = false ∨
      ∀ contents, io.read = .ok contents →
        blake3 contents = state.metadata.fileHash ∧ io.rename ≠ .ok () := by
  unfold Completable
  rw [not_and_or, Bool.not_eq_true]
  refine or_congr Iff.rfl ?_
  push Not
  rfl

omit [DecidableEq Hash] in
/-- Completing a download says that it can be tried again exactly where there is one that cannot be
completed. -/
theorem Completes.resumable_iff {effect : Effect (Receiver Hash) (DistributionError Hash) Path}
    (h : Completes blake3 io modelId r effect) :
    (∃ e, effect.outcome = .err e ∧ Resumable modelId e) ↔
      ∃ state, r.pendingDownloads.lookup modelId = some state ∧
        ¬ Completable blake3 io state.toDownloadState := by
  have hunique : ∀ {state : PartialDownload Hash},
      r.pendingDownloads.lookup modelId = some state →
      ((∃ state, r.pendingDownloads.lookup modelId = some state ∧
        ¬ Completable blake3 io state.toDownloadState) ↔
          ¬ Completable blake3 io state.toDownloadState) := by
    intro state lookup
    constructor
    · rintro ⟨state', lookup', hnot⟩
      obtain rfl := Option.some.inj (lookup.symm.trans lookup')
      exact hnot
    · exact fun hnot => ⟨state, lookup, hnot⟩
  cases h with
  | absent lookup =>
      refine iff_of_false ?_ ?_
      · rintro ⟨e, he, hresumable⟩
        obtain rfl := Outcome.err.inj he
        rcases hresumable with h | ⟨message, h⟩ <;> cases h
      · rintro ⟨state, h, -⟩
        rw [lookup] at h
        cases h
  | incomplete lookup missing =>
      rw [hunique lookup, not_completable_iff]
      exact iff_of_true ⟨_, rfl, .inl rfl⟩ (.inl missing)
  | unread lookup complete read =>
      rw [hunique lookup, not_completable_iff]
      refine iff_of_true ⟨_, rfl, .inr ⟨_, rfl⟩⟩ (.inr fun contents h => ?_)
      rw [read] at h
      cases h
  | mismatch lookup complete read wrong =>
      rw [hunique lookup]
      refine iff_of_false ?_ (not_not.2 ⟨complete, _, read, fun right => absurd right wrong⟩)
      rintro ⟨e, he, hresumable⟩
      obtain rfl := Outcome.err.inj he
      rcases hresumable with h | ⟨message, h⟩ <;> cases h
  | unmoved lookup complete read right rename =>
      rw [hunique lookup, not_completable_iff]
      refine iff_of_true ⟨_, rfl, .inr ⟨_, rfl⟩⟩ (.inr fun contents' h => ?_)
      obtain rfl := Except.ok.inj (read.symm.trans h)
      refine ⟨right, fun hok => ?_⟩
      rw [rename] at hok
      cases hok
  | moved lookup complete read right rename =>
      rw [hunique lookup]
      refine iff_of_false ?_ (not_not.2 ⟨complete, _, read, fun _ => rename⟩)
      rintro ⟨e, he, -⟩
      cases he

theorem not_keepsDownload (hlook : r.pendingDownloads.lookup modelId = some state)
    (hnot : ¬ Completable blake3 io state.toDownloadState) :
    ¬ KeepsDownload blake3 io modelId r := by
  intro h
  obtain ⟨e, he, hresumable⟩ :=
    (completeDownload_spec blake3 io modelId r).resumable_iff.2 ⟨state, hlook, hnot⟩
  have hkept := h.kept e he hresumable
  rw [completeDownload_gone, hlook] at hkept
  cases hkept

/-- **Exactly the downloads that can be completed are kept until they are.** -/
theorem keepsDownload_iff (blake3 : Bytes → Hash) (io : Io) (modelId : ModelId)
    (r : Receiver Hash) :
    KeepsDownload blake3 io modelId r ↔
      ∀ state, r.pendingDownloads.lookup modelId = some state →
        Completable blake3 io state.toDownloadState := by
  constructor
  · intro h state hlook
    by_contra hnot
    exact not_keepsDownload hlook hnot h
  · intro h
    have hnone : ∀ e, (completeDownload blake3 io modelId r).outcome = .err e →
        ¬ Resumable modelId e := by
      intro e he hresumable
      obtain ⟨state, hlook, hnot⟩ :=
        (completeDownload_spec blake3 io modelId r).resumable_iff.1 ⟨e, he, hresumable⟩
      exact hnot (h state hlook)
    exact ⟨fun e he hresumable => absurd hresumable (hnone e he),
      fun e he hresumable => absurd hresumable (hnone e he)⟩

/-- A receiver to which no chunk of a model of two has come. -/
def waiting : Receiver Bytes where
  modelsDir := ["models"]
  availableModels := ∅
  pendingDownloads :=
    Finmap.singleton "m" (.new ⟨"m", 2, 2, [1, 2], [[1], [2]], "m.gguf"⟩ ["models", "partial"])
  done := []

/-- **A download that is completed too early is lost.** -/
theorem early_completion_lost : ¬ KeepsDownload id (.fine []) "m" waiting :=
  not_keepsDownload Finmap.lookup_singleton_eq fun h => absurd h.1 (by decide)

end Receiver

end Inference
end PeerClaw
