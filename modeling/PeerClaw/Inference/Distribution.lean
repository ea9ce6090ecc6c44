import PeerClaw.Inference.Cache
import PeerClaw.Lib.Chunks

/-!
# Model distribution

`ModelDistributor` in `inference/distribution.rs`: a model file is indexed with the
hashes of its chunks, a peer reads chunks of it, another peer downloads it into
a partial file and moves that to its place when its hash is right.  The files
below the models directory are a map from path to contents; a file operation
fails only where the file is not there.

* `ModelMetadata.fromFile`, `readChunk` — the sender.
* `startDownload`, `writeChunk`, `completeDownload` — the receiver.
* `received`, `Restored` — a download with any deliveries, and what is asked of it.

The hash is a parameter.
-/

namespace PeerClaw
namespace Inference

open Lib Lib.Chunks

/-- Size of each chunk for model transfer (256 KB). -/
def CHUNK_SIZE : ℕ := 256 * 1024

abbrev Bytes := List UInt8

/-- Metadata about a model available for distribution. -/
structure ModelMetadata (Hash : Type) where
  id : ModelId
  sizeBytes : ℕ
  chunkCount : UInt32
  /-- Hash of the complete file. -/
  fileHash : Hash
  chunkHashes : List Hash
  filename : String
  deriving DecidableEq

/-- State of an ongoing model download. -/
structure DownloadState (Hash : Type) where
  metadata : ModelMetadata Hash
  receivedChunks : List Bool
  tempPath : String
  bytesReceived : ℕ
  deriving DecidableEq

/-- What a peer has: the models it shares, its downloads, and its files. -/
structure ModelDistributor (Hash : Type) where
  availableModels : FiniteMap ModelId (ModelMetadata Hash)
  pendingDownloads : FiniteMap ModelId (DownloadState Hash)
  /-- The files below the models directory, by path. -/
  files : FiniteMap String Bytes

/-- The errors of a download. -/
inductive DistributionError (Hash : Type)
  | modelExists (modelId : ModelId)
  | alreadyDownloading (modelId : ModelId)
  | notDownloading (modelId : ModelId)
  | downloadIncomplete (modelId : ModelId)
  | chunkVerificationFailed (modelId : ModelId) (chunkIndex : UInt32)
  | fileVerificationFailed (modelId : ModelId) (expected actual : Hash)
  | ioError (message : String)
  deriving DecidableEq

variable {Hash : Type} [DecidableEq Hash] (blake3 : Bytes → Hash)

/-! ## The sender -/

/-- Create metadata from a model file: its name, if its path has one, and its contents. -/
def ModelMetadata.fromFile (id : ModelId) (name : Option String) (contents : Bytes) :
    ModelMetadata Hash where
  id := id
  sizeBytes := contents.length
  chunkCount := UInt32.ofNat (count CHUNK_SIZE contents.length)
  fileHash := blake3 contents
  chunkHashes := (pieces CHUNK_SIZE contents).map blake3
  filename := name.getD (id ++ ".gguf")

/-- Verify a chunk matches its expected hash. -/
def ModelMetadata.verifyChunk (metadata : ModelMetadata Hash) (index : UInt32) (data : Bytes) :
    Bool :=
  match metadata.chunkHashes[index.toNat]? with
  | some expectedHash => blake3 data = expectedHash
  | none => false

/-- Read a chunk of a model file. -/
def ModelDistributor.readChunk (d : ModelDistributor Hash) (modelId : ModelId)
    (chunkIndex : UInt32) : Option Bytes :=
  match d.availableModels.lookup modelId with
  | none => none
  | some metadata =>
      match d.files.lookup metadata.filename with
      | none => none
      | some file =>
          let offset := chunkIndex.toNat * CHUNK_SIZE
          let remaining := metadata.sizeBytes - offset
          let chunkSize := min remaining CHUNK_SIZE
          if chunkSize = 0 then none
          else
            -- `read_exact` fails on a file that has become shorter
            let buffer := (file.drop offset).take chunkSize
            if buffer.length = chunkSize then some buffer else none

/-! ## The receiver -/

namespace DownloadState

/-- Create a new download state. -/
def new (metadata : ModelMetadata Hash) : DownloadState Hash where
  metadata := metadata
  receivedChunks := List.replicate metadata.chunkCount.toNat false
  tempPath := "partial/" ++ metadata.id ++ ".partial"
  bytesReceived := 0

/-- Mark a chunk as received. -/
def markReceived (s : DownloadState Hash) (index : UInt32) (size : ℕ) : DownloadState Hash :=
  match s.receivedChunks[index.toNat]? with
  | some false =>
      { s with
        receivedChunks := s.receivedChunks.set index.toNat true
        bytesReceived := s.bytesReceived + size }
  | _ => s

/-- Check if download is complete. -/
def isComplete (s : DownloadState Hash) : Bool := s.receivedChunks.all id

end DownloadState

namespace ModelDistributor

/-- Start downloading a model from a peer: a partial file of its size, all zero. -/
def startDownload (metadata : ModelMetadata Hash) :
    Action (ModelDistributor Hash) (DistributionError Hash) Unit := fun d =>
  if metadata.id ∈ d.availableModels then ⟨.err (.modelExists metadata.id), d, []⟩
  else if metadata.id ∈ d.pendingDownloads then ⟨.err (.alreadyDownloading metadata.id), d, []⟩
  else
    let state := DownloadState.new metadata
    ⟨.ok (), { d with
      files := d.files.insert state.tempPath (List.replicate metadata.sizeBytes 0)
      pendingDownloads := d.pendingDownloads.insert metadata.id state }, []⟩

/-- Write a received chunk to the partial file. -/
def writeChunk (modelId : ModelId) (chunkIndex : UInt32) (data : Bytes) :
    Action (ModelDistributor Hash) (DistributionError Hash) Bool := fun d =>
  match d.pendingDownloads.lookup modelId with
  | none => ⟨.err (.notDownloading modelId), d, []⟩
  | some state =>
      if state.metadata.verifyChunk blake3 chunkIndex data then
        match d.files.lookup state.tempPath with
        | none => ⟨.err (.ioError "No such file or directory (os error 2)"), d, []⟩
        | some file =>
            let marked := state.markReceived chunkIndex data.length
            ⟨.ok marked.isComplete, { d with
              files := d.files.insert state.tempPath
                (writeAt 0 file (chunkIndex.toNat * CHUNK_SIZE) data)
              pendingDownloads := d.pendingDownloads.insert modelId marked }, []⟩
      else ⟨.err (.chunkVerificationFailed modelId chunkIndex), d, []⟩

/-- Complete a download by moving the file to its final location. -/
def completeDownload (modelId : ModelId) :
    Action (ModelDistributor Hash) (DistributionError Hash) String := fun d =>
  match d.pendingDownloads.lookup modelId with
  | none => ⟨.err (.notDownloading modelId), d, []⟩
  | some state =>
      let d := { d with pendingDownloads := d.pendingDownloads.erase modelId }
      if state.isComplete then
        match d.files.lookup state.tempPath with
        | none => ⟨.err (.ioError "No such file or directory (os error 2)"), d, []⟩
        | some fileContents =>
            let fileHash := blake3 fileContents
            if fileHash = state.metadata.fileHash then
              let finalPath := state.metadata.filename
              ⟨.ok finalPath, { d with
                files := (d.files.erase state.tempPath).insert finalPath fileContents
                availableModels := d.availableModels.insert modelId state.metadata }, []⟩
            else
              ⟨.err (.fileVerificationFailed modelId state.metadata.fileHash fileHash),
                { d with files := d.files.erase state.tempPath }, []⟩
      else ⟨.err (.downloadIncomplete modelId), d, []⟩

/-! ## A transfer -/

/-- The chunk with this index is asked of the sender, and written if the sender has it. -/
def deliver (sender : ModelDistributor Hash) (modelId : ModelId) (receiver : ModelDistributor Hash)
    (index : UInt32) : ModelDistributor Hash :=
  match sender.readChunk modelId index with
  | some data => (writeChunk blake3 modelId index data receiver).state
  | none => receiver

/-- The receiver after the download was started and these chunks were delivered, in this order. -/
def received (sender receiver : ModelDistributor Hash) (metadata : ModelMetadata Hash)
    (indices : List UInt32) : ModelDistributor Hash :=
  indices.foldl (deliver blake3 sender metadata.id) (startDownload metadata receiver).state

/-- The download reports complete. -/
def ReportsComplete (d : ModelDistributor Hash) (modelId : ModelId) : Prop :=
  ∃ state, d.pendingDownloads.lookup modelId = some state ∧ state.isComplete

/-- **The round trip.**  The download reports complete, completing it succeeds, and the file is the
original, under the name the metadata gives it. -/
structure Restored (d : ModelDistributor Hash) (metadata : ModelMetadata Hash) (contents : Bytes) :
    Prop where
  complete : d.ReportsComplete metadata.id
  ok : (completeDownload blake3 metadata.id d).outcome = .ok metadata.filename
  original : (completeDownload blake3 metadata.id d).state.files.lookup metadata.filename =
    some contents

/-- The sender has indexed a file with these contents, and still has it. -/
structure Serves (d : ModelDistributor Hash) (metadata : ModelMetadata Hash) (contents : Bytes) :
    Prop where
  indexed : d.availableModels.lookup metadata.id = some metadata
  file : d.files.lookup metadata.filename = some contents

/-- Every index of which the sender has a chunk is delivered. -/
def Covers (sender : ModelDistributor Hash) (modelId : ModelId) (indices : List UInt32) : Prop :=
  ∀ i, (sender.readChunk modelId i).isSome → i ∈ indices

end ModelDistributor

end Inference
end PeerClaw
