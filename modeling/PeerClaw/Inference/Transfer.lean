import PeerClaw.Inference.Distribution

/-!
# Model transfers restore the file

* `readChunk_serves` — the sender has the chunks of its file, the last one short.
* `download_spec` — what the partial file holds after any deliveries.
* `transfer_iff` — a transfer in which every chunk is delivered restores the file
  exactly when it has nothing but zeros from the first byte on whose chunk index
  does not fit in 32 bits.
* `petabyte_lost` — a file of one byte more than that many chunks hold.

The number of chunks and their indices are `u32`, and the file's size is `u64`: the
last bytes of a longer file have no chunk that could be asked for.
-/

namespace PeerClaw
namespace Inference

open Lib Lib.Chunks

namespace ModelDistributor

variable {Hash : Type} [DecidableEq Hash]

/-! ## What the sender sends -/

section Transfer

variable {blake3 : Bytes → Hash} {id : ModelId} {name : Option String} {contents : Bytes}
  {sender receiver d : ModelDistributor Hash}

theorem chunkSize_pos : 0 < CHUNK_SIZE := by decide

omit [DecidableEq Hash] in
/-- Where the metadata has the size of the file, there is a chunk for each index whose offset is
inside it. -/
theorem readChunk_eq {metadata : ModelMetadata Hash} {i : UInt32}
    (hindexed : d.availableModels.lookup id = some metadata)
    (hfile : d.files.lookup metadata.filename = some contents)
    (hsize : metadata.sizeBytes = contents.length) :
    d.readChunk id i = if i.toNat * CHUNK_SIZE < contents.length then
      some (piece CHUNK_SIZE contents i.toNat) else none := by
  have hpos := chunkSize_pos
  unfold readChunk
  simp only [hindexed, hfile]
  rw [hsize]
  by_cases hi : i.toNat * CHUNK_SIZE < contents.length
  · -- the size of the last chunk is what is left of the file
    have htake : (contents.drop (i.toNat * CHUNK_SIZE)).take
        (min (contents.length - i.toNat * CHUNK_SIZE) CHUNK_SIZE) =
        piece CHUNK_SIZE contents i.toNat := by
      unfold piece
      rw [Nat.min_comm, ← List.length_drop, ← List.take_eq_take_min]
    have hlen : (piece CHUNK_SIZE contents i.toNat).length =
        min (contents.length - i.toNat * CHUNK_SIZE) CHUNK_SIZE := by
      rw [length_piece, Nat.min_comm]
    rw [if_neg (by omega), if_pos hi, htake, if_pos hlen]
  · rw [if_pos (by omega), if_neg hi]

omit [DecidableEq Hash] in
theorem readChunk_serves (h : Serves sender (.fromFile blake3 id name contents) contents)
    (i : UInt32) : sender.readChunk id i =
      if i.toNat * CHUNK_SIZE < contents.length then some (piece CHUNK_SIZE contents i.toNat)
      else none :=
  readChunk_eq h.indexed h.file rfl

omit [DecidableEq Hash] in
theorem chunkHashes_fromFile {i : ℕ} (hi : i * CHUNK_SIZE < contents.length) :
    (ModelMetadata.fromFile blake3 id name contents).chunkHashes[i]? =
      some (blake3 (piece CHUNK_SIZE contents i)) := by
  have hpiece : (pieces CHUNK_SIZE contents)[i]? = some (piece CHUNK_SIZE contents i) := by
    rw [getElem?_pieces chunkSize_pos, if_pos hi]
  unfold ModelMetadata.fromFile
  rw [List.getElem?_map, hpiece, Option.map_some]

theorem verifyChunk_eq {metadata : ModelMetadata Hash} {i : UInt32} {expectedHash : Hash}
    (h : metadata.chunkHashes[i.toNat]? = some expectedHash) (data : Bytes) :
    metadata.verifyChunk blake3 i data = decide (blake3 data = expectedHash) := by
  unfold ModelMetadata.verifyChunk
  rw [h]

theorem verifyChunk_piece {i : UInt32} (hi : i.toNat * CHUNK_SIZE < contents.length) :
    (ModelMetadata.fromFile blake3 id name contents).verifyChunk blake3 i
      (piece CHUNK_SIZE contents i.toNat) = true := by
  rw [verifyChunk_eq (chunkHashes_fromFile hi)]
  exact decide_eq_true rfl

/-! ## What the receiver has -/

/-- The index of a chunk that has been delivered. -/
def Delivered (contents : Bytes) (indices : List UInt32) (k : ℕ) : Prop :=
  ∃ i ∈ indices, i.toNat = k ∧ k * CHUNK_SIZE < contents.length

/-- **The state of the download.**  The partial file holds the chunks that have been delivered, and
they are the ones marked. -/
structure Receiving (blake3 : Bytes → Hash) (id : ModelId) (name : Option String)
    (contents : Bytes) (indices : List UInt32) (d : ModelDistributor Hash)
    (state : DownloadState Hash) (file : Bytes) : Prop where
  pending : d.pendingDownloads.lookup id = some state
  metadata : state.metadata = .fromFile blake3 id name contents
  stored : d.files.lookup state.tempPath = some file
  filled : Filled CHUNK_SIZE 0 contents (Delivered contents indices) file
  slots : state.receivedChunks.length = (count CHUNK_SIZE contents.length) % 2 ^ 32
  marked : ∀ k b, state.receivedChunks[k]? = some b → (b = true ↔ Delivered contents indices k)

omit [DecidableEq Hash] in
/-- A download starts when the model is neither there nor being downloaded. -/
theorem startDownload_eq {metadata : ModelMetadata Hash}
    (hnew : metadata.id ∉ receiver.availableModels)
    (hidle : metadata.id ∉ receiver.pendingDownloads) :
    (startDownload metadata receiver).state = { receiver with
      files := receiver.files.insert (DownloadState.new metadata).tempPath
        (List.replicate metadata.sizeBytes 0)
      pendingDownloads := receiver.pendingDownloads.insert metadata.id (.new metadata) } := by
  unfold startDownload
  rw [if_neg hnew, if_neg hidle]

omit [DecidableEq Hash] in
theorem receiving_start (hnew : id ∉ receiver.availableModels)
    (hidle : id ∉ receiver.pendingDownloads) :
    ∃ state file, Receiving blake3 id name contents []
      (startDownload (.fromFile blake3 id name contents) receiver).state state file := by
  have hstate : (startDownload (.fromFile blake3 id name contents) receiver).state = _ :=
    startDownload_eq hnew hidle
  rw [hstate]
  refine ⟨.new (.fromFile blake3 id name contents), List.replicate contents.length 0, ?_⟩
  refine ⟨Finmap.lookup_insert _, rfl, Finmap.lookup_insert _, ?_, ?_, ?_⟩
  · have hnone : Delivered contents [] = fun _ => False := by
      funext k
      simp [Delivered]
    rw [hnone]
    exact filled_blank
  · show (List.replicate _ _).length = _
    rw [List.length_replicate]
    exact UInt32.toNat_ofNat'
  · intro k b hb
    have hfalse : b = false := by
      have hmem := List.mem_of_getElem? hb
      exact List.eq_of_mem_replicate hmem
    simp [hfalse, Delivered]

omit [DecidableEq Hash] in
theorem marked_markReceived {s : DownloadState Hash} {i : UInt32} {size k : ℕ} {b : Bool}
    (h : (s.markReceived i size).receivedChunks[k]? = some b) :
    ∃ old, s.receivedChunks[k]? = some old ∧ (b = true ↔ old = true ∨ k = i.toNat) := by
  unfold DownloadState.markReceived at h
  split at h
  · rename_i hslot
    have hlt := (List.getElem?_eq_some_iff.1 hslot).1
    by_cases hk : k = i.toNat
    · subst hk
      have hset : (s.receivedChunks.set i.toNat true)[i.toNat]? = some b := h
      rw [List.getElem?_set_self hlt] at hset
      exact ⟨false, hslot, by simp [← Option.some.inj hset]⟩
    · have hset : (s.receivedChunks.set i.toNat true)[k]? = some b := h
      rw [List.getElem?_set_ne (Ne.symm hk)] at hset
      exact ⟨b, hset, by simp [hk]⟩
  · rename_i hslot
    refine ⟨b, h, ?_⟩
    constructor
    · exact .inl
    · rintro (hb | rfl)
      · exact hb
      · cases b with
        | true => rfl
        | false => exact absurd h hslot

omit [DecidableEq Hash] in
theorem length_markReceived (s : DownloadState Hash) (i : UInt32) (size : ℕ) :
    (s.markReceived i size).receivedChunks.length = s.receivedChunks.length := by
  unfold DownloadState.markReceived
  split
  · exact List.length_set
  · rfl

omit [DecidableEq Hash] in
theorem markReceived_keeps (s : DownloadState Hash) (i : UInt32) (size : ℕ) :
    (s.markReceived i size).metadata = s.metadata ∧ (s.markReceived i size).tempPath = s.tempPath := by
  unfold DownloadState.markReceived
  split <;> exact ⟨rfl, rfl⟩

/-- **One delivery.** -/
theorem receiving_deliver {indices : List UInt32} {state : DownloadState Hash} {file : Bytes}
    (hserves : Serves sender (.fromFile blake3 id name contents) contents)
    (h : Receiving blake3 id name contents indices d state file) (i : UInt32) :
    ∃ state' file', Receiving blake3 id name contents (indices ++ [i])
      (deliver blake3 sender id d i) state' file' := by
  unfold deliver
  rw [readChunk_serves hserves i]
  by_cases hi : i.toNat * CHUNK_SIZE < contents.length
  · rw [if_pos hi]
    have hmore : Delivered contents (indices ++ [i]) =
        fun k => Delivered contents indices k ∨ k = i.toNat := by
      funext k
      refine propext ?_
      constructor
      · rintro ⟨j, hj, rfl, hlt⟩
        rcases List.mem_append.1 hj with hj | hj
        · exact .inl ⟨j, hj, rfl, hlt⟩
        · rw [List.mem_singleton.1 hj]
          exact .inr rfl
      · rintro (⟨j, hj, rfl, hlt⟩ | rfl)
        · exact ⟨j, List.mem_append_left _ hj, rfl, hlt⟩
        · exact ⟨i, List.mem_append_right _ (List.mem_singleton_self i), rfl, hi⟩
    obtain ⟨hmeta, htemp⟩ := markReceived_keeps state i (piece CHUNK_SIZE contents i.toNat).length
    have hstate : (writeChunk blake3 id i (piece CHUNK_SIZE contents i.toNat) d).state =
        { d with
          files := d.files.insert state.tempPath
            (writeAt 0 file (i.toNat * CHUNK_SIZE) (piece CHUNK_SIZE contents i.toNat))
          pendingDownloads := d.pendingDownloads.insert id
            (state.markReceived i (piece CHUNK_SIZE contents i.toNat).length) } := by
      unfold writeChunk
      simp only [h.pending, h.metadata, verifyChunk_piece hi, h.stored, if_true]
    dsimp only
    rw [hstate]
    refine ⟨state.markReceived i (piece CHUNK_SIZE contents i.toNat).length,
      writeAt 0 file (i.toNat * CHUNK_SIZE) (piece CHUNK_SIZE contents i.toNat), ?_⟩
    refine ⟨Finmap.lookup_insert _, hmeta.trans h.metadata, ?_, ?_, ?_, ?_⟩
    · rw [htemp]
      exact Finmap.lookup_insert _
    · rw [hmore]
      exact h.filled.write chunkSize_pos hi
    · rw [length_markReceived]
      exact h.slots
    · intro k b hb
      obtain ⟨old, hold, hiff⟩ := marked_markReceived hb
      rw [hiff, h.marked k old hold, hmore]
  · rw [if_neg hi]
    have hsame : Delivered contents (indices ++ [i]) = Delivered contents indices := by
      funext k
      refine propext ?_
      constructor
      · rintro ⟨j, hj, rfl, hlt⟩
        rcases List.mem_append.1 hj with hj | hj
        · exact ⟨j, hj, rfl, hlt⟩
        · rw [List.mem_singleton.1 hj] at hlt
          exact absurd hlt hi
      · rintro ⟨j, hj, rfl, hlt⟩
        exact ⟨j, List.mem_append_left _ hj, rfl, hlt⟩
    exact ⟨state, file, h.pending, h.metadata, h.stored, hsame ▸ h.filled, h.slots,
      hsame ▸ h.marked⟩

/-- **What a receiver has after any deliveries.** -/
theorem download_spec (hserves : Serves sender (.fromFile blake3 id name contents) contents)
    (hnew : id ∉ receiver.availableModels) (hidle : id ∉ receiver.pendingDownloads)
    (indices : List UInt32) :
    ∃ state file, Receiving blake3 id name contents indices
      (received blake3 sender receiver (.fromFile blake3 id name contents) indices) state file := by
  induction indices using List.reverseRecOn with
  | nil => exact receiving_start hnew hidle
  | append_singleton indices i ih =>
      obtain ⟨state, file, h⟩ := ih
      unfold received
      rw [List.foldl_concat]
      exact receiving_deliver hserves h i

/-! ## Completing the download -/

omit [DecidableEq Hash] in
theorem isComplete_of_covers {indices : List UInt32} {state : DownloadState Hash} {file : Bytes}
    (hserves : Serves sender (.fromFile blake3 id name contents) contents)
    (hcovers : Covers sender id indices)
    (h : Receiving blake3 id name contents indices d state file) : state.isComplete := by
  unfold DownloadState.isComplete
  rw [List.all_eq_true]
  intro b hb
  obtain ⟨k, hk⟩ := List.mem_iff_getElem?.1 hb
  have hlt := (List.getElem?_eq_some_iff.1 hk).1
  rw [h.slots] at hlt
  -- the slot is for an index that fits in 32 bits and has a chunk
  have hword : k < 2 ^ 32 := Nat.lt_trans hlt (Nat.mod_lt _ (by decide))
  have hinside : k * CHUNK_SIZE < contents.length :=
    (lt_count_iff chunkSize_pos).1 (Nat.lt_of_lt_of_le hlt (Nat.mod_le _ _))
  have htoNat : (UInt32.ofNat k).toNat = k := UInt32.toNat_ofNat_of_lt' hword
  have hchunk : (sender.readChunk id (UInt32.ofNat k)).isSome := by
    rw [readChunk_serves hserves, htoNat, if_pos hinside]
    rfl
  exact (h.marked k b hk).2 ⟨UInt32.ofNat k, hcovers _ hchunk, htoNat, hinside⟩

/-- **Completing.**  With every chunk delivered, the download is completed exactly when the partial
file is the original. -/
theorem restored_iff (hash_inj : Function.Injective blake3) {indices : List UInt32}
    {state : DownloadState Hash} {file : Bytes}
    (hserves : Serves sender (.fromFile blake3 id name contents) contents)
    (hcovers : Covers sender id indices)
    (h : Receiving blake3 id name contents indices d state file) :
    Restored blake3 d (.fromFile blake3 id name contents) contents ↔ file = contents := by
  have hcomplete := isComplete_of_covers hserves hcovers h
  have hexpected : state.metadata.fileHash = blake3 contents := by
    rw [h.metadata]
    rfl
  constructor
  · rintro ⟨-, hok, -⟩
    have hok : (completeDownload blake3 id d).outcome = _ := hok
    unfold completeDownload at hok
    simp only [h.pending, hcomplete, h.stored, if_true, hexpected] at hok
    split at hok
    · rename_i heq
      exact hash_inj heq
    · cases hok
  · rintro rfl
    have hdone : completeDownload blake3 id d = ⟨.ok state.metadata.filename, { d with
        pendingDownloads := d.pendingDownloads.erase id
        files := (d.files.erase state.tempPath).insert state.metadata.filename file
        availableModels := d.availableModels.insert id state.metadata }, []⟩ := by
      unfold completeDownload
      simp only [h.pending, hcomplete, h.stored, if_true, hexpected]
    refine ⟨⟨state, h.pending, hcomplete⟩, ?_, ?_⟩
    · show (completeDownload blake3 id d).outcome = _
      rw [hdone, h.metadata]
    · show (completeDownload blake3 id d).state.files.lookup _ = _
      rw [hdone, h.metadata]
      exact Finmap.lookup_insert _

/-- The original has nothing but zeros where no chunk can be asked for. -/
def NothingBeyond (contents : Bytes) : Prop :=
  ∀ j b, contents[j]? = some b → 2 ^ 32 * CHUNK_SIZE ≤ j → b = 0

theorem nothingBeyond_of_length (h : contents.length ≤ 2 ^ 32 * CHUNK_SIZE) :
    NothingBeyond contents := by
  intro j b hj hge
  have hlt := (List.getElem?_eq_some_iff.1 hj).1
  omega

omit [DecidableEq Hash] in
/-- With every chunk delivered, the partial file is the original unless something is beyond
them. -/
theorem filled_covers_iff {indices : List UInt32} {file : Bytes}
    (hserves : Serves sender (.fromFile blake3 id name contents) contents)
    (hcovers : Covers sender id indices)
    (h : Filled CHUNK_SIZE 0 contents (Delivered contents indices) file) :
    file = contents ↔ NothingBeyond contents := by
  rw [h.eq_iff]
  refine forall_congr' fun j => forall_congr' fun b => forall_congr' fun hj => ?_
  have hdelivered : Delivered contents indices (j / CHUNK_SIZE) ↔ j < 2 ^ 32 * CHUNK_SIZE := by
    rw [← Nat.div_lt_iff_lt_mul chunkSize_pos]
    constructor
    · rintro ⟨i, -, hi, -⟩
      rw [← hi]
      exact i.toNat_lt
    · intro hword
      have hinside : j / CHUNK_SIZE * CHUNK_SIZE < contents.length :=
        Nat.lt_of_le_of_lt (Nat.div_mul_le_self j CHUNK_SIZE) (List.getElem?_eq_some_iff.1 hj).1
      have htoNat : (UInt32.ofNat (j / CHUNK_SIZE)).toNat = j / CHUNK_SIZE :=
        UInt32.toNat_ofNat_of_lt' hword
      have hchunk : (sender.readChunk id (UInt32.ofNat (j / CHUNK_SIZE))).isSome := by
        rw [readChunk_serves hserves, htoNat, if_pos hinside]
        rfl
      exact ⟨_, hcovers _ hchunk, htoNat, hinside⟩
  rw [hdelivered, Nat.not_lt]

/-- **The transfer round trip.**  When every chunk of the sender is delivered, in any order and any
number of times, the download reports complete, completes, and restores the file exactly when
it has nothing but zeros beyond the chunks whose index fits in 32 bits. -/
theorem transfer_iff (blake3 : Bytes → Hash) (hash_inj : Function.Injective blake3)
    (sender receiver : ModelDistributor Hash) (id : ModelId) (name : Option String)
    (contents : Bytes) (hserves : Serves sender (.fromFile blake3 id name contents) contents)
    (hnew : id ∉ receiver.availableModels) (hidle : id ∉ receiver.pendingDownloads)
    (indices : List UInt32) (hcovers : Covers sender id indices) :
    Restored blake3
      (received blake3 sender receiver (.fromFile blake3 id name contents) indices)
      (.fromFile blake3 id name contents) contents ↔ NothingBeyond contents := by
  obtain ⟨state, file, h⟩ := download_spec hserves hnew hidle indices
  rw [restored_iff hash_inj hserves hcovers h]
  exact filled_covers_iff hserves hcovers h.filled

end Transfer

/-! ## Two files -/

/-- A peer that shares one file. -/
def sharing (blake3 : Bytes → Hash) (id : ModelId) (contents : Bytes) : ModelDistributor Hash where
  availableModels := Finmap.insert id (.fromFile blake3 id none contents) ∅
  pendingDownloads := ∅
  files := Finmap.insert (id ++ ".gguf") contents ∅

omit [DecidableEq Hash] in
theorem serves_sharing (blake3 : Bytes → Hash) (id : ModelId) (contents : Bytes) :
    Serves (sharing blake3 id contents) (.fromFile blake3 id none contents) contents :=
  ⟨Finmap.lookup_insert _, Finmap.lookup_insert _⟩

/-- A peer that has nothing. -/
def newcomer : ModelDistributor Hash := ⟨∅, ∅, ∅⟩

/-- A file of one byte is restored from its only chunk, delivered twice; every content is its own
hash. -/
theorem one_byte_restored :
    Restored id (received id (sharing id "tiny" [7]) newcomer (.fromFile id "tiny" none [7]) [0, 0])
      (.fromFile id "tiny" none [7]) [7] :=
  (transfer_iff id Function.injective_id (sharing id "tiny" [7]) newcomer "tiny" none [7]
    (serves_sharing id "tiny" [7]) Finmap.notMem_empty Finmap.notMem_empty [0, 0]
    (fun i hi => by
      rw [readChunk_serves (serves_sharing id "tiny" [7])] at hi
      split at hi
      · rename_i hlt
        have hword : i.toNat < count CHUNK_SIZE 1 := (lt_count_iff chunkSize_pos).2 hlt
        have hone : count CHUNK_SIZE 1 = 1 := by decide
        have hzero : i = 0 := UInt32.toNat_inj.1 (Nat.lt_one_iff.1 (hone ▸ hword))
        simp [hzero]
      · cases hi)).2 (nothingBeyond_of_length (by decide))

/-- A file of one byte more than the chunks that can be asked for. -/
def petabyte : Bytes := List.replicate (2 ^ 32 * CHUNK_SIZE + 1) 1

/-- Every index there is. -/
def everyIndex : List UInt32 := (List.range (2 ^ 32)).map UInt32.ofNat

/-- **The rest of a file is lost.**  The last byte of a file of a petabyte and one byte is in the
chunk after the last one that can be asked for; the download does not restore it. -/
theorem petabyte_lost :
    ¬ Restored id (received id (sharing id "huge" petabyte) newcomer
      (.fromFile id "huge" none petabyte) everyIndex) (.fromFile id "huge" none petabyte)
        petabyte := by
  have hserves := serves_sharing id "huge" petabyte
  have hcovers : Covers (sharing id "huge" petabyte) "huge" everyIndex := fun i _ =>
    List.mem_map.2 ⟨i.toNat, List.mem_range.2 i.toNat_lt, UInt32.ofNat_toNat⟩
  have hnew : "huge" ∉ (newcomer : ModelDistributor Bytes).availableModels := Finmap.notMem_empty
  have hidle : "huge" ∉ (newcomer : ModelDistributor Bytes).pendingDownloads := Finmap.notMem_empty
  obtain ⟨state, file, h⟩ := download_spec hserves hnew hidle everyIndex
  rw [restored_iff Function.injective_id hserves hcovers h,
    filled_covers_iff hserves hcovers h.filled]
  intro hzero
  have hlast : petabyte[2 ^ 32 * CHUNK_SIZE]? = some 1 := by
    unfold petabyte
    rw [List.getElem?_replicate, if_pos (Nat.lt_succ_self _)]
  cases hzero _ _ hlast (Nat.le_refl _)

end ModelDistributor

end Inference
end PeerClaw
