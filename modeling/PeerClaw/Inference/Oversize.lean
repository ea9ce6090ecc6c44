import Mathlib.Data.Finset.Card
import Mathlib.Order.Interval.Finset.Nat
import PeerClaw.Inference.Receiver
import PeerClaw.Inference.Transfer
import PeerClaw.Lib.Machine

/-!
# The sizes of a download

A peer that offers a model says how large it is, how many chunks it has and what their hashes are,
each independently of the others.  A chunk is written at its offset when its hash is right, however
long it is.

* `Receiver.disk` — the files, from what has been done to them.
* `Delivery`, `Delivery.step` — a download to which chunks are delivered.
* `Bounded`, `Spares` — the sizes are kept, and what has been received is not overwritten.
* `Fitting`, `Separate` — what the hashes have to be like.
* `bounded_iff` — every delivery keeps to the sizes exactly for such metadata.
-/

namespace PeerClaw
namespace Inference

open Lib Lib.Chunks

/-! ## The files -/

/-- Bytes are written at an offset; nothing is written where there are none. -/
def writeBytes (file : Bytes) (offset : ℕ) (data : Bytes) : Bytes :=
  if data = [] then file else writeAt 0 file offset data

/-- What is done to files does this to them. -/
def FileOp.apply (disk : Path → Option Bytes) : FileOp → Path → Option Bytes
  | .createDirAll _ => disk
  | .create path => Function.update disk path (some [])
  | .setLen path size => Function.update disk path
      ((disk path).map fun file => file.take size ++ List.replicate (size - file.length) 0)
  | .write path offset data => Function.update disk path
      ((disk path).map fun file => writeBytes file offset data)
  | .remove path => Function.update disk path none
  | .rename path target => Function.update (Function.update disk path none) target (disk path)

variable {Hash : Type} [DecidableEq Hash] (blake3 : Bytes → Hash)

/-- The files, where there were none. -/
def Receiver.disk (r : Receiver Hash) : Path → Option Bytes :=
  r.done.foldl FileOp.apply fun _ => none

/-! ## Progress -/

/-- Download speed in bytes per second. -/
def DownloadState.downloadSpeed (s : DownloadState Hash) (elapsed : Float) : Float :=
  if 0.0 < elapsed then s.bytesReceived.toFloat / elapsed else 0.0

/-- Download progress information. -/
structure DownloadProgress where
  modelId : ModelId
  bytesReceived : ℕ
  totalBytes : ℕ
  speedBps : Float

/-- Estimated time remaining in seconds; the subtraction must not underflow. -/
def DownloadProgress.etaSecs (progress : DownloadProgress) : Outcome Empty (Option Float) :=
  if 0.0 < progress.speedBps then
    if progress.bytesReceived ≤ progress.totalBytes then
      .ok (some ((progress.totalBytes - progress.bytesReceived).toFloat / progress.speedBps))
    else .panic
  else .ok none

/-- Get download progress for a model, so many seconds after it was started. -/
def Receiver.downloadProgress (r : Receiver Hash) (elapsed : Float) (modelId : ModelId) :
    Option DownloadProgress :=
  (r.pendingDownloads.lookup modelId).map fun state =>
    ⟨modelId, state.bytesReceived, state.metadata.sizeBytes, state.downloadSpeed elapsed⟩

/-! ## Deliveries -/

/-- A download to which chunks are delivered, and the chunks that have been received. -/
structure Delivery (Hash : Type) where
  receiver : Receiver Hash
  received : List (UInt32 × Bytes)

/-- The number of a chunk of the model. -/
def ModelMetadata.HasChunk (metadata : ModelMetadata Hash) (index : UInt32) : Prop :=
  index < metadata.chunkCount

instance (metadata : ModelMetadata Hash) (index : UInt32) : Decidable (metadata.HasChunk index) :=
  inferInstanceAs (Decidable (_ < _))

namespace Delivery

/-- A chunk is delivered. -/
def step (metadata : ModelMetadata Hash) (d : Delivery Hash) (c : Io × UInt32 × Bytes) :
    Delivery Hash :=
  let effect := Receiver.writeChunk blake3 c.1 metadata.id c.2.1 c.2.2 d.receiver
  ⟨effect.state,
    if effect.outcome.isOk ∧ metadata.HasChunk c.2.1 then d.received ++ [c.2] else d.received⟩

/-- No more bytes are received than the model has, its partial file does not grow beyond them, and
there is always a time remaining. -/
structure Bounded (metadata : ModelMetadata Hash) (d : Delivery Hash) : Prop where
  bytes : ∀ state, d.receiver.pendingDownloads.lookup metadata.id = some state →
    state.bytesReceived ≤ metadata.sizeBytes
  file : ∀ state file, d.receiver.pendingDownloads.lookup metadata.id = some state →
    d.receiver.disk state.path = some file → file.length ≤ metadata.sizeBytes
  eta : ∀ elapsed, ∀ progress ∈ d.receiver.downloadProgress elapsed metadata.id,
    progress.etaSecs ≠ .panic

/-- What a delivery writes does not overwrite what has been received of another chunk. -/
def Spares (metadata : ModelMetadata Hash) (d : Delivery Hash) (c : Io × UInt32 × Bytes) : Prop :=
  ∀ path offset written,
    FileOp.write path offset written ∈
      (step blake3 metadata d c).receiver.done.drop d.receiver.done.length →
    ∀ k ∈ d.received, k.1 ≠ c.2.1 → ∀ j,
      ¬ ((offset ≤ j ∧ j < offset + written.length) ∧
        k.1.toNat * CHUNK_SIZE ≤ j ∧ j < k.1.toNat * CHUNK_SIZE + k.2.length)

/-- Data that has the hash of a chunk ends where the model does, or before. -/
def Fitting (metadata : ModelMetadata Hash) : Prop :=
  ∀ i data, metadata.verifyChunk blake3 i data → data ≠ [] →
    i.toNat * CHUNK_SIZE + data.length ≤ metadata.sizeBytes

/-- Data that has the hash of a chunk ends where the next data begins, or before. -/
def Separate (metadata : ModelMetadata Hash) : Prop :=
  ∀ i k data data', i < k → metadata.HasChunk i → metadata.verifyChunk blake3 i data →
    metadata.verifyChunk blake3 k data' → data' ≠ [] →
      i.toNat * CHUNK_SIZE + data.length ≤ k.toNat * CHUNK_SIZE

/-! ## What is written -/

theorem length_writeBytes {file data : Bytes} {offset : ℕ}
    (h : data ≠ [] → offset + data.length ≤ file.length) :
    (writeBytes file offset data).length = file.length := by
  unfold writeBytes
  split
  · rfl
  · rename_i hne
    exact length_writeAt (h hne)

theorem le_length_writeBytes (file : Bytes) {data : Bytes} (offset : ℕ) (hne : data ≠ []) :
    offset + data.length ≤ (writeBytes file offset data).length := by
  unfold writeBytes writeAt
  rw [if_neg hne]
  simp only [List.length_append, List.length_take, List.length_replicate]
  omega

variable {blake3} {metadata : ModelMetadata Hash} {d : Delivery Hash}

omit [DecidableEq Hash] in
theorem disk_did (r : Receiver Hash) (op : FileOp) : (r.did op).disk = op.apply r.disk := by
  unfold Receiver.disk Receiver.did
  rw [List.foldl_append]
  rfl

omit [DecidableEq Hash] in
theorem disk_did_write {r : Receiver Hash} {path : Path} {file : Bytes}
    (hfile : r.disk path = some file) (offset : ℕ) (data : Bytes) :
    (r.did (.write path offset data)).disk path = some (writeBytes file offset data) := by
  rw [disk_did]
  simp only [FileOp.apply, Function.update_self, hfile, Option.map_some]

omit [DecidableEq Hash] in
theorem disk_started (r : Receiver Hash) (metadata : ModelMetadata Hash) :
    (r.started metadata).disk (PartialDownload.new metadata r.tempDir).path =
      some (List.replicate metadata.sizeBytes 0) := by
  have hdisk : (r.started metadata).disk = FileOp.apply (r.created metadata).disk
      (.setLen (PartialDownload.new metadata r.tempDir).path metadata.sizeBytes) :=
    disk_did _ _
  have hcreated : (r.created metadata).disk (PartialDownload.new metadata r.tempDir).path =
      some [] := by
    unfold Receiver.created
    rw [disk_did]
    simp only [FileOp.apply, Function.update_self]
  rw [hdisk]
  simp only [FileOp.apply, Function.update_self, hcreated, Option.map_some, List.take_nil,
    List.nil_append, List.length_nil, Nat.sub_zero]

/-! ## The bytes that are counted -/

/-- The bytes of some data at the offset of a chunk. -/
def span (i : UInt32) (data : Bytes) : Finset ℕ :=
  Finset.Ico (i.toNat * CHUNK_SIZE) (i.toNat * CHUNK_SIZE + data.length)

/-- The bytes that are counted are those of the chunks that are marked. -/
structure Counted (blake3 : Bytes → Hash) (metadata : ModelMetadata Hash)
    (state : DownloadState Hash) : Prop where
  metadata_eq : state.metadata = metadata
  length : state.receivedChunks.length = metadata.chunkCount.toNat
  bytes : ∃ bytes ⊆ Finset.range metadata.sizeBytes, state.bytesReceived = bytes.card ∧
    ∀ j ∈ bytes, ∃ k data, state.receivedChunks[k.toNat]? = some true ∧
      metadata.verifyChunk blake3 k data ∧ j ∈ span k data

omit [DecidableEq Hash] in
theorem hasChunk_of_slot {state : DownloadState Hash}
    (hlength : state.receivedChunks.length = metadata.chunkCount.toNat) {i : UInt32} {b : Bool}
    (hslot : state.receivedChunks[i.toNat]? = some b) : metadata.HasChunk i := by
  have hlt := (List.getElem?_eq_some_iff.1 hslot).1
  rw [hlength] at hlt
  exact UInt32.lt_iff_toNat_lt.2 hlt

theorem span_nil (i : UInt32) : span i [] = ∅ := by
  unfold span
  rw [List.length_nil, Nat.add_zero, Finset.Ico_self]

theorem Separate.disjoint (h : Separate blake3 metadata) {i k : UInt32} {data data' : Bytes}
    (hne : i ≠ k) (hi : metadata.HasChunk i) (hdata : metadata.verifyChunk blake3 i data)
    (hdata' : metadata.verifyChunk blake3 k data') : Disjoint (span i data) (span k data') := by
  have hpair : ∀ {a b : UInt32} {x y : Bytes}, a < b → metadata.HasChunk a →
      metadata.verifyChunk blake3 a x → metadata.verifyChunk blake3 b y →
      Disjoint (span a x) (span b y) := by
    intro a b x y hlt ha hx hy
    by_cases hempty : y = []
    · rw [hempty, span_nil]
      exact Finset.disjoint_empty_right _
    · have hle := h a b x y hlt ha hx hy hempty
      rw [Finset.disjoint_left]
      intro j hj hj'
      have hlow := (Finset.mem_Ico.1 hj).2
      have hhigh := (Finset.mem_Ico.1 hj').1
      omega
  rcases Nat.lt_or_gt_of_ne fun heq => hne (UInt32.toNat_inj.1 heq) with hlt | hlt
  · exact hpair hlt hi hdata hdata'
  · exact (hpair hlt (UInt32.lt_trans hlt hi) hdata' hdata).symm

theorem Counted.mark {state : DownloadState Hash} (h : Counted blake3 metadata state)
    (hfit : Fitting blake3 metadata) (hsep : Separate blake3 metadata) {i : UInt32} {data : Bytes}
    (hdata : metadata.verifyChunk blake3 i data) :
    Counted blake3 metadata (state.markReceived i data.length) := by
  refine ⟨(ModelDistributor.markReceived_keeps state i data.length).1.trans h.metadata_eq,
    (ModelDistributor.length_markReceived state i data.length).trans h.length, ?_⟩
  obtain ⟨bytes, hsub, hcard, hmarked⟩ := h.bytes
  unfold DownloadState.markReceived
  split
  · rename_i hslot
    have hi := hasChunk_of_slot h.length hslot
    have hlt := (List.getElem?_eq_some_iff.1 hslot).1
    have hdisjoint : Disjoint bytes (span i data) := by
      rw [Finset.disjoint_left]
      intro j hj hnew
      obtain ⟨k, data', hk, hdata', hspan⟩ := hmarked j hj
      have hne : k ≠ i := by
        rintro rfl
        rw [hslot] at hk
        cases hk
      have hapart := hsep.disjoint hne (hasChunk_of_slot h.length hk) hdata' hdata
      exact Finset.disjoint_left.1 hapart hspan hnew
    refine ⟨bytes ∪ span i data, Finset.union_subset hsub fun j hj => ?_, ?_, fun j hj => ?_⟩
    · have hne : data ≠ [] := by
        rintro rfl
        rw [span_nil] at hj
        cases hj
      have hend := hfit i data hdata hne
      have hlast := (Finset.mem_Ico.1 hj).2
      exact Finset.mem_range.2 (by omega)
    · rw [Finset.card_union_of_disjoint hdisjoint, ← hcard]
      unfold span
      rw [Nat.card_Ico]
      dsimp only
      omega
    · rcases Finset.mem_union.1 hj with hj | hj
      · obtain ⟨k, data', hk, hdata', hspan⟩ := hmarked j hj
        have hne : i.toNat ≠ k.toNat := by
          intro heq
          rw [← heq, hslot] at hk
          cases hk
        exact ⟨k, data', (List.getElem?_set_ne hne).trans hk, hdata', hspan⟩
      · exact ⟨i, data, List.getElem?_set_self hlt, hdata, hj⟩
  · exact ⟨bytes, hsub, hcard, hmarked⟩

/-! ## The invariant -/

/-- The download is there, with its file of the right size. -/
structure Within (blake3 : Bytes → Hash) (metadata : ModelMetadata Hash) (d : Delivery Hash)
    (state : PartialDownload Hash) (file : Bytes) : Prop where
  lookup : d.receiver.pendingDownloads.lookup metadata.id = some state
  counted : Counted blake3 metadata state.toDownloadState
  disk : d.receiver.disk state.path = some file
  length : file.length = metadata.sizeBytes
  received : ∀ k ∈ d.received, metadata.HasChunk k.1 ∧ metadata.verifyChunk blake3 k.1 k.2

theorem etaSecs_ne_panic {progress : DownloadProgress}
    (h : progress.bytesReceived ≤ progress.totalBytes) : progress.etaSecs ≠ .panic := by
  unfold DownloadProgress.etaSecs
  rw [if_pos h]
  split
  · exact fun hok => nomatch hok
  · exact fun hok => nomatch hok

theorem Within.bounded {state : PartialDownload Hash} {file : Bytes}
    (h : Within blake3 metadata d state file) : Bounded metadata d := by
  have hbytes : state.bytesReceived ≤ metadata.sizeBytes := by
    obtain ⟨bytes, hsub, hcard, -⟩ := h.counted.bytes
    have hle := Finset.card_le_card hsub
    rw [Finset.card_range] at hle
    omega
  refine ⟨fun state' hlook => ?_, fun state' file' hlook hdisk => ?_, fun elapsed progress hp => ?_⟩
  · obtain rfl := Option.some.inj (h.lookup.symm.trans hlook)
    exact hbytes
  · obtain rfl := Option.some.inj (h.lookup.symm.trans hlook)
    obtain rfl := Option.some.inj (h.disk.symm.trans hdisk)
    exact h.length.le
  · unfold Receiver.downloadProgress at hp
    rw [h.lookup] at hp
    obtain rfl := Option.some.inj hp
    refine etaSecs_ne_panic ?_
    dsimp only
    rw [h.counted.metadata_eq]
    exact hbytes

theorem end_le_of_fitting (hfit : Fitting blake3 metadata) {i : UInt32} {data written : Bytes}
    (hdata : metadata.verifyChunk blake3 i data) (hsub : written <+: data) (hne : written ≠ []) :
    i.toNat * CHUNK_SIZE + written.length ≤ metadata.sizeBytes := by
  have hdata' : data ≠ [] := by
    rintro rfl
    exact hne (List.prefix_nil.1 hsub)
  have hend := hfit i data hdata hdata'
  have hle := hsub.length_le
  omega

/-- What is written of a chunk is apart from what has been received of the others. -/
theorem apart_of_separate {state : PartialDownload Hash} {file : Bytes}
    (hsep : Separate blake3 metadata) (h : Within blake3 metadata d state file) {i : UInt32}
    {data written : Bytes} (hdata : metadata.verifyChunk blake3 i data) (hsub : written <+: data) :
    ∀ k ∈ d.received, k.1 ≠ i → ∀ j,
      ¬ ((i.toNat * CHUNK_SIZE ≤ j ∧ j < i.toNat * CHUNK_SIZE + written.length) ∧
        k.1.toNat * CHUNK_SIZE ≤ j ∧ j < k.1.toNat * CHUNK_SIZE + k.2.length) := by
  rintro k hk hne j ⟨hwritten, hreceived⟩
  obtain ⟨hhas, hverify⟩ := h.received k hk
  have hle := hsub.length_le
  have hdisjoint := hsep.disjoint hne hhas hverify hdata
  exact Finset.disjoint_left.1 hdisjoint (Finset.mem_Ico.2 hreceived)
    (Finset.mem_Ico.2 ⟨hwritten.1, by omega⟩)

omit [DecidableEq Hash] in
theorem mem_drop_did {r : Receiver Hash} {op op' : FileOp}
    (h : op ∈ (r.did op').done.drop r.done.length) : op = op' := by
  have hdone : (r.did op').done.drop r.done.length = [op'] := List.drop_left
  rw [hdone] at h
  exact List.mem_singleton.1 h

omit [DecidableEq Hash] in
theorem mem_drop_wrote (r : Receiver Hash) (modelId : ModelId) (state : PartialDownload Hash)
    (i : UInt32) (data : Bytes) :
    .write state.path (i.toNat * CHUNK_SIZE) data ∈
      (r.wrote modelId state i data).done.drop r.done.length := by
  have hdone : (r.wrote modelId state i data).done.drop r.done.length =
      [.write state.path (i.toNat * CHUNK_SIZE) data] := List.drop_left
  rw [hdone]
  exact List.mem_singleton_self _

/-- **One delivery.** -/
theorem within_step {state : PartialDownload Hash} {file : Bytes}
    (hfit : Fitting blake3 metadata) (hsep : Separate blake3 metadata)
    (h : Within blake3 metadata d state file) (c : Io × UInt32 × Bytes) :
    (∃ state' file', Within blake3 metadata (step blake3 metadata d c) state' file') ∧
      Spares blake3 metadata d c := by
  obtain ⟨io, i, data⟩ := c
  unfold Spares step
  dsimp only
  generalize hwrite : Receiver.writeChunk blake3 io metadata.id i data d.receiver = effect
  have hspec := hwrite ▸ Receiver.writeChunk_spec blake3 io metadata.id i data d.receiver
  cases hspec with
  | refused =>
      refine ⟨⟨state, file, h.lookup, h.counted, h.disk, h.length, h.received⟩, ?_⟩
      intro path offset written hop
      rw [List.drop_length] at hop
      cases hop
  | failed written lookup valid =>
      obtain rfl := Option.some.inj (h.lookup.symm.trans lookup)
      rw [h.counted.metadata_eq] at valid
      have hsub : data.take written <+: data := List.take_prefix _ _
      refine ⟨⟨state, _, h.lookup, h.counted, disk_did_write h.disk _ _, ?_, h.received⟩, ?_⟩
      · rw [length_writeBytes fun hne => h.length.symm ▸ end_le_of_fitting hfit valid hsub hne]
        exact h.length
      · intro path offset bytes hop
        cases mem_drop_did hop
        exact apart_of_separate hsep h valid hsub
  | wrote lookup valid =>
      obtain rfl := Option.some.inj (h.lookup.symm.trans lookup)
      rw [h.counted.metadata_eq] at valid
      have hsub : data <+: data := List.prefix_rfl
      refine ⟨⟨{ state with toDownloadState := state.markReceived i data.length }, _,
        Finmap.lookup_insert _, h.counted.mark hfit hsep valid, disk_did_write h.disk _ _, ?_, ?_⟩, ?_⟩
      · rw [length_writeBytes fun hne => h.length.symm ▸ end_le_of_fitting hfit valid hsub hne]
        exact h.length
      · intro k hk
        dsimp only at hk
        split at hk
        · rename_i hreceived
          rcases List.mem_append.1 hk with hk | hk
          · exact h.received k hk
          · obtain rfl := List.mem_singleton.1 hk
            exact ⟨hreceived.2, valid⟩
        · exact h.received k hk
      · intro path offset bytes hop
        have hop : FileOp.write path offset bytes ∈ (d.receiver.did
          (.write state.path (i.toNat * CHUNK_SIZE) data)).done.drop d.receiver.done.length := hop
        cases mem_drop_did hop
        exact apart_of_separate hsep h valid hsub

/-- A download that has just been started. -/
def begun (metadata : ModelMetadata Hash) (r : Receiver Hash) : Delivery Hash :=
  ⟨r.started metadata, []⟩

theorem within_begun (r : Receiver Hash) :
    Within blake3 metadata (begun metadata r) (.new metadata r.tempDir)
      (List.replicate metadata.sizeBytes 0) where
  lookup := Finmap.lookup_insert _
  counted := ⟨rfl, List.length_replicate, ∅, Finset.empty_subset _, Finset.card_empty.symm,
    fun j hj => absurd hj (Finset.notMem_empty j)⟩
  disk := disk_started r metadata
  length := List.length_replicate
  received := fun _ hk => absurd hk List.not_mem_nil

theorem step_fine {state : PartialDownload Hash}
    (lookup : d.receiver.pendingDownloads.lookup metadata.id = some state)
    (hmetadata : state.metadata = metadata) {i : UInt32} {data : Bytes}
    (hdata : metadata.verifyChunk blake3 i data) :
    step blake3 metadata d (Io.fine [], i, data) =
      ⟨d.receiver.wrote metadata.id state i data,
        if metadata.HasChunk i then d.received ++ [(i, data)] else d.received⟩ := by
  have hwrite : Receiver.writeChunk blake3 (Io.fine []) metadata.id i data d.receiver =
      ⟨.ok (state.markReceived i data.length).isComplete,
        d.receiver.wrote metadata.id state i data, []⟩ := by
    unfold Receiver.writeChunk
    rw [lookup]
    dsimp only
    rw [hmetadata, if_pos hdata]
    rfl
  unfold step
  dsimp only
  rw [hwrite]
  simp only [Outcome.isOk, true_and]

theorem fitting_of_bounded {r : Receiver Hash}
    (h : ∀ chunks, Machine.Always (step blake3 metadata) (Bounded metadata) (begun metadata r) chunks) :
    Fitting blake3 metadata := by
  intro i data hdata hne
  have hbegun : Within blake3 metadata (begun metadata r) _ _ := within_begun r
  have hlast := (h [(Io.fine [], i, data)]).last
  rw [Machine.run_cons, Machine.run_nil, step_fine hbegun.lookup rfl hdata] at hlast
  have hle := hlast.file _ _ (Finmap.lookup_insert _) (disk_did_write hbegun.disk _ _)
  have hwritten := le_length_writeBytes (List.replicate metadata.sizeBytes 0)
    (i.toNat * CHUNK_SIZE) hne
  exact hwritten.trans hle

theorem separate_of_spares {r : Receiver Hash}
    (h : ∀ chunks, Machine.Along (step blake3 metadata) (Spares blake3 metadata) (begun metadata r)
      chunks) : Separate blake3 metadata := by
  intro i k data data' hlt hi hdata hdata' hne
  have hbegun : Within blake3 metadata (begun metadata r) _ _ := within_begun r
  have hsecond := (h [(Io.fine [], i, data), (Io.fine [], k, data')]).2.1
  have hkeeps := ModelDistributor.markReceived_keeps
    (PartialDownload.new metadata r.tempDir).toDownloadState i data.length
  rw [step_fine hbegun.lookup rfl hdata, if_pos hi] at hsecond
  unfold Spares at hsecond
  rw [step_fine (Finmap.lookup_insert _) hkeeps.1 hdata'] at hsecond
  by_contra hlong
  have hlt := UInt32.lt_iff_toNat_lt.1 hlt
  have hpos := List.length_pos_of_ne_nil hne
  have hbefore : i.toNat * CHUNK_SIZE ≤ k.toNat * CHUNK_SIZE := Nat.mul_le_mul_right _ hlt.le
  -- the first byte of the later chunk is one of the earlier
  refine hsecond _ _ data' (mem_drop_wrote _ _ _ k data') (i, data) List.mem_cons_self
    (fun heq => ?_) (k.toNat * CHUNK_SIZE) ⟨⟨le_rfl, by omega⟩, hbefore, by dsimp only; omega⟩
  dsimp only at heq
  rw [heq] at hlt
  exact Nat.lt_irrefl _ hlt

/-- **The sizes are kept**, whatever chunks are delivered, exactly for metadata whose chunks end
where the model does, and where the next one begins. -/
theorem bounded_iff {io : Io} {r : Receiver Hash}
    (hstart : (Receiver.startDownload io metadata r).outcome = .ok ()) :
    (∀ chunks : Receiver.Deliveries,
      Machine.Always (step blake3 metadata) (Bounded metadata)
        ⟨(Receiver.startDownload io metadata r).state, []⟩ chunks ∧
      Machine.Along (step blake3 metadata) (Spares blake3 metadata)
        ⟨(Receiver.startDownload io metadata r).state, []⟩ chunks) ↔
      Fitting blake3 metadata ∧ Separate blake3 metadata := by
  have hstate : (Receiver.startDownload io metadata r).state = r.started metadata := by
    generalize hcall : Receiver.startDownload io metadata r = effect at hstart ⊢
    have hspec := hcall ▸ Receiver.startDownload_spec io metadata r
    cases hspec with
    | refused => cases hstart
    | notCreated => cases hstart
    | notSized => cases hstart
    | started => rfl
  have hbegun : (⟨r.started metadata, []⟩ : Delivery Hash) = begun metadata r := rfl
  rw [hstate, hbegun]
  constructor
  · intro h
    exact ⟨fitting_of_bounded fun chunks => (h chunks).1,
      separate_of_spares fun chunks => (h chunks).2⟩
  · rintro ⟨hfit, hsep⟩ chunks
    have hiff : Machine.Always (step blake3 metadata) (Bounded metadata) (begun metadata r) chunks ∧
        Machine.Along (step blake3 metadata) (Spares blake3 metadata) (begun metadata r) chunks ↔
        Machine.Along (step blake3 metadata) (fun _ _ => True) (begun metadata r) chunks := by
      refine Machine.always_and_along_iff
        (I := fun d => ∃ state file, Within blake3 metadata d state file)
        (fun d hd => ?_) (fun d c hd _ => ?_) (fun d c hd _ _ => ?_) ⟨_, _, within_begun r⟩
        Machine.along_true
      · obtain ⟨state, file, h⟩ := hd
        exact h.bounded
      · obtain ⟨state, file, h⟩ := hd
        obtain ⟨⟨state', file', h'⟩, hspares⟩ := within_step hfit hsep h c
        exact iff_of_true ⟨h'.bounded, hspares⟩ trivial
      · obtain ⟨state, file, h⟩ := hd
        exact (within_step hfit hsep h c).1
    exact hiff.2 Machine.along_true

/-- A model of two bytes, in one chunk. -/
def smallModel : ModelMetadata Bytes := ⟨"m", 2, 1, [1, 2], [[1, 2]], "m.gguf"⟩

/-- Its sizes are kept. -/
theorem smallModel_bounded :
    Fitting id smallModel ∧ ∀ chunks : Receiver.Deliveries,
      Machine.Always (step id smallModel) (Bounded smallModel)
        ⟨(Receiver.startDownload (.fine []) smallModel (.new ["models"] ∅)).state, []⟩ chunks ∧
      Machine.Along (step id smallModel) (Spares id smallModel)
        ⟨(Receiver.startDownload (.fine []) smallModel (.new ["models"] ∅)).state, []⟩ chunks := by
  -- only its one chunk has a hash
  have hverify : ∀ {i : UInt32} {data : Bytes}, smallModel.verifyChunk id i data →
      i.toNat = 0 ∧ data = [1, 2] := by
    intro i data h
    unfold ModelMetadata.verifyChunk at h
    cases hi : i.toNat with
    | zero =>
        rw [hi] at h
        exact ⟨rfl, of_decide_eq_true h⟩
    | succ n =>
        rw [hi] at h
        cases h
  have hfit : Fitting id smallModel := by
    intro i data h _
    obtain ⟨hi, rfl⟩ := hverify h
    rw [hi]
    decide
  refine ⟨hfit, (bounded_iff rfl).2 ⟨hfit, fun i k data data' hlt _ _ h _ => ?_⟩⟩
  have hk := (hverify h).1
  have hlt := UInt32.lt_iff_toNat_lt.1 hlt
  omega

/-- A model that is said to have no bytes, with a chunk of five. -/
def swollenModel : ModelMetadata Bytes := ⟨"m", 0, 1, [], [[1, 2, 3, 4, 5]], "m.gguf"⟩

/-- **More bytes than the model has** are received. -/
theorem swollenModel_unbounded :
    ¬ ∀ chunks : Receiver.Deliveries,
      Machine.Always (step id swollenModel) (Bounded swollenModel)
        ⟨(Receiver.startDownload (.fine []) swollenModel (.new ["models"] ∅)).state, []⟩ chunks ∧
      Machine.Along (step id swollenModel) (Spares id swollenModel)
        ⟨(Receiver.startDownload (.fine []) swollenModel (.new ["models"] ∅)).state, []⟩ chunks := by
  intro h
  have hfit : Fitting id swollenModel :=
    fitting_of_bounded (r := .new ["models"] ∅) fun chunks => (h chunks).1
  exact absurd (hfit 0 [1, 2, 3, 4, 5] (by decide) (by decide)) (by decide)

end Delivery

end Inference
end PeerClaw
