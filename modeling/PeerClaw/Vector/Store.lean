import PeerClaw.Lib.Paths
import PeerClaw.Lib.Pool
import PeerClaw.Lib.FiniteMap
import PeerClaw.Value

/-!
# The vector store

Collections live in memory behind a lock, and each of them is kept in a file of the storage
directory.  A call changes its collection in memory, lets go of the lock, and saves the
collection: it looks the collection up again, takes a snapshot of it, writes the snapshot to a
temporary file and renames that file.  Calls are tasks that are cut at these places.

* `VectorStore.advance` — the next section of a call.
* `loadCollections` — what is read of a directory when a store is opened.
* `VectorStore.step` — calls, their sections, and a restart between them.

What `vectx` does with a collection, and what `serde` reads of a point that it has written, is a
parameter (`Vectx`); file operations act on a map from paths to what was written.
-/

namespace PeerClaw

open Lib

/-! ## Collections -/

/-- `vectx::Distance`. -/
inductive Distance
  | cosine
  | euclidean
  | dot

inductive DistanceMetric
  | cosine
  | euclidean
  | dotProduct

/-- `From<DistanceMetric> for Distance`. -/
def DistanceMetric.toDistance : DistanceMetric → Distance
  | .cosine => .cosine
  | .euclidean => .euclidean
  | .dotProduct => .dot

def distanceToMetric : Distance → DistanceMetric
  | .cosine => .cosine
  | .euclidean => .euclidean
  | .dot => .dotProduct

@[simp] theorem toDistance_distanceToMetric (d : Distance) : (distanceToMetric d).toDistance = d := by
  cases d <;> rfl

structure VectorStoreConfig where
  embeddingDim : ℕ
  useHnsw : Bool
  enableBm25 : Bool
  distance : DistanceMetric

/-- `vectx::CollectionConfig`. -/
structure CollectionConfig where
  name : String
  vectorDim : ℕ
  distance : Distance
  useHnsw : Bool
  enableBm25 : Bool

/-- The crate `vectx`, as far as a collection is changed, read and written down. -/
structure Vectx where
  Point : Type
  Collection : Type
  Error : Type
  /-- `Point::new`. -/
  point : String → List Float32 → Option Value → Point
  new : CollectionConfig → Collection
  /-- What `vector_dim`, `distance`, `use_hnsw` and `enable_bm25` read. -/
  config : Collection → CollectionConfig
  getAllPoints : Collection → List Point
  upsert : Collection → Point → Except Error Collection
  delete : Collection → String → Except Error Collection
  batchUpsert : Collection → List Point → Except Error Collection
  /-- What is read of the JSON of a point. -/
  reread : Point → Option Point

inductive VectorError (ε : Type)
  | collectionNotFound (name : String)
  | collectionExists (name : String)
  | invalidDimension (expected actual : ℕ)
  | vectxError (e : ε)
  /-- `read`. -/
  | readFailed (path : Path)
  /-- `deserialize`. -/
  | deserializeFailed (path : Path)
  /-- `batch_upsert for collection`. -/
  | batchUpsertFailed (name : String) (e : ε)
  /-- `rename`. -/
  | renameFailed (path : Path)

section Memory

variable (V : Vectx)

/-- `CollectionSnapshot`. -/
structure CollectionSnapshot where
  name : String
  vectorDim : ℕ
  distance : DistanceMetric
  useHnsw : Bool
  enableBm25 : Bool
  points : List V.Point

variable {V}

/-- The snapshot that `save_collection` takes. -/
def snapshotOf (name : String) (c : V.Collection) : CollectionSnapshot V where
  name := name
  vectorDim := (V.config c).vectorDim
  distance := distanceToMetric (V.config c).distance
  useHnsw := (V.config c).useHnsw
  enableBm25 := (V.config c).enableBm25
  points := V.getAllPoints c

/-- The configuration that `load_collections` makes of a snapshot. -/
def CollectionSnapshot.config (snap : CollectionSnapshot V) : CollectionConfig where
  name := snap.name
  vectorDim := snap.vectorDim
  distance := snap.distance.toDistance
  useHnsw := snap.useHnsw
  enableBm25 := snap.enableBm25

/-- An `Arc` of a collection: its place among the collections that were made. -/
abbrev Arc := ℕ

variable (V) in
/-- The map of the store, and the collections that its `Arc`s point at. -/
structure Memory where
  heap : List V.Collection
  collections : FiniteMap String Arc

namespace Memory

def empty : Memory V := ⟨[], ∅⟩

/-- A new collection is put under a name. -/
def insert (m : Memory V) (name : String) (c : V.Collection) : Memory V where
  heap := m.heap ++ [c]
  collections := m.collections.insert name m.heap.length

/-- The collection under a name. -/
def get? (m : Memory V) (name : String) : Option V.Collection :=
  (m.collections.lookup name).bind fun arc => m.heap[arc]?

end Memory

/-! ## Files -/

/-- The files of a directory, with what was serialized into them. -/
abbrev Files (V : Vectx) := FiniteMap Path (CollectionSnapshot V)

/-- The file of a collection. -/
def finalPath (storage : Path) (name : String) : Path := storage.join (name ++ ".json")

/-- The file that is renamed to it. -/
def tmpPath (storage : Path) (name : String) : Path := storage.join ("." ++ name ++ ".json.tmp")

/-- What `load_collections` does with an entry of the directory. -/
def loadEntry (files : Files V) (m : Memory V) (path : Path) :
    Except (VectorError V.Error) (Memory V) :=
  if path.getLast?.bind Path.extension ≠ some "json" then .ok m
  else
    match files.lookup path with
    | none => .error (.readFailed path)
    | some snap =>
        match snap.points.mapM V.reread with
        | none => .error (.deserializeFailed path)
        | some points =>
            let collection := V.new snap.config
            if points.isEmpty then .ok (m.insert snap.name collection)
            else
              match V.batchUpsert collection points with
              | .error e => .error (.batchUpsertFailed snap.name e)
              | .ok collection => .ok (m.insert snap.name collection)

/-- `load_collections`: the entries in the order in which they are read. -/
def loadCollections (files : Files V) (entries : List Path) :
    Except (VectorError V.Error) (Memory V) :=
  entries.foldlM (loadEntry files) .empty

/-- What `read_dir` may give. -/
def IsListing (storage : Path) (files : Files V) (entries : List Path) : Prop :=
  (entries : Multiset Path) = (files.keys.filter fun p => p ≠ [] ∧ p.dropLast = storage).val

instance (storage : Path) (files : Files V) (entries : List Path) :
    Decidable (IsListing storage files entries) :=
  inferInstanceAs (Decidable (_ = _))

end Memory

/-! ## Calls -/

section Store

variable (V : Vectx)

/-- A call that has returned: the collection that it has changed, and the result, with `true`
for `()`. -/
structure Returned where
  name : String
  changed : Option Arc
  result : Except (VectorError V.Error) Bool

structure VectorStore where
  memory : Memory V
  files : Files V
  /-- What the calls so far have returned. -/
  returned : List (Returned V)

/-- A change of a collection. -/
inductive Change
  | upsert (id : String) (vector : List Float32) (payload : Option Value)
  | delete (id : String)

/-- What is left of a call. -/
inductive StoreStage
  /-- `create_collection_with_dim`. -/
  | create (dim : ℕ)
  /-- `upsert` or `delete`: `get_collection`. -/
  | get (change : Change)
  | change (change : Change) (arc : Arc)
  /-- `save_collection`, after a collection has been made or changed. -/
  | fetch (changed : Arc)
  | snapshot (changed arc : Arc)
  | write (changed arc : Arc) (snap : CollectionSnapshot V)
  | rename (changed arc : Arc) (snap : CollectionSnapshot V)
  /-- `delete_collection`. -/
  | remove
  | removeFile

/-- A call in progress. -/
structure StoreTask where
  name : String
  stage : StoreStage V

variable {V}

/-- A call on the store. -/
inductive StoreCall
  | createCollection (name : String)
  | createCollectionWithDim (name : String) (dim : ℕ)
  | upsert (collection id : String) (vector : List Float32) (payload : Option Value)
  | delete (collection id : String)
  | deleteCollection (name : String)

/-- The call before its first section. -/
def StoreCall.task (cfg : VectorStoreConfig) : StoreCall → StoreTask V
  | .createCollection name => ⟨name, .create cfg.embeddingDim⟩
  | .createCollectionWithDim name dim => ⟨name, .create dim⟩
  | .upsert collection id vector payload => ⟨collection, .get (.upsert id vector payload)⟩
  | .delete collection id => ⟨collection, .get (.delete id)⟩
  | .deleteCollection name => ⟨name, .remove⟩

/-- What is checked of a change before it is made. -/
def Change.check (change : Change) (c : V.Collection) : Except (VectorError V.Error) Unit :=
  match change with
  | .upsert _ vector _ =>
      if vector.length ≠ (V.config c).vectorDim then
        .error (.invalidDimension (V.config c).vectorDim vector.length)
      else .ok ()
  | .delete _ => .ok ()

/-- The change of a collection. -/
def Change.apply (change : Change) (c : V.Collection) : Except V.Error V.Collection :=
  match change with
  | .upsert id vector payload => V.upsert c (V.point id vector payload)
  | .delete id => V.delete c id

namespace VectorStore

/-- The configuration of a new collection. -/
def newConfig (cfg : VectorStoreConfig) (name : String) (dim : ℕ) : CollectionConfig where
  name := name
  vectorDim := dim
  distance := cfg.distance.toDistance
  useHnsw := cfg.useHnsw
  enableBm25 := cfg.enableBm25

/-- A call returns. -/
def ret (s : VectorStore V) (name : String) (changed : Option Arc)
    (result : Except (VectorError V.Error) Bool) : VectorStore V :=
  { s with returned := s.returned ++ [⟨name, changed, result⟩] }

variable (cfg : VectorStoreConfig) (storage : Path)

/-- The next section of a call: the store afterwards, and what is left of the call. -/
def advance (s : VectorStore V) (t : StoreTask V) : VectorStore V × Option (StoreTask V) :=
  match t.stage with
  | .create dim =>
      if t.name ∈ s.memory.collections then
        (s.ret t.name none (.error (.collectionExists t.name)), none)
      else
        ({ s with memory := s.memory.insert t.name (V.new (newConfig cfg t.name dim)) },
          some ⟨t.name, .fetch s.memory.heap.length⟩)
  | .get change =>
      match s.memory.collections.lookup t.name with
      | none => (s.ret t.name none (.error (.collectionNotFound t.name)), none)
      | some arc =>
          match s.memory.heap[arc]? with
          | none => (s, none)
          | some c =>
              match change.check c with
              | .error e => (s.ret t.name none (.error e), none)
              | .ok _ => (s, some ⟨t.name, .change change arc⟩)
  | .change change arc =>
      match s.memory.heap[arc]? with
      | none => (s, none)
      | some c =>
          match change.apply c with
          | .error e => (s.ret t.name none (.error (.vectxError e)), none)
          | .ok c =>
              ({ s with memory := { s.memory with heap := s.memory.heap.set arc c } },
                some ⟨t.name, .fetch arc⟩)
  | .fetch changed =>
      match s.memory.collections.lookup t.name with
      | none => (s.ret t.name (some changed) (.error (.collectionNotFound t.name)), none)
      | some arc => (s, some ⟨t.name, .snapshot changed arc⟩)
  | .snapshot changed arc =>
      match s.memory.heap[arc]? with
      | none => (s, none)
      | some c => (s, some ⟨t.name, .write changed arc (snapshotOf t.name c)⟩)
  | .write changed arc snap =>
      ({ s with files := s.files.insert (tmpPath storage t.name) snap },
        some ⟨t.name, .rename changed arc snap⟩)
  | .rename changed _ _ =>
      match s.files.lookup (tmpPath storage t.name) with
      | none =>
          (s.ret t.name (some changed) (.error (.renameFailed (tmpPath storage t.name))), none)
      | some content =>
          let files := (s.files.erase (tmpPath storage t.name)).insert (finalPath storage t.name) content
          ({ s with files := files }.ret t.name (some changed) (.ok true), none)
  | .remove =>
      if t.name ∈ s.memory.collections then
        ({ s with memory := { s.memory with collections := s.memory.collections.erase t.name } },
          some ⟨t.name, .removeFile⟩)
      else (s.ret t.name none (.ok false), none)
  | .removeFile =>
      ({ s with files := s.files.erase (finalPath storage t.name) }.ret t.name none (.ok true), none)

/-! ## Runs -/

/-- What can happen. -/
inductive Event
  | call (c : StoreCall)
  /-- The call at this place runs its next section. -/
  | resume (k : ℕ)
  /-- The store is dropped and opened again, when no call is in progress. -/
  | reopen (entries : List Path)

/-- The store and the calls on it. -/
abbrev Running (V : Vectx) := Pool (VectorStore V) (StoreTask V)

/-- A store on a new directory. -/
def opened : Running V := ⟨⟨.empty, ∅, []⟩, []⟩

/-- `with_storage`, on the directory that a store has left. -/
def reopen (p : Running V) (entries : List Path) : Running V :=
  if p.Quiescent ∧ IsListing storage p.shared.files entries then
    match loadCollections p.shared.files entries with
    | .ok memory => ⟨⟨memory, p.shared.files, []⟩, []⟩
    | .error _ => p
  else p

def step (p : Running V) : Event → Running V
  | .call c => p.step (advance cfg storage) (.start (c.task cfg))
  | .resume k => p.step (advance cfg storage) (.resume k)
  | .reopen entries => reopen storage p entries

end VectorStore

end Store

end PeerClaw
