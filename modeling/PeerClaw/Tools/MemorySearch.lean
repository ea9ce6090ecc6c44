import PeerClaw.Lib.Batching
import PeerClaw.Lib.Top
import PeerClaw.Tools.Tool

/-!
# Searching the memories

`MemorySearchTool` in `tools/builtin/memory.rs`, with `VectorStore::search` and `hybrid_search` of
`vector/mod.rs` under it: of twice as many points as asked for, those that pass the filters are
kept, up to the limit.  A hybrid search adds up the scores of twice as many points again, by their
vectors and by their texts.

* `Collection` — the points, and what `vectx` finds among them.
* `execute` — a call.  There is no result where it panics.
* `candidates` — the points that take part, with their scores; `found_best` — what the store finds
  are the best of them.
* `execute_best` — what a call returns, and when these are the best of all that pass the filters.

Scores are of any type with a linear order and some arithmetic.
-/

namespace PeerClaw

namespace MemorySearch

open Lib Tools

variable {ν σ : Type} [LinearOrder σ] [Zero σ] [One σ] [Add σ] [Sub σ] [Mul σ]

/-! ## The store -/

structure Point (ν : Type) where
  id : String
  vector : ν
  payload : Option Value

/-- The collection of the memories: its points, and what is found by a vector or by a text. -/
structure Collection (ν σ : Type) [LinearOrder σ] where
  points : List (Point ν)
  nodup : (points.map Point.id).Nodup
  similarity : ν → ν → σ
  search : ν → ℕ → List (Point ν × σ)
  search_best : ∀ query n,
    Best Prod.snd n (points.map fun p => (p, similarity query p.vector)) (search query n)
  /-- The ids of the points that match a text. -/
  matching : String → List (String × σ)
  matching_nodup : ∀ query, ((matching query).map Prod.fst).Nodup
  mem_points : ∀ query, ∀ hit ∈ matching query, hit.1 ∈ points.map Point.id
  searchText : String → ℕ → List (String × σ)
  searchText_best : ∀ query n, Best Prod.snd n (matching query) (searchText query n)

def Collection.get (col : Collection ν σ) (id : String) : Option (Point ν) :=
  col.points.find? fun p => p.id = id

structure SearchResult (σ : Type) where
  id : String
  score : σ
  payload : Option Value
  text : Option String

/-- Create from a point and a score. -/
def SearchResult.fromPoint (point : Point ν) (score : σ) : SearchResult σ where
  id := point.id
  score := score
  payload := point.payload
  text := (point.payload.bind fun p => p.get? "text").bind Value.asStr

/-- What a call runs with, and how the program was built. -/
structure Env (ν σ : Type) [LinearOrder σ] where
  memories : Collection ν σ
  embed : String → Except String ν
  /-- The order in which the combined scores are gone through. -/
  order : IterOrder String σ
  /-- 0.7 -/
  vectorWeight : σ
  /-- 0.1 -/
  defaultMinScore : σ
  ofNumber : Number → σ
  /-- `DateTime::parse_from_rfc3339`, in nanoseconds. -/
  parseTime : String → Option ℤ
  now : ℤ
  overflowChecks : Bool

/-- Twice a number, which panics or wraps around where it does not fit. -/
def twice (overflowChecks : Bool) (n : UInt64) : Option UInt64 :=
  if overflowChecks ∧ 2 ^ 64 ≤ 2 * n.toNat then none else some (n * 2)

namespace VectorStore

variable (col : Collection ν σ)

/-- Search for similar vectors. -/
def search (query : ν) (limit : UInt64) : List (SearchResult σ) :=
  (col.search query limit.toNat).map fun hit => .fromPoint hit.1 hit.2

/-- Add to the score of a point. -/
def addScore (combined : FiniteMap String σ) (id : String) (score : σ) : FiniteMap String σ :=
  combined.insert id ((combined.lookup id).getD 0 + score)

/-- The weighted scores of what was found by vector and by text. -/
def combine (vectorWeight : σ) (vectorResults : List (Point ν × σ))
    (textResults : List (String × σ)) : FiniteMap String σ :=
  let combined := vectorResults.foldl
    (fun combined hit => addScore combined hit.1.id (hit.2 * vectorWeight)) ∅
  textResults.foldl
    (fun combined hit => addScore combined hit.1 (hit.2 * (1 - vectorWeight))) combined

/-- Hybrid search combining vector and text. -/
def hybridSearch (order : IterOrder String σ) (overflowChecks : Bool) (queryVector : ν)
    (queryText : String) (limit : UInt64) (vectorWeight : σ) : Option (List (SearchResult σ)) :=
  (twice overflowChecks limit).map fun more =>
    let combined := combine vectorWeight (col.search queryVector more.toNat)
      (col.searchText queryText more.toNat)
    let results := (order.entries combined).mergeSort fun a b => decide (b.2 ≤ a.2)
    (results.take limit.toNat).filterMap fun entry =>
      (col.get entry.1).map fun point => .fromPoint point entry.2

end VectorStore

/-! ## The tool -/

structure MemoryEntry (σ : Type) where
  id : String
  content : String
  category : String
  sourcePeer : String
  createdAt : ℤ
  modifiedAt : ℤ
  score : Option σ
  replicated : Bool

/-- What the tool answers. -/
structure Output (σ : Type) where
  query : String
  results : List (MemoryEntry σ)
  resultCount : ℕ
  searchedLocal : Bool
  searchedNetwork : Bool
  searchType : String
  peerId : String

section Tool

variable (env : Env ν σ) (params : Value)

/-- Create from a search result, if it has a payload. -/
def MemoryEntry.fromSearchResult (result : SearchResult σ) : Option (MemoryEntry σ) :=
  result.payload.map fun payload =>
    let time := fun key => (((payload.get? key).bind Value.asStr).bind env.parseTime).getD env.now
    { id := result.id
      content := result.text.getD ""
      category := ((payload.get? "category").bind Value.asStr).getD "facts"
      sourcePeer := ((payload.get? "source_peer").bind Value.asStr).getD "unknown"
      createdAt := time "created_at"
      modifiedAt := time "modified_at"
      score := some result.score
      replicated := ((payload.get? "replicated").bind Value.asBool).getD false }

/-- The limit that is asked for, which may be negative. -/
def requested : Int64 := optionalI64 params "limit" 10

/-- The limit: at most 50, and unsigned. -/
def limit : UInt64 := (if requested params ≤ 50 then requested params else 50).toUInt64

def minScore : σ :=
  match params.get? "min_score" with
  | some (.number n) => env.ofNumber n
  | _ => env.defaultMinScore

def hybrid : Bool := optionalBool params "hybrid" true

/-- The category that is asked for, if any. -/
def ofCategory (result : SearchResult σ) : Bool :=
  match optionalStr params "category" with
  | some cat => (result.payload.bind fun p => p.get? "category").bind Value.asStr == some cat
  | none => true

/-- The entries of what was found. -/
def entries (found : List (SearchResult σ)) : List (MemoryEntry σ) :=
  let results := (((found.filter fun r => decide (minScore env params ≤ r.score)).filter
    (ofCategory params)).filterMap (MemoryEntry.fromSearchResult env)).take (limit params).toNat
  results.mergeSort fun a b => decide (b.score.getD 0 ≤ a.score.getD 0)

/-- What the store finds for twice the limit. -/
def find (query : String) (embedding : ν) : Option (List (SearchResult σ)) :=
  (twice env.overflowChecks (limit params)).bind fun more =>
    if hybrid params then
      VectorStore.hybridSearch env.memories env.order env.overflowChecks embedding query more
        env.vectorWeight
    else some (VectorStore.search env.memories embedding more)

/-- A call. -/
def execute (peerId : String) : Option (Except ToolError (Output σ)) :=
  match requireStr params "query" with
  | .error e => some (.error e)
  | .ok query =>
      match env.embed query with
      | .error e => some (.error (.executionFailed s!"Embedding error: {e}"))
      | .ok embedding =>
          (find env params query embedding).map fun found =>
            let results := entries env params found
            .ok { query := query
                  results := results
                  resultCount := results.length
                  searchedLocal := true
                  searchedNetwork := optionalBool params "include_network" true
                  searchType := if hybrid params then "hybrid" else "vector"
                  peerId := peerId }

end Tool

/-! ## The points that take part -/

section Candidates

variable (env : Env ν σ) (params : Value)

/-- The combined score of a point, if it is among the best `n` by its vector or by its text. -/
def hybridScore (query : String) (embedding : ν) (n : ℕ) (id : String) : Option σ :=
  let byVector := ((env.memories.search embedding n).find? fun hit => hit.1.id = id).map
    fun hit => hit.2 * env.vectorWeight
  let byText := ((env.memories.searchText query n).find? fun hit => hit.1 = id).map
    fun hit => hit.2 * (1 - env.vectorWeight)
  match byVector, byText with
  | none, none => none
  | some v, none => some (0 + v)
  | none, some t => some (0 + t)
  | some v, some t => some (0 + v + t)

/-- The points with their scores: all of them by their vectors, or those that have a combined
score among some of the best. -/
def candidates (query : String) (embedding : ν) (n : ℕ) : List (SearchResult σ) :=
  if hybrid params then
    env.memories.points.filterMap fun point =>
      (hybridScore env query embedding n point.id).map (.fromPoint point)
  else env.memories.points.map fun point =>
    .fromPoint point (env.memories.similarity embedding point.vector)

/-- The result passes the filters, and has what makes it a memory. -/
def passes (result : SearchResult σ) : Bool :=
  decide (minScore env params ≤ result.score) && ofCategory params result && result.payload.isSome

end Candidates

section Proofs

variable {env : Env ν σ} {params : Value} {query : String} {embedding : ν} {n : ℕ}

omit [LinearOrder σ] [One σ] [Sub σ] [Mul σ] in
theorem lookup_foldl_addScore {α : Type} (key : α → String) (score : α → σ) (id : String) :
    ∀ (hits : List α) (combined : FiniteMap String σ), (hits.map key).Nodup →
      (hits.foldl (fun m hit => VectorStore.addScore m (key hit) (score hit)) combined).lookup id =
        match hits.find? fun hit => key hit = id with
        | none => combined.lookup id
        | some hit => some ((combined.lookup id).getD 0 + score hit) := by
  intro hits
  induction hits with
  | nil => intro combined _; rfl
  | cons hit hits ih =>
      intro combined hnodup
      rw [List.map_cons, List.nodup_cons] at hnodup
      rw [List.foldl_cons, ih _ hnodup.2, VectorStore.addScore, Finmap.lookup_insert_eq]
      by_cases hid : key hit = id
      · have hnone : (hits.find? fun hit => decide (key hit = id)) = none := by
          rw [List.find?_eq_none]
          intro other hmem hother
          apply hnodup.1
          rw [hid, ← of_decide_eq_true hother]
          exact List.mem_map_of_mem hmem
        rw [hnone, List.find?_cons_of_pos (by simpa using hid), if_pos hid.symm, hid]
      · rw [List.find?_cons_of_neg (by simpa using hid), if_neg (Ne.symm hid)]

omit [Zero σ] [One σ] [Add σ] [Sub σ] [Mul σ] in
theorem nodup_search (col : Collection ν σ) (query : ν) (n : ℕ) :
    ((col.search query n).map fun hit => hit.1.id).Nodup := by
  obtain ⟨rest, hperm, -⟩ := (col.search_best query n).others
  have hids := col.nodup
  have hall := (hperm.map fun hit => hit.1.id).nodup_iff.2 (by rwa [List.map_map])
  rw [List.map_append] at hall
  exact (List.nodup_append.1 hall).1

omit [Zero σ] [One σ] [Add σ] [Sub σ] [Mul σ] in
theorem nodup_searchText (col : Collection ν σ) (query : String) (n : ℕ) :
    ((col.searchText query n).map Prod.fst).Nodup := by
  obtain ⟨rest, hperm, -⟩ := (col.searchText_best query n).others
  have hall := (hperm.map Prod.fst).nodup_iff.2 (col.matching_nodup query)
  rw [List.map_append] at hall
  exact (List.nodup_append.1 hall).1

/-- **The combined score.** -/
theorem lookup_combine (query : String) (embedding : ν) (n : ℕ) (id : String) :
    (VectorStore.combine env.vectorWeight (env.memories.search embedding n)
      (env.memories.searchText query n)).lookup id = hybridScore env query embedding n id := by
  unfold VectorStore.combine hybridScore
  rw [lookup_foldl_addScore Prod.fst (fun hit => hit.2 * (1 - env.vectorWeight)) id _ _
      (nodup_searchText env.memories query n),
    lookup_foldl_addScore (fun hit : Point ν × σ => hit.1.id)
      (fun hit => hit.2 * env.vectorWeight) id _ _
      (nodup_search env.memories embedding n)]
  cases (env.memories.search embedding n).find? fun hit => decide (hit.1.id = id) with
  | none => cases (env.memories.searchText query n).find? fun hit => decide (hit.1 = id) <;> rfl
  | some v => cases (env.memories.searchText query n).find? fun hit => decide (hit.1 = id) <;> rfl

theorem isSome_get_of_hybridScore {id : String} {score : σ}
    (h : hybridScore env query embedding n id = some score) :
    ∃ point, env.memories.get id = some point := by
  have hmem : id ∈ env.memories.points.map Point.id := by
    unfold hybridScore at h
    cases hv : (env.memories.search embedding n).find? fun hit => decide (hit.1.id = id) with
    | some hit =>
        have hid : hit.1.id = id := by simpa using List.find?_some hv
        have hfound := (env.memories.search_best embedding n).mem (List.mem_of_find?_eq_some hv)
        obtain ⟨point, hpoint, rfl⟩ := List.mem_map.1 hfound
        rw [← hid]
        exact List.mem_map_of_mem hpoint
    | none =>
        cases ht : (env.memories.searchText query n).find? fun hit => decide (hit.1 = id) with
        | some hit =>
            have hid : hit.1 = id := by simpa using List.find?_some ht
            have hfound := (env.memories.searchText_best query n).mem (List.mem_of_find?_eq_some ht)
            rw [← hid]
            exact env.memories.mem_points query hit hfound
        | none =>
            rw [hv, ht] at h
            cases h
  obtain ⟨point, hpoint, hid⟩ := List.mem_map.1 hmem
  cases hget : env.memories.get id with
  | some point => exact ⟨point, rfl⟩
  | none => exact absurd (List.find?_eq_none.1 hget point hpoint) (by simpa using hid)

omit [Zero σ] [One σ] [Add σ] [Sub σ] [Mul σ] in
theorem get_eq_some_iff (col : Collection ν σ) {id : String} {point : Point ν} :
    col.get id = some point ↔ point ∈ col.points ∧ point.id = id := by
  constructor
  · intro h
    exact ⟨List.mem_of_find?_eq_some h, by simpa using List.find?_some h⟩
  · rintro ⟨hmem, rfl⟩
    cases hget : col.get point.id with
    | none => exact absurd (List.find?_eq_none.1 hget point hmem) (by simp)
    | some other =>
        have hid : other.id = point.id := by simpa using List.find?_some hget
        rw [List.inj_on_of_nodup_map col.nodup (List.mem_of_find?_eq_some hget) hmem hid]

/-- The points with a combined score, in whichever order they are gone through. -/
theorem entries_combine_perm (query : String) (embedding : ν) (n : ℕ) :
    ((env.order.entries (VectorStore.combine env.vectorWeight (env.memories.search embedding n)
        (env.memories.searchText query n))).filterMap fun entry =>
          (env.memories.get entry.1).map fun point => SearchResult.fromPoint point entry.2).Perm
      (env.memories.points.filterMap fun point =>
        (hybridScore env query embedding n point.id).map (SearchResult.fromPoint point)) := by
  refine (List.perm_ext_iff_of_nodup ?_ ?_).2 fun result => ?_
  · refine (env.order.nodup_entries _).filterMap fun e e' r hr hr' => ?_
    obtain ⟨point, hpoint, rfl⟩ := Option.map_eq_some_iff.1 hr
    obtain ⟨point', hpoint', heq⟩ := Option.map_eq_some_iff.1 hr'
    have hid : point'.id = point.id := congrArg SearchResult.id heq
    have hscore : e'.2 = e.2 := congrArg SearchResult.score heq
    rw [((get_eq_some_iff _).1 hpoint).2, ((get_eq_some_iff _).1 hpoint').2] at hid
    exact Prod.ext hid.symm hscore.symm
  · rw [List.Nodup, List.pairwise_filterMap]
    refine (List.pairwise_map.1 env.memories.nodup).imp fun hne r hr r' hr' heq => hne ?_
    obtain ⟨score, -, rfl⟩ := Option.map_eq_some_iff.1 hr
    obtain ⟨score', -, rfl⟩ := Option.map_eq_some_iff.1 hr'
    exact congrArg SearchResult.id heq
  · simp only [List.mem_filterMap, IterOrder.mem_entries, lookup_combine, Option.map_eq_some_iff,
      get_eq_some_iff]
    constructor
    · rintro ⟨⟨id, score⟩, hscore, point, ⟨hmem, rfl⟩, rfl⟩
      exact ⟨point, hmem, score, hscore, rfl⟩
    · rintro ⟨point, hmem, score, hscore, rfl⟩
      exact ⟨(point.id, score), hscore, point, ⟨hmem, rfl⟩, rfl⟩

/-! ## What the store finds -/

theorem twice_eq (overflowChecks : Bool) {n : UInt64} (h : 2 * n.toNat < 2 ^ 64) :
    twice overflowChecks n = some (n * 2) ∧ (n * 2).toNat = 2 * n.toNat := by
  refine ⟨if_neg fun hoverflow => ?_, ?_⟩
  · omega
  · have htwo : (2 : UInt64).toNat = 2 := rfl
    rw [UInt64.toNat_mul, htwo]
    omega

omit [Zero σ] [One σ] [Add σ] [Sub σ] [Mul σ] in
theorem search_best (col : Collection ν σ) (query : ν) (limit : UInt64) :
    Best SearchResult.score limit.toNat
      (col.points.map fun point => SearchResult.fromPoint point (col.similarity query point.vector))
      (VectorStore.search col query limit) := by
  have hbest := (col.search_best query limit.toNat).filterMap SearchResult.score
    (fun hit => some (SearchResult.fromPoint hit.1 hit.2)) fun hit _ => ⟨_, rfl, rfl⟩
  simpa only [VectorStore.search, List.filterMap_eq_map', List.map_map, Function.comp_def]
    using hbest

theorem hybridSearch_best (env : Env ν σ) (query : String) (embedding : ν) (limit : UInt64)
    (h : 2 * limit.toNat < 2 ^ 64) :
    ∃ found, VectorStore.hybridSearch env.memories env.order env.overflowChecks embedding query limit
        env.vectorWeight = some found ∧
      Best SearchResult.score limit.toNat (env.memories.points.filterMap fun point =>
        (hybridScore env query embedding (2 * limit.toNat) point.id).map
          (SearchResult.fromPoint point)) found := by
  obtain ⟨htwice, hmore⟩ := twice_eq env.overflowChecks h
  refine ⟨_, by rw [VectorStore.hybridSearch, htwice, Option.map_some], ?_⟩
  rw [hmore]
  refine Best.of_perm ?_ (entries_combine_perm query embedding _)
  refine (best_sort_take Prod.snd limit.toNat _).filterMap SearchResult.score _
    fun entry hentry => ?_
  rw [IterOrder.mem_entries, lookup_combine] at hentry
  obtain ⟨point, hpoint⟩ := isSome_get_of_hybridScore hentry
  exact ⟨_, by rw [hpoint, Option.map_some], rfl⟩

/-! ## What a call returns -/

theorem toNat_limit (h : 0 ≤ requested params) :
    (limit params).toNat = min (requested params).toNatClampNeg 50 := by
  have hfifty : (50 : Int64).toNatClampNeg = 50 := by decide
  unfold limit
  split
  · next hle =>
      rw [Int64.toNat_toUInt64_of_le h]
      have hmono := Int64.le_iff_toInt_le.1 hle
      simp only [Int64.toNatClampNeg] at hfifty ⊢
      omega
  · next hgt =>
      have hle : (50 : Int64) ≤ requested params := Int64.le_of_lt (Int64.not_le.1 hgt)
      have hmono := Int64.le_iff_toInt_le.1 hle
      rw [Int64.toNat_toUInt64_of_le (by decide)]
      simp only [Int64.toNatClampNeg] at hfifty ⊢
      omega

/-- **The store finds the best of the points that take part**, twice as many as asked for. -/
theorem find_best (env : Env ν σ) (query : String) (embedding : ν) (h : 0 ≤ requested params) :
    ∃ found, find env params query embedding = some found ∧
      Best SearchResult.score (2 * (limit params).toNat)
        (candidates env params query embedding (4 * (limit params).toNat)) found := by
  have hlimit := toNat_limit h
  obtain ⟨htwice, hmore⟩ := twice_eq env.overflowChecks (n := limit params) (by omega)
  rw [find, htwice, Option.bind_some, candidates]
  cases hybrid params with
  | true =>
      obtain ⟨found, hfound, hbest⟩ := hybridSearch_best env query embedding
        (limit params * 2) (by omega)
      rw [hmore, ← Nat.mul_assoc] at hbest
      exact ⟨found, hfound, hbest⟩
  | false =>
      have hbest := search_best env.memories embedding (limit params * 2)
      rw [hmore] at hbest
      exact ⟨_, rfl, hbest⟩

theorem take_filterMap {α β : Type} (f : α → Option β) (n : ℕ) (xs : List α) :
    (xs.filterMap f).take n = ((xs.filter fun a => (f a).isSome).take n).filterMap f := by
  induction xs generalizing n with
  | nil => simp
  | cons a xs ih =>
      cases hfa : f a with
      | none => simp [hfa, ih]
      | some b =>
          cases n with
          | zero => simp
          | succ n => simp [hfa, ih]

omit [Zero σ] [One σ] [Add σ] [Sub σ] [Mul σ] in
theorem entries_unsorted (found : List (SearchResult σ)) :
    (((found.filter fun r => decide (minScore env params ≤ r.score)).filter
      (ofCategory params)).filterMap (MemoryEntry.fromSearchResult env)).take (limit params).toNat =
    ((found.filter (passes env params)).take (limit params).toNat).filterMap
      (MemoryEntry.fromSearchResult env) := by
  rw [take_filterMap, List.filter_filter, List.filter_filter]
  congr 2
  apply List.filter_congr
  intro r _
  have hsome : (MemoryEntry.fromSearchResult env r).isSome = r.payload.isSome := Option.isSome_map
  rw [hsome, passes]
  cases decide (minScore env params ≤ r.score) <;> cases ofCategory params r <;>
    cases r.payload.isSome <;> rfl

omit [Zero σ] [One σ] [Add σ] [Sub σ] [Mul σ] in
theorem fromSearchResult_of_passes {r : SearchResult σ} (h : passes env params r = true) :
    ∃ entry, MemoryEntry.fromSearchResult env r = some entry ∧ entry.score = some r.score := by
  obtain ⟨-, hpayload⟩ := Bool.and_eq_true_iff.1 h
  obtain ⟨payload, hpayload⟩ := Option.isSome_iff_exists.1 hpayload
  exact ⟨_, by rw [MemoryEntry.fromSearchResult, hpayload, Option.map_some], rfl⟩

omit [One σ] [Add σ] [Sub σ] [Mul σ] in
theorem length_entries (found : List (SearchResult σ)) : (entries env params found).length =
    min (limit params).toNat (found.filter (passes env params)).length := by
  rw [entries, entries_unsorted, List.length_mergeSort, List.filterMap_length_eq_length.2,
    List.length_take]
  intro r hr
  obtain ⟨entry, hentry, -⟩ := fromSearchResult_of_passes
    (List.of_mem_filter (List.mem_of_mem_take hr))
  rw [hentry]
  rfl

omit [One σ] [Add σ] [Sub σ] [Mul σ] in
/-- The entries of what was found in descending order are the first that pass. -/
theorem entries_eq {found : List (SearchResult σ)}
    (h : found.Pairwise fun a b => b.score ≤ a.score) : entries env params found =
      ((found.filter (passes env params)).take (limit params).toNat).filterMap
        (MemoryEntry.fromSearchResult env) := by
  rw [entries, entries_unsorted]
  apply List.mergeSort_of_pairwise
  rw [List.pairwise_filterMap]
  have hkept := (h.filter (passes env params)).sublist (List.take_sublist (limit params).toNat _)
  refine hkept.imp_of_mem fun {a b} ha hb hab e he e' he' => ?_
  obtain ⟨entry, hentry, hscore⟩ := fromSearchResult_of_passes
    (List.of_mem_filter (List.mem_of_mem_take ha))
  obtain ⟨entry', hentry', hscore'⟩ := fromSearchResult_of_passes
    (List.of_mem_filter (List.mem_of_mem_take hb))
  rw [hentry] at he
  rw [hentry'] at he'
  obtain rfl := Option.some.inj he
  obtain rfl := Option.some.inj he'
  rw [hscore, hscore']
  exact decide_eq_true hab

theorem execute_eq {found : List (SearchResult σ)} (hquery : requireStr params "query" = .ok query)
    (hembed : env.embed query = .ok embedding)
    (hfound : find env params query embedding = some found) (peerId : String) :
    ∃ out, execute env params peerId = some (.ok out) ∧ out.results = entries env params found := by
  rw [execute, hquery]
  simp only [hembed, hfound]
  exact ⟨_, rfl, rfl⟩

/-- **What a call returns**: with a limit that is not negative, the best of those that pass the
filters among twice as many points as asked for; they are the best of all that pass if and only if
enough of them are among those. -/
theorem execute_best (env : Env ν σ) (params : Value) (query : String) (embedding : ν)
    (hquery : requireStr params "query" = .ok query) (hembed : env.embed query = .ok embedding)
    (hlimit : 0 ≤ requested params) (peerId : String) :
    let limit := min (requested params).toNatClampNeg 50
    let all := candidates env params query embedding (4 * limit)
    ∃ found out, Best SearchResult.score (2 * limit) all found ∧
      execute env params peerId = some (.ok out) ∧
      let kept := (found.filter (passes env params)).take limit
      out.results = kept.filterMap (MemoryEntry.fromSearchResult env) ∧
        out.results.length = min limit (found.filter (passes env params)).length ∧
        Best SearchResult.score limit (found.filter (passes env params)) kept ∧
        (Best SearchResult.score limit (all.filter (passes env params)) kept ↔
          min limit (all.filter (passes env params)).length ≤
            (found.filter (passes env params)).length) := by
  obtain ⟨found, hfound, hbest⟩ := find_best env query embedding hlimit
  obtain ⟨out, hout, hresults⟩ := execute_eq hquery hembed hfound peerId
  rw [toNat_limit hlimit] at hbest
  refine ⟨found, out, hbest, hout, ?_, ?_, hbest.take_filter _ _, hbest.take_filter_iff _ _⟩
  · rw [hresults, entries_eq hbest.descending, toNat_limit hlimit]
  · rw [hresults, length_entries, toNat_limit hlimit]

end Proofs

/-! ## A store whose points are their own scores -/

section Listed

/-- Points in descending order of their scores, which no text finds. -/
def listed (points : List (Point ℤ)) (hids : (points.map Point.id).Nodup)
    (hdesc : points.Pairwise fun a b => b.vector ≤ a.vector) : Collection ℤ ℤ where
  points := points
  nodup := hids
  similarity _ score := score
  search _ n := (points.map fun p => (p, p.vector)).take n
  search_best _ n := by
    have hall : (points.map fun p => (p, p.vector)).Pairwise fun a b => b.2 ≤ a.2 :=
      List.pairwise_map.2 hdesc
    exact best_take hall n
  matching _ := []
  matching_nodup _ := List.nodup_nil
  mem_points _ _ h := absurd h List.not_mem_nil
  searchText _ _ := []
  searchText_best _ n := by simpa using best_take List.Pairwise.nil n

/-- Searching such a store, with scores that count from one. -/
def listedEnv (memories : Collection ℤ ℤ) : Env ℤ ℤ where
  memories := memories
  embed _ := .ok 0
  order := IterOrder.ranked (fun id : String => id) Function.injective_id
  vectorWeight := 1
  defaultMinScore := 1
  ofNumber _ := 1
  parseTime _ := none
  now := 0
  overflowChecks := true

/-- A memory of a category. -/
def memory (category : String) (score : ℕ) : Point ℤ :=
  ⟨category ++ toString score, score, some (.ofFields [("category", .string category)])⟩

/-- Two memories of one category, and the third best of another. -/
def three : Env ℤ ℤ :=
  listedEnv (listed [memory "b" 3, memory "b" 2, memory "a" 1] (by decide) (by decide))

/-- A search by vectors, for memories of a category. -/
def vectorSearch (category : String) (limit : Number) : Value :=
  .ofFields [("query", .string "q"), ("category", .string category), ("limit", .number limit),
    ("hybrid", .bool false)]

/-- The two memories of the first category are found. -/
theorem three_best : let params := vectorSearch "b" (.posInt 2)
    ∃ found out, Best SearchResult.score 4 (candidates three params "q" 0 8) found ∧
      execute three params "me" = some (.ok out) ∧
      out.results.length = min 2 (found.filter (passes three params)).length := by
  obtain ⟨found, out, hbest, hout, -, hlen, -⟩ := execute_best three
    (vectorSearch "b" (.posInt 2)) "q" 0 rfl rfl (by decide) "me"
  exact ⟨found, out, hbest, hout, hlen⟩

/-- As many memories of one category as a call may ask for, and one more. -/
def manyPoints : List (Point ℤ) := (List.range 51).reverse.map (memory "a")

theorem manyPoints_nodup : (manyPoints.map Point.id).Nodup := by decide +kernel

theorem manyPoints_descending : manyPoints.Pairwise fun a b => b.vector ≤ a.vector := by
  decide +kernel

def many : Env ℤ ℤ := { listedEnv (listed manyPoints manyPoints_nodup manyPoints_descending) with
  defaultMinScore := 0 }

theorem length_results {env : Env ℤ ℤ} {params : Value} {found : List (SearchResult ℤ)} {n : ℕ}
    (hquery : requireStr params "query" = .ok "q") (hembed : env.embed "q" = .ok 0)
    (hfound : find env params "q" 0 = some found)
    (hlen : min (limit params).toNat (found.filter (passes env params)).length = n) :
    ∃ out, execute env params "me" = some (.ok out) ∧ out.results.length = n := by
  obtain ⟨out, hout, hresults⟩ := execute_eq hquery hembed hfound "me"
  exact ⟨out, hout, by rw [hresults, length_entries, hlen]⟩

/-- **Memories are missed**: one that passes, where two of another category score better; and one
of fifty-one that all pass.  A negative limit panics where overflow is checked. -/
theorem memories_missed :
    (let params := vectorSearch "a" (.posInt 1);
      ((candidates three params "q" 0 4).filter (passes three params)).length = 1 ∧
        ∃ out, execute three params "me" = some (.ok out) ∧ out.results.length = 0) ∧
    (let params := vectorSearch "a" (.posInt 51);
      ((candidates many params "q" 0 204).filter (passes many params)).length = 51 ∧
        ∃ out, execute many params "me" = some (.ok out) ∧ out.results.length = 50) ∧
    execute three (vectorSearch "b" (.negInt (-1))) "me" = none := by
  refine ⟨⟨by decide +kernel, ?_⟩, ⟨by decide +kernel, ?_⟩, by rfl⟩
  · exact length_results rfl rfl rfl (by decide +kernel)
  · exact length_results rfl rfl rfl (by decide +kernel)

end Listed

end MemorySearch
end PeerClaw
