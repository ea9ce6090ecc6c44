import PeerClaw.Agent.Session
import PeerClaw.Lib.Machine

/-!
# Whether sessions keep apart

The turns of a session are read and deleted as a range of keys.  Ids of sessions are
arbitrary texts, and the separator is a character that a text may contain.

* `sessions_isolated_iff` — after every sequence of operations, what is loaded for a
  session are the last turns that were appended to it since it was last cleared, exactly
  when no turn is appended to a session with 10^10 turns, or to one whose id continues
  another after a NUL character with a text below ten nines.
* `continued_id_intrudes` — they need not: a turn that is appended to `"a\05"` is loaded
  for `"a"`.
* `mem_listSessions_iff` — as long as they do, the sessions that are listed are those with
  turns, with the number of these.
* `pruned` — pruning takes away the stale sessions, and leaves the others as they are.
-/

namespace PeerClaw
namespace SessionStore

open Lib

/-! ## Operations and what was appended -/

/-- What is asked of the store. -/
inductive Op
  | saveTurn (now : ℤ) (sessionId role content : String)
  | loadSession (sessionId : String) (maxTurns : ℕ)
  | listSessions
  | clearSession (sessionId : String)

/-- The store after an operation. -/
def step (store : SessionStore) : Op → SessionStore
  | .saveTurn now sessionId role content => store.saveTurn now sessionId role content
  | .clearSession sessionId => store.clearSession sessionId
  | _ => store

/-- The turns that were appended to every session since it was last cleared. -/
abbrev History := String → List SessionTurn

/-- What was appended, after an operation, by what was asked for alone. -/
def append (turns : History) : Op → History
  | .saveTurn now sessionId role content =>
      Function.update turns sessionId (turns sessionId ++ [⟨role, content, now⟩])
  | .clearSession sessionId => Function.update turns sessionId []
  | _ => turns

/-- A store, and what was appended. -/
abbrev Recorded := SessionStore × History

/-- The store and what was appended, after an operation. -/
def record (r : Recorded) (op : Op) : Recorded := (step r.1 op, append r.2 op)

/-- Pruning is a sequence of operations: the sessions found stale are cleared one by one. -/
theorem pruneOld_eq_run (store : SessionStore) (now maxAgeSecs : ℤ) :
    (store.pruneOld now maxAgeSecs).1 =
      Machine.run step store ((store.staleSessions (now - maxAgeSecs)).map .clearSession) := by
  rw [Machine.run, List.foldl_map]
  rfl

/-! ## The property and the condition -/

/-- The turns of a session, under the keys of their numbers. -/
def numbered (sessionId : String) (turns : List SessionTurn) : List (String × SessionTurn) :=
  turns.zipIdx.map fun e => (turnKey sessionId (.ofNat e.2), e.1)

/-- What is loaded for a session are the last turns that were appended to it, and the entries
in its range are these turns alone, in their order. -/
structure Isolated (r : Recorded) : Prop where
  loads : ∀ s n, r.1.loadSession s n = (r.2 s).rtake n
  entries : ∀ s, r.1.entries s = numbered s (r.2 s)

/-- A turn is appended to a session with fewer than 10^10 turns, whose id continues no other. -/
def Safe (r : Recorded) : Op → Prop
  | .saveTurn _ s _ _ => (r.2 s).length < 10 ^ 10 ∧ ∀ t, ¬ ContinuesId t s
  | _ => True

/-- **The invariant.**  The entries of the table are the turns that were appended, under the
keys of their numbers, and no session that has turns lies in the range of another. -/
structure Filed (r : Recorded) : Prop where
  counted : ∀ s, (r.1.sessionMeta.lookup s).map (fun m => (m.sessionId, m.turnCount.toNat)) =
    if r.2 s = [] then none else some (s, (r.2 s).length)
  stored : ∀ k turn, r.1.sessions.lookup k = some turn ↔
    ∃ s i, k = turnKey s (.ofNat i) ∧ (r.2 s)[i]? = some turn
  bounded : ∀ s, (r.2 s).length ≤ 10 ^ 10
  apart : ∀ s t, r.2 s ≠ [] → ¬ ContinuesId t s

theorem mem_numbered {s : String} {turns : List SessionTurn} {e : String × SessionTurn} :
    e ∈ numbered s turns ↔ ∃ i, e.1 = turnKey s (.ofNat i) ∧ turns[i]? = some e.2 := by
  unfold numbered
  rw [List.mem_map]
  constructor
  · rintro ⟨⟨turn, i⟩, hmem, rfl⟩
    exact ⟨i, rfl, List.mk_mem_zipIdx_iff_getElem?.1 hmem⟩
  · rintro ⟨i, hkey, hturn⟩
    exact ⟨(e.2, i), List.mk_mem_zipIdx_iff_getElem?.2 hturn, Prod.ext hkey.symm rfl⟩

theorem toNat_index {i : ℕ} (hi : i ≤ 10 ^ 10) : (UInt64.ofNat i).toNat = i :=
  UInt64.toNat_ofNat_of_lt' (by simp only [UInt64.size]; omega)

theorem pairwise_numbered {s : String} {turns : List SessionTurn} (h : turns.length ≤ 10 ^ 10) :
    (numbered s turns).Pairwise fun e e' => e.1 < e'.1 := by
  rw [List.pairwise_iff_getElem]
  intro i j hi hj hij
  have hj' : j < turns.length := by simpa [numbered] using hj
  simp only [numbered, List.getElem_map, List.getElem_zipIdx, Nat.zero_add]
  refine turnKey_lt_turnKey ?_ ?_
  · rwa [toNat_index (by omega), toNat_index (by omega)]
  · rw [toNat_index (by omega)]
    omega

theorem map_snd_numbered (s : String) (turns : List SessionTurn) :
    (numbered s turns).map Prod.snd = turns := by
  unfold numbered
  rw [List.map_map]
  exact List.zipIdx_map_fst 0 turns

theorem loadSession_eq_rtake (store : SessionStore) (s : String) (n : ℕ) :
    store.loadSession s n = ((store.entries s).map Prod.snd).rtake n := by
  unfold loadSession List.rtake
  dsimp only
  split
  · rfl
  · rename_i hle
    rw [Nat.sub_eq_zero_of_le (by omega), List.drop_zero]

/-! ## One operation -/

section Step

variable {r : Recorded} {s t : String}

theorem Filed.index_lt (h : Filed r) {i : ℕ} {turn : SessionTurn}
    (hturn : (r.2 s)[i]? = some turn) : i < 10 ^ 10 := by
  obtain ⟨hi, -⟩ := List.getElem?_eq_some_iff.1 hturn
  exact lt_of_lt_of_le hi (h.bounded s)

/-- The turns of a session that lie in the range of another are there no longer. -/
theorem Filed.of_inRange (h : Filed r) {i : ℕ} {turn : SessionTurn}
    (hturn : (r.2 s)[i]? = some turn) (hrange : InRange t (turnKey s (.ofNat i))) : s = t := by
  have hi := h.index_lt hturn
  have hne : r.2 s ≠ [] := by
    intro hnil
    rw [hnil] at hturn
    cases hturn
  rw [inRange_turnKey_iff (by rwa [toNat_index (by omega)])] at hrange
  exact hrange.resolve_right (h.apart s t hne)

/-- **The range of a session holds its own turns.** -/
theorem Filed.isolated (h : Filed r) : Isolated r := by
  have hentries : ∀ s, r.1.entries s = numbered s (r.2 s) := by
    intro s
    refine Finmap.range_eq_of_mem (pairwise_numbered (h.bounded s)) ?_
    intro e
    rw [mem_numbered, h.stored]
    constructor
    · rintro ⟨i, hkey, hturn⟩
      have hi := h.index_lt hturn
      refine ⟨⟨s, i, hkey, hturn⟩, ?_⟩
      rw [hkey]
      exact inRange_turnKey_self (by rwa [toNat_index (by omega)])
    · rintro ⟨⟨s', i, hkey, hturn⟩, hrange⟩
      have hrange' : InRange s e.1 := hrange
      rw [hkey] at hrange'
      obtain rfl := h.of_inRange hturn hrange'
      exact ⟨i, hkey, hturn⟩
  refine ⟨?_, hentries⟩
  intro s n
  rw [loadSession_eq_rtake, hentries, map_snd_numbered]

theorem Filed.metaOf_eq (h : Filed r) (now : ℤ) (s : String) :
    (r.1.metaOf now s).sessionId = s ∧
      (r.1.metaOf now s).turnCount = .ofNat (r.2 s).length := by
  have hcount := h.counted s
  unfold metaOf
  cases hm : r.1.sessionMeta.lookup s with
  | none =>
      rw [hm] at hcount
      split at hcount
      · rename_i hnil
        rw [hnil]
        exact ⟨rfl, rfl⟩
      · cases hcount
  | some m =>
      rw [hm] at hcount
      split at hcount
      · cases hcount
      · obtain ⟨hid, hlength⟩ := Prod.mk.inj (Option.some.inj hcount)
        refine ⟨hid, ?_⟩
        rw [← hlength]
        exact UInt64.ofNat_toNat.symm

theorem getElem?_save {now : ℤ} {role content : String} {i : ℕ} {turn : SessionTurn} :
    ((record r (.saveTurn now s role content)).2 t)[i]? = some turn ↔
      (t = s ∧ i = (r.2 s).length ∧ turn = ⟨role, content, now⟩) ∨ (r.2 t)[i]? = some turn := by
  have hturns : (record r (.saveTurn now s role content)).2 t =
      if t = s then r.2 s ++ [⟨role, content, now⟩] else r.2 t := Function.update_apply ..
  rw [hturns]
  by_cases hs : t = s
  · subst hs
    rw [if_pos rfl, List.getElem?_append]
    split
    · rename_i hlt
      constructor
      · exact .inr
      · rintro (⟨-, rfl, -⟩ | hold)
        · exact absurd hlt (Nat.lt_irrefl _)
        · exact hold
    · rename_i hge
      have hnone : (r.2 t)[i]? = none := List.getElem?_eq_none (Nat.le_of_not_lt hge)
      rw [hnone, List.getElem?_singleton]
      constructor
      · intro hnew
        split at hnew
        · refine .inl ⟨rfl, by omega, (Option.some.inj hnew).symm⟩
        · cases hnew
      · rintro (⟨-, rfl, rfl⟩ | hold)
        · rw [Nat.sub_self, if_pos rfl]
        · cases hold
  · rw [if_neg hs]
    exact ⟨.inr, fun h => h.resolve_left fun hnew => hs hnew.1⟩

theorem Filed.lookup_save (h : Filed r) {now : ℤ} {role content : String} (k : String) :
    (record r (.saveTurn now s role content)).1.sessions.lookup k =
      if k = turnKey s (.ofNat (r.2 s).length) then some ⟨role, content, now⟩
      else r.1.sessions.lookup k := by
  rw [← (h.metaOf_eq now s).2]
  exact Finmap.lookup_insert_eq ..

theorem Filed.save (h : Filed r) {now : ℤ} {role content : String}
    (hroom : (r.2 s).length < 10 ^ 10) (hapart : ∀ t, ¬ ContinuesId t s) :
    Filed (record r (.saveTurn now s role content)) := by
  have hturns : ∀ s', (record r (.saveTurn now s role content)).2 s' =
      if s' = s then r.2 s ++ [⟨role, content, now⟩] else r.2 s' :=
    fun s' => Function.update_apply ..
  constructor
  · intro s'
    obtain ⟨hid, hcount⟩ := h.metaOf_eq now s
    show ((r.1.sessionMeta.insert s _).lookup s').map _ = _
    rw [Finmap.lookup_insert_eq, hturns]
    split
    · rename_i hs
      have hnext : (UInt64.ofNat (r.2 s).length + 1).toNat = (r.2 s).length + 1 := by
        rw [UInt64.toNat_add, toNat_index (h.bounded s), UInt64.toNat_one]
        exact Nat.mod_eq_of_lt (by omega)
      simp [hs, hid, hcount, hnext]
    · exact h.counted s'
  · intro k turn
    rw [h.lookup_save]
    constructor
    · intro hk
      split at hk
      · rename_i hkey
        exact ⟨s, _, hkey, getElem?_save.2 (.inl ⟨rfl, rfl, (Option.some.inj hk).symm⟩)⟩
      · obtain ⟨s', i, hkey, hturn⟩ := (h.stored k turn).1 hk
        exact ⟨s', i, hkey, getElem?_save.2 (.inr hturn)⟩
    · rintro ⟨s', i, rfl, hturn⟩
      rcases getElem?_save.1 hturn with ⟨rfl, rfl, rfl⟩ | hold
      · rw [if_pos rfl]
      · rw [if_neg]
        · exact (h.stored _ _).2 ⟨s', i, rfl, hold⟩
        · -- the key of a new turn is not in use
          intro hkey
          have hi := h.index_lt hold
          obtain ⟨rfl, hindex⟩ := turnKey_inj (by rwa [toNat_index (by omega)])
            (by rwa [toNat_index (by omega)]) hkey
          have hlen := congrArg UInt64.toNat hindex
          rw [toNat_index (by omega), toNat_index (by omega)] at hlen
          rw [List.getElem?_eq_none (by omega)] at hold
          cases hold
  · intro s'
    rw [hturns]
    split
    · rw [List.length_append, List.length_singleton]
      omega
    · exact h.bounded s'
  · intro s' t hne
    rw [hturns] at hne
    split at hne
    · rename_i hs
      rw [hs]
      exact hapart t
    · exact h.apart s' t hne

theorem Filed.clear (h : Filed r) : Filed (record r (.clearSession s)) := by
  have hturns : ∀ s', (record r (.clearSession s)).2 s' = if s' = s then [] else r.2 s' :=
    fun s' => Function.update_apply ..
  have hstored : ∀ k, (record r (.clearSession s)).1.sessions.lookup k =
      if InRange s k then none else r.1.sessions.lookup k :=
    Finmap.lookup_eraseAll_range _ _ _
  have hmeta : ∀ s', (record r (.clearSession s)).1.sessionMeta.lookup s' =
      if s' = s then none else r.1.sessionMeta.lookup s' :=
    Finmap.lookup_erase_eq _ _
  constructor
  · intro s'
    rw [hmeta, hturns]
    split
    · simp
    · exact h.counted s'
  · intro k turn
    rw [hstored]
    constructor
    · intro hk
      split at hk
      · cases hk
      · rename_i hout
        obtain ⟨s', i, rfl, hturn⟩ := (h.stored k turn).1 hk
        refine ⟨s', i, rfl, ?_⟩
        rw [hturns, if_neg, hturn]
        rintro rfl
        have hi := h.index_lt hturn
        exact hout (inRange_turnKey_self (by rwa [toNat_index (by omega)]))
    · rintro ⟨s', i, rfl, hturn⟩
      rw [hturns] at hturn
      split at hturn
      · cases hturn
      · rename_i hs
        rw [if_neg fun hrange => hs (h.of_inRange hturn hrange)]
        exact (h.stored _ _).2 ⟨s', i, rfl, hturn⟩
  · intro s'
    rw [hturns]
    split
    · exact Nat.zero_le _
    · exact h.bounded s'
  · intro s' t hne
    rw [hturns] at hne
    split at hne
    · exact absurd rfl hne
    · exact h.apart s' t hne

theorem not_continuesId (h : '\x00' ∉ s.toList) : ¬ ContinuesId t s := by
  rintro ⟨after, rfl, -⟩
  exact h (by simp)

theorem not_continues_self (s : String) : ¬ ContinuesId s s := by
  rintro ⟨after, hs, -⟩
  have hlength := congrArg String.length hs
  simp only [String.length_append] at hlength
  have hone : "\x00".length = 1 := rfl
  omega

/-- The turn with index 10^10 is filed before the one that precedes it. -/
theorem turnKey_misfiled (s : String) :
    turnKey s (.ofNat (10 ^ 10)) < turnKey s (.ofNat (10 ^ 10 - 1)) := by
  rw [String.lt_iff_toList_lt, toList_turnKey, toList_turnKey]
  exact List.append_left_lt (by decide)

theorem not_pairwise_numbered {turns : List SessionTurn} (h : 10 ^ 10 < turns.length) :
    ¬ (numbered s turns).Pairwise fun e e' => e.1 < e'.1 := by
  intro hsorted
  have hlength : (numbered s turns).length = turns.length := by simp [numbered]
  have hlt := List.pairwise_iff_getElem.1 hsorted (10 ^ 10 - 1) (10 ^ 10) (by omega) (by omega)
    (by omega)
  simp only [numbered, List.getElem_map, List.getElem_zipIdx, Nat.zero_add] at hlt
  exact absurd hlt (turnKey_misfiled s).not_gt

/-- **Where an appended turn goes wrong.**  If the sessions still keep apart, there was room for
it, and the id of its session continues no other. -/
theorem Filed.safe_of_isolated (h : Filed r) {now : ℤ} {role content : String}
    (hisolated : Isolated (record r (.saveTurn now s role content))) :
    (r.2 s).length < 10 ^ 10 ∧ ∀ t, ¬ ContinuesId t s := by
  have hroom : (r.2 s).length < 10 ^ 10 := by
    rcases Nat.lt_or_eq_of_le (h.bounded s) with hlt | hfull
    · exact hlt
    · have hsorted : (numbered s ((record r (.saveTurn now s role content)).2 s)).Pairwise
          fun e e' => e.1 < e'.1 := by
        rw [← hisolated.entries]
        exact Finmap.pairwise_scan _ _
      refine absurd hsorted (not_pairwise_numbered ?_)
      show _ < (Function.update r.2 s _ s).length
      rw [Function.update_self, List.length_append, hfull, List.length_singleton]
      omega
  refine ⟨hroom, fun t hcontinues => ?_⟩
  have hmem : (turnKey s (.ofNat (r.2 s).length), (⟨role, content, now⟩ : SessionTurn)) ∈
      (record r (.saveTurn now s role content)).1.entries t :=
    Finmap.mem_range.2 ⟨(h.lookup_save _).trans (if_pos rfl),
      inRange_turnKey_of_continues hcontinues⟩
  rw [hisolated.entries, mem_numbered] at hmem
  obtain ⟨i, hkey, hturn⟩ := hmem
  rcases getElem?_save.1 hturn with ⟨rfl, -⟩ | hold
  · exact not_continues_self t hcontinues
  · have hi := h.index_lt hold
    obtain ⟨rfl, -⟩ := turnKey_inj (by rwa [toNat_index (by omega)])
      (by rwa [toNat_index (by omega)]) hkey
    exact not_continues_self s hcontinues

theorem isolated_step_iff (h : Filed r) (op : Op) :
    (Isolated (record r op) ↔ Safe r op) ∧ (Isolated (record r op) → Filed (record r op)) := by
  cases op with
  | saveTurn now s role content =>
      have hsafe : Isolated (record r (.saveTurn now s role content)) →
          Safe r (.saveTurn now s role content) := h.safe_of_isolated
      exact ⟨⟨hsafe, fun hsafe => (h.save hsafe.1 hsafe.2).isolated⟩,
        fun hisolated => h.save (hsafe hisolated).1 (hsafe hisolated).2⟩
  | clearSession s => exact ⟨iff_of_true h.clear.isolated trivial, fun _ => h.clear⟩
  | loadSession s n => exact ⟨iff_of_true h.isolated trivial, fun _ => h⟩
  | listSessions => exact ⟨iff_of_true h.isolated trivial, fun _ => h⟩

/-- As long as sessions keep apart, those that are listed are those with turns. -/
theorem mem_listSessions_iff (h : Filed r) {n : ℕ} :
    (∃ m ∈ r.1.listSessions, m.sessionId = s ∧ m.turnCount.toNat = n) ↔
      r.2 s ≠ [] ∧ (r.2 s).length = n := by
  have hlisted : ∀ m, m ∈ r.1.listSessions ↔ r.1.sessionMeta.lookup m.sessionId = some m := by
    intro m
    unfold listSessions
    rw [(List.mergeSort_perm _ _).mem_iff, List.mem_map]
    constructor
    · rintro ⟨⟨k, m'⟩, hentry, rfl⟩
      have hk : r.1.sessionMeta.lookup k = some m' := Finmap.mem_iter.1 hentry
      have hid := h.counted k
      rw [hk] at hid
      split at hid
      · cases hid
      · have hname : m'.sessionId = k := (Prod.mk.inj (Option.some.inj hid)).1
        rw [← hname] at hk
        exact hk
    · intro hm
      exact ⟨(m.sessionId, m), Finmap.mem_iter.2 hm, rfl⟩
  have hcount := h.counted s
  constructor
  · rintro ⟨m, hm, rfl, rfl⟩
    rw [(hlisted m).1 hm] at hcount
    split at hcount
    · cases hcount
    · rename_i hne
      exact ⟨hne, (Prod.mk.inj (Option.some.inj hcount)).2.symm⟩
  · rintro ⟨hne, rfl⟩
    rw [if_neg hne] at hcount
    obtain ⟨m, hm, hpair⟩ := Option.map_eq_some_iff.1 hcount
    obtain ⟨hid, hlength⟩ := Prod.mk.inj hpair
    refine ⟨m, (hlisted m).2 ?_, hid, hlength⟩
    rw [hid]
    exact hm

end Step

theorem filed_new : Filed (new, fun _ => []) where
  counted _ := rfl
  stored k turn := by
    constructor
    · intro hk
      cases hk
    · rintro ⟨s, i, -, hturn⟩
      cases hturn
  bounded _ := Nat.zero_le _
  apart _ _ hne := absurd rfl hne

end SessionStore

open SessionStore Lib

/-! ## Whole runs -/

/-- **Whether sessions keep apart.**  After every sequence of operations on a new store, what is
loaded for any session are the last turns that were appended to it since it was last cleared, and
what lies in its range are these alone, in every state, exactly when every turn is appended
safely. -/
theorem sessions_isolated_iff (ops : List SessionStore.Op) :
    Machine.Always record Isolated (new, fun _ => []) ops ↔
      Machine.Along record Safe (new, fun _ => []) ops := by
  refine Machine.always_iff_along (I := Filed) (R := fun _ _ => True) (fun r h => h.isolated) ?_ ?_
    filed_new Machine.along_true
  · intro r op h _
    exact (isolated_step_iff h op).1
  · intro r op h _
    exact (isolated_step_iff h op).2

theorem append_clear_run (stale : List String) (r : Recorded) (s : String) :
    (Machine.run record r (stale.map .clearSession)).2 s = if s ∈ stale then [] else r.2 s := by
  induction stale generalizing r with
  | nil => rfl
  | cons t stale ih =>
      rw [List.map_cons, Machine.run_cons, ih]
      by_cases hs : s = t
      · simp [hs, record, append]
      · simp [hs, record, append]

theorem record_clear_run (stale : List String) (r : Recorded) :
    (Machine.run record r (stale.map .clearSession)).1 =
      Machine.run SessionStore.step r.1 (stale.map .clearSession) := by
  induction stale generalizing r with
  | nil => rfl
  | cons t stale ih => exact ih _

/-- **Pruning.**  In every state in which sessions keep apart, it takes away the stale sessions, and
the others are loaded and listed as they were. -/
theorem pruned {ops : List SessionStore.Op} (h : Machine.Along record Safe (new, fun _ => []) ops)
    (now maxAgeSecs : ℤ) (s : String) (n : ℕ) :
    let store := (Machine.run record (new, fun _ => []) ops).1
    let left := (store.pruneOld now maxAgeSecs).1
    let stale := store.staleSessions (now - maxAgeSecs)
    left.loadSession s n = (if s ∈ stale then [] else store.loadSession s n) ∧
      ((∃ m ∈ left.listSessions, m.sessionId = s ∧ m.turnCount.toNat = n) ↔
        s ∉ stale ∧ ∃ m ∈ store.listSessions, m.sessionId = s ∧ m.turnCount.toNat = n) := by
  intro store left stale
  have hfiled : Filed (Machine.run record (new, fun _ => []) ops) :=
    Machine.run_of_inv (P := Safe) (fun r op hr hsafe =>
      (isolated_step_iff hr op).2 ((isolated_step_iff hr op).1.2 hsafe)) filed_new h
  -- pruning is a run of its own, which is safe as it appends nothing
  have hleft : Filed (Machine.run record (Machine.run record (new, fun _ => []) ops)
      (stale.map .clearSession)) := by
    refine Machine.run_of_inv (P := fun _ op => ∃ t, op = .clearSession t) ?_ hfiled
      (Machine.along_of_forall fun op hop => ?_)
    · rintro r op hr ⟨t, rfl⟩
      exact hr.clear
    · obtain ⟨t, -, rfl⟩ := List.mem_map.1 hop
      exact ⟨t, rfl⟩
  have hstore : (Machine.run record (Machine.run record (new, fun _ => []) ops)
      (stale.map .clearSession)).1 = left := by
    rw [record_clear_run]
    exact (pruneOld_eq_run store now maxAgeSecs).symm
  have hloads := hleft.isolated.loads s n
  have hlisted := mem_listSessions_iff hleft (s := s) (n := n)
  rw [hstore, append_clear_run] at hloads hlisted
  rw [hloads, hlisted, hfiled.isolated.loads s n, mem_listSessions_iff hfiled]
  by_cases hs : s ∈ stale
  · simp [hs]
  · simp [hs]

theorem pruned_greeting :
    let store := (Machine.run record (new, fun _ => []) [.saveTurn 0 "a" "user" "hello"]).1
    let left := (store.pruneOld 100 50).1
    let stale := store.staleSessions 50
    left.loadSession "a" 1 = (if "a" ∈ stale then [] else store.loadSession "a" 1) ∧
      ((∃ m ∈ left.listSessions, m.sessionId = "a" ∧ m.turnCount.toNat = 1) ↔
        "a" ∉ stale ∧ ∃ m ∈ store.listSessions, m.sessionId = "a" ∧ m.turnCount.toNat = 1) := by
  have hsafe : Machine.Along record Safe (new, fun _ => []) [.saveTurn 0 "a" "user" "hello"] :=
    ⟨⟨by decide, fun _ => not_continuesId (by decide)⟩, trivial⟩
  exact pruned hsafe 100 50 "a" 1

/-- A new store after a turn was appended to `"a\05"`. -/
def continued : SessionStore := new.saveTurn 0 "a\x005" "user" "hello"

theorem entries_continued : continued.entries "a" = [(turnKey "a\x005" 0, ⟨"user", "hello", 0⟩)] := by
  have hrange : InRange "a" (turnKey "a\x005" 0) :=
    inRange_turnKey_of_continues ⟨"5", rfl, by decide⟩
  refine Finmap.range_eq_of_mem (List.pairwise_singleton ..) ?_
  intro e
  have hlookup : continued.sessions.lookup e.1 =
      if e.1 = turnKey "a\x005" 0 then some ⟨"user", "hello", 0⟩ else none :=
    Finmap.lookup_insert_eq ..
  rw [List.mem_singleton, hlookup]
  constructor
  · rintro rfl
    exact ⟨if_pos rfl, hrange⟩
  · rintro ⟨hturn, -⟩
    split at hturn
    · rename_i hkey
      exact Prod.ext hkey (Option.some.inj hturn).symm
    · cases hturn

/-- **A turn of one session is loaded for another**, whose id it continues: nothing was ever
appended to `"a"`. -/
theorem continued_id_intrudes :
    ¬ Machine.Always record Isolated (new, fun _ => []) [.saveTurn 0 "a\x005" "user" "hello"] ∧
      continued.loadSession "a" 40 = [⟨"user", "hello", 0⟩] := by
  have hloaded : continued.loadSession "a" 40 = [⟨"user", "hello", 0⟩] := by
    rw [loadSession_eq_rtake, entries_continued]
    rfl
  refine ⟨fun hrun => ?_, hloaded⟩
  have hempty : continued.loadSession "a" 40 = [] := hrun.last.loads "a" 40
  rw [hloaded] at hempty
  cases hempty

end PeerClaw
