import PeerClaw.Lib.OrderedTable
import Mathlib.Data.String.Basic
import Mathlib.Data.List.DropRight

/-!
# Session storage

The turns of all conversations lie in one table, which is read in the order of its keys.
The key of a turn is the id of its session, a NUL character, and the index of the turn in
ten digits; a second table holds for every session how many turns it has.

* `turnKey`, `sessionPrefix`, `sessionUpperBound` — the key of a turn, and the bounds of
  the range that is read and deleted for a session.
* `saveTurn`, `loadSession`, `clearSession`, `listSessions`, `pruneOld` — the operations.
* `inRange_turnKey_iff` — whose turns lie in the range of a session.

Every operation runs in one transaction.  `pruneOld` reads the table in one and clears each
session in its own.
-/

namespace PeerClaw

open Lib

/-- A single conversation turn. -/
structure SessionTurn where
  role : String
  content : String
  timestamp : ℤ
  deriving DecidableEq

/-- What is stored about a session. -/
structure SessionMeta where
  sessionId : String
  createdAt : ℤ
  updatedAt : ℤ
  turnCount : UInt64
  /-- The first user message. -/
  title : String
  deriving DecidableEq

/-- The two tables. -/
structure SessionStore where
  sessions : FiniteMap String SessionTurn
  sessionMeta : FiniteMap String SessionMeta

/-- The key `"session_id\0NNNNNNNNNN"` of a turn. -/
def turnKey (sessionId : String) (index : UInt64) : String :=
  sessionId ++ "\x00" ++ String.ofList (KeyOrder.padded 10 index.toNat)

/-- What the keys of a session start with. -/
def sessionPrefix (sessionId : String) : String := sessionId ++ "\x00"

/-- The inclusive upper bound of the keys of a session. -/
def sessionUpperBound (sessionId : String) : String := sessionId ++ "\x00" ++ "9999999999"

namespace SessionStore

/-- A new database, with its two tables. -/
def new : SessionStore := ⟨∅, ∅⟩

/-- The entries that are read and deleted for a session. -/
def entries (store : SessionStore) (sessionId : String) : List (String × SessionTurn) :=
  store.sessions.range (sessionPrefix sessionId) (sessionUpperBound sessionId)

/-- The metadata of a session, or that of a new one. -/
def metaOf (store : SessionStore) (now : ℤ) (sessionId : String) : SessionMeta :=
  (store.sessionMeta.lookup sessionId).getD ⟨sessionId, now, now, 0, ""⟩

/-- Append a turn to a session. -/
def saveTurn (store : SessionStore) (now : ℤ) (sessionId role content : String) : SessionStore :=
  let m := store.metaOf now sessionId
  let title :=
    if m.title = "" ∧ role = "user" then String.ofList (content.toList.take 120) else m.title
  { sessions := store.sessions.insert (turnKey sessionId m.turnCount) ⟨role, content, now⟩
    sessionMeta := store.sessionMeta.insert sessionId
      { m with turnCount := m.turnCount + 1, updatedAt := now, title := title } }

/-- Load the most recent `maxTurns` turns of a session. -/
def loadSession (store : SessionStore) (sessionId : String) (maxTurns : ℕ) : List SessionTurn :=
  let turns := (store.entries sessionId).map Prod.snd
  if turns.length > maxTurns then turns.drop (turns.length - maxTurns) else turns

/-- Delete all turns and metadata of a session. -/
def clearSession (store : SessionStore) (sessionId : String) : SessionStore where
  sessions := store.sessions.eraseAll ((store.entries sessionId).map Prod.fst)
  sessionMeta := store.sessionMeta.erase sessionId

/-- All sessions, the most recently updated first. -/
def listSessions (store : SessionStore) : List SessionMeta :=
  (store.sessionMeta.iter.map Prod.snd).mergeSort fun a b => b.updatedAt ≤ a.updatedAt

/-- The sessions whose last update is no later than a cutoff. -/
def staleSessions (store : SessionStore) (cutoff : ℤ) : List String :=
  ((store.sessionMeta.iter.map Prod.snd).filter fun m => m.updatedAt ≤ cutoff).map (·.sessionId)

/-- Remove the sessions whose last update is too long ago; how many they are. -/
def pruneOld (store : SessionStore) (now maxAgeSecs : ℤ) : SessionStore × ℕ :=
  let sessionsToPrune := store.staleSessions (now - maxAgeSecs)
  (sessionsToPrune.foldl clearSession store, sessionsToPrune.length)

end SessionStore

/-! ## Which keys lie in the range of a session -/

/-- A key lies in the range that is read for a session. -/
def InRange (sessionId key : String) : Prop :=
  sessionPrefix sessionId ≤ key ∧ key ≤ sessionUpperBound sessionId

instance (sessionId key : String) : Decidable (InRange sessionId key) :=
  inferInstanceAs (Decidable (_ ∧ _))

/-- The id of a session continues that of another after a NUL character, with a text that
sorts before the bound on the indices. -/
def ContinuesId (sessionId other : String) : Prop :=
  ∃ after, other = sessionId ++ "\x00" ++ after ∧ after < "9999999999"

section Keys

variable {s t : String} {i j : UInt64}

theorem toList_sessionPrefix (s : String) : (sessionPrefix s).toList = s.toList ++ ['\x00'] :=
  String.toList_append

theorem toList_turnKey (s : String) (i : UInt64) :
    (turnKey s i).toList = (s.toList ++ ['\x00']) ++ KeyOrder.padded 10 i.toNat := by
  rw [turnKey, String.toList_append, String.toList_ofList, ← toList_sessionPrefix]
  rfl

theorem nul_notMem_padded (n : ℕ) : '\x00' ∉ KeyOrder.padded 10 n := by
  intro h
  exact absurd (KeyOrder.isDigit_of_mem_padded h) (by decide)

theorem turnKey_inj (hi : i.toNat < 10 ^ 10) (hj : j.toNat < 10 ^ 10)
    (h : turnKey s i = turnKey t j) : s = t ∧ i = j := by
  have hlists := congrArg String.toList h
  rw [toList_turnKey, toList_turnKey] at hlists
  have hlength : (KeyOrder.padded 10 i.toNat).length = (KeyOrder.padded 10 j.toNat).length := by
    rw [KeyOrder.length_padded (by omega) hi, KeyOrder.length_padded (by omega) hj]
  obtain ⟨hstart, hpadded⟩ := List.append_inj' hlists hlength
  refine ⟨String.toList_inj.1 (List.append_cancel_right hstart), ?_⟩
  rcases Nat.lt_trichotomy i.toNat j.toNat with hlt | heq | hgt
  · exact absurd hpadded (KeyOrder.padded_lt_padded hlt hj).ne
  · exact UInt64.toNat_inj.1 heq
  · exact absurd hpadded.symm (KeyOrder.padded_lt_padded hgt hi).ne

theorem turnKey_lt_turnKey (hij : i.toNat < j.toNat) (hj : j.toNat < 10 ^ 10) :
    turnKey s i < turnKey s j := by
  rw [String.lt_iff_toList_lt, toList_turnKey, toList_turnKey]
  exact List.append_left_lt (KeyOrder.padded_lt_padded hij hj)

/-- What follows the prefix of a session decides whether a key lies in its range. -/
theorem inRange_append_iff (t after : String) :
    InRange t (sessionPrefix t ++ after) ↔ after ≤ "9999999999" := by
  have hupper : sessionUpperBound t = sessionPrefix t ++ "9999999999" := rfl
  unfold InRange
  rw [hupper, String.le_iff_toList_le, String.le_iff_toList_le, String.le_iff_toList_le,
    String.toList_append, String.toList_append, KeyOrder.append_le_append_iff]
  exact and_iff_right (KeyOrder.le_append _ _)

theorem prefix_of_inRange {key : String} (h : InRange t key) :
    ∃ after, key.toList = (t.toList ++ ['\x00']) ++ after := by
  obtain ⟨hlow, hhigh⟩ := h
  have hupper : sessionUpperBound t = sessionPrefix t ++ "9999999999" := rfl
  rw [String.le_iff_toList_le, toList_sessionPrefix] at hlow
  rw [hupper, String.le_iff_toList_le, String.toList_append, toList_sessionPrefix] at hhigh
  obtain ⟨after, hafter⟩ := KeyOrder.prefix_of_le_of_le hlow hhigh
  exact ⟨after, hafter.symm⟩

theorem padded_le_bound {n : ℕ} (hn : n < 10 ^ 10) :
    KeyOrder.padded 10 n ≤ "9999999999".toList := by
  have hbound : KeyOrder.padded 10 (10 ^ 10 - 1) = "9999999999".toList := by decide
  rw [← hbound]
  rcases Nat.lt_or_ge n (10 ^ 10 - 1) with hlt | hge
  · exact (KeyOrder.padded_lt_padded hlt (by omega)).le
  · rw [show n = 10 ^ 10 - 1 by omega]

theorem inRange_turnKey_self (hi : i.toNat < 10 ^ 10) : InRange s (turnKey s i) := by
  refine (inRange_append_iff s _).2 ?_
  rw [String.le_iff_toList_le, String.toList_ofList]
  exact padded_le_bound hi

/-- The turns of a session whose id continues that of another lie in the range of the other. -/
theorem inRange_turnKey_of_continues (h : ContinuesId t s) : InRange t (turnKey s i) := by
  obtain ⟨after, rfl, hafter⟩ := h
  have hkey : turnKey (t ++ "\x00" ++ after) i =
      sessionPrefix t ++ (after ++ "\x00" ++ String.ofList (KeyOrder.padded 10 i.toNat)) := by
    simp only [turnKey, sessionPrefix, String.append_assoc]
  rw [hkey, inRange_append_iff, String.le_iff_toList_le, String.toList_append,
    String.toList_append, String.toList_ofList, List.append_assoc]
  exact (KeyOrder.append_separator_le_iff (by simp) _ _).2 (String.lt_iff_toList_lt.1 hafter)

/-- **Whose turns lie in the range of a session**: its own, and those of the sessions whose id
continues its id. -/
theorem inRange_turnKey_iff (hi : i.toNat < 10 ^ 10) :
    InRange t (turnKey s i) ↔ s = t ∨ ContinuesId t s := by
  constructor
  · intro h
    obtain ⟨after, hafter⟩ := prefix_of_inRange h
    rw [toList_turnKey] at hafter
    rcases List.append_eq_append_iff.1 hafter with ⟨more, ht, hpadded⟩ | ⟨more, hs, hrest⟩
    · -- the prefix of `t` is no shorter: a NUL character would lie among the digits
      rcases List.eq_nil_or_concat' more with rfl | ⟨more, c, rfl⟩
      · left
        rw [List.append_nil] at ht
        exact String.toList_inj.1 (List.append_cancel_right ht).symm
      · rw [← List.append_assoc] at ht
        obtain rfl : '\x00' = c := List.singleton_injective (List.append_inj' ht rfl).2
        exact absurd (by simp [hpadded]) (nul_notMem_padded i.toNat)
    · rcases List.eq_nil_or_concat' more with rfl | ⟨more, c, rfl⟩
      · left
        rw [List.append_nil] at hs
        exact String.toList_inj.1 (List.append_cancel_right hs)
      · right
        rw [← List.append_assoc] at hs
        obtain ⟨hid, hc⟩ := List.append_inj' hs rfl
        obtain rfl : '\x00' = c := List.singleton_injective hc
        refine ⟨String.ofList more, ?_, ?_⟩
        · rw [← String.toList_inj, hid]
          simp
        have hkey : turnKey s i = sessionPrefix t ++ String.ofList after := by
          rw [← String.toList_inj, toList_turnKey, hafter]
          simp [sessionPrefix]
        rw [hkey, inRange_append_iff, String.le_iff_toList_le, String.toList_ofList, hrest,
          List.append_assoc] at h
        rw [String.lt_iff_toList_lt, String.toList_ofList]
        exact (KeyOrder.append_separator_le_iff (by simp) _ _).1 h
  · rintro (rfl | hcontinues)
    · exact inRange_turnKey_self hi
    · exact inRange_turnKey_of_continues hcontinues

end Keys

end PeerClaw
