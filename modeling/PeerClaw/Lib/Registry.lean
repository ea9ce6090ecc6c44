import Mathlib.Logic.Function.Basic
import Mathlib.Data.Nat.Notation

/-!
# A table and its index, written one after the other

A table stores one entry under each name; an entry belongs to a key and is
either live or closed.  An index leads from a key to the name of its entry.
The two are never written together: a job that adds an entry first finds its
key not indexed, later stores the entry and later still indexes it, and a job
that closes an entry takes its key out of the index only afterwards.

The steps carry the conditions under which this is safe — a name that an adding
job starts with is free and no other adding job has it, and an entry is not
closed before it is indexed — and `Step.inv` shows that they are enough.

* `Inv` — what holds of table, index and jobs in flight.
* `Inv.index_iff` — where nothing is in flight, the index leads to exactly the
  live entries.
-/

namespace Lib

/-- A job in flight, by what it has left to do for a key. -/
inductive Job (P : Type)
  /-- The key was not indexed; its entry is to be stored. -/
  | storing (p : P)
  /-- The entry is stored; its key is to be indexed. -/
  | indexing (p : P)
  /-- The entry is closed; its key is to be dropped from the index. -/
  | dropping (p : P)

/-- A table, an index on it, and the jobs in flight. -/
structure Registry (P K : Type) where
  /-- The entry under a name: its key, and whether it is live. -/
  slot : K → Option (P × Bool)
  index : P → Option K
  job : ℕ → Option (Job P)

namespace Registry

variable {P K : Type}

/-- The job is on its way to add an entry for the key. -/
def Adding (r : Registry P K) (k : ℕ) (p : P) : Prop :=
  r.job k = some (.storing p) ∨ r.job k = some (.indexing p)

section Steps

variable [DecidableEq P] [DecidableEq K] (name : P → K)

/-- What a job can do, and when. -/
inductive Step (r : Registry P K) : Registry P K → Prop
  /-- Find a key not indexed, its name being free. -/
  | begin (k : ℕ) (p : P) (hidle : r.job k = none) (hindex : r.index p = none)
      (hfree : ∀ q, r.slot (name p) ≠ some (q, true))
      (halone : ∀ j q, r.Adding j q → name q ≠ name p) :
      Step r { r with job := Function.update r.job k (some (.storing p)) }
  /-- Give up before the entry is stored. -/
  | abandon (k : ℕ) (p : P) (hjob : r.job k = some (.storing p)) :
      Step r { r with job := Function.update r.job k none }
  /-- Store the entry. -/
  | store (k : ℕ) (p : P) (hjob : r.job k = some (.storing p)) :
      Step r { r with
        slot := Function.update r.slot (name p) (some (p, true))
        job := Function.update r.job k (some (.indexing p)) }
  /-- Index the entry. -/
  | enter (k : ℕ) (p : P) (hjob : r.job k = some (.indexing p)) :
      Step r { r with
        index := Function.update r.index p (some (name p))
        job := Function.update r.job k none }
  /-- Close a live entry that nobody is about to index. -/
  | close (k : ℕ) (i : K) (p : P) (hidle : r.job k = none) (hlive : r.slot i = some (p, true))
      (hsettled : ∀ j q, r.job j = some (.indexing q) → name q ≠ i) :
      Step r { r with
        slot := Function.update r.slot i (some (p, false))
        job := Function.update r.job k (some (.dropping p)) }
  /-- Drop the key of a closed entry from the index. -/
  | drop (k : ℕ) (p : P) (hjob : r.job k = some (.dropping p)) :
      Step r { r with
        index := Function.update r.index p none
        job := Function.update r.job k none }

end Steps

/-- Table, index and jobs fit together. -/
structure Inv (name : P → K) (r : Registry P K) : Prop where
  /-- An entry is stored under the name of its key. -/
  slot_name : ∀ {i p live}, r.slot i = some (p, live) → i = name p
  /-- The index leads to a live entry, or is about to be cleaned up. -/
  index_live : ∀ {p i}, r.index p = some i →
    r.slot i = some (p, true) ∨ ∃ k, r.job k = some (.dropping p)
  /-- A live entry is indexed, or about to be. -/
  live_index : ∀ {i p}, r.slot i = some (p, true) →
    r.index p = some i ∨ ∃ k, r.job k = some (.indexing p)
  /-- What is to be stored is not indexed, and its name is free. -/
  storing : ∀ {k p}, r.job k = some (.storing p) →
    r.index p = none ∧ ∀ q, r.slot (name p) ≠ some (q, true)
  /-- What is to be indexed is stored and not indexed yet. -/
  indexing : ∀ {k p}, r.job k = some (.indexing p) →
    r.index p = none ∧ r.slot (name p) = some (p, true)
  /-- Two jobs do not add entries under the same name. -/
  apart : ∀ {j k p q}, r.Adding j p → r.Adding k q → name p = name q → j = k
  /-- What is to be dropped is indexed and not live. -/
  dropping : ∀ {k p}, r.job k = some (.dropping p) →
    r.index p = some (name p) ∧ r.slot (name p) ≠ some (p, true)
  /-- Two jobs do not drop the same key. -/
  dropping_once : ∀ {j k p}, r.job j = some (.dropping p) → r.job k = some (.dropping p) → j = k

theorem inv_empty (name : P → K) :
    Inv name (⟨fun _ => none, fun _ => none, fun _ => none⟩ : Registry P K) := by
  constructor <;> simp [Adding]

/-- **Where nothing is in flight, the index leads to exactly the live entries.** -/
theorem Inv.index_iff {name : P → K} {r : Registry P K} (h : Inv name r)
    (hidle : ∀ k, r.job k = none) {p : P} {i : K} :
    r.index p = some i ↔ r.slot i = some (p, true) := by
  constructor
  · intro hi
    rcases h.index_live hi with hlive | ⟨k, hk⟩
    · exact hlive
    · rw [hidle k] at hk
      cases hk
  · intro hlive
    rcases h.live_index hlive with hi | ⟨k, hk⟩
    · exact hi
    · rw [hidle k] at hk
      cases hk

/-! ## Each step keeps the invariant -/

section Kept

variable {name : P → K} {r r' : Registry P K} {k : ℕ} {p : P}

theorem Inv.alone (h : Inv name r) (hk : r.Adding k p) {j : ℕ} {q : P} (hj : j ≠ k)
    (hq : r.Adding j q) : name q ≠ name p := by
  intro hname
  exact hj (h.apart hq hk hname)

theorem Inv.begin (h : Inv name r) (hidle : r.job k = none) (hindex : r.index p = none)
    (hfree : ∀ q, r.slot (name p) ≠ some (q, true))
    (halone : ∀ j q, r.Adding j q → name q ≠ name p) :
    Inv name { r with job := Function.update r.job k (some (.storing p)) } := by
  obtain ⟨hname, hlive, hindexed, hstoring, hindexing, hapart, hdropping, honce⟩ := h
  constructor <;> simp only [Adding, Function.update_apply] at * <;> grind

theorem Inv.abandon (h : Inv name r) (hjob : r.job k = some (.storing p)) :
    Inv name { r with job := Function.update r.job k none } := by
  obtain ⟨hname, hlive, hindexed, hstoring, hindexing, hapart, hdropping, honce⟩ := h
  constructor <;> simp only [Adding, Function.update_apply] at * <;> grind

theorem Inv.store [DecidableEq P] [DecidableEq K] (h : Inv name r) (hjob : r.job k = some (.storing p)) :
    Inv name { r with
      slot := Function.update r.slot (name p) (some (p, true))
      job := Function.update r.job k (some (.indexing p)) } := by
  -- the name was free and its key not indexed, and no other job is adding under it
  obtain ⟨hindex, hfree⟩ := h.storing hjob
  have halone : ∀ j q, j ≠ k → r.Adding j q → name q ≠ name p :=
    fun _ _ => h.alone (.inl hjob)
  obtain ⟨hname, hlive, hindexed, hstoring, hindexing, hapart, hdropping, honce⟩ := h
  constructor <;> simp only [Adding, Function.update_apply] at * <;> grind

theorem Inv.enter [DecidableEq P] [DecidableEq K] (h : Inv name r) (hjob : r.job k = some (.indexing p)) :
    Inv name { r with
      index := Function.update r.index p (some (name p))
      job := Function.update r.job k none } := by
  -- the entry is live, so the key may be indexed; nobody is about to drop it
  obtain ⟨hindex, hstored⟩ := h.indexing hjob
  have halone : ∀ j q, j ≠ k → r.Adding j q → name q ≠ name p :=
    fun _ _ => h.alone (.inr hjob)
  have hkept : ∀ j, r.job j ≠ some (.dropping p) := by
    intro j hj
    rw [(h.dropping hj).1] at hindex
    cases hindex
  obtain ⟨hname, hlive, hindexed, hstoring, hindexing, hapart, hdropping, honce⟩ := h
  constructor <;> simp only [Adding, Function.update_apply] at * <;> grind

theorem Inv.close [DecidableEq K] (h : Inv name r) {i : K} (hidle : r.job k = none)
    (hlive : r.slot i = some (p, true))
    (hsettled : ∀ j q, r.job j = some (.indexing q) → name q ≠ i) :
    Inv name { r with
      slot := Function.update r.slot i (some (p, false))
      job := Function.update r.job k (some (.dropping p)) } := by
  have hi : i = name p := h.slot_name hlive
  -- as nobody is about to index it, the live entry is indexed
  have hindex : r.index p = some i := by
    rcases h.live_index hlive with hindex | ⟨j, hj⟩
    · exact hindex
    · exact absurd hi.symm (hsettled j p hj)
  have hfirst : ∀ j, r.job j ≠ some (.dropping p) := by
    intro j hj
    rw [hi] at hlive
    exact (h.dropping hj).2 hlive
  obtain ⟨hname, hlive, hindexed, hstoring, hindexing, hapart, hdropping, honce⟩ := h
  constructor <;> simp only [Adding, Function.update_apply] at * <;> grind

theorem Inv.drop [DecidableEq P] (h : Inv name r) (hjob : r.job k = some (.dropping p)) :
    Inv name { r with
      index := Function.update r.index p none
      job := Function.update r.job k none } := by
  -- no entry of the key is live, so dropping it loses nothing
  have hclosed : ∀ i, r.slot i ≠ some (p, true) := by
    intro i hi
    have hname := h.slot_name hi
    rw [hname] at hi
    exact (h.dropping hjob).2 hi
  obtain ⟨hname, hlive, hindexed, hstoring, hindexing, hapart, hdropping, honce⟩ := h
  constructor <;> simp only [Adding, Function.update_apply] at * <;> grind

/-- **A step keeps the invariant.** -/
theorem Inv.step [DecidableEq P] [DecidableEq K] (h : Inv name r) (hs : Step name r r') :
    Inv name r' := by
  cases hs with
  | begin k p hidle hindex hfree halone => exact h.begin hidle hindex hfree halone
  | abandon k p hjob => exact h.abandon hjob
  | store k p hjob => exact h.store hjob
  | enter k p hjob => exact h.enter hjob
  | close k i p hidle hlive hsettled => exact h.close hidle hlive hsettled
  | drop k p hjob => exact h.drop hjob

end Kept

end Registry
end Lib
