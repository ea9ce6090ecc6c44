import Mathlib.Data.List.Count
import Mathlib.Logic.Function.Basic
import Mathlib.Order.Lattice
import Mathlib.Algebra.Order.Group.Defs
import Mathlib.Algebra.Order.Monoid.Defs

/-!
# Counting by windows

A limiter that allows each key a number of events in each window of time, and that
remembers for a key only the window it was last counted in and how often.  What it
is *for* is said about the log of all events: no key occurs in a window more often
than the limit.

* `Windows.record` — count one more event.
* `Windows.Tracks` — what is remembered agrees with the log.
* `tracks_record` — counting keeps the agreement, as long as a key never goes back
  to a window before the one it was last counted in.
* `within_record_iff` — one more event is within the limit exactly when the count
  after it is.
-/

namespace Lib

/-- For each key, the window it was last counted in and how often. -/
abbrev Windows (κ ω : Type*) := κ → Option (ω × ℕ)

namespace Windows

variable {κ ω : Type*} [DecidableEq κ] [LinearOrder ω]

/-- The count of a key in a window, after one more event. -/
def countAfter (s : Windows κ ω) (k : κ) (w : ω) : ℕ :=
  match s k with
  | some (w', n) => if w' = w then n + 1 else 1
  | none => 1

/-- Count one more event. -/
def record (s : Windows κ ω) (k : κ) (w : ω) : Windows κ ω :=
  Function.update s k (some (w, countAfter s k w))

/-- The key has not been counted in a later window. -/
def InTime (s : Windows κ ω) (k : κ) (w : ω) : Prop :=
  ∀ w' n, s k = some (w', n) → w' ≤ w

/-- No key occurs in a window more often than the limit. -/
def Within (limit : ℕ) (log : List (κ × ω)) : Prop := ∀ k w, log.count (k, w) ≤ limit

/-- A key that is not remembered has not occurred, and one that is has occurred in its window as
often as the count says, and in no later one. -/
structure Tracks (s : Windows κ ω) (log : List (κ × ω)) : Prop where
  absent : ∀ k, s k = none → ∀ w, log.count (k, w) = 0
  present : ∀ k w n, s k = some (w, n) → log.count (k, w) = n
  later : ∀ k w n, s k = some (w, n) → ∀ w', w < w' → log.count (k, w') = 0

variable {s : Windows κ ω} {log : List (κ × ω)} {k : κ} {w : ω} {limit : ℕ}

theorem tracks_empty : Tracks (fun _ => none : Windows κ ω) [] where
  absent _ _ _ := List.count_nil
  present := nofun
  later := nofun

theorem Tracks.countAfter (h : s.Tracks log) (hin : s.InTime k w) :
    s.countAfter k w = log.count (k, w) + 1 := by
  unfold Windows.countAfter
  split
  · rename_i w' n hk
    by_cases hw : w' = w
    · rw [if_pos hw, ← hw, h.present k w' n hk]
    · have hlt : w' < w := lt_of_le_of_ne (hin w' n hk) hw
      rw [if_neg hw, h.later k w' n hk w hlt]
  · rename_i hk
    rw [h.absent k hk w]

theorem count_append_singleton (log : List (κ × ω)) (k j : κ) (w v : ω) :
    (log ++ [(k, w)]).count (j, v) = log.count (j, v) + if j = k ∧ v = w then 1 else 0 := by
  have hpair : ((k, w) == (j, v)) = decide (j = k ∧ v = w) := by
    rw [beq_eq_decide, decide_eq_decide, Prod.mk.injEq, eq_comm, @eq_comm _ w]
  rw [List.count_append, List.count_singleton, hpair]
  simp only [decide_eq_true_eq]

/-- **Counting keeps track.** -/
theorem tracks_record (h : s.Tracks log) (hin : s.InTime k w) :
    (s.record k w).Tracks (log ++ [(k, w)]) := by
  have hother : ∀ j, j ≠ k → s.record k w j = s j := fun j hj => Function.update_of_ne hj _ _
  have hself : s.record k w k = some (w, s.countAfter k w) := Function.update_self _ _ _
  have hcount : ∀ j v, j ≠ k → (log ++ [(k, w)]).count (j, v) = log.count (j, v) := by
    intro j v hj
    rw [count_append_singleton, if_neg (fun hand => hj hand.1), Nat.add_zero]
  refine ⟨?_, ?_, ?_⟩
  · intro j hj v
    by_cases hjk : j = k
    · rw [hjk, hself] at hj
      cases hj
    · rw [hcount j v hjk, h.absent j (hother j hjk ▸ hj) v]
  · intro j v n hj
    by_cases hjk : j = k
    · rw [hjk, hself] at hj
      obtain ⟨rfl, rfl⟩ := Prod.mk.inj (Option.some.inj hj)
      rw [hjk, count_append_singleton, if_pos ⟨rfl, rfl⟩, h.countAfter hin]
    · rw [hcount j v hjk, h.present j v n (hother j hjk ▸ hj)]
  · intro j v n hj v' hv'
    by_cases hjk : j = k
    · rw [hjk, hself] at hj
      obtain ⟨rfl, -⟩ := Prod.mk.inj (Option.some.inj hj)
      rw [hjk, count_append_singleton, if_neg (fun hand => ne_of_gt hv' hand.2), Nat.add_zero]
      -- the key has not been counted after the window it is counted in now
      cases hk : s k with
      | none => exact h.absent k hk v'
      | some e => exact h.later k e.1 e.2 hk v' (lt_of_le_of_lt (hin e.1 e.2 hk) hv')
    · rw [hcount j v' hjk, h.later j v n (hother j hjk ▸ hj) v' hv']

/-- **One more event is within the limit exactly when the count after it is.** -/
theorem within_record_iff (h : s.Tracks log) (hwithin : Within limit log) (hin : s.InTime k w) :
    Within limit (log ++ [(k, w)]) ↔ s.countAfter k w ≤ limit := by
  rw [h.countAfter hin]
  constructor
  · intro hafter
    have hone := hafter k w
    rwa [count_append_singleton, if_pos ⟨rfl, rfl⟩] at hone
  · intro hroom j v
    rw [count_append_singleton]
    split
    · rename_i hand
      rw [hand.1, hand.2]
      exact hroom
    · exact hwithin j v

end Windows
end Lib

/-!
## Quotas

What a budget is *for*: several counters of what has been spent, each with a limit
of its own.  An amount is charged to all of them, and from time to time some of
them are set back to nothing.

* `within_charge_iff` — a charge leaves the counters within their limits exactly
  when it fits.
* `Fits.of_resets` — what fits still fits after counters have been set back, and so
  does anything less.
* `Nonneg.charge`, `Nonneg.resets` — no counter goes below nothing.
-/

namespace Lib

/-- Counters, and their limits. -/
structure Quota (κ M : Type*) where
  limit : κ → M
  spent : κ → M

namespace Quota

variable {κ M : Type*} [AddCommGroup M]

/-- Some of the counters have been set back to nothing. -/
structure Resets (q q' : Quota κ M) : Prop where
  limit : ∀ k, q'.limit k = q.limit k
  spent : ∀ k, q'.spent k = q.spent k ∨ q'.spent k = 0

theorem Resets.refl (q : Quota κ M) : Resets q q := ⟨fun _ => rfl, fun _ => .inl rfl⟩

theorem Resets.trans {q q' q'' : Quota κ M} (h : Resets q q') (h' : Resets q' q'') :
    Resets q q'' where
  limit k := (h'.limit k).trans (h.limit k)
  spent k := by
    rcases h'.spent k with hk | hk
    · rw [hk]
      exact h.spent k
    · exact .inr hk

variable [LinearOrder M]

/-- Charge an amount to every counter. -/
def charge (q : Quota κ M) (a : M) : Quota κ M := { q with spent := fun k => q.spent k + a }

/-- Every counter has room for an amount. -/
def Fits (q : Quota κ M) (a : M) : Prop := ∀ k, q.spent k + a ≤ q.limit k

/-- Every counter is within its limit. -/
def Within (q : Quota κ M) : Prop := ∀ k, q.spent k ≤ q.limit k

/-- No counter is below nothing. -/
def Nonneg (q : Quota κ M) : Prop := ∀ k, 0 ≤ q.spent k

section Laws

variable {q q' : Quota κ M} {a b : M}

/-- **A charge keeps within the limits exactly when it fits.** -/
theorem within_charge_iff : (q.charge a).Within ↔ q.Fits a := Iff.rfl

theorem Nonneg.resets (h : q.Nonneg) (hr : Resets q q') : q'.Nonneg := by
  intro k
  rcases hr.spent k with hk | hk
  · rw [hk]
    exact h k
  · exact hk.ge

variable [IsOrderedAddMonoid M]

theorem Fits.mono (h : q.Fits a) (hle : b ≤ a) : q.Fits b := fun k =>
  (add_le_add_right hle (q.spent k)).trans (h k)

theorem Nonneg.charge (h : q.Nonneg) (ha : 0 ≤ a) : (q.charge a).Nonneg := fun k =>
  add_nonneg (h k) ha

theorem Fits.of_resets (h : q.Fits a) (hq : q.Nonneg) (hr : Resets q q') : q'.Fits a := by
  intro k
  rw [hr.limit k]
  rcases hr.spent k with hk | hk
  · rw [hk]
    exact h k
  · rw [hk, zero_add]
    exact (le_add_of_nonneg_left (hq k)).trans (h k)

end Laws

end Quota
end Lib
