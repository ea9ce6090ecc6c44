import PeerClaw.Lib.Window
import Mathlib.Algebra.Order.Ring.Rat

/-!
# The budget of an agent

`BudgetTracker` in `agent/budget.rs`: what an agent has spent on its request, in the
hour, in the day and altogether, each with a limit.  Amounts are exact, and an
instant is a number of nanoseconds.

* `BudgetTracker.canSpend`, `BudgetTracker.spend` — the two ways to use it.
* `BudgetTracker.quota` — the tracker as four counters with their limits, and
  `quota_spend`, `canSpend_iff` — what its methods do to these.
-/

namespace PeerClaw

open Lib

/-- Tracks spending. -/
structure BudgetTracker where
  perRequestLimit : ℚ
  perHourLimit : ℚ
  perDayLimit : ℚ
  totalLimit : ℚ
  spentThisRequest : ℚ
  spentThisHour : ℚ
  spentThisDay : ℚ
  spentTotal : ℚ
  /-- When the hour began. -/
  hourStart : ℕ
  /-- When the day began. -/
  dayStart : ℕ

namespace BudgetTracker

/-- `now.duration_since(start).as_secs()`, which is 0 when the start is later. -/
def secsSince (now start : ℕ) : ℕ := (now - start) / 1000000000

/-- A tracker with the given limits. -/
def new (now : ℕ) (perRequest perHour perDay total : ℚ) : BudgetTracker where
  perRequestLimit := perRequest
  perHourLimit := perHour
  perDayLimit := perDay
  totalLimit := total
  spentThisRequest := 0
  spentThisHour := 0
  spentThisDay := 0
  spentTotal := 0
  hourStart := now
  dayStart := now

variable (b : BudgetTracker)

/-- Begin a new hour or a new day if the last one is over. -/
def resetIfNeeded (now : ℕ) : BudgetTracker :=
  let b := if 3600 ≤ secsSince now b.hourStart then { b with spentThisHour := 0, hourStart := now }
    else b
  if 86400 ≤ secsSince now b.dayStart then { b with spentThisDay := 0, dayStart := now } else b

/-- Whether an amount can be spent, and the tracker after the question. -/
def canSpend (now : ℕ) (amount : ℚ) : Bool × BudgetTracker :=
  let b := b.resetIfNeeded now
  (b.spentThisRequest + amount ≤ b.perRequestLimit &&
    b.spentThisHour + amount ≤ b.perHourLimit &&
    b.spentThisDay + amount ≤ b.perDayLimit &&
    b.spentTotal + amount ≤ b.totalLimit, b)

/-- Record spending. -/
def spend (now : ℕ) (amount : ℚ) : BudgetTracker :=
  let b := b.resetIfNeeded now
  { b with
    spentThisRequest := b.spentThisRequest + amount
    spentThisHour := b.spentThisHour + amount
    spentThisDay := b.spentThisDay + amount
    spentTotal := b.spentTotal + amount }

/-- Begin a request. -/
def newRequest : BudgetTracker := { b with spentThisRequest := 0 }

/-- Total spent. -/
def totalSpent : ℚ := b.spentTotal

/-! ## Four counters -/

/-- What has a limit. -/
inductive Period
  | request
  | hour
  | day
  | total
  deriving DecidableEq

/-- The counters and their limits. -/
def quota : Quota Period ℚ where
  limit
    | .request => b.perRequestLimit
    | .hour => b.perHourLimit
    | .day => b.perDayLimit
    | .total => b.totalLimit
  spent
    | .request => b.spentThisRequest
    | .hour => b.spentThisHour
    | .day => b.spentThisDay
    | .total => b.spentTotal

variable {b}

theorem quota_new (now : ℕ) (perRequest perHour perDay total : ℚ) :
    (new now perRequest perHour perDay total).quota.Nonneg := by
  intro k
  cases k <;> exact le_rfl

theorem quota_newRequest : Quota.Resets b.quota b.newRequest.quota where
  limit k := by cases k <;> rfl
  spent k := by
    cases k with
    | request => exact .inr rfl
    | hour => exact .inl rfl
    | day => exact .inl rfl
    | total => exact .inl rfl

theorem quota_resetIfNeeded (now : ℕ) : Quota.Resets b.quota (b.resetIfNeeded now).quota := by
  have hour : Quota.Resets b.quota
      (if 3600 ≤ secsSince now b.hourStart then { b with spentThisHour := 0, hourStart := now }
        else b).quota := by
    split
    · refine ⟨fun k => by cases k <;> rfl, fun k => ?_⟩
      cases k with
      | hour => exact .inr rfl
      | request => exact .inl rfl
      | day => exact .inl rfl
      | total => exact .inl rfl
    · exact Quota.Resets.refl _
  refine hour.trans ?_
  unfold resetIfNeeded
  generalize (if 3600 ≤ secsSince now b.hourStart then
    { b with spentThisHour := 0, hourStart := now } else b) = c
  simp only
  split
  · refine ⟨fun k => by cases k <;> rfl, fun k => ?_⟩
    cases k with
    | day => exact .inr rfl
    | request => exact .inl rfl
    | hour => exact .inl rfl
    | total => exact .inl rfl
  · exact Quota.Resets.refl _

theorem quota_spend (now : ℕ) (amount : ℚ) :
    (b.spend now amount).quota = (b.resetIfNeeded now).quota.charge amount := by
  unfold quota Quota.charge
  congr 1
  funext k
  cases k <;> rfl

/-- **An amount can be spent** exactly when it fits. -/
theorem canSpend_iff (now : ℕ) (amount : ℚ) :
    (b.canSpend now amount).1 ↔ (b.resetIfNeeded now).quota.Fits amount := by
  unfold canSpend
  simp only [Bool.and_eq_true, decide_eq_true_eq]
  constructor
  · rintro ⟨⟨⟨hrequest, hhour⟩, hday⟩, htotal⟩ k
    cases k with
    | request => exact hrequest
    | hour => exact hhour
    | day => exact hday
    | total => exact htotal
  · intro h
    exact ⟨⟨⟨h .request, h .hour⟩, h .day⟩, h .total⟩

@[simp] theorem canSpend_snd (now : ℕ) (amount : ℚ) :
    (b.canSpend now amount).2 = b.resetIfNeeded now := rfl

@[simp] theorem totalSpent_resetIfNeeded (now : ℕ) :
    (b.resetIfNeeded now).totalSpent = b.totalSpent := by
  unfold resetIfNeeded
  simp only
  split <;> split <;> rfl

@[simp] theorem totalSpent_newRequest : b.newRequest.totalSpent = b.totalSpent := rfl

@[simp] theorem totalSpent_spend (now : ℕ) (amount : ℚ) :
    (b.spend now amount).totalSpent = b.totalSpent + amount := by
  have hreset : (b.resetIfNeeded now).spentTotal = b.spentTotal := totalSpent_resetIfNeeded now
  show (b.resetIfNeeded now).spentTotal + amount = b.spentTotal + amount
  rw [hreset]

/-- Recording an amount keeps within the limits exactly when it can be spent at that time. -/
theorem within_spend_iff (now : ℕ) (amount : ℚ) :
    (b.spend now amount).quota.Within ↔ (b.canSpend now amount).1 := by
  rw [quota_spend, Quota.within_charge_iff, canSpend_iff]

/-- **What could be spent may be recorded later**, and anything less too. -/
theorem within_spend_of_canSpend {now later : ℕ} {estimate amount : ℚ} (hb : b.quota.Nonneg)
    (h : (b.canSpend now estimate).1) (hle : amount ≤ estimate) :
    ((b.canSpend now estimate).2.spend later amount).quota.Within := by
  have hfits : (b.resetIfNeeded now).quota.Fits amount := ((canSpend_iff now estimate).1 h).mono hle
  rw [canSpend_snd, quota_spend, Quota.within_charge_iff]
  exact hfits.of_resets (hb.resets (quota_resetIfNeeded now)) (quota_resetIfNeeded later)

end BudgetTracker

end PeerClaw
