import PeerClaw.Wallet.Operations
import PeerClaw.Lib.Pool

/-!
# Spending limits under concurrent calls

`debit` and `create_escrow` read the spending limits under a read lock, let go
of it, and take the money under a write lock.  Here each call is a task cut at
its lock acquisitions, and the wallet is a pool of such tasks.

* `exceeds_limit` — the limits do not hold: an escrow is never entered in the
  spending trackers, so two escrows of the whole hourly limit both go through.
* `spending_within_limits` — they hold in every run in which whatever is taken
  out would still pass the limits at that moment, with the escrows created in
  the same hour and the same day counted in.
-/

namespace PeerClaw
namespace Wallet

open Lib Lib.Word Lib.Machine

/-! ## Calls, cut at their locks -/

/-- What the limits are checked for: the amount of a debit or of a new escrow. -/
def Call.spending : Call → Option UInt64
  | .debit _ amount _ => some amount
  | .createEscrow _ amount _ _ _ => some amount
  | _ => none

/-- The section of a call that holds the write lock; a credit of nothing is
turned away before it. -/
def locked (cfg : WalletConfig) : Call → WalletM Reply
  | .credit draw amount reason => .transaction <$>
      (if amount = 0 then .fail (.invalidAmount "Amount must be > 0")
      else creditLocked (draw.stamp 0) amount reason)
  | .debit draw amount reason =>
      .transaction <$> debitLocked cfg draw.now (draw.stamp 0) amount reason
  | .createEscrow draw amount recipient jobId timeoutSecs =>
      .escrow <$> createEscrowLocked cfg draw amount recipient jobId timeoutSecs
  | .releaseEscrow draw id =>
      (fun r => .released r.1 r.2.1 r.2.2) <$> releaseEscrowLocked (draw.stamp 0) id
  | .refundEscrow draw id => .transaction <$> refundEscrowLocked (draw.stamp 0) id
  | .stake draw amount => .transaction <$> stakeLocked (draw.stamp 0) amount
  | .unstake draw amount => .transaction <$> unstakeLocked (draw.stamp 0) amount
  | .sweepExpiredEscrows draw => .swept <$> sweepExpiredEscrows draw

/-- What is left of a call. -/
inductive Task
  /-- Everything. -/
  | begin (c : Call)
  /-- The limits were checked; the write lock comes next. -/
  | commit (c : Call)
  /-- The change is made; `save_state` comes next. -/
  | save (c : Call)

/-- Money that was taken out of `available`, with the clock reading of the
section that took it. -/
structure Spend where
  time : DateTime
  amount : UInt64
  /-- Whether a debit took it, which also drops old buckets of the trackers. -/
  byDebit : Bool

/-- The wallet state, with what debits and escrows have taken out of it so
far. -/
structure World where
  state : WalletState
  spends : List Spend

/-- What a call takes out when its section under the write lock succeeds. -/
def spendOf : Call → Outcome WalletError Reply → List Spend
  | .debit draw amount _, .ok _ => [⟨draw.now, amount, true⟩]
  | .createEscrow draw amount _ _ _, .ok _ => [⟨draw.now, amount, false⟩]
  | _, _ => []

/-- Run the section under the write lock. -/
def commitSection (cfg : WalletConfig) (w : World) (c : Call) : World × Option Task :=
  let eff := locked cfg c w.state
  (⟨eff.state, w.spends ++ spendOf c eff.outcome⟩, if eff.outcome.isOk then some (.save c) else none)

/-- Run the next section of a call.  `save_state` reads the state and may fail,
after the change is made. -/
def advance (cfg : WalletConfig) (w : World) : Task → World × Option Task
  | .begin c =>
      match c.spending with
      | none => commitSection cfg w c
      | some amount =>
          if (checkSpendingLimits cfg c.draw.checkedAt amount w.state).outcome.isOk then
            (w, some (.commit c))
          else (w, none)
  | .commit c => commitSection cfg w c
  | .save _ => (w, none)

/-- A wallet with calls in flight. -/
abbrev WalletPool := Pool World Task

/-- A wallet on which no call has been made yet. -/
def idle (st : WalletState) : WalletPool := ⟨⟨st, []⟩, []⟩

/-! ## A call on its own -/

/-- `save_state` changes nothing, whether or not the database stores. -/
theorem state_saved {α : Type} (x : WalletM α) (store : Except String Unit) (st : WalletState) :
    ((do let a ← x; saveState store; return a : WalletM α) st).state = (x st).state := by
  rcases (x st).outcome.ok_or_not with ⟨a, hx⟩ | hx
  · rw [Action.bind_of_ok hx]
    cases store <;> rfl
  · exact (Action.bind_of_not_ok hx).2.1

theorem state_checked {α : Type} (cfg : WalletConfig) (now : DateTime) (amount : UInt64)
    (x : WalletM α) (st : WalletState) :
    ((checkSpendingLimits cfg now amount >>= fun _ => x) st).state =
      if (checkSpendingLimits cfg now amount st).outcome.isOk then (x st).state else st := by
  have hkeep := checkSpendingLimits_state cfg now amount st
  rcases (checkSpendingLimits cfg now amount st).outcome.ok_or_not with ⟨u, hc⟩ | hc
  · rw [Action.bind_of_ok hc, hkeep, hc]
    rfl
  · rw [(Action.bind_of_not_ok hc).2.1, hkeep, hc]
    rfl

/-- The change a whole call makes is the change of its section under the write
lock, made if the check passes. -/
theorem step_eq_locked (cfg : WalletConfig) (st : WalletState) (c : Call) :
    step cfg st c = match c.spending with
      | none => (locked cfg c st).state
      | some amount =>
          if (checkSpendingLimits cfg c.draw.checkedAt amount st).outcome.isOk then
            (locked cfg c st).state
          else st := by
  cases c with
  | credit draw amount reason =>
      simp only [step, exec, locked, Action.map_apply, Call.spending, credit]
      split
      · rfl
      · exact state_saved _ _ _
  | debit draw amount reason =>
      simp only [step, exec, locked, Action.map_apply, Call.spending, debit, state_checked,
        state_saved]
      rfl
  | createEscrow draw amount recipient jobId timeoutSecs =>
      simp only [step, exec, locked, Action.map_apply, Call.spending, createEscrow, state_checked,
        state_saved]
      rfl
  | releaseEscrow draw id =>
      simp only [step, exec, locked, Action.map_apply, Call.spending]
      exact state_saved _ _ _
  | refundEscrow draw id =>
      simp only [step, exec, locked, Action.map_apply, Call.spending]
      exact state_saved _ _ _
  | stake draw amount =>
      simp only [step, exec, locked, Action.map_apply, Call.spending]
      exact state_saved _ _ _
  | unstake draw amount =>
      simp only [step, exec, locked, Action.map_apply, Call.spending]
      exact state_saved _ _ _
  | sweepExpiredEscrows draw => rfl

/-- Once its change is made, a call alone on the wallet changes nothing more. -/
theorem resume_saving (cfg : WalletConfig) (w : World) {t : Option Task}
    (ht : t = none ∨ ∃ c, t = some (.save c)) :
    Pool.step (advance cfg) ⟨w, [t]⟩ (.resume 0) = ⟨w, [none]⟩ := by
  rcases ht with rfl | ⟨c, rfl⟩ <;> rfl

/-- After the section under the write lock, only `save_state` can be left. -/
theorem commitSection_left (cfg : WalletConfig) (w : World) (c : Call) :
    (commitSection cfg w c).2 = none ∨ ∃ c', (commitSection cfg w c).2 = some (.save c') := by
  unfold commitSection
  dsimp only
  split
  · exact .inr ⟨c, rfl⟩
  · exact .inl rfl

/-- **A call that nothing interrupts** does what the method does. -/
theorem wallet_call_alone (cfg : WalletConfig) (st : WalletState) (c : Call) :
    (run (Pool.step (advance cfg)) (idle st)
      [.start (.begin c), .resume 0, .resume 0, .resume 0]).shared.state = step cfg st c := by
  rw [step_eq_locked]
  show (run (Pool.step (advance cfg)) ⟨⟨st, []⟩, [some (.begin c)]⟩
    [.resume 0, .resume 0, .resume 0]).shared.state = _
  cases hc : c.spending with
  | none =>
      have hfirst : Pool.step (advance cfg) ⟨⟨st, []⟩, [some (.begin c)]⟩ (.resume 0) =
          ⟨(commitSection cfg ⟨st, []⟩ c).1, [(commitSection cfg ⟨st, []⟩ c).2]⟩ := by
        simp [Pool.step, Pool.taskAt, advance, hc]
      rw [run_cons, run_cons, run_cons, hfirst, resume_saving cfg _ (commitSection_left ..),
        resume_saving cfg _ (.inl rfl)]
      rfl
  | some amount =>
      by_cases hok : (checkSpendingLimits cfg c.draw.checkedAt amount st).outcome.isOk
      · have hfirst : Pool.step (advance cfg) ⟨⟨st, []⟩, [some (.begin c)]⟩ (.resume 0) =
            ⟨⟨st, []⟩, [some (.commit c)]⟩ := by
          simp [Pool.step, Pool.taskAt, advance, hc, hok]
        have hsecond : Pool.step (advance cfg) ⟨⟨st, []⟩, [some (.commit c)]⟩ (.resume 0) =
            ⟨(commitSection cfg ⟨st, []⟩ c).1, [(commitSection cfg ⟨st, []⟩ c).2]⟩ := rfl
        rw [run_cons, run_cons, run_cons, hfirst, hsecond,
          resume_saving cfg _ (commitSection_left ..)]
        simp only [hok, if_true]
        rfl
      · have hfirst : Pool.step (advance cfg) ⟨⟨st, []⟩, [some (.begin c)]⟩ (.resume 0) =
            ⟨⟨st, []⟩, [none]⟩ := by
          simp [Pool.step, Pool.taskAt, advance, hc, hok]
        rw [run_cons, run_cons, run_cons, hfirst, resume_saving cfg _ (.inl rfl),
          resume_saving cfg _ (.inl rfl)]
        simp only [hok]
        rfl

/-! ## What is spent and what is recorded -/

/-- One of the two windows over which spending is limited. -/
structure Window where
  /-- The bucket of an instant. -/
  key : DateTime → UInt64
  /-- The tracker of the window. -/
  tracker : WalletState → FiniteMap UInt64 UInt64
  /-- How many buckets a debit keeps. -/
  kept : UInt64
  /-- The limit on one bucket. -/
  limit : WalletConfig → UInt64

/-- Hours, of which the last 24 are kept. -/
def hourly : Window := ⟨hourKey, WalletState.hourlySpend, 24, WalletConfig.maxSpendPerHour⟩

/-- Days, of which the last 30 are kept. -/
def daily : Window := ⟨dayKey, WalletState.dailySpend, 30, WalletConfig.maxSpendPerDay⟩

/-- What was taken out within one bucket. -/
def spentIn (W : Window) (spends : List Spend) (k : UInt64) : ℕ :=
  (spends.map fun s => if W.key s.time = k then s.amount.toNat else 0).sum

/-- **The limits hold**: no bucket of either window has had more taken out than
its limit. -/
def WithinLimits (cfg : WalletConfig) (w : World) : Prop :=
  ∀ k, spentIn hourly w.spends k ≤ cfg.maxSpendPerHour.toNat ∧
    spentIn daily w.spends k ≤ cfg.maxSpendPerDay.toNat

/-- What an escrow adds to a bucket: its amount, if it was created in it. -/
def createdIn (W : Window) (k : UInt64) (e : Escrow) : ℕ :=
  if W.key e.createdAt = k then e.amount.toNat else 0

/-- What the state has on record for a bucket: the tracker's entry, and the
escrows created in it. -/
def recorded (W : Window) (st : WalletState) (k : UInt64) : ℕ :=
  ((W.tracker st).lookup k |>.getD 0).toNat + st.escrows.weigh (createdIn W k)

/-- No debit so far has dropped the bucket from the tracker: the clock has not
gone back by the whole span the tracker keeps. -/
def Kept (W : Window) (w : World) (k : UInt64) : Prop :=
  ∀ s ∈ w.spends, s.byDebit → satSub (W.key s.time) W.kept < k

instance (W : Window) (w : World) (k : UInt64) : Decidable (Kept W w k) :=
  inferInstanceAs (Decidable (∀ s ∈ w.spends, s.byDebit → satSub (W.key s.time) W.kept < k))

/-- Taking out the amount now stays within the limit, whatever is on record for
the bucket counted in, and nothing that should be on record has been dropped. -/
def Fits (W : Window) (cfg : WalletConfig) (w : World) (now : DateTime) (amount : UInt64) : Prop :=
  recorded W w.state (W.key now) + amount.toNat ≤ (W.limit cfg).toNat ∧ Kept W w (W.key now)

instance (W : Window) (cfg : WalletConfig) (w : World) (now : DateTime) (amount : UInt64) :
    Decidable (Fits W cfg w now amount) :=
  inferInstanceAs (Decidable (_ ∧ _))

/-- A call takes money out only when it fits at that moment, and a new escrow gets
an id that is not in use. -/
structure Respects (cfg : WalletConfig) (w : World) (c : Call) : Prop where
  fits : ∀ amount, c.spending = some amount →
    amount ≤ satSub w.state.available cfg.reserveBalance →
      ∀ W, W = hourly ∨ W = daily → Fits W cfg w c.draw.now amount
  fresh : (∃ amount recipient jobId timeoutSecs,
    c = .createEscrow c.draw amount recipient jobId timeoutSecs) →
      c.draw.escrowId ∉ w.state.escrows

/-- The condition on a move: where it lets a call take its money out, that call
respects the limits. -/
def MoveRespects (cfg : WalletConfig) (p : WalletPool) : Move Task → Prop
  | .start t => ∃ c, t = .begin c
  | .resume k => ∀ c, p.taskAt k = some (.commit c) → Respects cfg p.shared c

/-! ## What the sections do to the record -/

/-- The trackers, and everything about the escrows but their status, are the
same. -/
structure SameRecord (st st' : WalletState) : Prop where
  hourly : st'.hourlySpend = st.hourlySpend
  daily : st'.dailySpend = st.dailySpend
  escrows : ∀ w : Escrow → ℕ, (∀ e status, w { e with status := status } = w e) →
    st'.escrows.weigh w = st.escrows.weigh w

theorem SameRecord.refl (st : WalletState) : SameRecord st st := ⟨rfl, rfl, fun _ _ => rfl⟩

theorem SameRecord.trans {st st' st'' : WalletState} (h : SameRecord st st')
    (h' : SameRecord st' st'') : SameRecord st st'' := by
  refine ⟨h'.hourly.trans h.hourly, h'.daily.trans h.daily, ?_⟩
  intro w hw
  rw [h'.escrows w hw, h.escrows w hw]

theorem weigh_update_status (m : FiniteMap EscrowId Escrow) (id : EscrowId) (status : EscrowStatus)
    {w : Escrow → ℕ} (hw : ∀ e status, w { e with status := status } = w e) :
    (m.update id fun e => { e with status := status }).weigh w = m.weigh w := by
  cases he : m.lookup id with
  | none =>
      unfold Finmap.update
      rw [he]
  | some e =>
      have hold := Finmap.weigh_insert_old he { e with status := status } w
      rw [hw e status] at hold
      rw [Finmap.update_of_lookup he]
      omega

theorem sweepOne_record (stamp : Stamp) (id : EscrowId) (st : WalletState) :
    SameRecord st (sweepOne stamp id st).state := by
  unfold sweepOne
  cases st.escrows.lookup id with
  | none => exact .refl st
  | some e => exact ⟨rfl, rfl, fun w hw => weigh_update_status _ _ _ hw⟩

theorem sweepOne_ok (stamp : Stamp) (id : EscrowId) (st : WalletState) :
    ∃ swept, (sweepOne stamp id st).outcome = .ok swept := by
  unfold sweepOne
  cases st.escrows.lookup id with
  | none => exact ⟨_, rfl⟩
  | some e => exact ⟨_, rfl⟩

theorem sweepLoop_cons {stamp : ℕ → Stamp} {k : ℕ} {id : EscrowId} {ids : List EscrowId}
    {st : WalletState} {swept : List EscrowId}
    (h : (sweepOne (stamp k) id st).outcome = .ok swept) :
    (sweepLoop stamp k (id :: ids) st).state =
      (sweepLoop stamp (k + swept.length) ids (sweepOne (stamp k) id st).state).state := by
  have hunfold : sweepLoop stamp k (id :: ids) st =
      (sweepOne (stamp k) id >>= fun swept => (fun rest => swept ++ rest) <$>
        sweepLoop stamp (k + swept.length) ids) st := rfl
  rw [hunfold, Action.bind_of_ok h, Action.map_apply]

theorem sweepLoop_record (stamp : ℕ → Stamp) (ids : List EscrowId) :
    ∀ (k : ℕ) (st : WalletState), SameRecord st (sweepLoop stamp k ids st).state := by
  induction ids with
  | nil => exact fun k st => .refl st
  | cons id ids ih =>
      intro k st
      obtain ⟨swept, hone⟩ := sweepOne_ok (stamp k) id st
      rw [sweepLoop_cons hone]
      exact (sweepOne_record _ _ _).trans (ih _ _)

/-- A call that is not checked against the limits leaves the record alone. -/
theorem locked_record {cfg : WalletConfig} {c : Call} (hc : c.spending = none) (st : WalletState) :
    SameRecord st (locked cfg c st).state := by
  cases c with
  | credit draw amount reason =>
      simp only [locked, Action.map_apply]
      split <;> exact ⟨rfl, rfl, fun _ _ => rfl⟩
  | debit draw amount reason => cases hc
  | createEscrow draw amount recipient jobId timeoutSecs => cases hc
  | releaseEscrow draw id =>
      simp only [locked, Action.map_apply, releaseEscrowLocked]
      cases st.escrows.lookup id with
      | none => exact .refl st
      | some e =>
          dsimp only
          split
          · exact .refl st
          · exact ⟨rfl, rfl, fun w hw => weigh_update_status _ _ _ hw⟩
  | refundEscrow draw id =>
      simp only [locked, Action.map_apply, refundEscrowLocked]
      cases st.escrows.lookup id with
      | none => exact .refl st
      | some e =>
          dsimp only
          split
          · exact .refl st
          · exact ⟨rfl, rfl, fun w hw => weigh_update_status _ _ _ hw⟩
  | stake draw amount =>
      simp only [locked, Action.map_apply, stakeLocked]
      split <;> exact ⟨rfl, rfl, fun _ _ => rfl⟩
  | unstake draw amount =>
      simp only [locked, Action.map_apply, unstakeLocked]
      split <;> exact ⟨rfl, rfl, fun _ _ => rfl⟩
  | sweepExpiredEscrows draw =>
      simp only [locked, Action.map_apply]
      exact sweepLoop_record _ _ _ _

/-- The spending sections do one of two things: nothing to the record and no
spend, or the spend and the record of it. -/
inductive Commits (cfg : WalletConfig) (st : WalletState) (c : Call) : Prop
  /-- Nothing was taken out. -/
  | nothing : spendOf c (locked cfg c st).outcome = [] → SameRecord st (locked cfg c st).state →
      Commits cfg st c
  /-- A debit went through. -/
  | debited (amount : UInt64) : c.spending = some amount →
      amount ≤ satSub st.available cfg.reserveBalance →
      spendOf c (locked cfg c st).outcome = [⟨c.draw.now, amount, true⟩] →
      (locked cfg c st).state.escrows = st.escrows →
      (∀ W, W = hourly ∨ W = daily → W.tracker (locked cfg c st).state =
        Finmap.retain ((W.tracker st).insert (W.key c.draw.now)
          (((W.tracker st).lookup (W.key c.draw.now)).getD 0 + amount))
          fun k => decide (satSub (W.key c.draw.now) W.kept < k)) →
      Commits cfg st c
  /-- An escrow was created. -/
  | escrowed (amount : UInt64) (e : Escrow) : c.spending = some amount →
      (∃ amount recipient jobId timeoutSecs,
        c = .createEscrow c.draw amount recipient jobId timeoutSecs) →
      amount ≤ satSub st.available cfg.reserveBalance →
      spendOf c (locked cfg c st).outcome = [⟨c.draw.now, amount, false⟩] →
      e.createdAt = c.draw.now → e.amount = amount →
      (locked cfg c st).state.escrows = st.escrows.insert c.draw.escrowId e →
      (∀ W, W = hourly ∨ W = daily → W.tracker (locked cfg c st).state = W.tracker st) →
      Commits cfg st c

theorem locked_commits (cfg : WalletConfig) (st : WalletState) (c : Call) : Commits cfg st c := by
  cases hc : c.spending with
  | none =>
      refine .nothing ?_ (locked_record hc st)
      cases c with
      | debit draw amount reason => cases hc
      | createEscrow draw amount recipient jobId timeoutSecs => cases hc
      | _ => rfl
  | some amount =>
      cases c with
      | debit draw amount' reason =>
          obtain rfl : amount' = amount := Option.some.inj hc
          by_cases hlt : satSub st.available cfg.reserveBalance < amount'
          · refine .nothing ?_ ?_ <;> simp only [locked, Action.map_apply, debitLocked, if_pos hlt]
            · rfl
            · exact .refl st
          · have hle : amount' ≤ satSub st.available cfg.reserveBalance := UInt64.not_lt.1 hlt
            refine .debited amount' rfl hle ?_ ?_ ?_
            · simp only [locked, Action.map_apply, debitLocked, if_neg hlt]
              rfl
            · simp only [locked, Action.map_apply, debitLocked, if_neg hlt]
            · rintro W (rfl | rfl) <;>
                simp only [locked, Action.map_apply, debitLocked, if_neg hlt] <;> rfl
      | createEscrow draw amount' recipient jobId timeoutSecs =>
          obtain rfl : amount' = amount := Option.some.inj hc
          by_cases hlt : satSub st.available cfg.reserveBalance < amount'
          · refine .nothing ?_ ?_ <;>
              simp only [locked, Action.map_apply, createEscrowLocked, if_pos hlt]
            · rfl
            · exact .refl st
          · have hle : amount' ≤ satSub st.available cfg.reserveBalance := UInt64.not_lt.1 hlt
            cases hnew : Escrow.new draw.now draw.escrowId amount' recipient jobId timeoutSecs with
            | none =>
                refine .nothing ?_ ?_ <;>
                  simp only [locked, Action.map_apply, createEscrowLocked, if_neg hlt, hnew]
                · rfl
                · exact ⟨rfl, rfl, fun _ _ => rfl⟩
            | some e =>
                obtain ⟨hid, hamount, -, -, hcreated, -⟩ := Escrow.new_some hnew
                refine .escrowed amount' e rfl ⟨_, _, _, _, rfl⟩ hle ?_ hcreated hamount ?_ ?_
                · simp only [locked, Action.map_apply, createEscrowLocked, if_neg hlt, hnew]
                  rfl
                · simp only [locked, Action.map_apply, createEscrowLocked, if_neg hlt, hnew, hid]
                  rfl
                · rintro W (rfl | rfl) <;>
                    simp only [locked, Action.map_apply, createEscrowLocked, if_neg hlt, hnew] <;> rfl
      | _ => cases hc

/-! ## The invariant -/

/-- In both windows, what was spent is on record where the record was kept, and
within the limit. -/
structure Covered (cfg : WalletConfig) (W : Window) (w : World) : Prop where
  onRecord : ∀ k, Kept W w k → spentIn W w.spends k ≤ recorded W w.state k
  within : ∀ k, spentIn W w.spends k ≤ (W.limit cfg).toNat

theorem spentIn_concat (W : Window) (spends : List Spend) (s : Spend) (k : UInt64) :
    spentIn W (spends ++ [s]) k =
      spentIn W spends k + if W.key s.time = k then s.amount.toNat else 0 := by
  simp [spentIn]

theorem recorded_same {W : Window} (hW : W = hourly ∨ W = daily) {st st' : WalletState}
    (h : SameRecord st st') (k : UInt64) : recorded W st' k = recorded W st k := by
  have hescrows := h.escrows (createdIn W k) fun e status => rfl
  rcases hW with rfl | rfl
  · rw [recorded, recorded, hescrows]
    show ((st'.hourlySpend.lookup k).getD 0).toNat + _ = _
    rw [h.hourly]
    rfl
  · rw [recorded, recorded, hescrows]
    show ((st'.dailySpend.lookup k).getD 0).toNat + _ = _
    rw [h.daily]
    rfl

/-- A spend that fits its bucket leaves every bucket within the limit. -/
theorem within_concat {cfg : WalletConfig} {W : Window} {w : World} (h : Covered cfg W w)
    {now : DateTime} {amount : UInt64} (hfit : Fits W cfg w now amount) (byDebit : Bool)
    (k : UInt64) :
    spentIn W (w.spends ++ [⟨now, amount, byDebit⟩]) k ≤ (W.limit cfg).toNat := by
  rw [spentIn_concat]
  by_cases hk : W.key now = k
  · subst hk
    have hcover := h.onRecord _ hfit.2
    have hroom := hfit.1
    simp only [if_true]
    omega
  · simp only [if_neg hk]
    exact h.within k

theorem covered_debited {cfg : WalletConfig} {W : Window} {w : World} (h : Covered cfg W w)
    {st' : WalletState} {now : DateTime} {amount : UInt64} (hfit : Fits W cfg w now amount)
    (hescrows : st'.escrows = w.state.escrows)
    (htracker : W.tracker st' = Finmap.retain ((W.tracker w.state).insert (W.key now)
      (((W.tracker w.state).lookup (W.key now)).getD 0 + amount))
      fun k => decide (satSub (W.key now) W.kept < k)) :
    Covered cfg W ⟨st', w.spends ++ [⟨now, amount, true⟩]⟩ := by
  refine ⟨fun k hkept => ?_, within_concat h hfit true⟩
  have hold : Kept W w k := fun s hs => hkept s (List.mem_append_left _ hs)
  have hnew : satSub (W.key now) W.kept < k :=
    hkept ⟨now, amount, true⟩ (List.mem_append_right _ (List.mem_singleton.2 rfl)) rfl
  have hcover := h.onRecord k hold
  have hlookup : (W.tracker st').lookup k =
      if k = W.key now then some (((W.tracker w.state).lookup (W.key now)).getD 0 + amount)
      else (W.tracker w.state).lookup k := by
    rw [htracker, Finmap.lookup_retain, if_pos (decide_eq_true hnew), Finmap.lookup_insert_eq]
  rw [spentIn_concat, recorded, hescrows, hlookup]
  by_cases hk : W.key now = k
  · subst hk
    -- the sum on record does not wrap, because it is within the limit
    have hroom := hfit.1
    have hlimit := (W.limit cfg).toNat_lt
    have hsum : (((W.tracker w.state).lookup (W.key now)).getD 0).toNat + amount.toNat < 2 ^ 64 := by
      unfold recorded at hroom
      omega
    rw [if_pos rfl, if_pos rfl, Option.getD_some, toNat_add_of_fits hsum]
    unfold recorded at hcover
    dsimp only
    omega
  · rw [if_neg (Ne.symm hk), if_neg hk]
    exact hcover

theorem covered_escrowed {cfg : WalletConfig} {W : Window} {w : World} (h : Covered cfg W w)
    {st' : WalletState} {e : Escrow} {id : EscrowId}
    (hfit : Fits W cfg w e.createdAt e.amount) (hfresh : id ∉ w.state.escrows)
    (hescrows : st'.escrows = w.state.escrows.insert id e)
    (htracker : W.tracker st' = W.tracker w.state) :
    Covered cfg W ⟨st', w.spends ++ [⟨e.createdAt, e.amount, false⟩]⟩ := by
  refine ⟨fun k hkept => ?_, within_concat h hfit false⟩
  have hold : Kept W w k := fun s hs => hkept s (List.mem_append_left _ hs)
  have hcover := h.onRecord k hold
  rw [spentIn_concat, recorded, hescrows, htracker, Finmap.weigh_insert_new hfresh]
  unfold recorded at hcover
  have hadd : createdIn W k e = if W.key e.createdAt = k then e.amount.toNat else 0 := rfl
  rw [hadd]
  dsimp only
  omega

/-- A section under the write lock keeps the invariant when its call respects the
limits. -/
theorem covered_commit {cfg : WalletConfig} {W : Window} (hW : W = hourly ∨ W = daily) {w : World}
    {c : Call} (h : Covered cfg W w) (hc : c.spending.isSome → Respects cfg w c) :
    Covered cfg W (commitSection cfg w c).1 := by
  show Covered cfg W ⟨(locked cfg c w.state).state,
    w.spends ++ spendOf c (locked cfg c w.state).outcome⟩
  rcases locked_commits cfg w.state c with ⟨hnone, hsame⟩ |
    ⟨amount, hspend, hle, hspends, hescrows, htracker⟩ |
    ⟨amount, e, hspend, hcreate, hle, hspends, hcreated, hamount, hescrows, htracker⟩
  · rw [hnone, List.append_nil]
    refine ⟨fun k hkept => ?_, h.within⟩
    rw [recorded_same hW hsame]
    exact h.onRecord k hkept
  · rw [hspends]
    have hr := hc (by rw [hspend]; rfl)
    exact covered_debited h (hr.fits amount hspend hle W hW) hescrows (htracker W hW)
  · have hr := hc (by rw [hspend]; rfl)
    have hfit := hr.fits amount hspend hle W hW
    rw [hspends, ← hcreated, ← hamount]
    rw [← hcreated, ← hamount] at hfit
    exact covered_escrowed h hfit (hr.fresh hcreate) hescrows (htracker W hW)

theorem covered_step {cfg : WalletConfig} {W : Window} (hW : W = hourly ∨ W = daily)
    (p : WalletPool) (m : Move Task) (h : Covered cfg W p.shared) (hm : MoveRespects cfg p m) :
    Covered cfg W (p.step (advance cfg) m).shared := by
  refine Pool.inv_step h ?_
  intro k t hk ht
  subst hk
  cases t with
  | begin c =>
      cases hs : c.spending with
      | none =>
          simp only [advance, hs]
          exact covered_commit hW h fun hsome => by rw [hs] at hsome; cases hsome
      | some amount =>
          simp only [advance, hs]
          split <;> exact h
  | commit c => exact covered_commit hW h fun _ => hm c ht
  | save c => exact h

/-- **The limits hold where the money taken out fits when it is taken.**  From any
wallet state, in every interleaving of calls in which every debit and every new
escrow still fits both windows when its write lock is held, no hour and no day
has more taken out of it than its limit. -/
theorem spending_within_limits (cfg : WalletConfig) (st : WalletState) {moves : List (Move Task)}
    (h : Along (Pool.step (advance cfg)) (MoveRespects cfg) (idle st) moves) :
    Always (Pool.step (advance cfg)) (fun p => WithinLimits cfg p.shared) (idle st) moves := by
  have hstart : ∀ W, Covered cfg W (idle st).shared :=
    fun W => ⟨fun k _ => Nat.zero_le _, fun k => Nat.zero_le _⟩
  have hhour := always_of_inv (I := fun p : WalletPool => Covered cfg hourly p.shared)
    (covered_step (.inl rfl)) (hstart hourly) h
  have hday := always_of_inv (I := fun p : WalletPool => Covered cfg daily p.shared)
    (covered_step (.inr rfl)) (hstart daily) h
  intro pre post hsplit k
  exact ⟨(hhour pre post hsplit).within k, (hday pre post hsplit).within k⟩

section Example

private def tenPerHour : WalletConfig := ⟨10, 10, 10, 0⟩

private def hundred : WalletState := { WalletState.default with available := 100 }

/-- Midnight of the hundredth day. -/
private def midnight : DateTime := .ofSecs 8640000 (by decide)

private def escrowOf (amount : UInt64) (id : String) : Move Task :=
  .start (.begin (.createEscrow (.fixed midnight id []) amount "peer" "job" 60))

private def debitOf (amount : UInt64) : Move Task :=
  .start (.begin (.debit (.fixed midnight "d" []) amount "spent"))

/-- A debit and an escrow, interleaved, that take out nine of ten together. -/
private def withinTen : List (Move Task) :=
  [debitOf 4, .resume 0, escrowOf 5 "e", .resume 1, .resume 0, .resume 1, .resume 0, .resume 1]

private theorem withinTen_respects :
    Along (Pool.step (advance tenPerHour)) (MoveRespects tenPerHour) (idle hundred) withinTen := by
  refine ⟨⟨_, rfl⟩, ?_, ⟨_, rfl⟩, ?_, ?_, ?_, ?_, ?_, trivial⟩
  · intro c hc
    cases hc
  · intro c hc
    cases hc
  · intro c hc
    cases hc
    refine ⟨?_, ?_⟩
    · rintro amount hamount - W (rfl | rfl) <;> cases hamount <;> decide
    · rintro -
      decide
  · intro c hc
    cases hc
    refine ⟨?_, ?_⟩
    · rintro amount hamount - W (rfl | rfl) <;> cases hamount <;> decide
    · rintro -
      decide
  · intro c hc
    cases hc
  · intro c hc
    cases hc

theorem spending_within_limits_nine :
    spentIn hourly (run (Pool.step (advance tenPerHour)) (idle hundred) withinTen).shared.spends 2400 ≤ 10 :=
  ((spending_within_limits tenPerHour hundred withinTen_respects).last 2400).1

/-- Two escrows of ten, one after the other. -/
private def twoEscrows : List (Move Task) :=
  [escrowOf 10 "e", .resume 0, .resume 0, .resume 0, escrowOf 10 "f", .resume 1, .resume 1, .resume 1]

/-- **The limits do not hold**: two escrows of the whole hourly limit both go
through, and nothing is in flight afterwards. -/
theorem escrows_exceed_limit :
    (run (Pool.step (advance tenPerHour)) (idle hundred) twoEscrows).Quiescent ∧
      spentIn hourly (run (Pool.step (advance tenPerHour)) (idle hundred) twoEscrows).shared.spends 2400 =
        20 ∧
      ¬ Always (Pool.step (advance tenPerHour)) (fun p => WithinLimits tenPerHour p.shared)
        (idle hundred) twoEscrows := by
  have hspent : spentIn hourly
      (run (Pool.step (advance tenPerHour)) (idle hundred) twoEscrows).shared.spends 2400 = 20 := by
    decide
  refine ⟨by decide, hspent, ?_⟩
  intro halways
  have hle := (halways.last 2400).1
  rw [hspent] at hle
  exact absurd hle (by decide)

/-- Two debits whose checks both come before either change exceed it as well. -/
example : spentIn hourly (run (Pool.step (advance tenPerHour)) (idle hundred)
    [debitOf 10, debitOf 10, .resume 0, .resume 1, .resume 0, .resume 1]).shared.spends 2400 = 20 := by
  decide

end Example

end Wallet
end PeerClaw
