import PeerClaw.Wallet.Atomic
import PeerClaw.Wallet.Conservation

/-!
# The journal of the wallet

Next to its three counters the wallet keeps a log of transactions.  Read from
the first entry on, the log is a journal: every entry says what its operation
moved, and `replay` posts the entries one by one.

* `replay_iff` — the journal gives the counters, in every state of a run of
  successful calls, exactly when every sweep finds in escrow what it refunds: a
  sweep stops at zero, where the journal goes on below it.
* `replay_of_valid` — so it does in every run without an overflow.
* `replay_diverges` — when `in_escrow` has wrapped, a sweep makes them differ.
-/

namespace PeerClaw

open Lib Lib.Word Lib.Machine

/-- The counters of a wallet. -/
structure Balances where
  available : UInt64
  inEscrow : UInt64
  staked : UInt64
  deriving DecidableEq

/-- The counters in a state. -/
def WalletState.balances (st : WalletState) : Balances := ⟨st.available, st.inEscrow, st.staked⟩

/-- What an entry of the log does to the counters. -/
def Transaction.post (b : Balances) (tx : Transaction) : Balances :=
  match tx.txType with
  | .credit _ => { b with available := b.available + tx.amount }
  | .debit _ => { b with available := b.available - tx.amount }
  | .escrowCreated _ =>
      { b with available := b.available - tx.amount, inEscrow := b.inEscrow + tx.amount }
  | .escrowReleased _ => { b with inEscrow := b.inEscrow - tx.amount }
  | .escrowRefunded _ =>
      { b with available := b.available + tx.amount, inEscrow := b.inEscrow - tx.amount }
  | .stake => { b with available := b.available - tx.amount, staked := b.staked + tx.amount }
  | .unstake => { b with available := b.available + tx.amount, staked := b.staked - tx.amount }

/-- The counters that a log gives, from zero. -/
def replay (log : List Transaction) : Balances := log.foldl Transaction.post ⟨0, 0, 0⟩

theorem replay_append (log new : List Transaction) :
    replay (log ++ new) = new.foldl Transaction.post (replay log) := by
  rw [replay, List.foldl_append]
  rfl

/-- What refunding the amount `n` makes of the counters of a journal. -/
def Balances.refunded (b : Balances) (n : ℕ) : Balances :=
  ⟨b.available + UInt64.ofNat n, b.inEscrow - UInt64.ofNat n, b.staked⟩

theorem Balances.refunded_refunded (b : Balances) (n k : ℕ) :
    (b.refunded n).refunded k = b.refunded (n + k) := by
  simp only [refunded, UInt64.ofNat_add, Balances.mk.injEq]
  refine ⟨UInt64.add_assoc .., ?_, trivial⟩
  rw [UInt64.sub_eq_add_neg, UInt64.sub_eq_add_neg, UInt64.sub_eq_add_neg, UInt64.neg_add,
    UInt64.add_assoc, UInt64.sub_eq_add_neg]

namespace Wallet

/-- The log gives the counters. -/
def Replays (st : WalletState) : Prop := replay st.transactions = st.balances

instance : DecidablePred Replays := fun st =>
  inferInstanceAs (Decidable (replay st.transactions = st.balances))

/-- The call does not trim the log: a credit finds fewer than a thousand entries. -/
def Call.Untrimmed (st : WalletState) : Call → Prop
  | .credit _ _ _ => st.transactions.length < 1000
  | _ => True

/-- The amounts of these escrows, together. -/
def sumOf (st : WalletState) (ids : List EscrowId) : ℕ := (ids.map (amountOf st)).sum

/-- A sweep finds in escrow what it refunds, or misses it by a multiple of `2 ^ 64`. -/
def Call.Covered (st : WalletState) : Call → Prop
  | .sweepExpiredEscrows draw =>
      sumOf st (expiredIds draw.now draw.order st) ≤ st.inEscrow.toNat ∨
        2 ^ 64 ∣ sumOf st (expiredIds draw.now draw.order st) - st.inEscrow.toNat
  | _ => True

/-! ## The sections and their entries -/

section Entries

variable {cfg : WalletConfig} {st : WalletState} {c : Call}

/-- **What a section records** is what it does: but for a sweep, it adds one entry to the
log, which moves what the section has moved. -/
theorem locked_records (h : (locked cfg c st).outcome.isOk) (huntrimmed : c.Untrimmed st)
    (hsweep : ∀ draw, c ≠ .sweepExpiredEscrows draw) :
    ∃ tx : Transaction, (locked cfg c st).state.transactions = st.transactions ++ [tx] ∧
      (locked cfg c st).state.balances = tx.post st.balances := by
  have hadmits : c.Admissible cfg st := by
    by_contra hnot
    rw [(locked_refused hnot).1] at h
    cases h
  have hdate : c.Dated := by
    by_contra hnot
    obtain ⟨-, -, hout, -⟩ := locked_undated hadmits hnot
    rw [hout] at h
    cases h
  cases c with
  | credit draw amount reason =>
      have hne : amount ≠ 0 := hadmits
      have hshort : st.transactions.length < 1000 := huntrimmed
      simp only [locked, Action.map_apply, if_neg hne]
      refine ⟨.newCredit (draw.stamp 0) amount reason, ?_, rfl⟩
      have hkeep : (st.transactions ++ [Transaction.newCredit (draw.stamp 0) amount reason]).length
          - 1000 = 0 := by
        rw [List.length_append, List.length_singleton]
        omega
      simp only [creditLocked, hkeep, List.drop_zero]
  | debit draw amount reason =>
      have hnot : ¬ satSub st.available cfg.reserveBalance < amount := UInt64.not_lt.2 hadmits
      simp only [locked, Action.map_apply, debitLocked, if_neg hnot]
      exact ⟨_, rfl, rfl⟩
  | createEscrow draw amount recipient jobId timeoutSecs =>
      have hnot : ¬ satSub st.available cfg.reserveBalance < amount := UInt64.not_lt.2 hadmits
      obtain ⟨e, hnew⟩ := Option.isSome_iff_exists.1 hdate
      simp only [locked, Action.map_apply, createEscrowLocked, if_neg hnot, hnew]
      exact ⟨_, rfl, rfl⟩
  | releaseEscrow draw id =>
      obtain ⟨e, hlookup, hactive⟩ := hadmits
      simp only [locked, Action.map_apply, releaseEscrowLocked, hlookup, hactive, ne_eq,
        not_true_eq_false, if_false]
      exact ⟨_, rfl, rfl⟩
  | refundEscrow draw id =>
      obtain ⟨e, hlookup, hactive⟩ := hadmits
      simp only [locked, Action.map_apply, refundEscrowLocked, hlookup, hactive, ne_eq,
        not_true_eq_false, if_false]
      exact ⟨_, rfl, rfl⟩
  | stake draw amount =>
      have hnot : ¬ st.available < amount := UInt64.not_lt.2 hadmits
      simp only [locked, Action.map_apply, stakeLocked, if_neg hnot]
      exact ⟨_, rfl, rfl⟩
  | unstake draw amount =>
      have hnot : ¬ st.staked < amount := UInt64.not_lt.2 hadmits
      simp only [locked, Action.map_apply, unstakeLocked, if_neg hnot]
      exact ⟨_, rfl, rfl⟩
  | sweepExpiredEscrows draw => exact absurd rfl (hsweep draw)

/-- What the loop of the sweep leaves: the log has the refunds, and the counters have
moved as far as `in_escrow` went. -/
structure Sweeps (st st' : WalletState) (n : ℕ) : Prop where
  log : ∃ txs, st'.transactions = st.transactions ++ txs ∧
    ∀ b, txs.foldl Transaction.post b = b.refunded n
  available : st'.available = st.available + UInt64.ofNat n
  inEscrow : st'.inEscrow.toNat = st.inEscrow.toNat - n
  staked : st'.staked = st.staked

theorem Sweeps.trans {st st' st'' : WalletState} {n k : ℕ} (h : Sweeps st st' n)
    (h' : Sweeps st' st'' k) : Sweeps st st'' (n + k) := by
  obtain ⟨txs, hlog, hpost⟩ := h.log
  obtain ⟨txs', hlog', hpost'⟩ := h'.log
  refine ⟨⟨txs ++ txs', by rw [hlog', hlog, List.append_assoc], fun b => ?_⟩, ?_, ?_, ?_⟩
  · rw [List.foldl_append, hpost, hpost', Balances.refunded_refunded]
  · rw [h'.available, h.available, UInt64.ofNat_add, UInt64.add_assoc]
  · rw [h'.inEscrow, h.inEscrow, Nat.sub_sub]
  · rw [h'.staked, h.staked]

theorem sweepOne_sweeps (stamp : Stamp) {id : EscrowId} (h : IsActive st id) :
    Sweeps st (sweepOne stamp id st).state (amountOf st id) := by
  obtain ⟨e, he, -⟩ := h
  have hamount : amountOf st id = e.amount.toNat := by simp [amountOf, he]
  have hword : UInt64.ofNat (amountOf st id) = e.amount := by rw [hamount, UInt64.ofNat_toNat]
  unfold sweepOne
  rw [he]
  refine ⟨⟨_, rfl, fun b => ?_⟩, ?_, ?_, rfl⟩
  · rw [Balances.refunded, hword]
    rfl
  · rw [hword]
  · rw [hamount]
    exact toNat_satSub ..

theorem sweepLoop_sweeps (stamp : ℕ → Stamp) {ids : List EscrowId} (hnd : ids.Nodup) :
    ∀ (k : ℕ) (st : WalletState), (∀ id ∈ ids, IsActive st id) →
      Sweeps st (sweepLoop stamp k ids st).state (sumOf st ids) := by
  induction ids with
  | nil =>
      intro k st _
      refine ⟨⟨[], (List.append_nil _).symm, fun b => ?_⟩, ?_, rfl, rfl⟩
      · simp [sumOf, Balances.refunded]
      · exact (UInt64.add_zero _).symm
  | cons id ids ih =>
      intro k st hact
      obtain ⟨hnot, hnd⟩ := List.nodup_cons.1 hnd
      obtain ⟨swept, hone⟩ := sweepOne_ok (stamp k) id st
      obtain ⟨hkeep, hamounts⟩ := sweepOne_others (stamp k) id st
      have hact' : ∀ j ∈ ids, IsActive (sweepOne (stamp k) id st).state j := by
        intro j hj
        have hne : j ≠ id := fun h => hnot (h ▸ hj)
        exact hkeep j hne (hact j (List.mem_cons_of_mem _ hj))
      have hfirst := sweepOne_sweeps (stamp k) (hact id (List.mem_cons_self ..))
      have hrest := ih hnd (k + swept.length) (sweepOne (stamp k) id st).state hact'
      rw [sumOf, hamounts] at hrest
      rw [sweepLoop_cons hone]
      exact hfirst.trans hrest

end Entries

/-! ## One call -/

section Step

variable {cfg : WalletConfig} {st : WalletState} {c : Call}

/-- Two ways to take `n` from a word, stopping at zero or going on below it. -/
theorem sub_eq_iff {a a' : UInt64} {n : ℕ} (h : a'.toNat = a.toNat - n) :
    a - UInt64.ofNat n = a' ↔ n ≤ a.toNat ∨ 2 ^ 64 ∣ n - a.toNat := by
  have hlt := a.toNat_lt
  rw [toNat_eq, UInt64.toNat_sub, UInt64.toNat_ofNat', h]
  omega

/-- **A sweep keeps to the journal** exactly when what it refunds is in escrow. -/
theorem sweep_replays_iff {draw : Draw} (h : Replays st) (horder : Enumerates draw.order st.escrows) :
    Replays (sweepExpiredEscrows draw st).state ↔ (Call.sweepExpiredEscrows draw).Covered st := by
  have hsweeps := sweepLoop_sweeps draw.stamp (expiredIds_nodup draw.now horder) 0 st
    (isActive_of_expired draw.now draw.order st)
  obtain ⟨txs, hlog, hpost⟩ := hsweeps.log
  have hbefore : replay st.transactions = st.balances := h
  unfold Replays
  show replay (sweepLoop draw.stamp 0 (expiredIds draw.now draw.order st) st).state.transactions = _ ↔ _
  rw [hlog, replay_append, hpost, hbefore]
  unfold Balances.refunded WalletState.balances
  rw [Balances.mk.injEq]
  show _ ∧ _ ∧ _ ↔ _
  have hiff := sub_eq_iff hsweeps.inEscrow
  constructor
  · rintro ⟨-, hescrow, -⟩
    exact hiff.1 hescrow
  · intro hcovered
    exact ⟨hsweeps.available.symm, hiff.2 hcovered, hsweeps.staked.symm⟩

/-- What is assumed of a call: it succeeds, it does not trim the log, and a sweep goes
through the escrows in some order. -/
structure Recorded (cfg : WalletConfig) (st : WalletState) (c : Call) : Prop where
  succeeds : (exec cfg c st).outcome.isOk
  untrimmed : c.Untrimmed st
  order : ∀ draw, c = .sweepExpiredEscrows draw → Enumerates draw.order st.escrows

/-- **A call keeps to the journal** exactly when a sweep is covered. -/
theorem step_replays_iff (h : Replays st) (hc : Recorded cfg st c) :
    Replays (step cfg st c) ↔ c.Covered st := by
  obtain ⟨hlimits, hok, -⟩ := exec_isOk_iff.1 hc.succeeds
  have hstate : step cfg st c = (locked cfg c st).state := exec_state_within hlimits
  by_cases hsweep : ∃ draw, c = .sweepExpiredEscrows draw
  · obtain ⟨draw, rfl⟩ := hsweep
    have hsweeps : step cfg st (.sweepExpiredEscrows draw) = (sweepExpiredEscrows draw st).state :=
      congrArg Effect.state (Action.map_apply ..)
    rw [hsweeps]
    exact sweep_replays_iff h (hc.order draw rfl)
  · have hnone : ∀ draw, c ≠ .sweepExpiredEscrows draw := fun draw hd => hsweep ⟨draw, hd⟩
    obtain ⟨tx, hlog, hbalances⟩ := locked_records hok hc.untrimmed hnone
    have hreplays : Replays (step cfg st c) := by
      have hbefore : replay st.transactions = st.balances := h
      unfold Replays
      rw [hstate, hlog, hbalances, replay_append, hbefore]
      rfl
    have hcovered : c.Covered st := by
      cases c with
      | sweepExpiredEscrows draw => exact absurd rfl (hnone draw)
      | _ => trivial
    exact ⟨fun _ => hcovered, fun _ => hreplays⟩

end Step

/-! ## Every run -/

/-- **When the journal gives the counters**: in every state of a run of successful calls
from the empty state, exactly when every sweep finds in escrow what it refunds. -/
theorem replay_iff (cfg : WalletConfig) {calls : List Call}
    (h : Along (step cfg) (Recorded cfg) .default calls) :
    Always (step cfg) Replays .default calls ↔
      Along (step cfg) (fun st c => c.Covered st) .default calls :=
  always_iff_along (I := Replays) (fun _ hs => hs) (fun _ _ hs hc => step_replays_iff hs hc)
    (fun _ _ _ _ hnext => hnext) rfl h

/-- While `in_escrow` is what the active escrows hold, sweeps are covered. -/
theorem covered_of_ledger {st : WalletState} {c : Call} (hinv : LedgerInv st)
    (hdraw : c.DrawsWell st) : c.Covered st := by
  cases c with
  | sweepExpiredEscrows draw =>
      left
      have hactive : ∀ id ∈ expiredIds draw.now draw.order st,
          amountOf st id = ((st.escrows.lookup id).map activeAmount).getD 0 := by
        intro id hid
        obtain ⟨e, he, hs⟩ := isActive_of_expired draw.now draw.order st id hid
        simp [amountOf, he, activeAmount, hs]
      have hsum : st.inEscrow.toNat = st.escrows.weigh activeAmount := hinv
      rw [sumOf, List.map_congr_left hactive, hsum]
      exact Finmap.sum_le_weigh (expiredIds_nodup draw.now hdraw) activeAmount st.escrows
  | _ => trivial

/-- **Without an overflow the journal gives the counters.** -/
theorem replay_of_valid (cfg : WalletConfig) {calls : List Call}
    (hvalid : Along (step cfg) (Valid cfg) .default calls)
    (h : Along (step cfg) (Recorded cfg) .default calls) :
    Always (step cfg) Replays .default calls := by
  have hcovered : Along (step cfg) (fun st c => c.Covered st) .default calls :=
    along_of_inv (I := LedgerInv)
      (fun st c hinv hc => ⟨(step_lawful hinv hc).1, covered_of_ledger hinv hc.draws⟩) rfl hvalid
  have hstep : ∀ st c, Replays st → Recorded cfg st c ∧ c.Covered st → Replays (step cfg st c) :=
    fun st c hreplays hc => (step_replays_iff hreplays hc.1).2 hc.2
  exact always_of_inv hstep rfl (along_and.2 ⟨h, hcovered⟩)

theorem enumerates_empty : Enumerates [] ∅ :=
  ⟨List.nodup_nil, fun _ => ⟨fun h => absurd h List.not_mem_nil, fun h => absurd h Finmap.notMem_empty⟩⟩

theorem Enumerates.insert {order : List EscrowId} {m : FiniteMap EscrowId Escrow} {id : EscrowId}
    (h : Enumerates order m) (hnew : id ∉ m) (e : Escrow) :
    Enumerates (order ++ [id]) (m.insert id e) := by
  obtain ⟨hnd, hmem⟩ := h
  refine ⟨List.nodup_append.2 ⟨hnd, List.nodup_singleton id, ?_⟩, fun j => ?_⟩
  · rintro a ha b hb rfl
    rw [List.mem_singleton] at hb
    exact hnew (hb ▸ (hmem a).1 ha)
  · rw [List.mem_append, List.mem_singleton, Finmap.mem_insert, hmem, or_comm]

section Example

private def unbounded : WalletConfig := ⟨0xffffffffffffffff, 0xffffffffffffffff, 0xffffffffffffffff, 0⟩

private def drawOf (id : String) : Draw := .fixed .epoch id []

/-- A sweep two hours later. -/
private def sweepAll (ids : List String) : Call :=
  .sweepExpiredEscrows (.fixed (.ofSecs 7200 DateTime.twoHours_inRange) "s" (ids.map EscrowId.mk))

/-- An escrow expires with its amount in escrow. -/
private def oneEscrow : List Call :=
  [.credit (drawOf "a") 10 "gift", .createEscrow (drawOf "e") 4 "bob" "job" 60, sweepAll ["e"]]

private theorem oneEscrow_recorded : Along (step unbounded) (Recorded unbounded) .default oneEscrow := by
  refine ⟨⟨rfl, Nat.succ_pos _, ?_⟩, ⟨rfl, trivial, ?_⟩, ⟨rfl, trivial, ?_⟩, trivial⟩
  · rintro draw ⟨⟩
  · rintro draw ⟨⟩
  · rintro draw ⟨⟩
    exact enumerates_empty.insert Finmap.notMem_empty _

theorem replay_iff_expired : Always (step unbounded) Replays .default oneEscrow := by
  refine (replay_iff unbounded oneEscrow_recorded).2 ⟨trivial, trivial, .inl ?_, trivial⟩
  decide

theorem replay_of_valid_expired : Always (step unbounded) Replays .default oneEscrow :=
  replay_of_valid unbounded
    ⟨⟨rfl, trivial, by decide⟩, ⟨rfl, ⟨by decide, by decide⟩, by decide⟩,
      ⟨rfl, (enumerates_empty.insert Finmap.notMem_empty _), by decide⟩, trivial⟩ oneEscrow_recorded

/-- Two escrows of `2 ^ 63`, of which only the first has expired when the sweep comes. -/
private def wrapped : List Call :=
  [.credit (drawOf "a") 0x8000000000000000 "gift",
    .createEscrow (drawOf "e") 0x8000000000000000 "bob" "job" 60,
    .credit (drawOf "b") 0x8000000000000000 "gift",
    .createEscrow (drawOf "f") 0x8000000000000000 "bob" "job" 86400, sweepAll ["e", "f"]]

private theorem wrapped_recorded : Along (step unbounded) (Recorded unbounded) .default wrapped := by
  refine ⟨⟨rfl, Nat.succ_pos _, ?_⟩, ⟨rfl, trivial, ?_⟩, ⟨rfl, Nat.lt_of_sub_pos (Nat.succ_pos 997), ?_⟩,
    ⟨rfl, trivial, ?_⟩, ⟨rfl, trivial, ?_⟩, trivial⟩
  · rintro draw ⟨⟩
  · rintro draw ⟨⟩
  · rintro draw ⟨⟩
  · rintro draw ⟨⟩
  · rintro draw ⟨⟩
    exact (enumerates_empty.insert Finmap.notMem_empty _).insert (by decide) _

/-- **A sweep after `in_escrow` has wrapped**: it refunds `2 ^ 63`, and leaves zero in escrow
where the journal leaves `2 ^ 63`. -/
theorem replay_diverges :
    Along (step unbounded) (Recorded unbounded) .default wrapped ∧
      (run (step unbounded) .default wrapped).inEscrow = 0 ∧
      (replay (run (step unbounded) .default wrapped).transactions).inEscrow =
        0x8000000000000000 ∧
      ¬ Always (step unbounded) Replays .default wrapped := by
  refine ⟨wrapped_recorded, by decide, by decide, ?_⟩
  intro halways
  have hlast : Replays (run (step unbounded) .default wrapped) := halways.last
  revert hlast
  decide

end Example

end Wallet
end PeerClaw
