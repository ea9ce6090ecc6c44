import PeerClaw.Wallet.Active
import PeerClaw.Wallet.Ledger

/-!
# A wallet that can pay what it holds

`Ledger` follows the counter `in_escrow` exactly, for calls that draw fresh
escrow ids and representable dates.  What a payment needs is less, and survives
every draw: the counter covers the active escrows, and the whole balance fits in
a word.  An id used twice only makes the counter too large.

* `Backed` — the counter covers the active escrows.
* `createEscrow_backed`, `releaseEscrow_backed`, `refundEscrow_backed`,
  `credit_backed`, `sweepExpiredEscrows_backed` — what each call does to the
  total of a backed wallet, which stays backed whether or not the database
  stores it.
-/

namespace PeerClaw
namespace Wallet

open Lib Lib.Word

/-- The counter covers the active escrows, and the whole balance fits in a word. -/
structure Backed (st : WalletState) : Prop where
  covered : activeSum st ≤ st.inEscrow.toNat
  fits : total st < 2 ^ 64

/-- The wallet is backed, and its total is the given one. -/
structure BackedAt (n : ℕ) (st : WalletState) : Prop where
  backed : Backed st
  total_eq : total st = n

section Total

variable {st : WalletState} {id : EscrowId} {e : Escrow}

theorem Backed.at_total (h : Backed st) : BackedAt (total st) st := ⟨h, rfl⟩

theorem LedgerInv.backed (h : LedgerInv st) (hfits : total st < 2 ^ 64) : Backed st :=
  ⟨le_of_eq h.symm, hfits⟩

theorem Backed.amount_le (h : Backed st) (he : ActiveAt st id e) : e.amount ≤ st.inEscrow := by
  have hle := Finmap.le_weigh he.1 activeAmount
  have hamount : activeAmount e = e.amount.toNat := if_pos he.2
  have hcovered : st.escrows.weigh activeAmount ≤ st.inEscrow.toNat := h.covered
  rw [toNat_le, ← hamount]
  exact hle.trans hcovered

theorem createEscrowLocked_backed {cfg : WalletConfig} {draw : Draw} {amount : UInt64}
    {recipient jobId : String} {timeoutSecs : UInt64} (h : Backed st) :
    BackedAt (total st)
      (createEscrowLocked cfg draw amount recipient jobId timeoutSecs st).state := by
  unfold createEscrowLocked
  dsimp only
  split
  · exact h.at_total
  · rename_i hnot
    have hle : amount.toNat ≤ st.available.toNat := by
      rw [toNat_lt, toNat_satSub] at hnot
      omega
    have hfits := h.fits
    have hcovered : st.escrows.weigh activeAmount ≤ st.inEscrow.toNat := h.covered
    unfold total at hfits
    have havailable : (st.available - amount).toNat = st.available.toNat - amount.toNat :=
      toNat_sub_of_le (toNat_le.2 hle)
    have hescrow : (st.inEscrow + amount).toNat = st.inEscrow.toNat + amount.toNat :=
      toNat_add_of_fits (by omega)
    cases hnew : Escrow.new draw.now draw.escrowId amount recipient jobId timeoutSecs with
    | none =>
        refine ⟨⟨?_, ?_⟩, ?_⟩ <;> simp only [activeSum, total, havailable, hescrow] <;> omega
    | some d =>
        have hweigh := Finmap.weigh_insert_le st.escrows d.id d activeAmount
        have hamount : activeAmount d = amount.toNat := by
          obtain ⟨-, hd, -, -, -, hactive⟩ := Escrow.new_some hnew
          rw [activeAmount, if_pos hactive, hd]
        refine ⟨⟨?_, ?_⟩, ?_⟩ <;> simp only [activeSum, total, havailable, hescrow] <;> omega

theorem createEscrow_backed {cfg : WalletConfig} {draw : Draw} {amount : UInt64}
    {recipient jobId : String} {timeoutSecs : UInt64} (h : Backed st) :
    BackedAt (total st) (createEscrow cfg draw amount recipient jobId timeoutSecs st).state := by
  unfold createEscrow
  rcases (checkSpendingLimits cfg draw.checkedAt amount st).outcome.ok_or_not with ⟨u, hu⟩ | hnot
  · rw [Action.bind_of_ok hu, checkSpendingLimits_state, state_saved]
    exact createEscrowLocked_backed h
  · rw [(Action.bind_of_not_ok hnot).2.1, checkSpendingLimits_state]
    exact h.at_total

theorem releaseEscrowLocked_backed {stamp : Stamp} (h : Backed st) (he : ActiveAt st id e) :
    Backed (releaseEscrowLocked stamp id st).state ∧
      total (releaseEscrowLocked stamp id st).state + e.amount.toNat = total st := by
  have hle := toNat_le.1 (h.amount_le he)
  have hsum := activeSum_update he.1 he.2 .released (by decide)
  have hescrow := toNat_sub_of_le (h.amount_le he)
  have hcovered := h.covered
  have hfits := h.fits
  unfold total at hfits
  unfold releaseEscrowLocked
  simp only [he.1, he.2, ne_eq, not_true_eq_false, if_false]
  refine ⟨⟨?_, ?_⟩, ?_⟩ <;> simp only [activeSum, total, hescrow] at * <;> omega

theorem releaseEscrow_ok {draw : Draw} (he : ActiveAt st id e) (hstore : draw.store = .ok ()) :
    ∃ tx, (releaseEscrow draw id st).outcome = .ok (tx, e.amount, e.recipient) := by
  unfold releaseEscrow
  rcases releaseEscrowLocked_cases (draw.stamp 0) id st with ⟨d, tx, hd, hok, -⟩ | ⟨hno, -⟩
  · obtain rfl : d = e := Option.some.inj (hd.1.symm.trans he.1)
    rw [Action.bind_of_ok hok, Action.bind_of_ok (saveState_ok_iff (u := ()).2 hstore)]
    exact ⟨tx, rfl⟩
  · exact absurd ⟨e, he⟩ hno

theorem releaseEscrow_unstored {draw : Draw} (id : EscrowId) (st : WalletState)
    (hstore : draw.store ≠ .ok ()) : (releaseEscrow draw id st).outcome.isOk = false := by
  unfold releaseEscrow
  rcases (releaseEscrowLocked (draw.stamp 0) id st).outcome.ok_or_not with ⟨r, hr⟩ | hnot
  · rw [Action.bind_of_ok hr]
    refine (Action.bind_of_not_ok (Outcome.not_ok ?_)).1
    intro h
    exact hstore (saveState_ok_iff.1 h)
  · exact (Action.bind_of_not_ok hnot).1

theorem releaseEscrow_backed (draw : Draw) (h : Backed st) (he : ActiveAt st id e) :
    Backed (releaseEscrow draw id st).state ∧
      total (releaseEscrow draw id st).state + e.amount.toNat = total st := by
  rw [show (releaseEscrow draw id st).state = _ from state_saved ..]
  exact releaseEscrowLocked_backed h he

theorem refundEscrowLocked_backed {stamp : Stamp} (h : Backed st) :
    BackedAt (total st) (refundEscrowLocked stamp id st).state := by
  rcases refundEscrowLocked_cases stamp id st with ⟨e, -, he, -⟩ | ⟨-, -, hstate⟩
  · have hle := toNat_le.1 (h.amount_le he)
    have hsum := activeSum_update he.1 he.2 .refunded (by decide)
    have hescrow := toNat_sub_of_le (h.amount_le he)
    have hcovered := h.covered
    have hfits := h.fits
    unfold total at hfits
    have havailable : (st.available + e.amount).toNat = st.available.toNat + e.amount.toNat :=
      toNat_add_of_fits (by omega)
    unfold refundEscrowLocked
    simp only [he.1, he.2, ne_eq, not_true_eq_false, if_false]
    refine ⟨⟨?_, ?_⟩, ?_⟩ <;> simp only [activeSum, total, hescrow, havailable] at * <;> omega
  · rw [hstate]
    exact h.at_total

theorem refundEscrow_backed (draw : Draw) (h : Backed st) :
    BackedAt (total st) (refundEscrow draw id st).state := by
  rw [show (refundEscrow draw id st).state = _ from state_saved ..]
  exact refundEscrowLocked_backed h

theorem creditLocked_backed {stamp : Stamp} {amount : UInt64} {reason : String} (h : Backed st)
    (hfits : total st + amount.toNat < 2 ^ 64) :
    BackedAt (total st + amount.toNat) (creditLocked stamp amount reason st).state := by
  have hcovered := h.covered
  have havailable : (st.available + amount).toNat = st.available.toNat + amount.toNat :=
    toNat_add_of_fits (by unfold total at hfits; omega)
  unfold creditLocked
  refine ⟨⟨?_, ?_⟩, ?_⟩ <;> simp only [activeSum, total, havailable] at * <;> omega

theorem credit_backed (draw : Draw) (amount : UInt64) (reason : String) (h : Backed st)
    (hfits : total st + amount.toNat < 2 ^ 64) :
    BackedAt (total st + amount.toNat) (credit draw amount reason st).state := by
  unfold credit
  by_cases hzero : amount = 0
  · rw [if_pos hzero, hzero]
    exact h.at_total
  · rw [if_neg hzero, state_saved]
    exact creditLocked_backed h hfits

theorem sweepOne_backed (stamp : Stamp) (h : Backed st) (he : ActiveAt st id e) :
    BackedAt (total st) (sweepOne stamp id st).state := by
  have hle := toNat_le.1 (h.amount_le he)
  have hsum := activeSum_update he.1 he.2 .expired (by decide)
  have hcovered := h.covered
  have hfits := h.fits
  unfold total at hfits
  have havailable : (st.available + e.amount).toNat = st.available.toNat + e.amount.toNat :=
    toNat_add_of_fits (by omega)
  have hescrow := toNat_satSub st.inEscrow e.amount
  unfold sweepOne
  simp only [he.1]
  refine ⟨⟨?_, ?_⟩, ?_⟩ <;> simp only [activeSum, total, hescrow, havailable] at * <;> omega

theorem sweepLoop_backed {stamp : ℕ → Stamp} {ids : List EscrowId} :
    ∀ {k : ℕ} {st : WalletState}, Backed st → ids.Nodup → (∀ id ∈ ids, IsActive st id) →
      BackedAt (total st) (sweepLoop stamp k ids st).state := by
  induction ids with
  | nil =>
      intro k st h _ _
      exact h.at_total
  | cons id ids ih =>
      intro k st h hnd hactive
      obtain ⟨hnot, hnd⟩ := List.nodup_cons.1 hnd
      obtain ⟨e, he⟩ := hactive id (List.mem_cons_self ..)
      obtain ⟨swept, hone⟩ := sweepOne_ok (stamp k) id st
      have hbacked := sweepOne_backed (stamp k) h he
      obtain ⟨hkeep, -⟩ := sweepOne_others (stamp k) id st
      rw [sweepLoop_cons hone, ← hbacked.total_eq]
      refine ih hbacked.backed hnd ?_
      intro j hj
      exact hkeep j (fun hji => hnot (hji ▸ hj)) (hactive j (List.mem_cons_of_mem _ hj))

theorem sweepExpiredEscrows_backed {draw : Draw} (h : Backed st)
    (henum : Enumerates draw.order st.escrows) :
    BackedAt (total st) (sweepExpiredEscrows draw st).state :=
  sweepLoop_backed h (expiredIds_nodup draw.now henum) (isActive_of_expired draw.now draw.order st)

end Total

end Wallet
end PeerClaw
