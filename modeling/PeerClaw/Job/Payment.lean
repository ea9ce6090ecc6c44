import PeerClaw.Job.Sections
import PeerClaw.Wallet.Backed

/-!
# What the requester pays

A settlement pays the escrow of a job out — "tokens leave requester's wallet" —
and then credits the same amount to the local wallet, whoever the recipient of
the escrow is.  So a completed job costs the requester nothing.

* `requester_pays_iff` — over every run of requests, bids, acceptances,
  settlements and sweeps, every settlement takes the amount of its escrow from
  the requester's total, and the requester has paid the sum of the escrows of the
  completed jobs, exactly when the escrows released were all of nothing.
* `payment_returns` — a job of forty is completed, and nothing was paid.

The proof follows the total of a wallet that is `Backed` through every call;
only a release that the database then fails to store is not made up for.
-/

namespace PeerClaw
namespace Jobs

open Lib Lib.Machine

/-! ## What is due and what is paid -/

/-- The amount of the escrow of an active job. -/
def price (m : JobManager) (id : JobId) : ℕ :=
  ((m.activeJobs.lookup id).map fun job => Wallet.amountOf m.wallet job.escrowId).getD 0

/-- What is due for the job that a call completes. -/
def dues (m : JobManager) : Call → List ℕ
  | .settleJob s => if s.success ∧ (settleJob s m).outcome.isOk then [price m s.jobId] else []
  | _ => []

/-- A settlement that succeeds takes the amount of the escrow from the total when the job
was, and nothing otherwise. -/
def Pays (cfg : WalletConfig) (m : JobManager) (c : Call) : Prop :=
  ∀ s, c = .settleJob s → (settleJob s m).outcome.isOk →
    Wallet.total (step cfg m c).wallet + (if s.success then price m s.jobId else 0) =
      Wallet.total m.wallet

/-- From a total of `n`, exactly what was due is gone. -/
def PaidExactly (n : ℕ) (s : JobManager × List ℕ) : Prop :=
  Wallet.total s.1.wallet + s.2.sum = n

/-! ## Runs of jobs -/

/-- The call is the job manager's, or a sweep that draws an iteration order of the escrows. -/
def JobsAndSweeps (m : JobManager) (c : Call) : Prop :=
  ∀ call, c = .wallet call →
    ∃ draw, call = .sweepExpiredEscrows draw ∧ Wallet.Enumerates draw.order m.wallet.escrows

/-- An escrow that the call releases is of nothing. -/
def FreeOfCharge (m : JobManager) (c : Call) : Prop :=
  ∀ s job e, c = .settleJob s → s.success → m.activeJobs.lookup s.jobId = some job →
    Wallet.ActiveAt m.wallet job.escrowId e → e.amount = 0

/-! ## One call -/

section Step

variable {cfg : WalletConfig} {m : JobManager} {w : WalletState} {s : Settlement} {job : Job}
  {e : Escrow}

/-- **A refund** costs nothing. -/
theorem payment_refund_backed (job : Job) (h : Wallet.Backed w) (hs : s.success = false) :
    Wallet.BackedAt (Wallet.total w) (payment s job w).state := by
  have hrefund : payment s job = (fun _ => ()) <$> Wallet.refundEscrow s.draw job.escrowId := by
    unfold payment
    rw [hs]
    rfl
  rw [hrefund, Action.map_apply]
  exact Wallet.refundEscrow_backed s.draw h

/-- **A release** costs the amount of the escrow, which is credited back once it is
stored. -/
theorem payment_release_backed (h : Wallet.Backed w) (hs : s.success = true)
    (he : Wallet.ActiveAt w job.escrowId e) :
    Wallet.Backed (payment s job w).state ∧
      (s.draw.store = .ok () → Wallet.total (payment s job w).state = Wallet.total w) ∧
      (s.draw.store ≠ .ok () →
        Wallet.total (payment s job w).state + e.amount.toNat = Wallet.total w) := by
  obtain ⟨hbacked, htotal⟩ := Wallet.releaseEscrow_backed s.draw h he
  have hpayment : payment s job = (Wallet.releaseEscrow s.draw job.escrowId >>= fun released =>
      (Wallet.credit s.creditDraw released.2.1 ("job_payment:" ++ s.jobId.val)).attempt) := by
    unfold payment
    rw [hs]
    rfl
  rw [hpayment]
  by_cases hstore : s.draw.store = .ok ()
  · obtain ⟨tx, hok⟩ := Wallet.releaseEscrow_ok he hstore
    have hfits := h.fits
    have hcredit := Wallet.credit_backed s.creditDraw e.amount ("job_payment:" ++ s.jobId.val)
      hbacked (by omega)
    rw [Action.bind_of_ok hok]
    refine ⟨hcredit.backed, fun _ => ?_, fun hno => absurd hstore hno⟩
    exact hcredit.total_eq.trans htotal
  · have hnot := Wallet.releaseEscrow_unstored job.escrowId w hstore
    rw [(Action.bind_of_not_ok hnot).2.1]
    exact ⟨hbacked, fun hok => absurd hok hstore, fun _ => htotal⟩

theorem price_eq (hjob : m.activeJobs.lookup s.jobId = some job)
    (he : Wallet.ActiveAt m.wallet job.escrowId e) : price m s.jobId = e.amount.toNat := by
  simp [price, hjob, Wallet.amountOf, he.1]

theorem paid_of_same {c : Call} (h : Wallet.BackedAt (Wallet.total m.wallet) (step cfg m c).wallet)
    (hdues : dues m c = []) :
    Wallet.Backed (step cfg m c).wallet ∧
      Wallet.total (step cfg m c).wallet + (dues m c).sum = Wallet.total m.wallet := by
  rw [hdues]
  exact ⟨h.backed, h.total_eq⟩

/-- **A settlement** pays what is due exactly when what it releases is free of charge. -/
theorem settle_paid (cfg : WalletConfig) (h : Wallet.Backed m.wallet) (s : Settlement) :
    Wallet.Backed (step cfg m (.settleJob s)).wallet ∧
      (Wallet.total (step cfg m (.settleJob s)).wallet + (dues m (.settleJob s)).sum =
        Wallet.total m.wallet ↔ FreeOfCharge m (.settleJob s)) ∧
      (FreeOfCharge m (.settleJob s) → Pays cfg m (.settleJob s)) := by
  have hstep : step cfg m (.settleJob s) = (settleJob s m).state := by
    rw [step, exec, Action.map_apply]
  unfold Pays
  rw [hstep]
  cases hjob : m.activeJobs.lookup s.jobId with
  | none =>
      have hfails : ¬ (settleJob s m).outcome.isOk := by simp [settleJob_isOk_iff, hjob]
      have hdues : dues m (.settleJob s) = [] := if_neg fun hpaid => hfails hpaid.2
      rw [settleJob_unknown hjob, hdues]
      refine ⟨h, ⟨fun _ => ?_, fun _ => rfl⟩, fun _ t ht hok => ?_⟩
      · rintro t job e ⟨⟩ - hsome
        rw [hjob] at hsome
        cases hsome
      · cases ht
        exact absurd hok hfails
  | some job =>
      rw [settleJob_wallet hjob]
      cases hs : s.success with
      | false =>
          have hrefund := payment_refund_backed job h hs
          have hdues : dues m (.settleJob s) = [] := if_neg fun hpaid => by simp [hs] at hpaid
          rw [hdues]
          refine ⟨hrefund.backed, ⟨fun _ => ?_, fun _ => hrefund.total_eq⟩, fun _ t ht _ => ?_⟩
          · rintro t job e ⟨⟩ htrue
            rw [hs] at htrue
            cases htrue
          · cases ht
            rw [hs]
            exact hrefund.total_eq
      | true =>
          by_cases hfunded : Funded m.wallet job
          · obtain ⟨e, he⟩ := hfunded
            obtain ⟨hbacked, hstored, hunstored⟩ := payment_release_backed h hs he
            have hprice := price_eq hjob he
            have hfree : FreeOfCharge m (.settleJob s) ↔ e.amount.toNat = 0 := by
              constructor
              · intro hfree
                rw [hfree s job e rfl hs hjob he]
                rfl
              · rintro hzero t d f ⟨⟩ - hd hf
                obtain rfl : job = d := Option.some.inj (hjob.symm.trans hd)
                obtain rfl : e = f := Option.some.inj (he.1.symm.trans hf.1)
                exact UInt64.toNat_inj.1 hzero
            refine ⟨hbacked, ?_, ?_⟩
            · rw [hfree]
              by_cases hstore : s.draw.store = .ok ()
              · have hdues : dues m (.settleJob s) = [price m s.jobId] :=
                  if_pos ⟨hs, settleJob_isOk_iff.2 ⟨job, hjob, ⟨e, he⟩, hstore⟩⟩
                rw [hdues, hstored hstore, hprice]
                simp
              · have hdues : dues m (.settleJob s) = [] := by
                  refine if_neg fun hpaid => ?_
                  obtain ⟨_, -, -, hok⟩ := settleJob_isOk_iff.1 hpaid.2
                  exact hstore hok
                have htotal := hunstored hstore
                rw [hdues, List.sum_nil]
                omega
            · rintro hzero t ⟨⟩ hok
              obtain ⟨_, -, -, hstore⟩ := settleJob_isOk_iff.1 hok
              rw [hstored hstore, hs, if_pos rfl, hprice, hfree.1 hzero]
              rfl
          · have hfails : ¬ (settleJob s m).outcome.isOk := by
              intro hok
              obtain ⟨d, hd, hf, -⟩ := settleJob_isOk_iff.1 hok
              obtain rfl : job = d := Option.some.inj (hjob.symm.trans hd)
              exact hfunded hf
            have hdues : dues m (.settleJob s) = [] := if_neg fun hpaid => hfails hpaid.2
            rw [payment_unfunded hfunded, hdues]
            refine ⟨h, ⟨fun _ => ?_, fun _ => rfl⟩, fun _ t ht hok => ?_⟩
            · rintro t d f ⟨⟩ - hd hf
              obtain rfl : job = d := Option.some.inj (hjob.symm.trans hd)
              exact absurd ⟨f, hf⟩ hfunded
            · cases ht
              exact absurd hok hfails

theorem step_same (cfg : WalletConfig) (h : Wallet.Backed m.wallet) {c : Call}
    (hc : JobsAndSweeps m c) (hother : ∀ s, c ≠ .settleJob s) :
    Wallet.BackedAt (Wallet.total m.wallet) (step cfg m c).wallet := by
  have hwallet : (step cfg m c).wallet = m.wallet →
      Wallet.BackedAt (Wallet.total m.wallet) (step cfg m c).wallet := by
    intro hsame
    rw [hsame]
    exact h.at_total
  cases c with
  | createRequest request => exact hwallet rfl
  | receiveBid bid =>
      refine hwallet ?_
      obtain ⟨bids, hstate⟩ := receiveBid_state bid m
      rw [step, exec, Action.map_apply, hstate]
  | acceptBid a =>
      rw [step, exec, Action.map_apply]
      rcases acceptBid_cases cfg a m with ⟨request, bid, e, -, -, hstate⟩ | ⟨-, hstate⟩
      · rw [hstate]
        exact Wallet.createEscrow_backed h
      · rcases hstate with hstate | ⟨request, bid, -, hstate⟩
        · rw [hstate]
          exact h.at_total
        · rw [hstate]
          exact Wallet.createEscrow_backed h
  | bidAccepted job => exact hwallet rfl
  | startJob now id =>
      refine hwallet ?_
      rw [step, exec, Action.map_apply]
      exact onJob_wallet ..
  | submitResult id result =>
      refine hwallet ?_
      rw [step, exec, Action.map_apply]
      exact onJob_wallet ..
  | settleJob s => exact absurd rfl (hother s)
  | wallet call =>
      obtain ⟨draw, rfl, henum⟩ := hc call rfl
      have hsweep := Wallet.sweepExpiredEscrows_backed h henum
      rw [step, exec, Action.map_apply, onWallet_state, Wallet.exec, Action.map_apply]
      exact hsweep

/-- **One call** pays what is due exactly when what it releases is free of charge. -/
theorem step_paid (cfg : WalletConfig) (h : Wallet.Backed m.wallet) {c : Call}
    (hc : JobsAndSweeps m c) :
    Wallet.Backed (step cfg m c).wallet ∧
      (Wallet.total (step cfg m c).wallet + (dues m c).sum = Wallet.total m.wallet ↔
        FreeOfCharge m c) ∧ (FreeOfCharge m c → Pays cfg m c) := by
  by_cases hsettle : ∃ s, c = .settleJob s
  · obtain ⟨s, rfl⟩ := hsettle
    exact settle_paid cfg h s
  · have hother : ∀ s, c ≠ .settleJob s := fun s hs => hsettle ⟨s, hs⟩
    have hdues : dues m c = [] := by
      cases c with
      | settleJob s => exact absurd rfl (hother s)
      | _ => rfl
    obtain ⟨hbacked, htotal⟩ := paid_of_same (step_same cfg h hc hother) hdues
    refine ⟨hbacked, ⟨fun _ s job e hs => absurd hs (hother s), fun _ => htotal⟩, ?_⟩
    intro _ s hs
    exact absurd hs (hother s)

end Step

/-! ## Every run -/

/-- **The requester pays for its completed jobs** exactly when they are free: over every
run of the job manager's calls and of sweeps, from any manager on a backed wallet. -/
theorem requester_pays_iff (cfg : WalletConfig) {m : JobManager} (h : Wallet.Backed m.wallet)
    {calls : List Call} (hruns : Along (step cfg) JobsAndSweeps m calls) :
    Along (step cfg) (Pays cfg) m calls ∧
      Always (logged (step cfg) dues) (PaidExactly (Wallet.total m.wallet)) (m, []) calls ↔
    Along (step cfg) FreeOfCharge m calls := by
  have hlaw : Always (logged (step cfg) dues) (PaidExactly (Wallet.total m.wallet)) (m, []) calls ↔
      Along (logged (step cfg) dues) (fun s => FreeOfCharge s.1) (m, []) calls := by
    refine always_iff_along (R := fun s => JobsAndSweeps s.1)
      (I := fun s => Wallet.Backed s.1.wallet ∧ PaidExactly (Wallet.total m.wallet) s)
      (fun s hs => hs.2) ?_ ?_ ⟨h, rfl⟩ ((along_logged ..).2 hruns)
    · rintro ⟨m', log⟩ c ⟨hbacked, hpaid⟩ hc
      rw [← (step_paid cfg hbacked hc).2.1]
      simp only [PaidExactly, logged, List.sum_append] at hpaid ⊢
      omega
    · rintro ⟨m', log⟩ c ⟨hbacked, -⟩ hc hpaid
      exact ⟨(step_paid cfg hbacked hc).1, hpaid⟩
  rw [hlaw, along_logged]
  refine ⟨fun hboth => hboth.2, fun hfree => ⟨?_, hfree⟩⟩
  have hboth : Along (step cfg) (fun m c => JobsAndSweeps m c ∧ FreeOfCharge m c) m calls :=
    along_and.2 ⟨hruns, hfree⟩
  refine along_of_inv (I := fun m => Wallet.Backed m.wallet) ?_ h hboth
  intro m' c hbacked hc
  obtain ⟨hnext, -, hpays⟩ := step_paid cfg hbacked hc.1
  exact ⟨hnext, hpays hc.2⟩

section Example

open Sample

/-- A job is created, gets a bid, which is accepted, and is completed. -/
private def completing (price : UInt64) : List Call :=
  [.createRequest request, .receiveBid (bid "b" "bob" price),
    .acceptBid (acceptance "b" "e" (.ok ())), .settleJob (settlement true)]

private theorem funds_backed : Wallet.Backed (JobManager.new funds).wallet :=
  ⟨by decide, by decide⟩

private theorem completing_jobs (price : UInt64) :
    Along (step config) JobsAndSweeps (.new funds) (completing price) := by
  refine ⟨?_, ?_, ?_, ?_, trivial⟩ <;> rintro call ⟨⟩

private theorem free_other {m : JobManager} {c : Call} (h : ∀ s, c ≠ .settleJob s) :
    FreeOfCharge m c :=
  fun s _ _ hs => absurd hs (h s)

theorem requester_pays_free :
    Along (step config) (Pays config) (.new funds) (completing 0) ∧
      Always (logged (step config) dues) (PaidExactly (Wallet.total (JobManager.new funds).wallet))
        (.new funds, []) (completing 0) := by
  refine (requester_pays_iff config funds_backed (completing_jobs 0)).2
    ⟨free_other (by rintro s ⟨⟩), free_other (by rintro s ⟨⟩), free_other (by rintro s ⟨⟩), ?_,
      trivial⟩
  rintro s job e ⟨⟩ - hjob he
  have hescrow : some ⟨"e"⟩ = some job.escrowId := congrArg (Option.map Job.escrowId) hjob
  have hlookup := he.1
  rw [← Option.some.inj hescrow] at hlookup
  exact (Option.some.inj (congrArg (Option.map Escrow.amount) hlookup)).symm

/-- **The payment comes back**: bob completes a job for forty, his escrow is released, and
the requester's total is the hundred it was. -/
theorem payment_returns :
    Along (step config) JobsAndSweeps (.new funds) (completing 40) ∧
      (run (step config) (.new funds) (completing 40)).completedJobs.map Job.status = [.completed] ∧
      Wallet.total (run (step config) (.new funds) (completing 40)).wallet = 100 ∧
      ¬ Along (step config) (Pays config) (.new funds) (completing 40) ∧
      ¬ Always (logged (step config) dues)
        (PaidExactly (Wallet.total (JobManager.new funds).wallet)) (.new funds, [])
        (completing 40) := by
  refine ⟨completing_jobs 40, by decide, by decide, ?_, ?_⟩
  · rintro ⟨-, -, -, hpays, -⟩
    have hpaid := hpays (settlement true) rfl rfl
    revert hpaid
    decide
  · intro h
    have hlast := h.last
    revert hlast
    unfold PaidExactly
    decide

end Example

end Jobs
end PeerClaw
