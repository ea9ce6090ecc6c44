import PeerClaw.Job.Places

/-!
# Every job has one active escrow, and it is on record

`accept_bid` reads the request, creates the escrow and only then removes the
request and stores the job, under separate locks.

* `racing_acceptances` — two acceptances of one job both find the request and
  both lock the price; the second overwrites the job of the first, whose escrow
  stays active.
* `one_escrow_on_record` — in every interleaving in which an escrow for a job is
  created only when no active one is on record or in the hands of another call,
  and none is created outside `accept_bid`, a job has one active escrow at most,
  and whenever nothing is in flight it is the one recorded in `active_jobs`.

The invariant is about ownership: an active escrow of a job is recorded with the
job, or some call in flight is on its way to record or to resolve it.
-/

namespace PeerClaw
namespace Jobs

open Lib Lib.Machine

/-! ## Whose an escrow is -/

/-- The escrow is active and one for the job. -/
def JobEscrow (w : WalletState) (id : JobId) (i : EscrowId) : Prop :=
  ∃ e, Wallet.ActiveAt w i e ∧ e.jobId = id.val

/-- The escrow is recorded with the active job. -/
def Recorded (m : JobManager) (id : JobId) (i : EscrowId) : Prop :=
  ∃ job, m.activeJobs.lookup id = some job ∧ job.escrowId = i

/-- No job has two active escrows. -/
def OneEscrow (w : World) : Prop :=
  ∀ id ∈ w.created, ∀ i j, JobEscrow w.manager.wallet id i → JobEscrow w.manager.wallet id j → i = j

/-- The active escrows of jobs are on record. -/
def OnRecord (w : World) : Prop :=
  ∀ id ∈ w.created, ∀ i, JobEscrow w.manager.wallet id i → Recorded w.manager id i

/-- The task is on its way to record the escrow with the job, or to resolve it. -/
def Task.Holds : Task → JobId → EscrowId → Prop
  | .acceptSave a _ _ e, id, i => a.jobId = id ∧ e.id = i
  | .acceptDrop j job, id, i | .acceptDropBids j job, id, i | .acceptStore j job, id, i =>
      j = id ∧ job.escrowId = i
  | .settleResolve s job, id, i => s.jobId = id ∧ job.escrowId = i
  | _, _, _ => False

/-- The call may create an escrow for the job. -/
def Call.MayLock (id : JobId) : Call → Prop
  | .acceptBid a => a.jobId = id
  | .wallet (.createEscrow _ _ _ jobId _) => jobId = id.val
  | _ => False

/-- **What a whole call makes active** among the escrows of a job is one that it creates
for it. -/
theorem step_jobEscrow {cfg : WalletConfig} {m : JobManager} {c : Call} {id : JobId}
    {i : EscrowId} (h : JobEscrow (step cfg m c).wallet id i) :
    JobEscrow m.wallet id i ∨ c.MayLock id := by
  have hsame : (step cfg m c).wallet = m.wallet → JobEscrow m.wallet id i := by
    intro heq
    rw [← heq]
    exact h
  have hlocked : ∀ a request bid, c = .acceptBid a →
      (step cfg m c).wallet = (lockPrice cfg a request bid m.wallet).state →
        JobEscrow m.wallet id i ∨ c.MayLock id := by
    rintro a request bid rfl heq
    rw [heq] at h
    obtain ⟨e, hactive, hjob⟩ := h
    rcases Wallet.createEscrow_active hactive with hold | hfor
    · exact .inl ⟨e, hold, hjob⟩
    · exact .inr (JobId.eq_of_val (hfor.symm.trans hjob))
  cases c with
  | createRequest request => exact .inl (hsame rfl)
  | receiveBid bid =>
      refine .inl (hsame ?_)
      obtain ⟨bids, hstate⟩ := receiveBid_state bid m
      rw [step, exec, Action.map_apply, hstate]
  | acceptBid a =>
      have hstep : (step cfg m (.acceptBid a)).wallet = (acceptBid cfg a m).state.wallet := by
        rw [step, exec, Action.map_apply]
      rcases acceptBid_cases cfg a m with ⟨request, bid, escrow, -, -, hstate⟩ | ⟨-, hstate⟩
      · exact hlocked a request bid rfl (by rw [hstep, hstate]; rfl)
      · rcases hstate with hstate | ⟨request, bid, -, hstate⟩
        · exact .inl (hsame (by rw [hstep, hstate]))
        · exact hlocked a request bid rfl (by rw [hstep, hstate])
  | bidAccepted job => exact .inl (hsame rfl)
  | startJob now j =>
      refine .inl (hsame ?_)
      rw [step, exec, Action.map_apply]
      exact onJob_wallet ..
  | submitResult j result =>
      refine .inl (hsame ?_)
      rw [step, exec, Action.map_apply]
      exact onJob_wallet ..
  | settleJob s =>
      left
      have hstep : (step cfg m (.settleJob s)).wallet = (settleJob s m).state.wallet := by
        rw [step, exec, Action.map_apply]
      cases hjob : m.activeJobs.lookup s.jobId with
      | none => exact hsame (by rw [hstep, settleJob_unknown hjob])
      | some job =>
          rw [hstep, settleJob_wallet hjob] at h
          obtain ⟨e, hactive, hfor⟩ := h
          exact ⟨e, payment_shrinks s job m.wallet i e hactive, hfor⟩
  | wallet call =>
      have hstep : (step cfg m (.wallet call)).wallet = Wallet.step cfg m.wallet call := by
        rw [step, exec, Action.map_apply]
        rfl
      rw [hstep] at h
      obtain ⟨e, hactive, hfor⟩ := h
      rcases Wallet.step_active hactive with hold | ⟨draw, amount, timeoutSecs, rfl, -⟩
      · exact .inl ⟨e, hold, hfor⟩
      · exact .inr hfor

/-! ## The condition on a run -/

/-- The next section of the task creates an escrow for the job it accepts a bid for. -/
def Task.Locks (cfg : WalletConfig) (m : JobManager) (t : Task) (id : JobId) (i : EscrowId) : Prop :=
  ∃ a request bid e, t = .acceptEscrow a request bid ∧ a.jobId = id ∧ e.id = i ∧
    Wallet.Affords cfg m.wallet bid.price ∧ Escrow.new a.draw.now a.draw.escrowId bid.price
      bid.bidderId a.jobId.val request.timeoutSecs = some e

/-- The next section of the task leaves a job with one escrow, and that on record. -/
structure Exclusive (cfg : WalletConfig) (p : JobPool) (t : Task) : Prop where
  /-- A new job has a fresh id: no escrow is for it. -/
  fresh : ∀ request, t = .createStore request →
    ∀ i, ¬ JobEscrow p.shared.manager.wallet request.id i
  /-- When an escrow is created for a job, no active one is on record with the job or in
  the hands of another call, -/
  single : ∀ id i, t.Locks cfg p.shared.manager id i →
    ∀ j, JobEscrow p.shared.manager.wallet id j → ¬ Recorded p.shared.manager id j ∧
      ∀ k t', p.taskAt k = some t' → ¬ t'.Holds id j
  /-- and none outside `accept_bid`. -/
  others : ∀ c, t = .wallet (.commit c) → ∀ id ∈ p.shared.created, ∀ i recipient,
    ¬ c.Creates cfg p.shared.manager.wallet i recipient id.val
  /-- The database stores the wallet with the new escrow, if it is still active. -/
  saved : ∀ a request bid e, t = .acceptSave a request bid e →
    JobEscrow p.shared.manager.wallet a.jobId e.id → a.draw.store = .ok ()
  /-- A job is stored only over one that has no other active escrow. -/
  stored : ∀ id job, t = .acceptStore id job → ∀ i, Recorded p.shared.manager id i →
    JobEscrow p.shared.manager.wallet id i → i = job.escrowId

/-- The condition on a move: a call other than `bid_accepted` starts at its beginning,
or a section runs that is exclusive. -/
def MoveExclusive (cfg : WalletConfig) (p : JobPool) : Move Task → Prop
  | .start t => ∃ c : Call, (∀ job, c ≠ .bidAccepted job) ∧ t = c.task
  | .resume k => ∀ t, p.taskAt k = some t → Exclusive cfg p t

/-! ## What a section does to the escrows -/

section Escrows

variable {cfg : WalletConfig} {m m' : JobManager} {t : Task} {t' : Option Task} {id : JobId}
  {i : EscrowId}

/-- What a section makes active among the escrows of jobs is the one it creates. -/
theorem Turns.jobEscrow (h : Turns cfg m t m' t') (hi : JobEscrow m'.wallet id i) :
    JobEscrow m.wallet id i ∨ (t.Locks cfg m id i ∧ ∃ u, t' = some u ∧ u.Holds id i) ∨
      ∃ c recipient, t = .wallet (.commit c) ∧ c.Creates cfg m.wallet i recipient id.val := by
  obtain ⟨e, hactive, hjob⟩ := hi
  have hold : Wallet.ActiveAt m.wallet i e → JobEscrow m.wallet id i := fun h => ⟨e, h, hjob⟩
  cases h with
  | escrow a request bid d w hnew haffords hescrows =>
      obtain ⟨-, -, -, hdjob, -⟩ := Escrow.new_some hnew
      have hlookup : w.escrows.lookup i = some e := hactive.1
      rw [hescrows, Finmap.lookup_insert_eq] at hlookup
      by_cases hid : i = d.id
      · rw [if_pos hid] at hlookup
        obtain rfl : d = e := Option.some.inj hlookup
        have hjobId : a.jobId = id := JobId.eq_of_val (hdjob.symm.trans hjob)
        exact .inr (.inl ⟨⟨a, request, bid, d, rfl, hjobId, hid.symm, haffords, hnew⟩,
          _, rfl, hjobId, hid.symm⟩)
      · rw [if_neg hid] at hlookup
        exact .inl (hold ⟨hlookup, hactive.2⟩)
  | resolve s job amount w hfunded hresolves =>
      exact .inl (hold (hresolves.shrinks i e hactive))
  | credit s job amount w hescrows =>
      exact .inl (hold (Wallet.Shrinks.of_escrows hescrows i e hactive))
  | wallet t =>
      rcases Wallet.advance_active hactive with h | ⟨c, rfl, hc⟩
      · exact .inl (hold h)
      · rw [hjob] at hc
        exact .inr (.inr ⟨c, _, rfl, hc⟩)
  | stop t w hstop hshrinks => exact .inl (hold (hshrinks i e hactive))
  | _ => exact .inl (hold hactive)

theorem Task.Locks.unique {j : EscrowId} {id' : JobId} (hi : t.Locks cfg m id i)
    (hj : t.Locks cfg m id' j) : i = j := by
  obtain ⟨a, request, bid, e, rfl, -, rfl, -, hnew⟩ := hi
  obtain ⟨a', request', bid', e', heq, -, rfl, -, hnew'⟩ := hj
  cases heq
  rw [hnew] at hnew'
  cases hnew'
  rfl

theorem Recorded.rewrite {job job' : Job} (hjob : m.activeJobs.lookup id = some job)
    (hescrow : job'.escrowId = job.escrowId) {id' : JobId} (h : Recorded m id' i) :
    Recorded { m with activeJobs := m.activeJobs.insert id job' } id' i := by
  obtain ⟨d, hd, rfl⟩ := h
  by_cases hid : id' = id
  · subst hid
    rw [hjob] at hd
    cases hd
    exact ⟨job', by simp, hescrow⟩
  · refine ⟨d, ?_, rfl⟩
    rw [Finmap.lookup_insert_eq, if_neg hid]
    exact hd

/-- **An escrow stays on record**, or in the hands of the task whose section it is. -/
theorem Turns.owner {p : JobPool} (h : Turns cfg p.shared.manager t m' t')
    (hexclusive : Exclusive cfg p t) (hcall : ∀ job, t ≠ .announce job)
    (hbefore : JobEscrow p.shared.manager.wallet id i) (hafter : JobEscrow m'.wallet id i)
    (howner : Recorded p.shared.manager id i ∨ t.Holds id i) :
    Recorded m' id i ∨ ∃ u, t' = some u ∧ u.Holds id i := by
  cases h with
  | save a request bid e hstore =>
      rcases howner with hrec | hholds
      · exact .inl hrec
      · exact .inr ⟨_, rfl, hholds⟩
  | unsaved a request bid e hstore =>
      rcases howner with hrec | ⟨rfl, rfl⟩
      · exact .inl hrec
      · exact absurd (hexclusive.saved a request bid e rfl hbefore) hstore
  | drop j job =>
      rcases howner with hrec | hholds
      · exact .inl hrec
      · exact .inr ⟨_, rfl, hholds⟩
  | dropBids j job =>
      rcases howner with hrec | hholds
      · exact .inl hrec
      · exact .inr ⟨_, rfl, hholds⟩
  | store j job =>
      left
      by_cases hid : id = j
      · subst hid
        have hi : job.escrowId = i := by
          rcases howner with hrec | ⟨-, hi⟩
          · exact (hexclusive.stored id job rfl i hrec hbefore).symm
          · exact hi
        exact ⟨job, by simp, hi⟩
      · rcases howner with ⟨d, hd, hdi⟩ | ⟨rfl, -⟩
        · refine ⟨d, ?_, hdi⟩
          rw [Finmap.lookup_insert_eq, if_neg hid]
          exact hd
        · exact absurd rfl hid
  | announce job => exact absurd rfl (hcall job)
  | start now j job hjob =>
      rcases howner with hrec | hholds
      · have hsame : (started now job).escrowId = job.escrowId := rfl
        exact .inl (hrec.rewrite hjob hsame)
      · exact hholds.elim
  | submit j result job hjob =>
      rcases howner with hrec | hholds
      · have hsame : (withResult result job).escrowId = job.escrowId := rfl
        exact .inl (hrec.rewrite hjob hsame)
      · exact hholds.elim
  | take s job hjob =>
      rcases howner with ⟨d, hd, hdi⟩ | hholds
      · by_cases hid : id = s.jobId
        · subst hid
          rw [hjob] at hd
          cases hd
          exact .inr ⟨_, rfl, rfl, hdi⟩
        · left
          refine ⟨d, ?_, hdi⟩
          rw [Finmap.lookup_erase_eq, if_neg hid]
          exact hd
      · exact hholds.elim
  | resolve s job amount w hfunded hresolves =>
      rcases howner with hrec | ⟨rfl, rfl⟩
      · exact .inl hrec
      · obtain ⟨e, he, -⟩ := hafter
        exact absurd he hresolves.not_active
  | unresolved s job hno =>
      rcases howner with hrec | ⟨rfl, rfl⟩
      · exact .inl hrec
      · obtain ⟨e, he, -⟩ := hbefore
        exact absurd ⟨e, he⟩ hno
  | stop t w hstop hshrinks =>
      rcases howner with hrec | hholds
      · exact .inl hrec
      · cases t <;> first | exact hstop.elim | exact hholds.elim
  | _ =>
      rcases howner with hrec | hholds
      · exact .inl hrec
      · exact hholds.elim

end Escrows

/-! ## The invariant -/

/-- Every active escrow of a job is the only one, and has an owner. -/
structure Owned (p : JobPool) : Prop where
  one : OneEscrow p.shared
  owner : ∀ id ∈ p.shared.created, ∀ i, JobEscrow p.shared.manager.wallet id i →
    Recorded p.shared.manager id i ∨ ∃ k t, p.taskAt k = some t ∧ t.Holds id i
  calls : ∀ k t, p.taskAt k = some t → ∀ job, t ≠ .announce job

section Invariant

variable {cfg : WalletConfig} {p : JobPool} {k : ℕ} {t : Task}

theorem Turns.not_announce {m m' : JobManager} {t' : Option Task} (h : Turns cfg m t m' t') :
    ∀ u, t' = some u → ∀ job, u ≠ .announce job := by
  rintro u rfl job rfl
  generalize hnext : some (Task.announce job) = next at h
  cases h with
  | settleSave s d amount hstore =>
      unfold afterSave at hnext
      split at hnext <;> cases hnext
  | wallet t =>
      obtain ⟨_, -, hu⟩ := Option.map_eq_some_iff.1 hnext.symm
      cases hu
  | _ => cases hnext

/-- Where an escrow of a known job comes from: it was active before, or it is the one
that the section creates for the job. -/
theorem jobEscrow_resume (hexclusive : Exclusive cfg p t) {id : JobId} {i : EscrowId}
    (hid : id ∈ p.shared.created)
    (hi : JobEscrow (resume cfg t p.shared.manager).state.wallet id i) :
    JobEscrow p.shared.manager.wallet id i ∨ (t.Locks cfg p.shared.manager id i ∧
      ∃ u, (advance cfg p.shared t).2 = some u ∧ u.Holds id i) := by
  rcases (turns cfg p.shared.manager t).jobEscrow hi with h | h | ⟨c, recipient, rfl, hc⟩
  · exact .inl h
  · exact .inr h
  · exact absurd hc (hexclusive.others c rfl id hid i recipient)

theorem no_jobEscrow_of_created (hexclusive : Exclusive cfg p t) {id : JobId}
    (hid : id ∈ t.creates) (i : EscrowId) :
    ¬ JobEscrow (resume cfg t p.shared.manager).state.wallet id i := by
  cases t with
  | createStore request =>
      rw [List.mem_singleton.1 hid]
      exact hexclusive.fresh request rfl i
  | _ => cases hid

/-- Where every active escrow has an owner, none is created for a job that has one. -/
theorem Owned.single (h : Owned p) (hexclusive : Exclusive cfg p t) {id : JobId} {i j : EscrowId}
    (hid : id ∈ p.shared.created) (hlocks : t.Locks cfg p.shared.manager id i) :
    ¬ JobEscrow p.shared.manager.wallet id j := by
  intro hj
  obtain ⟨hunrecorded, hfree⟩ := hexclusive.single id i hlocks j hj
  rcases h.owner id hid j hj with hrec | ⟨k, t', hk, hholds⟩
  · exact hunrecorded hrec
  · exact hfree k t' hk hholds

theorem owned_resume (ht : p.taskAt k = some t) (hexclusive : Exclusive cfg p t) (h : Owned p) :
    Owned (p.step (advance cfg) (.resume k)) where
  one := by
    intro id hid i j hi hj
    rw [Pool.shared_resume ht] at hid hi hj
    rcases List.mem_append.1 hid with hid | hid
    · rcases jobEscrow_resume hexclusive hid hi with hi | hi <;>
        rcases jobEscrow_resume hexclusive hid hj with hj | hj
      · exact h.one id hid i j hi hj
      · exact absurd hi (h.single hexclusive hid hj.1)
      · exact absurd hj (h.single hexclusive hid hi.1)
      · exact hi.1.unique hj.1
    · exact absurd hi (no_jobEscrow_of_created hexclusive hid i)
  owner := by
    intro id hid i hi
    rw [Pool.shared_resume ht] at hid hi ⊢
    have hplaces : ∀ j, (p.step (advance cfg) (.resume k)).taskAt j =
        if j = k then (advance cfg p.shared t).2 else p.taskAt j := Pool.taskAt_resume ht
    rcases List.mem_append.1 hid with hid | hid
    · have hleft : (∃ u, (advance cfg p.shared t).2 = some u ∧ u.Holds id i) →
          ∃ j u, (p.step (advance cfg) (.resume k)).taskAt j = some u ∧ u.Holds id i := by
        rintro ⟨u, hu, hholds⟩
        exact ⟨k, u, by rw [hplaces, if_pos rfl, hu], hholds⟩
      rcases jobEscrow_resume hexclusive hid hi with hbefore | ⟨-, hu⟩
      · have howner := (turns cfg p.shared.manager t).owner hexclusive (h.calls k t ht) hbefore hi
        rcases h.owner id hid i hbefore with hrec | ⟨j, u, hj, hholds⟩
        · rcases howner (.inl hrec) with hrec | hu
          · exact .inl hrec
          · exact .inr (hleft hu)
        · by_cases hjk : j = k
          · subst hjk
            rw [ht] at hj
            cases hj
            rcases howner (.inr hholds) with hrec | hu
            · exact .inl hrec
            · exact .inr (hleft hu)
          · exact .inr ⟨j, u, by rw [hplaces, if_neg hjk, hj], hholds⟩
      · -- the escrow is new, and the task that created it has it
        exact .inr (hleft hu)
    · exact absurd hi (no_jobEscrow_of_created hexclusive hid i)
  calls := by
    intro j u hj
    rw [Pool.taskAt_resume ht] at hj
    split at hj
    · exact (turns cfg p.shared.manager t).not_announce u hj
    · exact h.calls j u hj

theorem owned_start {c : Call} (hc : ∀ job, c ≠ .bidAccepted job) (h : Owned p) :
    Owned (p.step (advance cfg) (.start c.task)) where
  one := h.one
  owner := by
    intro id hid i hi
    rcases h.owner id hid i hi with hrec | ⟨k, t, hk, hholds⟩
    · exact .inl hrec
    · refine .inr ⟨k, t, ?_, hholds⟩
      rw [Pool.taskAt_start, if_neg (Nat.ne_of_lt (Pool.lt_length_of_taskAt hk))]
      exact hk
  calls := by
    intro k t hk
    rw [Pool.taskAt_start] at hk
    split at hk
    · cases hk
      rintro job hjob
      cases c <;> cases hjob
      exact hc job rfl
    · exact h.calls k t hk

theorem owned_step (cfg : WalletConfig) (p : JobPool) (move : Move Task) (h : Owned p)
    (hmove : MoveExclusive cfg p move) : Owned (p.step (advance cfg) move) := by
  cases move with
  | start t =>
      obtain ⟨c, hc, rfl⟩ := hmove
      exact owned_start hc h
  | resume k =>
      cases hk : p.taskAt k with
      | none =>
          rw [Pool.step_resume_none hk]
          exact h
      | some t => exact owned_resume hk (hmove t hk) h

theorem owned_idle (wallet : WalletState) : Owned (idle wallet) where
  one := by
    intro id hid
    cases hid
  owner := by
    intro id hid
    cases hid
  calls := by
    intro k t hk
    cases hk

/-- Where nothing is in flight, every active escrow of a job is on record. -/
theorem Owned.on_record (h : Owned p) (hquiet : p.Quiescent) : OnRecord p.shared := by
  intro id hid i hi
  rcases h.owner id hid i hi with hrec | ⟨k, t, hk, -⟩
  · exact hrec
  · rw [Pool.taskAt_eq_none_of_quiescent hquiet] at hk
    cases hk

end Invariant

/-! ## Every interleaving -/

/-- **A job has one active escrow at most, and whenever nothing is in flight it is on
record**: in every interleaving of calls, from a new manager on any wallet, in
which every section is exclusive. -/
theorem one_escrow_on_record (cfg : WalletConfig) (wallet : WalletState) {moves : List (Move Task)}
    (h : Along (Pool.step (advance cfg)) (MoveExclusive cfg) (idle wallet) moves) :
    Always (Pool.step (advance cfg))
      (fun p => OneEscrow p.shared ∧ (p.Quiescent → OnRecord p.shared)) (idle wallet) moves := by
  have howned := always_of_inv (owned_step cfg) (owned_idle wallet) h
  intro pre post hsplit
  have hp := howned pre post hsplit
  exact ⟨hp.one, hp.on_record⟩

section Example

open Sample

/-- The job is created and gets a bid, which is accepted. -/
private def acceptingOnce : List (Move Task) :=
  calling 0 2 (.createRequest request) ++ calling 1 1 (.receiveBid (bid "b" "bob" 40)) ++
    calling 2 8 (.acceptBid (acceptance "b" "e" (.ok ())))

/-- The section has nothing to do with the escrows of jobs. -/
private def Neutral : Task → Prop
  | .createStore _ | .acceptEscrow _ _ _ | .acceptSave _ _ _ _ | .acceptStore _ _ | .wallet _ => False
  | _ => True

section Moves

variable {cfg : WalletConfig} {p : JobPool} {k : ℕ}

private theorem no_jobEscrow {w : WalletState} (h : w.escrows = ∅) (id : JobId) (i : EscrowId) :
    ¬ JobEscrow w id i := by
  rintro ⟨e, ⟨he, -⟩, -⟩
  have hlookup : w.escrows.lookup i = some e := he
  rw [h, Finmap.lookup_empty] at hlookup
  cases hlookup

private theorem exclusive_neutral {t : Task} (ht : p.taskAt k = some t) (h : Neutral t) :
    MoveExclusive cfg p (.resume k) := by
  intro t' ht'
  rw [ht] at ht'
  cases ht'
  refine ⟨?_, ?_, ?_, ?_, ?_⟩
  · rintro request rfl
    exact h.elim
  · rintro id i ⟨a, request, bid, e, rfl, -⟩
    exact h.elim
  · rintro c rfl
    exact h.elim
  · rintro a request bid e rfl
    exact h.elim
  · rintro id job rfl
    exact h.elim

/-- A request is stored, or an escrow created, in a wallet without escrows. -/
private theorem exclusive_first {t : Task} (ht : p.taskAt k = some t)
    (hwallet : p.shared.manager.wallet.escrows = ∅)
    (h : (∃ request, t = .createStore request) ∨ ∃ a request bid, t = .acceptEscrow a request bid) :
    MoveExclusive cfg p (.resume k) := by
  intro t' ht'
  rw [ht] at ht'
  cases ht'
  have hno := no_jobEscrow hwallet
  refine ⟨fun request _ i => hno request.id i, fun id i _ j hj => absurd hj (hno id j), ?_, ?_,
    fun id job _ i _ hi => absurd hi (hno id i)⟩
  · rintro c rfl
    rcases h with ⟨_, h⟩ | ⟨_, _, _, h⟩ <;> cases h
  · rintro a request bid e rfl
    rcases h with ⟨_, h⟩ | ⟨_, _, _, h⟩ <;> cases h

private theorem exclusive_save {a : Acceptance} {request : JobRequest} {bid : JobBid} {e : Escrow}
    (ht : p.taskAt k = some (.acceptSave a request bid e)) (hstore : a.draw.store = .ok ()) :
    MoveExclusive cfg p (.resume k) := by
  intro t' ht'
  rw [ht] at ht'
  cases ht'
  refine ⟨?_, ?_, ?_, ?_, ?_⟩
  · rintro request ⟨⟩
  · rintro id i ⟨a, request, bid, e, h, -⟩
    cases h
  · rintro c ⟨⟩
  · rintro a request bid e ⟨⟩ -
    exact hstore
  · rintro id job ⟨⟩

private theorem exclusive_store {id : JobId} {job : Job}
    (ht : p.taskAt k = some (.acceptStore id job)) (hactive : p.shared.manager.activeJobs = ∅) :
    MoveExclusive cfg p (.resume k) := by
  intro t' ht'
  rw [ht] at ht'
  cases ht'
  refine ⟨?_, ?_, ?_, ?_, ?_⟩
  · rintro request ⟨⟩
  · rintro id i ⟨a, request, bid, e, h, -⟩
    cases h
  · rintro c ⟨⟩
  · rintro a request bid e ⟨⟩
  · rintro id job ⟨⟩ i ⟨d, hd, -⟩
    rw [hactive, Finmap.lookup_empty] at hd
    cases hd

end Moves

private theorem accepting_exclusive :
    Along (Pool.step (advance config)) (MoveExclusive config) (idle funds) acceptingOnce := by
  have hcall : ∀ c : Call, (∀ job, c ≠ .bidAccepted job) →
      ∃ c' : Call, (∀ job, c' ≠ .bidAccepted job) ∧ c.task = c'.task := fun c hc => ⟨c, hc, rfl⟩
  refine ⟨hcall (.createRequest request) (by rintro job ⟨⟩),
    exclusive_first rfl rfl (.inl ⟨_, rfl⟩), exclusive_neutral rfl trivial,
    hcall (.receiveBid _) (by rintro job ⟨⟩), exclusive_neutral rfl trivial,
    hcall (.acceptBid _) (by rintro job ⟨⟩), exclusive_neutral rfl trivial,
    exclusive_neutral rfl trivial, exclusive_neutral rfl trivial,
    exclusive_first rfl rfl (.inr ⟨_, _, _, rfl⟩), exclusive_save rfl rfl,
    exclusive_neutral rfl trivial, exclusive_neutral rfl trivial, exclusive_store rfl rfl, trivial⟩

theorem one_escrow_on_record_accepted :
    OneEscrow (run (Pool.step (advance config)) (idle funds) acceptingOnce).shared ∧
      OnRecord (run (Pool.step (advance config)) (idle funds) acceptingOnce).shared := by
  have hlast := (one_escrow_on_record config funds accepting_exclusive).last
  exact ⟨hlast.1, hlast.2 (by decide)⟩

/-- Two calls accept the bid; the second has found both the request and the bid before
the first takes them out. -/
private def racing : List (Move Task) :=
  calling 0 2 (.createRequest request) ++ calling 1 1 (.receiveBid (bid "b" "bob" 40)) ++
    calling 2 2 (.acceptBid (acceptance "b" "e" (.ok ()))) ++
    calling 3 8 (.acceptBid (acceptance "b" "f" (.ok ()))) ++ List.replicate 6 (.resume 2)

private theorem racing_fresh :
    Along (Pool.step (advance config)) MoveFresh (idle funds) racing := by
  refine ⟨⟨.createRequest request, trivial, rfl⟩, .create rfl (by decide), .plain rfl rfl,
    ⟨.receiveBid _, trivial, rfl⟩, .plain rfl rfl,
    ⟨.acceptBid _, trivial, rfl⟩, .plain rfl rfl, .plain rfl rfl,
    ⟨.acceptBid _, trivial, rfl⟩, .plain rfl rfl, .plain rfl rfl, .plain rfl rfl, .plain rfl rfl,
    .plain rfl rfl, .plain rfl rfl, .plain rfl rfl, .plain rfl rfl, .plain rfl rfl, .plain rfl rfl,
    .plain rfl rfl, .plain rfl rfl, .plain rfl rfl, .plain rfl rfl, trivial⟩

/-- **Two acceptances of one job**: both lock its price, and the job is stored twice; the
escrow of the one stored first stays active and is recorded nowhere. -/
theorem racing_acceptances :
    Along (Pool.step (advance config)) MoveFresh (idle funds) racing ∧
      ¬ OneEscrow (run (Pool.step (advance config)) (idle funds) racing).shared ∧
      ¬ OnRecord (run (Pool.step (advance config)) (idle funds) racing).shared := by
  have hcreated : jobId ∈ (run (Pool.step (advance config)) (idle funds) racing).shared.created := by
    decide
  have hescrow : ∀ name ∈ ["e", "f"],
      JobEscrow (run (Pool.step (advance config)) (idle funds) racing).shared.manager.wallet jobId
        ⟨name⟩ := by
    intro name hname
    rcases List.mem_pair.1 hname with rfl | rfl
    · exact ⟨_, ⟨rfl, rfl⟩, rfl⟩
    · exact ⟨_, ⟨rfl, rfl⟩, rfl⟩
  refine ⟨racing_fresh, ?_, ?_⟩
  · intro hone
    have heq := hone jobId hcreated ⟨"e"⟩ ⟨"f"⟩ (hescrow "e" (by simp)) (hescrow "f" (by simp))
    revert heq
    decide
  · intro hrecord
    obtain ⟨job, hjob, hescrowId⟩ := hrecord jobId hcreated ⟨"f"⟩ (hescrow "f" (by simp))
    have hlookup : (run (Pool.step (advance config)) (idle funds)
        racing).shared.manager.activeJobs.lookup jobId =
          some (.new .epoch request (bid "b" "bob" 40) ⟨"e"⟩) := rfl
    rw [hlookup] at hjob
    cases hjob
    revert hescrowId
    decide

end Example

end Jobs
end PeerClaw
