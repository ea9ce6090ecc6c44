import PeerClaw.Job.Sections
import PeerClaw.Job.Selection

/-!
# What an acceptance may cost

The bids for a job come from the network.  An honest bidder keeps within the
budget of the request (`evaluate_request`), and the requester never looks:
neither `receive_bid` nor a selection nor `accept_bid` compares a price with
`max_budget`.

* `acceptances_within_budget_iff` — in every interleaving, every escrow that
  `accept_bid` creates is within the budget of the request it was created for,
  and its bid had not expired when it was selected, exactly when every bid that
  the wallet is about to lock funds for is.
* `budget_exceeded` — `RemoteExecutor` selects the only bid there is, at more
  than the budget.

That the bid had not expired needs no condition: `accept_bid` checks it after
the selection, and a bid that has expired stays so.
-/

namespace PeerClaw
namespace Jobs

open Lib Lib.Machine

/-! ## What an acceptance should keep -/

/-- The pool, and the requests stored so far. -/
abbrev LoggedPool := JobPool × List JobRequest

/-- The request that the next section stores. -/
def Task.stored : Task → List JobRequest
  | .createStore request => [request]
  | _ => []

/-- The request that a move stores. -/
def stores (p : JobPool) : Move Task → List JobRequest
  | .start _ => []
  | .resume k => ((p.taskAt k).map Task.stored).getD []

/-- The escrow that the next section of `accept_bid` creates. -/
def locks (cfg : WalletConfig) (w : WalletState) (a : Acceptance) (request : JobRequest)
    (bid : JobBid) : Outcome WalletError Escrow :=
  (Wallet.createEscrowLocked cfg a.draw bid.price bid.bidderId a.jobId.val request.timeoutSecs
    w).outcome

/-- An escrow created through `accept_bid` is for a request stored under that job id and
within its budget, and for a bid under the id asked for that had not expired at any
instant up to the check: it may have been selected at any of them. -/
def WithinBudget (cfg : WalletConfig) (s : LoggedPool) : Move Task → Prop
  | .start _ => True
  | .resume k => ∀ a request bid e, s.1.taskAt k = some (.acceptEscrow a request bid) →
      locks cfg s.1.shared.manager.wallet a request bid = .ok e →
      (request ∈ s.2 ∧ request.id = a.jobId) ∧ e.amount ≤ request.maxBudget ∧
        bid.id = a.bidId ∧ ∀ selectedAt ≤ a.checkedAt, bid.isExpired selectedAt = false

/-! ## The condition on a run -/

/-- A bid that the wallet is about to lock funds for, and can, is within the budget. -/
def PricedWithin (cfg : WalletConfig) (p : JobPool) : Move Task → Prop
  | .start _ => True
  | .resume k => ∀ a request bid, p.taskAt k = some (.acceptEscrow a request bid) →
      Wallet.Affords cfg p.shared.manager.wallet bid.price →
      (Escrow.new a.draw.now a.draw.escrowId bid.price bid.bidderId a.jobId.val
        request.timeoutSecs).isSome →
      bid.price ≤ request.maxBudget

/-- Tasks are calls, and start at their beginning. -/
def MoveCalls (_ : JobPool) : Move Task → Prop
  | .start t => ∃ c : Call, t = c.task
  | .resume _ => True

/-! ## Where a request in flight comes from -/

/-- What the task has looked up: a request that was stored under the id, and a bid under
the id asked for that had not expired. -/
def Task.Sourced (log : List JobRequest) : Task → Prop
  | .acceptBid a request => request ∈ log ∧ request.id = a.jobId
  | .acceptLimits a request bid | .acceptEscrow a request bid =>
      (request ∈ log ∧ request.id = a.jobId) ∧ bid.id = a.bidId ∧
        bid.isExpired a.checkedAt = false
  | _ => True

/-- What is kept or in flight was stored. -/
structure Sourced (s : LoggedPool) : Prop where
  requests : ∀ id request, s.1.shared.manager.requests.lookup id = some request →
    request ∈ s.2 ∧ request.id = id
  tasks : ∀ k t, s.1.taskAt k = some t → t.Sourced s.2

section Invariant

variable {cfg : WalletConfig} {p : JobPool} {log : List JobRequest} {k : ℕ} {t : Task}

theorem Task.Sourced.more (more : List JobRequest) (h : t.Sourced log) :
    t.Sourced (log ++ more) := by
  cases t <;> simp only [Task.Sourced] at h ⊢ <;> grind

theorem stores_resume (ht : p.taskAt k = some t) : stores p (.resume k) = t.stored := by
  simp [stores, ht]

theorem isExpired_mono {bid : JobBid} {s t : DateTime} (hst : s ≤ t)
    (h : bid.isExpired t = false) : bid.isExpired s = false := by
  have hle : s.nanos ≤ t.nanos := hst
  have hnot : ¬ bid.expiresAt.nanos < t.nanos := of_decide_eq_false h
  refine decide_eq_false ?_
  intro hlt
  exact hnot (lt_of_lt_of_le hlt hle)

theorem id_of_bidNamed {bids : List JobBid} {id : BidId} {b : JobBid}
    (h : bidNamed bids id = some b) : b.id = id := by
  have hfound := List.find?_some h
  simpa using hfound

/-- A request that is there after a section was there before, or the section stores it. -/
theorem Turns.requests {m m' : JobManager} {t' : Option Task} (h : Turns cfg m t m' t')
    {id : JobId} {request : JobRequest} (hr : m'.requests.lookup id = some request) :
    m.requests.lookup id = some request ∨ request ∈ t.stored ∧ request.id = id := by
  cases h with
  | create r =>
      rw [Finmap.lookup_insert_eq] at hr
      split at hr
      · next hid =>
          cases hr
          exact .inr ⟨by simp [Task.stored], hid.symm⟩
      · exact .inl hr
  | drop j job =>
      rw [Finmap.lookup_erase_eq] at hr
      split at hr
      · cases hr
      · exact .inl hr
  | _ => exact .inl hr

/-- **What a section takes up was stored before**, and the bid had not expired. -/
theorem Turns.sourced {m m' : JobManager} {t' : Option Task} (h : Turns cfg m t m' t')
    (hrequests : ∀ id request, m.requests.lookup id = some request →
      request ∈ log ∧ request.id = id) (ht : t.Sourced log) {u : Task} (hu : t' = some u) :
    u.Sourced log := by
  cases h with
  | request a request hlookup =>
      cases hu
      exact hrequests a.jobId request hlookup
  | bid a request bid hnamed hunexpired =>
      cases hu
      exact ⟨ht, id_of_bidNamed hnamed, hunexpired⟩
  | allow a request bid =>
      cases hu
      exact ht
  | settleSave s job amount hstore =>
      cases hu
      unfold afterSave
      split <;> trivial
  | wallet t =>
      obtain ⟨_, -, rfl⟩ := Option.map_eq_some_iff.1 hu
      trivial
  | create request => cases hu; trivial
  | escrow a request bid e w hnew haffords hescrows => cases hu; trivial
  | save a request bid e hstore => cases hu; trivial
  | drop id job => cases hu; trivial
  | dropBids id job => cases hu; trivial
  | take s job hjob => cases hu; trivial
  | resolve s job amount w hfunded hresolves => cases hu; trivial
  | credit s job amount w hescrows => cases hu; trivial
  | creditSave s job => cases hu; trivial
  | _ => cases hu

theorem sourced_step (cfg : WalletConfig) (s : LoggedPool) (move : Move Task) (h : Sourced s)
    (hmove : MoveCalls s.1 move) :
    Sourced (logged (Pool.step (advance cfg)) stores s move) := by
  obtain ⟨p, log⟩ := s
  unfold logged
  cases move with
  | start t =>
      obtain ⟨c, rfl⟩ := hmove
      rw [show stores p (.start c.task) = [] from rfl, List.append_nil]
      refine ⟨h.requests, ?_⟩
      intro k t hk
      rw [Pool.taskAt_start] at hk
      split at hk
      · cases hk
        cases c <;> trivial
      · exact h.tasks k t hk
  | resume k =>
      cases hk : p.taskAt k with
      | none =>
          have hstores : stores p (.resume k) = [] := by simp [stores, hk]
          rw [Pool.step_resume_none hk, hstores, List.append_nil]
          exact h
      | some t =>
          have hturns := turns cfg p.shared.manager t
          rw [stores_resume hk]
          refine ⟨?_, ?_⟩
          · intro id request hr
            rw [Pool.shared_resume hk] at hr
            rcases hturns.requests hr with hold | ⟨hmem, hid⟩
            · obtain ⟨hmem, hid⟩ := h.requests id request hold
              exact ⟨List.mem_append_left _ hmem, hid⟩
            · exact ⟨List.mem_append_right _ hmem, hid⟩
          · intro j u hj
            rw [Pool.taskAt_resume hk] at hj
            split at hj
            · exact (hturns.sourced h.requests (h.tasks k t hk) hj).more _
            · exact (h.tasks j u hj).more _

theorem sourced_idle (wallet : WalletState) : Sourced (idle wallet, []) := by
  refine ⟨?_, ?_⟩
  · intro id request h
    cases h
  · intro k t hk
    cases hk

/-- The escrow is created when the wallet can afford it and it ends within range. -/
theorem locks_ok_iff {w : WalletState} {a : Acceptance} {request : JobRequest} {bid : JobBid}
    {e : Escrow} : locks cfg w a request bid = .ok e ↔ Wallet.Affords cfg w bid.price ∧
      Escrow.new a.draw.now a.draw.escrowId bid.price bid.bidderId a.jobId.val
        request.timeoutSecs = some e := by
  unfold locks
  constructor
  · intro h
    exact ⟨Wallet.createEscrowLocked_affords h, (Wallet.createEscrowLocked_ok h).1⟩
  · rintro ⟨haffords, hnew⟩
    exact Wallet.createEscrowLocked_of_affords haffords hnew

/-- A move keeps within the budget exactly when the bid at hand does. -/
theorem withinBudget_iff (cfg : WalletConfig) (s : LoggedPool) (move : Move Task) (h : Sourced s) :
    WithinBudget cfg s move ↔ PricedWithin cfg s.1 move := by
  cases move with
  | start t => rfl
  | resume k =>
      constructor
      · intro hwithin a request bid hk haffords hnew
        obtain ⟨e, he⟩ := Option.isSome_iff_exists.1 hnew
        obtain ⟨-, hamount, -⟩ := hwithin a request bid e hk (locks_ok_iff.2 ⟨haffords, he⟩)
        rw [(Escrow.new_some he).2.1] at hamount
        exact hamount
      · intro hpriced a request bid e hk hlocks
        obtain ⟨haffords, hnew⟩ := locks_ok_iff.1 hlocks
        obtain ⟨hrequest, hid, hunexpired⟩ := h.tasks k _ hk
        refine ⟨hrequest, ?_, hid, fun selectedAt hle => isExpired_mono hle hunexpired⟩
        rw [(Escrow.new_some hnew).2.1]
        exact hpriced a request bid hk haffords (by rw [hnew]; rfl)

end Invariant

/-! ## Every interleaving -/

/-- **Every acceptance is within its budget** exactly when every bid that the wallet locks
funds for is: in every interleaving of calls, from a new manager on any wallet,
whatever bids are received and whichever are accepted. -/
theorem acceptances_within_budget_iff (cfg : WalletConfig) (wallet : WalletState)
    {moves : List (Move Task)}
    (h : Along (Pool.step (advance cfg)) MoveCalls (idle wallet) moves) :
    Along (logged (Pool.step (advance cfg)) stores) (WithinBudget cfg) (idle wallet, []) moves ↔
      Along (Pool.step (advance cfg)) (PricedWithin cfg) (idle wallet) moves := by
  rw [← along_logged _ stores MoveCalls _ []] at h
  rw [← along_logged _ stores (PricedWithin cfg) _ []]
  exact along_iff_of_inv (sourced_step cfg) (fun s move hs _ => withinBudget_iff cfg s move hs)
    (sourced_idle wallet) h

section Example

open Sample

/-- A request, a bid for it, and the bid is accepted. -/
private def spending (price : UInt64) : List (Move Task) :=
  calling 0 2 (.createRequest request) ++ calling 1 1 (.receiveBid (bid "b" "bob" price)) ++
    calling 2 8 (.acceptBid (acceptance "b" "e" (.ok ())))

private theorem spending_calls (price : UInt64) :
    Along (Pool.step (advance config)) MoveCalls (idle funds) (spending price) :=
  ⟨⟨.createRequest request, rfl⟩, trivial, trivial, ⟨.receiveBid _, rfl⟩, trivial,
    ⟨.acceptBid _, rfl⟩, trivial, trivial, trivial, trivial, trivial, trivial, trivial, trivial,
    trivial⟩

private theorem priced_other {p : JobPool} {k : ℕ} {t : Task} (ht : p.taskAt k = some t)
    (hother : ∀ a request bid, t ≠ .acceptEscrow a request bid) :
    PricedWithin config p (.resume k) := by
  intro a request bid hk
  rw [ht] at hk
  cases hk
  exact absurd rfl (hother a request bid)

private theorem priced_locks {p : JobPool} {k : ℕ} {a : Acceptance} {request : JobRequest}
    {bid : JobBid} (ht : p.taskAt k = some (.acceptEscrow a request bid))
    (hprice : bid.price ≤ request.maxBudget) : PricedWithin config p (.resume k) := by
  intro a' request' bid' hk _ _
  rw [ht] at hk
  cases hk
  exact hprice

private theorem spending_priced :
    Along (Pool.step (advance config)) (PricedWithin config) (idle funds) (spending 40) :=
  ⟨trivial, priced_other rfl (by rintro _ _ _ ⟨⟩), priced_other rfl (by rintro _ _ _ ⟨⟩),
    trivial, priced_other rfl (by rintro _ _ _ ⟨⟩),
    trivial, priced_other rfl (by rintro _ _ _ ⟨⟩), priced_other rfl (by rintro _ _ _ ⟨⟩),
    priced_other rfl (by rintro _ _ _ ⟨⟩), priced_locks rfl (by decide),
    priced_other rfl (by rintro _ _ _ ⟨⟩), priced_other rfl (by rintro _ _ _ ⟨⟩),
    priced_other rfl (by rintro _ _ _ ⟨⟩), priced_other rfl (by rintro _ _ _ ⟨⟩), trivial⟩

theorem acceptances_within_budget_forty :
    Along (logged (Pool.step (advance config)) stores) (WithinBudget config) (idle funds, [])
      (spending 40) :=
  (acceptances_within_budget_iff config funds (spending_calls 40)).2 spending_priced

/-- **More than the budget**: the request is for fifty at most, `RemoteExecutor` selects
the only bid, of ninety, and the escrow created for it is of ninety. -/
theorem budget_exceeded :
    RemoteExecutor.selectBestBid (getBids (run (Pool.step (advance config)) (idle funds)
        ((spending 90).take 5)).shared.manager jobId) = some (bid "b" "bob" 90) ∧
      Along (Pool.step (advance config)) MoveCalls (idle funds) (spending 90) ∧
      ¬ Along (logged (Pool.step (advance config)) stores) (WithinBudget config) (idle funds, [])
        (spending 90) := by
  refine ⟨rfl, spending_calls 90, ?_⟩
  intro h
  -- the section that creates the escrow is the tenth move
  obtain ⟨-, -, -, -, -, -, -, -, -, hescrow, -⟩ := h
  obtain ⟨-, hamount, -⟩ := hescrow _ _ _ _ rfl rfl
  revert hamount
  decide

end Example

end Jobs
end PeerClaw
