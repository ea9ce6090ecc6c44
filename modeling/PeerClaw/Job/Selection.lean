import PeerClaw.Job.Manager
import PeerClaw.Wallet.Active
import PeerClaw.Lib.Machine

/-!
# Selecting a bid and accepting it

A bid is selected out of a snapshot of the list, by its score, and accepted
later, by its identifier, out of the live list.  Both `auto_accept_bids` and
`RemoteExecutor` do so; the bidders choose the identifiers.

* `accepted_is_selected_iff` — the job carries the bidder and the price of the
  bid that was selected, and its escrow that price and recipient, exactly when
  the first bid of the snapshot under the same identifier has them.
* `withdrawn_bid_accepted` — a withdrawn bid under the identifier of a valid one
  comes first, and is the one accepted.

Whatever happens between the two steps, the list only grows at its end
(`Grown`), so the first bid under an identifier stays the first.
-/

namespace PeerClaw

open Lib Lib.Machine

/-- `RemoteExecutor::select_best_bid`: the best score for a target of 100 ms, and
no other condition.  An empty list is a panic. -/
def RemoteExecutor.selectBestBid (bids : List JobBid) : Option JobBid :=
  maxBy (JobBid.compareBids (some 100)) bids

namespace Jobs

/-! ## The two that select -/

/-- Who selects a bid. -/
inductive Selector
  /-- `auto_accept_bids`, at the instant `now`. -/
  | autoAccept (now : DateTime)
  /-- `RemoteExecutor::execute`. -/
  | remoteExecutor

/-- The bid selected. -/
def Selector.pick : Selector → List JobBid → Option JobBid
  | .autoAccept now, bids => selectBestBid now bids none
  | .remoteExecutor, bids => RemoteExecutor.selectBestBid bids

theorem Selector.mem_of_pick {selector : Selector} {bids : List JobBid} {b : JobBid}
    (h : selector.pick bids = some b) : b ∈ bids := by
  cases selector with
  | autoAccept now => exact (selectBestBid_some h).1
  | remoteExecutor => exact mem_of_maxBy h

/-! ## Looking a bid up -/

section Named

variable {bids : List JobBid} {id : BidId} {b : JobBid}

/-- A bid of the list can be found under its identifier, though it need not be itself
that is found. -/
theorem bidNamed_of_mem (h : b ∈ bids) : ∃ first, bidNamed bids b.id = some first := by
  cases hfind : bidNamed bids b.id with
  | some first => exact ⟨first, rfl⟩
  | none =>
      have hnone := List.find?_eq_none.1 hfind b h
      simp at hnone

/-- Bids that arrive later are not found before those that are there. -/
theorem bidNamed_append (more : List JobBid) (h : bidNamed bids id = some b) :
    bidNamed (bids ++ more) id = some b := by
  unfold bidNamed at h ⊢
  rw [List.find?_append, h]
  rfl

end Named

/-! ## Between the two steps -/

/-- The list of bids for a job has only grown at its end, or is gone. -/
def Grown (snapshot : List JobBid) (id : JobId) (m : JobManager) : Prop :=
  ∀ bids, m.bids.lookup id = some bids → ∃ more, bids = snapshot ++ more

/-- The call does not create the job. -/
def Call.Spares (id : JobId) (c : Call) : Prop :=
  ∀ request, c = .createRequest request → request.id ≠ id

section Growth

variable {cfg : WalletConfig} {m : JobManager} {snapshot : List JobBid} {id : JobId}

theorem grown_getBids (m : JobManager) (id : JobId) : Grown (getBids m id) id m := by
  intro bids hbids
  refine ⟨[], ?_⟩
  simp [getBids, hbids]

theorem Grown.of_bids {m' : JobManager} (h : Grown snapshot id m) (hbids : m'.bids = m.bids) :
    Grown snapshot id m' := by
  unfold Grown
  rw [hbids]
  exact h

theorem Grown.erase {m' : JobManager} {j : JobId} (h : Grown snapshot id m)
    (hbids : m'.bids = m.bids.erase j) : Grown snapshot id m' := by
  intro bids hlookup
  rw [hbids, Finmap.lookup_erase_eq] at hlookup
  split at hlookup
  · cases hlookup
  · exact h bids hlookup

theorem Grown.receive (h : Grown snapshot id m) (bid : JobBid) :
    Grown snapshot id (receiveBid bid m).state := by
  unfold receiveBid
  cases hbids : m.bids.lookup bid.jobId with
  | none => exact h
  | some jobBids =>
      intro bids hlookup
      dsimp only at hlookup
      rw [Finmap.lookup_insert_eq] at hlookup
      split at hlookup
      · next hid =>
          subst hid
          obtain ⟨more, rfl⟩ := h jobBids hbids
          obtain rfl := Option.some.inj hlookup
          exact ⟨more ++ [bid], List.append_assoc ..⟩
      · exact h bids hlookup

/-- **One call**: the list of bids for a job that it does not create grows at its end,
or is dropped. -/
theorem grown_step (cfg : WalletConfig) (m : JobManager) (c : Call) (h : Grown snapshot id m)
    (hspares : c.Spares id) : Grown snapshot id (step cfg m c) := by
  unfold step
  cases c with
  | createRequest request =>
      intro bids hlookup
      have hother : id ≠ request.id := fun hid => hspares request rfl hid.symm
      have hkeep : (exec cfg (.createRequest request) m).state.bids.lookup id = m.bids.lookup id := by
        show (m.bids.insert request.id []).lookup id = _
        rw [Finmap.lookup_insert_eq, if_neg hother]
      rw [hkeep] at hlookup
      exact h bids hlookup
  | receiveBid bid =>
      rw [exec, Action.map_apply]
      exact h.receive bid
  | acceptBid a =>
      rw [exec, Action.map_apply]
      rcases acceptBid_cases cfg a m with ⟨request, bid, escrow, -, -, hstate⟩ | ⟨-, hstate⟩
      · refine h.erase (j := a.jobId) ?_
        rw [hstate]
        rfl
      · rcases hstate with hstate | ⟨request, bid, -, hstate⟩
        · exact h.of_bids (by rw [hstate])
        · exact h.of_bids (by rw [hstate])
  | bidAccepted job => exact h.of_bids rfl
  | startJob now j =>
      rw [exec, Action.map_apply]
      exact h.of_bids (onJob_bids j _ m)
  | submitResult j result =>
      rw [exec, Action.map_apply]
      exact h.of_bids (onJob_bids j _ m)
  | settleJob s =>
      rw [exec, Action.map_apply]
      rcases settleJob_cases s m with ⟨-, -, hstate⟩ | ⟨job, -, ⟨-, -, hstate⟩ | ⟨-, -, hstate⟩⟩
      · exact h.of_bids (by rw [hstate])
      · exact h.of_bids (by rw [hstate]; rfl)
      · exact h.of_bids (by rw [hstate]; rfl)
  | wallet c =>
      rw [exec, Action.map_apply]
      exact h.of_bids rfl

/-- Whatever calls are made in between, the list has only grown at its end, or is gone. -/
theorem grown_run {calls : List Call} (hspare : ∀ c ∈ calls, c.Spares id) :
    Grown (getBids m id) id (run (step cfg) m calls) :=
  run_of_inv (grown_step cfg) (grown_getBids m id) (along_of_forall hspare)

end Growth

/-! ## What the job carries -/

/-- The job carries the bid: its bidder and its price, which is what is locked for that
bidder in the job's escrow. -/
structure Carries (w : WalletState) (job : Job) (b : JobBid) : Prop where
  bidder : job.bid.bidderId = b.bidderId
  price : job.bid.price = b.price
  escrow : ∃ e, w.escrows.lookup job.escrowId = some e ∧ e.amount = b.price ∧
    e.recipient = b.bidderId

section Acceptance

variable {cfg : WalletConfig} {m : JobManager} {a : Acceptance} {job : Job}

/-- The job that `accept_bid` returns carries the first bid under the identifier. -/
theorem acceptBid_carries (h : (acceptBid cfg a m).outcome = .ok job) :
    ∃ first, bidNamed (getBids m a.jobId) a.bidId = some first ∧ job.bid = first ∧
      Carries (acceptBid cfg a m).state.wallet job first := by
  rcases acceptBid_cases cfg a m with ⟨request, bid, e, hacc, hout, hstate⟩ | ⟨hnot, -⟩
  · obtain rfl : Job.new a.createdAt request bid e.id = job := by
      rw [hout] at h
      exact Outcome.ok.inj h
    obtain ⟨hnew, hescrows⟩ := Wallet.createEscrow_ok hacc.locked
    obtain ⟨-, hamount, hrecipient, -⟩ := Escrow.new_some hnew
    refine ⟨bid, hacc.named, rfl, rfl, rfl, e, ?_, hamount, hrecipient⟩
    have hwallet : (acceptBid cfg a m).state.wallet.escrows = m.wallet.escrows.insert e.id e := by
      rw [hstate]
      exact hescrows
    have hid : (Job.new a.createdAt request bid e.id).escrowId = e.id := rfl
    rw [hwallet, hid, Finmap.lookup_insert_eq, if_pos rfl]
  · exact absurd h (Outcome.ne_ok hnot job)

/-- Where the list has grown from a snapshot, what is found is the first of the snapshot. -/
theorem Grown.bidNamed_eq {snapshot : List JobBid} {id : JobId} {bidId : BidId}
    {first found : JobBid} (h : Grown snapshot id m) (hfirst : bidNamed snapshot bidId = some first)
    (hfound : bidNamed (getBids m id) bidId = some found) : found = first := by
  unfold getBids at hfound
  cases hbids : m.bids.lookup id with
  | none =>
      rw [hbids] at hfound
      cases hfound
  | some bids =>
      rw [hbids] at hfound
      obtain ⟨more, rfl⟩ := h bids hbids
      have hsame := hfound.symm.trans (bidNamed_append more hfirst)
      exact Option.some.inj hsame

end Acceptance

/-! ## From the selection to the job -/

/-- **What is accepted is what was selected** exactly when the first bid of the snapshot
under the identifier selected has the selected bid's bidder and price: for every
list of bids, whoever selects, and whatever calls are made between the selection and
the acceptance, as long as they do not create the job anew. -/
theorem accepted_is_selected_iff (cfg : WalletConfig) (m : JobManager) (selector : Selector)
    {selected : JobBid} {a : Acceptance} {calls : List Call} {job : Job}
    (hselected : selector.pick (getBids m a.jobId) = some selected)
    (hspare : ∀ c ∈ calls, c.Spares a.jobId) (hbid : a.bidId = selected.id)
    (hjob : (acceptBid cfg a (run (step cfg) m calls)).outcome = .ok job) :
    Carries (acceptBid cfg a (run (step cfg) m calls)).state.wallet job selected ↔
      ∀ first, bidNamed (getBids m a.jobId) selected.id = some first →
        first.bidderId = selected.bidderId ∧ first.price = selected.price := by
  obtain ⟨found, hfound, hcarried, hcarries⟩ := acceptBid_carries hjob
  obtain ⟨first, hfirst⟩ := bidNamed_of_mem (selector.mem_of_pick hselected)
  rw [hbid] at hfound
  obtain rfl := (grown_run hspare).bidNamed_eq hfirst hfound
  constructor
  · intro h other hother
    obtain rfl : found = other := Option.some.inj (hfirst.symm.trans hother)
    rw [← hcarried]
    exact ⟨h.bidder, h.price⟩
  · intro h
    obtain ⟨hbidder, hprice⟩ := h found hfirst
    obtain ⟨e, he, hamount, hrecipient⟩ := hcarries.escrow
    exact ⟨hcarries.bidder.trans hbidder, hcarries.price.trans hprice,
      e, he, hamount.trans hprice, hrecipient.trans hbidder⟩

section Example

open Sample

/-- A manager with a request and bids for it. -/
private def offered (bids : List JobBid) : JobManager :=
  run (step config) (.new funds) (.createRequest request :: bids.map .receiveBid)

theorem accepted_is_selected_single :
    Carries (acceptBid config (acceptance "b" "e" (.ok ()))
      (run (step config) (offered [bid "b" "bob" 40]) [.receiveBid (bid "b" "eve" 50)])).state.wallet
        (.new .epoch request (bid "b" "bob" 40) ⟨"e"⟩) (bid "b" "bob" 40) := by
  refine (accepted_is_selected_iff config (offered [bid "b" "bob" 40]) (.autoAccept .epoch)
    rfl ?_ rfl rfl).2 ?_
  · intro c hc
    rw [List.mem_singleton.1 hc]
    rintro r ⟨⟩
  · intro first hfirst
    have hlookup : bidNamed (getBids (offered [bid "b" "bob" 40]) jobId) ⟨"b"⟩ =
      some (bid "b" "bob" 40) := rfl
    obtain rfl := Option.some.inj (hlookup.symm.trans hfirst)
    exact ⟨rfl, rfl⟩

/-- Bob's bid is withdrawn, and eve's goes by the same identifier. -/
private def forged : List JobBid :=
  [{ bid "b" "bob" 40 with status := .withdrawn }, bid "b" "eve" 20]

/-- **The bid accepted is not the one selected**: `auto_accept_bids` selects the only
valid bid, which is eve's at 20; the job it gets is bob's at 40. -/
theorem withdrawn_bid_accepted :
    (Selector.autoAccept .epoch).pick (getBids (offered forged) jobId) = some (bid "b" "eve" 20) ∧
      ∃ job, (acceptBid config (acceptance "b" "e" (.ok ())) (offered forged)).outcome = .ok job ∧
        job.bid.bidderId = "bob" ∧ job.bid.price = 40 ∧
        ¬ Carries (acceptBid config (acceptance "b" "e" (.ok ())) (offered forged)).state.wallet job
          (bid "b" "eve" 20) := by
  refine ⟨rfl, _, rfl, rfl, rfl, ?_⟩
  intro h
  have hprice := h.price
  revert hprice
  decide

end Example

end Jobs
end PeerClaw
