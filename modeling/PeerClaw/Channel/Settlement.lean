import PeerClaw.Channel.Closing
import PeerClaw.Wallet.Conservation
import PeerClaw.Wallet.Limits

/-!
# Settlement

The funds of a channel are an escrow of the wallet, and its balances say what
of it belongs to the other side.  No way of closing a channel looks at them:
neither pays the escrow out, so all of it comes back with the sweep that expires
it.

`settlement_iff` follows the money over a whole run — opening, payments, either
way of closing, sweeps: once the escrow is no longer held the wallet is short of
the other side's balance exactly when that balance was zero.
-/

namespace PeerClaw
namespace Manager

open Lib Lib.Word Lib.Machine Lib.HoldBook

/-- The call is one of the channel's own: it opens nothing and leaves the wallet to
itself. -/
def Call.OffLedger : Call → Prop
  | .openChannel _ _ _ _ _ => False
  | .wallet _ => False
  | _ => True

/-- The call is a sweep, and draws an iteration order of the escrows. -/
def Sweeps (m : ChannelManager) (call : Call) : Prop :=
  ∃ draw, call = .wallet (.sweepExpiredEscrows draw) ∧
    Wallet.Enumerates draw.order m.wallet.escrows

/-! ## The wallet while a channel lives -/

theorem wallet_offLedger {env : ManagerEnv} {m : ChannelManager} {call : Call}
    (h : call.OffLedger) : (step env m call).wallet = m.wallet := by
  cases call with
  | openChannel draw now remotePeer capacity durationHours => exact h.elim
  | wallet c => exact h.elim
  | confirmChannel id =>
      rw [step, exec, Action.map_apply]
      exact onChannel_rest.1
  | pay now stamp id amount =>
      rw [step, exec, Action.map_apply]
      exact onChannel_rest.1
  | receivePayment now s =>
      rw [step_receivePayment]
      obtain ⟨hiff, hstate, hkeep⟩ := receivePayment_spec env now s m
      by_cases hok : (receivePayment env now s m).outcome = .ok ()
      · obtain ⟨c, hc, -⟩ := hiff.1 hok
        rw [hstate hok c hc]
      · rw [hkeep hok]
  | closeChannel stamp id =>
      rw [step, exec, Action.map_apply]
      exact onChannel_rest.1
  | finalizeClose id r =>
      rw [step, exec, Action.map_apply]
      exact (bind_unindexPeer _ m).2.1.trans onChannel_rest.1
  | forceCloseExpired now id =>
      rw [step, exec, Action.map_apply]
      exact (bind_unindexPeer _ m).2.1.trans onChannel_rest.1
  | registerPeerPublicKey peerId key => rw [step, exec, Action.map_apply]; rfl

theorem wallet_run_offLedger (env : ManagerEnv) (m : ChannelManager) {calls : List Call}
    (h : ∀ call ∈ calls, call.OffLedger) : (run (step env) m calls).wallet = m.wallet := by
  induction calls generalizing m with
  | nil => rfl
  | cons call calls ih =>
      have hfirst : call.OffLedger := h call (List.mem_cons_self ..)
      rw [run_cons, ih _ fun c hc => h c (List.mem_cons_of_mem _ hc), wallet_offLedger hfirst]

/-- A wallet whose counter is right and whose whole balance fits in a word. -/
structure Sound (st : WalletState) : Prop where
  ledger : Wallet.LedgerInv st
  fits : Wallet.total st < 2 ^ 64

/-- In a sound wallet the amount of an active escrow can be returned without
overflow. -/
theorem return_fits {st : WalletState} (h : Sound st) {id : EscrowId} {e : Escrow}
    (he : st.escrows.lookup id = some e) (hs : e.status = .active) :
    st.available.toNat + e.amount.toNat < 2 ^ 64 := by
  have hle := toNat_le.1 (Wallet.amount_le_inEscrow h.ledger he hs)
  have hfits := h.fits
  unfold Wallet.total at hfits
  omega

theorem sweepLoop_fits {stamp : ℕ → Stamp} {ids : List EscrowId} :
    ∀ {k : ℕ} {st : WalletState}, Sound st → ids.Nodup → (∀ id ∈ ids, Wallet.IsActive st id) →
      Wallet.SumsFit (Wallet.sweepLoop stamp k ids st).arith := by
  induction ids with
  | nil =>
      intro k st _ _ _ a ha
      cases ha
  | cons id ids ih =>
      intro k st hsound hnd hact
      obtain ⟨hnot, hnd⟩ := List.nodup_cons.1 hnd
      have hhead := hact id (List.mem_cons_self ..)
      obtain ⟨e, he, hs⟩ := hhead
      have hone : Wallet.SumsFit (Wallet.sweepOne (stamp k) id st).arith := by
        unfold Wallet.sweepOne
        simp only [he]
        intro a ha hadd
        simp only [List.mem_cons, List.not_mem_nil, or_false] at ha
        rcases ha with rfl | rfl
        · exact hadd.elim
        · exact return_fits hsound he hs
      obtain ⟨hout, hacc⟩ := Wallet.sweepOne_accounted hsound.ledger ⟨e, he, hs⟩ hone
      obtain ⟨hkeep, -⟩ := Wallet.sweepOne_others (stamp k) id st
      -- the total is what it was, so the rest of the list is swept from a sound wallet
      have htotal := hacc.posts.total_eq
      rw [Wallet.total_book hsound.ledger, Wallet.total_book hacc.inv] at htotal
      have hnext : Sound (Wallet.sweepOne (stamp k) id st).state := by
        refine ⟨hacc.inv, ?_⟩
        have hfits := hsound.fits
        simp only [List.map_cons, List.map_nil, List.sum_cons, List.sum_nil, Entry.outflow,
          Entry.inflow] at htotal
        omega
      have hrest : Wallet.SumsFit
          (Wallet.sweepLoop stamp (k + 1) ids (Wallet.sweepOne (stamp k) id st).state).arith :=
        ih hnext hnd fun j hj =>
          hkeep j (fun h => hnot (h ▸ hj)) (hact j (List.mem_cons_of_mem _ hj))
      have hunfold : Wallet.sweepLoop stamp k (id :: ids) st =
          (Wallet.sweepOne (stamp k) id >>= fun swept => (fun rest => swept ++ rest) <$>
            Wallet.sweepLoop stamp (k + swept.length) ids) st := rfl
      rw [hunfold, Action.bind_of_ok hout, Action.map_apply]
      intro a ha
      rcases List.mem_append.1 ha with ha | ha
      · exact hone a ha
      · exact hrest a ha

theorem createEscrowLocked_sound {cfg : WalletConfig} {draw : Draw} {amount : UInt64}
    {recipient jobId : String} {timeoutSecs : UInt64} {st : WalletState} {e : Escrow}
    (h : Sound st) (hfresh : draw.escrowId ∉ st.escrows)
    (hok : (Wallet.createEscrowLocked cfg draw amount recipient jobId timeoutSecs st).outcome =
      .ok e) :
    Sound (Wallet.createEscrowLocked cfg draw amount recipient jobId timeoutSecs st).state ∧
      Wallet.total (Wallet.createEscrowLocked cfg draw amount recipient jobId timeoutSecs st).state =
        Wallet.total st := by
  have htime : (Escrow.new draw.now draw.escrowId amount recipient jobId timeoutSecs).isSome := by
    unfold Wallet.createEscrowLocked at hok
    dsimp only at hok
    split at hok
    · cases hok
    · cases hnew : Escrow.new draw.now draw.escrowId amount recipient jobId timeoutSecs with
      | none => rw [hnew] at hok; cases hok
      | some e' => rfl
  have hfit : Wallet.SumsFit
      (Wallet.createEscrowLocked cfg draw amount recipient jobId timeoutSecs st).arith := by
    obtain ⟨e', hnew⟩ := Option.isSome_iff_exists.1 htime
    unfold Wallet.createEscrowLocked
    simp only [hnew]
    split
    · intro a ha
      cases ha
    · rename_i hlt
      have hfits := h.fits
      unfold Wallet.total at hfits
      rw [toNat_lt, toNat_satSub] at hlt
      intro a ha hadd
      simp only [List.mem_cons, List.not_mem_nil, or_false] at ha
      rcases ha with rfl | rfl
      · exact hadd.elim
      · show st.inEscrow.toNat + amount.toNat < 2 ^ 64
        omega
  have hacc := Wallet.createEscrowLocked_accounted h.ledger hfresh htime hfit
  have htotal := hacc.posts.total_eq
  rw [hok, Wallet.total_book h.ledger, Wallet.total_book hacc.inv] at htotal
  have hsame : Wallet.total
      (Wallet.createEscrowLocked cfg draw amount recipient jobId timeoutSecs st).state =
        Wallet.total st := htotal
  exact ⟨⟨hacc.inv, by rw [hsame]; exact h.fits⟩, hsame⟩

/-- A channel that was opened has its escrow from the section under the write
lock. -/
theorem lockFunds_ok {env : ManagerEnv} {draw : Draw} {remotePeer : String}
    {capacity durationHours : UInt64} {st : WalletState}
    (h : (lockFunds env draw remotePeer capacity durationHours st).outcome.isOk) :
    ∃ e, (Wallet.createEscrowLocked env.walletConfig draw capacity remotePeer
        ("channel_" ++ remotePeer) (durationHours * 3600) st).outcome = .ok e ∧
      (lockFunds env draw remotePeer capacity durationHours st).state =
        (Wallet.createEscrowLocked env.walletConfig draw capacity remotePeer
          ("channel_" ++ remotePeer) (durationHours * 3600) st).state := by
  obtain ⟨u, hu, hout, hstate⟩ := Action.bind_isOk h
  rw [Wallet.checkSpendingLimits_state] at hout hstate
  have hrest : (lockFunds env draw remotePeer capacity durationHours st).outcome.isOk := h
  unfold lockFunds Wallet.createEscrow at hrest ⊢
  rw [hout] at hrest
  obtain ⟨e, he, -, -⟩ := Action.bind_isOk hrest
  exact ⟨e, he, hstate.trans (Wallet.state_saved _ _ _)⟩

/-- **Opening a channel** leaves the wallet sound and its total what it was. -/
theorem openChannel_sound {env : ManagerEnv} {m : ChannelManager} {draw : Draw} {now : DateTime}
    {remotePeer : String} {capacity durationHours : UInt64} {c : PaymentChannel}
    (h : Sound m.wallet) (hfresh : draw.escrowId ∉ m.wallet.escrows)
    (hopened : Opened env m draw now remotePeer capacity durationHours c) :
    Sound (openChannel env draw now remotePeer capacity durationHours m).state.wallet ∧
      Wallet.total (openChannel env draw now remotePeer capacity durationHours m).state.wallet =
        Wallet.total m.wallet := by
  obtain ⟨e, hok, hstate⟩ := lockFunds_ok hopened.locked
  rw [hopened.leaves]
  dsimp only
  rw [hstate]
  exact createEscrowLocked_sound h hfresh hok

/-- A sweep leaves the channels alone, the wallet sound and its total what it was. -/
theorem sweep_sound {env : ManagerEnv} {m : ChannelManager} {call : Call} (h : Sound m.wallet)
    (hsweep : Sweeps m call) : Sound (step env m call).wallet ∧
      Wallet.total (step env m call).wallet = Wallet.total m.wallet ∧
      (step env m call).channels = m.channels := by
  obtain ⟨draw, rfl, henum⟩ := hsweep
  have hnd := Wallet.expiredIds_nodup draw.now henum
  have hact := Wallet.isActive_of_expired draw.now draw.order m.wallet
  have hfit : Wallet.SumsFit (Wallet.sweepLoop draw.stamp 0
      (Wallet.expiredIds draw.now draw.order m.wallet) m.wallet).arith :=
    sweepLoop_fits h hnd hact
  obtain ⟨-, hacc⟩ := Wallet.sweepLoop_accounted h.ledger hnd hact hfit
  have hwallet : (step env m (.wallet (.sweepExpiredEscrows draw))).wallet =
      (Wallet.sweepLoop draw.stamp 0 (Wallet.expiredIds draw.now draw.order m.wallet)
        m.wallet).state := by
    rw [step, exec, Action.map_apply]
    show (Wallet.exec env.walletConfig (.sweepExpiredEscrows draw) m.wallet).state = _
    rw [Wallet.exec, Action.map_apply]
    rfl
  have htotal := hacc.posts.total_eq
  rw [Wallet.sum_giveBack (fun _ _ => rfl), Wallet.sum_giveBack (fun _ _ => rfl),
    Wallet.total_book h.ledger, Wallet.total_book hacc.inv] at htotal
  rw [hwallet]
  refine ⟨⟨hacc.inv, ?_⟩, htotal, ?_⟩
  · have hfits := h.fits
    omega
  · rw [step, exec, Action.map_apply]
    rfl

theorem sweeps_sound {env : ManagerEnv} {m : ChannelManager} {calls : List Call}
    (h : Sound m.wallet) (hsweeps : Along (step env) Sweeps m calls) :
    Wallet.total (run (step env) m calls).wallet = Wallet.total m.wallet ∧
      (run (step env) m calls).channels = m.channels := by
  induction calls generalizing m with
  | nil => exact ⟨rfl, rfl⟩
  | cons call calls ih =>
      obtain ⟨hsound, htotal, hchannels⟩ := sweep_sound h hsweeps.1
      obtain ⟨hrest, hsame⟩ := ih hsound hsweeps.2
      exact ⟨hrest.trans htotal, hsame.trans hchannels⟩

/-! ## The whole run -/

/-- A channel's whole life, begun in `m`: it is opened, calls on channels are made,
one call closes it, and sweeps follow. -/
structure Life (env : ManagerEnv) (m : ChannelManager) where
  draw : Draw
  now : DateTime
  remotePeer : String
  capacity : UInt64
  durationHours : UInt64
  channel : PaymentChannel
  opens : (openChannel env draw now remotePeer capacity durationHours m).outcome = .ok channel
  /-- The identifier of its escrow is a new one. -/
  fresh : draw.escrowId ∉ m.wallet.escrows
  payments : List Call
  offLedger : ∀ call ∈ payments, call.OffLedger
  close : Call
  closes : Closes env (run (step env)
    (openChannel env draw now remotePeer capacity durationHours m).state payments) channel.id close
  sweeps : List Call
  sweeping : Along (step env) Sweeps (step env (run (step env)
    (openChannel env draw now remotePeer capacity durationHours m).state payments) close) sweeps

namespace Life

variable {env : ManagerEnv} {m : ChannelManager} (l : Life env m)

/-- The manager after the channel was opened. -/
def opened : ChannelManager :=
  (openChannel env l.draw l.now l.remotePeer l.capacity l.durationHours m).state

/-- The manager after the payments, right before the close. -/
def paid : ChannelManager := run (step env) l.opened l.payments

/-- The manager after the close and the sweeps. -/
def settled : ChannelManager := run (step env) (step env l.paid l.close) l.sweeps

end Life

/-- **Settlement.**  At the end of a channel's life the channel is `Closed`, and the
wallet's total has fallen by the channel's remote balance exactly when that
balance was zero before the close. -/
theorem settlement_iff (env : ManagerEnv) {m : ChannelManager} (hsound : Sound m.wallet)
    (l : Life env m) :
    ∃ before after, l.paid.channels.lookup l.channel.id = some before ∧
      l.settled.channels.lookup l.channel.id = some after ∧ after.status = .closed ∧
      (Wallet.total l.settled.wallet + after.remoteBalance.toNat = Wallet.total m.wallet ↔
        before.remoteBalance = 0) := by
  obtain ⟨hsound₁, htotal₁⟩ := openChannel_sound hsound l.fresh (opened_of_ok l.opens)
  have hpaid : l.paid.wallet = l.opened.wallet := wallet_run_offLedger env l.opened l.offLedger
  obtain ⟨before, hbefore, hstep⟩ := step_of_closes l.closes
  have hstep' : step env l.paid l.close = closedIn l.paid l.channel.id before := hstep
  have hsweeping : Along (step env) Sweeps (step env l.paid l.close) l.sweeps := l.sweeping
  have hclosed : Sound (step env l.paid l.close).wallet := by
    rw [hstep']
    show Sound l.paid.wallet
    rw [hpaid]
    exact hsound₁
  obtain ⟨htotal, hchannels⟩ := sweeps_sound hclosed hsweeping
  refine ⟨before, { before with status := .closed }, hbefore, ?_, rfl, ?_⟩
  · unfold Life.settled
    rw [hchannels, hstep']
    exact Finmap.lookup_insert _
  · have hend : Wallet.total l.settled.wallet = Wallet.total m.wallet :=
      calc Wallet.total l.settled.wallet = Wallet.total (step env l.paid l.close).wallet := htotal
        _ = Wallet.total l.paid.wallet := by rw [hstep']; rfl
        _ = Wallet.total l.opened.wallet := by rw [hpaid]
        _ = Wallet.total m.wallet := htotal₁
    rw [hend, toNat_eq]
    show _ + before.remoteBalance.toNat = _ ↔ before.remoteBalance.toNat = (0 : UInt64).toNat
    have hzero : (0 : UInt64).toNat = 0 := rfl
    omega

section Example

open Sample

/-- Two hours after the epoch, when the channel and its escrow have expired. -/
private def later : DateTime := .ofSecs 7200 DateTime.twoHours_inRange

private theorem funded_sound : Sound funded.wallet := ⟨by decide, by decide⟩

/-- Pay bob five over a confirmed channel. -/
private def payments : List Call := confirming ++ [.pay .epoch .epoch channelId 5]

private def sweep : Call := .wallet (.sweepExpiredEscrows (.fixed later "sweep" [⟨"escrow"⟩]))

private def afterPayments : ChannelManager :=
  run (step env) (openChannel env (.fixed .epoch "escrow" []) .epoch "bob" 40 1 funded).state
    payments

private theorem payments_offLedger : ∀ call ∈ payments, call.OffLedger := by
  intro call hcall
  simp only [payments, confirming, List.cons_append, List.nil_append, List.mem_cons,
    List.not_mem_nil, or_false] at hcall
  rcases hcall with rfl | rfl | rfl <;> trivial

private theorem afterPayments_closes :
    Closes env afterPayments newChannel.id (.forceCloseExpired later channelId) :=
  .inr ⟨later, rfl, by decide⟩

private theorem afterPayments_sweeps :
    Sweeps (step env afterPayments (.forceCloseExpired later channelId)) sweep := by
  refine ⟨_, rfl, by decide, ?_⟩
  intro id
  have hkeys : (step env afterPayments (.forceCloseExpired later channelId)).wallet.escrows.keys =
      {⟨"escrow"⟩} := by
    decide
  rw [← Finmap.mem_keys, hkeys]
  simp [Draw.fixed]

/-- Open a channel of forty, pay five through it, force it closed once it has expired,
and sweep. -/
private def expiredLife : Life env funded where
  draw := .fixed .epoch "escrow" []
  now := .epoch
  remotePeer := "bob"
  capacity := 40
  durationHours := 1
  channel := newChannel
  opens := openBob_ok
  fresh := by decide
  payments := payments
  offLedger := payments_offLedger
  close := .forceCloseExpired later channelId
  closes := afterPayments_closes
  sweeps := [sweep]
  sweeping := ⟨afterPayments_sweeps, trivial⟩

theorem settlement_iff_expired :
    ∃ before after, expiredLife.paid.channels.lookup channelId = some before ∧
      expiredLife.settled.channels.lookup channelId = some after ∧ after.status = .closed ∧
      (Wallet.total expiredLife.settled.wallet + after.remoteBalance.toNat =
        Wallet.total funded.wallet ↔ before.remoteBalance = 0) :=
  settlement_iff env funded_sound expiredLife

/-- **The other side is not paid**: five were paid through the channel, it is closed and
its escrow is no longer active, and the wallet has all its hundred again. -/
theorem payment_comes_back :
    ¬ Wallet.IsActive expiredLife.settled.wallet ⟨"escrow"⟩ ∧
      ((expiredLife.settled.channels.lookup channelId).map fun c => (c.status, c.remoteBalance)) =
        some (.closed, 5) ∧
      Wallet.total expiredLife.settled.wallet = 100 ∧
      Wallet.total expiredLife.settled.wallet + 5 ≠ Wallet.total funded.wallet := by
  refine ⟨?_, by decide, by decide, by decide⟩
  rintro ⟨e, he, hs⟩
  have hexpired : (expiredLife.settled.wallet.escrows.lookup ⟨"escrow"⟩).map
      (fun e => decide (e.status = .active)) = some false := by
    decide
  rw [he, Option.map_some, decide_eq_true hs] at hexpired
  cases hexpired

end Example

end Manager
end PeerClaw
