import PeerClaw.Channel.Manager

/-!
# What a call does to a channel

`channel_moves` inverts one step of the manager once and for all: a channel that
is stored stays stored unless a channel is opened over it, and a call either
pays from it, applies an update to it, or changes its status, in each case under
the conditions the code checks.  `openChannel_cases` says the same of opening.
-/

namespace PeerClaw
namespace Manager

open Lib Lib.Word

/-- The call makes a payment from the channel, and the checks let it. -/
def Pays (id : ChannelId) (c : PaymentChannel) (call : Call) (amount : UInt64) : Prop :=
  ∃ now stamp, call = .pay now stamp id amount ∧ c.isOperational now ∧ amount ≤ c.localBalance

/-- The call applies a signed update to the channel, and the checks let it. -/
def Receives (env : ManagerEnv) (m : ChannelManager) (id : ChannelId) (call : Call)
    (s : SignedUpdate) : Prop :=
  ∃ now, call = .receivePayment now s ∧ s.update.channelId = id ∧ Accepts env m now s

/-- What one call can make of a stored channel. -/
inductive Moves (env : ManagerEnv) (m : ChannelManager) (call : Call) (id : ChannelId)
    (c : PaymentChannel) : PaymentChannel → Prop
  /-- A payment was made. -/
  | paid (amount : UInt64) : Pays id c call amount → Moves env m call id c (c.paid amount)
  /-- An update was applied. -/
  | received (s : SignedUpdate) : Receives env m id call s →
      Moves env m call id c (received c s)
  /-- At most the status changed, and a closed channel stays closed. -/
  | restatus (status : ChannelStatus) : (∀ amount, ¬ Pays id c call amount) →
      (∀ s, ¬ Receives env m id call s) → (c.status = .closed → status = .closed) →
      Moves env m call id c { c with status := status }

/-- A call of any other kind, or on another channel, is no payment here. -/
theorem Moves.same {env : ManagerEnv} {m : ChannelManager} {call : Call} {id : ChannelId}
    {c : PaymentChannel} (hpay : ∀ amount, ¬ Pays id c call amount)
    (hreceive : ∀ s, ¬ Receives env m id call s) : Moves env m call id c c :=
  .restatus c.status hpay hreceive fun h => h

section Inversion

variable {env : ManagerEnv} {m : ChannelManager} {id : ChannelId} {c : PaymentChannel}

theorem moves_onChannel {α : Type} {call : Call} {j : ChannelId}
    {f : ChannelManager → PaymentChannel → Except ChannelError (PaymentChannel × α)}
    (hc : m.channels.lookup id = some c) (hpay : ∀ amount, ¬ Pays id c call amount)
    (hreceive : ∀ s, ¬ Receives env m id call s)
    (hf : ∀ d a, f m c = .ok (d, a) → ∃ status, d = { c with status := status } ∧
      (c.status = .closed → status = .closed)) :
    ∃ c', (onChannel j f m).state.channels.lookup id = some c' ∧ Moves env m call id c c' := by
  rw [lookup_onChannel hc]
  by_cases hj : id = j
  · rw [if_pos hj]
    refine ⟨_, rfl, ?_⟩
    cases hfc : f m c with
    | error e => exact .same hpay hreceive
    | ok r =>
        obtain ⟨status, hd, hclosed⟩ := hf r.1 r.2 hfc
        dsimp only
        rw [hd]
        exact .restatus status hpay hreceive hclosed
  · rw [if_neg hj]
    exact ⟨c, rfl, .same hpay hreceive⟩

theorem pay_moves (now stamp : DateTime) (j : ChannelId) (amount : UInt64)
    (hc : m.channels.lookup id = some c) :
    ∃ c', (pay env now stamp j amount m).state.channels.lookup id = some c' ∧
      Moves env m (.pay now stamp j amount) id c c' := by
  have hreceive : ∀ s, ¬ Receives env m id (.pay now stamp j amount) s := by
    rintro s ⟨_, hcall, -⟩
    cases hcall
  unfold pay
  rw [lookup_onChannel hc]
  by_cases hj : id = j
  · subst hj
    rw [if_pos rfl]
    refine ⟨_, rfl, ?_⟩
    cases hp : c.createPayment now stamp amount with
    | error e =>
        refine .same ?_ hreceive
        rintro a ⟨_, _, hcall, hop, hle⟩
        cases hcall
        rw [PaymentChannel.createPayment_of_operational hop hle] at hp
        cases hp
    | ok r =>
        obtain ⟨hop, hle, hpaid, -⟩ := PaymentChannel.createPayment_ok_iff.1 hp
        dsimp only
        rw [hpaid]
        exact .paid amount ⟨now, stamp, rfl, hop, hle⟩
  · rw [if_neg hj]
    refine ⟨c, rfl, .same ?_ hreceive⟩
    rintro a ⟨_, _, hcall, -⟩
    cases hcall
    exact hj rfl

theorem receivePayment_moves (now : DateTime) (s : SignedUpdate)
    (hc : m.channels.lookup id = some c) :
    ∃ c', (receivePayment env now s m).state.channels.lookup id = some c' ∧
      Moves env m (.receivePayment now s) id c c' := by
  have hpay : ∀ amount, ¬ Pays id c (.receivePayment now s) amount := by
    rintro a ⟨_, _, hcall, -⟩
    cases hcall
  obtain ⟨hiff, hok, hnot⟩ := receivePayment_spec env now s m
  by_cases hacc : Accepts env m now s
  · have hstored := hacc
    obtain ⟨d, hd, -⟩ := hstored
    rw [hok (hiff.2 hacc) d hd]
    by_cases hid : id = s.update.channelId
    · subst hid
      rw [hc] at hd
      cases hd
      exact ⟨Manager.received c s, by simp, .received s ⟨now, rfl, rfl, hacc⟩⟩
    · refine ⟨c, by simp [hid, hc], .same hpay ?_⟩
      rintro s' ⟨_, hcall, hid', -⟩
      cases hcall
      exact hid hid'.symm
  · rw [hnot fun h => hacc (hiff.1 h)]
    refine ⟨c, hc, .same hpay ?_⟩
    rintro s' ⟨_, hcall, -, hacc'⟩
    cases hcall
    exact hacc hacc'

/-- **What a call does to a channel that is stored.** -/
theorem channel_moves {call : Call} (hcall : call.KeepsChannels)
    (hc : m.channels.lookup id = some c) :
    ∃ c', (step env m call).channels.lookup id = some c' ∧ Moves env m call id c c' := by
  have hnoPay : (∀ now stamp j amount, call ≠ .pay now stamp j amount) →
      ∀ amount, ¬ Pays id c call amount := by
    rintro h amount ⟨now, stamp, rfl, -⟩
    exact h _ _ _ _ rfl
  have hnoReceive : (∀ now s, call ≠ .receivePayment now s) → ∀ s, ¬ Receives env m id call s := by
    rintro h s ⟨now, rfl, -⟩
    exact h _ _ rfl
  cases call with
  | openChannel draw now remotePeer capacity durationHours => exact hcall.elim
  | pay now stamp j amount =>
      rw [step, exec, Action.map_apply]
      exact pay_moves now stamp j amount hc
  | receivePayment now s =>
      rw [step, exec, Action.map_apply]
      exact receivePayment_moves now s hc
  | confirmChannel j =>
      rw [step, exec, Action.map_apply]
      refine moves_onChannel hc (hnoPay (by rintro _ _ _ _ ⟨⟩)) (hnoReceive (by rintro _ _ ⟨⟩)) ?_
      intro d a hf
      obtain ⟨hst, hd⟩ := PaymentChannel.guard_ok_iff.1 hf
      cases hd
      exact ⟨.open, rfl, fun h => by simp [h] at hst⟩
  | closeChannel stamp j =>
      rw [step, exec, Action.map_apply]
      refine moves_onChannel hc (hnoPay (by rintro _ _ _ _ ⟨⟩)) (hnoReceive (by rintro _ _ ⟨⟩)) ?_
      intro d a hf
      obtain ⟨hst, hd⟩ := PaymentChannel.guard_ok_iff.1 hf
      cases hd
      exact ⟨.closing, rfl, fun h => by simp [h] at hst⟩
  | finalizeClose j r =>
      rw [step, exec, Action.map_apply]
      show ∃ c', ((settleRequest env j r >>= unindexPeer) m).state.channels.lookup id = some c' ∧ _
      rw [(bind_unindexPeer _ m).1]
      refine moves_onChannel hc (hnoPay (by rintro _ _ _ _ ⟨⟩)) (hnoReceive (by rintro _ _ ⟨⟩)) ?_
      intro d a hf
      obtain ⟨hst, hd⟩ := PaymentChannel.guard_ok_iff.1 hf
      cases hkey : m.peerPublicKeys.lookup c.remotePeer with
      | none => rw [hkey] at hd; cases hd
      | some key =>
          rw [hkey] at hd
          obtain ⟨-, hd⟩ := PaymentChannel.guard_ok_iff.1 hd
          obtain ⟨-, hd⟩ := PaymentChannel.guard_ok_iff.1 hd
          cases hd
          exact ⟨.closed, rfl, fun _ => rfl⟩
  | forceCloseExpired now j =>
      rw [step, exec, Action.map_apply]
      show ∃ c', ((expireChannel now j >>= unindexPeer) m).state.channels.lookup id = some c' ∧ _
      rw [(bind_unindexPeer _ m).1]
      refine moves_onChannel hc (hnoPay (by rintro _ _ _ _ ⟨⟩)) (hnoReceive (by rintro _ _ ⟨⟩)) ?_
      intro d a hf
      obtain ⟨-, hd⟩ := PaymentChannel.guard_ok_iff.1 hf
      obtain ⟨-, hd⟩ := PaymentChannel.guard_ok_iff.1 hd
      cases hd
      exact ⟨.closed, rfl, fun _ => rfl⟩
  | registerPeerPublicKey peerId key =>
      exact ⟨c, hc, .same (hnoPay (by rintro _ _ _ _ ⟨⟩)) (hnoReceive (by rintro _ _ ⟨⟩))⟩
  | wallet w =>
      rw [step, exec, Action.map_apply]
      exact ⟨c, hc, .same (hnoPay (by rintro _ _ _ _ ⟨⟩)) (hnoReceive (by rintro _ _ ⟨⟩))⟩

end Inversion

/-! ## Nonces -/

/-- The channel has used its last nonce. -/
def Exhausted (c : PaymentChannel) : Prop := c.nonce.toNat = 2 ^ 64 - 1

/-- The nonce after a payment is no smaller exactly when there was one left. -/
theorem le_succ_nonce_iff (c : PaymentChannel) : c.nonce ≤ c.nonce + 1 ↔ ¬ Exhausted c := by
  rw [toNat_le, Exhausted]
  constructor
  · intro hle hmax
    rw [toNat_succ_max hmax] at hle
    omega
  · intro hne
    rw [toNat_succ hne]
    omega

theorem accepts_of_receives {env : ManagerEnv} {m : ChannelManager} {id : ChannelId} {call : Call}
    {s : SignedUpdate} {c : PaymentChannel} (h : Receives env m id call s)
    (hc : m.channels.lookup id = some c) : ∃ now, c.Accepts now s.update := by
  obtain ⟨now, -, hid, d, hd, -, -, hacc⟩ := h
  rw [hid, hc] at hd
  cases hd
  exact ⟨now, hacc⟩

/-! ## Opening -/

/-- What a successful opening needed and left. -/
structure Opened (env : ManagerEnv) (m : ChannelManager) (draw : Draw) (now : DateTime)
    (remotePeer : String) (capacity durationHours : UInt64) (c : PaymentChannel) : Prop where
  notIndexed : remotePeer ∉ m.byPeer
  built : PaymentChannel.new env.primitives now env.identity.peerId remotePeer capacity
    durationHours = some c
  locked : (lockFunds env draw remotePeer capacity durationHours m.wallet).outcome.isOk
  leaves : (openChannel env draw now remotePeer capacity durationHours m).state =
    { m with
      wallet := (lockFunds env draw remotePeer capacity durationHours m.wallet).state
      channels := m.channels.insert c.id c
      byPeer := m.byPeer.insert remotePeer c.id }

/-- **What opening a channel does**: it stores and indexes a new channel, or it
changes nothing but the wallet. -/
theorem openChannel_cases (env : ManagerEnv) (m : ChannelManager) (draw : Draw) (now : DateTime)
    (remotePeer : String) (capacity durationHours : UInt64) :
    (∃ c, (openChannel env draw now remotePeer capacity durationHours m).outcome = .ok c ∧
      Opened env m draw now remotePeer capacity durationHours c) ∨
    ((openChannel env draw now remotePeer capacity durationHours m).outcome.isOk = false ∧
      ∃ w, (openChannel env draw now remotePeer capacity durationHours m).state =
        { m with wallet := w }) := by
  by_cases hidx : remotePeer ∈ m.byPeer
  · refine .inr ⟨?_, m.wallet, ?_⟩ <;>
      simp [openChannel, bind, Action.bind, checkNotIndexed, hidx, Outcome.isOk]
  · cases hl : (lockFunds env draw remotePeer capacity durationHours m.wallet).outcome with
    | err e =>
        refine .inr ⟨?_, (lockFunds env draw remotePeer capacity durationHours m.wallet).state, ?_⟩ <;>
          simp [openChannel, bind, Action.bind, checkNotIndexed, hidx, onWallet, hl, Outcome.isOk]
    | panic =>
        refine .inr ⟨?_, (lockFunds env draw remotePeer capacity durationHours m.wallet).state, ?_⟩ <;>
          simp [openChannel, bind, Action.bind, checkNotIndexed, hidx, onWallet, hl, Outcome.isOk]
    | ok e =>
        cases hn : PaymentChannel.new env.primitives now env.identity.peerId remotePeer capacity
            durationHours with
        | none =>
            refine .inr ⟨?_, (lockFunds env draw remotePeer capacity durationHours m.wallet).state, ?_⟩ <;>
              simp [openChannel, bind, Action.bind, checkNotIndexed, hidx, onWallet, hl, buildChannel,
                hn, Outcome.isOk]
        | some c =>
            refine .inl ⟨c, ?_, hidx, hn, by rw [hl]; rfl, ?_⟩ <;>
              simp [openChannel, bind, Action.bind, checkNotIndexed, hidx, onWallet, hl, buildChannel,
                hn, insertChannel, indexPeer, pure, Action.pure]

theorem opened_of_ok {env : ManagerEnv} {m : ChannelManager} {draw : Draw} {now : DateTime}
    {remotePeer : String} {capacity durationHours : UInt64} {c : PaymentChannel}
    (h : (openChannel env draw now remotePeer capacity durationHours m).outcome = .ok c) :
    Opened env m draw now remotePeer capacity durationHours c := by
  rcases openChannel_cases env m draw now remotePeer capacity durationHours with
    ⟨d, hd, hopened⟩ | ⟨hfail, -⟩
  · rw [h] at hd
    cases hd
    exact hopened
  · rw [h] at hfail
    cases hfail

end Manager
end PeerClaw
