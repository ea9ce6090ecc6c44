import PeerClaw.Channel.Closing
import PeerClaw.Lib.Section
import PeerClaw.Wallet.Active

/-!
# The manager's calls, cut at their locks

A call of the channel manager that takes more than one lock is a task of
several sections, and a manager with calls in flight is a pool of such tasks.
`open_channel` has six: the look at the index, the three of `create_escrow`, and
one each to store and to index the channel.

* `channel_call_alone` — a call that nothing interrupts does what the method does.
* `turns` — what one section can do, with the condition under which it does it.
-/

namespace PeerClaw
namespace Manager

open Lib Lib.Word Lib.Machine

/-- The arguments of `open_channel`, with what it draws. -/
structure Opening where
  draw : Draw
  now : DateTime
  remotePeer : String
  capacity : UInt64
  durationHours : UInt64

/-- What is left of a call, from the section that comes next. -/
inductive Task
  /-- `open_channel` looks at the index. -/
  | openCheck (o : Opening)
  /-- It has the wallet check the spending limits. -/
  | openLimits (o : Opening)
  /-- It has the wallet create the escrow. -/
  | openEscrow (o : Opening)
  /-- It has the wallet save its state. -/
  | openSave (o : Opening)
  /-- It makes the channel and stores it. -/
  | openStore (o : Opening)
  /-- It indexes the channel. -/
  | openIndex (remotePeer : String) (id : ChannelId)
  /-- `finalize_close` sets the status. -/
  | settle (id : ChannelId) (r : ChannelCloseRequest)
  /-- `force_close_expired` sets the status. -/
  | expire (now : DateTime) (id : ChannelId)
  /-- Either of them drops the peer from the index. -/
  | unindex (remotePeer : String)
  /-- `receive_payment` checks the signature. -/
  | receiveCheck (now : DateTime) (s : SignedUpdate)
  /-- It applies the update. -/
  | receiveApply (now : DateTime) (s : SignedUpdate)
  | confirm (id : ChannelId)
  | pay (now stamp : DateTime) (id : ChannelId) (amount : UInt64)
  | close (stamp : DateTime) (id : ChannelId)
  | register (peerId hexPublicKey : String)
  /-- A call of the wallet, cut at its own locks. -/
  | wallet (t : Wallet.Task)

/-- The next section of a call of the wallet. -/
def resumeWallet (env : ManagerEnv) (t : Wallet.Task) : ManagerM (Option Task) := fun m =>
  let next := Wallet.advance env.walletConfig ⟨m.wallet, []⟩ t
  ⟨.ok (next.2.map .wallet), { m with wallet := next.1.state }, []⟩

/-- The section of `open_channel` that stores the channel it has made. -/
def storeChannel (env : ManagerEnv) (o : Opening) : ManagerM PaymentChannel := do
  let channel ← buildChannel env o.now o.remotePeer o.capacity o.durationHours
  insertChannel channel
  return channel

/-- Run the next section; it says what is left of the call. -/
def resume (env : ManagerEnv) : Task → ManagerM (Option Task)
  | .openCheck o => (fun _ => some (.openLimits o)) <$> checkNotIndexed o.remotePeer
  | .openLimits o => (fun _ => some (.openEscrow o)) <$>
      onWallet (Wallet.checkSpendingLimits env.walletConfig o.draw.checkedAt o.capacity)
  | .openEscrow o => (fun _ => some (.openSave o)) <$>
      onWallet (Wallet.createEscrowLocked env.walletConfig o.draw o.capacity o.remotePeer
        ("channel_" ++ o.remotePeer) (o.durationHours * 3600))
  | .openSave o => (fun _ => some (.openStore o)) <$> onWallet (Wallet.saveState o.draw.store)
  | .openStore o => (fun channel => some (.openIndex o.remotePeer channel.id)) <$>
      storeChannel env o
  | .openIndex remotePeer id => (fun _ => none) <$> indexPeer remotePeer id
  | .settle id r => (fun remotePeer => some (.unindex remotePeer)) <$> settleRequest env id r
  | .expire now id => (fun remotePeer => some (.unindex remotePeer)) <$> expireChannel now id
  | .unindex remotePeer => (fun _ => none) <$> unindexPeer remotePeer
  | .receiveCheck now s => (fun _ => some (.receiveApply now s)) <$> checkSigner env s
  | .receiveApply now s => (fun _ => none) <$> applyUpdate now s
  | .confirm id => (fun _ => none) <$> confirmChannel id
  | .pay now stamp id amount => (fun _ => none) <$> pay env now stamp id amount
  | .close stamp id => (fun _ => none) <$> closeChannel env stamp id
  | .register peerId hexPublicKey => (fun _ => none) <$> registerPeerPublicKey peerId hexPublicKey
  | .wallet t => resumeWallet env t

/-- A section that fails or panics ends its call. -/
def advance (env : ManagerEnv) (m : ChannelManager) (t : Task) : ChannelManager × Option Task :=
  ((resume env t m).state, (resume env t m).outcome.toOption.join)

/-- A manager with calls in flight. -/
abbrev ManagerPool := Pool ChannelManager Task

/-- A call before its first section. -/
def Call.task : Call → Task
  | .openChannel draw now remotePeer capacity durationHours =>
      .openCheck ⟨draw, now, remotePeer, capacity, durationHours⟩
  | .confirmChannel id => .confirm id
  | .pay now stamp id amount => .pay now stamp id amount
  | .receivePayment now s => .receiveCheck now s
  | .closeChannel stamp id => .close stamp id
  | .finalizeClose id r => .settle id r
  | .forceCloseExpired now id => .expire now id
  | .registerPeerPublicKey peerId hexPublicKey => .register peerId hexPublicKey
  | .wallet c => .wallet (.begin c)

theorem advance_map {env : ManagerEnv} {t : Task} {α : Type} {x : ManagerM α}
    {f : α → Option Task} (h : resume env t = f <$> x) (m : ChannelManager) :
    advance env m t = ((x m).state, (x m).outcome.toOption.bind f) := by
  unfold advance
  rw [h, Action.map_apply]
  cases (x m).outcome <;> rfl

/-! ## A call on its own -/

theorem runs (env : ManagerEnv) : Section.Runs (resume env) id (advance env) :=
  ⟨fun _ _ => rfl, fun _ _ => rfl⟩

theorem onWallet_bind {α β : Type} (x : WalletM α) (f : α → WalletM β) :
    onWallet (x >>= f) = onWallet x >>= fun a => onWallet (f a) := by
  funext m
  cases hx : (x m.wallet).outcome with
  | ok a =>
      rw [Action.bind_of_ok (onWallet_ok_iff.2 hx), onWallet, Action.bind_of_ok hx]
      rfl
  | err e => simp only [onWallet, bind, Action.bind, hx]
  | panic => simp only [onWallet, bind, Action.bind, hx]

/-- `open_channel`, section by section. -/
theorem openChannel_eq (env : ManagerEnv) (o : Opening) :
    openChannel env o.draw o.now o.remotePeer o.capacity o.durationHours = (do
      checkNotIndexed o.remotePeer
      onWallet (Wallet.checkSpendingLimits env.walletConfig o.draw.checkedAt o.capacity)
      let _escrow ← onWallet (Wallet.createEscrowLocked env.walletConfig o.draw o.capacity
        o.remotePeer ("channel_" ++ o.remotePeer) (o.durationHours * 3600))
      onWallet (Wallet.saveState o.draw.store)
      let channel ← storeChannel env o
      indexPeer o.remotePeer channel.id
      return channel) := by
  have hpure : ∀ e : Escrow, onWallet (pure e) = pure e := fun _ => rfl
  simp only [openChannel, lockFunds, Wallet.createEscrow, storeChannel, onWallet_bind, hpure,
    bind_assoc, pure_bind]

theorem finish_open (env : ManagerEnv) (o : Opening) (m : ChannelManager) :
    Section.finish (advance env) 6 m (some (.openCheck o)) =
      (openChannel env o.draw o.now o.remotePeer o.capacity o.durationHours m).state := by
  rw [openChannel_eq]
  refine Section.finish_bind (runs env) rfl (fun _ => ?_) m
  refine Section.finish_bind (runs env) rfl ?_
  intro _
  refine Section.finish_bind (runs env) rfl ?_
  intro _
  refine Section.finish_bind (runs env) rfl ?_
  intro _
  refine Section.finish_bind (runs env) rfl ?_
  intro _
  exact Section.finish_bind (runs env) rfl fun _ _ => rfl

theorem finish_close {env : ManagerEnv} {t : Task} {x : ManagerM String}
    (h : resume env t = (fun remotePeer => some (.unindex remotePeer)) <$> x) (m : ChannelManager) :
    Section.finish (advance env) 6 m (some t) = ((x >>= unindexPeer) m).state := by
  refine Section.finish_bind (runs env) h (fun remotePeer m => ?_) m
  exact Section.finish_map (runs env) rfl _ m

/-- Once a call of the wallet has let go of the write lock, it changes nothing more. -/
theorem finish_committed (env : ManagerEnv) (n : ℕ) (m : ChannelManager) (w : Wallet.World)
    (c : Wallet.Call) :
    Section.finish (advance env) (n + 1) m ((Wallet.commitSection env.walletConfig w c).2.map .wallet) = m := by
  rcases Wallet.commitSection_left env.walletConfig w c with hleft | ⟨c', hleft⟩
  · rw [hleft]
    rfl
  · rw [hleft]
    exact Section.finish_none ..

theorem finish_wallet (env : ManagerEnv) (c : Wallet.Call) (m : ChannelManager) :
    Section.finish (advance env) 6 m (some (.wallet (.begin c))) =
      { m with wallet := Wallet.step env.walletConfig m.wallet c } := by
  have hadvance : ∀ m t, advance env m (.wallet t) =
      ({ m with wallet := (Wallet.advance env.walletConfig ⟨m.wallet, []⟩ t).1.state },
        (Wallet.advance env.walletConfig ⟨m.wallet, []⟩ t).2.map .wallet) := fun _ _ => rfl
  rw [Wallet.step_eq_locked, Section.finish, hadvance, Wallet.advance]
  cases hc : c.spending with
  | none => exact finish_committed env 4 _ _ c
  | some amount =>
      dsimp only
      split
      · exact finish_committed env 3 _ _ c
      · rfl

/-- **A call that nothing interrupts** does what the method does. -/
theorem channel_call_alone (env : ManagerEnv) (m : ChannelManager) (c : Call) :
    (run (Pool.step (advance env)) ⟨m, []⟩
      (.start c.task :: List.replicate 6 (.resume 0))).shared = step env m c := by
  show (run (Pool.step (advance env)) ⟨m, [some c.task]⟩ (List.replicate 6 (.resume 0))).shared = _
  rw [Section.run_alone]
  cases c with
  | openChannel draw now remotePeer capacity durationHours =>
      rw [step, exec, Action.map_apply]
      exact finish_open env ⟨draw, now, remotePeer, capacity, durationHours⟩ m
  | confirmChannel id =>
      rw [step, exec, Action.map_apply]
      exact Section.finish_map (runs env) rfl _ m
  | pay now stamp id amount =>
      rw [step, exec, Action.map_apply]
      exact Section.finish_map (runs env) rfl _ m
  | receivePayment now s =>
      rw [step, exec, Action.map_apply]
      exact Section.finish_bind (runs env) rfl (fun _ m => Section.finish_map (runs env) rfl _ m) m
  | closeChannel stamp id =>
      rw [step, exec, Action.map_apply]
      exact Section.finish_map (runs env) rfl _ m
  | finalizeClose id r =>
      rw [step, exec, Action.map_apply]
      exact finish_close rfl m
  | forceCloseExpired now id =>
      rw [step, exec, Action.map_apply]
      exact finish_close rfl m
  | registerPeerPublicKey peerId key =>
      rw [step, exec, Action.map_apply]
      exact Section.finish_map (runs env) rfl _ m
  | wallet c =>
      rw [step, exec, Action.map_apply]
      exact finish_wallet env c m

/-! ## What one section can do -/

/-- The task is about to close the channel: its checks pass. -/
def Task.Closes (env : ManagerEnv) (m : ChannelManager) (t : Task) (id : ChannelId)
    (c : PaymentChannel) : Prop :=
  (∃ r, t = .settle id r ∧ CloseChecks env m id r c) ∨
    ∃ now, t = .expire now id ∧ ExpireChecks m now id c

/-- The channel is stored and not closed. -/
def Live (m : ChannelManager) (id : ChannelId) (c : PaymentChannel) : Prop :=
  m.channels.lookup id = some c ∧ c.status ≠ .closed

theorem Task.Closes.live {env : ManagerEnv} {m : ChannelManager} {t : Task} {id : ChannelId}
    {c : PaymentChannel} (h : t.Closes env m id c) : Live m id c := by
  rcases h with ⟨r, -, hc, hst, -⟩ | ⟨now, -, hc, -, hst⟩
  · refine ⟨hc, ?_⟩
    rcases hst with hst | hst <;> simp [hst]
  · exact ⟨hc, hst⟩

/-- The task is a call that neither opens nor closes a channel. -/
def Task.IsOther : Task → Prop
  | .receiveCheck _ _ | .receiveApply _ _ | .confirm _ | .pay _ _ _ _ | .close _ _
  | .register _ _ => True
  | _ => False

/-- The next section of the task can fail; those that write the index cannot. -/
def Task.CanFail : Task → Prop
  | .openIndex _ _ | .unindex _ => False
  | _ => True

theorem Task.IsOther.canFail {t : Task} (h : t.IsOther) : t.CanFail := by
  cases t <;> trivial

/-- What the next section of a task leaves, and what is left of the task. -/
inductive Turns (env : ManagerEnv) (m : ChannelManager) :
    Task → ChannelManager → Option Task → Prop
  /-- The peer is not indexed. -/
  | check (o : Opening) : o.remotePeer ∉ m.byPeer →
      Turns env m (.openCheck o) m (some (.openLimits o))
  /-- The limits allow the escrow. -/
  | allow (o : Opening) : Turns env m (.openLimits o) m (some (.openEscrow o))
  /-- The escrow is created. -/
  | escrow (o : Opening) (w : WalletState) :
      Wallet.Affords env.walletConfig m.wallet o.capacity →
      (∀ id e, Wallet.ActiveAt w id e → Wallet.ActiveAt m.wallet id e ∨
        id = o.draw.escrowId ∧ e.recipient = o.remotePeer ∧ e.jobId = "channel_" ++ o.remotePeer) →
      Turns env m (.openEscrow o) { m with wallet := w } (some (.openSave o))
  /-- The wallet is saved. -/
  | save (o : Opening) : Turns env m (.openSave o) m (some (.openStore o))
  /-- The channel is stored. -/
  | store (o : Opening) (c : PaymentChannel) : PaymentChannel.new env.primitives o.now
      env.identity.peerId o.remotePeer o.capacity o.durationHours = some c →
      Turns env m (.openStore o) { m with channels := m.channels.insert c.id c }
        (some (.openIndex o.remotePeer c.id))
  /-- The channel is indexed. -/
  | index (remotePeer : String) (id : ChannelId) : Turns env m (.openIndex remotePeer id)
      { m with byPeer := m.byPeer.insert remotePeer id } none
  /-- A channel is closed. -/
  | close (t : Task) (id : ChannelId) (c : PaymentChannel) : t.Closes env m id c →
      Turns env m t { m with channels := m.channels.insert id { c with status := .closed } }
        (some (.unindex c.remotePeer))
  /-- The peer of a closed channel is dropped from the index. -/
  | unindex (remotePeer : String) : Turns env m (.unindex remotePeer)
      { m with byPeer := m.byPeer.erase remotePeer } none
  /-- A stored channel is changed, but neither its peer nor whether it is closed. -/
  | touch (t : Task) (id : ChannelId) (c d : PaymentChannel) : t.IsOther →
      m.channels.lookup id = some c → d.remotePeer = c.remotePeer →
      (d.status = .closed ↔ c.status = .closed) →
      Turns env m t { m with channels := m.channels.insert id d } none
  /-- A signature is found good. -/
  | verify (now : DateTime) (s : SignedUpdate) :
      Turns env m (.receiveCheck now s) m (some (.receiveApply now s))
  /-- A key is registered. -/
  | register (peerId hexPublicKey : String) : Turns env m (.register peerId hexPublicKey)
      { m with peerPublicKeys := m.peerPublicKeys.insert peerId hexPublicKey } none
  /-- The wallet does something. -/
  | wallet (t : Wallet.Task) : Turns env m (.wallet t)
      { m with wallet := (Wallet.advance env.walletConfig ⟨m.wallet, []⟩ t).1.state }
      ((Wallet.advance env.walletConfig ⟨m.wallet, []⟩ t).2.map .wallet)
  /-- The section fails, and makes no escrow active. -/
  | stop (t : Task) (w : WalletState) : t.CanFail → Wallet.Shrinks m.wallet w →
      Turns env m t { m with wallet := w } none

theorem Turns.failed {env : ManagerEnv} {m : ChannelManager} {t : Task} (ht : t.CanFail) :
    Turns env m t m none :=
  .stop t m.wallet ht (.refl _)

section Inversion

variable {env : ManagerEnv} {m : ChannelManager}

theorem turns_onChannel {α : Type} {t : Task} {id : ChannelId}
    {f : ChannelManager → PaymentChannel → Except ChannelError (PaymentChannel × α)}
    (ht : t.IsOther) (h : resume env t = (fun _ => none) <$> onChannel id f)
    (hf : ∀ c d a, f m c = .ok (d, a) →
      d.remotePeer = c.remotePeer ∧ (d.status = .closed ↔ c.status = .closed)) :
    Turns env m t (advance env m t).1 (advance env m t).2 := by
  rw [advance_map h]
  rcases (onChannel id f m).outcome.ok_or_not with ⟨a, ho⟩ | ho
  · obtain ⟨c, d, hc, hd⟩ := onChannel_ok_iff.1 ho
    obtain ⟨hpeer, hst⟩ := hf c d a hd
    rw [onChannel_state_of_ok hc hd]
    exact .touch t id c d ht hc hpeer hst
  · rw [onChannel_state_of_not_ok ho, Outcome.toOption_of_not_ok ho]
    exact .failed ht.canFail

theorem turns_close {t : Task} (id : ChannelId) {x : ManagerM String} (ht : t.CanFail)
    (h : resume env t = (fun remotePeer => some (.unindex remotePeer)) <$> x)
    (hok : ∀ peer, (x m).outcome = .ok peer → ∃ c, t.Closes env m id c ∧ peer = c.remotePeer ∧
      (x m).state = { m with channels := m.channels.insert id { c with status := .closed } })
    (hnot : (x m).outcome.isOk = false → (x m).state = m) :
    Turns env m t (advance env m t).1 (advance env m t).2 := by
  rw [advance_map h]
  rcases (x m).outcome.ok_or_not with ⟨peer, ho⟩ | ho
  · obtain ⟨c, hcloses, rfl, hstate⟩ := hok peer ho
    rw [hstate, ho]
    exact .close t id c hcloses
  · rw [hnot ho, Outcome.toOption_of_not_ok ho]
    exact .failed ht

theorem turns_read {α : Type} {t t' : Task} {x : WalletM α} (ht : t.CanFail)
    (h : resume env t = (fun _ => some t') <$> onWallet x) (hx : (x m.wallet).state = m.wallet)
    (hok : Turns env m t m (some t')) :
    Turns env m t (advance env m t).1 (advance env m t).2 := by
  have hstate : (onWallet x m).state = m := by
    show { m with wallet := (x m.wallet).state } = m
    rw [hx]
  rw [advance_map h, hstate]
  rcases (onWallet x m).outcome.ok_or_not with ⟨a, ho⟩ | ho
  · rw [ho]
    exact hok
  · rw [Outcome.toOption_of_not_ok ho]
    exact .failed ht

theorem turns_escrow (o : Opening) :
    Turns env m (.openEscrow o) (advance env m (.openEscrow o)).1
      (advance env m (.openEscrow o)).2 := by
  rw [advance_map (t := .openEscrow o) rfl]
  rcases (onWallet (Wallet.createEscrowLocked env.walletConfig o.draw o.capacity o.remotePeer
      ("channel_" ++ o.remotePeer) (o.durationHours * 3600)) m).outcome.ok_or_not with ⟨e, ho⟩ | ho
  · rw [ho]
    refine .escrow o _ (Wallet.createEscrowLocked_affords (onWallet_ok_iff.1 ho)) ?_
    intro id d hd
    rcases Wallet.createEscrowLocked_active hd with hold | ⟨hnew, -⟩
    · exact .inl hold
    · exact .inr hnew
  · rw [Outcome.toOption_of_not_ok ho]
    refine .stop _ _ trivial ?_
    intro id d hd
    rcases Wallet.createEscrowLocked_active hd with hold | ⟨-, hok⟩
    · exact hold
    · obtain ⟨e, he⟩ := Outcome.isOk_iff.1 hok
      exact absurd (onWallet_ok_iff.2 he) (Outcome.ne_ok ho e)

theorem storeChannel_of_new {o : Opening} {c : PaymentChannel}
    (h : PaymentChannel.new env.primitives o.now env.identity.peerId o.remotePeer o.capacity
      o.durationHours = some c) :
    storeChannel env o m = ⟨.ok c, { m with channels := m.channels.insert c.id c }, []⟩ := by
  have hbuild : buildChannel env o.now o.remotePeer o.capacity o.durationHours m = ⟨.ok c, m, []⟩ := by
    unfold buildChannel
    rw [h]
  unfold storeChannel
  rw [Action.bind_of_ok (by rw [hbuild]), hbuild]
  rfl

theorem storeChannel_of_panic {o : Opening}
    (h : PaymentChannel.new env.primitives o.now env.identity.peerId o.remotePeer o.capacity
      o.durationHours = none) :
    storeChannel env o m = ⟨.panic, m, []⟩ := by
  have hbuild : buildChannel env o.now o.remotePeer o.capacity o.durationHours m = ⟨.panic, m, []⟩ := by
    unfold buildChannel
    rw [h]
  unfold storeChannel
  show Action.bind _ _ m = _
  simp only [Action.bind, hbuild]

theorem turns_store (o : Opening) :
    Turns env m (.openStore o) (advance env m (.openStore o)).1 (advance env m (.openStore o)).2 := by
  rw [advance_map (t := .openStore o) rfl]
  cases hnew : PaymentChannel.new env.primitives o.now env.identity.peerId o.remotePeer o.capacity
      o.durationHours with
  | none =>
      rw [storeChannel_of_panic hnew]
      exact .failed trivial
  | some c =>
      rw [storeChannel_of_new hnew]
      exact .store o c hnew

/-- **What one section of a call can do.** -/
theorem turns (env : ManagerEnv) (m : ChannelManager) (t : Task) :
    Turns env m t (advance env m t).1 (advance env m t).2 := by
  cases t with
  | openCheck o =>
      rw [advance_map (t := .openCheck o) rfl]
      unfold checkNotIndexed
      split
      · exact .failed trivial
      · next h => exact .check o h
  | openLimits o => exact turns_read trivial rfl (Wallet.checkSpendingLimits_state ..) (.allow o)
  | openEscrow o => exact turns_escrow o
  | openSave o =>
      refine turns_read trivial rfl ?_ (.save o)
      cases o.draw.store <;> rfl
  | openStore o => exact turns_store o
  | openIndex remotePeer id => exact .index remotePeer id
  | settle id r =>
      refine turns_close id trivial rfl (fun peer hok => ?_) onChannel_state_of_not_ok
      obtain ⟨c, hc, hpeer⟩ := settleRequest_ok_iff.1 hok
      exact ⟨c, .inl ⟨r, rfl, hc⟩, hpeer, settleRequest_state hc⟩
  | expire now id =>
      refine turns_close id trivial rfl (fun peer hok => ?_) onChannel_state_of_not_ok
      obtain ⟨c, hc, hpeer⟩ := expireChannel_ok_iff.1 hok
      exact ⟨c, .inr ⟨now, rfl, hc⟩, hpeer, expireChannel_state hc⟩
  | unindex remotePeer => exact .unindex remotePeer
  | receiveCheck now s =>
      rw [advance_map (t := .receiveCheck now s) rfl, checkSigner_state]
      rcases (checkSigner env s m).outcome.ok_or_not with ⟨u, ho⟩ | ho
      · rw [ho]
        exact .verify now s
      · rw [Outcome.toOption_of_not_ok ho]
        exact .failed trivial
  | receiveApply now s =>
      refine turns_onChannel trivial rfl ?_
      intro c d a hf
      cases hr : c.receivePayment now s.update with
      | error e => rw [hr] at hf; cases hf
      | ok c' =>
          rw [hr] at hf
          cases hf
          rw [(PaymentChannel.receivePayment_ok_iff.1 hr).2]
          exact ⟨rfl, Iff.rfl⟩
  | confirm id =>
      refine turns_onChannel trivial rfl ?_
      intro c d a hf
      obtain ⟨hst, hd⟩ := PaymentChannel.guard_ok_iff.1 hf
      cases hd
      have hopening : c.status = .opening := not_not.1 hst
      exact ⟨rfl, by simp [hopening]⟩
  | pay now stamp id amount =>
      refine turns_onChannel trivial rfl ?_
      intro c d a hf
      cases hp : c.createPayment now stamp amount with
      | error e => rw [hp] at hf; cases hf
      | ok r =>
          rw [hp] at hf
          cases hf
          rw [(PaymentChannel.createPayment_ok_iff.1 hp).2.2.1]
          exact ⟨rfl, Iff.rfl⟩
  | close stamp id =>
      refine turns_onChannel trivial rfl ?_
      intro c d a hf
      obtain ⟨hst, hd⟩ := PaymentChannel.guard_ok_iff.1 hf
      cases hd
      rcases not_not.1 hst with hopen | hopen <;> exact ⟨rfl, by simp [hopen]⟩
  | register peerId key => exact .register peerId key
  | wallet t => exact .wallet t

end Inversion

end Manager
end PeerClaw
