import PeerClaw.Channel.Payment
import PeerClaw.Wallet.Operations

/-!
# The channel manager

`ChannelManager` of `channel/mod.rs`: the channels by identifier, the index by
remote peer, the registered keys, and the wallet that locks their funds.  A
method that takes its locks one after the other is the sequence of its
sections; the sections that change one channel under the write lock are all
`onChannel` with their own checks.

* `onChannel_ok_iff`, `onChannel_state_of_not_ok` — when such a section succeeds,
  and that it changes nothing when it does not.
* `receivePayment_spec` — when a payment is received, and what it leaves.
-/

namespace PeerClaw

open Lib Lib.Word

/-- What a manager is built with and never changes. -/
structure ManagerEnv where
  primitives : Primitives
  identity : NodeIdentity
  walletConfig : WalletConfig

/-- What the locks of a manager guard. -/
structure ChannelManager where
  wallet : WalletState
  channels : FiniteMap ChannelId PaymentChannel
  /-- Channels by remote peer. -/
  byPeer : FiniteMap String ChannelId
  /-- Hex-encoded keys of remote peers. -/
  peerPublicKeys : FiniteMap String String

/-- `ChannelManager::new`. -/
def ChannelManager.new (wallet : WalletState) : ChannelManager := ⟨wallet, ∅, ∅, ∅⟩

/-- An action on a manager. -/
abbrev ManagerM (α : Type) := Action ChannelManager ChannelError α

namespace Manager

/-- Let the wallet do something; its error becomes one of the channel. -/
def onWallet {α : Type} (x : WalletM α) : ManagerM α := fun m =>
  let eff := x m.wallet
  ⟨match eff.outcome with
    | .ok a => .ok a
    | .err e => .err (.wallet e)
    | .panic => .panic,
    { m with wallet := eff.state }, eff.arith⟩

/-- Change one channel under the write lock: it must be there, and `f` either
fails or says what becomes of it. -/
def onChannel {α : Type} (id : ChannelId)
    (f : ChannelManager → PaymentChannel → Except ChannelError (PaymentChannel × α)) :
    ManagerM α := fun m =>
  match m.channels.lookup id with
  | none => ⟨.err (.notFound id), m, []⟩
  | some c =>
      match f m c with
      | .error e => ⟨.err e, m, []⟩
      | .ok (c', a) => ⟨.ok a, { m with channels := m.channels.insert id c' }, []⟩

/-! ## Opening -/

/-- The first section of `open_channel`: no channel with this peer is indexed. -/
def checkNotIndexed (remotePeer : String) : ManagerM Unit := fun m =>
  if remotePeer ∈ m.byPeer then ⟨.err (.alreadyExists remotePeer), m, []⟩ else ⟨.ok (), m, []⟩

/-- The escrow `open_channel` asks the wallet for. -/
def lockFunds (env : ManagerEnv) (draw : Draw) (remotePeer : String)
    (capacity durationHours : UInt64) : WalletM Escrow :=
  Wallet.createEscrow env.walletConfig draw capacity remotePeer ("channel_" ++ remotePeer)
    (durationHours * 3600)

/-- Make the channel, outside any lock. -/
def buildChannel (env : ManagerEnv) (now : DateTime) (remotePeer : String)
    (capacity durationHours : UInt64) : ManagerM PaymentChannel := fun m =>
  match PaymentChannel.new env.primitives now env.identity.peerId remotePeer capacity durationHours with
  | none => ⟨.panic, m, []⟩
  | some c => ⟨.ok c, m, []⟩

/-- Store a channel under its identifier. -/
def insertChannel (c : PaymentChannel) : ManagerM Unit := fun m =>
  ⟨.ok (), { m with channels := m.channels.insert c.id c }, []⟩

/-- Enter a channel in the index. -/
def indexPeer (remotePeer : String) (id : ChannelId) : ManagerM Unit := fun m =>
  ⟨.ok (), { m with byPeer := m.byPeer.insert remotePeer id }, []⟩

/-- `ChannelManager::open_channel`; `now` is read by `PaymentChannel::new`. -/
def openChannel (env : ManagerEnv) (draw : Draw) (now : DateTime) (remotePeer : String)
    (capacity durationHours : UInt64) : ManagerM PaymentChannel := do
  checkNotIndexed remotePeer
  let _escrow ← onWallet (lockFunds env draw remotePeer capacity durationHours)
  let channel ← buildChannel env now remotePeer capacity durationHours
  insertChannel channel
  indexPeer remotePeer channel.id
  return channel

/-! ## Payments -/

/-- `ChannelManager::confirm_channel`. -/
def confirmChannel (id : ChannelId) : ManagerM Unit :=
  onChannel id fun _ c =>
    if c.status ≠ .opening then .error (.invalidState "Channel is not in Opening state")
    else .ok ({ c with status := .open }, ())

/-- `ChannelManager::pay`. -/
def pay (env : ManagerEnv) (now stamp : DateTime) (id : ChannelId) (amount : UInt64) :
    ManagerM SignedUpdate :=
  onChannel id fun _ c =>
    match c.createPayment now stamp amount with
    | .error e => .error e
    | .ok (c', u) => .ok (c', u.sign env.primitives env.identity)

/-- What `receive_payment` checks before it takes the write lock: the channel is
there, the signer is its remote peer, and the signature is that peer's. -/
def checkSigner (env : ManagerEnv) (s : SignedUpdate) : ManagerM Unit := fun m =>
  match m.channels.lookup s.update.channelId with
  | none => ⟨.err (.notFound s.update.channelId), m, []⟩
  | some c =>
      if s.signer ≠ c.remotePeer then ⟨.err .invalidSignature, m, []⟩
      else
        match m.peerPublicKeys.lookup c.remotePeer with
        | none => ⟨.err (.invalidState
            ("No public key registered for remote peer " ++ c.remotePeer)), m, []⟩
        | some key =>
            if s.verifyWithHexKey env.primitives key then ⟨.ok (), m, []⟩
            else ⟨.err .invalidSignature, m, []⟩

/-- The section of `receive_payment` under the write lock. -/
def applyUpdate (now : DateTime) (s : SignedUpdate) : ManagerM Unit :=
  onChannel s.update.channelId fun _ c =>
    match c.receivePayment now s.update with
    | .error e => .error e
    | .ok c' => .ok ({ c' with latestRemoteSignature := some s.signature }, ())

/-- `ChannelManager::receive_payment`. -/
def receivePayment (env : ManagerEnv) (now : DateTime) (s : SignedUpdate) : ManagerM Unit := do
  checkSigner env s
  applyUpdate now s

/-! ## Closing -/

/-- `ChannelManager::close_channel`. -/
def closeChannel (env : ManagerEnv) (stamp : DateTime) (id : ChannelId) :
    ManagerM ChannelCloseRequest :=
  onChannel id fun _ c =>
    if ¬ (c.status = .open ∨ c.status = .opening) then
      .error (.invalidState "Channel cannot be closed from this state")
    else
      .ok ({ c with status := .closing },
        .new env.primitives stamp id c.localBalance c.remoteBalance c.nonce env.identity)

/-- The section of `finalize_close` under the write lock, which reads the keys
under it; it returns the remote peer. -/
def settleRequest (env : ManagerEnv) (id : ChannelId) (r : ChannelCloseRequest) :
    ManagerM String :=
  onChannel id fun m c =>
    if ¬ (c.status = .closing ∨ c.status = .open) then
      .error (.invalidState "Channel is not in a closeable state")
    else
      match m.peerPublicKeys.lookup c.remotePeer with
      | none => .error (.invalidState
          ("No public key registered for remote peer " ++ c.remotePeer))
      | some key =>
          if !r.verify env.primitives key then .error .invalidSignature
          else if r.finalLocalBalance + r.finalRemoteBalance ≠ c.capacity then
            .error (.invalidState "Close request balances do not match channel capacity")
          else .ok ({ c with status := .closed }, c.remotePeer)

/-- Drop a peer from the index. -/
def unindexPeer (remotePeer : String) : ManagerM Unit := fun m =>
  ⟨.ok (), { m with byPeer := m.byPeer.erase remotePeer }, []⟩

/-- `ChannelManager::finalize_close`. -/
def finalizeClose (env : ManagerEnv) (id : ChannelId) (r : ChannelCloseRequest) :
    ManagerM Unit := do
  let remotePeer ← settleRequest env id r
  unindexPeer remotePeer

/-- The section of `force_close_expired` under the write lock. -/
def expireChannel (now : DateTime) (id : ChannelId) : ManagerM String :=
  onChannel id fun _ c =>
    if !c.isExpired now then
      .error (.invalidState "Channel has not expired yet; use cooperative close instead")
    else if c.status = .closed then .error (.invalidState "Channel is already closed")
    else .ok ({ c with status := .closed }, c.remotePeer)

/-- `ChannelManager::force_close_expired`. -/
def forceCloseExpired (now : DateTime) (id : ChannelId) : ManagerM Unit := do
  let remotePeer ← expireChannel now id
  unindexPeer remotePeer

/-- `ChannelManager::register_peer_public_key`. -/
def registerPeerPublicKey (peerId hexPublicKey : String) : ManagerM Unit := fun m =>
  ⟨.ok (), { m with peerPublicKeys := m.peerPublicKeys.insert peerId hexPublicKey }, []⟩

/-! ## One interface to all of them -/

/-- A call of the manager's interface, or of the wallet it shares. -/
inductive Call
  | openChannel (draw : Draw) (now : DateTime) (remotePeer : String)
      (capacity durationHours : UInt64)
  | confirmChannel (id : ChannelId)
  | pay (now stamp : DateTime) (id : ChannelId) (amount : UInt64)
  | receivePayment (now : DateTime) (s : SignedUpdate)
  | closeChannel (stamp : DateTime) (id : ChannelId)
  | finalizeClose (id : ChannelId) (r : ChannelCloseRequest)
  | forceCloseExpired (now : DateTime) (id : ChannelId)
  | registerPeerPublicKey (peerId hexPublicKey : String)
  | wallet (c : Wallet.Call)

/-- What a call returns. -/
inductive Reply
  | channel (c : PaymentChannel)
  | done
  | update (s : SignedUpdate)
  | closeRequest (r : ChannelCloseRequest)
  | wallet (r : Wallet.Reply)

/-- Run one call. -/
def exec (env : ManagerEnv) : Call → ManagerM Reply
  | .openChannel draw now remotePeer capacity durationHours =>
      .channel <$> openChannel env draw now remotePeer capacity durationHours
  | .confirmChannel id => (fun _ => .done) <$> confirmChannel id
  | .pay now stamp id amount => .update <$> pay env now stamp id amount
  | .receivePayment now s => (fun _ => .done) <$> receivePayment env now s
  | .closeChannel stamp id => .closeRequest <$> closeChannel env stamp id
  | .finalizeClose id r => (fun _ => .done) <$> finalizeClose env id r
  | .forceCloseExpired now id => (fun _ => .done) <$> forceCloseExpired now id
  | .registerPeerPublicKey peerId key => (fun _ => .done) <$> registerPeerPublicKey peerId key
  | .wallet c => .wallet <$> onWallet (Wallet.exec env.walletConfig c)

/-- The state after one call. -/
def step (env : ManagerEnv) (m : ChannelManager) (c : Call) : ChannelManager :=
  (exec env c m).state

theorem step_receivePayment (env : ManagerEnv) (now : DateTime) (s : SignedUpdate)
    (m : ChannelManager) :
    step env m (.receivePayment now s) = (receivePayment env now s m).state := by
  rw [step, exec, Action.map_apply]

/-- The call does not open a channel. -/
def Call.KeepsChannels : Call → Prop
  | .openChannel _ _ _ _ _ => False
  | _ => True

instance : DecidablePred Call.KeepsChannels := fun c => by
  cases c <;> unfold Call.KeepsChannels <;> infer_instance

theorem onWallet_ok_iff {α : Type} {x : WalletM α} {m : ChannelManager} {a : α} :
    (onWallet x m).outcome = .ok a ↔ (x m.wallet).outcome = .ok a := by
  unfold onWallet
  cases h : (x m.wallet).outcome <;> simp [h]

/-! ## One channel under the write lock -/

section OnChannel

variable {α : Type} {id : ChannelId}
  {f : ChannelManager → PaymentChannel → Except ChannelError (PaymentChannel × α)}
  {m : ChannelManager}

/-- The section succeeds when the channel is there and its checks pass. -/
theorem onChannel_ok_iff {a : α} : (onChannel id f m).outcome = .ok a ↔
    ∃ c c', m.channels.lookup id = some c ∧ f m c = .ok (c', a) := by
  unfold onChannel
  cases hc : m.channels.lookup id with
  | none => simp
  | some c =>
      cases hf : f m c with
      | error e => simp [hf]
      | ok r =>
          obtain ⟨c', b⟩ := r
          simp [hf]

theorem onChannel_state_of_ok {c c' : PaymentChannel} {a : α}
    (hc : m.channels.lookup id = some c) (hf : f m c = .ok (c', a)) :
    onChannel id f m = ⟨.ok a, { m with channels := m.channels.insert id c' }, []⟩ := by
  unfold onChannel
  simp only [hc, hf]

/-- **A section that fails leaves everything as it was.** -/
theorem onChannel_state_of_not_ok (h : (onChannel id f m).outcome.isOk = false) :
    (onChannel id f m).state = m := by
  unfold onChannel at h ⊢
  cases hc : m.channels.lookup id with
  | none => rfl
  | some c =>
      simp only [hc] at h
      cases hf : f m c with
      | error e => simp only [hf]
      | ok r =>
          simp only [hf] at h
          cases h

theorem lookup_onChannel {j : ChannelId} {c : PaymentChannel} (hc : m.channels.lookup j = some c) :
    (onChannel id f m).state.channels.lookup j =
      if j = id then some (match f m c with
        | .error _ => c
        | .ok (c', _) => c') else some c := by
  unfold onChannel
  by_cases hj : j = id
  · subst hj
    rw [if_pos rfl]
    simp only [hc]
    cases f m c with
    | error e => exact hc
    | ok r => simp
  · rw [if_neg hj]
    cases m.channels.lookup id with
    | none => exact hc
    | some d =>
        dsimp only
        cases f m d with
        | error e => exact hc
        | ok r => simp [hj, hc]

theorem onChannel_rest : (onChannel id f m).state.wallet = m.wallet ∧
    (onChannel id f m).state.byPeer = m.byPeer ∧
    (onChannel id f m).state.peerPublicKeys = m.peerPublicKeys := by
  unfold onChannel
  cases m.channels.lookup id with
  | none => exact ⟨rfl, rfl, rfl⟩
  | some c =>
      dsimp only
      cases f m c with
      | error e => exact ⟨rfl, rfl, rfl⟩
      | ok r => exact ⟨rfl, rfl, rfl⟩

/-- Dropping a peer from the index afterwards changes the index only. -/
theorem bind_unindexPeer (x : ManagerM String) (m : ChannelManager) :
    ((x >>= unindexPeer) m).state.channels = (x m).state.channels ∧
      ((x >>= unindexPeer) m).state.wallet = (x m).state.wallet ∧
      ((x >>= unindexPeer) m).state.peerPublicKeys = (x m).state.peerPublicKeys := by
  rcases (x m).outcome.ok_or_not with ⟨a, hx⟩ | hx
  · rw [Action.bind_of_ok hx]
    exact ⟨rfl, rfl, rfl⟩
  · rw [(Action.bind_of_not_ok (f := unindexPeer) hx).2.1]
    exact ⟨rfl, rfl, rfl⟩

end OnChannel

/-! ## Receiving a payment -/

/-- The checks of `receive_payment`: the channel is there, its remote peer signed
the update under the key registered for it, and the channel accepts it. -/
def Accepts (env : ManagerEnv) (m : ChannelManager) (now : DateTime) (s : SignedUpdate) : Prop :=
  ∃ c, m.channels.lookup s.update.channelId = some c ∧ s.signer = c.remotePeer ∧
    (∃ key, m.peerPublicKeys.lookup c.remotePeer = some key ∧
      s.verifyWithHexKey env.primitives key) ∧
    c.Accepts now s.update

/-- What an accepted update makes of its channel. -/
def received (c : PaymentChannel) (s : SignedUpdate) : PaymentChannel :=
  { c.applied s.update with latestRemoteSignature := some s.signature }

theorem checkSigner_state (env : ManagerEnv) (s : SignedUpdate) (m : ChannelManager) :
    (checkSigner env s m).state = m := by
  unfold checkSigner
  cases m.channels.lookup s.update.channelId with
  | none => rfl
  | some c =>
      dsimp only
      split
      · rfl
      · cases m.peerPublicKeys.lookup c.remotePeer with
        | none => rfl
        | some key =>
            dsimp only
            split <;> rfl

theorem checkSigner_ok_iff {env : ManagerEnv} {s : SignedUpdate} {m : ChannelManager} :
    (checkSigner env s m).outcome = .ok () ↔
      ∃ c, m.channels.lookup s.update.channelId = some c ∧ s.signer = c.remotePeer ∧
        ∃ key, m.peerPublicKeys.lookup c.remotePeer = some key ∧
          s.verifyWithHexKey env.primitives key := by
  unfold checkSigner
  cases hc : m.channels.lookup s.update.channelId with
  | none => simp
  | some c =>
      by_cases hsigner : s.signer = c.remotePeer
      · cases hkey : m.peerPublicKeys.lookup c.remotePeer with
        | none => simp [hsigner, hkey]
        | some key =>
            by_cases hv : s.verifyWithHexKey env.primitives key
            · simp [hsigner, hkey, hv]
            · simp [hsigner, hkey, hv]
      · simp [hsigner]

theorem applyUpdate_ok_iff {now : DateTime} {s : SignedUpdate} {m : ChannelManager} :
    (applyUpdate now s m).outcome = .ok () ↔
      ∃ c, m.channels.lookup s.update.channelId = some c ∧ c.Accepts now s.update := by
  unfold applyUpdate
  rw [onChannel_ok_iff]
  constructor
  · rintro ⟨c, c', hc, hf⟩
    refine ⟨c, hc, ?_⟩
    cases hr : c.receivePayment now s.update with
    | error e => rw [hr] at hf; cases hf
    | ok c'' => exact (PaymentChannel.receivePayment_ok_iff.1 hr).1
  · rintro ⟨c, hc, hacc⟩
    refine ⟨c, received c s, hc, ?_⟩
    rw [PaymentChannel.receivePayment_ok_iff.2 ⟨hacc, rfl⟩]
    rfl

/-- **When a payment is received**: exactly when its checks pass, and then its
channel becomes what the update says; otherwise nothing changes. -/
theorem receivePayment_spec (env : ManagerEnv) (now : DateTime) (s : SignedUpdate)
    (m : ChannelManager) :
    ((receivePayment env now s m).outcome = .ok () ↔ Accepts env m now s) ∧
      ((receivePayment env now s m).outcome = .ok () →
        ∀ c, m.channels.lookup s.update.channelId = some c →
          (receivePayment env now s m).state =
            { m with channels := m.channels.insert s.update.channelId (received c s) }) ∧
      ((receivePayment env now s m).outcome ≠ .ok () → (receivePayment env now s m).state = m) := by
  have hstate := checkSigner_state env s m
  by_cases hsigner : (checkSigner env s m).outcome = .ok ()
  · have hbind : receivePayment env now s m = ⟨(applyUpdate now s m).outcome,
        (applyUpdate now s m).state, (checkSigner env s m).arith ++ (applyUpdate now s m).arith⟩ := by
      show (checkSigner env s >>= fun _ => applyUpdate now s) m = _
      rw [Action.bind_of_ok hsigner, hstate]
    rw [hbind]
    refine ⟨?_, ?_, ?_⟩
    · show (applyUpdate now s m).outcome = .ok () ↔ _
      rw [applyUpdate_ok_iff]
      obtain ⟨c, hc, hpeer, hkey⟩ := checkSigner_ok_iff.1 hsigner
      constructor
      · rintro ⟨d, hd, hacc⟩
        exact ⟨d, hd, by rw [hc] at hd; cases hd; exact ⟨hpeer, hkey, hacc⟩⟩
      · rintro ⟨d, hd, -, -, hacc⟩
        exact ⟨d, hd, hacc⟩
    · intro hok c hc
      obtain ⟨d, hd, hacc⟩ := applyUpdate_ok_iff.1 hok
      rw [hc] at hd
      cases hd
      show (applyUpdate now s m).state = _
      unfold applyUpdate
      refine congrArg Effect.state (onChannel_state_of_ok (a := ()) hc ?_)
      rw [PaymentChannel.receivePayment_ok_iff.2 ⟨hacc, rfl⟩]
      rfl
    · intro hnot
      exact onChannel_state_of_not_ok (Outcome.not_ok hnot)
  · obtain ⟨hout, hst, -⟩ := Action.bind_of_not_ok (f := fun _ => applyUpdate now s)
      (Outcome.not_ok hsigner)
    have hnot : (receivePayment env now s m).outcome ≠ .ok () := Outcome.ne_ok hout ()
    refine ⟨⟨fun h => absurd h hnot, ?_⟩, fun h => absurd h hnot, fun _ => ?_⟩
    · rintro ⟨c, hc, hpeer, hkey, -⟩
      exact absurd (checkSigner_ok_iff.2 ⟨c, hc, hpeer, hkey⟩) hsigner
    · show ((checkSigner env s >>= fun _ => applyUpdate now s) m).state = m
      rw [hst, hstate]

/-! ## A manager to look at

Concrete runs are evaluated with stand-ins for the libraries: a hash that keeps
the first bytes, and signatures that carry the key and a checksum. -/

namespace Sample

/-- A checksum of a message, in place of what a signature depends on. -/
def digest (message : List UInt8) : List UInt8 :=
  List.replicate 32 (message.foldl (fun h b => 31 * h + b) 7)

def primitives : Primitives where
  blake3 := fun message => (message ++ List.replicate 32 0).take 32
  sign := fun secret message => secret ++ digest message
  keyValid := fun _ => true
  verify := fun key message sig => sig == key ++ digest message

def alice : NodeIdentity := ⟨List.replicate 32 1, "alice"⟩

def bob : NodeIdentity := ⟨List.replicate 32 2, "bob"⟩

def env : ManagerEnv := ⟨primitives, alice, ⟨1000, 1000, 1000, 0⟩⟩

def channelId : ChannelId := .fromPeers primitives "alice" "bob"

/-- A wallet of a hundred and no channel. -/
def funded : ChannelManager := .new { WalletState.default with available := 100 }

/-- Open a channel of forty with bob, for an hour. -/
def openBob (escrowId : String) : Call :=
  .openChannel (.fixed .epoch escrowId []) .epoch "bob" 40 1

/-- Learn bob's key, and have the channel with him confirmed. -/
def confirming : List Call :=
  [.registerPeerPublicKey "bob" (hexEncode bob.signingKey), .confirmChannel channelId]

/-- The channel `openBob` opens. -/
def newChannel : PaymentChannel where
  id := channelId
  localPeer := "alice"
  remotePeer := "bob"
  capacity := 40
  localBalance := 40
  remoteBalance := 0
  nonce := 0
  status := .opening
  openedAt := .epoch
  expiresAt := .ofSecs 3600 DateTime.hour_inRange
  latestRemoteSignature := none
  updateCount := 0
  totalSent := 0
  totalReceived := 0

/-- The same channel once it is confirmed. -/
def confirmedChannel : PaymentChannel := { newChannel with status := .open }

/-- The manager with that channel open. -/
def confirmed : ChannelManager :=
  (openBob "escrow" :: confirming).foldl (step env) funded

theorem confirmed_channel : confirmed.channels.lookup channelId = some confirmedChannel := by decide

theorem openBob_ok :
    (openChannel env (.fixed .epoch "escrow" []) .epoch "bob" 40 1 funded).outcome =
      .ok newChannel := by
  decide

/-- What bob signs: the nonce, his balance and ours. -/
def fromBob (nonce his ours : UInt64) : SignedUpdate :=
  (ChannelUpdate.mk channelId nonce his ours .epoch).sign primitives bob

/-- The manager knows bob's key. -/
def KnowsBob (m : ChannelManager) : Prop :=
  m.peerPublicKeys.lookup "bob" = some (hexEncode bob.signingKey)

theorem confirmed_knowsBob : KnowsBob confirmed := rfl

theorem bob_key : primitives.BelongsTo bob.signingKey bob where
  length := rfl
  valid := rfl
  sigLength := fun message => by simp [primitives, bob, digest]
  verifies := fun message => by simp [primitives]

theorem accepts_fromBob {m : ChannelManager} {c : PaymentChannel} {now : DateTime}
    {nonce his ours : UInt64} (hkey : KnowsBob m) (hc : m.channels.lookup channelId = some c)
    (hpeer : c.remotePeer = "bob") (hacc : c.Accepts now (fromBob nonce his ours).update) :
    Accepts env m now (fromBob nonce his ours) := by
  refine ⟨c, hc, hpeer.symm, ⟨hexEncode bob.signingKey, ?_, ?_⟩, hacc⟩
  · rw [hpeer]
    exact hkey
  · exact SignedUpdate.verify_sign bob_key _

theorem receive_fromBob {m : ChannelManager} {c : PaymentChannel} {now : DateTime}
    {nonce his ours : UInt64} (hkey : KnowsBob m) (hc : m.channels.lookup channelId = some c)
    (hpeer : c.remotePeer = "bob") (hacc : c.Accepts now (fromBob nonce his ours).update) :
    (receivePayment env now (fromBob nonce his ours) m).outcome = .ok () ∧
      (receivePayment env now (fromBob nonce his ours) m).state =
        { m with channels := m.channels.insert channelId (received c (fromBob nonce his ours)) } := by
  obtain ⟨hiff, hstate, -⟩ := receivePayment_spec env now (fromBob nonce his ours) m
  have hok := hiff.2 (accepts_fromBob hkey hc hpeer hacc)
  exact ⟨hok, hstate hok c hc⟩

end Sample

end Manager
end PeerClaw
