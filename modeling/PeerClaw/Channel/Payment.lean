import PeerClaw.Channel.State
import PeerClaw.Wallet.State

/-!
# One payment channel

`PaymentChannel` of `channel/mod.rs`: its fields, how one is made, and the two
operations that move its balances.  Both fail before they have changed
anything, so they return an error or the channel they leave.

`createPayment_ok_iff` and `receivePayment_ok_iff` say when each succeeds and
with what; everything proved about payments goes through them.
-/

namespace PeerClaw

open Lib.Word

/-- Why a channel operation fails. -/
inductive ChannelError
  | notFound (id : ChannelId)
  | alreadyExists (peer : String)
  | invalidState (message : String)
  | insufficientBalance (available required : UInt64)
  | invalidSignature
  | nonceMismatch (expected got : UInt64)
  | wallet (e : WalletError)
  deriving DecidableEq, Repr

/-- Status of a payment channel. -/
inductive ChannelStatus
  /-- Being opened, awaiting peer confirmation. -/
  | opening
  /-- Open and operational. -/
  | open
  /-- Being closed cooperatively. -/
  | closing
  /-- Closed. -/
  | closed
  /-- Force-closed due to dispute. -/
  | disputed
  deriving DecidableEq, Repr

/-- A payment channel between two peers. -/
structure PaymentChannel where
  id : ChannelId
  localPeer : String
  remotePeer : String
  /-- Total capacity locked in the channel, in μPCLAW. -/
  capacity : UInt64
  /-- Our side of the channel. -/
  localBalance : UInt64
  /-- Their side of the channel. -/
  remoteBalance : UInt64
  nonce : UInt64
  status : ChannelStatus
  openedAt : DateTime
  /-- The channel must be closed by this time. -/
  expiresAt : DateTime
  latestRemoteSignature : Option String
  updateCount : UInt64
  totalSent : UInt64
  totalReceived : UInt64
  deriving DecidableEq

namespace PaymentChannel

/-- `PaymentChannel::new` at the instant `now`; the funder starts with the whole
capacity.  The expiry date is computed with panicking arithmetic: `none` is the
panic. -/
def new (P : Primitives) (now : DateTime) (localPeer remotePeer : String)
    (capacity durationHours : UInt64) : Option PaymentChannel := do
  let duration ← PeerClaw.durationHours durationHours.toInt64
  let expiresAt ← now.plus duration
  return {
    id := ChannelId.fromPeers P localPeer remotePeer
    localPeer := localPeer
    remotePeer := remotePeer
    capacity := capacity
    localBalance := capacity
    remoteBalance := 0
    nonce := 0
    status := .opening
    openedAt := now
    expiresAt := expiresAt
    latestRemoteSignature := none
    updateCount := 0
    totalSent := 0
    totalReceived := 0 }

/-- `PaymentChannel::is_expired`, at the instant `now`. -/
def isExpired (c : PaymentChannel) (now : DateTime) : Bool := decide (c.expiresAt < now)

/-- `PaymentChannel::is_operational`, at the instant `now`. -/
def isOperational (c : PaymentChannel) (now : DateTime) : Bool :=
  decide (c.status = .open) && !c.isExpired now

/-- `PaymentChannel::create_payment`: `now` is read by the check, `stamp` for the
update. -/
def createPayment (c : PaymentChannel) (now stamp : DateTime) (amount : UInt64) :
    Except ChannelError (PaymentChannel × ChannelUpdate) :=
  if !c.isOperational now then .error (.invalidState "Channel is not operational")
  else if c.localBalance < amount then .error (.insufficientBalance c.localBalance amount)
  else
    let c' := { c with
      localBalance := c.localBalance - amount
      remoteBalance := c.remoteBalance + amount
      nonce := c.nonce + 1
      updateCount := c.updateCount + 1
      totalSent := c.totalSent + amount }
    .ok (c', ⟨c'.id, c'.nonce, c'.localBalance, c'.remoteBalance, stamp⟩)

/-- `PaymentChannel::receive_payment`. -/
def receivePayment (c : PaymentChannel) (now : DateTime) (u : ChannelUpdate) :
    Except ChannelError PaymentChannel :=
  if !c.isOperational now then .error (.invalidState "Channel is not operational")
  else if u.nonce ≠ c.nonce + 1 then .error (.nonceMismatch (c.nonce + 1) u.nonce)
  else if u.localBalance + u.remoteBalance ≠ c.capacity then
    .error (.invalidState "Balance mismatch in update")
  else
    let amountReceived := satSub u.localBalance c.remoteBalance
    .ok { c with
      localBalance := u.remoteBalance
      remoteBalance := u.localBalance
      nonce := u.nonce
      updateCount := c.updateCount + 1
      totalReceived := c.totalReceived + amountReceived }

/-! ## When payments go through, and what they leave -/

/-- A new channel: the funder's whole capacity, nonce zero, no payment yet. -/
theorem new_some {P : Primitives} {now : DateTime} {localPeer remotePeer : String}
    {capacity durationHours : UInt64} {c : PaymentChannel}
    (h : new P now localPeer remotePeer capacity durationHours = some c) :
    c.id = ChannelId.fromPeers P localPeer remotePeer ∧ c.remotePeer = remotePeer ∧
      c.capacity = capacity ∧ c.localBalance = capacity ∧ c.remoteBalance = 0 ∧ c.nonce = 0 ∧
      c.status = .opening := by
  unfold new at h
  cases hd : PeerClaw.durationHours durationHours.toInt64 with
  | none => rw [hd] at h; cases h
  | some d =>
      rw [hd, Option.bind_eq_bind, Option.bind_some] at h
      cases hp : now.plus d with
      | none => rw [hp] at h; cases h
      | some t =>
          rw [hp] at h
          cases h
          exact ⟨rfl, rfl, rfl, rfl, rfl, rfl, rfl⟩

/-- What a payment of `amount` leaves. -/
def paid (c : PaymentChannel) (amount : UInt64) : PaymentChannel :=
  { c with
    localBalance := c.localBalance - amount
    remoteBalance := c.remoteBalance + amount
    nonce := c.nonce + 1
    updateCount := c.updateCount + 1
    totalSent := c.totalSent + amount }

/-- The update that says what the channel is now. -/
def snapshot (c : PaymentChannel) (stamp : DateTime) : ChannelUpdate :=
  ⟨c.id, c.nonce, c.localBalance, c.remoteBalance, stamp⟩

/-- What an accepted update leaves. -/
def applied (c : PaymentChannel) (u : ChannelUpdate) : PaymentChannel :=
  { c with
    localBalance := u.remoteBalance
    remoteBalance := u.localBalance
    nonce := u.nonce
    updateCount := c.updateCount + 1
    totalReceived := c.totalReceived + satSub u.localBalance c.remoteBalance }

/-- The checks of `receive_payment`. -/
def Accepts (c : PaymentChannel) (now : DateTime) (u : ChannelUpdate) : Prop :=
  c.isOperational now ∧ u.nonce = c.nonce + 1 ∧ u.localBalance + u.remoteBalance = c.capacity

instance (c : PaymentChannel) (now : DateTime) (u : ChannelUpdate) : Decidable (c.Accepts now u) :=
  inferInstanceAs (Decidable (_ ∧ _ ∧ _))

/-- A guard that returns early is passed by a result that is not its error. -/
theorem guard_ok_iff {ε α : Type} {p : Prop} [Decidable p] {e : ε} {x : Except ε α} {a : α} :
    (if p then .error e else x) = Except.ok a ↔ ¬ p ∧ x = .ok a := by
  by_cases hp : p
  · rw [if_pos hp]
    exact ⟨nofun, fun h => absurd hp h.1⟩
  · rw [if_neg hp]
    exact ⟨fun h => ⟨hp, h⟩, And.right⟩

theorem createPayment_ok_iff {c c' : PaymentChannel} {now stamp : DateTime} {amount : UInt64}
    {u : ChannelUpdate} : c.createPayment now stamp amount = .ok (c', u) ↔
      c.isOperational now ∧ amount ≤ c.localBalance ∧ c' = c.paid amount ∧ u = c'.snapshot stamp := by
  have hresult : (Except.ok (c.paid amount, (c.paid amount).snapshot stamp) : Except ChannelError _) =
      .ok (c', u) ↔ c' = c.paid amount ∧ u = c'.snapshot stamp := by
    constructor
    · intro h
      cases h
      exact ⟨rfl, rfl⟩
    · rintro ⟨rfl, rfl⟩
      rfl
  unfold createPayment
  rw [guard_ok_iff, guard_ok_iff]
  show _ ∧ _ ∧ Except.ok (c.paid amount, (c.paid amount).snapshot stamp) = _ ↔ _
  rw [hresult, UInt64.not_lt]
  simp

theorem receivePayment_ok_iff {c c' : PaymentChannel} {now : DateTime} {u : ChannelUpdate} :
    c.receivePayment now u = .ok c' ↔ c.Accepts now u ∧ c' = c.applied u := by
  have hresult : (Except.ok (c.applied u) : Except ChannelError _) = .ok c' ↔ c' = c.applied u := by
    rw [Except.ok.injEq, eq_comm]
  unfold receivePayment Accepts
  rw [guard_ok_iff, guard_ok_iff, guard_ok_iff]
  show _ ∧ _ ∧ _ ∧ Except.ok (c.applied u) = _ ↔ _
  rw [hresult]
  simp [and_assoc]

/-- A payment can be made exactly when the channel is operational and holds the
amount. -/
theorem createPayment_of_operational {c : PaymentChannel} {now : DateTime} {amount : UInt64}
    (hop : c.isOperational now) (hle : amount ≤ c.localBalance) (stamp : DateTime) :
    c.createPayment now stamp amount = .ok (c.paid amount, (c.paid amount).snapshot stamp) :=
  createPayment_ok_iff.2 ⟨hop, hle, rfl, rfl⟩

/-! ## Balances -/

/-- The balances add up to the capacity, as numbers and not only as words. -/
def Balanced (c : PaymentChannel) : Prop :=
  c.localBalance.toNat + c.remoteBalance.toNat = c.capacity.toNat

instance (c : PaymentChannel) : Decidable c.Balanced :=
  inferInstanceAs (Decidable (_ = _))

theorem paid_toNat {c : PaymentChannel} (hb : c.Balanced) {amount : UInt64}
    (hle : amount ≤ c.localBalance) :
    (c.paid amount).localBalance.toNat = c.localBalance.toNat - amount.toNat ∧
      (c.paid amount).remoteBalance.toNat = c.remoteBalance.toNat + amount.toNat := by
  have hcap := c.capacity.toNat_lt
  have hleN := toNat_le.1 hle
  unfold Balanced at hb
  refine ⟨toNat_sub_of_le hle, toNat_add_of_fits ?_⟩
  omega

theorem balanced_paid {c : PaymentChannel} (hb : c.Balanced) {amount : UInt64}
    (hle : amount ≤ c.localBalance) : (c.paid amount).Balanced := by
  obtain ⟨hlocal, hremote⟩ := paid_toNat hb hle
  have hleN := toNat_le.1 hle
  unfold Balanced at hb ⊢
  rw [hlocal, hremote]
  show _ = c.capacity.toNat
  omega

/-- An accepted update leaves the channel balanced exactly when its two balances
add up without wrapping. -/
theorem balanced_applied_iff {c : PaymentChannel} {now : DateTime} {u : ChannelUpdate}
    (h : c.Accepts now u) :
    (c.applied u).Balanced ↔ u.localBalance.toNat + u.remoteBalance.toNat < 2 ^ 64 := by
  have hcap := c.capacity.toNat_lt
  show u.remoteBalance.toNat + u.localBalance.toNat = c.capacity.toNat ↔ _
  constructor
  · intro heq
    omega
  · intro hlt
    rw [← h.2.2, toNat_add_of_fits hlt, Nat.add_comm]

/-! ## The two views of one channel -/

/-- The two parties see the same channel from its two sides. -/
structure Mirrors (a b : PaymentChannel) : Prop where
  id : a.id = b.id
  capacity : a.capacity = b.capacity
  ours : a.localBalance = b.remoteBalance
  theirs : a.remoteBalance = b.localBalance
  nonce : a.nonce = b.nonce

theorem Mirrors.symm {a b : PaymentChannel} (h : Mirrors a b) : Mirrors b a :=
  ⟨h.id.symm, h.capacity.symm, h.theirs.symm, h.ours.symm, h.nonce.symm⟩

instance (a b : PaymentChannel) : Decidable (Mirrors a b) :=
  decidable_of_iff (a.id = b.id ∧ a.capacity = b.capacity ∧ a.localBalance = b.remoteBalance ∧
      a.remoteBalance = b.localBalance ∧ a.nonce = b.nonce)
    ⟨fun h => ⟨h.1, h.2.1, h.2.2.1, h.2.2.2.1, h.2.2.2.2⟩,
      fun h => ⟨h.id, h.capacity, h.ours, h.theirs, h.nonce⟩⟩

/-- The balances add up to the capacity, as words. -/
def SumsUp (c : PaymentChannel) : Prop := c.localBalance + c.remoteBalance = c.capacity

instance (c : PaymentChannel) : Decidable c.SumsUp :=
  inferInstanceAs (Decidable (_ = _))

theorem sumsUp_paid {c : PaymentChannel} (h : c.SumsUp) (amount : UInt64) :
    (c.paid amount).SumsUp := by
  show c.localBalance - amount + (c.remoteBalance + amount) = c.capacity
  rw [UInt64.add_comm c.remoteBalance, ← UInt64.add_assoc, UInt64.sub_add_cancel]
  exact h

end PaymentChannel
end PeerClaw
