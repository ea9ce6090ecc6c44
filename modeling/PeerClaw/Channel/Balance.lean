import PeerClaw.Channel.Transitions
import PeerClaw.Lib.Machine

/-!
# Balances under updates of a hostile peer

A signed update carries both balances, and `receive_payment` only compares
their `u64` sum with the capacity.

* `balances_iff` — over every run of calls on an opened channel, the balances
  add up to the capacity and the nonce never decreases **exactly when** no
  accepted update wraps in that sum and nothing is paid or accepted at the last
  nonce.
* `receive_direction_iff` — an accepted update moves money towards us exactly
  when it claims no more for its signer than the signer has.
-/

namespace PeerClaw
namespace Manager

open Lib Lib.Word Lib.Machine

/-! ## Balances that add up -/

/-- The channel is stored, and its balances add up. -/
def BalancedAt (id : ChannelId) (m : ChannelManager) : Prop :=
  ∃ c, m.channels.lookup id = some c ∧ c.Balanced

instance (id : ChannelId) (m : ChannelManager) : Decidable (BalancedAt id m) :=
  decidable_of_iff (((m.channels.lookup id).map fun c => decide c.Balanced) = some true) (by
    simp [BalancedAt])

/-- The call does not decrease the nonce of the channel. -/
def NonceKept (env : ManagerEnv) (id : ChannelId) (m : ChannelManager) (call : Call) : Prop :=
  ∀ c c', m.channels.lookup id = some c → (step env m call).channels.lookup id = some c' →
    c.nonce ≤ c'.nonce

/-- No word operation of the call on the channel wraps: an accepted update adds up
below `2 ^ 64`, and a payment is neither made nor accepted at the last nonce. -/
def Exact (env : ManagerEnv) (id : ChannelId) (m : ChannelManager) (call : Call) : Prop :=
  ∀ c, m.channels.lookup id = some c →
    (∀ s, Receives env m id call s →
      s.update.localBalance.toNat + s.update.remoteBalance.toNat < 2 ^ 64 ∧ ¬ Exhausted c) ∧
    ∀ amount, Pays id c call amount → ¬ Exhausted c

/-- One call on a balanced channel keeps it balanced and its nonce from falling
exactly when nothing wraps. -/
theorem balanced_step_iff {env : ManagerEnv} {id : ChannelId} {m : ChannelManager} {call : Call}
    (hcall : call.KeepsChannels) (h : BalancedAt id m) :
    BalancedAt id (step env m call) ∧ NonceKept env id m call ↔ Exact env id m call := by
  obtain ⟨c, hc, hb⟩ := h
  obtain ⟨c', hc', hmoves⟩ := channel_moves hcall hc
  -- both sides speak about `c` and `c'` only
  have hleft : BalancedAt id (step env m call) ∧ NonceKept env id m call ↔
      c'.Balanced ∧ c.nonce ≤ c'.nonce := by
    unfold BalancedAt NonceKept
    rw [hc, hc']
    simp
  have hright : Exact env id m call ↔
      (∀ s, Receives env m id call s →
        s.update.localBalance.toNat + s.update.remoteBalance.toNat < 2 ^ 64 ∧ ¬ Exhausted c) ∧
      ∀ amount, Pays id c call amount → ¬ Exhausted c := by
    unfold Exact
    rw [hc]
    simp
  rw [hleft, hright]
  cases hmoves with
  | paid amount hpay =>
      obtain ⟨now, stamp, rfl, hop, hle⟩ := hpay
      have hnone : ∀ s, ¬ Receives env m id (.pay now stamp id amount) s := by
        rintro s ⟨_, hcall', -⟩
        cases hcall'
      have hnonce : c.nonce ≤ (c.paid amount).nonce ↔ ¬ Exhausted c := le_succ_nonce_iff c
      rw [hnonce]
      constructor
      · rintro ⟨-, hleft⟩
        exact ⟨fun s hs => absurd hs (hnone s), fun _ _ => hleft⟩
      · rintro ⟨-, hpays⟩
        exact ⟨c.balanced_paid hb hle, hpays amount ⟨now, stamp, rfl, hop, hle⟩⟩
  | received s hreceive =>
      obtain ⟨now, hacc⟩ := accepts_of_receives hreceive hc
      have hbal := PaymentChannel.balanced_applied_iff hacc
      have hnonce : c.nonce ≤ (received c s).nonce ↔ ¬ Exhausted c := by
        rw [← le_succ_nonce_iff, ← hacc.2.1]
        rfl
      have hsame : (received c s).Balanced ↔ (c.applied s.update).Balanced := Iff.rfl
      have hcopy := hreceive
      obtain ⟨now', hreceiveCall, -⟩ := hcopy
      have hone : ∀ s', Receives env m id call s' → s' = s := by
        rintro s' ⟨_, hcall', -⟩
        rw [hreceiveCall] at hcall'
        cases hcall'
        rfl
      have hnoPay : ∀ amount, ¬ Pays id c call amount := by
        rintro amount ⟨_, _, hcall', -⟩
        rw [hreceiveCall] at hcall'
        cases hcall'
      rw [hnonce, hsame, hbal]
      constructor
      · rintro ⟨hsum, hleft⟩
        refine ⟨fun s' hs' => ?_, fun a ha => absurd ha (hnoPay a)⟩
        rw [hone s' hs']
        exact ⟨hsum, hleft⟩
      · rintro ⟨hreceives, -⟩
        exact hreceives s hreceive
  | restatus status hpay hreceive hclosed =>
      constructor
      · rintro -
        exact ⟨fun s hs => absurd hs (hreceive s), fun a ha => absurd ha (hpay a)⟩
      · rintro -
        exact ⟨hb, UInt64.le_refl _⟩

theorem balancedAt_opened {env : ManagerEnv} {m : ChannelManager} {draw : Draw} {now : DateTime}
    {remotePeer : String} {capacity durationHours : UInt64} {c : PaymentChannel}
    (h : (openChannel env draw now remotePeer capacity durationHours m).outcome = .ok c) :
    BalancedAt c.id (openChannel env draw now remotePeer capacity durationHours m).state := by
  have hopened := opened_of_ok h
  obtain ⟨-, -, hcap, hlocal, hremote, -⟩ := PaymentChannel.new_some hopened.built
  refine ⟨c, ?_, ?_⟩
  · rw [hopened.leaves]
    simp
  · unfold PaymentChannel.Balanced
    rw [hlocal, hremote, hcap]
    rfl

/-- **When the balances add up.**  Over every run of calls after a channel was
opened, its balances add up to its capacity in every state and its nonce never
decreases exactly when no call on the way wraps: every accepted update adds up
below `2 ^ 64`, and nothing is paid or accepted at the last nonce. -/
theorem balances_iff (env : ManagerEnv) (m : ChannelManager) (draw : Draw) (now : DateTime)
    (remotePeer : String) (capacity durationHours : UInt64) {c : PaymentChannel}
    (hopen : (openChannel env draw now remotePeer capacity durationHours m).outcome = .ok c)
    {calls : List Call} (hcalls : ∀ call ∈ calls, call.KeepsChannels) :
    (Always (step env) (BalancedAt c.id)
        (openChannel env draw now remotePeer capacity durationHours m).state calls ∧
      Along (step env) (NonceKept env c.id)
        (openChannel env draw now remotePeer capacity durationHours m).state calls) ↔
      Along (step env) (Exact env c.id)
        (openChannel env draw now remotePeer capacity durationHours m).state calls :=
  always_along_iff (fun _ _ hI hcall => balanced_step_iff hcall hI) (balancedAt_opened hopen)
    (along_of_forall hcalls)

section Example

open Sample

/-- An honest run. -/
private def honest : List Call :=
  [.confirmChannel channelId, .pay .epoch .epoch channelId 3]

private theorem honest_exact :
    Along (step env) (Exact env channelId) (step env funded (openBob "escrow")) honest := by
  refine ⟨?_, ?_, trivial⟩
  · intro c hc
    refine ⟨?_, ?_⟩
    · rintro s ⟨_, hcall, -⟩
      cases hcall
    · rintro amount ⟨_, _, hcall, -⟩
      cases hcall
  · intro c hc
    refine ⟨?_, ?_⟩
    · rintro s ⟨_, hcall, -⟩
      cases hcall
    · rintro amount - hmax
      have hfirst : (((step env (step env funded (openBob "escrow"))
          (.confirmChannel channelId)).channels.lookup channelId).map fun c => c.nonce) = some 0 := by
        decide
      rw [hc] at hfirst
      have hzero : c.nonce = 0 := Option.some.inj hfirst
      rw [Exhausted, hzero] at hmax
      exact absurd hmax (by decide)

/-- An honest run keeps the channel balanced. -/
theorem balances_iff_honest :
    Always (step env) (BalancedAt channelId) (step env funded (openBob "escrow")) honest :=
  ((balances_iff env funded (.fixed .epoch "escrow" []) .epoch "bob" 40 1 openBob_ok
    (by decide)).2 honest_exact).1

/-- Bob's balances add up to forty only modulo `2 ^ 64`. -/
private def wrapping : List Call :=
  confirming ++ [.receivePayment .epoch (fromBob 1 18446744073709551615 41)]

/-- **The balances need not add up**: after opening a channel, an update of bob's
whose sum wraps to the capacity leaves both sides with more than there is. -/
theorem wrapping_update_unbalances :
    (openChannel env (.fixed .epoch "escrow" []) .epoch "bob" 40 1 funded).outcome =
        .ok newChannel ∧
      (∀ call ∈ wrapping, call.KeepsChannels) ∧
      ¬ Always (step env) (BalancedAt newChannel.id) (step env funded (openBob "escrow"))
        wrapping := by
  refine ⟨openBob_ok, by decide, ?_⟩
  intro halways
  have hacc : confirmedChannel.Accepts .epoch (fromBob 1 18446744073709551615 41).update := by decide
  obtain ⟨-, hstate⟩ := receive_fromBob confirmed_knowsBob confirmed_channel rfl hacc
  have hrun : run (step env) (step env funded (openBob "escrow")) wrapping =
      step env confirmed (.receivePayment .epoch (fromBob 1 18446744073709551615 41)) := rfl
  obtain ⟨c, hc, hb⟩ := halways.last
  rw [hrun, step_receivePayment, hstate] at hc
  have hstored : some (received confirmedChannel (fromBob 1 18446744073709551615 41)) = some c := by
    rw [← hc]
    exact (Finmap.lookup_insert confirmed.channels).symm
  rw [← Option.some.inj hstored] at hb
  exact absurd hb (by decide)

end Example

/-! ## Which way an update moves money -/

/-- Money moved towards us, if at all. -/
def MovesTowardsUs (c c' : PaymentChannel) : Prop :=
  c.localBalance ≤ c'.localBalance ∧ c'.remoteBalance ≤ c.remoteBalance

instance (c c' : PaymentChannel) : Decidable (MovesTowardsUs c c') :=
  inferInstanceAs (Decidable (_ ∧ _))

/-- In a balanced channel, an accepted update that leaves its signer no more than it
has leaves us no less than we have. -/
theorem local_le_of_remote_le {c : PaymentChannel} (hb : c.Balanced) {now : DateTime}
    {u : ChannelUpdate} (hacc : c.Accepts now u) (hle : u.localBalance ≤ c.remoteBalance) :
    c.localBalance ≤ u.remoteBalance := by
  have hcap := c.capacity.toNat_lt
  have hremote := u.remoteBalance.toNat_lt
  have hsum := toNat_eq.1 hacc.2.2
  unfold PaymentChannel.Balanced at hb
  rw [toNat_le] at hle ⊢
  rw [UInt64.toNat_add] at hsum
  -- were the sum to wrap, the signer's part alone would exceed the capacity
  by_cases hfits : u.localBalance.toNat + u.remoteBalance.toNat < 2 ^ 64
  · rw [Nat.mod_eq_of_lt hfits] at hsum
    omega
  · omega

/-- **Which way an accepted update moves money.**  Towards us exactly when it leaves
us no less than we have and its signer no more than it has; in a channel whose
balances add up the second alone decides. -/
theorem receive_direction_iff (env : ManagerEnv) {m : ChannelManager} {now : DateTime}
    {s : SignedUpdate} {c : PaymentChannel}
    (hc : m.channels.lookup s.update.channelId = some c)
    (hok : (receivePayment env now s m).outcome = .ok ()) :
    ∃ c', (receivePayment env now s m).state.channels.lookup s.update.channelId = some c' ∧
      (MovesTowardsUs c c' ↔
        c.localBalance ≤ s.update.remoteBalance ∧ s.update.localBalance ≤ c.remoteBalance) ∧
      (c.Balanced → (MovesTowardsUs c c' ↔ s.update.localBalance ≤ c.remoteBalance)) := by
  obtain ⟨hiff, hstate, -⟩ := receivePayment_spec env now s m
  obtain ⟨d, hd, -, -, hacc⟩ := hiff.1 hok
  rw [hc] at hd
  cases hd
  refine ⟨received c s, ?_, Iff.rfl, fun hb => ?_⟩
  · rw [hstate hok c hc]
    simp
  · constructor
    · intro hmoves
      exact hmoves.2
    · intro hle
      exact ⟨local_le_of_remote_le hb hacc hle, hle⟩

section Example

open Sample

/-- An update that claims nothing for bob moves nothing away from us. -/
theorem receive_direction_iff_nothing :
    ∃ c', (receivePayment env .epoch (fromBob 1 0 40) confirmed).state.channels.lookup channelId =
      some c' ∧ MovesTowardsUs confirmedChannel c' := by
  have hacc : confirmedChannel.Accepts .epoch (fromBob 1 0 40).update := by decide
  obtain ⟨hok, -⟩ := receive_fromBob confirmed_knowsBob confirmed_channel rfl hacc
  obtain ⟨c', hc', hiff, -⟩ := receive_direction_iff env confirmed_channel hok
  exact ⟨c', hc', hiff.2 (by decide)⟩

/-- **A received update may take our balance**: right after the channel was opened
and confirmed, bob signs the whole capacity over to himself. -/
theorem update_takes_balance :
    (receivePayment env .epoch (fromBob 1 40 0) confirmed).outcome = .ok () ∧
      ∃ c c', confirmed.channels.lookup channelId = some c ∧
        (receivePayment env .epoch (fromBob 1 40 0) confirmed).state.channels.lookup channelId =
          some c' ∧ c.isOperational .epoch ∧ ¬ MovesTowardsUs c c' := by
  have hacc : confirmedChannel.Accepts .epoch (fromBob 1 40 0).update := by decide
  obtain ⟨hok, hstate⟩ := receive_fromBob confirmed_knowsBob confirmed_channel rfl hacc
  refine ⟨hok, confirmedChannel, received confirmedChannel (fromBob 1 40 0), confirmed_channel, ?_,
    by decide, by decide⟩
  rw [hstate]
  simp

end Example

end Manager
end PeerClaw
