import PeerClaw.Channel.Payment
import PeerClaw.Lib.Machine

/-!
# What a channel says it has sent and received

`total_sent` counts what `create_payment` takes from our side.  `total_received`
should count what `receive_payment` adds to it, but is computed as their new
balance less their old one, cut off at zero — and their balance falls when they
pay.

* `received_stays_zero` — so honest payments never count as received.
* `counters_iff` — and `local_balance + total_sent = L0 + total_received` holds
  over a run with an honest counterparty exactly when every payment accepted in
  it is of nothing.
-/

namespace PeerClaw
namespace Counters

open Lib Lib.Word Lib.Machine PaymentChannel

/-- The two operations, with what they read from the clock. -/
inductive Op
  | createPayment (now stamp : DateTime) (amount : UInt64)
  | receivePayment (now : DateTime) (u : ChannelUpdate)

/-- The channel after an operation, whether or not it succeeded. -/
def apply (c : PaymentChannel) : Op → PaymentChannel
  | .createPayment now stamp amount =>
      match c.createPayment now stamp amount with
      | .error _ => c
      | .ok (c', _) => c'
  | .receivePayment now u =>
      match c.receivePayment now u with
      | .error _ => c
      | .ok c' => c'

/-- The update was produced by the mirrored counterparty, paying `amount`. -/
def PaidBy (c : PaymentChannel) (amount : UInt64) (u : ChannelUpdate) : Prop :=
  ∃ d d' now stamp, Mirrors c d ∧ d.createPayment now stamp amount = .ok (d', u)

/-- Every update received is one the mirrored counterparty produced. -/
def Honest (c : PaymentChannel) (op : Op) : Prop :=
  ∀ now u, op = .receivePayment now u → ∃ amount, PaidBy c amount u

/-- The law of the counters, in numbers. -/
def Law (start : UInt64) (c : PaymentChannel) : Prop :=
  c.localBalance.toNat + c.totalSent.toNat = start.toNat + c.totalReceived.toNat

instance (start : UInt64) (c : PaymentChannel) : Decidable (Law start c) :=
  inferInstanceAs (Decidable (_ = _))

/-- The operation does not accept an update in which their balance has changed. -/
def ReceivesNothing (c : PaymentChannel) (op : Op) : Prop :=
  ∀ now u, op = .receivePayment now u → c.Accepts now u → u.localBalance = c.remoteBalance

/-! ## Honest updates -/

theorem PaidBy.spec {c : PaymentChannel} {amount : UInt64} {u : ChannelUpdate}
    (h : PaidBy c amount u) : amount ≤ c.remoteBalance ∧ u.localBalance = c.remoteBalance - amount ∧
      u.remoteBalance = c.localBalance + amount := by
  obtain ⟨d, d', now, stamp, hm, hp⟩ := h
  obtain ⟨-, hle, rfl, rfl⟩ := createPayment_ok_iff.1 hp
  rw [hm.theirs, hm.ours]
  exact ⟨hle, rfl, rfl⟩

theorem PaidBy.counts_zero {c : PaymentChannel} {amount : UInt64} {u : ChannelUpdate}
    (h : PaidBy c amount u) : satSub u.localBalance c.remoteBalance = 0 := by
  obtain ⟨hle, hlocal, -⟩ := h.spec
  rw [toNat_eq, toNat_satSub, hlocal, toNat_sub_of_le hle, UInt64.toNat_zero]
  omega

/-- Our balance is what it was exactly when theirs is: nothing was paid. -/
theorem PaidBy.same_iff {c : PaymentChannel} {amount : UInt64} {u : ChannelUpdate}
    (h : PaidBy c amount u) :
    u.remoteBalance.toNat = c.localBalance.toNat ↔ u.localBalance = c.remoteBalance := by
  obtain ⟨hle, hlocal, hremote⟩ := h.spec
  have hleN := toNat_le.1 hle
  have hlt := amount.toNat_lt
  have hlt' := c.localBalance.toNat_lt
  rw [hremote, toNat_eq, hlocal, toNat_sub_of_le hle, UInt64.toNat_add]
  omega

/-! ## One operation -/

theorem apply_createPayment (c : PaymentChannel) (now stamp : DateTime) (amount : UInt64) :
    apply c (.createPayment now stamp amount) = c ∨
      amount ≤ c.localBalance ∧ apply c (.createPayment now stamp amount) = c.paid amount := by
  cases hp : c.createPayment now stamp amount with
  | error e =>
      left
      simp only [apply, hp]
  | ok r =>
      obtain ⟨c', u⟩ := r
      obtain ⟨-, hle, hpaid, -⟩ := createPayment_ok_iff.1 hp
      right
      refine ⟨hle, ?_⟩
      simp only [apply, hp]
      exact hpaid

theorem apply_receivePayment (c : PaymentChannel) (now : DateTime) (u : ChannelUpdate) :
    ¬ c.Accepts now u ∧ apply c (.receivePayment now u) = c ∨
      c.Accepts now u ∧ apply c (.receivePayment now u) = c.applied u := by
  cases hr : c.receivePayment now u with
  | error e =>
      left
      refine ⟨fun hacc => ?_, by simp only [apply, hr]⟩
      rw [receivePayment_ok_iff.2 ⟨hacc, rfl⟩] at hr
      cases hr
  | ok c' =>
      obtain ⟨hacc, happlied⟩ := receivePayment_ok_iff.1 hr
      right
      refine ⟨hacc, ?_⟩
      simp only [apply, hr]
      exact happlied

/-- **Honest payments are never counted.** -/
theorem received_stays_zero {c : PaymentChannel} {op : Op} (h : c.totalReceived = 0)
    (hop : Honest c op) : (apply c op).totalReceived = 0 := by
  cases op with
  | createPayment now stamp amount =>
      rcases apply_createPayment c now stamp amount with heq | ⟨-, heq⟩
      · rw [heq, h]
      · rw [heq]
        exact h
  | receivePayment now u =>
      rcases apply_receivePayment c now u with ⟨-, heq⟩ | ⟨-, heq⟩
      · rw [heq, h]
      · obtain ⟨amount, hpaid⟩ := hop now u rfl
        rw [heq]
        show c.totalReceived + satSub u.localBalance c.remoteBalance = 0
        rw [hpaid.counts_zero, h]
        rfl

/-- Our balance and what we have sent keep their sum exactly when the operation receives
nothing. -/
theorem sum_step_iff {start : UInt64} {c : PaymentChannel} {op : Op}
    (h : c.localBalance.toNat + c.totalSent.toNat = start.toNat) (hop : Honest c op) :
    (apply c op).localBalance.toNat + (apply c op).totalSent.toNat = start.toNat ↔
      ReceivesNothing c op := by
  cases op with
  | createPayment now stamp amount =>
      have hnothing : ReceivesNothing c (.createPayment now stamp amount) := by
        rintro now' u ⟨⟩
      refine ⟨fun _ => hnothing, fun _ => ?_⟩
      rcases apply_createPayment c now stamp amount with heq | ⟨hle, heq⟩
      · rw [heq, h]
      · have hleN := toNat_le.1 hle
        have hstart := start.toNat_lt
        rw [heq]
        show (c.localBalance - amount).toNat + (c.totalSent + amount).toNat = start.toNat
        rw [toNat_sub_of_le hle, toNat_add_of_fits (by omega)]
        omega
  | receivePayment now u =>
      rcases apply_receivePayment c now u with ⟨hnot, heq⟩ | ⟨hacc, heq⟩
      · rw [heq]
        refine ⟨fun _ => ?_, fun _ => h⟩
        rintro now' u' ⟨⟩ hacc
        exact absurd hacc hnot
      · obtain ⟨amount, hpaid⟩ := hop now u rfl
        have hsame := hpaid.same_iff
        rw [heq]
        show u.remoteBalance.toNat + c.totalSent.toNat = start.toNat ↔ _
        constructor
        · rintro hsum now' u' ⟨⟩ -
          exact hsame.1 (by omega)
        · intro hnothing
          have hbalance := hsame.2 (hnothing now u rfl hacc)
          omega

/-- Where nothing was counted as received, the law is about the other two. -/
theorem law_iff {start : UInt64} {c : PaymentChannel} (h : c.totalReceived = 0) :
    Law start c ↔ c.localBalance.toNat + c.totalSent.toNat = start.toNat := by
  rw [Law, h, UInt64.toNat_zero, Nat.add_zero]

/-- Where the law holds and nothing was counted as received, an operation keeps it so
exactly when it receives nothing. -/
theorem law_step_iff {start : UInt64} {c : PaymentChannel} {op : Op}
    (h : Law start c ∧ c.totalReceived = 0) (hop : Honest c op) :
    (Law start (apply c op) ∧ (apply c op).totalReceived = 0) ∧ True ↔ ReceivesNothing c op := by
  have hnext := received_stays_zero h.2 hop
  rw [and_true, law_iff hnext, sum_step_iff ((law_iff h.2).1 h.1) hop]
  exact ⟨And.left, fun hnothing => ⟨hnothing, hnext⟩⟩

/-! ## Every run -/

/-- **When the counters add up.**  Over every run of payments and of updates honestly
produced by the mirrored counterparty, starting with nothing sent or received,
the law holds in every state exactly when every accepted update leaves their
balance what it was. -/
theorem counters_iff {c : PaymentChannel} (hsent : c.totalSent = 0)
    (hreceived : c.totalReceived = 0) {ops : List Op} (h : Along apply Honest c ops) :
    Always apply (Law c.localBalance) c ops ↔ Along apply ReceivesNothing c ops := by
  have hstart : Law c.localBalance c ∧ c.totalReceived = 0 := by
    refine ⟨?_, hreceived⟩
    rw [Law, hsent, hreceived]
  have hstep : ∀ d op, Law c.localBalance d ∧ d.totalReceived = 0 → Honest d op →
      ((Law c.localBalance (apply d op) ∧ (apply d op).totalReceived = 0) ∧ True ↔
        ReceivesNothing d op) :=
    fun _ _ => law_step_iff
  have hkeep : ∀ d op, d.totalReceived = 0 → Honest d op → (apply d op).totalReceived = 0 :=
    fun _ _ => received_stays_zero
  have hiff := always_along_iff hstep hstart h
  have hzero := always_of_inv hkeep hreceived h
  have htrue : Along apply (fun _ _ => True) c ops := h.mono fun _ _ _ => trivial
  rw [← hiff]
  constructor
  · intro hlaw
    exact ⟨fun pre post hsplit => ⟨hlaw pre post hsplit, hzero pre post hsplit⟩, htrue⟩
  · rintro ⟨hboth, -⟩ pre post hsplit
    exact (hboth pre post hsplit).1

section Example

/-- An open channel of forty, all of it ours. -/
private def forty : PaymentChannel where
  id := ⟨"chan"⟩
  localPeer := "alice"
  remotePeer := "bob"
  capacity := 40
  localBalance := 40
  remoteBalance := 0
  nonce := 0
  status := .open
  openedAt := .epoch
  expiresAt := .ofSecs 3600 DateTime.hour_inRange
  latestRemoteSignature := none
  updateCount := 0
  totalSent := 0
  totalReceived := 0

/-- Bob's view of it after we paid him five. -/
private def bobsView : PaymentChannel :=
  { forty with localBalance := 5, remoteBalance := 35, nonce := 1 }

private def payFive : Op := .createPayment .epoch .epoch 5

/-- Bob pays back an amount. -/
private def back (amount : UInt64) : Op :=
  .receivePayment .epoch ((bobsView.paid amount).snapshot .epoch)

private theorem honest_back (amount : UInt64) (h : amount ≤ 5) :
    Along apply Honest forty [payFive, back amount] := by
  refine ⟨?_, ?_, trivial⟩
  · rintro now u ⟨⟩
  · intro now u hop
    cases hop
    refine ⟨amount, bobsView, bobsView.paid amount, .epoch, .epoch, by decide, ?_⟩
    exact createPayment_of_operational (by decide) h _

theorem counters_iff_nothing : Always apply (Law 40) forty [payFive, back 0] := by
  refine (counters_iff rfl rfl (honest_back 0 (by decide))).2 ⟨?_, ?_, trivial⟩
  · rintro now u ⟨⟩
  · rintro now u hop -
    cases hop
    decide

/-- **The counters do not add up**: we pay five, bob pays back three, and three are
missing from what was received. -/
theorem payment_back_is_not_counted :
    Along apply Honest forty [payFive, back 3] ∧
      ¬ Always apply (Law 40) forty [payFive, back 3] := by
  refine ⟨honest_back 3 (by decide), ?_⟩
  intro h
  exact absurd h.last (by decide)

end Example

end Counters
end PeerClaw
