import PeerClaw.Channel.Payment
import PeerClaw.Lib.Machine

/-!
# Two parties and the updates between them

Each party keeps its own `PaymentChannel`; a payment changes the payer's view
at once and sends an update, which the other party applies when it arrives.
Updates arrive in the order they were sent.  A `Link` is the two parties with
the updates on their way to each, and a move lets one of them pay or apply the
oldest update it has been sent.

* `crossing_payments_diverge` — two payments that cross on the way are both
  rejected, and the views no longer mirror each other.
* `quiet_link_mirrors` — when neither party pays while an update is on its way to
  it, the views mirror each other whenever nothing is on its way, and every
  payment made has been applied once, in order.

What carries the induction is that one party is ahead by exactly the updates on
their way to the other: `CatchesUp a b us` says that `b`, applying `us` one
after the other, accepts each of them and ends as the mirror of `a`.
-/

namespace PeerClaw
namespace Link

open Lib Lib.Word Lib.Machine PaymentChannel

/-! ## The system -/

/-- One of the two parties. -/
structure Party where
  channel : PaymentChannel
  /-- The updates on their way to it, the oldest first. -/
  inbox : List ChannelUpdate
  /-- The updates it has created. -/
  created : List ChannelUpdate
  /-- The updates it has applied. -/
  applied : List ChannelUpdate
  deriving DecidableEq

/-- The two parties of a channel. -/
structure State where
  a : Party
  b : Party
  deriving DecidableEq

/-- The other way round. -/
def State.swap (l : State) : State := ⟨l.b, l.a⟩

/-- Which party moves. -/
inductive Side
  | a
  | b
  deriving DecidableEq

/-- What it does; each action reads the clock. -/
inductive Act
  /-- `create_payment`, and the update is sent. -/
  | pay (now stamp : DateTime) (amount : UInt64)
  /-- `receive_payment` of the oldest update on its way, which is gone then whether
  or not it was accepted. -/
  | deliver (now : DateTime)
  deriving DecidableEq

/-- The clock reading of an action. -/
def Act.now : Act → DateTime
  | .pay now _ _ => now
  | .deliver now => now

/-- The first party acts. -/
def act (l : State) : Act → State
  | .pay now stamp amount =>
      match l.a.channel.createPayment now stamp amount with
      | .error _ => l
      | .ok (c, u) =>
          ⟨{ l.a with channel := c, created := l.a.created ++ [u] },
            { l.b with inbox := l.b.inbox ++ [u] }⟩
  | .deliver now =>
      match l.a.inbox with
      | [] => l
      | u :: rest =>
          match l.a.channel.receivePayment now u with
          | .error _ => { l with a := { l.a with inbox := rest } }
          | .ok c => { l with
              a := { l.a with channel := c, inbox := rest, applied := l.a.applied ++ [u] } }

/-- One of the parties acts. -/
def step (l : State) : Side × Act → State
  | (.a, x) => act l x
  | (.b, x) => (act l.swap x).swap

/-- The party on a side. -/
def State.party (l : State) : Side → Party
  | .a => l.a
  | .b => l.b

/-- The channel of the party that moves is not expired. -/
def Timely (l : State) (m : Side × Act) : Prop :=
  (l.party m.1).channel.isExpired m.2.now = false

/-- A party pays only when no update is on its way to it. -/
def PaysWhenClear (l : State) (m : Side × Act) : Prop :=
  ∀ now stamp amount, m.2 = .pay now stamp amount → (l.party m.1).inbox = []

/-- Where a link starts: nothing sent, mirrored views, both open, and balances that
add up. -/
structure Start (l : State) : Prop where
  mirrors : Mirrors l.a.channel l.b.channel
  aOpen : l.a.channel.status = .open
  bOpen : l.b.channel.status = .open
  sumsUp : l.a.channel.SumsUp
  nothing : l.a.inbox = [] ∧ l.a.created = [] ∧ l.a.applied = [] ∧
    l.b.inbox = [] ∧ l.b.created = [] ∧ l.b.applied = []

/-- Nothing is on its way. -/
def Quiet (l : State) : Prop := l.a.inbox = [] ∧ l.b.inbox = []

instance (l : State) : Decidable (Quiet l) := inferInstanceAs (Decidable (_ ∧ _))

/-- The views mirror each other, and each party has applied what the other created,
each update once. -/
structure Agrees (l : State) : Prop where
  mirrors : Mirrors l.a.channel l.b.channel
  atB : l.b.applied = l.a.created
  atA : l.a.applied = l.b.created

/-! ## Catching up -/

/-- Applying the updates one after the other, `b` accepts each of them and ends as the
mirror of `a`. -/
def CatchesUp (a : PaymentChannel) : PaymentChannel → List ChannelUpdate → Prop
  | b, [] => Mirrors a b
  | b, u :: us => u.nonce = b.nonce + 1 ∧ u.localBalance + u.remoteBalance = b.capacity ∧
      CatchesUp a (b.applied u) us

theorem CatchesUp.pay {a : PaymentChannel} (hsum : a.SumsUp) (amount : UInt64) (stamp : DateTime)
    {b : PaymentChannel} {us : List ChannelUpdate} (h : CatchesUp a b us) :
    CatchesUp (a.paid amount) b (us ++ [(a.paid amount).snapshot stamp]) := by
  induction us generalizing b with
  | nil =>
      have hm : Mirrors a b := h
      refine ⟨?_, ?_, ?_⟩
      · show a.nonce + 1 = b.nonce + 1
        rw [hm.nonce]
      · rw [← hm.capacity]
        exact sumsUp_paid hsum amount
      · exact ⟨hm.id, hm.capacity, rfl, rfl, rfl⟩
  | cons u us ih => exact ⟨h.1, h.2.1, ih h.2.2⟩

/-! ## The invariant -/

/-- Both channels are open and add up, and each party has applied what the other
created, up to what is still on its way. -/
structure Settled (l : State) : Prop where
  aOpen : l.a.channel.status = .open
  bOpen : l.b.channel.status = .open
  aSums : l.a.channel.SumsUp
  bSums : l.b.channel.SumsUp
  toB : l.a.created = l.b.applied ++ l.b.inbox
  toA : l.b.created = l.a.applied ++ l.a.inbox

theorem Settled.swap {l : State} (h : Settled l) : Settled l.swap :=
  ⟨h.bOpen, h.aOpen, h.bSums, h.aSums, h.toA, h.toB⟩

/-- Nothing is on its way to the first party, and the second catches up with it. -/
def Ahead (l : State) : Prop :=
  l.a.inbox = [] ∧ CatchesUp l.a.channel l.b.channel l.b.inbox

/-- **The invariant**: one party is ahead, by what is on its way to the other. -/
structure Inv (l : State) : Prop where
  settled : Settled l
  ahead : Ahead l ∨ Ahead l.swap

theorem Inv.swap {l : State} (h : Inv l) : Inv l.swap := ⟨h.settled.swap, h.ahead.symm⟩

theorem ahead_of_clear {l : State} (h : Ahead l ∨ Ahead l.swap) (hclear : l.a.inbox = []) :
    Ahead l := by
  rcases h with h | ⟨hb, hcatch⟩
  · exact h
  · refine ⟨hclear, ?_⟩
    have hb' : l.b.inbox = [] := hb
    have hcatch' : CatchesUp l.b.channel l.a.channel l.a.inbox := hcatch
    rw [hclear] at hcatch'
    rw [hb']
    exact Mirrors.symm hcatch'

theorem isOperational_iff {c : PaymentChannel} {now : DateTime} (hopen : c.status = .open)
    (htime : c.isExpired now = false) : c.isOperational now := by
  simp [isOperational, hopen, htime]

theorem inv_pay {l : State} (h : Inv l) {now stamp : DateTime} {amount : UInt64}
    (hclear : l.a.inbox = []) : Inv (act l (.pay now stamp amount)) := by
  cases hp : l.a.channel.createPayment now stamp amount with
  | error e =>
      simp only [act, hp]
      exact h
  | ok r =>
      obtain ⟨c, u⟩ := r
      simp only [act, hp]
      obtain ⟨-, -, rfl, rfl⟩ := createPayment_ok_iff.1 hp
      obtain ⟨-, hcatch⟩ := ahead_of_clear h.ahead hclear
      refine ⟨⟨h.settled.aOpen, h.settled.bOpen, sumsUp_paid h.settled.aSums amount,
        h.settled.bSums, ?_, h.settled.toA⟩, .inl ⟨hclear, ?_⟩⟩
      · show l.a.created ++ [_] = l.b.applied ++ (l.b.inbox ++ [_])
        rw [h.settled.toB, List.append_assoc]
      · exact hcatch.pay h.settled.aSums amount stamp

theorem inv_deliver {l : State} (h : Inv l) {now : DateTime}
    (htime : l.a.channel.isExpired now = false) : Inv (act l (.deliver now)) := by
  cases hbox : l.a.inbox with
  | nil =>
      simp only [act, hbox]
      exact h
  | cons u rest =>
      -- something is on its way to the first party, so the other one is ahead
      rcases h.ahead with ⟨hnil, -⟩ | ⟨hb, hcatch⟩
      · rw [hbox] at hnil
        cases hnil
      · have hcatch' : CatchesUp l.b.channel l.a.channel l.a.inbox := hcatch
        rw [hbox] at hcatch'
        obtain ⟨hnonce, hsum, hrest⟩ := hcatch'
        have hacc : l.a.channel.Accepts now u :=
          ⟨isOperational_iff h.settled.aOpen htime, hnonce, hsum⟩
        have hok := receivePayment_ok_iff.2 ⟨hacc, rfl⟩
        simp only [act, hbox, hok]
        refine ⟨⟨h.settled.aOpen, h.settled.bOpen, ?_, h.settled.bSums, h.settled.toB, ?_⟩,
          .inr ⟨hb, hrest⟩⟩
        · show u.remoteBalance + u.localBalance = l.a.channel.capacity
          rw [UInt64.add_comm]
          exact hsum
        · show l.b.created = l.a.applied ++ [u] ++ rest
          rw [h.settled.toA, hbox, List.append_assoc]
          rfl

theorem inv_act {l : State} (h : Inv l) {x : Act} (htime : l.a.channel.isExpired x.now = false)
    (hclear : ∀ now stamp amount, x = .pay now stamp amount → l.a.inbox = []) :
    Inv (act l x) := by
  cases x with
  | pay now stamp amount => exact inv_pay h (hclear now stamp amount rfl)
  | deliver now => exact inv_deliver h htime

theorem inv_step (l : State) (m : Side × Act) (h : Inv l) (hm : Timely l m ∧ PaysWhenClear l m) :
    Inv (step l m) := by
  obtain ⟨side, x⟩ := m
  cases side with
  | a => exact inv_act h hm.1 hm.2
  | b => exact (inv_act h.swap hm.1 hm.2).swap

theorem inv_start {l : State} (h : Start l) : Inv l := by
  obtain ⟨ha, hac, haa, hb, hbc, hba⟩ := h.nothing
  refine ⟨⟨h.aOpen, h.bOpen, h.sumsUp, ?_, ?_, ?_⟩, .inl ⟨ha, ?_⟩⟩
  · show l.b.channel.localBalance + l.b.channel.remoteBalance = l.b.channel.capacity
    rw [← h.mirrors.ours, ← h.mirrors.theirs, ← h.mirrors.capacity, UInt64.add_comm]
    exact h.sumsUp
  · rw [hac, hba, hb]
    rfl
  · rw [hbc, haa, ha]
    rfl
  · rw [hb]
    exact h.mirrors

theorem agrees_of_quiet {l : State} (h : Inv l) (hq : Quiet l) : Agrees l := by
  obtain ⟨-, hcatch⟩ := ahead_of_clear h.ahead hq.1
  rw [hq.2] at hcatch
  have htoB := h.settled.toB
  have htoA := h.settled.toA
  rw [hq.2, List.append_nil] at htoB
  rw [hq.1, List.append_nil] at htoA
  exact ⟨hcatch, htoB.symm, htoA.symm⟩

/-- **Quiet links mirror.**  In every interleaving of payments and deliveries in which
neither party pays while an update is on its way to it, whenever nothing is on
its way the views mirror each other with equal nonces, and each party has
applied exactly the payments of the other. -/
theorem quiet_link_mirrors {l : State} (hstart : Start l) {moves : List (Side × Act)}
    (h : Along step (fun l m => Timely l m ∧ PaysWhenClear l m) l moves) :
    Always step (fun l => Quiet l → Agrees l) l moves := by
  have hinv := always_of_inv inv_step (inv_start hstart) h
  intro pre post hsplit hq
  exact agrees_of_quiet (hinv pre post hsplit) hq

section Example

/-- A view of a channel of forty, split evenly. -/
private def evenView (me other : String) : PaymentChannel where
  id := ⟨"chan"⟩
  localPeer := me
  remotePeer := other
  capacity := 40
  localBalance := 20
  remoteBalance := 20
  nonce := 0
  status := .open
  openedAt := .epoch
  expiresAt := .ofSecs 3600 DateTime.hour_inRange
  latestRemoteSignature := none
  updateCount := 0
  totalSent := 0
  totalReceived := 0

private def even : State :=
  ⟨⟨evenView "alice" "bob", [], [], []⟩, ⟨evenView "bob" "alice", [], [], []⟩⟩

private theorem even_start : Start even where
  mirrors := by decide
  aOpen := rfl
  bOpen := rfl
  sumsUp := by decide
  nothing := ⟨rfl, rfl, rfl, rfl, rfl, rfl⟩

/-- Alice pays twice, and bob pays once her updates have arrived. -/
private def inTurn : List (Side × Act) :=
  [(.a, .pay .epoch .epoch 3), (.a, .pay .epoch .epoch 4), (.b, .deliver .epoch),
    (.b, .deliver .epoch), (.b, .pay .epoch .epoch 5), (.a, .deliver .epoch)]

theorem quiet_link_mirrors_in_turn : Agrees (run step even inTurn) := by
  have halong : Along step (fun l m => Timely l m ∧ PaysWhenClear l m) even inTurn := by
    refine ⟨⟨rfl, ?_⟩, ⟨rfl, ?_⟩, ⟨rfl, ?_⟩, ⟨rfl, ?_⟩, ⟨rfl, ?_⟩, ⟨rfl, ?_⟩, trivial⟩ <;>
      intro now stamp amount hpay <;> first | rfl | cases hpay
  exact (quiet_link_mirrors even_start halong).last (by decide)

/-- Both pay before either has seen the other's update. -/
private def crossing : List (Side × Act) :=
  [(.a, .pay .epoch .epoch 3), (.b, .pay .epoch .epoch 5), (.a, .deliver .epoch),
    (.b, .deliver .epoch)]

/-- **Crossing payments**: neither update is accepted, and once nothing is on its way
any more the two views differ for good. -/
theorem crossing_payments_diverge :
    Start even ∧ Along step Timely even crossing ∧ Quiet (run step even crossing) ∧
      ¬ Agrees (run step even crossing) := by
  refine ⟨even_start, ⟨rfl, rfl, rfl, rfl, trivial⟩, by decide, ?_⟩
  intro h
  exact absurd h.atB (by decide)

end Example

end Link
end PeerClaw
