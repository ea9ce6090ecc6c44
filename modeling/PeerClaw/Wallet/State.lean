import PeerClaw.Time
import PeerClaw.Lib.FiniteMap

/-!
# The wallet: its data

The types of `wallet/escrow.rs`, `wallet/transaction.rs` and the state and
configuration of `wallet/mod.rs`.  Amounts are `u64` words in μPCLAW; a
`HashMap` is a finite map without an order.  Fresh identifiers and clock
readings are never invented here: a constructor that draws one takes it as an
argument.
-/

namespace PeerClaw

open Lib Lib.Word

/-! ## Escrows -/

/-- Unique identifier for an escrow. -/
structure EscrowId where
  val : String
  deriving DecidableEq, Repr

/-- Status of an escrow. -/
inductive EscrowStatus
  /-- Tokens are held. -/
  | active
  /-- Released to the recipient. -/
  | released
  /-- Refunded to the sender. -/
  | refunded
  /-- Timed out without resolution. -/
  | expired
  deriving DecidableEq, Repr

/-- An escrow holding tokens for a pending job. -/
structure Escrow where
  id : EscrowId
  /-- Amount held, in μPCLAW. -/
  amount : UInt64
  /-- Who receives the tokens on success. -/
  recipient : String
  jobId : String
  createdAt : DateTime
  /-- Auto-refund after this instant. -/
  expiresAt : DateTime
  status : EscrowStatus
  resolvedAt : Option DateTime
  deriving DecidableEq

/-- `Escrow::new` at the instant `now` and with the fresh id `id`.  The expiry
date is computed with panicking arithmetic: `none` is the panic. -/
def Escrow.new (now : DateTime) (id : EscrowId) (amount : UInt64) (recipient jobId : String)
    (timeoutSecs : UInt64) : Option Escrow := do
  let timeout ← durationSeconds timeoutSecs.toInt64
  let expiresAt ← now.plus timeout
  return {
    id := id
    amount := amount
    recipient := recipient
    jobId := jobId
    createdAt := now
    expiresAt := expiresAt
    status := .active
    resolvedAt := none }

/-- `Escrow::is_expired_at`. -/
def Escrow.isExpiredAt (e : Escrow) (now : DateTime) : Bool := decide (e.expiresAt < now)

theorem Escrow.new_some {now : DateTime} {id : EscrowId} {amount timeoutSecs : UInt64}
    {recipient jobId : String} {e : Escrow}
    (h : Escrow.new now id amount recipient jobId timeoutSecs = some e) :
    e.id = id ∧ e.amount = amount ∧ e.recipient = recipient ∧ e.jobId = jobId ∧
      e.createdAt = now ∧ e.status = .active := by
  unfold Escrow.new at h
  cases hd : durationSeconds timeoutSecs.toInt64 with
  | none => rw [hd] at h; cases h
  | some d =>
      rw [hd] at h
      cases hp : now.plus d with
      | none => rw [Option.bind_eq_bind, Option.bind_some, hp] at h; cases h
      | some t =>
          rw [Option.bind_eq_bind, Option.bind_some, hp] at h
          cases h
          exact ⟨rfl, rfl, rfl, rfl, rfl, rfl⟩

/-! ## Transactions -/

/-- Unique identifier for a transaction. -/
structure TransactionId where
  val : String
  deriving DecidableEq, Repr

/-- Type of transaction. -/
inductive TransactionType
  | credit (reason : String)
  | debit (reason : String)
  | escrowCreated (escrowId : EscrowId)
  | escrowReleased (escrowId : EscrowId)
  | escrowRefunded (escrowId : EscrowId)
  | stake
  | unstake
  deriving DecidableEq, Repr

/-- Direction of a transaction relative to the available balance. -/
inductive TransactionDirection
  | incoming
  | outgoing
  | internal
  deriving DecidableEq, Repr

/-- A transaction record in the wallet ledger. -/
structure Transaction where
  id : TransactionId
  txType : TransactionType
  amount : UInt64
  timestamp : DateTime
  direction : TransactionDirection
  deriving DecidableEq

/-- What a new transaction draws: a fresh id and a reading of the clock. -/
structure Stamp where
  id : TransactionId
  time : DateTime
  deriving DecidableEq

namespace Transaction

/-- What all the constructors of a transaction do. -/
def make (s : Stamp) (t : TransactionType) (d : TransactionDirection) (amount : UInt64) :
    Transaction := ⟨s.id, t, amount, s.time, d⟩

def newCredit (s : Stamp) (amount : UInt64) (reason : String) : Transaction :=
  make s (.credit reason) .incoming amount

def newDebit (s : Stamp) (amount : UInt64) (reason : String) : Transaction :=
  make s (.debit reason) .outgoing amount

def newEscrowCreated (s : Stamp) (amount : UInt64) (id : EscrowId) : Transaction :=
  make s (.escrowCreated id) .outgoing amount

def newEscrowReleased (s : Stamp) (amount : UInt64) (id : EscrowId) : Transaction :=
  make s (.escrowReleased id) .internal amount

def newEscrowRefunded (s : Stamp) (amount : UInt64) (id : EscrowId) : Transaction :=
  make s (.escrowRefunded id) .incoming amount

def newStake (s : Stamp) (amount : UInt64) : Transaction := make s .stake .internal amount

def newUnstake (s : Stamp) (amount : UInt64) : Transaction := make s .unstake .internal amount

end Transaction

/-! ## The wallet -/

/-- Why a wallet operation fails. -/
inductive WalletError
  | insufficientBalance (available required : UInt64)
  | escrowNotFound (id : EscrowId)
  | escrowAlreadyResolved (id : EscrowId)
  | invalidAmount (message : String)
  | database (message : String)
  | spendingLimitExceeded (limitType : String) (limit : UInt64)
  deriving DecidableEq, Repr

/-- Spending controls, in μPCLAW. -/
structure WalletConfig where
  maxSpendPerTx : UInt64
  maxSpendPerHour : UInt64
  maxSpendPerDay : UInt64
  /-- Always kept back. -/
  reserveBalance : UInt64
  deriving DecidableEq, Repr

/-- Persistent wallet state. -/
structure WalletState where
  /-- Available balance. -/
  available : UInt64
  /-- Amount currently held in escrow. -/
  inEscrow : UInt64
  /-- Amount staked as provider bond. -/
  staked : UInt64
  escrows : FiniteMap EscrowId Escrow
  /-- Transaction history. -/
  transactions : List Transaction
  /-- Spending tracker: amount spent in each hour bucket. -/
  hourlySpend : FiniteMap UInt64 UInt64
  /-- Spending tracker: amount spent in each day bucket. -/
  dailySpend : FiniteMap UInt64 UInt64

/-- `WalletState::default`. -/
def WalletState.default : WalletState where
  available := 0
  inEscrow := 0
  staked := 0
  escrows := ∅
  transactions := []
  hourlySpend := ∅
  dailySpend := ∅

/-- The bucket of the hourly tracker an instant falls into. -/
def hourKey (t : DateTime) : UInt64 := t.unixSecs / 3600

/-- The bucket of the daily tracker an instant falls into. -/
def dayKey (t : DateTime) : UInt64 := t.unixSecs / 86400

end PeerClaw
