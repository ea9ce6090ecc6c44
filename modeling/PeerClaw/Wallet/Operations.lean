import PeerClaw.Wallet.State
import PeerClaw.Lib.Action

/-!
# The wallet: its operations

The methods of `Wallet` in `wallet/mod.rs`.  Each method that changes the state
does so inside one critical section under the write lock; where a method takes
the lock more than once (`check_spending_limits` under a read lock, the change
itself under a write lock, `save_state` under a read lock again) every section
is a definition of its own, and the method is their sequence.  The release
build wraps on overflow, and so do the words here; the operations performed on
the counters are recorded next to the state they produce.
-/

namespace PeerClaw

open Lib Lib.Word

/-- What a call draws from outside: readings of the clock, fresh identifiers,
the iteration order of the escrow map and the answer of the database. -/
structure Draw where
  /-- `Utc::now()` in `check_spending_limits`. -/
  checkedAt : DateTime
  /-- `Utc::now()` under the write lock. -/
  now : DateTime
  /-- The id a new escrow gets. -/
  escrowId : EscrowId
  /-- What the `k`-th transaction recorded by the call gets. -/
  stamp : ℕ → Stamp
  /-- The order in which the call would iterate over the escrows. -/
  order : List EscrowId
  /-- The answer of `store_setting`. -/
  store : Except String Unit

/-- A draw that reads one instant and one identifier throughout, on a database that
stores. -/
def Draw.fixed (t : DateTime) (id : String) (order : List EscrowId) : Draw where
  checkedAt := t
  now := t
  escrowId := ⟨id⟩
  stamp := fun _ => ⟨⟨id⟩, t⟩
  order := order
  store := .ok ()

/-- An action on the wallet state. -/
abbrev WalletM (α : Type) := Action WalletState WalletError α

namespace Wallet

/-- `Wallet::save_state`. -/
def saveState (store : Except String Unit) : WalletM Unit :=
  match store with
  | .ok _ => pure ()
  | .error message => .fail (.database message)

/-- `Wallet::check_spending_limits`, at the instant `now`. -/
def checkSpendingLimits (cfg : WalletConfig) (now : DateTime) (amount : UInt64) : WalletM Unit :=
  fun st =>
    if cfg.maxSpendPerTx < amount then
      ⟨.err (.spendingLimitExceeded "per-transaction" cfg.maxSpendPerTx), st, []⟩
    else
      let hourlySpent := (st.hourlySpend.lookup (hourKey now)).getD 0
      if cfg.maxSpendPerHour < hourlySpent + amount then
        ⟨.err (.spendingLimitExceeded "hourly" cfg.maxSpendPerHour), st, [.add hourlySpent amount]⟩
      else
        let dailySpent := (st.dailySpend.lookup (dayKey now)).getD 0
        if cfg.maxSpendPerDay < dailySpent + amount then
          ⟨.err (.spendingLimitExceeded "daily" cfg.maxSpendPerDay), st,
            [.add hourlySpent amount, .add dailySpent amount]⟩
        else
          ⟨.ok (), st, [.add hourlySpent amount, .add dailySpent amount]⟩

theorem checkSpendingLimits_state (cfg : WalletConfig) (now : DateTime) (amount : UInt64)
    (st : WalletState) : (checkSpendingLimits cfg now amount st).state = st := by
  unfold checkSpendingLimits
  dsimp only
  repeat' split
  all_goals rfl

/-- The critical section of `Wallet::credit`. -/
def creditLocked (stamp : Stamp) (amount : UInt64) (reason : String) : WalletM Transaction :=
  fun st =>
    let tx := Transaction.newCredit stamp amount reason
    let transactions := st.transactions ++ [tx]
    -- only the last thousand transactions are kept
    ⟨.ok tx,
      { st with
        available := st.available + amount
        transactions := transactions.drop (transactions.length - 1000) },
      [.add st.available amount]⟩

/-- `Wallet::credit`. -/
def credit (draw : Draw) (amount : UInt64) (reason : String) : WalletM Transaction :=
  if amount = 0 then .fail (.invalidAmount "Amount must be > 0")
  else do
    let tx ← creditLocked (draw.stamp 0) amount reason
    saveState draw.store
    return tx

/-- The critical section of `Wallet::debit`. -/
def debitLocked (cfg : WalletConfig) (now : DateTime) (stamp : Stamp) (amount : UInt64)
    (reason : String) : WalletM Transaction := fun st =>
  let effectiveAvailable := satSub st.available cfg.reserveBalance
  if effectiveAvailable < amount then
    ⟨.err (.insufficientBalance effectiveAvailable amount), st, []⟩
  else
    let hour := hourKey now
    let day := dayKey now
    let hourlySpent := (st.hourlySpend.lookup hour).getD 0
    let dailySpent := (st.dailySpend.lookup day).getD 0
    let oldHour := satSub hour 24
    let oldDay := satSub day 30
    let tx := Transaction.newDebit stamp amount reason
    ⟨.ok tx,
      { st with
        available := st.available - amount
        hourlySpend := Finmap.retain (st.hourlySpend.insert hour (hourlySpent + amount))
          fun k => decide (oldHour < k)
        dailySpend := Finmap.retain (st.dailySpend.insert day (dailySpent + amount))
          fun k => decide (oldDay < k)
        transactions := st.transactions ++ [tx] },
      [.sub st.available amount, .add hourlySpent amount, .add dailySpent amount]⟩

/-- `Wallet::debit`. -/
def debit (cfg : WalletConfig) (draw : Draw) (amount : UInt64) (reason : String) :
    WalletM Transaction := do
  checkSpendingLimits cfg draw.checkedAt amount
  let tx ← debitLocked cfg draw.now (draw.stamp 0) amount reason
  saveState draw.store
  return tx

/-- The critical section of `Wallet::create_escrow`.  The funds are moved before
the escrow is built, so a panic in `Escrow::new` leaves them moved. -/
def createEscrowLocked (cfg : WalletConfig) (draw : Draw) (amount : UInt64)
    (recipient jobId : String) (timeoutSecs : UInt64) : WalletM Escrow := fun st =>
  let effectiveAvailable := satSub st.available cfg.reserveBalance
  if effectiveAvailable < amount then
    ⟨.err (.insufficientBalance effectiveAvailable amount), st, []⟩
  else
    let moved := { st with
      available := st.available - amount
      inEscrow := st.inEscrow + amount }
    let arith := [.sub st.available amount, .add st.inEscrow amount]
    match Escrow.new draw.now draw.escrowId amount recipient jobId timeoutSecs with
    | none => ⟨.panic, moved, arith⟩
    | some escrow =>
        let tx := Transaction.newEscrowCreated (draw.stamp 0) amount escrow.id
        ⟨.ok escrow,
          { moved with
            escrows := st.escrows.insert escrow.id escrow
            transactions := st.transactions ++ [tx] },
          arith⟩

/-- `Wallet::create_escrow`. -/
def createEscrow (cfg : WalletConfig) (draw : Draw) (amount : UInt64) (recipient jobId : String)
    (timeoutSecs : UInt64) : WalletM Escrow := do
  checkSpendingLimits cfg draw.checkedAt amount
  let escrow ← createEscrowLocked cfg draw amount recipient jobId timeoutSecs
  saveState draw.store
  return escrow

/-- The critical section of `Wallet::release_escrow`. -/
def releaseEscrowLocked (stamp : Stamp) (id : EscrowId) :
    WalletM (Transaction × UInt64 × String) := fun st =>
  match st.escrows.lookup id with
  | none => ⟨.err (.escrowNotFound id), st, []⟩
  | some escrow =>
      if escrow.status ≠ .active then ⟨.err (.escrowAlreadyResolved id), st, []⟩
      else
        let tx := Transaction.newEscrowReleased stamp escrow.amount id
        ⟨.ok (tx, escrow.amount, escrow.recipient),
          { st with
            escrows := st.escrows.update id fun e => { e with status := .released }
            inEscrow := st.inEscrow - escrow.amount
            transactions := st.transactions ++ [tx] },
          [.sub st.inEscrow escrow.amount]⟩

/-- `Wallet::release_escrow`. -/
def releaseEscrow (draw : Draw) (id : EscrowId) : WalletM (Transaction × UInt64 × String) := do
  let released ← releaseEscrowLocked (draw.stamp 0) id
  saveState draw.store
  return released

/-- The critical section of `Wallet::refund_escrow`. -/
def refundEscrowLocked (stamp : Stamp) (id : EscrowId) : WalletM Transaction := fun st =>
  match st.escrows.lookup id with
  | none => ⟨.err (.escrowNotFound id), st, []⟩
  | some escrow =>
      if escrow.status ≠ .active then ⟨.err (.escrowAlreadyResolved id), st, []⟩
      else
        let tx := Transaction.newEscrowRefunded stamp escrow.amount id
        ⟨.ok tx,
          { st with
            escrows := st.escrows.update id fun e => { e with status := .refunded }
            inEscrow := st.inEscrow - escrow.amount
            available := st.available + escrow.amount
            transactions := st.transactions ++ [tx] },
          [.sub st.inEscrow escrow.amount, .add st.available escrow.amount]⟩

/-- `Wallet::refund_escrow`. -/
def refundEscrow (draw : Draw) (id : EscrowId) : WalletM Transaction := do
  let tx ← refundEscrowLocked (draw.stamp 0) id
  saveState draw.store
  return tx

/-- The critical section of `Wallet::stake`. -/
def stakeLocked (stamp : Stamp) (amount : UInt64) : WalletM Transaction := fun st =>
  if st.available < amount then ⟨.err (.insufficientBalance st.available amount), st, []⟩
  else
    let tx := Transaction.newStake stamp amount
    ⟨.ok tx,
      { st with
        available := st.available - amount
        staked := st.staked + amount
        transactions := st.transactions ++ [tx] },
      [.sub st.available amount, .add st.staked amount]⟩

/-- `Wallet::stake`. -/
def stake (draw : Draw) (amount : UInt64) : WalletM Transaction := do
  let tx ← stakeLocked (draw.stamp 0) amount
  saveState draw.store
  return tx

/-- The critical section of `Wallet::unstake`. -/
def unstakeLocked (stamp : Stamp) (amount : UInt64) : WalletM Transaction := fun st =>
  if st.staked < amount then ⟨.err (.insufficientBalance st.staked amount), st, []⟩
  else
    let tx := Transaction.newUnstake stamp amount
    ⟨.ok tx,
      { st with
        staked := st.staked - amount
        available := st.available + amount
        transactions := st.transactions ++ [tx] },
      [.sub st.staked amount, .add st.available amount]⟩

/-- `Wallet::unstake`. -/
def unstake (draw : Draw) (amount : UInt64) : WalletM Transaction := do
  let tx ← unstakeLocked (draw.stamp 0) amount
  saveState draw.store
  return tx

/-! ## The sweep -/

/-- The escrows a sweep at the instant `now` finds expired, in iteration order. -/
def expiredIds (now : DateTime) (order : List EscrowId) (st : WalletState) : List EscrowId :=
  order.filter fun id =>
    match st.escrows.lookup id with
    | some e => decide (e.status = .active) && e.isExpiredAt now
    | none => false

/-- The body of the sweep's loop: expire one escrow and return its amount. -/
def sweepOne (stamp : Stamp) (id : EscrowId) : WalletM (List EscrowId) := fun st =>
  match st.escrows.lookup id with
  | none => ⟨.ok [], st, []⟩
  | some escrow =>
      ⟨.ok [id],
        { st with
          escrows := st.escrows.update id fun e => { e with status := .expired }
          inEscrow := satSub st.inEscrow escrow.amount
          available := st.available + escrow.amount
          transactions := st.transactions ++ [Transaction.newEscrowRefunded stamp escrow.amount id] },
        [.satSub st.inEscrow escrow.amount, .add st.available escrow.amount]⟩

/-- The loop of the sweep; `k` transactions have been recorded so far. -/
def sweepLoop (stamp : ℕ → Stamp) : ℕ → List EscrowId → WalletM (List EscrowId)
  | _, [] => pure []
  | k, id :: ids => do
      let swept ← sweepOne (stamp k) id
      let rest ← sweepLoop stamp (k + swept.length) ids
      return swept ++ rest

/-- `Wallet::sweep_expired_escrows`.  An error of the final `save_state` is
ignored. -/
def sweepExpiredEscrows (draw : Draw) : WalletM (List EscrowId) := fun st =>
  sweepLoop draw.stamp 0 (expiredIds draw.now draw.order st) st

/-! ## One interface to all of them -/

/-- A call of the wallet's interface, with what it draws. -/
inductive Call
  | credit (draw : Draw) (amount : UInt64) (reason : String)
  | debit (draw : Draw) (amount : UInt64) (reason : String)
  | createEscrow (draw : Draw) (amount : UInt64) (recipient jobId : String) (timeoutSecs : UInt64)
  | releaseEscrow (draw : Draw) (id : EscrowId)
  | refundEscrow (draw : Draw) (id : EscrowId)
  | stake (draw : Draw) (amount : UInt64)
  | unstake (draw : Draw) (amount : UInt64)
  | sweepExpiredEscrows (draw : Draw)

/-- What a call draws from outside. -/
def Call.draw : Call → Draw
  | .credit draw _ _ => draw
  | .debit draw _ _ => draw
  | .createEscrow draw _ _ _ _ => draw
  | .releaseEscrow draw _ => draw
  | .refundEscrow draw _ => draw
  | .stake draw _ => draw
  | .unstake draw _ => draw
  | .sweepExpiredEscrows draw => draw

/-- What a call returns. -/
inductive Reply
  | transaction (tx : Transaction)
  | escrow (e : Escrow)
  | released (tx : Transaction) (amount : UInt64) (recipient : String)
  | swept (ids : List EscrowId)

/-- Run one call. -/
def exec (cfg : WalletConfig) : Call → WalletM Reply
  | .credit draw amount reason => .transaction <$> credit draw amount reason
  | .debit draw amount reason => .transaction <$> debit cfg draw amount reason
  | .createEscrow draw amount recipient jobId timeoutSecs =>
      .escrow <$> createEscrow cfg draw amount recipient jobId timeoutSecs
  | .releaseEscrow draw id => (fun r => .released r.1 r.2.1 r.2.2) <$> releaseEscrow draw id
  | .refundEscrow draw id => .transaction <$> refundEscrow draw id
  | .stake draw amount => .transaction <$> stake draw amount
  | .unstake draw amount => .transaction <$> unstake draw amount
  | .sweepExpiredEscrows draw => .swept <$> sweepExpiredEscrows draw

/-- The state after one call. -/
def step (cfg : WalletConfig) (st : WalletState) (c : Call) : WalletState := (exec cfg c st).state

end Wallet
end PeerClaw
