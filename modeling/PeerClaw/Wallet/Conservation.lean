import PeerClaw.Wallet.Ledger

/-!
# Over every run, the wallet's money is accounted for

`Lawful` says what one call does to the three balances and to the escrows;
`ledger_conserved` says that every call of every valid run is lawful, and that
over the whole run no escrow leaves `Active` twice.  Both are read off the book
of holds: `exec_accounted` gives the entries each call posts, and the laws of
the book do the rest.
-/

namespace PeerClaw
namespace Wallet

open Lib Lib.Word Lib.HoldBook Lib.Machine

/-! ## What a call does, as seen by its caller -/

/-- Money a call brings into the wallet: that of a successful credit. -/
def comesIn : Call → Outcome WalletError Reply → ℕ
  | .credit _ amount _, .ok _ => amount.toNat
  | _, _ => 0

/-- Money a call takes out of the wallet: that of a successful debit or
release. -/
def goesOut (st : WalletState) : Call → Outcome WalletError Reply → ℕ
  | .debit _ amount _, .ok _ => amount.toNat
  | .releaseEscrow _ id, .ok _ => amountOf st id
  | _, _ => 0

/-- The escrows a call resolves. -/
def settledIds : Call → Outcome WalletError Reply → List EscrowId
  | .releaseEscrow _ id, .ok _ => [id]
  | .refundEscrow _ id, .ok _ => [id]
  | .sweepExpiredEscrows _, .ok (.swept ids) => ids
  | _, _ => []

/-- The escrows a call creates. -/
def createdIds : Call → Outcome WalletError Reply → List EscrowId
  | .createEscrow _ _ _ _ _, .ok (.escrow e) => [e.id]
  | _, _ => []

/-- The call resolves escrows by returning their amounts. -/
def Call.Returns : Call → Prop
  | .refundEscrow _ _ => True
  | .sweepExpiredEscrows _ => True
  | _ => False

/-- The escrows one call resolves when it is made in `st`. -/
def settledBy (cfg : WalletConfig) (st : WalletState) (c : Call) : List EscrowId :=
  settledIds c (exec cfg c st).outcome

/-- The escrows one call creates when it is made in `st`. -/
def createdBy (cfg : WalletConfig) (st : WalletState) (c : Call) : List EscrowId :=
  createdIds c (exec cfg c st).outcome

/-- One when the escrow is active, zero otherwise. -/
def activeBit (st : WalletState) (id : EscrowId) : ℕ := (book st).holding id

/-- What is assumed of a call: the database stores, the fresh id is fresh, dates
are representable and no addition overflows. -/
structure Valid (cfg : WalletConfig) (st : WalletState) (c : Call) : Prop where
  store : c.draw.store = .ok ()
  draws : c.DrawsWell st
  fits : SumsFit (exec cfg c st).arith

/-- What is claimed of a call. -/
structure Lawful (cfg : WalletConfig) (st : WalletState) (c : Call) : Prop where
  /-- No subtraction underflows or saturates, no addition overflows. -/
  exact : ∀ a ∈ (exec cfg c st).arith, a.Exact
  /-- The total moves by what comes in and what goes out. -/
  total : total (step cfg st c) + goesOut st c (exec cfg c st).outcome =
    total st + comesIn c (exec cfg c st).outcome
  /-- The escrows that leave `Active` are the ones the call resolves. -/
  leaves : ∀ id, (IsActive st id ∧ ¬ IsActive (step cfg st c) id) ↔ id ∈ settledBy cfg st c
  /-- What a refund or a sweep resolves is back in `available`. -/
  returns : c.Returns → (step cfg st c).available.toNat =
    st.available.toNat + ((settledBy cfg st c).map (amountOf st)).sum

/-! ## Reading calls off their entries -/

theorem isActive_iff_activeBit {st : WalletState} {id : EscrowId} :
    IsActive st id ↔ activeBit st id = 1 := by
  constructor
  · exact holding_of_active
  · intro h
    by_contra hn
    rw [activeBit, holding_of_not_active hn] at h
    cases h

theorem settles_giveBack (f : EscrowId → ℕ) (ids : List EscrowId) (i : EscrowId) :
    ((ids.map fun id => Entry.giveBack id (f id)).map (Entry.settles i)).sum = ids.count i := by
  induction ids with
  | nil => rfl
  | cons j ids ih =>
      rw [List.map_cons, List.map_cons, List.sum_cons, ih, List.count_cons, Nat.add_comm]
      simp [Entry.settles]

theorem sum_giveBack {g : Entry EscrowId → ℕ} (hg : ∀ id a, g (.giveBack id a) = 0)
    (f : EscrowId → ℕ) (ids : List EscrowId) :
    ((ids.map fun id => Entry.giveBack id (f id)).map g).sum = 0 := by
  rw [List.map_map]
  refine List.sum_eq_zero ?_
  intro n hn
  obtain ⟨id, -, rfl⟩ := List.mem_map.1 hn
  exact hg id _

section Entries

variable (st : WalletState) (c : Call) (o : Outcome WalletError Reply)

theorem inflow_entries : ((entriesOf (entries st c) o).map Entry.inflow).sum = comesIn c o := by
  cases o with
  | err e => cases c <;> rfl
  | panic => cases c <;> rfl
  | ok r =>
      cases c with
      | sweepExpiredEscrows draw =>
          cases r with
          | swept ids => exact sum_giveBack (fun _ _ => rfl) (amountOf st) ids
          | _ => rfl
      | createEscrow draw amount recipient jobId timeoutSecs => cases r <;> rfl
      | _ => rfl

theorem outflow_entries :
    ((entriesOf (entries st c) o).map Entry.outflow).sum = goesOut st c o := by
  cases o with
  | err e => cases c <;> rfl
  | panic => cases c <;> rfl
  | ok r =>
      cases c with
      | sweepExpiredEscrows draw =>
          cases r with
          | swept ids => exact sum_giveBack (fun _ _ => rfl) (amountOf st) ids
          | _ => rfl
      | createEscrow draw amount recipient jobId timeoutSecs => cases r <;> rfl
      | _ => rfl

theorem settles_entries (i : EscrowId) :
    ((entriesOf (entries st c) o).map (Entry.settles i)).sum = (settledIds c o).count i := by
  cases o with
  | err e => cases c <;> rfl
  | panic => cases c <;> rfl
  | ok r =>
      cases c with
      | sweepExpiredEscrows draw =>
          cases r with
          | swept ids => exact settles_giveBack (amountOf st) ids i
          | _ => rfl
      | createEscrow draw amount recipient jobId timeoutSecs => cases r <;> rfl
      | releaseEscrow draw id => simp [entriesOf, entries, Entry.settles, settledIds, List.count_cons]
      | refundEscrow draw id => simp [entriesOf, entries, Entry.settles, settledIds, List.count_cons]
      | _ => rfl

theorem opens_entries (i : EscrowId) :
    ((entriesOf (entries st c) o).map (Entry.opens i)).sum = (createdIds c o).count i := by
  cases o with
  | err e => cases c <;> rfl
  | panic => cases c <;> rfl
  | ok r =>
      cases c with
      | sweepExpiredEscrows draw =>
          cases r with
          | swept ids => exact sum_giveBack (fun _ _ => rfl) (amountOf st) ids
          | _ => rfl
      | createEscrow draw amount recipient jobId timeoutSecs =>
          cases r with
          | escrow e => simp [entriesOf, entries, Entry.opens, createdIds, List.count_cons]
          | _ => rfl
      | _ => rfl

/-- A call that returns amounts frees the amounts of what it resolves. -/
theorem frees_entries (hret : c.Returns) :
    ((entriesOf (entries st c) o).map Entry.frees).sum = ((settledIds c o).map (amountOf st)).sum ∧
      ((entriesOf (entries st c) o).map Entry.takes).sum = 0 := by
  cases o with
  | err e => cases c <;> exact ⟨rfl, rfl⟩
  | panic => cases c <;> exact ⟨rfl, rfl⟩
  | ok r =>
      cases c with
      | refundEscrow draw id => exact ⟨rfl, rfl⟩
      | sweepExpiredEscrows draw =>
          cases r with
          | swept ids =>
              refine ⟨?_, sum_giveBack (fun _ _ => rfl) (amountOf st) ids⟩
              simp only [entriesOf, entries, settledIds, List.map_map]
              rfl
          | _ => exact ⟨rfl, rfl⟩
      | _ => exact hret.elim

theorem createdIds_of_settled {i : EscrowId} (h : i ∈ settledIds c o) : createdIds c o = [] := by
  cases o with
  | err e => cases c <;> rfl
  | panic => cases c <;> rfl
  | ok r =>
      cases c with
      | createEscrow draw amount recipient jobId timeoutSecs => cases r <;> cases h
      | _ => rfl

end Entries

/-! ## One call -/

/-- A valid call settles what it lists: the law of the book, per escrow. -/
theorem settled_add_active {cfg : WalletConfig} {st : WalletState} {c : Call}
    (hinv : LedgerInv st) (hv : Valid cfg st c) (id : EscrowId) :
    (settledBy cfg st c).count id + activeBit (step cfg st c) id =
      activeBit st id + (createdBy cfg st c).count id := by
  have hacc := exec_accounted hinv hv.store hv.draws hv.fits
  have hlaw := hacc.posts.settles_add_holding id
  rw [postings, settles_entries, opens_entries] at hlaw
  exact hlaw

/-- **A valid call is lawful**, and the invariant holds again after it. -/
theorem step_lawful {cfg : WalletConfig} {st : WalletState} {c : Call} (hinv : LedgerInv st)
    (hv : Valid cfg st c) : LedgerInv (step cfg st c) ∧ Lawful cfg st c := by
  have hacc := exec_accounted hinv hv.store hv.draws hv.fits
  refine ⟨hacc.inv, hacc.exact, ?_, ?_, ?_⟩
  · have hlaw := hacc.posts.total_eq
    rw [postings, outflow_entries, inflow_entries, total_book hinv, total_book hacc.inv] at hlaw
    exact hlaw
  · intro id
    have hlaw := settled_add_active hinv hv id
    have hone := hacc.posts.settles_le_one id
    rw [postings, settles_entries] at hone
    have hbefore := (book st).holding_le_used id
    have hused := (book st).used_le_one id
    rw [isActive_iff_activeBit, isActive_iff_activeBit, ← List.count_pos_iff]
    constructor
    · rintro ⟨hact, hleft⟩
      have hafter : activeBit (step cfg st c) id = 0 := by
        by_contra hn
        have hle := (book (step cfg st c)).holding_le_used id
        have hle' := (book (step cfg st c)).used_le_one id
        exact hleft (by unfold activeBit at hn ⊢; omega)
      omega
    · intro hpos
      have hcreated : createdBy cfg st c = [] :=
        createdIds_of_settled c _ (List.count_pos_iff.1 hpos)
      have hcount : (settledBy cfg st c).count id ≤ 1 := hone
      rw [hcreated, List.count_nil] at hlaw
      have hstart : activeBit st id ≤ 1 := le_trans hbefore hused
      omega
  · intro hret
    have hlaw := hacc.posts.free_eq
    obtain ⟨hfrees, htakes⟩ := frees_entries st c (exec cfg c st).outcome hret
    rw [postings, hfrees, htakes] at hlaw
    exact hlaw

/-! ## Every run -/

/-- The book at the end of a valid run is the book at its start with the entries
of all its calls posted. -/
theorem run_posts {cfg : WalletConfig} {st : WalletState} {calls : List Call}
    (hinv : LedgerInv st) (h : Along (step cfg) (Valid cfg) st calls) :
    PostsAll (book st) (collect (step cfg) (postings cfg) st calls)
      (book (run (step cfg) st calls)) := by
  induction calls generalizing st with
  | nil => exact .nil _
  | cons c calls ih =>
      have hacc := exec_accounted hinv h.1.store h.1.draws h.1.fits
      exact hacc.posts.append (ih hacc.inv h.2)

/-- Counting the settlements of a run is counting the entries that settle. -/
theorem count_settledBy (cfg : WalletConfig) (st : WalletState) (calls : List Call)
    (id : EscrowId) : (collect (step cfg) (settledBy cfg) st calls).count id =
      ((collect (step cfg) (postings cfg) st calls).map (Entry.settles id)).sum := by
  induction calls generalizing st with
  | nil => rfl
  | cons c calls ih =>
      simp only [collect, List.count_append, List.map_append, List.sum_append, ih]
      rw [postings, settles_entries, settledBy]

theorem count_createdBy (cfg : WalletConfig) (st : WalletState) (calls : List Call)
    (id : EscrowId) : (collect (step cfg) (createdBy cfg) st calls).count id =
      ((collect (step cfg) (postings cfg) st calls).map (Entry.opens id)).sum := by
  induction calls generalizing st with
  | nil => rfl
  | cons c calls ih =>
      simp only [collect, List.count_append, List.map_append, List.sum_append, ih]
      rw [postings, opens_entries, createdBy]

/-- **The ledger is conserved.**  In every valid run from a state that satisfies
the invariant, the invariant holds in every state, every call is lawful, no
escrow leaves `Active` twice, and the escrows that were created and did not leave
are the ones still active. -/
theorem ledger_conserved (cfg : WalletConfig) {st : WalletState} {calls : List Call}
    (hinv : LedgerInv st) (h : Along (step cfg) (Valid cfg) st calls) :
    Always (step cfg) LedgerInv st calls ∧ Along (step cfg) (Lawful cfg) st calls ∧
      ∀ id, (collect (step cfg) (settledBy cfg) st calls).count id ≤ 1 ∧
        (collect (step cfg) (settledBy cfg) st calls).count id +
            activeBit (run (step cfg) st calls) id =
          activeBit st id + (collect (step cfg) (createdBy cfg) st calls).count id := by
  have hstep : ∀ s c, LedgerInv s → Valid cfg s c → LedgerInv (step cfg s c) ∧ Lawful cfg s c :=
    fun _ _ => step_lawful
  refine ⟨always_of_inv (fun s c hs hv => (hstep s c hs hv).1) hinv h,
    along_of_inv hstep hinv h, fun id => ?_⟩
  have hposts := run_posts hinv h
  rw [count_settledBy, count_createdBy]
  exact ⟨hposts.settles_le_one id, hposts.settles_add_holding id⟩

section Example

/-- What a call could draw at the epoch. -/
private def someDraw (id : String) : Draw := .fixed .epoch id [⟨"e"⟩]

private def someConfig : WalletConfig := ⟨100, 100, 100, 0⟩

private def someCalls : List Call :=
  [.credit (someDraw "a") 10 "gift", .createEscrow (someDraw "e") 4 "peer" "job" 60,
    .releaseEscrow (someDraw "b") ⟨"e"⟩, .refundEscrow (someDraw "c") ⟨"e"⟩]

private theorem someCalls_valid : Along (step someConfig) (Valid someConfig) .default someCalls := by
  refine ⟨⟨rfl, trivial, ?_⟩, ⟨rfl, ?_, ?_⟩, ⟨rfl, trivial, ?_⟩, ⟨rfl, trivial, ?_⟩, trivial⟩
  · decide
  · exact ⟨by decide, by decide⟩
  all_goals decide

/-- Ten come in, four are set aside and released: the escrow left `Active` once,
and its late refund failed. -/
theorem ledger_conserved_released :
    (collect (step someConfig) (settledBy someConfig) .default someCalls).count ⟨"e"⟩ = 1 ∧
      total (run (step someConfig) .default someCalls) = 6 := by
  obtain ⟨-, -, hcount⟩ := ledger_conserved someConfig (by decide) someCalls_valid
  have hle := (hcount ⟨"e"⟩).1
  refine ⟨?_, by decide⟩
  have hge : 1 ≤ (collect (step someConfig) (settledBy someConfig) .default someCalls).count ⟨"e"⟩ := by
    decide
  exact le_antisymm hle hge

end Example

end Wallet
end PeerClaw
