import PeerClaw.Wallet.Operations
import PeerClaw.Lib.HoldBook
import PeerClaw.Lib.Machine

/-!
# The wallet keeps a book of holds

The purpose of the wallet's counters and of its escrow map is the book of holds
of `Lib.HoldBook`.  `book` reads that book off a wallet state, `LedgerInv` says
that the counter `in_escrow` agrees with it, and `exec_accounts` is the
refinement: whatever valid call is made, in whatever state satisfying the
invariant, the new state is the old book with the call's entries posted — none
for a call that fails — the invariant holds again, and no word operation on the
way wrapped or saturated.

Everything said about whole runs then follows from the laws of the book.
-/

namespace PeerClaw
namespace Wallet

open Lib Lib.Word Lib.HoldBook Lib.Machine

/-! ## The book behind a wallet state -/

/-- The hold an escrow stands for: a refund and an expiry both give it back. -/
def hold (e : Escrow) : Hold :=
  ⟨e.amount.toNat, match e.status with
    | .active => .held
    | .released => .paid
    | .refunded => .returned
    | .expired => .returned⟩

/-- The book behind a wallet state. -/
def book (st : WalletState) : Book EscrowId where
  free := st.available.toNat
  bonded := st.staked.toNat
  holds := st.escrows.mapVal hold

/-- What an escrow contributes to the amount held. -/
def activeAmount (e : Escrow) : ℕ := if e.status = .active then e.amount.toNat else 0

/-- The sum of the amounts of the escrows whose status is `Active`. -/
def activeSum (st : WalletState) : ℕ := st.escrows.weigh activeAmount

/-- `in_escrow` is the sum of the amounts of the active escrows. -/
def LedgerInv (st : WalletState) : Prop := st.inEscrow.toNat = activeSum st

instance : DecidablePred LedgerInv := fun st =>
  inferInstanceAs (Decidable (st.inEscrow.toNat = activeSum st))

/-- `available + in_escrow + staked`, exactly. -/
def total (st : WalletState) : ℕ := st.available.toNat + st.inEscrow.toNat + st.staked.toNat

/-- The escrow is there and its tokens are held. -/
def IsActive (st : WalletState) (id : EscrowId) : Prop :=
  ∃ e, st.escrows.lookup id = some e ∧ e.status = .active

/-- The amount of an escrow, zero when there is none. -/
def amountOf (st : WalletState) (id : EscrowId) : ℕ :=
  ((st.escrows.lookup id).map fun e => e.amount.toNat).getD 0

theorem weight_hold (e : Escrow) : (hold e).weight = activeAmount e := by
  unfold hold activeAmount Hold.weight
  cases e.status <;> rfl

theorem held_book (st : WalletState) : (book st).held = activeSum st := by
  simp [Book.held, book, activeSum, Finmap.weigh_mapVal, weight_hold]

theorem total_book {st : WalletState} (h : LedgerInv st) : (book st).total = total st := by
  have heq : st.inEscrow.toNat = activeSum st := h
  rw [Book.total, held_book, total, heq]
  rfl

theorem lookup_book (st : WalletState) (id : EscrowId) :
    (book st).holds.lookup id = (st.escrows.lookup id).map hold :=
  Finmap.lookup_mapVal ..

theorem holding_of_active {st : WalletState} {id : EscrowId} (h : IsActive st id) :
    (book st).holding id = 1 := by
  obtain ⟨e, he, hs⟩ := h
  simp [Book.holding, lookup_book, he, hold, hs]

theorem holding_of_not_active {st : WalletState} {id : EscrowId} (h : ¬ IsActive st id) :
    (book st).holding id = 0 := by
  unfold Book.holding
  rw [lookup_book]
  cases he : st.escrows.lookup id with
  | none => rfl
  | some e =>
      have hs : e.status ≠ .active := fun hs => h ⟨e, he, hs⟩
      simp only [Option.map_some, hold]
      cases hst : e.status with
      | active => exact absurd hst hs
      | released => rfl
      | refunded => rfl
      | expired => rfl

theorem lookup_book_of_active {st : WalletState} {id : EscrowId} {e : Escrow}
    (he : st.escrows.lookup id = some e) (hs : e.status = .active) :
    (book st).holds.lookup id = some ⟨e.amount.toNat, .held⟩ := by
  rw [lookup_book, he, Option.map_some, hold, hs]

/-- Changing only the status of a stored escrow rewrites one hold of the book. -/
theorem holds_update {st : WalletState} {id : EscrowId} {e : Escrow}
    (he : st.escrows.lookup id = some e) (status : EscrowStatus) :
    (st.escrows.update id fun x => { x with status := status }).mapVal hold =
      (st.escrows.mapVal hold).insert id (hold { e with status := status }) := by
  rw [Finmap.update_of_lookup he, Finmap.mapVal_insert]

/-- Resolving an active escrow takes its amount out of the active sum. -/
theorem activeSum_update {st : WalletState} {id : EscrowId} {e : Escrow}
    (he : st.escrows.lookup id = some e) (hs : e.status = .active) (status : EscrowStatus)
    (hne : status ≠ .active) :
    (st.escrows.update id fun x => { x with status := status }).weigh activeAmount +
      e.amount.toNat = activeSum st := by
  have hw := Finmap.weigh_insert_old he { e with status := status } activeAmount
  have hnew : activeAmount { e with status := status } = 0 := if_neg hne
  have hold : activeAmount e = e.amount.toNat := if_pos hs
  rw [hnew, hold] at hw
  rw [Finmap.update_of_lookup he]
  exact hw

theorem amount_le_inEscrow {st : WalletState} (hinv : LedgerInv st) {id : EscrowId} {e : Escrow}
    (he : st.escrows.lookup id = some e) (hs : e.status = .active) : e.amount ≤ st.inEscrow := by
  have hle := Finmap.le_weigh he activeAmount
  have hold : activeAmount e = e.amount.toNat := if_pos hs
  have heq : st.inEscrow.toNat = st.escrows.weigh activeAmount := hinv
  rw [toNat_le, heq, ← hold]
  exact hle

/-! ## What it means for an effect to be accounted for -/

/-- The additions among the operations gave the exact sum. -/
def SumsFit (arith : List Arith) : Prop := ∀ a ∈ arith, a.IsAdd → a.Exact

instance : DecidablePred SumsFit := fun arith =>
  inferInstanceAs (Decidable (∀ a ∈ arith, a.IsAdd → a.Exact))

/-- The effect of an action on `st` is the posting of `es`: the invariant holds
afterwards and no word operation wrapped or saturated. -/
structure Accounted {α : Type} (st : WalletState) (eff : Effect WalletState WalletError α)
    (es : List (Entry EscrowId)) : Prop where
  posts : PostsAll (book st) es (book eff.state)
  inv : LedgerInv eff.state
  exact : ∀ a ∈ eff.arith, a.Exact

/-- The entries of an outcome: those of its value, none when there is none. -/
def entriesOf {α : Type} (f : α → List (Entry EscrowId)) :
    Outcome WalletError α → List (Entry EscrowId)
  | .ok a => f a
  | .err _ => []
  | .panic => []

theorem entriesOf_map {α β : Type} (f : β → List (Entry EscrowId)) (g : α → β)
    (o : Outcome WalletError α) : entriesOf f (o.map g) = entriesOf (fun a => f (g a)) o := by
  cases o <;> rfl

/-- An action that leaves the state alone and only adds is accounted for by
nothing. -/
theorem Accounted.untouched {α : Type} {st : WalletState} {eff : Effect WalletState WalletError α}
    (hinv : LedgerInv st) (hstate : eff.state = st) (hexact : ∀ a ∈ eff.arith, a.Exact) :
    Accounted st eff [] := by
  refine ⟨?_, ?_, hexact⟩
  · rw [hstate]
    exact .nil _
  · rw [hstate]
    exact hinv

/-! ## The critical sections -/

theorem creditLocked_accounted {stamp : Stamp} {amount : UInt64} {reason : String}
    {st : WalletState} (hinv : LedgerInv st)
    (hfit : SumsFit (creditLocked stamp amount reason st).arith) :
    Accounted st (creditLocked stamp amount reason st)
      (entriesOf (fun _ => [.deposit amount.toNat]) (creditLocked stamp amount reason st).outcome) := by
  have hsum := hfit (.add st.available amount) (by simp [creditLocked]) trivial
  refine ⟨.single ?_, hinv, ?_⟩
  · have hpost := Posts.deposit (book st) amount.toNat
    simp only [book, creditLocked, toNat_add_of_fits hsum]
    exact hpost
  · intro a ha
    rw [List.mem_singleton.1 ha]
    exact hsum

theorem debitLocked_accounted {cfg : WalletConfig} {now : DateTime} {stamp : Stamp}
    {amount : UInt64} {reason : String} {st : WalletState} (hinv : LedgerInv st)
    (hfit : SumsFit (debitLocked cfg now stamp amount reason st).arith) :
    Accounted st (debitLocked cfg now stamp amount reason st)
      (entriesOf (fun _ => [.withdraw amount.toNat])
        (debitLocked cfg now stamp amount reason st).outcome) := by
  unfold debitLocked at hfit ⊢
  by_cases hlt : satSub st.available cfg.reserveBalance < amount
  · simp only [if_pos hlt] at hfit ⊢
    exact Accounted.untouched hinv rfl (by simp)
  · simp only [if_neg hlt] at hfit ⊢
    have hle : amount.toNat ≤ st.available.toNat := by
      rw [toNat_lt, toNat_satSub] at hlt
      omega
    refine ⟨.single ?_, hinv, ?_⟩
    · have hpost := Posts.withdraw (book st) amount.toNat hle
      simp only [book, toNat_sub_of_le (toNat_le.2 hle)]
      exact hpost
    · intro a ha
      rcases List.mem_cons.1 ha with rfl | ha
      · exact toNat_le.2 hle
      · exact hfit a (List.mem_cons_of_mem _ ha) (by
          simp only [List.mem_cons, List.not_mem_nil, or_false] at ha
          rcases ha with rfl | rfl <;> trivial)

theorem createEscrowLocked_accounted {cfg : WalletConfig} {draw : Draw} {amount : UInt64}
    {recipient jobId : String} {timeoutSecs : UInt64} {st : WalletState} (hinv : LedgerInv st)
    (hfresh : draw.escrowId ∉ st.escrows)
    (htime : (Escrow.new draw.now draw.escrowId amount recipient jobId timeoutSecs).isSome)
    (hfit : SumsFit (createEscrowLocked cfg draw amount recipient jobId timeoutSecs st).arith) :
    Accounted st (createEscrowLocked cfg draw amount recipient jobId timeoutSecs st)
      (entriesOf (fun e => [.hold e.id amount.toNat])
        (createEscrowLocked cfg draw amount recipient jobId timeoutSecs st).outcome) := by
  obtain ⟨escrow, hnew⟩ := Option.isSome_iff_exists.1 htime
  obtain ⟨hid, hamount, -, -, -, hstatus⟩ := Escrow.new_some hnew
  unfold createEscrowLocked at hfit ⊢
  simp only [hnew] at hfit ⊢
  by_cases hlt : satSub st.available cfg.reserveBalance < amount
  · simp only [if_pos hlt] at hfit ⊢
    exact Accounted.untouched hinv rfl (by simp)
  · simp only [if_neg hlt] at hfit ⊢
    have hle : amount.toNat ≤ st.available.toNat := by
      rw [toNat_lt, toNat_satSub] at hlt
      omega
    have hsum := hfit (.add st.inEscrow amount) (by simp) trivial
    have hnot : escrow.id ∉ st.escrows := by
      rw [hid]
      exact hfresh
    have hhold : hold escrow = ⟨amount.toNat, .held⟩ := by rw [hold, hstatus, hamount]
    refine ⟨.single ?_, ?_, ?_⟩
    · have hpost := Posts.hold (book st) escrow.id amount.toNat hle
        (fun hmem => hnot ((Finmap.mem_mapVal ..).1 hmem))
      simp only [book, Finmap.mapVal_insert, hhold, toNat_sub_of_le (toNat_le.2 hle)]
      exact hpost
    · show (st.inEscrow + amount).toNat = (st.escrows.insert escrow.id escrow).weigh activeAmount
      have hactive : activeAmount escrow = amount.toNat := by rw [activeAmount, if_pos hstatus, hamount]
      have heq : st.inEscrow.toNat = st.escrows.weigh activeAmount := hinv
      rw [toNat_add_of_fits hsum, Finmap.weigh_insert_new hnot, hactive, heq, Nat.add_comm]
    · intro a ha
      simp only [List.mem_cons, List.not_mem_nil, or_false] at ha
      rcases ha with rfl | rfl
      · exact toNat_le.2 hle
      · exact hsum

theorem releaseEscrowLocked_accounted {stamp : Stamp} {id : EscrowId} {st : WalletState}
    (hinv : LedgerInv st) :
    Accounted st (releaseEscrowLocked stamp id st)
      (entriesOf (fun _ => [.payOut id (amountOf st id)])
        (releaseEscrowLocked stamp id st).outcome) := by
  unfold releaseEscrowLocked
  cases he : st.escrows.lookup id with
  | none => exact Accounted.untouched hinv rfl (by simp)
  | some e =>
      by_cases hs : e.status = .active
      · simp only [hs, ne_eq, not_true_eq_false, if_false]
        have hle := amount_le_inEscrow hinv he hs
        have hamount : amountOf st id = e.amount.toNat := by simp [amountOf, he]
        refine ⟨.single ?_, ?_, ?_⟩
        · have hpost := Posts.payOut (book st) id _ (lookup_book_of_active he hs)
          simp only [book, holds_update he, hamount]
          exact hpost
        · have hsum := activeSum_update he hs .released (by decide)
          have heq : st.inEscrow.toNat = activeSum st := hinv
          show (st.inEscrow - e.amount).toNat = _
          rw [toNat_sub_of_le hle, heq, ← hsum, Nat.add_sub_cancel]
          rfl
        · intro a ha
          rw [List.mem_singleton.1 ha]
          exact hle
      · simp only [ne_eq, hs, not_false_eq_true, if_true]
        exact Accounted.untouched hinv rfl (by simp)

theorem refundEscrowLocked_accounted {stamp : Stamp} {id : EscrowId} {st : WalletState}
    (hinv : LedgerInv st) (hfit : SumsFit (refundEscrowLocked stamp id st).arith) :
    Accounted st (refundEscrowLocked stamp id st)
      (entriesOf (fun _ => [.giveBack id (amountOf st id)])
        (refundEscrowLocked stamp id st).outcome) := by
  unfold refundEscrowLocked at hfit ⊢
  cases he : st.escrows.lookup id with
  | none => exact Accounted.untouched hinv rfl (by simp)
  | some e =>
      by_cases hs : e.status = .active
      · simp only [he, hs, ne_eq, not_true_eq_false, if_false] at hfit ⊢
        have hle := amount_le_inEscrow hinv he hs
        have hback := hfit (.add st.available e.amount) (by simp) trivial
        have hamount : amountOf st id = e.amount.toNat := by simp [amountOf, he]
        refine ⟨.single ?_, ?_, ?_⟩
        · have hpost := Posts.giveBack (book st) id _ (lookup_book_of_active he hs)
          simp only [book, holds_update he, hamount, toNat_add_of_fits hback]
          exact hpost
        · have hsum := activeSum_update he hs .refunded (by decide)
          have heq : st.inEscrow.toNat = activeSum st := hinv
          show (st.inEscrow - e.amount).toNat = _
          rw [toNat_sub_of_le hle, heq, ← hsum, Nat.add_sub_cancel]
          rfl
        · intro a ha
          simp only [List.mem_cons, List.not_mem_nil, or_false] at ha
          rcases ha with rfl | rfl
          · exact hle
          · exact hback
      · simp only [ne_eq, hs, not_false_eq_true, if_true]
        exact Accounted.untouched hinv rfl (by simp)

theorem stakeLocked_accounted {stamp : Stamp} {amount : UInt64} {st : WalletState}
    (hinv : LedgerInv st) (hfit : SumsFit (stakeLocked stamp amount st).arith) :
    Accounted st (stakeLocked stamp amount st)
      (entriesOf (fun _ => [.bond amount.toNat]) (stakeLocked stamp amount st).outcome) := by
  unfold stakeLocked at hfit ⊢
  by_cases hlt : st.available < amount
  · simp only [if_pos hlt] at hfit ⊢
    exact Accounted.untouched hinv rfl (by simp)
  · simp only [if_neg hlt] at hfit ⊢
    have hle : amount.toNat ≤ st.available.toNat := by
      rw [toNat_lt] at hlt
      omega
    have hsum := hfit (.add st.staked amount) (by simp) trivial
    refine ⟨.single ?_, hinv, ?_⟩
    · have hpost := Posts.bond (book st) amount.toNat hle
      simp only [book, toNat_sub_of_le (toNat_le.2 hle), toNat_add_of_fits hsum]
      exact hpost
    · intro a ha
      simp only [List.mem_cons, List.not_mem_nil, or_false] at ha
      rcases ha with rfl | rfl
      · exact toNat_le.2 hle
      · exact hsum

theorem unstakeLocked_accounted {stamp : Stamp} {amount : UInt64} {st : WalletState}
    (hinv : LedgerInv st) (hfit : SumsFit (unstakeLocked stamp amount st).arith) :
    Accounted st (unstakeLocked stamp amount st)
      (entriesOf (fun _ => [.unbond amount.toNat]) (unstakeLocked stamp amount st).outcome) := by
  unfold unstakeLocked at hfit ⊢
  by_cases hlt : st.staked < amount
  · simp only [if_pos hlt] at hfit ⊢
    exact Accounted.untouched hinv rfl (by simp)
  · simp only [if_neg hlt] at hfit ⊢
    have hle : amount.toNat ≤ st.staked.toNat := by
      rw [toNat_lt] at hlt
      omega
    have hsum := hfit (.add st.available amount) (by simp) trivial
    refine ⟨.single ?_, hinv, ?_⟩
    · have hpost := Posts.unbond (book st) amount.toNat hle
      simp only [book, toNat_sub_of_le (toNat_le.2 hle), toNat_add_of_fits hsum]
      exact hpost
    · intro a ha
      simp only [List.mem_cons, List.not_mem_nil, or_false] at ha
      rcases ha with rfl | rfl
      · exact toNat_le.2 hle
      · exact hsum

/-! ## The sweep -/

theorem sweepOne_accounted {stamp : Stamp} {id : EscrowId} {st : WalletState}
    (hinv : LedgerInv st) (hact : IsActive st id) (hfit : SumsFit (sweepOne stamp id st).arith) :
    (sweepOne stamp id st).outcome = .ok [id] ∧
      Accounted st (sweepOne stamp id st) [.giveBack id (amountOf st id)] := by
  obtain ⟨e, he, hs⟩ := hact
  unfold sweepOne at hfit ⊢
  simp only [he] at hfit ⊢
  have hle := amount_le_inEscrow hinv he hs
  have hback := hfit (.add st.available e.amount) (by simp) trivial
  have hamount : amountOf st id = e.amount.toNat := by simp [amountOf, he]
  refine ⟨trivial, .single ?_, ?_, ?_⟩
  · have hpost := Posts.giveBack (book st) id _ (lookup_book_of_active he hs)
    simp only [book, holds_update he, hamount, toNat_add_of_fits hback]
    exact hpost
  · have hsum := activeSum_update he hs .expired (by decide)
    have heq : st.inEscrow.toNat = activeSum st := hinv
    show (satSub st.inEscrow e.amount).toNat = _
    rw [toNat_satSub, heq, ← hsum, Nat.add_sub_cancel]
    rfl
  · intro a ha
    simp only [List.mem_cons, List.not_mem_nil, or_false] at ha
    rcases ha with rfl | rfl
    · exact hle
    · exact hback

/-- Expiring one escrow leaves the others active and every amount what it was. -/
theorem sweepOne_others (stamp : Stamp) (id : EscrowId) (st : WalletState) :
    (∀ j, j ≠ id → IsActive st j → IsActive (sweepOne stamp id st).state j) ∧
      amountOf (sweepOne stamp id st).state = amountOf st := by
  unfold sweepOne
  cases he : st.escrows.lookup id with
  | none => exact ⟨fun _ _ h => h, rfl⟩
  | some e =>
      constructor
      · rintro j hj ⟨x, hx, hs⟩
        refine ⟨x, ?_, hs⟩
        show (st.escrows.update id _).lookup j = some x
        rw [Finmap.lookup_update, if_neg hj, hx]
      · funext j
        simp only [amountOf, Finmap.lookup_update]
        by_cases hj : j = id
        · subst hj
          rw [if_pos rfl, he]
          rfl
        · rw [if_neg hj]

/-- The loop gives back every escrow on its list, provided they are distinct and
active when it starts. -/
theorem sweepLoop_accounted {stamp : ℕ → Stamp} {ids : List EscrowId} :
    ∀ {k : ℕ} {st : WalletState}, LedgerInv st → ids.Nodup → (∀ id ∈ ids, IsActive st id) →
      SumsFit (sweepLoop stamp k ids st).arith →
      (sweepLoop stamp k ids st).outcome = .ok ids ∧
        Accounted st (sweepLoop stamp k ids st)
          (ids.map fun id => .giveBack id (amountOf st id)) := by
  induction ids with
  | nil =>
      intro k st hinv _ _ _
      exact ⟨rfl, Accounted.untouched hinv rfl (by intro a ha; cases ha)⟩
  | cons id ids ih =>
      intro k st hinv hnd hact hfit
      obtain ⟨hnot, hnd⟩ := List.nodup_cons.1 hnd
      -- the escrow at the head is given back first
      have hone : (sweepOne (stamp k) id st).outcome = .ok [id] := by
        obtain ⟨e, he, -⟩ := hact id (List.mem_cons_self ..)
        simp only [sweepOne, he]
      have hunfold : sweepLoop stamp k (id :: ids) st =
          (sweepOne (stamp k) id >>= fun swept => do
            let rest ← sweepLoop stamp (k + swept.length) ids
            return swept ++ rest) st := rfl
      rw [hunfold, Action.bind_of_ok hone] at hfit ⊢
      have hmap : (do let rest ← sweepLoop stamp (k + [id].length) ids; return [id] ++ rest :
          WalletM (List EscrowId)) = (fun rest => [id] ++ rest) <$> sweepLoop stamp (k + 1) ids := rfl
      rw [hmap, Action.map_apply] at hfit ⊢
      have hfit₁ : SumsFit (sweepOne (stamp k) id st).arith :=
        fun a ha => hfit a (List.mem_append_left _ ha)
      have hfit₂ : SumsFit (sweepLoop stamp (k + 1) ids (sweepOne (stamp k) id st).state).arith :=
        fun a ha => hfit a (List.mem_append_right _ ha)
      obtain ⟨-, hfirst⟩ := sweepOne_accounted hinv (hact id (List.mem_cons_self ..)) hfit₁
      -- the others are still active, with the amounts they had
      obtain ⟨hkeep, hamounts⟩ := sweepOne_others (stamp k) id st
      have hact' : ∀ j ∈ ids, IsActive (sweepOne (stamp k) id st).state j := by
        intro j hj
        have hne : j ≠ id := fun h => hnot (h ▸ hj)
        exact hkeep j hne (hact j (List.mem_cons_of_mem _ hj))
      obtain ⟨hout, hrest⟩ := ih hfirst.inv hnd hact' hfit₂
      rw [hamounts] at hrest
      refine ⟨by rw [hout]; rfl, ?_, hrest.inv, ?_⟩
      · exact hfirst.posts.append hrest.posts
      · intro a ha
        rcases List.mem_append.1 ha with ha | ha
        · exact hfirst.exact a ha
        · exact hrest.exact a ha

/-! ## Every call -/

/-- The order lists each key of the map once: it is an iteration order. -/
def Enumerates (order : List EscrowId) (m : FiniteMap EscrowId Escrow) : Prop :=
  order.Nodup ∧ ∀ id, id ∈ order ↔ id ∈ m

/-- The escrows a sweep finds are distinct, -/
theorem expiredIds_nodup (now : DateTime) {order : List EscrowId} {st : WalletState}
    (h : Enumerates order st.escrows) : (expiredIds now order st).Nodup :=
  h.1.filter _

/-- and all of them are active. -/
theorem isActive_of_expired (now : DateTime) (order : List EscrowId) (st : WalletState) :
    ∀ id ∈ expiredIds now order st, IsActive st id := by
  intro id hid
  have htest := (List.mem_filter.1 hid).2
  cases he : st.escrows.lookup id with
  | none => rw [he] at htest; cases htest
  | some e =>
      simp only [he, Bool.and_eq_true, decide_eq_true_eq] at htest
      exact ⟨e, he, htest.1⟩

/-- The call draws what it can draw in this state: a new escrow gets an id that
is not in use and an expiry date that is representable, and a sweep goes through
the escrows in some order. -/
def Call.DrawsWell (st : WalletState) : Call → Prop
  | .createEscrow draw amount recipient jobId timeoutSecs =>
      draw.escrowId ∉ st.escrows ∧
        (Escrow.new draw.now draw.escrowId amount recipient jobId timeoutSecs).isSome
  | .sweepExpiredEscrows draw => Enumerates draw.order st.escrows
  | _ => True

/-- The entries a call posts when it returns a value. -/
def entries (st : WalletState) : Call → Reply → List (Entry EscrowId)
  | .credit _ amount _, _ => [.deposit amount.toNat]
  | .debit _ amount _, _ => [.withdraw amount.toNat]
  | .createEscrow _ amount _ _ _, .escrow e => [.hold e.id amount.toNat]
  | .releaseEscrow _ id, _ => [.payOut id (amountOf st id)]
  | .refundEscrow _ id, _ => [.giveBack id (amountOf st id)]
  | .stake _ amount, _ => [.bond amount.toNat]
  | .unstake _ amount, _ => [.unbond amount.toNat]
  | .sweepExpiredEscrows _, .swept ids => ids.map fun id => .giveBack id (amountOf st id)
  | _, _ => []

/-- The entries a call posts: none when it fails. -/
def postings (cfg : WalletConfig) (st : WalletState) (c : Call) : List (Entry EscrowId) :=
  entriesOf (entries st c) (exec cfg c st).outcome

theorem saveState_ok {store : Except String Unit} (h : store = .ok ()) :
    saveState store = Action.pure () := by
  rw [h]
  rfl

theorem checkSpendingLimits_arith (cfg : WalletConfig) (now : DateTime) (amount : UInt64)
    (st : WalletState) : ∀ a ∈ (checkSpendingLimits cfg now amount st).arith, a.IsAdd := by
  unfold checkSpendingLimits
  dsimp only
  split
  · simp
  · split
    · simp [Arith.IsAdd]
    · split <;> simp [Arith.IsAdd]

/-- What is accounted for after the spending check is accounted for with it. -/
theorem accounted_after_check {α : Type} {cfg : WalletConfig} {now : DateTime} {amount : UInt64}
    {x : WalletM α} {f : α → List (Entry EscrowId)} {st : WalletState} (hinv : LedgerInv st)
    (hx : SumsFit (x st).arith → Accounted st (x st) (entriesOf f (x st).outcome))
    (hfit : SumsFit ((checkSpendingLimits cfg now amount >>= fun _ => x) st).arith) :
    Accounted st ((checkSpendingLimits cfg now amount >>= fun _ => x) st)
      (entriesOf f ((checkSpendingLimits cfg now amount >>= fun _ => x) st).outcome) := by
  have hstate := checkSpendingLimits_state cfg now amount st
  have hadds := checkSpendingLimits_arith cfg now amount st
  by_cases hok : (checkSpendingLimits cfg now amount st).outcome.isOk
  · obtain ⟨u, hu⟩ := Outcome.isOk_iff.1 hok
    rw [Action.bind_of_ok hu, hstate] at hfit ⊢
    have hrest := hx fun a ha => hfit a (List.mem_append_right _ ha)
    refine ⟨hrest.posts, hrest.inv, ?_⟩
    intro a ha
    rcases List.mem_append.1 ha with ha | ha
    · exact hfit a (List.mem_append_left _ ha) (hadds a ha)
    · exact hrest.exact a ha
  · obtain ⟨hout, hst, harith⟩ := Action.bind_of_not_ok (f := fun _ => x)
      (Bool.eq_false_iff.2 hok)
    have hnone : entriesOf f ((checkSpendingLimits cfg now amount >>= fun _ => x) st).outcome = [] := by
      cases h : ((checkSpendingLimits cfg now amount >>= fun _ => x) st).outcome with
      | ok a => rw [h] at hout; cases hout
      | err e => rfl
      | panic => rfl
    rw [hnone]
    refine Accounted.untouched hinv (hst.trans hstate) ?_
    rw [harith] at hfit ⊢
    exact fun a ha => hfit a ha (hadds a ha)

/-- **Refinement.**  A valid call, made in a state satisfying the invariant, posts
its entries to the book, keeps the invariant, and neither wraps nor saturates. -/
theorem exec_accounted {cfg : WalletConfig} {st : WalletState} {c : Call} (hinv : LedgerInv st)
    (hstore : c.draw.store = .ok ()) (hdraw : c.DrawsWell st)
    (hfit : SumsFit (exec cfg c st).arith) :
    Accounted st (exec cfg c st) (postings cfg st c) := by
  have haccount : ∀ {α : Type} {x : WalletM α} {g : α → Reply},
      Accounted st (x st) (entriesOf (fun a => entries st c (g a)) (x st).outcome) →
      exec cfg c = g <$> x → Accounted st (exec cfg c st) (postings cfg st c) := by
    intro α x g hx heq
    rw [postings, heq, Action.map_apply, entriesOf_map]
    exact ⟨hx.posts, hx.inv, hx.exact⟩
  cases c with
  | credit draw amount reason =>
      have hsec : credit draw amount reason st =
          if amount = 0 then ⟨.err (.invalidAmount "Amount must be > 0"), st, []⟩
          else creditLocked (draw.stamp 0) amount reason st := by
        have hsave : saveState draw.store = Action.pure () := saveState_ok hstore
        unfold credit
        split
        · rfl
        · exact congrFun (Action.bind_return _ hsave) st
      refine haccount (x := credit draw amount reason) ?_ rfl
      simp only [exec, Action.map_apply] at hfit
      rw [hsec] at hfit ⊢
      split
      · exact Accounted.untouched hinv rfl (by simp)
      · rename_i hne
        rw [if_neg hne] at hfit
        exact creditLocked_accounted hinv hfit
  | debit draw amount reason =>
      have hsec : debit cfg draw amount reason = (checkSpendingLimits cfg draw.checkedAt amount >>=
          fun _ => debitLocked cfg draw.now (draw.stamp 0) amount reason) := by
        have hsave : saveState draw.store = Action.pure () := saveState_ok hstore
        unfold debit
        rw [Action.bind_return _ hsave]
      refine haccount (x := debit cfg draw amount reason) ?_ rfl
      simp only [exec, Action.map_apply] at hfit
      rw [hsec] at hfit ⊢
      exact accounted_after_check hinv (debitLocked_accounted hinv) hfit
  | createEscrow draw amount recipient jobId timeoutSecs =>
      have hsec : createEscrow cfg draw amount recipient jobId timeoutSecs =
          (checkSpendingLimits cfg draw.checkedAt amount >>=
            fun _ => createEscrowLocked cfg draw amount recipient jobId timeoutSecs) := by
        have hsave : saveState draw.store = Action.pure () := saveState_ok hstore
        unfold createEscrow
        rw [Action.bind_return _ hsave]
      refine haccount (x := createEscrow cfg draw amount recipient jobId timeoutSecs) ?_ rfl
      simp only [exec, Action.map_apply] at hfit
      rw [hsec] at hfit ⊢
      exact accounted_after_check hinv
        (createEscrowLocked_accounted hinv hdraw.1 hdraw.2) hfit
  | releaseEscrow draw id =>
      have hsec : releaseEscrow draw id st = releaseEscrowLocked (draw.stamp 0) id st :=
        congrFun (Action.bind_return _ (saveState_ok hstore)) st
      refine haccount (x := releaseEscrow draw id) ?_ rfl
      rw [hsec]
      exact releaseEscrowLocked_accounted hinv
  | refundEscrow draw id =>
      have hsec : refundEscrow draw id st = refundEscrowLocked (draw.stamp 0) id st :=
        congrFun (Action.bind_return _ (saveState_ok hstore)) st
      refine haccount (x := refundEscrow draw id) ?_ rfl
      simp only [exec, Action.map_apply] at hfit
      rw [hsec] at hfit ⊢
      exact refundEscrowLocked_accounted hinv hfit
  | stake draw amount =>
      have hsec : stake draw amount st = stakeLocked (draw.stamp 0) amount st :=
        congrFun (Action.bind_return _ (saveState_ok hstore)) st
      refine haccount (x := stake draw amount) ?_ rfl
      simp only [exec, Action.map_apply] at hfit
      rw [hsec] at hfit ⊢
      exact stakeLocked_accounted hinv hfit
  | unstake draw amount =>
      have hsec : unstake draw amount st = unstakeLocked (draw.stamp 0) amount st :=
        congrFun (Action.bind_return _ (saveState_ok hstore)) st
      refine haccount (x := unstake draw amount) ?_ rfl
      simp only [exec, Action.map_apply] at hfit
      rw [hsec] at hfit ⊢
      exact unstakeLocked_accounted hinv hfit
  | sweepExpiredEscrows draw =>
      refine haccount (x := sweepExpiredEscrows draw) ?_ rfl
      simp only [exec, Action.map_apply] at hfit
      obtain ⟨hout, hacc⟩ := sweepLoop_accounted hinv (expiredIds_nodup draw.now hdraw)
        (isActive_of_expired draw.now draw.order st) hfit
      have hentries : entriesOf (fun ids => entries st (.sweepExpiredEscrows draw) (.swept ids))
          (sweepExpiredEscrows draw st).outcome =
          (expiredIds draw.now draw.order st).map fun id => .giveBack id (amountOf st id) := by
        unfold sweepExpiredEscrows
        rw [hout]
        rfl
      rw [hentries]
      exact hacc

end Wallet
end PeerClaw
