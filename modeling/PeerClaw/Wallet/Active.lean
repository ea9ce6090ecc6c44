import PeerClaw.Wallet.Limits

/-!
# Which escrows are active

An escrow is active from its creation until it is released, refunded or swept,
and never again.

* `locked_active` — what is active after a section under the write lock was
  active before, or is the escrow the section created.
-/

namespace PeerClaw
namespace Wallet

open Lib Lib.Word

/-- The escrow is stored under this id, and active. -/
def ActiveAt (st : WalletState) (id : EscrowId) (e : Escrow) : Prop :=
  st.escrows.lookup id = some e ∧ e.status = .active

/-- Nothing has become active. -/
def Shrinks (st st' : WalletState) : Prop := ∀ id e, ActiveAt st' id e → ActiveAt st id e

theorem Shrinks.of_escrows {st st' : WalletState} (h : st'.escrows = st.escrows) :
    Shrinks st st' := by
  intro id e he
  rw [ActiveAt, h] at he
  exact he

theorem Shrinks.refl (st : WalletState) : Shrinks st st := .of_escrows rfl

theorem Shrinks.trans {st st' st'' : WalletState} (h : Shrinks st st') (h' : Shrinks st' st'') :
    Shrinks st st'' := by
  intro id e he
  exact h id e (h' id e he)

theorem Shrinks.of_update {st st' : WalletState} {id : EscrowId} (status : EscrowStatus)
    (hstatus : status ≠ .active)
    (h : st'.escrows = st.escrows.update id fun e => { e with status := status }) :
    Shrinks st st' := by
  rintro j e ⟨hlookup, hactive⟩
  rw [h, Finmap.lookup_update] at hlookup
  by_cases hj : j = id
  · rw [if_pos hj] at hlookup
    obtain ⟨d, -, hd⟩ := Option.map_eq_some_iff.1 hlookup
    rw [← hd] at hactive
    exact absurd hactive hstatus
  · rw [if_neg hj] at hlookup
    exact ⟨hlookup, hactive⟩

theorem sweepOne_shrinks (stamp : Stamp) (id : EscrowId) (st : WalletState) :
    Shrinks st (sweepOne stamp id st).state := by
  unfold sweepOne
  cases st.escrows.lookup id with
  | none => exact .refl st
  | some e => exact .of_update .expired (by decide) rfl

theorem sweepLoop_shrinks (stamp : ℕ → Stamp) (ids : List EscrowId) :
    ∀ (k : ℕ) (st : WalletState), Shrinks st (sweepLoop stamp k ids st).state := by
  induction ids with
  | nil => exact fun k st => .refl st
  | cons id ids ih =>
      intro k st
      obtain ⟨swept, hone⟩ := sweepOne_ok (stamp k) id st
      rw [sweepLoop_cons hone]
      exact (sweepOne_shrinks _ _ _).trans (ih _ _)

/-- There is enough available for an escrow of this amount. -/
def Affords (cfg : WalletConfig) (st : WalletState) (amount : UInt64) : Prop :=
  amount ≤ satSub st.available cfg.reserveBalance

/-- The call creates an escrow, under which id, for whom and for which job. -/
def Call.Creates (cfg : WalletConfig) (st : WalletState) (c : Call) (id : EscrowId)
    (recipient jobId : String) : Prop :=
  ∃ draw amount timeoutSecs, c = .createEscrow draw amount recipient jobId timeoutSecs ∧
    id = draw.escrowId ∧ Affords cfg st amount

section Create

variable {cfg : WalletConfig} {draw : Draw} {amount : UInt64} {recipient jobId : String}
  {timeoutSecs : UInt64} {st : WalletState} {id : EscrowId} {e : Escrow}

theorem createEscrowLocked_affords
    (h : (createEscrowLocked cfg draw amount recipient jobId timeoutSecs st).outcome = .ok e) :
    Affords cfg st amount := by
  refine UInt64.not_lt.1 ?_
  intro hlt
  simp only [createEscrowLocked, if_pos hlt] at h
  cases h

theorem createEscrowLocked_active
    (h : ActiveAt (createEscrowLocked cfg draw amount recipient jobId timeoutSecs st).state id e) :
    ActiveAt st id e ∨ (id = draw.escrowId ∧ e.recipient = recipient ∧ e.jobId = jobId) ∧
      (createEscrowLocked cfg draw amount recipient jobId timeoutSecs st).outcome.isOk := by
  unfold createEscrowLocked at h ⊢
  dsimp only at h ⊢
  by_cases hlt : satSub st.available cfg.reserveBalance < amount
  · rw [if_pos hlt] at h
    exact .inl h
  · rw [if_neg hlt] at h ⊢
    cases hnew : Escrow.new draw.now draw.escrowId amount recipient jobId timeoutSecs with
    | none =>
        simp only [hnew] at h
        exact .inl h
    | some d =>
        obtain ⟨hid, -, hrecipient, hjob, -⟩ := Escrow.new_some hnew
        simp only [hnew, ActiveAt, hid, Finmap.lookup_insert_eq] at h
        obtain ⟨hlookup, hactive⟩ := h
        by_cases hj : id = draw.escrowId
        · rw [if_pos hj] at hlookup
          cases hlookup
          exact .inr ⟨⟨hj, hrecipient, hjob⟩, rfl⟩
        · rw [if_neg hj] at hlookup
          exact .inl ⟨hlookup, hactive⟩

theorem createEscrowLocked_ok
    (h : (createEscrowLocked cfg draw amount recipient jobId timeoutSecs st).outcome = .ok e) :
    Escrow.new draw.now draw.escrowId amount recipient jobId timeoutSecs = some e ∧
      (createEscrowLocked cfg draw amount recipient jobId timeoutSecs st).state.escrows =
        st.escrows.insert e.id e := by
  have hnot : ¬ satSub st.available cfg.reserveBalance < amount :=
    UInt64.not_lt.2 (createEscrowLocked_affords h)
  unfold createEscrowLocked at h ⊢
  simp only [if_neg hnot] at h ⊢
  cases hnew : Escrow.new draw.now draw.escrowId amount recipient jobId timeoutSecs with
  | none => simp [hnew] at h
  | some d =>
      simp only [hnew, Outcome.ok.injEq] at h ⊢
      subst h
      exact ⟨rfl, rfl⟩

/-- The section succeeds when there is enough and the escrow ends within range. -/
theorem createEscrowLocked_of_affords (h : Affords cfg st amount)
    (hnew : Escrow.new draw.now draw.escrowId amount recipient jobId timeoutSecs = some e) :
    (createEscrowLocked cfg draw amount recipient jobId timeoutSecs st).outcome = .ok e := by
  have hnot : ¬ satSub st.available cfg.reserveBalance < amount := UInt64.not_lt.2 h
  simp [createEscrowLocked, if_neg hnot, hnew]

theorem createEscrowLocked_not_ok
    (h : (createEscrowLocked cfg draw amount recipient jobId timeoutSecs st).outcome.isOk = false) :
    (createEscrowLocked cfg draw amount recipient jobId timeoutSecs st).state.escrows =
      st.escrows := by
  unfold createEscrowLocked at h ⊢
  dsimp only at h ⊢
  split
  · rfl
  · next hnot =>
      rw [if_neg hnot] at h
      cases hnew : Escrow.new draw.now draw.escrowId amount recipient jobId timeoutSecs with
      | none => rfl
      | some e =>
          rw [hnew] at h
          cases h

/-- `save_state` succeeds exactly when the database stores. -/
theorem saveState_ok_iff {store : Except String Unit} {u : Unit} :
    (saveState store st).outcome = .ok u ↔ store = .ok () := by
  cases store with
  | ok v => exact ⟨fun _ => rfl, fun _ => rfl⟩
  | error e =>
      refine ⟨fun h => ?_, fun h => ?_⟩
      · cases h
      · cases h

/-- What `create_escrow` goes through before it stores the escrow `e`. -/
structure Makes (cfg : WalletConfig) (draw : Draw) (amount : UInt64) (recipient jobId : String)
    (timeoutSecs : UInt64) (st : WalletState) (e : Escrow) : Prop where
  within : (checkSpendingLimits cfg draw.checkedAt amount st).outcome.isOk
  affords : Affords cfg st amount
  made : Escrow.new draw.now draw.escrowId amount recipient jobId timeoutSecs = some e

/-- **What `create_escrow` does**: it makes an escrow, and then fails if the database does;
or it makes none. -/
theorem createEscrow_cases (cfg : WalletConfig) (draw : Draw) (amount : UInt64)
    (recipient jobId : String) (timeoutSecs : UInt64) (st : WalletState) :
    (∃ e, Makes cfg draw amount recipient jobId timeoutSecs st e ∧
      (createEscrow cfg draw amount recipient jobId timeoutSecs st).outcome =
        (saveState draw.store st).outcome.map (fun _ => e) ∧
      (createEscrow cfg draw amount recipient jobId timeoutSecs st).state.escrows =
        st.escrows.insert e.id e) ∨
    ((¬ ∃ e, Makes cfg draw amount recipient jobId timeoutSecs st e) ∧
      (createEscrow cfg draw amount recipient jobId timeoutSecs st).outcome.isOk = false ∧
      (createEscrow cfg draw amount recipient jobId timeoutSecs st).state.escrows = st.escrows) := by
  unfold createEscrow
  rcases (checkSpendingLimits cfg draw.checkedAt amount st).outcome.ok_or_not with
    ⟨⟨⟩, hlimits⟩ | hlimits
  · rw [Action.bind_of_ok hlimits, checkSpendingLimits_state]
    rcases (createEscrowLocked cfg draw amount recipient jobId timeoutSecs st).outcome.ok_or_not with
      ⟨e, he⟩ | hnot
    · left
      obtain ⟨hnew, hescrows⟩ := createEscrowLocked_ok he
      refine ⟨e, ⟨by rw [hlimits]; rfl, createEscrowLocked_affords he, hnew⟩, ?_⟩
      rw [Action.bind_of_ok he]
      cases draw.store <;> exact ⟨rfl, hescrows⟩
    · right
      have hfails := Action.bind_of_not_ok (f := fun e => saveState draw.store >>= fun _ => pure e) hnot
      refine ⟨?_, hfails.1, ?_⟩
      · rintro ⟨e, hmakes⟩
        rw [createEscrowLocked_of_affords hmakes.affords hmakes.made] at hnot
        cases hnot
      · dsimp only
        rw [hfails.2.1]
        exact createEscrowLocked_not_ok hnot
  · right
    refine ⟨?_, (Action.bind_of_not_ok hlimits).1, ?_⟩
    · rintro ⟨e, hmakes⟩
      have hwithin := hmakes.within
      rw [hlimits] at hwithin
      cases hwithin
    · rw [(Action.bind_of_not_ok hlimits).2.1, checkSpendingLimits_state]

/-- What a whole call makes active is the escrow its arguments ask for. -/
theorem createEscrow_active
    (h : ActiveAt (createEscrow cfg draw amount recipient jobId timeoutSecs st).state id e) :
    ActiveAt st id e ∨ e.jobId = jobId := by
  rcases createEscrow_cases cfg draw amount recipient jobId timeoutSecs st with
    ⟨d, hmakes, -, hescrows⟩ | ⟨-, -, hescrows⟩
  · obtain ⟨hlookup, hactive⟩ := h
    rw [hescrows, Finmap.lookup_insert_eq] at hlookup
    by_cases hid : id = d.id
    · rw [if_pos hid] at hlookup
      obtain rfl := Option.some.inj hlookup
      exact .inr (Escrow.new_some hmakes.made).2.2.2.1
    · rw [if_neg hid] at hlookup
      exact .inl ⟨hlookup, hactive⟩
  · exact .inl (Shrinks.of_escrows hescrows id e h)

/-- A call that returned an escrow stored the one its arguments ask for. -/
theorem createEscrow_ok
    (h : (createEscrow cfg draw amount recipient jobId timeoutSecs st).outcome = .ok e) :
    Escrow.new draw.now draw.escrowId amount recipient jobId timeoutSecs = some e ∧
      (createEscrow cfg draw amount recipient jobId timeoutSecs st).state.escrows =
        st.escrows.insert e.id e := by
  rcases createEscrow_cases cfg draw amount recipient jobId timeoutSecs st with
    ⟨d, hmakes, hout, hescrows⟩ | ⟨-, hnot, -⟩
  · rw [hout] at h
    cases hstore : draw.store with
    | ok u =>
        rw [hstore] at h
        obtain rfl : d = e := Outcome.ok.inj h
        exact ⟨hmakes.made, hescrows⟩
    | error message =>
        rw [hstore] at h
        cases h
  · rw [h] at hnot
    cases hnot

end Create

/-! ## Resolving -/

/-- The escrow is resolved, and the others are left alone. -/
def Resolves (st st' : WalletState) (id : EscrowId) : Prop :=
  ∃ status : EscrowStatus, status ≠ .active ∧
    st'.escrows = st.escrows.update id fun e => { e with status := status }

section Resolve

variable {st st' : WalletState} {id j : EscrowId} {e : Escrow}

theorem Resolves.shrinks (h : Resolves st st' id) : Shrinks st st' := by
  obtain ⟨status, hstatus, hescrows⟩ := h
  exact .of_update status hstatus hescrows

/-- It is not active any more, -/
theorem Resolves.not_active (h : Resolves st st' id) : ¬ ActiveAt st' id e := by
  obtain ⟨status, hstatus, hescrows⟩ := h
  rintro ⟨hlookup, hactive⟩
  rw [hescrows, Finmap.lookup_update, if_pos rfl] at hlookup
  obtain ⟨d, -, hd⟩ := Option.map_eq_some_iff.1 hlookup
  rw [← hd] at hactive
  exact hstatus hactive

/-- **When a release succeeds**: exactly when the escrow is active. -/
theorem releaseEscrowLocked_cases (stamp : Stamp) (id : EscrowId) (st : WalletState) :
    (∃ e tx, ActiveAt st id e ∧
      (releaseEscrowLocked stamp id st).outcome = .ok (tx, e.amount, e.recipient) ∧
      Resolves st (releaseEscrowLocked stamp id st).state id) ∨
    ((¬ ∃ e, ActiveAt st id e) ∧ (releaseEscrowLocked stamp id st).outcome.isOk = false ∧
      (releaseEscrowLocked stamp id st).state = st) := by
  unfold releaseEscrowLocked
  cases hlookup : st.escrows.lookup id with
  | none =>
      right
      refine ⟨?_, rfl, rfl⟩
      rintro ⟨e, he, -⟩
      rw [hlookup] at he
      cases he
  | some e =>
      by_cases hactive : e.status = .active
      · left
        simp only [hactive, ne_eq, not_true_eq_false, if_false]
        exact ⟨e, _, ⟨hlookup, hactive⟩, rfl, .released, by decide, rfl⟩
      · right
        simp only [ne_eq, hactive, not_false_eq_true, if_true]
        refine ⟨?_, rfl, trivial⟩
        rintro ⟨d, hd, hd'⟩
        rw [hlookup] at hd
        cases hd
        exact hactive hd'

theorem releaseEscrowLocked_escrows {stamp : Stamp} (he : ActiveAt st id e) :
    (releaseEscrowLocked stamp id st).state.escrows =
      st.escrows.update id fun e => { e with status := .released } := by
  unfold releaseEscrowLocked
  simp only [he.1, he.2, ne_eq, not_true_eq_false, if_false]

/-- **When a refund succeeds**: exactly when the escrow is active. -/
theorem refundEscrowLocked_cases (stamp : Stamp) (id : EscrowId) (st : WalletState) :
    (∃ e tx, ActiveAt st id e ∧ (refundEscrowLocked stamp id st).outcome = .ok tx ∧
      Resolves st (refundEscrowLocked stamp id st).state id) ∨
    ((¬ ∃ e, ActiveAt st id e) ∧ (refundEscrowLocked stamp id st).outcome.isOk = false ∧
      (refundEscrowLocked stamp id st).state = st) := by
  unfold refundEscrowLocked
  cases hlookup : st.escrows.lookup id with
  | none =>
      right
      refine ⟨?_, rfl, rfl⟩
      rintro ⟨e, he, -⟩
      rw [hlookup] at he
      cases he
  | some e =>
      by_cases hactive : e.status = .active
      · left
        simp only [hactive, ne_eq, not_true_eq_false, if_false]
        exact ⟨e, _, ⟨hlookup, hactive⟩, rfl, .refunded, by decide, rfl⟩
      · right
        simp only [ne_eq, hactive, not_false_eq_true, if_true]
        refine ⟨?_, rfl, trivial⟩
        rintro ⟨d, hd, hd'⟩
        rw [hlookup] at hd
        cases hd
        exact hactive hd'

end Resolve

/-- **What a section under the write lock makes active** is the escrow it creates. -/
theorem locked_active {cfg : WalletConfig} {c : Call} {st : WalletState} {id : EscrowId} {e : Escrow}
    (h : ActiveAt (locked cfg c st).state id e) :
    ActiveAt st id e ∨ c.Creates cfg st id e.recipient e.jobId := by
  have hshrinks : Shrinks st (locked cfg c st).state → ActiveAt st id e := fun hs => hs id e h
  cases c with
  | createEscrow draw amount recipient jobId timeoutSecs =>
      rw [locked, Action.map_apply] at h
      rcases createEscrowLocked_active h with hold | ⟨⟨hid, rfl, rfl⟩, hok⟩
      · exact .inl hold
      · obtain ⟨d, ho⟩ := Outcome.isOk_iff.1 hok
        exact .inr ⟨draw, amount, timeoutSecs, rfl, hid, createEscrowLocked_affords ho⟩
  | credit draw amount reason =>
      refine .inl (hshrinks (.of_escrows ?_))
      simp only [locked, Action.map_apply]
      split <;> rfl
  | debit draw amount reason =>
      refine .inl (hshrinks (.of_escrows ?_))
      simp only [locked, Action.map_apply, debitLocked]
      split <;> rfl
  | stake draw amount =>
      refine .inl (hshrinks (.of_escrows ?_))
      simp only [locked, Action.map_apply, stakeLocked]
      split <;> rfl
  | unstake draw amount =>
      refine .inl (hshrinks (.of_escrows ?_))
      simp only [locked, Action.map_apply, unstakeLocked]
      split <;> rfl
  | releaseEscrow draw j =>
      refine .inl (hshrinks ?_)
      simp only [locked, Action.map_apply, releaseEscrowLocked]
      cases st.escrows.lookup j with
      | none => exact .refl st
      | some d =>
          dsimp only
          split
          · exact .refl st
          · exact .of_update .released (by decide) rfl
  | refundEscrow draw j =>
      refine .inl (hshrinks ?_)
      simp only [locked, Action.map_apply, refundEscrowLocked]
      cases st.escrows.lookup j with
      | none => exact .refl st
      | some d =>
          dsimp only
          split
          · exact .refl st
          · exact .of_update .refunded (by decide) rfl
  | sweepExpiredEscrows draw =>
      refine .inl (hshrinks ?_)
      simp only [locked, Action.map_apply]
      exact sweepLoop_shrinks _ _ _ _

/-- **What a call makes active** is the escrow it creates. -/
theorem step_active {cfg : WalletConfig} {c : Call} {st : WalletState} {id : EscrowId} {e : Escrow}
    (h : ActiveAt (step cfg st c) id e) :
    ActiveAt st id e ∨ c.Creates cfg st id e.recipient e.jobId := by
  rw [step_eq_locked] at h
  split at h
  · exact locked_active h
  · split at h
    · exact locked_active h
    · exact .inl h

/-- What the next section of a call makes active is the escrow that the call creates. -/
theorem advance_active {cfg : WalletConfig} {st : WalletState} {t : Task} {id : EscrowId}
    {e : Escrow} (h : ActiveAt (advance cfg ⟨st, []⟩ t).1.state id e) :
    ActiveAt st id e ∨ ∃ c, t = .commit c ∧ c.Creates cfg st id e.recipient e.jobId := by
  cases t with
  | save c => exact .inl h
  | commit c =>
      rcases locked_active h with hold | hc
      · exact .inl hold
      · exact .inr ⟨c, rfl, hc⟩
  | begin c =>
      unfold advance at h
      cases hs : c.spending with
      | some amount =>
          simp only [hs] at h
          split at h <;> exact .inl h
      | none =>
          -- a call that is not checked against the limits creates no escrow
          simp only [hs] at h
          rcases locked_active h with hold | ⟨_, _, _, rfl, -⟩
          · exact .inl hold
          · cases hs

end Wallet
end PeerClaw
