import PeerClaw.Wallet.Persistence

/-!
# When an escrow expires

`create_escrow` takes its timeout as a `u64` and hands it to `Duration::seconds`
through `as i64`.  A timeout from 2⁶³ on turns into a negative number of
seconds; the duration it makes is within `chrono`'s range when the timeout is
close enough to 2⁶⁴, and the escrow then expires before it was created.

* `remembered` — whatever the wallet does, it keeps the dates of the escrow.
* `sweep_spares` — a sweep leaves alone what has not expired by its clock.
* `honoured_iff` — the timeout is honoured exactly when it fits an `i64`.
* `timeout_not_honoured` — the escrow of a `u64::MAX` timeout expires a second
  before it is created, and the next sweep refunds it.
-/

namespace PeerClaw
namespace Wallet

open Lib Lib.Word Lib.Machine

/-- The wallet has the escrow, resolved or not. -/
def Remembers (st : WalletState) (e : Escrow) : Prop :=
  ∃ status, st.escrows.lookup e.id = some { e with status := status }

/-- A sweep does not refund the escrow: it does not list it, and stores what it did. -/
def Spares (draw : Draw) (st : WalletState) (id : EscrowId) : Prop :=
  (∃ swept, (sweepExpiredEscrows draw st).outcome = .ok swept ∧ id ∉ swept) ∧
    (sweepExpiredEscrows draw st).state.escrows.lookup id = st.escrows.lookup id

/-- The escrow lasts for the timeout: it does not expire before it is created, and no sweep
refunds it earlier than that many seconds after its creation. -/
def Honoured (e : Escrow) (timeoutSecs : UInt64) : Prop :=
  e.createdAt ≤ e.expiresAt ∧ ∀ draw st, Remembers st e →
    draw.now.nanos < e.createdAt.nanos + timeoutSecs.toNat * nanosPerSec → Spares draw st e.id

/-! ## What the wallet remembers -/

/-- At most the status of the escrows has changed, but for the one made under the id. -/
def KeepsDates (st st' : WalletState) (made : Option EscrowId) : Prop :=
  ∀ e, made ≠ some e.id → Remembers st e → Remembers st' e

/-- The id a call gives to a new escrow. -/
def Call.makes : Call → Option EscrowId
  | .createEscrow draw _ _ _ _ => some draw.escrowId
  | _ => none

section Remembered

variable {st st' st'' : WalletState} {made : Option EscrowId} {e : Escrow}

theorem KeepsDates.of_escrows (h : st'.escrows = st.escrows) : KeepsDates st st' made := by
  rintro e - ⟨status, hlookup⟩
  exact ⟨status, by rw [h, hlookup]⟩

theorem KeepsDates.trans (h : KeepsDates st st' made) (h' : KeepsDates st' st'' made) :
    KeepsDates st st'' made := fun e hmade he => h' e hmade (h e hmade he)

theorem KeepsDates.of_update {id : EscrowId} (status : EscrowStatus)
    (h : st'.escrows = st.escrows.update id fun e => { e with status := status }) :
    KeepsDates st st' made := by
  rintro e - ⟨old, hlookup⟩
  by_cases hid : e.id = id
  · refine ⟨status, ?_⟩
    rw [h, Finmap.lookup_update, if_pos hid, ← hid, hlookup]
    rfl
  · refine ⟨old, ?_⟩
    rw [h, Finmap.lookup_update, if_neg hid, hlookup]

theorem Resolves.keepsDates {id : EscrowId} (h : Resolves st st' id) : KeepsDates st st' made := by
  obtain ⟨status, -, hescrows⟩ := h
  exact .of_update status hescrows

theorem sweepOne_keepsDates (stamp : Stamp) (id : EscrowId) (st : WalletState) :
    KeepsDates st (sweepOne stamp id st).state made := by
  unfold sweepOne
  cases st.escrows.lookup id with
  | none => exact .of_escrows rfl
  | some e => exact .of_update .expired rfl

theorem sweepLoop_keepsDates (stamp : ℕ → Stamp) (ids : List EscrowId) :
    ∀ (k : ℕ) (st : WalletState), KeepsDates st (sweepLoop stamp k ids st).state made := by
  induction ids with
  | nil => exact fun k st => .of_escrows rfl
  | cons id ids ih =>
      intro k st
      obtain ⟨swept, hone⟩ := sweepOne_ok (stamp k) id st
      rw [sweepLoop_cons hone]
      exact (sweepOne_keepsDates _ _ _).trans (ih _ _)

theorem createEscrowLocked_keepsDates (cfg : WalletConfig) (draw : Draw) (amount : UInt64)
    (recipient jobId : String) (timeoutSecs : UInt64) (st : WalletState) :
    KeepsDates st (createEscrowLocked cfg draw amount recipient jobId timeoutSecs st).state
      (some draw.escrowId) := by
  rcases (createEscrowLocked cfg draw amount recipient jobId timeoutSecs st).outcome.ok_or_not with
    ⟨d, hd⟩ | hnot
  · obtain ⟨hnew, hescrows⟩ := createEscrowLocked_ok hd
    rintro e hmade ⟨status, hlookup⟩
    have hother : e.id ≠ d.id := by
      rw [(Escrow.new_some hnew).1]
      exact fun h => hmade (congrArg some h.symm)
    refine ⟨status, ?_⟩
    rw [hescrows, Finmap.lookup_insert_eq, if_neg hother, hlookup]
  · exact .of_escrows (createEscrowLocked_not_ok hnot)

/-- **One section.**  Only a call that draws the id again can replace an escrow. -/
theorem locked_keepsDates (cfg : WalletConfig) (c : Call) (st : WalletState) :
    KeepsDates st (locked cfg c st).state c.makes := by
  cases c with
  | createEscrow draw amount recipient jobId timeoutSecs =>
      rw [locked, Action.map_apply]
      exact createEscrowLocked_keepsDates _ _ _ _ _ _ _
  | credit draw amount reason =>
      refine .of_escrows ?_
      simp only [locked, Action.map_apply]
      split <;> rfl
  | debit draw amount reason =>
      refine .of_escrows ?_
      simp only [locked, Action.map_apply, debitLocked]
      split <;> rfl
  | stake draw amount =>
      refine .of_escrows ?_
      simp only [locked, Action.map_apply, stakeLocked]
      split <;> rfl
  | unstake draw amount =>
      refine .of_escrows ?_
      simp only [locked, Action.map_apply, unstakeLocked]
      split <;> rfl
  | releaseEscrow draw id =>
      rw [locked, Action.map_apply]
      rcases releaseEscrowLocked_cases (draw.stamp 0) id st with ⟨-, -, -, -, h⟩ | ⟨-, -, h⟩
      · exact h.keepsDates
      · exact .of_escrows (congrArg WalletState.escrows h)
  | refundEscrow draw id =>
      rw [locked, Action.map_apply]
      rcases refundEscrowLocked_cases (draw.stamp 0) id st with ⟨-, -, -, -, h⟩ | ⟨-, -, h⟩
      · exact h.keepsDates
      · exact .of_escrows (congrArg WalletState.escrows h)
  | sweepExpiredEscrows draw =>
      rw [locked, Action.map_apply]
      exact sweepLoop_keepsDates _ _ _ _

theorem advance_keepsDates (cfg : WalletConfig) (w : World) (t : Task) :
    KeepsDates w.state (advance cfg w t).1.state t.call.makes := by
  cases t with
  | save c => exact .of_escrows rfl
  | commit c => exact locked_keepsDates cfg c w.state
  | begin c =>
      cases hs : c.spending with
      | none =>
          simp only [advance, hs]
          exact locked_keepsDates cfg c w.state
      | some amount =>
          simp only [advance, hs]
          split <;> exact .of_escrows rfl

theorem advance_call {cfg : WalletConfig} {w : World} {t t' : Task}
    (h : (advance cfg w t).2 = some t') : t'.call = t.call := by
  have hcommit (c : Call) : (commitSection cfg w c).2 = some t' → t'.call = c := by
    intro hc
    unfold commitSection at hc
    simp only at hc
    split at hc
    · cases hc
      rfl
    · cases hc
  cases t with
  | save c => cases h
  | commit c => exact hcommit c h
  | begin c =>
      cases hs : c.spending with
      | none =>
          simp only [advance, hs] at h
          exact hcommit c h
      | some amount =>
          simp only [advance, hs] at h
          split at h
          · cases h
            rfl
          · cases h

/-- No call that starts draws the id of the escrow. -/
def OtherIds (id : EscrowId) : Move Task → Prop
  | .start t => t.call.makes ≠ some id
  | .resume _ => True

/-- **The dates stay.**  Once the wallet has the escrow, it has it after any interleaving of
calls that draw other ids. -/
theorem remembered {cfg : WalletConfig} {moves : List (Move Task)} (hst : Remembers st e)
    (h : ∀ m ∈ moves, OtherIds e.id m) :
    Remembers (run (Pool.step (advance cfg)) (idle st) moves).shared.state e := by
  -- carried along: no task in flight is about to make an escrow under the id
  have hstep : ∀ (p : WalletPool) m,
      Remembers p.shared.state e ∧ (∀ k t, p.taskAt k = some t → t.call.makes ≠ some e.id) →
      OtherIds e.id m →
      Remembers (p.step (advance cfg) m).shared.state e ∧
        ∀ k t, (p.step (advance cfg) m).taskAt k = some t → t.call.makes ≠ some e.id := by
    rintro p m ⟨hmem, htasks⟩ hm
    refine ⟨Pool.inv_step (I := fun w => Remembers w.state e) hmem fun k t _ ht =>
      advance_keepsDates cfg p.shared t e (htasks k t ht) hmem, ?_⟩
    intro j t ht
    cases m with
    | start u =>
        rw [Pool.taskAt_start] at ht
        split at ht
        · cases ht
          exact hm
        · exact htasks j t ht
    | resume k =>
        cases hk : p.taskAt k with
        | none =>
            rw [Pool.step_resume_none hk] at ht
            exact htasks j t ht
        | some u =>
            rw [Pool.taskAt_resume hk] at ht
            split at ht
            · rw [advance_call ht]
              exact htasks k u hk
            · exact htasks j t ht
  refine (run_of_inv hstep ⟨hst, ?_⟩ (along_of_forall h)).1
  intro k t ht
  cases ht

end Remembered

/-! ## The sweep -/

section Sweep

variable {st : WalletState} {draw : Draw} {id : EscrowId} {e : Escrow}

theorem sweepOne_other (stamp : Stamp) {j : EscrowId} (hj : id ≠ j) (st : WalletState) :
    ∃ swept, (sweepOne stamp j st).outcome = .ok swept ∧ id ∉ swept ∧
      (sweepOne stamp j st).state.escrows.lookup id = st.escrows.lookup id := by
  unfold sweepOne
  cases st.escrows.lookup j with
  | none => exact ⟨[], rfl, List.not_mem_nil, rfl⟩
  | some d =>
      refine ⟨[j], rfl, fun h => hj (List.mem_singleton.1 h), ?_⟩
      simp only [Finmap.lookup_update, if_neg hj]

theorem sweepLoop_other (stamp : ℕ → Stamp) {ids : List EscrowId} (hid : id ∉ ids) :
    ∀ (k : ℕ) (st : WalletState), ∃ swept, (sweepLoop stamp k ids st).outcome = .ok swept ∧
      id ∉ swept ∧ (sweepLoop stamp k ids st).state.escrows.lookup id = st.escrows.lookup id := by
  induction ids with
  | nil => exact fun k st => ⟨[], rfl, List.not_mem_nil, rfl⟩
  | cons j ids ih =>
      intro k st
      obtain ⟨hj, hids⟩ := not_or.1 (mt List.mem_cons.2 hid)
      obtain ⟨one, hone, hnotOne, hkeep⟩ := sweepOne_other (stamp k) hj st
      obtain ⟨rest, hrest, hnotRest, hkeep'⟩ :=
        ih hids (k + one.length) (sweepOne (stamp k) j st).state
      refine ⟨one ++ rest, ?_, ?_, ?_⟩
      · have hunfold : sweepLoop stamp k (j :: ids) st =
            (sweepOne (stamp k) j >>= fun swept => (fun rest => swept ++ rest) <$>
              sweepLoop stamp (k + swept.length) ids) st := rfl
        rw [hunfold, Action.bind_of_ok hone, Action.map_apply]
        simp only [hrest]
        rfl
      · rw [List.mem_append]
        exact not_or.2 ⟨hnotOne, hnotRest⟩
      · rw [sweepLoop_cons hone, hkeep', hkeep]

/-- **A sweep leaves alone** an escrow that has not expired by its clock. -/
theorem sweep_spares (hst : Remembers st e) (hnow : draw.now.nanos ≤ e.expiresAt.nanos) :
    Spares draw st e.id := by
  obtain ⟨status, hlookup⟩ := hst
  have hnot : e.id ∉ expiredIds draw.now draw.order st := by
    intro hmem
    have hfound := (List.mem_filter.1 hmem).2
    simp only [hlookup, Escrow.isExpiredAt, Bool.and_eq_true, decide_eq_true_eq] at hfound
    exact absurd hfound.2 (Int.not_lt.2 hnow)
  obtain ⟨swept, hout, hswept, hkeep⟩ := sweepLoop_other draw.stamp hnot 0 st
  exact ⟨⟨swept, hout, hswept⟩, hkeep⟩

end Sweep

/-! ## The timeout -/

theorem Escrow.new_expiresAt {now : DateTime} {id : EscrowId} {amount timeoutSecs : UInt64}
    {recipient jobId : String} {e : Escrow}
    (h : Escrow.new now id amount recipient jobId timeoutSecs = some e) :
    e.expiresAt.nanos = e.createdAt.nanos + timeoutSecs.toInt64.toInt * nanosPerSec := by
  unfold Escrow.new at h
  simp only [Option.bind_eq_bind, Option.bind_eq_some_iff, Option.pure_def,
    Option.some.injEq] at h
  obtain ⟨timeout, htimeout, expiresAt, hexpires, rfl⟩ := h
  have hd : timeout = timeoutSecs.toInt64.toInt * nanosPerSec := by
    unfold durationSeconds at htimeout
    split at htimeout
    · exact (Option.some.inj htimeout).symm
    · cases htimeout
  unfold DateTime.plus at hexpires
  split at hexpires
  · rw [← Option.some.inj hexpires, ← hd]
  · cases hexpires

/-- A word below 2⁶³ keeps its value when it is read as signed, -/
theorem toInt64_of_lt {w : UInt64} (h : w.toNat < 2 ^ 63) : w.toInt64.toInt = w.toNat := by
  show w.toBitVec.toInt = w.toBitVec.toNat
  rw [BitVec.toInt_eq_toNat_cond, if_pos]
  show 2 * w.toNat < 2 ^ 64
  omega

/-- and the others become negative. -/
theorem toInt64_of_ge {w : UInt64} (h : 2 ^ 63 ≤ w.toNat) : w.toInt64.toInt < 0 := by
  show w.toBitVec.toInt < 0
  have hbound := w.toBitVec.isLt
  rw [BitVec.toInt_eq_toNat_cond, if_neg]
  · omega
  · show ¬ 2 * w.toNat < 2 ^ 64
    omega

section Created

variable {cfg : WalletConfig} {draw : Draw} {amount : UInt64} {recipient jobId : String}
  {timeoutSecs : UInt64} {st : WalletState} {e : Escrow}

/-- The wallet has the escrow it returned. -/
theorem createEscrow_remembers
    (h : (createEscrow cfg draw amount recipient jobId timeoutSecs st).outcome = .ok e) :
    Remembers (createEscrow cfg draw amount recipient jobId timeoutSecs st).state e := by
  refine ⟨e.status, ?_⟩
  rw [(createEscrow_ok h).2, Finmap.lookup_insert_eq, if_pos rfl]

/-- **When the timeout is honoured**: exactly when it fits an `i64`. -/
theorem honoured_iff
    (h : (createEscrow cfg draw amount recipient jobId timeoutSecs st).outcome = .ok e) :
    Honoured e timeoutSecs ↔ timeoutSecs.toNat < 2 ^ 63 := by
  have hexpires := Escrow.new_expiresAt (createEscrow_ok h).1
  constructor
  · rintro ⟨hle, -⟩
    by_contra hge
    have hneg := toInt64_of_ge (Nat.not_lt.1 hge)
    have hle' : e.createdAt.nanos ≤ e.expiresAt.nanos := hle
    rw [nanosPerSec] at hexpires
    omega
  · intro hlt
    rw [toInt64_of_lt hlt] at hexpires
    refine ⟨?_, fun draw' st' hst hnow => sweep_spares hst (by rw [hexpires]; exact hnow.le)⟩
    show e.createdAt.nanos ≤ e.expiresAt.nanos
    rw [hexpires, nanosPerSec]
    omega

end Created

section Example

private def roomy : WalletConfig := ⟨1000, 1000, 1000, 0⟩

private def funded : WalletState := { WalletState.default with available := 40 }

/-- What `create_escrow` makes of a timeout, at the first instant of 1970. -/
private def escrowFor (timeoutSecs : UInt64) : WalletM Escrow :=
  createEscrow roomy (.fixed .epoch "e" []) 5 "bob" "job" timeoutSecs

/-- A minute. -/
theorem honoured_minute : ∃ e, (escrowFor 60 funded).outcome = .ok e ∧ Honoured e 60 := by
  have h : ∃ e, (escrowFor 60 funded).outcome = .ok e := Outcome.isOk_iff.1 (by decide)
  obtain ⟨e, he⟩ := h
  exact ⟨e, he, (honoured_iff he).2 (by decide)⟩

/-- A second escrow leaves the first alone. -/
theorem remembered_minute : ∃ e, (escrowFor 60 funded).outcome = .ok e ∧
    Remembers (run (Pool.step (advance roomy)) (idle (escrowFor 60 funded).state)
      (.start (.begin (.createEscrow (.fixed .epoch "f" []) 5 "bob" "job" 60)) ::
        List.replicate 3 (.resume 0))).shared.state e := by
  have h : ∃ e, (escrowFor 60 funded).outcome = .ok e := Outcome.isOk_iff.1 (by decide)
  obtain ⟨e, he⟩ := h
  have hid : e.id = ⟨"e"⟩ := (Escrow.new_some (createEscrow_ok he).1).1
  refine ⟨e, he, remembered (createEscrow_remembers he) ?_⟩
  rw [hid]
  simp [OtherIds, Task.call, Call.makes, Draw.fixed]

/-- **A timeout of `u64::MAX` seconds** is accepted, and the escrow expires a second before it
is created: a sweep at the same instant refunds it. -/
theorem timeout_not_honoured :
    ∃ e, (escrowFor 0xffffffffffffffff funded).outcome = .ok e ∧
      e.expiresAt < e.createdAt ∧
      (sweepExpiredEscrows (.fixed .epoch "t" [e.id])
        (escrowFor 0xffffffffffffffff funded).state).outcome = .ok [e.id] ∧
      ¬ Honoured e 0xffffffffffffffff := by
  have h : ∃ e, (escrowFor 0xffffffffffffffff funded).outcome = .ok e :=
    Outcome.isOk_iff.1 (by decide)
  obtain ⟨e, he⟩ := h
  have hnew := (createEscrow_ok he).1
  have hid : e.id = ⟨"e"⟩ := (Escrow.new_some hnew).1
  have hexpires := Escrow.new_expiresAt hnew
  have hbefore : e.expiresAt < e.createdAt := by
    have hneg : (0xffffffffffffffff : UInt64).toInt64.toInt = -1 := by decide
    show e.expiresAt.nanos < e.createdAt.nanos
    rw [hexpires, hneg, nanosPerSec]
    omega
  have hswept : (sweepExpiredEscrows (.fixed .epoch "t" [⟨"e"⟩])
      (escrowFor 0xffffffffffffffff funded).state).outcome = .ok [⟨"e"⟩] := by
    decide
  refine ⟨e, he, hbefore, by rw [hid]; exact hswept, ?_⟩
  rintro ⟨hle, -⟩
  exact absurd hbefore (Int.not_lt.2 hle)

end Example

end Wallet
end PeerClaw
