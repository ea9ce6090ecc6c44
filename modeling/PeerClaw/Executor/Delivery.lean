import PeerClaw.Executor.Remote

/-!
# Whether a result is delivered

The result of a remote job has two consumers.  The gossip handler stores it with
the job and settles the job, which takes it out of the active ones, in one go;
`RemoteExecutor` polls the active jobs for one with a result, to settle it
itself.

* `remote_delivers_iff` — in every interleaving of the two, an execution that
  returns has delivered what arrived for its job only if nothing arrived: once a
  result has been handled, the poll finds no job, and the wait times out.
* `result_times_out` — bob's result arrives in time, and `execute` returns
  `Timeout`.
-/

namespace PeerClaw
namespace RemoteExecutor

open Lib Lib.Machine Jobs

/-! ## The property and the condition -/

/-- The result of the message has been handled for the job. -/
def Brings (decode : Runtime.Decoder) (id : JobId) (log : List Runtime.Input)
    (msg : JobResultMessage) : Prop :=
  msg.jobId = id ∧ ∃ g, .gossip g ∈ log ∧ g.CarriesResult decode msg

/-- A result for the job has been handled. -/
def Arrived (decode : Runtime.Decoder) (id : JobId) (log : List Runtime.Input) : Prop :=
  ∃ msg, Brings decode id log msg

/-- The run of an execution, from a job manager. -/
def execution (x : Setting) (m : JobManager) (moves : List Move) : Watched :=
  run (watch x) (.start m, []) moves

/-- The move after the first ones settles an escrow of the job. -/
def SettledAfter (x : Setting) (m : JobManager) (moves first : List Move) : Prop :=
  ∃ move rest i, moves = first ++ move :: rest ∧
    JobEscrow (execution x m first).1.manager.wallet x.request.id i ∧
    ¬ JobEscrow (execution x m (first ++ [move])).1.manager.wallet x.request.id i

/-- When a result for the job is handled between the acceptance and the return of
`execute`, it returns that result, and the escrow of the job is settled exactly once. -/
structure Delivers (x : Setting) (m : JobManager) (moves : List Move) : Prop where
  returns : ∀ o msg, (execution x m moves).1.stage = .done o →
    Brings x.decode x.request.id (execution x m moves).2 msg → o = .ok msg.result
  once : Arrived x.decode x.request.id (execution x m moves).2 →
    ∃! first, SettledAfter x m moves first

/-! ## The invariant -/

/-- A result that has been handled is out of reach: the job is gone, and `execute` does not
return one. -/
def Lost (x : Setting) (s : Watched) : Prop :=
  match s.1.stage with
  | .broadcast | .publishRequest | .collectBids | .acceptBid _ => s.2 = []
  | .notify _ _ | .waitForResult | .settle _ =>
      Arrived x.decode x.request.id s.2 → s.1.manager.activeJobs.lookup x.request.id = none
  | .done o => Arrived x.decode x.request.id s.2 → o.isOk = false

section Step

variable {x : Setting} {s : State} {log : List Runtime.Input} {m : JobManager}

theorem not_arrived_nil {decode : Runtime.Decoder} {id : JobId} : ¬ Arrived decode id [] := by
  rintro ⟨msg, -, g, hmem, -⟩
  cases hmem

theorem arrived_snoc {decode : Runtime.Decoder} {id : JobId} {input : Runtime.Input}
    (h : Arrived decode id (log ++ [input])) : Arrived decode id log ∨ Settles decode id input := by
  obtain ⟨msg, hid, g, hmem, hcarries⟩ := h
  rcases List.mem_append.1 hmem with hmem | hmem
  · exact .inl ⟨msg, hid, g, hmem, hcarries⟩
  · rw [← List.mem_singleton.1 hmem]
    exact .inr ⟨msg, hcarries, hid⟩

/-- **What happens at the node** while a result is awaited: once it has arrived, the job is
gone for good. -/
theorem lost_node {input : Runtime.Input} (h : Lost x (s, log))
    (hleaves : LeavesJob x.request.id input) : Lost x (watch x (s, log) (.node input)) := by
  obtain ⟨m, stage⟩ := s
  have hawaits : (Arrived x.decode x.request.id log → m.activeJobs.lookup x.request.id = none) →
      Arrived x.decode x.request.id (log ++ [input]) →
        (Runtime.step x.cfg x.decode m input).activeJobs.lookup x.request.id = none := by
    intro hlost harrived
    rcases arrived_snoc harrived with hbefore | hsettles
    · exact lookup_of_none hleaves (hlost hbefore)
    · exact lookup_of_settles x.cfg m hsettles
  cases stage with
  | notify bid job => exact hawaits h
  | waitForResult => exact hawaits h
  | settle result => exact hawaits h
  | _ =>
      rw [watch_node id]
      exact h

theorem lost_nil (s : State) : Lost x (s, []) := by
  obtain ⟨m, stage⟩ := s
  cases stage with
  | notify bid job => exact fun harrived => absurd harrived not_arrived_nil
  | waitForResult => exact fun harrived => absurd harrived not_arrived_nil
  | settle result => exact fun harrived => absurd harrived not_arrived_nil
  | done o => exact fun harrived => absurd harrived not_arrived_nil
  | _ => exact Eq.refl []

theorem found_of_none (d : Draws) {id : JobId} (h : m.activeJobs.lookup id = none) :
    d.found m id = none := by
  simp [Draws.found, getJob, h]

/-- **The executor's moves**: a poll finds nothing, and a settlement fails, once the job is
gone. -/
theorem lost_executor (d : Draws) (h : Lost x (s, log)) :
    Lost x (watch x (s, log) (.executor d)) := by
  rw [watch_executor]
  obtain ⟨m, stage⟩ := s
  cases stage with
  | notify bid job =>
      rcases publish_cases ⟨m, .notify bid job⟩ x.executor (acceptMessage x.request.id bid job)
        d.published .waitForResult with ⟨-, hstep⟩ | ⟨-, e, hstep⟩
      · have hnext : step x ⟨m, .notify bid job⟩ (.executor d) = ⟨m, .waitForResult⟩ := hstep
        rw [hnext]
        exact h
      · have hnext : step x ⟨m, .notify bid job⟩ (.executor d) = ⟨m, .done (.err e)⟩ := hstep
        rw [hnext]
        exact fun _ => rfl
  | waitForResult =>
      cases hfound : d.found m x.request.id with
      | some result =>
          have hnext : step x ⟨m, .waitForResult⟩ (.executor d) = ⟨m, .settle result⟩ := by
            simp [step, advance, hfound, State.goto]
          rw [hnext]
          intro harrived
          rw [found_of_none d (h harrived)] at hfound
          cases hfound
      | none =>
          cases helapsed : d.elapsed with
          | false =>
              have hnext : step x ⟨m, .waitForResult⟩ (.executor d) = ⟨m, .waitForResult⟩ := by
                simp [step, advance, hfound, helapsed]
              rw [hnext]
              exact h
          | true =>
              have hnext : step x ⟨m, .waitForResult⟩ (.executor d) = ⟨m, .done (.err .timeout)⟩ := by
                simp [step, advance, hfound, helapsed, State.fails, State.goto]
              rw [hnext]
              exact fun _ => rfl
  | settle result =>
      have hfails : Arrived x.decode x.request.id log →
          (settleJob (d.settlement x.request.id) m).outcome.isOk = false := by
        intro harrived
        refine Bool.eq_false_iff.2 fun hok => ?_
        obtain ⟨job, hjob, -⟩ := settleJob_isOk_iff.1 hok
        rw [show (d.settlement x.request.id).jobId = x.request.id from rfl, h harrived] at hjob
        cases hjob
      have hnext : ∃ o, (step x ⟨m, .settle result⟩ (.executor d)).stage = .done o ∧
          o.isOk = (settleJob (d.settlement x.request.id) m).outcome.isOk := by
        simp only [step, advance, State.call]
        cases (settleJob (d.settlement x.request.id) m).outcome with
        | ok u => exact ⟨.ok result, rfl, rfl⟩
        | err e => exact ⟨_, rfl, rfl⟩
        | panic => exact ⟨_, rfl, rfl⟩
      obtain ⟨o, hstage, hisOk⟩ := hnext
      unfold Lost
      dsimp only
      rw [hstage]
      exact fun harrived => hisOk.trans (hfails harrived)
  | done o => exact h
  | _ =>
      obtain rfl : log = [] := h
      exact lost_nil _

theorem lost_step (s : Watched) (move : Move) (h : Lost x s)
    (hleaves : MoveLeaves x.request.id move) : Lost x (watch x s move) := by
  cases move with
  | node input => exact lost_node h hleaves
  | executor d => exact lost_executor d h

end Step

/-! ## Every interleaving -/

/-- **An execution delivers only where nothing arrives**: in every interleaving of its moves
with gossip and with calls that leave the job alone, from any job manager, an execution
that has returned delivered exactly when no result was handled since the acceptance. -/
theorem remote_delivers_iff (x : Setting) {m : JobManager} {moves : List Move}
    (hruns : Along (watch x) (fun _ => MoveLeaves x.request.id) (.start m, []) moves)
    (hreturned : ∃ o, (execution x m moves).1.stage = .done o) :
    Delivers x m moves ↔ ¬ Arrived x.decode x.request.id (execution x m moves).2 := by
  have hlost : Lost x (execution x m moves) := run_of_inv lost_step (lost_nil _) hruns
  obtain ⟨o, hstage⟩ := hreturned
  constructor
  · rintro hdelivers ⟨msg, hbrings⟩
    unfold Lost at hlost
    rw [hstage] at hlost
    have hnot : o.isOk = false := hlost ⟨msg, hbrings⟩
    rw [hdelivers.returns o msg hstage hbrings] at hnot
    cases hnot
  · intro hno
    exact ⟨fun _ msg _ hbrings => absurd ⟨msg, hbrings⟩ hno, fun harrived => absurd harrived hno⟩

section Example

open Jobs.Sample RemoteExecutor.Sample

theorem remote_delivers_unanswered : Delivers setting (.new funds) unanswered := by
  refine (remote_delivers_iff setting unanswered_leaves ⟨_, rfl⟩).2 ?_
  rintro ⟨msg, -, g, hmem, -⟩
  cases hmem

/-- **Bob's result arrives in time**, his escrow is released, and `execute` returns
`Timeout`. -/
theorem result_times_out :
    Along (watch setting) (fun _ => MoveLeaves setting.request.id) (.start (.new funds), [])
        answered ∧
      Brings decode jobId (execution setting (.new funds) answered).2 resultMessage ∧
      ((execution setting (.new funds) answered).1.manager.wallet.escrows.lookup ⟨"e"⟩).map
        Escrow.status = some .released ∧
      (execution setting (.new funds) answered).1.stage = .done (.err .timeout) ∧
      ¬ Delivers setting (.new funds) answered := by
  have hbrings : Brings decode jobId (execution setting (.new funds) answered).2 resultMessage :=
    ⟨rfl, resultGossip, .head _, carriesResult⟩
  refine ⟨answered_leaves, hbrings, by decide, rfl, ?_⟩
  intro hdelivers
  have hreturns := hdelivers.returns (.err .timeout) resultMessage rfl hbrings
  cases hreturns

end Example

end RemoteExecutor
end PeerClaw
