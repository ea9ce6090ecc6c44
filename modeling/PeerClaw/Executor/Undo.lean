import PeerClaw.Executor.Remote

/-!
# What a failed remote execution leaves behind

When `RemoteExecutor::execute` returns an error, the task is executed locally.
Nothing on the way out undoes what was done on the way in: there is no call of
`settle_job` with `false`.

* `remote_cleans_up_iff` — in every run, whatever the network and the provider
  do, every error leaves no active escrow for the request and no active job,
  exactly when no error comes from the database refusing to store a new escrow,
  and the job had been settled by someone else whenever the winner could not be
  told or the wait timed out.
* `timeout_leaves_escrow` — bob never answers: the wait times out, and his escrow
  and the job stay active.

The invariant (`Good`) goes with the stage: before the acceptance the node knows
nothing of the job; afterwards every active escrow of the job is on record with
it, and the job is active until something settles it.
-/

namespace PeerClaw
namespace RemoteExecutor

open Lib Lib.Machine Jobs

/-! ## The property and the condition -/

/-- An error leaves neither an active escrow for the request nor an active job. -/
def CleansUp (x : Setting) (s : Watched) (move : Move) : Prop :=
  ∀ e, (∀ o, s.1.stage ≠ .done o) → (step x s.1 move).stage = .done (.err e) →
    Clean x.request.id (step x s.1 move).manager

/-- Accepting the bid makes the wallet create the escrow `e`. -/
def Locks (x : Setting) (m : JobManager) (d : Draws) (bid : JobBid) (e : Escrow) : Prop :=
  ∃ request found, m.requests.lookup x.request.id = some request ∧
    bidNamed (getBids m x.request.id) bid.id = some found ∧ found.isExpired d.checkedAt = false ∧
    Wallet.Makes x.cfg d.draw found.price found.bidderId x.request.id.val request.timeoutSecs
      m.wallet e

/-- The database stores a new escrow, and the job has been settled when the winner cannot be
told or the wait times out. -/
def Undone (x : Setting) (s : Watched) : Move → Prop
  | .node _ => True
  | .executor d =>
      match s.1.stage with
      | .acceptBid bid => (∃ e, Locks x s.1.manager d bid e) → d.draw.store = .ok ()
      | .notify bid job =>
          ¬ Sends x.executor (acceptMessage x.request.id bid job) d.published →
            SettledIn x.decode x.request.id s.2
      | .waitForResult =>
          d.elapsed ∧ d.found s.1.manager x.request.id = none →
            SettledIn x.decode x.request.id s.2
      | _ => True

/-! ## The invariant -/

/-- What the node knows of the job at a stage. -/
def Good (x : Setting) (s : Watched) : Prop :=
  match s.1.stage with
  | .broadcast | .publishRequest | .collectBids | .acceptBid _ =>
      s.2 = [] ∧ Clean x.request.id s.1.manager
  | .notify _ _ | .waitForResult | .settle _ =>
      Accounted x.request.id s.1.manager ∧
        (s.1.manager.activeJobs.lookup x.request.id = none ↔
          SettledIn x.decode x.request.id s.2)
  | .done _ => True

section Step

variable {x : Setting} {s : State} {log : List Runtime.Input} {m m' : JobManager}

/-- A manager with the same escrows and the same active jobs is as clean. -/
theorem Clean.same {id : JobId} (h : Clean id m) (hescrows : m'.wallet.escrows = m.wallet.escrows)
    (hjobs : m'.activeJobs = m.activeJobs) : Clean id m' := by
  refine ⟨?_, by rw [hjobs]; exact h.2⟩
  rintro i ⟨e, hactive, hfor⟩
  exact h.1 i ⟨e, Wallet.Shrinks.of_escrows hescrows i e hactive, hfor⟩

/-- **What accepting a bid does**: it stores the job with a new escrow; or it fails after
the escrow was created; or it fails, and creates none. -/
theorem accept_cases (x : Setting) (m : JobManager) (d : Draws) (bid : JobBid) :
    let accepting := Jobs.acceptBid x.cfg (d.acceptance x.request.id bid) m
    (∃ e job, Locks x m d bid e ∧ d.draw.store = .ok () ∧ accepting.outcome = .ok job ∧
      escrowOf accepting.state x.request.id = some e.id ∧
      accepting.state.wallet.escrows = m.wallet.escrows.insert e.id e) ∨
    (∃ e err, Locks x m d bid e ∧ d.draw.store ≠ .ok () ∧ accepting.outcome = .err err ∧
      accepting.state.wallet.escrows = m.wallet.escrows.insert e.id e) ∨
    ((¬ ∃ e, Locks x m d bid e) ∧ accepting.outcome.isOk = false ∧
      accepting.state.wallet.escrows = m.wallet.escrows ∧
      accepting.state.activeJobs = m.activeJobs) := by
  dsimp only
  by_cases hfinds : ∃ request found, Finds m (d.acceptance x.request.id bid) request found
  · obtain ⟨request, found, hfinds⟩ := hfinds
    obtain ⟨hout, hstate⟩ := acceptBid_of_finds x.cfg hfinds
    rw [hout, hstate]
    have hprice : Wallet.createEscrow x.cfg d.draw found.price found.bidderId x.request.id.val
        request.timeoutSecs = lockPrice x.cfg (d.acceptance x.request.id bid) request found := rfl
    have hwallet := Wallet.createEscrow_cases x.cfg d.draw found.price found.bidderId
      x.request.id.val request.timeoutSecs m.wallet
    rw [hprice] at hwallet
    rcases hwallet with ⟨e, hmakes, hlock, hescrows⟩ | ⟨hno, hnot, hescrows⟩
    · have hlocks : Locks x m d bid e :=
        ⟨request, found, hfinds.requested, hfinds.named, hfinds.unexpired, hmakes⟩
      cases hstore : d.draw.store with
      | ok u =>
          rw [hstore] at hlock
          rw [Action.bind_of_ok (onWallet_ok_iff.2 hlock)]
          refine .inl ⟨e, _, hlocks, rfl, rfl, ?_, hescrows⟩
          show Option.map _ (((m.activeJobs.insert x.request.id _) : FiniteMap _ _).lookup _) = _
          rw [Finmap.lookup_insert]
          rfl
      | error message =>
          rw [hstore] at hlock
          have hfails := Action.bind_of_err (f := storeAccepted (d.acceptance x.request.id bid)
            request found) (onWallet_err hlock)
          refine .inr (.inl ⟨e, _, hlocks, by rintro ⟨⟩, hfails.1, ?_⟩)
          rw [hfails.2]
          exact hescrows
    · right
      right
      have hfails := Action.bind_of_not_ok (f := storeAccepted (d.acceptance x.request.id bid)
        request found) (onWallet_not_ok hnot)
      refine ⟨?_, hfails.1, ?_, ?_⟩
      · rintro ⟨e, request', found', hrequest', hfound', -, hmakes⟩
        obtain rfl : request = request' := Option.some.inj (hfinds.requested.symm.trans hrequest')
        obtain rfl : found = found' := Option.some.inj (hfinds.named.symm.trans hfound')
        exact hno ⟨e, hmakes⟩
      · rw [hfails.2.1]
        exact hescrows
      · rw [hfails.2.1]
        rfl
  · right
    right
    obtain ⟨hnot, hstate⟩ := acceptBid_of_not_finds x.cfg hfinds
    refine ⟨?_, hnot, by rw [hstate], by rw [hstate]⟩
    rintro ⟨e, request, found, hrequested, hnamed, hunexpired, -⟩
    exact hfinds ⟨request, found, hrequested, hnamed, hunexpired⟩

/-- **What happens at the node** keeps what it knows of the job. -/
theorem good_node {input : Runtime.Input} (h : Good x (s, log))
    (hleaves : LeavesJob x.request.id input) : Good x (watch x (s, log) (.node input)) := by
  obtain ⟨m, stage⟩ := s
  have hawaits : Accounted x.request.id m ∧ (m.activeJobs.lookup x.request.id = none ↔
      SettledIn x.decode x.request.id log) →
      Accounted x.request.id (Runtime.step x.cfg x.decode m input) ∧
        ((Runtime.step x.cfg x.decode m input).activeJobs.lookup x.request.id = none ↔
          SettledIn x.decode x.request.id (log ++ [input])) := by
    rintro ⟨haccounted, hsettled⟩
    refine ⟨haccounted.step hleaves, ?_⟩
    by_cases hs : Settles x.decode x.request.id input
    · exact ⟨fun _ => ⟨input, by simp, hs⟩, fun _ => lookup_of_settles x.cfg m hs⟩
    · have hescrow := escrowOf_of_not_settles x.cfg m hleaves hs
      have hsame : (Runtime.step x.cfg x.decode m input).activeJobs.lookup x.request.id = none ↔
          m.activeJobs.lookup x.request.id = none := by
        rw [← Option.map_eq_none_iff (f := Job.escrowId), ← Option.map_eq_none_iff (f := Job.escrowId)]
        exact Eq.congr_left hescrow
      rw [hsame, hsettled]
      simp [SettledIn, hs, or_and_right, exists_or]
  cases stage with
  | notify bid job => exact hawaits h
  | waitForResult => exact hawaits h
  | settle result => exact hawaits h
  | done o => trivial
  | _ =>
      rw [watch_node id]
      exact ⟨h.1, h.2.step hleaves⟩

theorem goes_on {d : Draws} {s' : State} (hstep : step x s (.executor d) = s')
    (hstage : ∀ e, s'.stage ≠ .done (.err e)) (hgood : Good x (s', log))
    (hundone : Undone x (s, log) (.executor d)) :
    Good x (watch x (s, log) (.executor d)) ∧
      (CleansUp x (s, log) (.executor d) ↔ Undone x (s, log) (.executor d)) := by
  rw [watch_executor, hstep]
  refine ⟨hgood, fun _ => hundone, fun _ e _ herr => ?_⟩
  exact absurd (hstep ▸ herr) (hstage e)

theorem fails_with {d : Draws} {e : ExecutorError} (hstage : ∀ o, s.stage ≠ .done o)
    (hstep : step x s (.executor d) = ⟨m', .done (.err e)⟩)
    (hundone : Clean x.request.id m' ↔ Undone x (s, log) (.executor d)) :
    Good x (watch x (s, log) (.executor d)) ∧
      (CleansUp x (s, log) (.executor d) ↔ Undone x (s, log) (.executor d)) := by
  rw [watch_executor, hstep, ← hundone]
  refine ⟨trivial, ?_⟩
  unfold CleansUp
  dsimp only
  rw [hstep]
  exact ⟨fun hclean => hclean e hstage rfl, fun hclean _ _ _ => hclean⟩

theorem jobEscrow_of_locks {d : Draws} {bid : JobBid} {e : Escrow} (h : Locks x m d bid e)
    (hclean : Clean x.request.id m)
    (hescrows : m'.wallet.escrows = m.wallet.escrows.insert e.id e) (i : EscrowId) :
    JobEscrow m'.wallet x.request.id i ↔ i = e.id := by
  obtain ⟨request, found, -, -, -, hmakes⟩ := h
  obtain ⟨-, -, -, hjob, -, hactive⟩ := Escrow.new_some hmakes.made
  constructor
  · rintro ⟨f, ⟨hlookup, hstatus⟩, hfor⟩
    by_contra hne
    rw [hescrows, Finmap.lookup_insert_eq, if_neg hne] at hlookup
    exact hclean.1 i ⟨f, ⟨hlookup, hstatus⟩, hfor⟩
  · rintro rfl
    refine ⟨e, ⟨?_, hactive⟩, hjob⟩
    rw [hescrows, Finmap.lookup_insert]

/-- **The acceptance.** -/
theorem accept_step {bid : JobBid} (d : Draws) (hclean : Clean x.request.id m) :
    Good x (watch x (⟨m, .acceptBid bid⟩, []) (.executor d)) ∧
      (CleansUp x (⟨m, .acceptBid bid⟩, []) (.executor d) ↔
        Undone x (⟨m, .acceptBid bid⟩, []) (.executor d)) := by
  have hcases := accept_cases x m d bid
  generalize haccept : Jobs.acceptBid x.cfg (d.acceptance x.request.id bid) m = accepting at hcases
  obtain ⟨outcome, m', arith⟩ := accepting
  dsimp only at hcases
  rcases hcases with ⟨e, job, hlocks, hstore, rfl, hescrow, hescrows⟩ |
    ⟨e, err, hlocks, hstore, rfl, hescrows⟩ | ⟨hno, hnot, hescrows, hjobs⟩
  · have hstep : step x ⟨m, .acceptBid bid⟩ (.executor d) = ⟨m', .notify bid job⟩ := by
      simp [step, advance, State.call, haccept]
    have honly := jobEscrow_of_locks hlocks hclean hescrows
    refine goes_on hstep (by rintro e ⟨⟩) ⟨?_, ?_⟩ (fun _ => hstore)
    · intro i hi
      rw [(honly i).1 hi]
      exact hescrow
    · refine iff_of_false ?_ (by simp [SettledIn])
      intro hnone
      simp [escrowOf, hnone] at hescrow
  · have hstep : step x ⟨m, .acceptBid bid⟩ (.executor d) =
        ⟨m', .done (.err (.inferenceError err.text))⟩ := by
      simp [step, advance, State.call, haccept]
    have honly := jobEscrow_of_locks hlocks hclean hescrows
    refine fails_with (by rintro o ⟨⟩) hstep (iff_of_false ?_ ?_)
    · intro hclean'
      exact hclean'.1 e.id ((honly e.id).2 rfl)
    · intro hundone
      exact hstore (hundone ⟨e, hlocks⟩)
  · have hundone : Undone x (⟨m, .acceptBid bid⟩, []) (.executor d) := fun hlocks => absurd hlocks hno
    cases outcome with
    | ok job => cases hnot
    | err err =>
        have hstep : step x ⟨m, .acceptBid bid⟩ (.executor d) =
            ⟨m', .done (.err (.inferenceError err.text))⟩ := by
          simp [step, advance, State.call, haccept]
        exact fails_with (by rintro o ⟨⟩) hstep (iff_of_true (hclean.same hescrows hjobs) hundone)
    | panic =>
        have hstep : step x ⟨m, .acceptBid bid⟩ (.executor d) = ⟨m', .done .panic⟩ := by
          simp [step, advance, State.call, haccept]
        exact goes_on hstep (by rintro e ⟨⟩) trivial hundone

/-- **The settlement.** -/
theorem settle_step {result : JobResult} (d : Draws) (h : Accounted x.request.id m) :
    Good x (watch x (⟨m, .settle result⟩, log) (.executor d)) ∧
      (CleansUp x (⟨m, .settle result⟩, log) (.executor d) ↔
        Undone x (⟨m, .settle result⟩, log) (.executor d)) := by
  have hclean : Clean x.request.id (settleJob (d.settlement x.request.id) m).state := by
    refine ⟨?_, by rw [settleJob_lookup]; exact if_pos rfl⟩
    intro i hi
    obtain ⟨hbefore, hescrow⟩ := settleJob_jobEscrow hi
    exact hescrow (h i hbefore)
  generalize hsettle : settleJob (d.settlement x.request.id) m = settling at hclean
  obtain ⟨outcome, m', arith⟩ := settling
  cases outcome with
  | ok u =>
      have hstep : step x ⟨m, .settle result⟩ (.executor d) = ⟨m', .done (.ok result)⟩ := by
        simp [step, advance, State.call, hsettle]
      exact goes_on hstep (by rintro e ⟨⟩) trivial trivial
  | err err =>
      have hstep : step x ⟨m, .settle result⟩ (.executor d) =
          ⟨m', .done (.err (.inferenceError err.text))⟩ := by
        simp [step, advance, State.call, hsettle]
      exact fails_with (by rintro o ⟨⟩) hstep (iff_of_true hclean trivial)
  | panic =>
      have hstep : step x ⟨m, .settle result⟩ (.executor d) = ⟨m', .done .panic⟩ := by
        simp [step, advance, State.call, hsettle]
      exact goes_on hstep (by rintro e ⟨⟩) trivial trivial

/-- **The executor's moves** keep what the node knows of the job, and clean up exactly under
the condition. -/
theorem executor_step (d : Draws) (h : Good x (s, log)) :
    Good x (watch x (s, log) (.executor d)) ∧
      (CleansUp x (s, log) (.executor d) ↔ Undone x (s, log) (.executor d)) := by
  obtain ⟨m, stage⟩ := s
  cases stage with
  | broadcast =>
      cases hser : x.executor.serializeMessage (requestMessage x.executor x.request) with
      | error e =>
          have hstep : step x ⟨m, .broadcast⟩ (.executor d) =
              ⟨m, .done (.err (.inferenceError e))⟩ := by
            simp [step, advance, hser, State.fails, State.goto]
          exact fails_with (by rintro o ⟨⟩) hstep (iff_of_true h.2 trivial)
      | ok data =>
          have hstep : step x ⟨m, .broadcast⟩ (.executor d) =
              ⟨(createRequest x.request m).state, .publishRequest⟩ := by
            simp only [step, advance, hser]
            rfl
          exact goes_on hstep (by rintro e ⟨⟩) ⟨h.1, h.2.same rfl rfl⟩ trivial
  | publishRequest =>
      rcases publish_cases ⟨m, .publishRequest⟩ x.executor (requestMessage x.executor x.request)
        d.published .collectBids with ⟨-, hstep⟩ | ⟨-, e, hstep⟩
      · exact goes_on hstep (by rintro e ⟨⟩) h trivial
      · exact fails_with (by rintro o ⟨⟩) hstep (iff_of_true h.2 trivial)
  | collectBids =>
      cases hbids : getBids m x.request.id with
      | nil =>
          have hstep : step x ⟨m, .collectBids⟩ (.executor d) = State.fails ⟨m, .collectBids⟩
              (.insufficientResources "No peers available to handle task") := by
            simp [step, advance, hbids]
          exact fails_with (by rintro o ⟨⟩) hstep (iff_of_true h.2 trivial)
      | cons bid bids =>
          cases hbest : selectBestBid (bid :: bids) with
          | none =>
              have hstep : step x ⟨m, .collectBids⟩ (.executor d) = ⟨m, .done .panic⟩ := by
                simp [step, advance, hbids, hbest, State.goto]
              exact goes_on hstep (by rintro e ⟨⟩) trivial trivial
          | some best =>
              have hstep : step x ⟨m, .collectBids⟩ (.executor d) = ⟨m, .acceptBid best⟩ := by
                simp [step, advance, hbids, hbest, State.goto]
              exact goes_on hstep (by rintro e ⟨⟩) h trivial
  | acceptBid bid =>
      obtain ⟨rfl, hclean⟩ := h
      exact accept_step d hclean
  | notify bid job =>
      obtain ⟨haccounted, hsettled⟩ := h
      rcases publish_cases ⟨m, .notify bid job⟩ x.executor (acceptMessage x.request.id bid job)
        d.published .waitForResult with ⟨hsends, hstep⟩ | ⟨hsends, e, hstep⟩
      · exact goes_on hstep (by rintro e ⟨⟩) ⟨haccounted, hsettled⟩
          (fun hfails => absurd hsends hfails)
      · refine fails_with (by rintro o ⟨⟩) hstep ?_
        rw [clean_iff, hsettled]
        exact ⟨fun hclean _ => hclean.2, fun hundone => ⟨haccounted, hundone hsends⟩⟩
  | waitForResult =>
      obtain ⟨haccounted, hsettled⟩ := h
      cases hfound : d.found m x.request.id with
      | some result =>
          have hstep : step x ⟨m, .waitForResult⟩ (.executor d) = ⟨m, .settle result⟩ := by
            simp [step, advance, hfound, State.goto]
          refine goes_on hstep (by rintro e ⟨⟩) ⟨haccounted, hsettled⟩ ?_
          rintro ⟨-, hnone⟩
          simp [hfound] at hnone
      | none =>
          cases helapsed : d.elapsed with
          | false =>
              have hstep : step x ⟨m, .waitForResult⟩ (.executor d) = ⟨m, .waitForResult⟩ := by
                simp [step, advance, hfound, helapsed]
              refine goes_on hstep (by rintro e ⟨⟩) ⟨haccounted, hsettled⟩ ?_
              rintro ⟨htrue, -⟩
              simp [helapsed] at htrue
          | true =>
              have hstep : step x ⟨m, .waitForResult⟩ (.executor d) = ⟨m, .done (.err .timeout)⟩ := by
                simp [step, advance, hfound, helapsed, State.fails, State.goto]
              refine fails_with (by rintro o ⟨⟩) hstep ?_
              rw [clean_iff, hsettled]
              exact ⟨fun hclean _ => hclean.2, fun hundone => ⟨haccounted, hundone ⟨helapsed, hfound⟩⟩⟩
  | settle result => exact settle_step d h.1
  | done o => exact ⟨trivial, fun _ => trivial, fun _ e hstage => absurd rfl (hstage o)⟩

end Step

/-! ## Every run -/

/-- **A failed execution cleans up** exactly when it fails early enough, or someone else has
settled the job: in every run, whatever the network and the provider do, on a node that
knows nothing of the job yet. -/
theorem remote_cleans_up_iff (x : Setting) {m : JobManager} (h : Clean x.request.id m)
    {moves : List Move}
    (hruns : Along (watch x) (fun _ => MoveLeaves x.request.id) (.start m, []) moves) :
    Along (watch x) (CleansUp x) (.start m, []) moves ↔
      Along (watch x) (Undone x) (.start m, []) moves := by
  refine along_iff_of_inv (I := Good x) ?_ ?_ ⟨rfl, h⟩ hruns
  · rintro ⟨s, log⟩ move hgood hleaves
    cases move with
    | node input => exact good_node hgood hleaves
    | executor d => exact (executor_step d hgood).1
  · rintro ⟨s, log⟩ move hgood hleaves
    cases move with
    | node input => exact ⟨fun _ => trivial, fun _ e hstage herr => absurd herr (hstage _)⟩
    | executor d => exact (executor_step d hgood).2

section Example

open Jobs.Sample RemoteExecutor.Sample

private theorem answered_undone :
    Along (watch setting) (Undone setting) (.start (.new funds), []) answered := by
  refine ⟨trivial, trivial, trivial, trivial, fun _ => rfl, fun hfails => ?_, trivial, fun _ => ?_,
    trivial⟩
  · exact absurd ⟨⟨_, rfl⟩, rfl⟩ hfails
  · exact ⟨.gossip resultGossip, .head _, resultMessage, carriesResult, rfl⟩

theorem remote_cleans_up_answered :
    Along (watch setting) (CleansUp setting) (.start (.new funds), []) answered :=
  (remote_cleans_up_iff setting clean_new answered_leaves).2 answered_undone

/-- **The wait times out** and everything is left as it was: bob's escrow and the job stay
active, while the task is executed again locally. -/
theorem timeout_leaves_escrow :
    Clean setting.request.id (.new funds) ∧
      Along (watch setting) (fun _ => MoveLeaves setting.request.id) (.start (.new funds), [])
        unanswered ∧
      ¬ Along (watch setting) (CleansUp setting) (.start (.new funds), []) unanswered := by
  refine ⟨clean_new, unanswered_leaves, ?_⟩
  rintro ⟨-, -, -, -, -, -, hlast, -⟩
  have hclean := hlast .timeout (by rintro o ⟨⟩) rfl
  exact hclean.1 ⟨"e"⟩ ⟨_, ⟨rfl, rfl⟩, rfl⟩

end Example

end RemoteExecutor
end PeerClaw
