import PeerClaw.Job.Sections
import PeerClaw.Lib.Custody

/-!
# Every job is in one place

A job passes from `requests` to `active_jobs` to `completed_jobs`, each behind a
lock of its own, and `settle_job` takes it out of `active_jobs` before the wallet
has done its part.

* `settlement_loses_job` — the job is lost when the wallet does not: its escrow
  was swept before the settlement.
* `jobs_in_one_place` — in every interleaving in which no settlement that has
  taken its job fails, and no job is stored as active while it is being settled
  or after it was, every job created is in exactly one of the three collections
  whenever nothing is in flight.

The proof reads a pool as a `Lib.Custody`: requests are the waiting room, active
jobs the shelf, and a call in flight is a hand.
-/

namespace PeerClaw
namespace Jobs

open Lib Lib.Machine

/-! ## What should hold when nothing is in flight -/

/-- The job is in exactly one of the three collections, of which the last counts
the jobs trimmed since. -/
def InOnePlace (w : World) (id : JobId) : Prop :=
  (id ∈ w.manager.requests ∧ id ∉ w.manager.activeJobs ∧ id ∉ w.completed) ∨
    (id ∉ w.manager.requests ∧ id ∈ w.manager.activeJobs ∧ id ∉ w.completed) ∨
    (id ∉ w.manager.requests ∧ id ∉ w.manager.activeJobs ∧ id ∈ w.completed)

/-- Every job that was created has its place. -/
structure Placed (w : World) : Prop where
  one_place : ∀ id ∈ w.created, InOnePlace w id
  /-- No job was completed twice. -/
  once : w.completed.Nodup
  /-- `completed_jobs` are the last hundred of them. -/
  recent : w.manager.completedJobs.map Job.id = w.completed.drop (w.completed.length - 100)

/-- The task is a call of `settle_job`. -/
def Task.IsSettlement : Task → Prop
  | .settleTake _ | .settleResolve _ _ | .settleSave _ _ _ | .settleCredit _ _ _
  | .settleCreditSave _ _ | .settleComplete _ _ => True
  | _ => False

/-- What the task has in hand. -/
def Task.hand : Task → Option (Hand JobId)
  | .acceptBid a _ | .acceptLimits a _ _ | .acceptEscrow a _ _ | .acceptSave a _ _ _ =>
      some (.seen a.jobId)
  | .acceptDrop id _ => some (.seen id)
  | .acceptDropBids id _ | .acceptStore id _ => some (.bringing id)
  | .settleResolve s _ | .settleSave s _ _ | .settleCredit s _ _ | .settleCreditSave s _
  | .settleComplete s _ => some (.removing s.jobId)
  | _ => none

/-- A settlement that fails has not taken its job, and changes nothing. -/
def FailsInPlace (cfg : WalletConfig) (p : JobPool) : Move Task → Prop
  | .start _ => True
  | .resume k => ∀ t, p.taskAt k = some t → t.IsSettlement →
      (resume cfg t p.shared.manager).outcome.isOk = false →
      t.hand = none ∧ (resume cfg t p.shared.manager).state = p.shared.manager

/-! ## The condition on a run -/

/-- A new job has a fresh id. -/
def Fresh (p : JobPool) (t : Task) : Prop :=
  ∀ request, t = .createStore request → request.id ∉ p.shared.created

/-- The next section of the task neither loses a job nor brings one back. -/
structure Careful (p : JobPool) (t : Task) : Prop where
  fresh : Fresh p t
  /-- A settlement finds the escrow of its job active, -/
  funded : ∀ s job, t = .settleResolve s job → Funded p.shared.manager.wallet job
  /-- and the database stores the wallet. -/
  stores : ∀ s job amount, t = .settleSave s job amount → s.draw.store = .ok ()
  /-- A job is stored as active only when it is neither settled nor being settled. -/
  alone : ∀ id job, t = .acceptStore id job → id ∉ p.shared.completed ∧
    ∀ k t', p.taskAt k = some t' → t'.hand ≠ some (.removing id)

/-- The calls of a requester: all but `bid_accepted`. -/
def Call.IsRequesters : Call → Prop
  | .bidAccepted _ => False
  | _ => True

/-- What every run is made of: a requester's call starts at its beginning, or a section
runs, and new jobs have fresh ids. -/
def MoveFresh (p : JobPool) : Move Task → Prop
  | .start t => ∃ c : Call, c.IsRequesters ∧ t = c.task
  | .resume k => ∀ t, p.taskAt k = some t → Fresh p t

theorem MoveFresh.plain {p : JobPool} {k : ℕ} {t : Task} (ht : p.taskAt k = some t)
    (h : t.creates = []) : MoveFresh p (.resume k) := by
  intro t' ht'
  rw [ht] at ht'
  cases ht'
  rintro r rfl
  cases h

theorem MoveFresh.create {p : JobPool} {k : ℕ} {request : JobRequest}
    (ht : p.taskAt k = some (.createStore request)) (hfresh : request.id ∉ p.shared.created) :
    MoveFresh p (.resume k) := by
  intro t' ht'
  rw [ht] at ht'
  cases ht'
  rintro r ⟨⟩
  exact hfresh

/-- The condition on a move: a requester's call starts at its beginning, or a section
runs that is careful. -/
def MoveCareful (p : JobPool) : Move Task → Prop
  | .start t => ∃ c : Call, c.IsRequesters ∧ t = c.task
  | .resume k => ∀ t, p.taskAt k = some t → Careful p t

/-! ## The pool as items in custody -/

/-- The pool, seen as items that pass from hand to hand. -/
def view (p : JobPool) : Custody JobId where
  known := p.shared.created
  waiting := {id | id ∈ p.shared.manager.requests}
  shelf := {id | id ∈ p.shared.manager.activeJobs}
  finished := p.shared.completed
  hand := fun k => (p.taskAt k).bind Task.hand

section Keys

variable {V : Type} (m : FiniteMap JobId V) (id : JobId)

theorem keys_insert (v : V) : {j | j ∈ m.insert id v} = insert id {j | j ∈ m} := by
  ext j
  simp

theorem keys_erase : {j | j ∈ m.erase id} = {j | j ∈ m} \ {id} := by
  ext j
  simp [Finmap.mem_erase, and_comm]

theorem keys_touch {v : V} (h : m.lookup id = some v) (v' : V) :
    {j | j ∈ m.insert id v'} = {j | j ∈ m} := by
  have hmem : id ∈ {j | j ∈ m} := Finmap.mem_of_lookup_eq_some h
  rw [keys_insert, Set.insert_eq_of_mem hmem]

end Keys

/-- The task is a requester's, and what it stores a job under is the job's id. -/
def Task.Keyed : Task → Prop
  | .announce _ => False
  | .acceptBid a request | .acceptLimits a request _ | .acceptEscrow a request _
  | .acceptSave a request _ _ => request.id = a.jobId
  | .acceptDrop id job | .acceptDropBids id job | .acceptStore id job => job.id = id
  | .settleResolve s job | .settleSave s job _ | .settleCredit s job _ | .settleCreditSave s job
  | .settleComplete s job => job.id = s.jobId
  | _ => True

/-- Requests and active jobs are stored under their ids. -/
structure KeyedJobs (m : JobManager) : Prop where
  requests : ∀ id request, m.requests.lookup id = some request → request.id = id
  active : ∀ id job, m.activeJobs.lookup id = some job → job.id = id

/-! ## What a section does to the custody -/

section View

variable {cfg : WalletConfig} {p : JobPool}

theorem view_hand {k : ℕ} {t : Task} (h : p.taskAt k = some t) : (view p).hand k = t.hand := by
  show (p.taskAt k).bind Task.hand = t.hand
  rw [h]
  rfl

theorem view_start (c : Call) : view (p.step (advance cfg) (.start c.task)) = view p := by
  have hhand : c.task.hand = none := by cases c <;> rfl
  unfold view
  congr 1
  funext k
  rw [Pool.taskAt_start]
  split
  · next hk =>
      have hnone : p.taskAt k = none := by
        unfold Pool.taskAt
        rw [List.getElem?_eq_none (le_of_eq hk.symm)]
        rfl
      rw [hnone]
      exact hhand
  · rfl

theorem view_resume (cfg : WalletConfig) {k : ℕ} {t : Task} (h : p.taskAt k = some t) :
    view (p.step (advance cfg) (.resume k)) =
      ⟨p.shared.created ++ t.creates,
        {id | id ∈ (resume cfg t p.shared.manager).state.requests},
        {id | id ∈ (resume cfg t p.shared.manager).state.activeJobs},
        p.shared.completed ++ t.completes,
        Function.update (view p).hand k
          ((resume cfg t p.shared.manager).outcome.toOption.join.bind Task.hand)⟩ := by
  unfold view
  rw [Pool.shared_resume h]
  congr 1
  funext j
  rw [Pool.taskAt_resume h, Function.update_apply]
  split <;> rfl

/-- A section that leaves requests, active jobs and its own hand as they were. -/
theorem view_same (cfg : WalletConfig) {k : ℕ} {t : Task} (h : p.taskAt k = some t)
    (hcreates : t.creates = []) (hcompletes : t.completes = [])
    (hrequests : (resume cfg t p.shared.manager).state.requests = p.shared.manager.requests)
    (hactive : {id | id ∈ (resume cfg t p.shared.manager).state.activeJobs} =
      {id | id ∈ p.shared.manager.activeJobs})
    (hhand : (resume cfg t p.shared.manager).outcome.toOption.join.bind Task.hand = t.hand) :
    view (p.step (advance cfg) (.resume k)) = view p := by
  rw [view_resume cfg h, hcreates, hcompletes, hrequests, hactive, hhand, ← view_hand h,
    Function.update_eq_self, List.append_nil, List.append_nil]
  rfl

theorem Task.MayStop.hand {t : Task} (h : t.MayStop) :
    t.creates = [] ∧ t.completes = [] ∧ (t.hand = none ∨ ∃ id, t.hand = some (.seen id)) := by
  cases t <;> first | exact h.elim | exact ⟨rfl, rfl, .inl rfl⟩ | exact ⟨rfl, rfl, .inr ⟨_, rfl⟩⟩

theorem hand_afterSave (s : Settlement) (job : Job) (amount : UInt64) :
    (afterSave s job amount).hand = some (.removing s.jobId) := by
  unfold afterSave
  split <;> rfl

/-- **The pool is a custody**: a careful section is one of its steps, or does nothing
to it. -/
theorem view_step (cfg : WalletConfig) {k : ℕ} {t : Task} (ht : p.taskAt k = some t) (hcareful : Careful p t)
    (hkeyed : t.Keyed) :
    view (p.step (advance cfg) (.resume k)) = view p ∨
      Custody.Step (view p) (view (p.step (advance cfg) (.resume k))) := by
  have hown := view_hand ht
  have hresume := view_resume cfg ht
  have hsame := view_same cfg ht
  have hturns := turns cfg p.shared.manager t
  revert hresume hsame hturns
  generalize (resume cfg t p.shared.manager).state = m'
  generalize (resume cfg t p.shared.manager).outcome.toOption.join = t'
  intro hresume hsame hturns
  cases hturns with
  | create request =>
      right
      have hempty : Function.update (view p).hand k none = (view p).hand := by
        rw [← show (view p).hand k = none from hown, Function.update_eq_self]
      rw [hresume, keys_insert]
      simp only [Task.creates, Task.completes, List.append_nil]
      have hleft : (some (Task.createBids request.id)).bind Task.hand = none := rfl
      rw [hleft, hempty]
      exact .arrive request.id (hcareful.fresh request rfl)
  | openBids id => exact .inl (hsame rfl rfl rfl rfl rfl)
  | receive bid jobBids hbids => exact .inl (hsame rfl rfl rfl rfl rfl)
  | request a request hrequest =>
      right
      rw [hresume]
      simp only [Task.creates, Task.completes, List.append_nil]
      exact .see k a.jobId (Finmap.mem_of_lookup_eq_some hrequest) hown
  | bid a request bid hnamed hunexpired => exact .inl (hsame rfl rfl rfl rfl rfl)
  | allow a request bid => exact .inl (hsame rfl rfl rfl rfl rfl)
  | escrow a request bid e w hnew haffords hescrows => exact .inl (hsame rfl rfl rfl rfl rfl)
  | save a request bid e hstore => exact .inl (hsame rfl rfl rfl rfl rfl)
  | unsaved a request bid e hstore =>
      right
      rw [hresume]
      simp only [Task.creates, Task.completes, List.append_nil]
      exact .leave k a.jobId hown
  | drop id job =>
      right
      rw [hresume, keys_erase]
      simp only [Task.creates, Task.completes, List.append_nil]
      exact .fetch k id hown
  | dropBids id job => exact .inl (hsame rfl rfl rfl rfl rfl)
  | store id job =>
      obtain ⟨hcompleted, hfree⟩ := hcareful.alone id job rfl
      right
      rw [hresume, keys_insert]
      simp only [Task.creates, Task.completes, List.append_nil]
      refine .shelve k id hown hcompleted ?_
      intro j hj
      obtain ⟨t', ht', hhand⟩ := Option.bind_eq_some_iff.1 hj
      exact hfree j t' ht' hhand
  | announce job => exact hkeyed.elim
  | start now id job hjob =>
      exact .inl (hsame rfl rfl rfl (keys_touch _ _ hjob _) rfl)
  | submit id result job hjob =>
      exact .inl (hsame rfl rfl rfl (keys_touch _ _ hjob _) rfl)
  | take s job hjob =>
      right
      rw [hresume, keys_erase]
      simp only [Task.creates, Task.completes, List.append_nil]
      exact .take k s.jobId (Finmap.mem_of_lookup_eq_some hjob) hown
  | resolve s job amount w hfunded hresolves => exact .inl (hsame rfl rfl rfl rfl rfl)
  | unresolved s job hno => exact absurd (hcareful.funded s job rfl) hno
  | settleSave s job amount hstore =>
      exact .inl (hsame rfl rfl rfl rfl (hand_afterSave s job amount))
  | settleUnsaved s job amount hstore => exact absurd (hcareful.stores s job amount rfl) hstore
  | credit s job amount w hescrows => exact .inl (hsame rfl rfl rfl rfl rfl)
  | creditSave s job => exact .inl (hsame rfl rfl rfl rfl rfl)
  | complete s job =>
      have hid : job.id = s.jobId := hkeyed
      right
      rw [hresume]
      simp only [Task.creates, Task.completes, List.append_nil, hid]
      exact .finish k s.jobId hown
  | wallet t =>
      refine .inl (hsame rfl rfl rfl rfl ?_)
      cases (Wallet.advance cfg ⟨p.shared.manager.wallet, []⟩ t).2 <;> rfl
  | stop t w hstop hshrinks =>
      obtain ⟨hcreates, hcompletes, hhand | ⟨id, hhand⟩⟩ := hstop.hand
      · exact .inl (hsame hcreates hcompletes rfl rfl hhand.symm)
      · right
        rw [hresume, hcreates, hcompletes, List.append_nil, List.append_nil]
        exact .leave k id (hown.trans hhand)

end View

/-! ## The invariant -/

/-- Trimming a list that gets one element longer each time keeps its last elements. -/
theorem drop_concat {α : Type} (xs : List α) (x : α) (n : ℕ) :
    (xs.drop (xs.length - n) ++ [x]).drop ((xs.drop (xs.length - n)).length + 1 - n) =
      (xs ++ [x]).drop ((xs ++ [x]).length - n) := by
  have hle : xs.length - n ≤ xs.length := Nat.sub_le ..
  rw [← List.drop_append_of_le_length hle, List.drop_drop]
  congr 1
  simp only [List.length_drop, List.length_append, List.length_singleton]
  omega

/-- Places, keys and the history fit together. -/
structure Tidy (p : JobPool) : Prop where
  orderly : (view p).Orderly
  keyed : KeyedJobs p.shared.manager
  tasks : ∀ k t, p.taskAt k = some t → t.Keyed
  recent : p.shared.manager.completedJobs.map Job.id =
    p.shared.completed.drop (p.shared.completed.length - 100)

section Invariant

variable {cfg : WalletConfig}

theorem KeyedJobs.insertRequest {m : JobManager} (h : KeyedJobs m) (request : JobRequest) :
    KeyedJobs { m with requests := m.requests.insert request.id request } := by
  refine ⟨?_, h.active⟩
  intro id r hr
  rw [Finmap.lookup_insert_eq] at hr
  split at hr
  · next hid =>
      cases hr
      exact hid.symm
  · exact h.requests id r hr

theorem KeyedJobs.eraseRequest {m : JobManager} (h : KeyedJobs m) (id : JobId) :
    KeyedJobs { m with requests := m.requests.erase id } := by
  refine ⟨?_, h.active⟩
  intro j r hr
  rw [Finmap.lookup_erase_eq] at hr
  split at hr
  · cases hr
  · exact h.requests j r hr

theorem KeyedJobs.insertJob {m : JobManager} (h : KeyedJobs m) {id : JobId} {job : Job}
    (hid : job.id = id) : KeyedJobs { m with activeJobs := m.activeJobs.insert id job } := by
  refine ⟨h.requests, ?_⟩
  intro j d hd
  rw [Finmap.lookup_insert_eq] at hd
  split at hd
  · next hj =>
      cases hd
      rw [hj, hid]
  · exact h.active j d hd

theorem KeyedJobs.eraseJob {m : JobManager} (h : KeyedJobs m) (id : JobId) :
    KeyedJobs { m with activeJobs := m.activeJobs.erase id } := by
  refine ⟨h.requests, ?_⟩
  intro j d hd
  rw [Finmap.lookup_erase_eq] at hd
  split at hd
  · cases hd
  · exact h.active j d hd

/-- A section keeps what is stored under its id, and so does what is left of it. -/
theorem Turns.keyed {m m' : JobManager} {t : Task} {t' : Option Task} (h : Turns cfg m t m' t')
    (hm : KeyedJobs m) (ht : t.Keyed) : KeyedJobs m' ∧ ∀ u, t' = some u → u.Keyed := by
  cases h with
  | create request =>
      refine ⟨hm.insertRequest request, ?_⟩
      rintro u ⟨⟩
      trivial
  | request a request hrequest =>
      refine ⟨hm, ?_⟩
      rintro u ⟨⟩
      exact hm.requests _ _ hrequest
  | bid a request bid hnamed hunexpired =>
      refine ⟨hm, ?_⟩
      rintro u ⟨⟩
      exact ht
  | allow a request bid =>
      refine ⟨hm, ?_⟩
      rintro u ⟨⟩
      exact ht
  | escrow a request bid e w hnew haffords hescrows =>
      refine ⟨⟨hm.requests, hm.active⟩, ?_⟩
      rintro u ⟨⟩
      exact ht
  | save a request bid e hstore =>
      refine ⟨hm, ?_⟩
      rintro u ⟨⟩
      exact ht
  | drop id job =>
      refine ⟨hm.eraseRequest id, ?_⟩
      rintro u ⟨⟩
      exact ht
  | dropBids id job =>
      refine ⟨⟨hm.requests, hm.active⟩, ?_⟩
      rintro u ⟨⟩
      exact ht
  | store id job =>
      refine ⟨hm.insertJob ht, ?_⟩
      rintro u ⟨⟩
  | announce job => exact ht.elim
  | start now id job hjob =>
      refine ⟨hm.insertJob (hm.active id job hjob), ?_⟩
      rintro u ⟨⟩
  | submit id result job hjob =>
      refine ⟨hm.insertJob (hm.active id job hjob), ?_⟩
      rintro u ⟨⟩
  | take s job hjob =>
      refine ⟨hm.eraseJob s.jobId, ?_⟩
      rintro u ⟨⟩
      exact hm.active _ _ hjob
  | resolve s job amount w hfunded hresolves =>
      refine ⟨⟨hm.requests, hm.active⟩, ?_⟩
      rintro u ⟨⟩
      exact ht
  | settleSave s job amount hstore =>
      refine ⟨hm, ?_⟩
      rintro u ⟨⟩
      unfold afterSave
      split <;> exact ht
  | credit s job amount w hescrows =>
      refine ⟨⟨hm.requests, hm.active⟩, ?_⟩
      rintro u ⟨⟩
      exact ht
  | creditSave s job =>
      refine ⟨hm, ?_⟩
      rintro u ⟨⟩
      exact ht
  | wallet t =>
      refine ⟨⟨hm.requests, hm.active⟩, ?_⟩
      intro u hu
      obtain ⟨v, -, rfl⟩ := Option.map_eq_some_iff.1 hu
      trivial
  | _ =>
      refine ⟨⟨hm.requests, hm.active⟩, ?_⟩
      rintro u ⟨⟩

theorem Turns.recent {m m' : JobManager} {t : Task} {t' : Option Task} (h : Turns cfg m t m' t')
    {completed : List JobId}
    (hm : m.completedJobs.map Job.id = completed.drop (completed.length - 100)) :
    m'.completedJobs.map Job.id =
      (completed ++ t.completes).drop ((completed ++ t.completes).length - 100) := by
  cases h with
  | complete s job =>
      have hlen : m.completedJobs.length = (completed.drop (completed.length - 100)).length := by
        rw [← hm, List.length_map]
      show ((m.completedJobs ++ [settled s job]).drop
        ((m.completedJobs ++ [settled s job]).length - 100)).map Job.id = _
      rw [List.map_drop, List.map_append, hm, List.length_append, List.length_singleton, hlen]
      exact drop_concat completed job.id 100
  | stop t w hstop hshrinks =>
      rw [hstop.hand.2.1, List.append_nil]
      exact hm
  | _ =>
      simp only [Task.completes, List.append_nil]
      exact hm

variable {p : JobPool}

theorem tidy_start {c : Call} (hc : c.IsRequesters) (h : Tidy p) :
    Tidy (p.step (advance cfg) (.start c.task)) where
  orderly := by
    rw [view_start]
    exact h.orderly
  keyed := h.keyed
  tasks := by
    intro k t hk
    rw [Pool.taskAt_start] at hk
    split at hk
    · cases hk
      cases c <;> first | exact hc.elim | trivial
    · exact h.tasks k t hk
  recent := h.recent

theorem tidy_resume {k : ℕ} {t : Task} (ht : p.taskAt k = some t) (hcareful : Careful p t)
    (h : Tidy p) : Tidy (p.step (advance cfg) (.resume k)) where
  orderly := by
    rcases view_step cfg ht hcareful (h.tasks k t ht) with hsame | hstep
    · rw [hsame]
      exact h.orderly
    · exact hstep.orderly h.orderly
  keyed := by
    rw [Pool.shared_resume ht]
    exact ((turns cfg p.shared.manager t).keyed h.keyed (h.tasks k t ht)).1
  tasks := by
    intro j u hj
    rw [Pool.taskAt_resume ht] at hj
    split at hj
    · exact ((turns cfg p.shared.manager t).keyed h.keyed (h.tasks k t ht)).2 u hj
    · exact h.tasks j u hj
  recent := by
    rw [Pool.shared_resume ht]
    exact (turns cfg p.shared.manager t).recent h.recent

/-- A section that is a single action of the wallet fails when that action does. -/
theorem outcome_onWallet {t : Task} {α : Type} {x : WalletM α} {f : α → Option Task}
    {m : JobManager} (h : resume cfg t = f <$> onWallet x)
    (hnot : (resume cfg t m).outcome.isOk = false) : (x m.wallet).outcome.isOk = false := by
  rw [h, Action.map_apply, Outcome.isOk_map] at hnot
  rcases (x m.wallet).outcome.ok_or_not with ⟨a, ha⟩ | hx
  · rw [onWallet_ok_iff.2 ha] at hnot
    cases hnot
  · exact hx

/-- A settlement that fails under the condition has not taken its job. -/
theorem fails_in_place {t : Task} (hcareful : Careful p t) (ht : t.IsSettlement)
    (hnot : (resume cfg t p.shared.manager).outcome.isOk = false) :
    t.hand = none ∧ (resume cfg t p.shared.manager).state = p.shared.manager := by
  cases t with
  | settleTake s =>
      refine ⟨rfl, ?_⟩
      have hmap : resume cfg (.settleTake s) =
        (fun job => some (.settleResolve s job)) <$> takeJob s.jobId := rfl
      rw [hmap, Action.map_apply] at hnot ⊢
      unfold takeJob at hnot ⊢
      cases hjob : p.shared.manager.activeJobs.lookup s.jobId with
      | none => rfl
      | some job =>
          rw [hjob] at hnot
          cases hnot
  | settleResolve s job =>
      have hfails := outcome_onWallet (x := resolveLocked s job) rfl hnot
      rcases resolveLocked_cases s job p.shared.manager.wallet with ⟨amount, -, hok, -⟩ | ⟨hno, -⟩
      · exact absurd hok (Outcome.ne_ok hfails amount)
      · exact absurd (hcareful.funded s job rfl) hno
  | settleSave s job amount =>
      have hfails := outcome_onWallet (x := Wallet.saveState s.draw.store) rfl hnot
      have hok : (Wallet.saveState s.draw.store p.shared.manager.wallet).outcome = .ok () :=
        Wallet.saveState_ok_iff.2 (hcareful.stores s job amount rfl)
      exact absurd hok (Outcome.ne_ok hfails ())
  | settleCredit s job amount => cases hnot
  | settleCreditSave s job =>
      have hfails := outcome_onWallet (x := (Wallet.saveState s.creditDraw.store).attempt) rfl hnot
      cases hstore : s.creditDraw.store <;> rw [hstore] at hfails <;> cases hfails
  | settleComplete s job => cases hnot
  | _ => exact ht.elim

theorem tidy_step (cfg : WalletConfig) (p : JobPool) (move : Move Task) (h : Tidy p)
    (hmove : MoveCareful p move) :
    Tidy (p.step (advance cfg) move) ∧ FailsInPlace cfg p move := by
  cases move with
  | start t =>
      obtain ⟨c, hc, rfl⟩ := hmove
      exact ⟨tidy_start hc h, trivial⟩
  | resume k =>
      refine ⟨?_, fun t ht hsettles hnot => fails_in_place (hmove t ht) hsettles hnot⟩
      cases hk : p.taskAt k with
      | none =>
          rw [Pool.step_resume_none hk]
          exact h
      | some t => exact tidy_resume hk (hmove t hk) h

theorem tidy_idle (wallet : WalletState) : Tidy (idle wallet) where
  orderly := by
    have hview : view (idle wallet) = ⟨[], ∅, ∅, [], fun _ => none⟩ := by
      unfold view idle JobManager.new
      congr 1 <;> · ext id; simp [Finmap.notMem_empty]
    rw [hview]
    exact Custody.orderly_empty
  keyed := by
    refine ⟨?_, ?_⟩
    · intro id request h
      cases h
    · intro id job h
      cases h
  tasks := by
    intro k t hk
    cases hk
  recent := rfl

theorem Tidy.placed (h : Tidy p) (hquiet : p.Quiescent) : Placed p.shared where
  one_place := by
    intro id hid
    refine h.orderly.one_place (fun k => ?_) hid
    show (p.taskAt k).bind Task.hand = none
    rw [Pool.taskAt_eq_none_of_quiescent hquiet]
    rfl
  once := h.orderly.finished_once
  recent := h.recent

end Invariant

/-! ## Every interleaving -/

/-- **Every job is in one place whenever nothing is in flight**, and a settlement
that fails leaves its job where it was: in every interleaving of calls, from a
new manager on any wallet, in which every section is careful. -/
theorem jobs_in_one_place (cfg : WalletConfig) (wallet : WalletState) {moves : List (Move Task)}
    (h : Along (Pool.step (advance cfg)) MoveCareful (idle wallet) moves) :
    Always (Pool.step (advance cfg)) (fun p => p.Quiescent → Placed p.shared) (idle wallet) moves ∧
      Along (Pool.step (advance cfg)) (FailsInPlace cfg) (idle wallet) moves := by
  have hkeep := fun p move (hp : Tidy p) hmove => (tidy_step cfg p move hp hmove).1
  have htidy := always_of_inv hkeep (tidy_idle wallet) h
  refine ⟨?_, along_of_inv (tidy_step cfg) (tidy_idle wallet) h⟩
  intro pre post hsplit hquiet
  exact (htidy pre post hsplit).placed hquiet

section Example

open Sample

/-- The job is created, gets a bid, and the bid is accepted. -/
private def accepting : List (Move Task) :=
  calling 0 2 (.createRequest request) ++ calling 1 1 (.receiveBid (bid "b" "bob" 40)) ++
    calling 2 8 (.acceptBid (acceptance "b" "e" (.ok ())))

/-- It is settled. -/
private def settling : List (Move Task) :=
  accepting ++ calling 3 6 (.settleJob (settlement true))

/-- The section has nothing to be careful about. -/
private def Plain : Task → Prop
  | .createStore _ | .settleResolve _ _ | .settleSave _ _ _ | .acceptStore _ _ => False
  | _ => True

section Moves

variable {p : JobPool} {k : ℕ} {t : Task}

private theorem careful_plain (ht : p.taskAt k = some t) (h : Plain t) :
    MoveCareful p (.resume k) := by
  intro t' ht'
  rw [ht] at ht'
  cases ht'
  refine ⟨?_, ?_, ?_, ?_⟩
  · rintro request rfl
    exact h.elim
  · rintro s job rfl
    exact h.elim
  · rintro s job amount rfl
    exact h.elim
  · rintro id job rfl
    exact h.elim

private theorem careful_create {request : JobRequest} (ht : p.taskAt k = some (.createStore request))
    (hfresh : request.id ∉ p.shared.created) : MoveCareful p (.resume k) := by
  intro t' ht'
  rw [ht] at ht'
  cases ht'
  refine ⟨?_, ?_, ?_, ?_⟩
  · rintro r ⟨⟩
    exact hfresh
  · rintro s job ⟨⟩
  · rintro s job amount ⟨⟩
  · rintro id job ⟨⟩

private theorem careful_store {id : JobId} {job : Job} (ht : p.taskAt k = some (.acceptStore id job))
    (hcompleted : id ∉ p.shared.completed)
    (hfree : ∀ j t', p.taskAt j = some t' → t'.hand ≠ some (.removing id)) :
    MoveCareful p (.resume k) := by
  intro t' ht'
  rw [ht] at ht'
  cases ht'
  refine ⟨?_, ?_, ?_, ?_⟩
  · rintro r ⟨⟩
  · rintro s job ⟨⟩
  · rintro s job amount ⟨⟩
  · rintro id' job' ⟨⟩
    exact ⟨hcompleted, hfree⟩

private theorem careful_resolve {s : Settlement} {job : Job}
    (ht : p.taskAt k = some (.settleResolve s job)) (hfunded : Funded p.shared.manager.wallet job) :
    MoveCareful p (.resume k) := by
  intro t' ht'
  rw [ht] at ht'
  cases ht'
  refine ⟨?_, ?_, ?_, ?_⟩
  · rintro r ⟨⟩
  · rintro s' job' ⟨⟩
    exact hfunded
  · rintro s' job' amount ⟨⟩
  · rintro id job' ⟨⟩

private theorem careful_save {s : Settlement} {job : Job} {amount : UInt64}
    (ht : p.taskAt k = some (.settleSave s job amount)) (hstore : s.draw.store = .ok ()) :
    MoveCareful p (.resume k) := by
  intro t' ht'
  rw [ht] at ht'
  cases ht'
  refine ⟨?_, ?_, ?_, ?_⟩
  · rintro r ⟨⟩
  · rintro s' job' ⟨⟩
  · rintro s' job' amount' ⟨⟩
    exact hstore
  · rintro id job' ⟨⟩

end Moves

private theorem settling_careful :
    Along (Pool.step (advance config)) MoveCareful (idle funds) settling := by
  refine ⟨⟨.createRequest request, trivial, rfl⟩, careful_create rfl (by decide),
    careful_plain rfl trivial,
    ⟨.receiveBid _, trivial, rfl⟩, careful_plain rfl trivial,
    ⟨.acceptBid _, trivial, rfl⟩, careful_plain rfl trivial, careful_plain rfl trivial,
    careful_plain rfl trivial, careful_plain rfl trivial, careful_plain rfl trivial,
    careful_plain rfl trivial, careful_plain rfl trivial, careful_store rfl (by decide) ?_,
    ⟨.settleJob _, trivial, rfl⟩, careful_plain rfl trivial, careful_resolve rfl ⟨_, rfl, rfl⟩,
    careful_save rfl rfl, careful_plain rfl trivial, careful_plain rfl trivial,
    careful_plain rfl trivial, trivial⟩
  rintro (_ | _ | _ | j) t ht
  · cases ht
  · cases ht
  · cases ht
    simp [Task.hand]
  · cases ht

theorem jobs_in_one_place_settled :
    Placed (run (Pool.step (advance config)) (idle funds) settling).shared ∧
      jobId ∈ (run (Pool.step (advance config)) (idle funds) settling).shared.completed :=
  ⟨(jobs_in_one_place config funds settling_careful).1.last (by decide), by decide⟩

/-- Its escrow is swept when it has expired, and then it is settled: the job is taken
out. -/
private def sweeping : List (Move Task) :=
  accepting ++ calling 3 2 (.wallet (sweep ["e"])) ++
    calling 4 1 (.settleJob (settlement true))

private theorem sweeping_fresh :
    Along (Pool.step (advance config)) MoveFresh (idle funds) (sweeping ++ [.resume 4]) := by
  refine ⟨⟨.createRequest request, trivial, rfl⟩, .create rfl (by decide), .plain rfl rfl,
    ⟨.receiveBid _, trivial, rfl⟩, .plain rfl rfl,
    ⟨.acceptBid _, trivial, rfl⟩, .plain rfl rfl, .plain rfl rfl, .plain rfl rfl,
    .plain rfl rfl, .plain rfl rfl, .plain rfl rfl, .plain rfl rfl,
    .plain rfl rfl,
    ⟨.wallet _, trivial, rfl⟩, .plain rfl rfl, .plain rfl rfl,
    ⟨.settleJob _, trivial, rfl⟩, .plain rfl rfl, .plain rfl rfl, trivial⟩

/-- **The settlement loses the job**: the wallet has no active escrow to release, the
call fails, and the job it had taken out of `active_jobs` is nowhere. -/
theorem settlement_loses_job :
    Along (Pool.step (advance config)) MoveFresh (idle funds) (sweeping ++ [.resume 4]) ∧
      ¬ Always (Pool.step (advance config)) (fun p => p.Quiescent → Placed p.shared) (idle funds)
        (sweeping ++ [.resume 4]) ∧
      ¬ Along (Pool.step (advance config)) (FailsInPlace config) (idle funds)
        (sweeping ++ [.resume 4]) := by
  refine ⟨sweeping_fresh, ?_, ?_⟩
  · intro halways
    have hcreated : jobId ∈ (run (Pool.step (advance config)) (idle funds)
      (sweeping ++ [.resume 4])).shared.created := by decide
    have hplaced := (halways.last (by decide)).one_place jobId hcreated
    revert hplaced
    unfold InOnePlace
    decide
  · intro halong
    rw [along_append] at halong
    obtain ⟨hhand, -⟩ := halong.2.1 _ rfl trivial (by decide)
    cases hhand

end Example

end Jobs
end PeerClaw
