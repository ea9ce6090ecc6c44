import PeerClaw.Channel.Sections
import PeerClaw.Lib.Registry

/-!
# The index, the channels and their escrows

`open_channel` looks at the index, creates the escrow, stores the channel and
indexes it under four locks taken one after the other, and closing sets the
status under one lock and drops the peer from the index under another.

* `racing_openings` — two openings for one peer both find it not indexed, and
  the second overwrites the channel of the first, whose escrow stays active.
* `index_consistent` — in every interleaving in which openings of one identifier
  do not overlap, none creates an escrow next to an active one, and no channel is
  closed before it is indexed, the index leads to exactly the open channels
  whenever nothing is in flight, and none has two active escrows.

The proof reads a pool as a `Lib.Registry`: channels are its table, and what is
left of a call is its job.
-/

namespace PeerClaw
namespace Manager

open Lib Lib.Machine

/-! ## What should hold when nothing is in flight -/

/-- The escrow is active and one of a channel with the peer. -/
def ChannelEscrow (w : WalletState) (peer : String) (id : EscrowId) : Prop :=
  ∃ e, Wallet.ActiveAt w id e ∧ e.recipient = peer ∧ e.jobId = "channel_" ++ peer

/-- No two escrows of channels with the peer are active. -/
def SingleEscrow (w : WalletState) (peer : String) : Prop :=
  ∀ i j, ChannelEscrow w peer i → ChannelEscrow w peer j → i = j

/-- Index, channels and escrows agree. -/
structure Consistent (m : ChannelManager) : Prop where
  /-- The index leads a peer to a channel with it that is not closed. -/
  indexed_live : ∀ peer id, m.byPeer.lookup peer = some id →
    ∃ c, Live m id c ∧ c.remotePeer = peer
  /-- A channel that is not closed is indexed under its peer. -/
  live_indexed : ∀ id c, Live m id c → m.byPeer.lookup c.remotePeer = some id
  /-- A peer has at most one active escrow for its channel. -/
  single : ∀ id c, Live m id c → SingleEscrow m.wallet c.remotePeer

/-! ## The condition on a run -/

/-- The identifier of the channel with a peer. -/
def idWith (env : ManagerEnv) (peer : String) : ChannelId :=
  .fromPeers env.primitives env.identity.peerId peer

/-- The task is an opening that found its peer not indexed and has yet to index it. -/
def Task.opening : Task → Option String
  | .openLimits o | .openEscrow o | .openSave o | .openStore o => some o.remotePeer
  | .openIndex peer _ => some peer
  | _ => none

/-- The task is about to create an escrow for a channel with the peer. -/
def Task.Creates (env : ManagerEnv) (m : ChannelManager) (t : Task) (id : EscrowId)
    (peer : String) : Prop :=
  (∃ o, t = .openEscrow o ∧ id = o.draw.escrowId ∧ peer = o.remotePeer ∧
    Wallet.Affords env.walletConfig m.wallet o.capacity) ∨
  ∃ c, t = .wallet (.commit c) ∧
    c.Creates env.walletConfig m.wallet id peer ("channel_" ++ peer)

/-- The next section of the task does not get in the way of another call. -/
structure Undisturbed (env : ManagerEnv) (p : ManagerPool) (t : Task) : Prop where
  /-- An opening that finds its peer not indexed has the identifier to itself: no
  channel stored under it is open, and no other opening of it is on its way. -/
  opens : ∀ o, t = .openCheck o → o.remotePeer ∉ p.shared.byPeer →
    (∀ c, ¬ Live p.shared (idWith env o.remotePeer) c) ∧
      ∀ k t' peer, p.taskAt k = some t' → t'.opening = some peer →
        idWith env peer ≠ idWith env o.remotePeer
  /-- A channel escrow is created only when the peer has no active one. -/
  escrows : ∀ id peer, t.Creates env p.shared id peer →
    ∀ i, ¬ ChannelEscrow p.shared.wallet peer i
  /-- A channel is closed only when it is not about to be indexed. -/
  closes : ∀ id c, t.Closes env p.shared id c →
    ∀ k peer, p.taskAt k ≠ some (.openIndex peer id)

/-- The condition on a move: calls start at their beginning, and no section gets in
the way of another call. -/
def MoveUndisturbed (env : ManagerEnv) (p : ManagerPool) : Move Task → Prop
  | .start t => ∃ c : Call, t = c.task
  | .resume k => ∀ t, p.taskAt k = some t → Undisturbed env p t

/-! ## The pool as a registry -/

/-- The entry under an identifier: the remote peer, and whether it is not closed. -/
def slotOf (m : ChannelManager) (id : ChannelId) : Option (String × Bool) :=
  (m.channels.lookup id).map fun c => (c.remotePeer, decide (c.status ≠ .closed))

/-- What a task has left to do to the channels and the index. -/
def Task.job : Task → Option (Lib.Job String)
  | .openLimits o | .openEscrow o | .openSave o | .openStore o => some (.storing o.remotePeer)
  | .openIndex peer _ => some (.indexing peer)
  | .unindex peer => some (.dropping peer)
  | _ => none

theorem Task.CanFail.job {t : Task} (h : t.CanFail) :
    t.job = none ∨ ∃ peer, t.job = some (.storing peer) := by
  cases t with
  | openIndex peer id => exact h.elim
  | unindex peer => exact h.elim
  | openLimits o => exact .inr ⟨_, rfl⟩
  | openEscrow o => exact .inr ⟨_, rfl⟩
  | openSave o => exact .inr ⟨_, rfl⟩
  | openStore o => exact .inr ⟨_, rfl⟩
  | _ => exact .inl rfl

/-- The pool, seen as a table with its index and the jobs in flight. -/
def view (p : ManagerPool) : Registry String ChannelId :=
  ⟨slotOf p.shared, p.shared.byPeer.lookup, fun k => (p.taskAt k).bind Task.job⟩

theorem live_iff {m : ChannelManager} {id : ChannelId} {peer : String} :
    slotOf m id = some (peer, true) ↔ ∃ c, Live m id c ∧ c.remotePeer = peer := by
  unfold slotOf Live
  rw [Option.map_eq_some_iff]
  constructor
  · rintro ⟨c, hc, heq⟩
    obtain ⟨hpeer, hst⟩ := Prod.mk.inj heq
    exact ⟨c, ⟨hc, of_decide_eq_true hst⟩, hpeer⟩
  · rintro ⟨c, ⟨hc, hst⟩, hpeer⟩
    exact ⟨c, hc, by rw [hpeer, decide_eq_true hst]⟩

theorem slotOf_insert (m : ChannelManager) (id : ChannelId) (c : PaymentChannel) :
    slotOf { m with channels := m.channels.insert id c } =
      Function.update (slotOf m) id (some (c.remotePeer, decide (c.status ≠ .closed))) := by
  funext j
  unfold slotOf
  rw [Function.update_apply, Finmap.lookup_insert_eq]
  split <;> rfl

/-- Rewriting a channel, its peer and whether it is closed staying the same. -/
theorem slotOf_touch {m : ChannelManager} {id : ChannelId} {c d : PaymentChannel}
    (hc : m.channels.lookup id = some c) (hpeer : d.remotePeer = c.remotePeer)
    (hst : d.status = .closed ↔ c.status = .closed) :
    slotOf { m with channels := m.channels.insert id d } = slotOf m := by
  have hslot : slotOf m id = some (d.remotePeer, decide (d.status ≠ .closed)) := by
    unfold slotOf
    rw [hc, hpeer, Option.map_some]
    simp only [ne_eq, hst]
  rw [slotOf_insert, ← hslot, Function.update_eq_self]

theorem opening_of_adding {p : ManagerPool} {k : ℕ} {peer : String} (h : (view p).Adding k peer) :
    ∃ t, p.taskAt k = some t ∧ t.opening = some peer := by
  unfold Registry.Adding view at h
  dsimp only at h
  rw [Option.bind_eq_some_iff, Option.bind_eq_some_iff] at h
  rcases h with ⟨t, ht, hjob⟩ | ⟨t, ht, hjob⟩
  · refine ⟨t, ht, ?_⟩
    cases t <;> simp [Task.job, Task.opening] at hjob ⊢ <;> exact hjob
  · refine ⟨t, ht, ?_⟩
    cases t <;> simp [Task.job, Task.opening] at hjob ⊢
    exact hjob

/-- What a pool remembers of an identifier until it is indexed is the identifier of
the peer. -/
def Named (env : ManagerEnv) (p : ManagerPool) : Prop :=
  ∀ k peer id, p.taskAt k = some (.openIndex peer id) → id = idWith env peer

theorem taskAt_of_indexing {env : ManagerEnv} {p : ManagerPool} (hnamed : Named env p) {k : ℕ}
    {peer : String} (h : (view p).job k = some (.indexing peer)) :
    p.taskAt k = some (.openIndex peer (idWith env peer)) := by
  obtain ⟨t, ht, hjob⟩ := Option.bind_eq_some_iff.1 h
  cases t <;> simp [Task.job] at hjob
  subst hjob
  rw [ht, hnamed _ _ _ ht]

/-! ## What a move does to the registry -/

section View

variable {env : ManagerEnv} {p : ManagerPool}

theorem view_job {k : ℕ} {t : Task} (h : p.taskAt k = some t) : (view p).job k = t.job := by
  show (p.taskAt k).bind Task.job = t.job
  rw [h]
  rfl

theorem view_start {c : Call} : view (p.step (advance env) (.start c.task)) = view p := by
  have hjob : c.task.job = none := by cases c <;> rfl
  unfold view
  congr 1
  funext k
  rw [Pool.taskAt_start]
  split
  · next hk =>
      have hnone : p.taskAt k = none := by
        unfold Pool.taskAt
        rw [List.getElem?_eq_none (le_of_eq hk.symm)]
        rfl
      rw [hnone]
      exact hjob
  · rfl

theorem view_resume (env : ManagerEnv) {k : ℕ} {t : Task} (h : p.taskAt k = some t) :
    view (p.step (advance env) (.resume k)) =
      ⟨slotOf (advance env p.shared t).1, (advance env p.shared t).1.byPeer.lookup,
        Function.update (view p).job k ((advance env p.shared t).2.bind Task.job)⟩ := by
  unfold view
  rw [Pool.shared_resume h]
  congr 1
  funext j
  rw [Pool.taskAt_resume h, Function.update_apply]
  split <;> rfl

/-- A section that leaves channels, index and its own job as they were. -/
theorem view_same (env : ManagerEnv) {k : ℕ} {t : Task} (h : p.taskAt k = some t)
    (hslot : slotOf (advance env p.shared t).1 = slotOf p.shared)
    (hindex : (advance env p.shared t).1.byPeer = p.shared.byPeer)
    (hjob : (advance env p.shared t).2.bind Task.job = t.job) :
    view (p.step (advance env) (.resume k)) = view p := by
  rw [view_resume env h, hslot, hindex, hjob, ← view_job h, Function.update_eq_self]
  rfl

/-- **The pool is a registry**: an undisturbed section is one of its steps, or does
nothing to it. -/
theorem view_step {k : ℕ} {t : Task} (ht : p.taskAt k = some t) (hfree : Undisturbed env p t)
    (hnamed : Named env p) :
    view (p.step (advance env) (.resume k)) = view p ∨
      Registry.Step (idWith env) (view p) (view (p.step (advance env) (.resume k))) := by
  have hown := view_job ht
  have hresume := view_resume env ht
  have hsame := view_same env ht
  have hturns := turns env p.shared t
  revert hresume hsame hturns
  generalize advance env p.shared t = next
  obtain ⟨m', t'⟩ := next
  intro hresume hsame hturns
  dsimp only at hresume hsame hturns
  cases hturns with
  | check o hindexed =>
      obtain ⟨hslot, halone⟩ := hfree.opens o rfl hindexed
      right
      rw [hresume]
      refine .begin k o.remotePeer hown (Finmap.lookup_eq_none.2 hindexed) (fun q hq => ?_)
        fun j q hq => ?_
      · obtain ⟨c, hlive, -⟩ := live_iff.1 hq
        exact hslot c hlive
      · obtain ⟨t', ht', hopening⟩ := opening_of_adding hq
        exact halone j t' q ht' hopening
  | allow o => exact .inl (hsame rfl rfl rfl)
  | escrow o w haffords hactive => exact .inl (hsame rfl rfl rfl)
  | save o => exact .inl (hsame rfl rfl rfl)
  | store o c hnew =>
      obtain ⟨hid, hpeer, -, -, -, -, hst⟩ := PaymentChannel.new_some hnew
      right
      rw [hresume, slotOf_insert, hid, hpeer, hst]
      exact .store k o.remotePeer hown
  | index peer id =>
      obtain rfl := hnamed k peer id ht
      right
      rw [hresume]
      rw [Finmap.lookup_insert_fun]
      exact .enter k peer hown
  | close t id c hcloses =>
      right
      rw [hresume, slotOf_insert]
      refine .close k id c.remotePeer ?_ (live_iff.2 ⟨c, hcloses.live, rfl⟩) fun j q hj => ?_
      · rw [hown]
        rcases hcloses with ⟨r, rfl, -⟩ | ⟨now, rfl, -⟩ <;> rfl
      · rintro rfl
        exact hfree.closes _ c hcloses j q (taskAt_of_indexing hnamed hj)
  | unindex peer =>
      right
      rw [hresume]
      rw [Finmap.lookup_erase_fun]
      exact .drop k peer hown
  | touch t id c d hother hc hpeer hst =>
      refine .inl (hsame (slotOf_touch hc hpeer hst) rfl ?_)
      cases t <;> first | rfl | exact hother.elim
  | verify now s => exact .inl (hsame rfl rfl rfl)
  | register peerId key => exact .inl (hsame rfl rfl rfl)
  | wallet t =>
      refine .inl (hsame rfl rfl ?_)
      cases (Wallet.advance env.walletConfig ⟨p.shared.wallet, []⟩ t).2 <;> rfl
  | stop t w hfail hshrinks =>
      rcases hfail.job with hjob | ⟨peer, hjob⟩
      · exact .inl (hsame rfl rfl hjob.symm)
      · right
        rw [hresume]
        exact .abandon k peer (hown.trans hjob)

theorem named_resume {k : ℕ} {t : Task} (ht : p.taskAt k = some t) (hnamed : Named env p) :
    Named env (p.step (advance env) (.resume k)) := by
  intro j peer id hj
  rw [Pool.taskAt_resume ht] at hj
  by_cases hjk : j = k
  · rw [if_pos hjk] at hj
    have hturns := turns env p.shared t
    rw [hj] at hturns
    generalize (advance env p.shared t).1 = m' at hturns
    generalize hnext : some (Task.openIndex peer id) = next at hturns
    cases hturns with
    | store o c hnew =>
        cases hnext
        exact (PaymentChannel.new_some hnew).1
    | wallet t =>
        obtain ⟨t', -, ht'⟩ := Option.map_eq_some_iff.1 hnext.symm
        cases ht'
    | _ => cases hnext
  · rw [if_neg hjk] at hj
    exact hnamed j peer id hj

end View

/-! ## Escrows -/

section Escrows

variable {env : ManagerEnv} {m : ChannelManager} {t : Task}

/-- What a section makes active among the channel escrows is the one it creates. -/
theorem channelEscrow_advance {peer : String} {id : EscrowId}
    (h : ChannelEscrow (advance env m t).1.wallet peer id) :
    ChannelEscrow m.wallet peer id ∨ t.Creates env m id peer := by
  obtain ⟨e, hactive, hpeer, hjob⟩ := h
  have hold : Wallet.ActiveAt m.wallet id e → ChannelEscrow m.wallet peer id :=
    fun h => ⟨e, h, hpeer, hjob⟩
  have hturns := turns env m t
  revert hactive hturns
  generalize (advance env m t).1 = m', (advance env m t).2 = t'
  intro hactive hturns
  cases hturns with
  | escrow o w haffords hnew =>
      rcases hnew id e hactive with h | ⟨hid, hrecipient, -⟩
      · exact .inl (hold h)
      · exact .inr (.inl ⟨o, rfl, hid, hpeer.symm.trans hrecipient, haffords⟩)
  | wallet t =>
      rcases Wallet.advance_active hactive with h | ⟨c, rfl, hc⟩
      · exact .inl (hold h)
      · rw [hpeer, hjob] at hc
        exact .inr (.inr ⟨c, rfl, hc⟩)
  | stop t w hfail hshrinks => exact .inl (hold (hshrinks id e hactive))
  | _ => exact .inl (hold hactive)

theorem Task.Creates.unique {i j : EscrowId} {peer peer' : String} (hi : t.Creates env m i peer)
    (hj : t.Creates env m j peer') : i = j := by
  rcases hi with ⟨o, rfl, hi, -⟩ | ⟨c, rfl, draw, _, _, rfl, hi, -⟩
  · rcases hj with ⟨o', heq, hj, -⟩ | ⟨c, heq, -⟩
    · cases heq
      rw [hi, hj]
    · cases heq
  · rcases hj with ⟨o', heq, -⟩ | ⟨c', heq, draw', _, _, hc, hj, -⟩
    · cases heq
    · cases heq
      cases hc
      rw [hi, hj]

/-- Where a peer had one active channel escrow at most, so it has afterwards. -/
theorem singleEscrow_advance {p : ManagerPool} (hfree : Undisturbed env p t) {peer : String}
    (h : SingleEscrow p.shared.wallet peer) :
    SingleEscrow (advance env p.shared t).1.wallet peer := by
  intro i j hi hj
  rcases channelEscrow_advance hi with hi | hi <;> rcases channelEscrow_advance hj with hj | hj
  · exact h i j hi hj
  · exact absurd hi (hfree.escrows j peer hj i)
  · exact absurd hj (hfree.escrows i peer hi j)
  · exact hi.unique hj

end Escrows

/-! ## The invariant -/

/-- The task is an opening whose escrow is created and whose channel is not stored
yet. -/
def Task.funded : Task → Option String
  | .openSave o | .openStore o => some o.remotePeer
  | _ => none

/-- Channels, index, escrows and the calls in flight fit together. -/
structure Orderly (env : ManagerEnv) (p : ManagerPool) : Prop where
  named : Named env p
  tidy : Registry.Inv (idWith env) (view p)
  single : ∀ id c, Live p.shared id c → SingleEscrow p.shared.wallet c.remotePeer
  funded : ∀ k t peer, p.taskAt k = some t → t.funded = some peer →
    SingleEscrow p.shared.wallet peer

section Invariant

variable {env : ManagerEnv} {p : ManagerPool}

/-- A section leaves an open channel with a peer only where there was one, or where
the escrow for one had been created. -/
theorem live_advance {m : ChannelManager} {t : Task} {id : ChannelId} {c : PaymentChannel}
    (h : Live (advance env m t).1 id c) :
    (∃ d, Live m id d ∧ d.remotePeer = c.remotePeer) ∨ t.funded = some c.remotePeer := by
  have hturns := turns env m t
  revert h hturns
  generalize (advance env m t).1 = m', (advance env m t).2 = t'
  rintro ⟨hlookup, hst⟩ hturns
  cases hturns with
  | store o d hnew =>
      rw [Finmap.lookup_insert_eq] at hlookup
      split at hlookup
      · cases hlookup
        right
        rw [(PaymentChannel.new_some hnew).2.1]
        rfl
      · exact .inl ⟨c, ⟨hlookup, hst⟩, rfl⟩
  | close t j d hcloses =>
      rw [Finmap.lookup_insert_eq] at hlookup
      split at hlookup
      · cases hlookup
        exact absurd rfl hst
      · exact .inl ⟨c, ⟨hlookup, hst⟩, rfl⟩
  | touch t j d d' hother hd hpeer hclosed =>
      rw [Finmap.lookup_insert_eq] at hlookup
      split at hlookup
      · next hid =>
          cases hlookup
          exact .inl ⟨d, ⟨by rw [hid, hd], fun h => hst (hclosed.2 h)⟩, hpeer.symm⟩
      · exact .inl ⟨c, ⟨hlookup, hst⟩, rfl⟩
  | _ => exact .inl ⟨c, ⟨hlookup, hst⟩, rfl⟩

theorem funded_advance {m : ChannelManager} {t t' : Task} {peer : String}
    (h : (advance env m t).2 = some t') (hfunded : t'.funded = some peer) :
    t.funded = some peer ∨ ∃ id, t.Creates env m id peer := by
  have hturns := turns env m t
  rw [h] at hturns
  generalize (advance env m t).1 = m' at hturns
  generalize hnext : some t' = next at hturns
  cases hturns with
  | escrow o w haffords hnew =>
      cases hnext
      cases hfunded
      exact .inr ⟨_, .inl ⟨o, rfl, rfl, rfl, haffords⟩⟩
  | save o =>
      cases hnext
      exact .inl hfunded
  | wallet t =>
      obtain ⟨_, -, rfl⟩ := Option.map_eq_some_iff.1 hnext.symm
      cases hfunded
  | _ =>
      cases hnext
      try cases hfunded

/-- A section that creates a channel escrow leaves no other one active. -/
theorem singleEscrow_created {t : Task} (hfree : Undisturbed env p t) {id : EscrowId}
    {peer : String} (hcreates : t.Creates env p.shared id peer) :
    SingleEscrow (advance env p.shared t).1.wallet peer := by
  have hnone := hfree.escrows id peer hcreates
  intro i j hi hj
  rcases channelEscrow_advance hi with hi | hi
  · exact absurd hi (hnone i)
  · rcases channelEscrow_advance hj with hj | hj
    · exact absurd hj (hnone j)
    · exact hi.unique hj

theorem orderly_resume {k : ℕ} {t : Task} (ht : p.taskAt k = some t) (hfree : Undisturbed env p t)
    (h : Orderly env p) : Orderly env (p.step (advance env) (.resume k)) where
  named := named_resume ht h.named
  tidy := by
    rcases view_step ht hfree h.named with hsame | hstep
    · rw [hsame]
      exact h.tidy
    · exact h.tidy.step hstep
  single := by
    intro id c hlive
    rw [Pool.shared_resume ht] at hlive ⊢
    rcases live_advance hlive with ⟨d, hd, hpeer⟩ | hfunded
    · rw [← hpeer]
      exact singleEscrow_advance hfree (h.single id d hd)
    · exact singleEscrow_advance hfree (h.funded k t _ ht hfunded)
  funded := by
    intro j t' peer hj hfunded
    rw [Pool.taskAt_resume ht] at hj
    rw [Pool.shared_resume ht]
    split at hj
    · rcases funded_advance hj hfunded with hold | ⟨id, hcreates⟩
      · exact singleEscrow_advance hfree (h.funded k t peer ht hold)
      · exact singleEscrow_created hfree hcreates
    · exact singleEscrow_advance hfree (h.funded j t' peer hj hfunded)

theorem orderly_start (c : Call) (h : Orderly env p) :
    Orderly env (p.step (advance env) (.start c.task)) where
  named := by
    intro k peer id hk
    rw [Pool.taskAt_start] at hk
    split at hk
    · cases c <;> cases hk
    · exact h.named k peer id hk
  tidy := by
    rw [view_start]
    exact h.tidy
  single := h.single
  funded := by
    intro k t peer hk hfunded
    rw [Pool.taskAt_start] at hk
    split at hk
    · cases hk
      cases c <;> cases hfunded
    · exact h.funded k t peer hk hfunded

/-- A move that does not get in the way of another call keeps everything fitting. -/
theorem orderly_step (env : ManagerEnv) (p : ManagerPool) (move : Move Task) (h : Orderly env p)
    (hmove : MoveUndisturbed env p move) : Orderly env (p.step (advance env) move) := by
  cases move with
  | start t =>
      obtain ⟨c, rfl⟩ := hmove
      exact orderly_start c h
  | resume k =>
      cases hk : p.taskAt k with
      | none =>
          rw [Pool.step_resume_none hk]
          exact h
      | some t => exact orderly_resume hk (hmove t hk) h

theorem job_of_quiescent (hquiet : p.Quiescent) (k : ℕ) : (view p).job k = none := by
  show (p.taskAt k).bind Task.job = none
  rw [Pool.taskAt_eq_none_of_quiescent hquiet]
  rfl

theorem Orderly.consistent (h : Orderly env p) (hquiet : p.Quiescent) : Consistent p.shared where
  indexed_live := by
    intro peer id hindexed
    exact live_iff.1 ((h.tidy.index_iff (job_of_quiescent hquiet)).1 hindexed)
  live_indexed := by
    intro id c hlive
    exact (h.tidy.index_iff (job_of_quiescent hquiet)).2 (live_iff.2 ⟨c, hlive, rfl⟩)
  single := h.single

end Invariant

/-! ## Every interleaving -/

/-- A manager that has just been made, with nothing in flight. -/
def idle (wallet : WalletState) : ManagerPool := ⟨.new wallet, []⟩

theorem orderly_idle (env : ManagerEnv) (wallet : WalletState) : Orderly env (idle wallet) where
  named := by
    intro k peer id hk
    cases hk
  tidy := Registry.inv_empty (idWith env)
  single := by
    rintro id c ⟨hlookup, -⟩
    cases hlookup
  funded := by
    intro k t peer hk
    cases hk

/-- **The index and the channels agree whenever nothing is in flight**, and no open
channel has two active escrows: in every interleaving of calls, from any
wallet, in which no section gets in the way of another call. -/
theorem index_consistent (env : ManagerEnv) (wallet : WalletState) {moves : List (Move Task)}
    (h : Along (Pool.step (advance env)) (MoveUndisturbed env) (idle wallet) moves) :
    Always (Pool.step (advance env)) (fun p => p.Quiescent → Consistent p.shared) (idle wallet)
      moves := by
  have horderly := always_of_inv (orderly_step env) (orderly_idle env wallet) h
  intro pre post hsplit hquiet
  exact (horderly pre post hsplit).consistent hquiet

section Example

open Sample

/-- What an opening of forty for an hour locks. -/
private def escrowWith (peer id : String) : Escrow where
  id := ⟨id⟩
  amount := 40
  recipient := peer
  jobId := "channel_" ++ peer
  createdAt := .epoch
  expiresAt := .ofSecs 3600 DateTime.hour_inRange
  status := .active
  resolvedAt := none

private def openCarol : Call := .openChannel (.fixed .epoch "f" []) .epoch "carol" 40 1

/-- Two openings for different peers, interleaved; bob's channel is closed when it
has expired. -/
private def twoPeers : List (Move Task) :=
  [.start (openBob "e").task, .start openCarol.task, .resume 0, .resume 1,
    .resume 0, .resume 0, .resume 1, .resume 1, .resume 0, .resume 0, .resume 1, .resume 1,
    .resume 0, .resume 1,
    .start (Call.forceCloseExpired (.ofSecs 7200 DateTime.twoHours_inRange) channelId).task, .resume 2, .resume 2]

/-- The section neither looks at the index, nor creates an escrow, nor closes. -/
private def Plain : Task → Prop
  | .openCheck _ | .openEscrow _ | .settle _ _ | .expire _ _ | .wallet (.commit _) => False
  | _ => True

section Moves

variable {p : ManagerPool} {k : ℕ} {t : Task} {o : Opening}

private theorem undisturbed_plain (ht : p.taskAt k = some t) (h : Plain t) :
    MoveUndisturbed env p (.resume k) := by
  intro t' ht'
  rw [ht] at ht'
  cases ht'
  refine ⟨?_, ?_, ?_⟩
  · rintro o rfl
    exact h.elim
  · rintro id peer (⟨o, rfl, -⟩ | ⟨c, rfl, -⟩) <;> exact h.elim
  · rintro id c (⟨r, rfl, -⟩ | ⟨now, rfl, -⟩) <;> exact h.elim

private theorem undisturbed_check (ht : p.taskAt k = some (.openCheck o))
    (hfree : p.shared.channels.lookup (idWith env o.remotePeer) = none)
    (halone : ∀ j t' peer, p.taskAt j = some t' → t'.opening = some peer →
      idWith env peer ≠ idWith env o.remotePeer) :
    MoveUndisturbed env p (.resume k) := by
  intro t' ht'
  rw [ht] at ht'
  cases ht'
  refine ⟨?_, ?_, ?_⟩
  · rintro o' ⟨⟩ -
    refine ⟨?_, halone⟩
    rintro c ⟨hc, -⟩
    rw [hfree] at hc
    cases hc
  · rintro id peer (⟨o, heq, -⟩ | ⟨c, heq, -⟩) <;> cases heq
  · rintro id c (⟨r, heq, -⟩ | ⟨now, heq, -⟩) <;> cases heq

private theorem undisturbed_escrow (ht : p.taskAt k = some (.openEscrow o))
    (hnone : ∀ i e, p.shared.wallet.escrows.lookup i = some e → e.recipient ≠ o.remotePeer) :
    MoveUndisturbed env p (.resume k) := by
  intro t' ht'
  rw [ht] at ht'
  cases ht'
  refine ⟨?_, ?_, ?_⟩
  · rintro o' ⟨⟩
  · rintro id peer (⟨o', heq, -, rfl, -⟩ | ⟨c, heq, -⟩)
    · cases heq
      rintro i ⟨e, ⟨he, -⟩, hpeer, -⟩
      exact hnone i e he hpeer
    · cases heq
  · rintro id c (⟨r, heq, -⟩ | ⟨now, heq, -⟩) <;> cases heq

private theorem undisturbed_expire {now : DateTime} {id : ChannelId}
    (ht : p.taskAt k = some (.expire now id))
    (hindexed : ∀ j peer, p.taskAt j ≠ some (.openIndex peer id)) :
    MoveUndisturbed env p (.resume k) := by
  intro t' ht'
  rw [ht] at ht'
  cases ht'
  refine ⟨?_, ?_, ?_⟩
  · rintro o' ⟨⟩
  · rintro i peer (⟨o', heq, -⟩ | ⟨c, heq, -⟩) <;> cases heq
  · rintro i c (⟨r, heq, -⟩ | ⟨now', heq, -⟩)
    · cases heq
    · cases heq
      exact hindexed

end Moves

private theorem twoPeers_undisturbed :
    Along (Pool.step (advance env)) (MoveUndisturbed env) (idle funded.wallet) twoPeers := by
  refine ⟨⟨_, rfl⟩, ⟨_, rfl⟩, undisturbed_check rfl (by decide) ?_,
    undisturbed_check rfl (by decide) ?_, undisturbed_plain rfl trivial,
    undisturbed_escrow rfl ?_, undisturbed_plain rfl trivial, undisturbed_escrow rfl ?_,
    undisturbed_plain rfl trivial, undisturbed_plain rfl trivial, undisturbed_plain rfl trivial,
    undisturbed_plain rfl trivial, undisturbed_plain rfl trivial, undisturbed_plain rfl trivial,
    ⟨_, rfl⟩, undisturbed_expire rfl ?_, undisturbed_plain rfl trivial, trivial⟩
  · rintro (_ | _ | j) t peer ht hopening
    · cases ht
      cases hopening
    · cases ht
      cases hopening
    · cases ht
  · rintro (_ | _ | j) t peer ht hopening
    · cases ht
      cases hopening
      decide
    · cases ht
      cases hopening
    · cases ht
  · intro i e he
    cases he
  · intro i e he
    have hstored : (Finmap.lookup i ((∅ : FiniteMap EscrowId Escrow).insert ⟨"e"⟩
        (escrowWith "bob" "e"))) = some e := he
    rw [Finmap.lookup_insert_eq] at hstored
    split at hstored
    · cases hstored
      decide
    · cases hstored
  · rintro (_ | _ | _ | j) peer hj <;> cases hj

theorem index_consistent_twoPeers :
    Consistent (run (Pool.step (advance env)) (idle funded.wallet) twoPeers).shared :=
  (index_consistent env funded.wallet twoPeers_undisturbed).last (by decide)

/-- Both openings look at the index before either has stored its channel. -/
private def race : List (Move Task) :=
  [.start (openBob "e").task, .start (openBob "f").task, .resume 0, .resume 1,
    .resume 0, .resume 0, .resume 0, .resume 0, .resume 0,
    .resume 1, .resume 1, .resume 1, .resume 1, .resume 1]

private def afterRace : ManagerPool := run (Pool.step (advance env)) (idle funded.wallet) race

/-- **Two openings race**: both find bob not indexed, both lock forty, and the
second overwrites the channel of the first, whose escrow stays active. -/
theorem racing_openings :
    afterRace.Quiescent ∧
      afterRace.shared.channels.lookup channelId = some newChannel ∧
      afterRace.shared.wallet.inEscrow = 80 ∧
      ¬ Always (Pool.step (advance env)) (fun p => p.Quiescent → Consistent p.shared)
        (idle funded.wallet) race := by
  have hquiet : afterRace.Quiescent := by decide
  have hstored : afterRace.shared.channels.lookup channelId = some newChannel := by decide
  have hescrow : ∀ id, id = "e" ∨ id = "f" →
      afterRace.shared.wallet.escrows.lookup ⟨id⟩ = some (escrowWith "bob" id) := by
    rintro id (rfl | rfl) <;> decide
  refine ⟨hquiet, hstored, by decide, ?_⟩
  intro halways
  have hsingle := (halways.last hquiet).single channelId newChannel ⟨hstored, by decide⟩
  have heq := hsingle ⟨"e"⟩ ⟨"f"⟩ ⟨escrowWith "bob" "e", ⟨hescrow "e" (.inl rfl), rfl⟩, rfl, rfl⟩
    ⟨escrowWith "bob" "f", ⟨hescrow "f" (.inr rfl), rfl⟩, rfl, rfl⟩
  exact absurd heq (by decide)

end Example

end Manager
end PeerClaw
