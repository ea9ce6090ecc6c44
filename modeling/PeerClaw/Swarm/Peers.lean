import PeerClaw.Swarm.Manager
import PeerClaw.Lib.Machine

/-!
# Peers and their agents

What network events do to the agents of the peers.  An advertisement holds the
lock on the ids of the agents while it registers a peer that is not known, which
needs that lock; and a peer that comes back finds its agent as it was left.

* `never_stuck_iff` — in every run, every call completes exactly when no peer that
  is not known advertises its resources.
* `agents_faithful_iff` — in every run, peers and remote agents are in bijection,
  the history is within its bound, and the agent of a peer is offline exactly when
  the last that was seen of the peer was a disconnection, exactly when no peer that
  is not known advertises its resources and no peer that disconnected connects
  again.
-/

namespace PeerClaw
namespace Swarm

open Lib Lib.Guarded
open Inference (Uuid)

/-! ## What the calls do -/

section Calls

variable {c : SwarmManagerConfig} {d : Draw} {p : String} {id : Uuid} {m : SwarmManager}
  {manifest : Option ResourceManifest}

namespace SwarmManager

/-- The manager with the agent of one more peer. -/
def join (d : Draw) (p : String) (manifest : Option ResourceManifest) (m : SwarmManager) :
    SwarmManager :=
  { m with
    agents := m.agents.insert d.newV4 (peerAgent d p manifest)
    peerToAgent := m.peerToAgent.insert p d.newV4 }

/-- The manager with an agent that no peer leads to. -/
def orphan (d : Draw) (p : String) (manifest : Option ResourceManifest) (m : SwarmManager) :
    SwarmManager := m.setAgents (·.insert d.newV4 (peerAgent d p manifest))

/-- The lock on the ids may be held for reading when it is asked for to read. -/
theorem reading_agentOf {held : List (MapLock × Mode)} (h : ∀ guard ∈ held, guard.2 = .read) :
    reading .peerToAgent (agentOf p) held m = .done (m.peerToAgent.lookup p) m :=
  locking_read fun guard hmem _ => h guard hmem

theorem agentOf_apply {held : List (MapLock × Mode)} :
    agentOf p held m = .done (m.peerToAgent.lookup p) m := rfl

theorem registerPeerAgent_known (h : m.peerToAgent.lookup p = some id) :
    registerPeerAgent d p manifest [] m = .done id m := by
  unfold registerPeerAgent
  rw [bind_done (reading_agentOf (by simp)), h]
  rfl

theorem registerPeerAgent_unknown (h : m.peerToAgent.lookup p = none) :
    registerPeerAgent d p manifest [] m = .done d.newV4 (join d p manifest m) := by
  unfold registerPeerAgent
  rw [bind_done (reading_agentOf (by simp)), h]
  rfl

/-- **Where a registration hangs.**  With the lock on the ids held, the agent of an unknown peer
is made, and its id never stored. -/
theorem registerPeerAgent_reading (h : m.peerToAgent.lookup p = none) :
    registerPeerAgent d p manifest [(.peerToAgent, .read)] m =
      .stuck .peerToAgent (orphan d p manifest m) := by
  unfold registerPeerAgent
  rw [bind_done (reading_agentOf (by simp)), h]
  rfl

theorem advertisedAgent_known (h : m.peerToAgent.lookup p = some id) (r : ResourceManifest) :
    advertisedAgent d p r [] m = .done id m := by
  show (agentOf p >>= _) [(MapLock.peerToAgent, Mode.read)] m = _
  rw [bind_done agentOf_apply, h]
  rfl

theorem advertisedAgent_unknown (h : m.peerToAgent.lookup p = none) (r : ResourceManifest) :
    advertisedAgent d p r [] m = .stuck .peerToAgent (orphan d p (some r) m) := by
  show (agentOf p >>= _) [(MapLock.peerToAgent, Mode.read)] m = _
  rw [bind_done agentOf_apply, h]
  exact registerPeerAgent_reading h

/-! ### Network events -/

theorem handle_untracked (htrack : c.trackRemotePeers = false) (e : NetworkEvent) :
    handleNetworkEvent c d e [] m = .done () m := by
  unfold handleNetworkEvent
  rw [htrack]
  rfl

variable (htrack : c.trackRemotePeers = true)

include htrack

theorem handle_connected_known (h : m.peerToAgent.lookup p = some id) :
    handleNetworkEvent c d (.peerConnected p) [] m = .done () m := by
  unfold handleNetworkEvent
  rw [htrack]
  exact bind_done (registerPeerAgent_known h) _

theorem handle_connected_unknown (h : m.peerToAgent.lookup p = none) :
    handleNetworkEvent c d (.peerConnected p) [] m = .done () (join d p none m) := by
  unfold handleNetworkEvent
  rw [htrack]
  exact bind_done (registerPeerAgent_unknown h) _

theorem handle_disconnected_known (h : m.peerToAgent.lookup p = some id) :
    handleNetworkEvent c d (.peerDisconnected p) [] m =
      .done () (m.setAgents (·.update id (SwarmAgent.setState d .offline))) := by
  unfold handleNetworkEvent
  rw [htrack]
  show (agentOf p >>= _) [(MapLock.peerToAgent, Mode.read)] m = _
  rw [bind_done agentOf_apply, h]
  rfl

theorem handle_disconnected_unknown (h : m.peerToAgent.lookup p = none) :
    handleNetworkEvent c d (.peerDisconnected p) [] m = .done () m := by
  unfold handleNetworkEvent
  rw [htrack]
  show (agentOf p >>= _) [(MapLock.peerToAgent, Mode.read)] m = _
  rw [bind_done agentOf_apply, h]
  rfl

theorem handle_advertised_known (h : m.peerToAgent.lookup p = some id) (r : ResourceManifest) :
    handleNetworkEvent c d (.resourceAdvertised p r) [] m =
      .done () (m.setAgents (·.update id
        (SwarmAgent.advertise d (r.capabilities.map AgentCapability.ofCapability)))) := by
  unfold handleNetworkEvent
  rw [htrack]
  exact bind_done (advertisedAgent_known h r) _

theorem handle_advertised_unknown (h : m.peerToAgent.lookup p = none) (r : ResourceManifest) :
    handleNetworkEvent c d (.resourceAdvertised p r) [] m =
      .stuck .peerToAgent (orphan d p (some r) m) := by
  unfold handleNetworkEvent
  rw [htrack]
  exact bind_stuck (advertisedAgent_unknown h r) _

theorem handle_other (description : String) :
    handleNetworkEvent c d (.other description) [] m = .done () m := by
  unfold handleNetworkEvent
  rw [htrack]
  rfl

end SwarmManager
end Calls

/-! ## The property and the condition -/

/-- What is seen of the link to a peer. -/
inductive Link
  | connected
  | disconnected
  deriving DecidableEq

/-- What an event says of the link to a peer. -/
def linkOf (p : String) : NetworkEvent → Option Link
  | .peerConnected q => if q = p then some .connected else none
  | .peerDisconnected q => if q = p then some .disconnected else none
  | _ => none

/-- What was last seen of the link to a peer. -/
def lastLink (p : String) (seen : List NetworkEvent) : Option Link :=
  (seen.filterMap (linkOf p)).getLast?

/-- The events that an input brings. -/
def Input.events : Input → List NetworkEvent
  | .network _ event => [event]
  | _ => []

/-- A manager, and the events that it has seen. -/
abbrev Watched := State × List NetworkEvent

/-- The manager and the events that it has seen, after a call. -/
def watch (c : SwarmManagerConfig) : Watched → Input → Watched :=
  Machine.logged (step c) fun _ i => i.events

/-- Peers and remote agents are in bijection, the history is within its bound, and the agent of
a peer is offline exactly when the last that was seen of the peer was a disconnection. -/
structure Faithful (c : SwarmManagerConfig) (w : Watched) : Prop where
  peers : ∀ p id, w.1.manager.peerToAgent.lookup p = some id →
    ∃ a, w.1.manager.agents.lookup id = some a ∧ a.isLocal = false ∧ a.peerId = some p
  agents : ∀ id a, w.1.manager.agents.lookup id = some a → a.isLocal = false →
    ∃! p, w.1.manager.peerToAgent.lookup p = some id
  history : w.1.manager.actionHistory.length ≤ c.maxActionHistory
  offline : ∀ p id a, w.1.manager.peerToAgent.lookup p = some id →
    w.1.manager.agents.lookup id = some a →
      (a.state = .offline ↔ lastLink p w.2 = some .disconnected)

/-- The peer that advertises its resources, where that is tracked. -/
def Introduced (c : SwarmManagerConfig) (s : State) : Input → Prop
  | .network _ (.resourceAdvertised p _) =>
      c.trackRemotePeers = true → s.manager.peerToAgent.lookup p ≠ none
  | _ => True

/-- No known peer connects again whose last event was a disconnection. -/
def Constant (c : SwarmManagerConfig) (w : Watched) : Input → Prop
  | .network _ (.peerConnected p) =>
      c.trackRemotePeers = true → w.1.manager.peerToAgent.lookup p ≠ none →
        lastLink p w.2 ≠ some .disconnected
  | _ => True

/-- A fresh id is that of no agent. -/
def Fresh (s : State) : Input → Prop
  | .network d _ => s.manager.agents.lookup d.newV4 = none
  | .registerLocal d _ _ => s.manager.agents.lookup d.newV4 = none
  | _ => True

/-! ## Agents that look the same -/

/-- What the property reads of an agent. -/
def look (a : SwarmAgent) : Option String × Bool × SwarmAgentState := (a.peerId, a.isLocal, a.state)

/-- The same peers, with agents that look the same. -/
structure Steady (m m' : SwarmManager) : Prop where
  peers : m'.peerToAgent = m.peerToAgent
  agents : ∀ id, (m'.agents.lookup id).map look = (m.agents.lookup id).map look

section Steady

variable {m m' m'' : SwarmManager}

theorem Steady.refl (m : SwarmManager) : Steady m m := ⟨rfl, fun _ => rfl⟩

theorem Steady.trans (h : Steady m m') (h' : Steady m' m'') : Steady m m'' :=
  ⟨h'.peers.trans h.peers, fun id => (h'.agents id).trans (h.agents id)⟩

theorem Steady.update (m : SwarmManager) (id : Uuid) {f : SwarmAgent → SwarmAgent}
    (hf : ∀ a, look (f a) = look a) : Steady m (m.setAgents (·.update id f)) := by
  refine ⟨rfl, fun id' => ?_⟩
  show ((m.agents.update id f).lookup id').map look = _
  rw [Finmap.lookup_update]
  split
  · rename_i hid
    subst hid
    cases m.agents.lookup id' with
    | none => rfl
    | some a => exact congrArg some (hf a)
  · rfl

theorem Steady.before (h : Steady m m') {id : Uuid} {a' : SwarmAgent}
    (ha' : m'.agents.lookup id = some a') : ∃ a, m.agents.lookup id = some a ∧ look a = look a' := by
  have hlook := h.agents id
  rw [ha'] at hlook
  exact Option.map_eq_some_iff.1 hlook.symm

theorem Steady.symm (h : Steady m m') : Steady m' m := ⟨h.peers.symm, fun id => (h.agents id).symm⟩

end Steady

theorem pushAction_length {c : SwarmManagerConfig} {action : AgentAction}
    {history : List AgentAction} (h : history.length ≤ c.maxActionHistory) :
    (SwarmManager.pushAction c action history).length ≤ c.maxActionHistory := by
  unfold SwarmManager.pushAction
  dsimp only
  split
  · rw [List.length_tail, List.length_append, List.length_singleton]
    omega
  · rename_i hle
    exact Nat.not_lt.1 hle

theorem record_done (c : SwarmManagerConfig) (d : Draw) (action : AgentAction) (m : SwarmManager) :
    ∃ m', SwarmManager.recordAction c d action [] m = .done () m' ∧ Steady m m' ∧
      m'.actionHistory = SwarmManager.pushAction c action m.actionHistory := by
  refine ⟨_, rfl, ?_, rfl⟩
  have hagents : Steady m (m.setAgents (·.update action.agentId (SwarmAgent.recordAction d))) :=
    Steady.update m action.agentId fun _ => rfl
  exact hagents.trans ⟨rfl, fun _ => rfl⟩

theorem recordJob_done (c : SwarmManagerConfig) (d : Draw) (id : Uuid) (actionType : ActionType)
    (description : String) (success : Bool) (m : SwarmManager) :
    ∃ m' action, SwarmManager.recordJobAction c d id actionType description success [] m =
        .done () m' ∧ Steady m m' ∧
      m'.actionHistory = SwarmManager.pushAction c action m.actionHistory := by
  have hresult : ∀ a, look (SwarmAgent.recordJobResult d success a) = look a := by
    intro a
    cases success <;> rfl
  by_cases hjob : actionType = .jobCompleted ∨ actionType = .jobFailed
  · let m₁ : SwarmManager := { m with totalJobs := m.totalJobs + 1 }
    obtain ⟨m', hdone, hsteady, hhistory⟩ := record_done c d
      ⟨d.newV4, id, ((m.agents.lookup id).map (·.name)).getD "Unknown", actionType, description,
        success, d.now⟩ (m₁.setAgents (·.update id (SwarmAgent.recordJobResult d success)))
    refine ⟨m', _, ?_, ?_, hhistory⟩
    · unfold SwarmManager.recordJobAction
      simp only [if_pos hjob]
      exact hdone
    · exact ((Steady.mk rfl fun _ => rfl : Steady m m₁).trans (Steady.update m₁ id hresult)).trans
        hsteady
  · obtain ⟨m', hdone, hsteady, hhistory⟩ := record_done c d
      ⟨d.newV4, id, ((m.agents.lookup id).map (·.name)).getD "Unknown", actionType, description,
        success, d.now⟩ m
    refine ⟨m', _, ?_, hsteady, hhistory⟩
    unfold SwarmManager.recordJobAction
    simp only [if_neg hjob]
    exact hdone

/-! ## The invariant -/

/-- **The invariant.**  Every known peer is that of its agent, and every remote agent that of a
known peer. -/
structure Sound (c : SwarmManagerConfig) (m : SwarmManager) (seen : List NetworkEvent) : Prop where
  known : ∀ p id, m.peerToAgent.lookup p = some id →
    ∃ a, m.agents.lookup id = some a ∧ a.isLocal = false ∧ a.peerId = some p
  remote : ∀ id a, m.agents.lookup id = some a → a.isLocal = false →
    ∃ p, a.peerId = some p ∧ m.peerToAgent.lookup p = some id
  history : m.actionHistory.length ≤ c.maxActionHistory
  offline : ∀ p id a, m.peerToAgent.lookup p = some id → m.agents.lookup id = some a →
    (a.state = .offline ↔ lastLink p seen = some .disconnected)
  untracked : c.trackRemotePeers = false → ∀ p, m.peerToAgent.lookup p = none

section Sound

variable {c : SwarmManagerConfig} {m m' : SwarmManager} {seen : List NetworkEvent} {d : Draw}
  {p : String} {id : Uuid}

theorem sound_new (c : SwarmManagerConfig) : Sound c .new [] where
  known _ _ h := by cases h
  remote _ _ h := by cases h
  history := Nat.zero_le _
  offline _ _ _ h := by cases h
  untracked _ _ := rfl

/-- Where the invariant holds, peers and agents are as they should be. -/
theorem Sound.faithful (h : Sound c m seen) {hung : Bool} : Faithful c (⟨m, hung⟩, seen) where
  peers := h.known
  agents id a ha hremote := by
    obtain ⟨p, hpeer, hp⟩ := h.remote id a ha hremote
    refine ⟨p, hp, ?_⟩
    intro q hq
    obtain ⟨b, hb, -, hname⟩ := h.known q id hq
    have hab : some a = some b := ha.symm.trans hb
    rw [← Option.some.inj hab, hpeer] at hname
    exact (Option.some.inj hname).symm
  history := h.history
  offline := h.offline

theorem lastLink_append (p : String) (seen : List NetworkEvent) (e : NetworkEvent) :
    lastLink p (seen ++ [e]) = (linkOf p e).or (lastLink p seen) := by
  unfold lastLink
  rw [List.filterMap_append]
  cases h : linkOf p e with
  | none => simp [h]
  | some l => simp [h]

theorem Sound.steady (h : Sound c m seen) (hm : Steady m m')
    (hhistory : m'.actionHistory.length ≤ c.maxActionHistory) {seen' : List NetworkEvent}
    (hseen : ∀ p id, m.peerToAgent.lookup p = some id →
      (lastLink p seen' = some .disconnected ↔ lastLink p seen = some .disconnected)) :
    Sound c m' seen' := by
  constructor
  · intro p id hp
    rw [hm.peers] at hp
    obtain ⟨a, ha, hremote, hpeer⟩ := h.known p id hp
    obtain ⟨a', ha', hlook⟩ := hm.symm.before ha
    simp only [look, Prod.mk.injEq] at hlook
    exact ⟨a', ha', hlook.2.1.trans hremote, hlook.1.trans hpeer⟩
  · intro id a' ha' hremote
    obtain ⟨a, ha, hlook⟩ := hm.before ha'
    simp only [look, Prod.mk.injEq] at hlook
    obtain ⟨p, hpeer, hp⟩ := h.remote id a ha (hlook.2.1.trans hremote)
    refine ⟨p, hlook.1.symm.trans hpeer, ?_⟩
    rw [hm.peers]
    exact hp
  · exact hhistory
  · intro p id a' hp ha'
    rw [hm.peers] at hp
    obtain ⟨a, ha, hlook⟩ := hm.before ha'
    simp only [look, Prod.mk.injEq] at hlook
    rw [← hlook.2.2, hseen p id hp]
    exact h.offline p id a hp ha
  · intro htrack p
    rw [hm.peers]
    exact h.untracked htrack p

theorem Sound.registerLocal (h : Sound c m seen) (hfresh : m.agents.lookup d.newV4 = none)
    (name : String) (profile : AgentProfile) :
    Sound c (m.setAgents (·.insert d.newV4 (SwarmAgent.newLocal d name profile))) seen := by
  have hlookup : ∀ id, (m.setAgents (·.insert d.newV4 (SwarmAgent.newLocal d name profile))
      ).agents.lookup id = if id = d.newV4 then some (SwarmAgent.newLocal d name profile)
        else m.agents.lookup id := fun id => Finmap.lookup_insert_eq _ _ _ _
  constructor
  · intro p id hp
    obtain ⟨a, ha, hremote, hpeer⟩ := h.known p id hp
    have hne : id ≠ d.newV4 := by
      rintro rfl
      rw [hfresh] at ha
      cases ha
    exact ⟨a, by rw [hlookup, if_neg hne]; exact ha, hremote, hpeer⟩
  · intro id a ha hremote
    rw [hlookup] at ha
    split at ha
    · obtain rfl := Option.some.inj ha
      cases hremote
    · exact h.remote id a ha hremote
  · exact h.history
  · intro p id a hp ha
    rw [hlookup] at ha
    split at ha
    · rename_i hid
      obtain ⟨b, hb, -⟩ := h.known p id hp
      rw [hid, hfresh] at hb
      cases hb
    · exact h.offline p id a hp ha
  · exact h.untracked

theorem Sound.join (h : Sound c m seen) (hfresh : m.agents.lookup d.newV4 = none)
    (hunknown : m.peerToAgent.lookup p = none) (htrack : c.trackRemotePeers = true) :
    Sound c (SwarmManager.join d p none m) (seen ++ [.peerConnected p]) := by
  have hagents : ∀ id, (SwarmManager.join d p none m).agents.lookup id =
      if id = d.newV4 then some (SwarmManager.peerAgent d p none) else m.agents.lookup id :=
    fun id => Finmap.lookup_insert_eq _ _ _ _
  have hpeers : ∀ q, (SwarmManager.join d p none m).peerToAgent.lookup q =
      if q = p then some d.newV4 else m.peerToAgent.lookup q :=
    fun q => Finmap.lookup_insert_eq _ _ _ _
  have hold : ∀ q id, m.peerToAgent.lookup q = some id → q ≠ p ∧ id ≠ d.newV4 := by
    intro q id hq
    constructor
    · rintro rfl
      rw [hunknown] at hq
      cases hq
    · rintro rfl
      obtain ⟨a, ha, -⟩ := h.known q _ hq
      rw [hfresh] at ha
      cases ha
  constructor
  · intro q id hq
    rw [hpeers] at hq
    split at hq
    · rename_i hqp
      obtain rfl := Option.some.inj hq
      exact ⟨_, by rw [hagents, if_pos rfl], rfl, by rw [hqp]; rfl⟩
    · obtain ⟨a, ha, hremote, hpeer⟩ := h.known q id hq
      exact ⟨a, by rw [hagents, if_neg (hold q id hq).2]; exact ha, hremote, hpeer⟩
  · intro id a ha hremote
    rw [hagents] at ha
    split at ha
    · rename_i hid
      obtain rfl := Option.some.inj ha
      exact ⟨p, rfl, by rw [hpeers, if_pos rfl, hid]⟩
    · obtain ⟨q, hpeer, hq⟩ := h.remote id a ha hremote
      exact ⟨q, hpeer, by rw [hpeers, if_neg (hold q id hq).1]; exact hq⟩
  · exact h.history
  · intro q id a hq ha
    rw [hpeers] at hq
    rw [lastLink_append]
    split at hq
    · rename_i hqp
      obtain rfl := Option.some.inj hq
      rw [hagents, if_pos rfl] at ha
      obtain rfl := Option.some.inj ha
      have hlink : linkOf q (.peerConnected p) = some .connected := if_pos hqp.symm
      rw [hlink]
      exact ⟨by rintro ⟨⟩, by rintro ⟨⟩⟩
    · obtain ⟨hqp, hid⟩ := hold q id hq
      rw [hagents, if_neg hid] at ha
      have hlink : linkOf q (.peerConnected p) = none := if_neg (Ne.symm hqp)
      rw [hlink]
      exact h.offline q id a hq ha
  · intro hfalse
    rw [htrack] at hfalse
    cases hfalse

theorem Sound.disconnect (h : Sound c m seen) (hp : m.peerToAgent.lookup p = some id)
    (htrack : c.trackRemotePeers = true) :
    Sound c (m.setAgents (·.update id (SwarmAgent.setState d .offline)))
      (seen ++ [.peerDisconnected p]) := by
  have hagents : ∀ j, (m.setAgents (·.update id (SwarmAgent.setState d .offline))).agents.lookup j =
      if j = id then (m.agents.lookup id).map (SwarmAgent.setState d .offline)
        else m.agents.lookup j := fun j => Finmap.lookup_update _ _ _ _
  obtain ⟨a, ha, hremote, hpeer⟩ := h.known p id hp
  rw [ha] at hagents
  constructor
  · intro q j hq
    obtain ⟨b, hb, hb'⟩ := h.known q j hq
    by_cases hj : j = id
    · subst hj
      rw [ha] at hb
      obtain rfl := Option.some.inj hb
      exact ⟨SwarmAgent.setState d .offline a, by rw [hagents, if_pos rfl]; rfl, hb'⟩
    · exact ⟨b, by rw [hagents, if_neg hj]; exact hb, hb'⟩
  · intro j b hb hlocal
    rw [hagents] at hb
    split at hb
    · rename_i hj
      obtain rfl := Option.some.inj hb
      exact ⟨p, hpeer, by rw [hj]; exact hp⟩
    · exact h.remote j b hb hlocal
  · exact h.history
  · intro q j b hq hb
    rw [lastLink_append]
    rw [hagents] at hb
    split at hb
    · rename_i hj
      obtain rfl := Option.some.inj hb
      -- only one peer leads to this agent
      obtain ⟨a', ha', -, hpeer'⟩ := h.known q j hq
      rw [hj, ha] at ha'
      obtain rfl := Option.some.inj ha'
      obtain rfl : p = q := Option.some.inj (hpeer.symm.trans hpeer')
      have hlink : linkOf p (.peerDisconnected p) = some .disconnected := if_pos rfl
      rw [hlink]
      exact ⟨fun _ => rfl, fun _ => rfl⟩
    · rename_i hj
      have hqp : p ≠ q := by
        rintro rfl
        exact hj (Option.some.inj (hq.symm.trans hp))
      have hlink : linkOf q (.peerDisconnected p) = none := if_neg hqp
      rw [hlink]
      exact h.offline q j b hq hb
  · intro hfalse
    rw [htrack] at hfalse
    cases hfalse

theorem Sound.see (h : Sound c m seen) {e : NetworkEvent}
    (hlink : ∀ q id, m.peerToAgent.lookup q = some id →
      linkOf q e = none ∨ linkOf q e = some .connected ∧ lastLink q seen ≠ some .disconnected) :
    Sound c m (seen ++ [e]) := by
  refine h.steady (Steady.refl m) h.history ?_
  intro q id hq
  rw [lastLink_append]
  rcases hlink q id hq with hnone | ⟨hconnected, hlast⟩
  · rw [hnone]
    exact Iff.rfl
  · rw [hconnected]
    exact ⟨by rintro ⟨⟩, fun h => absurd h hlast⟩

end Sound

/-! ## One call -/

section Step

variable {c : SwarmManagerConfig} {m m' : SwarmManager} {seen : List NetworkEvent} {i : Input}

theorem step_done (h : i.call c [] m = .done () m') : step c ⟨m, false⟩ i = ⟨m', false⟩ := by
  unfold step
  simp only [h]
  rfl

theorem step_stuck {lock : MapLock} (h : i.call c [] m = .stuck lock m') :
    step c ⟨m, false⟩ i = ⟨m', true⟩ := by
  unfold step
  simp only [h]
  rfl

/-- An event that is tracked completes, unless an unknown peer advertises its resources. -/
theorem network_done (d : Draw) (e : NetworkEvent)
    (h : Introduced c ⟨m, false⟩ (.network d e)) :
    ∃ m', SwarmManager.handleNetworkEvent c d e [] m = .done () m' := by
  cases htrack : c.trackRemotePeers with
  | false => exact ⟨m, SwarmManager.handle_untracked htrack e⟩
  | true =>
      cases e with
      | peerConnected p =>
          cases hp : m.peerToAgent.lookup p with
          | none => exact ⟨_, SwarmManager.handle_connected_unknown htrack hp⟩
          | some id => exact ⟨_, SwarmManager.handle_connected_known htrack hp⟩
      | peerDisconnected p =>
          cases hp : m.peerToAgent.lookup p with
          | none => exact ⟨_, SwarmManager.handle_disconnected_unknown htrack hp⟩
          | some id => exact ⟨_, SwarmManager.handle_disconnected_known htrack hp⟩
      | resourceAdvertised p r =>
          obtain ⟨id, hp⟩ := Option.ne_none_iff_exists'.1 (h htrack)
          exact ⟨_, SwarmManager.handle_advertised_known htrack hp r⟩
      | other description => exact ⟨_, SwarmManager.handle_other htrack description⟩

theorem not_introduced (h : ¬ Introduced c ⟨m, false⟩ i) :
    ∃ d p r, i = .network d (.resourceAdvertised p r) ∧ c.trackRemotePeers = true ∧
      m.peerToAgent.lookup p = none := by
  cases i with
  | network d e =>
      cases e with
      | resourceAdvertised p r =>
          simp only [Introduced, not_forall, not_not] at h
          obtain ⟨htrack, hp⟩ := h
          exact ⟨d, p, r, rfl, htrack, hp⟩
      | _ => exact absurd trivial h
  | _ => exact absurd trivial h

/-- A call completes unless an unknown peer advertises its resources. -/
theorem hung_step_iff (i : Input) :
    (step c ⟨m, false⟩ i).hung = false ↔ Introduced c ⟨m, false⟩ i := by
  constructor
  · intro hrunning
    by_contra hnot
    obtain ⟨d, p, r, rfl, htrack, hp⟩ := not_introduced hnot
    have hstuck : (Input.network d (.resourceAdvertised p r)).call c [] m = _ :=
      SwarmManager.handle_advertised_unknown htrack hp r
    rw [step_stuck hstuck] at hrunning
    cases hrunning
  · intro hintro
    have hdone : ∃ m', i.call c [] m = .done () m' := by
      cases i with
      | network d e => exact network_done d e hintro
      | registerLocal d name profile => exact ⟨_, rfl⟩
      | recordAction d action =>
          obtain ⟨m', hdone, -⟩ := record_done c d action m
          exact ⟨m', hdone⟩
      | recordJob d id actionType description success =>
          obtain ⟨m', -, hdone, -⟩ := recordJob_done c d id actionType description success m
          exact ⟨m', hdone⟩
    obtain ⟨m', hdone⟩ := hdone
    rw [step_done hdone]

theorem sound_network (h : Sound c m seen) (d : Draw) (e : NetworkEvent)
    (hfresh : m.agents.lookup d.newV4 = none) (hintro : Introduced c ⟨m, false⟩ (.network d e))
    (hconstant : Constant c (⟨m, false⟩, seen) (.network d e)) :
    ∃ m', SwarmManager.handleNetworkEvent c d e [] m = .done () m' ∧
      Sound c m' (seen ++ [e]) := by
  cases htrack : c.trackRemotePeers with
  | false =>
      refine ⟨m, SwarmManager.handle_untracked htrack e, h.see fun q id hq => ?_⟩
      rw [h.untracked htrack q] at hq
      cases hq
  | true =>
      cases e with
      | peerConnected p =>
          cases hp : m.peerToAgent.lookup p with
          | none =>
              exact ⟨_, SwarmManager.handle_connected_unknown htrack hp, h.join hfresh hp htrack⟩
          | some id =>
              have hlast : lastLink p seen ≠ some .disconnected :=
                hconstant htrack (by rw [hp]; exact Option.some_ne_none id)
              refine ⟨_, SwarmManager.handle_connected_known htrack hp, h.see fun q _ _ => ?_⟩
              by_cases hqp : p = q
              · subst hqp
                exact .inr ⟨if_pos rfl, hlast⟩
              · exact .inl (if_neg hqp)
      | peerDisconnected p =>
          cases hp : m.peerToAgent.lookup p with
          | none =>
              refine ⟨_, SwarmManager.handle_disconnected_unknown htrack hp, h.see fun q id hq => ?_⟩
              refine .inl (if_neg ?_)
              rintro rfl
              rw [hp] at hq
              cases hq
          | some id =>
              exact ⟨_, SwarmManager.handle_disconnected_known htrack hp, h.disconnect hp htrack⟩
      | resourceAdvertised p r =>
          obtain ⟨id, hp⟩ := Option.ne_none_iff_exists'.1 (hintro htrack)
          refine ⟨_, SwarmManager.handle_advertised_known htrack hp r, ?_⟩
          have hseen : Sound c m (seen ++ [.resourceAdvertised p r]) := h.see fun _ _ _ => .inl rfl
          have hsteady : Steady m (m.setAgents (·.update id
              (SwarmAgent.advertise d (r.capabilities.map AgentCapability.ofCapability)))) :=
            Steady.update m id fun _ => rfl
          exact hseen.steady hsteady h.history fun _ _ _ => Iff.rfl
      | other description =>
          exact ⟨_, SwarmManager.handle_other htrack description, h.see fun _ _ _ => .inl rfl⟩

theorem sound_step (h : Sound c m seen) (hfresh : Fresh ⟨m, false⟩ i)
    (hintro : Introduced c ⟨m, false⟩ i) (hconstant : Constant c (⟨m, false⟩, seen) i) :
    ∃ m', step c ⟨m, false⟩ i = ⟨m', false⟩ ∧ Sound c m' (seen ++ i.events) := by
  cases i with
  | network d e =>
      obtain ⟨m', hdone, hsound⟩ := sound_network h d e hfresh hintro hconstant
      exact ⟨m', step_done hdone, hsound⟩
  | registerLocal d name profile =>
      refine ⟨_, step_done rfl, ?_⟩
      show Sound c _ (seen ++ [])
      rw [List.append_nil]
      exact h.registerLocal hfresh name profile
  | recordAction d action =>
      obtain ⟨m', hdone, hsteady, hhistory⟩ := record_done c d action m
      refine ⟨m', step_done hdone, h.steady hsteady ?_ fun p _ _ => ?_⟩
      · rw [hhistory]
        exact pushAction_length h.history
      · have hnil : seen ++ [] = seen := List.append_nil seen
        exact hnil.symm ▸ Iff.rfl
  | recordJob d id actionType description success =>
      obtain ⟨m', action, hdone, hsteady, hhistory⟩ :=
        recordJob_done c d id actionType description success m
      refine ⟨m', step_done hdone, h.steady hsteady ?_ fun p _ _ => ?_⟩
      · rw [hhistory]
        exact pushAction_length h.history
      · have hnil : seen ++ [] = seen := List.append_nil seen
        exact hnil.symm ▸ Iff.rfl

/-- A call that leaves peers and agents as they should be has kept the conditions. -/
theorem kept_of_faithful (h : Sound c m seen) (hfresh : Fresh ⟨m, false⟩ i)
    (hafter : Faithful c (watch c (⟨m, false⟩, seen) i)) :
    Introduced c ⟨m, false⟩ i ∧ Constant c (⟨m, false⟩, seen) i := by
  constructor
  · by_contra hnot
    obtain ⟨d, p, r, rfl, htrack, hp⟩ := not_introduced hnot
    have hstuck : (Input.network d (.resourceAdvertised p r)).call c [] m = _ :=
      SwarmManager.handle_advertised_unknown htrack hp r
    have hstep : (watch c (⟨m, false⟩, seen) (.network d (.resourceAdvertised p r))).1 =
        ⟨SwarmManager.orphan d p (some r) m, true⟩ := step_stuck hstuck
    -- the agent that was made is that of no peer
    have hagents := hafter.agents d.newV4 (SwarmManager.peerAgent d p (some r))
    rw [hstep] at hagents
    obtain ⟨q, hq, -⟩ := hagents (Finmap.lookup_insert _) rfl
    obtain ⟨a, ha, -⟩ := h.known q d.newV4 hq
    have hnone : m.agents.lookup d.newV4 = none := hfresh
    rw [hnone] at ha
    cases ha
  · cases i with
    | network d e =>
        cases e with
        | peerConnected p =>
            intro htrack hknown hlast
            obtain ⟨id, hp⟩ := Option.ne_none_iff_exists'.1 hknown
            obtain ⟨a, ha, -⟩ := h.known p id hp
            have hdone : (Input.network d (.peerConnected p)).call c [] m = .done () m :=
              SwarmManager.handle_connected_known htrack hp
            have hstep : (watch c (⟨m, false⟩, seen) (.network d (.peerConnected p))).1 =
                ⟨m, false⟩ := step_done hdone
            have hoffline := hafter.offline p id a
            rw [hstep] at hoffline
            have hnow := (hoffline hp ha).1 ((h.offline p id a hp ha).2 hlast)
            have hseen : lastLink p (seen ++ [.peerConnected p]) = some .disconnected := hnow
            have hlink : linkOf p (.peerConnected p) = some .connected := if_pos rfl
            rw [lastLink_append, hlink] at hseen
            cases hseen
        | _ => trivial
    | _ => trivial

end Step

/-! ## Whole runs -/

/-- **Which calls complete.**  In every run of the manager no call ever waits for a lock that it
holds itself, and every call completes, exactly when along the run no peer that is not known
advertises its resources. -/
theorem never_stuck_iff (c : SwarmManagerConfig) (inputs : List Input) :
    Machine.Always (step c) (fun s : State => s.hung = false) .new inputs ↔
      Machine.Along (step c) (Introduced c) .new inputs := by
  refine Machine.always_iff_along (I := fun s : State => s.hung = false) (R := fun _ _ => True)
    (fun s h => h) ?_ (fun s i _ _ h => h) rfl Machine.along_true
  rintro ⟨m, hung⟩ i rfl -
  exact hung_step_iff i

/-- A peer advertises its resources. -/
def advertisement : Input :=
  .network ⟨1, .epoch⟩ (.resourceAdvertised "12D3KooWPeer"
    ⟨"12D3KooWPeer", 0, [], ⟨0, 0, none, 0, 0, 0⟩, [.inference], [], 0⟩)

/-- **An advertisement before the connection.**  A peer that is not known advertises its
resources, and the call waits for a lock that it holds itself. -/
theorem advertisement_hangs :
    ¬ Machine.Always (step .default) (fun s => s.hung = false) .new [advertisement] := by
  intro hrun
  have hstuck : advertisement.call .default [] .new = .stuck .peerToAgent _ :=
    SwarmManager.handle_advertised_unknown rfl rfl _
  have hlast : (step .default ⟨.new, false⟩ advertisement).hung = false := hrun.last
  rw [step_stuck hstuck] at hlast
  cases hlast

/-- **Peers and their agents.**  Fresh ids given, in every run of the manager peers and remote
agents are in bijection, the history is within its bound, and the agent of a peer is offline
exactly when the last that was seen of the peer was a disconnection, in every state, exactly when
along the run no peer that is not known advertises its resources and no known peer connects
again after a disconnection. -/
theorem agents_faithful_iff (c : SwarmManagerConfig) (inputs : List Input)
    (hfresh : Machine.Along (watch c) (fun w => Fresh w.1) (.new, []) inputs) :
    Machine.Always (watch c) (Faithful c) (.new, []) inputs ↔
      Machine.Along (watch c) (fun w i => Introduced c w.1 i ∧ Constant c w i) (.new, []) inputs := by
  have hkeep : ∀ w i, w.1.hung = false ∧ Sound c w.1.manager w.2 → Fresh w.1 i →
      Introduced c w.1 i ∧ Constant c w i →
      (watch c w i).1.hung = false ∧ Sound c (watch c w i).1.manager (watch c w i).2 := by
    rintro ⟨⟨m, hung⟩, seen⟩ i ⟨rfl, hsound⟩ hnew ⟨hintro, hconstant⟩
    obtain ⟨m', hstep, hsound'⟩ := sound_step hsound hnew hintro hconstant
    have hwatch : watch c (⟨m, false⟩, seen) i = (⟨m', false⟩, seen ++ i.events) := by
      rw [← hstep]
      rfl
    rw [hwatch]
    exact ⟨rfl, hsound'⟩
  have hkept : ∀ w i, w.1.hung = false ∧ Sound c w.1.manager w.2 → Fresh w.1 i →
      Faithful c (watch c w i) → Introduced c w.1 i ∧ Constant c w i := by
    rintro ⟨⟨m, hung⟩, seen⟩ i ⟨rfl, hsound⟩ hnew hafter
    exact kept_of_faithful hsound hnew hafter
  refine Machine.always_iff_along
    (I := fun w => w.1.hung = false ∧ Sound c w.1.manager w.2) (fun w h => h.2.faithful) ?_ ?_
    ⟨rfl, sound_new c⟩ hfresh
  · intro w i h hnew
    exact ⟨hkept w i h hnew, fun hcond => (hkeep w i h hnew hcond).2.faithful⟩
  · intro w i h hnew hafter
    exact hkeep w i h hnew (hkept w i h hnew hafter)

/-- A peer connects and disconnects. -/
def visit : List Input :=
  [.network ⟨1, .epoch⟩ (.peerConnected "12D3KooWPeer"),
    .network ⟨2, .epoch⟩ (.peerDisconnected "12D3KooWPeer")]

theorem visit_faithful : Machine.Always (watch .default) (Faithful .default) (.new, []) visit :=
  (agents_faithful_iff .default visit ⟨rfl, rfl, trivial⟩).2
    ⟨⟨trivial, fun _ hknown => absurd rfl hknown⟩, ⟨trivial, trivial⟩, trivial⟩

/-- **A peer that comes back stays offline.** -/
theorem reconnected_offline :
    ¬ Machine.Always (watch .default) (Faithful .default) (.new, [])
      (visit ++ [.network ⟨3, .epoch⟩ (.peerConnected "12D3KooWPeer")]) := by
  intro hrun
  have hagent : ((Machine.run (watch .default) (.new, [])
      (visit ++ [.network ⟨3, .epoch⟩ (.peerConnected "12D3KooWPeer")])).1.manager.agents.lookup
        1).map (·.state) = some .offline := rfl
  obtain ⟨a, ha, hoffline⟩ := Option.map_eq_some_iff.1 hagent
  have hlast := (hrun.last.offline "12D3KooWPeer" 1 a rfl ha).1 hoffline
  have hconnected : lastLink "12D3KooWPeer" (Machine.run (watch .default) (.new, [])
      (visit ++ [.network ⟨3, .epoch⟩ (.peerConnected "12D3KooWPeer")])).2 = some .connected := rfl
  rw [hconnected] at hlast
  cases hlast

end Swarm
end PeerClaw
