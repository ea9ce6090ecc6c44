import Mathlib.Data.Finset.Basic
import PeerClaw.Lib.Machine

/-!
# Connected peers

The swarm reports each connection that is established and each that is closed, and two peers that
dial each other have two.  The network keeps a set of peers and the web server a list; neither
counts connections.

* `PeerTable.step` — what an event does to both.
* `connected_iff` — in every run both have exactly the peers that have a connection, and the list
  has each once, exactly when no connection is established to a peer that has one.
* `second_connection_lost` — two connections with a peer, of which one is closed.
-/

namespace PeerClaw

open Lib Lib.Machine

/-- `SwarmEvent`, as far as it is about connections. -/
inductive ConnectionEvent (PeerId ConnectionId : Type)
  | connectionEstablished (peerId : PeerId) (connectionId : ConnectionId)
  | connectionClosed (peerId : PeerId) (connectionId : ConnectionId)
  /-- Any other event. -/
  | other

/-- `NetworkEvent`, as far as the web server reads it. -/
inductive PeerEvent (PeerId : Type)
  | peerConnected (peerId : PeerId)
  | peerDisconnected (peerId : PeerId)

/-- What the node knows of its peers. -/
structure PeerTable (PeerId ConnectionId : Type) where
  /-- `Network::connected_peers`. -/
  connectedPeers : Finset PeerId
  /-- `connected_peers` of the web state. -/
  web : List PeerId
  /-- The connections that are established; nobody keeps them. -/
  connections : Finset (ConnectionId × PeerId)

namespace PeerTable

variable {PeerId ConnectionId : Type} [DecidableEq PeerId] [DecidableEq ConnectionId]

/-- `Network::handle_swarm_event_internal`. -/
def handleSwarmEvent (connectedPeers : Finset PeerId) :
    ConnectionEvent PeerId ConnectionId → Finset PeerId × Option (PeerEvent PeerId)
  | .connectionEstablished peerId _ => (insert peerId connectedPeers, some (.peerConnected peerId))
  | .connectionClosed peerId _ => (connectedPeers.erase peerId, some (.peerDisconnected peerId))
  | .other => (connectedPeers, none)

/-- What the serve loop does to the list of the web state. -/
def updateWeb (web : List PeerId) : Option (PeerEvent PeerId) → List PeerId
  | some (.peerConnected peerId) => web ++ [peerId]
  | some (.peerDisconnected peerId) => web.filter fun p => p ≠ peerId
  | none => web

/-- The connections after an event. -/
def connectionsAfter (connections : Finset (ConnectionId × PeerId)) :
    ConnectionEvent PeerId ConnectionId → Finset (ConnectionId × PeerId)
  | .connectionEstablished peerId connectionId => insert (connectionId, peerId) connections
  | .connectionClosed peerId connectionId => connections.erase (connectionId, peerId)
  | .other => connections

/-- The loop handles an event. -/
def step (t : PeerTable PeerId ConnectionId) (e : ConnectionEvent PeerId ConnectionId) :
    PeerTable PeerId ConnectionId where
  connectedPeers := (handleSwarmEvent t.connectedPeers e).1
  web := updateWeb t.web (handleSwarmEvent t.connectedPeers e).2
  connections := connectionsAfter t.connections e

/-- A node without connections. -/
def empty : PeerTable PeerId ConnectionId := ⟨∅, [], ∅⟩

/-- `TaskExecutor::execute_remote` executes locally where there are no connected peers. -/
def executesLocally (t : PeerTable PeerId ConnectionId) : Bool := t.connectedPeers = ∅

/-! ## What should hold -/

/-- The peer has a connection. -/
def Connected (t : PeerTable PeerId ConnectionId) (p : PeerId) : Prop :=
  ∃ c, (c, p) ∈ t.connections

/-- The set and the list have exactly the peers with a connection, and the list has none twice. -/
structure Accurate (t : PeerTable PeerId ConnectionId) : Prop where
  set : ∀ p, p ∈ t.connectedPeers ↔ t.Connected p
  list : ∀ p, p ∈ t.web ↔ t.Connected p
  nodup : t.web.Nodup

/-- No peer has two connections. -/
def Single (t : PeerTable PeerId ConnectionId) : Prop :=
  ∀ p c c', (c, p) ∈ t.connections → (c', p) ∈ t.connections → c = c'

/-- What the swarm reports: a new connection has a new number, and it is an established connection
that is closed. -/
def Reported (t : PeerTable PeerId ConnectionId) : ConnectionEvent PeerId ConnectionId → Prop
  | .connectionEstablished _ connectionId => ∀ p, (connectionId, p) ∉ t.connections
  | .connectionClosed peerId connectionId => (connectionId, peerId) ∈ t.connections
  | .other => True

/-- No connection is established to a peer that has one. -/
def First (t : PeerTable PeerId ConnectionId) : ConnectionEvent PeerId ConnectionId → Prop
  | .connectionEstablished peerId _ => ¬ t.Connected peerId
  | _ => True

section Steps

variable {t : PeerTable PeerId ConnectionId} {p : PeerId} {c : ConnectionId}

theorem connected_established {q : PeerId} :
    (t.step (.connectionEstablished p c)).Connected q ↔ q = p ∨ t.Connected q := by
  show (∃ c', (c', q) ∈ insert (c, p) t.connections) ↔ _
  simp only [Finset.mem_insert, Prod.mk.injEq]
  constructor
  · rintro ⟨c', ⟨-, rfl⟩ | hold⟩
    · exact .inl rfl
    · exact .inr ⟨c', hold⟩
  · rintro (rfl | ⟨c', hold⟩)
    · exact ⟨c, .inl ⟨rfl, rfl⟩⟩
    · exact ⟨c', .inr hold⟩

theorem connected_closed (hs : t.Single) (hc : (c, p) ∈ t.connections) {q : PeerId} :
    (t.step (.connectionClosed p c)).Connected q ↔ q ≠ p ∧ t.Connected q := by
  show (∃ c', (c', q) ∈ t.connections.erase (c, p)) ↔ _
  simp only [Finset.mem_erase, ne_eq, Prod.mk.injEq]
  constructor
  · rintro ⟨c', hne, hold⟩
    refine ⟨?_, c', hold⟩
    rintro rfl
    exact hne ⟨hs q c' c hold hc, rfl⟩
  · rintro ⟨hne, c', hold⟩
    exact ⟨c', fun hsame => hne hsame.2, hold⟩

/-- The list is accurate after a new connection exactly if it is the first one of its peer. -/
theorem accurate_established_iff (h : t.Accurate) :
    (t.step (.connectionEstablished p c)).Accurate ↔ ¬ t.Connected p := by
  constructor
  · intro hnext hconnected
    have hnodup : (t.web ++ [p]).Nodup := hnext.nodup
    exact (List.nodup_append.1 hnodup).2.2 p ((h.list p).2 hconnected) p (List.mem_singleton_self p)
      rfl
  · intro hfirst
    refine ⟨fun q => ?_, fun q => ?_, ?_⟩
    · rw [connected_established, ← h.set]
      exact Finset.mem_insert
    · rw [connected_established, ← h.list]
      show q ∈ t.web ++ [p] ↔ _
      rw [List.mem_append, List.mem_singleton, or_comm]
    · refine List.nodup_append.2 ⟨h.nodup, List.nodup_singleton p, ?_⟩
      rintro q hq q' hq' rfl
      rw [List.mem_singleton.1 hq'] at hq
      exact hfirst ((h.list p).1 hq)

theorem accurate_closed (h : t.Accurate) (hs : t.Single) (hc : (c, p) ∈ t.connections) :
    (t.step (.connectionClosed p c)).Accurate := by
  refine ⟨fun q => ?_, fun q => ?_, ?_⟩
  · rw [connected_closed hs hc, ← h.set]
    exact Finset.mem_erase
  · rw [connected_closed hs hc, ← h.list]
    show q ∈ t.web.filter (fun r => r ≠ p) ↔ _
    rw [List.mem_filter, decide_eq_true_iff, and_comm]
  · exact h.nodup.filter _

/-- A peer that gets its first connection, or loses one, has at most one. -/
theorem single_step (hs : t.Single) {e : ConnectionEvent PeerId ConnectionId} (hfirst : t.First e) :
    (t.step e).Single := by
  cases e with
  | other => exact hs
  | connectionClosed p c =>
      intro q c₁ c₂ h₁ h₂
      exact hs q c₁ c₂ (Finset.mem_of_mem_erase h₁) (Finset.mem_of_mem_erase h₂)
  | connectionEstablished p c =>
      intro q c₁ c₂ h₁ h₂
      have hcases : ∀ {c'}, (c', q) ∈ insert (c, p) t.connections →
          c' = c ∧ q = p ∨ (c', q) ∈ t.connections := by
        intro c' hc'
        rcases Finset.mem_insert.1 hc' with heq | hold
        · exact .inl (Prod.mk.inj heq)
        · exact .inr hold
      rcases hcases h₁ with ⟨rfl, rfl⟩ | hold₁
      · rcases hcases h₂ with ⟨rfl, -⟩ | hold₂
        · rfl
        · exact absurd ⟨c₂, hold₂⟩ hfirst
      · rcases hcases h₂ with ⟨rfl, rfl⟩ | hold₂
        · exact absurd ⟨c₁, hold₁⟩ hfirst
        · exact hs q c₁ c₂ hold₁ hold₂

theorem accurate_step_iff (h : t.Accurate) (hs : t.Single)
    {e : ConnectionEvent PeerId ConnectionId} (he : t.Reported e) :
    (t.step e).Accurate ↔ t.First e := by
  cases e with
  | other => exact iff_of_true h trivial
  | connectionClosed p c => exact iff_of_true (accurate_closed h hs he) trivial
  | connectionEstablished p c => exact accurate_established_iff h

end Steps

omit [DecidableEq PeerId] [DecidableEq ConnectionId] in
theorem not_connected_empty (p : PeerId) :
    ¬ (empty : PeerTable PeerId ConnectionId).Connected p := by
  rintro ⟨c, hc⟩
  exact Finset.notMem_empty _ hc

/-- **Both are accurate in every run** of reported events exactly as long as no peer gets a second
connection. -/
theorem connected_iff (es : List (ConnectionEvent PeerId ConnectionId))
    (h : Along step Reported empty es) :
    Always step Accurate empty es ↔ Along step First empty es := by
  refine always_iff_along (I := fun t => t.Accurate ∧ t.Single) (fun t hI => hI.1)
    (fun t e hI he => accurate_step_iff hI.1 hI.2 he)
    (fun t e hI he hnext => ⟨hnext, single_step hI.2 ((accurate_step_iff hI.1 hI.2 he).1 hnext)⟩)
    ⟨⟨fun p => ?_, fun p => ?_, List.nodup_nil⟩, fun p c c' hc => absurd hc (Finset.notMem_empty _)⟩
    h
  · exact iff_of_false (Finset.notMem_empty p) (not_connected_empty p)
  · exact iff_of_false List.not_mem_nil (not_connected_empty p)

section Example

private abbrev peer : String := "12D3KooWPeer"

/-- A peer that connects, leaves and connects again. -/
private def reconnected : List (ConnectionEvent String ℕ) :=
  [.connectionEstablished peer 1, .connectionClosed peer 1, .connectionEstablished peer 2]

/-- With one connection after the other, both are accurate. -/
theorem connected_again : Always step Accurate empty reconnected := by
  refine (connected_iff reconnected ⟨?_, ?_, ?_, trivial⟩).2 ⟨?_, trivial, ?_, trivial⟩
  · exact fun p => Finset.notMem_empty _
  · exact Finset.mem_insert_self _ _
  · intro p
    simp [connectionsAfter, step, empty]
  · exact not_connected_empty peer
  · rintro ⟨c, hc⟩
    simp [connectionsAfter, step, empty] at hc

/-- Two connections with a peer, of which one is closed. -/
private def dialedTwice : List (ConnectionEvent String ℕ) :=
  [.connectionEstablished peer 1, .connectionEstablished peer 2, .connectionClosed peer 1]

/-- **Both sides dial**: the peer is listed twice, and when one of the two connections is closed,
it is in neither, and the tasks stay here. -/
theorem second_connection_lost : Along step Reported empty dialedTwice ∧
    ¬ Always step Accurate empty dialedTwice ∧
    (2, peer) ∈ (run step empty dialedTwice).connections ∧
    (run step empty dialedTwice).executesLocally = true := by
  refine ⟨⟨fun p => Finset.notMem_empty _, fun p hp => ?_, ?_, trivial⟩, fun h => ?_, ?_, ?_⟩
  · simp [connectionsAfter, step, empty] at hp
  · exact Finset.mem_insert_of_mem (Finset.mem_insert_self _ _)
  · have htwice := (h [.connectionEstablished peer 1, .connectionEstablished peer 2]
      [.connectionClosed peer 1] rfl).nodup
    revert htwice
    decide
  · decide
  · decide

end Example

end PeerTable
end PeerClaw
