import PeerClaw.Value
import PeerClaw.Time
import PeerClaw.Lib.Guards
import PeerClaw.Inference.Batch
import PeerClaw.Runtime.Signing

/-!
# The swarm manager

`swarm/manager.rs`: the agents of the swarm, local and remote, by id, and the id
of the agent of every known peer.  Each map has a lock of its own, and a guard
lives as long as the expression that it stands in: in the condition of an
`if let`, until the end of the whole `if let`, `else` included.

* `registerPeerAgent` — the agent of a peer, made if there is none.
* `handleNetworkEvent` — what a network event does.
* `Swarm.step` — the manager after a call; once a call is stuck there is no next
  one.

A peer is known by the text of its id.  Profiles keep what the events write, and
nothing reads what is broadcast.
-/

namespace PeerClaw
namespace Swarm

open Lib Lib.Guarded
open Inference (Uuid)

/-! ## Agents -/

inductive AgentCapability
  | inference
  | gpuAcceleration
  | wasmSandbox
  | storage
  | relay
  | webAccess
  | vectorMemory
  | toolBuilding
  | mcpServer
  | model (name : String)
  | custom (name : String)
  deriving DecidableEq

/-- Convert from the capability of a peer. -/
def AgentCapability.ofCapability : Capability → AgentCapability
  | .wasmSandbox => .wasmSandbox
  | .inference => .inference
  | .storage => .storage
  | .relay => .relay
  | .webProxy => .webAccess
  | .llmProvider => .inference

/-- Agent profile. -/
structure AgentProfile where
  displayName : Option String
  capabilities : List AgentCapability
  deriving DecidableEq

/-- `AgentProfile::default`. -/
def AgentProfile.default : AgentProfile := ⟨none, []⟩

/-- Create profile from peer capabilities. -/
def AgentProfile.fromCapabilities (capabilities : List AgentCapability) : AgentProfile :=
  { AgentProfile.default with capabilities := capabilities }

/-- Agent state machine. -/
inductive SwarmAgentState
  | idle
  | thinking
  | working (task : String)
  | waiting (reason : String)
  | error (message : String)
  | offline
  deriving DecidableEq

/-- A swarm agent. -/
structure SwarmAgent where
  id : Uuid
  peerId : Option String
  name : String
  profile : AgentProfile
  state : SwarmAgentState
  actionCount : UInt64
  jobsCompleted : UInt64
  jobsFailed : UInt64
  createdAt : DateTime
  lastActiveAt : DateTime
  isLocal : Bool
  deriving DecidableEq

/-- What a call draws. -/
structure Draw where
  /-- `Uuid::new_v4`. -/
  newV4 : Uuid
  /-- `Utc::now`. -/
  now : DateTime

namespace SwarmAgent

/-- Create a new local agent. -/
def newLocal (d : Draw) (name : String) (profile : AgentProfile) : SwarmAgent where
  id := d.newV4
  peerId := none
  name := name
  profile := profile
  state := .idle
  actionCount := 0
  jobsCompleted := 0
  jobsFailed := 0
  createdAt := d.now
  lastActiveAt := d.now
  isLocal := true

/-- Create an agent from a discovered peer; it is named by the first 8 characters of its id. -/
def fromPeer (d : Draw) (peerId : String) (profile : AgentProfile) : SwarmAgent where
  id := d.newV4
  peerId := some peerId
  name := "Peer-" ++ String.ofList (peerId.toList.take 8)
  profile := profile
  state := .idle
  actionCount := 0
  jobsCompleted := 0
  jobsFailed := 0
  createdAt := d.now
  lastActiveAt := d.now
  isLocal := false

/-- Update agent state. -/
def setState (d : Draw) (state : SwarmAgentState) (a : SwarmAgent) : SwarmAgent :=
  { a with state := state, lastActiveAt := d.now }

/-- Record an action. -/
def recordAction (d : Draw) (a : SwarmAgent) : SwarmAgent :=
  { a with actionCount := a.actionCount + 1, lastActiveAt := d.now }

/-- Record job completion. -/
def recordJobResult (d : Draw) (success : Bool) (a : SwarmAgent) : SwarmAgent :=
  if success then { a with jobsCompleted := a.jobsCompleted + 1, lastActiveAt := d.now }
  else { a with jobsFailed := a.jobsFailed + 1, lastActiveAt := d.now }

/-- Take over the capabilities of a manifest. -/
def advertise (d : Draw) (capabilities : List AgentCapability) (a : SwarmAgent) : SwarmAgent :=
  { a with
    profile := { a.profile with capabilities := capabilities }
    lastActiveAt := d.now }

end SwarmAgent

/-! ## Actions and events -/

/-- Types of actions agents can perform. -/
inductive ActionType
  | jobCompleted
  | jobFailed
  /-- Any other, by its name. -/
  | other (name : String)
  deriving DecidableEq

/-- An action performed by an agent. -/
structure AgentAction where
  id : Uuid
  agentId : Uuid
  agentName : String
  actionType : ActionType
  description : String
  success : Bool
  timestamp : DateTime
  deriving DecidableEq

inductive NetworkEvent
  | peerConnected (peerId : String)
  | peerDisconnected (peerId : String)
  | resourceAdvertised (peerId : String) (manifest : ResourceManifest)
  /-- Discoveries, messages and requests, which the manager leaves alone. -/
  | other (description : String)
  deriving DecidableEq

/-! ## The manager -/

/-- Configuration for the swarm manager. -/
structure SwarmManagerConfig where
  maxActionHistory : ℕ
  trackRemotePeers : Bool

/-- `SwarmManagerConfig::default`. -/
def SwarmManagerConfig.default : SwarmManagerConfig := ⟨1000, true⟩

/-- What the manager keeps. -/
structure SwarmManager where
  agents : FiniteMap Uuid SwarmAgent
  peerToAgent : FiniteMap String Uuid
  actionHistory : List AgentAction
  totalActions : UInt64
  totalJobs : UInt64

/-- `SwarmManager::new`. -/
def SwarmManager.new : SwarmManager := ⟨∅, ∅, [], 0, 0⟩

/-- The locks of the manager. -/
inductive MapLock
  | agents
  | peerToAgent
  | actionHistory
  | stats
  deriving DecidableEq

/-- A call of a method. -/
abbrev Call (α : Type) := Guarded MapLock SwarmManager α

namespace SwarmManager

/-- Change the agents. -/
def setAgents (f : FiniteMap Uuid SwarmAgent → FiniteMap Uuid SwarmAgent) (m : SwarmManager) :
    SwarmManager := { m with agents := f m.agents }

/-- Register a local agent. -/
def registerLocalAgent (d : Draw) (name : String) (profile : AgentProfile) : Call Uuid := do
  let agent := SwarmAgent.newLocal d name profile
  writing .agents (modify (setAgents (·.insert agent.id agent)))
  return agent.id

/-- The agent of a peer. -/
def agentOf (peerId : String) : Call (Option Uuid) := do
  return (← get).peerToAgent.lookup peerId

/-- The agent that is made for a peer: its profile is built from the manifest, if there is one. -/
def peerAgent (d : Draw) (peerId : String) (manifest : Option ResourceManifest) : SwarmAgent :=
  let profile :=
    match manifest with
    | some manifest =>
        AgentProfile.fromCapabilities (manifest.capabilities.map AgentCapability.ofCapability)
    | none => AgentProfile.default
  SwarmAgent.fromPeer d peerId profile

/-- Register an agent from a discovered peer. -/
def registerPeerAgent (d : Draw) (peerId : String) (manifest : Option ResourceManifest) :
    Call Uuid := do
  -- the guard of this condition is gone after it: its only branch returns
  match ← reading .peerToAgent (agentOf peerId) with
  | some existing => return existing
  | none =>
      let agent := peerAgent d peerId manifest
      writing .agents (modify (setAgents (·.insert agent.id agent)))
      writing .peerToAgent (modify fun m =>
        { m with peerToAgent := m.peerToAgent.insert peerId agent.id })
      return agent.id

/-- Update agent state. -/
def updateAgentState (d : Draw) (agentId : Uuid) (newState : SwarmAgentState) : Call Unit :=
  writing .agents (modify (setAgents (·.update agentId (SwarmAgent.setState d newState))))

/-- Put an action at the end of the history, and drop the oldest when it is full. -/
def pushAction (c : SwarmManagerConfig) (action : AgentAction) (history : List AgentAction) :
    List AgentAction :=
  let history := history ++ [action]
  if history.length > c.maxActionHistory then history.tail else history

/-- Record an action. -/
def recordAction (c : SwarmManagerConfig) (d : Draw) (action : AgentAction) : Call Unit := do
  writing .agents (modify (setAgents (·.update action.agentId (SwarmAgent.recordAction d))))
  writing .stats (modify fun m => { m with totalActions := m.totalActions + 1 })
  writing .actionHistory (modify fun m =>
    { m with actionHistory := pushAction c action m.actionHistory })

/-- Record a job-related action. -/
def recordJobAction (c : SwarmManagerConfig) (d : Draw) (agentId : Uuid) (actionType : ActionType)
    (description : String) (success : Bool) : Call Unit := do
  let agentName ← reading .agents do
    return (((← get).agents.lookup agentId).map (·.name)).getD "Unknown"
  if actionType = .jobCompleted ∨ actionType = .jobFailed then
    writing .stats (modify fun m => { m with totalJobs := m.totalJobs + 1 })
    writing .agents (modify (setAgents (·.update agentId (SwarmAgent.recordJobResult d success))))
  recordAction c d ⟨d.newV4, agentId, agentName, actionType, description, success, d.now⟩

/-- The agent of a peer that advertises its resources.  The guard of the condition is held in
both branches. -/
def advertisedAgent (d : Draw) (peerId : String) (manifest : ResourceManifest) : Call Uuid :=
  reading .peerToAgent do
    match ← agentOf peerId with
    | some id => return id
    | none => registerPeerAgent d peerId (some manifest)

/-- Handle a P2P network event. -/
def handleNetworkEvent (c : SwarmManagerConfig) (d : Draw) (event : NetworkEvent) : Call Unit :=
  if !c.trackRemotePeers then return ()
  else
    match event with
    | .peerConnected peerId => do
        let _ ← registerPeerAgent d peerId none
    | .peerDisconnected peerId =>
        reading .peerToAgent do
          match ← agentOf peerId with
          | some agentId => updateAgentState d agentId .offline
          | none => return ()
    | .resourceAdvertised peerId manifest => do
        let agentId ← advertisedAgent d peerId manifest
        let capabilities := manifest.capabilities.map AgentCapability.ofCapability
        writing .agents (modify (setAgents (·.update agentId (SwarmAgent.advertise d capabilities))))
    | .other _ => return ()

end SwarmManager

/-! ## Runs -/

/-- A call on the manager. -/
inductive Input
  | network (d : Draw) (event : NetworkEvent)
  | registerLocal (d : Draw) (name : String) (profile : AgentProfile)
  | recordAction (d : Draw) (action : AgentAction)
  | recordJob (d : Draw) (agentId : Uuid) (actionType : ActionType) (description : String)
      (success : Bool)

/-- What an input calls. -/
def Input.call (c : SwarmManagerConfig) : Input → Call Unit
  | .network d event => SwarmManager.handleNetworkEvent c d event
  | .registerLocal d name profile => do
      let _ ← SwarmManager.registerLocalAgent d name profile
  | .recordAction d action => SwarmManager.recordAction c d action
  | .recordJob d agentId actionType description success =>
      SwarmManager.recordJobAction c d agentId actionType description success

/-- The manager, and whether a call is stuck in it. -/
structure State where
  manager : SwarmManager
  hung : Bool

/-- A new manager. -/
def State.new : State := ⟨.new, false⟩

/-- The manager after a call. -/
def step (c : SwarmManagerConfig) (s : State) (i : Input) : State :=
  if s.hung then s
  else
    match i.call c [] s.manager with
    | .done _ m => ⟨m, false⟩
    | .stuck _ m => ⟨m, true⟩

end Swarm
end PeerClaw
