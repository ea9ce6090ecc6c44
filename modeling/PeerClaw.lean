import PeerClaw.Wallet.Conservation
import PeerClaw.Wallet.Limits
import PeerClaw.Wallet.Active
import PeerClaw.Channel.Balance
import PeerClaw.Channel.Closing
import PeerClaw.Channel.Replay
import PeerClaw.Channel.Settlement
import PeerClaw.Channel.Link
import PeerClaw.Channel.Counters
import PeerClaw.Lib.Registry
import PeerClaw.Channel.Sections
import PeerClaw.Channel.Index
import PeerClaw.Job.Manager
import PeerClaw.Lib.Section
import PeerClaw.Lib.Custody
import PeerClaw.Job.Sections
import PeerClaw.Job.Places
import PeerClaw.Job.Escrows
import PeerClaw.Job.Selection
import PeerClaw.Job.Budget
import PeerClaw.Lib.Trace
import PeerClaw.Job.Lifecycle
import PeerClaw.Wallet.Backed
import PeerClaw.Job.Payment
import PeerClaw.Runtime.Gossip
import PeerClaw.Executor.Remote
import PeerClaw.Executor.Undo
import PeerClaw.Lib.Utf8
import PeerClaw.Executor.Delivery
import PeerClaw.Executor.Payload
import PeerClaw.Wallet.Atomic
import PeerClaw.Wallet.Journal
import PeerClaw.Wallet.Persistence
import PeerClaw.Lib.Separated
import PeerClaw.Crew.Messages
import PeerClaw.Runtime.Signing
import PeerClaw.Value
import PeerClaw.Lib.Check
import PeerClaw.Flow.Spec
import PeerClaw.Agent.Config
import PeerClaw.Flow.Interpreter
import PeerClaw.Flow.Order
import PeerClaw.Flow.Structure
import PeerClaw.Flow.Loops
import PeerClaw.Lib.Countdown
import PeerClaw.Flow.Legacy
import PeerClaw.Agent.Bounds
import PeerClaw.Agent.Budget
import PeerClaw.Agent.Runtime
import PeerClaw.Agent.Spending
import PeerClaw.Lib.Batching
import PeerClaw.Lib.Chunks
import PeerClaw.Inference.Cache
import PeerClaw.Inference.Accounting
import PeerClaw.Inference.Batch
import PeerClaw.Inference.Queue
import PeerClaw.Inference.Shutdown
import PeerClaw.Inference.Distribution
import PeerClaw.Inference.Transfer
import PeerClaw.Inference.Engine
import PeerClaw.Lib.Window
import PeerClaw.Proxy.Admission
import PeerClaw.Lib.Paragraphs
import PeerClaw.Agent.Compaction
import PeerClaw.Lib.Regex
import PeerClaw.Lib.Redaction
import PeerClaw.Safety.LeakDetector
import PeerClaw.Safety.Sanitizer
import PeerClaw.Safety.SafetyLayer
import PeerClaw.Url
import PeerClaw.Safety.Ssrf
import PeerClaw.Tools.Tool
import PeerClaw.Tools.Http
import PeerClaw.Safety.Egress
import PeerClaw.Tools.Registry
import PeerClaw.Agent.Noted
import PeerClaw.Agent.Egress
import PeerClaw.Executor.Resource
import PeerClaw.Executor.Capacity
import PeerClaw.Routines.Engine
import PeerClaw.Routines.Lifecycle
import PeerClaw.Lib.Guards
import PeerClaw.Swarm.Manager
import PeerClaw.Swarm.Peers
import PeerClaw.Runtime.Providers
import PeerClaw.Runtime.Freshness
import PeerClaw.Lib.OrderedTable
import PeerClaw.Agent.Session
import PeerClaw.Agent.Isolation
import PeerClaw.Serve.Awaiting
import PeerClaw.Crew.Orchestrator
import PeerClaw.Serve.Activities
import PeerClaw.Serve.EventLoop
import PeerClaw.Flow.Builder
import PeerClaw.Flow.Effective
import PeerClaw.Flow.SameFlow
import PeerClaw.Flow.SavedNode
import PeerClaw.Flow.RoundTrip
import PeerClaw.Lib.Paths
import PeerClaw.Vector.Store
import PeerClaw.Vector.Loading
import PeerClaw.Vector.Sections
import PeerClaw.Vector.Persistence
import PeerClaw.Skills.Registry
import PeerClaw.Skills.Authenticity
import PeerClaw.Wasm.Executor
import PeerClaw.Wasm.Enforcement
import PeerClaw.Serve.SubAgents
import PeerClaw.Serve.Containment
import PeerClaw.P2p.Connections
import PeerClaw.Mcp.Listing
import PeerClaw.Mcp.Pending
import PeerClaw.Inference.Generate
import PeerClaw.Web.Completions
import PeerClaw.Web.Streaming
import PeerClaw.Flow.Topological
import PeerClaw.Lib.Substitution
import PeerClaw.Flow.Interpolation
import PeerClaw.Wallet.Expiry
import PeerClaw.Lib.Refill
import PeerClaw.Lib.JsonText
import PeerClaw.ReadJson
import PeerClaw.Flow.Injection
import PeerClaw.Lib.Word
import PeerClaw.Channel.State
import PeerClaw.Executor.Routing
import PeerClaw.Lib.Glob
import PeerClaw.Proxy.Pricing
import PeerClaw.Lib.Boundary
import PeerClaw.Agent.Pruning
import PeerClaw.Agent.Retained
import PeerClaw.Tools.Truncation
import PeerClaw.Serve.JobList
import PeerClaw.Agent.PromptPruning
import PeerClaw.Agent.Cuts
import PeerClaw.Agent.Repeats
import PeerClaw.JsonLines
import PeerClaw.Lib.Lines
import PeerClaw.Agent.ToolCalls
import PeerClaw.Lib.Patterns
import PeerClaw.Agent.LooseCalls
import PeerClaw.Agent.Answers
import PeerClaw.Inference.Eviction
import PeerClaw.Crew.Delegation
import PeerClaw.Inference.Gguf
import PeerClaw.Inference.StopCut
import PeerClaw.Inference.Receiver
import PeerClaw.Inference.Containment
import PeerClaw.Inference.Oversize
import PeerClaw.Inference.Failover
import PeerClaw.Serve.RunStores
import PeerClaw.Crew.Stopping
import PeerClaw.Serve.Kickoffs
import PeerClaw.Lib.Text
import PeerClaw.Safety.Embedded
import PeerClaw.Tools.Shell
import PeerClaw.Lib.Detours
import PeerClaw.Tools.ProtectedPaths
import PeerClaw.Tools.FileRead
import PeerClaw.Tools.JsonQuery
import PeerClaw.Crew.Context
import PeerClaw.Lib.Overlaps
import PeerClaw.Safety.Overlaps
import PeerClaw.Lib.PatternRegex
import PeerClaw.Safety.Injections
import PeerClaw.Web.AgenticTask
import PeerClaw.Lib.Recent
import PeerClaw.Web.ChatHistory
import PeerClaw.Wasm.Capabilities
import PeerClaw.Wasm.HostFunctions
import PeerClaw.Skills.Selector
import PeerClaw.Lib.Whitespace
import PeerClaw.Tools.WebFetch
import PeerClaw.Lib.Regroup
import PeerClaw.Workspace.Markdown
import PeerClaw.Tools.Pdf
import PeerClaw.Lib.Marks
import PeerClaw.Inference.Ollama
import PeerClaw.Lib.Top
import PeerClaw.Tools.MemorySearch
import PeerClaw.Tools.Precheck
