import PeerClaw.Agent.Noted
import PeerClaw.Agent.Spending
import PeerClaw.Tools.Registry

/-!
# The network policy of an agent

The specification of an agent may have a network policy, and the registry checks the
calls of network tools against the policy in their context.  Between the two, the
runtime makes a context when it is created, for the plain loop, and the unified loop
makes one for each call; neither looks at the specification.

* `Agent.executed` — the calls of a task that reach execution.
* `executed_callable` — these are calls that the agent may make and the registry lets
  through.
* `executed_askFor` — and each such call is executed in some task.
* `egress_respected_iff` — in every run no denied URL is in a call that reaches execution
  exactly when the agent may make no call with one.
-/

namespace PeerClaw

open Lib Safety Tools

/-! ## Tasks of an agent -/

/-- An agent: its specification, and the runtime that is made from it. -/
structure Agent where
  spec : AgentSpec
  id : String
  peerId : String
  registry : ToolRegistry
  env : EgressEnv

namespace Agent

variable (a : Agent)

def config : AgentConfig := .fromSpec a.id a.spec

/-- The policy of the specification. -/
def policy : Option EgressPolicy := EgressPolicy.fromSpec a.env.casing a.spec.networkPolicy

/-- The runtime, as it is made from the specification. -/
def runtime (now : ℕ) : AgentRuntime := ⟨.fromSpec now a.spec, []⟩

/-- The context that `AgentRuntime::new` makes. -/
def toolContext : ToolContext where
  sessionId := a.config.id
  jobId := none
  peerId := a.peerId
  sandboxed := false
  availableSecrets := []
  egressPolicy := none
  agentDepth := 0

/-- The context that the unified loop makes for a call; the session is its own. -/
def unifiedToolContext (toolSession : String) : ToolContext where
  sessionId := toolSession
  jobId := none
  peerId := a.toolContext.peerId
  sandboxed := false
  availableSecrets := []
  egressPolicy := none
  agentDepth := 0

/-- Answers of local tools that come from the registry, in a context. -/
def Serves {α : Type} (ctx : ToolContext) (answers : String → Value → Except String α) : Prop :=
  ∃ execute : String → Value → Except ToolError α, ∀ name args,
    answers name args =
      (a.registry.executeLocal a.env ctx execute name args).mapError ToolError.display

/-- The task is one of the agent's runtime, which has the agent's configuration and its registry;
the session is that of the unified loop. -/
structure Runs (t : TaskInput) (toolSession : String) : Prop where
  config : t.config = a.config
  iterations : ∀ i, a.Serves a.toolContext (t.iterations i).executeLocal
  passes : ∀ i, a.Serves (a.unifiedToolContext toolSession) (t.passes i).executeLocal

/-- The registry executes the call. -/
def reaches (ctx : ToolContext) (call : ParsedToolCall) : Bool :=
  match a.registry.screen a.env ctx call.name call.args with
  | .ok () => true
  | .error _ => false

/-- The agent may use the local tool. -/
def allows (name : String) : Bool :=
  a.config.allowedTools.isEmpty || a.config.allowedTools.contains name

end Agent

/-- The plain loop, when it has ended. -/
def plainRun (calls : AgenticCalls) (r : AgentRuntime) (t : TaskInput) : PlainState :=
  Machine.run (PlainLoop.step calls t.config) (PlainLoop.initial r t)
    ((List.range (maxIterations + 1)).map t.iterations)

theorem runPlain_eq (calls : AgenticCalls) (r : AgentRuntime) (t : TaskInput) :
    runPlain calls r t =
      (⟨(plainRun calls r t).budget, (plainRun calls r t).conversation⟩,
        ⟨(plainRun calls r t).ended.join, (plainRun calls r t).tokens,
          (plainRun calls r t).spends⟩) := rfl

namespace Agent

variable (a : Agent)

/-- The call of a record of the plain loop, if it was executed: of all calls that are recorded,
those are not handed to the registry whose tool is not allowed. -/
def executedRecord (record : ToolCallRecord) : Option ParsedToolCall :=
  let call : ParsedToolCall := ⟨record.toolName, record.args⟩
  if a.allows call.name && a.reaches a.toolContext call then some call else none

/-- The call of an event of the unified loop, if it is executed, by the registry or by an MCP
server. -/
def executedEvent (toolSession : String) : ToolEvent → Option ParsedToolCall
  | .ran _ true call => if a.reaches (a.unifiedToolContext toolSession) call then some call else none
  | .ran _ false call => some call
  | .blocked _ _ | .refused _ _ => none

/-- The calls of a task that reach execution. -/
def executed (calls : AgenticCalls) (r : AgentRuntime) (t : TaskInput) (toolSession : String) :
    List ParsedToolCall :=
  if t.inferenceSink then (unifiedRun calls t).events.filterMap (a.executedEvent toolSession)
  else (plainRun calls r t).toolCalls.filterMap a.executedRecord

/-- The calls of a run of the runtime, one task after another, that reach execution. -/
def executedInRun (calls : AgenticCalls) (now : ℕ) (tasks : List (TaskInput × String)) :
    List ParsedToolCall :=
  Machine.collect (fun r task => AgentRuntime.step calls r task.1)
    (fun r task => a.executed calls r task.1 task.2) (a.runtime now) tasks

/-- A call that the agent may make: one of an MCP tool, or one of an allowed tool that the
registry lets through. -/
def Callable (call : ParsedToolCall) : Prop :=
  ':' ∈ call.name.toList ∨ (a.allows call.name ∧ a.reaches a.toolContext call)

/-- In every run, no call to a tool in `K` that reaches execution has a URL which the policy of
the specification denies. -/
def Respects (K : String → Prop) : Prop :=
  ∀ policy, a.policy = some policy → ∀ calls now tasks, (∀ task ∈ tasks, a.Runs task.1 task.2) →
    ∀ call ∈ a.executedInRun calls now tasks, K call.name →
      ¬ NamesDenied a.env policy call.name call.args

/-! ## What is executed -/

section Executed

variable {a : Agent} {call : ParsedToolCall} {calls : AgenticCalls} {r : AgentRuntime}
  {t : TaskInput} {toolSession : String}

/-- The two contexts let the same calls through: neither has a policy. -/
theorem reaches_unified :
    a.reaches (a.unifiedToolContext toolSession) call = a.reaches a.toolContext call := by
  have hsame : a.registry.screen a.env (a.unifiedToolContext toolSession) call.name call.args =
      a.registry.screen a.env a.toolContext call.name call.args := by
    unfold ToolRegistry.screen
    rw [checkPolicy_of_none rfl, checkPolicy_of_none rfl]
  rw [reaches, reaches, hsame]

theorem unifiedSetup_allows (calls : AgenticCalls) (hconfig : t.config = a.config) (name : String) :
    (unifiedSetup calls t).allows name = a.allows name := by
  rw [AgenticSetup.allows, unifiedSetup, hconfig, allows]
  cases hempty : a.config.allowedTools.isEmpty with
  | true => rfl
  | false => simp [hempty]

/-- **Only calls that the agent may make are executed.** -/
theorem executed_callable (hruns : a.Runs t toolSession)
    (h : call ∈ a.executed calls r t toolSession) : a.Callable call := by
  unfold executed at h
  split at h
  · obtain ⟨e, he, hexecuted⟩ := List.mem_filterMap.1 h
    cases e with
    | ran pass isLocal call' =>
      cases isLocal with
      | false =>
        cases hexecuted
        exact .inl (named_run _ _ _ he)
      | true =>
        have hallowed : (unifiedSetup calls t).allows call'.name :=
          (bounded_run _ _).1.allowed _ he rfl
        rw [unifiedSetup_allows calls hruns.config] at hallowed
        simp only [executedEvent] at hexecuted
        split at hexecuted
        · rename_i hreaches
          cases hexecuted
          rw [reaches_unified] at hreaches
          exact .inr ⟨hallowed, hreaches⟩
        · cases hexecuted
    | blocked pass call' => cases hexecuted
    | refused pass call' => cases hexecuted
  · obtain ⟨record, -, hexecuted⟩ := List.mem_filterMap.1 h
    simp only [executedRecord] at hexecuted
    split at hexecuted
    · rename_i hcallable
      cases hexecuted
      rw [Bool.and_eq_true] at hcallable
      exact .inr hcallable
    · cases hexecuted

end Executed

/-! ## A task that asks for one call -/

/-- A task in which the model asks for the same call in each of its answers. -/
def askFor (call : ParsedToolCall) (toolSession : String) : TaskInput where
  config := a.config
  prompts := ⟨"", "", "", "", "", "", "", "", "", "", "", "", "", "", "", "", "", "", ""⟩
  inferenceSink := true
  userInput := "do it"
  extras := ⟨true, true, "", 0⟩
  history := []
  systemPrompt := ""
  systemPrefix := ""
  iterations _ := {
    stopped := false
    checkedAt := 0
    execute := fun _ => .ok (.inference "call" 1)
    spentAt := 0
    stoppedBefore := fun _ => false
    executeLocal := fun name args =>
      (a.registry.executeLocal a.env a.toolContext (fun _ _ => .ok ⟨none, ""⟩) name args).mapError
        ToolError.display
    durationMs := fun _ _ => 0 }
  passes _ := {
    cancelled := false
    infer := fun _ _ _ _ => .ok ⟨"call", 1, 1, "local", none⟩
    mcpToolCount := 1
    localTools := []
    callMcp := fun _ _ => .ok ""
    executeLocal := fun name args =>
      (a.registry.executeLocal a.env (a.unifiedToolContext toolSession) (fun _ _ => .ok "") name
        args).mapError ToolError.display
    durationMs := fun _ _ => 0
    clock := "" }
  chargedAt := 0

theorem runs_askFor (call : ParsedToolCall) (toolSession : String) :
    a.Runs (a.askFor call toolSession) toolSession where
  config := rfl
  iterations _ := ⟨fun _ _ => .ok ⟨none, ""⟩, fun _ _ => rfl⟩
  passes _ := ⟨fun _ _ => .ok "", fun _ _ => rfl⟩

theorem passes_cons (passes : ℕ → PassDraw) :
    (List.range agenticMaxIters).map passes = passes 0 :: (List.range' 1 19).map passes := rfl

variable {a}

/-- **Each call that the agent may make is executed in some task.** -/
theorem executed_askFor {call : ParsedToolCall} (hcallable : a.Callable call) (r : AgentRuntime)
    (toolSession : String) :
    call ∈ a.executed (findsCalls [call]) r (a.askFor call toolSession) toolSession := by
  let s := unifiedSetup (findsCalls [call]) (a.askFor call toolSession)
  have hmay : MayCall s call := by
    refine ⟨fun _ => rfl, fun hmcp => ⟨rfl, ?_⟩⟩
    rw [unifiedSetup_allows (findsCalls [call]) rfl]
    exact (hcallable.resolve_left hmcp).1
  have hcompact : (compacted s (AgenticLoop.initial s).conversation).isSome := by
    unfold compacted
    split
    · rfl
    · rfl
  have hnew : (AgenticLoop.initial s).toolCallHistory.count (callSig s call) < 4 := by
    rw [show (AgenticLoop.initial s).toolCallHistory = [] from rfl, List.count_nil]
    exact Nat.succ_pos 3
  have hfirst : .ran 1 (decide (':' ∉ call.name.toList)) call ∈
      (AgenticLoop.step s (AgenticLoop.initial s) ((a.askFor call toolSession).passes 0)).events :=
    step_ran _ _ ⟨"call", 1, 1, "local", none⟩ hmay hnew rfl hcompact rfl (fun _ => rfl)
      (by decide) rfl
  have hrun : .ran 1 (decide (':' ∉ call.name.toList)) call ∈
      (unifiedRun (findsCalls [call]) (a.askFor call toolSession)).events := by
    rw [unifiedRun, passes_cons, Machine.run_cons]
    exact mem_run _ hfirst
  have hsink : (a.askFor call toolSession).inferenceSink = true := rfl
  unfold executed
  rw [if_pos hsink, List.mem_filterMap]
  refine ⟨_, hrun, ?_⟩
  by_cases hmcp : ':' ∈ call.name.toList
  · rw [decide_eq_false (not_not_intro hmcp)]
    rfl
  · rw [decide_eq_true hmcp]
    have hreaches := (hcallable.resolve_left hmcp).2
    simp only [executedEvent, reaches_unified, hreaches, if_true]

/-- The same without an inference sink; the task is stopped before the second answer. -/
def askForPlain (a : Agent) (call : ParsedToolCall) : TaskInput :=
  let task := a.askFor call ""
  { task with
    inferenceSink := false
    iterations := fun i => { task.iterations i with stopped := i ≠ 0 } }

theorem toolCalls_stopped {calls : AgenticCalls} {config : AgentConfig}
    {draws : List IterationDraw} (hstopped : ∀ d ∈ draws, d.stopped) (st : PlainState) :
    (Machine.run (PlainLoop.step calls config) st draws).toolCalls = st.toolCalls := by
  induction draws generalizing st with
  | nil => rfl
  | cons d draws ih =>
    have hstep : (PlainLoop.step calls config st d).toolCalls = st.toolCalls := by
      unfold PlainLoop.step plainIteration
      rw [if_pos (hstopped d List.mem_cons_self)]
      split
      · rfl
      · rfl
    rw [Machine.run_cons, ih fun d' hd' => hstopped d' (List.mem_cons_of_mem _ hd'), hstep]

/-- A local call that the agent may make is recorded when it is made. -/
theorem plainCall_record {call : ParsedToolCall} (hallows : a.allows call.name)
    (hreaches : a.reaches a.toolContext call) (st : PlainState) :
    ∃ record, (plainCall a.config ((a.askForPlain call).iterations 0) st call).toolCalls =
        st.toolCalls ++ [record] ∧ a.executedRecord record = some call := by
  have hnot : (!a.config.allowedTools.isEmpty && !a.config.allowedTools.contains call.name) =
      false := by
    rw [allows] at hallows
    rw [← Bool.not_or, hallows]
    rfl
  have hrecord : ∀ result success durationMs,
      a.executedRecord ⟨call.name, call.args, result, success, durationMs⟩ = some call := by
    intro result success durationMs
    simp only [executedRecord, hallows, hreaches, Bool.and_self, if_true]
  unfold plainCall
  rw [hnot]
  simp only [Bool.false_eq_true, if_false]
  split
  · exact ⟨_, rfl, hrecord _ _ _⟩
  · exact ⟨_, rfl, hrecord _ _ _⟩

/-- The first iteration makes the call, if the budget allows an answer. -/
theorem step_askForPlain (call : ParsedToolCall) {r : AgentRuntime}
    (hbudget : (r.budget.newRequest.canSpend 0 (tokenCost a.config.maxTokens.toNat)).1) :
    ∃ st, st.toolCalls = [] ∧
      PlainLoop.step (findsCalls [call]) a.config (PlainLoop.initial r (a.askForPlain call))
        ((a.askForPlain call).iterations 0) =
      plainCall a.config ((a.askForPlain call).iterations 0) st call := by
  have hcompact : ∀ messages, compactedMessages (findsCalls [call]) a.config messages =
      some messages := by
    intro messages
    unfold compactedMessages
    split
    · rfl
    · rfl
  have hiterations : ¬ maxIterations < (PlainLoop.initial r (a.askForPlain call)).iterations + 1 := by
    rw [show (PlainLoop.initial r (a.askForPlain call)).iterations = 0 from rfl]
    decide
  unfold PlainLoop.step
  rw [if_neg nofun]
  unfold plainIteration
  rw [if_neg nofun, if_neg hiterations]
  cases hspend : r.budget.newRequest.canSpend 0 (tokenCost a.config.maxTokens.toNat) with
  | mk allowed budget =>
    rw [hspend] at hbudget
    cases hbudget
    have hspend' : (PlainLoop.initial r (a.askForPlain call)).budget.canSpend
        ((a.askForPlain call).iterations 0).checkedAt (tokenCost a.config.maxTokens.toNat) =
        (true, budget) := hspend
    simp only [hspend', hcompact]
    exact ⟨_, rfl, rfl⟩

/-- **And so it is by the plain loop**, for a local call, if the budget allows an answer. -/
theorem executed_askForPlain {call : ParsedToolCall} (hallows : a.allows call.name)
    (hreaches : a.reaches a.toolContext call) {r : AgentRuntime}
    (hbudget : (r.budget.newRequest.canSpend 0 (tokenCost a.config.maxTokens.toNat)).1) :
    call ∈ a.executed (findsCalls [call]) r (a.askForPlain call) "" := by
  obtain ⟨st, hst, hstep⟩ := step_askForPlain call hbudget
  obtain ⟨record, hrecord, hexecuted⟩ := plainCall_record hallows hreaches st
  have hiterations : (List.range (maxIterations + 1)).map (a.askForPlain call).iterations =
      (a.askForPlain call).iterations 0 ::
        (List.range' 1 20).map (a.askForPlain call).iterations := rfl
  have hstopped : ∀ d ∈ (List.range' 1 20).map (a.askForPlain call).iterations, d.stopped := by
    intro d hd
    obtain ⟨i, hi, rfl⟩ := List.mem_map.1 hd
    have hpos : i ≠ 0 := by
      have := (List.mem_range'_1.1 hi).1
      omega
    exact decide_eq_true hpos
  have hrecords : (plainRun (findsCalls [call]) r (a.askForPlain call)).toolCalls = [record] := by
    rw [plainRun, hiterations, Machine.run_cons, toolCalls_stopped hstopped]
    exact (congrArg PlainState.toolCalls hstep).trans (by rw [hrecord, hst, List.nil_append])
  have hsink : ¬ (a.askForPlain call).inferenceSink := nofun
  unfold executed
  rw [if_neg hsink, hrecords]
  exact List.mem_filterMap.2 ⟨record, List.mem_singleton_self record, hexecuted⟩

/-- **The policy of an agent is respected** in every run exactly when there is nothing to enforce:
when no call that the agent may make has a URL which the policy denies. -/
theorem egress_respected_iff (a : Agent) (K : String → Prop) :
    a.Respects K ↔
      ∀ policy, a.policy = some policy → ∀ call, K call.name → a.Callable call →
        ¬ NamesDenied a.env policy call.name call.args := by
  constructor
  · intro hrespects policy hpolicy call hK hcallable
    refine hrespects policy hpolicy (findsCalls [call]) 0 [(a.askFor call "", "")] ?_ call ?_ hK
    · intro task htask
      rw [List.mem_singleton.1 htask]
      exact a.runs_askFor call ""
    · exact List.mem_append_left _ (executed_askFor hcallable _ "")
  · intro hcalls policy hpolicy calls now tasks htasks call hcall hK
    obtain ⟨r, task, htask, hexecuted⟩ := Machine.exists_of_mem_collect _ hcall
    exact hcalls policy hpolicy call hK (executed_callable (htasks task htask) hexecuted)

end Agent

/-! ## A policy that is not enforced -/

/-- A call to a site. -/
def stealCall : ParsedToolCall :=
  ⟨"web_fetch", .ofFields [("url", .string "https://evil.com/steal")]⟩

/-- An agent whose policy allows no host at all. -/
def closedAgent : Agent where
  spec := {
    agent := ⟨"researcher"⟩
    model := ⟨"llama-3.2-3b", 2048, 0, "", none⟩
    budget := ⟨2, 20, 100, 1000⟩
    tools := ⟨["web_fetch"]⟩
    networkPolicy := some ⟨"deny", []⟩ }
  id := "agent_0"
  peerId := "peer"
  registry := ⟨Finmap.singleton "web_fetch" (.ofFields [("required", .texts ["url"])])⟩
  env := {
    parse := fun s =>
      if s = "https://evil.com/steal" then .ok ⟨"https", some (.domain "evil.com"), none⟩
      else .error "relative URL without a base"
    casing := .ascii }

theorem stealCall_callable :
    closedAgent.allows stealCall.name ∧ closedAgent.reaches closedAgent.toolContext stealCall :=
  ⟨by decide, by decide⟩

theorem stealCall_denied :
    NamesDenied closedAgent.env ⟨.deny, []⟩ stealCall.name stealCall.args :=
  ⟨"https://evil.com/steal", by decide, by decide⟩

/-- The policy allows no host, and both loops execute a call that has one. -/
theorem denied_call_executed :
    (¬ closedAgent.Respects fun name => isNetworkTool name) ∧
      stealCall ∈ closedAgent.executed (findsCalls [stealCall]) (closedAgent.runtime 0)
        (closedAgent.askForPlain stealCall) "" := by
  constructor
  · intro hrespects
    refine hrespects ⟨.deny, []⟩ rfl (findsCalls [stealCall]) 0
      [(closedAgent.askFor stealCall "", "")] ?_ stealCall ?_ rfl stealCall_denied
    · intro task htask
      rw [List.mem_singleton.1 htask]
      exact closedAgent.runs_askFor stealCall ""
    · exact List.mem_append_left _ (Agent.executed_askFor (.inr stealCall_callable) _ "")
  · exact Agent.executed_askForPlain stealCall_callable.1 stealCall_callable.2 (by decide +kernel)

end PeerClaw
