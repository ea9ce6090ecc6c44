import PeerClaw.Serve.SubAgents

/-!
# What a sub-agent is confined to

The tool has a limit on the depth of sub-agents, a sub-agent is said to have its own budget, and
its model is meant for itself.  None of this reaches the node: every context has a depth of 0, the
budget of the command is not read, and the model of the command stays in the configuration.

* `contained_iff` — in every run no chain of spawned agents is too long, and each sub-agent spends
  at most its budget and leaves the configuration as it was, exactly when those at the limit
  spawn nothing, none costs more than its budget, and none has another model.
* `sub_agents_uncontained` — a sub-agent that spawns another, one after the other.
-/

namespace PeerClaw

open Lib Lib.Machine Tools

/-! ## What a run costs -/

/-- What the answers cost that the model gives in a run; with an inference sink it is that of a
run with an answer. -/
def charge (calls : AgenticCalls) (r : AgentRuntime) (t : TaskInput) : ℚ :=
  if t.inferenceSink then
    match (unifiedRun calls t).ended with
    | some (.ok out) => tokenCost out.outcome.tokensGenerated.toNat
    | _ => 0
  else tokensCost (plainRun calls r t).tokens

section Cost

variable {calls : AgenticCalls} {r : AgentRuntime} {t : TaskInput}

theorem totalSpent_plainRun : (plainRun calls r t).budget.totalSpent =
    r.budget.totalSpent + tokensCost (plainRun calls r t).tokens := by
  refine run_of_inv (I := fun st : PlainState => st.ledger.budget.totalSpent =
    r.budget.totalSpent + tokensCost st.ledger.tokens) (P := fun _ _ => True) ?_ ?_ along_true
  · intro st d h _
    unfold PlainLoop.step
    split
    · exact h
    · rcases plainIteration_ledger calls t.config d { st with iterations := st.iterations + 1 } with
        hsame | hreset | ⟨task, text, tokens, -, -, -, hspent⟩
      · rw [hsame]
        exact h
      · rw [hreset]
        show (st.budget.resetIfNeeded _).totalSpent = _
        rw [BudgetTracker.totalSpent_resetIfNeeded]
        exact h
      · have hbefore : st.budget.totalSpent = r.budget.totalSpent + tokensCost st.tokens := h
        rw [hspent]
        show ((st.budget.resetIfNeeded _).spend _ _).totalSpent = _
        rw [BudgetTracker.totalSpent_spend, BudgetTracker.totalSpent_resetIfNeeded, hbefore,
          tokensCost_snoc, add_assoc]
  · simp [PlainState.ledger, PlainLoop.initial, tokensCost]

/-- **A run records what it costs.** -/
theorem totalSpent_runTask : (runTaskWithSession calls r t).1.budget.totalSpent =
    r.budget.totalSpent + charge calls r t := by
  unfold runTaskWithSession charge
  cases t.inferenceSink with
  | false =>
      rw [if_neg Bool.false_ne_true, if_neg Bool.false_ne_true, runPlain_eq]
      exact totalSpent_plainRun
  | true =>
      rw [if_pos rfl, if_pos rfl]
      unfold runTaskViaUnifiedLoop
      cases (unifiedRun calls t).ended with
      | none => exact (add_zero _).symm
      | some outcome =>
          cases outcome with
          | ok out =>
              show (r.budget.newRequest.spend _ _).totalSpent = _
              rw [BudgetTracker.totalSpent_spend, BudgetTracker.totalSpent_newRequest]
          | err e => exact (add_zero _).symm
          | panic => exact (add_zero _).symm

end Cost

namespace SubAgents

variable (n : AgentHost)

/-! ## Chains, budgets and configurations -/

/-- No chain of spawned agents is longer than the limit. -/
def Shallow (st : SubAgents) : Prop := ∀ c ∈ st.commands, c.level ≤ maxAgentDepth.toNat

/-- A sub-agent spends at most its budget, and if it finishes, the configuration of the runtime is
what it was. -/
def Confined (st : SubAgents) (i : SpawnInput) : Prop :=
  ∀ turn, i = .handle turn → st.stopped = false → ∀ c rest, st.commands = c :: rest →
    (step n st i).runtime.budget.totalSpent ≤ st.runtime.budget.totalSpent + c.command.budget ∧
    ((step n st i).stopped = false → (step n st i).config = st.config)

/-- What a sub-agent is asked to do. -/
def asked (st : SubAgents) (turn : AgentTurn) (c : WaitingSpawn) : TaskInput :=
  AgentTurn.subInput turn (subConfig st.config c.command) c.command.goal

/-- A sub-agent at the limit sends no command, the answers that it gets cost at most its budget,
and its model, if it finishes, is that of the runtime. -/
def Modest (st : SubAgents) (i : SpawnInput) : Prop :=
  ∀ turn, i = .handle turn → st.stopped = false → ∀ c rest, st.commands = c :: rest →
    (c.level = maxAgentDepth.toNat →
      sent turn.blockedAt (n.spawns st.runtime (asked st turn c) turn.toolSession) = []) ∧
    charge n.calls st.runtime (asked st turn c) ≤ c.command.budget ∧
    (turn.blockedAt = none →
      (runTaskWithSession n.calls st.runtime (asked st turn c)).2.result.isSome →
        c.command.model = none ∨ c.command.model = some st.config.model)

section Steps

variable {n} {st : SubAgents}

theorem step_handle (hrunning : st.stopped = false) {c : WaitingSpawn} {rest : List WaitingSpawn}
    (hcommands : st.commands = c :: rest) (turn : AgentTurn) :
    step n st (.handle turn) =
      { config := subConfig st.config c.command
        runtime := (runTaskWithSession n.calls st.runtime (asked st turn c)).1
        commands := rest ++
          (sent turn.blockedAt (n.spawns st.runtime (asked st turn c) turn.toolSession)).map
            fun s => ⟨s, c.level + 1⟩
        stopped := (runTaskWithSession n.calls st.runtime (asked st turn c)).2.result.isNone ||
          turn.blockedAt.isSome } := by
  unfold step
  rw [hrunning, if_neg Bool.false_ne_true]
  dsimp only
  unfold handle
  rw [hcommands]
  rfl

theorem subConfig_eq_iff {config : AgentConfig} {command : SpawnCommand} :
    subConfig config command = config ↔
      command.model = none ∨ command.model = some config.model := by
  unfold subConfig
  constructor
  · intro h
    have hmodel : command.model.getD config.model = config.model := congrArg AgentConfig.model h
    cases hcommand : command.model with
    | none => exact .inl rfl
    | some m =>
        rw [hcommand] at hmodel
        exact .inr (congrArg some hmodel)
  · rintro (h | h) <;> rw [h] <;> rfl

theorem shallow_step (h : Shallow st) {i : SpawnInput} (hi : ∀ turn, i ≠ .handle turn) :
    Shallow (step n st i) := by
  have hfirst : 1 ≤ maxAgentDepth.toNat := by decide
  unfold step
  split
  · exact h
  · cases i with
    | handle turn => exact absurd rfl (hi turn)
    | task turn =>
        intro c hc
        rcases List.mem_append.1 hc with hold | hnew
        · exact h c hold
        · obtain ⟨s, -, rfl⟩ := List.mem_map.1 hnew
          exact hfirst
    | call ctx call =>
        intro c hc
        rcases List.mem_append.1 hc with hold | hnew
        · exact h c hold
        · obtain ⟨s, -, rfl⟩ := List.mem_map.1 hnew
          exact hfirst

/-- **What a sub-agent leaves**: the chains stay short exactly if it is not at the limit or sends
nothing. -/
theorem shallow_handle_iff (h : Shallow st) (hrunning : st.stopped = false) {c : WaitingSpawn}
    {rest : List WaitingSpawn} (hcommands : st.commands = c :: rest) (turn : AgentTurn) :
    Shallow (step n st (.handle turn)) ↔ (c.level = maxAgentDepth.toNat →
      sent turn.blockedAt (n.spawns st.runtime (asked st turn c) turn.toolSession) = []) := by
  have hc : c.level ≤ maxAgentDepth.toNat := h c (by rw [hcommands]; exact List.mem_cons_self)
  rw [step_handle hrunning hcommands]
  constructor
  · intro hshallow hlimit
    rw [List.eq_nil_iff_forall_not_mem]
    intro s hs
    have hlevel : c.level + 1 ≤ maxAgentDepth.toNat :=
      hshallow ⟨s, c.level + 1⟩ (List.mem_append_right _ (List.mem_map_of_mem hs))
    omega
  · intro hnone s hs
    rcases List.mem_append.1 hs with hold | hnew
    · exact h s (by rw [hcommands]; exact List.mem_cons_of_mem _ hold)
    · obtain ⟨command, hcommand, rfl⟩ := List.mem_map.1 hnew
      have hlevel : c.level ≠ maxAgentDepth.toNat := by
        intro heq
        rw [hnone heq] at hcommand
        cases hcommand
      show c.level + 1 ≤ _
      omega

theorem confined_handle_iff (hrunning : st.stopped = false) {c : WaitingSpawn}
    {rest : List WaitingSpawn} (hcommands : st.commands = c :: rest) (turn : AgentTurn) :
    Confined n st (.handle turn) ↔
      charge n.calls st.runtime (asked st turn c) ≤ c.command.budget ∧
      (turn.blockedAt = none →
        (runTaskWithSession n.calls st.runtime (asked st turn c)).2.result.isSome →
          c.command.model = none ∨ c.command.model = some st.config.model) := by
  have hone : Confined n st (.handle turn) ↔
      (step n st (.handle turn)).runtime.budget.totalSpent ≤
        st.runtime.budget.totalSpent + c.command.budget ∧
      ((step n st (.handle turn)).stopped = false →
        (step n st (.handle turn)).config = st.config) := by
    constructor
    · intro h
      exact h turn rfl hrunning c rest hcommands
    · rintro h turn' hturn - c' rest' hcommands'
      obtain rfl := SpawnInput.handle.inj hturn
      obtain ⟨rfl, rfl⟩ := List.cons.inj (hcommands.symm.trans hcommands')
      exact h
  have hfinished : ∀ result : Option AgentResult,
      (result.isNone || turn.blockedAt.isSome) = false ↔
        turn.blockedAt = none ∧ result.isSome := by
    intro result
    cases result <;> cases turn.blockedAt <;> simp
  rw [hone, step_handle hrunning hcommands]
  dsimp only
  rw [totalSpent_runTask, add_le_add_iff_left, hfinished, subConfig_eq_iff, and_imp]

theorem modest_handle_iff (hrunning : st.stopped = false) {c : WaitingSpawn}
    {rest : List WaitingSpawn} (hcommands : st.commands = c :: rest) (turn : AgentTurn) :
    Modest n st (.handle turn) ↔
      (c.level = maxAgentDepth.toNat →
        sent turn.blockedAt (n.spawns st.runtime (asked st turn c) turn.toolSession) = []) ∧
      charge n.calls st.runtime (asked st turn c) ≤ c.command.budget ∧
      (turn.blockedAt = none →
        (runTaskWithSession n.calls st.runtime (asked st turn c)).2.result.isSome →
          c.command.model = none ∨ c.command.model = some st.config.model) := by
  constructor
  · intro h
    exact h turn rfl hrunning c rest hcommands
  · rintro h turn' hturn - c' rest' hcommands'
    obtain rfl := SpawnInput.handle.inj hturn
    obtain ⟨rfl, rfl⟩ := List.cons.inj (hcommands.symm.trans hcommands')
    exact h

/-- A node that has stopped, or has no command to take, does nothing. -/
theorem step_idle (turn : AgentTurn) (h : st.stopped = true ∨ st.commands = []) :
    step n st (.handle turn) = st := by
  unfold step
  rcases h with h | h
  · rw [if_pos h]
  · split
    · rfl
    · dsimp only
      unfold handle
      rw [h]

theorem contained_step_iff (h : Shallow st) (i : SpawnInput) :
    Shallow (step n st i) ∧ Confined n st i ↔ Modest n st i := by
  have hother : (∀ turn, i ≠ .handle turn) →
      (Shallow (step n st i) ∧ Confined n st i ↔ Modest n st i) := by
    intro hi
    exact iff_of_true ⟨shallow_step h hi, fun turn hturn => absurd hturn (hi turn)⟩
      fun turn hturn => absurd hturn (hi turn)
  cases i with
  | task turn => exact hother fun _ hturn => SpawnInput.noConfusion hturn
  | call ctx call => exact hother fun _ hturn => SpawnInput.noConfusion hturn
  | handle turn =>
      cases hstopped : st.stopped with
      | true =>
          have hidle : step n st (.handle turn) = st := step_idle turn (.inl hstopped)
          refine iff_of_true ⟨by rw [hidle]; exact h, fun _ _ hrunning => ?_⟩ (fun _ _ hrunning => ?_)
          all_goals
            rw [hstopped] at hrunning
            cases hrunning
      | false =>
          cases hcommands : st.commands with
          | nil =>
              have hidle : step n st (.handle turn) = st := step_idle turn (.inr hcommands)
              refine iff_of_true ⟨by rw [hidle]; exact h, fun _ _ _ c rest hc => ?_⟩
                (fun _ _ _ c rest hc => ?_)
              all_goals
                rw [hcommands] at hc
                cases hc
          | cons c rest =>
              rw [shallow_handle_iff h hstopped hcommands, confined_handle_iff hstopped hcommands,
                modest_handle_iff hstopped hcommands]

end Steps

/-- **What confines sub-agents**, in every run of tasks, calls and sub-agents. -/
theorem contained_iff (n : AgentHost) (config : AgentConfig) (runtime : AgentRuntime)
    (is : List SpawnInput) :
    Always (step n) Shallow (start config runtime) is ∧
        Along (step n) (Confined n) (start config runtime) is ↔
      Along (step n) (Modest n) (start config runtime) is :=
  always_along_iff (R := fun _ _ => True) (fun _ i h _ => contained_step_iff h i) nofun along_true

section Example

/-- A call for a sub-agent with a budget of 1 and another model. -/
private def spawnCall : ParsedToolCall :=
  ⟨"agent_spawn", .ofFields [("goal", .string "dig deeper"), ("budget", .nat 1),
    ("model", .string "large")]⟩

private def host : AgentHost where
  calls := { findsCalls [] with
    parseToolCalls := fun text => if text = "call" then [spawnCall] else [] }
  registry := ⟨Finmap.singleton "agent_spawn" (.ofFields [("required", .texts ["goal"])])⟩
  env := ⟨fun _ => .error "relative URL without a base", .ascii⟩
  peerId := "12D3KooWNode"
  asF64 := fun
    | .posInt k => k.toNat
    | .negInt k => k.toInt
    | .float _ => 0

/-- A run in which the model calls for a sub-agent, answers when that fails, and takes 3000 tokens
for each. -/
private def digging : AgentTurn where
  task := { answerTask false 100 with
    iterations := fun i => {
      stopped := false
      checkedAt := 0
      execute := fun _ => .ok (.inference (if i = 0 then "call" else "done") 3000)
      spentAt := 0
      stoppedBefore := fun _ => false
      executeLocal := fun _ _ => .error "Timeout after 120 seconds"
      durationMs := fun _ _ => 120000 } }
  toolSession := ""
  blockedAt := none

private def fresh : SubAgents :=
  start ⟨"a", "agent", "small", 4096, 0, "", [], 4096⟩ ⟨.new 0 10 100 500 5000, []⟩

private def context : ToolContext := host.unifiedContext "web"

/-- **Sub-agents are not contained**: each of three sub-agents calls for another, so that a chain
of four waits, and the first one has spent more than its budget of 1 and left its model to the
agent. -/
theorem sub_agents_uncontained :
    ¬ Always (step host) Shallow fresh
      [.call context spawnCall, .handle digging, .handle digging, .handle digging] ∧
    ¬ Along (step host) (Confined host) fresh [.call context spawnCall, .handle digging] ∧
    (run (step host) fresh [.call context spawnCall, .handle digging]).config.model = "large" := by
  refine ⟨fun h => ?_, ?_, by decide +kernel⟩
  · have hlevels : (run (step host) fresh
        [.call context spawnCall, .handle digging, .handle digging, .handle digging]).commands.map
          WaitingSpawn.level = [4] := by
      decide +kernel
    have hmem := List.mem_map.1 (hlevels ▸ List.mem_singleton_self 4)
    obtain ⟨c, hc, hlevel⟩ := hmem
    have hshort : c.level ≤ 3 := h.last c hc
    omega
  · rintro ⟨-, hconfined, -⟩
    have hwaiting : (step host fresh (.call context spawnCall)).commands =
        [⟨⟨"dig deeper", "general", 1, some "large"⟩, 1⟩] := by
      rfl
    have hspent := (hconfined digging rfl rfl _ _ hwaiting).1
    revert hspent
    decide +kernel

end Example

end SubAgents
end PeerClaw
