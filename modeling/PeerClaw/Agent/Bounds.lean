import PeerClaw.Agent.Pass

/-!
# The bounds of the unified loop

Whatever a model answers, a run of the unified loop keeps within bounds: it has at
most 20 turns, no pass of it makes more than four calls, no call is made more than
four times, and no local tool is called that is not allowed.  The history of the
calls that were let through carries the bound on a whole run: the calls that are
made are some of those in it, in their order, and no signature is in it more than
four times.

* `bounded_step`, `bounded_run` — the bounds, step by step and all along.
* `ended_run` — a run ends.
* `agentic_bounds` — **every run keeps within its bounds.**
* `empty_list_allows` — an empty list of tools allows every tool.
-/

namespace PeerClaw

open Lib

/-! ## A run -/

/-- The bounds that hold all along a run. -/
structure Bounded (s : AgenticSetup) (st : AgenticState) : Prop where
  iter : st.iter ≤ agenticMaxIters
  turns : st.turns.length ≤ st.iter
  capped : ∀ sig, st.toolCallHistory.count sig ≤ 4
  made : ((callsMade st.events).map (callSig s)).Sublist st.toolCallHistory
  past : ∀ e ∈ st.events, e.pass ≤ st.iter
  few : ∀ pass, (callsMadeIn st.events pass).length ≤ 4
  different : ∀ pass, ((callsMadeIn st.events pass).map callKey).Nodup
  allowed : ∀ e ∈ st.events, e.Allowed s

section Run

variable {s : AgenticSetup} {st st' : AgenticState}

theorem bounded_initial (s : AgenticSetup) : Bounded s (AgenticLoop.initial s) where
  iter := Nat.zero_le _
  turns := Nat.zero_le _
  capped := by simp [AgenticLoop.initial]
  made := List.nil_sublist _
  past := by simp [AgenticLoop.initial]
  few := by simp [AgenticLoop.initial, callsMadeIn, callsMade]
  different := by simp [AgenticLoop.initial, callsMadeIn, callsMade]
  allowed := by simp [AgenticLoop.initial]

theorem Bounded.finish (h : Bounded s st) (outcome : Outcome String AgenticOutput) :
    Bounded s (st.finish outcome) :=
  ⟨h.iter, h.turns, h.capped, h.made, h.past, h.few, h.different, h.allowed⟩

/-- The calls of a pass are those it makes; the other passes keep theirs. -/
theorem callsMadeIn_pass {pass : ℕ} {events more : List ToolEvent}
    (hpast : ∀ e ∈ events, e.pass < pass) (hmore : ∀ e ∈ more, e.pass = pass) (p : ℕ) :
    callsMadeIn (events ++ more) p = if p = pass then callsMade more else callsMadeIn events p := by
  rw [callsMadeIn_append]
  by_cases hp : p = pass
  · subst hp
    rw [if_pos rfl, callsMadeIn_eq_nil fun e he => (hpast e he).ne, callsMadeIn_eq_all hmore,
      List.nil_append]
  · have hother : ∀ e ∈ more, e.pass ≠ p := fun e he heq => hp (heq.symm.trans (hmore e he))
    rw [if_neg hp, callsMadeIn_eq_nil hother, List.append_nil]

theorem Bounded.pass {turns : List AgenticTurnOutcome} {kept chosen : List ParsedToolCall}
    {events : List ToolEvent} (h : Bounded s st) (hiter : st.iter < agenticMaxIters)
    (hturns : turns.length ≤ 1)
    (hpass : Passes s { st with iter := st.iter + 1 } st' turns kept chosen events) :
    Bounded s st' := by
  have hnoted : st'.events = st.events ++ events := hpass.noted
  have hnext : st'.iter = st.iter + 1 := hpass.iter
  have hcalls : ∀ p, callsMadeIn st'.events p =
      if p = st.iter + 1 then callsMade events else callsMadeIn st.events p := fun p => by
    rw [hnoted]
    exact callsMadeIn_pass (fun e he => Nat.lt_succ_of_le (h.past e he)) hpass.happens.pass p
  have hmade := hpass.happens.made
  refine ⟨?_, ?_, hpass.capped h.capped, ?_, ?_, fun p => ?_, fun p => ?_, ?_⟩
  · rw [hnext]
    exact hiter
  · have hturned : st'.turns = st.turns ++ turns := hpass.turned
    have hle := h.turns
    rw [hturned, hnext, List.length_append]
    omega
  · have hhistory : st'.toolCallHistory = st.toolCallHistory ++ kept.map (callSig s) :=
      hpass.history
    rw [hnoted, hhistory, callsMade_append, List.map_append]
    exact h.made.append ((hmade.trans hpass.among).map _)
  · intro e he
    rw [hnext]
    rw [hnoted] at he
    rcases List.mem_append.1 he with he | he
    · exact Nat.le_succ_of_le (h.past e he)
    · exact (hpass.happens.pass e he).le
  · rw [hcalls p]
    split
    · exact hmade.length_le.trans hpass.few
    · exact h.few p
  · rw [hcalls p]
    split
    · exact hpass.different.sublist (hmade.map callKey)
    · exact h.different p
  · intro e he
    rw [hnoted] at he
    exact (List.mem_append.1 he).elim (h.allowed e) (hpass.happens.allowed e)

/-- **One step keeps the bounds**, and after the last pass the run has ended. -/
theorem bounded_step (d : PassDraw)
    (h : Bounded s st ∧ (st.iter = agenticMaxIters → st.ended.isSome)) :
    Bounded s (AgenticLoop.step s st d) ∧
      ((AgenticLoop.step s st d).iter = agenticMaxIters →
        (AgenticLoop.step s st d).ended.isSome) := by
  obtain ⟨hbounded, hlast⟩ := h
  unfold AgenticLoop.step
  by_cases hended : st.ended.isSome
  · rw [if_pos hended]
    exact ⟨hbounded, hlast⟩
  · rw [if_neg hended]
    have hiter : st.iter < agenticMaxIters :=
      lt_of_le_of_ne hbounded.iter fun heq => hended (hlast heq)
    obtain ⟨turns, kept, chosen, events, hturns, -, hpass⟩ :=
      agenticPass_spec s d { st with iter := st.iter + 1 } (by simpa using hended)
    have hnext := hbounded.pass hiter hturns hpass
    simp only
    split
    · exact ⟨hnext.finish _, fun _ => rfl⟩
    · rename_i hgoes
      refine ⟨hnext, fun heq => ?_⟩
      by_contra hnone
      exact hgoes ⟨by simpa using hnone, heq.ge⟩

theorem iter_step (s : AgenticSetup) (st : AgenticState) (d : PassDraw)
    (hended : ¬ (AgenticLoop.step s st d).ended.isSome) :
    ¬ st.ended.isSome ∧ (AgenticLoop.step s st d).iter = st.iter + 1 := by
  unfold AgenticLoop.step at hended ⊢
  by_cases hst : st.ended.isSome
  · rw [if_pos hst] at hended
    exact absurd hst hended
  · obtain ⟨_, _, _, _, -, -, hpass⟩ :=
      agenticPass_spec s d { st with iter := st.iter + 1 } (by simpa using hst)
    rw [if_neg hst]
    refine ⟨hst, ?_⟩
    simp only
    split <;> exact hpass.iter

theorem bounded_run (s : AgenticSetup) (draws : List PassDraw) :
    Bounded s (Machine.run (AgenticLoop.step s) (AgenticLoop.initial s) draws) ∧
      ((Machine.run (AgenticLoop.step s) (AgenticLoop.initial s) draws).iter = agenticMaxIters →
        (Machine.run (AgenticLoop.step s) (AgenticLoop.initial s) draws).ended.isSome) :=
  Machine.run_of_inv
    (I := fun st => Bounded s st ∧ (st.iter = agenticMaxIters → st.ended.isSome))
    (fun _ d h _ => bounded_step d h)
    ⟨bounded_initial s, fun heq => absurd heq (by simp [AgenticLoop.initial, agenticMaxIters])⟩
    Machine.along_true

/-- **A run ends** after at most 20 passes. -/
theorem ended_run (s : AgenticSetup) {draws : List PassDraw} (hlen : 20 ≤ draws.length) :
    (Machine.run (AgenticLoop.step s) (AgenticLoop.initial s) draws).ended.isSome := by
  obtain ⟨hbounded, hlast⟩ := bounded_run s draws
  by_contra hnot
  have hcount := (Machine.count_run (fun st : AgenticState => st.ended.isSome) (iter_step s) hnot).2
  have hiter : (Machine.run (AgenticLoop.step s) (AgenticLoop.initial s) draws).iter ≤ 20 :=
    hbounded.iter
  have hzero : (AgenticLoop.initial s).iter = 0 := rfl
  exact hnot (hlast (show _ = 20 by omega))

end Run

/-- **A run keeps within its bounds**, whatever the model answers: it ends after at most 20
passes, with at most 20 turns of the model; no pass makes more than four calls, nor two that
are the same; no call is made more than four times; and where there is a list of allowed
tools that is not empty, no other local tool is called. -/
theorem agentic_bounds (s : AgenticSetup) (draws : List PassDraw) :
    (20 ≤ draws.length →
      (Machine.run (AgenticLoop.step s) (AgenticLoop.initial s) draws).ended.isSome) ∧
    (Machine.run (AgenticLoop.step s) (AgenticLoop.initial s) draws).turns.length ≤ 20 ∧
    (∀ pass, (callsMadeIn (Machine.run (AgenticLoop.step s) (AgenticLoop.initial s) draws).events
        pass).length ≤ 4 ∧
      ((callsMadeIn (Machine.run (AgenticLoop.step s) (AgenticLoop.initial s) draws).events
        pass).map callKey).Nodup) ∧
    (∀ key, ((callsMade (Machine.run (AgenticLoop.step s) (AgenticLoop.initial s) draws).events).map
      callKey).count key ≤ 4) ∧
    ∀ pass call, ToolEvent.ran pass true call ∈
        (Machine.run (AgenticLoop.step s) (AgenticLoop.initial s) draws).events →
      ∀ names, s.allowedLocalTools = some names → names ≠ [] → call.name ∈ names := by
  obtain ⟨hbounded, -⟩ := bounded_run s draws
  refine ⟨ended_run s, hbounded.turns.trans hbounded.iter,
    fun pass => ⟨hbounded.few pass, hbounded.different pass⟩, fun key => ?_, ?_⟩
  · generalize Machine.run (AgenticLoop.step s) (AgenticLoop.initial s) draws = st at *
    -- equal calls have equal signatures, and those are in the history
    let sigOf : String × String → CallSig := fun key => (key.1, s.calls.hashArgs key.2)
    calc ((callsMade st.events).map callKey).count key
        ≤ (((callsMade st.events).map callKey).map sigOf).count (sigOf key) :=
          List.count_le_count_map
      _ = ((callsMade st.events).map (callSig s)).count (sigOf key) := by
          rw [List.map_map]
          rfl
      _ ≤ st.toolCallHistory.count (sigOf key) := hbounded.made.count_le _
      _ ≤ 4 := hbounded.capped _
  · intro pass call hran names hnames hne
    have hallowed : s.allows call.name := hbounded.allowed _ hran rfl
    unfold AgenticSetup.allows at hallowed
    rw [hnames] at hallowed
    simpa [hne] using hallowed

/-! ## An empty list -/

/-- A run with an empty list of tools, and a model that answers with one call. -/
def anyTool (call : ParsedToolCall) : AgenticSetup where
  prompts := ⟨"", "", "", "", "", "", "", "", "", "", "", "", "", "", "", "", "", "", ""⟩
  calls := {
    parseToolCalls := fun _ => [call]
    extractAnswer := id
    pruneStringConversation := fun conversation _ _ => some conversation
    pruneConversation := fun messages _ => some messages
    hashArgs := fun _ => 0
    toLowercase := id }
  registry := true
  mcp := false
  allowedLocalTools := some []
  systemPrefix := ""
  conversationBody := ""
  model := "llama"
  maxTokens := 64
  temperature := 0
  modelCtxChars := 4000

/-- A pass in which the model answers and a tool puts nothing out. -/
def oneAnswer (text : String) : PassDraw where
  cancelled := false
  infer _ _ _ _ := .ok ⟨text, 1, 1, "local", none⟩
  mcpToolCount := 0
  localTools := ["shell"]
  callMcp _ _ := .error ""
  executeLocal _ _ := .ok ""
  durationMs _ _ := 0
  clock := ""

/-- An empty list allows every tool. -/
theorem empty_list_allows :
    (anyTool ⟨"shell", .null⟩).allowedLocalTools = some [] ∧
      ToolEvent.ran 1 true ⟨"shell", .null⟩ ∈
        (Machine.run (AgenticLoop.step (anyTool ⟨"shell", .null⟩))
          (AgenticLoop.initial (anyTool ⟨"shell", .null⟩)) [oneAnswer "shell"]).events :=
  ⟨rfl, by
    have hevents : (Machine.run (AgenticLoop.step (anyTool ⟨"shell", .null⟩))
        (AgenticLoop.initial (anyTool ⟨"shell", .null⟩)) [oneAnswer "shell"]).events =
        [.ran 1 true ⟨"shell", .null⟩] := by rfl
    rw [hevents]
    exact List.mem_singleton_self _⟩

end PeerClaw
