import PeerClaw.Agent.Bounds

/-!
# What a pass notes

The events of a run of the unified loop only grow, and each event of a call that was
made says with what: a call is one of an MCP tool exactly when there is a colon in its
name.  A call that the agent may make is made when an answer of the model has nothing
else in it.

* `Adds` — a part of a run that adds such events, and `step_adds` for a step.
* `execCall_ran`, …, `step_ran` — the call of an answer is made.
-/

namespace PeerClaw

open Lib

/-- A call that goes to an MCP server has a colon in its name. -/
def ToolEvent.Named : ToolEvent → Prop
  | .ran _ false call => ':' ∈ call.name.toList
  | .ran _ true _ | .blocked _ _ | .refused _ _ => True

/-- Some events are added, all of this kind. -/
def AddsOnly (P : ToolEvent → Prop) (st st' : AgenticState) : Prop :=
  ∃ es, st'.events = st.events ++ es ∧ ∀ e ∈ es, P e

/-- Some events are added, and MCP calls among them have a colon in their names. -/
def Adds (st st' : AgenticState) : Prop :=
  ∃ es, st'.events = st.events ++ es ∧ ∀ e ∈ es, e.Named

section Adds

variable {P : ToolEvent → Prop} {st st' st'' : AgenticState} {e : ToolEvent}

theorem AddsOnly.of_follows (h : Follows st st' []) : AddsOnly P st st' := ⟨[], h.events, nofun⟩

theorem AddsOnly.trans (h : AddsOnly P st st') (h' : AddsOnly P st' st'') : AddsOnly P st st'' := by
  obtain ⟨es, hes, hkind⟩ := h
  obtain ⟨fs, hfs, hkind'⟩ := h'
  refine ⟨es ++ fs, by rw [hfs, hes, List.append_assoc], fun e he => ?_⟩
  rcases List.mem_append.1 he with he | he
  · exact hkind e he
  · exact hkind' e he

theorem AddsOnly.note (st : AgenticState) (he : P e) : AddsOnly P st (st.note e) :=
  ⟨[e], rfl, fun f hf => by
    rw [List.mem_singleton.1 hf]
    exact he⟩

theorem AddsOnly.mem (h : AddsOnly P st st') (he : e ∈ st.events) : e ∈ st'.events := by
  obtain ⟨es, hes, -⟩ := h
  rw [hes]
  exact List.mem_append_left _ he

theorem Adds.of_follows (h : Follows st st' []) : Adds st st' := AddsOnly.of_follows h

theorem Adds.trans (h : Adds st st') (h' : Adds st' st'') : Adds st st'' := AddsOnly.trans h h'

theorem Adds.mem (h : Adds st st') (he : e ∈ st.events) : e ∈ st'.events := AddsOnly.mem h he

theorem Adds.named (h : Adds st st') (hst : ∀ e ∈ st.events, e.Named) :
    ∀ e ∈ st'.events, e.Named := by
  obtain ⟨es, hes, hnamed⟩ := h
  rw [hes]
  intro e he
  rcases List.mem_append.1 he with he | he
  · exact hst e he
  · exact hnamed e he

end Adds

/-- A kind of events to which those of making calls belong. -/
structure ToolEvent.OfCalls (P : ToolEvent → Prop) : Prop where
  mcp : ∀ pass call, ':' ∈ call.name.toList → P (.ran pass false call)
  isLocal : ∀ pass call, P (.ran pass true call)
  refused : ∀ pass call, P (.refused pass call)

theorem ToolEvent.ofCalls_named : OfCalls Named := ⟨fun _ _ h => h, fun _ _ => trivial, fun _ _ => trivial⟩

/-! ## The parts of a pass -/

section Parts

variable (s : AgenticSetup) (d : PassDraw) (st : AgenticState) (inf : AgenticTurnOutcome)
  (call : ParsedToolCall)

theorem callTool_adds {P : ToolEvent → Prop} (hP : ToolEvent.OfCalls P) :
    AddsOnly P st (callTool s d st call).1 := by
  unfold callTool
  by_cases hmcp : ':' ∈ call.name.toList
  · rw [if_pos hmcp]
    cases s.mcp with
    | false => exact .of_follows (Follows.refl st)
    | true =>
      simp only [if_true]
      cases d.callMcp call.name call.args with
      | error e => exact .note st (hP.mcp st.iter call hmcp)
      | ok result => exact .note st (hP.mcp st.iter call hmcp)
  · rw [if_neg hmcp]
    cases s.registry with
    | false => exact .of_follows (Follows.refl st)
    | true =>
      simp only [if_true]
      cases d.executeLocal call.name call.args with
      | error e => exact .note st (hP.isLocal st.iter call)
      | ok output => exact .note st (hP.isLocal st.iter call)

theorem execCall_after (hmay : ':' ∈ call.name.toList ∨ s.allows call.name) :
    Follows (callTool s d st call).1 (execCall s d st call).1 [] := by
  unfold execCall
  have hnot : ¬ (':' ∉ call.name.toList ∧ !s.allows call.name) := by
    rintro ⟨hmcp, hallow⟩
    rw [Bool.not_eq_true'] at hallow
    rw [hallow] at hmay
    exact hmay.elim hmcp nofun
  rw [if_neg hnot]
  cases hcall : callTool s d st call with
  | mk st' result =>
    have hrecorded := Follows.record d st' call result.1 (logPreview result.1) result.2
      (d.durationMs call.name call.args)
    cases htext : truncatedSummary result.1 with
    | none =>
      simp only [htext]
      exact hrecorded.keep (Follows.finish _ rfl)
    | some text =>
      simp only [htext]
      exact hrecorded.keep (Follows.say ..)

theorem execCall_adds {P : ToolEvent → Prop} (hP : ToolEvent.OfCalls P) :
    AddsOnly P st (execCall s d st call).1 := by
  by_cases hmay : ':' ∈ call.name.toList ∨ s.allows call.name
  · exact (callTool_adds s d st call hP).trans (.of_follows (execCall_after s d st call hmay))
  · rw [not_or] at hmay
    unfold execCall
    rw [if_pos ⟨hmay.1, by simpa using hmay.2⟩]
    exact (AddsOnly.note st (hP.refused st.iter call)).trans
      (.of_follows ((Follows.record ..).keep (Follows.say ..)))

theorem execCalls_adds {P : ToolEvent → Prop} (hP : ToolEvent.OfCalls P)
    (calls : List ParsedToolCall) : AddsOnly P st (execCalls s d calls st).1 := by
  induction calls generalizing st with
  | nil => exact .of_follows (Follows.refl st)
  | cons call calls ih =>
    have hcall : AddsOnly P st (execCall s d st call).1 := execCall_adds s d st call hP
    unfold execCalls
    cases hexec : execCall s d st call with
    | mk st' failed =>
      rw [hexec] at hcall
      simp only
      by_cases hended : st'.ended.isSome
      · rw [if_pos hended]
        exact hcall
      · rw [if_neg hended]
        exact hcall.trans (ih st')

theorem execCalls_first (calls : List ParsedToolCall) :
    Adds (execCall s d st call).1 (execCalls s d (call :: calls) st).1 := by
  rw [execCalls]
  cases hexec : execCall s d st call with
  | mk st' failed =>
    simp only
    by_cases hended : st'.ended.isSome
    · rw [if_pos hended]
      exact .of_follows (Follows.refl st')
    · rw [if_neg hended]
      exact execCalls_adds s d st' ToolEvent.ofCalls_named calls

theorem runCalls_after (kept : List ParsedToolCall) :
    ∃ said, Follows st said [] ∧
      Follows (execCalls s d ((mergeCalls kept []).take agenticMaxToolCallsPerPass) said).1
        (runCalls s d st inf kept) [] ∧
      ((runCalls s d st inf kept).ended = none →
        (execCalls s d ((mergeCalls kept []).take agenticMaxToolCallsPerPass) said).1.ended =
          none) := by
  refine ⟨announceCalls s st inf (kept.length - (mergeCalls kept []).length)
    ((mergeCalls kept []).length - ((mergeCalls kept []).take agenticMaxToolCallsPerPass).length),
    Follows.say .., ?_⟩
  unfold runCalls
  simp only
  generalize execCalls s d _ _ = made
  obtain ⟨st', failures⟩ := made
  simp only
  split
  · exact ⟨Follows.refl st', id⟩
  · rename_i hgoes
    exact ⟨followUp_follows s st' _ _, fun _ => by simpa using hgoes⟩

theorem runCalls_adds {P : ToolEvent → Prop} (hP : ToolEvent.OfCalls P)
    (kept : List ParsedToolCall) : AddsOnly P st (runCalls s d st inf kept) := by
  obtain ⟨said, hsaid, hafter, -⟩ := runCalls_after s d st inf kept
  exact ((AddsOnly.of_follows hsaid).trans (execCalls_adds s d said hP _)).trans (.of_follows hafter)

/-- The state in which the calls that are left are looked at. -/
def notedState (calls : List ParsedToolCall) : AgenticState :=
  let filtered := filterCalls s st.iter calls st.toolCallHistory
  let st := { st with
    toolCallHistory := filtered.history
    events := st.events ++ filtered.events }
  if filtered.warnings.isEmpty then st
  else st.say ("\n" ++ Text.join "" (filtered.warnings.map fun w => w ++ "\n"))

theorem toolPass_eq (calls : List ParsedToolCall) :
    toolPass s d st inf calls =
      if (filterCalls s st.iter calls st.toolCallHistory).kept.isEmpty then
        answerWith (notedState s st calls) inf
          (answerText s inf (Text.trim s.prompts.unifiedAllCallsBlocked))
      else runCalls s d (notedState s st calls) inf
        (filterCalls s st.iter calls st.toolCallHistory).kept := rfl

theorem notedState_adds (calls : List ParsedToolCall) : Adds st (notedState s st calls) := by
  obtain ⟨-, -, hevents⟩ := filterCalls_spec s st.iter calls st.toolCallHistory
  refine ⟨(filterCalls s st.iter calls st.toolCallHistory).events, ?_, fun e he => ?_⟩
  · unfold notedState
    simp only
    split
    · rfl
    · rfl
  · have hmade := (hevents e he).2
    cases e with
    | ran pass isLocal call => cases hmade
    | blocked pass call => trivial
    | refused pass call => trivial

theorem toolPass_adds (calls : List ParsedToolCall) : Adds st (toolPass s d st inf calls) := by
  rw [toolPass_eq]
  refine (notedState_adds s st calls).trans ?_
  split
  · exact .of_follows (Follows.answer ..)
  · exact runCalls_adds s d _ inf ToolEvent.ofCalls_named _

theorem turnPass_adds : Adds st (turnPass s d st inf) := by
  let turned : AgenticState := { st with
    totalTokens := saturatingAdd st.totalTokens inf.tokensGenerated
    turns := st.turns ++ [inf] }
  have hturned : Adds st turned := ⟨[], (List.append_nil _).symm, nofun⟩
  refine hturned.trans ?_
  unfold turnPass
  simp only
  split
  · exact .of_follows (retryPass_follows s turned)
  · split
    · exact .of_follows (finalPass_follows s d turned inf)
    · exact toolPass_adds s d turned inf _

/-- The state in which the model is asked, with this conversation. -/
def askedState (conversation : String) : AgenticState :=
  let st := { st with conversation := conversation }
  if st.iter = agenticMaxIters then
    st.say ("\n\n" ++ Text.trim s.prompts.unifiedFinalTurnSuffix ++ "\n")
  else st

theorem askedState_follows (conversation : String) : Follows st (askedState s st conversation) [] := by
  unfold askedState
  simp only
  split
  · exact Follows.same rfl rfl rfl rfl rfl rfl
  · exact Follows.same rfl rfl rfl rfl rfl rfl

/-- The prompt of the model. -/
def askedPrompt (st : AgenticState) : String :=
  if st.iter = 1 then st.conversation ++ s.prompts.unifiedAssistantTurnMarker else st.conversation

theorem agenticPass_of_some {conversation : String}
    (h : compacted s st.conversation = some conversation) :
    agenticPass s d st =
      if d.cancelled then (askedState s st conversation).finish (.err "Stopped by user")
      else
        match d.infer (askedPrompt s (askedState s st conversation)) s.model s.requestedTokens
            s.temperature with
        | .error e => (askedState s st conversation).finish (.err e)
        | .ok inf => turnPass s d (askedState s st conversation) inf := by
  unfold agenticPass
  rw [h]
  rfl

theorem agenticPass_adds : Adds st (agenticPass s d st) := by
  cases hcompacted : compacted s st.conversation with
  | none =>
    unfold agenticPass
    rw [hcompacted]
    exact .of_follows (Follows.finish st rfl)
  | some conversation =>
    have hasked := askedState_follows s st conversation
    rw [agenticPass_of_some s d st hcompacted]
    split
    · exact .of_follows (hasked.keep (Follows.finish _ rfl))
    · split
      · exact .of_follows (hasked.keep (Follows.finish _ rfl))
      · exact (Adds.of_follows hasked).trans (turnPass_adds s d _ _)

theorem step_adds : Adds st (AgenticLoop.step s st d) := by
  unfold AgenticLoop.step
  split
  · exact .of_follows (Follows.refl st)
  · have hpass : Adds st (agenticPass s d { st with iter := st.iter + 1 }) :=
      agenticPass_adds s d { st with iter := st.iter + 1 }
    simp only
    split
    · exact hpass.trans (.of_follows (Follows.finish _ rfl))
    · exact hpass

end Parts

section Run

variable {s : AgenticSetup} {st : AgenticState} {e : ToolEvent}

theorem mem_run (draws : List PassDraw) (he : e ∈ st.events) :
    e ∈ (Machine.run (AgenticLoop.step s) st draws).events := by
  induction draws generalizing st with
  | nil => exact he
  | cons d draws ih =>
    rw [Machine.run_cons]
    exact ih ((step_adds s d st).mem he)

/-- **In a run** every call that goes to an MCP server has a colon in its name. -/
theorem named_run (s : AgenticSetup) (draws : List PassDraw) :
    ∀ e ∈ (Machine.run (AgenticLoop.step s) (AgenticLoop.initial s) draws).events, e.Named :=
  Machine.run_of_inv (I := fun st : AgenticState => ∀ e ∈ st.events, e.Named)
    (fun st d hst _ => (step_adds s d st).named hst) nofun Machine.along_true

end Run

/-! ## A call that is made -/

section Made

variable (s : AgenticSetup) (d : PassDraw) (st : AgenticState) (inf : AgenticTurnOutcome)
  (call : ParsedToolCall)

/-- The agent may make the call: with an MCP server, or with a local tool that is allowed. -/
structure MayCall : Prop where
  mcp : ':' ∈ call.name.toList → s.mcp
  isLocal : ':' ∉ call.name.toList → s.registry ∧ s.allows call.name

/-- The event of the call. -/
def ranEvent : ToolEvent := .ran st.iter (decide (':' ∉ call.name.toList)) call

variable {s call}

theorem callTool_ran (hmay : MayCall s call) :
    ranEvent st call ∈ (callTool s d st call).1.events := by
  unfold callTool ranEvent
  by_cases hmcp : ':' ∈ call.name.toList
  · rw [if_pos hmcp, if_pos (hmay.mcp hmcp), decide_eq_false (not_not_intro hmcp)]
    simp only
    split
    · exact List.mem_append_right _ (List.mem_singleton_self _)
    · exact List.mem_append_right _ (List.mem_singleton_self _)
  · rw [if_neg hmcp, if_pos (hmay.isLocal hmcp).1, decide_eq_true hmcp]
    simp only
    split
    · exact List.mem_append_right _ (List.mem_singleton_self _)
    · exact List.mem_append_right _ (List.mem_singleton_self _)

theorem execCall_ran (hmay : MayCall s call) : ranEvent st call ∈ (execCall s d st call).1.events := by
  have hallowed : ':' ∈ call.name.toList ∨ s.allows call.name := by
    by_cases hmcp : ':' ∈ call.name.toList
    · exact .inl hmcp
    · exact .inr (hmay.isLocal hmcp).2
  exact (Adds.of_follows (execCall_after s d st call hallowed)).mem (callTool_ran d st hmay)

theorem runCalls_ran (hmay : MayCall s call) :
    ranEvent st call ∈ (runCalls s d st inf [call]).events := by
  obtain ⟨said, hsaid, hafter, -⟩ := runCalls_after s d st inf [call]
  have hran : ranEvent said call ∈ (execCalls s d [call] said).1.events :=
    (execCalls_first s d said call []).mem (execCall_ran d said hmay)
  have hiter : ranEvent said call = ranEvent st call := by rw [ranEvent, ranEvent, hsaid.iter]
  rw [hiter] at hran
  exact (Adds.of_follows hafter).mem hran

/-- A call that has not been let through four times is made, if it is the only one. -/
theorem toolPass_ran (hmay : MayCall s call) (hnew : st.toolCallHistory.count (callSig s call) < 4) :
    ranEvent st call ∈ (toolPass s d st inf [call]).events := by
  have hkept : (filterCalls s st.iter [call] st.toolCallHistory).kept = [call] := by
    simp only [filterCalls, if_neg (not_le.2 hnew)]
  have hiter : (notedState s st [call]).iter = st.iter := by
    unfold notedState
    simp only
    split
    · rfl
    · rfl
  rw [toolPass_eq, hkept]
  have hran := runCalls_ran d (notedState s st [call]) inf hmay
  rw [ranEvent, hiter] at hran
  exact hran

theorem turnPass_ran (hmay : MayCall s call) (hnew : st.toolCallHistory.count (callSig s call) < 4)
    (hinf : inf.isError = false) (hparse : s.calls.parseToolCalls inf.text = [call]) :
    ranEvent st call ∈ (turnPass s d st inf).events := by
  unfold turnPass
  rw [hinf, hparse]
  exact toolPass_ran d { st with
    totalTokens := saturatingAdd st.totalTokens inf.tokensGenerated
    turns := st.turns ++ [inf] } inf hmay hnew

/-- **A call is made** when the answer of the model has only this call, and it has not been made
too often. -/
theorem step_ran (hmay : MayCall s call) (hnew : st.toolCallHistory.count (callSig s call) < 4)
    (hended : st.ended = none) (hcompact : (compacted s st.conversation).isSome)
    (hcancelled : d.cancelled = false)
    (hinfer : ∀ prompt, d.infer prompt s.model s.requestedTokens s.temperature = .ok inf)
    (hinf : inf.isError = false) (hparse : s.calls.parseToolCalls inf.text = [call]) :
    .ran (st.iter + 1) (decide (':' ∉ call.name.toList)) call ∈
      (AgenticLoop.step s st d).events := by
  obtain ⟨conversation, hconversation⟩ := Option.isSome_iff_exists.1 hcompact
  let begun : AgenticState := { st with iter := st.iter + 1 }
  let asked := askedState s begun conversation
  have hasked : Follows begun asked [] := askedState_follows s begun conversation
  have hcount : asked.toolCallHistory.count (callSig s call) < 4 := by
    rw [hasked.history]
    exact hnew
  have hpass : agenticPass s d begun = turnPass s d asked inf := by
    rw [agenticPass_of_some s d begun hconversation, hcancelled, hinfer]
    rfl
  have hran : .ran (st.iter + 1) (decide (':' ∉ call.name.toList)) call ∈
      (agenticPass s d begun).events := by
    have hturn := turnPass_ran d asked inf hmay hcount hinf hparse
    rw [ranEvent, hasked.iter] at hturn
    rw [hpass]
    exact hturn
  have hgoes : ¬ st.ended.isSome := by
    rw [hended]
    exact nofun
  unfold AgenticLoop.step
  rw [if_neg hgoes]
  simp only
  split
  · exact hran
  · exact hran

end Made

end PeerClaw
