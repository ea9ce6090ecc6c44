import PeerClaw.Agent.UnifiedLoop
import Mathlib.Data.List.Nodup
import Mathlib.Data.List.Count

/-!
# What a pass of the unified loop does

A pass asks the model once, lets some of the calls in its answer through and makes
some of those.  What the rest of the development has to know of a pass is said
here once, for every answer of the model and of the tools: how the history of calls,
the count of tokens and the result change, and which calls are made.

* `filterCalls_spec`, `mergeCalls_spec` — what the history and the merging do.
* `Follows` — a part of a pass in which the model is not asked.
* `agenticPass_spec` — **what a pass does.**
-/

namespace PeerClaw

open Lib

/-! ## The calls of a run -/

namespace ToolEvent

/-- The pass in which it happens. -/
def pass : ToolEvent → ℕ
  | ran pass _ _ | blocked pass _ | refused pass _ => pass

/-- The call, if it is made. -/
def made : ToolEvent → Option ParsedToolCall
  | ran _ _ call => some call
  | blocked _ _ | refused _ _ => none

/-- A local tool is called only if it is allowed. -/
def Allowed (s : AgenticSetup) : ToolEvent → Prop
  | ran _ isLocal call => isLocal → s.allows call.name
  | blocked _ _ | refused _ _ => True

end ToolEvent

/-- The calls that are made. -/
def callsMade (events : List ToolEvent) : List ParsedToolCall := events.filterMap ToolEvent.made

/-- The calls that are made in a pass. -/
def callsMadeIn (events : List ToolEvent) (pass : ℕ) : List ParsedToolCall :=
  callsMade (events.filter fun e => e.pass = pass)

section Made

variable {es fs : List ToolEvent}

@[simp] theorem callsMade_append : callsMade (es ++ fs) = callsMade es ++ callsMade fs :=
  List.filterMap_append

@[simp] theorem callsMadeIn_append (pass : ℕ) :
    callsMadeIn (es ++ fs) pass = callsMadeIn es pass ++ callsMadeIn fs pass := by
  simp [callsMadeIn]

theorem callsMadeIn_eq_nil {pass : ℕ} (h : ∀ e ∈ es, e.pass ≠ pass) : callsMadeIn es pass = [] := by
  have hnone : es.filter (fun e => e.pass = pass) = [] := by simpa using h
  rw [callsMadeIn, hnone]
  rfl

theorem callsMadeIn_eq_all {pass : ℕ} (h : ∀ e ∈ es, e.pass = pass) :
    callsMadeIn es pass = callsMade es := by
  have hall : es.filter (fun e => e.pass = pass) = es := by simpa using h
  rw [callsMadeIn, hall]

end Made

/-! ## Filtering and merging -/

/-- **Filtering.**  The calls that are kept go into the history, in which no signature gets
more than four places, and those that are dropped are not made. -/
theorem filterCalls_spec (s : AgenticSetup) (pass : ℕ) (calls : List ParsedToolCall)
    (history : List CallSig) :
    (filterCalls s pass calls history).history =
        history ++ (filterCalls s pass calls history).kept.map (callSig s) ∧
      ((∀ sig, history.count sig ≤ 4) →
        ∀ sig, (filterCalls s pass calls history).history.count sig ≤ 4) ∧
      ∀ e ∈ (filterCalls s pass calls history).events, e.pass = pass ∧ e.made = none := by
  induction calls generalizing history with
  | nil => simp [filterCalls]
  | cons call calls ih =>
      unfold filterCalls
      by_cases hblocked : 4 ≤ history.count (callSig s call)
      · obtain ⟨hhistory, hcapped, hevents⟩ := ih history
        simp only [if_pos hblocked]
        refine ⟨hhistory, hcapped, fun e he => ?_⟩
        rcases List.mem_cons.1 he with rfl | he
        · exact ⟨rfl, rfl⟩
        · exact hevents e he
      · obtain ⟨hhistory, hcapped, hevents⟩ := ih (history ++ [callSig s call])
        simp only [if_neg hblocked]
        refine ⟨?_, fun h => hcapped fun sig => ?_, hevents⟩
        · rw [hhistory]
          simp
        · -- the one signature that gets a place had less than four
          rw [List.count_append, List.count_singleton]
          have hsig := h sig
          split
          · rename_i heq
            rw [beq_iff_eq] at heq
            subst heq
            omega
          · exact hsig

/-- **Merging** keeps some of the calls, in their order, and no two that are the same. -/
theorem mergeCalls_spec (calls : List ParsedToolCall) (seen : List (String × String)) :
    (mergeCalls calls seen).Sublist calls ∧ ((mergeCalls calls seen).map callKey).Nodup ∧
      ∀ call ∈ mergeCalls calls seen, callKey call ∉ seen := by
  induction calls generalizing seen with
  | nil => simp [mergeCalls]
  | cons call calls ih =>
      unfold mergeCalls
      by_cases hseen : callKey call ∈ seen
      · obtain ⟨hsub, hnodup, hnew⟩ := ih seen
        rw [if_pos hseen]
        exact ⟨hsub.cons call, hnodup, hnew⟩
      · obtain ⟨hsub, hnodup, hnew⟩ := ih (callKey call :: seen)
        rw [if_neg hseen]
        refine ⟨hsub.cons_cons call, ?_, fun c hc => ?_⟩
        · rw [List.map_cons, List.nodup_cons]
          refine ⟨fun hmem => ?_, hnodup⟩
          obtain ⟨c, hc, hkey⟩ := List.mem_map.1 hmem
          exact hnew c hc (by simp [hkey])
        · rcases List.mem_cons.1 hc with rfl | hc
          · exact hseen
          · exact fun hmem => hnew c hc (List.mem_cons_of_mem _ hmem)

/-! ## The calls of a pass -/

/-- What has happened to some calls in a pass: those that were made are among them, in their
order. -/
structure Happens (s : AgenticSetup) (pass : ℕ) (calls : List ParsedToolCall)
    (events : List ToolEvent) : Prop where
  made : (callsMade events).Sublist calls
  pass : ∀ e ∈ events, e.pass = pass
  allowed : ∀ e ∈ events, e.Allowed s

/-- A result is an error, or says how many tokens there were. -/
def Settles (total : UInt32) : Option (Outcome String AgenticOutput) → Prop
  | some (.ok out) => out.outcome.tokensGenerated = total
  | some (.err _) | some .panic | none => True

/-- A state that comes from another without a turn of the model. -/
structure Follows (st st' : AgenticState) (events : List ToolEvent) : Prop where
  iter : st'.iter = st.iter
  turns : st'.turns = st.turns
  total : st'.totalTokens = st.totalTokens
  history : st'.toolCallHistory = st.toolCallHistory
  events : st'.events = st.events ++ events
  settles : Settles st.totalTokens st.ended → Settles st'.totalTokens st'.ended

section Happens

variable {s : AgenticSetup} {pass : ℕ}

theorem Happens.none {calls : List ParsedToolCall} : Happens s pass calls [] :=
  ⟨List.nil_sublist _, by simp, by simp⟩

theorem Happens.append {calls more : List ParsedToolCall} {es fs : List ToolEvent}
    (h : Happens s pass calls es) (h' : Happens s pass more fs) :
    Happens s pass (calls ++ more) (es ++ fs) where
  made := by
    rw [callsMade_append]
    exact h.made.append h'.made
  pass e he := (List.mem_append.1 he).elim (h.pass e) (h'.pass e)
  allowed e he := (List.mem_append.1 he).elim (h.allowed e) (h'.allowed e)

theorem Happens.mono {calls more : List ParsedToolCall} {es : List ToolEvent}
    (h : Happens s pass calls es) (hsub : calls.Sublist more) : Happens s pass more es :=
  ⟨h.made.trans hsub, h.pass, h.allowed⟩

theorem Happens.ran {isLocal : Bool} {call : ParsedToolCall}
    (h : isLocal → s.allows call.name) : Happens s pass [call] [.ran pass isLocal call] where
  made := List.Sublist.refl _
  pass e he := by
    obtain rfl := List.mem_singleton.1 he
    rfl
  allowed e he := by
    obtain rfl := List.mem_singleton.1 he
    exact h

theorem Happens.refused {call : ParsedToolCall} :
    Happens s pass [call] [.refused pass call] where
  made := List.nil_sublist _
  pass e he := by
    obtain rfl := List.mem_singleton.1 he
    rfl
  allowed e he := by
    obtain rfl := List.mem_singleton.1 he
    trivial

end Happens

section Follows

variable {st st' st'' : AgenticState} {es fs : List ToolEvent}

theorem Follows.same (hiter : st'.iter = st.iter) (hturns : st'.turns = st.turns)
    (htotal : st'.totalTokens = st.totalTokens)
    (hhistory : st'.toolCallHistory = st.toolCallHistory) (hevents : st'.events = st.events)
    (hended : st'.ended = st.ended) : Follows st st' [] where
  iter := hiter
  turns := hturns
  total := htotal
  history := hhistory
  events := by rw [hevents, List.append_nil]
  settles h := by rwa [htotal, hended]

theorem Follows.refl (st : AgenticState) : Follows st st [] := Follows.same rfl rfl rfl rfl rfl rfl

theorem Follows.trans (h : Follows st st' es) (h' : Follows st' st'' fs) :
    Follows st st'' (es ++ fs) where
  iter := h'.iter.trans h.iter
  turns := h'.turns.trans h.turns
  total := h'.total.trans h.total
  history := h'.history.trans h.history
  events := by rw [h'.events, h.events, List.append_assoc]
  settles hst := h'.settles (h.settles hst)

theorem Follows.keep (h : Follows st st' es) (h' : Follows st' st'' []) : Follows st st'' es := by
  have htrans := h.trans h'
  rwa [List.append_nil] at htrans

theorem Follows.note (st : AgenticState) (e : ToolEvent) : Follows st (st.note e) [e] :=
  ⟨rfl, rfl, rfl, rfl, rfl, id⟩

theorem Follows.say (st : AgenticState) (text : String) : Follows st (st.say text) [] :=
  Follows.same rfl rfl rfl rfl rfl rfl

theorem Follows.record (d : PassDraw) (st : AgenticState) (call : ParsedToolCall)
    (summary preview : String) (success : Bool) (durationMs : UInt64) :
    Follows st (recordCall d st call summary preview success durationMs) [] :=
  Follows.same rfl rfl rfl rfl rfl rfl

theorem Follows.finish (st : AgenticState) {outcome : Outcome String AgenticOutput}
    (h : outcome.isOk = false) : Follows st (st.finish outcome) [] := by
  refine ⟨rfl, rfl, rfl, rfl, (List.append_nil _).symm, fun _ => ?_⟩
  cases outcome with
  | ok => cases h
  | err => trivial
  | panic => trivial

theorem Follows.answer (st : AgenticState) (inf : AgenticTurnOutcome) (text : String) :
    Follows st (answerWith st inf text) [] :=
  ⟨rfl, rfl, rfl, rfl, (List.append_nil _).symm, fun _ => rfl⟩

end Follows

section Calls

variable (s : AgenticSetup) (d : PassDraw) (st : AgenticState) (call : ParsedToolCall)

theorem callTool_spec (h : ':' ∈ call.name.toList ∨ s.allows call.name) :
    ∃ events, Follows st (callTool s d st call).1 events ∧
      Happens s st.iter [call] events := by
  unfold callTool
  by_cases hmcp : ':' ∈ call.name.toList
  · rw [if_pos hmcp]
    cases s.mcp with
    | false => exact ⟨[], Follows.refl st, Happens.none⟩
    | true =>
        have hran : Happens s st.iter [call] [.ran st.iter false call] := Happens.ran nofun
        refine ⟨_, ?_, hran⟩
        simp only [if_true]
        cases d.callMcp call.name call.args <;> exact Follows.note st _
  · rw [if_neg hmcp]
    cases s.registry with
    | false => exact ⟨[], Follows.refl st, Happens.none⟩
    | true =>
        have hallowed : s.allows call.name := h.resolve_left hmcp
        have hran : Happens s st.iter [call] [.ran st.iter true call] :=
          Happens.ran fun _ => hallowed
        refine ⟨_, ?_, hran⟩
        simp only [if_true]
        cases d.executeLocal call.name call.args <;> exact Follows.note st _

theorem execCall_spec : ∃ events, Follows st (execCall s d st call).1 events ∧
    Happens s st.iter [call] events := by
  unfold execCall
  by_cases hrefused : ':' ∉ call.name.toList ∧ !s.allows call.name
  · rw [if_pos hrefused]
    exact ⟨_, ((Follows.note st _).keep (Follows.record ..)).keep (Follows.say ..), Happens.refused⟩
  · rw [if_neg hrefused]
    have hmay : ':' ∈ call.name.toList ∨ s.allows call.name := by
      by_contra hnot
      rw [not_or] at hnot
      exact hrefused ⟨hnot.1, by simpa using hnot.2⟩
    obtain ⟨events, hfollows, hhappens⟩ := callTool_spec s d st call hmay
    refine ⟨events, ?_, hhappens⟩
    cases hcall : callTool s d st call with
    | mk st' result =>
        rw [hcall] at hfollows
        have hrecorded := fun preview => hfollows.keep
          (Follows.record d st' call result.1 preview result.2 (d.durationMs call.name call.args))
        cases htext : truncatedSummary result.1 with
        | none =>
            simp only [htext]
            exact (hrecorded _).keep (Follows.finish _ rfl)
        | some text =>
            simp only [htext]
            exact (hrecorded _).keep (Follows.say ..)

theorem execCalls_spec (calls : List ParsedToolCall) :
    ∃ events, Follows st (execCalls s d calls st).1 events ∧
      Happens s st.iter calls events := by
  induction calls generalizing st with
  | nil => exact ⟨[], Follows.refl st, Happens.none⟩
  | cons call calls ih =>
      obtain ⟨events, hfollows, hhappens⟩ := execCall_spec s d st call
      unfold execCalls
      cases hexec : execCall s d st call with
      | mk st' failed =>
          rw [hexec] at hfollows
          simp only
          by_cases hended : st'.ended.isSome
          · rw [if_pos hended]
            exact ⟨events, hfollows, hhappens.mono (List.sublist_append_left [call] calls)⟩
          · rw [if_neg hended]
            obtain ⟨rest, hfollows', hhappens'⟩ := ih st'
            rw [hfollows.iter] at hhappens'
            exact ⟨events ++ rest, hfollows.trans hfollows', hhappens.append hhappens'⟩

end Calls

/-! ## A pass -/

/-- The count of tokens after some turns. -/
def addTokens (total : UInt32) (turns : List AgenticTurnOutcome) : UInt32 :=
  turns.foldl (fun total inf => saturatingAdd total inf.tokensGenerated) total

/-- What a pass adds to a run: some calls are let through, and some of those are made, at most
four and no two that are the same. -/
structure Passes (s : AgenticSetup) (st st' : AgenticState) (turns : List AgenticTurnOutcome)
    (kept chosen : List ParsedToolCall) (events : List ToolEvent) : Prop where
  iter : st'.iter = st.iter
  turned : st'.turns = st.turns ++ turns
  total : st'.totalTokens = addTokens st.totalTokens turns
  settles : st.ended = none → Settles st'.totalTokens st'.ended
  history : st'.toolCallHistory = st.toolCallHistory ++ kept.map (callSig s)
  capped : (∀ sig, st.toolCallHistory.count sig ≤ 4) → ∀ sig, st'.toolCallHistory.count sig ≤ 4
  noted : st'.events = st.events ++ events
  happens : Happens s st.iter chosen events
  among : chosen.Sublist kept
  few : chosen.length ≤ 4
  different : (chosen.map callKey).Nodup

section Pass

variable (s : AgenticSetup) (d : PassDraw) (st : AgenticState) (inf : AgenticTurnOutcome)

theorem Follows.idle {s : AgenticSetup} {st st' : AgenticState} (h : Follows st st' []) :
    Passes s st st' [] [] [] [] where
  iter := h.iter
  turned := by simp [h.turns]
  total := h.total
  settles hended := h.settles (by rw [hended]; trivial)
  history := by simp [h.history]
  capped hcapped := by rwa [h.history]
  noted := h.events
  happens := Happens.none
  among := List.Sublist.refl _
  few := Nat.zero_le _
  different := List.nodup_nil

theorem Passes.after {s : AgenticSetup} {st st₁ st' : AgenticState}
    {turns : List AgenticTurnOutcome} {kept chosen : List ParsedToolCall}
    {events : List ToolEvent} (h : Passes s st₁ st' turns kept chosen events)
    (hfirst : Follows st st₁ []) (hended : st₁.ended = none) :
    Passes s st st' turns kept chosen events where
  iter := h.iter.trans hfirst.iter
  turned := by rw [h.turned, hfirst.turns]
  total := by rw [h.total, hfirst.total]
  settles _ := h.settles hended
  history := by rw [h.history, hfirst.history]
  capped := by
    rw [← hfirst.history]
    exact h.capped
  noted := by rw [h.noted, hfirst.events, List.append_nil]
  happens := by
    rw [← hfirst.iter]
    exact h.happens
  among := h.among
  few := h.few
  different := h.different

theorem followUp_follows (failures count : ℕ) : Follows st (followUp s st failures count) [] := by
  unfold followUp
  by_cases hsome : failures < count
  · rw [if_pos hsome, if_neg (not_le.2 hsome)]
    exact Follows.same rfl rfl rfl rfl rfl rfl
  · rw [if_neg hsome, if_pos (not_lt.1 hsome)]
    simp only
    split <;> exact Follows.same rfl rfl rfl rfl rfl rfl

theorem finalPass_follows : Follows st (finalPass s d st inf) [] := by
  unfold finalPass
  split
  · exact Follows.same rfl rfl rfl rfl rfl rfl
  · split
    · exact Follows.same rfl rfl rfl rfl rfl rfl
    · exact Follows.answer ..

theorem retryPass_follows : Follows st (retryPass s st) [] := by
  unfold retryPass
  split
  · exact Follows.same rfl rfl rfl rfl rfl rfl
  · exact Follows.finish st rfl

theorem runCalls_spec (kept : List ParsedToolCall) :
    ∃ events, Follows st (runCalls s d st inf kept) events ∧
      Happens s st.iter ((mergeCalls kept []).take agenticMaxToolCallsPerPass) events := by
  let said := announceCalls s st inf (kept.length - (mergeCalls kept []).length)
    ((mergeCalls kept []).length - ((mergeCalls kept []).take agenticMaxToolCallsPerPass).length)
  have hsaid : Follows st said [] := Follows.say ..
  obtain ⟨events, hfollows, hhappens⟩ :=
    execCalls_spec s d said ((mergeCalls kept []).take agenticMaxToolCallsPerPass)
  refine ⟨events, ?_, hhappens⟩
  have htrans : Follows st _ ([] ++ events) := hsaid.trans hfollows
  rw [List.nil_append] at htrans
  unfold runCalls
  cases hexec : execCalls s d ((mergeCalls kept []).take agenticMaxToolCallsPerPass) said with
  | mk st' failures =>
      rw [hexec] at htrans
      simp only [said] at hexec
      simp only [hexec]
      split
      · exact htrans
      · exact htrans.keep (followUp_follows s st' _ _)

theorem filterCalls_happens (calls : List ParsedToolCall) (history : List CallSig) :
    Happens s st.iter [] (filterCalls s st.iter calls history).events := by
  obtain ⟨-, -, hevents⟩ := filterCalls_spec s st.iter calls history
  refine ⟨?_, fun e he => (hevents e he).1, fun e he => ?_⟩
  · rw [callsMade, List.filterMap_eq_nil_iff.2 fun e he => (hevents e he).2]
  · have hmade := (hevents e he).2
    cases e with
    | ran => cases hmade
    | blocked => trivial
    | refused => trivial

theorem chosen_spec (kept : List ParsedToolCall) :
    ∃ chosen events, Follows st
        (if kept.isEmpty then
          answerWith st inf (answerText s inf (Text.trim s.prompts.unifiedAllCallsBlocked))
        else runCalls s d st inf kept) events ∧
      Happens s st.iter chosen events ∧ chosen.Sublist kept ∧ chosen.length ≤ 4 ∧
      (chosen.map callKey).Nodup := by
  split
  · exact ⟨[], [], Follows.answer .., Happens.none, List.nil_sublist _, Nat.zero_le _,
      List.nodup_nil⟩
  · obtain ⟨events, hfollows, hhappens⟩ := runCalls_spec s d st inf kept
    obtain ⟨hsub, hnodup, -⟩ := mergeCalls_spec kept []
    have htake := List.take_sublist agenticMaxToolCallsPerPass (mergeCalls kept [])
    exact ⟨_, events, hfollows, hhappens, htake.trans hsub, List.length_take_le _ _,
      hnodup.sublist (htake.map callKey)⟩

theorem toolPass_spec (calls : List ParsedToolCall) :
    ∃ kept chosen events, Passes s st (toolPass s d st inf calls) [] kept chosen events := by
  let filtered := filterCalls s st.iter calls st.toolCallHistory
  obtain ⟨hhistory, hcapped, -⟩ :
      filtered.history = st.toolCallHistory ++ filtered.kept.map (callSig s) ∧ _ ∧ _ :=
    filterCalls_spec s st.iter calls st.toolCallHistory
  -- the state in which the calls that are left are looked at
  let noted : AgenticState := { st with
    toolCallHistory := filtered.history
    events := st.events ++ filtered.events }
  obtain ⟨st', hst', hwarned⟩ : ∃ st', toolPass s d st inf calls =
      (if filtered.kept.isEmpty then
        answerWith st' inf (answerText s inf (Text.trim s.prompts.unifiedAllCallsBlocked))
      else runCalls s d st' inf filtered.kept) ∧ Follows noted st' [] := by
    refine ⟨_, rfl, ?_⟩
    split
    · exact Follows.refl noted
    · exact Follows.say noted _
  obtain ⟨chosen, events, hfollows, hhappens, hamong, hfew, hdifferent⟩ :=
    chosen_spec s d st' inf filtered.kept
  rw [← hst'] at hfollows
  have hall : Follows noted (toolPass s d st inf calls) ([] ++ events) := hwarned.trans hfollows
  rw [hwarned.iter] at hhappens
  refine ⟨filtered.kept, chosen, filtered.events ++ events, ?_⟩
  exact {
    iter := hall.iter
    turned := hall.turns.trans (List.append_nil _).symm
    total := hall.total
    settles := fun hended => hall.settles (by
      show Settles st.totalTokens st.ended
      rw [hended]
      trivial)
    history := hall.history.trans hhistory
    capped := fun h sig => by
      rw [hall.history]
      exact hcapped h sig
    noted := by
      rw [hall.events, List.nil_append, ← List.append_assoc]
    happens := (filterCalls_happens s st calls st.toolCallHistory).append hhappens
    among := hamong
    few := hfew
    different := hdifferent }

theorem turnPass_spec (hended : st.ended = none) :
    ∃ kept chosen events, Passes s st (turnPass s d st inf) [inf] kept chosen events := by
  let st₀ : AgenticState := { st with
    totalTokens := saturatingAdd st.totalTokens inf.tokensGenerated
    turns := st.turns ++ [inf] }
  obtain ⟨kept, chosen, events, h⟩ : ∃ kept chosen events,
      Passes s st₀ (turnPass s d st inf) [] kept chosen events := by
    unfold turnPass
    by_cases herror : inf.isError
    · rw [if_pos herror]
      exact ⟨[], [], [], (retryPass_follows s st₀).idle⟩
    · rw [if_neg herror]
      cases s.calls.parseToolCalls inf.text with
      | nil => exact ⟨[], [], [], (finalPass_follows s d st₀ inf).idle⟩
      | cons call calls => exact toolPass_spec s d st₀ inf (call :: calls)
  refine ⟨kept, chosen, events, ?_⟩
  exact {
    iter := h.iter
    turned := h.turned.trans (List.append_nil _)
    total := h.total
    settles := fun _ => h.settles hended
    history := h.history
    capped := h.capped
    noted := h.noted
    happens := h.happens
    among := h.among
    few := h.few
    different := h.different }

/-- A turn of the model in a pass. -/
def TurnOf (s : AgenticSetup) (d : PassDraw) (inf : AgenticTurnOutcome) : Prop :=
  ∃ prompt, d.infer prompt s.model s.requestedTokens s.temperature = .ok inf

/-- **What a pass does**, whatever the model answers: it has one turn, or none. -/
theorem agenticPass_spec (hended : st.ended = none) :
    ∃ turns kept chosen events, turns.length ≤ 1 ∧ (∀ inf ∈ turns, TurnOf s d inf) ∧
      Passes s st (agenticPass s d st) turns kept chosen events := by
  unfold agenticPass
  cases compacted s st.conversation with
  | none => exact ⟨[], [], [], [], Nat.zero_le _, by simp, (Follows.finish st rfl).idle⟩
  | some conversation =>
      -- the state in which the model is asked
      obtain ⟨st₁, hst₁, hsame⟩ : ∃ st₁, st₁ =
          (let st := { st with conversation := conversation }
          if st.iter = agenticMaxIters then
            st.say ("\n\n" ++ Text.trim s.prompts.unifiedFinalTurnSuffix ++ "\n") else st) ∧
          Follows st st₁ [] ∧ st₁.ended = none := by
        refine ⟨_, rfl, ?_⟩
        simp only
        split <;> exact ⟨Follows.same rfl rfl rfl rfl rfl rfl, hended⟩
      simp only at hst₁ ⊢
      rw [← hst₁]
      obtain ⟨hfollows, hended₁⟩ := hsame
      split
      · exact ⟨[], [], [], [], Nat.zero_le _, by simp,
          (hfollows.keep (Follows.finish st₁ rfl)).idle⟩
      · split
        · exact ⟨[], [], [], [], Nat.zero_le _, by simp,
            (hfollows.keep (Follows.finish st₁ rfl)).idle⟩
        · rename_i inf hinf
          obtain ⟨kept, chosen, events, h⟩ := turnPass_spec s d st₁ inf hended₁
          refine ⟨[inf], kept, chosen, events, le_rfl, ?_, h.after hfollows hended₁⟩
          intro asked hasked
          obtain rfl := List.mem_singleton.1 hasked
          exact ⟨_, hinf⟩

end Pass

end PeerClaw
