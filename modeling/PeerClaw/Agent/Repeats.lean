import PeerClaw.Agent.Noted

/-!
# Calls that are rejected as repeats

The unified loop rejects a call that it has let through four times.  It writes down the
calls of an answer before it merges those that are the same and cuts off all but four,
so a call may be rejected that has never been executed.

* `RejectsExecuted` — every call that is rejected has been executed before.
* `MakesNew` — the new calls of an answer are all made.
* `rejected_was_executed` — the first, in a run whose answers are like this.
-/

namespace PeerClaw

open Lib

/-! ## Rejected calls -/

/-- The call has been executed. -/
def Executed (events : List ToolEvent) (call : ParsedToolCall) : Prop :=
  ∃ pass isLocal, .ran pass isLocal call ∈ events

/-- Every call that is rejected as a repeat has been executed before. -/
def RejectsExecuted (events : List ToolEvent) : Prop :=
  ∀ before pass call after, events = before ++ .blocked pass call :: after → Executed before call

section Events

variable {es fs : List ToolEvent} {call : ParsedToolCall}

theorem Executed.mono (h : Executed es call) (hsub : ∀ e ∈ es, e ∈ fs) : Executed fs call := by
  obtain ⟨pass, isLocal, hran⟩ := h
  exact ⟨pass, isLocal, hsub _ hran⟩

theorem Executed.append (h : Executed es call) : Executed (es ++ fs) call :=
  h.mono fun _ he => List.mem_append_left fs he

theorem RejectsExecuted.append (h : RejectsExecuted es)
    (hfs : ∀ pass call, .blocked pass call ∈ fs → Executed es call) :
    RejectsExecuted (es ++ fs) := by
  intro before pass call after hsplit
  rcases List.append_eq_append_iff.1 hsplit with ⟨mid, rfl, hlater⟩ | ⟨mid, hes, hlater⟩
  · have hmem : .blocked pass call ∈ fs := by
      rw [hlater]
      exact List.mem_append_right mid List.mem_cons_self
    exact (hfs pass call hmem).append
  · cases mid with
    | nil =>
        rw [List.append_nil] at hes
        rw [← hes]
        refine hfs pass call ?_
        rw [List.nil_append] at hlater
        rw [← hlater]
        exact List.mem_cons_self
    | cons e mid =>
        rw [List.cons_append, List.cons.injEq] at hlater
        obtain ⟨rfl, -⟩ := hlater
        exact h before pass call mid hes

end Events

/-! ## Filtering and merging -/

section Filter

variable {s : AgenticSetup} {pass : ℕ}

theorem le_count_of_blocked {calls : List ParsedToolCall} {history : List CallSig} {at_ : ℕ}
    {call : ParsedToolCall} (h : .blocked at_ call ∈ (filterCalls s pass calls history).events) :
    call ∈ calls ∧
      5 ≤ history.count (callSig s call) + (calls.map (callSig s)).count (callSig s call) := by
  induction calls generalizing history with
  | nil => cases h
  | cons c calls ih =>
      unfold filterCalls at h
      rw [List.map_cons, List.count_cons]
      by_cases hblocked : 4 ≤ history.count (callSig s c)
      · simp only [if_pos hblocked] at h
        rcases List.mem_cons.1 h with hhead | hlater
        · cases hhead
          refine ⟨List.mem_cons_self, ?_⟩
          rw [beq_self_eq_true, if_pos rfl]
          omega
        · obtain ⟨hmem, hcount⟩ := ih hlater
          exact ⟨List.mem_cons_of_mem c hmem, by omega⟩
      · simp only [if_neg hblocked] at h
        obtain ⟨hmem, hcount⟩ := ih h
        rw [List.count_append, List.count_singleton] at hcount
        exact ⟨List.mem_cons_of_mem c hmem, by omega⟩

theorem kept_sublist (calls : List ParsedToolCall) (history : List CallSig) :
    (filterCalls s pass calls history).kept.Sublist calls := by
  induction calls generalizing history with
  | nil => exact List.Sublist.refl _
  | cons c calls ih =>
      unfold filterCalls
      by_cases hblocked : 4 ≤ history.count (callSig s c)
      · simp only [if_pos hblocked]
        exact (ih history).cons c
      · simp only [if_neg hblocked]
        exact (ih _).cons_cons c

/-- Each call is there when some have been merged, or one that is the same. -/
theorem exists_mem_mergeCalls {calls : List ParsedToolCall} {seen : List (String × String)}
    {call : ParsedToolCall} (h : call ∈ calls) (hnew : callKey call ∉ seen) :
    ∃ other ∈ mergeCalls calls seen, callKey other = callKey call := by
  induction calls generalizing seen with
  | nil => cases h
  | cons c calls ih =>
      unfold mergeCalls
      by_cases hseen : callKey c ∈ seen
      · rw [if_pos hseen]
        rcases List.mem_cons.1 h with rfl | h
        · exact absurd hseen hnew
        · exact ih h hnew
      · rw [if_neg hseen]
        by_cases hsame : callKey c = callKey call
        · exact ⟨c, List.mem_cons_self, hsame⟩
        · have hrest : call ∈ calls := by
            rcases List.mem_cons.1 h with rfl | h
            · exact absurd rfl hsame
            · exact h
          have hstill : callKey call ∉ callKey c :: seen := by
            rw [List.mem_cons, not_or]
            exact ⟨fun heq => hsame heq.symm, hnew⟩
          obtain ⟨other, hother, hkey⟩ := ih hrest hstill
          exact ⟨other, List.mem_cons_of_mem c hother, hkey⟩

/-- Of the calls that are let through, merging leaves the same ones as of those that have been let
through less than four times before the answer. -/
theorem mergeCalls_kept {calls : List ParsedToolCall} {history before : List CallSig}
    {seen : List (String × String)}
    (hapart : ∀ a ∈ calls, ∀ b ∈ calls, callSig s a = callSig s b → callKey a = callKey b)
    (hcount : ∀ c ∈ calls, callKey c ∉ seen →
      history.count (callSig s c) = before.count (callSig s c)) :
    mergeCalls (filterCalls s pass calls history).kept seen =
      mergeCalls (calls.filter fun c => before.count (callSig s c) < 4) seen := by
  induction calls generalizing history seen with
  | nil => rfl
  | cons c calls ih =>
      have hrest : ∀ a ∈ calls, ∀ b ∈ calls, callSig s a = callSig s b → callKey a = callKey b :=
        fun a ha b hb => hapart a (List.mem_cons_of_mem c ha) b (List.mem_cons_of_mem c hb)
      -- writing the call down changes the count of none that is different
      have hother : ∀ x ∈ calls, callKey x ≠ callKey c → callKey x ∉ seen →
          (history ++ [callSig s c]).count (callSig s x) = before.count (callSig s x) := by
        intro x hx hkey hnew
        have hsig : callSig s c ≠ callSig s x := fun heq =>
          hkey (hapart c List.mem_cons_self x (List.mem_cons_of_mem c hx) heq).symm
        rw [List.count_append, List.count_singleton, if_neg (by simpa using hsig), Nat.add_zero]
        exact hcount x (List.mem_cons_of_mem c hx) hnew
      unfold filterCalls
      rw [List.filter_cons]
      by_cases hseen : callKey c ∈ seen
      · -- the call is merged with an earlier one, if it is let through
        have hskip : ∀ rest, mergeCalls (c :: rest) seen = mergeCalls rest seen := fun rest => by
          rw [mergeCalls, if_pos hseen]
        have hfilter : mergeCalls (if decide (before.count (callSig s c) < 4) = true then
            c :: calls.filter fun c => before.count (callSig s c) < 4
            else calls.filter fun c => before.count (callSig s c) < 4) seen =
            mergeCalls (calls.filter fun c => before.count (callSig s c) < 4) seen := by
          split
          · exact hskip _
          · rfl
        rw [hfilter]
        by_cases hblocked : 4 ≤ history.count (callSig s c)
        · simp only [if_pos hblocked]
          exact ih hrest fun x hx => hcount x (List.mem_cons_of_mem c hx)
        · simp only [if_neg hblocked]
          rw [hskip]
          refine ih hrest fun x hx hnew => hother x hx (fun heq => hnew ?_) hnew
          rwa [heq]
      · have hsame := hcount c List.mem_cons_self hseen
        by_cases hblocked : 4 ≤ history.count (callSig s c)
        · simp only [if_pos hblocked]
          rw [if_neg (by simp; omega)]
          exact ih hrest fun x hx => hcount x (List.mem_cons_of_mem c hx)
        · simp only [if_neg hblocked]
          rw [if_pos (by simp; omega), mergeCalls, mergeCalls, if_neg hseen, if_neg hseen]
          refine congrArg (c :: ·) (ih hrest fun x hx hnew => ?_)
          rw [List.mem_cons, not_or] at hnew
          exact hother x hx hnew.1 hnew.2

end Filter

/-! ## The calls of a pass -/

section Calls

variable {s : AgenticSetup} {d : PassDraw} {st : AgenticState} {call : ParsedToolCall}

theorem execCalls_made {calls : List ParsedToolCall}
    (hended : (execCalls s d calls st).1.ended = none) (hcall : call ∈ calls)
    (hmay : MayCall s call) : ranEvent st call ∈ (execCalls s d calls st).1.events := by
  induction calls generalizing st with
  | nil => cases hcall
  | cons c calls ih =>
      obtain ⟨events, hfollows, -⟩ := execCall_spec s d st c
      have hran := fun hc : c = call => execCall_ran d st (hc ▸ hmay : MayCall s c)
      unfold execCalls at hended ⊢
      cases hexec : execCall s d st c with
      | mk st' failed =>
          rw [hexec] at hfollows hran
          simp only [hexec] at hended ⊢
          by_cases hends : st'.ended.isSome
          · rw [if_pos hends] at hended
            simp only at hended
            rw [hended] at hends
            cases hends
          · rw [if_neg hends] at hended ⊢
            rcases List.mem_cons.1 hcall with rfl | hlater
            · have hadds := execCalls_adds s d st' ToolEvent.ofCalls_named calls
              exact hadds.mem (hran rfl)
            · have hmade := ih hended hlater
              rwa [ranEvent, hfollows.iter] at hmade

theorem runCalls_made {inf : AgenticTurnOutcome} {kept : List ParsedToolCall}
    (hended : (runCalls s d st inf kept).ended = none)
    (hcall : call ∈ (mergeCalls kept []).take agenticMaxToolCallsPerPass) (hmay : MayCall s call) :
    ranEvent st call ∈ (runCalls s d st inf kept).events := by
  obtain ⟨said, hsaid, hafter, hends⟩ := runCalls_after s d st inf kept
  have hmade := execCalls_made (hends hended) hcall hmay
  rw [ranEvent, hsaid.iter] at hmade
  exact (Adds.of_follows hafter).mem hmade

end Calls

/-! ## A pass -/

/-- The answer of the model in a pass. -/
def Answers (s : AgenticSetup) (st : AgenticState) (d : PassDraw) (inf : AgenticTurnOutcome) :
    Prop :=
  ∃ conversation, compacted s st.conversation = some conversation ∧ d.cancelled = false ∧
    d.infer (askedPrompt s (askedState s { st with iter := st.iter + 1 } conversation)) s.model
      s.requestedTokens s.temperature = .ok inf

/-- The calls of an answer are made, each that has not been executed before. -/
structure MakesNew (s : AgenticSetup) (history : List CallSig) (events : List ToolEvent)
    (calls : List ParsedToolCall) : Prop where
  /-- No other call has the same name and the same hash. -/
  apart : ∀ call ∈ calls, ∀ other, other ∈ calls ∨ Executed events other →
    callSig s other = callSig s call → other = call
  /-- A new call may be made. -/
  may : ∀ call ∈ calls, ¬ Executed events call → MayCall s call
  /-- It is in the answer four times at most. -/
  few : ∀ call ∈ calls, ¬ Executed events call →
    (calls.map (callSig s)).count (callSig s call) ≤ 4
  /-- It is one of the first four different calls that have not been made too often. -/
  early : ∀ call ∈ (mergeCalls (calls.filter fun call => history.count (callSig s call) < 4) []).drop
    agenticMaxToolCallsPerPass, Executed events call

/-- Every call that is rejected has been executed before, and so has every call that is written
down, while the run goes on. -/
structure RepeatsExecuted (s : AgenticSetup) (st : AgenticState) : Prop where
  rejects : RejectsExecuted st.events
  written : st.ended = none → ∀ sig ∈ st.toolCallHistory,
    ∃ call, Executed st.events call ∧ callSig s call = sig

section Pass

variable {s : AgenticSetup} {d : PassDraw} {st : AgenticState} {inf : AgenticTurnOutcome}
  {calls : List ParsedToolCall}

theorem MakesNew.executed_of_blocked (h : MakesNew s st.toolCallHistory st.events calls)
    (hst : RepeatsExecuted s st) (hended : st.ended = none) {pass at_ : ℕ} {call : ParsedToolCall}
    (hblocked : .blocked at_ call ∈ (filterCalls s pass calls st.toolCallHistory).events) :
    Executed st.events call := by
  by_contra hnew
  obtain ⟨hmem, hcount⟩ := le_count_of_blocked hblocked
  have hfew := h.few call hmem hnew
  have hunwritten : callSig s call ∉ st.toolCallHistory := by
    intro hsig
    obtain ⟨other, hother, hsame⟩ := hst.written hended _ hsig
    rw [h.apart call hmem other (.inr hother) hsame] at hother
    exact hnew hother
  rw [List.count_eq_zero.2 hunwritten] at hcount
  omega

theorem MakesNew.executed_of_kept (h : MakesNew s st.toolCallHistory st.events calls) {pass : ℕ}
    {call : ParsedToolCall} (hcall : call ∈ (filterCalls s pass calls st.toolCallHistory).kept)
    {noted : AgenticState} (hnoted : ∀ e ∈ st.events, e ∈ noted.events)
    (hended : (runCalls s d noted inf
      (filterCalls s pass calls st.toolCallHistory).kept).ended = none) :
    Executed (runCalls s d noted inf
      (filterCalls s pass calls st.toolCallHistory).kept).events call := by
  have hcalls : call ∈ calls := (kept_sublist calls st.toolCallHistory).subset hcall
  have hstays := runCalls_adds s d noted inf ToolEvent.ofCalls_named
    (filterCalls s pass calls st.toolCallHistory).kept
  by_cases hold : Executed st.events call
  · exact hold.mono fun e he => hstays.mem (hnoted e he)
  · obtain ⟨other, hother, hkey⟩ :=
      exists_mem_mergeCalls hcall (List.not_mem_nil (a := callKey call))
    have hothers : other ∈ calls := (kept_sublist calls st.toolCallHistory).subset
      ((mergeCalls_spec _ []).1.subset hother)
    have hsig : callSig s other = callSig s call := by
      rw [callKey, callKey, Prod.mk.injEq] at hkey
      rw [callSig, callSig, hkey.1, hkey.2]
    obtain rfl := h.apart call hcalls other (.inl hothers) hsig
    -- it is not one of those that are cut off
    have htake : other ∈ (mergeCalls (filterCalls s pass calls st.toolCallHistory).kept []).take
        agenticMaxToolCallsPerPass := by
      rw [← List.take_append_drop agenticMaxToolCallsPerPass (mergeCalls _ [])] at hother
      rcases List.mem_append.1 hother with htake | hdrop
      · exact htake
      · refine absurd (h.early other ?_) hold
        have hapart : ∀ a ∈ calls, ∀ b ∈ calls, callSig s a = callSig s b →
            callKey a = callKey b := fun a ha b hb hsame => by rw [h.apart b hb a (.inl ha) hsame]
        have hsame : mergeCalls (filterCalls s pass calls st.toolCallHistory).kept [] =
            mergeCalls (calls.filter fun c => st.toolCallHistory.count (callSig s c) < 4) [] :=
          mergeCalls_kept hapart fun _ _ _ => rfl
        rwa [hsame] at hdrop
    exact ⟨_, _, runCalls_made hended htake (h.may other hcalls hold)⟩

theorem notedState_events (calls : List ParsedToolCall) :
    (notedState s st calls).events =
      st.events ++ (filterCalls s st.iter calls st.toolCallHistory).events := by
  unfold notedState
  simp only
  split
  · rfl
  · rfl

theorem notedState_history (calls : List ParsedToolCall) :
    (notedState s st calls).toolCallHistory =
      (filterCalls s st.iter calls st.toolCallHistory).history := by
  unfold notedState
  simp only
  split
  · rfl
  · rfl

/-- Nothing is rejected after the calls have been filtered. -/
def ToolEvent.NotBlocked : ToolEvent → Prop
  | .blocked _ _ => False
  | .ran _ _ _ | .refused _ _ => True

theorem ToolEvent.ofCalls_notBlocked : OfCalls NotBlocked :=
  ⟨fun _ _ _ => trivial, fun _ _ => trivial, fun _ _ => trivial⟩

theorem toolPass_after (s : AgenticSetup) (d : PassDraw) (st : AgenticState)
    (inf : AgenticTurnOutcome) (calls : List ParsedToolCall) :
    AddsOnly ToolEvent.NotBlocked (notedState s st calls) (toolPass s d st inf calls) ∧
      (toolPass s d st inf calls).toolCallHistory = (notedState s st calls).toolCallHistory := by
  rw [toolPass_eq]
  split
  · exact ⟨.of_follows (Follows.answer ..), rfl⟩
  · obtain ⟨events, hfollows, -⟩ := runCalls_spec s d (notedState s st calls) inf
      (filterCalls s st.iter calls st.toolCallHistory).kept
    exact ⟨runCalls_adds s d _ inf ToolEvent.ofCalls_notBlocked _, hfollows.history⟩

theorem repeatsExecuted_toolPass (hst : RepeatsExecuted s st) (hended : st.ended = none)
    (h : MakesNew s st.toolCallHistory st.events calls) :
    RepeatsExecuted s (toolPass s d st inf calls) := by
  obtain ⟨⟨es, hes, hlater⟩, hhistory⟩ := toolPass_after s d st inf calls
  obtain ⟨hwritten, -, -⟩ := filterCalls_spec s st.iter calls st.toolCallHistory
  constructor
  · rw [hes, notedState_events]
    refine (hst.rejects.append fun pass call hblocked => ?_).append fun pass call hblocked => ?_
    · exact h.executed_of_blocked hst hended hblocked
    · cases hlater _ hblocked
  · intro hgoes sig hsig
    rw [hhistory, notedState_history, hwritten, List.mem_append] at hsig
    rcases hsig with hsig | hsig
    · obtain ⟨call, hcall, rfl⟩ := hst.written hended sig hsig
      refine ⟨call, ?_, rfl⟩
      rw [hes, notedState_events]
      exact hcall.append.append
    · obtain ⟨call, hkept, rfl⟩ := List.mem_map.1 hsig
      refine ⟨call, ?_, rfl⟩
      have hsome : ¬ (filterCalls s st.iter calls st.toolCallHistory).kept.isEmpty := by
        rw [List.isEmpty_iff]
        exact List.ne_nil_of_mem hkept
      rw [toolPass_eq, if_neg hsome] at hgoes ⊢
      refine h.executed_of_kept hkept (fun e he => ?_) hgoes
      rw [notedState_events]
      exact List.mem_append_left _ he

end Pass

/-! ## A run -/

section Run

variable {s : AgenticSetup} {d : PassDraw} {st : AgenticState}

/-- The state after a turn of the model. -/
def turnedState (st : AgenticState) (inf : AgenticTurnOutcome) : AgenticState :=
  { st with
    totalTokens := saturatingAdd st.totalTokens inf.tokensGenerated
    turns := st.turns ++ [inf] }

/-- After a turn of the model either no call is looked at, or those of its answer are. -/
theorem turnPass_cases (s : AgenticSetup) (d : PassDraw) (st : AgenticState)
    (inf : AgenticTurnOutcome) :
    Follows (turnedState st inf) (turnPass s d st inf) [] ∨
      (inf.isError = false ∧ turnPass s d st inf =
        toolPass s d (turnedState st inf) inf (s.calls.parseToolCalls inf.text)) := by
  unfold turnPass
  cases herror : inf.isError with
  | true => exact .inl (retryPass_follows s (turnedState st inf))
  | false =>
      cases hcalls : s.calls.parseToolCalls inf.text with
      | nil => exact .inl (finalPass_follows s d (turnedState st inf) inf)
      | cons call calls => exact .inr ⟨rfl, rfl⟩

theorem askedState_ended (s : AgenticSetup) (st : AgenticState) (conversation : String) :
    (askedState s st conversation).ended = st.ended := by
  unfold askedState
  simp only
  split
  · rfl
  · rfl

/-- In a pass either the model does not answer, or its answer is looked at. -/
theorem agenticPass_cases (s : AgenticSetup) (d : PassDraw) (st : AgenticState) :
    Follows st (agenticPass s d st) [] ∨
      ∃ conversation inf, compacted s st.conversation = some conversation ∧ d.cancelled = false ∧
        d.infer (askedPrompt s (askedState s st conversation)) s.model s.requestedTokens
          s.temperature = .ok inf ∧
        agenticPass s d st = turnPass s d (askedState s st conversation) inf := by
  cases hcompacted : compacted s st.conversation with
  | none =>
      unfold agenticPass
      rw [hcompacted]
      exact .inl (Follows.finish st rfl)
  | some conversation =>
      have hasked := askedState_follows s st conversation
      rw [agenticPass_of_some s d st hcompacted]
      cases hcancelled : d.cancelled with
      | true => exact .inl (hasked.keep (Follows.finish _ rfl))
      | false =>
          cases hinfer : d.infer (askedPrompt s (askedState s st conversation)) s.model
              s.requestedTokens s.temperature with
          | error e => exact .inl (hasked.keep (Follows.finish _ rfl))
          | ok inf => exact .inr ⟨conversation, inf, rfl, rfl, hinfer, rfl⟩

theorem step_after (hended : st.ended = none) :
    Follows (agenticPass s d { st with iter := st.iter + 1 }) (AgenticLoop.step s st d) [] ∧
      ((AgenticLoop.step s st d).ended = none →
        (agenticPass s d { st with iter := st.iter + 1 }).ended = none) := by
  unfold AgenticLoop.step
  rw [if_neg (by rw [hended]; exact nofun)]
  simp only
  split
  · exact ⟨Follows.finish _ rfl, nofun⟩
  · exact ⟨Follows.refl _, id⟩

theorem RepeatsExecuted.same {st' : AgenticState} (h : RepeatsExecuted s st)
    (hended : st'.ended = none → st.ended = none) (hhistory : st'.toolCallHistory = st.toolCallHistory)
    (hevents : st'.events = st.events) : RepeatsExecuted s st' := by
  constructor
  · rw [hevents]
    exact h.rejects
  · intro hgoes sig hsig
    rw [hevents]
    rw [hhistory] at hsig
    exact h.written (hended hgoes) sig hsig

theorem RepeatsExecuted.follows {st' : AgenticState} (h : RepeatsExecuted s st)
    (hended : st'.ended = none → st.ended = none) (hfollows : Follows st st' []) :
    RepeatsExecuted s st' :=
  h.same hended hfollows.history (by rw [hfollows.events, List.append_nil])

/-- **A step.** -/
theorem repeatsExecuted_step (hst : RepeatsExecuted s st)
    (h : ∀ inf, st.ended = none → Answers s st d inf → inf.isError = false →
      MakesNew s st.toolCallHistory st.events (s.calls.parseToolCalls inf.text)) :
    RepeatsExecuted s (AgenticLoop.step s st d) := by
  cases hended : st.ended with
  | some outcome =>
      have hstays : AgenticLoop.step s st d = st := by
        unfold AgenticLoop.step
        rw [if_pos (by rw [hended]; rfl)]
      rw [hstays]
      exact hst
  | none =>
      obtain ⟨hafter, hends⟩ := @step_after s d st hended
      refine RepeatsExecuted.follows ?_ hends hafter
      have hbegun : RepeatsExecuted s { st with iter := st.iter + 1 } := hst.same id rfl rfl
      rcases agenticPass_cases s d { st with iter := st.iter + 1 } with
        hidle | ⟨conversation, inf, hcompacted, hcancelled, hinfer, hpass⟩
      · exact hbegun.follows (fun _ => hended) hidle
      · have hanswers : Answers s st d inf := ⟨conversation, hcompacted, hcancelled, hinfer⟩
        have hasked := askedState_follows s { st with iter := st.iter + 1 } conversation
        have hgoes := (askedState_ended s { st with iter := st.iter + 1 } conversation).trans hended
        have hturned : RepeatsExecuted s
            (turnedState (askedState s { st with iter := st.iter + 1 } conversation) inf) :=
          (hbegun.follows (fun _ => hended) hasked).same id rfl rfl
        rw [hpass]
        rcases turnPass_cases s d (askedState s { st with iter := st.iter + 1 } conversation) inf with
          hcalm | ⟨herror, hlooked⟩
        · exact hturned.follows (fun _ => hgoes) hcalm
        · rw [hlooked]
          refine repeatsExecuted_toolPass hturned hgoes ?_
          show MakesNew s (askedState s { st with iter := st.iter + 1 } conversation).toolCallHistory
            (askedState s { st with iter := st.iter + 1 } conversation).events _
          rw [hasked.history, hasked.events, List.append_nil]
          exact h inf hended hanswers herror

/-- **In a run** whose answers have only new calls that are made, every call that is rejected as a
repeat has been executed before. -/
theorem rejected_was_executed (s : AgenticSetup) (draws : List PassDraw)
    (h : Machine.Along (AgenticLoop.step s)
      (fun st d => ∀ inf, st.ended = none → Answers s st d inf → inf.isError = false →
        MakesNew s st.toolCallHistory st.events (s.calls.parseToolCalls inf.text))
      (AgenticLoop.initial s) draws) :
    Machine.Always (AgenticLoop.step s) (fun st => RejectsExecuted st.events)
      (AgenticLoop.initial s) draws := by
  have hstart : RepeatsExecuted s (AgenticLoop.initial s) := by
    constructor
    · intro before pass call after hsplit
      exact absurd hsplit.symm (List.append_ne_nil_of_right_ne_nil _ (List.cons_ne_nil _ _))
    · exact fun _ _ => nofun
  have hruns := Machine.always_of_inv (fun _ _ hst hcare => repeatsExecuted_step hst hcare) hstart h
  exact fun pre post hsplit => (hruns pre post hsplit).rejects

end Run

/-- A run of one pass, with one call. -/
theorem rejected_was_executed_shell :
    Machine.Always (AgenticLoop.step (anyTool ⟨"shell", .null⟩))
      (fun st => RejectsExecuted st.events) (AgenticLoop.initial (anyTool ⟨"shell", .null⟩))
      [oneAnswer "shell"] := by
  refine rejected_was_executed _ _ ⟨fun inf _ _ _ => ?_, trivial⟩
  have hcalls : (anyTool ⟨"shell", .null⟩).calls.parseToolCalls inf.text =
      [⟨"shell", .null⟩] := rfl
  have hmay : MayCall (anyTool ⟨"shell", .null⟩) ⟨"shell", .null⟩ :=
    ⟨by decide, fun _ => ⟨rfl, rfl⟩⟩
  rw [hcalls]
  constructor
  · rintro call hcall other (hother | ⟨pass, isLocal, hran⟩) -
    · rw [List.mem_singleton.1 hcall, List.mem_singleton.1 hother]
    · cases hran
  · intro call hcall _
    rw [List.mem_singleton.1 hcall]
    exact hmay
  · intro call _ _
    exact (List.count_le_length).trans (by decide)
  · exact fun call hcall => by cases hcall

/-! ## Five tools -/

/-- A run in which the model answers with calls of five tools, four of them of the fifth. -/
def fiveTools : AgenticSetup :=
  { anyTool ⟨"a", .null⟩ with
    calls := { (anyTool ⟨"a", .null⟩).calls with
      parseToolCalls := fun _ =>
        ["a", "b", "c", "d", "e", "e", "e", "e"].map fun name => ⟨name, .null⟩ } }

set_option maxRecDepth 4000 in
/-- The fifth tool is cut off in the first pass, and its calls are rejected in the second one. -/
theorem cut_off_rejected :
    ¬ RejectsExecuted (Machine.run (AgenticLoop.step fiveTools) (AgenticLoop.initial fiveTools)
      [oneAnswer "a b c d e", oneAnswer "a b c d e"]).events := by
  have hevents : (Machine.run (AgenticLoop.step fiveTools) (AgenticLoop.initial fiveTools)
      [oneAnswer "a b c d e", oneAnswer "a b c d e"]).events =
      (["a", "b", "c", "d"].map fun name => .ran 1 true ⟨name, .null⟩) ++
        .blocked 2 ⟨"e", .null⟩ ::
          ((["e", "e", "e"].map fun name => .blocked 2 ⟨name, .null⟩) ++
            ["a", "b", "c", "d"].map fun name => .ran 2 true ⟨name, .null⟩) := by rfl
  intro h
  obtain ⟨pass, isLocal, hran⟩ := h _ _ _ _ hevents
  simp at hran

end PeerClaw
