import PeerClaw.Flow.Builder
import PeerClaw.Flow.SameFlow
import Mathlib.Data.List.TakeWhile

/-!
# What a saved node keeps

A node of a flow is put on the canvas and written back.  What is written back depends on its
kind as it is spelled, while the interpreter reads it without regard to case; lists are joined
with commas and split at them again.

* `listEntries_join_iff`, `map_guardrail_join_iff` — which lists are read as they were joined.
* `NodeKept` — what a node must be like to be saved as it is.
* `savesAs_nodeKept` — only then the interpreter reads the same of it.
-/

namespace PeerClaw

open Lib

/-! ## Texts -/

theorem mem_dropWhile_iff {c : Char} (hc : jsIsSpace c = false) {cs : List Char} :
    c ∈ cs.dropWhile jsIsSpace ↔ c ∈ cs := by
  refine ⟨fun h => (List.dropWhile_suffix (p := jsIsSpace)).subset h, fun h => ?_⟩
  rw [← List.takeWhile_append_dropWhile (p := jsIsSpace) (l := cs), List.mem_append] at h
  rcases h with h | h
  · rw [List.mem_takeWhile_imp h] at hc
    cases hc
  · exact h

theorem comma_mem_jsTrim (s : String) : ',' ∈ (jsTrim s).toList ↔ ',' ∈ s.toList := by
  unfold jsTrim jsTrimChars
  rw [String.toList_ofList, List.mem_reverse, mem_dropWhile_iff (by decide), List.mem_reverse,
    mem_dropWhile_iff (by decide)]

theorem jsTrim_space (cs : List Char) :
    jsTrim (String.ofList (' ' :: cs)) = jsTrim (String.ofList cs) := by
  unfold jsTrim jsTrimChars
  rw [String.toList_ofList, String.toList_ofList, List.dropWhile_cons_of_pos (by decide)]

theorem toLower_eq_comma_iff (c : Char) : c.toLower = ',' ↔ c = ',' := by
  constructor
  · intro h
    unfold Char.toLower at h
    split at h
    · rename_i hupper
      have hlow : 65 ≤ c.val.toNat := UInt32.le_iff_toNat_le.1 hupper.1
      have hhigh : c.val.toNat ≤ 90 := UInt32.le_iff_toNat_le.1 hupper.2
      have hval := congrArg (fun c : Char => c.val.toNat) h
      dsimp only at hval
      rw [UInt32.toNat_add] at hval
      have hshift : ('a'.val - 'A'.val).toNat = 32 := rfl
      have hcomma : ','.val.toNat = 44 := rfl
      omega
    · exact h
  · rintro rfl
    decide

theorem comma_mem_toAsciiLowercase (s : String) :
    ',' ∈ (Text.toAsciiLowercase s).toList ↔ ',' ∈ s.toList := by
  unfold Text.toAsciiLowercase
  rw [String.toList_ofList, List.mem_map]
  simp only [toLower_eq_comma_iff, exists_eq_right]

theorem toList_join_comma (l : List String) :
    (Text.join ", " l).toList = Entries.shown ',' [' '] (l.map String.toList) := by
  have hpad : ∀ (q : List Char) (parts : List (List Char)),
      Separated.joined ',' ((' ' :: q) :: parts) = ' ' :: Separated.joined ',' (q :: parts) := by
    intro q parts
    cases parts <;> simp
  have hpair : ∀ (parts : List (List Char)) (p : List Char), [',', ' '].intercalate (p :: parts) =
      Separated.joined ',' (p :: parts.map ([' '] ++ ·)) := by
    intro parts
    induction parts with
    | nil => simp
    | cons q parts ih =>
        intro p
        rw [List.intercalate_cons_cons, ih q, List.map_cons, Separated.joined_cons_cons,
          List.singleton_append, hpad]
        simp
  unfold Text.join
  rw [String.toList_ofList]
  cases l with
  | nil => rfl
  | cons s l => exact hpair _ _

section Lists

variable {clean f : String → String}

/-- **Which lists are read as they were joined**, as far as `f` can tell. -/
theorem map_listEntries_join_iff
    (hspace : ∀ cs, clean (String.ofList (' ' :: cs)) = clean (String.ofList cs))
    (hnil : clean "" = "") (hcomma : ∀ s, ',' ∈ (clean s).toList → ',' ∈ s.toList)
    (hempty : ∀ s, f s = "" ↔ s = "") (hmem : ∀ s, ',' ∈ (f s).toList ↔ ',' ∈ s.toList)
    {l : List String} :
    (listEntries clean (Text.join ", " l)).map f = l.map f ↔
      ∀ s ∈ l, s ≠ "" ∧ ',' ∉ s.toList ∧ f (clean s) = f s := by
  have hiff := @Entries.map_entries_shown_iff Char Char _ ',' [' ']
    (fun p => (clean (String.ofList p)).toList) (by decide)
    (fun p => congrArg String.toList (hspace p)) (congrArg String.toList hnil)
    (fun p hp => by simpa using hcomma _ hp) (fun p => (f (String.ofList p)).toList) ','
    (fun p => by rw [String.toList_eq_nil_iff, hempty, String.ofList_eq_empty_iff])
    (fun p => by rw [hmem, String.toList_ofList]) (l.map String.toList)
  have hinj : Function.Injective (List.map String.toList) :=
    List.map_injective_iff.2 fun s t h => String.toList_inj.1 h
  rw [← hinj.eq_iff, listEntries, toList_join_comma]
  refine Iff.trans (Eq.to_iff ?_) (hiff.trans ?_)
  · simp [Function.comp_def]
  · simp [String.toList_inj]

/-- A blank text has no entries, so that it need not be treated on its own. -/
theorem getD_listOf (hblank : ∀ s, jsTrim s = "" → clean s = "") (text : Option String) :
    (listOf clean text).getD [] = (text.map (listEntries clean)).getD [] := by
  cases text with
  | none => rfl
  | some s =>
      rw [Option.map_some, Option.getD_some, listOf, Option.bind_some]
      dsimp only
      split
      · rename_i htrim
        have hfree : ',' ∉ s.toList := by
          rw [← comma_mem_jsTrim, htrim]
          exact List.not_mem_nil
        unfold listEntries Entries.entries
        rw [List.splitOn_eq_singleton hfree]
        simp [hblank s htrim]
      · split
        · rename_i hnone
          exact (List.isEmpty_iff.1 hnone).symm
        · rfl

end Lists

/-! ## What a saved node keeps -/

/-- A list that is read as it was joined: no entry is empty, has a comma in it, or white space at
its ends. -/
def ListKept (l : List String) : Prop := ∀ s ∈ l, s ≠ "" ∧ ',' ∉ s.toList ∧ jsTrim s = s

/-- The same for checks, whose case does not matter. -/
def ChecksKept (js : JsCasing) (l : List String) : Prop :=
  ∀ s ∈ l, s ≠ "" ∧ ',' ∉ s.toList ∧
    Text.toAsciiLowercase (js.toLowerCase (jsTrim s)) = Text.toAsciiLowercase s

theorem listEntries_join_iff {l : List String} :
    listEntries jsTrim (Text.join ", " l) = l ↔ ListKept l := by
  have hiff := @map_listEntries_join_iff jsTrim id jsTrim_space (by decide)
    (fun s => (comma_mem_jsTrim s).1) (fun s => Iff.rfl) (fun s => Iff.rfl) l
  rwa [List.map_id, List.map_id] at hiff

theorem JsCasing.toLowerCase_empty (js : JsCasing) : js.toLowerCase "" = "" :=
  (js.ascii "" (by simp)).trans (by decide)

theorem map_guardrail_join_iff {js : JsCasing} {l : List String} :
    (listEntries (fun s => js.toLowerCase (jsTrim s)) (Text.join ", " l)).map Text.toAsciiLowercase =
        l.map Text.toAsciiLowercase ↔ ChecksKept js l := by
  refine map_listEntries_join_iff (fun cs => by rw [jsTrim_space]) ?_ (fun s h => ?_)
    (fun s => toAsciiLowercase_eq_empty_iff) comma_mem_toAsciiLowercase
  · exact (congrArg js.toLowerCase (by decide)).trans js.toLowerCase_empty
  · exact (comma_mem_jsTrim s).1 (js.comma _ h)

/-! ## The checks that stand for no checks -/

theorem letter_of_toLower {c : Char} (h : 97 ≤ c.toLower.val.toNat ∧ c.toLower.val.toNat ≤ 122) :
    c.val < 128 ∧ jsIsSpace c = false ∧ c ≠ ',' := by
  have hval : 65 ≤ c.val.toNat ∧ c.val.toNat ≤ 122 := by
    unfold Char.toLower at h
    split at h
    · rename_i hupper
      exact ⟨UInt32.le_iff_toNat_le.1 hupper.1,
        le_trans (UInt32.le_iff_toNat_le.1 hupper.2) (by decide)⟩
    · omega
  refine ⟨UInt32.lt_iff_toNat_lt.2 (lt_of_le_of_lt hval.2 (by decide)), ?_, ?_⟩
  · simp only [jsIsSpace, Text.isWhitespace, ← UInt32.toNat_inj, UInt32.le_iff_toNat_le]
    grind
  · rintro rfl
    exact absurd hval.1 (by decide)

/-- Words of letters have no white space to lose, and no letter that only JavaScript knows. -/
theorem checksKept_of_default {js : JsCasing} {l : List String}
    (h : l.map Text.toAsciiLowercase = ["leak", "injection", "policy"]) : ChecksKept js l := by
  intro s hs
  have hword : Text.toAsciiLowercase s ∈ ["leak", "injection", "policy"] :=
    h ▸ List.mem_map_of_mem hs
  have hwords : ∀ t ∈ ["leak", "injection", "policy"], t ≠ "" ∧
      ∀ c ∈ t.toList, 97 ≤ c.val.toNat ∧ c.val.toNat ≤ 122 := by simp
  obtain ⟨hne, hletters⟩ := hwords _ hword
  have hall : ∀ c ∈ s.toList, c.val < 128 ∧ jsIsSpace c = false ∧ c ≠ ',' := by
    intro c hc
    refine letter_of_toLower (hletters _ ?_)
    unfold Text.toAsciiLowercase
    rw [String.toList_ofList]
    exact List.mem_map_of_mem hc
  have htrim : jsTrim s = s := by
    have hkeep : ∀ cs : List Char, (∀ c ∈ cs, jsIsSpace c = false) → cs.dropWhile jsIsSpace = cs := by
      intro cs hcs
      cases cs with
      | nil => rfl
      | cons c cs => rw [List.dropWhile_cons_of_neg (by rw [hcs c List.mem_cons_self]; decide)]
    unfold jsTrim jsTrimChars
    rw [hkeep _ fun c hc => (hall c hc).2.1,
      hkeep _ fun c hc => (hall c (List.mem_reverse.1 hc)).2.1, List.reverse_reverse,
      String.ofList_toList]
  refine ⟨fun hempty => hne (toAsciiLowercase_eq_empty_iff.2 hempty),
    fun hcomma => (hall ',' hcomma).2.2 rfl, ?_⟩
  rw [htrim, js.ascii s fun c hc => (hall c hc).1, toAsciiLowercase_idem]

theorem default_guardrail_iff {js : JsCasing} {l r : List String}
    (hr : r = listEntries (fun s => js.toLowerCase (jsTrim s)) (Text.join ", " l)) :
    (if r.isEmpty then ["leak", "injection", "policy"] else r.map Text.toAsciiLowercase) =
        (if l.isEmpty then ["leak", "injection", "policy"] else l.map Text.toAsciiLowercase) ↔
      ChecksKept js l := by
  have hmap := @map_guardrail_join_iff js l
  rw [← hr] at hmap
  cases l with
  | nil =>
      have hnil : r = [] := List.map_eq_nil_iff.1 (hmap.2 fun s hs => absurd hs List.not_mem_nil)
      rw [hnil]
      exact iff_of_true rfl fun s hs => absurd hs List.not_mem_nil
  | cons s l =>
      cases hcase : r with
      | nil =>
          refine ⟨fun h => checksKept_of_default h.symm, fun h => ?_⟩
          rw [hcase] at hmap
          cases hmap.2 h
      | cons t r => rwa [hcase] at hmap

section Nodes

variable {χ : Type} (js : JsCasing)

/-- A node is opened and saved. -/
def saved (n : FlowNodeJson χ) : Option (FlowNodeJson χ) := compileOne js χ (openNode n)

variable {js} {n : FlowNodeJson χ}

theorem readKind_of_getD {k : String} {kind : NodeKind} (hkind : n.kind.getD "" = k)
    (hread : NodeKind.parse (Text.toAsciiLowercase k) = kind) : n.toNode.readKind = kind := by
  unfold FlowNode.readKind FlowNodeJson.toNode
  rw [hkind]
  exact hread

theorem readKind_toNode {k : String} {kind : NodeKind} (hkind : n.kind = some k)
    (hread : NodeKind.parse (Text.toAsciiLowercase k) = kind) : n.toNode.readKind = kind :=
  readKind_of_getD (congrArg (Option.getD · "") hkind) hread

theorem decide_flag (flag : Option Bool) :
    decide (some (decide (flag = some true)) = some true) = flag.getD false := by
  rcases flag with _ | _ | _ <;> rfl

theorem maxIterations_default (cap : Option UInt32) :
    let written : UInt32 := (match cap with
      | some k => some (if 0 < k then k else 100)
      | none => some 100).getD 0
    (if written = 0 then 100 else written) = if cap.getD 0 = 0 then 100 else cap.getD 0 := by
  cases cap with
  | none => rfl
  | some k =>
      dsimp only [Option.getD_some]
      by_cases hk : k = 0
      · subst hk
        rfl
      · rw [if_pos (UInt32.pos_iff_ne_zero.2 hk)]

theorem vectorTopK_default (topK : Option UInt32) :
    let written : UInt32 := (match topK with
      | some k => some (if 0 < k then min 100 k else 0)
      | none => some 0).getD 0
    (if written = 0 then 10 else min 100 written) =
      if topK.getD 0 = 0 then 10 else min 100 (topK.getD 0) := by
  cases topK with
  | none => rfl
  | some k =>
      dsimp only [Option.getD_some]
      by_cases hk : k = 0
      · subst hk
        rfl
      · have hnat : k.toNat ≠ 0 := fun h => hk (UInt32.toNat_inj.1 h)
        have hmin : min 100 k ≠ 0 := by
          intro h
          have htoNat : min 100 k.toNat = 0 := by rw [← toNat_min100, h]; rfl
          omega
        have htwice : min 100 (min 100 k) = min 100 k := by
          rw [← UInt32.toNat_inj, toNat_min100, toNat_min100]
          omega
        rw [if_pos (UInt32.pos_iff_ne_zero.2 hk), if_neg hmin, if_neg hk, htwice]

theorem stateValueJson_default (json : Option String) :
    (if json.getD "null" = "" then "null" else json.getD "null") =
      if json.getD "" = "" then "null" else json.getD "" := by
  cases json <;> rfl

/-- What is saved of a node is a node with the same id that is read as the same kind; whether
the interpreter reads the same fields of it is as stated. -/
def SavesAs (js : JsCasing) (n : FlowNodeJson χ) (kept : Prop) : Prop :=
  ∃ m, saved js n = some m ∧ m.id = n.id ∧ m.toNode.readKind = n.toNode.readKind ∧
    (m.toNode.effective = n.toNode.effective ↔ kept)

theorem savesAs_of {m : FlowNodeJson χ} {kept : Prop} {kind : NodeKind} (hsaved : saved js n = some m)
    (hid : m.id = n.id) (hm : m.toNode.readKind = kind) (hn : n.toNode.readKind = kind)
    (heff : m.toNode.readKind = kind → (m.toNode.effective = n.toNode.effective ↔ kept)) :
    SavesAs js n kept :=
  ⟨m, hsaved, hid, hm.trans hn.symm, heff hm⟩

theorem savesAs_agent (hkind : n.kind = some "agent") :
    SavesAs js n (ListKept (n.tools.getD [])) := by
  have hsaved : saved js n = some
      { id := n.id
        kind := some "agent"
        name := some (n.name.getD "")
        prompt := some (n.prompt.getD "")
        instructions := some (n.instructions.getD "")
        model := some (n.model.getD "")
        tools := toolsArray (n.tools.map (Text.join ", "))
        temperature := n.temperature
        maxTokens := n.maxTokens
        includeChatHistory := some (some (decide (n.includeChatHistory = some true)) = some true)
        outputFormat := some (n.outputFormat.getD "")
        agentSessionKey := some (n.agentSessionKey.getD "") } := by
    unfold saved compileOne openNode
    rw [hkind]
    rfl
  have hread : n.toNode.readKind = .agent := readKind_toNode hkind (by decide)
  have htools : (toolsArray (n.tools.map (Text.join ", "))).getD [] = n.tools.getD [] ↔
      ListKept (n.tools.getD []) := by
    unfold toolsArray
    rw [getD_listOf fun _ h => h]
    cases n.tools with
    | none => simp [ListKept]
    | some l => exact listEntries_join_iff
  refine savesAs_of hsaved rfl (readKind_toNode rfl (by decide)) hread fun hm => ?_
  rw [← htools, FlowNode.effective, FlowNode.effective, hm, hread]
  simp only [FlowNode.effectiveKind, hm, hread]
  simp only [FlowNodeJson.toNode, hkind, Option.getD_some, decide_flag, FlowNode.mk.injEq, and_true,
    true_and]

theorem savesAs_guardrails (hkind : n.kind = some "guardrails") :
    SavesAs js n (ChecksKept js (n.guardrailChecks.getD [])) := by
  have hsaved : saved js n = some
      { id := n.id
        kind := some "guardrails"
        name := some (n.name.getD "")
        prompt := some (n.prompt.getD "")
        sourceNodeId := some (n.sourceNodeId.getD "")
        guardrailChecks := guardrailList js (n.guardrailChecks.map (Text.join ", "))
        guardrailInputTemplate := some (n.guardrailInputTemplate.getD "")
        guardrailContinueOnError :=
          some (some (decide (n.guardrailContinueOnError = some true)) = some true)
        guardrailCustomSubstring := some (n.guardrailCustomSubstring.getD "") } := by
    unfold saved compileOne openNode
    rw [hkind]
    rfl
  have hread : n.toNode.readKind = .guardrails := readKind_toNode hkind (by decide)
  have hblank : ∀ s, jsTrim s = "" → js.toLowerCase (jsTrim s) = "" := by
    intro s hs
    rw [hs, js.toLowerCase_empty]
  have hchecks : (guardrailList js (n.guardrailChecks.map (Text.join ", "))).getD [] =
      listEntries (fun s => js.toLowerCase (jsTrim s))
        (Text.join ", " (n.guardrailChecks.getD [])) := by
    unfold guardrailList
    rw [getD_listOf hblank]
    cases n.guardrailChecks with
    | none =>
        have hnil := @map_guardrail_join_iff js []
        exact (List.map_eq_nil_iff.1 (hnil.2 fun s hs => absurd hs List.not_mem_nil)).symm
    | some l => rfl
  refine savesAs_of hsaved rfl (readKind_toNode rfl (by decide)) hread fun hm => ?_
  rw [← default_guardrail_iff hchecks, FlowNode.effective, FlowNode.effective, hm, hread]
  simp only [FlowNode.effectiveKind, hm, hread]
  simp only [FlowNodeJson.toNode, hkind, Option.getD_some, decide_flag, FlowNode.mk.injEq, and_true,
    true_and]

theorem savesAs_classify (hkind : n.kind = some "classify") :
    SavesAs js n (ListKept (n.classifyCategories.getD [])) := by
  have hsaved : saved js n = some
      { id := n.id
        kind := some "classify"
        name := some (n.name.getD "")
        prompt := some (n.prompt.getD "")
        classifyCategories :=
          some (listEntries jsTrim ((n.classifyCategories.map (Text.join ", ")).getD ""))
        classifyModel := some (n.classifyModel.getD "")
        classifyInputTemplate := some (n.classifyInputTemplate.getD "")
        classifyExamplesJson := some (n.classifyExamplesJson.getD "")
        outputFormat := some (n.outputFormat.getD "")
        temperature := n.temperature
        maxTokens := n.maxTokens } := by
    unfold saved compileOne openNode
    rw [hkind]
    rfl
  have hread : n.toNode.readKind = .classify := readKind_toNode hkind (by decide)
  have hjoin : (n.classifyCategories.map (Text.join ", ")).getD "" =
      Text.join ", " (n.classifyCategories.getD []) := by
    cases n.classifyCategories <;> rfl
  refine savesAs_of hsaved rfl (readKind_toNode rfl (by decide)) hread fun hm => ?_
  rw [← listEntries_join_iff, FlowNode.effective, FlowNode.effective, hm, hread]
  simp only [FlowNode.effectiveKind, hm, hread]
  simp only [FlowNodeJson.toNode, hkind, Option.getD_some, hjoin, FlowNode.mk.injEq, and_true,
    true_and]

theorem savesAs_llm (hkind : n.kind.getD "" = "" ∨ n.kind.getD "" = "llm") :
    SavesAs js n True := by
  have htype : rustKindToRf (n.kind.getD "llm") = "llm" := by
    cases hn : n.kind with
    | none => rfl
    | some k =>
        rw [hn] at hkind
        rcases hkind with h | h <;> rw [Option.getD_some] at h <;> rw [h] <;> rfl
  have hsaved : saved js n = some
      { id := n.id
        kind := some "llm"
        name := some (n.name.getD "")
        prompt := some (n.prompt.getD "")
        model := some (n.model.getD "")
        temperature := n.temperature
        maxTokens := n.maxTokens
        outputFormat := some (n.outputFormat.getD "") } := by
    unfold saved compileOne openNode
    rw [htype]
    rfl
  have hread : n.toNode.readKind = .llm := by
    rcases hkind with h | h <;> exact readKind_of_getD h (by decide)
  refine savesAs_of hsaved rfl (readKind_toNode rfl (by decide)) hread fun hm => ?_
  rw [FlowNode.effective, FlowNode.effective, hm, hread]
  simp only [FlowNode.effectiveKind, hm, hread]
  simp only [FlowNodeJson.toNode, Option.getD_some]

theorem savesAs_if (hkind : n.kind = some "if") : SavesAs js n n.conditionCel.isSome := by
  have hsaved : saved js n = some
      { id := n.id
        kind := some "if"
        name := some (n.name.getD "")
        prompt := some (n.prompt.getD "")
        conditionCel := some (n.conditionCel.getD "true")
        ifCaseName := some (n.ifCaseName.getD "") } := by
    unfold saved compileOne openNode
    rw [hkind]
    rfl
  have hread : n.toNode.readKind = .ifElse := readKind_toNode hkind (by decide)
  refine savesAs_of hsaved rfl (readKind_toNode rfl (by decide)) hread fun hm => ?_
  rw [FlowNode.effective, FlowNode.effective, hm, hread]
  simp only [FlowNode.effectiveKind, hm, hread]
  simp only [FlowNodeJson.toNode, hkind, Option.getD_some, FlowNode.mk.injEq, and_true, true_and]
  cases n.conditionCel with
  | none => exact iff_of_false (by decide) Bool.false_ne_true
  | some s => exact iff_of_true rfl rfl

theorem savesAs_while (hkind : n.kind = some "while") : SavesAs js n n.conditionCel.isSome := by
  have hsaved : saved js n = some
      { id := n.id
        kind := some "while"
        name := some (n.name.getD "")
        prompt := some (n.prompt.getD "")
        conditionCel := some (n.conditionCel.getD "iteration < 3")
        maxIterations := match n.maxIterations with
          | some k => some (if 0 < k then k else 100)
          | none => some 100 } := by
    unfold saved compileOne openNode
    rw [hkind]
    rfl
  have hread : n.toNode.readKind = .while := readKind_toNode hkind (by decide)
  refine savesAs_of hsaved rfl (readKind_toNode rfl (by decide)) hread fun hm => ?_
  rw [FlowNode.effective, FlowNode.effective, hm, hread]
  simp only [FlowNode.effectiveKind, hm, hread]
  simp only [FlowNode.maxIter, FlowNodeJson.toNode, hkind, Option.getD_some, FlowNode.mk.injEq,
    and_true, true_and]
  refine (and_iff_left (maxIterations_default n.maxIterations)).trans ?_
  cases n.conditionCel with
  | none => exact iff_of_false (by decide) Bool.false_ne_true
  | some s => exact iff_of_true rfl rfl

theorem savesAs_mcp (hkind : n.kind = some "mcp") : SavesAs js n n.mcpArgumentsJson.isSome := by
  have hsaved : saved js n = some
      { id := n.id
        kind := some "mcp"
        name := some (n.name.getD "")
        prompt := some (n.prompt.getD "")
        mcpToolId := some (n.mcpToolId.getD "")
        mcpArgumentsJson := some (n.mcpArgumentsJson.getD "\x7b\x7d") } := by
    unfold saved compileOne openNode
    rw [hkind]
    rfl
  have hread : n.toNode.readKind = .mcp := readKind_toNode hkind (by decide)
  refine savesAs_of hsaved rfl (readKind_toNode rfl (by decide)) hread fun hm => ?_
  rw [FlowNode.effective, FlowNode.effective, hm, hread]
  simp only [FlowNode.effectiveKind, hm, hread]
  simp only [FlowNodeJson.toNode, hkind, Option.getD_some, FlowNode.mk.injEq, and_true, true_and]
  cases n.mcpArgumentsJson with
  | none => exact iff_of_false (by decide) Bool.false_ne_true
  | some s => exact iff_of_true rfl rfl

theorem savesAs_approval (hkind : n.kind = some "user_approval" ∨ n.kind = some "userApproval") :
    SavesAs js n True := by
  have hsaved : saved js n = some
      { id := n.id
        kind := some "user_approval"
        name := some (n.name.getD "")
        prompt := some (n.prompt.getD "") } := by
    unfold saved compileOne openNode
    rcases hkind with h | h <;> rw [h]
    · cases n.prompt <;> rfl
    · rfl
  have hread : n.toNode.readKind = .approval := by
    rcases hkind with h | h <;> exact readKind_toNode h (by decide)
  refine savesAs_of hsaved rfl (readKind_toNode rfl (by decide)) hread fun hm => ?_
  rw [FlowNode.effective, FlowNode.effective, hm, hread]
  simp only [FlowNode.effectiveKind, hm, hread]
  simp only [FlowNodeJson.toNode, Option.getD_some]

theorem savesAs_fileSearch (hkind : n.kind = some "file_search" ∨ n.kind = some "fileSearch") :
    SavesAs js n True := by
  have hsaved : saved js n = some
      { id := n.id
        kind := some "file_search"
        name := some (n.name.getD "")
        prompt := some (n.prompt.getD "")
        vectorCollection := some (n.vectorCollection.getD "")
        vectorQueryTemplate := some (n.vectorQueryTemplate.getD "")
        vectorTopK := match n.vectorTopK with
          | some k => some (if 0 < k then min 100 k else 0)
          | none => some 0 } := by
    unfold saved compileOne openNode
    rcases hkind with h | h <;> rw [h] <;> rfl
  have hread : n.toNode.readKind = .fileSearch := by
    rcases hkind with h | h <;> exact readKind_toNode h (by decide)
  refine savesAs_of hsaved rfl (readKind_toNode rfl (by decide)) hread fun hm => ?_
  rw [FlowNode.effective, FlowNode.effective, hm, hread]
  simp only [FlowNode.effectiveKind, hm, hread]
  simp only [FlowNodeJson.toNode, Option.getD_some, FlowNode.mk.injEq, and_true, true_and, iff_true]
  exact vectorTopK_default n.vectorTopK

theorem savesAs_setState (hkind : n.kind = some "set_state" ∨ n.kind = some "setState") :
    SavesAs js n True := by
  have hsaved : saved js n = some
      { id := n.id
        kind := some "set_state"
        name := some (n.name.getD "")
        prompt := some (n.prompt.getD "")
        stateKey := some (n.stateKey.getD "")
        stateValueJson := some (n.stateValueJson.getD "null")
        stateValueCel := some (n.stateValueCel.getD "") } := by
    unfold saved compileOne openNode
    rcases hkind with h | h <;> rw [h] <;> rfl
  have hread : n.toNode.readKind = .setState := by
    rcases hkind with h | h <;> exact readKind_toNode h (by decide)
  refine savesAs_of hsaved rfl (readKind_toNode rfl (by decide)) hread fun hm => ?_
  rw [FlowNode.effective, FlowNode.effective, hm, hread]
  simp only [FlowNode.effectiveKind, hm, hread]
  simp only [FlowNodeJson.toNode, Option.getD_some, FlowNode.mk.injEq, and_true, true_and, iff_true]
  exact congrArg (ite _ "") (stateValueJson_default n.stateValueJson)

theorem savesAs_transform (hkind : n.kind = some "transform") : SavesAs js n True := by
  have hsaved : saved js n = some
      { id := n.id
        kind := some "transform"
        name := some (n.name.getD "")
        prompt := some (n.prompt.getD "")
        transformFromNodeId := some (n.transformFromNodeId.getD "")
        stateKey := some (n.stateKey.getD "")
        transformMode := some (n.transformMode.getD "")
        transformExpressionsJson := some (n.transformExpressionsJson.getD "")
        transformObjectJson := some (n.transformObjectJson.getD "") } := by
    unfold saved compileOne openNode
    rw [hkind]
    rfl
  have hread : n.toNode.readKind = .transform := readKind_toNode hkind (by decide)
  refine savesAs_of hsaved rfl (readKind_toNode rfl (by decide)) hread fun hm => ?_
  rw [FlowNode.effective, FlowNode.effective, hm, hread]
  simp only [FlowNode.effectiveKind, hm, hread]
  simp only [FlowNodeJson.toNode, hkind, Option.getD_some]

/-! ## Nodes of other kinds -/

/-- Nothing is set that the interpreter reads, but for the name and the prompt. -/
def FlowNode.Unset (n : FlowNode χ) : Prop :=
  match n.readKind with
  | .note | .start | .finish | .approval | .unknown _ => True
  | .ifElse => Text.trim n.conditionCel = ""
  | .while => Text.trim n.conditionCel = "" ∧ n.maxIter = 100
  | .guardrails =>
      Text.trim n.sourceNodeId = "" ∧
        (n.guardrailChecks = [] ∨
          n.guardrailChecks.map Text.toAsciiLowercase = ["leak", "injection", "policy"]) ∧
        Text.trim n.guardrailInputTemplate = "" ∧ n.guardrailContinueOnError = false ∧
        Text.trim n.guardrailCustomSubstring = ""
  | .mcp => Text.trim n.mcpToolId = "" ∧ n.mcpArgumentsJson = ""
  | .fileSearch =>
      Text.trim n.vectorCollection = "" ∧ n.vectorQueryTemplate = "" ∧
        (n.vectorTopK = 0 ∨ n.vectorTopK = 10)
  | .setState =>
      Text.trim n.stateKey = "" ∧ Text.trim n.stateValueCel = "" ∧
        (n.stateValueJson = "" ∨ n.stateValueJson = "null")
  | .transform =>
      Text.trim n.transformFromNodeId = "" ∧ n.transformMode = "" ∧
        n.transformExpressionsJson = "" ∧ Text.trim n.transformObjectJson = "" ∧
        Text.trim n.stateKey = ""
  | .crew => n.crewSpec = none
  | .agent =>
      Text.trim n.instructions = "" ∧ Text.trim n.model = "" ∧ n.tools = [] ∧
        n.temperature.getD 0.5 = 0.5 ∧ n.maxTokens.getD 2048 = 2048 ∧
        n.includeChatHistory = false ∧ Text.toAsciiLowercase n.outputFormat ≠ "json"
  | .classify =>
      n.temperature.getD 0.2 = 0.2 ∧ max (n.maxTokens.getD 128) 16 = 128 ∧
        Text.toAsciiLowercase n.outputFormat ≠ "json" ∧ n.classifyCategories = [] ∧
        Text.trim n.classifyModel = "" ∧ Text.trim n.classifyInputTemplate = "" ∧
        Text.trim n.classifyExamplesJson = ""
  | .llm =>
      Text.trim n.model = "" ∧ n.temperature.getD 0.7 = 0.7 ∧ n.maxTokens.getD 512 = 512 ∧
        Text.toAsciiLowercase n.outputFormat ≠ "json"

theorem jsonOnly_unset_iff {format : String} :
    jsonOnly format = jsonOnly "" ↔ Text.toAsciiLowercase format ≠ "json" := by
  have hempty : jsonOnly "" = "" := by decide
  rw [hempty]
  unfold jsonOnly
  split <;> simp [*]

theorem unblank_unset_iff {s : String} : unblank s = unblank "" ↔ Text.trim s = "" := by
  have hempty : unblank "" = "" := by decide
  rw [hempty, unblank_eq_empty_iff]

theorem toAsciiLowercase_unset_iff {s : String} :
    Text.toAsciiLowercase s = Text.toAsciiLowercase "" ↔ s = "" := by
  have hempty : Text.toAsciiLowercase "" = "" := by decide
  rw [hempty, toAsciiLowercase_eq_empty_iff]

theorem guardrailChecks_unset_iff {l : List String} :
    (if l.isEmpty then ["leak", "injection", "policy"] else l.map Text.toAsciiLowercase) =
        ["leak", "injection", "policy"] ↔
      l = [] ∨ l.map Text.toAsciiLowercase = ["leak", "injection", "policy"] := by
  cases l with
  | nil => simp
  | cons s l => simp

theorem vectorTopK_unset_iff {k : UInt32} :
    (if k = 0 then 10 else min 100 k) = 10 ↔ k = 0 ∨ k = 10 := by
  split
  · simp [*]
  · rename_i hk
    rw [← UInt32.toNat_inj, toNat_min100, ← @UInt32.toNat_inj k 10, or_iff_right hk]
    have hten : (10 : UInt32).toNat = 10 := rfl
    omega

theorem stateValue_unset_iff {cel json : String} :
    (Text.trim cel = "" ∧ (if Text.trim cel ≠ "" then "" else if json = "" then "null" else json) =
        "null") ↔ Text.trim cel = "" ∧ (json = "" ∨ json = "null") := by
  refine and_congr_right fun hcel => ?_
  rw [if_neg (not_not.2 hcel)]
  split
  · simp [*]
  · rename_i hjson
    exact (or_iff_right hjson).symm

theorem history_unset_iff {history : Bool} {key : String} {P : Prop} :
    (history = false ∧ P ∧ (if history then unblank key else "") = "") ↔ history = false ∧ P := by
  refine and_congr_right fun hhistory => ?_
  rw [hhistory]
  exact and_iff_left rfl

/-- **A node of which only the name and the prompt are left** is the same if nothing else was
set. -/
theorem unset_iff {n : FlowNode χ} :
    n.effective =
      FlowNode.effective { id := n.id, kind := n.kind, name := n.name, prompt := n.prompt } ↔
      n.Unset := by
  have hread : (FlowNode.readKind
      { id := n.id, kind := n.kind, name := n.name, prompt := n.prompt : FlowNode χ }) =
      n.readKind := rfl
  rw [FlowNode.effective, FlowNode.effective, hread]
  unfold FlowNode.Unset
  simp only [FlowNode.effectiveKind, hread]
  cases n.readKind with
  | ifElse => simp [unblank_unset_iff]
  | «while» =>
      simp only [FlowNode.mk.injEq, and_true, true_and, unblank_unset_iff]
      rfl
  | guardrails =>
      simp only [FlowNode.mk.injEq, and_true, true_and, unblank_unset_iff]
      exact and_congr_right fun _ => and_congr_left fun _ => guardrailChecks_unset_iff
  | mcp => simp [unblank_unset_iff]
  | fileSearch =>
      simp only [FlowNode.mk.injEq, and_true, true_and, unblank_unset_iff]
      exact and_congr_right fun _ => and_congr_right fun _ => vectorTopK_unset_iff
  | setState =>
      simp only [FlowNode.mk.injEq, true_and, unblank_unset_iff]
      exact and_congr_right fun _ => and_comm.trans stateValue_unset_iff
  | transform =>
      simp only [FlowNode.mk.injEq, and_true, true_and, unblank_unset_iff,
        toAsciiLowercase_unset_iff]
  | crew => simp
  | agent =>
      simp only [FlowNode.mk.injEq, and_true, true_and, unblank_unset_iff, jsonOnly_unset_iff,
        Option.some.injEq, Bool.false_eq_true, if_false, history_unset_iff]
      rfl
  | classify =>
      simp only [FlowNode.mk.injEq, and_true, true_and, unblank_unset_iff, jsonOnly_unset_iff,
        Option.some.injEq]
      rfl
  | llm =>
      simp only [FlowNode.mk.injEq, and_true, true_and, unblank_unset_iff, jsonOnly_unset_iff,
        Option.some.injEq]
      rfl
  | _ => simp

/-- What a node must be like to be saved as it is, by its kind as it is spelled. -/
def NodeKept (js : JsCasing) (n : FlowNodeJson χ) : Prop :=
  match n.kind.getD "" with
  | "note" => False
  | "agent" => ListKept (n.tools.getD [])
  | "classify" => ListKept (n.classifyCategories.getD [])
  | "guardrails" => ChecksKept js (n.guardrailChecks.getD [])
  | "if" | "while" => n.conditionCel.isSome
  | "mcp" => n.mcpArgumentsJson.isSome
  | "" | "llm" | "user_approval" | "userApproval" | "file_search" | "fileSearch" | "set_state"
  | "setState" | "transform" => True
  -- the builder has no fields for other kinds, or for kinds that are spelled otherwise
  | _ => n.toNode.Unset

theorem kind_eq_some {k : String} (h : n.kind.getD "" = k) (hk : k ≠ "") : n.kind = some k := by
  cases hn : n.kind with
  | none =>
      rw [hn] at h
      exact absurd h.symm hk
  | some k' =>
      rw [hn] at h
      exact congrArg some h

/-- The kinds that the builder has fields for, or leaves out, or gives another name. -/
def fieldKinds : List String :=
  ["note", "agent", "classify", "guardrails", "if", "while", "mcp", "", "llm", "user_approval",
    "userApproval", "file_search", "fileSearch", "set_state", "setState", "transform"]

theorem savesAs_other {k : String} (hkind : n.kind = some k) (hk : k ∉ fieldKinds) :
    SavesAs js n n.toNode.Unset := by
  have hne : ∀ k' ∈ fieldKinds, k ≠ k' := fun k' hk' h => hk (h ▸ hk')
  have htype : rustKindToRf k = k := by
    unfold rustKindToRf
    split
    · exact absurd rfl (hne "file_search" (by decide))
    · exact absurd rfl (hne "set_state" (by decide))
    · exact absurd rfl (hne "user_approval" (by decide))
    · rfl
    · exact absurd rfl (hne "" (by decide))
    · rfl
  have hback : mapRfKindToRust k = k := by
    unfold mapRfKindToRust
    split
    · exact absurd rfl (hne "fileSearch" (by decide))
    · exact absurd rfl (hne "setState" (by decide))
    · rfl
  have hsaved : saved js n = some
      { id := n.id
        kind := some k
        name := some (n.name.getD "")
        prompt := some (n.prompt.getD "") } := by
    unfold saved compileOne openNode
    rw [hkind]
    dsimp only [Option.getD_some]
    rw [htype, hback]
    split <;> first | rfl | exact absurd (by decide) hk
  refine ⟨_, hsaved, rfl, ?_, ?_⟩
  · rw [readKind_toNode hkind rfl]
    rfl
  · rw [← unset_iff, eq_comm]
    refine Eq.congr_right (congrArg FlowNode.effective ?_)
    unfold FlowNodeJson.toNode
    rw [hkind]
    rfl

theorem savesAs_nodeKept (hnote : n.kind.getD "" ≠ "note") : SavesAs js n (NodeKept js n) := by
  unfold NodeKept
  split
  · exact absurd ‹_› hnote
  · exact savesAs_agent (kind_eq_some ‹_› (by decide))
  · exact savesAs_classify (kind_eq_some ‹_› (by decide))
  · exact savesAs_guardrails (kind_eq_some ‹_› (by decide))
  · exact savesAs_if (kind_eq_some ‹_› (by decide))
  · exact savesAs_while (kind_eq_some ‹_› (by decide))
  · exact savesAs_mcp (kind_eq_some ‹_› (by decide))
  · exact savesAs_llm (.inl ‹_›)
  · exact savesAs_llm (.inr ‹_›)
  · exact savesAs_approval (.inl (kind_eq_some ‹_› (by decide)))
  · exact savesAs_approval (.inr (kind_eq_some ‹_› (by decide)))
  · exact savesAs_fileSearch (.inl (kind_eq_some ‹_› (by decide)))
  · exact savesAs_fileSearch (.inr (kind_eq_some ‹_› (by decide)))
  · exact savesAs_setState (.inl (kind_eq_some ‹_› (by decide)))
  · exact savesAs_setState (.inr (kind_eq_some ‹_› (by decide)))
  · exact savesAs_transform (kind_eq_some ‹_› (by decide))
  · refine savesAs_other (kind_eq_some rfl ‹n.kind.getD "" = "" → False›) fun hmem => ?_
    simp only [fieldKinds, List.mem_cons, List.not_mem_nil, or_false] at hmem
    tauto

end Nodes

end PeerClaw
