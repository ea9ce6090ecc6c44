import PeerClaw.Agent.UnifiedLoop
import PeerClaw.Lib.Lines
import PeerClaw.Lib.Paragraphs

/-!
# Compaction of the conversation

`prune_string_conversation` in `agent/compaction.rs` shortens the conversation of the
unified loop.  It cuts the part after the system prefix at its blank lines, takes the
paragraphs that begin with one of three markers for tool results, and shortens or
drops those first.  The loop does not write any of these markers.

* `pruneStringConversation` — the three passes.
* `toolSection`, `execCall_conversation` — what the loop appends for a call.
* `section_classified_iff` — a section is taken for a tool result exactly when it runs
  into a text that begins with a marker, and each of its other paragraphs begins
  with one too.
* `section_after_section` — the next section of the same pass never is.
-/

namespace PeerClaw

open Lib Lib.Paragraphs

/-! ## Pruning -/

/-- `TOOL_RESULT_TRUNCATE_CHARS`. -/
def toolResultTruncateChars : ℕ := 500

def isLineBreak (c : Char) : Bool := c = '\n'

/-- How a tool result begins. -/
def toolResultMarkers : List (List Char) :=
  ["Tool result for ".toList, "Tool '".toList, "Tool error:".toList]

/-- A paragraph is taken for a tool result. -/
def isToolResult (part : List Char) : Bool :=
  toolResultMarkers.any fun marker => marker.isPrefixOf (Text.trimChars part)

/-- What comes before the last occurrence of a character. -/
def beforeLast (c : Char) (cs : List Char) : Option (List Char) :=
  if c ∈ cs then some (cs.reverse.dropWhile (· ≠ c)).tail.reverse else none

/-- `truncate_tool_result`; cutting inside a character panics. -/
def truncateToolResult (content : List Char) (maxChars : ℕ) : Option (List Char) :=
  if Text.byteLen content ≤ maxChars then some content
  else (Text.takeBytes maxChars content).map fun head =>
    let kept := ((beforeLast '\n' head).or (beforeLast ' ' head)).getD head
    kept ++ ("...(truncated, " ++ toString (Text.byteLen content - Text.byteLen kept) ++
      " chars omitted)").toList

/-- A paragraph of the conversation. -/
structure PromptPart where
  text : List Char
  isTool : Bool
  dropped : Bool
  deriving DecidableEq

/-- The paragraphs, with what they are taken for. -/
def classify (body : List Char) : List PromptPart :=
  (paragraphs isLineBreak body).map fun text => ⟨text, isToolResult text, false⟩

/-- First pass: shorten large tool results until the conversation fits.  The difference of the
lengths wraps where the shortened text is the longer one. -/
def truncateParts (maxChars : ℕ) : List PromptPart → ℕ → Option (List PromptPart × ℕ)
  | [], size => some ([], size)
  | part :: parts, size =>
      if part.isTool ∧ maxChars < size ∧ toolResultTruncateChars < Text.byteLen part.text then
        (truncateToolResult part.text toolResultTruncateChars).bind fun text =>
          let saved := (Text.byteLen part.text + 2 ^ 64 - Text.byteLen text) % 2 ^ 64
          (truncateParts maxChars parts (size - saved)).map fun rest =>
            ({ part with text := text } :: rest.1, rest.2)
      else (truncateParts maxChars parts size).map fun rest => (part :: rest.1, rest.2)

/-- Second and third pass: drop tool results, or others, before a place, until the conversation
fits. -/
def dropParts (tool : Bool) (maxChars protectFrom : ℕ) :
    ℕ → List PromptPart → ℕ → List PromptPart × ℕ
  | _, [], size => ([], size)
  | i, part :: parts, size =>
      if part.isTool = tool ∧ maxChars < size ∧ i < protectFrom then
        let rest := dropParts tool maxChars protectFrom (i + 1) parts
          (size - (Text.byteLen part.text + 2))
        ({ part with dropped := true } :: rest.1, rest.2)
      else
        let rest := dropParts tool maxChars protectFrom (i + 1) parts size
        (part :: rest.1, rest.2)

/-- What is left, after the prefix and a notice. -/
def assembled (head : List Char) (notice : String) (parts : List PromptPart) : String :=
  String.ofList (head ++ notice.toList ++
    (parts.filter fun part => !part.dropped).flatMap fun part => part.text ++ "\n\n".toList)

/-- What follows the first pass. -/
def dropPasses (head : List Char) (maxChars : ℕ) (parts : List PromptPart) (size : ℕ) : String :=
  if size ≤ maxChars then
    String.ofList (head ++ "\n\n".toList.intercalate (parts.map PromptPart.text))
  else
    let protectFrom := max (parts.length - parts.length / 4) 1
    match dropParts true maxChars protectFrom 0 parts size with
    | (parts, size) =>
        if size ≤ maxChars then
          assembled head "\n\n(Earlier tool results compacted.)\n\n" parts
        else
          assembled head "\n\n(Earlier conversation compacted.)\n\n"
            (dropParts false maxChars protectFrom 0 parts size).1

/-- `prune_string_conversation`; cutting inside a character panics. -/
def pruneStringConversation (conversation : String) (prefixLen maxChars : ℕ) : Option String :=
  let len := Text.byteLen conversation.toList
  if len ≤ maxChars then some conversation
  else
    match Text.takeBytes (min prefixLen len) conversation.toList,
        Text.dropBytes (min prefixLen len) conversation.toList with
    | some head, some body =>
        let parts := classify body
        let size := Text.byteLen head + (parts.map fun part => Text.byteLen part.text + 2).sum
        (truncateParts maxChars parts size).map fun truncated =>
          dropPasses head maxChars truncated.1 truncated.2
    | _, _ => none

/-! ## The sections of the loop -/

/-- What the loop appends for a call. -/
def toolSection (name text : String) : String := s!"Tool: {name}\nResult: {text}\n\n"

/-- The text in the section of a call; there is none if cutting it panics. -/
def toolText (s : AgenticSetup) (d : PassDraw) (st : AgenticState) (call : ParsedToolCall) :
    Option String :=
  if ':' ∉ call.name.toList ∧ !s.allows call.name then
    some s!"ERROR: Tool '{call.name}' is not in the allowed tools list"
  else truncatedSummary (callTool s d st call).2.1

theorem callTool_conversation (s : AgenticSetup) (d : PassDraw) (st : AgenticState)
    (call : ParsedToolCall) : (callTool s d st call).1.conversation = st.conversation := by
  unfold callTool
  split
  · split
    · split <;> rfl
    · rfl
  · split
    · split <;> rfl
    · rfl

/-- **What a call adds to the conversation.** -/
theorem execCall_conversation (s : AgenticSetup) (d : PassDraw) (st : AgenticState)
    (call : ParsedToolCall) :
    (execCall s d st call).1.conversation =
      st.conversation ++ ((toolText s d st call).map (toolSection call.name)).getD "" := by
  have hcalled := callTool_conversation s d st call
  unfold execCall toolText
  split
  · rfl
  · rcases hcall : callTool s d st call with ⟨st', summary, success⟩
    rw [hcall] at hcalled
    dsimp only at hcalled ⊢
    cases truncatedSummary summary with
    | none =>
        rw [Option.map_none, Option.getD_none, String.append_empty]
        exact hcalled
    | some text =>
        rw [← hcalled]
        rfl

/-- A text in which the characters of a section are marked. -/
def marked (before part after : List Char) : List (Char × Bool) :=
  before.map (·, false) ++ part.map (·, true) ++ after.map (·, false)

abbrev markedBreak (c : Char × Bool) : Bool := isLineBreak c.1

/-- **Every paragraph of a section is taken for a tool result.**  A paragraph belongs to the section
if one of its characters that is not white space does. -/
def ClassifiedAsTool (before part after : List Char) : Prop :=
  ∀ p ∈ paragraphs markedBreak (marked before part after),
    (∃ c ∈ p, c.2 = true ∧ Text.isWhitespace c.1 = false) → isToolResult (p.map Prod.fst)

/-- The marked paragraphs are those that compaction classifies. -/
theorem map_marked (before part after : List Char) :
    (paragraphs markedBreak (marked before part after)).map
        (fun p => ⟨p.map Prod.fst, isToolResult (p.map Prod.fst), false⟩) =
      classify (before ++ part ++ after) := by
  have hmap := map_paragraphs isLineBreak Prod.fst (marked before part after)
  have hchars : (marked before part after).map Prod.fst = before ++ part ++ after := by
    simp [marked, Function.comp_def]
  rw [hchars] at hmap
  rw [classify, ← hmap, List.map_map]
  rfl

/-! ### White space -/

theorem isWhitespace_of_isLineBreak {c : Char} (h : isLineBreak c = true) :
    Text.isWhitespace c = true := by
  rw [of_decide_eq_true h]
  decide

/-- Trimming the end of a text keeps it up to its last character that is not white space. -/
theorem exists_trimEnd (w : List Char) {c : Char} (hc : Text.isWhitespace c = false)
    (z : List Char) :
    ∃ z', ((w ++ c :: z).reverse.dropWhile Text.isWhitespace).reverse = w ++ c :: z' := by
  have hrev : (w ++ c :: z).reverse = z.reverse ++ c :: w.reverse := by simp
  rw [hrev, List.dropWhile_append]
  split
  · refine ⟨[], ?_⟩
    rw [List.dropWhile_cons_of_neg (by simp [hc])]
    simp
  · refine ⟨(z.reverse.dropWhile Text.isWhitespace).reverse, ?_⟩
    simp

/-! ### The paragraph in which a section begins -/

/-- A marker has its only capital letter at the front, and is not the beginning of a section. -/
theorem marker_shape {marker : List Char} (h : marker ∈ toolResultMarkers) :
    'T' ∉ marker.tail ∧ ∀ z, ¬ marker <+: "Tool:".toList ++ z := by
  have hshape : 'T' ∉ marker.tail ∧ marker[4]? = some ' ' := by
    revert marker
    decide
  refine ⟨hshape.1, ?_⟩
  intro z hprefix
  obtain ⟨w, hw⟩ := hprefix
  have hlt : 4 < marker.length := (List.getElem?_eq_some_iff.1 hshape.2).1
  have hfifth : (marker ++ w)[4]? = some ' ' := by
    rw [List.getElem?_append_left hlt]
    exact hshape.2
  rw [hw] at hfifth
  revert hfifth
  simp

/-- **Whose text decides.**  The paragraph in which a section begins is taken for a tool result
exactly when the text that runs into the section begins with a marker. -/
theorem isToolResult_lead (text z : List Char) :
    isToolResult (text ++ "Tool:".toList ++ z) ↔
      ∃ marker ∈ toolResultMarkers, marker <+: text.dropWhile Text.isWhitespace := by
  have hstart : (text ++ "Tool:".toList ++ z).dropWhile Text.isWhitespace =
      text.dropWhile Text.isWhitespace ++ "Tool".toList ++ ':' :: z := by
    have hT : ∀ xs : List Char, ('T' :: xs).dropWhile Text.isWhitespace = 'T' :: xs := fun xs => rfl
    rw [List.append_assoc, List.dropWhile_append]
    split
    · rename_i hempty
      rw [List.isEmpty_iff.1 hempty]
      exact hT _
    · simp
  obtain ⟨z', hz'⟩ := exists_trimEnd (text.dropWhile Text.isWhitespace ++ "Tool".toList)
    (c := ':') (by decide) z
  have htrim : Text.trimChars (text ++ "Tool:".toList ++ z) =
      text.dropWhile Text.isWhitespace ++ ("Tool:".toList ++ z') := by
    unfold Text.trimChars
    rw [hstart, hz']
    simp
  unfold isToolResult
  rw [htrim, List.any_eq_true]
  constructor
  · rintro ⟨marker, hmem, hprefix⟩
    refine ⟨marker, hmem, ?_⟩
    obtain ⟨hcapital, hother⟩ := marker_shape hmem
    rw [List.isPrefixOf_iff_prefix] at hprefix
    rcases List.prefix_or_prefix_of_prefix hprefix (List.prefix_append _ _) with
      hshort | ⟨rest, hmarker⟩
    · exact hshort
    · rw [← hmarker, List.prefix_append_right_inj] at hprefix
      -- otherwise the section's own capital letter would be in the marker
      cases htext : text.dropWhile Text.isWhitespace with
      | nil =>
          rw [htext, List.nil_append] at hmarker
          rw [hmarker] at hprefix
          exact absurd hprefix (hother z')
      | cons c cs =>
          cases hr : rest with
          | nil =>
              rw [← hmarker, hr, List.append_nil, htext]
          | cons r rs =>
              rw [hr] at hprefix
              obtain ⟨w, hw⟩ := hprefix
              have hr' : r = 'T' := (List.cons.inj hw).1
              refine absurd ?_ hcapital
              rw [← hmarker, htext, hr, hr']
              simp
  · rintro ⟨marker, hmem, hprefix⟩
    refine ⟨marker, hmem, ?_⟩
    rw [List.isPrefixOf_iff_prefix]
    exact hprefix.trans (List.prefix_append _ _)

/-! ### The other paragraphs of a section -/

section Marked

/-- A paragraph of nothing but the section, against the one of the section alone. -/
theorem marked_part_iff {p q : List (Char × Bool)} (h : SameParagraph markedBreak p q)
    (hmarked : ∀ c ∈ p, c.2 = true) :
    ((∃ c ∈ p, c.2 = true ∧ Text.isWhitespace c.1 = false) → isToolResult (p.map Prod.fst)) ↔
      (q.map Prod.fst).all Text.isWhitespace ∨ isToolResult (q.map Prod.fst) := by
  have hsame : isToolResult (q.map Prod.fst) = isToolResult (p.map Prod.fst) ∧
      ((q.map Prod.fst).all Text.isWhitespace = true ↔
        ∀ c ∈ p, Text.isWhitespace c.1 = true) := by
    rcases h with rfl | ⟨n, hn, rfl⟩
    · exact ⟨rfl, by simp⟩
    · have hspace := isWhitespace_of_isLineBreak hn
      rw [List.map_append]
      refine ⟨?_, ?_⟩
      · unfold isToolResult
        rw [List.map_singleton, Text.trimChars_concat hspace]
      · simp [hspace]
  rw [hsame.1, hsame.2]
  constructor
  · intro hclass
    by_cases hblank : ∀ c ∈ p, Text.isWhitespace c.1 = true
    · exact .inl hblank
    · push Not at hblank
      obtain ⟨c, hc, hspace⟩ := hblank
      exact .inr (hclass ⟨c, hc, hmarked c hc, Bool.eq_false_iff.2 hspace⟩)
  · rintro (hblank | htool) ⟨c, hc, -, hspace⟩
    · rw [hblank c hc] at hspace
      cases hspace
    · exact htool

theorem marked_parts_iff {ps qs : List (List (Char × Bool))}
    (h : List.Forall₂ (SameParagraph markedBreak) ps qs)
    (hmarked : ∀ p ∈ ps, ∀ c ∈ p, c.2 = true) :
    (∀ p ∈ ps, (∃ c ∈ p, c.2 = true ∧ Text.isWhitespace c.1 = false) →
        isToolResult (p.map Prod.fst)) ↔
      ∀ q ∈ qs.map (List.map Prod.fst), q.all Text.isWhitespace ∨ isToolResult q := by
  induction h with
  | nil => simp
  | cons hpq hrest ih =>
      rw [List.forall_mem_cons] at hmarked
      rw [List.forall_mem_cons, List.map_cons, List.forall_mem_cons,
        marked_part_iff hpq hmarked.1, ih hmarked.2]

theorem map_lead (before : List Char) (b : Bool) :
    (lead markedBreak (before.map (·, b))).map Prod.fst = lead isLineBreak before := by
  have hmap := map_paragraphs isLineBreak Prod.fst (before.map (·, b))
  rw [List.map_map, Function.comp_def, List.map_id'] at hmap
  unfold lead
  rw [← hmap, List.getLastD_eq_getLast?, List.getLastD_eq_getLast?, List.getLast?_map]
  cases (paragraphs markedBreak (before.map (·, b))).getLast? <;> rfl

/-- **The paragraphs around a section.**  Before it, what is not of the section; the one in which
it begins, with what runs into it; its further ones; and after it, of the section only
white space. -/
theorem section_paragraphs (before body after : List Char) :
    ∃ init first parts rest z,
      paragraphs markedBreak (marked before ("Tool: ".toList ++ body ++ "\n\n".toList) after) =
        init ++ first :: (parts ++ rest) ∧
      (∀ p ∈ init, ∀ c ∈ p, c.2 = false) ∧
      (first.map Prod.fst = lead isLineBreak before ++ "Tool:".toList ++ z ∧ ('T', true) ∈ first) ∧
      List.Forall₂ (SameParagraph markedBreak) parts
        (paragraphs markedBreak (body.map (·, true))).tail ∧
      (∀ p ∈ parts, ∀ c ∈ p, c.2 = true) ∧
      ∀ p ∈ rest, ∀ c ∈ p, c.2 = true → Text.isWhitespace c.1 = true := by
  have hmarked : marked before ("Tool: ".toList ++ body ++ "\n\n".toList) after =
      before.map (·, false) ++ ('T', true) :: ("ool: ".toList.map (·, true) ++
        (body.map (·, true) ++ ('\n', true) :: ('\n', true) :: after.map (·, false))) := by
    simp [marked]
  have hcapital : markedBreak ('T', true) = false := rfl
  have hbreak : markedBreak ('\n', true) = true := rfl
  obtain ⟨init, hbefore, hwhole⟩ := paragraphs_append_cons (before.map (·, false)) hcapital
    ("ool: ".toList.map (·, true) ++
      (body.map (·, true) ++ ('\n', true) :: ('\n', true) :: after.map (·, false)))
  obtain ⟨ps, rest, hparts, hsame, hrest⟩ :=
    paragraphs_append_breaks (body.map (·, true)) hbreak hbreak (after.map (·, false))
  have hheader : paragraphs markedBreak (('T', true) :: ("ool: ".toList.map (·, true) ++
        (body.map (·, true) ++ ('\n', true) :: ('\n', true) :: after.map (·, false)))) =
      prepend ("Tool: ".toList.map (·, true)) (ps ++ rest) := by
    rw [← hparts]
    refine paragraphs_append (w := "Tool: ".toList.map (·, true)) ?_ _
    decide
  cases hps : paragraphs markedBreak (body.map (·, true)) with
  | nil => exact absurd hps (paragraphs_ne_nil _)
  | cons q qs =>
      rw [hps] at hsame
      obtain ⟨p, parts, hpq, hmore, rfl⟩ := List.forall₂_cons_right_iff.1 hsame
      refine ⟨init, lead markedBreak (before.map (·, false)) ++
        ("Tool: ".toList.map (·, true) ++ p), parts, rest, ' ' :: p.map Prod.fst, ?_, ?_, ⟨?_, ?_⟩,
        hmore, ?_, ?_⟩
      · rw [hmarked, hwhole, hheader]
        rfl
      · intro p' hp' c hc
        have hmem : p' ∈ paragraphs markedBreak (before.map (·, false)) := by
          rw [hbefore]
          exact List.mem_append_left _ hp'
        obtain ⟨d, -, rfl⟩ := List.mem_map.1 (mem_of_mem_paragraphs hmem hc)
        rfl
      · rw [List.map_append, map_lead]
        simp
      · simp
      · -- the further paragraphs are those of the section alone
        refine forall_of_same hmore ?_
        intro q' hq' c hc
        have hmem : q' ∈ paragraphs markedBreak (body.map (·, true)) := by
          rw [hps]
          exact List.mem_cons_of_mem _ hq'
        obtain ⟨d, -, rfl⟩ := List.mem_map.1 (mem_of_mem_paragraphs hmem hc)
        rfl
      · intro p' hp' c hc hmark
        have hafter : c ∈ ('\n', true) :: after.map (·, false) := by
          rcases hrest with rfl | rfl
          · exact List.mem_cons_of_mem _ (mem_of_mem_paragraphs hp' hc)
          · exact mem_of_mem_paragraphs hp' hc
        rcases List.mem_cons.1 hafter with rfl | hafter
        · decide
        · obtain ⟨d, -, rfl⟩ := List.mem_map.1 hafter
          cases hmark

end Marked

theorem toList_toolSection (name text : String) :
    (toolSection name text).toList =
      "Tool: ".toList ++ (name.toList ++ "\nResult: ".toList ++ text.toList) ++ "\n\n".toList := by
  have hformat : toolSection name text =
      "Tool: " ++ name ++ "\nResult: " ++ text ++ "\n\n" := rfl
  rw [hformat]
  simp [String.toList_append]

/-- **When a section is taken for a tool result.**  Whatever the name, the result and the
conversation around them: exactly when the text that runs into the section begins with a
marker, and so does every further paragraph of the section that is not blank. -/
theorem section_classified_iff (name text : String) (before after : List Char) :
    ClassifiedAsTool before (toolSection name text).toList after ↔
      (∃ marker ∈ toolResultMarkers,
        marker <+: (lead isLineBreak before).dropWhile Text.isWhitespace) ∧
      ∀ p ∈ (paragraphs isLineBreak
          (name.toList ++ "\nResult: ".toList ++ text.toList)).tail,
        p.all Text.isWhitespace ∨ isToolResult p := by
  obtain ⟨init, first, parts, rest, z, hwhole, hinit, ⟨hfirst, hcapital⟩, hsame, hparts, hrest⟩ :=
    section_paragraphs before (name.toList ++ "\nResult: ".toList ++ text.toList) after
  have hiff := marked_parts_iff hsame hparts
  have htail : ((paragraphs markedBreak ((name.toList ++ "\nResult: ".toList ++
        text.toList).map (·, true))).tail).map (List.map Prod.fst) =
      (paragraphs isLineBreak (name.toList ++ "\nResult: ".toList ++ text.toList)).tail := by
    rw [List.map_tail, map_paragraphs isLineBreak Prod.fst, List.map_map, Function.comp_def,
      List.map_id']
  rw [htail] at hiff
  rw [← isToolResult_lead _ z, ← hfirst, ← hiff]
  unfold ClassifiedAsTool
  rw [toList_toolSection, hwhole]
  constructor
  · intro hclass
    refine ⟨hclass first (by simp) ⟨_, hcapital, rfl, by decide⟩, ?_⟩
    intro p hp
    exact hclass p (by simp [hp])
  · rintro ⟨hlead, hothers⟩ p hp hown
    rcases List.mem_append.1 hp with hp | hp
    · obtain ⟨c, hc, hmark, -⟩ := hown
      rw [hinit p hp c hc] at hmark
      cases hmark
    · rcases List.mem_cons.1 hp with rfl | hp
      · exact hlead
      · rcases List.mem_append.1 hp with hp | hp
        · exact hothers p hp hown
        · obtain ⟨c, hc, hmark, hspace⟩ := hown
          rw [hrest p hp c hc hmark] at hspace
          cases hspace

theorem lead_after_breaks (earlier : List Char) :
    (lead isLineBreak (earlier ++ "\n\n".toList)).dropWhile Text.isWhitespace = [] := by
  have hbreak : isLineBreak '\n' = true := rfl
  obtain ⟨ps, rest, hparts, -, hrest⟩ := paragraphs_append_breaks earlier hbreak hbreak []
  have hwhole : paragraphs isLineBreak (earlier ++ "\n\n".toList) = ps ++ rest := hparts
  unfold lead
  rw [hwhole]
  rcases hrest with rfl | rfl
  · rw [paragraphs, List.getLastD_concat]
    rfl
  · rw [paragraphs, List.getLastD_concat]
    decide

/-- **A section after a section.**  The loop ends every section with a blank line, so the next one
of the same pass is never taken for a tool result. -/
theorem section_after_section (name text : String) (earlier after : List Char) :
    ¬ ClassifiedAsTool (earlier ++ "\n\n".toList) (toolSection name text).toList after := by
  obtain ⟨init, first, parts, rest, z, hwhole, -, ⟨hfirst, hcapital⟩, -⟩ :=
    section_paragraphs (earlier ++ "\n\n".toList)
      (name.toList ++ "\nResult: ".toList ++ text.toList) after
  intro hclass
  unfold ClassifiedAsTool at hclass
  rw [toList_toolSection, hwhole] at hclass
  have htool := hclass first (by simp) ⟨_, hcapital, rfl, by decide⟩
  rw [hfirst, isToolResult_lead, lead_after_breaks] at htool
  obtain ⟨marker, hmem, hprefix⟩ := htool
  rw [List.prefix_nil.1 hprefix] at hmem
  revert hmem
  decide

/-! ### A result that is not found -/

/-- **A result that is taken for something else.**  A result of a tool, after the header that the
loop writes before it. -/
theorem section_not_classified :
    ¬ ClassifiedAsTool "\n\nGoal: news\n\nUser:\nHere are the tool results:\n".toList
      (toolSection "web_search" "found").toList [] := by
  intro h
  have hpart := h ("User:\nHere are the tool results:\n".toList.map (·, false) ++
    "Tool: web_search\nResult: found".toList.map (·, true)) (by decide) (by decide)
  revert hpart
  decide

end PeerClaw
