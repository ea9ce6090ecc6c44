import PeerClaw.Agent.Pruning
import PeerClaw.Lib.Recent

/-!
# What pruning a prompt keeps

Which sections `prune_string_conversation` in `agent/compaction.rs` keeps.  Its sections
are the paragraphs after the system prefix; the last quarter of them is not dropped,
which is none of them where there are fewer than four.  What is left is put together
with a notice, whose 37 bytes are not counted.

* `PrunedText`, `prunedText` — the sections as the passes leave them, with the size they
  account for; `pruneStringConversation_eq` — the text is made from them.
* `PrunesText` — what the pruned text owes the one before.
* `prunesText_iff` — when it does what it owes.
-/

namespace PeerClaw

open Lib Lib.Paragraphs

/-! ## The sections that are left -/

/-- The sections as the passes leave them: the notice before them, if sections were dropped, and the
size they account for. -/
structure PrunedText where
  notice : Option String
  parts : List PromptPart
  size : ℕ
  deriving DecidableEq

/-- The text that is made from the sections. -/
def PrunedText.render (head : List Char) (out : PrunedText) : String :=
  match out.notice with
  | none => String.ofList (head ++ "\n\n".toList.intercalate (out.parts.map PromptPart.text))
  | some notice => assembled head notice out.parts

/-- How many sections are not protected. -/
def protectFrom (n : ℕ) : ℕ := max (n - n / 4) 1

/-- What the second and the third pass leave of some sections. -/
def droppedText (maxChars : ℕ) (parts : List PromptPart) (size : ℕ) : PrunedText :=
  if size ≤ maxChars then ⟨none, parts, size⟩
  else
    match dropParts true maxChars (protectFrom parts.length) 0 parts size with
    | (parts', size) =>
        if size ≤ maxChars then ⟨some "\n\n(Earlier tool results compacted.)\n\n", parts', size⟩
        else
          let rest := dropParts false maxChars (protectFrom parts.length) 0 parts' size
          ⟨some "\n\n(Earlier conversation compacted.)\n\n", rest.1, rest.2⟩

/-- The size that some sections account for, with the two bytes between them. -/
def PromptPart.size (part : PromptPart) : ℕ := Text.byteLen part.text + 2

def partsSize (parts : List PromptPart) : ℕ := (parts.map PromptPart.size).sum

/-- What all passes leave. -/
def prunedText (maxChars : ℕ) (head : List Char) (parts : List PromptPart) : Option PrunedText :=
  (truncateParts maxChars parts (Text.byteLen head + partsSize parts)).map fun truncated =>
    droppedText maxChars truncated.1 truncated.2

theorem length_dropParts (tool : Bool) (maxChars protectFrom i : ℕ) (parts : List PromptPart)
    (size : ℕ) : (dropParts tool maxChars protectFrom i parts size).1.length = parts.length := by
  induction parts generalizing i size with
  | nil => rfl
  | cons part parts ih =>
      rw [dropParts]
      split
      · exact congrArg (· + 1) (ih _ _)
      · exact congrArg (· + 1) (ih _ _)

theorem dropPasses_eq (head : List Char) (maxChars : ℕ) (parts : List PromptPart) (size : ℕ) :
    dropPasses head maxChars parts size = (droppedText maxChars parts size).render head := by
  unfold dropPasses droppedText
  split
  · rfl
  · dsimp only [protectFrom]
    split
    · rfl
    · rfl

/-- **The pruned text is made from the sections that are left.** -/
theorem pruneStringConversation_eq {conversation : String} {prefixLen maxChars : ℕ}
    (h : maxChars < Text.byteLen conversation.toList) {head body : List Char}
    (hsplit : conversation.toList = head ++ body)
    (hhead : Text.byteLen head = min prefixLen (Text.byteLen conversation.toList)) :
    pruneStringConversation conversation prefixLen maxChars =
      (prunedText maxChars head (classify body)).map (PrunedText.render head) := by
  rw [pruneStringConversation]
  dsimp only
  rw [if_neg (by omega), ← hhead, hsplit, Text.takeBytes_append, Text.dropBytes_append, prunedText,
    Option.map_map]
  dsimp only [Function.comp_def]
  congr 1
  funext truncated
  exact dropPasses_eq head maxChars truncated.1 truncated.2

/-! ## What the pruned text owes -/

/-- A section that is left is itself, or a tool result that is shortened. -/
def PartKept (part part' : PromptPart) : Prop :=
  part'.text = part.text ∨
    part.isTool ∧ truncateToolResult part.text toolResultTruncateChars = some part'.text

/-- **What the sections that are left owe**: each stands in its place, the last one is not dropped,
and where the account is within the limit the text is. -/
structure PartsKept (maxChars : ℕ) (head : List Char) (parts : List PromptPart)
    (out : PrunedText) : Prop where
  kept : List.Forall₂ PartKept parts out.parts
  last : ∀ part ∈ out.parts.getLast?, part.dropped = false
  fits : out.size ≤ maxChars → Text.byteLen (out.render head).toList ≤ maxChars

/-- **What pruning a prompt owes.**  A prompt within the limit stays as it is; of another one the
text before the first section is kept, and of the sections what they owe. -/
def PrunesText (conversation : String) (prefixLen maxChars : ℕ) : Prop :=
  (Text.byteLen conversation.toList ≤ maxChars ∧
    pruneStringConversation conversation prefixLen maxChars = some conversation) ∨
  ∃ head body out, conversation.toList = head ++ body ∧
    Text.byteLen head = min prefixLen (Text.byteLen conversation.toList) ∧
    pruneStringConversation conversation prefixLen maxChars = some (out.render head) ∧
    prunedText maxChars head (classify body) = some out ∧
    PartsKept maxChars head (classify body) out

/-! ## When it does -/

namespace PromptPart

/-- A tool result that the first pass shortens. -/
def IsLong (part : PromptPart) : Prop :=
  part.isTool ∧ toolResultTruncateChars < Text.byteLen part.text

instance (part : PromptPart) : Decidable part.IsLong := inferInstanceAs (Decidable (_ ∧ _))

/-- The section after it is shortened, if that does not panic. -/
def short (part : PromptPart) : PromptPart :=
  if part.IsLong then
    { part with text := (truncateToolResult part.text toolResultTruncateChars).getD part.text }
  else part

/-- The first pass does not panic at the section. -/
def Cuts (part : PromptPart) : Prop :=
  part.IsLong → Text.IsBoundary toolResultTruncateChars part.text

/-- The section is not longer after it is shortened. -/
def Shortens (part : PromptPart) : Prop :=
  part.IsLong → Cuttable part.text toolResultTruncateChars

end PromptPart

/-- The sections that may be dropped, in their order: tool results first. -/
def droppable (parts : List PromptPart) : List PromptPart :=
  (parts.take (protectFrom parts.length)).filter (·.isTool) ++
    (parts.take (protectFrom parts.length)).filter fun part => !part.isTool

/-- The sections that are dropped before the last one would be, where it is not protected. -/
def droppedBeforeLast (before : List PromptPart) (last : PromptPart) : List PromptPart :=
  if last.isTool then before.filter (·.isTool)
  else before.filter (·.isTool) ++ before.filter fun part => !part.isTool

/-- **The drop passes do what they owe.**  The section that brings the account within the limit
brings it 37 bytes below, so that there is room for the notice; and where there are fewer than four
sections, the prompt fits without those that are dropped before the last one. -/
structure DropsWell (maxChars size : ℕ) (parts : List PromptPart) : Prop where
  notice : ∀ before part after, droppable parts = before ++ part :: after →
    maxChars < size - partsSize before → size - (partsSize before + part.size) ≤ maxChars →
      size - (partsSize before + part.size) + 37 ≤ maxChars
  last : ∀ before last, parts = before ++ [last] → parts.length < 4 →
    size - partsSize (droppedBeforeLast before last) ≤ maxChars

/-- **The passes do what they owe.**  The account fits with some sections shortened, none of which
becomes longer; or the section after these becomes longer, but by no more than the account is
larger than the text; or all sections are shortened and the drop passes do what they owe. -/
inductive PassesWell (maxChars : ℕ) (head : List Char) (parts : List PromptPart) : Prop
  | fits (before after : List PromptPart) (split : parts = before ++ after)
      (shortens : ∀ part ∈ before, part.Shortens)
      (fits : Text.byteLen head + partsSize (before.map .short ++ after) ≤ maxChars)
  | grown (before : List PromptPart) (part : PromptPart) (after : List PromptPart)
      (split : parts = before ++ part :: after) (shortens : ∀ part ∈ before, part.Shortens)
      (cuts : part.Cuts) (grows : ¬ part.Shortens)
      (large : maxChars < Text.byteLen head + partsSize (before.map .short ++ part :: after))
      (fits : Text.byteLen head + partsSize (before.map .short ++ part.short :: after) ≤
        maxChars + 2)
  | dropped (shortens : ∀ part ∈ parts, part.Shortens)
      (large : maxChars < Text.byteLen head + partsSize (parts.map .short))
      (drops : DropsWell maxChars (Text.byteLen head + partsSize (parts.map .short))
        (parts.map .short))

/-- The prompt is within the limit, or it can be cut after its prefix and the passes do what they
owe. -/
def PromptPrunesWell (conversation : String) (prefixLen maxChars : ℕ) : Prop :=
  Text.byteLen conversation.toList ≤ maxChars ∨
  ∃ head body, conversation.toList = head ++ body ∧
    Text.byteLen head = min prefixLen (Text.byteLen conversation.toList) ∧
    PassesWell maxChars head (classify body)

/-! ## Shortened sections -/

namespace PromptPart

theorem short_of_not_long {part : PromptPart} (h : ¬ part.IsLong) : part.short = part := if_neg h

theorem cuts_of_shortens {part : PromptPart} (h : part.Shortens) : part.Cuts := by
  intro hlong
  obtain ⟨head, rest, htext, hcut, -⟩ := h hlong
  exact ⟨head, rest, htext, hcut⟩

theorem truncate_of_cuts {part : PromptPart} (hlong : part.IsLong) (h : part.Cuts) :
    truncateToolResult part.text toolResultTruncateChars = some part.short.text := by
  obtain ⟨head, hhead⟩ := Text.exists_takeBytes (h hlong)
  rw [short, if_pos hlong, truncateToolResult_long hlong.2, hhead]
  rfl

theorem truncate_of_not_cuts {part : PromptPart} (h : ¬ part.Cuts) :
    truncateToolResult part.text toolResultTruncateChars = none := by
  obtain ⟨hlong, hcut⟩ := Classical.not_imp.1 h
  rw [truncateToolResult_long hlong.2, Option.map_eq_none_iff, ← Option.not_isSome_iff_eq_none,
    Text.isSome_takeBytes_iff]
  exact hcut

theorem short_size_le {part : PromptPart} (h : part.Shortens) : part.short.size ≤ part.size := by
  by_cases hlong : part.IsLong
  · obtain ⟨out, hout, hle⟩ := (byteLen_truncated_le_iff hlong.2).2 (h hlong)
    rw [truncate_of_cuts hlong (cuts_of_shortens h)] at hout
    cases hout
    exact Nat.add_le_add_right hle 2
  · rw [short_of_not_long hlong]

theorem size_lt_short {part : PromptPart} (hcuts : part.Cuts) (h : ¬ part.Shortens) :
    part.IsLong ∧ part.size < part.short.size ∧ part.short.size ≤ part.size + 31 := by
  obtain ⟨hlong, hgrows⟩ := Classical.not_imp.1 h
  have hout := truncate_of_cuts hlong hcuts
  have hle := byteLen_truncated_le hout
  rw [← byteLen_truncated_le_iff hlong.2] at hgrows
  have hlt : Text.byteLen part.text < Text.byteLen part.short.text := by
    by_contra hnot
    exact hgrows ⟨_, hout, not_lt.1 hnot⟩
  unfold size
  exact ⟨hlong, by omega, by omega⟩

end PromptPart

theorem partsSize_append (xs ys : List PromptPart) :
    partsSize (xs ++ ys) = partsSize xs + partsSize ys := by
  simp [partsSize]

@[simp] theorem partsSize_cons (part : PromptPart) (parts : List PromptPart) :
    partsSize (part :: parts) = part.size + partsSize parts := by
  simp [partsSize]

@[simp] theorem partsSize_nil : partsSize [] = 0 := rfl

theorem partsSize_short_le {parts : List PromptPart} (h : ∀ part ∈ parts, part.Shortens) :
    partsSize (parts.map .short) ≤ partsSize parts := by
  induction parts with
  | nil => exact le_rfl
  | cons part parts ih =>
      obtain ⟨hpart, hparts⟩ := List.forall_mem_cons.1 h
      have hle := PromptPart.short_size_le hpart
      have hrest := ih hparts
      rw [List.map_cons, partsSize_cons, partsSize_cons]
      omega

/-! ## The first pass -/

theorem truncateParts_of_le {maxChars size : ℕ} (h : size ≤ maxChars) (parts : List PromptPart) :
    truncateParts maxChars parts size = some (parts, size) := by
  induction parts with
  | nil => rfl
  | cons part parts ih => rw [truncateParts, if_neg (by omega), ih, Option.map_some]

/-- One step of the first pass, at a section that does not become longer. -/
theorem truncateParts_step {maxChars c : ℕ} {part : PromptPart} (hpart : part.Shortens)
    (parts : List PromptPart) (hmemory : c + partsSize (part :: parts) < 2 ^ 64)
    (hlarge : maxChars < c + partsSize (part :: parts)) :
    truncateParts maxChars (part :: parts) (c + partsSize (part :: parts)) =
      (truncateParts maxChars parts (c + part.short.size + partsSize parts)).map fun rest =>
        (part.short :: rest.1, rest.2) := by
  rw [partsSize_cons] at *
  rw [truncateParts]
  by_cases hlong : part.IsLong
  · have hle := PromptPart.short_size_le hpart
    have hout := PromptPart.truncate_of_cuts hlong (PromptPart.cuts_of_shortens hpart)
    unfold PromptPart.size at *
    have hsaved : c + (Text.byteLen part.text + 2 + partsSize parts) -
        (Text.byteLen part.text + 2 ^ 64 - Text.byteLen part.short.text) % 2 ^ 64 =
          c + (Text.byteLen part.short.text + 2) + partsSize parts := by omega
    rw [if_pos ⟨hlong.1, hlarge, hlong.2⟩, hout, Option.bind_some]
    dsimp only
    rw [hsaved]
    congr 1
    funext rest
    rw [PromptPart.short, if_pos hlong]
  · rw [if_neg (fun hcut => hlong ⟨hcut.1, hcut.2.2⟩), PromptPart.short_of_not_long hlong,
      ← Nat.add_assoc]

theorem partKept_self (part : PromptPart) : PartKept part part := .inl rfl

theorem partKept_short {part : PromptPart} (h : part.Cuts) : PartKept part part.short := by
  by_cases hlong : part.IsLong
  · exact .inr ⟨hlong.1, PromptPart.truncate_of_cuts hlong h⟩
  · rw [PromptPart.short_of_not_long hlong]
    exact partKept_self part

theorem partsKept_short {parts : List PromptPart} (h : ∀ part ∈ parts, part.Cuts) :
    List.Forall₂ PartKept parts (parts.map .short) := by
  rw [List.forall₂_map_right_iff]
  exact List.forall₂_same.2 fun part hpart => partKept_short (h part hpart)

/-- **The first pass where some sections are enough.** -/
theorem truncateParts_fits {maxChars c : ℕ} {before after : List PromptPart}
    (hmemory : c + partsSize (before ++ after) < 2 ^ 64)
    (h : ∀ part ∈ before, part.Shortens)
    (hfits : c + partsSize (before.map .short ++ after) ≤ maxChars) :
    ∃ cut rest, before ++ after = cut ++ rest ∧ (∀ part ∈ cut, part.Shortens) ∧
      truncateParts maxChars (before ++ after) (c + partsSize (before ++ after)) =
        some (cut.map .short ++ rest, c + partsSize (cut.map .short ++ rest)) ∧
      c + partsSize (cut.map .short ++ rest) ≤ maxChars := by
  induction before generalizing c with
  | nil => exact ⟨[], after, rfl, by simp, truncateParts_of_le hfits after, hfits⟩
  | cons part before ih =>
      obtain ⟨hpart, hbefore⟩ := List.forall_mem_cons.1 h
      have hle := PromptPart.short_size_le hpart
      rw [List.cons_append] at *
      by_cases hnow : c + partsSize (part :: (before ++ after)) ≤ maxChars
      · exact ⟨[], _, rfl, by simp, truncateParts_of_le hnow _, hnow⟩
      · rw [truncateParts_step hpart _ hmemory (not_le.1 hnow)]
        rw [List.map_cons, List.cons_append] at hfits
        simp only [partsSize_cons] at hmemory hfits
        obtain ⟨cut, rest, hsplit, hcut, hparts, hsize⟩ := ih (c := c + part.short.size) (by omega)
          hbefore (by omega)
        refine ⟨part :: cut, rest, by rw [hsplit]; rfl, List.forall_mem_cons.2 ⟨hpart, hcut⟩, ?_, ?_⟩
        · rw [hparts, Option.map_some, List.map_cons, List.cons_append, partsSize_cons,
            Nat.add_assoc]
        · rw [List.map_cons, List.cons_append, partsSize_cons]
          omega

/-- **The first pass where some sections are not enough**: it goes on to those after them. -/
theorem truncateParts_append {maxChars c : ℕ} {before : List PromptPart}
    (h : ∀ part ∈ before, part.Shortens) (after : List PromptPart)
    (hmemory : c + partsSize (before ++ after) < 2 ^ 64)
    (hlarge : maxChars < c + partsSize (before.map .short ++ after)) :
    truncateParts maxChars (before ++ after) (c + partsSize (before ++ after)) =
      (truncateParts maxChars after (c + partsSize (before.map .short) + partsSize after)).map
        fun rest => (before.map .short ++ rest.1, rest.2) := by
  induction before generalizing c with
  | nil =>
      rw [List.nil_append, List.map_nil, partsSize_nil, Nat.add_zero]
      simp
  | cons part before ih =>
      obtain ⟨hpart, hbefore⟩ := List.forall_mem_cons.1 h
      have hle := PromptPart.short_size_le hpart
      have hrest := partsSize_short_le hbefore
      rw [List.cons_append] at *
      rw [List.map_cons, List.cons_append] at hlarge
      rw [List.map_cons]
      simp only [partsSize_cons, partsSize_append] at hmemory hlarge ih ⊢
      have hstep := @truncateParts_step maxChars c part hpart (before ++ after)
        (by simp only [partsSize_cons, partsSize_append]; omega)
        (by simp only [partsSize_cons, partsSize_append]; omega)
      simp only [partsSize_cons, partsSize_append] at hstep
      rw [hstep, ih hbefore (by omega) (by omega), Option.map_map, ← Nat.add_assoc]
      rfl

/-- The first pass where a section becomes longer: the account goes to zero, and the pass is at its
end. -/
theorem truncateParts_grown {maxChars size : ℕ} {part : PromptPart} (hcuts : part.Cuts)
    (hgrows : ¬ part.Shortens) (after : List PromptPart) (hmemory : size < 2 ^ 63 + 2)
    (hsize : part.size ≤ size) (hlarge : maxChars < size) :
    truncateParts maxChars (part :: after) size = some (part.short :: after, 0) := by
  obtain ⟨hlong, hlt, hle⟩ := PromptPart.size_lt_short hcuts hgrows
  have hout := PromptPart.truncate_of_cuts hlong hcuts
  unfold PromptPart.size at *
  have hsaved : size -
      (Text.byteLen part.text + 2 ^ 64 - Text.byteLen part.short.text) % 2 ^ 64 = 0 := by omega
  rw [truncateParts, if_pos ⟨hlong.1, hlarge, hlong.2⟩, hout, Option.bind_some]
  dsimp only
  rw [hsaved, truncateParts_of_le (Nat.zero_le _), Option.map_some]
  congr 2
  rw [PromptPart.short, if_pos hlong]

theorem truncateParts_panic {maxChars size : ℕ} {part : PromptPart} (h : ¬ part.Cuts)
    (after : List PromptPart) (hlarge : maxChars < size) :
    truncateParts maxChars (part :: after) size = none := by
  have hlong := (Classical.not_imp.1 h).1
  rw [truncateParts, if_pos ⟨hlong.1, hlarge, hlong.2⟩, PromptPart.truncate_of_not_cuts h,
    Option.bind_none]

/-- What can become of the first pass. -/
inductive FirstPass (maxChars c : ℕ) (parts : List PromptPart) : Prop
  | fits (before after : List PromptPart) (split : parts = before ++ after)
      (shortens : ∀ part ∈ before, part.Shortens)
      (fits : c + partsSize (before.map .short ++ after) ≤ maxChars)
  | stops (before : List PromptPart) (part : PromptPart) (after : List PromptPart)
      (split : parts = before ++ part :: after) (shortens : ∀ part ∈ before, part.Shortens)
      (grows : ¬ part.Shortens)
      (large : maxChars < c + partsSize (before.map .short ++ part :: after))
  | large (shortens : ∀ part ∈ parts, part.Shortens)
      (large : maxChars < c + partsSize (parts.map .short))

theorem firstPass (maxChars c : ℕ) (parts : List PromptPart) : FirstPass maxChars c parts := by
  induction parts generalizing c with
  | nil =>
      by_cases hfits : c ≤ maxChars
      · exact .fits [] [] rfl (by simp) hfits
      · exact .large (by simp) (not_le.1 hfits)
  | cons part parts ih =>
      by_cases hpart : part.Shortens
      · have hcons : ∀ before : List PromptPart, (∀ part ∈ before, part.Shortens) →
            ∀ part' ∈ part :: before, part'.Shortens := fun before hbefore =>
          List.forall_mem_cons.2 ⟨hpart, hbefore⟩
        cases ih (c + part.short.size) with
        | fits before after hsplit hshortens hfits =>
            refine .fits (part :: before) after (by rw [hsplit]; rfl) (hcons _ hshortens) ?_
            rw [List.map_cons, List.cons_append, partsSize_cons]
            omega
        | stops before part' after hsplit hshortens hgrows hlarge =>
            refine .stops (part :: before) part' after (by rw [hsplit]; rfl) (hcons _ hshortens)
              hgrows ?_
            rw [List.map_cons, List.cons_append, partsSize_cons]
            omega
        | large hshortens hlarge =>
            refine .large (hcons _ hshortens) ?_
            rw [List.map_cons, partsSize_cons]
            omega
      · by_cases hfits : c + partsSize (part :: parts) ≤ maxChars
        · exact .fits [] (part :: parts) rfl (by simp) hfits
        · exact .stops [] part parts rfl (by simp) hpart (not_le.1 hfits)

/-! ## The length of the text -/

theorem byteLen_intercalate {parts : List PromptPart} (h : parts ≠ []) :
    Text.byteLen ("\n\n".toList.intercalate (parts.map PromptPart.text)) + 2 = partsSize parts := by
  induction parts with
  | nil => exact absurd rfl h
  | cons part parts ih =>
      cases parts with
      | nil => simp [List.intercalate, partsSize, PromptPart.size]
      | cons part' parts =>
          have hrest := ih (List.cons_ne_nil _ _)
          have hbreak : Text.byteLen "\n\n".toList = 2 := by decide
          rw [partsSize_cons, ← hrest]
          unfold List.intercalate at *
          rw [List.map_cons, List.map_cons, List.intersperse_cons_cons, List.flatten_cons,
            List.flatten_cons, Text.byteLen_append, Text.byteLen_append, hbreak, PromptPart.size]
          omega

/-- **The text without a notice** is two bytes shorter than the account. -/
theorem byteLen_render_none (head : List Char) (parts : List PromptPart) (size : ℕ)
    (h : parts ≠ []) :
    Text.byteLen ((PrunedText.mk none parts size).render head).toList + 2 =
      Text.byteLen head + partsSize parts := by
  have hparts := byteLen_intercalate h
  unfold PrunedText.render
  dsimp only
  rw [String.toList_ofList, Text.byteLen_append]
  omega

/-- **The text with a notice** is longer by the notice. -/
theorem byteLen_render_some (head : List Char) (notice : String) (parts : List PromptPart)
    (size : ℕ) :
    Text.byteLen ((PrunedText.mk (some notice) parts size).render head).toList =
      Text.byteLen head + Text.byteLen notice.toList +
        partsSize (parts.filter fun part => !part.dropped) := by
  have hbreak : Text.byteLen "\n\n".toList = 2 := by decide
  have hparts : ∀ kept : List PromptPart,
      Text.byteLen (kept.flatMap fun part => part.text ++ "\n\n".toList) = partsSize kept := by
    intro kept
    induction kept with
    | nil => rfl
    | cons part kept ih =>
        rw [List.flatMap_cons, Text.byteLen_append, Text.byteLen_append, hbreak, ih, partsSize_cons,
          PromptPart.size]
  unfold PrunedText.render assembled
  dsimp only
  rw [String.toList_ofList, Text.byteLen_append, Text.byteLen_append, hparts]

theorem partsSize_classify (body : List Char) :
    partsSize (classify body) = Text.byteLen body + 2 := by
  have hsize : ∀ ps : List (List Char), partsSize (ps.map fun text => ⟨text, isToolResult text, false⟩) =
      (ps.map fun text => Text.byteLen text + 2).sum := by
    intro ps
    rw [partsSize, List.map_map]
    rfl
  rw [classify, hsize]
  induction body using paragraphs.induct isLineBreak with
  | case1 => rfl
  | case2 c => simp [paragraphs]
  | case3 c d body hbreak ih =>
      rw [paragraphs, if_pos hbreak, List.map_cons, List.sum_cons, ih]
      simp only [Bool.and_eq_true, isLineBreak, decide_eq_true_eq] at hbreak
      obtain ⟨rfl, rfl⟩ := hbreak
      have hone : '\n'.utf8Size = 1 := by decide
      simp only [Text.byteLen_cons, Text.byteLen_nil, hone]
      omega
  | case4 c d body hbreak ih =>
      rw [paragraphs, if_neg hbreak, Text.byteLen_cons]
      cases hps : paragraphs isLineBreak (d :: body) with
      | nil => exact absurd hps (paragraphs_ne_nil _)
      | cons p ps =>
          rw [hps] at ih
          rw [prepend, List.map_cons, List.sum_cons, Text.byteLen_append]
          rw [List.map_cons, List.sum_cons] at ih
          simp only [Text.byteLen_cons, Text.byteLen_nil] at *
          omega

/-! ## The drop passes -/

/-- A section after a drop pass: only the mark of a section of its kind changes. -/
structure Marked (tool : Bool) (part part' : PromptPart) : Prop where
  text : part'.text = part.text
  isTool : part'.isTool = part.isTool
  dropped : part.isTool ≠ tool → part'.dropped = part.dropped

theorem dropParts_marked (tool : Bool) (maxChars protectFrom i : ℕ) (parts : List PromptPart)
    (size : ℕ) :
    List.Forall₂ (Marked tool) parts (dropParts tool maxChars protectFrom i parts size).1 := by
  induction parts generalizing i size with
  | nil => exact .nil
  | cons part parts ih =>
      rw [dropParts]
      split
      · rename_i hdrop
        exact .cons ⟨rfl, rfl, fun hother => absurd hdrop.1 hother⟩ (ih _ _)
      · exact .cons ⟨rfl, rfl, fun _ => rfl⟩ (ih _ _)

theorem map_text_of_marked {tool : Bool} {parts parts' : List PromptPart}
    (h : List.Forall₂ (Marked tool) parts parts') :
    parts'.map PromptPart.text = parts.map PromptPart.text := by
  induction h with
  | nil => rfl
  | cons hpart hparts ih => rw [List.map_cons, List.map_cons, ih, hpart.text]

theorem undropped_of_marked {tool : Bool} {parts parts' : List PromptPart}
    (h : List.Forall₂ (Marked tool) parts parts') (hparts : ∀ part ∈ parts, part.dropped = false) :
    ∀ part' ∈ parts', part'.isTool ≠ tool → part'.dropped = false := by
  induction h with
  | nil => simp
  | cons hpart hrest ih =>
      obtain ⟨hnow, hlater⟩ := List.forall_mem_cons.1 hparts
      refine List.forall_mem_cons.2 ⟨?_, ih hlater⟩
      intro hother
      rw [hpart.isTool] at hother
      rw [hpart.dropped hother, hnow]

/-- The weights that a drop pass may take off. -/
def weights (tool : Bool) (n : ℕ) (parts : List PromptPart) : List ℕ :=
  ((parts.take n).filter (·.isTool == tool)).map PromptPart.size

theorem weights_of_marked {tool : Bool} {parts parts' : List PromptPart}
    (h : List.Forall₂ (Marked tool) parts parts') (kind : Bool) (n : ℕ) :
    weights kind n parts' = weights kind n parts := by
  induction h generalizing n with
  | nil => rfl
  | @cons part part' parts parts' hpart hparts ih =>
      cases n with
      | zero => rfl
      | succ n =>
          have hrest := ih n
          have hsize : part'.size = part.size := by
            unfold PromptPart.size
            rw [hpart.text]
          unfold weights at *
          rw [List.take_succ_cons, List.take_succ_cons, List.filter_cons, List.filter_cons,
            hpart.isTool]
          split
          · rw [List.map_cons, List.map_cons, hrest, hsize]
          · exact hrest

/-- **The account of a drop pass.** -/
theorem dropParts_size (tool : Bool) (maxChars protectFrom i : ℕ) (parts : List PromptPart)
    (size : ℕ) :
    (dropParts tool maxChars protectFrom i parts size).2 =
      shed maxChars size (weights tool (protectFrom - i) parts) := by
  induction parts generalizing i size with
  | nil => simp [dropParts, weights, shed]
  | cons part parts ih =>
      rw [dropParts]
      rcases Nat.lt_or_ge i protectFrom with hi | hi
      · obtain ⟨n, hn⟩ : ∃ n, protectFrom - i = n + 1 := ⟨protectFrom - i - 1, by omega⟩
        have hn' : protectFrom - (i + 1) = n := by omega
        have hrest : ∀ size, (dropParts tool maxChars protectFrom (i + 1) parts size).2 =
            shed maxChars size (weights tool n parts) := fun size => by rw [ih, hn']
        by_cases htool : part.isTool = tool
        · have hweights : weights tool (n + 1) (part :: parts) = part.size :: weights tool n parts := by
            unfold weights
            rw [List.take_succ_cons, List.filter_cons_of_pos (by simpa using htool), List.map_cons]
          rw [hn, hweights, shed]
          by_cases hlarge : maxChars < size
          · rw [if_pos ⟨htool, hlarge, hi⟩, if_pos hlarge]
            exact hrest _
          · rw [if_neg (fun hdrop => hlarge hdrop.2.1), if_neg hlarge]
            exact (hrest size).trans (shed_of_le (not_lt.1 hlarge) _)
        · have hweights : weights tool (n + 1) (part :: parts) = weights tool n parts := by
            unfold weights
            rw [List.take_succ_cons, List.filter_cons_of_neg (by simpa using htool)]
          rw [hn, hweights, if_neg (fun hdrop => htool hdrop.1)]
          exact hrest size
      · rw [if_neg (fun hdrop => absurd hdrop.2.2 (by omega)), Nat.sub_eq_zero_of_le hi]
        refine (ih _ _).trans ?_
        rw [Nat.sub_eq_zero_of_le (by omega)]
        rfl

/-- **The account of a drop pass is exact**: it is the size of the sections that are left. -/
theorem dropParts_account (tool : Bool) (maxChars protectFrom i : ℕ) (parts : List PromptPart)
    (c : ℕ) (h : ∀ part ∈ parts, part.isTool = tool → part.dropped = false) :
    let result := dropParts tool maxChars protectFrom i parts
      (c + partsSize (parts.filter fun part => !part.dropped))
    result.2 = c + partsSize (result.1.filter fun part => !part.dropped) := by
  induction parts generalizing i c with
  | nil => rfl
  | cons part parts ih =>
      obtain ⟨hpart, hparts⟩ := List.forall_mem_cons.1 h
      dsimp only at ih ⊢
      rw [dropParts]
      split
      · rename_i hdrop
        have hkept := hpart hdrop.1
        have hsize : c + partsSize ((part :: parts).filter fun part => !part.dropped) -
            (Text.byteLen part.text + 2) = c + partsSize (parts.filter fun part => !part.dropped) := by
          rw [List.filter_cons_of_pos (by simp [hkept]), partsSize_cons, PromptPart.size]
          omega
        dsimp only
        rw [hsize, ih _ _ hparts, List.filter_cons_of_neg (by simp)]
      · dsimp only
        by_cases hkept : part.dropped = true
        · rw [List.filter_cons_of_neg (by simp [hkept]), List.filter_cons_of_neg (by simp [hkept])]
          exact ih _ _ hparts
        · rw [List.filter_cons_of_pos (by simp [hkept]), List.filter_cons_of_pos (by simp [hkept]),
            partsSize_cons, partsSize_cons, ← Nat.add_assoc, ← Nat.add_assoc]
          exact ih _ _ hparts

theorem dropParts_snoc (tool : Bool) (maxChars protectFrom i : ℕ) (before : List PromptPart)
    (last : PromptPart) (size : ℕ) :
    (dropParts tool maxChars protectFrom i (before ++ [last]) size).1 =
      (dropParts tool maxChars protectFrom i before size).1 ++
        [{ last with dropped := last.dropped || (last.isTool == tool &&
          decide (maxChars < (dropParts tool maxChars protectFrom i before size).2) &&
          decide (i + before.length < protectFrom)) }] := by
  induction before generalizing i size with
  | nil =>
      rw [List.nil_append, dropParts, dropParts]
      split
      · rename_i hdrop
        simp [hdrop.1, hdrop.2.1, hdrop.2.2, dropParts]
      · rename_i hkeep
        obtain ⟨text, isTool, dropped⟩ := last
        have hfalse : (isTool == tool && decide (maxChars < size) && decide (i < protectFrom)) =
            false := by
          by_contra hnot
          apply hkeep
          simpa [and_assoc] using hnot
        simp [dropParts, hfalse]
  | cons part before ih =>
      have hlen : i + (part :: before).length = i + 1 + before.length := by
        rw [List.length_cons]
        omega
      rw [List.cons_append, dropParts, dropParts, hlen]
      split
      · exact congrArg (_ :: ·) (ih _ _)
      · exact congrArg (_ :: ·) (ih _ _)

/-! ## What is left by the drop passes -/

theorem map_droppable (parts : List PromptPart) :
    (droppable parts).map PromptPart.size =
      weights true (protectFrom parts.length) parts ++
        weights false (protectFrom parts.length) parts := by
  simp [droppable, weights]

section Dropped

variable {maxChars size : ℕ} {parts : List PromptPart}

variable (parts) in
/-- The drop passes over some sections that do not fit: the last one of them that was made. -/
theorem droppedText_cases (hlarge : maxChars < size) :
    let tools := dropParts true maxChars (protectFrom parts.length) 0 parts size
    let others := dropParts false maxChars (protectFrom parts.length) 0 tools.1 tools.2
    (tools.2 ≤ maxChars ∧ droppedText maxChars parts size =
        ⟨some "\n\n(Earlier tool results compacted.)\n\n", tools.1, tools.2⟩) ∨
      maxChars < tools.2 ∧ droppedText maxChars parts size =
        ⟨some "\n\n(Earlier conversation compacted.)\n\n", others.1, others.2⟩ := by
  dsimp only
  rw [droppedText, if_neg (by omega)]
  rcases dropParts true maxChars (protectFrom parts.length) 0 parts size with ⟨parts', size'⟩
  dsimp only
  split
  · rename_i hfits
    exact .inl ⟨hfits, rfl⟩
  · rename_i hlarge'
    exact .inr ⟨not_le.1 hlarge', rfl⟩

theorem droppedText_size (hlarge : maxChars < size) :
    (droppedText maxChars parts size).size =
      shed maxChars size ((droppable parts).map PromptPart.size) := by
  have htools := dropParts_size true maxChars (protectFrom parts.length) 0 parts size
  have hmarked := dropParts_marked true maxChars (protectFrom parts.length) 0 parts size
  rw [map_droppable, shed_append]
  rw [Nat.sub_zero] at htools
  rcases droppedText_cases parts hlarge with ⟨hfits, hout⟩ | ⟨-, hout⟩
  · rw [hout]
    dsimp only
    rw [← htools, shed_of_le hfits]
  · rw [hout]
    dsimp only
    rw [dropParts_size, Nat.sub_zero, weights_of_marked hmarked, htools]

variable (parts) in
theorem droppedText_texts (hlarge : maxChars < size) :
    (droppedText maxChars parts size).parts.map PromptPart.text = parts.map PromptPart.text := by
  have htools := map_text_of_marked
    (dropParts_marked true maxChars (protectFrom parts.length) 0 parts size)
  rcases droppedText_cases parts hlarge with ⟨-, hout⟩ | ⟨-, hout⟩
  · rw [hout]
    exact htools
  · rw [hout]
    exact (map_text_of_marked (dropParts_marked _ _ _ _ _ _)).trans htools

/-- **The length of the text** is 37 bytes over the account. -/
theorem byteLen_droppedText (head : List Char) (hparts : ∀ part ∈ parts, part.dropped = false)
    (hsize : size = Text.byteLen head + partsSize parts) (hlarge : maxChars < size) :
    Text.byteLen ((droppedText maxChars parts size).render head).toList =
      (droppedText maxChars parts size).size + 37 := by
  have hkept : parts.filter (fun part => !part.dropped) = parts :=
    List.filter_eq_self.2 fun part hpart => by simp [hparts part hpart]
  have htools := dropParts_account true maxChars (protectFrom parts.length) 0 parts
    (Text.byteLen head) fun part hpart _ => hparts part hpart
  dsimp only at htools
  rw [hkept, ← hsize] at htools
  have hmarked := dropParts_marked true maxChars (protectFrom parts.length) 0 parts size
  have hothers := dropParts_account false maxChars (protectFrom parts.length) 0
    (dropParts true maxChars (protectFrom parts.length) 0 parts size).1 (Text.byteLen head)
    fun part hpart hother => undropped_of_marked hmarked hparts part hpart (by simp [hother])
  dsimp only at hothers
  rw [← htools] at hothers
  rcases droppedText_cases parts hlarge with ⟨-, hout⟩ | ⟨-, hout⟩
  · have hnotice : Text.byteLen "\n\n(Earlier tool results compacted.)\n\n".toList = 37 := by decide
    rw [hout, byteLen_render_some, hnotice]
    dsimp only
    omega
  · have hnotice : Text.byteLen "\n\n(Earlier conversation compacted.)\n\n".toList = 37 := by decide
    rw [hout, byteLen_render_some, hnotice]
    dsimp only
    omega

/-- **The last section is left** exactly where it is protected or the account is within the limit
before its turn. -/
theorem droppedText_last_iff (before : List PromptPart) {last : PromptPart}
    (hlast : last.dropped = false) (hlarge : maxChars < size) :
    (∀ part ∈ (droppedText maxChars (before ++ [last]) size).parts.getLast?, part.dropped = false) ↔
      ((before ++ [last]).length < 4 →
        size - partsSize (droppedBeforeLast before last) ≤ maxChars) := by
  have hlen : (before ++ [last]).length = before.length + 1 := by simp
  have hprotect : before.length < protectFrom (before ++ [last]).length ↔
      (before ++ [last]).length < 4 := by
    unfold protectFrom
    omega
  have hbefore : (before ++ [last]).length < 4 → partsSize (droppedBeforeLast before last) =
      (if last.isTool then weights true (protectFrom (before ++ [last]).length) before
        else weights true (protectFrom (before ++ [last]).length) before ++
          weights false (protectFrom (before ++ [last]).length) before).sum := by
    intro hfew
    have htake : before.take (protectFrom (before ++ [last]).length) = before :=
      List.take_of_length_le (hprotect.2 hfew).le
    unfold droppedBeforeLast weights
    rw [htake]
    cases last.isTool with
    | true => simp [partsSize]
    | false => simp [partsSize]
  have hcases := droppedText_cases (before ++ [last]) hlarge
  have hsize := dropParts_size true maxChars (protectFrom (before ++ [last]).length) 0 before size
  have hmarked := dropParts_marked true maxChars (protectFrom (before ++ [last]).length) 0 before
    size
  have hall := dropParts_size true maxChars (protectFrom (before ++ [last]).length) 0
    (before ++ [last]) size
  rw [Nat.sub_zero] at hsize hall
  dsimp only at hcases
  rw [dropParts_snoc, dropParts_snoc, hlast, Bool.false_or, Nat.zero_add, Nat.zero_add,
    length_dropParts] at hcases
  generalize protectFrom (before ++ [last]).length = n at *
  -- whether it is dropped in its pass, by the weights that come before it
  have hdropped : ∀ ws : List ℕ,
      ((before ++ [last]).length < 4 → partsSize (droppedBeforeLast before last) = ws.sum) →
      ((decide (maxChars < shed maxChars size ws) && decide (before.length < n)) = false ↔
        ((before ++ [last]).length < 4 →
          size - partsSize (droppedBeforeLast before last) ≤ maxChars)) := by
    intro ws hws
    rw [← hprotect, Bool.and_eq_false_iff, decide_eq_false_iff_not, decide_eq_false_iff_not,
      lt_shed_iff, not_lt, or_comm, ← imp_iff_not_or]
    refine forall_congr' fun hn => ?_
    rw [hws (hprotect.1 hn)]
  cases htool : last.isTool with
  | true =>
      have hiff := hdropped (weights true n before) fun hfew => by
        rw [hbefore hfew, htool, if_pos rfl]
      simp only [htool, beq_self_eq_true, Bool.true_and, hsize] at hcases
      rcases hcases with ⟨-, hout⟩ | ⟨-, hout⟩
      · rw [hout, ← hiff]
        simp
      · rw [hout, ← hiff]
        simp
  | false =>
      have hiff := hdropped (weights true n before ++ weights false n before) fun hfew => by
        rw [hbefore hfew, htool, if_neg Bool.false_ne_true]
      have hweights : weights true n (before ++ [last]) = weights true n before := by
        unfold weights
        rw [List.take_append, List.filter_append]
        have hnone : ([last].take (n - before.length)).filter (·.isTool == true) = [] := by
          rw [List.filter_eq_nil_iff]
          intro part hpart
          rw [List.mem_singleton.1 (List.mem_of_mem_take hpart), htool]
          simp
        rw [hnone, List.append_nil]
      have hothers := dropParts_size false maxChars n 0 (dropParts true maxChars n 0 before size).1
        (dropParts true maxChars n 0 before size).2
      have hother : (false == true) = false := rfl
      rw [Nat.sub_zero, weights_of_marked hmarked, hsize, ← shed_append] at hothers
      rw [hall, hweights] at hcases
      simp only [htool, hother, Bool.false_and, beq_self_eq_true, Bool.true_and, hsize,
        hothers] at hcases
      rcases hcases with ⟨hfits, hout⟩ | ⟨-, hout⟩
      · rw [hout, ← hiff, shed_append, shed_of_le hfits]
        simp [hfits]
      · rw [hout, ← hiff]
        simp

variable (parts) in
theorem notice_iff (hlarge : maxChars < size) :
    ((droppedText maxChars parts size).size ≤ maxChars →
      (droppedText maxChars parts size).size + 37 ≤ maxChars) ↔
    ∀ before part after, droppable parts = before ++ part :: after →
      maxChars < size - partsSize before → size - (partsSize before + part.size) ≤ maxChars →
        size - (partsSize before + part.size) + 37 ≤ maxChars := by
  rw [droppedText_size hlarge, shed_lands_iff 37 hlarge]
  constructor
  · intro hall before part after hsplit
    exact hall (before.map PromptPart.size) part.size (after.map PromptPart.size)
      (by rw [hsplit, List.map_append, List.map_cons])
  · intro hall before w after hsplit
    obtain ⟨before, rest, hdroppable, rfl, hrest⟩ := List.map_eq_append_iff.1 hsplit
    obtain ⟨part, after, rfl, rfl, rfl⟩ := List.map_eq_cons_iff.1 hrest
    exact hall before part after hdroppable

/-- **The drop passes**, over sections that do not fit after the first pass. -/
theorem droppedText_kept_iff {head : List Char} {whole : List PromptPart}
    (hkept : List.Forall₂ PartKept whole parts) (hne : parts ≠ [])
    (hparts : ∀ part ∈ parts, part.dropped = false)
    (hsize : size = Text.byteLen head + partsSize parts) (hlarge : maxChars < size) :
    PartsKept maxChars head whole (droppedText maxChars parts size) ↔
      DropsWell maxChars size parts := by
  have hlen := byteLen_droppedText head hparts hsize hlarge
  obtain ⟨before, last, rfl⟩ := (List.eq_nil_or_concat' parts).resolve_left hne
  have hlast : last.dropped = false := hparts last (by simp)
  have hlast_iff := droppedText_last_iff before hlast hlarge
  have hnotice := notice_iff (before ++ [last]) hlarge
  constructor
  · rintro ⟨-, hleft, hfits⟩
    refine ⟨hnotice.1 ?_, ?_⟩
    · intro hle
      rw [← hlen]
      exact hfits hle
    · intro before' last' hsplit
      obtain ⟨rfl, hlast'⟩ := List.append_inj' hsplit rfl
      obtain rfl := List.singleton_inj.1 hlast'
      exact hlast_iff.1 hleft
  · rintro ⟨hroom, hleft⟩
    refine ⟨?_, hlast_iff.2 (hleft before last rfl), ?_⟩
    · have htexts := droppedText_texts (before ++ [last]) hlarge
      have hall : List.Forall₂ (fun part text => text = part.text ∨ part.isTool ∧
          truncateToolResult part.text toolResultTruncateChars = some text) whole
          ((before ++ [last]).map PromptPart.text) := List.forall₂_map_right_iff.2 hkept
      rw [← htexts, List.forall₂_map_right_iff] at hall
      exact hall
    · intro hle
      rw [hlen]
      exact hnotice.2 hroom hle

end Dropped

/-! ## When pruning a prompt does what it owes -/

theorem undropped_short {parts : List PromptPart} (h : ∀ part ∈ parts, part.dropped = false) :
    ∀ part ∈ parts.map PromptPart.short, part.dropped = false := by
  intro part hpart
  obtain ⟨part, hmem, rfl⟩ := List.mem_map.1 hpart
  unfold PromptPart.short
  split
  · exact h part hmem
  · exact h part hmem

theorem partKept_refl (parts : List PromptPart) : List.Forall₂ PartKept parts parts :=
  List.forall₂_same.2 fun part _ => partKept_self part

theorem kept_of_undropped {maxChars : ℕ} {head : List Char} {whole parts : List PromptPart}
    {size : ℕ} (hkept : List.Forall₂ PartKept whole parts)
    (hparts : ∀ part ∈ parts, part.dropped = false) (hne : parts ≠ [])
    (hfits : Text.byteLen head + partsSize parts ≤ maxChars + 2) :
    PartsKept maxChars head whole ⟨none, parts, size⟩ := by
  have hlen := byteLen_render_none head parts size hne
  refine ⟨hkept, ?_, fun _ => by omega⟩
  intro part hpart
  exact hparts part (List.mem_of_getLast? hpart)

/-- **When the passes do what they owe.** -/
theorem prunedText_kept_iff {maxChars : ℕ} {head : List Char} {parts : List PromptPart}
    (hne : parts ≠ []) (hparts : ∀ part ∈ parts, part.dropped = false)
    (hmemory : Text.byteLen head + partsSize parts < 2 ^ 63 + 2) :
    (∃ out, prunedText maxChars head parts = some out ∧ PartsKept maxChars head parts out) ↔
      PassesWell maxChars head parts := by
  have hgrown : ∀ before part after, parts = before ++ part :: after →
      (∀ part ∈ before, part.Shortens) → part.Cuts → ¬ part.Shortens →
      maxChars < Text.byteLen head + partsSize (before.map .short ++ part :: after) →
      prunedText maxChars head parts = some ⟨none, before.map .short ++ part.short :: after, 0⟩ := by
    rintro before part after rfl hbefore hcuts hgrows hlarge
    have hle := partsSize_short_le hbefore
    rw [partsSize_append, partsSize_cons] at hmemory
    rw [prunedText, truncateParts_append hbefore _ (by rw [partsSize_append, partsSize_cons]; omega)
      hlarge, truncateParts_grown hcuts hgrows after]
    · rw [Option.map_some, Option.map_some, droppedText, if_pos (Nat.zero_le _)]
    · rw [partsSize_cons]
      omega
    · rw [partsSize_cons]
      omega
    · rwa [Nat.add_assoc, ← partsSize_append]
  have hdropped : (∀ part ∈ parts, part.Shortens) →
      maxChars < Text.byteLen head + partsSize (parts.map .short) →
      prunedText maxChars head parts = some (droppedText maxChars (parts.map .short)
        (Text.byteLen head + partsSize (parts.map .short))) := by
    intro hshortens hlarge
    have hall := truncateParts_append (c := Text.byteLen head) hshortens [] (by simp; omega)
      (by simpa using hlarge)
    rw [List.append_nil] at hall
    rw [prunedText, hall]
    simp [truncateParts]
  constructor
  · rintro ⟨out, hout, howed⟩
    cases firstPass maxChars (Text.byteLen head) parts with
    | fits before after hsplit hshortens hfits => exact .fits before after hsplit hshortens hfits
    | stops before part after hsplit hshortens hgrows hlarge =>
        by_cases hcuts : part.Cuts
        · rw [hgrown before part after hsplit hshortens hcuts hgrows hlarge] at hout
          cases hout
          have hlen := byteLen_render_none head (before.map .short ++ part.short :: after) 0 (by simp)
          have hfits := howed.fits (Nat.zero_le _)
          exact .grown before part after hsplit hshortens hcuts hgrows hlarge (by omega)
        · have hlarge' : maxChars <
              Text.byteLen head + partsSize (before.map .short) + partsSize (part :: after) := by
            rwa [Nat.add_assoc, ← partsSize_append]
          rw [prunedText, hsplit, truncateParts_append hshortens _ (by rw [← hsplit]; omega) hlarge,
            truncateParts_panic hcuts after hlarge'] at hout
          cases hout
    | large hshortens hlarge =>
        have hcuts : ∀ part ∈ parts, part.Cuts := fun part hpart =>
          PromptPart.cuts_of_shortens (hshortens part hpart)
        rw [hdropped hshortens hlarge] at hout
        cases hout
        exact .dropped hshortens hlarge ((droppedText_kept_iff (partsKept_short hcuts) (by simpa)
          (undropped_short hparts) rfl hlarge).1 howed)
  · rintro (⟨before, after, hsplit, hshortens, hfits⟩ |
      ⟨before, part, after, hsplit, hshortens, hcuts, hgrows, hlarge, hfits⟩ |
      ⟨hshortens, hlarge, hdrops⟩)
    · obtain ⟨cut, rest, hsplit', hcut, hrun, hle⟩ := truncateParts_fits (c := Text.byteLen head)
        (by rw [← hsplit]; omega) hshortens hfits
      rw [← hsplit] at hrun hsplit'
      have hcuts : ∀ part ∈ cut, part.Cuts := fun part hpart =>
        PromptPart.cuts_of_shortens (hcut part hpart)
      rw [hsplit'] at hparts hne
      obtain ⟨hparts, hrest⟩ := List.forall_mem_append.1 hparts
      refine ⟨_, by rw [prunedText, hrun, Option.map_some, droppedText, if_pos hle], ?_⟩
      refine kept_of_undropped ?_ ?_ ?_ (hle.trans (Nat.le_add_right _ 2))
      · rw [hsplit']
        exact List.rel_append (partsKept_short hcuts) (partKept_refl rest)
      · exact List.forall_mem_append.2 ⟨undropped_short hparts, hrest⟩
      · simpa using hne
    · refine ⟨_, hgrown before part after hsplit hshortens hcuts hgrows hlarge, ?_⟩
      have hkept : ∀ p ∈ before ++ [part], p.Cuts := by
        rw [List.forall_mem_append, List.forall_mem_singleton]
        exact ⟨fun p hp => PromptPart.cuts_of_shortens (hshortens p hp), hcuts⟩
      have hsplit' : before.map .short ++ part.short :: after =
          (before ++ [part]).map .short ++ after := by simp
      have hwhole : parts = (before ++ [part]) ++ after := by
        rw [hsplit]
        simp
      rw [hwhole] at hparts
      obtain ⟨hparts, hafter⟩ := List.forall_mem_append.1 hparts
      rw [hsplit'] at hfits ⊢
      refine kept_of_undropped ?_ ?_ (by simp) hfits
      · rw [hwhole]
        exact List.rel_append (partsKept_short hkept) (partKept_refl after)
      · exact List.forall_mem_append.2 ⟨undropped_short hparts, hafter⟩
    · have hcuts : ∀ part ∈ parts, part.Cuts := fun part hpart =>
        PromptPart.cuts_of_shortens (hshortens part hpart)
      exact ⟨_, hdropped hshortens hlarge, (droppedText_kept_iff (partsKept_short hcuts) (by simpa)
        (undropped_short hparts) rfl hlarge).2 hdrops⟩

theorem undropped_classify (body : List Char) : ∀ part ∈ classify body, part.dropped = false := by
  intro part hpart
  obtain ⟨text, -, rfl⟩ := List.mem_map.1 hpart
  rfl

/-- **When pruning a prompt does what it owes.**  A prompt is not longer than the memory. -/
theorem pruneStringConversation_keeps_iff (conversation : String) (prefixLen maxChars : ℕ)
    (hmemory : Text.byteLen conversation.toList < 2 ^ 63) :
    PrunesText conversation prefixLen maxChars ↔
      PromptPrunesWell conversation prefixLen maxChars := by
  have hne : ∀ body, classify body ≠ [] := by
    intro body
    unfold classify
    simpa using paragraphs_ne_nil body
  have hpasses : ∀ head body, conversation.toList = head ++ body →
      ((∃ out, prunedText maxChars head (classify body) = some out ∧
          PartsKept maxChars head (classify body) out) ↔
        PassesWell maxChars head (classify body)) := by
    intro head body hsplit
    apply prunedText_kept_iff (hne body) (undropped_classify body)
    rw [hsplit, Text.byteLen_append] at hmemory
    rw [partsSize_classify]
    omega
  unfold PrunesText PromptPrunesWell
  by_cases hfits : Text.byteLen conversation.toList ≤ maxChars
  · refine iff_of_true (.inl ⟨hfits, ?_⟩) (.inl hfits)
    rw [pruneStringConversation]
    exact if_pos hfits
  · rw [or_iff_right (fun hleft => hfits hleft.1), or_iff_right hfits]
    constructor
    · rintro ⟨head, body, out, hsplit, hhead, -, hout, howed⟩
      exact ⟨head, body, hsplit, hhead, (hpasses head body hsplit).1 ⟨out, hout, howed⟩⟩
    · rintro ⟨head, body, hsplit, hhead, hwell⟩
      obtain ⟨out, hout, howed⟩ := (hpasses head body hsplit).2 hwell
      refine ⟨head, body, out, hsplit, hhead, ?_, hout, howed⟩
      rw [pruneStringConversation_eq (not_le.1 hfits) hsplit hhead, hout, Option.map_some]

theorem pruneStringConversation_keeps_iff_question :
    PrunesText "System\n\nUser: hi" 6 10 ↔ PromptPrunesWell "System\n\nUser: hi" 6 10 :=
  pruneStringConversation_keeps_iff "System\n\nUser: hi" 6 10 (by decide)

/-- The last section of a short prompt is dropped, and the text is longer than its account. -/
theorem last_section_dropped :
    prunedText 10 "System".toList (classify "\n\nUser: hi".toList) =
        some ⟨some "\n\n(Earlier conversation compacted.)\n\n",
          [⟨[], false, true⟩, ⟨"User: hi".toList, false, true⟩], 6⟩ ∧
      (pruneStringConversation "System\n\nUser: hi" 6 10).map String.length = some 43 ∧
      ¬ PrunesText "System\n\nUser: hi" 6 10 := by
  have hrun : prunedText 10 "System".toList (classify "\n\nUser: hi".toList) =
      some ⟨some "\n\n(Earlier conversation compacted.)\n\n",
        [⟨[], false, true⟩, ⟨"User: hi".toList, false, true⟩], 6⟩ := by decide
  refine ⟨hrun, by decide, ?_⟩
  rintro (⟨hfits, -⟩ | ⟨head, body, out, hsplit, hhead, -, hout, howed⟩)
  · revert hfits
    decide
  · have htake := Text.takeBytes_append head body
    have hdrop := Text.dropBytes_append head body
    rw [← hsplit, hhead] at htake hdrop
    obtain rfl : "System".toList = head := Option.some.inj ((by decide : _ = _).trans htake)
    obtain rfl : "\n\nUser: hi".toList = body := Option.some.inj ((by decide : _ = _).trans hdrop)
    rw [hrun] at hout
    cases hout
    have hlast := howed.last _ rfl
    cases hlast

end PeerClaw
