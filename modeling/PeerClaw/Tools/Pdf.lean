import PeerClaw.Lib.Utf8
import PeerClaw.Lib.Whitespace

/-!
# The text of a PDF

The text of a content stream is what its string literals say.  One scan goes through the stream
character by character; where a literal begins, another function reads it, and the scan goes on
behind the parenthesis, inside of what has just been read.

* `extractTextOperators` — the text of a content stream.
* `Literal` — a text, and how it is written in a content stream.
* `cleanExtractedText_gap` — when white space that is put into a text changes nothing.
* `exactlyOnce_iff` — when each text of the stream is extracted once.
-/

namespace PeerClaw

open Lib

namespace Pdf

/-! ## The scan -/

/-- What an escaped character stands for. -/
def unescape : Char → List Char
  | 'n' => ['\n']
  | 'r' => ['\r']
  | 't' => ['\t']
  | '(' => ['(']
  | ')' => [')']
  | '\\' => ['\\']
  | _ => []

/-- The rest of a string literal: how many parentheses are open, and whether the character before
was a backslash. -/
def readLiteral : ℕ → Bool → List Char → List Char
  | _, _, [] => []
  | depth, true, ch :: cs => unescape ch ++ readLiteral depth false cs
  | depth, false, ch :: cs =>
      if ch = '\\' then readLiteral depth true cs
      else if ch = '(' then '(' :: readLiteral (depth + 1) false cs
      else if ch = ')' then
        if depth - 1 = 0 then [] else ')' :: readLiteral (depth - 1) false cs
      else ch :: readLiteral depth false cs

/-- `extract_pdf_string`. -/
def extractPdfString (s : List Char) : List Char :=
  match s.dropWhile (· ≠ '(') with
  | [] => []
  | _ :: cs => readLiteral 1 false cs

/-- A space, unless there is nothing before it or white space. -/
def spaceAfter (result : List Char) : List Char :=
  if result ≠ [] ∧ result.getLast? ≠ some '\n' ∧ result.getLast? ≠ some ' ' then [' '] else []

/-- A newline, unless there is nothing before it or another one. -/
def lineAfter (result : List Char) : List Char :=
  if result ≠ [] ∧ result.getLast? ≠ some '\n' then ['\n'] else []

/-- What is pushed for a character of the stream, with the rest of it behind. -/
def pushed (result : List Char) (ch : Char) (rest : List Char) : List Char :=
  if ch = '(' then extractPdfString (ch :: rest)
  else if ch = 'B' ∧ "BT".toList.isPrefixOf (ch :: rest) then spaceAfter result
  else if ch = 'E' ∧ "ET".toList.isPrefixOf (ch :: rest) then lineAfter result
  else if ch = 'T' then
    match rest with
    | next :: _ => if next = 'd' ∨ next = 'D' ∨ next = '*' then spaceAfter result else []
    | [] => []
  else []

/-- The characters of the stream, one after the other. -/
def scan (result : List Char) : List Char → List Char
  | [] => result
  | ch :: rest => scan (result ++ pushed result ch rest) rest

/-- `char::is_control`. -/
def isControl (c : Char) : Bool := c.val < 0x20 || (0x7F ≤ c.val && c.val ≤ 0x9F)

/-- `char::is_ascii_graphic`. -/
def isAsciiGraphic (c : Char) : Bool := 0x21 ≤ c.val && c.val ≤ 0x7E

variable (isAlphanumeric : Char → Bool)

/-- One character of a text that is cleaned up, and whether the last one was white space. -/
def cleanChar (st : List Char × Bool) (ch : Char) : List Char × Bool :=
  if ch = '\n' then
    (if st.2 = false ∨ st.1.getLast? ≠ some '\n' then st.1 ++ ['\n'] else st.1, true)
  else if Text.isWhitespace ch || isControl ch then
    if st.2 then st else (st.1 ++ [' '], true)
  else if isAsciiGraphic ch || isAlphanumeric ch || ch = ' ' then (st.1 ++ [ch], false)
  else st

/-- `clean_extracted_text`. -/
def cleanExtractedText (text : List Char) : List Char :=
  Text.trimChars (text.foldl (cleanChar isAlphanumeric) ([], false)).1

/-- `extract_text_operators`. -/
def extractTextOperators (content : List UInt8) : List Char :=
  cleanExtractedText isAlphanumeric (scan [] (Utf8.decodeLossy content))

/-! ## What is written in a stream -/

/-- A text, and the inside of a string literal for it: a backslash is escaped, a parenthesis is
escaped or has its counterpart. -/
inductive Written : List Char → List Char → Prop
  | nil : Written [] []
  | char {c : Char} {t b : List Char} (hopen : c ≠ '(') (hclose : c ≠ ')') (hslash : c ≠ '\\')
      (h : Written t b) : Written (c :: t) (c :: b)
  | escaped {c : Char} {t b : List Char} (hc : c = '(' ∨ c = ')' ∨ c = '\\') (h : Written t b) :
      Written (c :: t) ('\\' :: c :: b)
  | nested {t b t' b' : List Char} (h : Written t b) (h' : Written t' b') :
      Written ('(' :: (t ++ ')' :: t')) ('(' :: (b ++ ')' :: b'))

/-- The characters of ASCII that can be printed. -/
def isPrintable (c : Char) : Bool := 0x20 ≤ c.val && c.val ≤ 0x7E

/-- A text, and how it is written. -/
structure Literal where
  text : List Char
  body : List Char
  printable : ∀ c ∈ text, isPrintable c = true
  written : Written text body

/-- Behind a parenthesis of the literal, only spaces come before a closing one. -/
def Closes (body : List Char) : Prop :=
  ∀ a r, body = a ++ '(' :: r → ((r ++ [')']).dropWhile (· = ' ')).head? = some ')'

/-- The literal has an operator for the end of a text in it. -/
def HasEnd (body : List Char) : Prop := ['E', 'T'] <:+: body

/-- The literal has something in it for which the scan pushes a space. -/
def HasBreak (body : List Char) : Prop :=
  ['B', 'T'] <:+: body ∨ ['T', 'd'] <:+: body ∨ ['T', 'D'] <:+: body ∨ ['T', '*'] <:+: body ∨
    ['(', ' '] <:+: body

/-- `(s) Tj`, and a space. -/
def Literal.shown (l : Literal) : List Char := '(' :: (l.body ++ ") Tj ".toList)

/-- `BT (s1) Tj ... (sn) Tj ET` -/
def content (ls : List Literal) : List UInt8 :=
  Utf8.encode ("BT ".toList ++ (ls.flatMap Literal.shown ++ "ET".toList))

/-- The texts, one after the other. -/
def texts (ls : List Literal) : List Char := ls.flatMap Literal.text

/-- The scan finds nothing more in the literals: each parenthesis in one is closed behind spaces;
and between words no literal has an end of a text in it, and what has another operator in it, or a
space between parentheses, has a space behind it or in front of what comes next. -/
def Quiet (ls : List Literal) : Prop :=
  (∀ l ∈ ls, Closes l.body) ∧ ∀ a l b, ls = a ++ l :: b →
    Text.Visible (texts (a ++ [l])) → Text.Visible (texts b) → ¬ HasEnd l.body ∧
      (HasBreak l.body → (texts (a ++ [l])).getLast? = some ' ' ∨ (texts b).head? = some ' ')

/-! ## Text that is cleaned up -/

/-- How the cleaned text ends, for what comes next. -/
inductive Ending where
  | word
  | blank
  | newline

/-- What is added for a newline. -/
def Ending.line : Ending → List Char
  | .newline => []
  | _ => ['\n']

/-- What is added for other white space, and how the text ends then. -/
def Ending.space : Ending → List Char × Ending
  | .word => ([' '], .blank)
  | e => ([], e)

/-- What is added for a character that is graphic or white space, and how the text ends then. -/
def Ending.next (e : Ending) (c : Char) : List Char × Ending :=
  if c = '\n' then (e.line, .newline)
  else if Text.isWhitespace c then e.space
  else ([c], .word)

/-- What is added for a text. -/
def cleaned : Ending → List Char → List Char
  | _, [] => []
  | e, c :: cs => (e.next c).1 ++ cleaned (e.next c).2 cs

/-- How a text ends. -/
def endingOf (result : List Char) (lastWasSpace : Bool) : Ending :=
  if lastWasSpace then if result.getLast? = some '\n' then .newline else .blank else .word

/-- A character that is graphic, or white space. -/
def Legible (c : Char) : Prop := isAsciiGraphic c = true ∨ Text.isWhitespace c = true

section Clean

variable {isAlphanumeric : Char → Bool} {c : Char} {cs : List Char} {e : Ending}

theorem graphic_not_white (h : isAsciiGraphic c = true) :
    Text.isWhitespace c = false ∧ isControl c = false := by
  simp only [isAsciiGraphic, Bool.and_eq_true, decide_eq_true_eq, UInt32.le_iff_toNat_le] at h
  have hlow : 33 ≤ c.toNat := h.1
  have hhigh : c.toNat ≤ 126 := h.2
  constructor
  · simp [Text.isWhitespace, UInt32.le_iff_toNat_le, ← UInt32.toNat_inj]
    omega
  · simp [isControl, UInt32.le_iff_toNat_le, UInt32.lt_iff_toNat_lt]
    omega

theorem graphic_of_printable (h : isPrintable c = true) (hne : c ≠ ' ') :
    isAsciiGraphic c = true := by
  simp only [isPrintable, Bool.and_eq_true, decide_eq_true_eq, UInt32.le_iff_toNat_le] at h
  have hlow : 32 ≤ c.toNat := h.1
  have hval : c.toNat ≠ 32 := fun heq => hne (Char.toNat_inj.1 (heq.trans rfl))
  simp only [isAsciiGraphic, Bool.and_eq_true, decide_eq_true_eq, UInt32.le_iff_toNat_le]
  refine ⟨?_, h.2⟩
  show 33 ≤ c.toNat
  omega

theorem blank_of_printable (h : isPrintable c = true) (hwhite : Text.isWhitespace c = true) :
    c = ' ' := by
  by_contra hne
  rw [(graphic_not_white (graphic_of_printable h hne)).1] at hwhite
  cases hwhite

theorem legible_of_printable (h : isPrintable c = true) : Legible c := by
  by_cases hblank : c = ' '
  · rw [hblank]
    exact .inr (by decide)
  · exact .inl (graphic_of_printable h hblank)

theorem cleanChar_line (result : List Char) (last : Bool) :
    cleanChar isAlphanumeric (result, last) '\n' =
      (if last = false ∨ result.getLast? ≠ some '\n' then result ++ ['\n'] else result, true) :=
  if_pos rfl

theorem cleanChar_white (hline : c ≠ '\n') (hc : Text.isWhitespace c = true) (result : List Char)
    (last : Bool) : cleanChar isAlphanumeric (result, last) c =
      if last then (result, last) else (result ++ [' '], true) := by
  rw [cleanChar, if_neg hline, hc, Bool.true_or, if_pos rfl]

theorem cleanChar_graphic (hc : isAsciiGraphic c = true) (result : List Char) (last : Bool) :
    cleanChar isAlphanumeric (result, last) c = (result ++ [c], false) := by
  obtain ⟨hwhite, hcontrol⟩ := graphic_not_white hc
  have hline : c ≠ '\n' := by
    rintro rfl
    revert hc
    decide
  rw [cleanChar, if_neg hline, hwhite, hcontrol, Bool.or_self, if_neg Bool.false_ne_true, hc,
    Bool.true_or, Bool.true_or, if_pos rfl]

theorem next_line (e : Ending) : e.next '\n' = (e.line, .newline) := if_pos rfl

theorem next_white (hline : c ≠ '\n') (hc : Text.isWhitespace c = true) (e : Ending) :
    e.next c = e.space := by
  rw [Ending.next, if_neg hline, if_pos hc]

theorem next_word (hc : Text.isWhitespace c = false) (e : Ending) : e.next c = ([c], .word) := by
  have hline : c ≠ '\n' := by
    rintro rfl
    revert hc
    decide
  rw [Ending.next, if_neg hline, if_neg (by simp [hc])]

theorem cleanChar_eq (hc : Legible c) (result : List Char) (last : Bool) :
    ∃ last', cleanChar isAlphanumeric (result, last) c =
        (result ++ ((endingOf result last).next c).1, last') ∧
      endingOf (result ++ ((endingOf result last).next c).1) last' =
        ((endingOf result last).next c).2 := by
  by_cases hline : c = '\n'
  · subst hline
    refine ⟨true, ?_⟩
    rw [cleanChar_line, next_line]
    cases last with
    | false => exact ⟨rfl, by simp [endingOf, Ending.line]⟩
    | true =>
        by_cases hend : result.getLast? = some '\n'
        · have hending : endingOf result true = .newline := by simp [endingOf, hend]
          simp [hending, hend, Ending.line]
        · have hending : endingOf result true = .blank := by simp [endingOf, hend]
          simp [hend, Ending.line, endingOf]
  · rcases hc with hgraphic | hwhite
    · refine ⟨false, ?_⟩
      rw [cleanChar_graphic hgraphic, next_word (graphic_not_white hgraphic).1]
      exact ⟨rfl, rfl⟩
    · refine ⟨true, ?_⟩
      rw [cleanChar_white hline hwhite, next_white hline hwhite]
      cases last with
      | false => exact ⟨rfl, by simp [endingOf, Ending.space]⟩
      | true =>
          have hspace : (endingOf result true).space = ([], endingOf result true) := by
            unfold endingOf
            split
            · split
              · rfl
              · rfl
            · contradiction
          rw [hspace]
          exact ⟨by simp, by simp⟩

theorem foldl_cleanChar (h : ∀ c ∈ cs, Legible c) (result : List Char) (last : Bool) :
    (cs.foldl (cleanChar isAlphanumeric) (result, last)).1 =
      result ++ cleaned (endingOf result last) cs := by
  induction cs generalizing result last with
  | nil => simp [cleaned]
  | cons c cs ih =>
      obtain ⟨hc, hrest⟩ := List.forall_mem_cons.1 h
      obtain ⟨last', hclean, hending⟩ : ∃ last', cleanChar isAlphanumeric (result, last) c = _ ∧ _ :=
        cleanChar_eq hc result last
      rw [List.foldl_cons, cleaned, hclean, ih hrest, hending, List.append_assoc]

theorem cleanExtractedText_eq (h : ∀ c ∈ cs, Legible c) :
    cleanExtractedText isAlphanumeric cs = Text.trimChars (cleaned .word cs) := by
  rw [cleanExtractedText, foldl_cleanChar h]
  rfl

/-! ### White space and words -/

/-- What is added for white space is white space, and something behind a word. -/
theorem next_of_white (hc : Text.isWhitespace c = true) (e : Ending) :
    (∀ d ∈ (e.next c).1, Text.isWhitespace d = true) ∧ (e.next c).2 ≠ .word ∧
      (e = .word → (e.next c).1 ≠ []) := by
  by_cases hline : c = '\n'
  · subst hline
    rw [next_line]
    cases e with
    | newline => simp [Ending.line]
    | _ => exact ⟨by simp only [Ending.line, List.mem_singleton, forall_eq]; decide, by simp, by simp [Ending.line]⟩
  · rw [next_white hline hc]
    cases e with
    | word => exact ⟨by simp only [Ending.space, List.mem_singleton, forall_eq]; decide, by simp [Ending.space], by simp [Ending.space]⟩
    | _ => exact ⟨by simp [Ending.space], by simp [Ending.space], by simp⟩

theorem cleaned_word {w : List Char} (hw : ∀ c ∈ w, Text.isWhitespace c = false) (hne : w ≠ [])
    (e : Ending) (cs : List Char) : cleaned e (w ++ cs) = w ++ cleaned .word cs := by
  induction w generalizing e with
  | nil => exact absurd rfl hne
  | cons c w ih =>
      obtain ⟨hc, hrest⟩ := List.forall_mem_cons.1 hw
      rw [List.cons_append, cleaned, next_word hc, List.singleton_append, List.cons_append]
      cases w with
      | nil => rfl
      | cons d w => rw [ih hrest (List.cons_ne_nil d w)]

/-- **The words stay.** -/
theorem words_cleaned (cs : List Char) (e : Ending) : Text.words (cleaned e cs) = Text.words cs := by
  induction cs using Text.words_induction generalizing e with
  | nil => rfl
  | space c cs hc ih =>
      rw [cleaned, Text.words_append_white (next_of_white hc e).1, ih, Text.words_cons_space hc]
  | word w hw =>
      have h := cleaned_word hw.2 hw.1 e []
      rw [List.append_nil] at h
      rw [h, cleaned, List.append_nil]
  | next w c cs hw hc ih =>
      obtain ⟨hwhite, -, hsome⟩ := next_of_white hc .word
      obtain ⟨d, ds, hadd⟩ := List.exists_cons_of_ne_nil (hsome rfl)
      rw [hadd] at hwhite
      obtain ⟨hd, hds⟩ := List.forall_mem_cons.1 hwhite
      rw [cleaned_word hw.2 hw.1, cleaned, hadd, List.cons_append, Text.words_append_space hw hd,
        Text.words_append_white hds, ih, Text.words_append_space hw hc]

theorem words_cleanExtractedText (h : ∀ c ∈ cs, Legible c) :
    Text.words (cleanExtractedText isAlphanumeric cs) = Text.words cs := by
  rw [cleanExtractedText_eq h, Text.words_trimChars, words_cleaned]

/-- How a text ends behind another. -/
def endingAfter (e : Ending) (cs : List Char) : Ending := cs.foldl (fun e c => (e.next c).2) e

theorem cleaned_append (e : Ending) (a b : List Char) :
    cleaned e (a ++ b) = cleaned e a ++ cleaned (endingAfter e a) b := by
  induction a generalizing e with
  | nil => rfl
  | cons c a ih =>
      rw [List.cons_append, cleaned, cleaned, ih, List.append_assoc]
      rfl

theorem endingAfter_word (hc : Text.isWhitespace c = false) (e : Ending) (a : List Char) :
    endingAfter e (a ++ [c]) = .word := by
  rw [endingAfter, List.foldl_append, List.foldl_cons, List.foldl_nil, next_word hc]

theorem cleaned_of_white (h : ∀ c ∈ cs, Text.isWhitespace c = true) (e : Ending) :
    ∀ d ∈ cleaned e cs, Text.isWhitespace d = true := by
  induction cs generalizing e with
  | nil => simp [cleaned]
  | cons c cs ih =>
      obtain ⟨hc, hrest⟩ := List.forall_mem_cons.1 h
      intro d hd
      rcases List.mem_append.1 hd with hd | hd
      · exact (next_of_white hc e).1 d hd
      · exact ih hrest _ d hd

theorem newline_mem_cleaned (h : ∀ c ∈ cs, Text.isWhitespace c = true) (hmem : '\n' ∈ cs)
    (he : e ≠ .newline) : '\n' ∈ cleaned e cs := by
  induction cs generalizing e with
  | nil => cases hmem
  | cons c cs ih =>
      obtain ⟨hc, hrest⟩ := List.forall_mem_cons.1 h
      rw [cleaned, List.mem_append]
      by_cases hline : c = '\n'
      · subst hline
        left
        rw [next_line]
        cases e with
        | newline => exact absurd rfl he
        | _ => exact List.mem_singleton_self _
      · right
        refine ih hrest ((List.mem_cons.1 hmem).resolve_left (Ne.symm hline)) ?_
        rw [next_white hline hc]
        cases e with
        | newline => exact absurd rfl he
        | _ => simp [Ending.space]

theorem visible_cleaned (e : Ending) : Text.Visible (cleaned e cs) ↔ Text.Visible cs := by
  rw [← Text.words_ne_nil_iff, words_cleaned, Text.words_ne_nil_iff]

/-- **A newline between words is kept.** -/
theorem newline_mem_clean {a b : List Char} (ha : Text.Visible a) (hb : Text.Visible b)
    (hlegible : ∀ c ∈ a ++ '\n' :: b, Legible c) :
    '\n' ∈ cleanExtractedText isAlphanumeric (a ++ '\n' :: b) := by
  obtain ⟨a, c, w, rfl, hc, hw⟩ := ha.exists_last
  have hwhite : ∀ d ∈ w ++ ['\n'], Text.isWhitespace d = true := by
    intro d hd
    rcases List.mem_append.1 hd with hd | hd
    · exact hw d hd
    · rw [List.mem_singleton.1 hd]
      decide
  have hsplit : a ++ c :: w ++ '\n' :: b = (a ++ [c]) ++ ((w ++ ['\n']) ++ b) := by simp
  rw [cleanExtractedText_eq hlegible, hsplit, cleaned_append, endingAfter_word hc,
    cleaned_append .word (w ++ ['\n']) b]
  have hword : Ending.word ≠ .newline := nofun
  refine Text.mem_trimChars_between ?_ (newline_mem_cleaned hwhite (by simp) hword) ?_
  · rw [visible_cleaned]
    exact ⟨c, by simp, hc⟩
  · rwa [visible_cleaned]

/-! ### White space that is put into a text -/

theorem trimChars_cleaned (cs : List Char) (e e' : Ending) :
    Text.trimChars (cleaned e cs) = Text.trimChars (cleaned e' cs) := by
  induction cs generalizing e e' with
  | nil => rfl
  | cons c cs ih =>
      rw [cleaned, cleaned]
      by_cases hc : Text.isWhitespace c = true
      · rw [Text.trimChars_append_left (next_of_white hc e).1,
          Text.trimChars_append_left (next_of_white hc e').1, ih]
      · rw [Bool.not_eq_true] at hc
        rw [next_word hc, next_word hc]

theorem cleaned_blank (e : Ending) (cs : List Char) :
    cleaned e (' ' :: ' ' :: cs) = cleaned e (' ' :: cs) := by
  have hspace : ∀ e : Ending, e.next ' ' = e.space := fun e =>
    next_white (by decide) (by decide) e
  have hagain : e.space.2.space = ([], e.space.2) := by cases e <;> rfl
  rw [cleaned, cleaned, cleaned, hspace, hspace, hagain, List.nil_append]

theorem cleaned_blanks {w : List Char} (hw : ∀ c ∈ w, c = ' ') (e : Ending) (cs : List Char) :
    cleaned e (w ++ ' ' :: cs) = cleaned e (' ' :: cs) := by
  induction w generalizing e with
  | nil => rfl
  | cons c w ih =>
      obtain ⟨rfl, hrest⟩ := List.forall_mem_cons.1 hw
      rw [List.cons_append, ← cleaned_blank e cs, cleaned, ih hrest, ← cleaned]

/-- **White space that is put into a text changes nothing** if it is at its end, or there is
white space already. -/
theorem cleanExtractedText_gap {x w y : List Char} (hlegible : ∀ c ∈ x ++ (w ++ y), Legible c)
    (hw : ∀ c ∈ w, Text.isWhitespace c = true)
    (h : ¬ Text.Visible x ∨ ¬ Text.Visible y ∨
      (∀ c ∈ w, c = ' ') ∧ (w = [] ∨ x.getLast? = some ' ' ∨ y.head? = some ' ')) :
    cleanExtractedText isAlphanumeric (x ++ (w ++ y)) =
      cleanExtractedText isAlphanumeric (x ++ y) := by
  have hlegible' : ∀ c ∈ x ++ y, Legible c := by
    intro c hc
    apply hlegible
    rcases List.mem_append.1 hc with hc | hc
    · exact List.mem_append_left _ hc
    · exact List.mem_append_right _ (List.mem_append_right _ hc)
  rw [cleanExtractedText_eq hlegible, cleanExtractedText_eq hlegible', cleaned_append,
    cleaned_append .word x y]
  rcases h with hx | hy | ⟨hblank, rfl | hlast | hhead⟩
  · have hwhite := cleaned_of_white (Text.not_visible_iff.1 hx) .word
    rw [Text.trimChars_append_left hwhite, Text.trimChars_append_left hwhite, cleaned_append,
      Text.trimChars_append_left (cleaned_of_white hw _)]
    exact trimChars_cleaned y _ _
  · have hwhite : ∀ c ∈ w ++ y, Text.isWhitespace c = true := by
      intro c hc
      rcases List.mem_append.1 hc with hc | hc
      · exact hw c hc
      · exact Text.not_visible_iff.1 hy c hc
    rw [Text.trimChars_append_right (cleaned_of_white hwhite _),
      Text.trimChars_append_right (cleaned_of_white (Text.not_visible_iff.1 hy) _)]
  · rfl
  · obtain ⟨x, rfl⟩ := List.getLast?_eq_some_iff.1 hlast
    have hswap : [' '] ++ (w ++ y) = w ++ ' ' :: y := by
      rw [List.eq_replicate_of_mem hblank, ← List.append_assoc, List.singleton_append,
        ← List.replicate_succ, List.replicate_succ', List.append_assoc, List.singleton_append]
    rw [← cleaned_append, ← cleaned_append, List.append_assoc, hswap, List.append_assoc,
      cleaned_append, cleaned_append .word x, cleaned_blanks hblank, List.singleton_append]
  · obtain ⟨y, rfl⟩ : ∃ t, y = ' ' :: t := by
      cases y with
      | nil => cases hhead
      | cons d y =>
          obtain rfl := Option.some.inj hhead
          exact ⟨y, rfl⟩
    rw [cleaned_blanks hblank]

theorem newline_mem_of_cleaned (h : '\n' ∈ cleaned e cs) : '\n' ∈ cs := by
  induction cs generalizing e with
  | nil => cases h
  | cons c cs ih =>
      rw [cleaned, List.mem_append] at h
      rcases h with h | h
      · by_cases hline : c = '\n'
        · exact hline ▸ List.mem_cons_self
        · exfalso
          by_cases hc : Text.isWhitespace c = true
          · rw [next_white hline hc] at h
            cases e <;> simp [Ending.space] at h
          · rw [Bool.not_eq_true] at hc
            rw [next_word hc, List.mem_singleton] at h
            exact hline h.symm
      · exact List.mem_cons_of_mem c (ih h)

/-- **White space that has been put into a text**, and that has changed nothing, is no newline, and
there was white space already. -/
theorem of_cleanExtractedText_eq {x y x' w y' : List Char} (hx : Text.Visible x)
    (hy : Text.Visible y) (hwords : (Text.words x').flatten = (Text.words x).flatten)
    (hwords' : (Text.words y').flatten = (Text.words y).flatten)
    (hw : ∀ c ∈ w, Text.isWhitespace c = true) (hlegible : ∀ c ∈ x' ++ (w ++ y'), Legible c)
    (hspace : ∀ c ∈ x ++ y, Legible c ∧ (Text.isWhitespace c = true → c = ' '))
    (heq : cleanExtractedText isAlphanumeric (x' ++ (w ++ y')) =
      cleanExtractedText isAlphanumeric (x ++ y)) :
    '\n' ∉ w ∧ (w = [] ∨ x.getLast? = some ' ' ∨ y.head? = some ' ') := by
  have hplain : ∀ c ∈ x ++ y, Legible c := fun c hc => (hspace c hc).1
  constructor
  · intro hmem
    obtain ⟨p, q, rfl⟩ := List.append_of_mem hmem
    have hsplit : x' ++ (p ++ '\n' :: q ++ y') = (x' ++ p) ++ '\n' :: (q ++ y') := by simp
    have hx' : Text.Visible x' := by
      rw [Text.visible_iff_flatten] at hx ⊢
      rwa [hwords]
    have hy' : Text.Visible y' := by
      rw [Text.visible_iff_flatten] at hy ⊢
      rwa [hwords']
    rw [hsplit] at hlegible heq
    have hline : '\n' ∈ cleanExtractedText isAlphanumeric (x' ++ p ++ '\n' :: (q ++ y')) :=
      newline_mem_clean (hx'.append_right p) (hy'.append_left q) hlegible
    rw [heq, cleanExtractedText_eq hplain] at hline
    have hin := newline_mem_of_cleaned (Text.mem_of_mem_trimChars hline)
    have hblank := (hspace _ hin).2 (by decide)
    revert hblank
    decide
  · by_contra hnone
    simp only [not_or] at hnone
    obtain ⟨hne, hlast, hhead⟩ := hnone
    -- between the two texts there is no white space
    obtain ⟨a, c, rfl⟩ := (List.eq_nil_or_concat x).resolve_left (by
      rintro rfl
      obtain ⟨c, hc, -⟩ := hx
      cases hc)
    obtain ⟨d, b, rfl⟩ : ∃ d b, y = d :: b := by
      cases y with
      | nil =>
          obtain ⟨c, hc, -⟩ := hy
          cases hc
      | cons d b => exact ⟨d, b, rfl⟩
    rw [List.concat_eq_append] at *
    have hc : Text.isWhitespace c = false := by
      by_contra hwhite
      rw [Bool.not_eq_false] at hwhite
      have hblank := (hspace c (by simp)).2 hwhite
      exact hlast (by simp [hblank])
    have hd : Text.isWhitespace d = false := by
      by_contra hwhite
      rw [Bool.not_eq_false] at hwhite
      have hblank := (hspace d (by simp)).2 hwhite
      exact hhead (by simp [hblank])
    obtain ⟨us, u, v, vs, hfirst, -, hjoined, hu, hv⟩ := Text.words_append_word hc hd
    obtain ⟨e, w, rfl⟩ := List.exists_cons_of_ne_nil hne
    obtain ⟨he, hw⟩ := List.forall_mem_cons.1 hw
    have hsame := congrArg Text.words heq
    rw [words_cleanExtractedText hlegible, words_cleanExtractedText hplain, List.cons_append,
      Text.words_append_cons he, hjoined] at hsame
    rw [hfirst] at hwords
    exact Text.words_not_split hu hv (hwords.trans (by simp)) hsame

end Clean

/-! ## String literals -/

section Literals

variable {t b : List Char}

theorem readLiteral_written (h : Written t b) (depth : ℕ) (rest : List Char) :
    readLiteral (depth + 1) false (b ++ rest) = t ++ readLiteral (depth + 1) false rest := by
  induction h generalizing depth rest with
  | nil => rfl
  | char hopen hclose hslash h ih => simp [readLiteral, hopen, hclose, hslash, ih]
  | escaped hc h ih =>
      rcases hc with rfl | rfl | rfl
      · simp [readLiteral, unescape, ih]
      · simp [readLiteral, unescape, ih]
      · simp [readLiteral, unescape, ih]
  | nested h h' ih ih' =>
      simp [readLiteral, ih, ih']

/-- **A literal is read whole.** -/
theorem extractPdfString_written (h : Written t b) (rest : List Char) :
    extractPdfString ('(' :: (b ++ ')' :: rest)) = t := by
  have hstart : ('(' :: (b ++ ')' :: rest)).dropWhile (· ≠ '(') = '(' :: (b ++ ')' :: rest) := by
    simp
  rw [extractPdfString, hstart]
  show readLiteral (0 + 1) false (b ++ ')' :: rest) = t
  rw [readLiteral_written h]
  simp [readLiteral]

/-- Behind a parenthesis in a literal, another text is written, up to a closing one. -/
theorem Written.exists_inner (h : Written t b) {a r : List Char} (heq : b = a ++ '(' :: r) :
    ∃ t' b' r', Written t' b' ∧ r ++ [')'] = b' ++ ')' :: r' := by
  induction h generalizing a r with
  | nil => simp at heq
  | @char c t b hopen hclose hslash h ih =>
      cases a with
      | nil => exact absurd (List.cons.inj heq).1 hopen
      | cons d a => exact ih (List.cons.inj heq).2
  | @escaped c t b hc h ih =>
      match a with
      | [] =>
          exact absurd (List.cons.inj heq).1 (by decide)
      | [d] =>
          obtain ⟨-, htail⟩ := List.cons.inj heq
          obtain ⟨-, rfl⟩ := List.cons.inj htail
          exact ⟨t, b, [], h, rfl⟩
      | d :: e :: a => exact ih (List.cons.inj (List.cons.inj heq).2).2
  | @nested t b t' b' h h' ih ih' =>
      cases a with
      | nil =>
          obtain ⟨-, rfl⟩ := List.cons.inj heq
          exact ⟨t, b, b' ++ [')'], h, by simp⟩
      | cons d a =>
          obtain ⟨-, htail⟩ := List.cons.inj heq
          rcases List.append_eq_append_iff.1 htail with ⟨x, rfl, hx⟩ | ⟨x, rfl, hx⟩
          · cases x with
            | nil => exact absurd (List.cons.inj hx).1 (by decide)
            | cons e x => exact ih' (List.cons.inj hx).2
          · cases x with
            | nil => exact absurd (List.cons.inj hx).1 (by decide)
            | cons e x =>
                obtain ⟨rfl, rfl⟩ := List.cons.inj hx
                obtain ⟨t₀, b₀, r₀, h₀, heq₀⟩ := ih rfl
                refine ⟨t₀, b₀, r₀ ++ (b' ++ [')']), h₀, ?_⟩
                have hmore : x ++ ')' :: b' ++ [')'] = (x ++ [')']) ++ (b' ++ [')']) := by simp
                show x ++ ')' :: b' ++ [')'] = _
                rw [hmore, heq₀]
                simp

theorem Written.subset (h : Written t b) : t ⊆ b := by
  induction h with
  | nil => exact List.Subset.refl []
  | char _ _ _ h ih => exact List.cons_subset_cons _ ih
  | escaped _ h ih =>
      exact List.Subset.trans (List.cons_subset_cons _ ih) (List.subset_cons_self _ _)
  | nested h h' ih ih' =>
      refine List.cons_subset_cons _ (List.append_subset.2 ⟨?_, ?_⟩)
      · exact List.subset_append_of_subset_left _ ih
      · exact List.subset_append_of_subset_right _ (List.cons_subset_cons _ ih')

theorem Written.mem_or (h : Written t b) {c : Char} (hc : c ∈ b) : c ∈ t ∨ c = '\\' := by
  induction h with
  | nil => cases hc
  | char _ _ _ h ih => grind
  | escaped _ h ih => grind
  | nested h h' ih ih' => grind

end Literals

/-! ## The scan inside of a literal -/

section Scan

variable {r rest p q : List Char} {c : Char}

/-- What is pushed while the scan goes through a part of the stream. -/
def pushedOver (result : List Char) : List Char → List Char → List Char
  | [], _ => []
  | ch :: cs, rest => pushed result ch (cs ++ rest) ++
      pushedOver (result ++ pushed result ch (cs ++ rest)) cs rest

/-- **The scan, part after part.** -/
theorem scan_append (result p rest : List Char) :
    scan result (p ++ rest) = scan (result ++ pushedOver result p rest) rest := by
  induction p generalizing result with
  | nil => rw [pushedOver, List.append_nil, List.nil_append]
  | cons ch p ih => rw [List.cons_append, scan, ih, pushedOver, List.append_assoc]

/-- Behind each parenthesis, a text is written. -/
def Inside (p : List Char) : Prop :=
  ∀ a r, p = a ++ '(' :: r → ∃ t b r', Written t b ∧ r ++ [')'] = b ++ ')' :: r'

theorem Inside.tail (h : Inside (c :: p)) : Inside p := by
  intro a r heq
  exact h (c :: a) r (by rw [heq, List.cons_append])

/-- A space is pushed here, if there is no white space before it. -/
def Breaks (c : Char) (p : List Char) : Prop :=
  c = 'B' ∧ p.head? = some 'T' ∨
    c = 'T' ∧ (p.head? = some 'd' ∨ p.head? = some 'D' ∨ p.head? = some '*')

instance (c : Char) (p : List Char) : Decidable (Breaks c p) :=
  inferInstanceAs (Decidable (_ ∨ _))

/-- A newline is pushed here, if there is none before it. -/
def Ends (c : Char) (p : List Char) : Prop := c = 'E' ∧ p.head? = some 'T'

instance (c : Char) (p : List Char) : Decidable (Ends c p) := inferInstanceAs (Decidable (_ ∧ _))

theorem pair_prefix_iff {x y : Char} : [x, y] <+: c :: p ↔ c = x ∧ p.head? = some y := by
  cases p with
  | nil => simp [List.cons_prefix_cons]
  | cons d p => simp [List.cons_prefix_cons, eq_comm]

/-- What is pushed for a character of a literal does not depend on what is behind the literal. -/
theorem pushed_inside (h : Inside (c :: p)) (result rest : List Char) :
    pushed result c (p ++ ')' :: rest) =
      if c = '(' then extractPdfString ('(' :: (p ++ [')']))
      else if Breaks c p then spaceAfter result
      else if Ends c p then lineAfter result
      else [] := by
  by_cases hopen : c = '('
  · subst hopen
    obtain ⟨t, b, r', hwritten, heq⟩ := h [] p rfl
    have hmore : p ++ ')' :: rest = b ++ ')' :: (r' ++ rest) := by
      have happend := congrArg (fun l => l ++ rest) heq
      simpa using happend
    rw [pushed.eq_def, if_pos rfl, if_pos rfl, heq, hmore, extractPdfString_written hwritten,
      extractPdfString_written hwritten]
  · have hhead : ∀ d : Char, d ≠ ')' → ((p ++ ')' :: rest).head? = some d ↔ p.head? = some d) := by
      intro d hd
      cases p with
      | nil => simp [Ne.symm hd]
      | cons e p => rfl
    have hpair : ∀ x y : Char, y ≠ ')' →
        ([x, y].isPrefixOf (c :: (p ++ ')' :: rest)) = true ↔ c = x ∧ p.head? = some y) := by
      intro x y hy
      rw [List.isPrefixOf_iff_prefix, pair_prefix_iff, hhead y hy]
    rw [pushed.eq_def, if_neg hopen, if_neg hopen]
    have hbt : (c = 'B' ∧ "BT".toList.isPrefixOf (c :: (p ++ ')' :: rest)) = true) ↔
        (c = 'B' ∧ p.head? = some 'T') :=
      (and_congr_right fun _ => hpair 'B' 'T' (by decide)).trans (by tauto)
    have het : (c = 'E' ∧ "ET".toList.isPrefixOf (c :: (p ++ ')' :: rest)) = true) ↔
        Ends c p :=
      (and_congr_right fun _ => hpair 'E' 'T' (by decide)).trans (by unfold Ends; tauto)
    by_cases hb : c = 'B' ∧ p.head? = some 'T'
    · rw [if_pos (hbt.2 hb), if_pos (.inl hb)]
    · rw [if_neg (hbt.not.2 hb)]
      by_cases he : Ends c p
      · have hnot : ¬ Breaks c p := by
          rintro (⟨rfl, -⟩ | ⟨rfl, -⟩)
          · exact absurd he.1 (by decide)
          · exact absurd he.1 (by decide)
        rw [if_pos (het.2 he), if_neg hnot, if_pos he]
      · rw [if_neg (het.not.2 he), if_neg he]
        by_cases ht : c = 'T'
        · subst ht
          have hbreaks : Breaks 'T' p ↔
              (p.head? = some 'd' ∨ p.head? = some 'D' ∨ p.head? = some '*') := by
            simp [Breaks]
          rw [if_pos rfl]
          cases p with
          | nil => simp [Breaks]
          | cons d p =>
              simp only [List.cons_append]
              simp only [List.head?_cons, Option.some.injEq] at hbreaks
              by_cases hd : d = 'd' ∨ d = 'D' ∨ d = '*'
              · rw [if_pos hd, if_pos (hbreaks.2 hd)]
              · rw [if_neg hd, if_neg (hbreaks.not.2 hd)]
        · have hnot : ¬ Breaks c p := by
            rintro (hb' | ⟨ht', -⟩)
            · exact hb hb'
            · exact ht ht'
          rw [if_neg ht, if_neg hnot]

theorem Inside.of_written {t : List Char} (h : Written t p) : Inside p := fun _ _ heq =>
  h.exists_inner heq

theorem Closes.tail (h : Closes (c :: p)) : Closes p := by
  intro a r heq
  exact h (c :: a) r (by rw [heq, List.cons_append])

theorem closes_cons : Closes (c :: p) ↔
    (c = '(' → ((p ++ [')']).dropWhile (· = ' ')).head? = some ')') ∧ Closes p := by
  constructor
  · intro h
    refine ⟨?_, h.tail⟩
    rintro rfl
    exact h [] p rfl
  · rintro ⟨hc, h⟩ a r heq
    cases a with
    | nil =>
        obtain ⟨rfl, rfl⟩ := List.cons.inj heq
        exact hc rfl
    | cons d a => exact h a r (List.cons.inj heq).2

theorem hasEnd_cons : HasEnd (c :: p) ↔ Ends c p ∨ HasEnd p := by
  rw [HasEnd, List.infix_cons_iff, pair_prefix_iff]
  rfl

theorem hasBreak_cons : HasBreak (c :: p) ↔
    Breaks c p ∨ (c = '(' ∧ p.head? = some ' ') ∨ HasBreak p := by
  simp only [HasBreak, List.infix_cons_iff, pair_prefix_iff, Breaks]
  tauto

/-- What a parenthesis in a literal pushes is blank exactly when only spaces come before a closing
one. -/
theorem blank_iff {t b : List Char} (h : Written t b) (rest : List Char) :
    ((b ++ ')' :: rest).dropWhile (· = ' ')).head? = some ')' ↔ ∀ d ∈ t, d = ' ' := by
  induction h with
  | nil => simp
  | @char d t b hopen hclose hslash h ih =>
      by_cases hd : d = ' '
      · simp [hd, ih]
      · simp [hd, hclose]
  | @escaped d t b hd h ih =>
      have hne : d ≠ ' ' := by rcases hd with rfl | rfl | rfl <;> decide
      simp [hne]
  | nested h h' ih ih' => simp

theorem ne_nil_iff {t b : List Char} (h : Written t b) (hblank : ∀ d ∈ t, d = ' ')
    (rest : List Char) : t ≠ [] ↔ (b ++ ')' :: rest).head? = some ' ' := by
  cases h with
  | nil => simp
  | char _ _ _ h => simp [hblank _ List.mem_cons_self]
  | @escaped d t b hd h =>
      have hspace := hblank d List.mem_cons_self
      rcases hd with rfl | rfl | rfl
      · exact absurd hspace (by decide)
      · exact absurd hspace (by decide)
      · exact absurd hspace (by decide)
  | nested h h' => exact absurd (hblank '(' List.mem_cons_self) (by decide)

theorem pushedOver_cons (h : Inside (c :: p)) (result rest : List Char) :
    pushedOver result (c :: p) (')' :: rest) =
      (if c = '(' then extractPdfString ('(' :: (p ++ [')']))
      else if Breaks c p then spaceAfter result
      else if Ends c p then lineAfter result
      else []) ++ pushedOver (result ++
        (if c = '(' then extractPdfString ('(' :: (p ++ [')']))
        else if Breaks c p then spaceAfter result
        else if Ends c p then lineAfter result
        else [])) p (')' :: rest) := by
  rw [pushedOver, pushed_inside h]

/-- **What is pushed does not depend on what is behind the literal.** -/
theorem pushedOver_inside (h : Inside p) (result rest : List Char) :
    pushedOver result p (')' :: rest) = pushedOver result p [')'] := by
  induction p generalizing result with
  | nil => rfl
  | cons c p ih => rw [pushedOver_cons h, pushedOver_cons h, ih h.tail]

/-- The text behind a parenthesis in a literal, and how it is written. -/
theorem Inside.open (h : Inside ('(' :: p)) : ∃ t b r, Written t b ∧
    p ++ [')'] = b ++ ')' :: r ∧ extractPdfString ('(' :: (p ++ [')'])) = t ∧ t ⊆ p := by
  obtain ⟨t, b, r, hwritten, heq⟩ := h [] p rfl
  have hlen := congrArg List.length heq
  have hprefix : b <+: p := by
    refine List.prefix_of_prefix_length_le ⟨')' :: r, heq.symm⟩ (List.prefix_append p [')']) ?_
    simp at hlen
    omega
  refine ⟨t, b, r, hwritten, heq, by rw [heq, extractPdfString_written hwritten], ?_⟩
  exact List.Subset.trans hwritten.subset hprefix.subset

theorem mem_spaceAfter (h : c ∈ spaceAfter r) : c = ' ' := by
  unfold spaceAfter at h
  split at h
  · exact List.mem_singleton.1 h
  · cases h

theorem mem_lineAfter (h : c ∈ lineAfter r) : c = '\n' := by
  unfold lineAfter at h
  split at h
  · exact List.mem_singleton.1 h
  · cases h

/-- What is pushed inside of a literal is a space, a newline or a text in it. -/
theorem mem_pushedOver (h : Inside p) {result rest : List Char}
    (hc : c ∈ pushedOver result p (')' :: rest)) : c = ' ' ∨ c = '\n' ∨ c ∈ p := by
  induction p generalizing result with
  | nil => cases hc
  | cons d p ih =>
      rw [pushedOver_cons h, List.mem_append] at hc
      rcases hc with hc | hc
      · split at hc
        · next hopen =>
            subst hopen
            obtain ⟨t, b, r, -, -, htext, hsub⟩ := h.open
            rw [htext] at hc
            exact .inr (.inr (List.mem_cons_of_mem _ (hsub hc)))
        · split at hc
          · exact .inl (mem_spaceAfter hc)
          · split at hc
            · exact .inr (.inl (mem_lineAfter hc))
            · cases hc
      · rcases ih h.tail hc with hspace | hline | hmem
        · exact .inl hspace
        · exact .inr (.inl hline)
        · exact .inr (.inr (List.mem_cons_of_mem d hmem))

variable {result : List Char}

/-- **What is pushed is white space** if the parentheses are closed, -/
theorem pushedOver_white (h : Inside p) (hcloses : Closes p)
    (hc : c ∈ pushedOver result p (')' :: rest)) : c = ' ' ∨ c = '\n' := by
  induction p generalizing result with
  | nil => cases hc
  | cons d p ih =>
      obtain ⟨hopen, hrest⟩ := closes_cons.1 hcloses
      rw [pushedOver_cons h, List.mem_append] at hc
      rcases hc with hc | hc
      · split at hc
        · next hparen =>
            subst hparen
            obtain ⟨t, b, r, hwritten, heq, htext, -⟩ := h.open
            rw [htext] at hc
            have hblank := hopen rfl
            rw [heq, blank_iff hwritten] at hblank
            exact .inl (hblank c hc)
        · split at hc
          · exact .inl (mem_spaceAfter hc)
          · split at hc
            · exact .inr (mem_lineAfter hc)
            · cases hc
      · exact ih h.tail hrest hc

/-- and else some of it can be seen. -/
theorem visible_pushedOver (h : Inside p) (hcloses : ¬ Closes p)
    (hprint : ∀ c ∈ p, isPrintable c = true) :
    Text.Visible (pushedOver result p (')' :: rest)) := by
  induction p generalizing result with
  | nil =>
      refine absurd (fun a r heq => ?_) hcloses
      simp at heq
  | cons d p ih =>
      obtain ⟨-, hprint'⟩ := List.forall_mem_cons.1 hprint
      rw [pushedOver_cons h]
      by_cases hrest : Closes p
      · have hopen : d = '(' ∧ ¬ ((p ++ [')']).dropWhile (· = ' ')).head? = some ')' := by
          rw [closes_cons] at hcloses
          tauto
        obtain ⟨rfl, hnot⟩ := hopen
        obtain ⟨t, b, r, hwritten, heq, htext, hsub⟩ := h.open
        rw [heq, blank_iff hwritten] at hnot
        push Not at hnot
        obtain ⟨e, he, hne⟩ := hnot
        refine Text.Visible.append_right ?_ _
        rw [if_pos rfl, htext]
        refine ⟨e, he, ?_⟩
        rw [← Bool.not_eq_true]
        exact fun hwhite => hne (blank_of_printable (hprint' e (hsub he)) hwhite)
      · exact (ih h.tail hrest hprint').append_left _

/-- A newline is pushed only for an end of a text, -/
theorem hasEnd_of_newline (h : Inside p) (hcloses : Closes p)
    (hc : '\n' ∈ pushedOver result p (')' :: rest)) : HasEnd p := by
  induction p generalizing result with
  | nil => cases hc
  | cons d p ih =>
      obtain ⟨hopen, hrest⟩ := closes_cons.1 hcloses
      rw [hasEnd_cons]
      rw [pushedOver_cons h, List.mem_append] at hc
      rcases hc with hc | hc
      · split at hc
        · next hparen =>
            subst hparen
            obtain ⟨t, b, r, hwritten, heq, htext, -⟩ := h.open
            rw [htext] at hc
            have hblank := hopen rfl
            rw [heq, blank_iff hwritten] at hblank
            exact absurd (hblank _ hc) (by decide)
        · split at hc
          · exact absurd (mem_spaceAfter hc) (by decide)
          · split at hc
            · next hend => exact .inl hend
            · cases hc
      · exact .inr (ih h.tail hrest hc)

/-- and for each of them, unless there is one before it. -/
theorem newline_of_hasEnd (h : Inside p) (hend : HasEnd p) (hne : result ≠ []) :
    '\n' ∈ pushedOver result p (')' :: rest) ∨ result.getLast? = some '\n' := by
  induction p generalizing result with
  | nil => simp [HasEnd] at hend
  | cons d p ih =>
      rw [pushedOver_cons h]
      rw [hasEnd_cons] at hend
      rcases hend with ⟨rfl, hnext⟩ | hend
      · by_cases hlast : result.getLast? = some '\n'
        · exact .inr hlast
        · left
          have hbreaks : ¬ Breaks 'E' p := by simp [Breaks]
          have hline : lineAfter result = ['\n'] := if_pos ⟨hne, hlast⟩
          rw [if_neg (by decide), if_neg hbreaks, if_pos ⟨rfl, hnext⟩, hline]
          simp
      · -- what is pushed here ends with a newline, or the result still does not
        generalize (if d = '(' then extractPdfString ('(' :: (p ++ [')']))
          else if Breaks d p then spaceAfter result
          else if Ends d p then lineAfter result else []) = here
        have hne' : result ++ here ≠ [] := by simp [hne]
        rcases ih h.tail hend hne' with hmem | hlast
        · exact .inl (List.mem_append_right _ hmem)
        · rcases List.eq_nil_or_concat here with rfl | ⟨init, e, rfl⟩
          · right
            rwa [List.append_nil] at hlast
          · left
            rw [List.concat_eq_append, ← List.append_assoc, List.getLast?_concat] at hlast
            rw [Option.some.inj hlast]
            simp

/-- Something is pushed only for one of the operators or for a parenthesis with a space, -/
theorem operator_of_pushedOver (h : Inside p) (hcloses : Closes p)
    (hne : pushedOver result p (')' :: rest) ≠ []) : HasEnd p ∨ HasBreak p := by
  induction p generalizing result with
  | nil => exact absurd rfl hne
  | cons d p ih =>
      obtain ⟨hopen, hrest⟩ := closes_cons.1 hcloses
      rw [hasEnd_cons, hasBreak_cons]
      by_cases hparen : d = '('
      · subst hparen
        obtain ⟨t, b, r, hwritten, heq, htext, -⟩ := h.open
        have hblank := hopen rfl
        rw [heq, blank_iff hwritten] at hblank
        by_cases ht : t = []
        · rw [pushedOver_cons h, if_pos rfl, htext, ht, List.nil_append] at hne
          rcases ih h.tail hrest hne with hend | hbreak
          · exact .inl (.inr hend)
          · exact .inr (.inr (.inr hbreak))
        · have hhead := (ne_nil_iff hwritten hblank r).1 ht
          rw [← heq] at hhead
          refine .inr (.inr (.inl ⟨rfl, ?_⟩))
          cases p with
          | nil => cases hhead
          | cons e p => exact hhead
      · by_cases hbreaks : Breaks d p
        · exact .inr (.inl hbreaks)
        · by_cases hends : Ends d p
          · exact .inl (.inl hends)
          · rw [pushedOver_cons h, if_neg hparen, if_neg hbreaks, if_neg hends,
              List.nil_append] at hne
            rcases ih h.tail hrest hne with hend | hbreak
            · exact .inl (.inr hend)
            · exact .inr (.inr (.inr hbreak))

/-- and for each of these, unless there is white space before it. -/
theorem pushedOver_of_hasBreak (h : Inside p) (hcloses : Closes p) (hbreak : HasBreak p)
    (hne : result ≠ []) (hlast : result.getLast? ≠ some '\n' ∧ result.getLast? ≠ some ' ') :
    pushedOver result p (')' :: rest) ≠ [] := by
  induction p generalizing result with
  | nil => simp [HasBreak] at hbreak
  | cons d p ih =>
      obtain ⟨hopen, hrest⟩ := closes_cons.1 hcloses
      rw [pushedOver_cons h]
      rw [hasBreak_cons] at hbreak
      by_cases hhere : (if d = '(' then extractPdfString ('(' :: (p ++ [')']))
          else if Breaks d p then spaceAfter result
          else if Ends d p then lineAfter result else []) = []
      · rw [hhere, List.append_nil, List.nil_append]
        rcases hbreak with hbreaks | ⟨rfl, hhead⟩ | hbreak
        · have hparen : d ≠ '(' := by
            rintro rfl
            simp [Breaks] at hbreaks
          rw [if_neg hparen, if_pos hbreaks, spaceAfter, if_pos ⟨hne, hlast⟩] at hhere
          cases hhere
        · obtain ⟨t, b, r, hwritten, heq, htext, -⟩ := h.open
          have hblank := hopen rfl
          rw [heq, blank_iff hwritten] at hblank
          have hhead' : (b ++ ')' :: r).head? = some ' ' := by
            rw [← heq]
            cases p with
            | nil => cases hhead
            | cons e p => exact hhead
          rw [if_pos rfl, htext] at hhere
          exact absurd hhere ((ne_nil_iff hwritten hblank r).2 hhead')
        · exact ih h.tail hrest hbreak hne hlast
      · simp [hhere]

end Scan

/-! ## The whole stream -/

section Stream

variable {l : Literal} {ls a b : List Literal} {result : List Char}

theorem Literal.inside (l : Literal) : Inside l.body := Inside.of_written l.written

theorem Literal.printable_body (l : Literal) : ∀ c ∈ l.body, isPrintable c = true := by
  intro c hc
  rcases l.written.mem_or hc with htext | rfl
  · exact l.printable c htext
  · decide

/-- What the scan pushes inside of a literal. -/
def leaked (result : List Char) (l : Literal) : List Char := pushedOver result l.body [')']

/-- What the scan pushes for literals. -/
def spilled (result : List Char) : List Literal → List Char
  | [] => []
  | l :: ls => l.text ++ (leaked (result ++ l.text) l ++
      spilled (result ++ (l.text ++ leaked (result ++ l.text) l)) ls)

theorem spilled_append (result : List Char) (a b : List Literal) :
    spilled result (a ++ b) = spilled result a ++ spilled (result ++ spilled result a) b := by
  induction a generalizing result with
  | nil => rw [List.nil_append, spilled, List.nil_append, List.append_nil]
  | cons l a ih =>
      rw [List.cons_append, spilled, spilled, ih]
      simp only [List.append_assoc]

theorem scan_shown (result : List Char) (l : Literal) (rest : List Char) :
    scan result (l.shown ++ rest) =
      scan (result ++ (l.text ++ leaked (result ++ l.text) l)) rest := by
  have hopen : ∀ tail, pushed result '(' (l.body ++ ')' :: tail) = l.text := by
    intro tail
    rw [pushed.eq_def, if_pos rfl, extractPdfString_written l.written]
  have hclose : ∀ r : List Char, scan r (") Tj ".toList ++ rest) = scan r rest := by
    intro r
    have hlist : ") Tj ".toList ++ rest = ')' :: ' ' :: 'T' :: 'j' :: ' ' :: rest := rfl
    rw [hlist]
    simp [scan, pushed]
  have hshown : l.shown ++ rest = '(' :: (l.body ++ (")".toList ++ (" Tj ".toList ++ rest))) := by
    have hlist : ") Tj ".toList = ")".toList ++ " Tj ".toList := rfl
    rw [Literal.shown, hlist]
    simp only [List.cons_append, List.append_assoc]
  have hrest : ")".toList ++ (" Tj ".toList ++ rest) = ')' :: (" Tj ".toList ++ rest) := rfl
  have hback : ')' :: (" Tj ".toList ++ rest) = ") Tj ".toList ++ rest := rfl
  rw [hshown, hrest, scan, hopen, scan_append, pushedOver_inside l.inside, hback, hclose,
    List.append_assoc]
  rfl

/-- **What the scan makes of a stream.** -/
theorem scan_content (ls : List Literal) : scan [] (Utf8.decodeLossy (content ls)) =
    spilled [] ls ++ lineAfter (spilled [] ls) := by
  have hall : ∀ result : List Char, scan result (ls.flatMap Literal.shown ++ "ET".toList) =
      scan (result ++ spilled result ls) "ET".toList := by
    induction ls with
    | nil => intro result; simp [spilled]
    | cons l ls ih =>
        intro result
        rw [List.flatMap_cons, List.append_assoc, scan_shown, ih, spilled]
        simp only [List.append_assoc]
  have hend : ∀ r : List Char, scan r "ET".toList = r ++ lineAfter r := by
    intro r
    have hlist : "ET".toList = ['E', 'T'] := rfl
    rw [hlist]
    simp [scan, pushed]
  have hstart : ∀ rest : List Char, scan [] ("BT ".toList ++ rest) = scan [] rest := by
    intro rest
    have hlist : "BT ".toList ++ rest = 'B' :: 'T' :: ' ' :: rest := rfl
    rw [hlist]
    simp [scan, pushed, spaceAfter]
  rw [content, Utf8.decodeLossy_encode, hstart, hall, hend, List.nil_append]

theorem texts_append (a b : List Literal) : texts (a ++ b) = texts a ++ texts b :=
  List.flatMap_append

theorem texts_cons (l : Literal) (ls : List Literal) : texts (l :: ls) = l.text ++ texts ls :=
  List.flatMap_cons

theorem printable_texts (ls : List Literal) : ∀ c ∈ texts ls, isPrintable c = true := by
  intro c hc
  obtain ⟨l, -, hc⟩ := List.mem_flatMap.1 hc
  exact l.printable c hc

theorem leaked_legible (result : List Char) (l : Literal) : ∀ c ∈ leaked result l, Legible c := by
  intro c hc
  rcases mem_pushedOver l.inside hc with rfl | rfl | hc
  · exact .inr (by decide)
  · exact .inr (by decide)
  · exact legible_of_printable (l.printable_body c hc)

theorem spilled_legible (result : List Char) (ls : List Literal) :
    ∀ c ∈ spilled result ls, Legible c := by
  induction ls generalizing result with
  | nil => simp [spilled]
  | cons l ls ih =>
      intro c hc
      rw [spilled, List.mem_append, List.mem_append] at hc
      rcases hc with hc | hc | hc
      · exact legible_of_printable (l.printable c hc)
      · exact leaked_legible _ l c hc
      · exact ih _ c hc

/-- What of a text can be seen. -/
def visibleOf (cs : List Char) : List Char := cs.filter fun c => !Text.isWhitespace c

theorem visibleOf_append (x y : List Char) : visibleOf (x ++ y) = visibleOf x ++ visibleOf y :=
  List.filter_append _ _

theorem visibleOf_white {w : List Char} (h : ∀ c ∈ w, Text.isWhitespace c = true) :
    visibleOf w = [] := by
  simpa [visibleOf] using h

theorem leaked_white (hcloses : Closes l.body) :
    ∀ c ∈ leaked result l, Text.isWhitespace c = true := by
  intro c hc
  rcases pushedOver_white l.inside hcloses hc with rfl | rfl
  · decide
  · decide

theorem lineAfter_white (result : List Char) :
    ∀ c ∈ lineAfter result, Text.isWhitespace c = true := by
  intro c hc
  rw [mem_lineAfter hc]
  decide

/-- Where the parentheses are closed, what can be seen is the texts, -/
theorem visibleOf_spilled (h : ∀ l ∈ ls, Closes l.body) (result : List Char) :
    visibleOf (spilled result ls) = visibleOf (texts ls) := by
  induction ls generalizing result with
  | nil => rfl
  | cons l ls ih =>
      obtain ⟨hl, hrest⟩ := List.forall_mem_cons.1 h
      rw [spilled, texts_cons, visibleOf_append, visibleOf_append, visibleOf_append, ih hrest,
        visibleOf_white (leaked_white hl), List.nil_append]

/-- and elsewhere more. -/
theorem length_visibleOf_spilled (result : List Char) (ls : List Literal) :
    (visibleOf (texts ls)).length ≤ (visibleOf (spilled result ls)).length ∧
      ((visibleOf (texts ls)).length = (visibleOf (spilled result ls)).length →
        ∀ l ∈ ls, Closes l.body) := by
  induction ls generalizing result with
  | nil => simp [spilled, texts]
  | cons l ls ih =>
      obtain ⟨hle, heq⟩ := ih (result ++ (l.text ++ leaked (result ++ l.text) l))
      rw [spilled, texts_cons, visibleOf_append, visibleOf_append, visibleOf_append]
      simp only [List.length_append]
      refine ⟨by omega, fun hlen => List.forall_mem_cons.2 ⟨?_, heq (by omega)⟩⟩
      by_contra hcloses
      obtain ⟨c, hc, hvisible⟩ : Text.Visible (leaked (result ++ l.text) l) :=
        visible_pushedOver l.inside hcloses l.printable_body
      have hmem : c ∈ visibleOf (leaked (result ++ l.text) l) :=
        List.mem_filter.2 ⟨hc, by simp [hvisible]⟩
      have hpos := List.length_pos_of_mem hmem
      omega

theorem visible_iff_visibleOf {cs : List Char} : Text.Visible cs ↔ visibleOf cs ≠ [] := by
  rw [Text.visible_iff_flatten, Text.flatten_words]
  rfl

theorem getLast?_text (h : l.text ≠ []) (x : List Char) :
    (x ++ l.text).getLast? = l.text.getLast? := by
  rw [List.getLast?_append_of_ne_nil _ h]

theorem text_ne_nil (h : l.body ≠ []) : l.text ≠ [] := by
  have hempty : ∀ {t b : List Char}, Written t b → t = [] → b = [] := by
    intro t b hwritten ht
    cases hwritten with
    | nil => rfl
    | char => cases ht
    | escaped => cases ht
    | nested => cases ht
  exact mt (hempty l.written) h

/-- **Each text once.** -/
theorem clean_spilled (isAlphanumeric : Char → Bool) (h : Quiet ls) : ∀ a b, ls = a ++ b →
    cleanExtractedText isAlphanumeric (spilled [] a ++ texts b) =
      cleanExtractedText isAlphanumeric (texts ls) := by
  intro a
  induction a using List.reverseRecOn with
  | nil =>
      rintro b rfl
      rfl
  | append_singleton a l ih =>
      intro b heq
      have hsplit : ls = a ++ l :: b := by simpa using heq
      have hcloses : ∀ l ∈ a, Closes l.body := fun l hl => h.1 l (by rw [hsplit]; simp [hl])
      have hl : Closes l.body := h.1 l (by rw [hsplit]; simp)
      have hone : spilled (spilled [] a) [l] = l.text ++ leaked (spilled [] a ++ l.text) l := by
        simp [spilled]
      have hx : visibleOf (spilled [] a ++ l.text) = visibleOf (texts (a ++ [l])) := by
        rw [visibleOf_append, visibleOf_spilled hcloses, ← visibleOf_append, texts_append]
        simp [texts]
      have hlegible : ∀ c ∈ (spilled [] a ++ l.text) ++
          (leaked (spilled [] a ++ l.text) l ++ texts b), Legible c := by
        intro c hc
        rw [List.mem_append, List.mem_append, List.mem_append] at hc
        rcases hc with (hc | hc) | hc | hc
        · exact spilled_legible [] a c hc
        · exact legible_of_printable (l.printable c hc)
        · exact leaked_legible _ l c hc
        · exact legible_of_printable (printable_texts b c hc)
      rw [← ih (l :: b) hsplit, texts_cons, spilled_append, List.nil_append, hone, List.append_assoc,
        List.append_assoc, ← List.append_assoc, ← List.append_assoc (spilled [] a) l.text]
      refine cleanExtractedText_gap hlegible (leaked_white hl) ?_
      by_cases hvisible : Text.Visible (spilled [] a ++ l.text)
      · by_cases hbehind : Text.Visible (texts b)
        · right; right
          rw [visible_iff_visibleOf, hx, ← visible_iff_visibleOf] at hvisible
          obtain ⟨hend, hbreak⟩ := h.2 a l b hsplit hvisible hbehind
          constructor
          · intro c hc
            rcases pushedOver_white l.inside hl hc with hblank | rfl
            · exact hblank
            · exact absurd (hasEnd_of_newline l.inside hl hc) hend
          · by_cases hnone : leaked (spilled [] a ++ l.text) l = []
            · exact .inl hnone
            · right
              have hbody : l.body ≠ [] := by
                intro hnil
                rw [leaked, hnil] at hnone
                exact hnone rfl
              have hop := (operator_of_pushedOver l.inside hl hnone).resolve_left hend
              have hlast : (texts (a ++ [l])).getLast? = l.text.getLast? := by
                rw [texts_append]
                simpa [texts] using getLast?_text (text_ne_nil hbody) (texts a)
              rw [getLast?_text (text_ne_nil hbody), ← hlast]
              exact hbreak hop
        · exact .inr (.inl hbehind)
      · exact .inl hvisible

/-- **Each text of a stream is extracted once**, in order, exactly when the scan finds nothing more
in the literals. -/
theorem exactlyOnce_iff (isAlphanumeric : Char → Bool) (ls : List Literal) :
    extractTextOperators isAlphanumeric (content ls) =
      cleanExtractedText isAlphanumeric (texts ls) ↔ Quiet ls := by
  have hline : ∀ r : List Char, visibleOf (lineAfter r) = [] :=
    fun r => visibleOf_white (lineAfter_white r)
  have hlegible : ∀ c ∈ spilled [] ls ++ lineAfter (spilled [] ls), Legible c := by
    intro c hc
    rcases List.mem_append.1 hc with hc | hc
    · exact spilled_legible [] ls c hc
    · exact .inr (lineAfter_white _ c hc)
  rw [extractTextOperators, scan_content]
  constructor
  · intro heq
    have hwords := congrArg Text.words heq
    have hplain : ∀ c ∈ texts ls, Legible c :=
      fun c hc => legible_of_printable (printable_texts ls c hc)
    rw [words_cleanExtractedText hlegible, words_cleanExtractedText hplain] at hwords
    have hvisible := congrArg List.flatten hwords
    rw [Text.flatten_words, Text.flatten_words] at hvisible
    have hsame : visibleOf (spilled [] ls) = visibleOf (texts ls) := by
      have h : visibleOf (spilled [] ls ++ lineAfter (spilled [] ls)) = visibleOf (texts ls) := hvisible
      rwa [visibleOf_append, hline, List.append_nil] at h
    have hcloses := (length_visibleOf_spilled [] ls).2 (congrArg List.length hsame).symm
    refine ⟨hcloses, ?_⟩
    rintro a l b rfl hfirst hbehind
    have hl : Closes l.body := hcloses l (by simp)
    have ha : ∀ l' ∈ a, Closes l'.body := fun l' hl' => hcloses l' (by simp [hl'])
    have hb : ∀ l' ∈ b, Closes l'.body := fun l' hl' => hcloses l' (by simp [hl'])
    obtain ⟨y', hy', hparts⟩ : ∃ y', visibleOf y' = visibleOf (texts b) ∧
        spilled [] (a ++ l :: b) ++ lineAfter (spilled [] (a ++ l :: b)) =
          (spilled [] a ++ l.text) ++ (leaked (spilled [] a ++ l.text) l ++ y') := by
      refine ⟨spilled (spilled [] a ++ (l.text ++ leaked (spilled [] a ++ l.text) l)) b ++
        lineAfter (spilled [] (a ++ l :: b)), ?_, ?_⟩
      · rw [visibleOf_append, hline, List.append_nil, visibleOf_spilled hb]
      · rw [spilled_append, List.nil_append, spilled]
        simp only [List.append_assoc]
    have htexts : texts (a ++ l :: b) = texts (a ++ [l]) ++ texts b := by
      rw [← texts_append, List.append_assoc, List.singleton_append]
    rw [hparts] at hlegible heq
    rw [htexts] at heq
    have hx : visibleOf (spilled [] a ++ l.text) = visibleOf (texts (a ++ [l])) := by
      rw [visibleOf_append, visibleOf_spilled ha, ← visibleOf_append, texts_append]
      simp [texts]
    have hspace : ∀ c ∈ texts (a ++ [l]) ++ texts b,
        Legible c ∧ (Text.isWhitespace c = true → c = ' ') := by
      intro c hc
      rw [← texts_append] at hc
      have hprint := printable_texts _ c hc
      exact ⟨legible_of_printable hprint, blank_of_printable hprint⟩
    obtain ⟨hnewline, hgap⟩ := of_cleanExtractedText_eq hfirst hbehind
      ((Text.flatten_words _).trans (hx.trans (Text.flatten_words _).symm))
      ((Text.flatten_words _).trans (hy'.trans (Text.flatten_words _).symm))
      (leaked_white hl) hlegible hspace heq
    -- the literal is not empty if there is an operator in it
    have hlast : l.body ≠ [] → (spilled [] a ++ l.text).getLast? = l.text.getLast? ∧
        (texts (a ++ [l])).getLast? = l.text.getLast? ∧ l.text.getLast? ≠ some '\n' ∧
        spilled [] a ++ l.text ≠ [] := by
      intro hbody
      have htext := text_ne_nil hbody
      refine ⟨getLast?_text htext _, ?_, ?_, by simp [htext]⟩
      · rw [texts_append]
        simpa [texts] using getLast?_text htext (texts a)
      · intro hnewline
        have hprint := l.printable _ (List.mem_of_getLast? hnewline)
        revert hprint
        decide
    constructor
    · intro hend
      have hbody : l.body ≠ [] := by
        intro hnil
        rw [hnil] at hend
        simp [HasEnd] at hend
      obtain ⟨hlast, -, hnot, hne⟩ := hlast hbody
      rcases newline_of_hasEnd l.inside hend hne with hmem | hmem
      · exact hnewline hmem
      · exact hnot (hlast ▸ hmem)
    · intro hbreak
      have hbody : l.body ≠ [] := by
        intro hnil
        rw [hnil] at hbreak
        simp [HasBreak] at hbreak
      obtain ⟨hlast, hlast', hnot, hne⟩ := hlast hbody
      by_cases hblank : l.text.getLast? = some ' '
      · exact .inl (hlast'.trans hblank)
      · refine hgap.resolve_left fun hnone => ?_
        exact pushedOver_of_hasBreak l.inside hl hbreak hne
          ⟨hlast ▸ hnot, hlast ▸ hblank⟩ hnone
  · intro h
    have hend : cleanExtractedText isAlphanumeric (spilled [] ls ++ (lineAfter (spilled [] ls) ++ [])) =
        cleanExtractedText isAlphanumeric (spilled [] ls ++ []) := by
      refine cleanExtractedText_gap ?_ (lineAfter_white _) (.inr (.inl ?_))
      · rwa [List.append_nil]
      · rintro ⟨c, hc, -⟩
        cases hc
    rw [List.append_nil, List.append_nil] at hend
    rw [hend]
    have hclean := clean_spilled isAlphanumeric h ls [] (List.append_nil ls).symm
    rwa [texts, List.flatMap_nil, List.append_nil] at hclean

end Stream

/-- A text in parentheses, which are balanced. -/
def parenthesized : Literal where
  text := ['(', 'a', ')']
  body := ['(', 'a', ')']
  printable := List.all_eq_true.1 (by decide)
  written := .nested (.char (by decide) (by decide) (by decide) .nil) .nil

/-- What is in the parentheses is extracted twice. -/
theorem inner_extracted_twice : extractTextOperators Char.isAlphanum (content [parenthesized]) ≠
    cleanExtractedText Char.isAlphanum (texts [parenthesized]) := by
  decide

end Pdf

end PeerClaw
