import PeerClaw.Lib.Text
import Mathlib.Data.List.DropRight
import Mathlib.Data.List.TakeWhile

/-!
# The lines of a text

A text is cut into lines at its line feeds; a carriage return in front of one belongs to
it.  Trimming a line makes that return, and other white space around it, disappear.

* `lines_newline`, `lines_last` — the first line of a text, and its last one.
* `trimChars_word` — trimming a text that begins with a word.
* `trimChars_dropReturn` — a trimmed line has no carriage return behind it.
-/

namespace Lib
namespace Text

/-- `str::strip_prefix`. -/
def stripPrefix (start s : String) : Option String :=
  if start.toList.isPrefixOf s.toList then some (String.ofList (s.toList.drop start.toList.length))
  else none

theorem stripPrefix_append (start : String) (cs : List Char) :
    stripPrefix start (String.ofList (start.toList ++ cs)) = some (String.ofList cs) := by
  have htext : (String.ofList (start.toList ++ cs)).toList = start.toList ++ cs :=
    String.toList_ofList
  rw [stripPrefix, htext, if_pos (List.isPrefixOf_iff_prefix.2 (List.prefix_append _ _)),
    List.drop_left]

theorem stripPrefix_of_not {start : String} {cs : List Char} (h : ¬ start.toList <+: cs) :
    stripPrefix start (String.ofList cs) = none := by
  have htext : (String.ofList cs).toList = cs := String.toList_ofList
  rw [stripPrefix, htext, if_neg fun hstart => h (List.isPrefixOf_iff_prefix.1 hstart)]

/-- A line without a carriage return behind it. -/
def dropReturn (line : List Char) : List Char :=
  if line.getLast? = some '\r' then line.dropLast else line

/-- The lines of the rest of a text, of which the first has begun. -/
def linesFrom (line : List Char) : List Char → List (List Char)
  | [] => if line.isEmpty then [] else [line]
  | c :: cs => if c = '\n' then dropReturn line :: linesFrom [] cs else linesFrom (line ++ [c]) cs

/-- `str::lines`. -/
def lines (s : String) : List String := (linesFrom [] s.toList).map String.ofList

section Lines

variable {a b cs line : List Char} {c : Char}

theorem linesFrom_newline (h : '\n' ∉ a) :
    linesFrom line (a ++ '\n' :: b) = dropReturn (line ++ a) :: linesFrom [] b := by
  induction a generalizing line with
  | nil => simp [linesFrom]
  | cons c a ih =>
      obtain ⟨hc, ha⟩ := not_or.1 (List.mem_cons.not.1 h)
      rw [List.cons_append, linesFrom, if_neg (Ne.symm hc), ih ha]
      simp

theorem linesFrom_last (h : '\n' ∉ a) :
    linesFrom line a = if (line ++ a).isEmpty then [] else [line ++ a] := by
  induction a generalizing line with
  | nil => simp [linesFrom]
  | cons c a ih =>
      obtain ⟨hc, ha⟩ := not_or.1 (List.mem_cons.not.1 h)
      rw [linesFrom, if_neg (Ne.symm hc), ih ha]
      simp

/-- **The first line.** -/
theorem lines_newline (h : '\n' ∉ a) : lines (String.ofList (a ++ '\n' :: b)) =
    String.ofList (dropReturn a) :: lines (String.ofList b) := by
  rw [lines, lines, String.toList_ofList, String.toList_ofList, linesFrom_newline h,
    List.nil_append, List.map_cons]

/-- **The last line.** -/
theorem lines_last (h : '\n' ∉ a) (hne : a ≠ []) : lines (String.ofList a) = [String.ofList a] := by
  rw [lines, String.toList_ofList, linesFrom_last h, List.nil_append, if_neg (by simpa using hne),
    List.map_singleton]

/-- **Lines that are written each with its line feed.** -/
theorem linesFrom_flatMap {ls : List (List Char)} (h : ∀ l ∈ ls, '\n' ∉ l) :
    linesFrom [] (ls.flatMap fun l => l ++ ['\n']) = ls.map dropReturn := by
  induction ls with
  | nil => rfl
  | cons l ls ih =>
      obtain ⟨hl, hrest⟩ := List.forall_mem_cons.1 h
      rw [List.flatMap_cons, List.append_assoc, List.singleton_append, linesFrom_newline hl,
        List.nil_append, ih hrest, List.map_cons]

theorem mem_dropReturn (h : c ∈ dropReturn line) : c ∈ line := by
  unfold dropReturn at h
  split at h
  · exact List.dropLast_subset line h
  · exact h

theorem mem_of_mem_linesFrom {l : List Char} (hl : l ∈ linesFrom line a) (hc : c ∈ l) :
    c ∈ line ∨ c ∈ a := by
  induction a generalizing line with
  | nil =>
      rw [linesFrom] at hl
      split at hl
      · cases hl
      · rw [List.mem_singleton.1 hl] at hc
        exact .inl hc
  | cons d a ih =>
      rw [linesFrom] at hl
      split at hl
      · rcases List.mem_cons.1 hl with rfl | hl
        · exact .inl (mem_dropReturn hc)
        · exact .inr (List.mem_cons_of_mem d ((ih hl).resolve_left List.not_mem_nil))
      · rcases ih hl with hline | ha
        · rcases List.mem_append.1 hline with hline | hd
          · exact .inl hline
          · exact .inr (List.mem_singleton.1 hd ▸ List.mem_cons_self)
        · exact .inr (List.mem_cons_of_mem d ha)

theorem newline_not_mem_linesFrom {l : List Char} (hline : '\n' ∉ line) (hl : l ∈ linesFrom line a) :
    '\n' ∉ l := by
  induction a generalizing line with
  | nil =>
      rw [linesFrom] at hl
      split at hl
      · cases hl
      · rwa [List.mem_singleton.1 hl]
  | cons d a ih =>
      rw [linesFrom] at hl
      split at hl
      · rcases List.mem_cons.1 hl with rfl | hl
        · exact fun hmem => hline (mem_dropReturn hmem)
        · exact ih List.not_mem_nil hl
      · next hd =>
          refine ih ?_ hl
          rw [List.mem_append, List.mem_singleton]
          rintro (hmem | rfl)
          · exact hline hmem
          · exact hd rfl

/-! ## Trimming -/

theorem trimChars_eq (cs : List Char) :
    trimChars cs = (cs.dropWhile isWhitespace).rdropWhile isWhitespace := rfl

theorem rdropWhile_append (hc : isWhitespace c = false) :
    (a ++ c :: b).rdropWhile isWhitespace = a ++ c :: b.rdropWhile isWhitespace := by
  induction b using List.reverseRecOn with
  | nil =>
      rw [List.rdropWhile_concat_neg _ _ _ (by simp [hc])]
      rfl
  | append_singleton b d ih =>
      rw [← List.cons_append, ← List.append_assoc]
      by_cases hd : isWhitespace d = true
      · rw [List.rdropWhile_concat_pos _ _ _ hd, List.rdropWhile_concat_pos _ _ _ hd, ih]
      · rw [List.rdropWhile_concat_neg _ _ _ hd, List.rdropWhile_concat_neg _ _ _ hd]
        simp

theorem trimChars_concat (hc : isWhitespace c = true) (cs : List Char) :
    trimChars (cs ++ [c]) = trimChars cs := by
  rw [trimChars_eq, List.dropWhile_append]
  split
  · next hempty =>
      rw [trimChars_eq, List.isEmpty_iff.1 hempty]
      simp [hc]
  · exact List.rdropWhile_concat_pos _ _ _ hc

theorem trimChars_cons (hc : isWhitespace c = true) (cs : List Char) :
    trimChars (c :: cs) = trimChars cs := by
  rw [trimChars_eq, List.dropWhile_cons_of_pos hc, trimChars_eq]

theorem trimChars_of_white (h : ∀ c ∈ a, isWhitespace c = true) : trimChars a = [] := by
  rw [trimChars_eq, List.dropWhile_eq_nil_iff.2 h]
  rfl

theorem trimChars_eq_nil_iff {cs : List Char} :
    trimChars cs = [] ↔ ∀ c ∈ cs, isWhitespace c = true := by
  constructor
  · intro h
    rw [trimChars_eq, List.rdropWhile_eq_nil_iff] at h
    rw [← List.dropWhile_eq_nil_iff]
    by_contra hne
    have hhead := List.head_dropWhile_not isWhitespace hne
    rw [h _ (List.head_mem hne)] at hhead
    cases hhead
  · exact trimChars_of_white

theorem trimChars_rdropWhile (cs : List Char) :
    trimChars (cs.rdropWhile isWhitespace) = trimChars cs := by
  induction cs using List.reverseRecOn with
  | nil => rfl
  | append_singleton cs c ih =>
      by_cases hc : isWhitespace c = true
      · rw [List.rdropWhile_concat_pos _ _ _ hc, ih, trimChars_concat hc]
      · rw [List.rdropWhile_concat_neg _ _ _ hc]

/-- **A text that begins with a word** keeps it when it is trimmed. -/
theorem trimChars_word {d : Char} (hc : isWhitespace c = false) (hd : isWhitespace d = false) :
    trimChars (c :: (a ++ d :: b)) = c :: (a ++ d :: b.rdropWhile isWhitespace) := by
  rw [trimChars_eq, List.dropWhile_cons_of_neg (by simp [hc]), ← List.cons_append,
    rdropWhile_append hd, List.cons_append]

theorem trimChars_stretch (cs : List Char) : trimChars cs <:+: cs :=
  (List.rdropWhile_prefix isWhitespace _).isInfix.trans
    (List.dropWhile_suffix isWhitespace).isInfix

theorem mem_of_mem_trimChars (h : c ∈ trimChars a) : c ∈ a := (trimChars_stretch a).subset h

/-- A trimmed text is empty, or neither begins nor ends with white space. -/
theorem trimChars_cases (cs : List Char) :
    trimChars cs = [] ∨ (∃ c rest, trimChars cs = c :: rest ∧ isWhitespace c = false) ∧
      ∃ start d, trimChars cs = start ++ [d] ∧ isWhitespace d = false := by
  rcases List.eq_nil_or_concat (trimChars cs) with hnil | ⟨start, d, hend⟩
  · exact .inl hnil
  · right
    rw [List.concat_eq_append] at hend
    have hd : isWhitespace d = false := by
      rw [trimChars_eq] at hend
      have hne : (cs.dropWhile isWhitespace).rdropWhile isWhitespace ≠ [] := by simp [hend]
      simpa [hend] using List.rdropWhile_last_not isWhitespace _ hne
    refine ⟨?_, start, d, hend, hd⟩
    cases hstart : trimChars cs with
    | nil => simp [hstart] at hend
    | cons c rest =>
        refine ⟨c, rest, rfl, ?_⟩
        obtain ⟨tail, htail⟩ := List.rdropWhile_prefix isWhitespace (cs.dropWhile isWhitespace)
        rw [← trimChars_eq, hstart] at htail
        have hne : cs.dropWhile isWhitespace ≠ [] := by simp [← htail]
        have hhead := List.head_dropWhile_not isWhitespace hne
        simpa [← htail] using hhead

theorem trimChars_self {d : Char} {start rest : List Char} (hc : isWhitespace c = false)
    (hd : isWhitespace d = false) (hstart : cs = c :: rest) (hend : cs = start ++ [d]) :
    trimChars cs = cs := by
  rw [trimChars_eq, hstart, List.dropWhile_cons_of_neg (by simp [hc]), ← hstart, hend,
    List.rdropWhile_concat_neg _ _ _ (by simp [hd])]

@[simp] theorem trimChars_trimChars (cs : List Char) : trimChars (trimChars cs) = trimChars cs := by
  rcases trimChars_cases cs with hnil | ⟨⟨c, rest, hstart, hc⟩, start, d, hend, hd⟩
  · rw [hnil]
    rfl
  · exact trimChars_self hc hd hstart hend

theorem trimChars_dropReturn (line : List Char) : trimChars (dropReturn line) = trimChars line := by
  unfold dropReturn
  split
  · next hlast =>
      obtain ⟨start, rfl⟩ := List.getLast?_eq_some_iff.1 hlast
      rw [List.dropLast_concat, trimChars_concat (by decide)]
  · rfl

/-! ## Texts in texts -/

/-- Without a character of the text between them, a text is found in one of two. -/
theorem infix_append_cons {t : List Char} (hc : c ∉ t) (h : t <:+: a ++ c :: b) :
    t <:+: a ∨ t <:+: b := by
  obtain ⟨s, e, h⟩ := h
  rcases List.append_eq_append_iff.1 h with ⟨w, rfl, -⟩ | ⟨w, hstart, hend⟩
  · exact .inl ⟨s, w, rfl⟩
  · cases w with
    | nil =>
        rw [List.append_nil] at hstart
        exact .inl ⟨s, [], by rw [List.append_nil, hstart]⟩
    | cons d w =>
        rw [List.cons_append, List.cons.injEq] at hend
        obtain ⟨rfl, rfl⟩ := hend
        rcases List.append_eq_append_iff.1 hstart with ⟨u, -, rfl⟩ | ⟨u, -, hu⟩
        · exact absurd (List.mem_append_right u List.mem_cons_self) hc
        · cases u with
          | nil =>
              rw [List.nil_append] at hu
              exact absurd (hu ▸ List.mem_cons_self) hc
          | cons d u =>
              rw [List.cons_append, List.cons.injEq] at hu
              obtain ⟨-, rfl⟩ := hu
              exact .inr ⟨u, e, rfl⟩

/-- A text whose first character is not in another is not found in that one. -/
theorem infix_append_of_not_mem {t : List Char} (hc : c ∉ a) (h : c :: t <:+: a ++ b) :
    c :: t <:+: b := by
  induction a with
  | nil => exact h
  | cons d a ih =>
      obtain ⟨hd, ha⟩ := not_or.1 (List.mem_cons.not.1 hc)
      rcases List.infix_cons_iff.1 h with hstart | hlater
      · obtain ⟨rest, hrest⟩ := hstart
        rw [List.cons_append, List.cons.injEq] at hrest
        exact absurd hrest.1 hd
      · exact ih ha hlater

/-- **The first occurrence** of a text that begins with a character which it has nowhere else. -/
theorem splitAtFirst_append {t : List Char} (hc : c ∉ t) (h : ¬ c :: t <:+: a) :
    splitAtFirst (c :: t) (a ++ c :: (t ++ b)) = some (a, c :: (t ++ b)) := by
  induction a with
  | nil =>
      have hstart : (c :: t).isPrefixOf (c :: (t ++ b)) = true :=
        List.isPrefixOf_iff_prefix.2 (List.prefix_append (c :: t) b)
      rw [List.nil_append, splitAtFirst, if_pos hstart]
  | cons d a ih =>
      have hlater : ¬ c :: t <:+: a := fun hin => h (List.infix_cons hin)
      have hstart : ¬ (c :: t).isPrefixOf (d :: (a ++ c :: (t ++ b))) = true := by
        intro hstart
        obtain ⟨rest, hrest⟩ := List.isPrefixOf_iff_prefix.1 hstart
        rw [← List.cons_append] at hrest
        rcases List.append_eq_append_iff.1 hrest with ⟨w, hw, -⟩ | ⟨w, hw, hrest⟩
        · exact h ⟨[], w, by rw [List.nil_append, hw]⟩
        · -- the text would have its first character once more
          cases w with
          | nil =>
              rw [List.append_nil] at hw
              exact h ⟨[], [], by rw [List.nil_append, List.append_nil, hw]⟩
          | cons e w =>
              rw [List.cons_append, List.cons.injEq] at hrest hw
              rw [hw.2, ← hrest.1] at hc
              exact hc (List.mem_append_right a List.mem_cons_self)
      rw [List.cons_append, splitAtFirst, if_neg hstart, ih hlater]
      rfl

end Lines

end Text
end Lib
