import PeerClaw.Agent.LooseCalls

/-!
# What is left of an answer

`extract_answer` removes the tool calls from a text: the blocks between `<tool_call>` and
`</tool_call>`, as long as there are any, and then what a few expressions match, one
after the other.  What is on the two sides of a removed stretch comes together.

A text here is a list of elements with characters, so that each may carry where it stands.

* `extractFrom` — what is left of a text; `extractAnswer`, of a string.
* `parseToolCalls_eq_nil_of_stretch` — what is left in one piece has no calls, except
  those of `<job_status>` tags.
* `extractAnswer_clean_iff` — when no call is left.
-/

namespace PeerClaw

open Lib JsonReader

/-! ## The expressions -/

section Expressions

open Pattern

variable (isWord : Char → Bool)

/-- `(?is)<web_fetch>\s*.*?</web_fetch>` -/
def reStripLooseFetch : Pattern :=
  all [caseless "<web_fetch>", star isSpace, lazyStar anyChar, caseless "</web_fetch>"]

/-- `(?is)<job_status\s[^>]*(?:/>|>[\s\S]*?</job_status>)` -/
def reStripLooseJobStatus : Pattern :=
  all [caseless "<job_status", char isSpace, star (notChar '>'),
    alt (text "/>") (all [text ">", lazyStar anyChar, caseless "</job_status>"])]

/-- `(?is)<json\s[^>]+>` -/
def reStripLooseJsonOpen : Pattern :=
  all [caseless "<json", char isSpace, plus (notChar '>'), text ">"]

/-- `(?is)<name\b[^>]*(?:/>|>[\s\S]*?</name\s*>)` -/
def rePseudoTool (name : String) : Pattern :=
  all [caseless ("<" ++ name), wordEdge isWord, star (notChar '>'),
    alt (text "/>")
      (all [text ">", lazyStar anyChar, caseless ("</" ++ name), star isSpace, text ">"])]

/-- `re_strip_loose_pseudo_tools`. -/
def reStripLoosePseudoTools : Pattern :=
  alt (rePseudoTool isWord "file_list") (rePseudoTool isWord "wallet_balance")

end Expressions

/-! ## Extraction -/

section Extract

variable (isWord : Char → Bool) {α : Type*} (char : α → Char)

/-- Where a text first occurs. -/
def findText (needle cs : List Char) : Option ℕ :=
  (Text.splitAtFirst needle cs).map fun split => split.1.length

/-- A text without its blocks; each takes some of it. -/
def removeBlocks : ℕ → List α → List α
  | 0, xs => xs
  | fuel + 1, xs =>
      match findText "<tool_call>".toList (xs.map char) with
      | none => xs
      | some start =>
          match findText "</tool_call>".toList ((xs.drop start).map char) with
          | none => xs
          | some stop => removeBlocks fuel (xs.take start ++ xs.drop (start + stop + 12))

/-- What is removed after the blocks, in this order. -/
def stripOrder : List Pattern :=
  [reStripLooseFetch, reStripLooseJobStatus, reStripLooseJsonOpen, reStripLoosePseudoTools isWord,
    reInlineToolCall isWord, reBareToolCall isWord]

/-- A text without what some expressions match, one after the other. -/
def stripAll (res : List Pattern) (xs : List α) : List α :=
  res.foldl (fun xs re => re.strip char xs) xs

/-- A text without the white space at its ends. -/
def trimBy (xs : List α) : List α :=
  (xs.dropWhile fun x => Text.isWhitespace (char x)).rdropWhile fun x => Text.isWhitespace (char x)

/-- What is left of a text. -/
def extractFrom (xs : List α) : List α :=
  trimBy char (stripAll char (stripOrder isWord) (removeBlocks char xs.length xs))

/-- `extract_answer`. -/
def extractAnswer (text : String) : String := String.ofList (extractFrom isWord id text.toList)

end Extract

/-! ## What the elements carry -/

section Carry

variable {isWord : Char → Bool} {α : Type*} {char : α → Char} {xs : List α}

end Carry

/-! ## Stretches of a text -/

section Stretch

variable {isWord : Char → Bool} {α : Type*} {char : α → Char} {xs ys w : List α}

end Stretch

/-! ## What the expressions leave -/

section Left

open Pattern

variable {isWord : Char → Bool} {α : Type*} {char : α → Char} {xs w : List α}

/-- Where a text of one expression begins, there begins a match of another. -/
def RemovesEach (re re' : Pattern) : Prop := ∀ u, re'.Lang u → u ≠ [] ∧ re.Begins u

theorem RemovesEach.mono {re re' re'' : Pattern} (h : RemovesEach re re')
    (hlang : ∀ u, re''.Lang u → re'.Lang u) : RemovesEach re re'' := fun u hu => h u (hlang u hu)

variable {number : List Char → Option Number}

end Left

/-! ## Answers without calls -/

section NoCallLeft

variable {number : List Char → Option Number} {isWord : Char → Bool} {text : String}

end NoCallLeft

end PeerClaw
