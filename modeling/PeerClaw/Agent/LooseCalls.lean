import PeerClaw.Agent.ToolCalls
import PeerClaw.Lib.Patterns

/-!
# Tool calls in other forms

Models do not always write tool calls the way they are asked to.  When there is no block
with a call in a text, `agent/runtime.rs` looks for a few other forms, with regular
expressions.

* `reInlineToolCall`, … — the expressions.
* `parseInlineToolCalls`, `parseLooseJsonToolTags` — the calls in two of the forms.
* `parseToolCalls` — the calls of a text.
-/

namespace PeerClaw

open Lib JsonReader

/-! ## The expressions -/

section Expressions

open Pattern

/-- `\s` -/
def isSpace : Char → Bool := Text.isWhitespace

/-- `.`, which takes line feeds too. -/
def anyChar (_ : Char) : Bool := true

/-- A class of all characters but one. -/
def notChar (c d : Char) : Bool := d ≠ c

/-- `(?is)<web_fetch>\s*(.*?)</web_fetch>` -/
def reWebFetchBlock : Pattern :=
  all [caseless "<web_fetch>", star isSpace, group 1 (lazyStar anyChar), caseless "</web_fetch>"]

/-- `(?i)url\s*:\s*"([^"]+)"|url\s*:\s*'([^']+)'|(https?://[^\s"'<>]+)` -/
def reUrlInLooseInner : Pattern :=
  alt (all [caseless "url", star isSpace, text ":", star isSpace, text "\"",
      group 1 (plus (notChar '"')), text "\""])
    (alt (all [caseless "url", star isSpace, text ":", star isSpace, text "'",
        group 2 (plus (notChar '\'')), text "'"])
      (group 3 (all [caseless "http", alt (caseless "s") empty, text "://",
        plus fun c => !isSpace c && c ≠ '"' && c ≠ '\'' && c ≠ '<' && c ≠ '>'])))

/-- `(?is)<job_status\s+[^>]*?job_id\s*=\s*"([^"]+)"[^>]*>` -/
def reJobStatusOpen : Pattern :=
  all [caseless "<job_status", plus isSpace, lazyStar (notChar '>'), caseless "job_id", star isSpace,
    text "=", star isSpace, text "\"", group 1 (plus (notChar '"')), text "\"", star (notChar '>'),
    text ">"]

/-- `(?is)<json\s+([^>]+)>` -/
def reLooseJsonToolOpen : Pattern :=
  all [caseless "<json", plus isSpace, group 1 (plus (notChar '>')), text ">"]

/-- `(?i)action\s*=\s*"([^"]*)"`, and the same for another name. -/
def reAttribute (name : String) : Pattern :=
  all [caseless name, star isSpace, text "=", star isSpace, text "\"", group 1 (star (notChar '"')),
    text "\""]

variable (isWord : Char → Bool)

/-- An object on one line: `(\{[^\n]*\})` -/
def objectOnLine (n : ℕ) : Pattern :=
  group n (all [text "\x7b", star (notChar '\n'), text "\x7d"])

/-- `(?m)^(?:\s*name:\s*(\w+)\s*\n\s*args:\s*(\{[^\n]*\}))` -/
def reInlineLines : Pattern :=
  all [lineStart, star isSpace, text "name:", star isSpace, group 1 (plus isWord), star isSpace, text "\n",
    star isSpace, text "args:", star isSpace, objectOnLine 2]

/-- `(?:\s*name:\s*(\w+)\s+args:\s*(\{[^\n]*\}))` -/
def reInlineOneLine : Pattern :=
  all [star isSpace, text "name:", star isSpace, group 3 (plus isWord), plus isSpace, text "args:",
    star isSpace, objectOnLine 4]

/-- The first of these two, or else the second. -/
def reInlineToolCall : Pattern := alt (reInlineLines isWord) (reInlineOneLine isWord)

/-- `([\w]+(?:[_:][\w]+)+)\s+args:\s*(\{[^\n]*\})` -/
def reBareToolCall : Pattern :=
  let part := seq (char fun c => c = '_' || c = ':') (plus isWord)
  all [group 1 (all [plus isWord, part, many true part]), plus isSpace, text "args:", star isSpace,
    objectOnLine 2]

end Expressions

/-! ## The attributes of a tag -/

/-- What comes from the first occurrence of a text on, in upper or lower case. -/
def findCaseInsensitive (needle : List Char) : List Char → Option (List Char)
  | [] => if needle.isEmpty then some [] else none
  | c :: cs =>
      if ((c :: cs).take needle.length).map Char.toLower = needle.map Char.toLower then some (c :: cs)
      else findCaseInsensitive needle cs

/-- White space in ASCII. -/
def isAsciiWhitespace (c : Char) : Bool :=
  c = ' ' || c = '\t' || c = '\n' || c = '\x0c' || c = '\r'

/-- The text up to the next quote that has no backslash before it. -/
def quotedText : List Char → Option (List Char)
  | [] => none
  | '\\' :: c :: cs => (quotedText cs).map fun text => '\\' :: c :: text
  | c :: cs => if c = '"' then some [] else (quotedText cs).map fun text => c :: text

/-- The text up to where as many braces are closed as are open. -/
def bracedText : ℕ → List Char → Option (List Char)
  | _, [] => none
  | depth, c :: cs =>
      if c = '\x7b' then (bracedText (depth + 1) cs).map fun text => c :: text
      else if c = '\x7d' then
        if depth - 1 = 0 then some [c] else (bracedText (depth - 1) cs).map fun text => c :: text
      else (bracedText depth cs).map fun text => c :: text

section Loose

variable (number : List Char → Option Number) (isWord : Char → Bool)

/-- The value of `input`: a text or an object. -/
def inputValue (attrs : List Char) : Option Value :=
  match attrs.dropWhile isAsciiWhitespace with
  | [] => none
  | c :: cs =>
      if c = '"' then (quotedText cs).map fun text => .string (String.ofList text)
      else if c = '\x7b' then (bracedText 0 (c :: cs)).bind (readChars number)
      else none

/-- What the first match of a group in a text is. -/
def firstGroup (re : Pattern) (n : ℕ) (text : List Char) : Option (List Char) :=
  (re.captures text).head?.bind fun caps => caps.get n

/-- `json_tag_attrs_to_tool_args`. -/
def jsonTagAttrsToToolArgs (attrs : List Char) : Option Value :=
  match firstGroup (reAttribute "action") 1 attrs with
  | none => none
  | some group =>
      let action := String.ofList group
      if action ∉ ["parse", "format", "query", "validate"] then none
      else
        (findCaseInsensitive "input=".toList attrs).bind fun found =>
          (inputValue number (found.drop "input=".length)).map fun input =>
            let query := if action = "query" then
              (firstGroup (reAttribute "query") 1 attrs).filter (· ≠ []) else none
            .ofFields ([("action", .string action), ("input", input)] ++
              query.toList.map fun q => ("query", .string (String.ofList q)))

/-! ## The calls -/

/-- `parse_loose_json_tool_tags`. -/
def parseLooseJsonToolTags (text : List Char) : List ParsedToolCall :=
  (reLooseJsonToolOpen.captures text).filterMap fun caps =>
    (caps.get 1).bind fun attrs =>
      (jsonTagAttrsToToolArgs number attrs).map fun args => ⟨"json", args⟩

/-- A call with a name and arguments that are a document. -/
def namedCall (name args : Option (List Char)) : Option ParsedToolCall :=
  name.bind fun n => args.bind fun a =>
    (readChars number a).map fun args => ⟨String.ofList n, args⟩

/-- `parse_inline_tool_calls`. -/
def parseInlineToolCalls (text : List Char) : List ParsedToolCall :=
  let calls := ((reInlineToolCall isWord).captures text).filterMap fun caps =>
    namedCall number ((caps.get 1).or (caps.get 3)) ((caps.get 2).or (caps.get 4))
  if calls.isEmpty then
    ((reBareToolCall isWord).captures text).filterMap fun caps =>
      namedCall number (caps.get 1) (caps.get 2)
  else calls

/-- `extract_url_from_loose_fetch_inner`. -/
def extractUrlFromLooseFetchInner (inner : List Char) : Option (List Char) :=
  (reUrlInLooseInner.captures inner).head?.bind fun caps =>
    ((caps.get 1).or (caps.get 2)).or (caps.get 3)

/-- The calls of `<web_fetch>` blocks. -/
def looseFetchCalls (text : List Char) : List ParsedToolCall :=
  (reWebFetchBlock.captures text).filterMap fun caps =>
    (extractUrlFromLooseFetchInner (Text.trimChars ((caps.get 1).getD []))).map fun url =>
      ⟨"web_fetch", .ofFields [("url", .string (String.ofList url))]⟩

/-- The calls of `<job_status>` tags. -/
def looseJobStatusCalls (text : List Char) : List ParsedToolCall :=
  (reJobStatusOpen.captures text).filterMap fun caps =>
    (caps.get 1).map fun jid =>
      ⟨"job_status", .ofFields [("job_id", .string (String.ofList jid))]⟩

/-- `parse_loose_tool_markup`. -/
def parseLooseToolMarkup (text : List Char) : List ParsedToolCall :=
  let calls := parseInlineToolCalls number isWord text
  if calls.isEmpty then
    parseLooseJsonToolTags number text ++ looseFetchCalls text ++ looseJobStatusCalls text
  else calls

/-- `parse_tool_calls`. -/
def parseToolCalls (text : List Char) : List ParsedToolCall :=
  let standard := parseStandardToolCalls number (String.ofList text)
  if standard.isEmpty then parseLooseToolMarkup number isWord text else standard

end Loose

end PeerClaw
