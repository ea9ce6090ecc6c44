import PeerClaw.Agent.Compaction
import PeerClaw.Executor.Payload
import PeerClaw.Lib.Boundary

/-!
# Outputs of tools that are cut

Four tools cut a text at a fixed number of bytes: the output of a command, the text of a
PDF file, the page that a browser dumps, and what is quoted when a patch does not apply.
None of them looks for the beginning of a character first.

* `truncateOutput`, `pdfText`, `dumpedDom`, `findNearbyText` — the texts; there is none
  where the cut panics.
* `isSome_truncateOutput_iff` and so on — when there is one.
-/

namespace PeerClaw

open Lib

/-! ## Commands -/

/-- `truncate_output` of the shell: the beginning of the output, up to its last line feed if it has
one. -/
def truncateOutput (bytes : List UInt8) (maxSize : ℕ) : Option (List Char) :=
  let s := (fromUtf8Lossy bytes).toList
  if maxSize < Text.byteLen s then
    (Text.takeBytes maxSize s).map fun truncated =>
      (beforeLast '\n' truncated).getD truncated ++
        ("...\n[truncated, " ++ toString bytes.length ++ " bytes total]").toList
  else some s

theorem isSome_truncateOutput_iff (bytes : List UInt8) (maxSize : ℕ) :
    (truncateOutput bytes maxSize).isSome ↔ Text.CutsAt maxSize (fromUtf8Lossy bytes).toList :=
  Text.isSome_cut_iff _ _

/-! ## Files -/

/-- `MAX_TEXT_LENGTH` of the PDF tool. -/
def pdfMaxTextLength : ℕ := 200000

/-- The text of a PDF file, cut after its last complete line. -/
def pdfText (text : List Char) : Option (List Char) :=
  if pdfMaxTextLength < Text.byteLen text then
    (Text.takeBytes pdfMaxTextLength text).map fun t =>
      (beforeLast '\n' t).getD t ++ "\n...[truncated]".toList
  else some text

theorem isSome_pdfText_iff (text : List Char) :
    (pdfText text).isSome ↔ Text.CutsAt pdfMaxTextLength text :=
  Text.isSome_cut_iff _ _

/-- `MAX_DOM_SIZE` of the browser. -/
def maxDomSize : ℕ := 10 * 1024 * 1024

/-- The page that Chrome puts out. -/
def dumpedDom (stdout : List UInt8) : Option (List Char) :=
  let dom := (fromUtf8Lossy stdout).toList
  if maxDomSize < Text.byteLen dom then (Text.takeBytes maxDomSize dom).map id else some dom

theorem isSome_dumpedDom_iff (stdout : List UInt8) :
    (dumpedDom stdout).isSome ↔ Text.CutsAt maxDomSize (fromUtf8Lossy stdout).toList :=
  Text.isSome_cut_iff _ _

/-! ## Patches -/

/-- The first line of a text, without what ends it. -/
def firstLine (text : List Char) : List Char :=
  let line := text.takeWhile (· ≠ '\n')
  if '\n' ∈ text ∧ line.getLast? = some '\r' then line.dropLast else line

/-- What is searched for when a text is not found: its first line, at most 40 bytes of it. -/
def searchTerm (oldText : List Char) : Option (List Char) :=
  if 40 < Text.byteLen (firstLine oldText) then
    (Text.takeBytes 40 (firstLine oldText)).map id
  else some (firstLine oldText)

/-- The line in which a match is, and the next one. -/
def nearbyLines (before rest : List Char) : List Char :=
  (before.reverse.takeWhile (· ≠ '\n')).reverse ++ rest.takeWhile (· ≠ '\n') ++
    match rest.dropWhile (· ≠ '\n') with
    | [] => []
    | newline :: after => newline :: after.takeWhile (· ≠ '\n')

/-- `find_nearby_text`: what is said when the text to replace is not in the file. -/
def findNearbyText (content oldText : List Char) : Option (List Char) :=
  (searchTerm oldText).bind fun term =>
    match Text.splitAtFirst (Text.trimChars term) content with
    | some (before, rest) =>
        some (("Partial match found near byte " ++ toString (Text.byteLen before) ++
          ". Nearby text:\n").toList ++ nearbyLines before rest)
    | none =>
        let previewLen := min (Text.byteLen content) 200
        (Text.takeBytes previewLen content).map fun preview =>
          ("No partial match found. File has " ++ toString (Text.byteLen content) ++
            " bytes. First " ++ toString previewLen ++ " chars:\n").toList ++ preview

/-- The term that is searched for is in the file. -/
def FoundNearby (content oldText : List Char) : Prop :=
  ∃ term, searchTerm oldText = some term ∧
    (Text.splitAtFirst (Text.trimChars term) content).isSome

theorem isSome_findNearbyText_iff (content oldText : List Char) :
    (findNearbyText content oldText).isSome ↔
      Text.CutsAt 40 (firstLine oldText) ∧
        (FoundNearby content oldText ∨ Text.CutsAt 200 content) := by
  have hterm : (searchTerm oldText).isSome ↔ Text.CutsAt 40 (firstLine oldText) :=
    Text.isSome_cut_iff _ _
  rw [← hterm, findNearbyText, FoundNearby]
  cases searchTerm oldText with
  | none => simp
  | some term =>
      have hpreview := @Text.isSome_takeBytes_min_iff 200 content
      cases hfound : Text.splitAtFirst (Text.trimChars term) content with
      | none => simp [hfound, hpreview]
      | some found => simp [hfound]

end PeerClaw
