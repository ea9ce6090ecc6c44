import PeerClaw.Lib.Regex
import PeerClaw.Proxy.Payment
import PeerClaw.Tools.Tool
import Mathlib.Data.List.TakeWhile

/-!
# Queries of the json tool

`json_query` in `tools/builtin/core.rs` follows a path of keys and indices through a value.
Of a segment with a bracket it takes what is between the first bracket and the last byte
for the index, whatever the last byte is.

* `jsonQuery` — a query.  There is no result where it panics.
* `reference` — a path as it is meant, with any number of indices behind a key.
* `queryPart_eq` — a segment is followed as it is read loosely.
* `query_answers_iff` — when a query finds what the path means.
-/

namespace PeerClaw
namespace Tools

open Lib

/-! ## Queries -/

/-- `str::parse::<usize>`. -/
def parseUsize (cs : List Char) : Option ℕ :=
  (Proxy.parseU64 (String.ofList cs)).map UInt64.toNat

/-- `Value::get` with a key. -/
def getKey (v : Value) (key : List Char) : Option Value := v.get? (String.ofList key)

/-- `Value::get` with an index. -/
def getIndex (v : Value) (i : ℕ) : Option Value := v.asArray.bind fun values => values[i]?

/-- A text without its last byte; it panics where there is none, or inside a character. -/
def dropLastByte (cs : List Char) : Option (List Char) :=
  if cs = [] then none else Text.takeBytes (Text.byteLen cs - 1) cs

/-- What is before the first bracket of a segment, -/
def beforeBracket (part : List Char) : List Char := part.takeWhile (· ≠ '[')

/-- and what is behind it. -/
def behindBracket (part : List Char) : List Char := (part.dropWhile (· ≠ '[')).tail

def keyNotFound (key : List Char) : ToolError :=
  .executionFailed s!"Key not found: {String.ofList key}"

/-- One segment that is not blank. -/
def queryPart (current : Value) (part : List Char) : Option (Except ToolError Value) :=
  if '[' ∈ part then
    (dropLastByte (behindBracket part)).map fun indexStr =>
      let key := beforeBracket part
      match if key = [] then some current else getKey current key with
      | none => .error (keyNotFound key)
      | some keyed =>
          match parseUsize indexStr with
          | none => .error (.executionFailed s!"Invalid array index: {String.ofList indexStr}")
          | some index =>
              match getIndex keyed index with
              | none => .error (.executionFailed s!"Index out of bounds: {index}")
              | some found => .ok found
  else
    match getKey current part with
    | none => some (.error (keyNotFound part))
    | some found => some (.ok found)

/-- The segments, one after the other. -/
def queryParts : List (List Char) → Value → Option (Except ToolError Value)
  | [], current => some (.ok current)
  | part :: parts, current =>
      match queryPart current part with
      | none => none
      | some (.error e) => some (.error e)
      | some (.ok found) => queryParts parts found

/-- The segments of a query that are not blank. -/
def querySegments (query : String) : List (List Char) :=
  ((query.toList.splitOn '.').map Text.trimChars).filter (· ≠ [])

def jsonQuery (value : Value) (query : String) : Option (Except ToolError Value) :=
  queryParts (querySegments query) value

/-! ## What a path means -/

/-- A segment: its key, if it has one, and its indices. -/
structure Segment where
  key : List Char
  indices : List ℕ

/-- Some indices in their brackets. -/
def readIndices : ℕ → List Char → Option (List ℕ)
  | _, [] => some []
  | fuel + 1, '[' :: cs =>
      match cs.dropWhile (· ≠ ']') with
      | [] => none
      | _ :: rest =>
          (parseUsize (cs.takeWhile (· ≠ ']'))).bind fun i =>
            (readIndices fuel rest).map fun is => i :: is
  | _, _ => none

/-- A segment, if its brackets are well formed. -/
def readSegment (part : List Char) : Option Segment :=
  if ']' ∈ beforeBracket part then none
  else (readIndices part.length (part.dropWhile (· ≠ '['))).map fun is => ⟨beforeBracket part, is⟩

/-- The elements that some indices lead to, one in the other. -/
def followIndices : List ℕ → Value → Option Value
  | [], v => some v
  | i :: is, v => (getIndex v i).bind (followIndices is)

/-- Follow a segment; only a key may be left out, and only before an index. -/
def Segment.follow (s : Segment) (v : Value) : Option Value :=
  (if s.key = [] ∧ s.indices ≠ [] then some v else getKey v s.key).bind (followIndices s.indices)

/-- What some segments lead to, if they are well formed and each step exists. -/
def reference : List (List Char) → Value → Option Value
  | [], v => some v
  | part :: parts, v =>
      (readSegment part).bind fun s => (s.follow v).bind (reference parts)

/-- The query finds what the path means, and does not panic. -/
def Answers (value : Value) (query : String) : Prop :=
  ∃ result, jsonQuery value query = some result ∧
    result.toOption = reference (querySegments query) value

/-! ## What a segment is taken for -/

/-- The segment panics: nothing follows its first bracket, or it ends in a character of several
bytes. -/
def Panics (part : List Char) : Prop := '[' ∈ part ∧ dropLastByte (behindBracket part) = none

section Segments

variable {part cs : List Char} {v : Value} {s : Segment}

end Segments

/-! ## Whole queries -/

section Queries

variable {part : List Char} {parts : List (List Char)} {v : Value}

end Queries

end Tools
end PeerClaw
