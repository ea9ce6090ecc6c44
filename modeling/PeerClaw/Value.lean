import PeerClaw.Lib.Text
import Mathlib.Data.String.Basic

/-!
# JSON values

`serde_json::Value`, without the feature that keeps the fields of an object in
the order in which they were written: an object has its fields in the order of
their names.  `render` is how a value is displayed, which is compact JSON.
-/

namespace PeerClaw

open Lib

/-- A JSON number. -/
inductive Number
  | posInt (n : UInt64)
  | negInt (n : Int64)
  /-- A floating-point number, by the shortest text that reads back as it. -/
  | float (text : String)
  deriving DecidableEq

/-- A JSON value. -/
inductive Value
  | null
  | bool (b : Bool)
  | number (n : Number)
  | string (s : String)
  | array (values : List Value)
  | object (fields : List (String × Value))

/-- Fields with their names, in the order of the names. -/
abbrev Fields := List (String × Value)

namespace Fields

/-- Set a field. -/
def insert (name : String) (v : Value) : Fields → Fields
  | [] => [(name, v)]
  | (name', v') :: fields =>
      if name < name' then (name, v) :: (name', v') :: fields
      else if name = name' then (name, v) :: fields
      else (name', v') :: insert name v fields

/-- The value of a field. -/
def get? (fields : Fields) (name : String) : Option Value :=
  (fields.find? fun field => field.1 = name).map Prod.snd

/-- Set some fields, the later over the earlier. -/
def insertAll (fields : Fields) (new : List (String × Value)) : Fields :=
  new.foldl (fun fields field => insert field.1 field.2 fields) fields

theorem get?_insert_self (fields : Fields) (name : String) (v : Value) :
    (fields.insert name v).get? name = some v := by
  induction fields with
  | nil => simp [insert, get?]
  | cons field fields ih =>
      obtain ⟨name', v'⟩ := field
      rw [insert]
      split
      · simp [get?]
      · split
        · simp [get?]
        · rename_i hne
          rw [← ih, get?, List.find?_cons_of_neg (by simpa using Ne.symm hne), get?]

theorem get?_insert_of_ne (fields : Fields) {name name' : String} (h : name' ≠ name) (v : Value) :
    (fields.insert name v).get? name' = fields.get? name' := by
  induction fields with
  | nil => simp [insert, get?, Ne.symm h]
  | cons field fields ih =>
      obtain ⟨other, v'⟩ := field
      simp only [get?] at ih ⊢
      rw [insert]
      split
      · rw [List.find?_cons_of_neg (by simpa using Ne.symm h)]
      · split
        · next heq => simp [← heq, Ne.symm h]
        · by_cases hother : other = name'
          · simp [hother]
          · rw [List.find?_cons_of_neg (by simpa using hother), ih,
              List.find?_cons_of_neg (by simpa using hother)]

end Fields

namespace Value

/-- An object with these fields, as `json!` builds it. -/
def ofFields (fields : List (String × Value)) : Value := .object (Fields.insertAll [] fields)

/-- An unsigned number. -/
def nat (n : UInt64) : Value := .number (.posInt n)

/-- An array of texts. -/
def texts (ts : List String) : Value := .array (ts.map .string)

/-- The fields of an object. -/
def asObject : Value → Option Fields
  | .object fields => some fields
  | _ => none

/-- The text of a string. -/
def asStr : Value → Option String
  | .string s => some s
  | _ => none

/-- The value of a field of an object. -/
def get? (v : Value) (name : String) : Option Value := v.asObject.bind fun fields => fields.get? name

theorem get?_ofFields_concat (fields : List (String × Value)) (name : String) (v : Value) :
    (ofFields (fields ++ [(name, v)])).get? name = some v := by
  have hlast : Fields.insertAll [] (fields ++ [(name, v)]) =
      (Fields.insertAll [] fields).insert name v := by
    simp [Fields.insertAll]
  rw [get?, ofFields, hlast]
  exact Fields.get?_insert_self _ name v

/-! ## Display -/

/-- A digit of a control character, in hexadecimal. -/
def hexDigitOf (d : ℕ) : Char := if d < 10 then Char.ofNat (48 + d) else Char.ofNat (87 + d)

/-- A character inside the quotes of a string. -/
def escapeChar (c : Char) : List Char :=
  if c = '"' then ['\\', '"']
  else if c = '\\' then ['\\', '\\']
  else if c.val = 0x08 then ['\\', 'b']
  else if c.val = 0x09 then ['\\', 't']
  else if c.val = 0x0A then ['\\', 'n']
  else if c.val = 0x0C then ['\\', 'f']
  else if c.val = 0x0D then ['\\', 'r']
  else if c.val < 0x20 then
    ['\\', 'u', '0', '0', hexDigitOf (c.toNat / 16), hexDigitOf (c.toNat % 16)]
  else [c]

/-- A string in its quotes. -/
def quote (s : String) : String := String.ofList (['"'] ++ s.toList.flatMap escapeChar ++ ['"'])

/-- How a number is displayed. -/
def renderNumber : Number → String
  | .posInt n => toString n.toNat
  | .negInt n => toString n.toInt
  | .float text => text

mutual

/-- How a value is displayed. -/
def render : Value → String
  | .null => "null"
  | .bool b => if b then "true" else "false"
  | .number n => renderNumber n
  | .string s => quote s
  | .array values => "[" ++ Text.join "," (renderAll values) ++ "]"
  | .object fields => "\x7b" ++ Text.join "," (renderFields fields) ++ "\x7d"

/-- How the elements of an array are displayed. -/
def renderAll : List Value → List String
  | [] => []
  | v :: values => render v :: renderAll values

/-- How the fields of an object are displayed. -/
def renderFields : List (String × Value) → List String
  | [] => []
  | (name, v) :: fields => (quote name ++ ":" ++ render v) :: renderFields fields

end

example : (ofFields [("text", .string "a\"b"), ("n", nat 3)]).render =
    "\x7b\"n\":3,\"text\":\"a\\\"b\"\x7d" := by decide

end Value

end PeerClaw
