import Mathlib.Algebra.Group.Nat.Defs
import Mathlib.Data.List.Basic

/-!
# A writer of MessagePack

The families of the format that records of strings and numbers need.  An array
or a text is preceded by its length, in as few bytes as it takes
(`length_lt_text`), and what is written of a part is written of the whole
(`infix_array`, `infix_entry`).
-/

namespace Lib
namespace MessagePack

/-- The last `k` bytes of a number, the most significant first. -/
def bigEndian (k n : ℕ) : List UInt8 := (List.range k).reverse.map fun i => UInt8.ofNat (n / 256 ^ i)

/-- Nothing. -/
def nil : List UInt8 := [0xc0]

def bool (b : Bool) : List UInt8 := [if b then 0xc3 else 0xc2]

/-- An unsigned number. -/
def uint (n : ℕ) : List UInt8 :=
  if n < 128 then [UInt8.ofNat n]
  else if n < 2 ^ 8 then 0xcc :: bigEndian 1 n
  else if n < 2 ^ 16 then 0xcd :: bigEndian 2 n
  else if n < 2 ^ 32 then 0xce :: bigEndian 4 n
  else 0xcf :: bigEndian 8 n

/-- A number in single precision, by its bits. -/
def float32 (bits : UInt32) : List UInt8 := 0xca :: bigEndian 4 bits.toNat

/-- A number in double precision, by its bits. -/
def float64 (bits : UInt64) : List UInt8 := 0xcb :: bigEndian 8 bits.toNat

/-- What precedes a text of `n` bytes. -/
def textHeader (n : ℕ) : List UInt8 :=
  if n < 32 then [UInt8.ofNat (0xa0 + n)]
  else if n < 2 ^ 8 then 0xd9 :: bigEndian 1 n
  else if n < 2 ^ 16 then 0xda :: bigEndian 2 n
  else 0xdb :: bigEndian 4 n

/-- A text, by its bytes. -/
def text (bytes : List UInt8) : List UInt8 := textHeader bytes.length ++ bytes

/-- What precedes an array of `n` elements. -/
def arrayHeader (n : ℕ) : List UInt8 :=
  if n < 16 then [UInt8.ofNat (0x90 + n)]
  else if n < 2 ^ 16 then 0xdc :: bigEndian 2 n
  else 0xdd :: bigEndian 4 n

/-- An array. -/
def array (elements : List (List UInt8)) : List UInt8 :=
  arrayHeader elements.length ++ elements.flatten

/-- A map with one entry, as the variants of an enumeration are written. -/
def entry (key value : List UInt8) : List UInt8 := 0x81 :: (key ++ value)

theorem textHeader_ne_nil (n : ℕ) : textHeader n ≠ [] := by
  unfold textHeader
  repeat' split
  all_goals simp

/-- **A text takes more bytes than it has.** -/
theorem length_lt_text (bytes : List UInt8) : bytes.length < (text bytes).length := by
  have hpos := List.length_pos_iff.2 (textHeader_ne_nil bytes.length)
  rw [text, List.length_append]
  omega

section Infix

variable {x : List UInt8} {elements : List (List UInt8)}

theorem infix_array {e : List UInt8} (h : e ∈ elements) (hx : x <:+: e) : x <:+: array elements :=
  hx.trans ((List.infix_of_mem_flatten h).trans (List.suffix_append ..).isInfix)

theorem infix_entry {key value : List UInt8} (h : x <:+: value) : x <:+: entry key value :=
  h.trans ((List.suffix_append key value).trans (List.suffix_cons ..)).isInfix

end Infix

end MessagePack
end Lib
