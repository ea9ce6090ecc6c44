import Mathlib.Data.UInt
import Mathlib.Data.Nat.Bitwise
import Mathlib.Tactic.Linarith

/-!
# Machine words: 64-bit unsigned arithmetic

`UInt64` addition and subtraction wrap, which is what a release build does.
This file relates them to the arithmetic of `ℕ`, and names the question a
debug build would ask at every operation: did the exact result fit?

* `satSub` — saturating subtraction.
* `Arith` — one operation with its operands, and `Arith.Exact`, which says
  that it neither wraps nor saturates.
* `leBytes` — the eight little-endian bytes of a word.
-/

namespace Lib
namespace Word

/-- Saturating subtraction: `a - b`, or zero when `b` is the larger. -/
def satSub (a b : UInt64) : UInt64 := if b ≤ a then a - b else 0

/-- One operation on two words. -/
inductive Arith
  | add (a b : UInt64)
  | sub (a b : UInt64)
  | satSub (a b : UInt64)
  deriving DecidableEq, Repr

/-- The operation gives the exact result: the sum fits in 64 bits, the
difference is not negative. -/
def Arith.Exact : Arith → Prop
  | .add a b => a.toNat + b.toNat < 2 ^ 64
  | .sub a b => b ≤ a
  | .satSub a b => b ≤ a

/-- The operation is an addition. -/
def Arith.IsAdd : Arith → Prop
  | .add _ _ => True
  | _ => False

instance : DecidablePred Arith.Exact
  | .add a b => inferInstanceAs (Decidable (a.toNat + b.toNat < 2 ^ 64))
  | .sub a b => inferInstanceAs (Decidable (b ≤ a))
  | .satSub a b => inferInstanceAs (Decidable (b ≤ a))

instance : DecidablePred Arith.IsAdd
  | .add _ _ => isTrue trivial
  | .sub _ _ => isFalse id
  | .satSub _ _ => isFalse id

/-- The little-endian bytes of a word. -/
def leBytes (a : UInt64) : List UInt8 :=
  (List.range 8).map fun i => (a >>> (8 * i).toUInt64).toUInt8

/-! ## Words and natural numbers -/

theorem toNat_add_of_fits {a b : UInt64} (h : a.toNat + b.toNat < 2 ^ 64) :
    (a + b).toNat = a.toNat + b.toNat := by
  rw [UInt64.toNat_add, Nat.mod_eq_of_lt h]

theorem toNat_sub_of_le {a b : UInt64} (h : b ≤ a) : (a - b).toNat = a.toNat - b.toNat :=
  UInt64.toNat_sub_of_le a b h

theorem toNat_le {a b : UInt64} : a ≤ b ↔ a.toNat ≤ b.toNat := UInt64.le_iff_toNat_le

theorem toNat_lt {a b : UInt64} : a < b ↔ a.toNat < b.toNat := UInt64.lt_iff_toNat_lt

theorem toNat_eq {a b : UInt64} : a = b ↔ a.toNat = b.toNat := UInt64.toNat_inj.symm

theorem toNat_satSub (a b : UInt64) : (satSub a b).toNat = a.toNat - b.toNat := by
  unfold satSub
  split
  · rename_i h
    exact toNat_sub_of_le h
  · rename_i h
    rw [toNat_le] at h
    rw [UInt64.toNat_zero]
    omega

theorem toNat_succ {a : UInt64} (h : a.toNat ≠ 2 ^ 64 - 1) : (a + 1).toNat = a.toNat + 1 := by
  have hlt := a.toNat_lt
  have hone : (1 : UInt64).toNat = 1 := rfl
  rw [toNat_add_of_fits] <;> omega

theorem toNat_succ_max {a : UInt64} (h : a.toNat = 2 ^ 64 - 1) : (a + 1).toNat = 0 := by
  rw [UInt64.toNat_add, h]
  rfl

end Word
end Lib

/-!
## Words behind a text

Bytes of any number, and behind them a fixed number of words in eight bytes each.  No length stands
before the bytes, and none is needed: the words are read from the end.

* `leBytes_injective` — a word is told by its bytes.
* `framed_inj` — the bytes and the words are told by what is written.
-/

namespace Lib
namespace Word

/-! ## The bytes of a word -/

@[simp] theorem length_leBytes (a : UInt64) : (leBytes a).length = 8 := by
  simp [leBytes]

theorem toNat_leBytes (a : UInt64) :
    (leBytes a).map UInt8.toNat = (List.range 8).map fun i => a.toNat / 256 ^ i % 256 := by
  rw [leBytes, List.map_map]
  refine List.map_congr_left fun i hi => ?_
  have hi : i < 8 := List.mem_range.1 hi
  have hshift : (8 * i).toUInt64.toNat % 64 = 8 * i := by
    rw [Nat.toUInt64, UInt64.toNat_ofNat', Nat.mod_eq_of_lt (by omega), Nat.mod_eq_of_lt (by omega)]
  have hpow : (2 : ℕ) ^ (8 * i) = 256 ^ i := Nat.pow_mul 2 8 i
  rw [Function.comp_apply, UInt64.toNat_toUInt8, UInt64.toNat_shiftRight, hshift,
    Nat.shiftRight_eq_div_pow, hpow]

theorem eq_of_digits {k n m : ℕ} (hn : n < 256 ^ k) (hm : m < 256 ^ k)
    (h : ∀ i < k, n / 256 ^ i % 256 = m / 256 ^ i % 256) : n = m := by
  induction k generalizing n m with
  | zero =>
      rw [Nat.pow_zero] at hn hm
      omega
  | succ k ih =>
      have hlast := h 0 (Nat.succ_pos k)
      rw [Nat.pow_zero, Nat.div_one, Nat.div_one] at hlast
      rw [Nat.pow_succ] at hn hm
      have hrest : n / 256 = m / 256 := by
        refine ih (by omega) (by omega) fun i hi => ?_
        have hdigit := h (i + 1) (Nat.succ_lt_succ hi)
        rwa [Nat.pow_succ', ← Nat.div_div_eq_div_mul, ← Nat.div_div_eq_div_mul] at hdigit
      omega

/-- **A word is told by its bytes**: they are its digits. -/
theorem leBytes_injective : Function.Injective leBytes := by
  intro a b h
  have hbytes : (leBytes a).map UInt8.toNat = (leBytes b).map UInt8.toNat := congrArg _ h
  rw [toNat_leBytes, toNat_leBytes] at hbytes
  refine toNat_eq.2 (eq_of_digits (k := 8) a.toNat_lt b.toNat_lt fun i hi => ?_)
  exact List.map_inj_left.1 hbytes i (List.mem_range.2 hi)

/-! ## Words behind bytes -/

/-- Some bytes, and some words behind them. -/
def framed (bytes : List UInt8) (words : List UInt64) : List UInt8 :=
  bytes ++ words.flatMap leBytes

theorem framed_concat (bytes : List UInt8) (words : List UInt64) (a : UInt64) :
    framed bytes (words ++ [a]) = framed bytes words ++ leBytes a := by
  simp [framed]

/-- **What is written tells the bytes and the words**, where their number is known. -/
theorem framed_inj {bytes bytes' : List UInt8} {words words' : List UInt64}
    (h : framed bytes words = framed bytes' words') (hlength : words.length = words'.length) :
    bytes = bytes' ∧ words = words' := by
  induction words using List.reverseRecOn generalizing words' with
  | nil =>
      obtain rfl : words' = [] := List.length_eq_zero_iff.1 hlength.symm
      simpa [framed] using h
  | append_singleton words a ih =>
      cases words' using List.reverseRecOn with
      | nil => simp at hlength
      | append_singleton words' b =>
          rw [framed_concat, framed_concat] at h
          have hparts := List.append_inj' h (by simp)
          have hrest : words.length = words'.length := by simpa using hlength
          obtain ⟨hbytes, rfl⟩ := ih hparts.1 hrest
          exact ⟨hbytes, by rw [leBytes_injective hparts.2]⟩

end Word
end Lib

/-!
## Blocks of addresses

A block of addresses is the set of the numbers that agree with its base in all but the
last bits: `base/len` in the usual writing, for addresses of `len` fixed bits.

* `Block.mem_iff` — the numbers of a block are those between its base and its base plus
  its size, if the base has none of the free bits.
* `Block.mem_iff_mask` — what a mask decides is membership.
-/

namespace Lib

/-- The numbers that agree with `base` in all bits but the last `free`. -/
structure Block where
  base : ℕ
  free : ℕ
  deriving DecidableEq

namespace Block

instance : Membership ℕ Block where
  mem b n := n / 2 ^ b.free = b.base / 2 ^ b.free

instance (n : ℕ) (b : Block) : Decidable (n ∈ b) :=
  inferInstanceAs (Decidable (n / 2 ^ b.free = b.base / 2 ^ b.free))

theorem mem_def {n : ℕ} {b : Block} : n ∈ b ↔ n / 2 ^ b.free = b.base / 2 ^ b.free := Iff.rfl

theorem mem_iff {n : ℕ} {b : Block} (hb : 2 ^ b.free ∣ b.base) :
    n ∈ b ↔ b.base ≤ n ∧ n < b.base + 2 ^ b.free := by
  obtain ⟨q, hq⟩ := hb
  have hpos : 0 < 2 ^ b.free := Nat.two_pow_pos _
  rw [mem_def, hq, Nat.mul_div_cancel_left q hpos, Nat.div_eq_iff hpos]
  rw [Nat.mul_comm]
  constructor
  · rintro ⟨h₁, h₂⟩
    exact ⟨h₁, by omega⟩
  · rintro ⟨h₁, h₂⟩
    exact ⟨h₁, by omega⟩

/-- A block whose last `m` bits are all free is a block of what is left without them. -/
theorem mem_shift {n base m k : ℕ} :
    n ∈ (⟨base * 2 ^ m, m + k⟩ : Block) ↔ n / 2 ^ m ∈ (⟨base, k⟩ : Block) := by
  rw [mem_def, mem_def, pow_add, ← Nat.div_div_eq_div_mul, ← Nat.div_div_eq_div_mul,
    Nat.mul_div_cancel _ (Nat.two_pow_pos m)]

theorem and_mask {w free : ℕ} {n : ℕ} (hn : n < 2 ^ w) :
    n &&& (2 ^ w - 2 ^ free) = n / 2 ^ free * 2 ^ free := by
  by_cases hw : w ≤ free
  · have hle : 2 ^ w ≤ 2 ^ free := Nat.pow_le_pow_right (by decide) hw
    rw [Nat.sub_eq_zero_of_le hle, Nat.and_zero, Nat.div_eq_of_lt (hn.trans_le hle), Nat.zero_mul]
  · have hmask : 2 ^ w - 2 ^ free = (2 ^ (w - free) - 1) * 2 ^ free := by
      rw [Nat.sub_mul, ← pow_add, Nat.one_mul]
      congr 2
      omega
    apply Nat.eq_of_testBit_eq
    intro i
    rw [Nat.testBit_and, hmask, Nat.testBit_mul_two_pow, Nat.testBit_mul_two_pow,
      Nat.testBit_two_pow_sub_one, Nat.testBit_div_two_pow]
    by_cases hi : free ≤ i
    · rw [Nat.sub_add_cancel hi]
      by_cases hi' : i < w
      · have hlt : i - free < w - free := by omega
        simp [hi, hlt]
      · have hle : 2 ^ w ≤ 2 ^ i := Nat.pow_le_pow_right (by decide) (by omega)
        rw [Nat.testBit_lt_two_pow (hn.trans_le hle)]
        simp
    · simp [hi]

/-- A mask that keeps all but the last bits decides membership in an aligned block. -/
theorem mem_iff_mask {w n : ℕ} {b : Block} (hb : 2 ^ b.free ∣ b.base) (hn : n < 2 ^ w) :
    n ∈ b ↔ n &&& (2 ^ w - 2 ^ b.free) = b.base := by
  obtain ⟨q, hq⟩ := hb
  have hpos : 0 < 2 ^ b.free := Nat.two_pow_pos _
  rw [and_mask hn, mem_def, hq, Nat.mul_div_cancel_left q hpos, Nat.mul_comm (2 ^ b.free) q]
  constructor
  · intro h
    rw [h]
  · intro h
    exact Nat.eq_of_mul_eq_mul_right hpos h

end Block

end Lib
