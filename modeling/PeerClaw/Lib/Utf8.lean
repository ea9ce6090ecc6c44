import Mathlib.Data.List.Basic

/-!
# Lossy decoding of UTF-8

Bytes are decoded character by character; where they are not UTF-8, the longest
part that could have begun a character is replaced by U+FFFD.

* `decodeLossy_encode` — what was encoded is decoded again.
* `length_le_encode_decodeLossy` — replacing never makes a text shorter: what is
  decoded, encoded again, has at least as many bytes.
* `decode?` — decoding that fails where bytes are not UTF-8.
-/

namespace Lib
namespace Utf8

/-- The bytes of a text. -/
def encode (cs : List Char) : List UInt8 := cs.flatMap String.utf8EncodeChar

/-- The first character of the bytes, if they begin with one. -/
def decodeChar? (bytes : List UInt8) : Option Char := bytes.toByteArray.utf8DecodeChar? 0

/-- A continuation byte. -/
def isTail (b : UInt8) : Bool := 0x80 ≤ b && b ≤ 0xBF

/-- The second byte of a character of three or four bytes, after the first. -/
def isSecond (a b : UInt8) : Bool :=
  if a = 0xE0 then 0xA0 ≤ b && b ≤ 0xBF
  else if a = 0xED then 0x80 ≤ b && b ≤ 0x9F
  else if 0xE1 ≤ a && a ≤ 0xEF then isTail b
  else if a = 0xF0 then 0x90 ≤ b && b ≤ 0xBF
  else if 0xF1 ≤ a && a ≤ 0xF3 then isTail b
  else if a = 0xF4 then 0x80 ≤ b && b ≤ 0x8F
  else false

/-- How many bytes to replace, where they begin with no character. -/
def subpart : List UInt8 → ℕ
  | a :: b :: c :: _ => if isSecond a b then if 0xF0 ≤ a && isTail c then 3 else 2 else 1
  | [a, b] => if isSecond a b then 2 else 1
  | _ => 1

/-- U+FFFD. -/
def replacement : Char := Char.ofNat 0xFFFD

/-- Decode with some fuel. -/
def decodeFrom : ℕ → List UInt8 → List Char
  | 0, _ => []
  | _ + 1, [] => []
  | fuel + 1, b :: bytes =>
      match decodeChar? (b :: bytes) with
      | some c => c :: decodeFrom fuel ((b :: bytes).drop c.utf8Size)
      | none => replacement :: decodeFrom fuel ((b :: bytes).drop (subpart (b :: bytes)))

/-- Decode; each step takes at least one byte. -/
def decodeLossy (bytes : List UInt8) : List Char := decodeFrom bytes.length bytes

/-! ## One character -/

section Char

variable {bytes : List UInt8} {c : Char}

theorem decodeChar?_encode (c : Char) (rest : List UInt8) :
    decodeChar? (String.utf8EncodeChar c ++ rest) = some c := by
  unfold decodeChar?
  rw [List.toByteArray_append]
  exact ByteArray.utf8DecodeChar?_utf8EncodeChar_append

theorem eq_of_decodeChar? (h : decodeChar? bytes = some c) :
    ∃ rest, bytes = String.utf8EncodeChar c ++ rest := by
  obtain ⟨rest, hrest⟩ := ByteArray.exists_of_utf8DecodeChar?_eq_some h
  refine ⟨rest.data.toList, ?_⟩
  have hlist := congrArg (fun b : ByteArray => b.data.toList) hrest
  simpa using hlist

theorem drop_encodeChar (c : Char) (rest : List UInt8) :
    (String.utf8EncodeChar c ++ rest).drop c.utf8Size = rest := by
  rw [← String.length_utf8EncodeChar, List.drop_left]

theorem subpart_bounds (bytes : List UInt8) : 1 ≤ subpart bytes ∧ subpart bytes ≤ 3 := by
  unfold subpart
  repeat' split
  all_goals omega

theorem length_encode_replacement : (String.utf8EncodeChar replacement).length = 3 := by decide

end Char

/-! ## Texts -/

/-- **What was encoded is decoded again.** -/
theorem decodeFrom_encode (cs : List Char) :
    ∀ fuel, (encode cs).length ≤ fuel → decodeFrom fuel (encode cs) = cs := by
  induction cs with
  | nil =>
      intro fuel _
      cases fuel <;> rfl
  | cons c cs ih =>
      intro fuel hfuel
      have hpos := c.utf8Size_pos
      have hencode : encode (c :: cs) = String.utf8EncodeChar c ++ encode cs := rfl
      rw [hencode, List.length_append, String.length_utf8EncodeChar] at hfuel
      cases fuel with
      | zero => omega
      | succ fuel =>
          have hdecode : decodeChar? (encode (c :: cs)) = some c := decodeChar?_encode c _
          have hdrop : (encode (c :: cs)).drop c.utf8Size = encode cs := drop_encodeChar c _
          have hrest : decodeFrom fuel (encode cs) = cs := ih fuel (by omega)
          generalize encode (c :: cs) = bytes at hdecode hdrop
          cases bytes with
          | nil =>
              obtain ⟨rest, hrest⟩ := eq_of_decodeChar? hdecode
              have hlength := congrArg List.length hrest
              rw [List.length_append, String.length_utf8EncodeChar, List.length_nil] at hlength
              omega
          | cons b bytes => simp only [decodeFrom, hdecode, hdrop, hrest]

theorem decodeLossy_encode (cs : List Char) : decodeLossy (encode cs) = cs :=
  decodeFrom_encode cs _ (Nat.le_refl _)

theorem encode_injective : Function.Injective encode :=
  Function.LeftInverse.injective decodeLossy_encode

theorem encode_append (cs ds : List Char) : encode (cs ++ ds) = encode cs ++ encode ds :=
  List.flatMap_append

theorem length_le_encode_decodeFrom (fuel : ℕ) :
    ∀ bytes : List UInt8, bytes.length ≤ fuel →
      bytes.length ≤ (encode (decodeFrom fuel bytes)).length := by
  induction fuel with
  | zero =>
      intro bytes hfuel
      omega
  | succ fuel ih =>
      intro bytes hfuel
      cases bytes with
      | nil => exact Nat.zero_le _
      | cons b bytes =>
          simp only [decodeFrom]
          cases hdecode : decodeChar? (b :: bytes) with
          | some c =>
              obtain ⟨rest, hrest⟩ := eq_of_decodeChar? hdecode
              have hpos := c.utf8Size_pos
              rw [hrest] at hfuel ⊢
              simp only [List.length_append, String.length_utf8EncodeChar] at hfuel
              have hle := ih rest (by omega)
              simp only [encode, List.flatMap_cons, drop_encodeChar, List.length_append] at hle ⊢
              omega
          | none =>
              obtain ⟨hpos, hthree⟩ := subpart_bounds (b :: bytes)
              have hlen : ((b :: bytes).drop (subpart (b :: bytes))).length =
                  (b :: bytes).length - subpart (b :: bytes) := List.length_drop ..
              have hle := ih ((b :: bytes).drop (subpart (b :: bytes))) (by omega)
              simp only [encode, List.flatMap_cons, List.length_append,
                length_encode_replacement] at hle ⊢
              omega

/-- **A text does not get shorter** by being decoded and encoded again. -/
theorem length_le_encode_decodeLossy (bytes : List UInt8) :
    bytes.length ≤ (encode (decodeLossy bytes)).length :=
  length_le_encode_decodeFrom _ bytes (Nat.le_refl _)

/-! ## Parts of characters -/

section Parts

variable {b : UInt8} {bytes rest h : List UInt8} {c d : Char}

theorem decodeFrom_fuel (fuel : ℕ) : ∀ bytes : List UInt8, bytes.length ≤ fuel →
    decodeFrom fuel bytes = decodeLossy bytes := by
  induction fuel using Nat.strongRecOn with
  | ind fuel ih =>
      intro bytes hfuel
      cases bytes with
      | nil => cases fuel <;> rfl
      | cons b bytes =>
          cases fuel with
          | zero => simp at hfuel
          | succ fuel =>
              have hle : bytes.length ≤ fuel := by simpa using hfuel
              have hdrop : ∀ n, 1 ≤ n → decodeFrom fuel ((b :: bytes).drop n) =
                  decodeFrom bytes.length ((b :: bytes).drop n) := by
                intro n hn
                have hlen : ((b :: bytes).drop n).length ≤ bytes.length := by
                  rw [List.length_drop, List.length_cons]
                  omega
                rw [ih fuel (by omega) _ (by omega)]
                by_cases heq : bytes.length = fuel
                · rw [heq, ih fuel (by omega) _ (by omega)]
                · rw [ih bytes.length (by omega) _ hlen]
              rw [decodeLossy, List.length_cons]
              simp only [decodeFrom]
              cases decodeChar? (b :: bytes) with
              | some c => exact congrArg (c :: ·) (hdrop _ c.utf8Size_pos)
              | none =>
                  exact congrArg (replacement :: ·) (hdrop _ (subpart_bounds (b :: bytes)).1)

theorem encodeChar_ne_nil (c : Char) : String.utf8EncodeChar c ≠ [] := by
  have hpos := c.utf8Size_pos
  rw [← String.length_utf8EncodeChar] at hpos
  exact List.ne_nil_of_length_pos hpos

theorem decodeLossy_char (c : Char) (rest : List UInt8) :
    decodeLossy (String.utf8EncodeChar c ++ rest) = c :: decodeLossy rest := by
  have hdecode := decodeChar?_encode c rest
  have hdrop := drop_encodeChar c rest
  have hlen : (String.utf8EncodeChar c ++ rest).length = c.utf8Size + rest.length := by
    rw [List.length_append, String.length_utf8EncodeChar]
  have hpos := c.utf8Size_pos
  obtain ⟨b, bytes, hcons⟩ := List.exists_cons_of_ne_nil (encodeChar_ne_nil c)
  rw [hcons, List.cons_append] at hdecode hdrop hlen ⊢
  rw [decodeLossy, List.length_cons]
  simp only [decodeFrom, hdecode, hdrop]
  rw [decodeFrom_fuel _ rest (by rw [List.length_cons] at hlen; omega)]

theorem decodeLossy_none (h : decodeChar? (b :: bytes) = none) : decodeLossy (b :: bytes) =
    replacement :: decodeLossy ((b :: bytes).drop (subpart (b :: bytes))) := by
  rw [decodeLossy, List.length_cons]
  simp only [decodeFrom, h]
  rw [decodeFrom_fuel]
  have hpos := (subpart_bounds (b :: bytes)).1
  rw [List.length_drop, List.length_cons]
  omega

theorem isTail_or (x : UInt8) : isTail (x &&& 0x3F ||| 0x80) = true := by
  have hall : ∀ n : Fin 256, isTail (UInt8.ofNat n.val &&& 0x3F ||| 0x80) = true := by decide +kernel
  have h := hall ⟨x.toNat, x.toNat_lt⟩
  simpa using h

theorem encodeChar_eq (c : Char) : ∃ b tails, String.utf8EncodeChar c = b :: tails ∧
    isTail b = false ∧ ∀ t ∈ tails, isTail t = true := by
  have hfirst : ∀ n : Fin 256, isTail (UInt8.ofNat n.val &&& 0x1F ||| 0xC0) = false ∧
      isTail (UInt8.ofNat n.val &&& 0x0F ||| 0xE0) = false ∧
      isTail (UInt8.ofNat n.val &&& 0x07 ||| 0xF0) = false := by decide +kernel
  have hlead : ∀ x : UInt8, isTail (x &&& 0x1F ||| 0xC0) = false ∧
      isTail (x &&& 0x0F ||| 0xE0) = false ∧ isTail (x &&& 0x07 ||| 0xF0) = false := by
    intro x
    have h := hfirst ⟨x.toNat, x.toNat_lt⟩
    simpa using h
  have hsize := c.utf8Size_eq
  rcases hsize with h | h | h | h
  · refine ⟨_, _, String.utf8EncodeChar_eq_singleton h, ?_, by simp⟩
    have hle := UInt32.le_iff_toNat_le.1 (Char.utf8Size_eq_one_iff.1 h)
    simp only [isTail, Bool.and_eq_false_iff, decide_eq_false_iff_not, UInt8.le_iff_toNat_le]
    left
    have hbyte : c.val.toUInt8.toNat = c.val.toNat % 256 := UInt32.toNat_toUInt8 c.val
    have hlow : (127 : UInt32).toNat = 127 := rfl
    have hhigh : (128 : UInt8).toNat = 128 := rfl
    omega
  · exact ⟨_, _, String.utf8EncodeChar_eq_cons_cons h, (hlead _).1, by simp [isTail_or]⟩
  · exact ⟨_, _, String.utf8EncodeChar_eq_cons_cons_cons h, (hlead _).2.1, by simp [isTail_or]⟩
  · exact ⟨_, _, String.utf8EncodeChar_eq_cons_cons_cons_cons h, (hlead _).2.2,
      by simp [isTail_or]⟩

theorem decodeChar?_tail (h : isTail b = true) : decodeChar? (b :: bytes) = none := by
  cases hdecode : decodeChar? (b :: bytes) with
  | none => rfl
  | some c =>
      obtain ⟨rest, hrest⟩ := eq_of_decodeChar? hdecode
      obtain ⟨b', tails, hcons, hb', -⟩ := encodeChar_eq c
      rw [hcons, List.cons_append] at hrest
      rw [(List.cons.inj hrest).1, hb'] at h
      cases h

theorem subpart_tail (h : isTail b = true) : subpart (b :: bytes) = 1 := by
  have hsecond : ∀ n : Fin 256, isTail (UInt8.ofNat n.val) = true →
      UInt8.ofNat n.val ≠ 0xE0 ∧ UInt8.ofNat n.val ≠ 0xED ∧ ¬ 0xE1 ≤ UInt8.ofNat n.val ∧
        UInt8.ofNat n.val ≠ 0xF0 ∧ ¬ 0xF1 ≤ UInt8.ofNat n.val ∧ UInt8.ofNat n.val ≠ 0xF4 := by
    decide +kernel
  have hb := hsecond ⟨b.toNat, b.toNat_lt⟩
  simp only [UInt8.ofNat_toNat] at hb
  obtain ⟨h₁, h₂, h₃, h₄, h₅, h₆⟩ := hb h
  have hnot : ∀ a, isSecond b a = false := by
    intro a
    simp [isSecond, h₁, h₂, h₃, h₄, h₅, h₆]
  unfold subpart
  split
  · next heq =>
      obtain ⟨rfl, -⟩ := List.cons.inj heq
      rw [hnot]
      rfl
  · next heq =>
      obtain ⟨rfl, -⟩ := List.cons.inj heq
      rw [hnot]
      rfl
  · rfl

/-- **Each byte of the end of a character is replaced.** -/
theorem decodeLossy_tails {tails : List UInt8} (h : ∀ t ∈ tails, isTail t = true)
    (rest : List UInt8) : decodeLossy (tails ++ rest) =
      List.replicate tails.length replacement ++ decodeLossy rest := by
  induction tails with
  | nil => rfl
  | cons t tails ih =>
      obtain ⟨ht, htails⟩ := List.forall_mem_cons.1 h
      rw [List.cons_append, decodeLossy_none (decodeChar?_tail ht), subpart_tail ht,
        List.drop_one, List.tail_cons, ih htails, List.length_cons, List.replicate_succ,
        List.cons_append]

/-- **The beginning of a character is replaced**, if the rest of it does not follow. -/
theorem decodeLossy_start {tails : List UInt8} (heq : String.utf8EncodeChar c = h ++ tails)
    (hne : h ≠ []) (htails : tails ≠ []) :
    ∃ n, 1 ≤ n ∧ decodeLossy h = List.replicate n replacement := by
  have hnone : decodeChar? h = none := by
    cases hdecode : decodeChar? h with
    | none => rfl
    | some d =>
        obtain ⟨rest, rfl⟩ := eq_of_decodeChar? hdecode
        have hd : decodeChar? (String.utf8EncodeChar c ++ []) = some d := by
          rw [heq, List.append_nil, List.append_assoc, decodeChar?_encode]
        rw [decodeChar?_encode] at hd
        obtain rfl := Option.some.inj hd
        have hlen := congrArg List.length heq
        have hpos := List.length_pos_of_ne_nil htails
        simp only [List.length_append] at hlen
        omega
  obtain ⟨b, h, rfl⟩ := List.exists_cons_of_ne_nil hne
  obtain ⟨b', tails', hcons, -, htail⟩ := encodeChar_eq c
  have hrest : ∀ t ∈ (b :: h).drop (subpart (b :: h)), isTail t = true := by
    intro t ht
    have hpos := (subpart_bounds (b :: h)).1
    obtain ⟨k, hk⟩ := Nat.exists_eq_add_of_le hpos
    rw [hk, Nat.add_comm, List.drop_succ_cons] at ht
    rw [hcons, List.cons_append] at heq
    apply htail
    rw [(List.cons.inj heq).2]
    exact List.mem_append_left _ (List.mem_of_mem_drop ht)
  have hdrop := decodeLossy_tails hrest []
  rw [List.append_nil] at hdrop
  refine ⟨((b :: h).drop (subpart (b :: h))).length + 1, Nat.le_add_left 1 _, ?_⟩
  rw [decodeLossy_none hnone, hdrop, List.replicate_succ]
  simp [decodeLossy, decodeFrom]

end Parts

/-! ## Bytes that are UTF-8 -/

/-- Decode bytes that are UTF-8. -/
def decode? (bytes : List UInt8) : Option (List Char) :=
  if encode (decodeLossy bytes) = bytes then some (decodeLossy bytes) else none

theorem decode?_eq_some_iff {bytes : List UInt8} {cs : List Char} :
    decode? bytes = some cs ↔ encode cs = bytes := by
  unfold decode?
  constructor
  · intro h
    split at h
    · rename_i henc
      rw [← Option.some.inj h]
      exact henc
    · cases h
  · rintro rfl
    rw [decodeLossy_encode, if_pos rfl]

end Utf8
end Lib
