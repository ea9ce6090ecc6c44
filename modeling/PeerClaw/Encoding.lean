import PeerClaw.Lib.Utf8
import PeerClaw.Lib.Word

/-!
# Strings, bytes and hexadecimal

What goes through `hex::encode`, `hex::decode` and `as_bytes`.  Decoding reads
the bytes of the text two at a time, takes digits of either case and fails on
anything else; it gives back what encoding wrote (`hexDecode_hexEncode`).
-/

namespace PeerClaw

/-- The UTF-8 bytes of a string. -/
def utf8 (s : String) : List UInt8 := s.toUTF8.data.toList

/-- The lower-case digit of a number below sixteen. -/
def hexDigit (d : ℕ) : Char := if d < 10 then Char.ofNat (48 + d) else Char.ofNat (87 + d)

/-- The value of the byte of a hexadecimal digit of either case. -/
def hexVal (b : UInt8) : Option ℕ :=
  if 48 ≤ b.toNat ∧ b.toNat ≤ 57 then some (b.toNat - 48)
  else if 97 ≤ b.toNat ∧ b.toNat ≤ 102 then some (b.toNat - 87)
  else if 65 ≤ b.toNat ∧ b.toNat ≤ 70 then some (b.toNat - 55)
  else none

/-- The digits of a byte string, high half first. -/
def hexChars (bytes : List UInt8) : List Char :=
  bytes.flatMap fun b => [hexDigit (b.toNat / 16), hexDigit (b.toNat % 16)]

/-- `hex::encode`. -/
def hexEncode (bytes : List UInt8) : String := String.ofList (hexChars bytes)

/-- Read a list of digits, two at a time. -/
def hexPairs : List UInt8 → Option (List UInt8)
  | [] => some []
  | [_] => none
  | a :: b :: rest => do
      let high ← hexVal a
      let low ← hexVal b
      let bytes ← hexPairs rest
      return UInt8.ofNat (16 * high + low) :: bytes

/-- `hex::decode`. -/
def hexDecode (s : String) : Option (List UInt8) := hexPairs (utf8 s)

/-! ## Decoding what was encoded -/

theorem utf8_eq_encode (cs : List Char) : utf8 (String.ofList cs) = Lib.Utf8.encode cs := by
  unfold utf8
  rw [String.toUTF8_eq_toByteArray, String.toByteArray_ofList, List.utf8Encode,
    List.data_toByteArray]
  rfl

theorem utf8_eq_encode_toList (s : String) : utf8 s = Lib.Utf8.encode s.toList := by
  rw [← utf8_eq_encode, String.ofList_toList]

theorem utf8_ofList (cs : List Char) (h : ∀ c ∈ cs, c.utf8Size = 1) :
    utf8 (String.ofList cs) = cs.map fun c => c.val.toUInt8 := by
  rw [utf8_eq_encode]
  unfold Lib.Utf8.encode
  induction cs with
  | nil => rfl
  | cons c cs ih =>
      have hc : c.utf8Size = 1 := h c (List.mem_cons_self ..)
      have hcs : ∀ d ∈ cs, d.utf8Size = 1 := fun d hd => h d (List.mem_cons_of_mem _ hd)
      rw [List.flatMap_cons, String.utf8EncodeChar_eq_singleton hc, List.map_cons, ih hcs]
      rfl

theorem hexDigit_spec : ∀ d < 16, (hexDigit d).utf8Size = 1 ∧
    hexVal (hexDigit d).val.toUInt8 = some d := by decide

theorem utf8Size_hexChars (bytes : List UInt8) : ∀ c ∈ hexChars bytes, c.utf8Size = 1 := by
  intro c hc
  obtain ⟨b, -, hb⟩ := List.mem_flatMap.1 hc
  have hlt := b.toNat_lt
  simp only [List.mem_cons, List.not_mem_nil, or_false] at hb
  rcases hb with rfl | rfl
  · exact (hexDigit_spec _ (by omega)).1
  · exact (hexDigit_spec _ (by omega)).1

theorem hexDecode_hexEncode (bytes : List UInt8) : hexDecode (hexEncode bytes) = some bytes := by
  unfold hexDecode hexEncode
  rw [utf8_ofList _ (utf8Size_hexChars bytes)]
  induction bytes with
  | nil => rfl
  | cons b bytes ih =>
      have hlt := b.toNat_lt
      have hhigh := (hexDigit_spec (b.toNat / 16) (by omega)).2
      have hlow := (hexDigit_spec (b.toNat % 16) (by omega)).2
      have hb : 16 * (b.toNat / 16) + b.toNat % 16 = b.toNat := by omega
      show hexPairs ((hexDigit (b.toNat / 16)).val.toUInt8 ::
        (hexDigit (b.toNat % 16)).val.toUInt8 :: (hexChars bytes).map fun c => c.val.toUInt8) = _
      simp only [hexPairs, hhigh, hlow, ih, hb, Option.bind_eq_bind, Option.bind_some,
        UInt8.ofNat_toNat, Option.pure_def]

/-! ## Decimal numbers -/

theorem toString_injective : Function.Injective (fun n : UInt64 => toString n) := by
  intro a b h
  have hdigits : Nat.toDigits 10 a.toNat = Nat.toDigits 10 b.toNat := by
    rw [← Nat.toList_repr, ← Nat.toList_repr]
    exact congrArg String.toList h
  have hnat : a.toNat = b.toNat := by
    rw [← Nat.ofDigitChars_toDigits (b := 10) (n := a.toNat) (by decide) (by decide), hdigits,
      Nat.ofDigitChars_toDigits (by decide) (by decide)]
  exact UInt64.toNat_inj.1 hnat

end PeerClaw
