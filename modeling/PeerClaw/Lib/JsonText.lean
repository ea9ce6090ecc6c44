import PeerClaw.Lib.Refill
import Mathlib.Data.List.Basic

/-!
# Strings in the text of a JSON document

Between its quotes a string of a JSON document has characters and escapes.  `scan` goes through
them one character at a time; the only places where a string can be cut or another text put in are
those where it is between two characters, in the state `plain`.

Outside its strings a document has no quotes, so it falls apart in one way into `Piece`s:
characters outside a string, and strings.

* `decode_append` — two contents of strings, one behind the other, are one.
* `decode_split` — a character that is in no escape cuts the contents of a string in two.
* `decode_filled` — what a string in which placeholders have been filled in stands for.
* `pieces_text` — a document is read back piece by piece.
* `text_pieces` — and its pieces are all there is of it.
-/

namespace Lib
namespace JsonText

/-! ## The contents of a string -/

/-- How far the scanner is into a character. -/
inductive StringState
  /-- Between two characters. -/
  | plain
  /-- Behind a backslash. -/
  | escape
  /-- Some hexadecimal digits of a code unit are missing; a leading surrogate came before. -/
  | hex (lead : Option ℕ) (missing code : ℕ)
  /-- Behind a leading surrogate. -/
  | low (lead : ℕ)
  /-- Behind a leading surrogate and a backslash. -/
  | lowEscape (lead : ℕ)
  deriving DecidableEq

/-- The character an escape of one letter stands for. -/
def escaped (c : Char) : Option Char :=
  match c with
  | '"' => some '"'
  | '\\' => some '\\'
  | '/' => some '/'
  | 'b' => some '\x08'
  | 'f' => some '\x0c'
  | 'n' => some '\n'
  | 'r' => some '\r'
  | 't' => some '\t'
  | _ => none

/-- The value of a hexadecimal digit. -/
def hexValue (c : Char) : Option ℕ :=
  if '0' ≤ c ∧ c ≤ '9' then some (c.toNat - '0'.toNat)
  else if 'a' ≤ c ∧ c ≤ 'f' then some (c.toNat - 'a'.toNat + 10)
  else if 'A' ≤ c ∧ c ≤ 'F' then some (c.toNat - 'A'.toNat + 10)
  else none

/-- A code unit is complete.  Surrogates come in pairs only. -/
def endUnit : Option ℕ → ℕ → Option (StringState × List Char)
  | none, code =>
      if 0xD800 ≤ code ∧ code < 0xDC00 then some (.low code, [])
      else if 0xDC00 ≤ code ∧ code < 0xE000 then none
      else some (.plain, [Char.ofNat code])
  | some lead, code =>
      if 0xDC00 ≤ code ∧ code < 0xE000 then
        some (.plain, [Char.ofNat (0x10000 + (lead - 0xD800) * 0x400 + (code - 0xDC00))])
      else none

/-- Read one character of the contents of a string. -/
def scanChar : StringState → Char → Option (StringState × List Char)
  | .plain, c =>
      if c = '\\' then some (.escape, [])
      else if c = '"' ∨ c.toNat < 0x20 then none
      else some (.plain, [c])
  | .escape, c =>
      if c = 'u' then some (.hex none 4 0, [])
      else (escaped c).map fun d => (.plain, [d])
  | .hex lead missing code, c =>
      (hexValue c).bind fun d =>
        if missing ≤ 1 then endUnit lead (16 * code + d)
        else some (.hex lead (missing - 1) (16 * code + d), [])
  | .low lead, c => if c = '\\' then some (.lowEscape lead, []) else none
  | .lowEscape lead, c => if c = 'u' then some (.hex (some lead) 4 0, []) else none

/-- Read some of the contents of a string. -/
def scan : StringState → List Char → Option (StringState × List Char)
  | s, [] => some (s, [])
  | s, c :: cs =>
      (scanChar s c).bind fun next => (scan next.1 cs).map fun rest => (rest.1, next.2 ++ rest.2)

/-- What the contents of a string stand for. -/
def decode (cs : List Char) : Option (List Char) :=
  match scan .plain cs with
  | some (.plain, decoded) => some decoded
  | _ => none

/-- The text can stand between the quotes of a string. -/
def Legal (cs : List Char) : Prop := (decode cs).isSome = true

instance (cs : List Char) : Decidable (Legal cs) := by
  unfold Legal
  infer_instance

/-- The character is in no escape: it stands for itself and only between two characters. -/
def Lone (c : Char) : Prop :=
  scanChar .plain c = some (.plain, [c]) ∧ ∀ s, s ≠ .plain → scanChar s c = none

section Contents

variable {s s' : StringState} {a b cs x y : List Char} {c : Char}

theorem decode_eq_some_iff : decode cs = some x ↔ scan .plain cs = some (.plain, x) := by
  unfold decode
  split
  · next decoded hscan => simp [hscan]
  · next hscan => simpa using hscan x

theorem scan_append : scan s (a ++ b) =
    (scan s a).bind fun first => (scan first.1 b).map fun rest => (rest.1, first.2 ++ rest.2) := by
  induction a generalizing s with
  | nil => simp [scan]
  | cons c a ih =>
      simp only [List.cons_append, scan, ih]
      cases scanChar s c with
      | none => rfl
      | some next =>
          cases ha : scan next.1 a with
          | none => simp [ha]
          | some first => simp [ha, Option.map_map, Function.comp_def]

/-- **Contents one behind the other.** -/
theorem decode_append (ha : decode a = some x) (hb : decode b = some y) :
    decode (a ++ b) = some (x ++ y) := by
  rw [decode_eq_some_iff] at ha hb ⊢
  simp [scan_append, ha, hb]

theorem Lone.decode (h : Lone c) : decode [c] = some [c] := by
  simp [decode_eq_some_iff, scan, h.1]

/-- **Contents cut in two**, at a character that is in no escape. -/
theorem decode_split (hc : Lone c) (h : decode (a ++ c :: b) = some y) :
    ∃ x z, decode a = some x ∧ decode b = some z ∧ y = x ++ c :: z := by
  rw [decode_eq_some_iff, scan_append] at h
  obtain ⟨⟨s, x⟩, ha, h⟩ := Option.bind_eq_some_iff.1 h
  by_cases hs : s = .plain
  · subst hs
    rw [scan, hc.1, Option.bind_some] at h
    simp only [Option.map_eq_some_iff, Prod.mk.injEq] at h
    obtain ⟨-, ⟨⟨s', z⟩, hb, rfl⟩, rfl, rfl⟩ := h
    exact ⟨x, z, decode_eq_some_iff.2 ha, decode_eq_some_iff.2 hb, rfl⟩
  · rw [scan, hc.2 s hs] at h
    simp at h

end Contents

/-! ## Placeholders in a string -/

/-- A placeholder between two characters that are in no escape. -/
def Enclosed (p : List Char) : Prop :=
  ∃ first last inner, Lone first ∧ Lone last ∧ p = first :: (inner ++ [last])

/-- Two texts differ only where the first has some of these placeholders. -/
inductive DiffersAt (Q : List Char → Prop) : List Char → List Char → Prop
  | nil : DiffersAt Q [] []
  | same {s t : List Char} (c : Char) : DiffersAt Q s t → DiffersAt Q (c :: s) (c :: t)
  | hole {p s t : List Char} (v : List Char) : Q p → DiffersAt Q s t →
      DiffersAt Q (p ++ s) (v ++ t)

section Placeholders

open Substitution

variable {a p s v x y : List Char} {Q : List Char → Prop} {r : Rule}

theorem DiffersAt.prepend {t : List Char} (a : List Char) (h : DiffersAt Q s t) :
    DiffersAt Q (a ++ s) (a ++ t) := by
  induction a with
  | nil => exact h
  | cons c a ih => exact .same c ih

theorem DiffersAt.refl (s : List Char) : DiffersAt Q s s := by
  induction s with
  | nil => exact .nil
  | cons c s ih => exact .same c ih

theorem Enclosed.ne_nil (hp : Enclosed p) : p ≠ [] := by
  obtain ⟨_, _, _, -, -, rfl⟩ := hp
  exact List.cons_ne_nil _ _

/-- **Contents around a placeholder.** -/
theorem Enclosed.decode (hp : Enclosed p) (h : decode (a ++ (p ++ s)) = some y) :
    ∃ x placeholder z, decode a = some x ∧ decode p = some placeholder ∧ decode s = some z ∧
      y = x ++ (placeholder ++ z) := by
  obtain ⟨first, last, inner, hfirst, hlast, rfl⟩ := hp
  simp only [List.cons_append, List.append_assoc, List.nil_append] at h
  obtain ⟨x, w, hx, hw, rfl⟩ := decode_split hfirst h
  obtain ⟨k, z, hk, hz, rfl⟩ := decode_split hlast hw
  refine ⟨x, first :: (k ++ [last]), z, hx, ?_, hz, by simp⟩
  exact decode_append hfirst.decode (decode_append hk hlast.decode)

theorem decode_rewrite (hr : Enclosed r.1) (hput : Legal r.2) (h : Legal (a ++ v)) :
    Legal (a ++ rewrite r v) := by
  have hne : r.1 ≠ [] := hr.ne_nil
  induction hlength : v.length using Nat.strong_induction_on generalizing a v with
  | _ n ih =>
      subst hlength
      cases v with
      | nil => exact h
      | cons c v =>
          by_cases hprefix : r.1.isPrefixOf (c :: v) = true
          · obtain ⟨w, hw⟩ := List.isPrefixOf_iff_prefix.1 hprefix
            have hpos : 0 < r.1.length := List.length_pos_iff.2 hne
            have hlt : w.length < (c :: v).length := by
              rw [← hw, List.length_append]
              omega
            rw [← hw] at h ⊢
            obtain ⟨y, hy⟩ := Option.isSome_iff_exists.1 h
            obtain ⟨x, -, z, hx, -, hz, -⟩ := hr.decode hy
            have hrest : Legal ([] ++ rewrite r w) :=
              ih _ hlt (Option.isSome_iff_exists.2 ⟨z, hz⟩) rfl
            obtain ⟨t, ht⟩ := Option.isSome_iff_exists.1 hrest
            obtain ⟨u, hu⟩ := Option.isSome_iff_exists.1 hput
            rw [rewrite_placeholder hne]
            exact Option.isSome_iff_exists.2 ⟨_, decode_append hx (decode_append hu ht)⟩
          · have hmore : Legal ((a ++ [c]) ++ rewrite r v) :=
              ih _ (by simp) (by simpa using h) rfl
            rw [rewrite_cons hprefix]
            simpa using hmore

/-- **What the contents stand for** when placeholders in them have been filled in. -/
theorem decode_filled {P : List Char → Prop} {cells : List Cell} (hP : ∀ p, P p → Enclosed p)
    (h : FilledFrom P s cells) (hlegal : ∀ v, .value v ∈ cells → Legal v)
    (hdecode : decode (a ++ s) = some y) :
    ∃ t, decode (a ++ Substitution.text cells) = some t ∧
      DiffersAt (fun placeholder => ∃ p, P p ∧ decode p = some placeholder) y t := by
  induction h generalizing a y with
  | nil => exact ⟨y, hdecode, .refl y⟩
  | @own s cs c h ih =>
      have hnext : decode ((a ++ [c]) ++ s) = some y := by simpa using hdecode
      obtain ⟨t, ht, hdiffers⟩ := ih (fun v hv => hlegal v (List.mem_cons_of_mem _ hv)) hnext
      exact ⟨t, by simpa [Cell.text] using ht, hdiffers⟩
  | @value p s cs v hp h ih =>
      obtain ⟨x, placeholder, z, hx, hplaceholder, hz, rfl⟩ := (hP p hp).decode hdecode
      obtain ⟨t, ht, hdiffers⟩ := @ih [] z (fun v hv => hlegal v (List.mem_cons_of_mem _ hv)) hz
      obtain ⟨u, hu⟩ := Option.isSome_iff_exists.1 (hlegal v List.mem_cons_self)
      refine ⟨x ++ (u ++ t), decode_append hx (decode_append hu ht), ?_⟩
      exact (DiffersAt.hole u ⟨p, hp, hplaceholder⟩ hdiffers).prepend x

end Placeholders

/-! ## A document and its pieces -/

/-- A character outside a string, or the contents of a string. -/
inductive Piece
  | out (c : Char)
  | str (raw : List Char)
  deriving DecidableEq

/-- The piece as it is written. -/
def Piece.text : Piece → List Char
  | .out c => [c]
  | .str raw => '"' :: raw ++ ['"']

/-- A document has such pieces only. -/
def Piece.Ok : Piece → Prop
  | .out c => c ≠ '"'
  | .str raw => Legal raw

/-- The document with these pieces. -/
def text (ps : List Piece) : List Char := ps.flatMap Piece.text

/-- The pieces of a document, from outside a string or inside one. -/
def piecesFrom : Option (StringState × List Char) → List Char → Option (List Piece)
  | none, [] => some []
  | some _, [] => none
  | none, c :: cs =>
      if c = '"' then piecesFrom (some (.plain, [])) cs
      else (piecesFrom none cs).map fun ps => .out c :: ps
  | some (s, raw), c :: cs =>
      if s = .plain ∧ c = '"' then (piecesFrom none cs).map fun ps => .str raw :: ps
      else (scanChar s c).bind fun next => piecesFrom (some (next.1, raw ++ [c])) cs

/-- The pieces of a document. -/
def pieces (cs : List Char) : Option (List Piece) := piecesFrom none cs

section Pieces

variable {s s' : StringState} {raw cs x : List Char} {ps : List Piece} {p : Piece}

@[simp] theorem text_nil : text [] = [] := rfl

@[simp] theorem text_cons : text (p :: ps) = p.text ++ text ps := rfl

theorem piecesFrom_scan {a : List Char} (h : scan s a = some (s', x)) :
    piecesFrom (some (s, raw)) (a ++ cs) = piecesFrom (some (s', raw ++ a)) cs := by
  induction a generalizing s raw x with
  | nil =>
      cases h
      simp
  | cons c a ih =>
      rw [scan] at h
      obtain ⟨next, hnext, h⟩ := Option.bind_eq_some_iff.1 h
      obtain ⟨⟨s'', y⟩, hrest, hx⟩ := Option.map_eq_some_iff.1 h
      obtain ⟨rfl, -⟩ := Prod.mk.inj hx
      have hinside : ¬ (s = .plain ∧ c = '"') := by
        rintro ⟨rfl, rfl⟩
        cases hnext
      rw [List.cons_append, piecesFrom, if_neg hinside, hnext, Option.bind_some, ih hrest]
      simp

/-- **A document is read back** piece by piece. -/
theorem pieces_text (h : ∀ p ∈ ps, p.Ok) : pieces (text ps) = some ps := by
  induction ps with
  | nil => rfl
  | cons p ps ih =>
      obtain ⟨hp, hps⟩ := List.forall_mem_cons.1 h
      have hrest : piecesFrom none (text ps) = some ps := ih hps
      cases p with
      | out c =>
          have hc : c ≠ '"' := hp
          simp [pieces, Piece.text, piecesFrom, hc, hrest]
      | str raw =>
          obtain ⟨x, hx⟩ := Option.isSome_iff_exists.1 hp
          have hscan := decode_eq_some_iff.1 hx
          have hinside := @piecesFrom_scan _ _ [] ('"' :: text ps) _ _ hscan
          simp only [pieces, text_cons, Piece.text, List.cons_append, List.append_assoc,
            List.nil_append, piecesFrom]
          rw [hinside]
          simp [piecesFrom, hrest]

theorem of_piecesFrom (mode : Option (StringState × List Char))
    (hmode : ∀ s raw, mode = some (s, raw) → ∃ x, scan .plain raw = some (s, x))
    (h : piecesFrom mode cs = some ps) :
    (∀ p ∈ ps, p.Ok) ∧ text ps = match mode with
      | none => cs
      | some (_, raw) => '"' :: raw ++ cs := by
  induction cs generalizing mode ps with
  | nil =>
      cases mode with
      | none =>
          cases h
          simp
      | some m => cases h
  | cons c cs ih =>
      cases mode with
      | none =>
          rw [piecesFrom] at h
          split at h
          · next hc =>
              subst hc
              obtain ⟨hok, htext⟩ := ih (some (.plain, [])) (by
                rintro s raw ⟨⟩
                exact ⟨[], rfl⟩) h
              exact ⟨hok, by simpa using htext⟩
          · next hc =>
              obtain ⟨qs, hqs, rfl⟩ := Option.map_eq_some_iff.1 h
              obtain ⟨hok, htext⟩ := ih none (by simp) hqs
              refine ⟨List.forall_mem_cons.2 ⟨hc, hok⟩, ?_⟩
              simp [Piece.text, htext]
      | some m =>
          obtain ⟨s, raw⟩ := m
          obtain ⟨x, hraw⟩ := hmode s raw rfl
          rw [piecesFrom] at h
          split at h
          · next hclose =>
              obtain ⟨rfl, rfl⟩ := hclose
              obtain ⟨qs, hqs, rfl⟩ := Option.map_eq_some_iff.1 h
              obtain ⟨hok, htext⟩ := ih none (by simp) hqs
              have hlegal : Legal raw := Option.isSome_iff_exists.2 ⟨x, decode_eq_some_iff.2 hraw⟩
              refine ⟨List.forall_mem_cons.2 ⟨hlegal, hok⟩, ?_⟩
              simp [Piece.text, htext]
          · obtain ⟨next, hnext, h⟩ := Option.bind_eq_some_iff.1 h
            obtain ⟨hok, htext⟩ := ih (some (next.1, raw ++ [c])) (by
              rintro s' raw' ⟨⟩
              exact ⟨x ++ next.2, by simp [scan_append, hraw, scan, hnext]⟩) h
            exact ⟨hok, by simpa using htext⟩

/-- **The pieces are all there is** of a document. -/
theorem text_pieces (h : pieces cs = some ps) : (∀ p ∈ ps, p.Ok) ∧ text ps = cs :=
  of_piecesFrom none (by simp) h

theorem piecesFrom_concat {c : Char} (hc : c ≠ '"') {mode : Option (StringState × List Char)}
    (h : piecesFrom mode (cs ++ [c]) = some ps) :
    ∃ qs, piecesFrom mode cs = some qs ∧ ps = qs ++ [.out c] := by
  induction cs generalizing mode ps with
  | nil =>
      cases mode with
      | none =>
          rw [List.nil_append, piecesFrom, if_neg hc] at h
          cases h
          exact ⟨[], rfl, rfl⟩
      | some m =>
          obtain ⟨s, raw⟩ := m
          rw [List.nil_append, piecesFrom, if_neg fun hclose => hc hclose.2] at h
          cases hnext : scanChar s c <;> simp [hnext, piecesFrom] at h
  | cons d cs ih =>
      rw [List.cons_append] at h
      cases mode with
      | none =>
          rw [piecesFrom] at h ⊢
          split at h
          · next hd =>
              rw [if_pos hd]
              exact ih h
          · next hd =>
              rw [if_neg hd]
              obtain ⟨rest, hrest, rfl⟩ := Option.map_eq_some_iff.1 h
              obtain ⟨qs, hqs, rfl⟩ := ih hrest
              exact ⟨.out d :: qs, by rw [hqs]; rfl, rfl⟩
      | some m =>
          obtain ⟨s, raw⟩ := m
          rw [piecesFrom] at h ⊢
          split at h
          · next hd =>
              rw [if_pos hd]
              obtain ⟨rest, hrest, rfl⟩ := Option.map_eq_some_iff.1 h
              obtain ⟨qs, hqs, rfl⟩ := ih hrest
              exact ⟨.str raw :: qs, by rw [hqs]; rfl, rfl⟩
          · next hd =>
              rw [if_neg hd]
              obtain ⟨next, hnext, hrest⟩ := Option.bind_eq_some_iff.1 h
              obtain ⟨qs, hqs, rfl⟩ := ih hrest
              exact ⟨qs, by rw [hnext]; exact hqs, rfl⟩

theorem pieces_concat {c : Char} (hc : c ≠ '"') (h : pieces (cs ++ [c]) = some ps) :
    ∃ qs, pieces cs = some qs ∧ ps = qs ++ [.out c] :=
  piecesFrom_concat hc h

end Pieces

end JsonText
end Lib
