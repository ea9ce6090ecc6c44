import PeerClaw.Value
import PeerClaw.Lib.JsonText
import Mathlib.Data.List.Forall2

/-!
# Reading JSON

What `serde_json::from_str` makes of a text.  The reader takes a document piece by piece, a string
at once and everything else character by character, and keeps the arrays and objects that it is in
on a stack.  What a number is worth is a parameter; how one is written is not.

Two documents that differ in some strings only, none of which is the name of a field, are read in
the same way.

* `Value.Varies` — two values that differ in some strings only.
* `read_alike` — two documents that differ in such strings.
* `readJson_trim` — white space around a document does not matter.
-/

namespace PeerClaw

open Lib JsonText

namespace JsonReader

/-! ## The reader -/

/-- How far a number is. -/
inductive NumberState
  | start
  | minus
  | zero
  | integer
  | point
  | fraction
  | exponent
  | exponentSign
  | power
  deriving DecidableEq

/-- One more character of a number. -/
def NumberState.step (s : NumberState) (c : Char) : Option NumberState :=
  match s with
  | .start =>
      if c = '-' then some .minus
      else if c = '0' then some .zero
      else if c.isDigit then some .integer
      else none
  | .minus => if c = '0' then some .zero else if c.isDigit then some .integer else none
  | .zero =>
      if c = '.' then some .point else if c = 'e' ∨ c = 'E' then some .exponent else none
  | .integer =>
      if c.isDigit then some .integer
      else if c = '.' then some .point
      else if c = 'e' ∨ c = 'E' then some .exponent
      else none
  | .point => if c.isDigit then some .fraction else none
  | .fraction =>
      if c.isDigit then some .fraction
      else if c = 'e' ∨ c = 'E' then some .exponent
      else none
  | .exponent =>
      if c = '+' ∨ c = '-' then some .exponentSign
      else if c.isDigit then some .power
      else none
  | .exponentSign => if c.isDigit then some .power else none
  | .power => if c.isDigit then some .power else none

/-- The text is a number. -/
def isNumber (raw : List Char) : Bool :=
  match raw.foldlM NumberState.step .start with
  | some .zero | some .integer | some .fraction | some .power => true
  | _ => false

/-- Whitespace between the pieces of a document. -/
def isBlank (c : Char) : Bool := c = ' ' ∨ c = '\n' ∨ c = '\t' ∨ c = '\r'

/-- An array or an object that the reader is in. -/
inductive Frame
  /-- Some elements have been read. -/
  | elements (vs : List Value)
  /-- Some fields have been read, and the name of the next one. -/
  | members (fields : Fields) (name : String)

/-- What the reader expects. -/
inductive Mode
  /-- A value. -/
  | value
  /-- A value, or the end of an array. -/
  | arrayStart
  /-- The name of a field, or, at the start, the end of an object. -/
  | name (fields : Fields) (start : Bool)
  /-- The colon behind a name. -/
  | colon (fields : Fields) (name : String)
  /-- The rest of a value without delimiters. -/
  | scalar (raw : List Char)
  /-- What comes behind a value. -/
  | done (v : Value)

/-- How deep a document may be nested. -/
def maxDepth : ℕ := 127

section Reader

variable (number : List Char → Option Number)

/-- A value without delimiters. -/
def scalarValue (raw : List Char) : Option Value :=
  if raw = ['n', 'u', 'l', 'l'] then some .null
  else if raw = ['t', 'r', 'u', 'e'] then some (.bool true)
  else if raw = ['f', 'a', 'l', 's', 'e'] then some (.bool false)
  else if isNumber raw then (number raw).map .number
  else none

/-- A string. -/
def stringValue (raw : List Char) : Option String := (decode raw).map String.ofList

/-- A value begins. -/
def beginValue (st : List Frame) (c : Char) : Option (Mode × List Frame) :=
  if c = '[' then if st.length < maxDepth then some (.arrayStart, st) else none
  else if c = '{' then if st.length < maxDepth then some (.name [] true, st) else none
  else some (.scalar [c], st)

/-- A character behind a value. -/
def behindValue (v : Value) (st : List Frame) (c : Char) : Option (Mode × List Frame) :=
  match st with
  | [] => none
  | .elements vs :: st =>
      if c = ',' then some (.value, .elements (vs ++ [v]) :: st)
      else if c = ']' then some (.done (.array (vs ++ [v])), st)
      else none
  | .members fields name :: st =>
      if c = ',' then some (.name (fields.insert name v) false, st)
      else if c = '}' then some (.done (.object (fields.insert name v)), st)
      else none

/-- A character outside a string. -/
def stepOut (m : Mode) (st : List Frame) (c : Char) : Option (Mode × List Frame) :=
  match m with
  | .scalar raw =>
      if isBlank c then (scalarValue number raw).map fun v => (.done v, st)
      else if c = ',' ∨ c = ']' ∨ c = '}' then
        (scalarValue number raw).bind fun v => behindValue v st c
      else some (.scalar (raw ++ [c]), st)
  | .value => if isBlank c then some (m, st) else beginValue st c
  | .arrayStart =>
      if isBlank c then some (m, st)
      else if c = ']' then some (.done (.array []), st)
      else beginValue (.elements [] :: st) c
  | .name fields start =>
      if isBlank c then some (m, st)
      else if c = '}' ∧ start then some (.done (.object fields), st)
      else none
  | .colon fields name =>
      if isBlank c then some (m, st)
      else if c = ':' then some (.value, .members fields name :: st)
      else none
  | .done v => if isBlank c then some (m, st) else behindValue v st c

/-- A string. -/
def stepStr (m : Mode) (st : List Frame) (s : String) : Option (Mode × List Frame) :=
  match m with
  | .value => some (.done (.string s), st)
  | .arrayStart => some (.done (.string s), .elements [] :: st)
  | .name fields _ => some (.colon fields s, st)
  | _ => none

/-- One piece of a document. -/
def stepPiece (m : Mode) (st : List Frame) : Piece → Option (Mode × List Frame)
  | .out c => stepOut number m st c
  | .str raw => (stringValue raw).bind fun s => stepStr m st s

/-- The end of a document. -/
def finish (m : Mode) (st : List Frame) : Option Value :=
  match m, st with
  | .done v, [] => some v
  | .scalar raw, [] => scalarValue number raw
  | _, _ => none

/-- Read the rest of a document. -/
def readPieces (m : Mode) (st : List Frame) : List Piece → Option Value
  | [] => finish number m st
  | p :: ps => (stepPiece number m st p).bind fun next => readPieces next.1 next.2 ps

/-- Read a document. -/
def readChars (cs : List Char) : Option Value :=
  (pieces cs).bind fun ps => readPieces number .value [] ps

/-- `serde_json::from_str`, but for the error. -/
def readJson (text : String) : Option Value := readChars number text.toList

end Reader

end JsonReader

open JsonReader

/-! ## Values that differ in some strings -/

/-- Two values that differ in some strings only, and in these as the relation says. -/
inductive Value.Varies (R : String → String → Prop) : Value → Value → Prop
  | same (v : Value) : Varies R v v
  | string {s t : String} : R s t → Varies R (.string s) (.string t)
  | array {vs ws : List Value} : List.Forall₂ (Varies R) vs ws → Varies R (.array vs) (.array ws)
  | object {fs gs : Fields} : fs.map Prod.fst = gs.map Prod.fst →
      List.Forall₂ (Varies R) (fs.map Prod.snd) (gs.map Prod.snd) →
      Varies R (.object fs) (.object gs)

/-- The same names, with values that differ in some strings only. -/
def Fields.Vary (R : String → String → Prop) (fs gs : Fields) : Prop :=
  fs.map Prod.fst = gs.map Prod.fst ∧
    List.Forall₂ (Value.Varies R) (fs.map Prod.snd) (gs.map Prod.snd)

section Vary

variable {R : String → String → Prop} {fs gs : Fields} {vs ws : List Value} {v w : Value}

theorem Fields.vary_cons_iff {f g : String × Value} : Fields.Vary R (f :: fs) (g :: gs) ↔
    (f.1 = g.1 ∧ Value.Varies R f.2 g.2) ∧ Fields.Vary R fs gs := by
  simp only [Vary, List.map_cons, List.cons.injEq, List.forall₂_cons]
  tauto

theorem Fields.Vary.insert (name : String) (h : Fields.Vary R fs gs) (hv : Value.Varies R v w) :
    Fields.Vary R (fs.insert name v) (gs.insert name w) := by
  induction fs generalizing gs with
  | nil =>
      cases gs with
      | nil => exact Fields.vary_cons_iff.2 ⟨⟨rfl, hv⟩, h⟩
      | cons g gs => cases h.1
  | cons f fs ih =>
      cases gs with
      | nil => cases h.1
      | cons g gs =>
          obtain ⟨name₁, v₁⟩ := f
          obtain ⟨name₂, v₂⟩ := g
          obtain ⟨⟨rfl, hfirst⟩, hrest⟩ := Fields.vary_cons_iff.1 h
          simp only [Fields.insert]
          split
          · exact Fields.vary_cons_iff.2 ⟨⟨rfl, hv⟩, h⟩
          · split
            · exact Fields.vary_cons_iff.2 ⟨⟨rfl, hv⟩, hrest⟩
            · exact Fields.vary_cons_iff.2 ⟨⟨rfl, hfirst⟩, ih hrest⟩

theorem Value.varies_concat (h : List.Forall₂ (Value.Varies R) vs ws) (hv : Value.Varies R v w) :
    List.Forall₂ (Value.Varies R) (vs ++ [v]) (ws ++ [w]) :=
  List.rel_append h (List.Forall₂.cons hv .nil)

end Vary

namespace JsonReader

/-! ## Two documents that differ in some strings -/

section Like

variable {R : String → String → Prop} {vs ws : List Value} {v w : Value}

/-- Two frames of the stack. -/
inductive Frame.Like (R : String → String → Prop) : Frame → Frame → Prop
  | elements {vs ws : List Value} : List.Forall₂ (Value.Varies R) vs ws →
      Like R (.elements vs) (.elements ws)
  | members {fs gs : Fields} (name : String) : Fields.Vary R fs gs →
      Like R (.members fs name) (.members gs name)

/-- Two modes of the reader. -/
inductive Mode.Like (R : String → String → Prop) : Mode → Mode → Prop
  | value : Like R .value .value
  | arrayStart : Like R .arrayStart .arrayStart
  | name {fs gs : Fields} (start : Bool) : Fields.Vary R fs gs →
      Like R (.name fs start) (.name gs start)
  | colon {fs gs : Fields} (name : String) : Fields.Vary R fs gs →
      Like R (.colon fs name) (.colon gs name)
  | scalar (raw : List Char) : Like R (.scalar raw) (.scalar raw)
  | done {v w : Value} : Value.Varies R v w → Like R (.done v) (.done w)

/-- The next states of two readers. -/
def NextLike (R : String → String → Prop) (next next' : Option (Mode × List Frame)) : Prop :=
  ∀ m st, next = some (m, st) →
    ∃ m' st', next' = some (m', st') ∧ m.Like R m' ∧ List.Forall₂ (Frame.Like R) st st'

variable {number : List Char → Option Number} {m m' : Mode} {st st' : List Frame} {c : Char}

theorem NextLike.none {next' : Option (Mode × List Frame)} : NextLike R none next' := by
  intro m st h
  cases h

theorem NextLike.some (hm : m.Like R m') (hst : List.Forall₂ (Frame.Like R) st st') :
    NextLike R (some (m, st)) (some (m', st')) := by
  rintro m₁ st₁ ⟨⟩
  exact ⟨m', st', rfl, hm, hst⟩

theorem beginValue_alike (hst : List.Forall₂ (Frame.Like R) st st') :
    NextLike R (beginValue st c) (beginValue st' c) := by
  unfold beginValue
  rw [hst.length_eq]
  split
  · split
    · exact .some .arrayStart hst
    · exact .none
  · split
    · split
      · exact .some (.name true ⟨rfl, .nil⟩) hst
      · exact .none
    · exact .some (.scalar [c]) hst

theorem behindValue_alike (hv : Value.Varies R v w) (hst : List.Forall₂ (Frame.Like R) st st') :
    NextLike R (behindValue v st c) (behindValue w st' c) := by
  cases hst with
  | nil => exact .none
  | cons hframe hst =>
      cases hframe with
      | elements hvs =>
          simp only [behindValue]
          split
          · exact .some .value (.cons (.elements (Value.varies_concat hvs hv)) hst)
          · split
            · exact .some (.done (.array (Value.varies_concat hvs hv))) hst
            · exact .none
      | members name hfields =>
          simp only [behindValue]
          have hset := hfields.insert name hv
          split
          · exact .some (.name false hset) hst
          · split
            · exact .some (.done (.object hset.1 hset.2)) hst
            · exact .none

/-- **A character outside a string.** -/
theorem stepOut_alike (hm : m.Like R m') (hst : List.Forall₂ (Frame.Like R) st st') :
    NextLike R (stepOut number m st c) (stepOut number m' st' c) := by
  cases hm with
  | value =>
      simp only [stepOut]
      split
      · exact .some .value hst
      · exact beginValue_alike hst
  | arrayStart =>
      simp only [stepOut]
      split
      · exact .some .arrayStart hst
      · split
        · exact .some (.done (.same _)) hst
        · exact beginValue_alike (.cons (.elements .nil) hst)
  | name start hfields =>
      simp only [stepOut]
      split
      · exact .some (.name start hfields) hst
      · split
        · exact .some (.done (.object hfields.1 hfields.2)) hst
        · exact .none
  | colon name hfields =>
      simp only [stepOut]
      split
      · exact .some (.colon name hfields) hst
      · split
        · exact .some .value (.cons (.members name hfields) hst)
        · exact .none
  | scalar raw =>
      simp only [stepOut]
      cases scalarValue number raw with
      | none =>
          split
          · exact .none
          · split
            · exact .none
            · exact .some (.scalar _) hst
      | some v =>
          split
          · exact .some (.done (.same v)) hst
          · split
            · exact behindValue_alike (.same v) hst
            · exact .some (.scalar _) hst
  | done hv =>
      simp only [stepOut]
      split
      · exact .some (.done hv) hst
      · exact behindValue_alike hv hst

/-- **A string** that is not the name of a field, -/
theorem stepStr_alike {s t : String} (hm : m.Like R m') (hst : List.Forall₂ (Frame.Like R) st st')
    (h : R s t) (hvalue : ∀ fields start, m ≠ .name fields start) :
    NextLike R (stepStr m st s) (stepStr m' st' t) := by
  cases hm with
  | value => exact .some (.done (.string h)) hst
  | arrayStart => exact .some (.done (.string h)) (.cons (.elements .nil) hst)
  | name start hfields => exact absurd rfl (hvalue _ _)
  | colon name hfields => exact .none
  | scalar raw => exact .none
  | done hv => exact .none

/-- or that is the same. -/
theorem stepStr_same (s : String) (hm : m.Like R m')
    (hst : List.Forall₂ (Frame.Like R) st st') :
    NextLike R (stepStr m st s) (stepStr m' st' s) := by
  cases hm with
  | value => exact .some (.done (.same _)) hst
  | arrayStart => exact .some (.done (.same _)) (.cons (.elements .nil) hst)
  | name start hfields => exact .some (.colon s hfields) hst
  | colon name hfields => exact .none
  | scalar raw => exact .none
  | done hv => exact .none

end Like

/-- A string before these pieces is the name of a field. -/
def named : List Piece → Bool
  | .out c :: ps => if isBlank c then named ps else c = ':'
  | _ => false

/-- The contents of strings stand for strings that the relation relates. -/
def DecodesTo (R : String → String → Prop) (raw raw' : List Char) : Prop :=
  ∃ s t, stringValue raw = some s ∧ stringValue raw' = some t ∧ R s t

/-- Two documents that differ in some strings, and not in the name of a field. -/
inductive Alike (R : String → String → Prop) : List Piece → List Piece → Prop
  | nil : Alike R [] []
  | same {ps qs : List Piece} (p : Piece) : Alike R ps qs → Alike R (p :: ps) (p :: qs)
  | varied {ps qs : List Piece} {raw raw' : List Char} : named ps = false →
      DecodesTo R raw raw' → Alike R ps qs → Alike R (.str raw :: ps) (.str raw' :: qs)

section Read

variable {R : String → String → Prop} {number : List Char → Option Number} {m m' : Mode}
  {st st' : List Frame} {ps qs : List Piece} {v : Value}

theorem named_of_colon {fields : Fields} {name : String}
    (h : readPieces number (.colon fields name) st ps = some v) : named ps = true := by
  induction ps with
  | nil => cases h
  | cons p ps ih =>
      cases p with
      | str raw =>
          rw [readPieces, stepPiece] at h
          cases hs : stringValue raw <;> simp [hs, stepStr] at h
      | out c =>
          rw [readPieces, stepPiece, stepOut] at h
          rw [named]
          by_cases hblank : isBlank c = true
          · rw [if_pos hblank] at h ⊢
            exact ih h
          · rw [if_neg hblank] at h ⊢
            by_cases hc : c = ':'
            · exact decide_eq_true hc
            · rw [if_neg hc] at h
              cases h

/-- **Two documents that differ in some strings** are read in the same way. -/
theorem read_alike (h : Alike R ps qs) (hm : m.Like R m')
    (hst : List.Forall₂ (Frame.Like R) st st') (hread : readPieces number m st ps = some v) :
    ∃ w, readPieces number m' st' qs = some w ∧ Value.Varies R v w := by
  induction h generalizing m m' st st' with
  | nil =>
      cases hm with
      | done hv =>
          cases hst with
          | nil =>
              cases hread
              exact ⟨_, rfl, hv⟩
          | cons _ _ => cases hread
      | scalar raw =>
          cases hst with
          | nil => exact ⟨v, hread, .same v⟩
          | cons _ _ => cases hread
      | _ => cases hread
  | same p h ih =>
      rw [readPieces] at hread ⊢
      obtain ⟨⟨m₁, st₁⟩, hnext, hread⟩ := Option.bind_eq_some_iff.1 hread
      have hlike : NextLike R (stepPiece number m st p) (stepPiece number m' st' p) := by
        cases p with
        | out c => exact stepOut_alike hm hst
        | str raw =>
            simp only [stepPiece]
            cases stringValue raw with
            | none => exact .none
            | some s => exact stepStr_same s hm hst
      obtain ⟨m₂, st₂, hnext', hm', hst'⟩ := hlike m₁ st₁ hnext
      rw [hnext']
      exact ih hm' hst' hread
  | @varied ps qs raw raw' hnamed hdecodes h ih =>
      obtain ⟨s, t, hs, ht, hR⟩ := hdecodes
      rw [readPieces, stepPiece, hs, Option.bind_some] at hread
      rw [readPieces, stepPiece, ht, Option.bind_some]
      obtain ⟨⟨m₁, st₁⟩, hnext, hread⟩ := Option.bind_eq_some_iff.1 hread
      have hvalue : ∀ fields start, m ≠ .name fields start := by
        rintro fields start rfl
        cases hnext
        rw [named_of_colon hread] at hnamed
        cases hnamed
      obtain ⟨m₂, st₂, hnext', hm', hst'⟩ := stepStr_alike hm hst hR hvalue m₁ st₁ hnext
      rw [hnext']
      exact ih hm' hst' hread

end Read

/-! ## White space around a document -/

section Blanks

variable {number : List Char → Option Number} {c : Char} {cs raw : List Char} {m : Mode}
  {st : List Frame} {ps : List Piece} {v : Value}

theorem ne_of_blank {d : Char} (hc : Text.isWhitespace c = true)
    (hd : Text.isWhitespace d = false) : c ≠ d := by
  rintro rfl
  rw [hc] at hd
  cases hd

theorem not_isDigit_of_blank (hc : Text.isWhitespace c = true) : c.isDigit = false := by
  rw [Bool.eq_false_iff]
  intro hdigit
  have hzero : '0'.val.toNat = 48 := rfl
  have hnine : '9'.val.toNat = 57 := rfl
  simp only [Char.isDigit, Text.isWhitespace, Bool.and_eq_true, Bool.or_eq_true, decide_eq_true_eq,
    UInt32.le_iff_toNat_le, ← UInt32.toNat_inj, UInt32.reduceToNat] at hdigit hc
  omega

/-- There is no white space in a number, -/
theorem numberStep_blank (hc : Text.isWhitespace c = true) (s : NumberState) : s.step c = none := by
  have hdigit := not_isDigit_of_blank hc
  cases s <;>
    simp [NumberState.step, hdigit, ne_of_blank hc (d := '-') (by decide), ne_of_blank hc (d := '0') (by decide), ne_of_blank hc (d := '.') (by decide),
      ne_of_blank hc (d := 'e') (by decide), ne_of_blank hc (d := 'E') (by decide), ne_of_blank hc (d := '+') (by decide)]

theorem foldlM_numberStep_blank (hc : Text.isWhitespace c = true) (hmem : c ∈ raw)
    (s : NumberState) : raw.foldlM NumberState.step s = none := by
  induction raw generalizing s with
  | nil => cases hmem
  | cons d raw ih =>
      rw [List.foldlM_cons]
      rcases List.mem_cons.1 hmem with rfl | hmem
      · rw [numberStep_blank hc]
        rfl
      · cases s.step d with
        | none => rfl
        | some s' => exact ih hmem s'

/-- nor in any other value without delimiters. -/
theorem scalarValue_blank (hc : Text.isWhitespace c = true) (hmem : c ∈ raw) :
    scalarValue number raw = none := by
  have hword : ∀ word : List Char, word.all (fun d => !Text.isWhitespace d) = true → raw ≠ word := by
    rintro word hword rfl
    have hnot := List.all_eq_true.1 hword c hmem
    simp [hc] at hnot
  have hnumber : isNumber raw = false := by
    simp [isNumber, foldlM_numberStep_blank hc hmem]
  rw [scalarValue, if_neg (hword _ (by decide)), if_neg (hword _ (by decide)),
    if_neg (hword _ (by decide)), hnumber]
  rfl

theorem readPieces_scalar_blank (hc : Text.isWhitespace c = true) (hmem : c ∈ raw) :
    readPieces number (.scalar raw) st ps = none := by
  induction ps generalizing raw with
  | nil => cases st <;> simp [readPieces, finish, scalarValue_blank hc hmem]
  | cons p ps ih =>
      cases p with
      | str s => cases hs : stringValue s <;> simp [readPieces, stepPiece, stepStr, hs]
      | out d =>
          simp only [readPieces, stepPiece, stepOut, scalarValue_blank hc hmem]
          split
          · rfl
          · split
            · rfl
            · exact ih (List.mem_append_left _ hmem)

/-- A value does not begin with white space, -/
theorem readPieces_beginValue_blank (hc : Text.isWhitespace c = true) :
    ((beginValue st c).bind fun next => readPieces number next.1 next.2 ps) = none := by
  rw [beginValue, if_neg (ne_of_blank hc (d := '[') (by decide)), if_neg (ne_of_blank hc (d := '{') (by decide))]
  exact readPieces_scalar_blank hc List.mem_cons_self

/-- and nothing but delimiters is behind one. -/
theorem behindValue_blank (hc : Text.isWhitespace c = true) : behindValue v st c = none := by
  cases st with
  | nil => rfl
  | cons frame st =>
      cases frame <;>
        simp [behindValue, ne_of_blank hc (d := ',') (by decide), ne_of_blank hc (d := ']') (by decide), ne_of_blank hc (d := '}') (by decide)]

/-- The reader is not in a value without delimiters. -/
def Mode.Between : Mode → Prop
  | .scalar _ => False
  | .value | .arrayStart | .name _ _ | .colon _ _ | .done _ => True

theorem stepOut_blank (hm : m.Between) (hc : isBlank c = true) :
    stepOut number m st c = some (m, st) := by
  cases m with
  | scalar raw => cases hm
  | value => rw [stepOut, if_pos hc]
  | arrayStart => rw [stepOut, if_pos hc]
  | name fields start => rw [stepOut, if_pos hc]
  | colon fields name => rw [stepOut, if_pos hc]
  | done v => rw [stepOut, if_pos hc]

/-- White space in front of a text, -/
theorem readPieces_cons_white (hm : m.Between) (hc : Text.isWhitespace c = true)
    (h : readPieces number m st (.out c :: ps) = some v) : readPieces number m st ps = some v := by
  by_cases hblank : isBlank c = true
  · rw [readPieces, stepPiece, stepOut_blank hm hblank] at h
    exact h
  · rw [readPieces, stepPiece] at h
    cases m with
    | scalar raw => cases hm
    | value =>
        rw [stepOut, if_neg hblank, readPieces_beginValue_blank hc] at h
        cases h
    | arrayStart =>
        rw [stepOut, if_neg hblank, if_neg (ne_of_blank hc (by decide)),
          readPieces_beginValue_blank hc] at h
        cases h
    | name fields start =>
        rw [stepOut, if_neg hblank, if_neg fun hend => ne_of_blank hc (by decide) hend.1] at h
        cases h
    | colon fields name =>
        rw [stepOut, if_neg hblank, if_neg (ne_of_blank hc (by decide))] at h
        cases h
    | done v =>
        rw [stepOut, if_neg hblank, behindValue_blank hc] at h
        cases h

/-- and at its end. -/
theorem finish_of_blank (hc : Text.isWhitespace c = true)
    (h : readPieces number m st [.out c] = some v) : finish number m st = some v := by
  by_cases hm : m.Between
  · exact readPieces_cons_white hm hc h
  · cases m with
    | scalar raw =>
        rw [readPieces, stepPiece, stepOut] at h
        split at h
        · cases hraw : scalarValue number raw with
          | none =>
              rw [hraw] at h
              cases h
          | some w =>
              rw [hraw] at h
              cases st with
              | nil => exact hraw.trans h
              | cons frame st => cases h
        · rw [if_neg (by simp [ne_of_blank hc (d := ',') (by decide), ne_of_blank hc (d := ']') (by decide), ne_of_blank hc (d := '}') (by decide)])] at h
          rw [Option.bind_some, readPieces_scalar_blank hc (by simp)] at h
          cases h
    | _ => exact absurd trivial hm

theorem readPieces_concat_blank (hc : Text.isWhitespace c = true)
    (h : readPieces number m st (ps ++ [.out c]) = some v) :
    readPieces number m st ps = some v := by
  induction ps generalizing m st with
  | nil => exact finish_of_blank hc h
  | cons p ps ih =>
      rw [List.cons_append, readPieces] at h
      obtain ⟨next, hnext, hrest⟩ := Option.bind_eq_some_iff.1 h
      rw [readPieces, hnext]
      exact ih hrest

/-- White space in front of a document, -/
theorem readChars_cons_blank (hc : Text.isWhitespace c = true)
    (h : readChars number (c :: cs) = some v) : readChars number cs = some v := by
  have hquote : c ≠ '"' := by
    rintro rfl
    revert hc
    decide
  have hpieces : pieces (c :: cs) = (pieces cs).map fun ps => .out c :: ps := by
    rw [pieces, piecesFrom, if_neg hquote, pieces]
  rw [readChars, hpieces] at h
  rw [readChars]
  cases hps : pieces cs with
  | none =>
      rw [hps] at h
      cases h
  | some ps =>
      rw [hps] at h
      exact readPieces_cons_white trivial hc h

/-- and behind it. -/
theorem readChars_concat_blank (hc : Text.isWhitespace c = true)
    (h : readChars number (cs ++ [c]) = some v) : readChars number cs = some v := by
  have hquote : c ≠ '"' := by
    rintro rfl
    revert hc
    decide
  rw [readChars] at h
  obtain ⟨qs, hqs, hread⟩ := Option.bind_eq_some_iff.1 h
  obtain ⟨ps, hps, rfl⟩ := pieces_concat hquote hqs
  rw [readChars, hps]
  exact readPieces_concat_blank hc hread

theorem readChars_dropWhile (h : readChars number cs = some v) :
    readChars number (cs.dropWhile Text.isWhitespace) = some v := by
  induction cs with
  | nil => exact h
  | cons c cs ih =>
      rw [List.dropWhile_cons]
      split
      · next hc => exact ih (readChars_cons_blank hc h)
      · exact h

theorem readChars_reverse_dropWhile (h : readChars number cs.reverse = some v) :
    readChars number (cs.dropWhile Text.isWhitespace).reverse = some v := by
  induction cs with
  | nil => exact h
  | cons c cs ih =>
      rw [List.dropWhile_cons]
      split
      · next hc =>
          rw [List.reverse_cons] at h
          exact ih (readChars_concat_blank hc h)
      · exact h

/-- **White space around a document** does not matter. -/
theorem readJson_trim {text : String} (h : readJson number text = some v) :
    readJson number (Text.trim text) = some v := by
  rw [readJson, Text.trim, String.toList_ofList, Text.trimChars]
  refine readChars_reverse_dropWhile ?_
  rw [List.reverse_reverse]
  exact readChars_dropWhile h

theorem trim_ne_empty {text : String} (h : readJson number text = some v) :
    Text.trim text ≠ "" := by
  intro hempty
  have hread := readJson_trim h
  rw [hempty] at hread
  cases hread

end Blanks

end JsonReader
end PeerClaw
