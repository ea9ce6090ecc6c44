import PeerClaw.ReadJson

/-!
# Reading JSON line by line

A line feed stands in no string of a JSON document, so a document falls apart into lines
that begin and end outside strings, and the reader can be stopped behind each of them.
White space at the ends of a line makes no difference to where the reader stands behind it.

* `Reads` — from a state of the reader, a text is read to its end.
* `LeadsTo` — behind a text and a line feed, the reader is in a state.
* `reads_line` — a line is passed, and the rest is read.
* `Reads.trim_line` — the white space around a line does not matter.
* `leadsTo_read_iff` — when the lines passed so far are a document.
-/

namespace PeerClaw

open Lib JsonText

namespace JsonReader

section Lines

variable {number : List Char → Option Number} {m m' : Mode} {st st' : List Frame} {c : Char}
  {a b cs : List Char} {ps qs : List Piece} {v w : Value}

/-! ## Going through pieces -/

/-- The state of the reader behind some pieces. -/
def passPieces (number : List Char → Option Number) (m : Mode) (st : List Frame) :
    List Piece → Option (Mode × List Frame)
  | [] => some (m, st)
  | p :: ps => (stepPiece number m st p).bind fun next => passPieces number next.1 next.2 ps

theorem readPieces_append : readPieces number m st (ps ++ qs) =
    (passPieces number m st ps).bind fun next => readPieces number next.1 next.2 qs := by
  induction ps generalizing m st with
  | nil => rfl
  | cons p ps ih =>
      rw [List.cons_append, readPieces, passPieces, Option.bind_assoc]
      exact Option.bind_congr fun next _ => ih

theorem passPieces_append : passPieces number m st (ps ++ qs) =
    (passPieces number m st ps).bind fun next => passPieces number next.1 next.2 qs := by
  induction ps generalizing m st with
  | nil => rfl
  | cons p ps ih =>
      rw [List.cons_append, passPieces, passPieces, Option.bind_assoc]
      exact Option.bind_congr fun next _ => ih

theorem between_of_blank (hc : isBlank c = true)
    (h : stepOut number m st c = some (m', st')) : m'.Between := by
  by_cases hm : m.Between
  · rw [stepOut_blank hm hc] at h
    cases h
    exact hm
  · cases m with
    | scalar raw =>
        rw [stepOut, if_pos hc] at h
        obtain ⟨v, -, hv⟩ := Option.map_eq_some_iff.1 h
        cases hv
        trivial
    | _ => exact absurd trivial hm

/-! ## White space -/

theorem readPieces_white_newline (hc : Text.isWhitespace c = true)
    (h : readPieces number m st (ps ++ .out c :: .out '\n' :: qs) = some v) :
    readPieces number m st (ps ++ .out '\n' :: qs) = some v := by
  rw [readPieces_append] at h ⊢
  obtain ⟨⟨m', st'⟩, hpass, hread⟩ := Option.bind_eq_some_iff.1 h
  rw [hpass, Option.bind_some]
  by_cases hm : m'.Between
  · exact readPieces_cons_white hm hc hread
  · cases m' with
    | scalar raw =>
        simp only [readPieces, stepPiece] at hread ⊢
        rw [stepOut] at hread
        split at hread
        · -- the value ends with the white space, or else with the line feed
          cases hraw : scalarValue number raw with
          | none =>
              rw [hraw] at hread
              cases hread
          | some w =>
              rw [stepOut, if_pos (by decide), hraw]
              rw [hraw] at hread
              simpa [stepOut, isBlank] using hread
        · rw [if_neg (by simp [ne_of_blank hc (d := ',') (by decide), ne_of_blank hc (d := ']') (by decide), ne_of_blank hc (d := '}') (by decide)]),
            Option.bind_some, stepOut, if_pos (by decide), scalarValue_blank hc (by simp)] at hread
          cases hread
    | _ => exact absurd trivial hm

theorem readPieces_concat_newline (h : readPieces number m st ps = some v) :
    readPieces number m st (ps ++ [.out '\n']) = some v := by
  induction ps generalizing m st with
  | nil =>
      rw [List.nil_append, readPieces, stepPiece]
      cases m with
      | done w =>
          have hstays : stepOut number (.done w) st '\n' = some (.done w, st) :=
            stepOut_blank trivial (by decide)
          rw [hstays]
          exact h
      | scalar raw =>
          cases st with
          | nil =>
              have hraw : scalarValue number raw = some v := h
              rw [stepOut, if_pos (by decide), hraw]
              rfl
          | cons frame st => cases h
      | value => cases h
      | arrayStart => cases h
      | name fields start => cases h
      | colon fields name => cases h
  | cons p ps ih =>
      rw [readPieces] at h
      obtain ⟨next, hnext, hrest⟩ := Option.bind_eq_some_iff.1 h
      rw [List.cons_append, readPieces, hnext]
      exact ih hrest

/-! ## Values that cannot be -/

/-- A text with which no value without delimiters begins. -/
def Dead (raw : List Char) : Prop :=
  ∀ number : List Char → Option Number, ∀ more, scalarValue number (raw ++ more) = none

theorem Dead.concat (h : Dead cs) (c : Char) : Dead (cs ++ [c]) := by
  intro number more
  rw [List.append_assoc]
  exact h number _

theorem readPieces_dead (h : Dead cs) : readPieces number (.scalar cs) st ps = none := by
  have hnow : scalarValue number cs = none := by
    have hnone := h number []
    rwa [List.append_nil] at hnone
  induction ps generalizing cs with
  | nil => cases st <;> simp [readPieces, finish, hnow]
  | cons p ps ih =>
      cases p with
      | str s => cases hs : stringValue s <;> simp [readPieces, stepPiece, stepStr, hs]
      | out d =>
          simp only [readPieces, stepPiece, stepOut, hnow]
          split
          · rfl
          · split
            · rfl
            · have hnext := (h.concat d) number []
              rw [List.append_nil] at hnext
              exact ih (h.concat d) hnext

theorem readPieces_cons_dead (hm : m.Between) (hc : c.isAlpha = true)
    (hdead : ∀ st, readPieces number (.scalar [c]) st ps = none) :
    readPieces number m st (.out c :: ps) = none := by
  have hne : ∀ d : Char, d.isAlpha = false → c ≠ d := by
    rintro d hd rfl
    rw [hc] at hd
    cases hd
  have hblank : ¬ isBlank c = true := by
    rw [isBlank, decide_eq_true_eq]
    rintro (h | h | h | h)
    · exact hne ' ' (by decide) h
    · exact hne '\n' (by decide) h
    · exact hne '\t' (by decide) h
    · exact hne '\r' (by decide) h
  have hbegin : ∀ st, beginValue st c = some (.scalar [c], st) := fun st => by
    rw [beginValue, if_neg (hne '[' (by decide)), if_neg (hne '{' (by decide))]
  rw [readPieces, stepPiece]
  cases m with
  | scalar raw => cases hm
  | value =>
      rw [stepOut, if_neg hblank, hbegin]
      exact hdead _
  | arrayStart =>
      rw [stepOut, if_neg hblank, if_neg (hne ']' (by decide)), hbegin]
      exact hdead _
  | name fields start =>
      rw [stepOut, if_neg hblank, if_neg fun h => hne '}' (by decide) h.1]
      rfl
  | colon fields name =>
      rw [stepOut, if_neg hblank, if_neg (hne ':' (by decide))]
      rfl
  | done w =>
      rw [stepOut, if_neg hblank]
      cases st with
      | nil => rfl
      | cons frame st =>
          cases frame with
          | elements vs => simp [behindValue, hne ',' (by decide), hne ']' (by decide)]
          | members fields name => simp [behindValue, hne ',' (by decide), hne '}' (by decide)]

theorem dead_a : Dead ['a'] := by
  intro number more
  have hnumber : isNumber ('a' :: more) = false := by
    rw [isNumber, List.foldlM_cons]
    rfl
  rw [List.singleton_append, scalarValue, hnumber]
  simp

theorem dead_na : Dead ['n', 'a'] := by
  intro number more
  have hnumber : isNumber ('n' :: 'a' :: more) = false := by
    rw [isNumber, List.foldlM_cons]
    rfl
  show scalarValue number ('n' :: 'a' :: more) = none
  rw [scalarValue, hnumber]
  simp

/-! ## Lines -/

/-- From this state the rest of a document is read. -/
def Reads (number : List Char → Option Number) (m : Mode) (st : List Frame) (cs : List Char)
    (v : Value) : Prop :=
  ∃ ps, pieces cs = some ps ∧ readPieces number m st ps = some v

/-- Behind a text and a line feed the reader is in this state. -/
def LeadsTo (number : List Char → Option Number) (m : Mode) (st : List Frame) (cs : List Char)
    (m' : Mode) (st' : List Frame) : Prop :=
  ∃ ps, pieces cs = some ps ∧ passPieces number m st (ps ++ [.out '\n']) = some (m', st')

theorem readChars_eq_some_iff : readChars number cs = some v ↔ Reads number .value [] cs v := by
  rw [readChars, Option.bind_eq_some_iff, Reads]

theorem scanChar_newline (s : StringState) : scanChar s '\n' = none := by
  cases s with
  | hex lead missing code => rfl
  | _ => rfl

theorem piecesFrom_newline {mode : Option (StringState × List Char)}
    (h : piecesFrom mode (a ++ '\n' :: b) = some ps) :
    ∃ qs rs, piecesFrom mode a = some qs ∧ pieces b = some rs ∧ ps = qs ++ .out '\n' :: rs := by
  induction a generalizing mode ps with
  | nil =>
      rw [List.nil_append] at h
      cases mode with
      | none =>
          rw [piecesFrom, if_neg (by decide)] at h
          obtain ⟨rs, hrs, rfl⟩ := Option.map_eq_some_iff.1 h
          exact ⟨[], rs, rfl, hrs, rfl⟩
      | some inside =>
          obtain ⟨s, raw⟩ := inside
          rw [piecesFrom, if_neg fun hclose => absurd hclose.2 (by decide), scanChar_newline] at h
          cases h
  | cons d a ih =>
      rw [List.cons_append] at h
      cases mode with
      | none =>
          rw [piecesFrom] at h ⊢
          split at h
          · next hd =>
              rw [if_pos hd]
              exact ih h
          · next hd =>
              rw [if_neg hd]
              obtain ⟨rest, hrest, rfl⟩ := Option.map_eq_some_iff.1 h
              obtain ⟨qs, rs, hqs, hrs, rfl⟩ := ih hrest
              exact ⟨.out d :: qs, rs, by rw [hqs]; rfl, hrs, rfl⟩
      | some inside =>
          obtain ⟨s, raw⟩ := inside
          rw [piecesFrom] at h ⊢
          split at h
          · next hd =>
              rw [if_pos hd]
              obtain ⟨rest, hrest, rfl⟩ := Option.map_eq_some_iff.1 h
              obtain ⟨qs, rs, hqs, hrs, rfl⟩ := ih hrest
              exact ⟨.str raw :: qs, rs, by rw [hqs]; rfl, hrs, rfl⟩
          · next hd =>
              rw [if_neg hd]
              obtain ⟨next, hnext, hrest⟩ := Option.bind_eq_some_iff.1 h
              obtain ⟨qs, rs, hqs, hrs, rfl⟩ := ih hrest
              exact ⟨qs, rs, by rw [hnext]; exact hqs, hrs, rfl⟩

/-- The pieces of two texts with a character between them that is outside strings. -/
theorem pieces_append_cons (ha : pieces a = some ps) (hc : c ≠ '"') (hb : pieces b = some qs) :
    pieces (a ++ c :: b) = some (ps ++ .out c :: qs) := by
  obtain ⟨hps, rfl⟩ := text_pieces ha
  obtain ⟨hqs, rfl⟩ := text_pieces hb
  have htext : text (ps ++ .out c :: qs) = text ps ++ c :: text qs := by
    simp [text, Piece.text]
  rw [← htext]
  refine pieces_text fun p hp => ?_
  rcases List.mem_append.1 hp with hp | hp
  · exact hps p hp
  · rcases List.mem_cons.1 hp with rfl | hp
    · exact hc
    · exact hqs p hp

theorem pieces_cons (hc : c ≠ '"') : pieces (c :: cs) = (pieces cs).map fun ps => .out c :: ps := by
  rw [pieces, piecesFrom, if_neg hc, pieces]

theorem ne_quote_of_white (hc : Text.isWhitespace c = true) : c ≠ '"' := ne_of_blank hc (by decide)

/-- **A line** is passed, and the rest is read. -/
theorem reads_line (h : Reads number m st (a ++ '\n' :: b) v) :
    ∃ m' st', m'.Between ∧ LeadsTo number m st a m' st' ∧ Reads number m' st' b v := by
  obtain ⟨ps, hps, hread⟩ := h
  obtain ⟨qs, rs, hqs, hrs, rfl⟩ := piecesFrom_newline hps
  rw [List.append_cons, readPieces_append] at hread
  obtain ⟨⟨m', st'⟩, hpass, hrest⟩ := Option.bind_eq_some_iff.1 hread
  refine ⟨m', st', ?_, ⟨qs, hqs, hpass⟩, rs, hrs, hrest⟩
  rw [passPieces_append] at hpass
  obtain ⟨⟨m₁, st₁⟩, -, hlast⟩ := Option.bind_eq_some_iff.1 hpass
  obtain ⟨⟨m₂, st₂⟩, hstep, hend⟩ := Option.bind_eq_some_iff.1 hlast
  cases hend
  exact between_of_blank (by decide) hstep

/-- Some lines are a document when the reader is behind a value, and in nothing. -/
theorem leadsTo_read_iff (h : LeadsTo number .value [] a m st) (hm : m.Between) :
    readChars number a = some v ↔ m = .done v ∧ st = [] := by
  obtain ⟨ps, hps, hpass⟩ := h
  have hend : readPieces number .value [] (ps ++ [.out '\n']) = finish number m st := by
    rw [← List.append_nil (ps ++ [Piece.out '\n']), readPieces_append, hpass]
    rfl
  have hfinish : finish number m st = some v ↔ m = .done v ∧ st = [] := by
    cases m with
    | scalar raw => cases hm
    | done w => cases st <;> simp [finish]
    | value => cases st <;> simp [finish]
    | arrayStart => cases st <;> simp [finish]
    | name fields start => cases st <;> simp [finish]
    | colon fields name => cases st <;> simp [finish]
  rw [readChars, hps, Option.bind_some, ← hfinish, ← hend]
  exact ⟨readPieces_concat_newline, readPieces_concat_blank (by decide)⟩

theorem LeadsTo.concat (h : LeadsTo number .value [] a m st) (h' : LeadsTo number m st b m' st') :
    LeadsTo number .value [] (a ++ '\n' :: b) m' st' := by
  obtain ⟨ps, hps, hpass⟩ := h
  obtain ⟨qs, hqs, hpass'⟩ := h'
  refine ⟨ps ++ .out '\n' :: qs, pieces_append_cons hps (by decide) hqs, ?_⟩
  have hsplit : ps ++ .out '\n' :: qs ++ [.out '\n'] =
      (ps ++ [.out '\n']) ++ (qs ++ [.out '\n']) := by simp
  rw [hsplit, passPieces_append, hpass]
  exact hpass'

theorem LeadsTo.reads (h : LeadsTo number .value [] a m st) (h' : Reads number m st b v) :
    readChars number (a ++ '\n' :: b) = some v := by
  obtain ⟨ps, hps, hpass⟩ := h
  obtain ⟨qs, hqs, hread⟩ := h'
  refine readChars_eq_some_iff.2
    ⟨ps ++ .out '\n' :: qs, pieces_append_cons hps (by decide) hqs, ?_⟩
  rw [List.append_cons, readPieces_append, hpass]
  exact hread

/-! ## White space around a line -/

theorem Reads.of_cons (hm : m.Between) (hc : Text.isWhitespace c = true)
    (h : Reads number m st (c :: cs) v) : Reads number m st cs v := by
  obtain ⟨ps, hps, hread⟩ := h
  rw [pieces_cons (ne_quote_of_white hc)] at hps
  obtain ⟨qs, hqs, rfl⟩ := Option.map_eq_some_iff.1 hps
  exact ⟨qs, hqs, readPieces_cons_white hm hc hread⟩

theorem Reads.dropWhile (hm : m.Between) (h : Reads number m st (cs ++ b) v) :
    Reads number m st (cs.dropWhile Text.isWhitespace ++ b) v := by
  induction cs with
  | nil => exact h
  | cons c cs ih =>
      rw [List.dropWhile_cons]
      split
      · next hc => exact ih (Reads.of_cons hm hc h)
      · exact h

/-- Behind the last line, -/
theorem Reads.of_concat (hc : Text.isWhitespace c = true) (h : Reads number m st (cs ++ [c]) v) :
    Reads number m st cs v := by
  obtain ⟨ps, hps, hread⟩ := h
  obtain ⟨qs, hqs, rfl⟩ := pieces_concat (ne_quote_of_white hc) hps
  exact ⟨qs, hqs, readPieces_concat_blank hc hread⟩

/-- and behind another one. -/
theorem Reads.of_concat_line (hc : Text.isWhitespace c = true)
    (h : Reads number m st (cs ++ [c] ++ '\n' :: b) v) :
    Reads number m st (cs ++ '\n' :: b) v := by
  obtain ⟨ps, hps, hread⟩ := h
  obtain ⟨line, rs, hline, hrs, rfl⟩ := piecesFrom_newline hps
  obtain ⟨qs, hqs, rfl⟩ := pieces_concat (ne_quote_of_white hc) hline
  refine ⟨qs ++ .out '\n' :: rs, pieces_append_cons hqs (by decide) hrs, ?_⟩
  rw [List.append_assoc] at hread
  exact readPieces_white_newline hc hread

theorem Reads.trim (hm : m.Between) (h : Reads number m st cs v) :
    Reads number m st (Text.trimChars cs) v := by
  have hend : ∀ cs : List Char, Reads number m st cs.reverse v →
      Reads number m st (cs.dropWhile Text.isWhitespace).reverse v := by
    intro cs h
    induction cs with
    | nil => exact h
    | cons c cs ih =>
        rw [List.dropWhile_cons]
        split
        · next hc =>
            rw [List.reverse_cons] at h
            exact ih (Reads.of_concat hc h)
        · exact h
  rw [Text.trimChars]
  refine hend _ ?_
  rw [List.reverse_reverse]
  rw [← List.append_nil cs] at h
  have hstart := Reads.dropWhile hm h
  rwa [List.append_nil] at hstart

theorem Reads.trim_line (hm : m.Between) (h : Reads number m st (cs ++ '\n' :: b) v) :
    Reads number m st (Text.trimChars cs ++ '\n' :: b) v := by
  have hend : ∀ cs : List Char, Reads number m st (cs.reverse ++ '\n' :: b) v →
      Reads number m st ((cs.dropWhile Text.isWhitespace).reverse ++ '\n' :: b) v := by
    intro cs h
    induction cs with
    | nil => exact h
    | cons c cs ih =>
        rw [List.dropWhile_cons]
        split
        · next hc =>
            rw [List.reverse_cons] at h
            exact ih (Reads.of_concat_line hc h)
        · exact h
  rw [Text.trimChars]
  refine hend _ ?_
  rw [List.reverse_reverse]
  exact Reads.dropWhile hm h

/-! ## What a line is not, and what comes behind a document -/

theorem not_reads_args (hm : m.Between) : ¬ Reads number m st ('a' :: cs) v := by
  rintro ⟨ps, hps, hread⟩
  rw [pieces_cons (by decide)] at hps
  obtain ⟨qs, -, rfl⟩ := Option.map_eq_some_iff.1 hps
  rw [readPieces_cons_dead hm (by decide) fun st => readPieces_dead dead_a] at hread
  cases hread

theorem not_reads_name (hm : m.Between) : ¬ Reads number m st ('n' :: 'a' :: cs) v := by
  rintro ⟨ps, hps, hread⟩
  rw [pieces_cons (by decide), pieces_cons (by decide)] at hps
  obtain ⟨qs, hqs, rfl⟩ := Option.map_eq_some_iff.1 hps
  obtain ⟨qs, -, rfl⟩ := Option.map_eq_some_iff.1 hqs
  rw [readPieces_cons_dead hm (by decide) fun st => ?_] at hread
  · cases hread
  · rw [readPieces, stepPiece, stepOut, if_neg (by decide), if_neg (by decide)]
    exact readPieces_dead dead_na

theorem Reads.of_done (h : Reads number (.done w) [] cs v) :
    v = w ∧ ∀ c ∈ cs, Text.isWhitespace c = true := by
  obtain ⟨ps, hps, hread⟩ := h
  obtain ⟨-, rfl⟩ := text_pieces hps
  clear hps
  induction ps with
  | nil =>
      cases hread
      exact ⟨rfl, nofun⟩
  | cons p ps ih =>
      cases p with
      | str raw => cases hraw : stringValue raw <;> simp [readPieces, stepPiece, stepStr, hraw] at hread
      | out c =>
          rw [readPieces, stepPiece, stepOut] at hread
          by_cases hc : isBlank c = true
          · rw [if_pos hc] at hread
            obtain ⟨hv, hrest⟩ := ih hread
            refine ⟨hv, fun d hd => ?_⟩
            rcases List.mem_cons.1 hd with rfl | hd
            · rw [isBlank, decide_eq_true_eq] at hc
              rcases hc with rfl | rfl | rfl | rfl <;> decide
            · exact hrest d hd
          · rw [if_neg hc] at hread
            cases hread

end Lines

end JsonReader
end PeerClaw
