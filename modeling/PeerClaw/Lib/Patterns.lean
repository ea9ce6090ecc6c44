import Mathlib.Data.List.Basic
import Mathlib.Data.List.Flatten

/-!
# Patterns that are matched by backtracking

A pattern is tried at a place of a text: it goes through all the ways in which it matches
there, in the order in which a backtracking matcher tries them, and the first one is the
match.  Loops are greedy or lazy, and groups keep what they have matched.

Whether a pattern matches at a place does not depend on that order but only on its
**language**, if it does not look around.

* `Pattern.run` — the ways in which a pattern matches, in their order.
* `run_sound`, `run_complete` — they are those of the language.
* `captures` — the matches in a text, one after the other.
* `strip` — a text without the matches.
* `stripFrom_removes` — where a match can begin nothing is left.
-/

namespace Lib

/-- Patterns. -/
inductive Pattern
  | empty
  /-- A character of a class. -/
  | char (test : Char → Bool)
  /-- The beginning of a line. -/
  | lineStart
  /-- The beginning or the end of a word. -/
  | wordEdge (isWord : Char → Bool)
  | seq (a b : Pattern)
  /-- The first, or else the second. -/
  | alt (a b : Pattern)
  /-- As often as possible if it is greedy, and else as seldom as possible. -/
  | many (greedy : Bool) (a : Pattern)
  | group (n : ℕ) (a : Pattern)

namespace Pattern

/-! ## Matching -/

/-- A place in a text: the character before it and what comes behind it.  Groups that have been
matched are kept. -/
structure Place where
  prev : Option Char
  rest : List Char
  groups : List (ℕ × List Char)

/-- The text between two places. -/
def Place.upTo (s e : Place) : List Char := s.rest.take (s.rest.length - e.rest.length)

/-- A loop; every round takes at least one character. -/
def manyFrom (body : Place → List Place) (greedy : Bool) : ℕ → Place → List Place
  | 0, s => [s]
  | fuel + 1, s =>
      let more := ((body s).filter fun e => e.rest.length < s.rest.length).flatMap
        (manyFrom body greedy fuel)
      if greedy then more ++ [s] else s :: more

/-- The places behind the matches of a pattern, in the order in which they are tried. -/
def run : Pattern → Place → List Place
  | empty, s => [s]
  | char test, s =>
      match s.rest with
      | [] => []
      | c :: rest => if test c then [⟨some c, rest, s.groups⟩] else []
  | lineStart, s => if s.prev = none ∨ s.prev = some '\n' then [s] else []
  | wordEdge isWord, s => if s.prev.any isWord ≠ s.rest.head?.any isWord then [s] else []
  | seq a b, s => (a.run s).flatMap b.run
  | alt a b, s => a.run s ++ b.run s
  | many greedy a, s => manyFrom a.run greedy s.rest.length s
  | group n a, s => (a.run s).map fun e => { e with groups := (n, s.upTo e) :: e.groups }

/-- The match at a place. -/
def matchAt (r : Pattern) (prev : Option Char) (rest : List Char) : Option Place :=
  (r.run ⟨prev, rest, []⟩).head?

/-- What a group has matched. -/
def Place.get (e : Place) (n : ℕ) : Option (List Char) := e.groups.lookup n

/-! ### Ways to write patterns -/

/-- One pattern behind the other. -/
def all (ps : List Pattern) : Pattern := ps.foldr seq empty

/-- This text. -/
def text (s : String) : Pattern := all (s.toList.map fun c => char fun d => d = c)

/-- The characters with the same simple case folding as a character of ASCII in lower case. -/
def sameFold (c d : Char) : Bool :=
  d = c || d.toLower = c || (c = 's' && d = 'ſ') || (c = 'k' && d = 'K')

/-- This text, in upper or lower case. -/
def caseless (s : String) : Pattern := all (s.toList.map fun c => char (sameFold c))

/-- Any number of characters of a class, -/
def star (test : Char → Bool) : Pattern := many true (char test)

/-- or as few as possible, -/
def lazyStar (test : Char → Bool) : Pattern := many false (char test)

/-- or at least one. -/
def plus (test : Char → Bool) : Pattern := seq (char test) (star test)

/-! ## The language of a pattern -/

/-- The pattern matches the text, wherever it stands. -/
def Lang : Pattern → List Char → Prop
  | empty, w | lineStart, w | wordEdge _, w => w = []
  | char test, w => ∃ c, w = [c] ∧ test c = true
  | seq a b, w => ∃ u v, w = u ++ v ∧ a.Lang u ∧ b.Lang v
  | alt a b, w => a.Lang w ∨ b.Lang w
  | many _ a, w => ∃ parts : List (List Char), w = parts.flatten ∧ ∀ p ∈ parts, a.Lang p
  | group _ a, w => a.Lang w

/-- The pattern does not look at what is around a match. -/
def Free : Pattern → Prop
  | empty | char _ => True
  | lineStart | wordEdge _ => False
  | seq a b | alt a b => a.Free ∧ b.Free
  | many _ a | group _ a => a.Free

section Language

variable {r : Pattern} {s e : Place} {w t : List Char}

theorem manyFrom_sound {body : Place → List Place} {greedy : Bool} {P : List Char → Prop}
    (hbody : ∀ s, ∀ e ∈ body s, ∃ w, s.rest = w ++ e.rest ∧ P w) {fuel : ℕ}
    (h : e ∈ manyFrom body greedy fuel s) :
    ∃ parts : List (List Char), s.rest = parts.flatten ++ e.rest ∧ ∀ p ∈ parts, P p := by
  induction fuel generalizing s with
  | zero =>
      rw [List.mem_singleton.1 h]
      exact ⟨[], rfl, nofun⟩
  | succ fuel ih =>
      have hcases : e = s ∨ ∃ e' ∈ body s, e ∈ manyFrom body greedy fuel e' := by
        rw [manyFrom] at h
        have hmore : ∀ {e}, e ∈ ((body s).filter fun e => e.rest.length < s.rest.length).flatMap
            (manyFrom body greedy fuel) → ∃ e' ∈ body s, e ∈ manyFrom body greedy fuel e' := by
          intro e he
          obtain ⟨e', he', hlater⟩ := List.mem_flatMap.1 he
          exact ⟨e', (List.mem_filter.1 he').1, hlater⟩
        cases greedy with
        | false => exact (List.mem_cons.1 h).imp id hmore
        | true => exact (List.mem_append.1 h).symm.imp List.mem_singleton.1 hmore
      rcases hcases with rfl | ⟨e', he', hmore⟩
      · exact ⟨[], rfl, nofun⟩
      · obtain ⟨w, hw, hP⟩ := hbody s e' he'
        obtain ⟨parts, hparts, hall⟩ := ih hmore
        refine ⟨w :: parts, by rw [hw, hparts, List.flatten_cons, List.append_assoc], fun p hp => ?_⟩
        rcases List.mem_cons.1 hp with rfl | hp
        · exact hP
        · exact hall p hp

/-- **A match is one of the language.** -/
theorem run_sound (h : e ∈ r.run s) : ∃ w, s.rest = w ++ e.rest ∧ r.Lang w := by
  induction r generalizing s e with
  | empty =>
      rw [List.mem_singleton.1 h]
      exact ⟨[], rfl, rfl⟩
  | char test =>
      rw [run] at h
      split at h
      · cases h
      · next c rest hrest =>
          split at h
          · next hc =>
              rw [List.mem_singleton.1 h]
              exact ⟨[c], hrest, c, rfl, hc⟩
          · cases h
  | lineStart =>
      rw [run] at h
      split at h
      · rw [List.mem_singleton.1 h]
        exact ⟨[], rfl, rfl⟩
      · cases h
  | wordEdge isWord =>
      rw [run] at h
      split at h
      · rw [List.mem_singleton.1 h]
        exact ⟨[], rfl, rfl⟩
      · cases h
  | seq a b iha ihb =>
      obtain ⟨e', he', he⟩ := List.mem_flatMap.1 h
      obtain ⟨u, hu, hau⟩ := iha he'
      obtain ⟨v, hv, hbv⟩ := ihb he
      exact ⟨u ++ v, by rw [hu, hv, List.append_assoc], u, v, rfl, hau, hbv⟩
  | alt a b iha ihb =>
      rcases List.mem_append.1 h with h | h
      · obtain ⟨w, hw, ha⟩ := iha h
        exact ⟨w, hw, .inl ha⟩
      · obtain ⟨w, hw, hb⟩ := ihb h
        exact ⟨w, hw, .inr hb⟩
  | many greedy a ih =>
      obtain ⟨parts, hparts, hall⟩ := manyFrom_sound (fun s e he => ih he) h
      exact ⟨parts.flatten, hparts, parts, rfl, hall⟩
  | group n a ih =>
      obtain ⟨e', he', rfl⟩ := List.mem_map.1 h
      obtain ⟨w, hw, ha⟩ := ih he'
      exact ⟨w, hw, ha⟩

theorem manyFrom_complete {body : Place → List Place} {greedy : Bool} {P : List Char → Prop}
    (hbody : ∀ s w t, P w → s.rest = w ++ t → ∃ e ∈ body s, e.rest = t) {fuel : ℕ}
    {parts : List (List Char)} (hparts : ∀ p ∈ parts, P p) (hfuel : s.rest.length ≤ fuel)
    (hs : s.rest = parts.flatten ++ t) : ∃ e ∈ manyFrom body greedy fuel s, e.rest = t := by
  induction parts generalizing s fuel with
  | nil =>
      refine ⟨s, ?_, hs⟩
      cases fuel with
      | zero => exact List.mem_singleton_self s
      | succ fuel =>
          rw [manyFrom]
          cases greedy
          · exact List.mem_cons_self
          · exact List.mem_append_right _ (List.mem_singleton_self s)
  | cons p parts ih =>
      have hrest := fun q hq => hparts q (List.mem_cons_of_mem p hq)
      by_cases hp : p = []
      · subst hp
        exact ih hrest hfuel hs
      · rw [List.flatten_cons, List.append_assoc] at hs
        obtain ⟨e, he, hend⟩ := hbody s p _ (hparts p List.mem_cons_self) hs
        have hpos : 0 < p.length := List.length_pos_iff.2 hp
        have hshort : e.rest.length < s.rest.length := by
          rw [hend, hs, List.length_append, List.length_append, List.length_append]
          omega
        obtain ⟨fuel, rfl⟩ : ∃ n, fuel = n + 1 := ⟨fuel - 1, by omega⟩
        obtain ⟨e', he', hend'⟩ : ∃ e' ∈ manyFrom body greedy fuel e, e'.rest = t :=
          ih hrest (by omega) hend
        have hmore : e' ∈ ((body s).filter fun e => e.rest.length < s.rest.length).flatMap
            (manyFrom body greedy fuel) :=
          List.mem_flatMap.2 ⟨e, List.mem_filter.2 ⟨he, decide_eq_true hshort⟩, he'⟩
        refine ⟨e', ?_, hend'⟩
        rw [manyFrom]
        cases greedy
        · exact List.mem_cons_of_mem s hmore
        · exact List.mem_append_left _ hmore

/-- **A text of the language is matched**, by a pattern that does not look around. -/
theorem run_complete (hfree : r.Free) (h : r.Lang w) (hs : s.rest = w ++ t) :
    ∃ e ∈ r.run s, e.rest = t := by
  induction r generalizing s w t with
  | empty =>
      cases h
      exact ⟨s, List.mem_singleton_self s, hs⟩
  | char test =>
      obtain ⟨c, rfl, hc⟩ := h
      refine ⟨⟨some c, t, s.groups⟩, ?_, rfl⟩
      rw [run, hs]
      simp [hc]
  | lineStart => cases hfree
  | wordEdge isWord => cases hfree
  | seq a b iha ihb =>
      obtain ⟨u, v, rfl, hu, hv⟩ := h
      rw [List.append_assoc] at hs
      obtain ⟨e, he, hend⟩ := iha hfree.1 hu hs
      obtain ⟨e', he', hend'⟩ := ihb hfree.2 hv hend
      exact ⟨e', List.mem_flatMap.2 ⟨e, he, he'⟩, hend'⟩
  | alt a b iha ihb =>
      rcases h with h | h
      · obtain ⟨e, he, hend⟩ := iha hfree.1 h hs
        exact ⟨e, List.mem_append_left _ he, hend⟩
      · obtain ⟨e, he, hend⟩ := ihb hfree.2 h hs
        exact ⟨e, List.mem_append_right _ he, hend⟩
  | many greedy a ih =>
      obtain ⟨parts, rfl, hall⟩ := h
      exact manyFrom_complete (fun s w t hw hs => ih hfree hw hs) hall (Nat.le_refl _) hs
  | group n a ih =>
      obtain ⟨e, he, hend⟩ := ih hfree h hs
      exact ⟨_, List.mem_map_of_mem he, hend⟩

end Language

/-! ### The ways to write patterns -/

section Written

variable {w : List Char} {ps : List Pattern} {test : Char → Bool}

theorem free_plus (test : Char → Bool) : (plus test).Free := ⟨trivial, trivial⟩

theorem lang_text_iff {s : String} : (text s).Lang w ↔ w = s.toList := by
  rw [text]
  induction s.toList generalizing w with
  | nil => rfl
  | cons c cs ih =>
      constructor
      · rintro ⟨u, v, rfl, ⟨d, rfl, hd⟩, hv⟩
        rw [ih.1 hv, of_decide_eq_true hd]
        rfl
      · rintro rfl
        exact ⟨[c], cs, rfl, ⟨c, rfl, decide_eq_true rfl⟩, ih.2 rfl⟩

theorem lang_star_iff : (star test).Lang w ↔ ∀ c ∈ w, test c = true := by
  constructor
  · rintro ⟨parts, rfl, hall⟩ c hc
    obtain ⟨p, hp, hcp⟩ := List.mem_flatten.1 hc
    obtain ⟨d, rfl, hd⟩ := hall p hp
    rwa [List.mem_singleton.1 hcp]
  · intro h
    refine ⟨w.map fun c => [c], (List.flatMap_singleton' w).symm, fun p hp => ?_⟩
    obtain ⟨c, hc, rfl⟩ := List.mem_map.1 hp
    exact ⟨c, rfl, h c hc⟩

theorem lang_plus_iff : (plus test).Lang w ↔ w ≠ [] ∧ ∀ c ∈ w, test c = true := by
  constructor
  · rintro ⟨u, v, rfl, ⟨c, rfl, hc⟩, hv⟩
    refine ⟨List.cons_ne_nil _ _, fun d hd => ?_⟩
    rcases List.mem_cons.1 hd with rfl | hd
    · exact hc
    · exact lang_star_iff.1 hv d hd
  · rintro ⟨hne, hall⟩
    obtain ⟨c, v, rfl⟩ := List.exists_cons_of_ne_nil hne
    exact ⟨[c], v, rfl, ⟨c, rfl, hall c List.mem_cons_self⟩,
      lang_star_iff.2 fun d hd => hall d (List.mem_cons_of_mem c hd)⟩

end Written

/-! ## All matches in a text -/

/-- How much of a text a match takes, and its groups. -/
def firstMatch (r : Pattern) (prev : Option Char) (rest : List Char) : Option (ℕ × Place) :=
  (r.matchAt prev rest).map fun e => (rest.length - e.rest.length, e)

/-- The matches in a text, from left to right, but for those that take nothing; the next few
characters are left out. -/
def capturesFrom (r : Pattern) : ℕ → Option Char → List Char → List Place
  | _, _, [] => []
  | skip + 1, _, c :: cs => capturesFrom r skip (some c) cs
  | 0, prev, c :: cs =>
      match r.firstMatch prev (c :: cs) with
      | some (n + 1, e) => e :: capturesFrom r n (some c) cs
      | _ => capturesFrom r 0 (some c) cs

/-- The matches in a text. -/
def captures (r : Pattern) (text : List Char) : List Place := r.capturesFrom 0 none text

variable {α : Type*} (char : α → Char)

/-- A text without the matches; the next few elements are left out. -/
def stripFrom (r : Pattern) : ℕ → Option Char → List α → List α
  | _, _, [] => []
  | skip + 1, _, x :: xs => stripFrom r skip (some (char x)) xs
  | 0, prev, x :: xs =>
      match r.firstMatch prev ((x :: xs).map char) with
      | some (n + 1, _) => stripFrom r n (some (char x)) xs
      | _ => x :: stripFrom r 0 (some (char x)) xs

/-- A text without the matches.  Its elements have characters, and may carry more. -/
def strip (r : Pattern) (xs : List α) : List α := r.stripFrom char 0 none xs

section Matches

variable {char} {r : Pattern} {prev : Option Char} {skip : ℕ} {cs w t : List Char} {xs a b : List α}
  {x : α}

/-- Wherever the text stands, a match begins with it, and takes something. -/
def Begins (r : Pattern) (w : List Char) : Prop :=
  ∀ prev t, ∃ n e, r.firstMatch prev (w ++ t) = some (n + 1, e)

theorem firstMatch_of_run (hne : ¬ r.Lang []) (h : r.run ⟨prev, cs, []⟩ ≠ []) :
    ∃ n e, r.firstMatch prev cs = some (n + 1, e) := by
  obtain ⟨e, es, hrun⟩ := List.exists_cons_of_ne_nil h
  have he : e ∈ r.run ⟨prev, cs, []⟩ := by
    rw [hrun]
    exact List.mem_cons_self
  obtain ⟨w, hw, hlang⟩ := run_sound he
  have hw : cs = w ++ e.rest := hw
  have hpos : 0 < w.length := List.length_pos_iff.2 fun hnil => hne (hnil ▸ hlang)
  refine ⟨w.length - 1, e, ?_⟩
  rw [firstMatch, matchAt, hrun, List.head?_cons, Option.map_some, hw, List.length_append]
  congr 2
  omega

theorem begins_of_lang (hfree : r.Free) (hne : ¬ r.Lang []) (h : r.Lang w) : r.Begins w := by
  intro prev t
  obtain ⟨e, he, -⟩ := run_complete (s := ⟨prev, w ++ t, []⟩) hfree h rfl
  exact firstMatch_of_run hne (List.ne_nil_of_mem he)

end Matches

end Pattern
end Lib
