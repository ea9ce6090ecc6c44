import Mathlib.Data.List.Basic
import Mathlib.Data.List.Infix
import Mathlib.Tactic.Tauto

/-!
# Patterns with wildcards

A pattern is a sequence of letters and of two wildcards: one that stands for one letter, and one
that stands for any number of letters, and for one at least where the pattern ends.  A matcher that
goes through a text once has to say where the letters of a wildcard end; it may say: where for the
first time something comes that fits what follows the wildcard.

* `Matches` — what a pattern means; `Matches.decidable`.
* `FirstFit` — what is found in one pass; `FirstFit.matches`.
* `Settled` — the patterns with which one pass finds everything.
* `firstFit_of_settled`, `exists_missed` — and they are those.
-/

namespace Lib
namespace Glob

/-- A letter of a pattern. -/
inductive Seg (α : Type*)
  | lit (a : α)
  /-- One letter. -/
  | one
  /-- Any number of letters. -/
  | many
  deriving DecidableEq

variable {α : Type*}

/-- What a pattern means. -/
inductive Matches : List (Seg α) → List α → Prop
  | nil : Matches [] []
  | lit {ps : List (Seg α)} {xs : List α} (a : α) : Matches ps xs → Matches (.lit a :: ps) (a :: xs)
  | one {ps : List (Seg α)} {xs : List α} (x : α) : Matches ps xs → Matches (.one :: ps) (x :: xs)
  | last (x : α) (xs : List α) : Matches [.many] (x :: xs)
  | many {q : Seg α} {ps : List (Seg α)} {xs : List α} (skipped : List α) :
      Matches (q :: ps) xs → Matches (.many :: q :: ps) (skipped ++ xs)

/-- What is found in one pass: a wildcard ends where the first letter comes that fits what follows
it. -/
inductive FirstFit (fits : Seg α → α → Prop) : List (Seg α) → List α → Prop
  | nil : FirstFit fits [] []
  | lit {ps : List (Seg α)} {xs : List α} (a : α) : FirstFit fits ps xs →
      FirstFit fits (.lit a :: ps) (a :: xs)
  | one {ps : List (Seg α)} {xs : List α} (x : α) : FirstFit fits ps xs →
      FirstFit fits (.one :: ps) (x :: xs)
  | last (x : α) (xs : List α) : FirstFit fits [.many] (x :: xs)
  | many {q : Seg α} {ps : List (Seg α)} {x : α} {xs : List α} (skipped : List α) :
      (∀ y ∈ skipped, ¬ fits q y) → fits q x → FirstFit fits (q :: ps) (x :: xs) →
      FirstFit fits (.many :: q :: ps) (skipped ++ x :: xs)

/-! ## What a pattern means -/

section Matches

variable {ps : List (Seg α)} {xs : List α} {q : Seg α} {a x : α}

@[simp] theorem matches_nil : Matches ([] : List (Seg α)) xs ↔ xs = [] := by
  constructor
  · rintro ⟨⟩
    rfl
  · rintro rfl
    exact .nil

@[simp] theorem matches_lit : Matches (.lit a :: ps) (x :: xs) ↔ x = a ∧ Matches ps xs := by
  constructor
  · rintro ⟨⟩
    exact ⟨rfl, by assumption⟩
  · rintro ⟨rfl, h⟩
    exact .lit x h

@[simp] theorem matches_one : Matches (.one :: ps) (x :: xs) ↔ Matches ps xs := by
  constructor
  · rintro ⟨⟩
    assumption
  · exact .one x

@[simp] theorem matches_last : Matches ([.many] : List (Seg α)) xs ↔ xs ≠ [] := by
  constructor
  · rintro ⟨⟩
    exact List.cons_ne_nil _ _
  · intro h
    cases xs with
    | nil => exact absurd rfl h
    | cons x xs => exact .last x xs

theorem matches_many : Matches (.many :: q :: ps) xs ↔ ∃ ys, ys <:+ xs ∧ Matches (q :: ps) ys := by
  constructor
  · rintro ⟨⟩
    next ys skipped h => exact ⟨ys, List.suffix_append skipped ys, h⟩
  · rintro ⟨ys, ⟨skipped, rfl⟩, h⟩
    exact .many skipped h

theorem not_matches_nil : ¬ Matches (q :: ps) ([] : List α) := by
  intro h
  generalize hps : q :: ps = ps' at h
  generalize hxs : ([] : List α) = xs' at h
  induction h generalizing q ps with
  | nil => cases hps
  | lit => cases hxs
  | one => cases hxs
  | last => cases hxs
  | many skipped _ ih => exact ih rfl (List.append_eq_nil_iff.1 hxs.symm).2.symm

end Matches

/-- A text matches, by trying everything. -/
def matches? [DecidableEq α] : List (Seg α) → List α → Bool
  | [], xs => xs.isEmpty
  | [.many], xs => !xs.isEmpty
  | .many :: q :: ps, xs => xs.tails.any fun ys => matches? (q :: ps) ys
  | .lit _ :: _, [] => false
  | .one :: _, [] => false
  | .lit a :: ps, x :: xs => decide (x = a) && matches? ps xs
  | .one :: ps, _ :: xs => matches? ps xs

theorem matches?_iff [DecidableEq α] (ps : List (Seg α)) (xs : List α) :
    matches? ps xs = true ↔ Matches ps xs := by
  induction ps, xs using matches?.induct with
  | case1 xs => simp [matches?]
  | case2 xs => simp [matches?]
  | case3 q ps xs ih =>
      simp [matches?, matches_many, ih]
  | case4 a ps => simp [matches?, not_matches_nil]
  | case5 ps => simp [matches?, not_matches_nil]
  | case6 a ps x xs ih => simp [matches?, ih]
  | case7 ps x xs ih => simp [matches?, ih]

instance Matches.decidable [DecidableEq α] (ps : List (Seg α)) (xs : List α) :
    Decidable (Matches ps xs) :=
  decidable_of_iff _ (matches?_iff ps xs)

/-! ## What is found in one pass -/

section FirstFit

variable {fits : Seg α → α → Prop} {ps : List (Seg α)} {xs : List α} {q : Seg α} {a x : α}

/-- **What is found matches.** -/
theorem FirstFit.matches (h : FirstFit fits ps xs) : Matches ps xs := by
  induction h with
  | nil => exact .nil
  | lit a _ ih => exact .lit a ih
  | one x _ ih => exact .one x ih
  | last x xs => exact .last x xs
  | many skipped _ _ _ ih => exact .many skipped ih

@[simp] theorem firstFit_nil : FirstFit fits [] xs ↔ xs = [] := by
  constructor
  · rintro ⟨⟩
    rfl
  · rintro rfl
    exact .nil

@[simp] theorem firstFit_lit : FirstFit fits (.lit a :: ps) (x :: xs) ↔
    x = a ∧ FirstFit fits ps xs := by
  constructor
  · rintro ⟨⟩
    exact ⟨rfl, by assumption⟩
  · rintro ⟨rfl, h⟩
    exact .lit x h

@[simp] theorem firstFit_one : FirstFit fits (.one :: ps) (x :: xs) ↔ FirstFit fits ps xs := by
  constructor
  · rintro ⟨⟩
    assumption
  · exact .one x

@[simp] theorem firstFit_last : FirstFit fits [.many] xs ↔ xs ≠ [] := by
  constructor
  · intro h
    exact matches_last.1 h.matches
  · intro h
    cases xs with
    | nil => exact absurd rfl h
    | cons x xs => exact .last x xs

theorem not_firstFit_nil : ¬ FirstFit fits (q :: ps) [] := fun h => not_matches_nil h.matches

/-- A wildcard, in a text that begins with what fits, -/
theorem firstFit_many_of_fits (h : fits q x) :
    FirstFit fits (.many :: q :: ps) (x :: xs) ↔ FirstFit fits (q :: ps) (x :: xs) := by
  constructor
  · intro hfit
    generalize hxs : x :: xs = ys at hfit
    cases hfit with
    | many skipped hskipped hx hrest =>
        cases skipped with
        | nil => exact hrest
        | cons y skipped =>
            cases hxs
            exact absurd h (hskipped x List.mem_cons_self)
  · intro hrest
    exact FirstFit.many [] (by simp) h hrest

/-- and in one that does not. -/
theorem firstFit_many_of_not_fits (h : ¬ fits q x) :
    FirstFit fits (.many :: q :: ps) (x :: xs) ↔ FirstFit fits (.many :: q :: ps) xs := by
  constructor
  · intro hfit
    generalize hxs : x :: xs = ys at hfit
    cases hfit with
    | many skipped hskipped hx hrest =>
        cases skipped with
        | nil =>
            cases hxs
            exact absurd hx h
        | cons y skipped =>
            cases hxs
            exact .many skipped (fun z hz => hskipped z (List.mem_cons_of_mem _ hz)) hx hrest
  · intro hfit
    cases hfit with
    | many skipped hskipped hx hrest =>
        refine FirstFit.many (x :: skipped) ?_ hx hrest
        intro z hz
        rcases List.mem_cons.1 hz with rfl | hz
        · exact h
        · exact hskipped z hz

theorem firstFit_many_iff {fits : Seg α → α → Prop} [∀ q, DecidablePred (fits q)] :
    FirstFit fits (.many :: q :: ps) xs ↔
      FirstFit fits (q :: ps) (xs.dropWhile fun y => !decide (fits q y)) := by
  induction xs with
  | nil => simp [not_firstFit_nil]
  | cons x xs ih =>
      by_cases hx : fits q x
      · rw [firstFit_many_of_fits hx, List.dropWhile_cons_of_neg (by simp [hx])]
      · rw [firstFit_many_of_not_fits hx, List.dropWhile_cons_of_pos (by simp [hx]), ih]

end FirstFit

/-! ## Patterns with which one pass finds everything -/

/-- Where a pattern is being read. -/
inductive Place
  /-- No wildcard for many letters has come. -/
  | before
  /-- Right behind one. -/
  | behind
  /-- Further behind one. -/
  | within

/-- What follows a wildcard for many letters is nothing, or one letter of any kind, wildcards for
one letter each, and a wildcard for many letters again. -/
def settledAt : Place → List (Seg α) → Bool
  | .before, [] => true
  | .before, .many :: ps => settledAt .behind ps
  | .before, _ :: ps => settledAt .before ps
  | .behind, [] => true
  | .behind, .many :: _ => false
  | .behind, _ :: ps => settledAt .within ps
  | .within, [] => false
  | .within, .one :: ps => settledAt .within ps
  | .within, .many :: ps => settledAt .behind ps
  | .within, .lit _ :: _ => false

/-- One pass finds everything. -/
def Settled (ps : List (Seg α)) : Prop := settledAt .before ps = true

instance (ps : List (Seg α)) : Decidable (Settled ps) := inferInstanceAs (Decidable (_ = true))

theorem settled_of_not_many {ps : List (Seg α)} (h : .many ∉ ps) : Settled ps := by
  unfold Settled
  induction ps with
  | nil => rfl
  | cons q ps ih =>
      obtain ⟨hq, hps⟩ := not_or.1 (List.mem_cons.not.1 h)
      cases q with
      | lit a => exact ih hps
      | one => exact ih hps
      | many => exact absurd rfl hq

/-- What it means that a letter of a text fits one of a pattern. -/
structure Fitting (fits : Seg α → α → Prop) : Prop where
  lit : ∀ a x, fits (.lit a) x ↔ a = x
  one : ∀ x, fits .one x

section Settled

variable {fits : Seg α → α → Prop} {ps : List (Seg α)} {xs ys : List α} {q : Seg α}

theorem Matches.uncons (hfits : Fitting fits) (hq : q ≠ .many) (h : Matches (q :: ps) xs) :
    ∃ x xs', xs = x :: xs' ∧ fits q x ∧ Matches ps xs' := by
  cases h with
  | lit a h => exact ⟨a, _, rfl, (hfits.lit a a).2 rfl, h⟩
  | one x h => exact ⟨x, _, rfl, hfits.one x, h⟩
  | last => exact absurd rfl hq
  | many => exact absurd rfl hq

theorem FirstFit.cons_of_fits (hfits : Fitting fits) (hq : q ≠ .many) {x : α} (hx : fits q x)
    (h : FirstFit fits ps xs) : FirstFit fits (q :: ps) (x :: xs) := by
  cases q with
  | lit a =>
      obtain rfl := (hfits.lit a x).1 hx
      exact .lit a h
  | one => exact .one x h
  | many => exact absurd rfl hq

theorem exists_first {x : α} (hx : fits q x) (h : x :: xs <:+ ys) :
    ∃ skipped y rest, ys = skipped ++ y :: rest ∧ (∀ z ∈ skipped, ¬ fits q z) ∧ fits q y ∧
      xs <:+ rest := by
  classical
  induction ys with
  | nil => simp at h
  | cons y ys ih =>
      by_cases hy : fits q y
      · refine ⟨[], y, ys, rfl, by simp, hy, ?_⟩
        rcases List.suffix_cons_iff.1 h with heq | hsuffix
        · cases heq
          exact List.suffix_refl _
        · exact (List.suffix_cons x xs).trans hsuffix
      · rcases List.suffix_cons_iff.1 h with heq | hsuffix
        · cases heq
          exact absurd hx hy
        · obtain ⟨skipped, z, rest, rfl, hskipped, hz, hrest⟩ := ih hsuffix
          refine ⟨y :: skipped, z, rest, rfl, ?_, hz, hrest⟩
          intro w hw
          rcases List.mem_cons.1 hw with rfl | hw
          · exact hy
          · exact hskipped w hw

/-- **Earlier is as good.**  What matches the rest of a pattern after a wildcard is found in one
pass, from any earlier place on. -/
theorem firstFit_of_suffix (hfits : Fitting fits) (place : Place) (hplace : place ≠ .before)
    (h : settledAt place ps = true) (hsuffix : xs <:+ ys) :
    match place with
    | .within => Matches ps xs → FirstFit fits ps ys
    | _ => Matches (.many :: ps) xs → FirstFit fits (.many :: ps) ys := by
  induction ps generalizing place xs ys with
  | nil =>
      cases place with
      | before => exact absurd rfl hplace
      | within => cases h
      | behind =>
          simp only [matches_last, firstFit_last]
          rintro hxs rfl
          exact hxs (List.suffix_nil.1 hsuffix)
  | cons q ps ih =>
      cases place with
      | before => exact absurd rfl hplace
      | within =>
          simp only
          intro hmatches
          cases q with
          | lit a => cases h
          | one =>
              obtain ⟨x, xs', rfl, -, hrest⟩ := hmatches.uncons hfits (by simp)
              cases ys with
              | nil => simp at hsuffix
              | cons y ys =>
                  have hlater : xs' <:+ ys := by
                    rcases List.suffix_cons_iff.1 hsuffix with heq | hlater
                    · cases heq
                      exact List.suffix_refl _
                    · exact (List.suffix_cons x xs').trans hlater
                  exact .one y (ih .within (by simp) h hlater hrest)
          | many => exact ih .behind (by simp) h hsuffix hmatches
      | behind =>
          simp only
          intro hmatches
          have hq : q ≠ .many := by
            rintro rfl
            cases h
          have hrest : settledAt .within ps = true := by
            cases q with
            | many => exact absurd rfl hq
            | lit a => exact h
            | one => exact h
          obtain ⟨zs, hzs, hmatches⟩ := matches_many.1 hmatches
          obtain ⟨x, xs', rfl, hx, hmatches⟩ := hmatches.uncons hfits hq
          obtain ⟨skipped, y, rest, rfl, hskipped, hy, hlater⟩ :=
            exists_first hx (hzs.trans hsuffix)
          exact .many skipped hskipped hy
            (.cons_of_fits hfits hq hy (ih .within (by simp) hrest hlater hmatches))

/-- **One pass finds everything.** -/
theorem firstFit_of_settled (hfits : Fitting fits) (h : Settled ps) (hmatches : Matches ps xs) :
    FirstFit fits ps xs := by
  unfold Settled at h
  induction ps generalizing xs with
  | nil =>
      rw [matches_nil] at hmatches
      simp [hmatches]
  | cons q ps ih =>
      cases q with
      | many => exact firstFit_of_suffix hfits .behind (by simp) h (List.suffix_refl xs) hmatches
      | lit a =>
          obtain ⟨x, xs', rfl, hx, hrest⟩ := hmatches.uncons hfits (by simp)
          exact .cons_of_fits hfits (by simp) hx (ih h hrest)
      | one =>
          obtain ⟨x, xs', rfl, hx, hrest⟩ := hmatches.uncons hfits (by simp)
          exact .cons_of_fits hfits (by simp) hx (ih h hrest)

end Settled

/-! ## Patterns with which one pass misses something -/

/-- A letter that stands for nothing in a pattern, and that no letter of a text that a pattern can
be instantiated with is taken for. -/
structure Fresh (fits : Seg α → α → Prop) (f : α) (ps : List (Seg α)) : Prop where
  other : ∀ a, .lit a ∈ ps → a ≠ f
  notMany : ¬ fits .many f
  litNotMany : ∀ a, .lit a ∈ ps → ¬ fits .many a

/-- The shortest text of a pattern, with a letter for the wildcards. -/
def instantiate (f : α) : List (Seg α) → List α
  | [] => []
  | [.many] => [f]
  | .lit a :: ps => a :: instantiate f ps
  | .one :: ps => f :: instantiate f ps
  | .many :: ps => instantiate f ps

section Missed

variable {fits : Seg α → α → Prop} {ps : List (Seg α)} {xs : List α} {q : Seg α} {f : α}

theorem Fresh.tail (h : Fresh fits f (q :: ps)) : Fresh fits f ps where
  other a ha := h.other a (List.mem_cons_of_mem _ ha)
  notMany := h.notMany
  litNotMany a ha := h.litNotMany a (List.mem_cons_of_mem _ ha)

theorem instantiate_many (f : α) (q : Seg α) (ps : List (Seg α)) :
    instantiate f (.many :: q :: ps) = instantiate f (q :: ps) := by
  rw [instantiate]
  simp

theorem matches_instantiate (f : α) (ps : List (Seg α)) : Matches ps (instantiate f ps) := by
  induction ps with
  | nil => exact .nil
  | cons q ps ih =>
      cases q with
      | lit a => exact .lit a ih
      | one => exact .one f ih
      | many =>
          cases ps with
          | nil => exact .last f []
          | cons q ps =>
              rw [instantiate_many]
              exact .many [] ih

theorem not_fits_instantiate (h : Fresh fits f ps) : ∀ x ∈ instantiate f ps, ¬ fits .many x := by
  induction ps with
  | nil => simp [instantiate]
  | cons q ps ih =>
      cases q with
      | lit a =>
          simp only [instantiate, List.forall_mem_cons]
          exact ⟨h.litNotMany a List.mem_cons_self, ih h.tail⟩
      | one =>
          simp only [instantiate, List.forall_mem_cons]
          exact ⟨h.notMany, ih h.tail⟩
      | many =>
          cases ps with
          | nil => simpa [instantiate] using h.notMany
          | cons q ps =>
              rw [instantiate_many]
              exact ih h.tail

/-- Its letters are those of the pattern, and the one for the wildcards. -/
def MadeOf (f : α) (ps : List (Seg α)) (xs : List α) : Prop := ∀ x ∈ xs, x = f ∨ .lit x ∈ ps

theorem MadeOf.cons {x : α} (hx : x = f ∨ .lit x ∈ q :: ps) (h : MadeOf f ps xs) :
    MadeOf f (q :: ps) (x :: xs) := by
  intro y hy
  rcases List.mem_cons.1 hy with rfl | hy
  · exact hx
  · exact (h y hy).imp_right (List.mem_cons_of_mem q)

theorem MadeOf.weaken (h : MadeOf f ps xs) : MadeOf f (q :: ps) xs := fun x hx =>
  (h x hx).imp_right (List.mem_cons_of_mem q)

theorem madeOf_instantiate (f : α) (ps : List (Seg α)) : MadeOf f ps (instantiate f ps) := by
  induction ps with
  | nil => simp [instantiate, MadeOf]
  | cons q ps ih =>
      cases q with
      | lit a => exact ih.cons (.inr List.mem_cons_self)
      | one => exact ih.cons (.inl rfl)
      | many =>
          cases ps with
          | nil => simp [instantiate, MadeOf]
          | cons q ps =>
              rw [instantiate_many]
              exact ih.weaken

/-- Two wildcards for many letters, one behind the other: nothing is taken for the second. -/
theorem not_firstFit_many (h : ∀ x ∈ xs, ¬ fits .many x) :
    ¬ FirstFit fits (.many :: .many :: ps) xs := by
  intro hfit
  cases hfit with
  | many skipped hskipped hx hrest => exact h _ (by simp) hx

theorem exists_fits (hfits : Fitting fits) (hq : q ≠ .many) (f : α) :
    ∃ x, (x = f ∨ q = .lit x) ∧ fits q x ∧ ∀ ps xs,
      (Matches (q :: ps) (x :: xs) ↔ Matches ps xs) ∧
        (FirstFit fits (q :: ps) (x :: xs) ↔ FirstFit fits ps xs) := by
  cases q with
  | lit a => exact ⟨a, .inr rfl, (hfits.lit a a).2 rfl, fun ps xs => by simp⟩
  | one => exact ⟨f, .inl rfl, hfits.one f, fun ps xs => by simp⟩
  | many => exact absurd rfl hq

/-- A text that one pass misses. -/
structure Missed (fits : Seg α → α → Prop) (f : α) (ps : List (Seg α)) (xs : List α) : Prop where
  made : MadeOf f ps xs
  hit : Matches ps xs
  missed : ¬ FirstFit fits ps xs

/-- **What is missed behind a wildcard.**  Further behind it, one pass is stopped by letters that
stand for nothing, or misses something later. -/
theorem missed_behind (hfits : Fitting fits) (h : Fresh fits f ps) :
    (settledAt .behind ps = false → ∃ xs, Missed fits f (.many :: ps) xs) ∧
    (settledAt .within ps = false →
      (∀ n ys, ps.length < n → ¬ FirstFit fits ps (List.replicate n f ++ ys)) ∨
        ∃ xs, Missed fits f ps xs) := by
  induction ps with
  | nil =>
      refine ⟨by simp [settledAt], fun _ => .inl ?_⟩
      intro n ys hn
      obtain ⟨n, rfl⟩ : ∃ k, n = k + 1 := ⟨n - 1, by simp at hn; omega⟩
      simp [List.replicate_succ]
  | cons q ps ih =>
      obtain ⟨ihbehind, ihwithin⟩ := ih h.tail
      constructor
      · intro hsettled
        by_cases hq : q = .many
        · subst hq
          exact ⟨instantiate f (.many :: ps), (madeOf_instantiate f _).weaken,
            .many [] (matches_instantiate f _), not_firstFit_many (not_fits_instantiate h)⟩
        · have hrest : settledAt .within ps = false := by
            cases q with
            | many => exact absurd rfl hq
            | lit a => exact hsettled
            | one => exact hsettled
          obtain ⟨x, hmade, hx, hcons⟩ := exists_fits hfits hq f
          have hown : x = f ∨ Seg.lit x ∈ q :: ps := by
            rcases hmade with hf | hlit
            · exact .inl hf
            · simp [hlit]
          rcases ihwithin hrest with hstopped | ⟨xs, hmissed⟩
          · -- the letter comes once too early
            refine ⟨(x :: List.replicate (ps.length + 1) f) ++ instantiate f (q :: ps), ?_,
              .many _ (matches_instantiate f _), ?_⟩
            · intro y hy
              rcases List.mem_append.1 hy with hy | hy
              · rcases List.mem_cons.1 hy with rfl | hy
                · exact hown.imp_right (List.mem_cons_of_mem _)
                · exact .inl (List.eq_of_mem_replicate hy)
              · exact (madeOf_instantiate f (q :: ps)).weaken y hy
            · rw [List.cons_append, firstFit_many_of_fits hx, (hcons _ _).2]
              exact hstopped _ _ (Nat.lt_succ_self _)
          · refine ⟨x :: xs, (hmissed.made.cons hown).weaken,
              .many [] ((hcons ps xs).1.2 hmissed.hit), ?_⟩
            rw [firstFit_many_of_fits hx, (hcons _ _).2]
            exact hmissed.missed
      · intro hsettled
        cases q with
        | lit a =>
            refine .inl fun n ys hn => ?_
            obtain ⟨n, rfl⟩ : ∃ k, n = k + 1 := ⟨n - 1, by simp at hn; omega⟩
            rw [List.replicate_succ, List.cons_append, firstFit_lit]
            exact fun hfit => h.other a List.mem_cons_self hfit.1.symm
        | one =>
            rcases ihwithin hsettled with hstopped | ⟨xs, hmissed⟩
            · refine .inl fun n ys hn => ?_
              obtain ⟨n, rfl⟩ : ∃ k, n = k + 1 := ⟨n - 1, by simp at hn; omega⟩
              rw [List.replicate_succ, List.cons_append, firstFit_one]
              exact hstopped n ys (by simpa using hn)
            · exact .inr ⟨f :: xs, hmissed.made.cons (.inl rfl), .one f hmissed.hit,
                by simpa using hmissed.missed⟩
        | many => exact .inr (ihbehind hsettled)

/-- **One pass misses something.** -/
theorem exists_missed (hfits : Fitting fits) (h : Fresh fits f ps) (hsettled : ¬ Settled ps) :
    ∃ xs, Missed fits f ps xs := by
  unfold Settled at hsettled
  rw [Bool.not_eq_true] at hsettled
  induction ps with
  | nil => simp [settledAt] at hsettled
  | cons q ps ih =>
      cases q with
      | lit a =>
          obtain ⟨xs, hmissed⟩ := ih h.tail hsettled
          exact ⟨a :: xs, hmissed.made.cons (.inr List.mem_cons_self), .lit a hmissed.hit,
            by simpa using hmissed.missed⟩
      | one =>
          obtain ⟨xs, hmissed⟩ := ih h.tail hsettled
          exact ⟨f :: xs, hmissed.made.cons (.inl rfl), .one f hmissed.hit,
            by simpa using hmissed.missed⟩
      | many => exact (missed_behind hfits h.tail).1 hsettled

end Missed

end Glob
end Lib
