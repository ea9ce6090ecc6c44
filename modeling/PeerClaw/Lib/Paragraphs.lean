import Mathlib.Data.List.Forall2
import Mathlib.Data.List.Basic

/-!
# Paragraphs

A text is cut into paragraphs at its blank lines: at every two line breaks in a row,
from left to right.  Here a text is a list over any type with a test for line breaks,
so that its elements may carry more than a character.

* `paragraphs_append_cons` — a text put before another runs into its first paragraph
  with what comes after its own last blank line, and with nothing else.
* `paragraphs_append_breaks` — a blank line after a text ends its last paragraph.
-/

namespace Lib
namespace Paragraphs

variable {α β : Type*}

/-- Put elements in front of the first paragraph. -/
def prepend (w : List α) : List (List α) → List (List α)
  | [] => [w]
  | p :: ps => (w ++ p) :: ps

/-- The paragraphs of a text. -/
def paragraphs (isBreak : α → Bool) : List α → List (List α)
  | [] => [[]]
  | [a] => [[a]]
  | a :: b :: xs =>
      if isBreak a && isBreak b then [] :: paragraphs isBreak xs
      else prepend [a] (paragraphs isBreak (b :: xs))

/-- What comes after the last blank line. -/
def lead (isBreak : α → Bool) (xs : List α) : List α := (paragraphs isBreak xs).getLastD []

section Prepend

theorem prepend_ne_nil (w : List α) (ps : List (List α)) : prepend w ps ≠ [] := by
  cases ps <;> nofun

theorem prepend_prepend (v w : List α) (ps : List (List α)) :
    prepend v (prepend w ps) = prepend (v ++ w) ps := by
  cases ps with
  | nil => rfl
  | cons p ps => simp [prepend]

theorem map_prepend (f : α → β) (w : List α) (ps : List (List α)) :
    (prepend w ps).map (List.map f) = prepend (w.map f) (ps.map (List.map f)) := by
  cases ps with
  | nil => rfl
  | cons p ps => simp [prepend]

end Prepend

theorem paragraphs_pair (isBreak : α → Bool) (a b : α) (xs : List α) :
    paragraphs isBreak (a :: b :: xs) =
      if isBreak a && isBreak b then [] :: paragraphs isBreak xs
      else prepend [a] (paragraphs isBreak (b :: xs)) := rfl

/-- A text has no elements, or one, or it begins with a blank line, or with what is no part of one. -/
theorem paragraphs_induct (isBreak : α → Bool) {motive : List α → Prop} (case1 : motive [])
    (case2 : ∀ a, motive [a])
    (case3 : ∀ a b xs, (isBreak a && isBreak b) = true → motive xs → motive (a :: b :: xs))
    (case4 : ∀ a b xs, ¬ (isBreak a && isBreak b) = true → motive (b :: xs) → motive (a :: b :: xs))
    (xs : List α) : motive xs :=
  paragraphs.induct isBreak motive case1 case2 case3 case4 xs

variable {isBreak : α → Bool}

theorem paragraphs_ne_nil (xs : List α) : paragraphs isBreak xs ≠ [] := by
  induction xs using paragraphs_induct isBreak with
  | case1 => nofun
  | case2 a => nofun
  | case3 a b xs h ih =>
      rw [paragraphs_pair, if_pos h]
      nofun
  | case4 a b xs h ih =>
      rw [paragraphs_pair, if_neg h]
      exact prepend_ne_nil _ _

theorem paragraphs_cons {a : α} (ha : isBreak a = false) (xs : List α) :
    paragraphs isBreak (a :: xs) = prepend [a] (paragraphs isBreak xs) := by
  cases xs with
  | nil => rfl
  | cons b xs => rw [paragraphs_pair, if_neg (by simp [ha])]

/-- A text without line breaks is put in front of the first paragraph. -/
theorem paragraphs_append {w : List α} (hw : ∀ a ∈ w, isBreak a = false) (xs : List α) :
    paragraphs isBreak (w ++ xs) = prepend w (paragraphs isBreak xs) := by
  induction w with
  | nil =>
      cases h : paragraphs isBreak xs with
      | nil => exact absurd h (paragraphs_ne_nil xs)
      | cons p ps => exact h
  | cons a w ih =>
      rw [List.cons_append, paragraphs_cons (hw a List.mem_cons_self),
        ih fun b hb => hw b (List.mem_cons_of_mem a hb), prepend_prepend]
      rfl

theorem mem_of_mem_paragraphs {xs p : List α} (hp : p ∈ paragraphs isBreak xs) {a : α}
    (ha : a ∈ p) : a ∈ xs := by
  induction xs using paragraphs_induct isBreak generalizing p with
  | case1 =>
      rwa [List.mem_singleton.1 hp] at ha
  | case2 b =>
      rwa [List.mem_singleton.1 hp] at ha
  | case3 b c xs h ih =>
      rw [paragraphs_pair, if_pos h, List.mem_cons] at hp
      rcases hp with rfl | hp
      · cases ha
      · exact List.mem_cons_of_mem _ (List.mem_cons_of_mem _ (ih hp ha))
  | case4 b c xs h ih =>
      rw [paragraphs_pair, if_neg h] at hp
      cases hps : paragraphs isBreak (c :: xs) with
      | nil => exact absurd hps (paragraphs_ne_nil _)
      | cons q qs =>
          rw [hps] at hp ih
          rcases List.mem_cons.1 hp with rfl | hp
          · rcases List.mem_cons.1 ha with rfl | ha
            · exact List.mem_cons_self
            · exact List.mem_cons_of_mem _ (ih List.mem_cons_self ha)
          · exact List.mem_cons_of_mem _ (ih (List.mem_cons_of_mem _ hp) ha)

/-- The paragraphs of a text whose elements carry more than a character. -/
theorem map_paragraphs (isBreak : β → Bool) (f : α → β) (xs : List α) :
    (paragraphs (fun a => isBreak (f a)) xs).map (List.map f) = paragraphs isBreak (xs.map f) := by
  induction xs using paragraphs_induct (fun a => isBreak (f a)) with
  | case1 => rfl
  | case2 a => rfl
  | case3 a b xs h ih =>
      have hbreaks : (isBreak (f a) && isBreak (f b)) = true := h
      rw [paragraphs_pair, if_pos h, List.map_cons, ih, List.map_cons, List.map_cons, paragraphs_pair,
        if_pos hbreaks]
      rfl
  | case4 a b xs h ih =>
      have hbreaks : ¬ (isBreak (f a) && isBreak (f b)) = true := h
      have hcut : paragraphs isBreak ((a :: b :: xs).map f) =
          prepend [f a] (paragraphs isBreak ((b :: xs).map f)) := by
        rw [List.map_cons, List.map_cons, paragraphs_pair, if_neg hbreaks]
      rw [paragraphs_pair, if_neg h, map_prepend, ih, hcut]
      rfl

/-- **What runs into a text.**  Only what comes after the last blank line of the text before it is
put in front of its first paragraph. -/
theorem paragraphs_append_cons (xs : List α) {a : α} (ha : isBreak a = false) (ys : List α) :
    ∃ before, paragraphs isBreak xs = before ++ [lead isBreak xs] ∧
      paragraphs isBreak (xs ++ a :: ys) =
        before ++ prepend (lead isBreak xs) (paragraphs isBreak (a :: ys)) := by
  -- the last paragraph, without its name
  suffices h : ∃ before last, paragraphs isBreak xs = before ++ [last] ∧
      paragraphs isBreak (xs ++ a :: ys) =
        before ++ prepend last (paragraphs isBreak (a :: ys)) by
    obtain ⟨before, last, hxs, happ⟩ := h
    have hlast : lead isBreak xs = last := by
      rw [lead, hxs, List.getLastD_concat]
    rw [hlast]
    exact ⟨before, hxs, happ⟩
  induction xs using paragraphs_induct isBreak with
  | case1 => exact ⟨[], [], rfl, (paragraphs_append (w := []) nofun (a :: ys))⟩
  | case2 b =>
      refine ⟨[], [b], rfl, ?_⟩
      show paragraphs isBreak (b :: a :: ys) = _
      rw [paragraphs_pair, if_neg (by simp [ha])]
      rfl
  | case3 b c xs h ih =>
      obtain ⟨before, last, hxs, happ⟩ := ih
      refine ⟨[] :: before, last, ?_, ?_⟩
      · rw [paragraphs_pair, if_pos h, hxs]
        rfl
      · rw [List.cons_append, List.cons_append, paragraphs_pair, if_pos h, happ]
        rfl
  | case4 b c xs h ih =>
      obtain ⟨before, last, hxs, happ⟩ := ih
      have happ' : paragraphs isBreak (b :: c :: xs ++ a :: ys) =
          prepend [b] (before ++ prepend last (paragraphs isBreak (a :: ys))) := by
        rw [List.cons_append, List.cons_append, paragraphs_pair, if_neg h, ← List.cons_append, happ]
      rw [happ', paragraphs_pair, if_neg h, hxs]
      cases before with
      | nil => exact ⟨[], [b] ++ last, rfl, prepend_prepend _ _ _⟩
      | cons p before => exact ⟨([b] ++ p) :: before, last, rfl, rfl⟩

/-- The same paragraph, but that a line break at its end may be missing. -/
def SameParagraph (isBreak : α → Bool) (p q : List α) : Prop :=
  q = p ∨ ∃ n, isBreak n = true ∧ q = p ++ [n]

theorem forall_of_same {P : α → Prop} {ps qs : List (List α)}
    (h : List.Forall₂ (SameParagraph isBreak) ps qs) (hP : ∀ q ∈ qs, ∀ a ∈ q, P a) :
    ∀ p ∈ ps, ∀ a ∈ p, P a := by
  induction h with
  | nil => nofun
  | @cons p q ps qs hpq hsame ih =>
      rw [List.forall_mem_cons] at hP ⊢
      refine ⟨?_, ih hP.2⟩
      intro a ha
      rcases hpq with rfl | ⟨n, -, rfl⟩
      · exact hP.1 a ha
      · exact hP.1 a (List.mem_append_left _ ha)

/-- **What a blank line ends.**  The paragraphs of a text are the first ones of the text with a
blank line and more after it; what follows them begins with the line break that is left
over, if one is. -/
theorem paragraphs_append_breaks (xs : List α) {m n : α} (hm : isBreak m = true)
    (hn : isBreak n = true) (ys : List α) :
    ∃ ps rest, paragraphs isBreak (xs ++ m :: n :: ys) = ps ++ rest ∧
      List.Forall₂ (SameParagraph isBreak) ps (paragraphs isBreak xs) ∧
      (rest = paragraphs isBreak ys ∨ rest = paragraphs isBreak (n :: ys)) := by
  have hblank : ∀ zs, paragraphs isBreak (m :: n :: zs) = [] :: paragraphs isBreak zs := by
    intro zs
    rw [paragraphs_pair, if_pos (by simp [hm, hn])]
  induction xs using paragraphs_induct isBreak with
  | case1 =>
      exact ⟨[[]], paragraphs isBreak ys, hblank ys, .cons (.inl rfl) .nil, .inl rfl⟩
  | case2 a =>
      cases ha : isBreak a with
      | true =>
          -- the line break takes the first one of the two
          refine ⟨[[]], paragraphs isBreak (n :: ys), ?_, .cons (.inr ⟨a, ha, rfl⟩) .nil, .inr rfl⟩
          show paragraphs isBreak (a :: m :: n :: ys) = _
          rw [paragraphs_pair, if_pos (by simp [ha, hm])]
          rfl
      | false =>
          refine ⟨[[a]], paragraphs isBreak ys, ?_, .cons (.inl rfl) .nil, .inl rfl⟩
          show paragraphs isBreak (a :: m :: n :: ys) = _
          rw [paragraphs_cons ha, hblank]
          rfl
  | case3 a b xs h ih =>
      obtain ⟨ps, rest, happ, hsame, hrest⟩ := ih
      refine ⟨[] :: ps, rest, ?_, ?_, hrest⟩
      · rw [List.cons_append, List.cons_append, paragraphs_pair, if_pos h, happ]
        rfl
      · rw [paragraphs_pair, if_pos h]
        exact .cons (.inl rfl) hsame
  | case4 a b xs h ih =>
      obtain ⟨ps, rest, happ, hsame, hrest⟩ := ih
      have happ' : paragraphs isBreak (a :: b :: xs ++ m :: n :: ys) = prepend [a] (ps ++ rest) := by
        rw [List.cons_append, List.cons_append, paragraphs_pair, if_neg h, ← List.cons_append, happ]
      rw [happ', paragraphs_pair, if_neg h]
      cases hps : paragraphs isBreak (b :: xs) with
      | nil => exact absurd hps (paragraphs_ne_nil (b :: xs))
      | cons q qs =>
          rw [hps] at hsame
          obtain ⟨p, ps, hpq, hmore, rfl⟩ := List.forall₂_cons_right_iff.1 hsame
          refine ⟨([a] ++ p) :: ps, rest, rfl, .cons ?_ hmore, hrest⟩
          rcases hpq with rfl | ⟨k, hk, rfl⟩
          · exact .inl rfl
          · exact .inr ⟨k, hk, rfl⟩

end Paragraphs
end Lib
