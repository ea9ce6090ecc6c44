import PeerClaw.Lib.Substitution

/-!
# Substitution in what has been put in

A text that has been put in for a placeholder may have placeholders in it itself, and these are
replaced too when their turn comes.  That is no harm if a placeholder is found in the template's
own text or inside one text that has been put in, and never in both or in two: what a template has
outside its placeholders is then left alone.

* `rewrite_text` — one replacement, as a placeholder filled in and the other texts rewritten.
* `FilledFrom` — the template's own text is what it was, but for placeholders.
* `inOrder_eq_refillAll` — one replacement after the other.
-/

namespace Lib
namespace Substitution

/-- A text in which a placeholder has been replaced. -/
def rewrite (r : Rule) (v : List Char) : List Char := Text.replaceFrom r.1 r.2 v.length v

/-- Texts that have been put in are searched again. -/
def Cell.rewrite (r : Rule) : Cell → Cell
  | .own c => .own c
  | .value v => .value (Substitution.rewrite r v)

/-- Replace one placeholder, in the template's own text and in the texts that have been put in. -/
def refill (r : Rule) (cells : List Cell) : List Cell := fill r (cells.map (Cell.rewrite r))

def refillAll (rules : List Rule) (cells : List Cell) : List Cell :=
  rules.foldl (fun cells r => refill r cells) cells

/-- A search that begins in a text ends in it. -/
def endsWithin (p rest : List Char) : ℕ → List Char → Bool
  | _, [] => true
  | k + 1, _ :: v => endsWithin p rest k v
  | 0, c :: v =>
      if p.isPrefixOf (c :: v) then endsWithin p rest (p.length - 1) v
      else !p.isPrefixOf (c :: (v ++ rest)) && endsWithin p rest 0 v

/-- A search finds the placeholder in the template's own text, or inside one text that has been put
in. -/
def tidy (p : List Char) : ℕ → List Cell → Bool
  | _, [] => true
  | k + 1, _ :: cs => tidy p k cs
  | 0, .own c :: cs =>
      if begins p (.own c :: cs) then tidy p (p.length - 1) cs
      else !p.isPrefixOf (text (.own c :: cs)) && tidy p 0 cs
  | 0, .value v :: cs => endsWithin p (text cs) 0 v && tidy p 0 cs

/-- The same while one placeholder after the other is replaced. -/
def tidyAlong : List Rule → List Cell → Bool
  | [], _ => true
  | r :: rules, cells => tidy r.1 0 cells && tidyAlong rules (refill r cells)

/-! ## Replacing in a text -/

section Rewrite

variable {r : Rule} {p cs v rest : List Char} {c : Char}

theorem replaceFrom_fuel (hp : p ≠ []) (rep : List Char) {fuel : ℕ} (h : cs.length ≤ fuel) :
    Text.replaceFrom p rep fuel cs = Text.replaceFrom p rep cs.length cs := by
  induction hlength : cs.length using Nat.strong_induction_on generalizing cs fuel with
  | _ n ih =>
      subst hlength
      cases cs with
      | nil => cases fuel <;> rfl
      | cons c cs =>
          have hpos : 0 < p.length := List.length_pos_iff.2 hp
          rw [List.length_cons] at h
          obtain ⟨fuel, rfl⟩ : ∃ f, fuel = f + 1 := ⟨fuel - 1, by omega⟩
          simp only [List.length_cons, Text.replaceFrom]
          split
          · have hdrop : ((c :: cs).drop p.length).length ≤ cs.length := by
              rw [List.length_drop, List.length_cons]
              omega
            rw [ih _ (by rw [List.length_cons]; omega) (by omega) rfl,
              ← ih _ (by rw [List.length_cons]; omega) hdrop rfl]
          · rw [ih _ (by simp) (by omega) rfl]

theorem rewrite_nil : rewrite r [] = [] := rfl

/-- Where the placeholder stands, -/
theorem rewrite_placeholder (hr : r.1 ≠ []) : rewrite r (r.1 ++ cs) = r.2 ++ rewrite r cs := by
  cases hp : r.1 with
  | nil => exact absurd hp hr
  | cons a p =>
      have hprefix : (a :: p).isPrefixOf (a :: (p ++ cs)) = true :=
        List.isPrefixOf_iff_prefix.2 (List.prefix_append _ _)
      have hdrop : (a :: (p ++ cs)).drop (a :: p).length = cs := List.drop_left
      rw [rewrite, hp, List.cons_append, List.length_cons, Text.replaceFrom, if_pos hprefix, hdrop,
        replaceFrom_fuel (List.cons_ne_nil a p) _ (by simp), rewrite, hp]

/-- and where it does not. -/
theorem rewrite_cons (h : ¬ r.1.isPrefixOf (c :: cs) = true) :
    rewrite r (c :: cs) = c :: rewrite r cs := by
  rw [rewrite, List.length_cons, Text.replaceFrom, if_neg h, rewrite]

theorem endsWithin_skip (k : ℕ) (v : List Char) :
    endsWithin p rest k v = endsWithin p rest 0 (v.drop k) := by
  induction v generalizing k with
  | nil => cases k <;> rfl
  | cons c v ih =>
      cases k with
      | zero => rfl
      | succ k => exact ih k

/-- **A text and what is behind it** are searched one by one, if no placeholder is found across. -/
theorem rewrite_append (hr : r.1 ≠ []) (h : endsWithin r.1 rest 0 v = true) :
    rewrite r (v ++ rest) = rewrite r v ++ rewrite r rest := by
  induction hlength : v.length using Nat.strong_induction_on generalizing v with
  | _ n ih =>
      subst hlength
      cases v with
      | nil => rfl
      | cons c v =>
          by_cases hprefix : r.1.isPrefixOf (c :: v) = true
          · obtain ⟨w, hw⟩ := List.isPrefixOf_iff_prefix.1 hprefix
            have hdrop : v.drop (r.1.length - 1) = w := by
              rw [drop_pred (c := c) hr, ← hw, List.drop_left]
            rw [endsWithin, if_pos hprefix, endsWithin_skip, hdrop] at h
            have hpos : 0 < r.1.length := List.length_pos_iff.2 hr
            have hlt : w.length < (c :: v).length := by
              rw [← hw, List.length_append]
              omega
            rw [← hw, List.append_assoc, rewrite_placeholder hr, rewrite_placeholder hr, ih _ hlt h rfl,
              List.append_assoc]
          · rw [endsWithin, if_neg hprefix, Bool.and_eq_true, Bool.not_eq_true'] at h
            have hnot : ¬ r.1.isPrefixOf (c :: (v ++ rest)) = true := by
              rw [Bool.not_eq_true]
              exact h.1
            rw [List.cons_append, rewrite_cons hnot, rewrite_cons hprefix, ih _ (by simp) h.2 rfl,
              List.cons_append]

end Rewrite

/-! ## Replacing in cells -/

section Refill

variable {r : Rule} {p s : List Char} {cells cs : List Cell} {c : Cell}

theorem begins_rewrite : begins p (cells.map (Cell.rewrite r)) = begins p cells := by
  induction p generalizing cells with
  | nil => rfl
  | cons a p ih =>
      cases cells with
      | nil => rfl
      | cons c cs =>
          rw [Bool.eq_iff_iff, List.map_cons, begins_cons, begins_cons, ih]
          cases c <;> simp [Cell.rewrite]

@[simp] theorem refill_nil : refill r [] = [] := rfl

theorem refill_begins (hr : r.1 ≠ []) (h : begins r.1 cells = true) :
    refill r cells = .value r.2 :: refill r (cells.drop r.1.length) := by
  rw [refill, fill_begins hr (by rw [begins_rewrite]; exact h), ← List.map_drop, refill]

theorem refill_copies (h : ¬ begins r.1 (c :: cs) = true) :
    refill r (c :: cs) = c.rewrite r :: refill r cs := by
  rw [← begins_rewrite (r := r), List.map_cons] at h
  rw [refill, List.map_cons, fill_copies h, refill]

theorem refill_value (hr : r.1 ≠ []) (v : List Char) :
    refill r (.value v :: cs) = .value (rewrite r v) :: refill r cs :=
  refill_copies (not_begins_value hr)

theorem tidy_skip (k : ℕ) (cells : List Cell) : tidy p k cells = tidy p 0 (cells.drop k) := by
  induction cells generalizing k with
  | nil => cases k <;> rfl
  | cons c cs ih =>
      cases k with
      | zero => rfl
      | succ k => exact ih k

/-- **One replacement**, where no placeholder is found across texts. -/
theorem rewrite_text (hr : r.1 ≠ []) (htidy : tidy r.1 0 cells = true) :
    rewrite r (text cells) = text (refill r cells) := by
  induction cells using scan_induction hr with
  | nil => rfl
  | hit cells hbegins ih =>
      have hrest : tidy r.1 0 (cells.drop r.1.length) = true := by
        cases cells with
        | nil => exact absurd hbegins (not_begins_nil hr)
        | cons c cs =>
            cases c with
            | value v => exact absurd hbegins (not_begins_value hr)
            | own a => rwa [tidy, if_pos hbegins, tidy_skip, drop_pred hr] at htidy
      rw [refill_begins hr hbegins, text_cons, ← ih hrest]
      obtain ⟨cs, rfl⟩ := begins_iff.1 hbegins
      rw [text_blank, rewrite_placeholder hr, List.drop_left' (by simp [blank])]
      rfl
  | copy c cs hbegins ih =>
      rw [refill_copies hbegins, text_cons, text_cons]
      cases c with
      | own a =>
          rw [tidy, if_neg hbegins, Bool.and_eq_true, Bool.not_eq_true'] at htidy
          have hnot : ¬ r.1.isPrefixOf (a :: text cs) = true := by
            rw [Bool.not_eq_true]
            exact htidy.1
          rw [← ih htidy.2]
          exact rewrite_cons hnot
      | value v =>
          rw [tidy, Bool.and_eq_true] at htidy
          rw [← ih htidy.2]
          exact rewrite_append hr htidy.1

theorem begins_of_append_value {v : List Char} {a b : List Cell}
    (h : begins p (a ++ .value v :: b) = true) : begins p a = true := by
  induction p generalizing a with
  | nil => rfl
  | cons x p ih =>
      cases a with
      | nil => exact absurd h (not_begins_value (List.cons_ne_nil x p))
      | cons c a =>
          rw [List.cons_append, begins_cons] at h
          exact begins_cons.2 ⟨h.1, ih h.2⟩

theorem begins_append {a b : List Cell} (h : begins p a = true) : begins p (a ++ b) = true := by
  obtain ⟨cs, rfl⟩ := begins_iff.1 h
  exact begins_iff.2 ⟨cs ++ b, List.append_assoc _ _ _⟩

/-- **What is before and what is behind** a text that has been put in. -/
theorem refill_append_value (hr : r.1 ≠ []) (a : List Cell) (v : List Char) (b : List Cell) :
    refill r (a ++ .value v :: b) = refill r a ++ .value (rewrite r v) :: refill r b := by
  induction a using scan_induction hr with
  | nil => exact refill_value hr v
  | hit a hbegins ih =>
      have hlength : r.1.length ≤ a.length := by
        obtain ⟨cs, rfl⟩ := begins_iff.1 hbegins
        simp [blank]
      rw [refill_begins hr (begins_append hbegins), refill_begins hr hbegins,
        List.drop_append_of_le_length hlength, ih]
      rfl
  | copy c cs hbegins ih =>
      have hnot : ¬ begins r.1 (c :: (cs ++ .value v :: b)) = true := fun h =>
        hbegins (begins_of_append_value h)
      rw [List.cons_append, refill_copies hnot, refill_copies hbegins, ih]
      rfl

theorem forall_value_refill {L : List Char → Prop} (hr : r.1 ≠ []) (hput : L r.2)
    (hrewrite : ∀ v, L v → L (rewrite r v)) (h : ∀ v, .value v ∈ cells → L v) :
    ∀ v, .value v ∈ refill r cells → L v := by
  induction cells using scan_induction hr with
  | nil => simp
  | hit cells hbegins ih =>
      have hrest := ih fun v hv => h v (List.mem_of_mem_drop hv)
      intro v hv
      rw [refill_begins hr hbegins, List.mem_cons] at hv
      rcases hv with hv | hv
      · cases hv
        exact hput
      · exact hrest v hv
  | copy c cs hbegins ih =>
      have hrest := ih fun v hv => h v (List.mem_cons_of_mem _ hv)
      intro v hv
      rw [refill_copies hbegins, List.mem_cons] at hv
      rcases hv with hv | hv
      · cases c with
        | own a => cases hv
        | value w =>
            cases hv
            exact hrewrite w (h w List.mem_cons_self)
      · exact hrest v hv

/-! ## What is left of the template -/

/-- The cells are the template, in which some texts stand in the place of placeholders. -/
inductive FilledFrom (P : List Char → Prop) : List Char → List Cell → Prop
  | nil : FilledFrom P [] []
  | own {s : List Char} {cs : List Cell} (c : Char) : FilledFrom P s cs →
      FilledFrom P (c :: s) (.own c :: cs)
  | value {p s : List Char} {cs : List Cell} (v : List Char) : P p → FilledFrom P s cs →
      FilledFrom P (p ++ s) (.value v :: cs)

variable {P : List Char → Prop}

theorem filledFrom_blank (s : List Char) : FilledFrom P s (blank s) := by
  induction s with
  | nil => exact .nil
  | cons c s ih => exact .own c ih

theorem FilledFrom.of_blank (h : FilledFrom P s (blank p ++ cs)) :
    ∃ s', s = p ++ s' ∧ FilledFrom P s' cs := by
  induction p generalizing s with
  | nil => exact ⟨s, rfl, h⟩
  | cons a p ih =>
      rw [blank, List.map_cons, ← blank, List.cons_append] at h
      cases h with
      | own _ h =>
          obtain ⟨s', rfl, hs'⟩ := ih h
          exact ⟨s', rfl, hs'⟩

/-- **A replacement leaves the rest of the template alone.** -/
theorem FilledFrom.refill (hr : r.1 ≠ []) (hP : P r.1) (h : FilledFrom P s cells) :
    FilledFrom P s (refill r cells) := by
  induction cells using scan_induction hr generalizing s with
  | nil => exact h
  | hit cells hbegins ih =>
      rw [refill_begins hr hbegins]
      obtain ⟨cs, rfl⟩ := begins_iff.1 hbegins
      obtain ⟨s', rfl, hs'⟩ := h.of_blank
      rw [List.drop_left' (by simp [blank])] at ih ⊢
      exact .value r.2 hP (ih hs')
  | copy c cs hbegins ih =>
      rw [refill_copies hbegins]
      cases h with
      | own c h => exact .own c (ih h)
      | value v hp h => exact .value _ hp (ih h)

end Refill

/-- **One replacement after the other.** -/
theorem inOrder_eq_refillAll {rules : List Rule} {cells : List Cell} (hne : ∀ q ∈ rules, q.1 ≠ [])
    (htidy : tidyAlong rules cells = true) :
    inOrder rules (text cells) = text (refillAll rules cells) := by
  induction rules generalizing cells with
  | nil => rfl
  | cons r rules ih =>
      rw [tidyAlong, Bool.and_eq_true] at htidy
      have hr : r.1 ≠ [] := hne r List.mem_cons_self
      have hone : Text.replaceFrom r.1 r.2 (text cells).length (text cells) =
          text (refill r cells) := rewrite_text hr htidy.1
      rw [inOrder, List.foldl_cons, hone]
      exact ih (fun q hq => hne q (List.mem_cons_of_mem _ hq)) htidy.2

end Substitution
end Lib
