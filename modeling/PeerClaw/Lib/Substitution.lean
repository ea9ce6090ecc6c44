import PeerClaw.Lib.Text
import Mathlib.Data.List.Basic
import Mathlib.Data.List.Infix
import Mathlib.Data.List.Permutation

/-!
# Substitution, at once and one after the other

A template has placeholders in it, each of which stands for a text.  To substitute **at once** is
to go through the template from left to right and put the text in the place of each placeholder
(`once`).  To substitute **one after the other** is to replace one placeholder everywhere, then the
next one in what has come out, and so on (`inOrder`): a text that has been put in is searched again.

`Cell`s keep apart what the template has itself and what has been put in.

* `fill` — one placeholder is replaced in the template's own text only.
* `fillAll_eq` — to fill in one rule after the other is to fill in all of them in one pass, if no
  two placeholders of the template overlap.
* `inOrder_eq_once` — so is to substitute one after the other, if moreover no placeholder ever
  appears at a place that touches a text that has been put in.
-/

namespace Lib
namespace Substitution

/-- A placeholder, and what it stands for. -/
abbrev Rule := List Char × List Char

/-! ## The two ways -/

/-- Substitute at once, from left to right, after some characters that are part of a
placeholder. -/
def once (rules : List Rule) : ℕ → List Char → List Char
  | _, [] => []
  | k + 1, _ :: cs => once rules k cs
  | 0, c :: cs =>
      match rules.find? fun r => r.1.isPrefixOf (c :: cs) with
      | some r => r.2 ++ once rules (r.1.length - 1) cs
      | none => c :: once rules 0 cs

/-- Substitute one after the other. -/
def inOrder (rules : List Rule) (template : List Char) : List Char :=
  rules.foldl (fun cs r => Text.replaceFrom r.1 r.2 cs.length cs) template

/-! ## Templates with texts put in -/

/-- A character of the template, or a text that has been put in. -/
inductive Cell
  | own (c : Char)
  | value (v : List Char)
  deriving DecidableEq

/-- A template in which nothing has been put in. -/
abbrev blank (template : List Char) : List Cell := template.map .own

def Cell.text : Cell → List Char
  | .own c => [c]
  | .value v => v

def text (cells : List Cell) : List Char := cells.flatMap Cell.text

/-- The placeholder stands at the beginning, as the template's own text. -/
def begins (p : List Char) (cells : List Cell) : Bool := (blank p).isPrefixOf cells

/-- Fill in all rules in one pass. -/
def pass (rules : List Rule) : ℕ → List Cell → List Cell
  | _, [] => []
  | k + 1, _ :: cs => pass rules k cs
  | 0, c :: cs =>
      match rules.find? fun r => begins r.1 (c :: cs) with
      | some r => .value r.2 :: pass rules (r.1.length - 1) cs
      | none => c :: pass rules 0 cs

/-- Fill in one rule. -/
def fill (r : Rule) (cells : List Cell) : List Cell := pass [r] 0 cells

/-- Fill in one rule after the other. -/
def fillAll (rules : List Rule) (cells : List Cell) : List Cell :=
  rules.foldl (fun cells r => fill r cells) cells

/-- No two placeholders overlap in the template's own text. -/
def Apart (rules : List Rule) (cells : List Cell) : Prop :=
  ∀ b ∈ cells.tails, ∀ p ∈ rules, ∀ q ∈ rules, begins p.1 b = true →
    ∀ i < p.1.length, begins q.1 (b.drop i) = true → i = 0 ∧ p = q

instance (rules : List Rule) (cells : List Cell) : Decidable (Apart rules cells) :=
  decidable_of_iff
    ((cells.tails.all fun b => rules.all fun p => rules.all fun q =>
      !begins p.1 b || (List.range p.1.length).all fun i =>
        !begins q.1 (b.drop i) || (decide (i = 0) && decide (p = q))) = true)
    (by simp [Apart, or_iff_not_imp_left])

/-- A search from left to right finds the placeholder in the template's own text only. -/
def clean (p : List Char) : ℕ → List Cell → Bool
  | _, [] => true
  | k + 1, _ :: cs => clean p k cs
  | 0, .own c :: cs =>
      if begins p (.own c :: cs) then clean p (p.length - 1) cs
      else !p.isPrefixOf (text (.own c :: cs)) && clean p 0 cs
  | 0, .value v :: cs =>
      (List.range v.length).all (fun i => !p.isPrefixOf ((v ++ text cs).drop i)) && clean p 0 cs

/-- The same while one rule after the other is filled in. -/
def cleanAlong : List Rule → List Cell → Bool
  | [], _ => true
  | r :: rules, cells => clean r.1 0 cells && cleanAlong rules (fill r cells)

/-! ## Going through cells -/

section Scan

variable {rules : List Rule} {r : Rule} {p q : List Char} {cells cs : List Cell} {c : Cell} {n : ℕ}

@[simp] theorem text_nil : text [] = [] := rfl

@[simp] theorem text_cons : text (c :: cs) = c.text ++ text cs := rfl

theorem text_blank (p : List Char) : text (blank p ++ cs) = p ++ text cs := by
  induction p with
  | nil => rfl
  | cons a p ih => simpa [blank, Cell.text] using ih

theorem begins_iff : begins p cells = true ↔ ∃ cs, cells = blank p ++ cs := by
  rw [begins, List.isPrefixOf_iff_prefix]
  exact ⟨fun ⟨cs, h⟩ => ⟨cs, h.symm⟩, fun ⟨cs, h⟩ => ⟨cs, h.symm⟩⟩

theorem begins_cons {a : Char} : begins (a :: p) (c :: cs) = true ↔ c = .own a ∧ begins p cs = true := by
  rw [begins, blank, List.map_cons, List.isPrefixOf_cons_cons, Bool.and_eq_true, beq_iff_eq]
  exact and_congr_left' eq_comm

theorem begins_nil : begins [] cells = true := rfl

theorem not_begins_nil (hp : p ≠ []) : ¬ begins p [] = true := by
  cases p with
  | nil => exact absurd rfl hp
  | cons a p => simp [begins, blank]

/-- A placeholder that is not empty does not begin at a text that has been put in. -/
theorem not_begins_value (hp : p ≠ []) {v : List Char} : ¬ begins p (.value v :: cs) = true := by
  cases p with
  | nil => exact absurd rfl hp
  | cons a p => simp [begins_cons]

theorem pass_skip (k : ℕ) (cells : List Cell) :
    pass rules k cells = pass rules 0 (cells.drop k) := by
  induction cells generalizing k with
  | nil => cases k <;> rfl
  | cons c cs ih =>
      cases k with
      | zero => rfl
      | succ k => exact ih k

theorem drop_pred {α : Type*} {c : α} {cs : List α} (hp : p ≠ []) :
    cs.drop (p.length - 1) = (c :: cs).drop p.length := by
  cases p with
  | nil => exact absurd rfl hp
  | cons a p => rfl

theorem pass_some (h : (rules.find? fun r => begins r.1 (c :: cs)) = some r) (hr : r.1 ≠ []) :
    pass rules 0 (c :: cs) = .value r.2 :: pass rules 0 ((c :: cs).drop r.1.length) := by
  rw [pass, h, ← drop_pred hr, ← pass_skip]

theorem pass_none (h : (rules.find? fun r => begins r.1 (c :: cs)) = none) :
    pass rules 0 (c :: cs) = c :: pass rules 0 cs := by
  rw [pass, h]

theorem fill_begins (hr : r.1 ≠ []) (h : begins r.1 cells = true) :
    fill r cells = .value r.2 :: fill r (cells.drop r.1.length) := by
  cases cells with
  | nil => exact absurd h (not_begins_nil hr)
  | cons c cs => exact pass_some (by simp [h]) hr

theorem fill_copies (h : ¬ begins r.1 (c :: cs) = true) : fill r (c :: cs) = c :: fill r cs :=
  pass_none (by simp [h])

/-- **Induction from left to right**, where the placeholder is passed over as a whole. -/
theorem scan_induction {motive : List Cell → Prop} (hp : p ≠ []) (nil : motive [])
    (hit : ∀ cells, begins p cells = true → motive (cells.drop p.length) → motive cells)
    (copy : ∀ c cs, ¬ begins p (c :: cs) = true → motive cs → motive (c :: cs))
    (cells : List Cell) : motive cells := by
  induction hlength : cells.length using Nat.strong_induction_on generalizing cells with
  | _ n ih =>
      subst hlength
      cases cells with
      | nil => exact nil
      | cons c cs =>
          by_cases h : begins p (c :: cs) = true
          · refine hit _ h (ih _ ?_ _ rfl)
            have hpos : 0 < p.length := List.length_pos_iff.2 hp
            rw [List.length_drop, List.length_cons]
            omega
          · exact copy c cs h (ih _ (by simp) _ rfl)

/-- Where a placeholder stands after a rule has been filled in, it stood before. -/
theorem begins_of_fill (hr : r.1 ≠ []) (h : begins q (fill r cells) = true) :
    begins q cells = true := by
  induction q generalizing cells with
  | nil => exact begins_nil
  | cons a q ih =>
      cases cells with
      | nil => exact h
      | cons c cs =>
          by_cases hbegins : begins r.1 (c :: cs) = true
          · rw [fill_begins hr hbegins] at h
            exact absurd h (not_begins_value (List.cons_ne_nil a q))
          · rw [fill_copies hbegins, begins_cons] at h
            exact begins_cons.2 ⟨h.1, ih h.2⟩

/-- Inside a placeholder that stands after a rule has been filled in, cells correspond. -/
theorem drop_of_fill (hr : r.1 ≠ []) (h : begins q (fill r cells) = true) {i : ℕ}
    (hi : i ≤ q.length) : (fill r cells).drop i = fill r (cells.drop i) := by
  induction q generalizing cells i with
  | nil =>
      cases Nat.le_zero.1 hi
      rfl
  | cons a q ih =>
      cases i with
      | zero => rfl
      | succ i =>
          cases cells with
          | nil => rfl
          | cons c cs =>
              by_cases hbegins : begins r.1 (c :: cs) = true
              · rw [fill_begins hr hbegins] at h
                exact absurd h (not_begins_value (List.cons_ne_nil a q))
              · rw [fill_copies hbegins] at h ⊢
                exact ih (begins_cons.1 h).2 (Nat.succ_le_succ_iff.1 hi)

theorem fill_keeps (h : begins q cells = true)
    (hnone : ∀ i < q.length, ¬ begins r.1 (cells.drop i) = true) :
    begins q (fill r cells) = true ∧
      (fill r cells).drop q.length = fill r (cells.drop q.length) := by
  induction q generalizing cells with
  | nil => exact ⟨begins_nil, rfl⟩
  | cons a q ih =>
      cases cells with
      | nil => exact absurd h (not_begins_nil (List.cons_ne_nil a q))
      | cons c cs =>
          have hfirst : ¬ begins r.1 (c :: cs) = true := hnone 0 (Nat.zero_lt_succ _)
          obtain ⟨hc, hrest⟩ := begins_cons.1 h
          obtain ⟨hkept, hdrop⟩ := ih hrest fun i hi => hnone (i + 1) (Nat.succ_lt_succ hi)
          rw [fill_copies hfirst]
          exact ⟨begins_cons.2 ⟨hc, hkept⟩, hdrop⟩

/-- What is left at some point after a rule has been filled in was left at some point before. -/
theorem suffix_of_fill (hr : r.1 ≠ []) (cells : List Cell) :
    ∀ b', b' <:+ fill r cells → ∃ b, b <:+ cells ∧ b' = fill r b := by
  induction cells using scan_induction hr with
  | nil =>
      intro b' h
      exact ⟨[], List.suffix_refl _, List.eq_nil_of_suffix_nil h⟩
  | hit cells hbegins ih =>
      intro b' h
      rw [fill_begins hr hbegins, List.suffix_cons_iff] at h
      rcases h with rfl | h
      · exact ⟨cells, List.suffix_refl _, (fill_begins hr hbegins).symm⟩
      · obtain ⟨b, hb, rfl⟩ := ih b' h
        exact ⟨b, hb.trans (List.drop_suffix _ _), rfl⟩
  | copy c cs hbegins ih =>
      intro b' h
      rw [fill_copies hbegins, List.suffix_cons_iff] at h
      rcases h with rfl | h
      · exact ⟨c :: cs, List.suffix_refl _, (fill_copies hbegins).symm⟩
      · obtain ⟨b, hb, rfl⟩ := ih b' h
        exact ⟨b, hb.trans (List.suffix_cons _ _), rfl⟩

end Scan

/-! ## One pass -/

section Pass

variable {rules rules' : List Rule} {r : Rule} {cells cs : List Cell}

theorem Apart.suffix (h : Apart rules cells) (hs : cs <:+ cells) : Apart rules cs := by
  intro b hb
  rw [List.mem_tails] at hb
  exact h b ((List.mem_tails _ _).2 (hb.trans hs))

theorem Apart.fill (h : Apart (r :: rules) cells) (hr : r.1 ≠ []) :
    Apart rules (fill r cells) := by
  intro b' hb' p hp q hq hbegins i hi hdrop
  obtain ⟨b, hb, rfl⟩ := suffix_of_fill hr cells b' ((List.mem_tails _ _).1 hb')
  rw [drop_of_fill hr hbegins hi.le] at hdrop
  exact h b ((List.mem_tails _ _).2 hb) p (List.mem_cons_of_mem _ hp) q (List.mem_cons_of_mem _ hq)
    (begins_of_fill hr hbegins) i hi (begins_of_fill hr hdrop)

theorem find?_congr {α : Type*} {l : List α} {f g : α → Bool} (h : ∀ x ∈ l, f x = g x) :
    l.find? f = l.find? g := by
  induction l with
  | nil => rfl
  | cons x l ih =>
      rw [List.find?_cons, List.find?_cons, h x List.mem_cons_self,
        ih fun y hy => h y (List.mem_cons_of_mem _ hy)]

/-- **One rule and then the others** are all rules. -/
theorem pass_fill (hne : ∀ q ∈ r :: rules, q.1 ≠ []) (h : Apart (r :: rules) cells) :
    pass rules 0 (fill r cells) = pass (r :: rules) 0 cells := by
  have hr : r.1 ≠ [] := hne r List.mem_cons_self
  induction hlength : cells.length using Nat.strong_induction_on generalizing cells with
  | _ n ih =>
      subst hlength
      have hlater : ∀ k, 0 < k → cells ≠ [] →
          pass rules 0 (fill r (cells.drop k)) = pass (r :: rules) 0 (cells.drop k) := by
        intro k hk hcells
        have hpos : 0 < cells.length := List.length_pos_iff.2 hcells
        exact ih _ (by rw [List.length_drop]; omega) (h.suffix (List.drop_suffix _ _)) rfl
      cases cells with
      | nil => rfl
      | cons c cs =>
          by_cases hbegins : begins r.1 (c :: cs) = true
          · have hvalue : (rules.find? fun q =>
                begins q.1 (.value r.2 :: fill r ((c :: cs).drop r.1.length))) = none :=
              List.find?_eq_none.2 fun q hq => not_begins_value (hne q (List.mem_cons_of_mem _ hq))
            have hfirst : ((r :: rules).find? fun q => begins q.1 (c :: cs)) = some r := by
              rw [List.find?_cons, hbegins]
            rw [fill_begins hr hbegins, pass_none hvalue, pass_some hfirst hr,
              hlater _ (List.length_pos_iff.2 hr) (List.cons_ne_nil c cs)]
          · -- a placeholder that stands here is not disturbed
            have hnone : ∀ q ∈ rules, begins q.1 (c :: cs) = true →
                ∀ i < q.1.length, ¬ begins r.1 ((c :: cs).drop i) = true := by
              intro q hq hstands i hi hstarts
              obtain ⟨rfl, rfl⟩ := h _ ((List.mem_tails _ _).2 (List.suffix_refl _)) q
                (List.mem_cons_of_mem _ hq) r List.mem_cons_self hstands i hi hstarts
              exact hbegins hstands
            have hsame : (rules.find? fun q => begins q.1 (c :: fill r cs)) =
                rules.find? fun q => begins q.1 (c :: cs) := by
              refine find?_congr fun q hq => Bool.eq_iff_iff.2 ?_
              rw [← fill_copies hbegins]
              exact ⟨begins_of_fill hr, fun hstands => (fill_keeps hstands (hnone q hq hstands)).1⟩
            have hall : ((r :: rules).find? fun q => begins q.1 (c :: cs)) =
                rules.find? fun q => begins q.1 (c :: cs) := by
              rw [List.find?_cons, Bool.eq_false_of_not_eq_true hbegins]
            rw [fill_copies hbegins]
            cases hfind : rules.find? fun q => begins q.1 (c :: cs) with
            | none =>
                rw [pass_none (hsame.trans hfind), pass_none (hall.trans hfind)]
                exact congrArg _ (hlater 1 Nat.one_pos (List.cons_ne_nil c cs))
            | some q =>
                have hq : q ∈ rules := List.mem_of_find?_eq_some hfind
                have hstands : begins q.1 (c :: cs) = true := by
                  simpa using List.find?_some hfind
                have hqne : q.1 ≠ [] := hne q (List.mem_cons_of_mem _ hq)
                rw [pass_some (hsame.trans hfind) hqne, pass_some (hall.trans hfind) hqne,
                  ← fill_copies hbegins, (fill_keeps hstands (hnone q hq hstands)).2,
                  hlater _ (List.length_pos_iff.2 hqne) (List.cons_ne_nil c cs)]

theorem pass_nil (cells : List Cell) : pass [] 0 cells = cells := by
  induction cells with
  | nil => rfl
  | cons c cs ih => rw [pass_none (by simp), ih]

/-- **One rule after the other is one pass.** -/
theorem fillAll_eq (hne : ∀ q ∈ rules, q.1 ≠ []) (h : Apart rules cells) :
    fillAll rules cells = pass rules 0 cells := by
  induction rules generalizing cells with
  | nil => exact (pass_nil cells).symm
  | cons r rules ih =>
      have hr : r.1 ≠ [] := hne r List.mem_cons_self
      rw [← pass_fill hne h]
      exact ih (fun q hq => hne q (List.mem_cons_of_mem _ hq)) (h.fill hr)

/-- Which rule is found does not depend on their order if there is at most one. -/
theorem find?_perm {α : Type*} {l l' : List α} {f : α → Bool} (hperm : l'.Perm l)
    (hunique : ∀ x ∈ l, ∀ y ∈ l, f x = true → f y = true → x = y) :
    l'.find? f = l.find? f := by
  cases hfind : l.find? f with
  | none =>
      rw [List.find?_eq_none] at hfind ⊢
      exact fun x hx => hfind x (hperm.mem_iff.1 hx)
  | some x =>
      have hx : x ∈ l := List.mem_of_find?_eq_some hfind
      have hfx : f x = true := List.find?_some hfind
      cases hfind' : l'.find? f with
      | none => exact absurd hfx (List.find?_eq_none.1 hfind' x (hperm.mem_iff.2 hx))
      | some y =>
          have hy : y ∈ l := hperm.mem_iff.1 (List.mem_of_find?_eq_some hfind')
          rw [hunique y hy x hx (List.find?_some hfind') hfx]

/-- **The order of the rules does not matter** to a pass. -/
theorem pass_perm (hperm : rules'.Perm rules) (hne : ∀ q ∈ rules, q.1 ≠ [])
    (h : Apart rules cells) : pass rules' 0 cells = pass rules 0 cells := by
  induction hlength : cells.length using Nat.strong_induction_on generalizing cells with
  | _ n ih =>
      subst hlength
      cases cells with
      | nil => rfl
      | cons c cs =>
          have hsame : (rules'.find? fun q => begins q.1 (c :: cs)) =
              rules.find? fun q => begins q.1 (c :: cs) := by
            refine find?_perm hperm fun p hp q hq hbegins hbegins' => ?_
            have hpos : 0 < p.1.length := List.length_pos_iff.2 (hne p hp)
            exact (h _ ((List.mem_tails _ _).2 (List.suffix_refl _)) p hp q hq hbegins 0 hpos
              hbegins').2
          cases hfind : rules.find? fun q => begins q.1 (c :: cs) with
          | none =>
              rw [pass_none (hsame.trans hfind), pass_none hfind,
                ih _ (by simp) (h.suffix (List.suffix_cons _ _)) rfl]
          | some q =>
              have hq : q.1 ≠ [] := hne q (List.mem_of_find?_eq_some hfind)
              have hpos : 0 < q.1.length := List.length_pos_iff.2 hq
              rw [pass_some (hsame.trans hfind) hq, pass_some hfind hq,
                ih _ (by rw [List.length_drop, List.length_cons]; omega)
                  (h.suffix (List.drop_suffix _ _)) rfl]

end Pass

/-! ## Texts -/

section Texts

variable {rules rules' : List Rule} {r : Rule} {p : List Char} {cells : List Cell}

theorem begins_blank (p cs : List Char) : begins p (blank cs) = p.isPrefixOf cs := by
  induction p generalizing cs with
  | nil => rfl
  | cons a p ih =>
      cases cs with
      | nil => rfl
      | cons c cs =>
          rw [Bool.eq_iff_iff, blank, List.map_cons, begins_cons, ← blank, ih,
            List.isPrefixOf_cons_cons, Bool.and_eq_true, beq_iff_eq, Cell.own.injEq]
          exact and_congr_left' eq_comm

/-- **At once** is a pass through the template. -/
theorem once_eq (k : ℕ) (template : List Char) :
    once rules k template = text (pass rules k (blank template)) := by
  induction template generalizing k with
  | nil => cases k <;> rfl
  | cons c cs ih =>
      cases k with
      | succ k => exact ih k
      | zero =>
          have hsame : (rules.find? fun r => begins r.1 (.own c :: blank cs)) =
              rules.find? fun r => r.1.isPrefixOf (c :: cs) :=
            find?_congr fun r _ => begins_blank r.1 (c :: cs)
          rw [once, blank, List.map_cons, ← blank, pass, hsame]
          cases rules.find? fun r => r.1.isPrefixOf (c :: cs) with
          | none => simp [Cell.text, ih]
          | some r => simp [Cell.text, ih]

theorem replaceFrom_copies {v s : List Char} {fuel : ℕ} (replacement : List Char)
    (hnone : ∀ i < v.length, ¬ p.isPrefixOf ((v ++ s).drop i) = true) :
    Text.replaceFrom p replacement (v.length + fuel) (v ++ s) =
      v ++ Text.replaceFrom p replacement fuel s := by
  induction v with
  | nil => simp
  | cons a v ih =>
      have hfirst : ¬ p.isPrefixOf (a :: (v ++ s)) = true := hnone 0 (Nat.zero_lt_succ _)
      have hlength : (a :: v).length + fuel = v.length + fuel + 1 := by
        rw [List.length_cons]
        omega
      rw [hlength, List.cons_append, Text.replaceFrom, if_neg hfirst,
        ih fun i hi => hnone (i + 1) (Nat.succ_lt_succ hi)]
      rfl

theorem clean_skip (k : ℕ) (cells : List Cell) : clean p k cells = clean p 0 (cells.drop k) := by
  induction cells generalizing k with
  | nil => cases k <;> rfl
  | cons c cs ih =>
      cases k with
      | zero => rfl
      | succ k => exact ih k

/-- **One replacement** is a rule filled in, if the placeholder is found in the template's own text
only. -/
theorem replaceFrom_eq (hr : r.1 ≠ []) (cells : List Cell) {fuel : ℕ}
    (hclean : clean r.1 0 cells = true) (hfuel : (text cells).length ≤ fuel) :
    Text.replaceFrom r.1 r.2 fuel (text cells) = text (fill r cells) := by
  induction cells using scan_induction hr generalizing fuel with
  | nil => cases fuel <;> rfl
  | hit cells hbegins ih =>
      obtain ⟨cs, rfl⟩ := begins_iff.1 hbegins
      have hdrop : (blank r.1 ++ cs).drop r.1.length = cs := by
        rw [List.drop_left' (by simp [blank])]
      rw [fill_begins hr hbegins, text_cons, hdrop]
      rw [hdrop] at ih
      have hrest : clean r.1 0 cs = true := by
        cases hp : r.1 with
        | nil => exact absurd hp hr
        | cons a p =>
            rw [hp] at hclean hbegins hdrop
            rw [blank, List.map_cons, ← blank, List.cons_append] at hclean hbegins hdrop
            rw [clean, if_pos hbegins, clean_skip, drop_pred (List.cons_ne_nil a p), hdrop] at hclean
            exact hclean
      rw [text_blank] at hfuel ⊢
      have hpos : 0 < r.1.length := List.length_pos_iff.2 hr
      rw [List.length_append] at hfuel
      obtain ⟨fuel, rfl⟩ : ∃ f, fuel = f + 1 := ⟨fuel - 1, by omega⟩
      have hreplace : Text.replaceFrom r.1 r.2 (fuel + 1) (r.1 ++ text cs) =
          r.2 ++ Text.replaceFrom r.1 r.2 fuel ((r.1 ++ text cs).drop r.1.length) := by
        have hprefix : r.1.isPrefixOf (r.1 ++ text cs) = true :=
          List.isPrefixOf_iff_prefix.2 (List.prefix_append _ _)
        cases hlist : r.1 ++ text cs with
        | nil => exact absurd (List.append_eq_nil_iff.1 hlist).1 hr
        | cons c rest =>
            rw [hlist] at hprefix
            rw [Text.replaceFrom, if_pos hprefix]
      rw [hreplace, List.drop_left, ih hrest (by omega)]
      rfl
  | copy c cs hbegins ih =>
      rw [fill_copies hbegins, text_cons, text_cons]
      cases c with
      | own a =>
          rw [clean, if_neg hbegins, Bool.and_eq_true, Bool.not_eq_true'] at hclean
          have hnot : ¬ r.1.isPrefixOf (a :: text cs) = true := by
            rw [Bool.not_eq_true]
            exact hclean.1
          rw [text_cons, Cell.text, List.length_append, List.length_singleton] at hfuel
          obtain ⟨fuel, rfl⟩ : ∃ f, fuel = f + 1 := ⟨fuel - 1, by omega⟩
          rw [Cell.text, List.singleton_append, Text.replaceFrom, if_neg hnot,
            ih hclean.2 (by omega)]
          rfl
      | value v =>
          rw [clean, Bool.and_eq_true, List.all_eq_true] at hclean
          have hnone : ∀ i < v.length, ¬ r.1.isPrefixOf ((v ++ text cs).drop i) = true := by
            intro i hi
            have hnot := hclean.1 i (List.mem_range.2 hi)
            rw [Bool.not_eq_true'] at hnot
            rw [Bool.not_eq_true]
            exact hnot
          rw [text_cons, Cell.text, List.length_append] at hfuel
          obtain ⟨fuel, rfl⟩ : ∃ f, fuel = v.length + f := ⟨fuel - v.length, by omega⟩
          rw [Cell.text, replaceFrom_copies r.2 hnone, ih hclean.2 (by omega)]

theorem inOrder_eq_fillAll (hne : ∀ q ∈ rules, q.1 ≠ []) (hclean : cleanAlong rules cells = true) :
    inOrder rules (text cells) = text (fillAll rules cells) := by
  induction rules generalizing cells with
  | nil => rfl
  | cons r rules ih =>
      rw [cleanAlong, Bool.and_eq_true] at hclean
      have hr : r.1 ≠ [] := hne r List.mem_cons_self
      rw [inOrder, List.foldl_cons, replaceFrom_eq hr cells hclean.1 le_rfl]
      exact ih (fun q hq => hne q (List.mem_cons_of_mem _ hq)) hclean.2

/-- What can be substituted in any order: no two placeholders of the template overlap, and no
placeholder is ever found at a place that touches a text that has been put in. -/
def Orderless (rules : List Rule) (template : List Char) : Prop :=
  Apart rules (blank template) ∧
    ∀ rules' ∈ rules.permutations', cleanAlong rules' (blank template) = true

instance (rules : List Rule) (template : List Char) : Decidable (Orderless rules template) := by
  unfold Orderless
  infer_instance

/-- **One after the other, in any order, is at once.** -/
theorem inOrder_eq_once {template : List Char} (hne : ∀ q ∈ rules, q.1 ≠ [])
    (h : Orderless rules template) (hperm : rules'.Perm rules) :
    inOrder rules' template = once rules 0 template := by
  obtain ⟨hapart, hclean⟩ := h
  have hne' : ∀ q ∈ rules', q.1 ≠ [] := fun q hq => hne q (hperm.mem_iff.1 hq)
  have hapart' : Apart rules' (blank template) := fun b hb p hp q hq =>
    hapart b hb p (hperm.mem_iff.1 hp) q (hperm.mem_iff.1 hq)
  have htext : text (blank template) = template := by
    have hblank : text (blank template ++ []) = template ++ text [] := text_blank template
    rwa [List.append_nil, text_nil, List.append_nil] at hblank
  calc inOrder rules' template = inOrder rules' (text (blank template)) := by rw [htext]
    _ = text (fillAll rules' (blank template)) :=
        inOrder_eq_fillAll hne' (hclean rules' (List.mem_permutations'.2 hperm))
    _ = text (pass rules 0 (blank template)) := by
        rw [fillAll_eq hne' hapart', pass_perm hperm hne hapart]
    _ = once rules 0 template := (once_eq 0 template).symm

end Texts
end Substitution
end Lib
