import Mathlib.Algebra.GroupWithZero.Nat
import Mathlib.Data.List.Basic

/-!
# Parts joined with a separator

A record is written as the list of its parts, with a separator between any two
of them.  Nothing marks a separator that stands inside a part.

* `joined_inj` — the parts can be read back if none of them has the separator in
  it, whatever the other reading might be.
* `exists_shifted` — and only then: a part with the separator in it can give
  some of its text to its neighbour.
-/

namespace Lib
namespace Separated

variable {α : Type*}

/-- The parts, with the separator between them. -/
def joined (sep : α) (parts : List (List α)) : List α := [sep].intercalate parts

/-- No part has the separator in it. -/
def Free (sep : α) (parts : List (List α)) : Prop := ∀ p ∈ parts, sep ∉ p

section Joining

variable {sep : α}

@[simp] theorem joined_nil : joined sep [] = [] := rfl

@[simp] theorem joined_singleton (p : List α) : joined sep [p] = p := by simp [joined]

@[simp] theorem joined_cons_cons (p q : List α) (parts : List (List α)) :
    joined sep (p :: q :: parts) = p ++ sep :: joined sep (q :: parts) := by
  simp [joined]

theorem joined_cons {parts : List (List α)} (p : List α) (h : parts ≠ []) :
    joined sep (p :: parts) = p ++ sep :: joined sep parts := by
  cases parts with
  | nil => exact absurd rfl h
  | cons q parts => exact joined_cons_cons p q parts

theorem joined_append {ps qs : List (List α)} (hp : ps ≠ []) (hq : qs ≠ []) :
    joined sep (ps ++ qs) = joined sep ps ++ sep :: joined sep qs := by
  induction ps with
  | nil => exact absurd rfl hp
  | cons p ps ih =>
      cases ps with
      | nil => simp [joined_cons p hq]
      | cons p' ps =>
          have hrest := ih (List.cons_ne_nil p' ps)
          rw [List.cons_append] at hrest
          simp [hrest]

theorem joined_append_congr {ps ps' : List (List α)} (qs : List (List α)) (hp : ps ≠ [])
    (hp' : ps' ≠ []) (h : joined sep ps = joined sep ps') :
    joined sep (ps ++ qs) = joined sep (ps' ++ qs) := by
  cases qs with
  | nil => simpa using h
  | cons q qs => rw [joined_append hp (by simp), joined_append hp' (by simp), h]

end Joining

/-! ## Reading the parts back -/

section Reading

variable [DecidableEq α] {sep : α}

theorem count_joined {parts : List (List α)} (h : parts ≠ []) :
    (joined sep parts).count sep + 1 = (parts.map (List.count sep)).sum + parts.length := by
  induction parts with
  | nil => exact absurd rfl h
  | cons p parts ih =>
      cases parts with
      | nil => simp
      | cons q parts =>
          have hrest := ih (List.cons_ne_nil q parts)
          rw [joined_cons_cons, List.count_append, List.count_cons_self]
          simp only [List.map_cons, List.sum_cons, List.length_cons] at hrest ⊢
          omega

theorem free_iff_sum {parts : List (List α)} :
    Free sep parts ↔ (parts.map (List.count sep)).sum = 0 := by
  induction parts with
  | nil => simp [Free]
  | cons p parts ih =>
      have hcons : Free sep (p :: parts) ↔ sep ∉ p ∧ Free sep parts := List.forall_mem_cons
      rw [hcons, ih]
      simp [List.count_eq_zero]

/-- **The parts can be read back** if none of them has the separator in it. -/
theorem joined_inj {ps qs : List (List α)} (hfree : Free sep ps) (hlen : ps.length = qs.length)
    (h : joined sep ps = joined sep qs) : ps = qs := by
  by_cases hp : ps = []
  · subst hp
    exact (List.length_eq_zero_iff.1 hlen.symm).symm
  · have hq : qs ≠ [] := fun hq => hp (List.length_eq_zero_iff.1 (by rw [hlen, hq]; rfl))
    have hfree' : Free sep qs := by
      have hps : (joined sep ps).count sep + 1 = _ := count_joined hp
      have hqs : (joined sep qs).count sep + 1 = _ := count_joined hq
      have hzero := free_iff_sum.1 hfree
      rw [h] at hps
      exact free_iff_sum.2 (by omega)
    rw [← List.splitOn_intercalate sep hfree hp, ← List.splitOn_intercalate sep hfree' hq]
    exact congrArg (List.splitOn sep) h

/-- A part with the separator in it can be cut there, and give one side to its neighbour. -/
theorem exists_shifted {parts : List (List α)} (hlen : 2 ≤ parts.length)
    (h : ¬ Free sep parts) :
    ∃ qs, qs.length = parts.length ∧ qs ≠ parts ∧ joined sep qs = joined sep parts := by
  induction parts with
  | nil => simp at hlen
  | cons p parts ih =>
      obtain ⟨q, parts, rfl⟩ : ∃ q rest, parts = q :: rest := by
        cases parts with
        | nil => simp at hlen
        | cons q rest => exact ⟨q, rest, rfl⟩
      by_cases hp : sep ∈ p
      · -- cut the first part, and give the rest of it to the second
        obtain ⟨a, b, rfl⟩ := List.append_of_mem hp
        refine ⟨a :: (b ++ sep :: q) :: parts, rfl, ?_, ?_⟩
        · intro hsame
          have hhead : a = a ++ sep :: b := (List.cons.inj hsame).1
          simpa using congrArg List.length hhead
        · cases parts <;> simp
      · by_cases hq : sep ∈ q
        · -- cut the second part, and give the beginning of it to the first
          obtain ⟨a, b, rfl⟩ := List.append_of_mem hq
          refine ⟨(p ++ sep :: a) :: b :: parts, rfl, ?_, ?_⟩
          · intro hsame
            have hhead : p ++ sep :: a = p := (List.cons.inj hsame).1
            simpa using congrArg List.length hhead
          · cases parts <;> simp
        · -- neither of the two: go on after the first
          have hrest : ¬ Free sep (q :: parts) := by
            intro hfree
            refine h fun r hr => ?_
            rcases List.mem_cons.1 hr with rfl | hr
            · exact hp
            · exact hfree r hr
          have htwo : 2 ≤ (q :: parts).length := by
            cases parts with
            | nil =>
                refine absurd (fun r hr => ?_) hrest
                rw [List.mem_singleton.1 hr]
                exact hq
            | cons r rest => simp
          obtain ⟨qs, hqs, hne, hjoined⟩ := ih htwo hrest
          refine ⟨p :: qs, by simp [hqs], fun hsame => hne (List.cons.inj hsame).2, ?_⟩
          have hnil : qs ≠ [] := by
            rintro rfl
            simp at hqs
          rw [joined_cons p hnil, joined_cons_cons, hjoined]

end Reading

end Separated
end Lib

/-!
## Lists in a text field

A list is shown in a text field with a separator and some padding between its entries.  What is
typed there is read by cutting it at the separators, cleaning every piece, and dropping the
pieces of which nothing is left.

* `entries_shown` — how a list that is shown is read, if no entry has the separator in it.
* `map_entries_shown_iff` — which lists are read as they were, as far as a function of the
  entries can tell.
-/

namespace Lib
namespace Entries

variable {α β : Type*} [DecidableEq α]

/-- The entries, with a separator and some padding between them. -/
def shown (sep : α) (pad : List α) : List (List α) → List α
  | [] => []
  | p :: parts => Separated.joined sep (p :: parts.map (pad ++ ·))

/-- The entries that are read from a text. -/
def entries (sep : α) (clean : List α → List α) (text : List α) : List (List α) :=
  ((text.splitOn sep).map clean).filter fun p => p ≠ []

variable {sep : α} {pad : List α} {clean : List α → List α}

/-- **How a list that is shown is read.** -/
theorem entries_shown (hpad : sep ∉ pad) (hclean : ∀ p, clean (pad ++ p) = clean p)
    (hnil : clean [] = []) {parts : List (List α)} (hfree : ∀ p ∈ parts, sep ∉ p) :
    entries sep clean (shown sep pad parts) = (parts.map clean).filter fun p => p ≠ [] := by
  unfold entries
  cases parts with
  | nil => simp [shown, hnil]
  | cons p parts =>
      have hall : ∀ q ∈ p :: parts.map (pad ++ ·), sep ∉ q := by
        intro q hq
        rcases List.mem_cons.1 hq with rfl | hq
        · exact hfree q List.mem_cons_self
        · obtain ⟨r, hr, rfl⟩ := List.mem_map.1 hq
          rw [List.mem_append, not_or]
          exact ⟨hpad, hfree r (List.mem_cons_of_mem _ hr)⟩
      have hsplit : (shown sep pad (p :: parts)).splitOn sep = p :: parts.map (pad ++ ·) :=
        List.splitOn_intercalate sep hall (List.cons_ne_nil _ _)
      rw [hsplit, List.map_cons, List.map_map, List.map_cons]
      have hmap : parts.map (clean ∘ (pad ++ ·)) = parts.map clean :=
        List.map_congr_left fun q _ => hclean q
      rw [hmap]

theorem not_mem_of_mem_splitOn {text p : List α} (h : p ∈ text.splitOn sep) : sep ∉ p := by
  induction text generalizing p with
  | nil =>
      rw [List.splitOn_nil, List.mem_singleton] at h
      rw [h]
      exact List.not_mem_nil
  | cons a text ih =>
      rw [List.splitOn_cons_eq_if_modifyHead] at h
      split at h
      · rcases List.mem_cons.1 h with rfl | h
        · exact List.not_mem_nil
        · exact ih h
      · rename_i hne
        cases hrest : text.splitOn sep with
        | nil => exact absurd hrest (List.splitOn_ne_nil _ _)
        | cons q rest =>
            rw [hrest] at h ih
            rcases List.mem_cons.1 h with rfl | h
            · rw [List.mem_cons, not_or]
              exact ⟨fun heq => hne (by simp [heq]), ih List.mem_cons_self⟩
            · exact ih (List.mem_cons_of_mem _ h)

/-- What is read is not empty, and has no separator in it if cleaning puts none there. -/
theorem of_mem_entries (hsep : ∀ p, sep ∈ clean p → sep ∈ p) {text p : List α}
    (h : p ∈ entries sep clean text) : p ≠ [] ∧ sep ∉ p := by
  obtain ⟨hmem, hne⟩ := List.mem_filter.1 h
  obtain ⟨q, hq, rfl⟩ := List.mem_map.1 hmem
  exact ⟨by simpa using hne, fun hin => not_mem_of_mem_splitOn hq (hsep q hin)⟩

/-- **Which lists are read as they were**, as far as a function of the entries can tell: those
whose entries are not empty, have no separator in them, and are not changed by cleaning. -/
theorem map_entries_shown_iff (hpad : sep ∉ pad) (hclean : ∀ p, clean (pad ++ p) = clean p)
    (hnil : clean [] = []) (hsep : ∀ p, sep ∈ clean p → sep ∈ p) {f : List α → List β}
    {sep' : β} (hempty : ∀ p, f p = [] ↔ p = []) (hmem : ∀ p, sep' ∈ f p ↔ sep ∈ p)
    {parts : List (List α)} :
    (entries sep clean (shown sep pad parts)).map f = parts.map f ↔
      ∀ p ∈ parts, p ≠ [] ∧ sep ∉ p ∧ f (clean p) = f p := by
  constructor
  · intro h
    have hgood : ∀ p ∈ parts, p ≠ [] ∧ sep ∉ p := by
      intro p hp
      obtain ⟨q, hq, hfq⟩ : ∃ q ∈ entries sep clean (shown sep pad parts), f q = f p := by
        rw [← List.mem_map, h]
        exact List.mem_map_of_mem hp
      obtain ⟨hqne, hqsep⟩ := of_mem_entries hsep hq
      refine ⟨fun hpnil => hqne ?_, fun hin => hqsep ?_⟩
      · rw [← hempty, hfq, hempty]
        exact hpnil
      · rw [← hmem, hfq, hmem]
        exact hin
    rw [entries_shown hpad hclean hnil fun p hp => (hgood p hp).2] at h
    have hlen : ((parts.map clean).filter fun p => p ≠ []).length = (parts.map clean).length := by
      have := congrArg List.length h
      simpa using this
    rw [List.filter_eq_self.2 (List.length_filter_eq_length_iff.1 hlen), List.map_map] at h
    intro p hp
    exact ⟨(hgood p hp).1, (hgood p hp).2, List.map_inj_left.1 h p hp⟩
  · intro h
    rw [entries_shown hpad hclean hnil fun p hp => (h p hp).2.1]
    have hkept : ((parts.map clean).filter fun p => p ≠ []) = parts.map clean := by
      rw [List.filter_eq_self]
      intro q hq
      obtain ⟨p, hp, rfl⟩ := List.mem_map.1 hq
      have hne : clean p ≠ [] := by
        intro hcl
        have hfp : f p = [] := by rw [← (h p hp).2.2, hcl, hempty]
        exact (h p hp).1 ((hempty p).1 hfp)
      simpa using hne
    rw [hkept, List.map_map]
    exact List.map_congr_left fun p hp => (h p hp).2.2

end Entries
end Lib
