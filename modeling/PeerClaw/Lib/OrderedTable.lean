import PeerClaw.Lib.FiniteMap
import Mathlib.Data.Finset.Sort
import Mathlib.Data.List.Sort
import Mathlib.Order.Defs.LinearOrder
import Mathlib.Data.List.Lex
import Mathlib.Algebra.Group.Nat.Defs

/-!
# Tables that are read in the order of their keys

An ordered key-value table, seen from outside, is a finite map whose entries can be read
in the order of their keys, from one key to another:

* `scan` — the entries whose key passes a test; `iter` — all of them; `range` — those from
  one key to another, both included.
* `eraseAll` — the table without the entries under some keys.
* `range_eq_of_mem` — a list of entries in the order of their keys is the range if it has
  the same entries.
-/

/-!
## The order of composed keys

Ordered tables are often keyed by a text in which a name, a separator and a number in
fixed width are written one after the other, so that the entries of one name lie
together and in the order of their numbers.  For lists under the lexicographic order:

* `prefix_of_le_of_le` — what lies between a list and one of its extensions extends it.
* `append_separator_le_iff` — where a separator is below every letter, only the name
  decides on which side of a bound of letters a composed key lies.
* `padded` — a number in decimal digits, padded with zeros to a width;
  `padded_lt_padded` — numerals of one width are ordered as their numbers are.
-/

namespace Lib
namespace KeyOrder

section Lists

variable {α : Type*} [LinearOrder α]

theorem cons_le_cons_iff {a b : α} {l m : List α} : a :: l ≤ b :: m ↔ a < b ∨ a = b ∧ l ≤ m := by
  rw [le_iff_lt_or_eq, List.cons_lt_cons_iff, List.cons.injEq, le_iff_lt_or_eq, and_or_left,
    or_assoc]

theorem append_le_append_iff {p l m : List α} : p ++ l ≤ p ++ m ↔ l ≤ m := by
  induction p with
  | nil => rfl
  | cons a p ih =>
      rw [List.cons_append, List.cons_append, cons_le_cons_iff, ih]
      simp

theorem le_append (p l : List α) : p ≤ p ++ l := by
  have hnil : p ++ [] ≤ p ++ l := append_le_append_iff.2 (not_lt.1 (List.not_lt_nil l))
  rwa [List.append_nil] at hnil

/-- Between a list and one of its extensions there are only extensions of it. -/
theorem prefix_of_le_of_le {p k u : List α} (hlow : p ≤ k) (hhigh : k ≤ p ++ u) : p <+: k := by
  induction p generalizing k with
  | nil => exact List.nil_prefix
  | cons a p ih =>
      cases k with
      | nil => exact absurd hlow (not_le.2 (List.nil_lt_cons a p))
      | cons b k =>
          have hab : a = b := by
            apply le_antisymm
            · rcases cons_le_cons_iff.1 hlow with hlt | ⟨heq, -⟩
              · exact hlt.le
              · exact heq.le
            · rcases cons_le_cons_iff.1 hhigh with hlt | ⟨heq, -⟩
              · exact hlt.le
              · exact heq.le
          subst hab
          rw [List.cons_prefix_cons]
          refine ⟨rfl, ih ?_ ?_⟩
          · simpa using cons_le_cons_iff.1 hlow
          · simpa using cons_le_cons_iff.1 hhigh

/-- Only the name decides on which side of a bound of letters a composed key lies. -/
theorem append_separator_le_iff {sep : α} {bound : List α} (hsep : ∀ x ∈ bound, sep < x)
    (name rest : List α) : name ++ sep :: rest ≤ bound ↔ name < bound := by
  induction bound generalizing name with
  | nil =>
      have hpos : ([] : List α) < name ++ sep :: rest := by
        cases name with
        | nil => exact List.nil_lt_cons _ _
        | cons a name => exact List.nil_lt_cons _ _
      exact iff_of_false (not_le.2 hpos) (List.not_lt_nil name)
  | cons b bound ih =>
      cases name with
      | nil =>
          have hb : sep < b := hsep b List.mem_cons_self
          exact iff_of_true (cons_le_cons_iff.2 (.inl hb)) (List.nil_lt_cons _ _)
      | cons a name =>
          have hrest := ih (fun x hx => hsep x (List.mem_cons_of_mem _ hx)) name
          rw [List.cons_append, cons_le_cons_iff, List.cons_lt_cons_iff, hrest]

end Lists

theorem append_lt_append_of_length {α : Type*} [LT α] {p q x y : List α} (hlen : p.length = q.length)
    (h : p < q ∨ p = q ∧ x < y) : p ++ x < q ++ y := by
  induction p generalizing q with
  | nil =>
      obtain rfl : q = [] := List.length_eq_zero_iff.1 hlen.symm
      rcases h with hlt | ⟨-, hlt⟩
      · exact absurd hlt (List.not_lt_nil _)
      · exact hlt
  | cons a p ih =>
      cases q with
      | nil => cases hlen
      | cons b q =>
          have hlen' : p.length = q.length := Nat.succ.inj hlen
          rw [List.cons_append, List.cons_append, List.cons_lt_cons_iff]
          rw [List.cons_lt_cons_iff, List.cons.injEq] at h
          rcases h with (hab | ⟨hab, hlt⟩) | ⟨⟨hab, hpq⟩, hlt⟩
          · exact .inl hab
          · exact .inr ⟨hab, ih hlen' (.inl hlt)⟩
          · exact .inr ⟨hab, ih hlen' (.inr ⟨hpq, hlt⟩)⟩

/-! ## Numerals of a fixed width -/

/-- A number in decimal digits, padded with zeros to a width. -/
def padded (width n : ℕ) : List Char := (Nat.toDigits 10 n).leftpad width '0'

theorem isDigit_of_mem_padded {width n : ℕ} {c : Char} (h : c ∈ padded width n) :
    c.isDigit = true := by
  rcases List.mem_append.1 h with hzero | hdigit
  · rw [List.eq_of_mem_replicate hzero]
    rfl
  · exact Nat.isDigit_of_mem_toDigits (by omega) (by omega) hdigit

theorem length_padded {width n : ℕ} (hw : 0 < width) (hn : n < 10 ^ width) :
    (padded width n).length = width := by
  have hle : (Nat.toDigits 10 n).length ≤ width :=
    (Nat.length_toDigits_le_iff (by omega) hw).2 hn
  rw [padded, List.length_leftpad]
  exact Nat.max_eq_left hle

theorem padded_succ {width n : ℕ} (hw : 0 < width) :
    padded (width + 1) n = padded width (n / 10) ++ [(n % 10).digitChar] := by
  unfold padded List.leftpad
  by_cases hn : n < 10
  · rw [Nat.toDigits_of_lt_base hn, Nat.div_eq_of_lt hn, Nat.toDigits_zero, Nat.mod_eq_of_lt hn]
    obtain ⟨w, rfl⟩ : ∃ w, width = w + 1 := ⟨width - 1, by omega⟩
    simp [List.replicate_succ']
  · rw [Nat.toDigits_of_base_le (by omega) (by omega : 10 ≤ n)]
    simp

theorem digitChar_lt_digitChar {a b : ℕ} (h : a < b) (hb : b < 10) :
    a.digitChar < b.digitChar := by
  have ha := Nat.toNat_digitChar_of_lt_ten (h.trans hb)
  have hb' := Nat.toNat_digitChar_of_lt_ten hb
  show a.digitChar.toNat < b.digitChar.toNat
  omega

/-- **Numerals of one width are ordered as their numbers are.** -/
theorem padded_lt_padded {width a b : ℕ} (hab : a < b) (hb : b < 10 ^ width) :
    padded width a < padded width b := by
  induction width generalizing a b with
  | zero => omega
  | succ width ih =>
      cases width with
      | zero =>
          have hb' : b < 10 := by omega
          simp only [padded, Nat.toDigits_of_lt_base hb', Nat.toDigits_of_lt_base (hab.trans hb')]
          exact List.cons_lt_cons_iff.2 (.inl (digitChar_lt_digitChar hab hb'))
      | succ width =>
          have hb' : b / 10 < 10 ^ (width + 1) := by
            apply Nat.div_lt_of_lt_mul
            rwa [Nat.mul_comm, ← Nat.pow_succ]
          rw [padded_succ (n := a) (by omega), padded_succ (n := b) (by omega)]
          apply append_lt_append_of_length
          · rw [length_padded (by omega) hb',
              length_padded (by omega) (lt_of_le_of_lt (Nat.div_le_div_right hab.le) hb')]
          · rcases Nat.lt_or_ge (a / 10) (b / 10) with hlt | hge
            · exact .inl (ih hlt hb')
            · have heq : a / 10 = b / 10 := by omega
              refine .inr ⟨by rw [heq], ?_⟩
              have hdigit : a % 10 < b % 10 := by omega
              exact List.cons_lt_cons_iff.2 (.inl (digitChar_lt_digitChar hdigit (by omega)))

end KeyOrder
end Lib

namespace Finmap

open Lib

variable {K V : Type} [LinearOrder K]

/-- The entries whose key passes a test, in the order of their keys. -/
def scan (m : FiniteMap K V) (p : K → Bool) : List (K × V) :=
  ((m.keys.filter fun k => p k).sort (· ≤ ·)).filterMap fun k => (m.lookup k).map (Prod.mk k)

/-- All entries, in the order of their keys. -/
def iter (m : FiniteMap K V) : List (K × V) := m.scan fun _ => true

/-- The entries from one key to another, both included, in the order of their keys. -/
def range (m : FiniteMap K V) (low high : K) : List (K × V) :=
  m.scan fun k => low ≤ k ∧ k ≤ high

/-- The table without the entries under some keys. -/
def eraseAll (m : FiniteMap K V) (ks : List K) : FiniteMap K V :=
  ks.foldl (fun m k => m.erase k) m

theorem mem_scan {m : FiniteMap K V} {p : K → Bool} {e : K × V} :
    e ∈ m.scan p ↔ m.lookup e.1 = some e.2 ∧ p e.1 = true := by
  unfold scan
  rw [List.mem_filterMap]
  constructor
  · rintro ⟨k, hk, he⟩
    obtain ⟨v, hv, rfl⟩ := Option.map_eq_some_iff.1 he
    exact ⟨hv, (Finset.mem_filter.1 ((Finset.mem_sort _).1 hk)).2⟩
  · rintro ⟨hv, htest⟩
    have hkey : e.1 ∈ m.keys := Finmap.mem_keys.2 (Finmap.mem_of_lookup_eq_some hv)
    refine ⟨e.1, (Finset.mem_sort _).2 (Finset.mem_filter.2 ⟨hkey, htest⟩), ?_⟩
    rw [hv]
    rfl

theorem pairwise_scan (m : FiniteMap K V) (p : K → Bool) :
    (m.scan p).Pairwise fun e e' => e.1 < e'.1 := by
  unfold scan
  rw [List.pairwise_filterMap]
  refine (Finset.sortedLT_sort _).pairwise.imp ?_
  intro k k' hlt e he e' he'
  obtain ⟨v, -, rfl⟩ := Option.map_eq_some_iff.1 he
  obtain ⟨v', -, rfl⟩ := Option.map_eq_some_iff.1 he'
  exact hlt

theorem mem_iter {m : FiniteMap K V} {e : K × V} : e ∈ m.iter ↔ m.lookup e.1 = some e.2 :=
  mem_scan.trans (and_iff_left rfl)

theorem mem_range {m : FiniteMap K V} {low high : K} {e : K × V} :
    e ∈ m.range low high ↔ m.lookup e.1 = some e.2 ∧ low ≤ e.1 ∧ e.1 ≤ high := by
  unfold range
  rw [mem_scan, decide_eq_true_iff]

/-- **A list of entries in the order of their keys is the range**, if it has the same entries. -/
theorem range_eq_of_mem {m : FiniteMap K V} {low high : K} {es : List (K × V)}
    (hsorted : es.Pairwise fun e e' => e.1 < e'.1)
    (hmem : ∀ e, e ∈ es ↔ m.lookup e.1 = some e.2 ∧ low ≤ e.1 ∧ e.1 ≤ high) :
    m.range low high = es := by
  have hne : ∀ e e' : K × V, e.1 < e'.1 → e ≠ e' := fun e e' hlt heq => hlt.ne (by rw [heq])
  have hscan : (m.range low high).Pairwise fun e e' => e.1 < e'.1 := pairwise_scan m _
  have hperm : (m.range low high).Perm es := by
    rw [List.perm_ext_iff_of_nodup (hscan.imp (hne _ _)) (hsorted.imp (hne _ _))]
    intro e
    rw [mem_range, hmem]
  exact hperm.eq_of_pairwise (fun e e' _ _ hlt hgt => absurd hlt hgt.not_gt) hscan hsorted

theorem lookup_eraseAll (m : FiniteMap K V) (ks : List K) (k : K) :
    (m.eraseAll ks).lookup k = if k ∈ ks then none else m.lookup k := by
  unfold eraseAll
  induction ks generalizing m with
  | nil => rfl
  | cons j ks ih =>
      rw [List.foldl_cons, ih, lookup_erase_eq]
      by_cases hmem : k ∈ ks
      · simp [hmem]
      · by_cases hj : k = j
        · simp [hj]
        · simp [hj, hmem]

theorem lookup_eraseAll_range (m : FiniteMap K V) (low high k : K) :
    (m.eraseAll ((m.range low high).map Prod.fst)).lookup k =
      if low ≤ k ∧ k ≤ high then none else m.lookup k := by
  rw [lookup_eraseAll]
  have hmem : k ∈ (m.range low high).map Prod.fst ↔
      m.lookup k ≠ none ∧ low ≤ k ∧ k ≤ high := by
    rw [List.mem_map]
    constructor
    · rintro ⟨e, he, rfl⟩
      obtain ⟨hv, hbetween⟩ := mem_range.1 he
      exact ⟨by simp [hv], hbetween⟩
    · rintro ⟨hsome, hbetween⟩
      obtain ⟨v, hv⟩ := Option.ne_none_iff_exists'.1 hsome
      exact ⟨(k, v), mem_range.2 ⟨hv, hbetween⟩, rfl⟩
  by_cases hbetween : low ≤ k ∧ k ≤ high
  · cases hv : m.lookup k with
    | none => simp
    | some v => simp [hmem, hbetween, hv]
  · rw [if_neg hbetween, if_neg fun h => hbetween (hmem.1 h).2]

end Finmap
