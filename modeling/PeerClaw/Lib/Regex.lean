import PeerClaw.Lib.Text
import Mathlib.Tactic.Ring

/-!
# What a program sees of a regular expression

A compiled regular expression is seen through the matches it finds in a text: one after
the other from left to right, as ranges of bytes that do not overlap.  How it finds
them is not said here.

* `Regex` — the matches, with what holds of the ranges.
* `Regex.Local` — a stretch of a text that no match touches has no match of its own,
  which is so for expressions that do not look at what is around a match.
* `windows`, `windows_local` — an expression for texts of one length.
-/

namespace Lib

/-! ## Ranges of bytes -/

namespace Text

@[simp] theorem byteLen_nil : byteLen [] = 0 := rfl

@[simp] theorem byteLen_cons (c : Char) (cs : List Char) :
    byteLen (c :: cs) = c.utf8Size + byteLen cs := by
  simp [byteLen]

@[simp] theorem byteLen_append (a b : List Char) : byteLen (a ++ b) = byteLen a + byteLen b := by
  simp [byteLen]

theorem takeBytes_append (a b : List Char) : takeBytes (byteLen a) (a ++ b) = some a := by
  induction a with
  | nil => cases b <;> rfl
  | cons c a ih =>
      have hpos := c.utf8Size_pos
      obtain ⟨n, hn⟩ : ∃ n, c.utf8Size + byteLen a = n + 1 := ⟨_, (Nat.succ_pred (by omega)).symm⟩
      have hrest : n + 1 - c.utf8Size = byteLen a := by omega
      rw [byteLen_cons, hn, List.cons_append, takeBytes, if_pos (by omega), hrest, ih]
      rfl

theorem dropBytes_append (a b : List Char) : dropBytes (byteLen a) (a ++ b) = some b := by
  induction a with
  | nil => cases b <;> rfl
  | cons c a ih =>
      have hpos := c.utf8Size_pos
      obtain ⟨n, hn⟩ : ∃ n, c.utf8Size + byteLen a = n + 1 := ⟨_, (Nat.succ_pred (by omega)).symm⟩
      have hrest : n + 1 - c.utf8Size = byteLen a := by omega
      rw [byteLen_cons, hn, List.cons_append, dropBytes, if_pos (by omega), hrest, ih]

/-- Of two beginnings of a text, the one with fewer bytes is a beginning of the other. -/
theorem prefix_of_byteLen_le {a b text : List Char} (ha : a <+: text) (hb : b <+: text)
    (h : byteLen a ≤ byteLen b) : a <+: b := by
  rcases List.prefix_or_prefix_of_prefix ha hb with hab | ⟨c, rfl⟩
  · exact hab
  · cases c with
    | nil => simp
    | cons d c =>
        have hpos := d.utf8Size_pos
        simp at h
        omega

end Text

open Text

/-- A range of bytes. -/
structure Span where
  start : ℕ
  stop : ℕ
  deriving DecidableEq, Repr

/-- The range cuts a text into what is before it, in it and after it. -/
structure Span.Cuts (m : Span) (text a w b : List Char) : Prop where
  text_eq : text = a ++ w ++ b
  start_eq : m.start = byteLen a
  stop_eq : m.stop = byteLen (a ++ w)

/-! ## Regular expressions -/

/-- The matches that a compiled regular expression finds in a text, in order. -/
structure Regex where
  findIter : List Char → List Span
  cuts : ∀ text, ∀ m ∈ findIter text, ∃ a w b, m.Cuts text a w b
  ordered : ∀ text, (findIter text).Pairwise fun m m' => m.stop ≤ m'.start

namespace Regex

/-- There is a match. -/
def isMatch (r : Regex) (text : List Char) : Bool := !(r.findIter text).isEmpty

/-- What is between two positions. -/
def slice (text : List Char) (start stop : ℕ) : List Char :=
  ((dropBytes start text).bind (takeBytes (stop - start))).getD []

/-- The text from a position on, with some ranges of it replaced. -/
def replaceFrom (rep : List Char → List Char) (text : List Char) : ℕ → List Span → List Char
  | pos, [] => slice text pos (byteLen text)
  | pos, m :: ms =>
      slice text pos m.start ++ rep (slice text m.start m.stop) ++ replaceFrom rep text m.stop ms

/-- Replace every match. -/
def replaceAll (r : Regex) (rep : List Char → List Char) (text : List Char) : List Char :=
  replaceFrom rep text 0 (r.findIter text)

/-- A stretch of a text that no match touches has no match of its own. -/
def Local (r : Regex) : Prop :=
  ∀ a w b, (∀ m ∈ r.findIter (a ++ w ++ b), m.stop ≤ byteLen a ∨ byteLen (a ++ w) ≤ m.start) →
    r.findIter w = []

/-! ## Expressions for texts of one length -/

section Windows

variable (n : ℕ) (test : List Char → Bool)

/-- The matches from a position on, the next few characters left out. -/
def windowsFrom : ℕ → ℕ → List Char → List Span
  | _, _, [] => []
  | skip + 1, pos, c :: cs => windowsFrom skip (pos + c.utf8Size) cs
  | 0, pos, c :: cs =>
      if n ≤ (c :: cs).length ∧ test ((c :: cs).take n) then
        ⟨pos, pos + byteLen ((c :: cs).take n)⟩ :: windowsFrom (n - 1) (pos + c.utf8Size) cs
      else windowsFrom 0 (pos + c.utf8Size) cs

variable {n test}

/-- Every match is a text that passes the test, after the characters that are left out. -/
theorem windowsFrom_cuts (text : List Char) {skip pos : ℕ} {m : Span}
    (hm : m ∈ windowsFrom n test skip pos text) :
    ∃ a w b, text = a ++ w ++ b ∧ m.start = pos + byteLen a ∧ m.stop = pos + byteLen (a ++ w) ∧
      w.length = n ∧ test w ∧ skip ≤ a.length := by
  -- a match in the rest of the text
  have hlater : ∀ {c : Char} {cs a w b : List Char} {pos : ℕ}, cs = a ++ w ++ b →
      m.start = pos + c.utf8Size + byteLen a → m.stop = pos + c.utf8Size + byteLen (a ++ w) →
      c :: cs = (c :: a) ++ w ++ b ∧ m.start = pos + byteLen (c :: a) ∧
        m.stop = pos + byteLen ((c :: a) ++ w) := by
    intro c cs a w b pos hcs hstart hstop
    refine ⟨by rw [hcs]; rfl, ?_, ?_⟩
    · rw [hstart, byteLen_cons, Nat.add_assoc]
    · rw [hstop, List.cons_append, byteLen_cons, Nat.add_assoc]
  induction text generalizing skip pos with
  | nil =>
      rw [windowsFrom] at hm
      cases hm
  | cons c cs ih =>
      cases skip with
      | succ skip =>
          rw [windowsFrom] at hm
          obtain ⟨a, w, b, hcs, hstart, hstop, hlen, htest, hskip⟩ := ih hm
          obtain ⟨htext, hstart, hstop⟩ := hlater hcs hstart hstop
          exact ⟨c :: a, w, b, htext, hstart, hstop, hlen, htest, Nat.succ_le_succ hskip⟩
      | zero =>
          rw [windowsFrom] at hm
          split at hm
          · rename_i hwindow
            rcases List.mem_cons.1 hm with rfl | hm
            · refine ⟨[], (c :: cs).take n, (c :: cs).drop n, ?_, rfl, rfl, ?_, hwindow.2, Nat.zero_le _⟩
              · exact (List.take_append_drop n (c :: cs)).symm
              · rw [List.length_take]
                exact min_eq_left hwindow.1
            · obtain ⟨a, w, b, hcs, hstart, hstop, hlen, htest, -⟩ := ih hm
              obtain ⟨htext, hstart, hstop⟩ := hlater hcs hstart hstop
              exact ⟨c :: a, w, b, htext, hstart, hstop, hlen, htest, Nat.zero_le _⟩
          · obtain ⟨a, w, b, hcs, hstart, hstop, hlen, htest, -⟩ := ih hm
            obtain ⟨htext, hstart, hstop⟩ := hlater hcs hstart hstop
            exact ⟨c :: a, w, b, htext, hstart, hstop, hlen, htest, Nat.zero_le _⟩

/-- What is found after the characters of a match are left out comes after it. -/
theorem windowsFrom_after {c : Char} {cs : List Char} {pos : ℕ} {m : Span}
    (hm : m ∈ windowsFrom n test (n - 1) (pos + c.utf8Size) cs) :
    pos + byteLen ((c :: cs).take n) ≤ m.start := by
  obtain ⟨a, w, b, hcs, hstart, -, -, -, hskip⟩ := windowsFrom_cuts cs hm
  have hprefix : (c :: cs).take n <+: c :: a := by
    have htext : c :: cs = (c :: a) ++ (w ++ b) := by rw [hcs]; simp
    have hlong : n ≤ (c :: a).length := by rw [List.length_cons]; omega
    rw [htext, List.take_append_of_le_length hlong]
    exact List.take_prefix _ _
  obtain ⟨rest, hrest⟩ := hprefix
  have hle : byteLen ((c :: cs).take n) ≤ byteLen (c :: a) := by
    rw [← hrest, byteLen_append]
    omega
  rw [byteLen_cons] at hle
  omega

theorem windowsFrom_ordered (text : List Char) (skip pos : ℕ) :
    (windowsFrom n test skip pos text).Pairwise fun m m' => m.stop ≤ m'.start := by
  induction text generalizing skip pos with
  | nil =>
      rw [windowsFrom]
      exact .nil
  | cons c cs ih =>
      cases skip with
      | succ skip =>
          rw [windowsFrom]
          exact ih _ _
      | zero =>
          rw [windowsFrom]
          split
          · exact .cons (fun m hm => windowsFrom_after hm) (ih _ _)
          · exact ih _ _

/-- **Nothing is missed.**  A text that passes the test is touched by a match. -/
theorem exists_windowsFrom (hn : 0 < n) (x : List Char) {u y : List Char} (hlen : u.length = n)
    (htest : test u = true) (skip pos : ℕ) (hskip : skip ≤ x.length) :
    ∃ m ∈ windowsFrom n test skip pos (x ++ u ++ y),
      m.start < pos + byteLen (x ++ u) ∧ pos + byteLen x < m.stop := by
  have hposu : 0 < byteLen u := by
    cases u with
    | nil => simp at hlen; omega
    | cons d u =>
        have hd := d.utf8Size_pos
        rw [byteLen_cons]
        omega
  induction x generalizing skip pos with
  | nil =>
      obtain rfl : skip = 0 := Nat.le_zero.1 hskip
      cases hu : u with
      | nil => rw [hu] at hlen; simp at hlen; omega
      | cons d u' =>
          have htake : (d :: (u' ++ y)).take n = u := by
            rw [← List.cons_append, ← hu, ← hlen, List.take_left]
          have hwindow : n ≤ (d :: (u' ++ y)).length ∧ test ((d :: (u' ++ y)).take n) = true := by
            refine ⟨?_, by rw [htake]; exact htest⟩
            rw [← List.cons_append, ← hu, List.length_append, hlen]
            omega
          refine ⟨⟨pos, pos + byteLen ((d :: (u' ++ y)).take n)⟩, ?_, ?_, ?_⟩
          · show _ ∈ windowsFrom n test 0 pos (d :: (u' ++ y))
            rw [windowsFrom, if_pos hwindow]
            exact List.mem_cons_self
          · rw [← hu]
            simpa using hposu
          · rw [htake]
            simpa using hposu
  | cons c x ih =>
      have hmove : ∀ {k}, k ≤ x.length → ∃ m ∈ windowsFrom n test k (pos + c.utf8Size) (x ++ u ++ y),
          m.start < pos + byteLen (c :: x ++ u) ∧ pos + byteLen (c :: x) < m.stop := by
        intro k hk
        obtain ⟨m, hm, hstart, hstop⟩ := ih k (pos + c.utf8Size) hk
        refine ⟨m, hm, ?_, ?_⟩
        · rw [List.cons_append, byteLen_cons]
          omega
        · rw [byteLen_cons]
          omega
      cases skip with
      | succ skip =>
          obtain ⟨m, hm, hboth⟩ := hmove (Nat.le_of_succ_le_succ hskip)
          exact ⟨m, by rw [List.cons_append, List.cons_append, windowsFrom]; exact hm, hboth⟩
      | zero =>
          rw [List.cons_append, List.cons_append, windowsFrom]
          split
          · by_cases hlong : n - 1 ≤ x.length
            · obtain ⟨m, hm, hboth⟩ := hmove hlong
              exact ⟨m, List.mem_cons_of_mem _ hm, hboth⟩
            · -- the match reaches into the text that passes the test
              refine ⟨_, List.mem_cons_self, ?_, ?_⟩
              · have hc := c.utf8Size_pos
                show pos < pos + byteLen (c :: (x ++ u))
                rw [byteLen_cons]
                omega
              · have hsplit : (c :: (x ++ u ++ y)).take n = c :: x ++ (u ++ y).take (n - (x.length + 1)) := by
                  have hshape : c :: (x ++ u ++ y) = (c :: x) ++ (u ++ y) := by simp
                  rw [hshape, List.take_append, List.length_cons, List.take_of_length_le]
                  rw [List.length_cons]
                  omega
                have hsome : 0 < byteLen ((u ++ y).take (n - (x.length + 1))) := by
                  have hnot : (u ++ y).take (n - (x.length + 1)) ≠ [] := by
                    intro hnil
                    have hl := congrArg List.length hnil
                    rw [List.length_take, List.length_append, hlen, List.length_nil] at hl
                    omega
                  obtain ⟨d, ds, hds⟩ := List.exists_cons_of_ne_nil hnot
                  have hd := d.utf8Size_pos
                  rw [hds, byteLen_cons]
                  omega
                dsimp only
                rw [hsplit, byteLen_append]
                omega
          · obtain ⟨m, hm, hboth⟩ := hmove (Nat.zero_le _)
            exact ⟨m, hm, hboth⟩

variable (n test)

/-- The expression that finds the texts of `n` characters that pass a test. -/
def windows : Regex where
  findIter := windowsFrom n test 0 0
  cuts text m hm := by
    obtain ⟨a, w, b, htext, hstart, hstop, -⟩ := windowsFrom_cuts text hm
    exact ⟨a, w, b, htext, by omega, by omega⟩
  ordered text := windowsFrom_ordered text 0 0

variable {n test}

/-- **Texts of one length are found wherever they are.** -/
theorem windows_local (hn : 0 < n) : (windows n test).Local := by
  intro a w b hfar
  refine List.eq_nil_iff_forall_not_mem.2 ?_
  intro m hm
  obtain ⟨x, u, y, rfl, -, -, hlen, htest, -⟩ := windowsFrom_cuts w hm
  obtain ⟨m', hm', hstart, hstop⟩ := exists_windowsFrom hn (a ++ x) (y := y ++ b) hlen htest
    0 0 (Nat.zero_le _)
  have hwhole : a ++ x ++ u ++ (y ++ b) = a ++ (x ++ u ++ y) ++ b := by simp
  rw [hwhole] at hm'
  have hout := hfar m' hm'
  simp only [byteLen_append] at hout hstart hstop
  omega

end Windows

end Regex
end Lib
