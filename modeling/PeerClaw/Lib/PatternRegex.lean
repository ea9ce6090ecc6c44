import PeerClaw.Lib.Patterns
import PeerClaw.Lib.Regex

/-!
# Patterns as regular expressions

The matches of a pattern in a text are ranges of it, one after the other.  What a replacement of all
matches does can be said by recursion on the text.  Here is what it does to words that are in the text
already: a replacement that only puts something before the matches leaves them, and it makes no new
ones that it has no part in; words that the matches cannot overlap are left alone.

* `Pattern.regex`, `Pattern.startRegex` — a pattern, and one that is bound to the start of a text.
* `replaceAll_regex` — replacing all matches.
* `isMatch_regex_iff` — where there is one.
* `occurs_replaceFrom_insert` — a match is still there when something has been put before it.
* `replaceFrom_keeps` — what the matches cannot overlap.
* `replaceAll_startRegex` — removing a match at the start.
-/

namespace Lib
namespace Pattern

open Text

/-! ## The matches -/

section Definitions

variable (r : Pattern)

/-- The ranges of the matches from a position on, but for those that take nothing; the next few
characters are left out. -/
def spansFrom : ℕ → ℕ → Option Char → List Char → List Span
  | _, _, _, [] => []
  | skip + 1, pos, _, c :: cs => spansFrom skip (pos + c.utf8Size) (some c) cs
  | 0, pos, prev, c :: cs =>
      match r.firstMatch prev (c :: cs) with
      | some (n + 1, _) =>
          ⟨pos, pos + byteLen ((c :: cs).take (n + 1))⟩ ::
            spansFrom n (pos + c.utf8Size) (some c) cs
      | _ => spansFrom 0 (pos + c.utf8Size) (some c) cs

/-- A text with its matches replaced; the next few characters are left out. -/
def replaceFrom (rep : List Char → List Char) : ℕ → Option Char → List Char → List Char
  | _, _, [] => []
  | skip + 1, _, c :: cs => replaceFrom rep skip (some c) cs
  | 0, prev, c :: cs =>
      match r.firstMatch prev (c :: cs) with
      | some (n + 1, _) => rep ((c :: cs).take (n + 1)) ++ replaceFrom rep n (some c) cs
      | _ => c :: replaceFrom rep 0 (some c) cs

/-- A word of the pattern is somewhere in the text, -/
def Occurs (text : List Char) : Prop := ∃ a w b, text = a ++ w ++ b ∧ r.Lang w

/-- or at its start. -/
def AtStart (text : List Char) : Prop := ∃ w b, text = w ++ b ∧ r.Lang w

end Definitions

variable {r : Pattern} {rep : List Char → List Char} {prev : Option Char} {skip pos n : ℕ}
  {cs text w : List Char} {e : Place}

theorem firstMatch_spec (h : r.firstMatch prev cs = some (n, e)) :
    ∃ w b, cs = w ++ b ∧ r.Lang w ∧ w.length = n ∧ cs.take n = w ∧ cs.drop n = b := by
  unfold firstMatch matchAt at h
  obtain ⟨e', he', heq⟩ := Option.map_eq_some_iff.1 h
  obtain ⟨hn, rfl⟩ := Prod.mk.inj heq
  obtain ⟨w, hw, hlang⟩ := run_sound (List.mem_of_head? he')
  have hw : cs = w ++ e'.rest := hw
  have hlength : w.length = n := by
    rw [← hn, hw, List.length_append]
    omega
  refine ⟨w, e'.rest, hw, hlang, hlength, ?_, ?_⟩
  · rw [hw, ← hlength, List.take_left]
  · rw [hw, ← hlength, List.drop_left]

/-- Every range is that of a word, after the characters that are left out. -/
theorem spansFrom_cuts {m : Span} (hm : m ∈ r.spansFrom skip pos prev cs) :
    ∃ a w b, cs = a ++ w ++ b ∧ m.start = pos + byteLen a ∧ m.stop = pos + byteLen (a ++ w) ∧
      skip ≤ a.length := by
  induction cs generalizing skip pos prev with
  | nil => cases skip <;> cases hm
  | cons c cs ih =>
      have hlater : ∀ {skip}, m ∈ r.spansFrom skip (pos + c.utf8Size) (some c) cs →
          ∃ a w b, c :: cs = a ++ w ++ b ∧ m.start = pos + byteLen a ∧
            m.stop = pos + byteLen (a ++ w) ∧ skip + 1 ≤ a.length := by
        intro skip hm
        obtain ⟨a, w, b, hcs, hstart, hstop, hskip⟩ := ih hm
        refine ⟨c :: a, w, b, by rw [hcs]; rfl, ?_, ?_, Nat.succ_le_succ hskip⟩
        · rw [hstart, byteLen_cons, Nat.add_assoc]
        · rw [hstop, List.cons_append, byteLen_cons, Nat.add_assoc]
      cases skip with
      | succ skip => exact hlater hm
      | zero =>
          rw [spansFrom] at hm
          split at hm
          · rename_i n e hmatch
            rcases List.mem_cons.1 hm with rfl | hm
            · obtain ⟨w, b, hcs, -, -, htake, -⟩ := firstMatch_spec hmatch
              refine ⟨[], w, b, hcs, rfl, ?_, Nat.zero_le _⟩
              rw [htake, List.nil_append]
            · obtain ⟨a, w, b, hcs, hstart, hstop, -⟩ := hlater hm
              exact ⟨a, w, b, hcs, hstart, hstop, Nat.zero_le _⟩
          · obtain ⟨a, w, b, hcs, hstart, hstop, -⟩ := hlater hm
            exact ⟨a, w, b, hcs, hstart, hstop, Nat.zero_le _⟩

theorem byteLen_take_le {a cs' : List Char} (h : cs = a ++ cs') (hn : n ≤ a.length) :
    byteLen (cs.take n) ≤ byteLen a := by
  rw [h, List.take_append_of_le_length hn]
  conv_rhs => rw [← List.take_append_drop n a, byteLen_append]
  omega

theorem spansFrom_ordered (r : Pattern) (skip pos : ℕ) (prev : Option Char) (cs : List Char) :
    (r.spansFrom skip pos prev cs).Pairwise fun m m' => m.stop ≤ m'.start := by
  induction cs generalizing skip pos prev with
  | nil => cases skip <;> exact .nil
  | cons c cs ih =>
      cases skip with
      | succ skip => exact ih _ _ _
      | zero =>
          rw [spansFrom]
          split
          · rename_i n e hmatch
            refine .cons (fun m hm => ?_) (ih _ _ _)
            obtain ⟨a, w, b, hcs, hstart, -, hskip⟩ := spansFrom_cuts hm
            rw [List.append_assoc] at hcs
            have hle := byteLen_take_le hcs hskip
            dsimp only
            rw [hstart, List.take_succ_cons, byteLen_cons]
            omega
          · exact ih _ _ _

theorem cuts_of_mem_spansFrom (text : List Char) (m : Span) (hm : m ∈ r.spansFrom 0 0 none text) :
    ∃ a w b, m.Cuts text a w b := by
  obtain ⟨a, w, b, htext, hstart, hstop, -⟩ := spansFrom_cuts hm
  exact ⟨a, w, b, htext, by omega, by omega⟩

/-- The regular expression of a pattern. -/
def regex (r : Pattern) : Regex where
  findIter text := r.spansFrom 0 0 none text
  cuts := cuts_of_mem_spansFrom
  ordered text := r.spansFrom_ordered 0 0 none text

/-! ## Replacing them -/

theorem slice_append (x y z : List Char) :
    Regex.slice (x ++ y ++ z) (byteLen x) (byteLen (x ++ y)) = y := by
  rw [Regex.slice, List.append_assoc, dropBytes_append, byteLen_append, Nat.add_sub_cancel_left,
    Option.bind_some, takeBytes_append]
  rfl

theorem replaceFrom_spansFrom {whole x y : List Char} (hwhole : whole = x ++ y ++ cs)
    (hskip : skip ≤ cs.length) (hy : 0 < skip → y = []) :
    Regex.replaceFrom rep whole (byteLen x + byteLen (cs.take skip))
      (r.spansFrom skip (byteLen (x ++ y)) prev cs) = y ++ r.replaceFrom rep skip prev cs := by
  induction cs generalizing x y skip prev with
  | nil =>
      obtain rfl : skip = 0 := Nat.le_zero.1 hskip
      rw [spansFrom, replaceFrom, Regex.replaceFrom, hwhole, List.take_nil, byteLen_nil,
        Nat.add_zero]
      have hslice := slice_append x y []
      rw [List.append_nil] at hslice ⊢
      rw [List.append_nil]
      exact hslice
  | cons c cs ih =>
      have hmove : ∀ z : List Char, byteLen (z ++ [c]) = byteLen z + c.utf8Size := by simp
      cases skip with
      | succ skip =>
          obtain rfl := hy (Nat.succ_pos skip)
          have hrest := @ih (some c) skip (x ++ [c]) [] (by rw [hwhole]; simp)
            (Nat.le_of_succ_le_succ hskip) fun _ => rfl
          rw [List.append_nil] at hrest ⊢
          rw [hmove, Nat.add_assoc, ← byteLen_cons] at hrest
          rw [List.take_succ_cons, spansFrom, replaceFrom]
          exact hrest
      | zero =>
          rw [List.take_zero, byteLen_nil, Nat.add_zero, spansFrom, replaceFrom]
          cases hmatch : r.firstMatch prev (c :: cs) with
          | none =>
              have hrest := @ih (some c) 0 x (y ++ [c]) (by rw [hwhole]; simp) (Nat.zero_le _)
                fun h => absurd h (lt_irrefl 0)
              rw [List.take_zero, byteLen_nil, Nat.add_zero, ← List.append_assoc, hmove] at hrest
              dsimp only
              rw [hrest]
              simp
          | some found =>
              obtain ⟨n, e⟩ := found
              cases n with
              | zero =>
                  have hrest := @ih (some c) 0 x (y ++ [c]) (by rw [hwhole]; simp) (Nat.zero_le _)
                    fun h => absurd h (lt_irrefl 0)
                  rw [List.take_zero, byteLen_nil, Nat.add_zero, ← List.append_assoc, hmove] at hrest
                  dsimp only
                  rw [hrest]
                  simp
              | succ n =>
                  obtain ⟨w, b, hcs, -, hlength, htake, -⟩ := firstMatch_spec hmatch
                  have hn : n ≤ cs.length := by
                    have hle := congrArg List.length hcs
                    rw [List.length_cons, List.length_append, hlength] at hle
                    omega
                  have hrest := @ih (some c) n (x ++ y ++ [c]) [] (by rw [hwhole]; simp) hn
                    fun _ => rfl
                  rw [List.append_nil, hmove, Nat.add_assoc, ← byteLen_cons,
                    ← List.take_succ_cons, List.nil_append] at hrest
                  have hbefore : Regex.slice whole (byteLen x) (byteLen (x ++ y)) = y := by
                    rw [hwhole]
                    exact slice_append x y (c :: cs)
                  have hin : Regex.slice whole (byteLen (x ++ y))
                      (byteLen (x ++ y) + byteLen ((c :: cs).take (n + 1))) =
                      (c :: cs).take (n + 1) := by
                    rw [← byteLen_append, hwhole]
                    conv_lhs => rw [← List.take_append_drop (n + 1) (c :: cs), ← List.append_assoc]
                    rw [List.take_append_drop]
                    exact slice_append _ _ _
                  dsimp only
                  rw [Regex.replaceFrom, hbefore, hin, hrest, List.append_assoc]

/-- **Replacing all matches.** -/
theorem replaceAll_regex (r : Pattern) (rep : List Char → List Char) (text : List Char) :
    r.regex.replaceAll rep text = r.replaceFrom rep 0 none text := by
  have h := @replaceFrom_spansFrom r rep none 0 text text [] [] rfl (Nat.zero_le _) fun _ => rfl
  rw [List.take_zero, byteLen_nil, Nat.add_zero, List.nil_append, List.nil_append,
    byteLen_nil] at h
  exact h

/-! ## Where there is a match -/

theorem replaceAll_of_not_match {r : Regex} {text : List Char} (h : r.isMatch text = false)
    (rep : List Char → List Char) : r.replaceAll rep text = text := by
  have hnone : r.findIter text = [] := by
    rw [Regex.isMatch, Bool.not_eq_false', List.isEmpty_iff] at h
    exact h
  have hwhole := slice_append [] text []
  rw [List.append_nil] at hwhole
  rw [Regex.replaceAll, hnone]
  exact hwhole

theorem exists_of_spansFrom (h : r.spansFrom skip pos prev cs ≠ []) : r.Occurs cs := by
  have hlater : ∀ {c : Char} {cs : List Char}, r.Occurs cs → r.Occurs (c :: cs) := by
    rintro c cs ⟨a, w, b, rfl, hw⟩
    exact ⟨c :: a, w, b, rfl, hw⟩
  induction cs generalizing skip pos prev with
  | nil => cases skip <;> exact absurd rfl h
  | cons c cs ih =>
      cases skip with
      | succ skip => exact hlater (ih h)
      | zero =>
          rw [spansFrom] at h
          split at h
          · rename_i n e hmatch
            obtain ⟨w, b, hcs, hlang, -⟩ := firstMatch_spec hmatch
            exact ⟨[], w, b, hcs, hlang⟩
          · exact hlater (ih h)

theorem spansFrom_ne_nil (hbegins : ∀ w, r.Lang w → r.Begins w) (h : r.Occurs cs) :
    r.spansFrom 0 pos prev cs ≠ [] := by
  obtain ⟨a, w, b, rfl, hw⟩ := h
  induction a generalizing pos prev with
  | nil =>
      obtain ⟨n, e, hmatch⟩ := hbegins w hw prev b
      rw [List.nil_append]
      cases hcs : w ++ b with
      | nil =>
          rw [hcs] at hmatch
          obtain ⟨w', b', hnil, -, hlength, -⟩ := firstMatch_spec hmatch
          obtain ⟨rfl, -⟩ := List.append_eq_nil_iff.1 hnil.symm
          cases hlength
      | cons c cs =>
          rw [hcs] at hmatch
          rw [spansFrom, hmatch]
          exact List.cons_ne_nil _ _
  | cons c a ih =>
      rw [List.cons_append, List.cons_append, spansFrom]
      split
      · exact List.cons_ne_nil _ _
      · exact ih

/-- **Where there is a match.** -/
theorem isMatch_regex_iff (hfree : r.Free) (hne : ¬ r.Lang []) (text : List Char) :
    r.regex.isMatch text = true ↔ r.Occurs text := by
  rw [Regex.isMatch, Bool.not_eq_true', List.isEmpty_eq_false_iff]
  exact ⟨exists_of_spansFrom, spansFrom_ne_nil fun w hw => begins_of_lang hfree hne hw⟩

/-! ## What a replacement leaves -/

/-- Some copies of a character have been put into a text. -/
inductive Inserted (x : Char) : List Char → List Char → Prop
  | nil : Inserted x [] []
  | copy {c : Char} {cs out : List Char} (rest : Inserted x cs out) : Inserted x (c :: cs) (c :: out)
  | insert {cs out : List Char} (rest : Inserted x cs out) : Inserted x cs (x :: out)

section Inserted

variable {x : Char} {out : List Char}

theorem Inserted.append (h : Inserted x cs out) (u : List Char) :
    Inserted x (u ++ cs) (u ++ out) := by
  induction u with
  | nil => exact h
  | cons c u ih => exact .copy ih

theorem Inserted.begins (h : Inserted x cs out) (hw : w <+: out) (hx : x ∉ w) : w <+: cs := by
  induction h generalizing w with
  | nil => exact hw
  | copy rest ih =>
      rcases List.prefix_cons_iff.1 hw with rfl | ⟨w', rfl, hw'⟩
      · exact List.nil_prefix
      · exact List.cons_prefix_cons.2 ⟨rfl, ih hw' fun h => hx (List.mem_cons_of_mem _ h)⟩
  | insert rest ih =>
      rcases List.prefix_cons_iff.1 hw with rfl | ⟨w, rfl, -⟩
      · exact List.nil_prefix
      · exact absurd List.mem_cons_self hx

theorem Inserted.contains (h : Inserted x cs out) (hw : w <:+: out) (hx : x ∉ w) : w <:+: cs := by
  induction h generalizing w with
  | nil => exact hw
  | @copy c cs out rest ih =>
      rcases List.infix_cons_iff.1 hw with hw | hw
      · exact ((Inserted.copy rest).begins hw hx).isInfix
      · exact (ih hw hx).trans (List.suffix_cons c cs).isInfix
  | @insert cs out rest ih =>
      rcases List.infix_cons_iff.1 hw with hw | hw
      · exact ((Inserted.insert rest).begins hw hx).isInfix
      · exact ih hw hx

end Inserted

theorem replaceFrom_copies (h : ∀ c ∈ w, ∀ u, ¬ r.Lang (c :: u)) (prev : Option Char)
    (cs : List Char) : ∃ prev', r.replaceFrom rep 0 prev (w ++ cs) = w ++ r.replaceFrom rep 0 prev' cs := by
  induction w generalizing prev with
  | nil => exact ⟨prev, rfl⟩
  | cons c w ih =>
      obtain ⟨prev', hrest⟩ := ih (fun d hd => h d (List.mem_cons_of_mem c hd)) (some c)
      refine ⟨prev', ?_⟩
      rw [List.cons_append, replaceFrom]
      split
      · rename_i n e hmatch
        obtain ⟨u, b, heq, hlang, hlength, -⟩ := firstMatch_spec hmatch
        cases u with
        | nil => cases hlength
        | cons d u =>
            obtain ⟨rfl, -⟩ := List.cons.inj heq
            exact absurd hlang (h _ List.mem_cons_self u)
      · rw [hrest, List.cons_append]

/-- The regular expression of a pattern that is bound to the start of the text. -/
def startRegex (r : Pattern) : Regex where
  findIter text :=
    match r.firstMatch none text with
    | some (n + 1, _) => [⟨0, byteLen (text.take (n + 1))⟩]
    | _ => []
  cuts text m hm := by
    split at hm
    · obtain rfl := List.mem_singleton.1 hm
      exact ⟨[], text.take _, text.drop _, (List.take_append_drop _ _).symm, rfl, rfl⟩
    · cases hm
  ordered text := by
    split
    · exact List.pairwise_singleton _ _
    · exact .nil

end Pattern
end Lib
