import PeerClaw.Lib.Lines
import PeerClaw.Lib.PatternRegex
import PeerClaw.Lib.Separated

/-!
# White space and words

A text in which each stretch of white space is replaced by a blank, and that is trimmed, is its
words with blanks between them.

* `trimChars_squeeze` — what is left of the text.
* `words_blanks` — the words of words with blanks between them.
* `replaceAll_plus` — the replacement as a regular expression does it.
-/

namespace Lib
namespace Text

variable {c : Char} {cs w : List Char} {ws : List (List Char)}

/-- A word: it is not empty and has no white space. -/
def IsWord (w : List Char) : Prop := w ≠ [] ∧ ∀ c ∈ w, isWhitespace c = false

/-- Words with blanks between them. -/
def blanks (ws : List (List Char)) : List Char := Separated.joined ' ' ws

/-- Each stretch of white space is replaced by a blank, but for the one that the text begins
inside of. -/
def squeezeFrom : Bool → List Char → List Char
  | _, [] => []
  | inside, c :: cs =>
      if isWhitespace c then
        if inside then squeezeFrom true cs else ' ' :: squeezeFrom true cs
      else c :: squeezeFrom false cs

/-- Each stretch of white space is replaced by a blank. -/
def squeeze (cs : List Char) : List Char := squeezeFrom false cs

/-- Some of a text can be seen. -/
def Visible (cs : List Char) : Prop := ∃ c ∈ cs, isWhitespace c = false

/-! ## The words of a text -/

@[simp] theorem words_nil : words [] = [] := rfl

theorem words_cons_space (h : isWhitespace c = true) : words (c :: cs) = words cs := by
  rw [words, List.splitOnP_cons_eq_if_modifyHead, if_pos h, List.filter_cons_of_neg (by simp)]
  rfl

theorem words_append_space (hw : IsWord w) (h : isWhitespace c = true) :
    words (w ++ c :: cs) = w :: words cs := by
  rw [words, List.splitOnP_append_cons_of_forall_mem hw.2 c h,
    List.filter_cons_of_pos (by simpa using hw.1)]
  rfl

theorem words_word (hw : IsWord w) : words w = [w] := by
  rw [words, List.splitOnP_eq_singleton hw.2, List.filter_cons_of_pos (by simpa using hw.1),
    List.filter_nil]

/-- **A text, word by word.** -/
theorem words_induction {motive : List Char → Prop} (nil : motive [])
    (space : ∀ c cs, isWhitespace c = true → motive cs → motive (c :: cs))
    (word : ∀ w, IsWord w → motive w)
    (next : ∀ w c cs, IsWord w → isWhitespace c = true → motive cs → motive (w ++ c :: cs))
    (cs : List Char) : motive cs := by
  induction hlength : cs.length using Nat.strong_induction_on generalizing cs with
  | _ n ih =>
      subst hlength
      match cs with
      | [] => exact nil
      | c :: cs =>
          cases hc : isWhitespace c with
          | true => exact space c cs hc (ih cs.length (by simp) cs rfl)
          | false =>
              -- the first word, and what is behind it
              have hsplit := List.takeWhile_append_dropWhile (p := fun d => !isWhitespace d)
                (l := c :: cs)
              have hw : IsWord ((c :: cs).takeWhile fun d => !isWhitespace d) :=
                ⟨by simp [hc], fun d hd => by simpa using List.mem_takeWhile_imp hd⟩
              cases hrest : (c :: cs).dropWhile fun d => !isWhitespace d with
              | nil =>
                  rw [hrest, List.append_nil] at hsplit
                  exact hsplit ▸ word _ hw
              | cons d rest =>
                  have hd : isWhitespace d = true := by
                    have hsome : (c :: cs).dropWhile (fun d => !isWhitespace d) ≠ [] := by
                      simp [hrest]
                    have h := List.head_dropWhile_not (fun d => !isWhitespace d) hsome
                    simpa [hrest] using h
                  rw [hrest] at hsplit
                  rw [← hsplit]
                  refine next _ d rest hw hd (ih rest.length ?_ rest rfl)
                  rw [← hsplit, List.length_append, List.length_cons]
                  omega

theorem isWord_of_mem_words : ∀ w ∈ words cs, IsWord w := by
  induction cs using words_induction with
  | nil => simp
  | space c cs hc ih => rwa [words_cons_space hc]
  | word w hw => simpa [words_word hw] using hw
  | next w c cs hw hc ih =>
      rw [words_append_space hw hc]
      exact List.forall_mem_cons.2 ⟨hw, ih⟩

theorem words_append_cons (h : isWhitespace c = true) (a b : List Char) :
    words (a ++ c :: b) = words a ++ words b := by
  rw [words, List.splitOnP_append_cons a b h, List.filter_append, words, words]

theorem words_append_white (h : ∀ c ∈ w, isWhitespace c = true) (cs : List Char) :
    words (w ++ cs) = words cs := by
  induction w with
  | nil => rfl
  | cons c w ih =>
      obtain ⟨hc, hw⟩ := List.forall_mem_cons.1 h
      rw [List.cons_append, words_cons_space hc, ih hw]

theorem words_white_append (h : ∀ c ∈ w, isWhitespace c = true) (cs : List Char) :
    words (cs ++ w) = words cs := by
  cases w with
  | nil => rw [List.append_nil]
  | cons c w =>
      obtain ⟨hc, hw⟩ := List.forall_mem_cons.1 h
      have hnone := words_append_white hw []
      rw [List.append_nil] at hnone
      rw [words_append_cons hc, hnone, words_nil, List.append_nil]

theorem words_trimChars (cs : List Char) : words (trimChars cs) = words cs := by
  have hstart : words (cs.dropWhile isWhitespace) = words cs := by
    have hwhite : ∀ c ∈ cs.takeWhile isWhitespace, isWhitespace c = true :=
      fun c hc => List.mem_takeWhile_imp hc
    have h := words_append_white hwhite (cs.dropWhile isWhitespace)
    rwa [List.takeWhile_append_dropWhile, eq_comm] at h
  have hend : ∀ l : List Char, words (l.rdropWhile isWhitespace) = words l := by
    intro l
    induction l using List.reverseRecOn with
    | nil => rfl
    | append_singleton l d ih =>
        by_cases hd : isWhitespace d = true
        · rw [List.rdropWhile_concat_pos _ _ _ hd, ih, words_white_append (by simpa using hd)]
        · rw [List.rdropWhile_concat_neg _ _ _ hd]
  rw [trimChars_eq, hend, hstart]

theorem flatten_words (cs : List Char) :
    (words cs).flatten = cs.filter fun c => !isWhitespace c := by
  induction cs using words_induction with
  | nil => rfl
  | space c cs hc ih => rw [words_cons_space hc, ih, List.filter_cons_of_neg (by simp [hc])]
  | word w hw =>
      have hall : w.filter (fun c => !isWhitespace c) = w := by simpa using hw.2
      rw [words_word hw, hall, List.flatten_singleton]
  | next w c cs hw hc ih =>
      have hall : w.filter (fun c => !isWhitespace c) = w := by simpa using hw.2
      rw [words_append_space hw hc, List.flatten_cons, ih, List.filter_append, hall,
        List.filter_cons_of_neg (by simp [hc])]

/-- Two texts without white space between them have a word in common. -/
theorem words_append_word {a b : List Char} {d : Char} (hc : isWhitespace c = false)
    (hd : isWhitespace d = false) : ∃ us u v vs, words (a ++ [c]) = us ++ [u] ∧
      words (d :: b) = v :: vs ∧ words (a ++ [c] ++ d :: b) = us ++ (u ++ v) :: vs ∧
      u ≠ [] ∧ v ≠ [] := by
  -- the word that the second text begins with
  have hsecond : ∀ u : List Char, (∀ c ∈ u, isWhitespace c = false) → ∃ v vs,
      words (d :: b) = v :: vs ∧ words (u ++ d :: b) = (u ++ v) :: vs ∧ v ≠ [] := by
    intro u hu
    have hsplit := List.takeWhile_append_dropWhile (p := fun c => !isWhitespace c) (l := d :: b)
    have hword : IsWord ((d :: b).takeWhile fun c => !isWhitespace c) :=
      ⟨by simp [hd], fun c hc => by simpa using List.mem_takeWhile_imp hc⟩
    have hword' : IsWord (u ++ (d :: b).takeWhile fun c => !isWhitespace c) := by
      refine ⟨by simp [hd], fun c hc => ?_⟩
      rcases List.mem_append.1 hc with hc | hc
      · exact hu c hc
      · exact hword.2 c hc
    cases hrest : (d :: b).dropWhile fun c => !isWhitespace c with
    | nil =>
        rw [hrest, List.append_nil] at hsplit
        refine ⟨_, [], ?_, ?_, hword.1⟩
        · rw [← words_word hword, hsplit]
        · rw [← words_word hword', hsplit]
    | cons e rest =>
        have he : isWhitespace e = true := by
          have hsome : (d :: b).dropWhile (fun c => !isWhitespace c) ≠ [] := by simp [hrest]
          have h := List.head_dropWhile_not (fun c => !isWhitespace c) hsome
          simpa [hrest] using h
        rw [hrest] at hsplit
        refine ⟨_, words rest, ?_, ?_, hword.1⟩
        · rw [← words_append_space hword he, hsplit]
        · rw [← words_append_space hword' he, List.append_assoc, hsplit]
  induction a using words_induction with
  | nil =>
      obtain ⟨v, vs, hv, hjoined, hne⟩ := hsecond [c] (by simpa using hc)
      exact ⟨[], [c], v, vs, words_word ⟨by simp, by simpa using hc⟩, hv, hjoined, by simp, hne⟩
  | space e a he ih =>
      obtain ⟨us, u, v, vs, hu, hv, hjoined, hne⟩ := ih
      refine ⟨us, u, v, vs, ?_, hv, ?_, hne⟩
      · rw [List.cons_append, words_cons_space he, hu]
      · rw [List.cons_append, List.cons_append, words_cons_space he, hjoined]
  | word w hw =>
      have hall : ∀ e ∈ w ++ [c], isWhitespace e = false := by
        intro e he
        rcases List.mem_append.1 he with he | he
        · exact hw.2 e he
        · rw [List.mem_singleton.1 he]
          exact hc
      obtain ⟨v, vs, hv, hjoined, hne⟩ := hsecond (w ++ [c]) hall
      exact ⟨[], w ++ [c], v, vs, words_word ⟨by simp, hall⟩, hv, hjoined, by simp, hne⟩
  | next w e a hw he ih =>
      obtain ⟨us, u, v, vs, hu, hv, hjoined, hne⟩ := ih
      refine ⟨w :: us, u, v, vs, ?_, hv, ?_, hne⟩
      · rw [List.append_assoc, List.cons_append, words_append_space hw he, hu, List.cons_append]
      · rw [List.append_assoc, List.append_assoc, List.cons_append, words_append_space hw he,
          ← List.append_assoc, hjoined, List.cons_append]

theorem not_visible_iff : ¬ Visible cs ↔ ∀ c ∈ cs, isWhitespace c = true := by
  simp [Visible]

theorem words_ne_nil_iff : words cs ≠ [] ↔ Visible cs := by
  constructor
  · intro h
    by_contra hnone
    have hwhite := words_append_white (not_visible_iff.1 hnone) []
    rw [List.append_nil] at hwhite
    exact h hwhite
  · rintro ⟨c, hc, hword⟩ hnil
    have hflat := flatten_words cs
    rw [hnil, List.flatten_nil, eq_comm, List.filter_eq_nil_iff] at hflat
    exact hflat c hc (by simp [hword])

theorem visible_iff_flatten : Visible cs ↔ (words cs).flatten ≠ [] := by
  rw [flatten_words, Visible, ne_eq, List.filter_eq_nil_iff]
  push Not
  simp

theorem Visible.append_right (h : Visible cs) (w : List Char) : Visible (cs ++ w) := by
  obtain ⟨c, hc, hword⟩ := h
  exact ⟨c, List.mem_append_left w hc, hword⟩

theorem Visible.append_left (h : Visible cs) (w : List Char) : Visible (w ++ cs) := by
  obtain ⟨c, hc, hword⟩ := h
  exact ⟨c, List.mem_append_right w hc, hword⟩

theorem words_not_split {xs ys us vs : List (List Char)} {u v : List Char} (hu : u ≠ [])
    (hv : v ≠ []) (hflat : xs.flatten = us.flatten ++ u) (heq : xs ++ ys = us ++ (u ++ v) :: vs) :
    False := by
  have hlen := congrArg List.length hflat
  have hu' := List.length_pos_of_ne_nil hu
  have hv' := List.length_pos_of_ne_nil hv
  rcases List.append_eq_append_iff.1 heq with ⟨t, ht, -⟩ | ⟨t, ht, ht'⟩
  · have hlen' := congrArg (fun l => l.flatten.length) ht
    simp only [List.flatten_append, List.length_append] at hlen hlen'
    omega
  · have hlen' := congrArg (fun l => l.flatten.length) ht
    cases t with
    | nil =>
        simp only [List.append_nil, List.length_append] at hlen hlen'
        omega
    | cons w t =>
        obtain ⟨rfl, -⟩ := List.cons.inj ht'
        simp only [List.flatten_append, List.flatten_cons, List.length_append] at hlen hlen'
        omega

theorem Visible.exists_last (h : Visible cs) : ∃ a c b, cs = a ++ c :: b ∧
    isWhitespace c = false ∧ ∀ d ∈ b, isWhitespace d = true := by
  induction cs using List.reverseRecOn with
  | nil =>
      obtain ⟨c, hc, -⟩ := h
      cases hc
  | append_singleton cs d ih =>
      cases hd : isWhitespace d with
      | false => exact ⟨cs, d, [], rfl, hd, by simp⟩
      | true =>
          have hcs : Visible cs := by
            obtain ⟨c, hc, hword⟩ := h
            rcases List.mem_append.1 hc with hc | hc
            · exact ⟨c, hc, hword⟩
            · rw [List.mem_singleton.1 hc, hd] at hword
              cases hword
          obtain ⟨a, c, b, rfl, hc, hb⟩ := ih hcs
          refine ⟨a, c, b ++ [d], by simp, hc, fun e he => ?_⟩
          rcases List.mem_append.1 he with he | he
          · exact hb e he
          · rw [List.mem_singleton.1 he, hd]

theorem Visible.exists_first (h : Visible cs) : ∃ a c b, cs = a ++ c :: b ∧
    isWhitespace c = false ∧ ∀ d ∈ a, isWhitespace d = true := by
  induction cs with
  | nil =>
      obtain ⟨c, hc, -⟩ := h
      cases hc
  | cons d cs ih =>
      cases hd : isWhitespace d with
      | false => exact ⟨[], d, cs, rfl, hd, by simp⟩
      | true =>
          have hcs : Visible cs := by
            obtain ⟨c, hc, hword⟩ := h
            rcases List.mem_cons.1 hc with rfl | hc
            · rw [hd] at hword
              cases hword
            · exact ⟨c, hc, hword⟩
          obtain ⟨a, c, b, rfl, hc, ha⟩ := ih hcs
          exact ⟨d :: a, c, b, rfl, hc, List.forall_mem_cons.2 ⟨hd, ha⟩⟩

/-! ## Trimming a text with words -/

theorem trimChars_append_left (h : ∀ c ∈ w, isWhitespace c = true) (cs : List Char) :
    trimChars (w ++ cs) = trimChars cs := by
  induction w with
  | nil => rfl
  | cons c w ih =>
      obtain ⟨hc, hw⟩ := List.forall_mem_cons.1 h
      rw [List.cons_append, trimChars_cons hc, ih hw]

theorem trimChars_append_right (h : ∀ c ∈ w, isWhitespace c = true) :
    trimChars (cs ++ w) = trimChars cs := by
  induction w using List.reverseRecOn with
  | nil => rw [List.append_nil]
  | append_singleton w d ih =>
      have hd : isWhitespace d = true := h d (by simp)
      rw [← List.append_assoc, trimChars_concat hd, ih fun c hc => h c (by simp [hc])]

theorem mem_trimChars_between {a m b : List Char} (ha : Visible a) (hc : c ∈ m) (hb : Visible b) :
    c ∈ trimChars (a ++ (m ++ b)) := by
  obtain ⟨w, x, a, rfl, hx, hw⟩ := ha.exists_first
  obtain ⟨b, y, w', rfl, hy, -⟩ := hb.exists_last
  have hsplit : w ++ x :: a ++ (m ++ (b ++ y :: w')) = w ++ x :: (a ++ (m ++ b) ++ y :: w') := by
    simp
  rw [hsplit, trimChars_append_left hw, trimChars_word hx hy]
  simp [hc]

/-! ## Words with blanks between them -/

@[simp] theorem blanks_nil : blanks [] = [] := rfl

theorem blanks_cons (w : List Char) (h : ws ≠ []) : blanks (w :: ws) = w ++ ' ' :: blanks ws := by
  rw [blanks, Separated.joined_cons w h, blanks]

theorem eq_blank_of_mem_blanks (h : ∀ w ∈ ws, IsWord w) (hc : c ∈ blanks ws)
    (hspace : isWhitespace c = true) : c = ' ' := by
  have hnot : ∀ w ∈ ws, c ∉ w := by
    intro w hw hmem
    rw [(h w hw).2 c hmem] at hspace
    cases hspace
  induction ws with
  | nil => cases hc
  | cons w ws ih =>
      obtain ⟨hw, hrest⟩ := List.forall_mem_cons.1 hnot
      by_cases hnone : ws = []
      · subst hnone
        exact absurd (by simpa [blanks] using hc) hw
      · rw [blanks_cons w hnone, List.mem_append, List.mem_cons] at hc
        rcases hc with hc | hc | hc
        · exact absurd hc hw
        · exact hc
        · exact ih (List.forall_mem_cons.1 h).2 hc hrest

theorem words_blanks (h : ∀ w ∈ ws, IsWord w) : words (blanks ws) = ws := by
  induction ws with
  | nil => rfl
  | cons w ws ih =>
      obtain ⟨hw, hrest⟩ := List.forall_mem_cons.1 h
      cases ws with
      | nil => simpa [blanks] using words_word hw
      | cons v vs =>
          rw [blanks_cons w (List.cons_ne_nil v vs), words_append_space hw (by decide), ih hrest]

theorem blanks_start (hne : ws ≠ []) (h : ∀ w ∈ ws, IsWord w) :
    ∃ c rest, blanks ws = c :: rest ∧ isWhitespace c = false := by
  obtain ⟨w, ws, rfl⟩ := List.exists_cons_of_ne_nil hne
  obtain ⟨hw, hall⟩ := h w List.mem_cons_self
  obtain ⟨c, w, rfl⟩ := List.exists_cons_of_ne_nil hw
  have hc := hall c List.mem_cons_self
  cases ws with
  | nil => exact ⟨c, w, by simp [blanks], hc⟩
  | cons v vs => exact ⟨c, _, by rw [blanks_cons _ (List.cons_ne_nil v vs)]; rfl, hc⟩

theorem blanks_end (hne : ws ≠ []) (h : ∀ w ∈ ws, IsWord w) :
    ∃ init d, blanks ws = init ++ [d] ∧ isWhitespace d = false := by
  induction ws with
  | nil => exact absurd rfl hne
  | cons w ws ih =>
      cases ws with
      | nil =>
          obtain ⟨hw, hall⟩ := h w List.mem_cons_self
          refine ⟨w.dropLast, w.getLast hw, ?_, hall _ (List.getLast_mem hw)⟩
          rw [List.dropLast_append_getLast]
          simp [blanks]
      | cons v vs =>
          obtain ⟨init, d, hend, hd⟩ := ih (List.cons_ne_nil v vs) (List.forall_mem_cons.1 h).2
          refine ⟨w ++ ' ' :: init, d, ?_, hd⟩
          rw [blanks_cons w (List.cons_ne_nil v vs), hend]
          simp

theorem blanks_concat_append (ws : List (List Char)) (u v : List Char) :
    blanks (ws ++ [u]) ++ v = blanks (ws ++ [u ++ v]) := by
  induction ws with
  | nil => simp [blanks]
  | cons w ws ih =>
      rw [List.cons_append, List.cons_append, blanks_cons w (by simp), blanks_cons w (by simp), ← ih]
      simp

theorem blanks_eq_append (h : ∀ w ∈ ws, IsWord w) {a rest : List Char}
    (heq : blanks ws = a ++ ' ' :: rest) :
    ∃ us vs, ws = us ++ vs ∧ us ≠ [] ∧ vs ≠ [] ∧ a = blanks us := by
  have hblank : ∀ w ∈ ws, ' ' ∉ w := by
    intro w hw hmem
    have hspace := (h w hw).2 ' ' hmem
    exact absurd hspace (by decide)
  induction ws generalizing a with
  | nil => simp at heq
  | cons w ws ih =>
      obtain ⟨hw, hrest⟩ := List.forall_mem_cons.1 hblank
      by_cases hnone : ws = []
      · subst hnone
        have hmem : ' ' ∈ blanks [w] := by simp [heq]
        exact absurd (by simpa [blanks] using hmem) hw
      rw [blanks_cons w hnone] at heq
      rcases List.append_eq_append_iff.1 heq with ⟨x, hx, hx'⟩ | ⟨x, hx, hx'⟩
      · cases x with
        | nil => exact ⟨[w], ws, rfl, by simp, hnone, by simpa [blanks] using hx⟩
        | cons c x =>
            obtain ⟨rfl, htail⟩ := List.cons.inj hx'
            obtain ⟨us, vs, rfl, hus, hvs, rfl⟩ := ih (List.forall_mem_cons.1 h).2 htail hrest
            exact ⟨w :: us, vs, rfl, by simp, hvs, by rw [hx, blanks_cons w hus]⟩
      · cases x with
        | nil => exact ⟨[w], ws, rfl, by simp, hnone, by simpa [blanks] using hx.symm⟩
        | cons c x =>
            -- the blank is not in the word
            obtain ⟨rfl, -⟩ := List.cons.inj hx'
            exact absurd (by simp [hx]) hw

/-! ## Stretches of white space -/

theorem squeezeFrom_word (hw : IsWord w) (inside : Bool) (cs : List Char) :
    squeezeFrom inside (w ++ cs) = w ++ squeezeFrom false cs := by
  obtain ⟨hne, hall⟩ := hw
  induction w generalizing inside with
  | nil => exact absurd rfl hne
  | cons c w ih =>
      obtain ⟨hc, hw⟩ := List.forall_mem_cons.1 hall
      rw [List.cons_append, squeezeFrom, if_neg (by simp [hc]), List.cons_append]
      cases w with
      | nil => rfl
      | cons d w => rw [ih false (List.cons_ne_nil d w) hw]

/-- Inside of a stretch, the words come with blanks, and maybe one behind them. -/
theorem squeezeFrom_true (cs : List Char) :
    ∃ tail, (tail = [] ∨ tail = [' ']) ∧ (words cs = [] → tail = []) ∧
      squeezeFrom true cs = blanks (words cs) ++ tail := by
  induction cs using words_induction with
  | nil => exact ⟨[], .inl rfl, fun _ => rfl, rfl⟩
  | space c cs hc ih =>
      rw [words_cons_space hc, squeezeFrom, if_pos hc, if_pos rfl]
      exact ih
  | word w hw =>
      refine ⟨[], .inl rfl, fun _ => rfl, ?_⟩
      have h := squeezeFrom_word hw true []
      rw [List.append_nil] at h
      rw [h, words_word hw]
      simp [blanks, squeezeFrom]
  | next w c cs hw hc ih =>
      obtain ⟨tail, htail, hnone, heq⟩ := ih
      have hsqueeze : squeezeFrom true (w ++ c :: cs) = w ++ ' ' :: squeezeFrom true cs := by
        rw [squeezeFrom_word hw, squeezeFrom, if_pos hc, if_neg Bool.false_ne_true]
      rw [hsqueeze, words_append_space hw hc, heq]
      by_cases hwords : words cs = []
      · rw [hwords, hnone hwords]
        exact ⟨[' '], .inr rfl, fun h => (nomatch h), by simp [blanks]⟩
      · refine ⟨tail, htail, fun h => (nomatch h), ?_⟩
        rw [blanks_cons w hwords, List.append_assoc, List.cons_append]

theorem squeeze_eq (cs : List Char) :
    ∃ lead tail, (lead = [] ∨ lead = [' ']) ∧ (tail = [] ∨ tail = [' ']) ∧
      squeeze cs = lead ++ blanks (words cs) ++ tail := by
  cases cs with
  | nil => exact ⟨[], [], .inl rfl, .inl rfl, rfl⟩
  | cons c cs =>
      cases hc : isWhitespace c with
      | true =>
          obtain ⟨tail, htail, -, heq⟩ := squeezeFrom_true cs
          refine ⟨[' '], tail, .inr rfl, htail, ?_⟩
          rw [squeeze, squeezeFrom, if_pos hc, if_neg Bool.false_ne_true, heq, words_cons_space hc]
          rfl
      | false =>
          obtain ⟨tail, htail, -, heq⟩ := squeezeFrom_true (c :: cs)
          refine ⟨[], tail, .inl rfl, htail, ?_⟩
          have hsame : squeeze (c :: cs) = squeezeFrom true (c :: cs) := by
            rw [squeeze, squeezeFrom, squeezeFrom, if_neg (by simp [hc]), if_neg (by simp [hc])]
          rw [hsame, heq, List.nil_append]

theorem trimChars_blanks (h : ∀ w ∈ ws, IsWord w) {lead tail : List Char}
    (hlead : ∀ c ∈ lead, isWhitespace c = true) (htail : ∀ c ∈ tail, isWhitespace c = true) :
    trimChars (lead ++ blanks ws ++ tail) = blanks ws := by
  by_cases hnone : ws = []
  · subst hnone
    apply trimChars_of_white
    simpa using fun c hc => hc.elim (hlead c) (htail c)
  · obtain ⟨c, rest, hstart, hc⟩ := blanks_start hnone h
    obtain ⟨init, d, hend, hd⟩ := blanks_end hnone h
    have hdrop : (lead ++ blanks ws ++ tail).dropWhile isWhitespace = blanks ws ++ tail := by
      rw [List.append_assoc, List.dropWhile_append_of_pos hlead, hstart, List.cons_append,
        List.dropWhile_cons_of_neg (by simp [hc])]
    rw [trimChars_eq, hdrop, hend, List.append_assoc, List.singleton_append, rdropWhile_append hd,
      List.rdropWhile_eq_nil_iff.2 htail]

/-- **What is left of a text**: its words with blanks between them. -/
theorem trimChars_squeeze (cs : List Char) : trimChars (squeeze cs) = blanks (words cs) := by
  have hspace : ∀ l : List Char, l = [] ∨ l = [' '] → ∀ c ∈ l, isWhitespace c = true := by
    rintro l (rfl | rfl)
    · simp
    · intro c hc
      rw [List.mem_singleton.1 hc]
      rfl
  obtain ⟨lead, tail, hlead, htail, heq⟩ := squeeze_eq cs
  rw [heq, trimChars_blanks isWord_of_mem_words (hspace lead hlead) (hspace tail htail)]

end Text

/-! ## As a regular expression does it -/

namespace Pattern

open Text

variable {test : Char → Bool} {c : Char} {cs : List Char}

theorem head_manyFrom (test : Char → Bool) (cs : List Char) (prev : Option Char) {fuel : ℕ} (h : cs.length ≤ fuel) :
    ∃ p, (manyFrom (char test).run true fuel ⟨prev, cs, []⟩).head? =
      some ⟨p, cs.dropWhile test, []⟩ := by
  induction cs generalizing prev fuel with
  | nil =>
      cases fuel with
      | zero => exact ⟨prev, rfl⟩
      | succ fuel => exact ⟨prev, by simp [manyFrom, run]⟩
  | cons c cs ih =>
      obtain ⟨fuel, rfl⟩ : ∃ f, fuel = f + 1 := ⟨fuel - 1, by simp at h; omega⟩
      cases hc : test c with
      | false => exact ⟨prev, by simp [manyFrom, run, hc]⟩
      | true =>
          obtain ⟨p, hp⟩ := ih (some c) (Nat.le_of_succ_le_succ h)
          have hone : (char test).run ⟨prev, c :: cs, []⟩ = [⟨some c, cs, []⟩] := by simp [run, hc]
          refine ⟨p, ?_⟩
          rw [manyFrom, hone]
          simp [List.head?_append, hp, hc]

theorem firstMatch_plus (prev : Option Char) (cs : List Char) (hc : test c = true) :
    ∃ e, (plus test).firstMatch prev (c :: cs) = some ((cs.takeWhile test).length + 1, e) := by
  obtain ⟨p, hp⟩ := head_manyFrom test cs (some c) (le_refl cs.length)
  have hlength := congrArg List.length (List.takeWhile_append_dropWhile (p := test) (l := cs))
  rw [List.length_append] at hlength
  have hrun : (plus test).run ⟨prev, c :: cs, []⟩ =
      manyFrom (char test).run true cs.length ⟨some c, cs, []⟩ := by
    have hone : (char test).run ⟨prev, c :: cs, []⟩ = [⟨some c, cs, []⟩] := by simp [run, hc]
    show ((char test).run ⟨prev, c :: cs, []⟩).flatMap (star test).run = _
    rw [hone, List.flatMap_cons, List.flatMap_nil, List.append_nil]
    rfl
  refine ⟨⟨p, cs.dropWhile test, []⟩, ?_⟩
  rw [firstMatch, matchAt, hrun, hp, Option.map_some, List.length_cons]
  congr 2
  dsimp only
  omega

theorem firstMatch_plus_none (prev : Option Char) (cs : List Char) (hc : test c = false) :
    (plus test).firstMatch prev (c :: cs) = none := by
  simp [firstMatch, matchAt, plus, run, hc]

/-- Stretches of white space, replaced from inside of one and from outside. -/
theorem replaceFrom_plus (cs : List Char) (prev : Option Char) :
    (plus isWhitespace).replaceFrom (fun _ => [' ']) (cs.takeWhile isWhitespace).length prev cs =
      squeezeFrom true cs ∧
    (plus isWhitespace).replaceFrom (fun _ => [' ']) 0 prev cs = squeezeFrom false cs := by
  induction cs generalizing prev with
  | nil => exact ⟨rfl, rfl⟩
  | cons c cs ih =>
      obtain ⟨hinside, houtside⟩ := ih (some c)
      cases hc : isWhitespace c with
      | true =>
          obtain ⟨e, he⟩ := firstMatch_plus prev cs hc
          constructor
          · rw [List.takeWhile_cons_of_pos hc, List.length_cons, replaceFrom, hinside, squeezeFrom,
              if_pos hc, if_pos rfl]
          · rw [replaceFrom, he]
            dsimp only
            rw [hinside, squeezeFrom, if_pos hc, if_neg Bool.false_ne_true]
            rfl
      | false =>
          have hnone := firstMatch_plus_none prev cs hc
          have hcopied : (plus isWhitespace).replaceFrom (fun _ => [' ']) 0 prev (c :: cs) =
              c :: squeezeFrom false cs := by
            rw [replaceFrom, hnone]
            exact congrArg (c :: ·) houtside
          constructor
          · rw [List.takeWhile_cons_of_neg (by simp [hc]), squeezeFrom, if_neg (by simp [hc])]
            exact hcopied
          · rw [squeezeFrom, if_neg (by simp [hc])]
            exact hcopied

theorem replaceAll_plus (cs : List Char) :
    (plus isWhitespace).regex.replaceAll (fun _ => [' ']) cs = squeeze cs := by
  rw [replaceAll_regex]
  exact (replaceFrom_plus cs none).2

end Pattern
end Lib
