import PeerClaw.Lib.Lines
import PeerClaw.Lib.Utf8

/-!
# Texts with places left open

A text in which some places are marked stands for all texts that have something there.  Lines,
prefixes and white space are found in the marked text if what is put at its places is not of ASCII.
A text that is decoded in chunks is one: the marks are the characters that a border cuts.

* `fill` — the text, with something at each place.
* `splitOn_fill`, `prefix_fill_iff`, `trimChars_fill` — the parts of a text that is filled.
* `marked` — the text, with a place for each character that a border between chunks cuts;
  `decode_chunks` — decoding chunk by chunk puts U+FFFD there, more than once.
-/

namespace Lib
namespace Marks

variable {ι : Type}

/-- What stands at a place of a text. -/
def spell (f : ι → List Char) : Char ⊕ ι → List Char := Sum.elim (fun c => [c]) f

/-- The text, with something at each place. -/
def fill (f : ι → List Char) (t : List (Char ⊕ ι)) : List Char := t.flatMap (spell f)

/-- Something stands at each place, and nothing of ASCII. -/
def Fills (f : ι → List Char) : Prop := ∀ i, f i ≠ [] ∧ ∀ c ∈ f i, 128 ≤ c.toNat

section Fill

variable {f g : ι → List Char} {t u : List (Char ⊕ ι)} {c : Char} {cs p : List Char} {i : ι}

@[simp] theorem fill_nil : fill f [] = [] := rfl

@[simp] theorem fill_inl : fill f (.inl c :: t) = c :: fill f t := rfl

@[simp] theorem fill_inr : fill f (.inr i :: t) = f i ++ fill f t := rfl

theorem fill_append : fill f (t ++ u) = fill f t ++ fill f u := List.flatMap_append

theorem fill_map_inl (cs : List Char) : fill f (cs.map .inl) = cs := by
  induction cs with
  | nil => rfl
  | cons c cs ih => rw [List.map_cons, fill_inl, ih]

theorem fill_congr (h : ∀ i, .inr i ∈ t → f i = g i) : fill f t = fill g t := by
  induction t with
  | nil => rfl
  | cons x t ih =>
      have hrest := ih fun i hi => h i (List.mem_cons_of_mem x hi)
      cases x with
      | inl c => rw [fill_inl, fill_inl, hrest]
      | inr i => rw [fill_inr, fill_inr, hrest, h i List.mem_cons_self]

theorem fill_eq_nil_iff (hf : Fills f) : fill f t = [] ↔ t = [] := by
  cases t with
  | nil => simp
  | cons x t =>
      cases x with
      | inl c => simp
      | inr i => simp [(hf i).1]

theorem length_fill_le (h : ∀ i, (f i).length ≤ (g i).length) (t : List (Char ⊕ ι)) :
    (fill f t).length ≤ (fill g t).length := by
  induction t with
  | nil => rfl
  | cons x t ih =>
      cases x with
      | inl c => simpa using ih
      | inr i =>
          have hi := h i
          simp only [fill_inr, List.length_append]
          omega

theorem length_fill_lt (h : ∀ i, (f i).length < (g i).length) (hi : .inr i ∈ t) :
    (fill f t).length < (fill g t).length := by
  obtain ⟨a, b, rfl⟩ := List.append_of_mem hi
  have ha := length_fill_le (fun i => (h i).le) a
  have hb := length_fill_le (fun i => (h i).le) b
  have hlt := h i
  simp only [fill_append, fill_inr, List.length_append]
  omega

/-! ## Parts of the text -/

theorem splitOnP_cons {α : Type} (p : α → Bool) (x : α) (xs : List α) :
    ∃ l ls, xs.splitOnP p = l :: ls ∧ (p x = true → (x :: xs).splitOnP p = [] :: l :: ls) ∧
      (p x = false → (x :: xs).splitOnP p = (x :: l) :: ls) := by
  obtain ⟨l, ls, hcons⟩ := List.exists_cons_of_ne_nil (List.splitOnP_ne_nil (p := p) xs)
  have h := List.splitOnP_cons_eq_if_modifyHead (p := p) x xs
  rw [hcons] at h
  refine ⟨l, ls, hcons, fun hx => ?_, fun hx => ?_⟩
  · simpa [hx] using h
  · simpa [hx] using h

theorem splitOnP_append {q : Char → Bool} {l : List Char} {ls : List (List Char)}
    (h : ∀ c ∈ p, q c = false) (hcons : cs.splitOnP q = l :: ls) :
    (p ++ cs).splitOnP q = (p ++ l) :: ls := by
  induction p with
  | nil => exact hcons
  | cons d p ih =>
      obtain ⟨hd, hp⟩ := List.forall_mem_cons.1 h
      obtain ⟨l', ls', hcons', -, hsplit⟩ := splitOnP_cons q d (p ++ cs)
      rw [ih hp] at hcons'
      obtain ⟨rfl, rfl⟩ := List.cons.inj hcons'
      exact hsplit hd

/-- The character that ends a line, which no place is. -/
def ends (c : Char) : Char ⊕ ι → Bool := Sum.elim (· == c) fun _ => false

/-- **The lines of a text that is filled.** -/
theorem splitOn_fill (hf : Fills f) (hc : c.toNat < 128) (t : List (Char ⊕ ι)) :
    (fill f t).splitOn c = (t.splitOnP (ends c)).map (fill f) := by
  rw [List.splitOn]
  induction t with
  | nil => rfl
  | cons x t ih =>
      obtain ⟨l, ls, hcons, hsame, hother⟩ := splitOnP_cons (ends c) x t
      rw [hcons, List.map_cons] at ih
      cases x with
      | inl d =>
          obtain ⟨l', ls', hcons', hsame', hother'⟩ := splitOnP_cons (· == c) d (fill f t)
          rw [ih] at hcons'
          obtain ⟨rfl, rfl⟩ := List.cons.inj hcons'
          rw [fill_inl]
          cases hd : d == c with
          | true =>
              rw [hsame' hd, hsame hd]
              rfl
          | false =>
              rw [hother' hd, hother hd]
              rfl
      | inr i =>
          have hnot : ∀ d ∈ f i, (d == c) = false := by
            intro d hmem
            have hge := (hf i).2 d hmem
            rw [beq_eq_false_iff_ne]
            rintro rfl
            omega
          rw [fill_inr, splitOnP_append hnot ih, hother rfl]
          rfl

/-- **What a text that is filled begins with.** -/
theorem prefix_fill_iff (hf : Fills f) (hp : ∀ c ∈ p, c.toNat < 128) :
    p <+: fill f t ↔ p.map .inl <+: t := by
  induction p generalizing t with
  | nil => simp
  | cons c p ih =>
      obtain ⟨hc, hp⟩ := List.forall_mem_cons.1 hp
      cases t with
      | nil => simp
      | cons x t =>
          cases x with
          | inl d => simp [List.cons_prefix_cons, ih hp]
          | inr i =>
              obtain ⟨hne, hforeign⟩ := hf i
              obtain ⟨d, ds, hd⟩ := List.exists_cons_of_ne_nil hne
              have hge := hforeign d (by simp [hd])
              have hcd : c ≠ d := by
                rintro rfl
                omega
              simp [List.cons_prefix_cons, hd, hcd]

theorem reverse_fill (t : List (Char ⊕ ι)) :
    (fill f t).reverse = fill (fun i => (f i).reverse) t.reverse := by
  induction t with
  | nil => rfl
  | cons x t ih =>
      cases x with
      | inl c => simp [fill_append, ih]
      | inr i => simp [fill_append, ih]

theorem Fills.reverse (hf : Fills f) : Fills fun i => (f i).reverse := by
  intro i
  simpa using hf i

/-- **What a text that is filled ends with.** -/
theorem suffix_fill_iff (hf : Fills f) (hp : ∀ c ∈ p, c.toNat < 128) :
    p <:+ fill f t ↔ p.map .inl <:+ t := by
  rw [← List.reverse_prefix, reverse_fill, prefix_fill_iff hf.reverse (by simpa using hp),
    ← List.reverse_prefix, List.map_reverse]

/-! ## White space around the text -/

/-- White space that is not at a place. -/
def isBlank : Char ⊕ ι → Bool := Sum.elim Text.isWhitespace fun _ => false

/-- The text without white space around it. -/
def trimmed (t : List (Char ⊕ ι)) : List (Char ⊕ ι) := (t.dropWhile isBlank).rdropWhile isBlank

/-- The places that the text begins or ends with, but for white space, do not end in any. -/
def Firm (f : ι → List Char) (t : List (Char ⊕ ι)) : Prop :=
  (∀ i u, t.dropWhile isBlank = .inr i :: u →
    ∀ c, (f i).head? = some c → Text.isWhitespace c = false) ∧
  ∀ i u, (t.dropWhile isBlank).reverse.dropWhile isBlank = .inr i :: u →
    ∀ c, (f i).getLast? = some c → Text.isWhitespace c = false

theorem dropWhile_fill (hf : Fills f)
    (h : ∀ i u, t.dropWhile isBlank = .inr i :: u →
      ∀ c, (f i).head? = some c → Text.isWhitespace c = false) :
    (fill f t).dropWhile Text.isWhitespace = fill f (t.dropWhile isBlank) := by
  induction t with
  | nil => rfl
  | cons x t ih =>
      cases x with
      | inl c =>
          by_cases hc : Text.isWhitespace c = true
          · have hblank : isBlank (.inl c : Char ⊕ ι) = true := hc
            rw [List.dropWhile_cons_of_pos hblank] at h ⊢
            rw [fill_inl, List.dropWhile_cons_of_pos hc, ih h]
          · have hblank : ¬ isBlank (.inl c : Char ⊕ ι) = true := hc
            rw [List.dropWhile_cons_of_neg hblank, fill_inl, List.dropWhile_cons_of_neg hc]
      | inr i =>
          have hblank : ¬ isBlank (.inr i : Char ⊕ ι) = true := Bool.false_ne_true
          rw [List.dropWhile_cons_of_neg hblank] at h ⊢
          obtain ⟨d, ds, hd⟩ := List.exists_cons_of_ne_nil (hf i).1
          have hword := h i t rfl d (by rw [hd, List.head?_cons])
          rw [fill_inr, hd, List.cons_append, List.dropWhile_cons_of_neg (by simp [hword])]

/-- **White space around the text** is outside of the places. -/
theorem trimChars_fill (hf : Fills f) (h : Firm f t) :
    Text.trimChars (fill f t) = fill f (trimmed t) := by
  have hend : (fill f (t.dropWhile isBlank)).reverse.dropWhile Text.isWhitespace =
      fill (fun i => (f i).reverse) ((t.dropWhile isBlank).reverse.dropWhile isBlank) := by
    rw [reverse_fill]
    apply dropWhile_fill hf.reverse
    intro i u hu c hc
    exact h.2 i u hu c (by rwa [List.head?_reverse] at hc)
  rw [Text.trimChars_eq, dropWhile_fill hf h.1, List.rdropWhile, hend, reverse_fill]
  simp only [List.reverse_reverse]
  rfl

end Fill

/-! ## Chunks of bytes -/

/-- The bytes of a chunk: is the byte its last one? -/
def lasts : List UInt8 → List Bool
  | [] => []
  | _ :: bytes => bytes.isEmpty :: lasts bytes

/-- The bytes of the chunks: does a chunk end behind the byte? -/
def borders (chunks : List (List UInt8)) : List Bool := chunks.flatMap lasts

/-- A character is marked if a chunk ends behind one of its bytes but the last. -/
def markFrom (n : ℕ) (bs : List Bool) : List Char → List (Char ⊕ ℕ)
  | [] => []
  | c :: cs =>
      (if (bs.take (c.utf8Size - 1)).any id then .inr n else .inl c) ::
        markFrom (n + 1) (bs.drop c.utf8Size) cs

/-- The text whose bytes come in chunks: where one ends inside of a character, there is a place. -/
def marked (text : List Char) (chunks : List (List UInt8)) : List (Char ⊕ ℕ) :=
  markFrom 0 (borders chunks) text

/-- The chunks without the first bytes. -/
def dropBytes (n : ℕ) : List (List UInt8) → List (List UInt8)
  | [] => []
  | chunk :: chunks => chunk.drop n :: dropBytes (n - chunk.length) chunks

section Chunks

variable {text cs : List Char} {c : Char} {chunks : List (List UInt8)} {bytes rest : List UInt8}
  {n i : ℕ} {bs : List Bool}

@[simp] theorem lasts_nil : lasts [] = [] := rfl

theorem length_lasts (bytes : List UInt8) : (lasts bytes).length = bytes.length := by
  induction bytes with
  | nil => rfl
  | cons b bytes ih => rw [lasts, List.length_cons, ih, List.length_cons]

theorem drop_lasts (n : ℕ) (bytes : List UInt8) : (lasts bytes).drop n = lasts (bytes.drop n) := by
  induction bytes generalizing n with
  | nil => simp
  | cons b bytes ih =>
      cases n with
      | zero => rfl
      | succ n => exact ih n

theorem any_take_lasts (rest : List Bool) (h : n < bytes.length) :
    ((lasts bytes ++ rest).take n).any id = false := by
  induction bytes generalizing n with
  | nil => cases h
  | cons b bytes ih =>
      cases n with
      | zero => rfl
      | succ n =>
          have hn : n < bytes.length := by simpa using h
          have hsome : bytes.isEmpty = false := by
            cases bytes with
            | nil => cases hn
            | cons b bytes => rfl
          simp only [lasts, List.cons_append, List.take_succ_cons, List.any_cons, ih hn, hsome]
          rfl

theorem any_take_lasts_of_le (rest : List Bool) (hne : bytes ≠ []) (h : bytes.length ≤ n) :
    ((lasts bytes ++ rest).take n).any id = true := by
  induction bytes generalizing n with
  | nil => exact absurd rfl hne
  | cons b bytes ih =>
      cases n with
      | zero => simp at h
      | succ n =>
          rw [lasts, List.cons_append, List.take_succ_cons, List.any_cons]
          cases bytes with
          | nil => rfl
          | cons b' bytes =>
              rw [ih (List.cons_ne_nil b' bytes) (by simpa using h), Bool.or_true]

theorem dropBytes_zero (chunks : List (List UInt8)) : dropBytes 0 chunks = chunks := by
  induction chunks with
  | nil => rfl
  | cons chunk chunks ih => rw [dropBytes, List.drop_zero, Nat.zero_sub, ih]

theorem flatten_dropBytes (n : ℕ) (chunks : List (List UInt8)) :
    (dropBytes n chunks).flatten = chunks.flatten.drop n := by
  induction chunks generalizing n with
  | nil => simp [dropBytes]
  | cons chunk chunks ih =>
      rw [dropBytes, List.flatten_cons, ih, List.flatten_cons, List.drop_append]

theorem borders_cons (chunk : List UInt8) (chunks : List (List UInt8)) :
    borders (chunk :: chunks) = lasts chunk ++ borders chunks := List.flatMap_cons

theorem borders_dropBytes (n : ℕ) (chunks : List (List UInt8)) :
    borders (dropBytes n chunks) = (borders chunks).drop n := by
  induction chunks generalizing n with
  | nil => simp [dropBytes, borders]
  | cons chunk chunks ih =>
      rw [dropBytes, borders_cons, ih, borders_cons, List.drop_append, drop_lasts, length_lasts]

/-- The bytes of the end of a character are replaced one by one, in whichever chunks. -/
theorem decode_tails (chunks : List (List UInt8)) : ∀ {tails : List UInt8},
    (∀ t ∈ tails, Utf8.isTail t = true) → chunks.flatten = tails ++ rest →
    (chunks.map Utf8.decodeLossy).flatten = List.replicate tails.length Utf8.replacement ++
      ((dropBytes tails.length chunks).map Utf8.decodeLossy).flatten := by
  induction chunks with
  | nil =>
      intro tails _ heq
      obtain ⟨rfl, -⟩ := List.append_eq_nil_iff.1 heq.symm
      rfl
  | cons chunk chunks ih =>
      intro tails htails heq
      rw [List.flatten_cons] at heq
      rw [List.map_cons, List.flatten_cons, dropBytes, List.map_cons, List.flatten_cons]
      rcases List.append_eq_append_iff.1 heq with ⟨more, rfl, hrest⟩ | ⟨more, rfl, hrest⟩
      · have hmore : ∀ t ∈ more, Utf8.isTail t = true := fun t ht =>
          htails t (List.mem_append_right _ ht)
        have hchunk := Utf8.decodeLossy_tails
          (fun t ht => htails t (List.mem_append_left more ht)) []
        have hnil : Utf8.decodeLossy [] = [] := rfl
        rw [List.append_nil, hnil, List.append_nil] at hchunk
        rw [hchunk, ih hmore hrest, List.length_append, List.drop_of_length_le (by simp), hnil,
          Nat.add_sub_cancel_left, List.replicate_add, List.nil_append, List.append_assoc]
      · rw [Utf8.decodeLossy_tails htails, List.length_append, List.drop_left, Nat.sub_eq_zero_of_le
          (by omega), dropBytes_zero, List.append_assoc]

/-- **A character is decoded or, if a border cuts it, replaced** by two or more of U+FFFD. -/
theorem decode_chunks_char (chunks : List (List UInt8))
    (heq : chunks.flatten = String.utf8EncodeChar c ++ rest) :
    ∃ k, 2 ≤ k ∧ (chunks.map Utf8.decodeLossy).flatten =
      (if ((borders chunks).take (c.utf8Size - 1)).any id then List.replicate k Utf8.replacement
        else [c]) ++ ((dropBytes c.utf8Size chunks).map Utf8.decodeLossy).flatten := by
  induction chunks with
  | nil => exact absurd (List.append_eq_nil_iff.1 heq.symm).1 (Utf8.encodeChar_ne_nil c)
  | cons chunk chunks ih =>
      have hsize := String.length_utf8EncodeChar c
      have hpos := c.utf8Size_pos
      rw [List.flatten_cons] at heq
      rw [List.map_cons, List.flatten_cons, dropBytes, List.map_cons, List.flatten_cons,
        borders_cons]
      rcases List.append_eq_append_iff.1 heq with ⟨tails, hchar, hrest⟩ | ⟨more, rfl, hrest⟩
      · by_cases hne : chunk = []
        · rw [hne, List.nil_append] at hchar
          rw [hne]
          rw [← hchar] at hrest
          have hnil : Utf8.decodeLossy [] = [] := rfl
          obtain ⟨k, hk, hall⟩ := ih hrest
          refine ⟨k, hk, ?_⟩
          rw [List.drop_nil, hnil, lasts_nil, List.nil_append, List.nil_append, List.nil_append]
          exact hall
        · by_cases htails : tails = []
          · rw [htails, List.append_nil] at hchar
            have hlen : c.utf8Size - 1 < chunk.length := by rw [← hchar]; omega
            have hdecode := Utf8.decodeLossy_char c []
            rw [List.append_nil] at hdecode
            refine ⟨2, Nat.le_refl 2, ?_⟩
            rw [any_take_lasts _ hlen, ← hchar, hdecode, ← hsize, List.drop_length, Nat.sub_self,
              dropBytes_zero]
            rfl
          · obtain ⟨m, hm, hstart⟩ := Utf8.decodeLossy_start hchar hne htails
            have hlen := congrArg List.length hchar
            have htail : ∀ t ∈ tails, Utf8.isTail t = true := by
              obtain ⟨b, tails', hcons, -, hall⟩ := Utf8.encodeChar_eq c
              obtain ⟨b', chunk', rfl⟩ := List.exists_cons_of_ne_nil hne
              rw [hcons, List.cons_append] at hchar
              rw [(List.cons.inj hchar).2] at hall
              exact fun t ht => hall t (List.mem_append_right _ ht)
            rw [List.length_append, hsize] at hlen
            have hmore := List.length_pos_of_ne_nil htails
            have hcut : chunk.length ≤ c.utf8Size - 1 := by omega
            refine ⟨m + tails.length, by omega, ?_⟩
            have hnil : Utf8.decodeLossy [] = [] := rfl
            rw [any_take_lasts_of_le _ hne hcut, hstart, decode_tails chunks htail hrest,
              List.drop_of_length_le (by omega), hnil, hlen, Nat.add_sub_cancel_left, if_pos rfl,
              List.replicate_add, List.nil_append, List.append_assoc]
      · have hlen : c.utf8Size - 1 < (String.utf8EncodeChar c ++ more).length := by
          rw [List.length_append, hsize]
          omega
        refine ⟨2, Nat.le_refl 2, ?_⟩
        rw [any_take_lasts _ hlen, Utf8.decodeLossy_char, Utf8.drop_encodeChar, List.length_append,
          hsize, Nat.sub_eq_zero_of_le (by omega), dropBytes_zero]
        rfl

theorem le_of_mem_markFrom (h : .inr i ∈ markFrom n bs text) : n ≤ i := by
  induction text generalizing n bs with
  | nil => cases h
  | cons c cs ih =>
      rw [markFrom, List.mem_cons] at h
      rcases h with hhead | hrest
      · split at hhead
        · exact (Sum.inr.inj hhead).ge
        · exact absurd hhead Sum.inr_ne_inl
      · exact (Nat.le_succ n).trans (ih hrest)

theorem foreign_of_cut (h : (bs.take (c.utf8Size - 1)).any id = true) : 128 ≤ c.toNat := by
  by_contra hlt
  have hone : c.utf8Size = 1 := by
    rw [Char.utf8Size_eq_one_iff, UInt32.le_iff_toNat_le]
    change c.toNat ≤ 127
    omega
  rw [hone, Nat.sub_self, List.take_zero] at h
  cases h

/-- What is put at the places stands for the text. -/
def Spells (f : ℕ → List Char) : Prop := ∀ i, ∃ c, f i = [c] ∧ 128 ≤ c.toNat

/-- What is put at the places is U+FFFD, more than once. -/
def Damages (g : ℕ → List Char) : Prop := ∀ i, ∃ k, 2 ≤ k ∧ g i = List.replicate k Utf8.replacement

theorem decode_markFrom (text : List Char) : ∀ (n : ℕ) (chunks : List (List UInt8)),
    chunks.flatten = Utf8.encode text → ∃ f g, Spells f ∧ Damages g ∧
      fill f (markFrom n (borders chunks) text) = text ∧
      fill g (markFrom n (borders chunks) text) = (chunks.map Utf8.decodeLossy).flatten := by
  have hforeign : 128 ≤ Utf8.replacement.toNat := by decide
  induction text with
  | nil =>
      intro n chunks heq
      refine ⟨fun _ => [Utf8.replacement], fun _ => List.replicate 2 Utf8.replacement,
        fun _ => ⟨_, rfl, hforeign⟩, fun _ => ⟨2, Nat.le_refl 2, rfl⟩, rfl, ?_⟩
      have hdecoded : (chunks.map Utf8.decodeLossy).flatten = [] := by
        rw [List.flatten_eq_nil_iff]
        intro decoded hmem
        obtain ⟨chunk, hchunk, rfl⟩ := List.mem_map.1 hmem
        rw [List.flatten_eq_nil_iff.1 heq chunk hchunk]
        rfl
      exact hdecoded.symm
  | cons c text ih =>
      intro n chunks heq
      rw [Utf8.encode, List.flatMap_cons] at heq
      obtain ⟨k, hk, hdecode⟩ := decode_chunks_char chunks heq
      have hrest : (dropBytes c.utf8Size chunks).flatten = Utf8.encode text := by
        rw [flatten_dropBytes, heq, Utf8.drop_encodeChar]
        rfl
      obtain ⟨f, g, hf, hg, hspell, hdamage⟩ := ih (n + 1) _ hrest
      rw [borders_dropBytes] at hspell hdamage
      rw [hdecode, ← hdamage, markFrom]
      by_cases hcut : ((borders chunks).take (c.utf8Size - 1)).any id = true
      · -- the place `n` is none of those behind it
        have hne : ∀ i, .inr i ∈ markFrom (n + 1) ((borders chunks).drop c.utf8Size) text →
            i ≠ n := by
          intro i hi
          have hle := le_of_mem_markFrom hi
          omega
        refine ⟨Function.update f n [c],
          Function.update g n (List.replicate k Utf8.replacement), ?_, ?_, ?_, ?_⟩
        · intro i
          by_cases hi : i = n
          · rw [hi, Function.update_self]
            exact ⟨c, rfl, foreign_of_cut hcut⟩
          · rw [Function.update_of_ne hi]
            exact hf i
        · intro i
          by_cases hi : i = n
          · rw [hi, Function.update_self]
            exact ⟨k, hk, rfl⟩
          · rw [Function.update_of_ne hi]
            exact hg i
        · rw [if_pos hcut, fill_inr, Function.update_self, fill_congr
            (fun i hi => Function.update_of_ne (hne i hi) _ f), hspell, List.singleton_append]
        · rw [if_pos hcut, if_pos hcut, fill_inr, Function.update_self, fill_congr
            (fun i hi => Function.update_of_ne (hne i hi) _ g)]
      · refine ⟨f, g, hf, hg, ?_, ?_⟩
        · rw [if_neg hcut, fill_inl, hspell]
        · rw [if_neg hcut, if_neg hcut, fill_inl, List.singleton_append]

/-- **A text that is decoded chunk by chunk** has U+FFFD where it has the characters that are cut. -/
theorem decode_chunks (heq : chunks.flatten = Utf8.encode text) : ∃ f g, Spells f ∧ Damages g ∧
    fill f (marked text chunks) = text ∧
    fill g (marked text chunks) = (chunks.map Utf8.decodeLossy).flatten :=
  decode_markFrom text 0 chunks heq

theorem Spells.fills {f : ℕ → List Char} (h : Spells f) : Fills f := by
  intro i
  obtain ⟨c, hc, hge⟩ := h i
  rw [hc]
  exact ⟨List.cons_ne_nil c [], by simpa using hge⟩

theorem mem_damage {g : ℕ → List Char} (h : Damages g) (hc : c ∈ g i) : c = Utf8.replacement := by
  obtain ⟨k, -, hk⟩ := h i
  rw [hk] at hc
  exact List.eq_of_mem_replicate hc

theorem length_damage {g : ℕ → List Char} (h : Damages g) (i : ℕ) : 2 ≤ (g i).length := by
  obtain ⟨k, hle, hk⟩ := h i
  rwa [hk, List.length_replicate]

theorem Damages.fills {g : ℕ → List Char} (h : Damages g) : Fills g := by
  intro i
  refine ⟨List.ne_nil_of_length_pos (by have hlen := length_damage h i; omega), fun c hc => ?_⟩
  rw [mem_damage h hc]
  decide

theorem Damages.firm {g : ℕ → List Char} (h : Damages g) (t : List (Char ⊕ ℕ)) : Firm g t := by
  have hword : Text.isWhitespace Utf8.replacement = false := by decide
  refine ⟨fun i _ _ c hc => ?_, fun i _ _ c hc => ?_⟩
  · rw [mem_damage h (List.mem_of_mem_head? hc), hword]
  · rw [mem_damage h (List.mem_of_mem_getLast? hc), hword]

/-- The white space around a text is of ASCII. -/
def AsciiAround (cs : List Char) : Prop :=
  (∀ c ∈ cs.takeWhile Text.isWhitespace, c.toNat < 128) ∧
    ∀ c ∈ cs.reverse.takeWhile Text.isWhitespace, c.toNat < 128

instance (cs : List Char) : Decidable (AsciiAround cs) :=
  @instDecidableAnd _ _ (List.decidableBAll _ _) (List.decidableBAll _ _)

theorem mem_takeWhile_fill {f : ι → List Char} {t u : List (Char ⊕ ι)} {i : ι}
    (hdrop : t.dropWhile isBlank = .inr i :: u) (hi : f i = [c])
    (hc : Text.isWhitespace c = true) : c ∈ (fill f t).takeWhile Text.isWhitespace := by
  induction t with
  | nil => cases hdrop
  | cons x t ih =>
      cases x with
      | inl d =>
          by_cases hd : Text.isWhitespace d = true
          · have hblank : isBlank (.inl d : Char ⊕ ι) = true := hd
            rw [List.dropWhile_cons_of_pos hblank] at hdrop
            rw [fill_inl, List.takeWhile_cons_of_pos hd]
            exact List.mem_cons_of_mem d (ih hdrop)
          · have hblank : ¬ isBlank (.inl d : Char ⊕ ι) = true := hd
            rw [List.dropWhile_cons_of_neg hblank] at hdrop
            exact absurd (List.cons.inj hdrop).1 Sum.inl_ne_inr
      | inr j =>
          have hblank : ¬ isBlank (.inr j : Char ⊕ ι) = true := Bool.false_ne_true
          rw [List.dropWhile_cons_of_neg hblank] at hdrop
          obtain ⟨hj, rfl⟩ := List.cons.inj hdrop
          rw [Sum.inr.inj hj, fill_inr, hi, List.singleton_append, List.takeWhile_cons_of_pos hc]
          exact List.mem_cons_self

theorem Spells.firm {f : ℕ → List Char} {t : List (Char ⊕ ℕ)} (h : Spells f)
    (haround : AsciiAround (fill f t)) : Firm f t := by
  refine ⟨fun i u hdrop c hc => ?_, fun i u hdrop c hc => ?_⟩
  · obtain ⟨d, hd, hge⟩ := h i
    rw [hd, List.head?_cons] at hc
    obtain rfl := Option.some.inj hc
    by_contra hwhite
    have hlt := haround.1 d (mem_takeWhile_fill hdrop hd (Bool.not_eq_false _ ▸ hwhite))
    omega
  · obtain ⟨d, hd, hge⟩ := h i
    rw [hd, List.getLast?_singleton] at hc
    obtain rfl := Option.some.inj hc
    by_contra hwhite
    have hmem := mem_takeWhile_fill (f := fun i => (f i).reverse) hdrop
      (by rw [hd, List.reverse_singleton]) (Bool.not_eq_false _ ▸ hwhite)
    obtain ⟨rest, hrest⟩ : (fill f (t.dropWhile isBlank)).reverse <+: (fill f t).reverse := by
      rw [List.reverse_prefix]
      conv_rhs => rw [← List.takeWhile_append_dropWhile (p := isBlank) (l := t), fill_append]
      exact List.suffix_append _ _
    rw [← reverse_fill] at hmem
    have hall : d ∈ (fill f t).reverse.takeWhile Text.isWhitespace := by
      rw [← hrest, List.takeWhile_append]
      split
      · exact List.mem_append_left _ ((List.takeWhile_prefix _).subset hmem)
      · exact hmem
    have hlt := haround.2 d hall
    omega

end Chunks

end Marks
end Lib
