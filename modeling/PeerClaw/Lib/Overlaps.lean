import PeerClaw.Lib.Boundary
import PeerClaw.Lib.Redaction
import Mathlib.Data.List.Induction

/-!
# Redaction of ranges that overlap

What a redaction is to do is said by the places that are covered: the characters there are gone, the
others are still there in their order, and whole markers are put between them.  Ranges that do not
overlap are redacted so.  Where one of them reaches behind the beginning of one that was replaced
before, it reaches into its marker, and there are markers that cannot be cut there.

* `Covered` — a place is in one of some ranges.
* `Redacts` — what a redaction is to do.
* `redacts_woven` — it does so, if no ranges overlap.
* `exists_redactAll_eq_none` — and panics for some marker, if any do.
-/

namespace Lib

open Text

/-! ## What a redaction is to do -/

/-- The place is in one of the ranges. -/
def Covered (ms : List Span) (p : ℕ) : Prop := ∃ m ∈ ms, m.start ≤ p ∧ p < m.stop

/-- The characters of a text that begin at covered places are left out, the others are kept in
their order, and there are markers between them.  The text begins at a place that is given. -/
inductive Redacts (covered : ℕ → Prop) (marker : List Char) : ℕ → List Char → List Char → Prop
  | nil (pos : ℕ) : Redacts covered marker pos [] []
  | keep {pos : ℕ} {c : Char} {cs out : List Char} (h : ¬ covered pos)
      (rest : Redacts covered marker (pos + c.utf8Size) cs out) :
      Redacts covered marker pos (c :: cs) (c :: out)
  | leave {pos : ℕ} {c : Char} {cs out : List Char} (h : covered pos)
      (rest : Redacts covered marker (pos + c.utf8Size) cs out) :
      Redacts covered marker pos (c :: cs) out
  | mark {pos : ℕ} {cs out : List Char} (rest : Redacts covered marker pos cs out) :
      Redacts covered marker pos cs (marker ++ out)

section Redacts

variable {covered covered' : ℕ → Prop} {marker : List Char} {pos : ℕ} {cs cs' out out' : List Char}

theorem Redacts.append (h : Redacts covered marker pos cs out)
    (h' : Redacts covered marker (pos + byteLen cs) cs' out') :
    Redacts covered marker pos (cs ++ cs') (out ++ out') := by
  induction h with
  | nil pos => exact h'
  | keep hpos rest ih =>
      rw [byteLen_cons, ← Nat.add_assoc] at h'
      exact .keep hpos (ih h')
  | leave hpos rest ih =>
      rw [byteLen_cons, ← Nat.add_assoc] at h'
      exact .leave hpos (ih h')
  | mark rest ih =>
      rw [List.append_assoc]
      exact .mark (ih h')

theorem Redacts.congr (h : Redacts covered marker pos cs out)
    (hsame : ∀ p, pos ≤ p → p < pos + byteLen cs → (covered p ↔ covered' p)) :
    Redacts covered' marker pos cs out := by
  induction h with
  | nil pos => exact .nil pos
  | @keep pos c cs out hpos rest ih =>
      have hc := c.utf8Size_pos
      rw [byteLen_cons] at hsame
      refine .keep (fun hnow => hpos ((hsame pos le_rfl (by omega)).2 hnow)) (ih ?_)
      exact fun p hle hlt => hsame p (by omega) (by omega)
  | @leave pos c cs out hpos rest ih =>
      have hc := c.utf8Size_pos
      rw [byteLen_cons] at hsame
      refine .leave ((hsame pos le_rfl (by omega)).1 hpos) (ih ?_)
      exact fun p hle hlt => hsame p (by omega) (by omega)
  | mark rest ih => exact .mark (ih hsame)

theorem redacts_self (h : ∀ p, pos ≤ p → p < pos + byteLen cs → ¬ covered p) :
    Redacts covered marker pos cs cs := by
  induction cs generalizing pos with
  | nil => exact .nil pos
  | cons c cs ih =>
      have hc := c.utf8Size_pos
      rw [byteLen_cons] at h
      exact .keep (h pos le_rfl (by omega)) (ih fun p hle hlt => h p (by omega) (by omega))

theorem redacts_nil (h : ∀ p, pos ≤ p → p < pos + byteLen cs → covered p) :
    Redacts covered marker pos cs [] := by
  induction cs generalizing pos with
  | nil => exact .nil pos
  | cons c cs ih =>
      have hc := c.utf8Size_pos
      rw [byteLen_cons] at h
      exact .leave (h pos le_rfl (by omega)) (ih fun p hle hlt => h p (by omega) (by omega))

end Redacts

/-- **Ranges that do not overlap are redacted.** -/
theorem redacts_woven {text : List Char} {ms : List Span} (h : Backwards text ms)
    (marker : List Char) : Redacts (Covered ms) marker 0 text (woven marker text ms) := by
  induction ms generalizing text with
  | nil => exact redacts_self (by simp [Covered])
  | cons m ms ih =>
      obtain ⟨a, w, b, hm⟩ := h.cuts m List.mem_cons_self
      have htake := hm.take []
      have hdrop := hm.drop []
      rw [List.append_nil] at htake hdrop
      have hbehind : ∀ m' ∈ ms, m'.stop ≤ m.start := fun m' hm' =>
        List.rel_of_pairwise_cons h.apart hm'
      have hstop := hm.stop_eq
      rw [byteLen_append, ← hm.start_eq] at hstop
      -- before the range nothing changes, in it all is covered, behind it nothing is
      have hbefore : Redacts (Covered (m :: ms)) marker 0 a (woven marker a ms) := by
        refine (ih (h.rest hm)).congr fun p _ hp => ?_
        rw [Nat.zero_add, ← hm.start_eq] at hp
        have hnot : ¬ (m.start ≤ p ∧ p < m.stop) := fun hin => absurd hp (not_lt.2 hin.1)
        simp only [Covered, List.mem_cons, exists_eq_or_imp, hnot, false_or]
      have hin : Redacts (Covered (m :: ms)) marker (0 + byteLen a) w [] := by
        refine redacts_nil fun p hle hlt => ⟨m, List.mem_cons_self, ?_⟩
        rw [Nat.zero_add, ← hm.start_eq] at hle hlt
        omega
      have hafter : Redacts (Covered (m :: ms)) marker (0 + byteLen (a ++ w)) b b := by
        refine redacts_self fun p hle _ => ?_
        rw [Nat.zero_add, ← hm.stop_eq] at hle
        rintro ⟨m', hm', -, hlt⟩
        rcases List.mem_cons.1 hm' with rfl | hm'
        · omega
        · have hbound := hbehind m' hm'
          omega
      have hwoven : woven marker text (m :: ms) = (woven marker a ms ++ []) ++ (marker ++ b) := by
        rw [woven, htake, hdrop]
        simp
      rw [hm.text_eq, ← hm.text_eq, hwoven, hm.text_eq]
      exact (hbefore.append hin).append hafter.mark

/-! ## Markers that cannot be cut -/

theorem isBoundary_append_iff {x y : List Char} {n : ℕ} :
    IsBoundary (byteLen x + n) (x ++ y) ↔ IsBoundary n y := by
  constructor
  · rintro ⟨a, b, hsplit, hlen⟩
    have hx : x <+: a := by
      refine prefix_of_byteLen_le (List.prefix_append x y) ?_ (by omega)
      rw [hsplit]
      exact List.prefix_append a b
    obtain ⟨a', rfl⟩ := hx
    rw [List.append_assoc] at hsplit
    refine ⟨a', b, List.append_cancel_left hsplit, ?_⟩
    rw [byteLen_append] at hlen
    omega
  · rintro ⟨a, b, rfl, rfl⟩
    exact ⟨x ++ a, b, (List.append_assoc x a b).symm, byteLen_append x a⟩

/-- A marker of characters of four bytes, behind one of one byte where that is needed. -/
def wideMarker (d n : ℕ) : List Char :=
  if 4 ∣ d then 'a' :: List.replicate (n + 1) '😀' else List.replicate (n + 1) '😀'

theorem byteLen_prefix_replicate {a : List Char} {n : ℕ} (h : a <+: List.replicate n '😀') :
    byteLen a = 4 * a.length := by
  have hwide : ('😀').utf8Size = 4 := by decide
  induction n generalizing a with
  | zero =>
      obtain rfl := List.prefix_nil.1 h
      rfl
  | succ n ih =>
      rcases List.prefix_cons_iff.1 h with rfl | ⟨a', rfl, ha'⟩
      · rfl
      · rw [byteLen_cons, ih ha', hwide, List.length_cons]
        omega

theorem not_isBoundary_wideMarker {d n : ℕ} (hpos : 0 < d) (hle : d ≤ n) (rest : List Char) :
    ¬ IsBoundary d (wideMarker d n ++ rest) := by
  rintro ⟨a, b, hsplit, hlen⟩
  have hlong : n < byteLen (wideMarker d n) := by
    have hreplicate := byteLen_prefix_replicate (List.prefix_refl (List.replicate (n + 1) '😀'))
    rw [List.length_replicate] at hreplicate
    unfold wideMarker
    split
    · rw [byteLen_cons]
      omega
    · omega
  have hprefix : a <+: wideMarker d n := by
    refine prefix_of_byteLen_le ?_ (List.prefix_append _ rest) (by omega)
    rw [hsplit]
    exact List.prefix_append a b
  unfold wideMarker at hprefix
  split at hprefix
  · rename_i hdvd
    rcases List.prefix_cons_iff.1 hprefix with rfl | ⟨a', rfl, ha'⟩
    · rw [byteLen_nil] at hlen
      omega
    · have hnarrow : ('a').utf8Size = 1 := by decide
      rw [byteLen_cons, byteLen_prefix_replicate ha', hnarrow] at hlen
      omega
  · rename_i hdvd
    rw [byteLen_prefix_replicate hprefix] at hlen
    exact hdvd ⟨_, hlen.symm⟩

/-! ## Ranges that overlap -/

theorem redactAll_append (marker : List Char) (ms ms' : List Span) (text : List Char) :
    redactAll marker (ms ++ ms') text = (redactAll marker ms text).bind (redactAll marker ms') := by
  induction ms generalizing text with
  | nil => rfl
  | cons m ms ih =>
      rw [List.cons_append, redactAll, redactAll]
      cases replaceRange text m marker with
      | none => rfl
      | some text => exact ih text

/-- The text begins with what is before the last range that was replaced, and its marker. -/
theorem woven_concat {text : List Char} {ms : List Span} {m : Span}
    (h : Backwards text (ms ++ [m])) (marker : List Char) :
    ∃ head rest, woven marker text (ms ++ [m]) = head ++ (marker ++ rest) ∧
      byteLen head = m.start := by
  induction ms generalizing text with
  | nil =>
      obtain ⟨a, w, b, hm⟩ := h.cuts m List.mem_cons_self
      have htake := hm.take []
      have hdrop := hm.drop []
      rw [List.append_nil] at htake hdrop
      refine ⟨a, b, ?_, hm.start_eq.symm⟩
      rw [List.nil_append, woven, woven, htake, hdrop]
      simp
  | cons m' ms ih =>
      obtain ⟨a, w, b, hm'⟩ := h.cuts m' List.mem_cons_self
      have htake := hm'.take []
      rw [List.append_nil] at htake
      obtain ⟨head, rest, hwoven, hlen⟩ := ih (h.rest hm')
      refine ⟨head, rest ++ marker ++ (dropBytes m'.stop text).getD [], ?_, hlen⟩
      rw [List.cons_append, woven, htake, Option.getD_some, hwoven]
      simp

/-- Of ranges that are sorted and overlap, the first that reaches behind the beginning of the one
before it. -/
theorem exists_first_overlap {ms : List Span} (hsorted : ms.Pairwise fun m m' => m'.start ≤ m.start)
    (h : ¬ ms.Pairwise fun m m' => m'.stop ≤ m.start) :
    ∃ pre m m' post, ms = pre ++ [m] ++ m' :: post ∧
      (pre ++ [m]).Pairwise (fun m m' => m'.stop ≤ m.start) ∧ m.start < m'.stop := by
  induction ms using List.reverseRecOn with
  | nil => exact absurd List.Pairwise.nil h
  | append_singleton ms m' ih =>
      obtain ⟨hsorted, -, hlast⟩ := List.pairwise_append.1 hsorted
      by_cases hms : ms.Pairwise fun m m' => m'.stop ≤ m.start
      · have hreaches : ∃ m ∈ ms, m.start < m'.stop := by
          by_contra hnone
          refine h (List.pairwise_append.2 ⟨hms, List.pairwise_singleton _ _, ?_⟩)
          intro m hm m'' hm''
          obtain rfl := List.mem_singleton.1 hm''
          exact not_lt.1 fun hlt => hnone ⟨m, hm, hlt⟩
        obtain ⟨m, hm, hlt⟩ := hreaches
        obtain ⟨pre, last, rfl⟩ := (List.eq_nil_or_concat' ms).resolve_left (List.ne_nil_of_mem hm)
        refine ⟨pre, last, m', [], rfl, hms, lt_of_le_of_lt ?_ hlt⟩
        rcases List.mem_append.1 hm with hm | hm
        · exact (List.pairwise_append.1 hsorted).2.2 m hm last (List.mem_singleton_self last)
        · rw [List.mem_singleton.1 hm]
      · obtain ⟨pre, m, m'', post, rfl, hpre, hlt⟩ := ih hsorted hms
        exact ⟨pre, m, m'', post ++ [m'], by simp, hpre, hlt⟩

/-- **Where ranges overlap** a redaction panics for some marker. -/
theorem exists_redactAll_eq_none {text : List Char} {ms : List Span}
    (hcuts : ∀ m ∈ ms, ∃ a w b, m.Cuts text a w b)
    (hsorted : ms.Pairwise fun m m' => m'.start ≤ m.start)
    (h : ¬ ms.Pairwise fun m m' => m'.stop ≤ m.start) :
    ∃ marker, redactAll marker ms text = none := by
  obtain ⟨pre, m, m', post, rfl, hpre, hlt⟩ := exists_first_overlap hsorted h
  have hback : Backwards text (pre ++ [m]) :=
    ⟨fun n hn => hcuts n (List.mem_append_left _ hn), hpre⟩
  have hstop : m'.stop ≤ byteLen text := by
    obtain ⟨a, w, b, hm'⟩ := hcuts m' (by simp)
    rw [hm'.stop_eq, hm'.text_eq, byteLen_append (a ++ w)]
    omega
  have hreach : m'.stop = m.start + (m'.stop - m.start) := by omega
  generalize hd : m'.stop - m.start = d at hreach
  refine ⟨wideMarker d (byteLen text), ?_⟩
  have hfirst := redactAll_eq_woven hback (wideMarker d (byteLen text)) []
  rw [List.append_nil, List.append_nil] at hfirst
  obtain ⟨head, rest, hwoven, hlen⟩ := woven_concat hback (wideMarker d (byteLen text))
  have hnot : ¬ IsBoundary m'.stop (head ++ (wideMarker d (byteLen text) ++ rest)) := by
    rw [hreach, ← hlen, isBoundary_append_iff]
    exact not_isBoundary_wideMarker (by omega) (by omega) rest
  have hdrop : dropBytes m'.stop (head ++ (wideMarker d (byteLen text) ++ rest)) = none := by
    rwa [← isSome_dropBytes_iff, Option.not_isSome_iff_eq_none] at hnot
  rw [redactAll_append, hfirst, hwoven, Option.bind_some, redactAll, replaceRange, hdrop]
  simp

end Lib
