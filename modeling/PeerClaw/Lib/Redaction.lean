import PeerClaw.Lib.Regex

/-!
# Redaction

Ranges of a text are replaced from the last to the first, so that what has been
replaced does not move the ranges that are left.  That works as long as the ranges do
not overlap; the text is then its stretches between the ranges, with the replacement
between any two of them.

* `redactAll` — the replacements, one after the other.
* `redactAll_eq_woven` — what comes out if no ranges overlap.
* `silent_gap` — the stretches have no match that looks only at itself.
* `silent_woven` — nothing is found any more, unless it runs through a replacement.
-/

namespace Lib

open Text

/-- Replace a range; a range that begins or ends inside a character or behind the text panics. -/
def replaceRange (text : List Char) (m : Span) (replacement : List Char) : Option (List Char) :=
  match takeBytes m.start text, dropBytes m.stop text with
  | some head, some tail => some (head ++ replacement ++ tail)
  | _, _ => none

/-- Replace some ranges, one after the other. -/
def redactAll (replacement : List Char) : List Span → List Char → Option (List Char)
  | [], text => some text
  | m :: ms, text => (replaceRange text m replacement).bind (redactAll replacement ms)

/-- The stretches of a text between some ranges, which are given from the last to the first. -/
def gaps (text : List Char) : List Span → List (List Char)
  | [] => [text]
  | m :: ms => gaps ((takeBytes m.start text).getD []) ms ++ [(dropBytes m.stop text).getD []]

/-- The stretches, with a replacement between any two of them. -/
def woven (replacement : List Char) (text : List Char) : List Span → List Char
  | [] => text
  | m :: ms => woven replacement ((takeBytes m.start text).getD []) ms ++ replacement ++
      (dropBytes m.stop text).getD []

/-- The ranges cut the text, and each one is behind the next. -/
structure Backwards (text : List Char) (ms : List Span) : Prop where
  cuts : ∀ m ∈ ms, ∃ a w b, m.Cuts text a w b
  apart : ms.Pairwise fun m m' => m'.stop ≤ m.start

section Cuts

variable {m : Span} {text a w b : List Char}

theorem Span.Cuts.take (h : m.Cuts text a w b) (tail : List Char) :
    takeBytes m.start (text ++ tail) = some a := by
  rw [h.start_eq, h.text_eq, List.append_assoc, List.append_assoc]
  exact takeBytes_append a _

theorem Span.Cuts.drop (h : m.Cuts text a w b) (tail : List Char) :
    dropBytes m.stop (text ++ tail) = some (b ++ tail) := by
  rw [h.stop_eq, h.text_eq, List.append_assoc]
  exact dropBytes_append (a ++ w) (b ++ tail)

theorem Span.Cuts.before (h : m.Cuts text a w b) {head tail : List Char}
    (htext : text = head ++ tail) (hle : m.stop ≤ byteLen head) : ∃ b', m.Cuts head a w b' := by
  have hbegin : a ++ w <+: text := by
    rw [h.text_eq]
    exact List.prefix_append _ _
  have hhead : head <+: text := by
    rw [htext]
    exact List.prefix_append _ _
  have hprefix : a ++ w <+: head := prefix_of_byteLen_le hbegin hhead (h.stop_eq ▸ hle)
  obtain ⟨b', hb'⟩ := hprefix
  exact ⟨b', hb'.symm, h.start_eq, h.stop_eq⟩

end Cuts

/-- What is left of the ranges cuts the text before the first of them. -/
theorem Backwards.rest {text a w b : List Char} {m : Span} {ms : List Span}
    (h : Backwards text (m :: ms)) (hm : m.Cuts text a w b) : Backwards a ms where
  cuts := by
    intro m' hm'
    obtain ⟨a', w', b', hcuts⟩ := h.cuts m' (List.mem_cons_of_mem m hm')
    have hle : m'.stop ≤ byteLen a := by
      rw [← hm.start_eq]
      exact List.rel_of_pairwise_cons h.apart hm'
    obtain ⟨b'', hb''⟩ := hcuts.before (hm.text_eq.trans (List.append_assoc a w b)) hle
    exact ⟨a', w', b'', hb''⟩
  apart := h.apart.of_cons

/-- **What redaction does.**  If no ranges overlap, no replacement panics, and what comes out is the
stretches between them with the replacements. -/
theorem redactAll_eq_woven {text : List Char} {ms : List Span} (h : Backwards text ms)
    (replacement tail : List Char) :
    redactAll replacement ms (text ++ tail) = some (woven replacement text ms ++ tail) := by
  induction ms generalizing text tail with
  | nil => rfl
  | cons m ms ih =>
      obtain ⟨a, w, b, hm⟩ := h.cuts m List.mem_cons_self
      have htake := hm.take []
      have hdrop := hm.drop []
      rw [List.append_nil] at htake hdrop
      have hone : replaceRange (text ++ tail) m replacement =
          some (a ++ (replacement ++ (b ++ tail))) := by
        rw [replaceRange, hm.take tail, hm.drop tail]
        simp
      rw [redactAll, hone, Option.bind_some, ih (h.rest hm), woven, htake, hdrop]
      simp

/-- **Where a stretch is.**  None of the ranges touches it. -/
theorem gap_apart {text : List Char} {ms : List Span} (h : Backwards text ms) {g : List Char}
    (hg : g ∈ gaps text ms) :
    ∃ x y, text = x ++ g ++ y ∧ ∀ m ∈ ms, m.stop ≤ byteLen x ∨ byteLen (x ++ g) ≤ m.start := by
  induction ms generalizing text with
  | nil =>
      rw [gaps, List.mem_singleton] at hg
      exact ⟨[], [], by simp [hg], nofun⟩
  | cons m ms ih =>
      obtain ⟨a, w, b, hm⟩ := h.cuts m List.mem_cons_self
      have htake := hm.take []
      have hdrop := hm.drop []
      rw [List.append_nil] at htake hdrop
      rw [gaps, htake, hdrop, Option.getD_some, Option.getD_some, List.append_nil,
        List.mem_append, List.mem_singleton] at hg
      rcases hg with hg | rfl
      · obtain ⟨x, y, ha, hapart⟩ := ih (h.rest hm) hg
        refine ⟨x, y ++ w ++ b, by rw [hm.text_eq, ha]; simp, ?_⟩
        rw [List.forall_mem_cons]
        refine ⟨.inr ?_, hapart⟩
        rw [hm.start_eq, ha, byteLen_append (x ++ g) y]
        omega
      · refine ⟨a ++ w, [], by rw [hm.text_eq]; simp, ?_⟩
        rw [List.forall_mem_cons]
        refine ⟨.inl hm.stop_eq.le, ?_⟩
        intro m' hm'
        have hle : m'.stop ≤ m.start := List.rel_of_pairwise_cons h.apart hm'
        refine .inl (hle.trans ?_)
        rw [hm.start_eq, byteLen_append]
        omega

/-! ## What is found afterwards -/

/-- None of some expressions finds anything. -/
def Silent (rs : List Regex) (text : List Char) : Prop := ∀ r ∈ rs, r.findIter text = []

instance (rs : List Regex) (text : List Char) : Decidable (Silent rs text) :=
  inferInstanceAs (Decidable (∀ r ∈ rs, r.findIter text = []))

variable {rs : List Regex} {text : List Char} {ms : List Span}

/-- **The stretches are silent.**  If all that is found is among the ranges, nothing is found
in a stretch between them. -/
theorem silent_gap (h : Backwards text ms) (hlocal : ∀ r ∈ rs, r.Local)
    (hall : ∀ r ∈ rs, ∀ m ∈ r.findIter text, m ∈ ms) {g : List Char} (hg : g ∈ gaps text ms) :
    Silent rs g := by
  intro r hr
  obtain ⟨x, y, htext, hapart⟩ := gap_apart h hg
  refine hlocal r hr x g y ?_
  intro m hm
  rw [← htext] at hm
  exact hapart m (hall r hr m hm)

/-- What is found among the replacements is found in a stretch between them. -/
def NothingThrough (rs : List Regex) (replacement text : List Char) (ms : List Span) : Prop :=
  ∀ r ∈ rs, r.findIter (woven replacement text ms) ≠ [] → ∃ g ∈ gaps text ms, r.findIter g ≠ []

/-- **Redacted once, silent.** -/
theorem silent_woven (h : Backwards text ms) (hlocal : ∀ r ∈ rs, r.Local)
    (hall : ∀ r ∈ rs, ∀ m ∈ r.findIter text, m ∈ ms) {replacement : List Char}
    (hthrough : NothingThrough rs replacement text ms) :
    Silent rs (woven replacement text ms) := by
  intro r hr
  by_contra hfound
  obtain ⟨g, hg, hsome⟩ := hthrough r hr hfound
  exact hsome (silent_gap h hlocal hall hg r hr)

end Lib
