import PeerClaw.Lib.Refill
import PeerClaw.Lib.Whitespace

/-!
# The text of a page

The tool `web_fetch` makes a text of a page: scripts, styles, comments and tags are removed, six
entities are decoded by one replacement after the other, white space is squeezed, and what is too
long is cut off behind a word.

* `WebFetch.htmlToText` — the text of a page.
* `WebFetch.decode_escape` — what the replacements make of an escaped text.
* `WebFetch.faithful_iff` — when an escaped text comes back, and a text without markup is kept.
-/

namespace PeerClaw

open Lib

namespace WebFetch

open Pattern Substitution

/-- `(?is)<script[^>]*>.*?</script>` -/
def scriptRe : Pattern :=
  all [caseless "<script", star (· ≠ '>'), char (· = '>'), lazyStar fun _ => true,
    caseless "</script>"]

/-- `(?is)<style[^>]*>.*?</style>` -/
def styleRe : Pattern :=
  all [caseless "<style", star (· ≠ '>'), char (· = '>'), lazyStar fun _ => true,
    caseless "</style>"]

/-- `(?s)<!--.*?-->` -/
def commentRe : Pattern :=
  all [Pattern.text "<!--", lazyStar fun _ => true, Pattern.text "-->"]

/-- `<[^>]+>` -/
def tagRe : Pattern := all [char (· = '<'), plus (· ≠ '>'), char (· = '>')]

/-- `\s+` -/
def wsRe : Pattern := plus Text.isWhitespace

/-- `\n{3,}` -/
def nlRe : Pattern := all [Pattern.text "\n\n\n", star (· = '\n')]

/-- `replace_all`, with a text that has no groups in it. -/
def replaceAll (re : Pattern) (text rep : String) : String :=
  String.ofList (re.regex.replaceAll (fun _ => rep.toList) text.toList)

/-- The tags that stand for the end of a line. -/
def breaks : List (String × String) :=
  [("<br>", "\n"), ("<br/>", "\n"), ("<br />", "\n"), ("</p>", "\n\n"), ("</div>", "\n"),
    ("</li>", "\n"), ("</h1>", "\n\n"), ("</h2>", "\n\n"), ("</h3>", "\n\n")]

/-- The entities, as they are decoded. -/
def entities : List (String × String) :=
  [("&nbsp;", " "), ("&amp;", "&"), ("&lt;", "<"), ("&gt;", ">"), ("&quot;", "\""), ("&#39;", "'")]

/-- One replacement after the other. -/
def replaceEach (rules : List (String × String)) (text : String) : String :=
  rules.foldl (fun text rule => Text.replace text rule.1 rule.2) text

/-- As many whole characters as so many bytes hold. -/
def takeWithin : ℕ → List Char → List Char
  | _, [] => []
  | n, c :: cs => if c.utf8Size ≤ n then c :: takeWithin (n - c.utf8Size) cs else []

/-- What comes before the last blank, if there is one. -/
def beforeLastBlank (text : List Char) : List Char :=
  match text.reverse.dropWhile (· ≠ ' ') with
  | [] => text
  | _ :: rest => rest.reverse

/-- A text that is too long is cut off behind a word. -/
def clip (maxLength : ℕ) (text : String) : String :=
  if maxLength < Text.byteLen text.toList then
    String.ofList (beforeLastBlank (takeWithin maxLength text.toList)) ++ "..."
  else text

/-- `html_to_text`. -/
def htmlToText (html : String) (maxLength : ℕ) : String :=
  let text := replaceAll scriptRe html ""
  let text := replaceAll styleRe text ""
  let text := replaceAll commentRe text ""
  let text := replaceEach breaks text
  let text := replaceAll tagRe text ""
  let text := replaceEach entities text
  let text := replaceAll wsRe text " "
  let text := replaceAll nlRe text "\n\n"
  clip maxLength (Text.trim text)

/-! ## Escaped texts -/

/-- A character of a text, escaped by the entities of a list. -/
def escapeBy (table : List (Char × String)) (c : Char) : List Char :=
  match table.lookup c with
  | some entity => entity.toList
  | none => [c]

/-- The characters that are escaped, but for the ampersand. -/
def quoted : List (Char × String) :=
  [('<', "&lt;"), ('>', "&gt;"), ('"', "&quot;"), ('\'', "&#39;")]

/-- A text in which the ampersand, the angle brackets and the quotes are escaped. -/
def escapeHtml (t : String) : String :=
  String.ofList (t.toList.flatMap (escapeBy (('&', "&amp;") :: quoted)))

/-- A text without tags and without entities. -/
def NoMarkup (html : String) : Prop :=
  tagRe.regex.isMatch html.toList = false ∧ ∀ e ∈ entities, Text.contains html e.1 = false

/-- The words of the text fit into so many bytes with blanks between them; or there is only one,
and the dots that are put in the place of its end are its end. -/
def Fits (maxLength : ℕ) (html : String) : Prop :=
  Text.byteLen (Text.blanks (Text.words html.toList)) ≤ maxLength ∨
    ∃ w, Text.words html.toList = [w ++ "...".toList] ∧ Text.byteLen w = maxLength

/-! ## Replacements that find nothing -/

section Rewrite

variable {r : Rule} {cs : List Char}

theorem toList_replace (text p q : String) :
    (Text.replace text p q).toList = rewrite (p.toList, q.toList) text.toList := by
  rw [Text.replace, String.toList_ofList, rewrite, String.length_toList]

theorem rewrite_of_absent (h : ¬ r.1 <:+: cs) : rewrite r cs = cs := by
  induction cs with
  | nil => rfl
  | cons c cs ih =>
      have hnot : ¬ r.1.isPrefixOf (c :: cs) = true := by
        rw [List.isPrefixOf_iff_prefix]
        exact fun hstart => h hstart.isInfix
      rw [rewrite_cons hnot, ih fun hinfix => h (List.infix_cons hinfix)]

/-- A replacement by less never makes a text longer, and one that finds something makes it
shorter. -/
theorem length_rewrite (hlt : r.2.length < r.1.length) (cs : List Char) :
    (rewrite r cs).length ≤ cs.length ∧
      (r.1 <:+: cs → (rewrite r cs).length < cs.length) := by
  have hne : r.1 ≠ [] := by
    rintro hnil
    simp [hnil] at hlt
  induction hlength : cs.length using Nat.strong_induction_on generalizing cs with
  | _ n ih =>
      subst hlength
      cases cs with
      | nil => exact ⟨le_refl _, fun h => absurd (List.infix_nil.1 h) hne⟩
      | cons c cs =>
          by_cases hstart : r.1.isPrefixOf (c :: cs) = true
          · obtain ⟨rest, hrest⟩ := List.isPrefixOf_iff_prefix.1 hstart
            have hlen := congrArg List.length hrest
            rw [List.length_append] at hlen
            have hshorter := (ih rest.length (by omega) rest rfl).1
            rw [← hrest, rewrite_placeholder hne, List.length_append, List.length_append]
            exact ⟨by omega, fun _ => by omega⟩
          · obtain ⟨hle, hshorter⟩ := ih cs.length (by simp) cs rfl
            rw [rewrite_cons hstart, List.length_cons, List.length_cons]
            refine ⟨by omega, fun hinfix => ?_⟩
            rcases List.infix_cons_iff.1 hinfix with hprefix' | hinfix
            · exact absurd (List.isPrefixOf_iff_prefix.2 hprefix') hstart
            · exact Nat.succ_lt_succ (hshorter hinfix)

/-- Some replacements by less leave a text as it is exactly if none finds anything. -/
theorem foldl_rewrite_eq_iff {rules : List Rule} (h : ∀ r ∈ rules, r.2.length < r.1.length) :
    rules.foldl (fun cs r => rewrite r cs) cs = cs ↔ ∀ r ∈ rules, ¬ r.1 <:+: cs := by
  have hle : ∀ (rules : List Rule), (∀ r ∈ rules, r.2.length < r.1.length) → ∀ cs,
      (rules.foldl (fun cs r => rewrite r cs) cs).length ≤ cs.length := by
    intro rules
    induction rules with
    | nil => exact fun _ cs => le_refl _
    | cons r rules ih =>
        intro h cs
        obtain ⟨hr, hrest⟩ := List.forall_mem_cons.1 h
        exact (ih hrest _).trans (length_rewrite hr cs).1
  induction rules with
  | nil => simp
  | cons r rules ih =>
      obtain ⟨hr, hrest⟩ := List.forall_mem_cons.1 h
      rw [List.foldl_cons, List.forall_mem_cons]
      by_cases hin : r.1 <:+: cs
      · have hlt := (length_rewrite hr cs).2 hin
        have hall := hle rules hrest (rewrite r cs)
        refine iff_of_false (fun heq => ?_) fun hboth => hboth.1 hin
        rw [heq] at hall
        omega
      · rw [rewrite_of_absent hin]
        exact (ih hrest).trans (and_iff_right hin).symm

end Rewrite

/-! ## Decoding what has been escaped -/

section Escape

variable {r : Rule} {cs v tok : List Char} {table : List (Char × String)} {p : Char × String}
  {c d : Char}

/-- An entity: an ampersand, and behind it nothing that is escaped. -/
def IsEntity (table : List (Char × String)) (e : String) : Prop :=
  e.toList.head? = some '&' ∧ ∀ d ∈ e.toList.tail, d ≠ '&' ∧ table.lookup d = none

instance (table : List (Char × String)) (e : String) : Decidable (IsEntity table e) :=
  @instDecidableAnd _ _ _
    (List.decidableBAll (fun d : Char => d ≠ '&' ∧ table.lookup d = none) e.toList.tail)

/-- Neither of two texts begins the other one. -/
def Incomparable (v w : List Char) : Prop := ¬ v <+: w ∧ ¬ w <+: v

instance (v w : List Char) : Decidable (Incomparable v w) := inferInstanceAs (Decidable (_ ∧ _))

/-- Characters with their entities, none of which begins another one. -/
structure Coded (table : List (Char × String)) : Prop where
  ampersand : table.lookup '&' = none
  entity : ∀ p ∈ table, IsEntity table p.2
  apart : table.Pairwise fun p q => p.1 ≠ q.1 ∧ Incomparable p.2.toList q.2.toList

theorem Coded.tail (h : Coded (p :: table)) : Coded table := by
  have hlookup : ∀ d, (p :: table).lookup d = none → table.lookup d = none := by
    intro d hd
    rw [List.lookup_cons] at hd
    split at hd
    · cases hd
    · exact hd
  refine ⟨hlookup _ h.ampersand, fun q hq => ?_, (List.pairwise_cons.1 h.apart).2⟩
  obtain ⟨hhead, hrest⟩ := h.entity q (List.mem_cons_of_mem p hq)
  exact ⟨hhead, fun d hd => ⟨(hrest d hd).1, hlookup d (hrest d hd).2⟩⟩

theorem rewrite_plain (hr : r.1.head? = some '&') (hv : ∀ c ∈ v, c ≠ '&') (cs : List Char) :
    rewrite r (v ++ cs) = v ++ rewrite r cs := by
  induction v with
  | nil => rfl
  | cons c v ih =>
      obtain ⟨hc, hrest⟩ := List.forall_mem_cons.1 hv
      have hnot : ¬ r.1.isPrefixOf (c :: (v ++ cs)) = true := by
        rw [List.isPrefixOf_iff_prefix]
        rintro ⟨rest, hrest'⟩
        obtain ⟨body, hbody⟩ := List.head?_eq_some_iff.1 hr
        rw [hbody] at hrest'
        exact hc (List.cons.inj hrest').1.symm
      rw [List.cons_append, rewrite_cons hnot, ih hrest, List.cons_append]

theorem rewrite_entity (hr : r.1.head? = some '&') (htok : tok.head? = some '&')
    (hrest : ∀ d ∈ tok.tail, d ≠ '&') (hapart : Incomparable r.1 tok) (cs : List Char) :
    rewrite r (tok ++ cs) = tok ++ rewrite r cs := by
  obtain ⟨body, rfl⟩ := List.head?_eq_some_iff.1 htok
  have hnot : ¬ r.1.isPrefixOf ('&' :: (body ++ cs)) = true := by
    rw [List.isPrefixOf_iff_prefix]
    intro hstart
    have htok : '&' :: body <+: '&' :: (body ++ cs) := List.prefix_append ('&' :: body) cs
    exact (List.prefix_or_prefix_of_prefix hstart htok).elim hapart.1 hapart.2
  have hcopied : rewrite r (body ++ cs) = body ++ rewrite r cs := rewrite_plain hr hrest cs
  rw [List.cons_append, rewrite_cons hnot, hcopied, List.cons_append]

theorem escapeBy_of_lookup {e : String} (h : table.lookup c = some e) :
    escapeBy table c = e.toList := by
  rw [escapeBy, h]

theorem escapeBy_of_none (h : table.lookup c = none) : escapeBy table c = [c] := by
  rw [escapeBy, h]

theorem mem_of_lookup {e : String} (h : table.lookup c = some e) : (c, e) ∈ table := by
  induction table with
  | nil => cases h
  | cons q table ih =>
      rw [List.lookup_cons] at h
      split at h
      · rename_i heq
        rw [← Option.some.inj h, eq_of_beq heq]
        exact List.mem_cons_self
      · exact List.mem_cons_of_mem q (ih h)

/-- Characters that are neither ampersands nor escaped are found in an escaped text where they are
in the text. -/
theorem prefix_of_escaped (hcoded : Coded table) (hv : ∀ d ∈ v, d ≠ '&' ∧ table.lookup d = none)
    (h : v <+: cs.flatMap (escapeBy table)) : v <+: cs := by
  induction v generalizing cs with
  | nil => exact List.nil_prefix
  | cons a v ih =>
      obtain ⟨⟨hne, -⟩, hrest⟩ := List.forall_mem_cons.1 hv
      cases cs with
      | nil => exact absurd (List.prefix_nil.1 h) (List.cons_ne_nil a v)
      | cons c cs =>
          rw [List.flatMap_cons] at h
          cases hlookup : table.lookup c with
          | none =>
              rw [escapeBy_of_none hlookup, List.singleton_append, List.cons_prefix_cons] at h
              exact List.cons_prefix_cons.2 ⟨h.1, ih hrest h.2⟩
          | some e =>
              -- an entity begins with an ampersand
              obtain ⟨body, hbody⟩ := List.head?_eq_some_iff.1
                (hcoded.entity _ (mem_of_lookup hlookup)).1
              rw [escapeBy_of_lookup hlookup, hbody, List.cons_append, List.cons_prefix_cons] at h
              exact absurd h.1 hne

theorem flatMap_plain (hv : ∀ d ∈ v, table.lookup d = none) : v.flatMap (escapeBy table) = v := by
  induction v with
  | nil => rfl
  | cons d v ih =>
      obtain ⟨hd, hrest⟩ := List.forall_mem_cons.1 hv
      rw [List.flatMap_cons, escapeBy_of_none hd, ih hrest, List.singleton_append]

theorem lookup_cons_of_ne {e : String} (h : d ≠ c) :
    ((c, e) :: table).lookup d = table.lookup d := by
  rw [List.lookup_cons, beq_false_of_ne h]

/-- **One entity is decoded**: in the escaped text, and in the text itself. -/
theorem rewrite_escaped {e : String} (hcoded : Coded ((c, e) :: table)) (cs : List Char) :
    rewrite (e.toList, [c]) (cs.flatMap (escapeBy ((c, e) :: table))) =
      (rewrite (e.toList, [c]) cs).flatMap (escapeBy table) := by
  obtain ⟨hhead, hplain⟩ := hcoded.entity (c, e) List.mem_cons_self
  obtain ⟨body, hbody⟩ := List.head?_eq_some_iff.1 hhead
  rw [hbody, List.tail_cons] at hplain
  have hne : e.toList ≠ [] := by simp [hbody]
  have hcamp : c ≠ '&' := by
    rintro rfl
    have h := hcoded.ampersand
    simp at h
  have hapart := (List.pairwise_cons.1 hcoded.apart).1
  have hkey : table.lookup c = none := by
    cases hlookup : table.lookup c with
    | none => rfl
    | some f => exact absurd rfl (hapart _ (mem_of_lookup hlookup)).1
  have hfirst : ∀ {d cs}, d ≠ '&' → ¬ e.toList.isPrefixOf (d :: cs) = true := by
    intro d cs hd
    rw [List.isPrefixOf_iff_prefix, hbody, List.cons_prefix_cons]
    exact fun hstart => hd hstart.1.symm
  have hdecoded : ∀ x, rewrite (e.toList, [c]) (e.toList ++ x) =
      [c] ++ rewrite (e.toList, [c]) x := fun x => rewrite_placeholder hne
  induction hlength : cs.length using Nat.strong_induction_on generalizing cs with
  | _ n ih =>
      subst hlength
      match cs with
      | [] => rfl
      | d :: cs =>
          have ih' := ih cs.length (by simp) cs rfl
          by_cases hd : d = c
          · -- the entity stands for the character
            subst hd
            have hcopied : rewrite (e.toList, [d]) (d :: cs) = d :: rewrite (e.toList, [d]) cs :=
              rewrite_cons (hfirst hcamp)
            rw [List.flatMap_cons, escapeBy_of_lookup List.lookup_cons_self]
            rw [hdecoded, ih', hcopied, List.flatMap_cons, escapeBy_of_none hkey]
          have hsame : ((c, e) :: table).lookup d = table.lookup d := lookup_cons_of_ne hd
          cases hlookup : table.lookup d with
          | some f =>
              -- another entity
              have hdamp : d ≠ '&' := by
                rintro rfl
                rw [hcoded.tail.ampersand] at hlookup
                cases hlookup
              have hmem := mem_of_lookup hlookup
              obtain ⟨hf, hfplain⟩ := hcoded.tail.entity _ hmem
              have hcopied : rewrite (e.toList, [c]) (d :: cs) = d :: rewrite (e.toList, [c]) cs :=
                rewrite_cons (hfirst hdamp)
              rw [List.flatMap_cons, escapeBy_of_lookup (hsame.trans hlookup)]
              have hentity := rewrite_entity (r := (e.toList, [c])) hhead hf
                (fun a ha => (hfplain a ha).1) (hapart _ hmem).2
                (cs.flatMap (escapeBy ((c, e) :: table)))
              rw [hentity, ih', hcopied, List.flatMap_cons, escapeBy_of_lookup hlookup]
          | none =>
              have htoken : escapeBy ((c, e) :: table) d = [d] :=
                escapeBy_of_none (hsame.trans hlookup)
              by_cases hstart : e.toList <+: d :: cs
              · -- the text has the entity itself
                obtain ⟨rest, hrest⟩ := hstart
                have hkept : e.toList.flatMap (escapeBy ((c, e) :: table)) = e.toList := by
                  apply flatMap_plain
                  rw [hbody]
                  exact List.forall_mem_cons.2 ⟨hcoded.ampersand, fun a ha => (hplain a ha).2⟩
                have hlen := congrArg List.length hrest
                rw [List.length_append, hbody, List.length_cons] at hlen
                rw [← hrest, List.flatMap_append, hkept, hdecoded, hdecoded,
                  ih rest.length (by omega) rest rfl, List.flatMap_append, List.flatMap_singleton,
                  escapeBy_of_none hkey]
              · have hnot : ¬ e.toList <+: d :: cs.flatMap (escapeBy ((c, e) :: table)) := by
                  rw [hbody, List.cons_prefix_cons]
                  rintro ⟨rfl, htail⟩
                  apply hstart
                  rw [hbody, List.cons_prefix_cons]
                  exact ⟨rfl, prefix_of_escaped hcoded hplain htail⟩
                have hcopied : ∀ {x}, ¬ e.toList <+: d :: x →
                    rewrite (e.toList, [c]) (d :: x) = d :: rewrite (e.toList, [c]) x := by
                  intro x hx
                  exact rewrite_cons (by rwa [List.isPrefixOf_iff_prefix])
                rw [List.flatMap_cons, htoken, List.singleton_append, hcopied hnot, ih',
                  hcopied hstart, List.flatMap_cons, escapeBy_of_none hlookup,
                  List.singleton_append]

/-- **All of them are decoded**, one after the other. -/
theorem foldl_rewrite_escaped (hcoded : Coded table) (cs : List Char) :
    (table.map fun q => (q.2.toList, [q.1])).foldl (fun cs r => rewrite r cs)
        (cs.flatMap (escapeBy table)) =
      (table.map fun q => (q.2.toList, [q.1])).foldl (fun cs r => rewrite r cs) cs := by
  induction table generalizing cs with
  | nil =>
      have hnone : cs.flatMap (escapeBy []) = cs := flatMap_plain fun _ _ => rfl
      rw [hnone]
  | cons q table ih =>
      rw [List.map_cons, List.foldl_cons, List.foldl_cons, rewrite_escaped hcoded,
        ih hcoded.tail]

/-! ## The ampersand first -/

theorem coded_quoted : Coded quoted := ⟨by decide, by decide, by decide⟩

/-- What is behind the ampersand is copied by a replacement that no entity begins with. -/
theorem rewrite_quoted (hr : r.1.head? = some '&')
    (hapart : ∀ q ∈ quoted, Incomparable r.1 q.2.toList) (hc : c ≠ '&') (cs : List Char) :
    rewrite r (escapeBy quoted c ++ cs) = escapeBy quoted c ++ rewrite r cs := by
  cases hlookup : quoted.lookup c with
  | none =>
      rw [escapeBy_of_none hlookup]
      exact rewrite_plain hr (by simpa using hc) cs
  | some e =>
      have hmem := mem_of_lookup hlookup
      obtain ⟨hhead, hrest⟩ := coded_quoted.entity _ hmem
      rw [escapeBy_of_lookup hlookup]
      exact rewrite_entity hr hhead (fun d hd => (hrest d hd).1) (hapart _ hmem) cs

theorem rewrite_nbsp (cs : List Char) :
    rewrite ("&nbsp;".toList, " ".toList) (cs.flatMap (escapeBy (('&', "&amp;") :: quoted))) =
      cs.flatMap (escapeBy (('&', "&amp;") :: quoted)) := by
  induction cs with
  | nil => rfl
  | cons c cs ih =>
      rw [List.flatMap_cons]
      by_cases hc : c = '&'
      · have hcopied : ∀ x, rewrite ("&nbsp;".toList, " ".toList) ("&amp;".toList ++ x) =
            "&amp;".toList ++ rewrite ("&nbsp;".toList, " ".toList) x :=
          rewrite_entity rfl rfl (by simp) (by decide)
        rw [hc, escapeBy_of_lookup List.lookup_cons_self, hcopied, ih]
      · have htoken : escapeBy (('&', "&amp;") :: quoted) c = escapeBy quoted c := by
          rw [escapeBy, lookup_cons_of_ne hc, escapeBy]
        rw [htoken, rewrite_quoted rfl (by decide) hc, ih]

theorem rewrite_amp (cs : List Char) :
    rewrite ("&amp;".toList, "&".toList) (cs.flatMap (escapeBy (('&', "&amp;") :: quoted))) =
      cs.flatMap (escapeBy quoted) := by
  induction cs with
  | nil => rfl
  | cons c cs ih =>
      rw [List.flatMap_cons, List.flatMap_cons]
      by_cases hc : c = '&'
      · have hdecoded : ∀ x, rewrite ("&amp;".toList, "&".toList) ("&amp;".toList ++ x) =
            "&".toList ++ rewrite ("&amp;".toList, "&".toList) x :=
          fun x => rewrite_placeholder (by decide)
        rw [hc, escapeBy_of_lookup List.lookup_cons_self, hdecoded, ih]
        rfl
      · have htoken : escapeBy (('&', "&amp;") :: quoted) c = escapeBy quoted c := by
          rw [escapeBy, lookup_cons_of_ne hc, escapeBy]
        rw [htoken, rewrite_quoted rfl (by decide) hc, ih]

theorem toList_replaceEach (rules : List (String × String)) (text : String) :
    (replaceEach rules text).toList =
      (rules.map fun q => (q.1.toList, q.2.toList)).foldl (fun cs r => rewrite r cs)
        text.toList := by
  induction rules generalizing text with
  | nil => rfl
  | cons q rules ih =>
      rw [replaceEach, List.foldl_cons, ← replaceEach, ih, toList_replace]
      rfl

/-- **What becomes of an escaped text**: the entities of the text itself are decoded, but for the
blank and the ampersand. -/
theorem decode_escape (t : String) :
    (replaceEach entities (escapeHtml t)).toList =
      (quoted.map fun q => (q.2.toList, [q.1])).foldl (fun cs r => rewrite r cs) t.toList := by
  have hrules : (entities.map fun q => (q.1.toList, q.2.toList)) =
      ("&nbsp;".toList, " ".toList) :: ("&amp;".toList, "&".toList) ::
        quoted.map fun q => (q.2.toList, [q.1]) := by
    decide
  have hescaped : (escapeHtml t).toList =
      t.toList.flatMap (escapeBy (('&', "&amp;") :: quoted)) := String.toList_ofList
  rw [toList_replaceEach, hrules, List.foldl_cons, List.foldl_cons, hescaped, rewrite_nbsp,
    rewrite_amp, foldl_rewrite_escaped coded_quoted]

theorem decode_escape_eq_iff (t : String) :
    replaceEach entities (escapeHtml t) = t ↔
      ∀ e ∈ ["&lt;", "&gt;", "&quot;", "&#39;"], Text.contains t e = false := by
  rw [← String.toList_inj, decode_escape, foldl_rewrite_eq_iff (by decide)]
  simp only [← Bool.not_eq_true, Text.contains_iff]
  simp [quoted]

end Escape

/-! ## A text without markup -/

section Markup

variable {re : Pattern} {text w : List Char} {html : String}

/-- What looks like a tag: a closing bracket behind an opening one, and not directly. -/
def IsTag (w : List Char) : Prop :=
  w.head? = some '<' ∧ w.tail.head? ≠ some '>' ∧ '>' ∈ w.tail

instance (w : List Char) : Decidable (IsTag w) := inferInstanceAs (Decidable (_ ∧ _ ∧ _))

theorem occurs_of_isTag (hw : IsTag w) (h : w <:+: text) : tagRe.Occurs text := by
  obtain ⟨hhead, hnext, hclose⟩ := hw
  obtain ⟨rest, rfl⟩ := List.head?_eq_some_iff.1 hhead
  rw [List.tail_cons] at hnext hclose
  obtain ⟨a, b, rfl⟩ := h
  -- up to the first closing bracket
  obtain ⟨inner, post, rfl, hinner⟩ := List.eq_append_cons_of_mem hclose
  have hne : inner ≠ [] := by
    rintro rfl
    exact hnext rfl
  refine ⟨a, '<' :: (inner ++ ['>']), post ++ b, by simp, ['<'], inner ++ ['>'], rfl,
    ⟨'<', rfl, rfl⟩, inner, ['>'], rfl, lang_plus_iff.2 ⟨hne, fun c hc => ?_⟩, ['>'], [], rfl,
    ⟨'>', rfl, rfl⟩, rfl⟩
  exact decide_eq_true fun heq => hinner (heq ▸ hc)

theorem not_occurs_tag (h : NoMarkup html) : ¬ tagRe.Occurs html.toList := by
  have hfree : tagRe.Free := ⟨trivial, free_plus _, trivial, trivial⟩
  have hne : ¬ tagRe.Lang [] := by simp [tagRe, all, Lang]
  intro hoccurs
  have hmatch := h.1
  rw [(isMatch_regex_iff hfree hne html.toList).2 hoccurs] at hmatch
  cases hmatch

theorem replaceAll_ofList (re : Pattern) (cs : List Char) (rep : String) :
    replaceAll re (String.ofList cs) rep =
      String.ofList (re.regex.replaceAll (fun _ => rep.toList) cs) := by
  rw [replaceAll, String.toList_ofList (l := cs)]

theorem isMatch_of_not_occurs (h : ¬ re.Occurs text) : re.regex.isMatch text = false := by
  rw [Regex.isMatch, Bool.not_eq_false', List.isEmpty_iff]
  by_contra hsome
  exact h (exists_of_spansFrom hsome)

/-- An expression each match of which looks like a tag has none in a text without tags. -/
theorem replaceAll_of_no_tag (h : ¬ tagRe.Occurs text) (hre : ∀ w, re.Lang w → IsTag w)
    (rep : String) : replaceAll re (String.ofList text) rep = String.ofList text := by
  have hnone : ¬ re.Occurs text := by
    rintro ⟨a, w, b, rfl, hw⟩
    exact h (occurs_of_isTag (hre w hw) ⟨a, b, rfl⟩)
  rw [replaceAll_ofList, Pattern.replaceAll_of_not_match (isMatch_of_not_occurs hnone)]

theorem eq_of_sameFold_bracket {c : Char} (h : sameFold '<' c = true) : c = '<' := by
  have hlower : c.toLower = '<' → c = '<' := by
    unfold Char.toLower
    split
    · intro heq
      have hval := congrArg Char.val heq
      grind
    · exact id
  simp only [sameFold, Bool.or_eq_true, decide_eq_true_eq, Bool.and_eq_true] at h
  rcases h with ((h | h) | h) | h
  · exact h
  · exact hlower h
  · exact absurd h.1 (by decide)
  · exact absurd h.1 (by decide)

theorem start_of_caseless {name : String} {d : Char} {rest : List Char}
    (hname : name.toList = '<' :: d :: rest) (hd : sameFold d '>' = false)
    (h : (caseless name).Lang w) : ∃ c v, w = '<' :: c :: v ∧ c ≠ '>' := by
  unfold caseless all at h
  rw [hname] at h
  obtain ⟨-, -, rfl, ⟨b, rfl, hb⟩, -, v, rfl, ⟨c, rfl, hc⟩, -⟩ := h
  rw [eq_of_sameFold_bracket hb]
  refine ⟨c, v, rfl, ?_⟩
  rintro rfl
  rw [hd] at hc
  cases hc

theorem isTag_of_element {name : String} {d : Char} {rest : List Char} {test : Char → Bool}
    {re : Pattern} (hname : name.toList = '<' :: d :: rest) (hd : sameFold d '>' = false)
    (h : (seq (caseless name) (seq (star test) (seq (char (· = '>')) re))).Lang w) : IsTag w := by
  obtain ⟨u, -, rfl, hu, m, -, rfl, -, -, v, rfl, ⟨c, rfl, hc⟩, -⟩ := h
  obtain ⟨b, u, rfl, hb⟩ := start_of_caseless hname hd hu
  have hclose : c = '>' := of_decide_eq_true hc
  subst hclose
  refine ⟨rfl, ?_, by simp⟩
  simpa using hb

theorem isTag_of_comment (h : commentRe.Lang w) : IsTag w := by
  obtain ⟨u, -, rfl, hu, m, -, rfl, -, v, t, rfl, hv, -⟩ := h
  rw [lang_text_iff] at hu hv
  subst hu hv
  exact ⟨rfl, fun heq => (nomatch heq), by simp⟩

theorem replaceEach_of_absent {rules : List (String × String)}
    (h : ∀ q ∈ rules, ¬ q.1.toList <:+: html.toList) : replaceEach rules html = html := by
  rw [← String.toList_inj, toList_replaceEach]
  induction rules with
  | nil => rfl
  | cons q rules ih =>
      obtain ⟨hq, hrest⟩ := List.forall_mem_cons.1 h
      rw [List.map_cons, List.foldl_cons]
      have hsame : rewrite (q.1.toList, q.2.toList) html.toList = html.toList :=
        rewrite_of_absent hq
      rw [hsame, ih hrest]

theorem not_mem_squeezeFrom {c : Char} (hc : Text.isWhitespace c = true) (hne : c ≠ ' ')
    (inside : Bool) (cs : List Char) : c ∉ Text.squeezeFrom inside cs := by
  induction cs generalizing inside with
  | nil => simp [Text.squeezeFrom]
  | cons d cs ih =>
      unfold Text.squeezeFrom
      split
      · split
        · exact ih true
        · simpa [hne] using ih true
      · rename_i hd
        have hdiff : c ≠ d := by
          rintro rfl
          exact hd hc
        simpa [hdiff] using ih false

theorem nlRe_squeeze (cs : List Char) : ¬ nlRe.Occurs (Text.squeeze cs) := by
  rintro ⟨a, -, b, htext, u, v, rfl, hu, -⟩
  rw [lang_text_iff] at hu
  have hmem : '\n' ∈ Text.squeeze cs := by
    rw [htext, hu]
    simp
  exact not_mem_squeezeFrom (by decide) (by decide) false cs hmem

/-- **A text without markup**: its words, as far as they go. -/
theorem htmlToText_of_noMarkup (h : NoMarkup html) (maxLength : ℕ) :
    htmlToText html maxLength =
      clip maxLength (String.ofList (Text.blanks (Text.words html.toList))) := by
  have htag := not_occurs_tag h
  have hkept : ∀ {re : Pattern}, (∀ w, re.Lang w → IsTag w) → replaceAll re html "" = html := by
    intro re hre
    have hnone := replaceAll_of_no_tag htag hre ""
    rwa [String.ofList_toList] at hnone
  have hscript : replaceAll scriptRe html "" = html :=
    hkept fun w hw => isTag_of_element (by rfl) (by decide) hw
  have hstyle : replaceAll styleRe html "" = html :=
    hkept fun w hw => isTag_of_element (by rfl) (by decide) hw
  have hcomment : replaceAll commentRe html "" = html := hkept fun w hw => isTag_of_comment hw
  have hbreaks : replaceEach breaks html = html := by
    have hall : ∀ q ∈ breaks, IsTag q.1.toList := by decide
    exact replaceEach_of_absent fun q hq hin => htag (occurs_of_isTag (hall q hq) hin)
  have htags : replaceAll tagRe html "" = html := by
    rw [replaceAll, Pattern.replaceAll_of_not_match h.1, String.ofList_toList]
  have hentities : replaceEach entities html = html := by
    refine replaceEach_of_absent fun q hq hin => ?_
    have hcontains := h.2 q hq
    rw [Text.contains_iff.2 hin] at hcontains
    cases hcontains
  have hspace : replaceAll wsRe html " " = String.ofList (Text.squeeze html.toList) := by
    exact congrArg String.ofList (replaceAll_plus html.toList)
  have hnewlines : replaceAll nlRe (String.ofList (Text.squeeze html.toList)) "\n\n" =
      String.ofList (Text.squeeze html.toList) := by
    rw [replaceAll_ofList,
      Pattern.replaceAll_of_not_match (isMatch_of_not_occurs (nlRe_squeeze _))]
  unfold htmlToText
  dsimp only
  rw [hscript, hstyle, hcomment, hbreaks, htags, hentities, hspace, hnewlines, Text.trim,
    String.toList_ofList, Text.trimChars_squeeze]

end Markup

/-! ## What is cut off -/

section Clip

open Text

variable {n : ℕ} {cs a b : List Char} {ws : List (List Char)}

theorem takeWithin_spec (n : ℕ) (cs : List Char) :
    ∃ rest, cs = takeWithin n cs ++ rest ∧ byteLen (takeWithin n cs) ≤ n ∧
      ∀ c rest', rest = c :: rest' → n < byteLen (takeWithin n cs) + c.utf8Size := by
  induction cs generalizing n with
  | nil => exact ⟨[], rfl, Nat.zero_le n, fun _ _ h => nomatch h⟩
  | cons c cs ih =>
      rw [takeWithin]
      split
      · rename_i hle
        obtain ⟨rest, hrest, hbytes, hnext⟩ := ih (n - c.utf8Size)
        refine ⟨rest, congrArg (c :: ·) hrest, ?_, fun d rest' h => ?_⟩
        · rw [byteLen_cons]
          omega
        · have hlt := hnext d rest' h
          rw [byteLen_cons]
          omega
      · rename_i hlt
        refine ⟨c :: cs, rfl, Nat.zero_le n, fun d rest' h => ?_⟩
        obtain ⟨rfl, -⟩ := List.cons.inj h
        simpa using hlt

theorem takeWithin_append (a b : List Char) : takeWithin (byteLen a) (a ++ b) = a := by
  induction a with
  | nil =>
      cases b with
      | nil => rfl
      | cons c b => rw [List.nil_append, takeWithin, if_neg (by have := c.utf8Size_pos; simp; omega)]
  | cons c a ih =>
      rw [List.cons_append, takeWithin, byteLen_cons, if_pos (Nat.le_add_right _ _),
        Nat.add_sub_cancel_left, ih]

theorem beforeLastBlank_of_not_mem (h : ' ' ∉ a) : beforeLastBlank a = a := by
  have hall : a.reverse.dropWhile (fun c => decide (c ≠ ' ')) = [] := by
    refine List.dropWhile_eq_nil_iff.2 fun c hc => decide_eq_true ?_
    rintro rfl
    exact h (List.mem_reverse.1 hc)
  rw [beforeLastBlank, hall]

theorem beforeLastBlank_append (h : ' ' ∉ b) : beforeLastBlank (a ++ ' ' :: b) = a := by
  have hall : (a ++ ' ' :: b).reverse.dropWhile (fun c => decide (c ≠ ' ')) =
      ' ' :: a.reverse := by
    rw [List.reverse_append, List.reverse_cons, List.append_assoc, List.dropWhile_append_of_pos,
      List.singleton_append, List.dropWhile_cons_of_neg (by decide)]
    intro c hc
    refine decide_eq_true ?_
    rintro rfl
    exact h (List.mem_reverse.1 hc)
  rw [beforeLastBlank, hall]
  exact List.reverse_reverse a

/-- A text that is too long keeps its words only if it is one, and the dots are its end. -/
theorem words_clipped_iff (h : ∀ w ∈ ws, IsWord w) (hlong : n < byteLen (blanks ws)) :
    words (beforeLastBlank (takeWithin n (blanks ws)) ++ "...".toList) = ws ↔
      ∃ w, ws = [w ++ "...".toList] ∧ byteLen w = n := by
  obtain ⟨rest, hrest, hbytes, hnext⟩ := takeWithin_spec n (blanks ws)
  generalize hpart : takeWithin n (blanks ws) = part at *
  by_cases hblank : ' ' ∈ part
  · -- a word is left out
    obtain ⟨q, a, hqa, hq⟩ := List.eq_append_cons_of_mem (List.mem_reverse.2 hblank)
    have hparts : part = a.reverse ++ ' ' :: q.reverse := by
      rw [← List.reverse_reverse part, hqa]
      simp
    have hsplit : blanks ws = a.reverse ++ ' ' :: (q.reverse ++ rest) := by
      rw [hrest, hparts]
      simp
    obtain ⟨us, vs, rfl, hus, hvs, ha⟩ := blanks_eq_append h hsplit
    obtain ⟨us, u, rfl⟩ := (List.eq_nil_or_concat' us).resolve_left hus
    rw [hparts, beforeLastBlank_append (by simpa using hq), ha, blanks_concat_append,
      words_blanks]
    · refine iff_of_false (fun heq => ?_) ?_
      · simp at heq
      · rintro ⟨w, hw, -⟩
        have hlength := congrArg List.length hw
        have hpos := List.length_pos_iff.2 hvs
        simp at hlength
        omega
    · intro w hw
      rcases List.mem_append.1 hw with hw | hw
      · exact h w (by simp [hw])
      · obtain rfl := List.mem_singleton.1 hw
        obtain ⟨hne, hall⟩ := h u (by simp)
        refine ⟨by simp, fun c hc => ?_⟩
        rcases List.mem_append.1 hc with hc | hc
        · exact hall c hc
        · have hdots : ("...".toList.all fun c => !isWhitespace c) = true := by decide
          simpa using List.all_eq_true.1 hdots c hc
  · rw [beforeLastBlank_of_not_mem hblank]
    have hword : IsWord (part ++ "...".toList) := by
      refine ⟨by simp, fun c hc => ?_⟩
      rcases List.mem_append.1 hc with hc | hc
      · by_contra hspace
        have hin : c ∈ blanks ws := by
          rw [hrest]
          exact List.mem_append_left _ hc
        rw [Bool.not_eq_false] at hspace
        exact hblank (eq_blank_of_mem_blanks h hin hspace ▸ hc)
      · have hdots : ("...".toList.all fun c => !isWhitespace c) = true := by decide
        simpa using List.all_eq_true.1 hdots c hc
    rw [words_word hword]
    constructor
    · rintro rfl
      refine ⟨part, rfl, ?_⟩
      have hdots : rest = "...".toList := by
        have hall : blanks [part ++ "...".toList] = part ++ "...".toList := by simp [blanks]
        rw [hall] at hrest
        exact (List.append_cancel_left hrest).symm
      have hlt := hnext '.' ['.', '.'] hdots
      have hsize : '.'.utf8Size = 1 := rfl
      omega
    · rintro ⟨w, rfl, rfl⟩
      have hall : blanks [w ++ "...".toList] = w ++ "...".toList := by simp [blanks]
      rw [hall, takeWithin_append] at hpart
      rw [hpart]

/-- **What a text without markup keeps.** -/
theorem splitWhitespace_htmlToText_iff {html : String} (h : NoMarkup html) (maxLength : ℕ) :
    splitWhitespace (htmlToText html maxLength) = splitWhitespace html ↔ Fits maxLength html := by
  have hwords : ∀ w ∈ words html.toList, IsWord w := isWord_of_mem_words
  have hinj : Function.Injective (List.map String.ofList) :=
    List.map_injective_iff.2 fun _ _ => String.ofList_injective
  rw [htmlToText_of_noMarkup h, clip, Fits, splitWhitespace, splitWhitespace, hinj.eq_iff,
    String.toList_ofList]
  split
  · rename_i hlong
    rw [String.toList_append, String.toList_ofList, words_clipped_iff hwords hlong]
    exact (or_iff_right (not_le.2 hlong)).symm
  · rename_i hfits
    rw [String.toList_ofList, words_blanks hwords]
    exact iff_of_true rfl (.inl (not_lt.1 hfits))

end Clip

/-- **When an escaped text comes back, and a text without markup is kept.** -/
theorem faithful_iff (t html : String) (maxLength : ℕ) :
    (replaceEach entities (escapeHtml t) = t ∧
      (NoMarkup html →
        Text.splitWhitespace (htmlToText html maxLength) = Text.splitWhitespace html)) ↔
    (∀ e ∈ ["&lt;", "&gt;", "&quot;", "&#39;"], Text.contains t e = false) ∧
      (NoMarkup html → Fits maxLength html) := by
  rw [decode_escape_eq_iff]
  exact and_congr_right' (forall_congr' fun h => splitWhitespace_htmlToText_iff h maxLength)

/-- A text about an entity is not what it was. -/
theorem entity_decoded_twice :
    escapeHtml "&lt;" = "&amp;lt;" ∧ replaceEach entities (escapeHtml "&lt;") = "<" ∧
      replaceEach entities (escapeHtml "&lt;") ≠ "&lt;" := by
  decide +kernel

end WebFetch

end PeerClaw
