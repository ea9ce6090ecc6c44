import PeerClaw.Flow.Interpolation
import PeerClaw.Flow.Structure
import PeerClaw.ReadJson

/-!
# Values put into a JSON template

The arguments of an MCP tool and the object of a transform are templates of JSON documents.  The
values of the context are put in before the document is read, and as they are: with a quote, a
backslash or a line feed in it, a value ends the string that it is put into, or makes it no string.

* `harmless` — no placeholder is found but in a string that is not a name or inside a value that
  has been put in, and what is put in can stand in a string.
* `interpolated_object` — the object then has the fields of the template, with values that differ
  only where a placeholder stood.
* `field_injected` — a value with quotes in it adds a field.
-/

namespace PeerClaw

open Lib Substitution JsonText JsonReader

/-- What the placeholders of a template stand for in a context. -/
def contextRules (context : Value) : List Rule :=
  rules braced (fieldTexts (context.asObject.getD []))

/-- The pieces of a template.  What may be filled in are the strings that are not names. -/
def fillable : List Piece → List Cell
  | [] => []
  | .out c :: ps => .value [c] :: fillable ps
  | .str raw :: ps =>
      .value ['"'] :: ((if named ps then raw.map fun c => .value [c] else blank raw) ++
        .value ['"'] :: fillable ps)

/-- What is put in for a placeholder that is found can stand in a string. -/
def legalAlong : List Rule → List Cell → Bool
  | [], _ => true
  | r :: rules, cells =>
      (decide (Legal r.2) || decide (refill r cells = cells)) && legalAlong rules (refill r cells)

/-- Every placeholder that is found, while one after the other is replaced, is in a string of the
template that is not a name, or inside a value that has been put in; and what is put in for it can
stand in a string. -/
def harmless (template : String) (context : Value) : Bool :=
  match pieces template.toList with
  | none => true
  | some ps =>
      tidyAlong (contextRules context) (fillable ps) &&
        legalAlong (contextRules context) (fillable ps)

/-- A placeholder, as it is read in a string. -/
def IsPlaceholder (context : Value) (placeholder : List Char) : Prop :=
  ∃ p, (∃ r ∈ contextRules context, r.1 = p) ∧ decode p = some placeholder

/-- Two strings differ only where the first has placeholders of the context. -/
def OnlyPlaceholders (context : Value) (s t : String) : Prop :=
  DiffersAt (IsPlaceholder context) s.toList t.toList

/-- `parse` reads JSON: it takes the documents that are written as they should be. -/
def ReadsJson (number : List Char → Option Number) (parse : String → Except String Value) : Prop :=
  ∀ text v, parse text = .ok v ↔ readJson number text = some v

/-! ## Placeholders in a document -/

theorem lone_openBrace : Lone '{' := by
  refine ⟨rfl, fun s hs => ?_⟩
  cases s with
  | plain => exact absurd rfl hs
  | _ => rfl

theorem lone_closeBrace : Lone '}' := by
  refine ⟨rfl, fun s hs => ?_⟩
  cases s with
  | plain => exact absurd rfl hs
  | _ => rfl

theorem enclosed_braced (key : String) : Enclosed (braced key).toList := by
  refine ⟨'{', '}', key.toList, lone_openBrace, lone_closeBrace, ?_⟩
  simp [braced]

/-- The cells are those of a document in which some texts stand in the place of placeholders. -/
inductive Standing (P : List Char → Prop) : List Piece → List Cell → Prop
  | nil : Standing P [] []
  | out {ps : List Piece} {cs : List Cell} (c : Char) : Standing P ps cs →
      Standing P (.out c :: ps) (.value [c] :: cs)
  | name {ps : List Piece} {cs : List Cell} (raw : List Char) : Standing P ps cs →
      Standing P (.str raw :: ps)
        (.value ['"'] :: (raw.map (fun c => Cell.value [c]) ++ .value ['"'] :: cs))
  | str {ps : List Piece} {cs inner : List Cell} {raw : List Char} : named ps = false →
      FilledFrom P raw inner → (∀ v, .value v ∈ inner → Legal v) → Standing P ps cs →
      Standing P (.str raw :: ps) (.value ['"'] :: (inner ++ .value ['"'] :: cs))

section Standing

variable {P : List Char → Prop} {ps : List Piece} {cells : List Cell} {r : Rule}

theorem standing_fillable (ps : List Piece) : Standing P ps (fillable ps) := by
  induction ps with
  | nil => exact .nil
  | cons p ps ih =>
      cases p with
      | out c => exact .out c ih
      | str raw =>
          rw [fillable]
          cases hnamed : named ps with
          | true => exact .name raw ih
          | false => exact .str hnamed (filledFrom_blank raw) (by simp [blank]) ih

theorem text_fixed (raw : List Char) (cs : List Cell) :
    Substitution.text (raw.map (fun c => Cell.value [c]) ++ cs) = raw ++ Substitution.text cs := by
  induction raw with
  | nil => rfl
  | cons c raw ih => simpa [Cell.text] using ih

theorem text_fillable (ps : List Piece) : Substitution.text (fillable ps) = JsonText.text ps := by
  induction ps with
  | nil => rfl
  | cons p ps ih =>
      cases p with
      | out c => simp [fillable, Cell.text, Piece.text, ih]
      | str raw =>
          rw [fillable]
          split <;> simp [text_fixed, text_blank, Cell.text, Piece.text, ih]

theorem rewrite_singleton (hr : Enclosed r.1) (c : Char) : rewrite r [c] = [c] := by
  have hnot : ¬ r.1.isPrefixOf [c] = true := by
    obtain ⟨first, last, inner, -, -, hp⟩ := hr
    intro hprefix
    have hlength := (List.isPrefixOf_iff_prefix.1 hprefix).length_le
    rw [hp] at hlength
    simp at hlength
  rw [rewrite_cons hnot, rewrite_nil]

theorem refill_fixed (hr : Enclosed r.1) (raw : List Char) (cs : List Cell) :
    refill r (raw.map (fun c => Cell.value [c]) ++ cs) =
      raw.map (fun c => Cell.value [c]) ++ refill r cs := by
  induction raw with
  | nil => rfl
  | cons c raw ih =>
      rw [List.map_cons, List.cons_append, refill_value hr.ne_nil, rewrite_singleton hr, ih]
      rfl

/-- **One placeholder.**  The document stands. -/
theorem Standing.refill (hr : Enclosed r.1) (hP : P r.1) (hput : Legal r.2)
    (h : Standing P ps cells) : Standing P ps (refill r cells) := by
  have hrewrite : ∀ v, Legal v → Legal (rewrite r v) := fun v hv => by
    simpa using decode_rewrite (a := []) hr hput hv
  induction h with
  | nil => exact .nil
  | out c h ih =>
      rw [refill_value hr.ne_nil, rewrite_singleton hr]
      exact .out c ih
  | name raw h ih =>
      rw [refill_value hr.ne_nil, rewrite_singleton hr, refill_fixed hr, refill_value hr.ne_nil,
        rewrite_singleton hr]
      exact .name raw ih
  | str hnamed hfilled hlegal h ih =>
      rw [refill_value hr.ne_nil, rewrite_singleton hr, refill_append_value hr.ne_nil,
        rewrite_singleton hr]
      exact .str hnamed (hfilled.refill hr.ne_nil hP)
        (forall_value_refill hr.ne_nil hput hrewrite hlegal) ih

/-- **One placeholder after the other.** -/
theorem Standing.refillAll {rules : List Rule} (hrules : ∀ q ∈ rules, Enclosed q.1 ∧ P q.1)
    (hlegal : legalAlong rules cells = true) (h : Standing P ps cells) :
    Standing P ps (refillAll rules cells) := by
  induction rules generalizing cells with
  | nil => exact h
  | cons r rules ih =>
      obtain ⟨hr, hrest⟩ := List.forall_mem_cons.1 hrules
      rw [legalAlong, Bool.and_eq_true, Bool.or_eq_true, decide_eq_true_eq, decide_eq_true_eq]
        at hlegal
      have hone : Standing P ps (Substitution.refill r cells) := by
        rcases hlegal.1 with hput | hsame
        · exact h.refill hr.1 hr.2 hput
        · rw [hsame]
          exact h
      exact ih hrest hlegal.2 hone

/-- **What is written there** is a document that differs from the template in some strings. -/
theorem Standing.alike (hP : ∀ p, P p → Enclosed p) (hok : ∀ p ∈ ps, p.Ok)
    (h : Standing P ps cells) :
    ∃ qs, Alike (fun s t => DiffersAt (fun placeholder => ∃ p, P p ∧ decode p = some placeholder)
        s.toList t.toList) ps qs ∧
      (∀ q ∈ qs, q.Ok) ∧ JsonText.text qs = Substitution.text cells := by
  induction h with
  | nil => exact ⟨[], .nil, by simp, rfl⟩
  | out c h ih =>
      obtain ⟨hp, hps⟩ := List.forall_mem_cons.1 hok
      obtain ⟨qs, hlike, hqs, htext⟩ := ih hps
      exact ⟨.out c :: qs, .same _ hlike, List.forall_mem_cons.2 ⟨hp, hqs⟩,
        by simp [Piece.text, Cell.text, htext]⟩
  | name raw h ih =>
      obtain ⟨hp, hps⟩ := List.forall_mem_cons.1 hok
      obtain ⟨qs, hlike, hqs, htext⟩ := ih hps
      exact ⟨.str raw :: qs, .same _ hlike, List.forall_mem_cons.2 ⟨hp, hqs⟩,
        by simp [Piece.text, Cell.text, text_fixed, htext]⟩
  | @str ps cs inner raw hnamed hfilled hlegal h ih =>
      obtain ⟨hp, hps⟩ := List.forall_mem_cons.1 hok
      obtain ⟨qs, hlike, hqs, htext⟩ := ih hps
      obtain ⟨s, hs⟩ := Option.isSome_iff_exists.1 (show Legal raw from hp)
      obtain ⟨t, ht, hdiffers⟩ := decode_filled (a := []) hP hfilled hlegal hs
      rw [List.nil_append] at ht
      refine ⟨.str (Substitution.text inner) :: qs, ?_, ?_, ?_⟩
      · refine .varied hnamed ⟨String.ofList s, String.ofList t, ?_, ?_, ?_⟩ hlike
        · simp [stringValue, hs]
        · simp [stringValue, ht]
        · simpa using hdiffers
      · exact List.forall_mem_cons.2 ⟨Option.isSome_iff_exists.2 ⟨t, ht⟩, hqs⟩
      · simp [Piece.text, Cell.text, Substitution.text, htext]

end Standing

/-! ## Filled in and read -/

section Read

variable {number : List Char → Option Number} {template : String} {context v : Value}

theorem interpolateContext_toList (template : String) (fields : Fields) :
    (interpolateContext template (.object fields)).toList =
      inOrder (contextRules (.object fields)) template.toList := by
  have hfold : interpolateContext template (.object fields) =
      (fieldTexts fields).foldl
        (fun s pair => Text.replace s (braced pair.1) pair.2) template := by
    rw [fieldTexts, List.foldl_map]
    rfl
  rw [hfold, foldl_replace, String.toList_ofList]
  rfl

theorem enclosed_contextRules : ∀ r ∈ contextRules context, Enclosed r.1 := by
  intro r hr
  obtain ⟨pair, -, rfl⟩ := List.mem_map.1 hr
  exact enclosed_braced pair.1

/-- **A template that is filled in harmlessly** is read as a value that differs from the template's
only where placeholders stood. -/
theorem readJson_interpolated {fields : Fields} (hread : readJson number template = some v)
    (h : harmless template (.object fields) = true) :
    ∃ w, readJson number (interpolateContext template (.object fields)) = some w ∧
      Value.Varies (OnlyPlaceholders (.object fields)) v w := by
  obtain ⟨ps, hps, hread⟩ := Option.bind_eq_some_iff.1 hread
  obtain ⟨hok, htext⟩ := text_pieces hps
  rw [harmless, hps] at h
  obtain ⟨htidy, hlegal⟩ := Bool.and_eq_true_iff.1 h
  have hstanding : Standing (fun p => ∃ q ∈ contextRules (.object fields), q.1 = p) ps
      (refillAll (contextRules (.object fields)) (fillable ps)) :=
    (standing_fillable ps).refillAll
      (fun r hr => ⟨enclosed_contextRules r hr, r, hr, rfl⟩) hlegal
  have henclosed : ∀ p, (∃ q ∈ contextRules (.object fields), q.1 = p) → Enclosed p := by
    rintro p ⟨q, hq, rfl⟩
    exact enclosed_contextRules q hq
  obtain ⟨qs, hlike, hqs, hwritten⟩ := hstanding.alike henclosed hok
  obtain ⟨w, hw, hvaries⟩ := read_alike hlike .value .nil hread
  refine ⟨w, ?_, hvaries⟩
  have hchars : (interpolateContext template (.object fields)).toList = JsonText.text qs := by
    rw [interpolateContext_toList, ← htext, ← text_fillable, hwritten,
      inOrder_eq_refillAll (fun r hr => (enclosed_contextRules r hr).ne_nil) htidy]
  rw [readJson, hchars, readChars, pieces_text hqs]
  exact hw

/-- A value that differs from an object in some strings is an object with the same fields. -/
theorem Value.Varies.of_object {R : String → String → Prop} {fs : Fields} {w : Value}
    (h : Value.Varies R (.object fs) w) : ∃ gs, w = .object gs ∧ Fields.Vary R fs gs := by
  cases h with
  | same =>
      refine ⟨fs, rfl, rfl, ?_⟩
      exact List.forall₂_same.2 fun v _ => .same v
  | object hnames hvalues => exact ⟨_, rfl, hnames, hvalues⟩

end Read

/-! ## The two templates of a flow -/

/-- **What becomes of a JSON template.**  Where the values of the context are put in harmlessly,
the arguments of an MCP tool and the object of a transform have the fields of their templates, and
values that differ from the templates' only where placeholders stood. -/
theorem interpolated_object {χ : Type} {number : List Char → Option Number} {w : FlowWorld}
    (hreads : ReadsJson number w.parseJson) (inputs : Value) (st : FlowState) (n : FlowNode χ) :
    (∀ fs, w.parseJson n.mcpArgumentsJson = .ok (.object fs) →
      harmless n.mcpArgumentsJson (buildTemplateContext inputs st.outputs) = true →
      ∃ gs, mcpArguments w inputs st n = .ok (.object gs) ∧
        Fields.Vary (OnlyPlaceholders (buildTemplateContext inputs st.outputs)) fs gs) ∧
    (∀ fs, w.parseJson n.transformObjectJson = .ok (.object fs) →
      harmless (Text.trim n.transformObjectJson) (buildTemplateContext inputs st.outputs) = true →
      ∃ gs out, transformObject w inputs st n = .ok (gs, out) ∧
        Fields.Vary (OnlyPlaceholders (buildTemplateContext inputs st.outputs)) fs gs) := by
  constructor
  · intro fs hparse hharmless
    have hread := (hreads _ _).1 hparse
    obtain ⟨v, hv, hvaries⟩ := readJson_interpolated hread hharmless
    obtain ⟨gs, rfl, hvary⟩ := hvaries.of_object
    refine ⟨gs, ?_, hvary⟩
    have hinterpolated : readJson number (interpolateContext n.mcpArgumentsJson
        (buildTemplateContext inputs st.outputs)) = some (.object gs) := hv
    simp only [mcpArguments, if_neg (trim_ne_empty hinterpolated),
      (hreads _ _).2 hinterpolated]
    rfl
  · intro fs hparse hharmless
    have hread := readJson_trim ((hreads _ _).1 hparse)
    obtain ⟨v, hv, hvaries⟩ := readJson_interpolated hread hharmless
    obtain ⟨gs, rfl, hvary⟩ := hvaries.of_object
    refine ⟨gs, .ofFields [("mode", .string "object"), ("keys", .texts (gs.map Prod.fst))], ?_,
      hvary⟩
    have hinterpolated : readJson number (interpolateContext (Text.trim n.transformObjectJson)
        (buildTemplateContext inputs st.outputs)) = some (.object gs) := hv
    simp only [transformObject, (hreads _ _).2 hinterpolated]
    rfl

section Example

/-- A world that reads JSON without numbers, and in which nothing else can be asked. -/
private def readingWorld : FlowWorld :=
  { FlowRun.silentWorld with
    parseJson := fun text =>
      match readJson (fun _ => none) text with
      | some v => .ok v
      | none => .error "expected value" }

private theorem readsJson_readingWorld : ReadsJson (fun _ => none) readingWorld.parseJson := by
  intro text v
  simp only [readingWorld]
  cases readJson (fun _ => none) text <;> simp

private def started : FlowState := ⟨none, [], [], ∅, [], 0, none⟩

/-- A template with a placeholder in a string. -/
private def searching : FlowNode Empty :=
  { id := "n"
    kind := "mcp"
    mcpArgumentsJson := "\x7b\"q\": \"about \x7bx\x7d\"\x7d"
    transformObjectJson := "\x7b\"q\": \"about \x7bx\x7d\"\x7d" }

private def asked (x : String) : Value := .object [("x", .string x)]

private theorem searching_template : readingWorld.parseJson searching.mcpArgumentsJson =
    .ok (.object [("q", .string "about \x7bx\x7d")]) := by
  rfl

/-- A value with an escape in it. -/
theorem interpolated_object_escape :
    ∃ gs, mcpArguments readingWorld (asked "a\\nb") started searching = .ok (.object gs) ∧
      gs.map Prod.fst = ["q"] := by
  have hharmless : harmless searching.mcpArgumentsJson
      (buildTemplateContext (asked "a\\nb") started.outputs) = true := by decide +kernel
  obtain ⟨gs, hgs, hvary⟩ := (interpolated_object readsJson_readingWorld (asked "a\\nb") started
    searching).1 _ searching_template hharmless
  exact ⟨gs, hgs, hvary.1.symm⟩

/-- **A value adds a field**, to the arguments and to an object; and another one leaves no
document. -/
theorem field_injected :
    readingWorld.parseJson searching.mcpArgumentsJson =
        .ok (.object [("q", .string "about \x7bx\x7d")]) ∧
      mcpArguments readingWorld (asked "a\",\"admin\":\"yes") started searching =
        .ok (.object [("admin", .string "yes"), ("q", .string "about a")]) ∧
      transformObject readingWorld (asked "a\",\"admin\":\"yes") started searching =
        .ok ([("admin", .string "yes"), ("q", .string "about a")],
          .ofFields [("mode", .string "object"), ("keys", .texts ["admin", "q"])]) ∧
      ∀ v, mcpArguments readingWorld (asked "a \"b\" c") started searching ≠ .ok v := by
  refine ⟨rfl, rfl, rfl, ?_⟩
  have hfails : mcpArguments readingWorld (asked "a \"b\" c") started searching =
      .error (.failed "node n: mcp_arguments_json must be JSON object: expected value") := rfl
  rw [hfails]
  intro v hv
  cases hv

end Example

end PeerClaw
