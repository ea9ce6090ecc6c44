import PeerClaw.Crew.Orchestrator
import PeerClaw.Lib.Substitution

/-!
# Templates, substituted at once

The placeholders of a template should be replaced at once: what came from a value is not searched
again, and the order of the keys does not matter.  The four functions that fill in templates
replace one key after the other.

* `simultaneous` — the placeholders replaced at once.
* `Orderless` — the templates and values with which it makes no difference.
* `substituted_once` — with these the four functions replace at once.
* `value_substituted` — a value with a placeholder in it.
-/

namespace PeerClaw

open Lib Substitution

/-- The placeholder of a key in a context, a crew or a prompt. -/
def braced (key : String) : String := "\x7b" ++ key ++ "\x7d"

/-- The placeholder of a key of the inputs. -/
def dollarBraced (key : String) : String := "$\x7b" ++ key ++ "\x7d"

/-- What the placeholders of some keys stand for. -/
def rules (pattern : String → String) (pairs : List (String × String)) : List Rule :=
  pairs.map fun pair => ((pattern pair.1).toList, pair.2.toList)

/-- The template with its placeholders replaced, from left to right and once. -/
def simultaneous (pattern : String → String) (template : String) (pairs : List (String × String)) :
    String :=
  String.ofList (once (rules pattern pairs) 0 template.toList)

/-- What the keys of an object stand for. -/
def fieldTexts (fields : Fields) : List (String × String) :=
  fields.map fun field => (field.1, valueToString field.2)

/-- No two placeholders of the template overlap, and in whatever order the keys are taken, none of
their placeholders is found at a place that touches a value that has been put in. -/
def Unmixed (pattern : String → String) (template : String) (pairs : List (String × String)) :
    Prop :=
  Orderless (rules pattern pairs) template.toList

instance (pattern : String → String) (template : String) (pairs : List (String × String)) :
    Decidable (Unmixed pattern template pairs) := by
  unfold Unmixed
  infer_instance

section Replacements

variable {pattern : String → String} {template : String} {pairs pairs' : List (String × String)}

theorem foldl_replace :
    pairs.foldl (fun s pair => Text.replace s (pattern pair.1) pair.2) template =
      String.ofList (inOrder (rules pattern pairs) template.toList) := by
  induction pairs generalizing template with
  | nil => exact String.ofList_toList.symm
  | cons pair pairs ih =>
      rw [List.foldl_cons, ih, Text.replace, String.toList_ofList]
      rfl

/-- **One key after the other, in any order, is at once** where placeholders and values do not
mix. -/
theorem foldl_replace_eq (hpattern : ∀ key, pattern key ≠ "") (h : Unmixed pattern template pairs)
    (hperm : pairs'.Perm pairs) :
    pairs'.foldl (fun s pair => Text.replace s (pattern pair.1) pair.2) template =
      simultaneous pattern template pairs := by
  have hne : ∀ r ∈ rules pattern pairs, r.1 ≠ [] := by
    intro r hr
    obtain ⟨pair, -, rfl⟩ := List.mem_map.1 hr
    exact fun hnil => hpattern pair.1 (String.toList_eq_nil_iff.1 hnil)
  have hrules : (rules pattern pairs').Perm (rules pattern pairs) := hperm.map _
  rw [foldl_replace, inOrder_eq_once hne h hrules]
  rfl

theorem braced_ne_empty (key : String) : braced key ≠ "" := by
  intro h
  have hlist := congrArg String.toList h
  simp [braced] at hlist

theorem dollarBraced_ne_empty (key : String) : dollarBraced key ≠ "" := by
  intro h
  have hlist := congrArg String.toList h
  simp [dollarBraced] at hlist

theorem interpolateContext_eq : interpolateContext = interpolateWith braced := rfl

theorem interpolateInputs_eq : interpolateInputs = interpolateWith dollarBraced := rfl

theorem interpolateTemplate_eq : interpolateTemplate = interpolateWith braced := rfl

theorem subst_eq (template : String) (pairs : List (String × String)) : subst template pairs =
    pairs.foldl (fun s pair => Text.replace s (braced pair.1) pair.2) template := rfl

theorem interpolateWith_object (hpattern : ∀ key, pattern key ≠ "") {fields fields' : Fields}
    (h : Unmixed pattern template (fieldTexts fields)) (hperm : fields'.Perm fields) :
    interpolateWith pattern template (.object fields') =
      simultaneous pattern template (fieldTexts fields) := by
  rw [← foldl_replace_eq hpattern h (hperm.map fun field => (field.1, valueToString field.2)),
    List.foldl_map]
  rfl

end Replacements

/-- **When templates are substituted at once.**  Where placeholders and values do not mix, a
template of a flow or a crew with an object, and a prompt with some pairs, is the template in which
each placeholder has been replaced, from left to right and once; and in whatever order the keys
come. -/
theorem substituted_once (template : String) (fields : Fields) (pairs : List (String × String)) :
    (Unmixed braced template (fieldTexts fields) → ∀ fields', fields'.Perm fields →
      interpolateContext template (.object fields') =
        simultaneous braced template (fieldTexts fields) ∧
      interpolateTemplate template (.object fields') =
        simultaneous braced template (fieldTexts fields)) ∧
    (Unmixed dollarBraced template (fieldTexts fields) → ∀ fields', fields'.Perm fields →
      interpolateInputs template (.object fields') =
        simultaneous dollarBraced template (fieldTexts fields)) ∧
    (Unmixed braced template pairs → ∀ pairs', pairs'.Perm pairs →
      subst template pairs' = simultaneous braced template pairs) := by
  refine ⟨fun h fields' hperm => ?_, fun h fields' hperm => ?_, fun h pairs' hperm => ?_⟩
  · rw [interpolateContext_eq, interpolateTemplate_eq]
    exact ⟨interpolateWith_object braced_ne_empty h hperm,
      interpolateWith_object braced_ne_empty h hperm⟩
  · rw [interpolateInputs_eq]
    exact interpolateWith_object dollarBraced_ne_empty h hperm
  · rw [subst_eq]
    exact foldl_replace_eq braced_ne_empty h hperm

/-- A greeting and a name. -/
theorem substituted_once_greeting :
    interpolateContext "\x7bgreeting\x7d, \x7bname\x7d!"
      (.object [("name", .string "bob"), ("greeting", .string "hello")]) = "hello, bob!" := by
  have hunmixed : Unmixed braced "\x7bgreeting\x7d, \x7bname\x7d!"
      (fieldTexts [("greeting", .string "hello"), ("name", .string "bob")]) := by decide +kernel
  have hperm : List.Perm [("name", Value.string "bob"), ("greeting", .string "hello")]
      [("greeting", .string "hello"), ("name", .string "bob")] := List.Perm.swap _ _ _
  rw [((substituted_once _ _ []).1 hunmixed _ hperm).1]
  decide

/-- The value of a key has the placeholder of a later one in it; in a prompt, where the order is
the caller's, another order has another result. -/
theorem value_substituted :
    interpolateContext "\x7ba\x7d" (.object [("a", .string "\x7bb\x7d"), ("b", .string "x")]) ≠
      simultaneous braced "\x7ba\x7d" [("a", "\x7bb\x7d"), ("b", "x")] ∧
    interpolateInputs "$\x7ba\x7d" (.object [("a", .string "$\x7bb\x7d"), ("b", .string "x")]) ≠
      simultaneous dollarBraced "$\x7ba\x7d" [("a", "$\x7bb\x7d"), ("b", "x")] ∧
    subst "\x7ba\x7d" [("a", "\x7bb\x7d"), ("b", "x")] ≠
      subst "\x7ba\x7d" [("b", "x"), ("a", "\x7bb\x7d")] := by
  refine ⟨?_, ?_, ?_⟩ <;> decide

end PeerClaw
