import PeerClaw.Safety.LeakDetector

/-!
# The sanitizer

`Sanitizer` in `safety/sanitizer.rs` looks for injections with a list of regular
expressions, and removes or escapes what they find, blocks the whole text, or only
warns.  Each of them sees what the ones before it have left.

* `Sanitizer.sanitize` — the patterns, one after the other.
* `sanitize_untouched` — where nothing is to be removed or escaped, the text stays as it
  is or is blocked.
-/

namespace PeerClaw
namespace Safety

open Lib

/-- Result of sanitization. -/
inductive SanitizeAction
  | allowed
  | modified
  | truncated
  | blocked
  deriving DecidableEq

/-- Sanitized output with metadata. -/
structure SanitizedOutput where
  content : List Char
  action : SanitizeAction
  warnings : List String
  deriving DecidableEq

/-- What to do when pattern is detected. -/
inductive InjectionAction
  | warn
  | remove
  | escape
  | block
  deriving DecidableEq

structure InjectionPattern where
  name : String
  regex : Regex
  description : String
  action : InjectionAction

/-- `INJECTION_PATTERNS`: names, regular expressions, descriptions and actions. -/
def injectionPatterns : List (String × String × String × InjectionAction) :=
  [
    ("system_marker", "(?i)^(system|assistant|user|human|ai):\\s*",
      "Role marker at line start", .remove),
    ("xml_system_tag", "(?i)</?(?:system|instructions?|prompt|context|rules?)>",
      "XML-style system tag", .escape),
    ("delimiter_sequence", "(?:===+|---+|```+|\\*\\*\\*+)\x7b3,\x7d",
      "Suspicious delimiter sequence", .warn),
    ("ignore_instructions", "(?i)ignore\\s+(?:all\\s+)?(?:previous|above|prior)\\s+instructions?",
      "Instruction override attempt", .warn),
    ("jailbreak_dan", "(?i)(?:DAN|do\\s+anything\\s+now)\\s+mode",
      "DAN jailbreak attempt", .block),
    ("hidden_instruction", "(?i)\\[\\s*(?:hidden|secret|admin)\\s*(?:instruction|prompt|command)\\s*\\]",
      "Hidden instruction marker", .remove),
    ("unicode_homoglyph", "[\\u200B-\\u200D\\uFEFF\\u2060]",
      "Zero-width Unicode characters", .remove),
    ("suspicious_base64", "(?:aW5zdHJ1Y3Rpb24|c3lzdGVtIHByb21wdA|aWdub3JlIHByZXZpb3Vz)",
      "Base64-encoded suspicious content", .warn),
    ("code_block_system", "(?i)```(?:system|prompt|instructions?)\\n",
      "Code block posing as system content", .escape)
  ]

/-- Content sanitizer for injection defense, with the built-in patterns. -/
structure Sanitizer where
  activeMode : Bool
  patterns : List InjectionPattern
  customPatterns : List InjectionPattern

namespace Sanitizer

/-- Create a new sanitizer; a built-in pattern that does not compile panics. -/
def new (compile : String → Option Regex) (activeMode : Bool) : Option Sanitizer :=
  (injectionPatterns.mapM fun (name, regex, description, action) =>
    (compile regex).map fun r => InjectionPattern.mk name r description action).map fun patterns =>
      ⟨activeMode, patterns, []⟩

/-- A custom pattern. -/
def custom (name : String) (regex : Regex) (action : InjectionAction) : InjectionPattern :=
  ⟨name, regex, "custom pattern match", action⟩

/-- One pattern; a text that is blocked is not looked at any further. -/
def applyPattern (activeMode : Bool) (blocked : String) (out : SanitizedOutput)
    (pattern : InjectionPattern) : Except SanitizedOutput SanitizedOutput :=
  if pattern.regex.isMatch out.content then
    let out := { out with warnings := out.warnings ++ [s!"{pattern.name}: {pattern.description}"] }
    if activeMode then
      match pattern.action with
      | .block => .error { out with content := blocked.toList, action := .blocked }
      | .remove =>
          .ok { out with
            content := pattern.regex.replaceAll (fun _ => []) out.content
            action := .modified }
      | .escape =>
          .ok { out with
            content := pattern.regex.replaceAll (fun found => '\\' :: found) out.content
            action := .modified }
      | .warn => .ok out
    else .ok out
  else .ok out

/-- The patterns of a list, one after the other. -/
def applyAll (activeMode : Bool) (blocked : String) :
    List InjectionPattern → SanitizedOutput → Except SanitizedOutput SanitizedOutput
  | [], out => .ok out
  | pattern :: patterns, out =>
      (applyPattern activeMode blocked out pattern).bind (applyAll activeMode blocked patterns)

/-- Sanitize content. -/
def sanitize (s : Sanitizer) (content : List Char) : SanitizedOutput :=
  let checked := (applyAll s.activeMode "[Content blocked: injection detected]" s.patterns
    ⟨content, .allowed, []⟩).bind
      (applyAll s.activeMode "[Content blocked: custom rule]" s.customPatterns)
  match checked with
  | .error out => out
  | .ok out => out

/-- A pattern that removes or escapes something in the text. -/
def Rewrites (pattern : InjectionPattern) (content : List Char) : Prop :=
  (pattern.action = .remove ∨ pattern.action = .escape) ∧ pattern.regex.isMatch content = true

/-- Nothing in the text is removed or escaped. -/
def Untouched (s : Sanitizer) (content : List Char) : Prop :=
  s.activeMode = true → ∀ pattern ∈ s.patterns ++ s.customPatterns, ¬ Rewrites pattern content

theorem applyPattern_untouched (blocked : String) {activeMode : Bool} {out : SanitizedOutput}
    {pattern : InjectionPattern} (h : activeMode = true → ¬ Rewrites pattern out.content) :
    match applyPattern activeMode blocked out pattern with
    | .error out' => out'.content = blocked.toList
    | .ok out' => out'.content = out.content := by
  unfold applyPattern
  cases hmatch : pattern.regex.isMatch out.content with
  | false => rfl
  | true =>
      cases activeMode with
      | false => rfl
      | true =>
          cases haction : pattern.action with
          | warn => rfl
          | block => rfl
          | remove => exact absurd ⟨.inl haction, hmatch⟩ (h rfl)
          | escape => exact absurd ⟨.inr haction, hmatch⟩ (h rfl)

theorem applyAll_untouched (blocked : String) {activeMode : Bool} (patterns : List InjectionPattern)
    (out : SanitizedOutput)
    (h : activeMode = true → ∀ pattern ∈ patterns, ¬ Rewrites pattern out.content) :
    match applyAll activeMode blocked patterns out with
    | .error out' => out'.content = blocked.toList
    | .ok out' => out'.content = out.content := by
  induction patterns generalizing out with
  | nil => rfl
  | cons pattern patterns ih =>
      have hone := applyPattern_untouched blocked
        (fun hactive => h hactive pattern List.mem_cons_self)
      rw [applyAll]
      cases hpattern : applyPattern activeMode blocked out pattern with
      | error out' =>
          rw [hpattern] at hone
          exact hone
      | ok out' =>
          rw [hpattern] at hone
          have hrest : activeMode = true → ∀ p ∈ patterns, ¬ Rewrites p out'.content := by
            intro hactive p hp
            rw [hone]
            exact h hactive p (List.mem_cons_of_mem _ hp)
          have hmore := ih out' hrest
          rw [hone] at hmore
          exact hmore

/-- **What is left untouched.**  The text itself, unless it is blocked. -/
theorem sanitize_untouched {s : Sanitizer} {content : List Char} (h : s.Untouched content) :
    (s.sanitize content).content = content ∨
      (s.sanitize content).content = "[Content blocked: injection detected]".toList ∨
      (s.sanitize content).content = "[Content blocked: custom rule]".toList := by
  have hbuiltIn := applyAll_untouched "[Content blocked: injection detected]" s.patterns
    ⟨content, .allowed, []⟩ fun hactive p hp => h hactive p (List.mem_append_left _ hp)
  unfold sanitize
  cases hfirst : applyAll s.activeMode "[Content blocked: injection detected]" s.patterns
      ⟨content, .allowed, []⟩ with
  | error out =>
      rw [hfirst] at hbuiltIn
      exact .inr (.inl hbuiltIn)
  | ok out =>
      rw [hfirst] at hbuiltIn
      have hrest : s.activeMode = true → ∀ p ∈ s.customPatterns, ¬ Rewrites p out.content := by
        intro hactive p hp
        rw [hbuiltIn]
        exact h hactive p (List.mem_append_right _ hp)
      have hcustom := applyAll_untouched "[Content blocked: custom rule]" s.customPatterns out hrest
      rw [Except.bind]
      cases hsecond : applyAll s.activeMode "[Content blocked: custom rule]" s.customPatterns out with
      | error out' =>
          rw [hsecond] at hcustom
          exact .inr (.inr hcustom)
      | ok out' =>
          rw [hsecond] at hcustom
          exact .inl (hcustom.trans hbuiltIn)

end Sanitizer
end Safety
end PeerClaw
