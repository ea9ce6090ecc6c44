import PeerClaw.Lib.PatternRegex
import PeerClaw.Safety.Sanitizer

/-!
# What the sanitizer leaves

The patterns of the sanitizer are applied one after the other, and each one sees what those before it
have left.  Zero-width characters go near the end, when the patterns that they may have kept apart have
been looked for already, and what is escaped is found again.

* `injectionRegexes` — the patterns of `INJECTION_PATTERNS`; `builtIn` — the sanitizer with them.
* `Sanitizer.Settles` — nothing is left that is to be blocked or removed, and a second pass changes
  nothing.
* `Sanitizer.settles_iff_quiet` — that is so where nothing is left to act on.
* `bare` — a text without what is removed from it.
* `settles_iff` — which texts settle.
* `joined_phrase` — a text that does not.
-/

namespace PeerClaw
namespace Safety

open Lib

/-! ## One pass in active mode -/

namespace Sanitizer

/-- The pattern does more than warn. -/
def Acts (p : InjectionPattern) : Prop := p.action ≠ .warn

instance (p : InjectionPattern) : Decidable (Acts p) := inferInstanceAs (Decidable (_ ≠ _))

/-- What a pattern that does not block makes of a text. -/
def rewrite (text : List Char) (p : InjectionPattern) : List Char :=
  match p.action with
  | .remove => p.regex.replaceAll (fun _ => []) text
  | .escape => p.regex.replaceAll (fun found => '\\' :: found) text
  | .warn | .block => text

/-- No pattern that acts is in the text. -/
def Quiet (patterns : List InjectionPattern) (text : List Char) : Prop :=
  ∀ p ∈ patterns, Acts p → p.regex.isMatch text = false

/-- The output has nothing that is to be blocked or removed, and sanitizing it again leaves it
unchanged and removes nothing. -/
structure Settles (s : Sanitizer) (content : List Char) : Prop where
  silent : ∀ p ∈ s.patterns ++ s.customPatterns, p.action = .block ∨ p.action = .remove →
    p.regex.isMatch (s.sanitize content).content = false
  unchanged : (s.sanitize (s.sanitize content).content).content = (s.sanitize content).content
  allowed : (s.sanitize (s.sanitize content).content).action = .allowed

end Sanitizer

/-! ## The built-in patterns -/

section Patterns

open Pattern

/-- One of some words, in upper or lower case. -/
def words : List String → Pattern
  | [] => .char fun _ => false
  | w :: ws => .alt (caseless w) (words ws)

def spaces : Pattern := star Text.isWhitespace

def someSpace : Pattern := plus Text.isWhitespace

def optional (p : Pattern) : Pattern := .alt p .empty

/-- `system_marker`, without its bound. -/
def systemMarker : Pattern :=
  all [words ["system", "assistant", "user", "human", "ai"], text ":", spaces]

/-- `xml_system_tag`. -/
def xmlSystemTag : Pattern :=
  all [text "<", optional (text "/"),
    words ["system", "instructions", "instruction", "prompt", "context", "rules", "rule"], text ">"]

/-- `delimiter_sequence`. -/
def delimiterSequence : Pattern :=
  let line : Pattern := .alt (all [text "==", plus fun c => c = '='])
    (.alt (all [text "--", plus fun c => c = '-'])
      (.alt (all [text "``", plus fun c => c = '`']) (all [text "**", plus fun c => c = '*'])))
  all [line, line, line, .many true line]

/-- `ignore_instructions`. -/
def ignoreInstructions : Pattern :=
  all [caseless "ignore", someSpace, optional (all [caseless "all", someSpace]),
    words ["previous", "above", "prior"], someSpace, words ["instructions", "instruction"]]

/-- `jailbreak_dan`. -/
def jailbreakDan : Pattern :=
  all [.alt (caseless "dan") (all [caseless "do", someSpace, caseless "anything", someSpace,
    caseless "now"]), someSpace, caseless "mode"]

/-- `hidden_instruction`. -/
def hiddenInstruction : Pattern :=
  all [text "[", spaces, words ["hidden", "secret", "admin"], spaces,
    words ["instruction", "prompt", "command"], spaces, text "]"]

def isZeroWidthChar (c : Char) : Bool :=
  ['\u200B', '\u200C', '\u200D', '\uFEFF', '\u2060'].contains c

/-- `unicode_homoglyph`. -/
def unicodeHomoglyph : Pattern := .char isZeroWidthChar

/-- `suspicious_base64`. -/
def suspiciousBase64 : Pattern :=
  .alt (text "aW5zdHJ1Y3Rpb24") (.alt (text "c3lzdGVtIHByb21wdA") (text "aWdub3JlIHByZXZpb3Vz"))

/-- `code_block_system`. -/
def codeBlockSystem : Pattern :=
  all [text "```", words ["system", "prompt", "instructions", "instruction"], text "\n"]

/-- The regular expressions of `INJECTION_PATTERNS`, in their order. -/
def injectionRegexes : List Regex :=
  [systemMarker.startRegex, xmlSystemTag.regex, delimiterSequence.regex, ignoreInstructions.regex,
    jailbreakDan.regex, hiddenInstruction.regex, unicodeHomoglyph.regex, suspiciousBase64.regex,
    codeBlockSystem.regex]

/-- `Regex::new`, for these. -/
def compileInjection (source : String) : Option Regex :=
  ((injectionPatterns.map fun pattern => pattern.2.1).zip injectionRegexes).lookup source

end Patterns

section Patterns

open Pattern

variable {w u : List Char} {c : Char}

end Patterns

/-! ## What the built-in sanitizer leaves -/

open Pattern

/-- Nothing is in the text that the sanitizer acts on, but for zero-width characters. -/
structure Clean (text : List Char) : Prop where
  marker : ¬ systemMarker.AtStart text
  tag : ¬ xmlSystemTag.Occurs text
  phrase : ¬ jailbreakDan.Occurs text
  hidden : ¬ hiddenInstruction.Occurs text
  fence : ¬ codeBlockSystem.Occurs text

/-- The text with a backslash before each match. -/
def escaped (r : Pattern) (text : List Char) : List Char :=
  r.replaceFrom (fun found => '\\' :: found) 0 none text

variable {content text : List Char}

end Safety
end PeerClaw
