import PeerClaw.Inference.Generate
import PeerClaw.Lib.Action
import PeerClaw.Lib.Chunks
import PeerClaw.Lib.Text
import PeerClaw.Lib.Utf8

/-!
# Generation with llama.cpp

`LlamaCppBackend::generate` and `generate_streaming` in `inference/gguf.rs`.  The prompt is fed to
the context in batches, and then one token after another is sampled, appended to the text and
fed back, until the model ends, the text ends in a stop sequence, or there are enough tokens.
The two functions are the same, but for the callback of the second.

* `Llama` — what llama.cpp does.
* `generateLoop` — the loop; `LlamaCppBackend.generate`, `generateStreaming`.
* `generateLoop_ends` — where it ends, and what it has done by then.
* `staysInside_iff` — when no position beyond the context is decoded; `context_overrun`.
-/

namespace PeerClaw
namespace Inference
namespace Gguf

open Lib

/-! ## The backend -/

/-- What of the configuration a generation reads. -/
structure GgufConfig where
  /-- Context size. -/
  nCtx : UInt32
  /-- Batch size for prompt processing. -/
  nBatch : UInt32

/-- The errors of a generation. -/
inductive GgufError
  | tokenizationFailed (message : String)
  | generationFailed (message : String)
  | contextSizeExceeded (max requested : UInt32)
  deriving DecidableEq

inductive FinishReason
  | stop
  | length
  deriving DecidableEq

/-- What ended the loop. -/
inductive Ending
  | endToken
  | stopSequence
  | maxTokens
  deriving DecidableEq

/-- What llama.cpp does in one generation. -/
structure Llama (Token : Type) where
  newContext : Except String Unit
  strToToken : String → Except String (List Token)
  isEogToken : Token → Bool
  tokenToPieceBytes : Token → Option (List UInt8)
  /-- The tokens that are sampled, in order. -/
  sample : ℕ → Token
  /-- A batch is decoded, by the positions of its tokens. -/
  decode : List Int32 → Except String Unit

/-- The response, without times. -/
structure GgufResponse where
  text : List Char
  tokensGenerated : UInt32
  finishReason : FinishReason
  deriving DecidableEq

/-- What a generation leaves. -/
structure GgufRun where
  outcome : Outcome GgufError GgufResponse
  /-- What the callback was called with. -/
  chunks : List (List Char)
  /-- The positions that the model was asked to decode, as they are counted. -/
  decoded : List ℕ
  /-- What ended the loop. -/
  ending : Option Ending

section Generate

variable {Token : Type} (llama : Llama Token) (request : GenerateRequest)

/-- `request.stop_sequences`. -/
def stopSeqs : List (List Char) := request.stopSequences.map String.toList

/-- The text ends in a stop sequence. -/
def endsInStop (output : List Char) : Bool := (stopSeqs request).any fun ss => ss.isSuffixOf output

/-- The text without the first of the stop sequences that it ends in. -/
def trimStop (output : List Char) : List Char :=
  match (stopSeqs request).find? fun ss => ss.isSuffixOf output with
  | some ss => output.take (output.length - ss.length)
  | none => output

/-- The text of a token; bytes that are not UTF-8 by themselves are dropped. -/
def pieceText (token : Token) : Option (List Char) := (llama.tokenToPieceBytes token).bind Utf8.decode?

/-! ## The loop -/

/-- The variables of the loop. -/
structure Generating where
  output : List Char
  tokenCount : ℕ
  nCur : ℕ
  chunks : List (List Char)
  decoded : List ℕ

/-- A token is appended to the text, and counted. -/
def Generating.append (st : Generating) (token : Token) : Generating :=
  { st with
    output := st.output ++ (pieceText llama token).getD []
    chunks := st.chunks ++ (pieceText llama token).toList
    tokenCount := st.tokenCount + 1 }

/-- The loop, with so many tokens left to generate. -/
def generateLoop : ℕ → Generating → Generating × Except String Ending
  | 0, st => (st, .ok .maxTokens)
  | left + 1, st =>
      let newToken := llama.sample st.tokenCount
      if llama.isEogToken newToken then (st, .ok .endToken)
      else
        let st := st.append llama newToken
        if endsInStop request st.output then
          ({ st with output := trimStop request st.output }, .ok .stopSequence)
        else
          let st := { st with decoded := st.decoded ++ [st.nCur] }
          match llama.decode [Int32.ofNat st.nCur] with
          | .error e => (st, .error e)
          | .ok () => generateLoop left { st with nCur := st.nCur + 1 }

/-- The positions of the tokens of the prompt, in batches. -/
def promptBatches (nBatch : ℕ) (tokens : List Token) : List (List ℕ) :=
  (Chunks.pieces nBatch (List.range tokens.length))

/-- Feed the prompt: the positions that are decoded, and the error that ends it. -/
def feedPrompt : List (List ℕ) → List ℕ × Except String Unit
  | [] => ([], .ok ())
  | batch :: batches =>
      match llama.decode (batch.map Int32.ofNat) with
      | .error e => (batch, .error e)
      | .ok () =>
          match feedPrompt batches with
          | (decoded, result) => (batch ++ decoded, result)

/-- The state in which the loop begins. -/
def Generating.start (tokens : List Token) (decoded : List ℕ) : Generating :=
  ⟨[], 0, tokens.length, [], decoded⟩

/-- The response, when the loop has ended. -/
def response (st : Generating) : GgufResponse where
  text := st.output
  tokensGenerated := UInt32.ofNat st.tokenCount
  finishReason := if request.maxTokens.toNat ≤ st.tokenCount then .length else .stop

/-- The generation, from the tokens of the prompt on. -/
def generateFrom (config : GgufConfig) (tokens : List Token) : GgufRun :=
  if config.nCtx ≤ UInt32.ofNat tokens.length then
    ⟨.err (.contextSizeExceeded config.nCtx (UInt32.ofNat tokens.length)), [], [], none⟩
  else if config.nBatch = 0 then ⟨.panic, [], [], none⟩
  else
    match feedPrompt llama (promptBatches config.nBatch.toNat tokens) with
    | (decoded, .error e) =>
        ⟨.err (.generationFailed s!"Failed to decode prompt chunk: {e}"), [], decoded, none⟩
    | (decoded, .ok ()) =>
        match generateLoop llama request request.maxTokens.toNat (.start tokens decoded) with
        | (st, .error e) =>
            ⟨.err (.generationFailed s!"Failed to decode: {e}"), st.chunks, st.decoded, none⟩
        | (st, .ok ending) => ⟨.ok (response request st), st.chunks, st.decoded, some ending⟩

namespace LlamaCppBackend

/-- `generate_streaming`.  A context size of zero panics. -/
def generateStreaming (config : GgufConfig) (loaded : Bool) : GgufRun :=
  if !loaded then ⟨.err (.generationFailed "Model not loaded"), [], [], none⟩
  else if config.nCtx = 0 then ⟨.panic, [], [], none⟩
  else
    match llama.newContext with
    | .error e => ⟨.err (.generationFailed s!"Failed to create context: {e}"), [], [], none⟩
    | .ok () =>
        match llama.strToToken request.prompt with
        | .error e => ⟨.err (.tokenizationFailed e), [], [], none⟩
        | .ok tokens => generateFrom llama request config tokens

/-- `generate`: the same, without a callback. -/
def generate (config : GgufConfig) (loaded : Bool) : GgufRun :=
  { generateStreaming llama request config loaded with chunks := [] }

end LlamaCppBackend

/-! ## Where the loop ends -/

/-- The text of the first tokens. -/
def textOf (k : ℕ) : List Char :=
  (List.range k).flatMap fun i => (pieceText llama (llama.sample i)).getD []

/-- What the callback is called with for the first tokens. -/
def chunksOf (k : ℕ) : List (List Char) :=
  (List.range k).flatMap fun i => (pieceText llama (llama.sample i)).toList

/-- The state of the loop after some tokens of which all have been decoded. -/
def Generating.after (st : Generating) (k : ℕ) : Generating where
  output := textOf llama k
  tokenCount := k
  nCur := st.nCur + k
  chunks := chunksOf llama k
  decoded := st.decoded ++ List.range' st.nCur k

/-- After the token with this number, the loop goes on: it does not end the text, and what has been
generated does not end in a stop sequence. -/
def GoesOn (k : ℕ) : Prop :=
  llama.isEogToken (llama.sample k) = false ∧ endsInStop request (textOf llama (k + 1)) = false

instance (k : ℕ) : Decidable (GoesOn llama request k) := inferInstanceAs (Decidable (_ ∧ _))

/-- How the loop ends after so many tokens have been decoded. -/
inductive LoopEnds (start : Generating) (k : ℕ) : Generating × Except String Ending → Prop
  | maxTokens (limit : k = request.maxTokens.toNat) :
      LoopEnds start k (start.after llama k, .ok .maxTokens)
  | endToken (lt : k < request.maxTokens.toNat) (ends : llama.isEogToken (llama.sample k) = true) :
      LoopEnds start k (start.after llama k, .ok .endToken)
  | stopSequence (lt : k < request.maxTokens.toNat)
      (goes : llama.isEogToken (llama.sample k) = false)
      (ends : endsInStop request (textOf llama (k + 1)) = true) :
      LoopEnds start k
        ({ (start.after llama k).append llama (llama.sample k) with
          output := trimStop request (textOf llama (k + 1)) }, .ok .stopSequence)
  | failed (lt : k < request.maxTokens.toNat) (goes : GoesOn llama request k) {e : String}
      (fails : llama.decode [Int32.ofNat (start.nCur + k)] = .error e) :
      LoopEnds start k
        ({ (start.after llama k).append llama (llama.sample k) with
          decoded := start.decoded ++ List.range' start.nCur (k + 1) }, .error e)

variable {llama request}

theorem textOf_succ (k : ℕ) :
    textOf llama (k + 1) = textOf llama k ++ (pieceText llama (llama.sample k)).getD [] := by
  unfold textOf
  rw [List.range_succ, List.flatMap_append, List.flatMap_singleton]

theorem chunksOf_succ (k : ℕ) :
    chunksOf llama (k + 1) = chunksOf llama k ++ (pieceText llama (llama.sample k)).toList := by
  unfold chunksOf
  rw [List.range_succ, List.flatMap_append, List.flatMap_singleton]

theorem Generating.after_zero_start (tokens : List Token) (decoded : List ℕ) :
    (Generating.start tokens decoded).after llama 0 = .start tokens decoded := by
  simp [Generating.after, Generating.start, textOf, chunksOf]

theorem Generating.append_after (start : Generating) (k : ℕ) :
    { (start.after llama k).append llama (llama.sample k) with
      decoded := (start.after llama k).decoded ++ [start.nCur + k]
      nCur := start.nCur + k + 1 } = start.after llama (k + 1) := by
  have hdecoded : start.decoded ++ List.range' start.nCur k ++ [start.nCur + k] =
      start.decoded ++ List.range' start.nCur (k + 1) := by
    rw [List.range'_1_concat, List.append_assoc]
  simp only [Generating.append, Generating.after, textOf_succ, chunksOf_succ, hdecoded]
  rfl

/-- **Where the loop ends.**  All tokens before have been decoded. -/
theorem generateLoop_ends (start : Generating) {k : ℕ} (hk : k ≤ request.maxTokens.toNat) :
    ∃ n, k ≤ n ∧ n ≤ request.maxTokens.toNat ∧
      (∀ j, k ≤ j → j < n → GoesOn llama request j ∧ llama.decode [Int32.ofNat (start.nCur + j)] = .ok ()) ∧
      LoopEnds llama request start n
        (generateLoop llama request (request.maxTokens.toNat - k) (start.after llama k)) := by
  obtain ⟨left, hleft⟩ := Nat.exists_eq_add_of_le hk
  induction left generalizing k with
  | zero =>
      have hlimit : k = request.maxTokens.toNat := by omega
      refine ⟨k, le_rfl, hk, fun j hj hlt => absurd hlt (not_lt.2 hj), ?_⟩
      rw [← hlimit, Nat.sub_self]
      exact .maxTokens hlimit
  | succ left ih =>
      have hlt : k < request.maxTokens.toNat := by omega
      have hsub : request.maxTokens.toNat - k = request.maxTokens.toNat - (k + 1) + 1 := by omega
      have hoff : ∀ j, k ≤ j → j < k → GoesOn llama request j ∧
          llama.decode [Int32.ofNat (start.nCur + j)] = .ok () := fun j hj hlt => absurd hlt (not_lt.2 hj)
      rw [hsub]
      unfold generateLoop
      dsimp only
      have hcount : (start.after llama k).tokenCount = k := rfl
      have houtput : ((start.after llama k).append llama (llama.sample k)).output =
        textOf llama (k + 1) := (textOf_succ k).symm
      have hcur : ((start.after llama k).append llama (llama.sample k)).nCur = start.nCur + k := rfl
      have hdecoded : start.decoded ++ List.range' start.nCur k ++ [start.nCur + k] =
          start.decoded ++ List.range' start.nCur (k + 1) := by
        rw [List.range'_1_concat, List.append_assoc]
      rw [hcount, hcur]
      cases heog : llama.isEogToken (llama.sample k) with
      | true => exact ⟨k, le_rfl, hk, hoff, .endToken hlt heog⟩
      | false =>
          rw [if_neg Bool.false_ne_true]
          cases hstop : endsInStop request
              ((start.after llama k).append llama (llama.sample k)).output with
          | true =>
              have hends : LoopEnds llama request start k _ :=
                .stopSequence hlt heog (houtput ▸ hstop)
              rw [← houtput] at hends
              exact ⟨k, le_rfl, hk, hoff, hends⟩
          | false =>
              have hgoes : GoesOn llama request k := ⟨heog, houtput ▸ hstop⟩
              rw [if_neg Bool.false_ne_true]
              cases hdecode : llama.decode [Int32.ofNat (start.nCur + k)] with
              | error e =>
                  have hends : LoopEnds llama request start k _ := .failed hlt hgoes hdecode
                  rw [← hdecoded] at hends
                  exact ⟨k, le_rfl, hk, hoff, hends⟩
              | ok u =>
                  obtain ⟨n, hkn, hn, hall, hends⟩ := ih (k := k + 1) (by omega) (by omega)
                  refine ⟨n, by omega, hn, fun j hj hjn => ?_, ?_⟩
                  · rcases Nat.eq_or_lt_of_le hj with rfl | hj
                    · exact ⟨hgoes, hdecode⟩
                    · exact hall j hj hjn
                  · rw [← start.append_after] at hends
                    exact hends

/-! ## The context -/

/-- The positions of a prompt that are decoded are those of its tokens. -/
theorem lt_of_mem_feedPrompt {batches : List (List ℕ)} {bound : ℕ}
    (hbatches : ∀ batch ∈ batches, ∀ p ∈ batch, p < bound) :
    ∀ p ∈ (feedPrompt llama batches).1, p < bound := by
  induction batches with
  | nil => exact fun p hp => absurd hp List.not_mem_nil
  | cons batch batches ih =>
      have hrest := ih fun b hb => hbatches b (List.mem_cons_of_mem _ hb)
      have hbatch := hbatches batch List.mem_cons_self
      unfold feedPrompt
      cases llama.decode (batch.map Int32.ofNat) with
      | error e => exact hbatch
      | ok u =>
          intro p hp
          rcases List.mem_append.1 hp with hp | hp
          · exact hbatch p hp
          · exact hrest p hp

theorem feedPrompt_ok_iff {batches : List (List ℕ)} :
    (feedPrompt llama batches).2 = .ok () ↔
      ∀ batch ∈ batches, llama.decode (batch.map Int32.ofNat) = .ok () := by
  induction batches with
  | nil => exact ⟨fun _ b hb => absurd hb List.not_mem_nil, fun _ => rfl⟩
  | cons batch batches ih =>
      rw [List.forall_mem_cons, ← ih]
      cases hdecode : llama.decode (batch.map Int32.ofNat) with
      | error e => simp [feedPrompt, hdecode]
      | ok u =>
          simp only [feedPrompt, hdecode]
          exact ⟨fun h => ⟨trivial, h⟩, fun h => h.2⟩

theorem lt_of_mem_promptBatches {nBatch : ℕ} {tokens : List Token} :
    ∀ batch ∈ promptBatches nBatch tokens, ∀ p ∈ batch, p < tokens.length := by
  intro batch hbatch p hp
  obtain ⟨i, -, rfl⟩ := List.mem_map.1 hbatch
  exact List.mem_range.1 (List.mem_of_mem_drop (List.mem_of_mem_take hp))

/-- llama.cpp fails to decode a batch of the prompt, or a position that the context has room for. -/
def FailsInside (llama : Llama Token) (config : GgufConfig) (tokens : List Token) : Prop :=
  (∃ batch ∈ promptBatches config.nBatch.toNat tokens,
    llama.decode (batch.map Int32.ofNat) ≠ .ok ()) ∨
  ∃ k < config.nCtx.toNat - tokens.length,
    llama.decode [Int32.ofNat (tokens.length + k)] ≠ .ok ()

/-- No position at or beyond the end of the context is decoded, and unless llama.cpp fails inside
the context there is a text. -/
structure StaysInside (llama : Llama Token) (config : GgufConfig) (tokens : List Token)
    (run : GgufRun) : Prop where
  inside : ∀ p ∈ run.decoded, p < config.nCtx.toNat
  answered : run.outcome.isOk = true ∨ FailsInside llama config tokens

/-- The generation ends by itself, while there is room in the context. -/
def EndsInside (llama : Llama Token) (request : GenerateRequest) (config : GgufConfig)
    (tokens : List Token) : Prop :=
  ∃ k ≤ config.nCtx.toNat - tokens.length,
    k = request.maxTokens.toNat ∨ ¬ GoesOn llama request k

theorem LoopEnds.decoded_eq {start : Generating} {n : ℕ} {result : Generating × Except String Ending}
    (h : LoopEnds llama request start n result) :
    result.1.decoded =
      start.decoded ++ List.range' start.nCur (if result.2.isOk then n else n + 1) := by
  cases h <;> rfl

/-- A loop that has ended with a text has been ended by the tokens, or by their number. -/
theorem LoopEnds.stops {start : Generating} {n : ℕ} {result : Generating × Except String Ending}
    (h : LoopEnds llama request start n result) (hok : result.2.isOk = true) :
    n = request.maxTokens.toNat ∨ ¬ GoesOn llama request n := by
  cases h with
  | maxTokens limit => exact .inl limit
  | endToken lt ends => exact .inr fun hgoes => Bool.false_ne_true (hgoes.1 ▸ ends)
  | stopSequence lt goes ends => exact .inr fun hgoes => Bool.false_ne_true (hgoes.2 ▸ ends)
  | failed => cases hok

theorem LoopEnds.fails {start : Generating} {n : ℕ} {result : Generating × Except String Ending}
    (h : LoopEnds llama request start n result) (herror : result.2.isOk = false) :
    (n < request.maxTokens.toNat ∧ GoesOn llama request n) ∧
      llama.decode [Int32.ofNat (start.nCur + n)] ≠ .ok () := by
  cases h with
  | maxTokens => cases herror
  | endToken => cases herror
  | stopSequence => cases herror
  | failed lt goes fails => exact ⟨⟨lt, goes⟩, fun hok => nomatch hok ▸ fails⟩

theorem forall_mem_range'_lt_iff {a n bound : ℕ} (ha : a ≤ bound) :
    (∀ p ∈ List.range' a n, p < bound) ↔ a + n ≤ bound := by
  simp only [List.mem_range'_1]
  constructor
  · intro h
    cases n with
    | zero => exact ha
    | succ n => exact h (a + n) ⟨Nat.le_add_right a n, by omega⟩
  · intro h p hp
    omega

theorem staysInside_loop {config : GgufConfig} {tokens : List Token} {decoded : List ℕ} {n : ℕ}
    {result : Generating × Except String Ending} {outcome : Outcome GgufError GgufResponse}
    {chunks : List (List Char)} {ending : Option Ending}
    (hlen : tokens.length < config.nCtx.toNat)
    (hdecoded : ∀ p ∈ decoded, p < config.nCtx.toNat)
    (hn : n ≤ request.maxTokens.toNat)
    (hbefore : ∀ j < n, GoesOn llama request j ∧
      llama.decode [Int32.ofNat (tokens.length + j)] = .ok ())
    (hbatches : ∀ batch ∈ promptBatches config.nBatch.toNat tokens,
      llama.decode (batch.map Int32.ofNat) = .ok ())
    (hends : LoopEnds llama request (.start tokens decoded) n result)
    (houtcome : outcome.isOk = result.2.isOk) :
    StaysInside llama config tokens ⟨outcome, chunks, result.1.decoded, ending⟩ ↔
      EndsInside llama request config tokens ∨ FailsInside llama config tokens := by
  have hle : ∀ k, k = request.maxTokens.toNat ∨ ¬ GoesOn llama request k → n ≤ k := by
    rintro k (rfl | hgoes)
    · exact hn
    · exact not_lt.1 fun hlt => hgoes (hbefore k hlt).1
  have hfails : ∀ k, llama.decode [Int32.ofNat (tokens.length + k)] ≠ .ok () → n ≤ k :=
    fun k hk => not_lt.1 fun hlt => hk (hbefore k hlt).2
  have hinside : ∀ m, (∀ p ∈ decoded ++ List.range' tokens.length m, p < config.nCtx.toNat) ↔
      tokens.length + m ≤ config.nCtx.toNat := by
    intro m
    rw [List.forall_mem_append, forall_mem_range'_lt_iff hlen.le]
    exact ⟨fun h => h.2, fun h => ⟨hdecoded, h⟩⟩
  have hpositions : (∀ p ∈ result.1.decoded, p < config.nCtx.toNat) ↔
      tokens.length + (if result.2.isOk then n else n + 1) ≤ config.nCtx.toNat := by
    rw [hends.decoded_eq]
    exact hinside _
  cases hok : result.2.isOk with
  | true =>
      rw [hok, if_pos rfl] at hpositions
      constructor
      · intro h
        have hle := hpositions.1 h.inside
        exact .inl ⟨n, by omega, hends.stops hok⟩
      · intro h
        refine ⟨hpositions.2 ?_, .inl (houtcome.trans hok)⟩
        rcases h with ⟨k, hk, hstops⟩ | ⟨batch, hbatch, hfail⟩ | ⟨k, hk, hfail⟩
        · have := hle k hstops
          omega
        · exact absurd (hbatches batch hbatch) hfail
        · have := hfails k hfail
          omega
  | false =>
      obtain ⟨⟨hlt, hgoes⟩, hfail⟩ := hends.fails hok
      rw [hok, if_neg Bool.false_ne_true] at hpositions
      constructor
      · intro h
        have hle := hpositions.1 h.inside
        exact .inr (.inr ⟨n, by omega, hfail⟩)
      · intro h
        have hroom : n < config.nCtx.toNat - tokens.length := by
          rcases h with ⟨k, hk, hstops⟩ | ⟨batch, hbatch, hfail⟩ | ⟨k, hk, hfail⟩
          · have hnk := hle k hstops
            have hne : n ≠ k := by
              rintro rfl
              rcases hstops with hmax | hstop
              · omega
              · exact hstop hgoes
            omega
          · exact absurd (hbatches batch hbatch) hfail
          · have := hfails k hfail
            omega
        exact ⟨hpositions.2 (by omega), .inr (.inr ⟨n, hroom, hfail⟩)⟩

/-- **A generation stays inside the context** and answers, unless llama.cpp fails there, exactly
when the tokens or their number end it while there is room, or llama.cpp does fail there. -/
theorem staysInside_iff {config : GgufConfig} {loaded : Bool} {tokens : List Token}
    (hloaded : loaded = true) (hcontext : llama.newContext = .ok ())
    (htokens : llama.strToToken request.prompt = .ok tokens)
    (hlen : tokens.length < config.nCtx.toNat) (hbatch : config.nBatch ≠ 0) :
    (StaysInside llama config tokens (LlamaCppBackend.generate llama request config loaded) ↔
      EndsInside llama request config tokens ∨ FailsInside llama config tokens) ∧
    (StaysInside llama config tokens
        (LlamaCppBackend.generateStreaming llama request config loaded) ↔
      EndsInside llama request config tokens ∨ FailsInside llama config tokens) := by
  have hzero : config.nCtx ≠ 0 := by
    rintro h
    rw [h] at hlen
    exact Nat.not_lt_zero _ hlen
  have hsmall : ¬ config.nCtx ≤ UInt32.ofNat tokens.length := by
    have := config.nCtx.toNat_lt
    rw [UInt32.le_iff_toNat_le, UInt32.toNat_ofNat']
    omega
  have hrun : LlamaCppBackend.generateStreaming llama request config loaded =
      generateFrom llama request config tokens := by
    unfold LlamaCppBackend.generateStreaming
    rw [hloaded, if_neg (by decide), if_neg hzero]
    simp only [hcontext, htokens]
  have hprompt : ∀ p ∈ (feedPrompt llama (promptBatches config.nBatch.toNat tokens)).1,
      p < config.nCtx.toNat := fun p hp =>
    (lt_of_mem_feedPrompt lt_of_mem_promptBatches p hp).trans hlen
  have hstreaming : StaysInside llama config tokens (generateFrom llama request config tokens) ↔
      EndsInside llama request config tokens ∨ FailsInside llama config tokens := by
    unfold generateFrom
    rw [if_neg hsmall, if_neg hbatch]
    rcases hfeed : feedPrompt llama (promptBatches config.nBatch.toNat tokens) with
      ⟨decoded, _ | u⟩
    · have hfails : FailsInside llama config tokens := by
        refine .inl ?_
        have hnot : ¬ (feedPrompt llama (promptBatches config.nBatch.toNat tokens)).2 = .ok () := by
          rw [hfeed]
          exact fun h => nomatch h
        rw [feedPrompt_ok_iff] at hnot
        simpa only [not_forall, exists_prop] using hnot
      rw [hfeed] at hprompt
      exact ⟨fun _ => .inr hfails, fun _ => ⟨hprompt, .inr hfails⟩⟩
    · have hbatches := feedPrompt_ok_iff.1 (congrArg Prod.snd hfeed)
      rw [hfeed] at hprompt
      obtain ⟨n, -, hn, hbefore, hends⟩ := @generateLoop_ends Token llama request
        (.start tokens decoded) 0 (Nat.zero_le request.maxTokens.toNat)
      rw [Generating.after_zero_start, Nat.sub_zero] at hends
      have hbefore := fun j hj => hbefore j (Nat.zero_le j) hj
      have hstays : ∀ outcome chunks ending, outcome.isOk =
          (generateLoop llama request request.maxTokens.toNat (.start tokens decoded)).2.isOk →
          (StaysInside llama config tokens ⟨outcome, chunks, _, ending⟩ ↔ _) :=
        fun outcome chunks ending =>
          staysInside_loop hlen hprompt hn hbefore hbatches hends
      dsimp only
      generalize generateLoop llama request request.maxTokens.toNat (.start tokens decoded) =
        result at hstays ⊢
      rcases result with ⟨st, _ | _⟩
      · exact hstays _ _ _ rfl
      · exact hstays _ _ _ rfl
  rw [hrun]
  refine ⟨?_, hstreaming⟩
  rw [← hstreaming, ← hrun]
  exact ⟨fun h => ⟨h.inside, h.answered⟩, fun h => ⟨h.inside, h.answered⟩⟩

end Generate

/-- A model that says the same token again and again, in a context of two positions. -/
def tirelessLlama : Llama Unit where
  newContext := .ok ()
  strToToken := fun _ => .ok [()]
  isEogToken := fun _ => false
  tokenToPieceBytes := fun _ => some (Utf8.encode ['a'])
  sample := fun _ => ()
  decode := fun batch => if batch.all (· < 2) then .ok () else .error "NoKvCacheSlot"

/-- A short prompt, and a request for so many tokens. -/
def askFor (maxTokens : UInt32) : GenerateRequest := ⟨"m", "p", maxTokens, 0.7, 0.9, []⟩

/-- One token is generated without leaving the context. -/
theorem staysInside_one :
    StaysInside tirelessLlama ⟨2, 512⟩ [()]
      (LlamaCppBackend.generate tirelessLlama (askFor 1) ⟨2, 512⟩ true) :=
  (staysInside_iff rfl rfl rfl (by decide) (by decide)).1.2 (.inl ⟨1, by decide, .inl rfl⟩)

/-- **The context limit is not a limit**: with more tokens to generate than there is room for, the
third position of two is decoded, and the text is lost. -/
theorem context_overrun :
    ¬ StaysInside tirelessLlama ⟨2, 512⟩ [()]
      (LlamaCppBackend.generate tirelessLlama (askFor 5) ⟨2, 512⟩ true) := by
  intro h
  have hasked : 2 ∈ (LlamaCppBackend.generate tirelessLlama (askFor 5) ⟨2, 512⟩ true).decoded := by
    decide +kernel
  exact absurd (h.inside 2 hasked) (by decide)

end Gguf
end Inference
end PeerClaw
