import Mathlib.Algebra.Order.BigOperators.Group.List
import Mathlib.Algebra.Order.Group.Nat
import PeerClaw.Lib.Marks

/-!
# Streaming a completion from Ollama

`OllamaProvider::generate_streaming` in `inference/ollama.rs`, from the response body on: chunks are
decoded one by one and collected in a buffer, whole lines are taken from it, and each line that is a
record gives a fragment.  Reading a line as JSON is code of another crate, and a parameter here.

* `readLines`, `readStream`, `generateStreaming` — the code.
* `readStream_eq` — all chunks at once, for every way to cut the decoded text.
* `SameAnswer` — the answer does not depend on the chunks; `sameAnswer_iff` — that is so if and only
  if no chunk ends inside of a character of a fragment.
-/

namespace PeerClaw
namespace Ollama

open Lib Lib.Marks

/-- The message of a line, in characters of a type. -/
structure DeltaMessage (α : Type) where
  content : List α
  /-- Some cloud-proxied models put text there. -/
  reasoningContent : List α

/-- A line of the stream. -/
structure StreamLine (α : Type) where
  message : Option (DeltaMessage α)
  done : Bool
  evalCount : UInt32
  evalDuration : UInt64

/-- What a line adds to the text. -/
def delta {α : Type} (m : DeltaMessage α) : List α :=
  if !m.content.isEmpty then m.content
  else if !m.reasoningContent.isEmpty then m.reasoningContent
  else []

/-- What is known of the answer: the fragments that `on_delta` was called with, and the rest. -/
structure Run where
  deltas : List (List Char) := []
  fullText : List Char := []
  tokens : UInt32 := 0
  evalNs : UInt64 := 0

/-- The result; `evalNs` is what the speed is computed from, with the time that passed. -/
structure GenerateResult where
  text : List Char
  tokensGenerated : UInt32
  evalNs : UInt64
deriving DecidableEq

section Code

variable (fromStr : List Char → Option (StreamLine Char))

/-- A record is taken into the answer. -/
def record (run : Run) (obj : StreamLine Char) : Run :=
  let run :=
    match obj.message with
    | none => run
    | some m =>
        if !(delta m).isEmpty then
          { run with deltas := run.deltas ++ [delta m], fullText := run.fullText ++ delta m }
        else run
  if obj.done then { run with tokens := obj.evalCount, evalNs := obj.evalDuration } else run

/-- A line without its end. -/
def readLine (run : Run) (line : List Char) : Run :=
  let raw := Text.trimChars line
  if raw.isEmpty then run
  else
    match fromStr raw with
    | some obj => record run obj
    | none => run

/-- What is left behind the last line end when the stream ends. -/
def readTail (run : Run) (lineBuf : List Char) : Run :=
  let tail := Text.trimChars lineBuf
  if !tail.isEmpty then
    match fromStr tail with
    | some obj => record run obj
    | none => run
  else run

/-- The lines of the buffer are taken one by one, up to the last line end; `line` is what was seen
of the next one.  What is left stays in the buffer. -/
def readLines (run : Run) (line : List Char) : List Char → Run × List Char
  | [] => (run, line)
  | c :: buf =>
      if c = '\n' then readLines (readLine fromStr run line) [] buf
      else readLines run (line ++ [c]) buf

/-- The loop over the chunks, which ends at the first one that could not be read. -/
def readStream (run : Run) (lineBuf : List Char) :
    List (Except String (List UInt8)) → Run × Except String (List Char)
  | [] => (run, .ok lineBuf)
  | .error e :: _ => (run, .error s!"Ollama stream read failed: {e}")
  | .ok chunk :: items =>
      let (run, lineBuf) := readLines fromStr run [] (lineBuf ++ Utf8.decodeLossy chunk)
      readStream run lineBuf items

/-- The fragments, and what is returned. -/
def generateStreaming (items : List (Except String (List UInt8))) :
    List (List Char) × Except String GenerateResult :=
  match readStream fromStr {} [] items with
  | (run, .error e) => (run.deltas, .error e)
  | (run, .ok lineBuf) =>
      let run := readTail fromStr run lineBuf
      (run.deltas, .ok ⟨run.fullText, run.tokens, run.evalNs⟩)

/-- What the answer is, without how long it took. -/
def answered (answer : List (List Char) × Except String GenerateResult) :
    List (List Char) × Except String (List Char × UInt32) :=
  (answer.1, answer.2.map fun result => (result.text, result.tokensGenerated))

/-- The fragments, the text and the token count are those of the bytes in one chunk. -/
def SameAnswer (chunks : List (List UInt8)) : Prop :=
  answered (generateStreaming fromStr (chunks.map .ok)) =
    answered (generateStreaming fromStr [.ok chunks.flatten])

end Code

/-! ## All chunks at once -/

section Chunks

variable {fromStr : List Char → Option (StreamLine Char)} {run : Run} {line buf more : List Char}
  {chunks : List (List UInt8)}

theorem readTail_eq : readTail fromStr run line = readLine fromStr run line := by
  rw [readTail, readLine]
  cases (Text.trimChars line).isEmpty <;> simp

theorem readLines_append (run : Run) (line buf more : List Char) :
    readLines fromStr run line (buf ++ more) =
      readLines fromStr (readLines fromStr run line buf).1 (readLines fromStr run line buf).2
        more := by
  induction buf generalizing run line with
  | nil => rfl
  | cons c buf ih =>
      rw [List.cons_append, readLines, readLines]
      split
      · exact ih _ _
      · exact ih _ _

theorem newline_not_mem_left (h : '\n' ∉ line) (run : Run) (buf : List Char) :
    '\n' ∉ (readLines fromStr run line buf).2 := by
  induction buf generalizing run line with
  | nil => exact h
  | cons c buf ih =>
      rw [readLines]
      split
      · exact ih List.not_mem_nil _
      · next hc =>
          apply ih
          rw [List.mem_append, List.mem_singleton, not_or]
          exact ⟨h, fun heq => hc heq.symm⟩

theorem readLines_left (h : '\n' ∉ buf) (run : Run) (line more : List Char) :
    readLines fromStr run line (buf ++ more) = readLines fromStr run (line ++ buf) more := by
  induction buf generalizing line with
  | nil => rw [List.nil_append, List.append_nil]
  | cons c buf ih =>
      obtain ⟨hc, hbuf⟩ := not_or.1 (List.mem_cons.not.1 h)
      rw [List.cons_append, readLines, if_neg (Ne.symm hc), ih hbuf, List.append_assoc,
        List.singleton_append]

/-- **All chunks at once**: what was decoded is read as one text. -/
theorem readStream_eq (h : '\n' ∉ line) (run : Run) (chunks : List (List UInt8)) :
    readStream fromStr run line (chunks.map .ok) =
      ((readLines fromStr run line (chunks.map Utf8.decodeLossy).flatten).1,
        .ok (readLines fromStr run line (chunks.map Utf8.decodeLossy).flatten).2) := by
  induction chunks generalizing run line with
  | nil => rfl
  | cons chunk chunks ih =>
      have hleft : readLines fromStr run [] (line ++ Utf8.decodeLossy chunk) =
          readLines fromStr run line (Utf8.decodeLossy chunk) := readLines_left h run [] _
      rw [List.map_cons, readStream, hleft, List.map_cons, List.flatten_cons, readLines_append]
      exact ih (newline_not_mem_left h run _) _

theorem readTail_readLines (fromStr : List Char → Option (StreamLine Char)) (run : Run)
    (line buf : List Char) (h : '\n' ∉ line) :
    readTail fromStr (readLines fromStr run line buf).1 (readLines fromStr run line buf).2 =
      ((line ++ buf).splitOn '\n').foldl (readLine fromStr) run := by
  have hnot : ∀ c ∈ line, (c == '\n') = false := by
    intro c hc
    rw [beq_eq_false_iff_ne]
    rintro rfl
    exact h hc
  induction buf generalizing run line with
  | nil =>
      rw [readTail_eq, List.append_nil, List.splitOn, List.splitOnP_eq_singleton hnot]
      rfl
  | cons c buf ih =>
      obtain ⟨l, ls, hcons, hend, -⟩ := splitOnP_cons (· == '\n') c buf
      rw [readLines]
      by_cases hc : c = '\n'
      · rw [if_pos hc, List.splitOn, splitOnP_append hnot (hend (by rw [hc]; rfl)), List.append_nil,
          List.foldl_cons, ← hcons]
        exact ih _ [] List.not_mem_nil (by simp)
      · have hline : '\n' ∉ line ++ [c] := by
          rw [List.mem_append, List.mem_singleton, not_or]
          exact ⟨h, fun heq => hc heq.symm⟩
        rw [if_neg hc, show line ++ c :: buf = line ++ [c] ++ buf from List.append_cons line c buf]
        refine ih _ _ hline fun d hd => ?_
        rw [beq_eq_false_iff_ne]
        rintro rfl
        exact hline hd

/-- **The answer to all chunks** is that of the lines of the decoded text. -/
theorem generateStreaming_eq (fromStr : List Char → Option (StreamLine Char))
    (chunks : List (List UInt8)) :
    generateStreaming fromStr (chunks.map .ok) =
      let run := ((chunks.map Utf8.decodeLossy).flatten.splitOn '\n').foldl (readLine fromStr) {}
      (run.deltas, .ok ⟨run.fullText, run.tokens, run.evalNs⟩) := by
  have hall := readTail_readLines fromStr {} [] (chunks.map Utf8.decodeLossy).flatten
    List.not_mem_nil
  rw [List.nil_append] at hall
  rw [generateStreaming, readStream_eq List.not_mem_nil]
  simp only [hall]

end Chunks

/-! ## The answer is the sum of its lines -/

/-- The fragment of a record. -/
def fragment {α : Type} (obj : StreamLine α) : List α := (obj.message.map delta).getD []

section Lines

variable {fromStr : List Char → Option (StreamLine Char)} {run : Run} {line : List Char}
  {lines : List (List Char)}

/-- The fragment of a line. -/
def lineFragment (fromStr : List Char → Option (StreamLine Char)) (line : List Char) : List Char :=
  if Text.trimChars line = [] then [] else ((fromStr (Text.trimChars line)).map fragment).getD []

theorem record_fullText (run : Run) (obj : StreamLine Char) :
    (record run obj).fullText = run.fullText ++ fragment obj := by
  unfold record fragment
  cases obj.message with
  | none => cases obj.done <;> simp
  | some m =>
      cases hm : delta m with
      | nil => cases obj.done <;> simp [hm]
      | cons c cs => cases obj.done <;> simp [hm]

theorem readLine_fullText (run : Run) (line : List Char) :
    (readLine fromStr run line).fullText = run.fullText ++ lineFragment fromStr line := by
  unfold readLine lineFragment
  by_cases hraw : Text.trimChars line = []
  · simp [hraw]
  · cases hread : fromStr (Text.trimChars line) with
    | none => simp [hraw, hread]
    | some obj => simp [hraw, hread, record_fullText]

/-- **The text is that of the lines.** -/
theorem foldl_fullText (run : Run) (lines : List (List Char)) :
    (lines.foldl (readLine fromStr) run).fullText =
      run.fullText ++ (lines.map (lineFragment fromStr)).flatten := by
  induction lines generalizing run with
  | nil => simp
  | cons line lines ih =>
      rw [List.foldl_cons, ih, readLine_fullText, List.map_cons, List.flatten_cons,
        List.append_assoc]

end Lines

/-! ## Records with open places -/

section Places

variable {fromStr : List Char → Option (StreamLine Char)} {ι : Type}

/-- Each text of a record is replaced. -/
def StreamLine.mapText {α β : Type} (h : List α → List β) (obj : StreamLine α) : StreamLine β where
  message := obj.message.map fun m => ⟨h m.content, h m.reasoningContent⟩
  done := obj.done
  evalCount := obj.evalCount
  evalDuration := obj.evalDuration

/-- The marked text is read as a record whatever stands at its places, or never; what stands there
goes into the texts of the record unchanged. -/
def Reads (fromStr : List Char → Option (StreamLine Char)) (t : List (Char ⊕ ι))
    (read : Option (StreamLine (Char ⊕ ι))) : Prop :=
  ∀ f, Fills f → fromStr (fill f t) = read.map (StreamLine.mapText (fill f))

/-- What JSON says of characters that are not of ASCII: they stand for themselves in strings, and
nowhere else, so that one is as good as another or as several of them. -/
def ReadsForeign (fromStr : List Char → Option (StreamLine Char)) : Prop :=
  ∀ t : List (Char ⊕ ℕ), ∃ read, Reads fromStr t read

variable {f g : ι → List Char} {t : List (Char ⊕ ι)} {obj : StreamLine (Char ⊕ ι)} {i : ι}

theorem delta_mapText (hf : Fills f) (m : DeltaMessage (Char ⊕ ι)) :
    delta ⟨fill f m.content, fill f m.reasoningContent⟩ = fill f (delta m) := by
  have hempty : ∀ t : List (Char ⊕ ι), (fill f t).isEmpty = t.isEmpty := by
    intro t
    rw [Bool.eq_iff_iff, List.isEmpty_iff, List.isEmpty_iff, fill_eq_nil_iff hf]
  unfold delta
  rw [hempty, hempty]
  cases m.content.isEmpty <;> cases m.reasoningContent.isEmpty <;> rfl

theorem fragment_mapText (hf : Fills f) (obj : StreamLine (Char ⊕ ι)) :
    fragment (obj.mapText (fill f)) = fill f (fragment obj) := by
  unfold fragment StreamLine.mapText
  cases obj.message with
  | none => rfl
  | some m => exact delta_mapText hf m

theorem record_mapText (hf : Fills f) (hg : Fills g) (obj : StreamLine (Char ⊕ ι))
    (hsame : fill f (fragment obj) = fill g (fragment obj)) (run : Run) :
    record run (obj.mapText (fill f)) = record run (obj.mapText (fill g)) := by
  unfold fragment at hsame
  unfold record StreamLine.mapText
  cases hm : obj.message with
  | none => rfl
  | some m =>
      rw [hm, Option.map_some, Option.getD_some] at hsame
      simp only [Option.map_some, delta_mapText hf, delta_mapText hg, hsame]

theorem mem_of_reads (hread : Reads fromStr t (some obj)) (hi : .inr i ∈ fragment obj) :
    ∃ j, .inr j ∈ t := by
  by_contra hnone
  have hforeign : 128 ≤ Utf8.replacement.toNat := by decide
  have hone : Fills fun _ : ι => [Utf8.replacement] := fun _ => by simpa using hforeign
  have htwo : Fills fun _ : ι => [Utf8.replacement, Utf8.replacement] :=
    fun _ => by simpa using hforeign
  have hfill : fill (fun _ : ι => [Utf8.replacement]) t =
      fill (fun _ : ι => [Utf8.replacement, Utf8.replacement]) t :=
    fill_congr fun j hj => absurd ⟨j, hj⟩ hnone
  have hsame := hread _ hone
  rw [hfill, hread _ htwo, Option.map_some, Option.map_some] at hsame
  have hlen := congrArg (fun obj => (fragment obj).length) (Option.some.inj hsame)
  simp only [fragment_mapText hone, fragment_mapText htwo] at hlen
  have hlt := length_fill_lt (f := fun _ : ι => [Utf8.replacement])
    (g := fun _ => [Utf8.replacement, Utf8.replacement]) (fun _ => by simp) hi
  omega

theorem readLine_fill {read : Option (StreamLine (Char ⊕ ι))} (hf : Fills f) (hfirm : Firm f t)
    (hread : Reads fromStr (trimmed t) read) (run : Run) : readLine fromStr run (fill f t) =
      if trimmed t = [] then run
      else (read.map fun obj => record run (obj.mapText (fill f))).getD run := by
  rw [readLine, trimChars_fill hf hfirm]
  by_cases hempty : trimmed t = []
  · simp [hempty]
  · have hne := (fill_eq_nil_iff hf).not.2 hempty
    simp only [List.isEmpty_iff, hne, hempty, if_false, hread f hf]
    cases read with
    | none => rfl
    | some obj => rfl

theorem lineFragment_fill {read : Option (StreamLine (Char ⊕ ι))} (hf : Fills f) (hfirm : Firm f t)
    (hread : Reads fromStr (trimmed t) read) : lineFragment fromStr (fill f t) =
      if trimmed t = [] then [] else fill f ((read.map fragment).getD []) := by
  rw [lineFragment, trimChars_fill hf hfirm]
  by_cases hempty : trimmed t = []
  · simp [hempty]
  · have hne := (fill_eq_nil_iff hf).not.2 hempty
    rw [if_neg hne, if_neg hempty, hread f hf]
    cases read with
    | none => rfl
    | some obj => exact fragment_mapText hf obj

end Places

/-! ## Whether the answer depends on the chunks -/

section Answer

variable {fromStr : List Char → Option (StreamLine Char)} {text : List Char}
  {chunks : List (List UInt8)} {f g : ℕ → List Char} {lines : List (List (Char ⊕ ℕ))}

/-- No place is in a fragment of the lines. -/
def FragmentsWhole (fromStr : List Char → Option (StreamLine Char))
    (lines : List (List (Char ⊕ ℕ))) : Prop :=
  ∀ line ∈ lines, ∀ obj, Reads fromStr (trimmed line) (some obj) → ∀ i, .inr i ∉ fragment obj

/-- Where no place is in a fragment, the lines are the same with something else at the places. -/
theorem foldl_fill_eq (hjson : ReadsForeign fromStr) (hf : Fills f) (hg : Fills g)
    (hfirm : ∀ line ∈ lines, Firm f line ∧ Firm g line) (hwhole : FragmentsWhole fromStr lines)
    (run : Run) : (lines.map (fill f)).foldl (readLine fromStr) run =
      (lines.map (fill g)).foldl (readLine fromStr) run := by
  induction lines generalizing run with
  | nil => rfl
  | cons line lines ih =>
      have hlines : FragmentsWhole fromStr lines := fun l hl => hwhole l (List.mem_cons_of_mem _ hl)
      obtain ⟨hfline, hgline⟩ := hfirm line List.mem_cons_self
      obtain ⟨read, hread⟩ := hjson (trimmed line)
      have hstep : readLine fromStr run (fill f line) = readLine fromStr run (fill g line) := by
        rw [readLine_fill hf hfline hread, readLine_fill hg hgline hread]
        cases read with
        | none => rfl
        | some obj =>
            have hnone := hwhole line List.mem_cons_self obj hread
            have hsame : fill f (fragment obj) = fill g (fragment obj) :=
              fill_congr fun i hi => absurd hi (hnone i)
            simp only [Option.map_some, record_mapText hf hg obj hsame]
      simp only [List.map_cons, List.foldl_cons, hstep]
      exact ih (fun l hl => hfirm l (List.mem_cons_of_mem _ hl)) hlines _

/-- Where a place is in a fragment, the text is longer with more at the places. -/
theorem length_fragments_lt (hjson : ReadsForeign fromStr) (hf : Fills f) (hg : Fills g)
    (hfirm : ∀ line ∈ lines, Firm f line ∧ Firm g line)
    (hlt : ∀ i, (f i).length < (g i).length) (hcut : ¬ FragmentsWhole fromStr lines) :
    ((lines.map (fill f)).map (lineFragment fromStr)).flatten.length <
      ((lines.map (fill g)).map (lineFragment fromStr)).flatten.length := by
  simp only [List.length_flatten, List.map_map]
  apply List.sum_lt_sum
  · intro line hline
    obtain ⟨hfline, hgline⟩ := hfirm line hline
    obtain ⟨read, hread⟩ := hjson (trimmed line)
    simp only [Function.comp_apply, lineFragment_fill hf hfline hread,
      lineFragment_fill hg hgline hread]
    split
    · exact Nat.le_refl _
    · exact length_fill_le (fun i => (hlt i).le) _
  · unfold FragmentsWhole at hcut
    push Not at hcut
    obtain ⟨line, hline, obj, hread, i, hi⟩ := hcut
    obtain ⟨hfline, hgline⟩ := hfirm line hline
    refine ⟨line, hline, ?_⟩
    have hne : trimmed line ≠ [] := by
      obtain ⟨j, hj⟩ := mem_of_reads hread hi
      exact List.ne_nil_of_mem hj
    simp only [Function.comp_apply, lineFragment_fill hf hfline hread,
      lineFragment_fill hg hgline hread, if_neg hne, Option.map_some, Option.getD_some]
    exact length_fill_lt hlt hi

theorem generateStreaming_whole (text : List Char) :
    generateStreaming fromStr [.ok (Utf8.encode text)] =
      let run := (text.splitOn '\n').foldl (readLine fromStr) {}
      (run.deltas, .ok ⟨run.fullText, run.tokens, run.evalNs⟩) := by
  have h := generateStreaming_eq fromStr [Utf8.encode text]
  simpa only [List.map_cons, List.map_nil, List.flatten_cons, List.flatten_nil, List.append_nil,
    Utf8.decodeLossy_encode] using h

/-- **The answer does not depend on the chunks if and only if** none ends inside of a character of
a fragment.  The stream is text, with no white space around its lines but that of ASCII, and
characters that are not of ASCII are read as JSON says. -/
theorem sameAnswer_iff (hjson : ReadsForeign fromStr) (htext : chunks.flatten = Utf8.encode text)
    (hlines : ∀ line ∈ text.splitOn '\n', AsciiAround line) :
    SameAnswer fromStr chunks ↔
      FragmentsWhole fromStr ((marked text chunks).splitOnP (ends '\n')) := by
  obtain ⟨f, g, hf, hg, hspell, hdamage⟩ := decode_chunks htext
  have hnewline : '\n'.toNat < 128 := by decide
  have hlt : ∀ i, (f i).length < (g i).length := by
    intro i
    obtain ⟨c, hc, -⟩ := hf i
    have hlen := length_damage hg i
    rw [hc, List.length_singleton]
    omega
  have htextLines := splitOn_fill hf.fills hnewline (marked text chunks)
  rw [hspell] at htextLines
  have hfirm : ∀ line ∈ (marked text chunks).splitOnP (ends '\n'), Firm f line ∧ Firm g line := by
    intro line hline
    refine ⟨hf.firm (hlines _ ?_), hg.firm line⟩
    rw [htextLines]
    exact List.mem_map_of_mem hline
  rw [SameAnswer, htext, generateStreaming_whole, generateStreaming_eq, ← hdamage, htextLines,
    splitOn_fill hg.fills hnewline]
  constructor
  · intro hsame
    by_contra hcut
    have hshorter := length_fragments_lt hjson hf.fills hg.fills hfirm hlt hcut
    have htexts := (Prod.mk.inj (Except.ok.inj (Prod.mk.inj hsame).2)).1
    simp only [foldl_fullText] at htexts
    have hlen := congrArg List.length htexts
    simp only [List.length_append] at hlen
    omega
  · intro hwhole
    rw [foldl_fill_eq hjson hf.fills hg.fills hfirm hwhole]

end Answer

/-! ## Lines that hold a content and nothing else -/

section Plain

variable {f : ℕ → List Char}

/-- What a line begins with, before its content. -/
def opening : List Char := "\x7b\"message\":\x7b\"content\":\"".toList

/-- What a line ends with. -/
def closing : List Char := "\"\x7d\x7d".toList

/-- A reader of such lines, where `lit` is how characters are written. -/
def readPlain {α : Type} [DecidableEq α] (lit : Char → α) (t : List α) : Option (StreamLine α) :=
  if opening.map lit <+: t ∧ closing.map lit <:+ t.drop opening.length then
    some ⟨some ⟨(t.drop opening.length).rdrop closing.length, []⟩, false, 0, 0⟩
  else none

theorem readPlain_fill (hf : Fills f) (t : List (Char ⊕ ℕ)) :
    readPlain id (fill f t) = (readPlain .inl t).map (StreamLine.mapText (fill f)) := by
  have hopening : ∀ c ∈ opening, c.toNat < 128 := fun c hc =>
    of_decide_eq_true (List.all_eq_true.1 (by decide : opening.all (·.toNat < 128) = true) c hc)
  have hclosing : ∀ c ∈ closing, c.toNat < 128 := fun c hc =>
    of_decide_eq_true (List.all_eq_true.1 (by decide : closing.all (·.toNat < 128) = true) c hc)
  unfold readPlain
  rw [List.map_id, List.map_id]
  by_cases hstart : opening.map .inl <+: t
  · obtain ⟨u, rfl⟩ := hstart
    have hlen : (opening.map (.inl : Char → Char ⊕ ℕ)).length = opening.length := List.length_map _
    have hiff : closing <:+ fill f u ↔ closing.map .inl <:+ u := suffix_fill_iff hf hclosing
    have hdrop : (opening.map Sum.inl ++ u).drop opening.length = u := by rw [← hlen, List.drop_left]
    rw [fill_append, fill_map_inl, List.drop_left, hdrop]
    by_cases hend : closing.map .inl <:+ u
    · obtain ⟨v, rfl⟩ := hend
      rw [if_pos ⟨List.prefix_append _ _, hiff.2 (List.suffix_append _ _)⟩,
        if_pos ⟨List.prefix_append _ _, List.suffix_append _ _⟩, fill_append, fill_map_inl]
      simp [StreamLine.mapText, List.rdrop]
    · rw [if_neg (fun h => hend (hiff.1 h.2)), if_neg (fun h => hend h.2)]
      rfl
  · have hnot : ¬ opening <+: fill f t := by rwa [prefix_fill_iff hf hopening]
    rw [if_neg (fun h => hnot h.1), if_neg (fun h => hstart h.1)]
    rfl

theorem readsForeign_plain : ReadsForeign (readPlain id) :=
  fun t => ⟨readPlain .inl t, fun _ hf => readPlain_fill hf t⟩

/-- A line that comes in two chunks, neither of which ends inside of a character. -/
theorem same_in_two_chunks :
    SameAnswer (readPlain id) [Utf8.encode opening, Utf8.encode ('é' :: closing ++ ['\n'])] := by
  have htext : [Utf8.encode opening, Utf8.encode ('é' :: closing ++ ['\n'])].flatten =
      Utf8.encode (opening ++ ('é' :: closing ++ ['\n'])) := by
    simp only [List.flatten_cons, List.flatten_nil, List.append_nil, Utf8.encode_append]
  refine (sameAnswer_iff readsForeign_plain htext (by decide)).2 ?_
  have hnone : ∀ line ∈ (marked (opening ++ ('é' :: closing ++ ['\n']))
      [Utf8.encode opening, Utf8.encode ('é' :: closing ++ ['\n'])]).splitOnP (ends '\n'),
      ∀ x ∈ trimmed line, x.isLeft = true := by decide
  intro line hline obj hread i hi
  obtain ⟨j, hj⟩ := mem_of_reads hread hi
  exact absurd (hnone line hline _ hj) Bool.false_ne_true

/-- **The answer depends on the chunks**: a content of one character whose two bytes come in
different ones. -/
theorem character_in_two_chunks : ¬ ∀ fromStr : List Char → Option (StreamLine Char),
    ReadsForeign fromStr → ∀ (text : List Char) (chunks : List (List UInt8)),
      chunks.flatten = Utf8.encode text → (∀ line ∈ text.splitOn '\n', AsciiAround line) →
        SameAnswer fromStr chunks := by
  intro h
  have hsame := h (readPlain id) readsForeign_plain (opening ++ ('é' :: closing ++ ['\n']))
    [Utf8.encode opening ++ [0xC3], 0xA9 :: Utf8.encode (closing ++ ['\n'])] (by decide)
    (by decide)
  have hdeltas := congrArg Prod.fst hsame
  exact absurd hdeltas (by decide)

end Plain

end Ollama
end PeerClaw
