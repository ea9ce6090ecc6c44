import PeerClaw.Agent.Compaction
import PeerClaw.Agent.Runtime
import PeerClaw.Lib.Boundary

/-!
# Pruning a list of messages

`prune_conversation` in `agent/compaction.rs` shortens the conversation of the agent
runtime.  It goes over the messages after the system prompt and before a protected
tail in up to four passes — shorten long tool results, remove tool results, remove
answers, remove requests — and keeps account of the size of the conversation on the
way, so as to stop once it fits.

* `findProtectedBoundary`, `Pruner`, `Edit`, `pruneConversation` — the boundary, the
  messages with the tracked size, one step of a pass, and the passes.
* `byteLen_truncated_le_iff` — a tool result is not longer after it is shortened exactly
  when at least 32 bytes are left out: the marker that takes their place has so many.
* `truncation_tracked_iff` — when a text can be shortened at all, and when the tracked
  size stays the size of the messages.
-/

namespace PeerClaw

open Lib

/-! ## Messages -/

/-- The length of a message, in bytes. -/
def ChatMessage.len (msg : ChatMessage) : ℕ := Text.byteLen msg.content.toList

/-- How a message with a tool result begins. -/
def toolMessageMarkers : List (List Char) :=
  ["Tool result for ".toList, "Tool '".toList, "Tool error: ".toList]

/-- `is_tool_result_message`. -/
def isToolResultMessage (msg : ChatMessage) : Bool :=
  msg.role = .user && toolMessageMarkers.any fun marker => marker.isPrefixOf msg.content.toList

/-- A message of the user that is not a tool result. -/
def isTurn (msg : ChatMessage) : Bool := msg.role = .user && !isToolResultMessage msg

/-- `KEEP_RECENT_TURNS`. -/
def keepRecentTurns : ℕ := 4

/-- The loop of `find_protected_boundary` over the messages from the last one back. -/
def boundaryLoop : ℕ → List (ChatMessage × ℕ) → Option ℕ
  | _, [] => none
  | userCount, (msg, i) :: rest =>
      if isTurn msg then
        if keepRecentTurns ≤ userCount + 1 then some i else boundaryLoop (userCount + 1) rest
      else boundaryLoop userCount rest

/-- `find_protected_boundary`. -/
def findProtectedBoundary (messages : List ChatMessage) : ℕ :=
  let boundary := (boundaryLoop 0 (messages.zipIdx.drop 1).reverse).getD messages.length
  max (min boundary (messages.length - 1)) 1

/-! ## The passes -/

/-- The messages, with the tracked size. -/
structure Pruner where
  messages : List ChatMessage
  size : ℕ
  deriving DecidableEq

/-- One step of a pass. -/
inductive Edit
  | shorten (i : ℕ)
  | remove (i : ℕ)
  deriving DecidableEq

/-- The difference of two lengths, which wraps where the new one is larger. -/
def lengthSaved (old new : ℕ) : ℕ := if new ≤ old then old - new else 2 ^ 64 - (new - old)

/-- One step of the first pass; cutting inside a character panics. -/
def Pruner.shorten (p : Pruner) (i : ℕ) : Option Pruner :=
  p.messages[i]?.bind fun msg =>
    if isToolResultMessage msg ∧ toolResultTruncateChars < msg.len then
      (truncateToolResult msg.content.toList toolResultTruncateChars).map fun text =>
        let msg' : ChatMessage := { msg with content := String.ofList text }
        { messages := p.messages.set i msg', size := p.size - lengthSaved msg.len msg'.len }
    else some p

/-- One step of a later pass. -/
def Pruner.remove (p : Pruner) (i : ℕ) : Option Pruner :=
  p.messages[i]?.map fun msg =>
    { messages := p.messages.eraseIdx i, size := p.size - (msg.len + 20) }

/-- A step of a pass; nothing follows a panic. -/
def Edit.apply : Option Pruner → Edit → Option Pruner
  | none, _ => none
  | some p, .shorten i => p.shorten i
  | some p, .remove i => p.remove i

/-- The messages of a kind before the boundary are removed, from back to front. -/
def removals (kind : ChatMessage → Bool) (messages : List ChatMessage) (protectedStart : ℕ) :
    List Edit :=
  ((((messages.zipIdx.take protectedStart).drop 1).filter fun entry => kind entry.1).reverse).map
    fun entry => .remove entry.2

/-- Passes 2 to 4: each is made only if the conversation is still too large. -/
def laterPasses (maxChars : ℕ) : List (Pruner → List Edit) → Option Pruner → List Edit
  | [], _ => []
  | _, none => []
  | pass :: passes, some p =>
      if p.size ≤ maxChars then []
      else pass p ++ laterPasses maxChars passes (Machine.run Edit.apply (some p) (pass p))

/-- Pass 2 keeps to the boundary that was found before pass 1; passes 3 and 4 find it again. -/
def dropPassesOf (protectedStart : ℕ) : List (Pruner → List Edit) :=
  [fun p => removals isToolResultMessage p.messages protectedStart,
    fun p => removals (·.role = .assistant) p.messages (findProtectedBoundary p.messages),
    fun p => removals (·.role = .user) p.messages (findProtectedBoundary p.messages)]

/-- The conversation before the first pass. -/
def Pruner.start (messages : List ChatMessage) : Pruner :=
  ⟨messages, conversationCharSize messages⟩

/-- The steps of the first pass. -/
def shortenings (protectedStart : ℕ) : List Edit :=
  (List.range' 1 (protectedStart - 1)).map .shorten

/-- All steps of the passes over a conversation. -/
def pruneEdits (messages : List ChatMessage) (maxChars : ℕ) : List Edit :=
  if messages = [] ∨ conversationCharSize messages ≤ maxChars then []
  else
    let protectedStart := findProtectedBoundary messages
    shortenings protectedStart ++
      laterPasses maxChars (dropPassesOf protectedStart)
        (Machine.run Edit.apply (some (.start messages)) (shortenings protectedStart))

/-- The last resort: where the conversation is still too large, a system prompt of more than 2000
bytes is cut. -/
def lastResort (maxChars : ℕ) (p : Pruner) : Option (List ChatMessage) :=
  match p.messages with
  | [] => some []
  | first :: rest =>
      if maxChars < p.size ∧ first.role = .system ∧ 2000 < first.len then
        (truncateToolResult first.content.toList 2000).map fun text =>
          { first with content := String.ofList text } :: rest
      else some (first :: rest)

/-- `prune_conversation`; cutting inside a character panics. -/
def pruneConversation (messages : List ChatMessage) (maxChars : ℕ) : Option (List ChatMessage) :=
  (Machine.run Edit.apply (some (.start messages)) (pruneEdits messages maxChars)).bind
    (lastResort maxChars)

/-! ## Shortening a tool result -/

/-- What `truncate_tool_result` keeps of the bytes before the cut. -/
def keptBefore (head : List Char) : List Char :=
  ((beforeLast '\n' head).or (beforeLast ' ' head)).getD head

/-- The marker for what is left out. -/
def omittedMarker (n : ℕ) : List Char :=
  ("...(truncated, " ++ toString n ++ " chars omitted)").toList

/-- What comes before the last occurrence of a character is a beginning of the text. -/
theorem beforeLast_begins {c : Char} {cs before : List Char} (h : beforeLast c cs = some before) :
    before <+: cs := by
  unfold beforeLast at h
  split at h
  · cases h
    rw [← List.reverse_suffix, List.reverse_reverse]
    exact (List.tail_suffix _).trans (List.dropWhile_suffix _)
  · cases h

theorem keptBefore_begins (head : List Char) : keptBefore head <+: head := by
  unfold keptBefore
  cases hline : beforeLast '\n' head with
  | some before => exact beforeLast_begins hline
  | none =>
      cases hword : beforeLast ' ' head with
      | some before => exact beforeLast_begins hword
      | none => exact List.prefix_refl _

theorem byteLen_le_of_prefix {a b : List Char} (h : a <+: b) :
    Text.byteLen a ≤ Text.byteLen b := by
  obtain ⟨c, rfl⟩ := h
  simp

theorem byteLen_repr (n : ℕ) : Text.byteLen n.repr.toList = n.repr.length := by
  have hone : ∀ cs : List Char, (∀ c ∈ cs, c.isDigit = true) → Text.byteLen cs = cs.length := by
    intro cs
    induction cs with
    | nil => simp
    | cons c cs ih =>
        intro h
        have hc : c.utf8Size = 1 := by
          have hdigit := h c List.mem_cons_self
          simp only [Char.isDigit, Bool.and_eq_true, decide_eq_true_eq] at hdigit
          unfold Char.utf8Size
          rw [if_pos]
          exact UInt32.le_trans hdigit.2 (by decide)
        have hcs := ih fun d hd => h d (List.mem_cons_of_mem _ hd)
        rw [Text.byteLen_cons, hc, hcs, List.length_cons, Nat.add_comm]
  rw [hone, String.length_toList]
  intro c hc
  rw [Nat.repr_eq_ofList_toDigits, String.toList_ofList] at hc
  exact Nat.isDigit_of_mem_toDigits (by decide) (by decide) hc

theorem byteLen_omittedMarker (n : ℕ) :
    Text.byteLen (omittedMarker n) = 30 + n.repr.length := by
  have hbefore : Text.byteLen "...(truncated, ".toList = 15 := by decide
  have hafter : Text.byteLen " chars omitted)".toList = 15 := by decide
  have hn : (toString n).toList = n.repr.toList := rfl
  unfold omittedMarker
  rw [String.toList_append, String.toList_append, Text.byteLen_append, Text.byteLen_append, hbefore,
    hafter, hn, byteLen_repr]
  omega

/-- **The marker is no longer than what it stands for** exactly from 32 bytes on. -/
theorem byteLen_omittedMarker_le_iff (n : ℕ) :
    Text.byteLen (omittedMarker n) ≤ n ↔ 32 ≤ n := by
  have hone : n.repr.length ≤ 1 ↔ n < 10 ^ 1 := Nat.length_repr_le_iff (by omega)
  have htwo : n.repr.length ≤ 2 ↔ n < 10 ^ 2 := Nat.length_repr_le_iff (by omega)
  rw [byteLen_omittedMarker]
  by_cases hlarge : n < 10 ^ 2
  · omega
  · -- a number with more digits is larger than their number by far
    have hlen : n.repr.length ≤ n - 30 := by
      rw [Nat.length_repr_le_iff (by omega)]
      have hgrow : n - 30 < 2 ^ (n - 30) := Nat.lt_two_pow_self
      have hten : 2 ^ (n - 30) * (n - 30) ≤ 10 ^ (n - 30) := by
        calc 2 ^ (n - 30) * (n - 30) ≤ 2 ^ (n - 30) * 5 ^ (n - 30) :=
              Nat.mul_le_mul_left _ (Nat.lt_pow_self (by omega)).le
          _ = 10 ^ (n - 30) := by rw [← Nat.mul_pow]
      have hmany : 2 * 2 ^ (n - 30) ≤ 2 ^ (n - 30) * (n - 30) := by
        rw [Nat.mul_comm]
        exact Nat.mul_le_mul_left _ (by omega)
      omega
    omega

/-- The text can be cut at so many bytes, and at least 32 bytes are left out. -/
def Cuttable (content : List Char) (cut : ℕ) : Prop :=
  ∃ head rest, content = head ++ rest ∧ Text.byteLen head = cut ∧
    32 ≤ Text.byteLen content - Text.byteLen (keptBefore head)

theorem truncateToolResult_long {content : List Char} {maxChars : ℕ}
    (h : maxChars < Text.byteLen content) :
    truncateToolResult content maxChars = (Text.takeBytes maxChars content).map fun head =>
      keptBefore head ++
        omittedMarker (Text.byteLen content - Text.byteLen (keptBefore head)) := by
  rw [truncateToolResult, if_neg (by omega)]
  rfl

/-- **When a shortened text is not longer.** -/
theorem byteLen_truncated_le_iff {content : List Char} {maxChars : ℕ}
    (h : maxChars < Text.byteLen content) :
    (∃ out, truncateToolResult content maxChars = some out ∧
      Text.byteLen out ≤ Text.byteLen content) ↔ Cuttable content maxChars := by
  have hlen : ∀ head, head <+: content →
      (Text.byteLen (keptBefore head ++
        omittedMarker (Text.byteLen content - Text.byteLen (keptBefore head))) ≤
          Text.byteLen content ↔
        32 ≤ Text.byteLen content - Text.byteLen (keptBefore head)) := by
    intro head hhead
    have hle := byteLen_le_of_prefix ((keptBefore_begins head).trans hhead)
    rw [← byteLen_omittedMarker_le_iff, Text.byteLen_append]
    omega
  rw [truncateToolResult_long h]
  constructor
  · rintro ⟨out, hout, hle⟩
    obtain ⟨head, hhead, rfl⟩ := Option.map_eq_some_iff.1 hout
    obtain ⟨rest, hcontent, hcut⟩ := Text.takeBytes_eq_some_iff.1 hhead
    exact ⟨head, rest, hcontent, hcut, (hlen head ⟨rest, hcontent.symm⟩).1 hle⟩
  · rintro ⟨head, rest, hcontent, hcut, hleft⟩
    have hhead := Text.takeBytes_eq_some_iff.2 ⟨rest, hcontent, hcut⟩
    exact ⟨_, Option.map_eq_some_iff.2 ⟨head, hhead, rfl⟩,
      (hlen head ⟨rest, hcontent.symm⟩).2 hleft⟩

theorem byteLen_truncated_le {content out : List Char} {maxChars : ℕ}
    (h : truncateToolResult content maxChars = some out) :
    Text.byteLen out ≤ Text.byteLen content + 31 := by
  by_cases hfits : Text.byteLen content ≤ maxChars
  · rw [truncateToolResult, if_pos hfits] at h
    cases h
    omega
  · rw [truncateToolResult_long (not_le.1 hfits)] at h
    obtain ⟨head, hhead, rfl⟩ := Option.map_eq_some_iff.1 h
    obtain ⟨rest, hcontent, -⟩ := Text.takeBytes_eq_some_iff.1 hhead
    have hkept := byteLen_le_of_prefix ((keptBefore_begins head).trans ⟨rest, hcontent.symm⟩)
    generalize hn : Text.byteLen content - Text.byteLen (keptBefore head) = n
    have hdigits : n.repr.length ≤ n + 1 := by
      rw [Nat.length_repr_le_iff (by omega)]
      exact (Nat.lt_pow_self (by omega)).trans (Nat.pow_lt_pow_right (by omega) (by omega))
    rw [Text.byteLen_append, byteLen_omittedMarker]
    omega

/-! ## The tracked size -/

/-- What the first pass makes of a message. -/
def shortened (msg : ChatMessage) : Option ChatMessage :=
  if isToolResultMessage msg ∧ toolResultTruncateChars < msg.len then
    (truncateToolResult msg.content.toList toolResultTruncateChars).map fun text =>
      { msg with content := String.ofList text }
  else some msg

/-- The message after the first pass, if it does not panic. -/
def short (msg : ChatMessage) : ChatMessage := (shortened msg).getD msg

/-- A long tool result that can be shortened, or a message that the first pass leaves alone. -/
def Shortens (msg : ChatMessage) : Prop :=
  isToolResultMessage msg → toolResultTruncateChars < msg.len →
    Cuttable msg.content.toList toolResultTruncateChars

theorem shortens_iff (msg : ChatMessage) :
    Shortens msg ↔ ∃ msg', shortened msg = some msg' ∧ msg'.len ≤ msg.len := by
  unfold Shortens shortened
  by_cases hlong : isToolResultMessage msg ∧ toolResultTruncateChars < msg.len
  · rw [if_pos hlong, forall_prop_of_true hlong.1, forall_prop_of_true hlong.2,
      ← byteLen_truncated_le_iff hlong.2]
    constructor
    · rintro ⟨out, hout, hle⟩
      refine ⟨_, Option.map_eq_some_iff.2 ⟨out, hout, rfl⟩, ?_⟩
      simpa [ChatMessage.len] using hle
    · rintro ⟨msg', hmsg', hle⟩
      obtain ⟨out, hout, rfl⟩ := Option.map_eq_some_iff.1 hmsg'
      refine ⟨out, hout, ?_⟩
      simpa [ChatMessage.len] using hle
  · rw [if_neg hlong]
    constructor
    · intro _
      exact ⟨msg, rfl, le_rfl⟩
    · intro _ htool hlen
      exact absurd ⟨htool, hlen⟩ hlong

/-- **One step of the first pass.** -/
theorem shorten_at (before : List ChatMessage) (msg : ChatMessage) (after : List ChatMessage)
    (size : ℕ) :
    Edit.apply (some ⟨before ++ msg :: after, size⟩) (.shorten before.length) =
      (shortened msg).map fun msg' =>
        ⟨before ++ msg' :: after, size - lengthSaved msg.len msg'.len⟩ := by
  have hget : (before ++ msg :: after)[before.length]? = some msg := by simp
  rw [Edit.apply, Pruner.shorten, hget, Option.bind_some, shortened]
  split
  · rw [Option.map_map]
    congr 1
    funext text
    simp
  · simp [lengthSaved]

/-- The tracked size is the size of the messages. -/
def Tracks (s : Option Pruner) : Prop :=
  ∃ p, s = some p ∧ p.size = conversationCharSize p.messages

theorem conversationCharSize_append (xs ys : List ChatMessage) :
    conversationCharSize (xs ++ ys) = conversationCharSize xs + conversationCharSize ys := by
  simp [conversationCharSize]

theorem conversationCharSize_cons (msg : ChatMessage) (msgs : List ChatMessage) :
    conversationCharSize (msg :: msgs) = msg.len + 20 + conversationCharSize msgs := by
  simp [conversationCharSize, ChatMessage.len]

theorem tracks_start (messages : List ChatMessage) : Tracks (some (.start messages)) :=
  ⟨_, rfl, rfl⟩

/-- A step of the first pass keeps the tracked size exact when it makes the message no longer, and
then only. -/
theorem shorten_start {msg : ChatMessage} (h : Shortens msg) (before after : List ChatMessage) :
    Edit.apply (some (.start (before ++ msg :: after))) (.shorten before.length) =
      some (.start (before ++ short msg :: after)) := by
  obtain ⟨msg', hmsg', hle⟩ := (shortens_iff msg).1 h
  unfold Pruner.start
  rw [shorten_at, short, hmsg', Option.map_some, Option.getD_some, lengthSaved, if_pos hle,
    conversationCharSize_append, conversationCharSize_append, conversationCharSize_cons,
    conversationCharSize_cons]
  congr 2
  omega

theorem shortens_of_tracks (before : List ChatMessage) {msg : ChatMessage}
    (after : List ChatMessage)
    (h : Tracks (Edit.apply (some (.start (before ++ msg :: after))) (.shorten before.length))) :
    Shortens msg := by
  obtain ⟨p, hp, hsize⟩ := h
  unfold Pruner.start at hp
  rw [shorten_at] at hp
  obtain ⟨msg', hmsg', rfl⟩ := Option.map_eq_some_iff.1 hp
  refine (shortens_iff msg).2 ⟨msg', hmsg', ?_⟩
  simp only [conversationCharSize_append, conversationCharSize_cons] at hsize
  -- where the message grows, the tracked size does not
  omega

/-- **The first pass.**  The tracked size stays exact as long as no tool result grows. -/
theorem always_shortenings_iff (before old tail : List ChatMessage) :
    Machine.Always Edit.apply Tracks (some (.start (before ++ old ++ tail)))
        ((List.range' before.length old.length).map .shorten) ↔
      ∀ msg ∈ old, Shortens msg := by
  induction old generalizing before with
  | nil =>
      simp only [List.length_nil, List.range'_zero, List.map_nil, Machine.always_nil]
      exact iff_of_true (tracks_start _) (by simp)
  | cons msg old ih =>
      have hsplit : before ++ msg :: old ++ tail = before ++ msg :: (old ++ tail) := by simp
      rw [List.length_cons, List.range'_succ, List.map_cons, Machine.always_cons, hsplit,
        List.forall_mem_cons]
      constructor
      · rintro ⟨-, hrest⟩
        have hnow : Shortens msg := by
          apply shortens_of_tracks before (old ++ tail)
          exact hrest [] _ rfl
        refine ⟨hnow, ?_⟩
        rw [shorten_start hnow] at hrest
        apply (ih (before ++ [short msg])).1
        simpa using hrest
      · rintro ⟨hnow, hlater⟩
        refine ⟨tracks_start _, ?_⟩
        rw [shorten_start hnow]
        have hrest := (ih (before ++ [short msg])).2 hlater
        simpa using hrest

theorem old_messages (first : ChatMessage) (old tail : List ChatMessage) :
    ((first :: old ++ tail).zipIdx.take (old.length + 1)).drop 1 = old.zipIdx 1 := by
  rw [List.cons_append, List.zipIdx_cons, List.take_succ_cons, List.drop_one, List.tail_cons,
    List.zipIdx_append, ← List.length_zipIdx, List.take_left]

theorem removals_snoc (kind : ChatMessage → Bool) (first : ChatMessage) (old : List ChatMessage)
    (msg : ChatMessage) (tail : List ChatMessage) :
    removals kind (first :: (old ++ [msg]) ++ tail) ((old ++ [msg]).length + 1) =
      (if kind msg then [.remove (old.length + 1)] else []) ++
        removals kind (first :: old ++ tail) (old.length + 1) := by
  unfold removals
  rw [old_messages, old_messages, List.zipIdx_append, List.filter_append, List.reverse_append,
    List.map_append]
  congr 1
  by_cases hkind : kind msg
  · simp [hkind, Nat.add_comm]
  · simp [hkind]

theorem removals_tail (kind : ChatMessage → Bool) (first : ChatMessage)
    (old tail tail' : List ChatMessage) :
    removals kind (first :: old ++ tail) (old.length + 1) =
      removals kind (first :: old ++ tail') (old.length + 1) := by
  unfold removals
  rw [old_messages, old_messages]

/-- **A later pass.**  The messages of the kind before the boundary are gone, and the tracked size
is less by theirs. -/
theorem run_removals (kind : ChatMessage → Bool) (first : ChatMessage)
    (old tail : List ChatMessage) (size : ℕ) :
    Machine.run Edit.apply (some ⟨first :: old ++ tail, size⟩)
        (removals kind (first :: old ++ tail) (old.length + 1)) =
      some ⟨first :: old.filter (fun msg => !kind msg) ++ tail,
        size - conversationCharSize (old.filter kind)⟩ := by
  induction old using List.reverseRecOn generalizing tail size with
  | nil => simp [removals, conversationCharSize]
  | append_singleton old msg ih =>
      rw [removals_snoc, Machine.run_append]
      have hsplit : first :: (old ++ [msg]) ++ tail = first :: old ++ (msg :: tail) := by simp
      by_cases hkind : kind msg
      · have hstep : Machine.run Edit.apply (some ⟨first :: (old ++ [msg]) ++ tail, size⟩)
            (if kind msg then [.remove (old.length + 1)] else []) =
              some ⟨first :: old ++ tail, size - (msg.len + 20)⟩ := by
          rw [if_pos hkind, hsplit, Machine.run_cons, Machine.run_nil, Edit.apply, Pruner.remove]
          simp [List.eraseIdx_append_of_length_le]
        rw [hstep, ih]
        simp only [List.filter_append, List.filter_cons, List.filter_nil, hkind,
          conversationCharSize_append, conversationCharSize_cons, if_true, Bool.not_true,
          Option.some_inj]
        simp [conversationCharSize]
        omega
      · have hstep : Machine.run Edit.apply (some ⟨first :: (old ++ [msg]) ++ tail, size⟩)
            (if kind msg then [.remove (old.length + 1)] else []) =
              some ⟨first :: old ++ (msg :: tail), size⟩ := by
          rw [if_neg hkind, hsplit]
          rfl
        rw [hstep, removals_tail kind first old tail (msg :: tail), ih]
        simp [List.filter_append, hkind]

theorem conversationCharSize_filter (kind : ChatMessage → Bool) (msgs : List ChatMessage) :
    conversationCharSize msgs = conversationCharSize (msgs.filter kind) +
      conversationCharSize (msgs.filter fun msg => !kind msg) := by
  induction msgs with
  | nil => rfl
  | cons msg msgs ih =>
      rw [conversationCharSize_cons, ih]
      by_cases hkind : kind msg
      · rw [List.filter_cons_of_pos hkind, List.filter_cons_of_neg (by simp [hkind]),
          conversationCharSize_cons]
        omega
      · rw [List.filter_cons_of_neg hkind, List.filter_cons_of_pos (by simp [hkind]),
          conversationCharSize_cons]
        omega

theorem run_removals_start (kind : ChatMessage → Bool) (first : ChatMessage)
    (old tail : List ChatMessage) :
    Machine.run Edit.apply (some (.start (first :: old ++ tail)))
        (removals kind (first :: old ++ tail) (old.length + 1)) =
      some (.start (first :: old.filter (fun msg => !kind msg) ++ tail)) := by
  unfold Pruner.start
  rw [run_removals]
  congr 2
  simp only [List.cons_append, conversationCharSize_cons, conversationCharSize_append]
  have hcount := conversationCharSize_filter kind old
  omega

theorem run_none (edits : List Edit) : Machine.run Edit.apply none edits = none := by
  induction edits with
  | nil => rfl
  | cons edit edits ih => exact ih

theorem conversationCharSize_eraseIdx {messages : List ChatMessage} {i : ℕ} {msg : ChatMessage}
    (h : messages[i]? = some msg) :
    conversationCharSize messages =
      msg.len + 20 + conversationCharSize (messages.eraseIdx i) := by
  induction messages generalizing i with
  | nil => simp at h
  | cons first rest ih =>
      cases i with
      | zero =>
          cases h
          exact conversationCharSize_cons msg rest
      | succ i =>
          have hrest := ih (by simpa using h)
          rw [List.eraseIdx_cons_succ, conversationCharSize_cons, conversationCharSize_cons, hrest]
          omega

theorem tracks_remove {s : Option Pruner} {i : ℕ} (hs : Tracks s)
    (h : Edit.apply s (.remove i) ≠ none) : Tracks (Edit.apply s (.remove i)) := by
  obtain ⟨p, rfl, hsize⟩ := hs
  rw [Edit.apply, Pruner.remove] at h ⊢
  cases hget : p.messages[i]? with
  | none =>
      rw [hget] at h
      exact absurd rfl h
  | some msg =>
      refine ⟨_, rfl, ?_⟩
      have hcount := conversationCharSize_eraseIdx hget
      dsimp only
      omega

/-- Steps that remove messages keep the tracked size exact, unless one of them panics. -/
theorem always_tracks_removals {edits : List Edit} (hrem : ∀ edit ∈ edits, ∃ i, edit = .remove i)
    {s : Option Pruner} (hs : Tracks s) (hend : Machine.run Edit.apply s edits ≠ none) :
    Machine.Always Edit.apply Tracks s edits := by
  induction edits generalizing s with
  | nil => exact Machine.always_nil.2 hs
  | cons edit edits ih =>
      rw [Machine.run_cons] at hend
      obtain ⟨⟨i, rfl⟩, hlater⟩ := List.forall_mem_cons.1 hrem
      refine Machine.always_cons.2 ⟨hs, ih hlater (tracks_remove hs ?_) hend⟩
      intro hnone
      rw [hnone, run_none] at hend
      exact hend rfl

/-- A pass that keeps the tracked size exact and leaves the first message. -/
structure KeepsTrack (pass : Pruner → List Edit) (messages : List ChatMessage) : Prop where
  always : Machine.Always Edit.apply Tracks (some (.start messages)) (pass (.start messages))
  run : ∃ first rest, Machine.run Edit.apply (some (.start messages)) (pass (.start messages)) =
    some (.start (first :: rest))

theorem exists_split {messages : List ChatMessage} {boundary : ℕ} (hpos : 1 ≤ boundary)
    (hle : boundary ≤ messages.length) :
    ∃ first old tail, messages = first :: old ++ tail ∧ boundary = old.length + 1 := by
  cases messages with
  | nil =>
      rw [List.length_nil] at hle
      omega
  | cons first rest =>
      rw [List.length_cons] at hle
      refine ⟨first, rest.take (boundary - 1), rest.drop (boundary - 1), ?_, ?_⟩
      · rw [List.cons_append, List.take_append_drop]
      · rw [List.length_take]
        omega

theorem keepsTrack_removals (kind : ChatMessage → Bool) (boundary : List ChatMessage → ℕ)
    {messages : List ChatMessage} (hpos : 1 ≤ boundary messages)
    (hle : boundary messages ≤ messages.length) :
    KeepsTrack (fun p => removals kind p.messages (boundary p.messages)) messages := by
  obtain ⟨first, old, tail, rfl, hboundary⟩ := exists_split hpos hle
  have hrun := run_removals_start kind first old tail
  have hpass : removals kind (Pruner.start (first :: old ++ tail)).messages
      (boundary (Pruner.start (first :: old ++ tail)).messages) =
        removals kind (first :: old ++ tail) (old.length + 1) := congrArg _ hboundary
  constructor
  · rw [hpass]
    apply always_tracks_removals
    · intro edit hedit
      obtain ⟨entry, -, rfl⟩ := List.mem_map.1 hedit
      exact ⟨_, rfl⟩
    · exact tracks_start _
    · rw [hrun]
      exact Option.some_ne_none _
  · rw [hpass, hrun]
    exact ⟨first, _, rfl⟩

theorem one_le_findProtectedBoundary (messages : List ChatMessage) :
    1 ≤ findProtectedBoundary messages := le_max_right _ _

theorem findProtectedBoundary_le {messages : List ChatMessage} (h : messages ≠ []) :
    findProtectedBoundary messages ≤ messages.length := by
  have hpos : 1 ≤ messages.length := List.length_pos_iff.2 h
  exact max_le ((min_le_right _ _).trans (Nat.sub_le _ _)) hpos

theorem always_laterPasses (maxChars : ℕ) {passes : List (Pruner → List Edit)}
    (hpasses : ∀ pass ∈ passes, ∀ first rest, KeepsTrack pass (first :: rest))
    (first : ChatMessage) (rest : List ChatMessage) :
    Machine.Always Edit.apply Tracks (some (.start (first :: rest)))
      (laterPasses maxChars passes (some (.start (first :: rest)))) := by
  induction passes generalizing first rest with
  | nil => exact Machine.always_nil.2 (tracks_start _)
  | cons pass passes ih =>
      rw [laterPasses]
      split
      · exact Machine.always_nil.2 (tracks_start _)
      · obtain ⟨hpass, hpasses⟩ := List.forall_mem_cons.1 hpasses
        obtain ⟨first', rest', hrun⟩ := (hpass first rest).run
        rw [Machine.always_append, hrun]
        exact ⟨(hpass first rest).always, ih hpasses first' rest'⟩

/-- What is left by the first pass where the tracked size stays exact. -/
theorem run_shortenings (before old tail : List ChatMessage) (h : ∀ msg ∈ old, Shortens msg) :
    Machine.run Edit.apply (some (.start (before ++ old ++ tail)))
        ((List.range' before.length old.length).map .shorten) =
      some (.start (before ++ old.map short ++ tail)) := by
  induction old generalizing before with
  | nil => rfl
  | cons msg old ih =>
      obtain ⟨hnow, hlater⟩ := List.forall_mem_cons.1 h
      have hrun := ih (before ++ [short msg]) hlater
      have hsplit : before ++ msg :: old ++ tail = before ++ msg :: (old ++ tail) := by simp
      rw [List.length_cons, List.range'_succ, List.map_cons, Machine.run_cons, hsplit,
        shorten_start hnow]
      simpa using hrun

/-- **The tracked size of a conversation.**  It stays exact in all passes when it does in the first
one. -/
theorem always_tracks_iff (messages : List ChatMessage) (maxChars : ℕ) :
    Machine.Always Edit.apply Tracks (some (.start messages)) (pruneEdits messages maxChars) ↔
      conversationCharSize messages ≤ maxChars ∨
        ∀ msg ∈ (messages.take (findProtectedBoundary messages)).drop 1, Shortens msg := by
  rw [pruneEdits]
  split
  · rename_i hfits
    refine iff_of_true (Machine.always_nil.2 (tracks_start _)) ?_
    rcases hfits with rfl | hfits
    · simp [conversationCharSize]
    · exact .inl hfits
  · rename_i hlarge
    rw [not_or, not_le] at hlarge
    obtain ⟨first, old, tail, rfl, hboundary⟩ :=
      exists_split (one_le_findProtectedBoundary _) (findProtectedBoundary_le hlarge.1)
    have hold : ((first :: old ++ tail).take (old.length + 1)).drop 1 = old := by simp
    have hfirst : shortenings (old.length + 1) = (List.range' [first].length old.length).map
      .shorten := by simp [shortenings]
    have hiff := always_shortenings_iff [first] old tail
    rw [List.singleton_append] at hiff
    rw [hboundary, hold]
    dsimp only
    rw [hfirst, Machine.always_append, hiff, or_iff_right hlarge.2.not_ge]
    refine and_iff_left_of_imp ?_
    intro hold
    have hrun := run_shortenings [first] old tail hold
    rw [List.singleton_append, List.singleton_append] at hrun
    rw [hrun, dropPassesOf, laterPasses]
    split
    · exact Machine.always_nil.2 (tracks_start _)
    · have htools : KeepsTrack (fun p => removals isToolResultMessage p.messages (old.length + 1))
          (first :: old.map short ++ tail) := by
        apply keepsTrack_removals isToolResultMessage fun _ => old.length + 1
        · omega
        · simp
      obtain ⟨first', rest', hrun'⟩ := htools.run
      rw [Machine.always_append, hrun']
      refine ⟨htools.always, always_laterPasses maxChars ?_ first' rest'⟩
      intro pass hpass first rest
      have hle := findProtectedBoundary_le (List.cons_ne_nil first rest)
      rcases List.mem_pair.1 hpass with rfl | rfl
      · exact keepsTrack_removals _ _ (one_le_findProtectedBoundary _) hle
      · exact keepsTrack_removals _ _ (one_le_findProtectedBoundary _) hle

/-- **When a tool result is shortened safely**, and when the tracked size is the size of the
messages throughout. -/
theorem truncation_tracked_iff (content : List Char) (maxChars : ℕ) (messages : List ChatMessage)
    (maxSize : ℕ) :
    ((∃ out, truncateToolResult content maxChars = some out ∧
        Text.byteLen out ≤ Text.byteLen content) ↔
      Text.byteLen content ≤ maxChars ∨ Cuttable content maxChars) ∧
    (Machine.Always Edit.apply Tracks (some (.start messages)) (pruneEdits messages maxSize) ↔
      conversationCharSize messages ≤ maxSize ∨
        ∀ msg ∈ (messages.take (findProtectedBoundary messages)).drop 1, Shortens msg) := by
  refine ⟨?_, always_tracks_iff messages maxSize⟩
  by_cases hfits : Text.byteLen content ≤ maxChars
  · refine iff_of_true ⟨content, ?_, le_rfl⟩ (.inl hfits)
    rw [truncateToolResult, if_pos hfits]
  · rw [byteLen_truncated_le_iff (not_le.1 hfits), or_iff_right hfits]

/-- A result whose bytes from the seventh on are one long word and the given end. -/
def wordResult (ending : List Char) : List Char :=
  "Tool '".toList ++ List.replicate 493 'a' ++ ending

/-- A result of 501 bytes with its last blank before the cut becomes 530 bytes long, after which the
tracked size is not the size of the messages; and a letter of two bytes at the cut panics. -/
theorem shortening_grows :
    Text.byteLen (wordResult " b".toList) = 501 ∧
    (truncateToolResult (wordResult " b".toList) 500).map Text.byteLen = some 530 ∧
    ¬ Tracks (Edit.apply
      (some (.start [⟨.system, ""⟩, .user (String.ofList (wordResult " b".toList)), .user "hi"]))
      (.shorten 1)) ∧
    truncateToolResult (wordResult "éb".toList) 500 = none := by
  have hlen : Text.byteLen (wordResult " b".toList) = 501 := by decide +kernel
  have hgrows : (truncateToolResult (wordResult " b".toList) 500).map Text.byteLen = some 530 := by
    decide +kernel
  refine ⟨hlen, hgrows, ?_, by decide +kernel⟩
  intro htracks
  have hmsg : Shortens (.user (String.ofList (wordResult " b".toList))) :=
    shortens_of_tracks [⟨.system, ""⟩] [.user "hi"] htracks
  have hcontent : (ChatMessage.user (String.ofList (wordResult " b".toList))).content.toList =
      wordResult " b".toList := String.toList_ofList
  have htool : (toolMessageMarkers.any fun marker =>
      marker.isPrefixOf (wordResult " b".toList)) = true := by decide +kernel
  unfold Shortens ChatMessage.len isToolResultMessage at hmsg
  rw [hcontent, hlen, htool] at hmsg
  have hcut := hmsg rfl (by decide)
  obtain ⟨out, hout, hle⟩ := (byteLen_truncated_le_iff (by rw [hlen]; decide)).2 hcut
  rw [toolResultTruncateChars] at hout
  rw [hout] at hgrows
  have hout' : Text.byteLen out = 530 := Option.some.inj hgrows
  omega

end PeerClaw
