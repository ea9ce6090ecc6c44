import PeerClaw.Agent.Pruning

/-!
# What pruning keeps

Which messages `prune_conversation` in `agent/compaction.rs` is to keep: the system
prompt, and a tail that begins with the fourth-last request of the user.  The tail is
protected from there on only if there are four requests: where there are fewer,
`find_protected_boundary` leaves its start at the end of the conversation, and only the
last message is protected.

* `keptStart` — where the tail begins.
* `PruneKeeps` — what the pruned conversation owes the one before.
* `Layout` — a conversation cut into what is before the tail, the part of the tail that
  the passes can reach, and the part that they cannot.
* `pruneConversation_keeps_iff` — when the pruned conversation is as it should be.
-/

namespace PeerClaw

open Lib

/-! ## The tail -/

/-- Where the tail begins: at the first request that at most three others follow, and at the last
message if there is no request. -/
def keptStart : List ChatMessage → ℕ
  | [] => 0
  | msg :: rest =>
      if rest = [] ∨ (isTurn msg ∧ rest.countP isTurn < 4) then 0 else keptStart rest + 1

/-- The start of the tail, by the number of requests. -/
inductive KeptStart (rest : List ChatMessage) : Prop
  | fourth (before : List ChatMessage) (turn : ChatMessage) (after : List ChatMessage)
      (split : rest = before ++ turn :: after) (isTurn : isTurn turn)
      (three : after.countP PeerClaw.isTurn = 3) (start : keptStart rest = before.length)
  | first (before : List ChatMessage) (turn : ChatMessage) (after : List ChatMessage)
      (split : rest = before ++ turn :: after) (isTurn : isTurn turn)
      (none : before.countP PeerClaw.isTurn = 0) (few : after.countP PeerClaw.isTurn < 3)
      (start : keptStart rest = before.length)
  | last (none : rest.countP PeerClaw.isTurn = 0) (start : keptStart rest = rest.length - 1)

theorem keptStart_cases (rest : List ChatMessage) : KeptStart rest := by
  induction rest with
  | nil => exact .last rfl rfl
  | cons msg rest ih =>
      by_cases hhere : isTurn msg ∧ rest.countP isTurn < 4
      · have hstart : keptStart (msg :: rest) = 0 := if_pos (.inr hhere)
        by_cases hthree : rest.countP isTurn = 3
        · exact .fourth [] msg rest rfl hhere.1 hthree hstart
        · exact .first [] msg rest rfl hhere.1 rfl (by omega) hstart
      · by_cases hrest : rest = []
        · subst hrest
          refine .last ?_ rfl
          simp only [List.countP_nil, Nat.zero_lt_succ, and_true] at hhere
          simp [hhere]
        · have hstart : keptStart (msg :: rest) = keptStart rest + 1 :=
            if_neg (not_or.2 ⟨hrest, hhere⟩)
          cases ih with
          | fourth before turn after hsplit hturn hthree hbefore =>
              refine .fourth (msg :: before) turn after ?_ hturn hthree ?_
              · rw [hsplit, List.cons_append]
              · rw [hstart, hbefore, List.length_cons]
          | first before turn after hsplit hturn hnone hfew hbefore =>
              have hfour : rest.countP isTurn < 4 := by
                rw [hsplit, List.countP_append, List.countP_cons_of_pos hturn]
                omega
              have hmsg : ¬ isTurn msg := fun hmsg => hhere ⟨hmsg, hfour⟩
              refine .first (msg :: before) turn after ?_ hturn ?_ hfew ?_
              · rw [hsplit, List.cons_append]
              · rw [List.countP_cons_of_neg hmsg, hnone]
              · rw [hstart, hbefore, List.length_cons]
          | last hnone hlast =>
              have hmsg : ¬ isTurn msg := fun hmsg => hhere ⟨hmsg, by omega⟩
              have hlen := List.length_pos_iff.2 hrest
              refine .last ?_ ?_
              · rw [List.countP_cons_of_neg hmsg, hnone]
              · rw [hstart, hlast, List.length_cons]
                omega

/-! ## The boundary -/

theorem boundaryLoop_append (xs ys : List (ChatMessage × ℕ)) (userCount : ℕ)
    (h : userCount + xs.countP (fun entry => isTurn entry.1) < 4) :
    boundaryLoop userCount (xs ++ ys) =
      boundaryLoop (userCount + xs.countP fun entry => isTurn entry.1) ys := by
  induction xs generalizing userCount with
  | nil => rfl
  | cons entry xs ih =>
      obtain ⟨msg, i⟩ := entry
      rw [List.cons_append, boundaryLoop]
      by_cases hmsg : isTurn msg
      · rw [List.countP_cons_of_pos (by exact hmsg)] at h ⊢
        rw [if_pos hmsg, if_neg (by unfold keepRecentTurns; omega), ih _ (by omega)]
        congr 1
        omega
      · rw [List.countP_cons_of_neg (by exact hmsg)] at h ⊢
        rw [if_neg hmsg, ih _ h]

theorem countP_zipIdx (msgs : List ChatMessage) (k : ℕ) :
    (msgs.zipIdx k).reverse.countP (fun entry => isTurn entry.1) = msgs.countP isTurn := by
  have hfst : msgs = (msgs.zipIdx k).map Prod.fst := by simp
  conv_rhs => rw [hfst, List.countP_map]
  rw [List.countP_reverse]
  rfl

/-- **The boundary is at the fourth-last request.** -/
theorem findProtectedBoundary_fourth (first : ChatMessage) (before : List ChatMessage)
    {turn : ChatMessage} {after : List ChatMessage} (hturn : isTurn turn)
    (hthree : after.countP isTurn = 3) :
    findProtectedBoundary (first :: (before ++ turn :: after)) = before.length + 1 := by
  have hlen : 3 ≤ after.length := hthree ▸ List.countP_le_length
  have hloop : boundaryLoop 0 ((first :: (before ++ turn :: after)).zipIdx.drop 1).reverse =
      some (before.length + 1) := by
    rw [List.zipIdx_cons, List.drop_one, List.tail_cons, List.zipIdx_append, List.zipIdx_cons,
      List.reverse_append, List.reverse_cons, List.append_assoc, boundaryLoop_append]
    · rw [countP_zipIdx, hthree, List.singleton_append, boundaryLoop, if_pos hturn,
        if_pos (by decide)]
      congr 1
      omega
    · rw [countP_zipIdx, hthree]
      decide
  unfold findProtectedBoundary
  rw [hloop]
  simp only [Option.getD_some, List.length_cons, List.length_append]
  omega

/-- **With fewer requests the boundary is before the last message.** -/
theorem findProtectedBoundary_few (first : ChatMessage) {rest : List ChatMessage}
    (h : rest.countP isTurn < 4) : findProtectedBoundary (first :: rest) = max rest.length 1 := by
  have hloop : boundaryLoop 0 ((first :: rest).zipIdx.drop 1).reverse = none := by
    rw [List.zipIdx_cons, List.drop_one, List.tail_cons, ← List.append_nil (List.reverse _),
      boundaryLoop_append]
    · rfl
    · rw [countP_zipIdx]
      omega
  unfold findProtectedBoundary
  rw [hloop]
  simp only [Option.getD_none, List.length_cons]
  omega

/-- The messages after the system prompt: what is before the tail, the part of the tail that the
passes reach, and what they do not reach. -/
inductive Layout (before exposed guarded : List ChatMessage) : Prop
  | fourth (turn : ChatMessage) (after : List ChatMessage) (isTurn : isTurn turn)
      (three : after.countP PeerClaw.isTurn = 3) (guarded : guarded = turn :: after)
      (exposed : exposed = [])
  | few (count : (exposed ++ guarded).countP isTurn < 4) (single : guarded.length ≤ 1)
      (empty : guarded = [] → before = [] ∧ exposed = [])
      (head : exposed = [] ∨ ∃ turn after, exposed = turn :: after ∧ PeerClaw.isTurn turn)

/-- **Every conversation has a layout.** -/
theorem exists_layout (first : ChatMessage) (rest : List ChatMessage) :
    ∃ before exposed guarded, rest = before ++ exposed ++ guarded ∧
      keptStart rest = before.length ∧
      findProtectedBoundary (first :: rest) = before.length + exposed.length + 1 ∧
      Layout before exposed guarded := by
  cases keptStart_cases rest with
  | fourth before turn after hsplit hturn hthree hstart =>
      refine ⟨before, [], turn :: after, by simpa using hsplit, hstart, ?_,
        .fourth turn after hturn hthree rfl rfl⟩
      rw [hsplit, findProtectedBoundary_fourth first before hturn hthree]
      rfl
  | first before turn after hsplit hturn hnone hfew hstart =>
      have hcount : rest.countP isTurn < 4 := by
        rw [hsplit, List.countP_append, List.countP_cons_of_pos hturn]
        omega
      rcases List.eq_nil_or_concat' after with rfl | ⟨after, last, rfl⟩
      · refine ⟨before, [], [turn], by simpa using hsplit, hstart, ?_, ?_⟩
        · rw [findProtectedBoundary_few first hcount, hsplit]
          simp
        · refine .few ?_ (by simp) (by simp) (.inl rfl)
          simp [hturn]
      · refine ⟨before, turn :: after, [last], by simpa using hsplit, hstart, ?_, ?_⟩
        · rw [findProtectedBoundary_few first hcount, hsplit]
          simp
          omega
        · refine .few ?_ (by simp) (by simp) (.inr ⟨turn, after, rfl, hturn⟩)
          rw [List.cons_append, List.countP_cons_of_pos hturn]
          omega
  | last hnone hstart =>
      rcases List.eq_nil_or_concat' rest with rfl | ⟨before, last, rfl⟩
      · refine ⟨[], [], [], rfl, hstart, ?_, .few (by simp) (by simp) (by simp) (.inl rfl)⟩
        exact findProtectedBoundary_few first (by simp)
      · rw [List.countP_append] at hnone
        refine ⟨before, [], [last], by simp, by simpa using hstart, ?_, ?_⟩
        · rw [findProtectedBoundary_few first (by rw [List.countP_append]; omega)]
          simp
        · refine .few ?_ (by simp) (by simp) (.inl rfl)
          rw [List.nil_append]
          omega

theorem exists_fourth {msgs : List ChatMessage} (h : 4 ≤ msgs.countP isTurn) :
    ∃ before turn after, msgs = before ++ turn :: after ∧ isTurn turn ∧
      after.countP isTurn = 3 := by
  cases keptStart_cases msgs with
  | fourth before turn after hsplit hturn hthree hstart =>
      exact ⟨before, turn, after, hsplit, hturn, hthree⟩
  | first before turn after hsplit hturn hnone hfew hstart =>
      rw [hsplit, List.countP_append, List.countP_cons_of_pos hturn] at h
      omega
  | last hnone hstart => omega

theorem Layout.exists_turn {before exposed guarded : List ChatMessage}
    (h : Layout before exposed guarded) (hexposed : exposed ≠ []) : ∃ turn ∈ exposed, isTurn turn := by
  cases h with
  | fourth turn after hturn hthree hguarded hnil => exact absurd hnil hexposed
  | few hcount hsingle hempty hhead =>
      obtain ⟨turn, after, rfl, hturn⟩ := hhead.resolve_left hexposed
      exact ⟨turn, List.mem_cons_self, hturn⟩

/-- **The boundary after the second pass.**  It is in what is left before the tail, at its end or at
a request in it, or it exposes a part of the tail. -/
theorem Layout.boundary_after {before exposed guarded : List ChatMessage}
    (h : Layout before exposed guarded) (first : ChatMessage) {left : List ChatMessage}
    (hleft : before = [] → left = []) :
    (∃ loose held, left = loose ++ held ∧
      findProtectedBoundary (first :: (left ++ exposed ++ guarded)) = loose.length + 1 ∧
      (held = [] ∨ ∃ turn ∈ held, isTurn turn)) ∨
    (exposed ≠ [] ∧ findProtectedBoundary (first :: (left ++ exposed ++ guarded)) =
      left.length + exposed.length + 1) := by
  cases h with
  | fourth turn after hturn hthree hguarded hexposed =>
      subst hguarded hexposed
      refine .inl ⟨left, [], (List.append_nil left).symm, ?_, .inl rfl⟩
      rw [List.append_nil]
      exact findProtectedBoundary_fourth first left hturn hthree
  | few hcount hsingle hempty hhead =>
      by_cases hfew : (left ++ exposed ++ guarded).countP isTurn < 4
      · have hboundary : findProtectedBoundary (first :: (left ++ exposed ++ guarded)) =
            left.length + exposed.length + 1 := by
          rw [findProtectedBoundary_few first hfew]
          cases guarded with
          | nil =>
              obtain ⟨rfl, rfl⟩ := hempty rfl
              rw [hleft rfl]
              rfl
          | cons last guarded =>
              simp only [List.length_append, List.length_cons] at hsingle ⊢
              omega
        rcases hhead with rfl | ⟨turn, after, rfl, -⟩
        · exact .inl ⟨left, [], (List.append_nil left).symm, hboundary, .inl rfl⟩
        · exact .inr ⟨List.cons_ne_nil _ _, hboundary⟩
      · -- the fourth-last request is not in the tail
        obtain ⟨loose, turn, after, hsplit, hturn, hthree⟩ := exists_fourth (not_lt.1 hfew)
        have hboundary := findProtectedBoundary_fourth first loose hturn hthree
        rw [← hsplit] at hboundary
        rw [List.append_assoc] at hsplit hboundary ⊢
        rcases List.append_eq_append_iff.1 hsplit with ⟨more, hloose, htail⟩ | ⟨held, hheld, hafter⟩
        · rw [htail, List.countP_append, List.countP_cons_of_pos hturn] at hcount
          omega
        · cases held with
          | nil =>
              rw [List.nil_append] at hafter
              rw [← hafter, List.countP_cons_of_pos hturn] at hcount
              omega
          | cons turn' held =>
              obtain ⟨rfl, -⟩ := List.cons.inj hafter
              exact .inl ⟨loose, turn :: held, hheld, hboundary,
                .inr ⟨turn, List.mem_cons_self, hturn⟩⟩

/-- **A pass does not move the boundary**: the requests after it are still there. -/
theorem boundary_filter {first : ChatMessage} {old tail : List ChatMessage}
    (h : findProtectedBoundary (first :: (old ++ tail)) = old.length + 1)
    (p : ChatMessage → Bool) :
    findProtectedBoundary (first :: (old.filter p ++ tail)) = (old.filter p).length + 1 := by
  by_cases hfew : (old ++ tail).countP isTurn < 4
  · have hfew' : (old.filter p ++ tail).countP isTurn < 4 := by
      rw [List.countP_append] at hfew ⊢
      have hle := (List.filter_sublist (p := p) (l := old)).countP_le (p := isTurn)
      omega
    rw [findProtectedBoundary_few first hfew, List.length_append] at h
    rw [findProtectedBoundary_few first hfew', List.length_append]
    have hlen := List.length_filter_le p old
    omega
  · obtain ⟨before, turn, after, hsplit, hturn, hthree⟩ := exists_fourth (not_lt.1 hfew)
    have hboundary := findProtectedBoundary_fourth first before hturn hthree
    rw [← hsplit, h] at hboundary
    obtain ⟨rfl, rfl⟩ := List.append_inj hsplit (by omega)
    exact findProtectedBoundary_fourth first _ hturn hthree

/-! ## What the pruned conversation owes -/

/-- A message that survives is itself, or a tool result that is shortened. -/
def Survives (msg msg' : ChatMessage) : Prop :=
  msg' = msg ∨ (isToolResultMessage msg ∧ shortened msg = some msg')

/-- The messages that survive, in their order. -/
def Survivors (before before' : List ChatMessage) : Prop :=
  ∃ kept, kept.Sublist before ∧ List.Forall₂ Survives kept before'

/-- There is nothing left of the user or the assistant. -/
def NothingLeft (before' : List ChatMessage) : Prop := ∀ msg ∈ before', msg.role = .system

/-- The system prompt is kept, and cut only where there is nothing else left. -/
def PromptKept (first first' : ChatMessage) (before' : List ChatMessage) : Prop :=
  first' = first ∨ (NothingLeft before' ∧
    ∃ text, truncateToolResult first.content.toList 2000 = some text ∧
      first' = { first with content := String.ofList text })

/-- **What the pruned conversation owes** the system prompt, the messages before the tail, and the
tail: the prompt and the tail, the other survivors in their order, and the limit unless nothing
else is left. -/
def Owed (maxChars : ℕ) (first : ChatMessage) (before tail result : List ChatMessage) : Prop :=
  ∃ first' before', result = first' :: (before' ++ tail) ∧
    PromptKept first first' before' ∧ Survivors before before' ∧
    (conversationCharSize result ≤ maxChars ∨ NothingLeft before')

/-- What it owes the system prompt and the messages after it. -/
def PruneKeeps (maxChars : ℕ) (first : ChatMessage) (rest result : List ChatMessage) : Prop :=
  Owed maxChars first (rest.take (keptStart rest)) (rest.drop (keptStart rest)) result

/-! ## When it does -/

/-- A tool result that the first pass shortens. -/
def IsLong (msg : ChatMessage) : Prop :=
  isToolResultMessage msg ∧ toolResultTruncateChars < msg.len

instance (msg : ChatMessage) : Decidable (IsLong msg) := inferInstanceAs (Decidable (_ ∧ _))

/-- The first pass does not panic at the message. -/
def Cuts (msg : ChatMessage) : Prop :=
  IsLong msg → Text.IsBoundary toolResultTruncateChars msg.content.toList

/-- Not an answer of the assistant. -/
def notAnswer (msg : ChatMessage) : Bool := !decide (msg.role = .assistant)

/-- Not a message of the user. -/
def notUser (msg : ChatMessage) : Bool := !decide (msg.role = .user)

/-- The third and the fourth pass keep the tail: the boundary is not in it and the conversation fits
or has nothing left before the tail, or the conversation fits without the answers before the tail
and there is no answer in what is exposed of it. -/
def LaterPassesKeep (maxChars : ℕ) (first : ChatMessage) (left exposed guarded : List ChatMessage) :
    Prop :=
  let boundary := findProtectedBoundary (first :: (left ++ exposed ++ guarded)) - 1
  let loose := left.take boundary
  let held := left.drop boundary
  if boundary ≤ left.length then
    conversationCharSize
        (first :: (((loose.filter notAnswer).filter notUser ++ held) ++ exposed ++ guarded)) ≤
      maxChars ∨
    held = [] ∧ (first.role = .system → 2000 < first.len →
      Text.IsBoundary 2000 first.content.toList)
  else
    (∀ msg ∈ exposed, notAnswer msg) ∧
      conversationCharSize (first :: (left.filter notAnswer ++ exposed ++ guarded)) ≤ maxChars

/-- **When pruning does what it owes.**  The conversation fits.  Or every long tool result before
the tail can be cut and none is in the exposed part of the tail; and then the conversation fits
with these results shortened, or no result becomes longer, there is no tool result in the exposed
part, and the conversation fits without the tool results before the tail or the later passes keep
the tail. -/
def PrunesWell (maxChars : ℕ) (first : ChatMessage) (before exposed guarded : List ChatMessage) :
    Prop :=
  let size := fun left => conversationCharSize (first :: (left ++ exposed ++ guarded))
  let cut := before.map short
  let left := cut.filter fun msg => !isToolResultMessage msg
  size before ≤ maxChars ∨
    (∀ msg ∈ before, Cuts msg) ∧ (∀ msg ∈ exposed, ¬ IsLong msg) ∧
      (size cut ≤ maxChars ∨
        (∀ msg ∈ before, Shortens msg) ∧ (∀ msg ∈ exposed, !isToolResultMessage msg) ∧
          (size left ≤ maxChars ∨ LaterPassesKeep maxChars first left exposed guarded))

/-! ## Shortened messages -/

theorem shortened_of_not_long {msg : ChatMessage} (h : ¬ IsLong msg) : shortened msg = some msg :=
  if_neg h

theorem shortened_of_long {msg : ChatMessage} (h : IsLong msg) :
    shortened msg = (truncateToolResult msg.content.toList toolResultTruncateChars).map fun text =>
      { msg with content := String.ofList text } :=
  if_pos h

theorem short_of_not_long {msg : ChatMessage} (h : ¬ IsLong msg) : short msg = msg := by
  rw [short, shortened_of_not_long h, Option.getD_some]

/-- The first pass panics exactly where a long tool result cannot be cut. -/
theorem shortened_eq_none_iff (msg : ChatMessage) : shortened msg = none ↔ ¬ Cuts msg := by
  unfold Cuts
  rw [Classical.not_imp]
  by_cases hlong : IsLong msg
  · rw [shortened_of_long hlong, truncateToolResult_long hlong.2, Option.map_map,
      Option.map_eq_none_iff, ← Text.isSome_takeBytes_iff, Option.not_isSome_iff_eq_none]
    exact (and_iff_right hlong).symm
  · rw [shortened_of_not_long hlong]
    simp [hlong]

theorem shortened_of_cuts {msg : ChatMessage} (h : Cuts msg) : shortened msg = some (short msg) := by
  cases hshort : shortened msg with
  | none => exact absurd h ((shortened_eq_none_iff msg).1 hshort)
  | some msg' => rw [short, hshort, Option.getD_some]

theorem cuts_of_shortens {msg : ChatMessage} (h : Shortens msg) : Cuts msg := by
  rintro ⟨htool, hlen⟩
  obtain ⟨head, rest, hcontent, hcut, -⟩ := h htool hlen
  exact ⟨head, rest, hcontent, hcut⟩

theorem short_content {msg : ChatMessage} (hlong : IsLong msg) (h : Cuts msg) :
    ∃ head rest, msg.content.toList = head ++ rest ∧ Text.byteLen head = toolResultTruncateChars ∧
      (short msg).content.toList = keptBefore head ++
        omittedMarker (msg.len - Text.byteLen (keptBefore head)) := by
  obtain ⟨head, rest, hcontent, hcut⟩ := h hlong
  refine ⟨head, rest, hcontent, hcut, ?_⟩
  have htake := Text.takeBytes_eq_some_iff.2 ⟨rest, hcontent, hcut⟩
  rw [short, shortened_of_long hlong, truncateToolResult_long hlong.2, htake]
  exact String.toList_ofList

theorem short_role (msg : ChatMessage) : (short msg).role = msg.role := by
  unfold short shortened
  split
  · cases truncateToolResult msg.content.toList toolResultTruncateChars with
    | none => rfl
    | some text => rfl
  · rfl

theorem short_len_le (msg : ChatMessage) : (short msg).len ≤ msg.len + 31 := by
  by_cases hcuts : Cuts msg
  · by_cases hlong : IsLong msg
    · have hshort := shortened_of_cuts hcuts
      rw [shortened_of_long hlong] at hshort
      obtain ⟨out, hout, hmsg⟩ := Option.map_eq_some_iff.1 hshort
      have hlen := byteLen_truncated_le hout
      rw [← hmsg]
      simpa [ChatMessage.len] using hlen
    · rw [short_of_not_long hlong]
      omega
  · rw [short, (shortened_eq_none_iff msg).2 hcuts, Option.getD_none]
    omega

/-- The text goes on with the character after what comes before its last occurrence. -/
theorem exists_of_beforeLast {c : Char} {cs before : List Char} (h : beforeLast c cs = some before) :
    ∃ after, cs = before ++ c :: after := by
  unfold beforeLast at h
  split at h
  · rename_i hmem
    cases h
    obtain ⟨s, t, hcs, hs⟩ := List.eq_append_cons_of_mem (List.mem_reverse.2 hmem)
    have hdrop : cs.reverse.dropWhile (· ≠ c) = c :: t := by
      rw [hcs, List.dropWhile_append_of_pos, List.dropWhile_cons_of_neg]
      · simp
      · intro d hd
        have hne : d ≠ c := fun heq => hs (heq ▸ hd)
        simpa using hne
    refine ⟨s.reverse, ?_⟩
    rw [hdrop, List.tail_cons, ← List.reverse_reverse cs, hcs]
    simp
  · cases h

/-- In a text with a blank, something is left out behind a blank or a line feed. -/
theorem exists_of_keptBefore {head : List Char} (h : ' ' ∈ head) :
    ∃ c after, head = keptBefore head ++ c :: after ∧ c ≠ '.' := by
  unfold keptBefore
  cases hline : beforeLast '\n' head with
  | some before =>
      obtain ⟨after, hafter⟩ := exists_of_beforeLast hline
      exact ⟨'\n', after, hafter, by decide⟩
  | none =>
      cases hword : beforeLast ' ' head with
      | some before =>
          obtain ⟨after, hafter⟩ := exists_of_beforeLast hword
          exact ⟨' ', after, hafter, by decide⟩
      | none =>
          rw [beforeLast, if_pos h] at hword
          cases hword

/-- **Shortening changes a long tool result.** -/
theorem short_ne_self {msg : ChatMessage} (hlong : IsLong msg) (h : Cuts msg) : short msg ≠ msg := by
  intro hself
  obtain ⟨head, rest, hcontent, hcut, hshort⟩ := short_content hlong h
  rw [hself, hcontent] at hshort
  -- a tool result has a blank in the marker with which it begins
  have hblank : ' ' ∈ head := by
    have htool := hlong.1
    unfold isToolResultMessage at htool
    simp only [Bool.and_eq_true, List.any_eq_true, List.isPrefixOf_iff_prefix] at htool
    obtain ⟨-, marker, hmem, hmarker⟩ := htool
    have hmarkers : ∀ marker ∈ toolMessageMarkers, ' ' ∈ marker ∧ Text.byteLen marker ≤ 500 := by
      decide
    have hle : Text.byteLen marker ≤ Text.byteLen head := hcut ▸ (hmarkers marker hmem).2
    exact (Text.prefix_of_byteLen_le hmarker ⟨rest, hcontent.symm⟩ hle).subset
      (hmarkers marker hmem).1
  obtain ⟨c, after, hhead, hc⟩ := exists_of_keptBefore hblank
  have hdots : "...(truncated, ".toList = '.' :: "..(truncated, ".toList := by decide
  have hmarker : ∀ n, ∃ more, omittedMarker n = '.' :: more := by
    intro n
    rw [omittedMarker, String.toList_append, String.toList_append, hdots]
    exact ⟨_, rfl⟩
  obtain ⟨more, hmore⟩ := hmarker (msg.len - Text.byteLen (keptBefore head))
  rw [hmore] at hshort
  conv_lhs at hshort => rw [hhead, List.append_assoc]
  exact hc (List.cons.inj (List.append_cancel_left hshort)).1

/-! ## The passes as functions of the messages -/

/-- The tracked size after the first pass over some messages. -/
def trackedAfter : ℕ → List ChatMessage → ℕ
  | size, [] => size
  | size, msg :: msgs => trackedAfter (size - lengthSaved msg.len (short msg).len) msgs

theorem run_shortenings_cut (before old tail : List ChatMessage) (size : ℕ)
    (h : ∀ msg ∈ old, Cuts msg) :
    Machine.run Edit.apply (some ⟨before ++ old ++ tail, size⟩)
        ((List.range' before.length old.length).map .shorten) =
      some ⟨before ++ old.map short ++ tail, trackedAfter size old⟩ := by
  induction old generalizing before size with
  | nil => rfl
  | cons msg old ih =>
      obtain ⟨hnow, hlater⟩ := List.forall_mem_cons.1 h
      have hrun := ih (before ++ [short msg]) (size - lengthSaved msg.len (short msg).len) hlater
      have hsplit : before ++ msg :: old ++ tail = before ++ msg :: (old ++ tail) := by simp
      rw [List.length_cons, List.range'_succ, List.map_cons, Machine.run_cons, hsplit, shorten_at,
        shortened_of_cuts hnow, Option.map_some]
      simpa [trackedAfter] using hrun

theorem run_shortenings_panic (before old tail : List ChatMessage) (size : ℕ)
    (h : ∃ msg ∈ old, ¬ Cuts msg) :
    Machine.run Edit.apply (some ⟨before ++ old ++ tail, size⟩)
        ((List.range' before.length old.length).map .shorten) = none := by
  induction old generalizing before size with
  | nil => simp at h
  | cons msg old ih =>
      have hsplit : before ++ msg :: old ++ tail = before ++ msg :: (old ++ tail) := by simp
      rw [List.length_cons, List.range'_succ, List.map_cons, Machine.run_cons, hsplit, shorten_at]
      by_cases hnow : Cuts msg
      · obtain ⟨msg', hmem, hmsg'⟩ := h
        have hlater : ∃ msg ∈ old, ¬ Cuts msg := by
          rcases List.mem_cons.1 hmem with rfl | hmem
          · exact absurd hnow hmsg'
          · exact ⟨msg', hmem, hmsg'⟩
        have hrun := ih (before ++ [short msg]) (size - lengthSaved msg.len (short msg).len) hlater
        rw [shortened_of_cuts hnow, Option.map_some]
        simpa using hrun
      · rw [(shortened_eq_none_iff msg).2 hnow, Option.map_none]
        exact run_none _

theorem trackedAfter_zero (msgs : List ChatMessage) : trackedAfter 0 msgs = 0 := by
  induction msgs with
  | nil => rfl
  | cons msg msgs ih => rw [trackedAfter, Nat.zero_sub, ih]

/-- **A result that becomes longer takes the tracked size to zero.** -/
theorem trackedAfter_grown {size : ℕ} {msgs : List ChatMessage} (hsize : size < 2 ^ 63)
    (h : ∃ msg ∈ msgs, msg.len < (short msg).len) : trackedAfter size msgs = 0 := by
  induction msgs generalizing size with
  | nil => simp at h
  | cons msg msgs ih =>
      rw [trackedAfter]
      by_cases hgrows : msg.len < (short msg).len
      · have hle := short_len_le msg
        have hzero : size - lengthSaved msg.len (short msg).len = 0 := by
          rw [lengthSaved, if_neg (by omega)]
          omega
        rw [hzero, trackedAfter_zero]
      · obtain ⟨msg', hmem, hmsg'⟩ := h
        apply ih
        · omega
        · rcases List.mem_cons.1 hmem with rfl | hmem
          · exact absurd hmsg' hgrows
          · exact ⟨msg', hmem, hmsg'⟩

/-- A message that can be cut is shortened safely unless it becomes longer. -/
theorem shortens_iff_of_cuts {msg : ChatMessage} (h : Cuts msg) :
    Shortens msg ↔ ¬ msg.len < (short msg).len := by
  rw [shortens_iff, shortened_of_cuts h]
  simp

theorem lastResort_fits {maxChars : ℕ} {p : Pruner} (h : p.size ≤ maxChars) :
    lastResort maxChars p = some p.messages := by
  rw [lastResort]
  split
  · rename_i hmessages
    rw [hmessages]
  · rename_i hmessages
    rw [if_neg (by omega), hmessages]

theorem lastResort_start {maxChars : ℕ} {messages : List ChatMessage}
    (h : conversationCharSize messages ≤ maxChars) :
    (some (Pruner.start messages)).bind (lastResort maxChars) = some messages :=
  lastResort_fits (p := .start messages) h

theorem laterPasses_fits {maxChars : ℕ} {passes : List (Pruner → List Edit)} {p : Pruner}
    (h : p.size ≤ maxChars) : laterPasses maxChars passes (some p) = [] := by
  cases passes with
  | nil => rfl
  | cons pass passes => exact if_pos h

/-- **A later pass and those after it.** -/
theorem run_laterPasses (maxChars : ℕ) (kind : ChatMessage → Bool)
    (boundary : List ChatMessage → ℕ) (passes : List (Pruner → List Edit)) (first : ChatMessage)
    {old tail : List ChatMessage} (h : boundary (first :: (old ++ tail)) = old.length + 1) :
    Machine.run Edit.apply (some (.start (first :: (old ++ tail))))
        (laterPasses maxChars
          ((fun p => removals kind p.messages (boundary p.messages)) :: passes)
          (some (.start (first :: (old ++ tail))))) =
      if conversationCharSize (first :: (old ++ tail)) ≤ maxChars then
        some (.start (first :: (old ++ tail)))
      else
        Machine.run Edit.apply
          (some (.start (first :: (old.filter (fun msg => !kind msg) ++ tail))))
          (laterPasses maxChars passes
            (some (.start (first :: (old.filter (fun msg => !kind msg) ++ tail))))) := by
  have hrun := run_removals_start kind first old tail
  rw [List.cons_append, List.cons_append] at hrun
  have hpass : removals kind (Pruner.start (first :: (old ++ tail))).messages
      (boundary (Pruner.start (first :: (old ++ tail))).messages) =
        removals kind (first :: (old ++ tail)) (old.length + 1) := congrArg _ h
  rw [laterPasses, hpass]
  by_cases hfits : conversationCharSize (first :: (old ++ tail)) ≤ maxChars
  · rw [if_pos hfits, if_pos (by exact hfits)]
    rfl
  · rw [if_neg hfits, if_neg (by exact hfits), Machine.run_append, hrun]

/-- Passes 3 and 4 and the last resort. -/
def laterPruned (maxChars : ℕ) (messages : List ChatMessage) : Option (List ChatMessage) :=
  (Machine.run Edit.apply (some (.start messages))
    (laterPasses maxChars (dropPassesOf 0).tail (some (.start messages)))).bind (lastResort maxChars)

/-- **Passes 3 and 4**, with the messages cut at the boundary. -/
theorem laterPruned_eq {maxChars : ℕ} {first : ChatMessage} {old tail : List ChatMessage}
    (hboundary : findProtectedBoundary (first :: (old ++ tail)) = old.length + 1)
    (hlarge : maxChars < conversationCharSize (first :: (old ++ tail))) :
    laterPruned maxChars (first :: (old ++ tail)) =
      if conversationCharSize (first :: (old.filter notAnswer ++ tail)) ≤ maxChars then
        some (first :: (old.filter notAnswer ++ tail))
      else lastResort maxChars (.start (first :: ((old.filter notAnswer).filter notUser ++ tail))) := by
  have hanswers := run_laterPasses maxChars (·.role = .assistant) findProtectedBoundary
    [fun p => removals (·.role = .user) p.messages (findProtectedBoundary p.messages)] first hboundary
  have husers := run_laterPasses maxChars (·.role = .user) findProtectedBoundary [] first
    (boundary_filter hboundary notAnswer)
  rw [if_neg hlarge.not_ge] at hanswers
  rw [laterPruned, dropPassesOf, List.tail_cons, hanswers]
  by_cases hfits : conversationCharSize (first :: (old.filter notAnswer ++ tail)) ≤ maxChars
  · rw [if_pos hfits] at husers ⊢
    exact (congrArg (Option.bind · (lastResort maxChars)) husers).trans (lastResort_start hfits)
  · rw [if_neg hfits] at husers ⊢
    exact congrArg (Option.bind · (lastResort maxChars)) husers

/-- The steps of the first pass, with the messages cut at the boundary. -/
theorem shortenings_eq (first : ChatMessage) (old : List ChatMessage) :
    shortenings (old.length + 1) = (List.range' [first].length old.length).map .shorten := by
  simp [shortenings]

theorem pruneConversation_large {maxChars : ℕ} {first : ChatMessage} {old tail : List ChatMessage}
    (hboundary : findProtectedBoundary (first :: (old ++ tail)) = old.length + 1)
    (hlarge : maxChars < conversationCharSize (first :: (old ++ tail))) {s : Option Pruner}
    (h : Machine.run Edit.apply (some (.start (first :: (old ++ tail))))
      (shortenings (old.length + 1)) = s) :
    pruneConversation (first :: (old ++ tail)) maxChars =
      (Machine.run Edit.apply s (laterPasses maxChars (dropPassesOf (old.length + 1)) s)).bind
        (lastResort maxChars) := by
  have hguard : ¬ (first :: (old ++ tail) = [] ∨
      conversationCharSize (first :: (old ++ tail)) ≤ maxChars) := by
    rintro (hnil | hfits)
    · cases hnil
    · omega
  rw [pruneConversation, pruneEdits, if_neg hguard, hboundary]
  dsimp only
  rw [Machine.run_append, h]

/-- **The passes where no result becomes longer.** -/
theorem pruneConversation_exact {maxChars : ℕ} {first : ChatMessage} {old tail : List ChatMessage}
    (hboundary : findProtectedBoundary (first :: (old ++ tail)) = old.length + 1)
    (hlarge : maxChars < conversationCharSize (first :: (old ++ tail)))
    (h : ∀ msg ∈ old, Shortens msg) :
    pruneConversation (first :: (old ++ tail)) maxChars =
      if conversationCharSize (first :: (old.map short ++ tail)) ≤ maxChars then
        some (first :: (old.map short ++ tail))
      else
        let left := (old.map short).filter fun msg => !isToolResultMessage msg
        if conversationCharSize (first :: (left ++ tail)) ≤ maxChars then
          some (first :: (left ++ tail))
        else laterPruned maxChars (first :: (left ++ tail)) := by
  have hrun := run_shortenings [first] old tail h
  rw [← shortenings_eq] at hrun
  have hlen : old.length + 1 = (old.map short).length + 1 := by rw [List.length_map]
  have htools := @run_laterPasses maxChars isToolResultMessage
    (fun _ => old.length + 1) (dropPassesOf 0).tail first (old.map short) tail hlen
  rw [pruneConversation_large hboundary hlarge hrun]
  refine (congrArg (Option.bind · (lastResort maxChars)) htools).trans ?_
  by_cases hfits : conversationCharSize (first :: (old.map short ++ tail)) ≤ maxChars
  · rw [if_pos hfits, if_pos hfits]
    exact lastResort_start hfits
  · rw [if_neg hfits, if_neg hfits]
    dsimp only
    split
    · rename_i hfits'
      rw [laterPasses_fits (by exact hfits')]
      exact lastResort_start hfits'
    · rfl

/-- **The passes where a result becomes longer**: the first pass is the last one. -/
theorem pruneConversation_grown {maxChars : ℕ} {first : ChatMessage} {old tail : List ChatMessage}
    (hmemory : conversationCharSize (first :: (old ++ tail)) < 2 ^ 63)
    (hboundary : findProtectedBoundary (first :: (old ++ tail)) = old.length + 1)
    (hlarge : maxChars < conversationCharSize (first :: (old ++ tail)))
    (hcuts : ∀ msg ∈ old, Cuts msg) (hgrows : ∃ msg ∈ old, ¬ Shortens msg) :
    pruneConversation (first :: (old ++ tail)) maxChars =
      some (first :: (old.map short ++ tail)) := by
  obtain ⟨msg, hmem, hmsg⟩ := hgrows
  have hgrown : msg.len < (short msg).len := by
    rw [shortens_iff_of_cuts (hcuts msg hmem)] at hmsg
    exact not_not.1 hmsg
  have hrun := run_shortenings_cut [first] old tail (conversationCharSize (first :: (old ++ tail)))
    hcuts
  rw [← shortenings_eq, trackedAfter_grown hmemory ⟨msg, hmem, hgrown⟩] at hrun
  rw [pruneConversation_large hboundary hlarge hrun, laterPasses_fits (Nat.zero_le _),
    Machine.run_nil]
  have hlast : lastResort maxChars ⟨[first] ++ old.map short ++ tail, 0⟩ = _ :=
    lastResort_fits (Nat.zero_le maxChars)
  exact hlast

theorem pruneConversation_panic {maxChars : ℕ} {first : ChatMessage} {old tail : List ChatMessage}
    (hboundary : findProtectedBoundary (first :: (old ++ tail)) = old.length + 1)
    (hlarge : maxChars < conversationCharSize (first :: (old ++ tail)))
    (hcuts : ∃ msg ∈ old, ¬ Cuts msg) :
    pruneConversation (first :: (old ++ tail)) maxChars = none := by
  have hrun := run_shortenings_panic [first] old tail
    (conversationCharSize (first :: (old ++ tail))) hcuts
  rw [← shortenings_eq] at hrun
  rw [pruneConversation_large hboundary hlarge hrun]
  rfl

theorem pruneConversation_fits {maxChars : ℕ} {messages : List ChatMessage}
    (h : conversationCharSize messages ≤ maxChars) :
    pruneConversation messages maxChars = some messages := by
  rw [pruneConversation, pruneEdits, if_pos (.inr h)]
  exact lastResort_start h

/-! ## Survivors -/

theorem survives_short {msg : ChatMessage} (h : Cuts msg) : Survives msg (short msg) := by
  by_cases hlong : IsLong msg
  · exact .inr ⟨hlong.1, shortened_of_cuts h⟩
  · exact .inl (short_of_not_long hlong)

theorem survivors_refl (before : List ChatMessage) : Survivors before before :=
  ⟨before, .refl _, List.forall₂_same.2 fun _ _ => .inl rfl⟩

theorem survivors_short {before : List ChatMessage} (h : ∀ msg ∈ before, Cuts msg) :
    Survivors before (before.map short) := by
  refine ⟨before, .refl _, ?_⟩
  rw [List.forall₂_map_right_iff]
  exact List.forall₂_same.2 fun msg hmsg => survives_short (h msg hmsg)

theorem Survivors.sublist {before before' before'' : List ChatMessage}
    (h : Survivors before before') (hsub : before''.Sublist before') :
    Survivors before before'' := by
  obtain ⟨kept, hkept, hall⟩ := h
  suffices ∃ kept', kept'.Sublist kept ∧ List.Forall₂ Survives kept' before'' by
    obtain ⟨kept', hkept', hall'⟩ := this
    exact ⟨kept', hkept'.trans hkept, hall'⟩
  clear hkept
  induction hsub generalizing kept with
  | slnil => exact ⟨[], List.nil_sublist _, .nil⟩
  | cons msg hsub ih =>
      cases hall with
      | cons hmsg hall =>
          obtain ⟨kept', hkept', hall'⟩ := ih _ hall
          exact ⟨kept', hkept'.cons _, hall'⟩
  | cons_cons msg hsub ih =>
      cases hall with
      | cons hmsg hall =>
          obtain ⟨kept', hkept', hall'⟩ := ih _ hall
          exact ⟨_ :: kept', hkept'.cons_cons _, .cons hmsg hall'⟩

theorem conversationCharSize_le_of_sublist {xs ys : List ChatMessage} (h : xs.Sublist ys) :
    conversationCharSize xs ≤ conversationCharSize ys := by
  induction h with
  | slnil => exact le_rfl
  | cons msg h ih =>
      rw [conversationCharSize_cons]
      omega
  | cons_cons msg h ih =>
      rw [conversationCharSize_cons, conversationCharSize_cons]
      omega

/-! ## What is owed -/

section Owed

variable {maxChars : ℕ} {first : ChatMessage} {before tail : List ChatMessage}

/-- With the prompt and the tail kept, the limit is what is left to ask. -/
theorem owed_iff {before' : List ChatMessage} (h : Survivors before before') :
    Owed maxChars first before tail (first :: (before' ++ tail)) ↔
      conversationCharSize (first :: (before' ++ tail)) ≤ maxChars ∨ NothingLeft before' := by
  constructor
  · rintro ⟨first', before'', hresult, -, -, hlimit⟩
    obtain ⟨-, hrest⟩ := List.cons.inj hresult
    obtain rfl := List.append_cancel_right hrest
    exact hlimit
  · intro hlimit
    exact ⟨first, before', rfl, .inl rfl, h, hlimit⟩

theorem not_owed_of_countP (q : ChatMessage → Bool) {first' : ChatMessage}
    {rest : List ChatMessage} (h : rest.countP q < tail.countP q) :
    ¬ Owed maxChars first before tail (first' :: rest) := by
  rintro ⟨first'', before', hresult, -⟩
  obtain ⟨-, rfl⟩ := List.cons.inj hresult
  rw [List.countP_append] at h
  omega

/-- Where the messages of a kind are removed, one of the tail is gone that was exposed. -/
theorem countP_filter_lt {q : ChatMessage → Bool} {exposed : List ChatMessage}
    (h : ∃ msg ∈ exposed, q msg) (xs guarded : List ChatMessage) :
    (xs.filter (fun msg => !q msg) ++ guarded).countP q < (exposed ++ guarded).countP q := by
  have hnone : (xs.filter fun msg => !q msg).countP q = 0 := by
    rw [List.countP_eq_zero]
    intro msg hmsg
    simpa using (List.mem_filter.1 hmsg).2
  have hsome : 0 < exposed.countP q := List.countP_pos_iff.2 h
  rw [List.countP_append, List.countP_append, hnone]
  omega

end Owed

/-! ## The later passes -/

theorem lastResort_cons_eq (maxChars : ℕ) (first : ChatMessage) (rest : List ChatMessage) :
    lastResort maxChars (.start (first :: rest)) =
      if maxChars < conversationCharSize (first :: rest) ∧ first.role = .system ∧
          2000 < first.len then
        (truncateToolResult first.content.toList 2000).map fun text =>
          { first with content := String.ofList text } :: rest
      else some (first :: rest) := rfl

theorem lastResort_cons {maxChars : ℕ} {first : ChatMessage} {rest result : List ChatMessage}
    (h : lastResort maxChars (.start (first :: rest)) = some result) :
    ∃ first', result = first' :: rest := by
  rw [lastResort_cons_eq] at h
  split at h
  · obtain ⟨text, -, rfl⟩ := Option.map_eq_some_iff.1 h
    exact ⟨_, rfl⟩
  · cases h
    exact ⟨first, rfl⟩

/-- What a conversation loses in the later passes it does not get back. -/
theorem laterPruned_sublist {maxChars : ℕ} {first : ChatMessage} {rest result : List ChatMessage}
    (h : laterPruned maxChars (first :: rest) = some result) :
    ∃ first' rest', result = first' :: rest' ∧ rest'.Sublist rest := by
  by_cases hfits : conversationCharSize (first :: rest) ≤ maxChars
  · rw [laterPruned, laterPasses_fits (by exact hfits), Machine.run_nil,
      lastResort_start hfits] at h
    cases h
    exact ⟨first, rest, rfl, .refl _⟩
  · obtain ⟨first', old, tail, hsplit, hboundary⟩ :=
      exists_split (one_le_findProtectedBoundary _)
        (findProtectedBoundary_le (List.cons_ne_nil first rest))
    obtain ⟨rfl, rfl⟩ : first = first' ∧ rest = old ++ tail := List.cons.inj hsplit
    rw [laterPruned_eq hboundary (not_le.1 hfits)] at h
    split at h
    · cases h
      exact ⟨first, _, rfl, (List.filter_sublist).append_right _⟩
    · obtain ⟨first', rfl⟩ := lastResort_cons h
      exact ⟨first', _, rfl, (List.filter_sublist.trans List.filter_sublist).append_right _⟩

/-- The last resort where nothing else is left: it is made unless the prompt cannot be cut. -/
theorem lastResort_owed_iff {maxChars : ℕ} {first : ChatMessage} {before before' tail : List ChatMessage}
    (hlarge : maxChars < conversationCharSize (first :: (before' ++ tail)))
    (h : Survivors before before') (hnothing : NothingLeft before') :
    (∃ result, lastResort maxChars (.start (first :: (before' ++ tail))) = some result ∧
      Owed maxChars first before tail result) ↔
    (first.role = .system → 2000 < first.len → Text.IsBoundary 2000 first.content.toList) := by
  rw [lastResort_cons_eq]
  by_cases hprompt : first.role = .system ∧ 2000 < first.len
  · rw [if_pos ⟨hlarge, hprompt⟩, forall_prop_of_true hprompt.1, forall_prop_of_true hprompt.2,
      truncateToolResult_long hprompt.2, ← Text.isSome_takeBytes_iff, Option.map_map]
    cases htake : Text.takeBytes 2000 first.content.toList with
    | none => simp
    | some head =>
        refine iff_of_true ⟨_, rfl, _, before', rfl, .inr ⟨hnothing, _, ?_, rfl⟩, h, .inr hnothing⟩
          rfl
        rw [truncateToolResult_long hprompt.2, htake]
        rfl
  · rw [if_neg (fun hcut => hprompt hcut.2)]
    refine iff_of_true ⟨_, rfl, (owed_iff h).2 (.inr hnothing)⟩ ?_
    intro hrole hlen
    exact absurd ⟨hrole, hlen⟩ hprompt

theorem lastResort_not_owed {maxChars : ℕ} {first : ChatMessage}
    {before before' tail result : List ChatMessage}
    (hlarge : maxChars < conversationCharSize (first :: (before' ++ tail)))
    (hleft : ¬ NothingLeft before')
    (h : lastResort maxChars (.start (first :: (before' ++ tail))) = some result) :
    ¬ Owed maxChars first before tail result := by
  rintro ⟨first', before'', hresult, hprompt, -, hlimit⟩
  obtain ⟨first'', rfl⟩ := lastResort_cons h
  obtain ⟨rfl, hrest⟩ := List.cons.inj hresult
  obtain rfl := List.append_cancel_right hrest
  rcases hprompt with rfl | ⟨hnothing, -⟩
  · rcases hlimit with hfits | hnothing
    · omega
    · exact hleft hnothing
  · exact hleft hnothing

theorem nothingLeft_filter (msgs : List ChatMessage) :
    NothingLeft ((msgs.filter notAnswer).filter notUser) := by
  intro msg hmsg
  rw [List.mem_filter, List.mem_filter] at hmsg
  obtain ⟨⟨-, hanswer⟩, huser⟩ := hmsg
  unfold notAnswer at hanswer
  unfold notUser at huser
  cases hrole : msg.role with
  | system => rfl
  | user => simp [hrole] at huser
  | assistant => simp [hrole] at hanswer

theorem role_of_isTurn {msg : ChatMessage} (h : isTurn msg) : msg.role = .user := by
  unfold isTurn at h
  simp only [Bool.and_eq_true, decide_eq_true_eq] at h
  exact h.1

/-- **The later passes keep the tail** exactly where the boundary and the sizes allow it. -/
theorem laterPruned_owed_iff {maxChars : ℕ} {first : ChatMessage}
    {before exposed guarded left : List ChatMessage} (layout : Layout before exposed guarded)
    (hleft : before = [] → left = []) (h : Survivors before left)
    (hlarge : maxChars < conversationCharSize (first :: (left ++ exposed ++ guarded))) :
    (∃ result, laterPruned maxChars (first :: (left ++ exposed ++ guarded)) = some result ∧
      Owed maxChars first before (exposed ++ guarded) result) ↔
    LaterPassesKeep maxChars first left exposed guarded := by
  unfold LaterPassesKeep
  dsimp only
  rcases layout.boundary_after first hleft with
    ⟨loose, held, rfl, hboundary, hheld⟩ | ⟨hexposed, hboundary⟩
  · have hassoc : ∀ xs, xs ++ held ++ exposed ++ guarded = xs ++ held ++ (exposed ++ guarded) := by
      simp
    have htake : (loose ++ held).take loose.length = loose := List.take_left
    have hdrop : (loose ++ held).drop loose.length = held := List.drop_left
    rw [hboundary, Nat.add_sub_cancel, if_pos (by simp), htake, hdrop, hassoc, hassoc]
    rw [hassoc, List.append_assoc] at hboundary hlarge
    rw [List.append_assoc, laterPruned_eq hboundary hlarge,
      ← List.append_assoc (loose.filter notAnswer) held,
      ← List.append_assoc ((loose.filter notAnswer).filter notUser) held]
    have hsub := List.filter_sublist (p := notUser) (l := loose.filter notAnswer)
    have hanswers : Survivors before (loose.filter notAnswer ++ held) :=
      h.sublist (List.filter_sublist.append_right held)
    have husers : Survivors before ((loose.filter notAnswer).filter notUser ++ held) :=
      hanswers.sublist (hsub.append_right held)
    by_cases hfits : conversationCharSize
        (first :: (loose.filter notAnswer ++ held ++ (exposed ++ guarded))) ≤ maxChars
    · rw [if_pos hfits]
      refine iff_of_true ⟨_, rfl, (owed_iff hanswers).2 (.inl hfits)⟩ (.inl ?_)
      have hsub' := ((hsub.append_right held).append_right (exposed ++ guarded)).cons_cons first
      exact (conversationCharSize_le_of_sublist hsub').trans hfits
    · rw [if_neg hfits]
      by_cases hfits' : conversationCharSize (first ::
          ((loose.filter notAnswer).filter notUser ++ held ++ (exposed ++ guarded))) ≤ maxChars
      · refine iff_of_true ⟨_, lastResort_start hfits', ?_⟩ (.inl hfits')
        exact (owed_iff husers).2 (.inl hfits')
      · rw [or_iff_right hfits']
        rcases hheld with rfl | ⟨turn, hmem, hturn⟩
        · rw [List.append_nil] at husers hfits' ⊢
          rw [and_iff_right rfl]
          exact lastResort_owed_iff (not_le.1 hfits') husers (nothingLeft_filter loose)
        · refine iff_of_false ?_ ?_
          · rintro ⟨result, hresult, howed⟩
            refine lastResort_not_owed (not_le.1 hfits') ?_ hresult howed
            intro hnothing
            have hrole := hnothing turn (List.mem_append_right _ hmem)
            rw [role_of_isTurn hturn] at hrole
            cases hrole
          · rintro ⟨rfl, -⟩
            cases hmem
  · have hpos := List.length_pos_iff.2 hexposed
    rw [hboundary, Nat.add_sub_cancel, if_neg (by omega)]
    rw [← List.length_append] at hboundary
    rw [laterPruned_eq hboundary hlarge, List.filter_append]
    by_cases hanswers : ∀ msg ∈ exposed, notAnswer msg
    · rw [and_iff_right hanswers, List.filter_eq_self.2 hanswers]
      by_cases hfits : conversationCharSize
          (first :: (left.filter notAnswer ++ exposed ++ guarded)) ≤ maxChars
      · rw [if_pos hfits]
        rw [List.append_assoc] at hfits ⊢
        have hsurv := h.sublist (List.filter_sublist (p := notAnswer))
        exact iff_of_true ⟨_, rfl, (owed_iff hsurv).2 (.inl hfits)⟩ hfits
      · rw [if_neg hfits]
        refine iff_of_false ?_ hfits
        rintro ⟨result, hresult, howed⟩
        obtain ⟨first', rfl⟩ := lastResort_cons hresult
        refine not_owed_of_countP (fun msg => msg.role = .user) ?_ howed
        obtain ⟨turn, hmem, hturn⟩ := layout.exists_turn hexposed
        exact countP_filter_lt ⟨turn, hmem, by simp [role_of_isTurn hturn]⟩ _ guarded
    · refine iff_of_false ?_ fun hkept => hanswers hkept.1
      rintro ⟨result, hresult, howed⟩
      push Not at hanswers
      obtain ⟨msg, hmem, hmsg⟩ := hanswers
      have hlt := countP_filter_lt (q := fun msg => decide (msg.role = .assistant))
        ⟨msg, hmem, by simpa [notAnswer] using hmsg⟩ (left ++ exposed) guarded
      rw [← List.filter_append] at hresult
      split at hresult
      · cases hresult
        exact not_owed_of_countP _ hlt howed
      · obtain ⟨first', rfl⟩ := lastResort_cons hresult
        refine not_owed_of_countP _ (lt_of_le_of_lt ?_ hlt) howed
        exact (List.filter_sublist.append_right guarded).countP_le

/-! ## When pruning keeps what it owes -/

theorem cuts_of_not_long {msg : ChatMessage} (h : ¬ IsLong msg) : Cuts msg :=
  fun hlong => absurd hlong h

theorem map_short_of_not_long {msgs : List ChatMessage} (h : ∀ msg ∈ msgs, ¬ IsLong msg) :
    msgs.map short = msgs := by
  conv_rhs => rw [← List.map_id msgs]
  exact List.map_congr_left fun msg hmsg => short_of_not_long (h msg hmsg)

theorem not_nothingLeft_of_grown {before : List ChatMessage}
    (h : ∃ msg ∈ before, ¬ Shortens msg) : ¬ NothingLeft (before.map short) := by
  obtain ⟨msg, hmem, hmsg⟩ := h
  intro hnothing
  have hrole := hnothing _ (List.mem_map_of_mem hmem)
  rw [short_role] at hrole
  apply hmsg
  intro htool
  unfold isToolResultMessage at htool
  simp [hrole] at htool

section Keeps

variable {maxChars : ℕ} {first : ChatMessage} {before exposed guarded : List ChatMessage}

theorem not_owed_of_long (hcuts : ∀ msg ∈ exposed, Cuts msg) (h : ¬ ∀ msg ∈ exposed, ¬ IsLong msg) :
    ¬ Owed maxChars first before (exposed ++ guarded)
      (first :: ((before ++ exposed).map short ++ guarded)) := by
  push Not at h
  obtain ⟨msg, hmem, hlong⟩ := h
  rintro ⟨first', before', hresult, -⟩
  obtain ⟨-, hrest⟩ := List.cons.inj hresult
  rw [← List.append_assoc] at hrest
  have hmap := List.append_cancel_right hrest
  rw [List.map_append] at hmap
  have hexposed := List.append_inj_right' hmap (by simp)
  have hself : short msg = msg :=
    List.map_inj_left.1 (hexposed.trans (List.map_id exposed).symm) msg hmem
  exact short_ne_self hlong (hcuts msg hmem) hself

/-- **Where a result becomes longer**, the first pass is the last one. -/
theorem grown_owed_iff (hcuts : ∀ msg ∈ before ++ exposed, Cuts msg)
    (hgrows : ∃ msg ∈ before ++ exposed, ¬ Shortens msg)
    (hlarge : maxChars < conversationCharSize (first :: (before ++ exposed ++ guarded))) :
    Owed maxChars first before (exposed ++ guarded)
        (first :: ((before ++ exposed).map short ++ guarded)) ↔
      PrunesWell maxChars first before exposed guarded := by
  rw [List.forall_mem_append] at hcuts
  unfold PrunesWell
  dsimp only
  rw [or_iff_right hlarge.not_ge, and_iff_right hcuts.1]
  by_cases hlong : ∀ msg ∈ exposed, ¬ IsLong msg
  · have hgrown : ∃ msg ∈ before, ¬ Shortens msg := by
      obtain ⟨msg, hmem, hmsg⟩ := hgrows
      rcases List.mem_append.1 hmem with hmem | hmem
      · exact ⟨msg, hmem, hmsg⟩
      · refine absurd (fun htool hlen => ?_) hmsg
        exact absurd ⟨htool, hlen⟩ (hlong msg hmem)
    have hnot : ¬ ∀ msg ∈ before, Shortens msg := by
      push Not
      exact hgrown
    have hassoc : (before ++ exposed).map short ++ guarded =
        before.map short ++ (exposed ++ guarded) := by
      rw [List.map_append, map_short_of_not_long hlong, List.append_assoc]
    rw [and_iff_right hlong, or_iff_left (fun hkept => hnot hkept.1), hassoc,
      owed_iff (survivors_short hcuts.1), or_iff_left (not_nothingLeft_of_grown hgrown),
      List.append_assoc]
  · exact iff_of_false (not_owed_of_long hcuts.2 hlong) fun hkept => hlong hkept.1

theorem not_owed_of_tool (h : ∃ msg ∈ exposed, isToolResultMessage msg)
    {xs result : List ChatMessage}
    (hresult : (if conversationCharSize
          (first :: (xs.filter (fun msg => !isToolResultMessage msg) ++ guarded)) ≤ maxChars then
        some (first :: (xs.filter (fun msg => !isToolResultMessage msg) ++ guarded))
      else laterPruned maxChars
        (first :: (xs.filter (fun msg => !isToolResultMessage msg) ++ guarded))) = some result) :
    ¬ Owed maxChars first before (exposed ++ guarded) result := by
  have hlt := countP_filter_lt h xs guarded
  split at hresult
  · cases hresult
    exact not_owed_of_countP _ hlt
  · obtain ⟨first', rest', rfl, hsub⟩ := laterPruned_sublist hresult
    exact not_owed_of_countP _ (lt_of_le_of_lt hsub.countP_le hlt)

/-- **Where no result becomes longer.** -/
theorem exact_owed_iff (layout : Layout before exposed guarded)
    (hboundary : findProtectedBoundary (first :: (before ++ exposed ++ guarded)) =
      (before ++ exposed).length + 1)
    (hlarge : maxChars < conversationCharSize (first :: (before ++ exposed ++ guarded)))
    (h : ∀ msg ∈ before ++ exposed, Shortens msg) :
    (∃ result, pruneConversation (first :: (before ++ exposed ++ guarded)) maxChars = some result ∧
      Owed maxChars first before (exposed ++ guarded) result) ↔
    PrunesWell maxChars first before exposed guarded := by
  rw [pruneConversation_exact hboundary hlarge h]
  rw [List.forall_mem_append] at h
  have hcuts : ∀ msg ∈ before, Cuts msg := fun msg hmem => cuts_of_shortens (h.1 msg hmem)
  have hcuts' : ∀ msg ∈ exposed, Cuts msg := fun msg hmem => cuts_of_shortens (h.2 msg hmem)
  have hcut := survivors_short hcuts
  have hleft := hcut.sublist (List.filter_sublist (p := fun msg => !isToolResultMessage msg))
  unfold PrunesWell
  dsimp only
  rw [or_iff_right hlarge.not_ge, and_iff_right hcuts]
  by_cases hlong : ∀ msg ∈ exposed, ¬ IsLong msg
  · rw [and_iff_right hlong, List.map_append, map_short_of_not_long hlong, List.filter_append]
    by_cases hfits : conversationCharSize (first :: (before.map short ++ exposed ++ guarded)) ≤
        maxChars
    · rw [if_pos hfits]
      refine iff_of_true ⟨_, rfl, ?_⟩ (.inl hfits)
      rw [List.append_assoc] at hfits ⊢
      exact (owed_iff hcut).2 (.inl hfits)
    · rw [if_neg hfits, or_iff_right hfits, and_iff_right h.1]
      by_cases htool : ∀ msg ∈ exposed, !isToolResultMessage msg
      · rw [and_iff_right htool, List.filter_eq_self.2 htool]
        by_cases hfits' : conversationCharSize
            (first :: ((before.map short).filter (fun msg => !isToolResultMessage msg) ++ exposed ++
              guarded)) ≤ maxChars
        · rw [if_pos hfits']
          refine iff_of_true ⟨_, rfl, ?_⟩ (.inl hfits')
          rw [List.append_assoc] at hfits' ⊢
          exact (owed_iff hleft).2 (.inl hfits')
        · rw [if_neg hfits', or_iff_right hfits']
          refine laterPruned_owed_iff layout ?_ hleft (not_le.1 hfits')
          rintro rfl
          rfl
      · refine iff_of_false ?_ fun hkept => htool hkept.1
        rintro ⟨result, hresult, howed⟩
        rw [← List.filter_append] at hresult
        refine not_owed_of_tool ?_ hresult howed
        push Not at htool
        simpa using htool
  · refine iff_of_false ?_ fun hkept => hlong hkept.1
    rintro ⟨result, hresult, howed⟩
    split at hresult
    · cases hresult
      exact not_owed_of_long hcuts' hlong howed
    · refine not_owed_of_tool ?_ hresult howed
      push Not at hlong
      obtain ⟨msg, hmem, htool, -⟩ := hlong
      exact ⟨msg, hmem, htool⟩

end Keeps

/-- **When pruning keeps what it owes**, with the messages laid out. -/
theorem pruneConversation_owed_iff {maxChars : ℕ} {first : ChatMessage}
    {before exposed guarded : List ChatMessage} (layout : Layout before exposed guarded)
    (hmemory : conversationCharSize (first :: (before ++ exposed ++ guarded)) < 2 ^ 63)
    (hboundary : findProtectedBoundary (first :: (before ++ exposed ++ guarded)) =
      before.length + exposed.length + 1) :
    (∃ result, pruneConversation (first :: (before ++ exposed ++ guarded)) maxChars = some result ∧
      Owed maxChars first before (exposed ++ guarded) result) ↔
    PrunesWell maxChars first before exposed guarded := by
  by_cases hfits : conversationCharSize (first :: (before ++ exposed ++ guarded)) ≤ maxChars
  · rw [pruneConversation_fits hfits]
    refine iff_of_true ⟨_, rfl, ?_⟩ (.inl hfits)
    rw [List.append_assoc] at hfits ⊢
    exact (owed_iff (survivors_refl before)).2 (.inl hfits)
  · have hlarge := not_le.1 hfits
    rw [← List.length_append] at hboundary
    by_cases hcuts : ∀ msg ∈ before ++ exposed, Cuts msg
    · by_cases hshorten : ∀ msg ∈ before ++ exposed, Shortens msg
      · exact exact_owed_iff layout hboundary hlarge hshorten
      · have hgrows : ∃ msg ∈ before ++ exposed, ¬ Shortens msg := by
          push Not at hshorten
          exact hshorten
        rw [pruneConversation_grown hmemory hboundary hlarge hcuts hgrows,
          ← grown_owed_iff hcuts hgrows hlarge]
        constructor
        · rintro ⟨result, hresult, howed⟩
          cases hresult
          exact howed
        · intro howed
          exact ⟨_, rfl, howed⟩
    · refine iff_of_false ?_ ?_
      · rintro ⟨result, hresult, -⟩
        push Not at hcuts
        rw [pruneConversation_panic hboundary hlarge hcuts] at hresult
        cases hresult
      · intro hkept
        obtain ⟨hbefore, hexposed, -⟩ := hkept.resolve_left hfits
        apply hcuts
        rw [List.forall_mem_append]
        exact ⟨hbefore, fun msg hmem => cuts_of_not_long (hexposed msg hmem)⟩

/-- The messages before the tail. -/
def beforeTail (rest : List ChatMessage) : List ChatMessage := rest.take (keptStart rest)

/-- The messages of the tail before the boundary. -/
def exposedTail (first : ChatMessage) (rest : List ChatMessage) : List ChatMessage :=
  (rest.take (findProtectedBoundary (first :: rest) - 1)).drop (keptStart rest)

/-- The messages from the boundary on. -/
def guardedTail (first : ChatMessage) (rest : List ChatMessage) : List ChatMessage :=
  rest.drop (findProtectedBoundary (first :: rest) - 1)

/-- **When pruning keeps what it owes.**  A conversation is not longer than the memory; the empty one
stays as it is. -/
theorem pruneConversation_keeps_iff (maxChars : ℕ) (first : ChatMessage) (rest : List ChatMessage)
    (hmemory : conversationCharSize (first :: rest) < 2 ^ 63) :
    pruneConversation [] maxChars = some [] ∧
    ((∃ result, pruneConversation (first :: rest) maxChars = some result ∧
        PruneKeeps maxChars first rest result) ↔
      PrunesWell maxChars first (beforeTail rest) (exposedTail first rest)
        (guardedTail first rest)) := by
  refine ⟨pruneConversation_fits (Nat.zero_le _), ?_⟩
  obtain ⟨before, exposed, guarded, hrest, hstart, hboundary, layout⟩ := exists_layout first rest
  have hbefore : beforeTail rest = before := by
    rw [beforeTail, hstart, hrest, List.append_assoc, List.take_left]
  have hexposed : exposedTail first rest = exposed := by
    rw [exposedTail, hboundary, hstart, Nat.add_sub_cancel, hrest, ← List.length_append,
      List.take_left, List.drop_left]
  have hguarded : guardedTail first rest = guarded := by
    rw [guardedTail, hboundary, Nat.add_sub_cancel, hrest, ← List.length_append, List.drop_left]
  have hkeeps : ∀ result, PruneKeeps maxChars first rest result ↔
      Owed maxChars first before (exposed ++ guarded) result := by
    intro result
    rw [PruneKeeps, hstart, hrest, List.append_assoc, List.take_left, List.drop_left]
  simp only [hkeeps]
  rw [hbefore, hexposed, hguarded]
  rw [hrest] at hmemory hboundary ⊢
  exact pruneConversation_owed_iff layout hmemory hboundary

/-- A conversation with one request and two answers. -/
def oneRequest : List ChatMessage := [.user "hi", ⟨.assistant, "a"⟩, ⟨.assistant, "b"⟩]

theorem pruneConversation_keeps_iff_oneRequest :
    pruneConversation [] 50 = some [] ∧
    ((∃ result, pruneConversation (⟨.system, "s"⟩ :: oneRequest) 50 = some result ∧
        PruneKeeps 50 ⟨.system, "s"⟩ oneRequest result) ↔
      PrunesWell 50 ⟨.system, "s"⟩ (beforeTail oneRequest) (exposedTail ⟨.system, "s"⟩ oneRequest)
        (guardedTail ⟨.system, "s"⟩ oneRequest)) :=
  pruneConversation_keeps_iff 50 ⟨.system, "s"⟩ oneRequest (by decide)

/-- The only request of the user and the answer after it are removed, with only the last message
protected. -/
theorem request_removed :
    pruneConversation (⟨.system, "s"⟩ :: oneRequest) 50 = some [⟨.system, "s"⟩, ⟨.assistant, "b"⟩] ∧
    keptStart oneRequest = 0 ∧
    ¬ ∃ result, pruneConversation (⟨.system, "s"⟩ :: oneRequest) 50 = some result ∧
      PruneKeeps 50 ⟨.system, "s"⟩ oneRequest result := by
  have hrun : pruneConversation (⟨.system, "s"⟩ :: oneRequest) 50 =
      some [⟨.system, "s"⟩, ⟨.assistant, "b"⟩] := by decide
  have hstart : keptStart oneRequest = 0 := by decide
  refine ⟨hrun, hstart, ?_⟩
  rintro ⟨result, hresult, first', before', hkept, -⟩
  rw [hrun] at hresult
  cases hresult
  rw [hstart] at hkept
  have hlen := congrArg List.length hkept
  simp [oneRequest] at hlen

end PeerClaw
