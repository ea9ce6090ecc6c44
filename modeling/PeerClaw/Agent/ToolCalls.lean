import PeerClaw.Agent.Config
import PeerClaw.JsonLines
import PeerClaw.Lib.Lines
import PeerClaw.Lib.Separated

/-!
# Tool calls in the answer of a model

`agent/runtime.rs` looks for tool calls in a text: a block between `<tool_call>` and
`</tool_call>` has a line with the name of a tool and its arguments, which may go over
several lines.  The lines of the arguments are gathered until they are a document.

* `parseToolCallBlock` — the call of a block.
* `parseStandardToolCalls` — the calls of a text.
* `toolCall_read_back` — a block that is written is read back.
-/

namespace PeerClaw

open Lib JsonReader

/-! ## Blocks -/

/-- What is known of a block, behind some of its lines. -/
structure BlockState where
  name : Option String
  args : Value
  acc : List String
  inArgs : Bool

section Block

variable (number : List Char → Option Number)

/-- `flush_tool_call_arg_buffer`. -/
def flushToolCallArgBuffer (st : BlockState) : BlockState :=
  if st.acc.isEmpty then st
  else
    match readJson number (Text.join "\n" st.acc) with
    | some parsed => { st with args := parsed, acc := [] }
    | none => st

/-- The arguments that were begun are at their end. -/
def closeArgs (st : BlockState) : BlockState :=
  if st.inArgs then flushToolCallArgBuffer number st else st

/-- A line of a block, trimmed. -/
def trimmedLine (st : BlockState) (line : String) : BlockState :=
  if line = "" then st
  else
    match Text.stripPrefix "name:" line with
    | some n =>
        { closeArgs number st with inArgs := false, acc := [], name := some (Text.trim n) }
    | none =>
        match Text.stripPrefix "args:" line with
        | some rest =>
            let first := Text.trim rest
            flushToolCallArgBuffer number
              { closeArgs number st with
                inArgs := true
                acc := if first = "" then [] else [first] }
        | none =>
            if st.inArgs then flushToolCallArgBuffer number { st with acc := st.acc ++ [line] }
            else st

/-- A line of a block. -/
def blockLine (st : BlockState) (line : String) : BlockState := trimmedLine number st (Text.trim line)

/-- `parse_tool_call_block`. -/
def parseToolCallBlock (block : String) : Option ParsedToolCall :=
  let st := (Text.lines block).foldl (blockLine number) ⟨none, .ofFields [], [], false⟩
  let st := closeArgs number st
  st.name.map fun n => ⟨n, st.args⟩

/-- The calls of what remains of a text; each block takes some of it. -/
def standardFrom : ℕ → List Char → List ParsedToolCall
  | 0, _ => []
  | fuel + 1, remaining =>
      match Text.splitAtFirst "<tool_call>".toList remaining with
      | none => []
      | some (_, tagged) =>
          match Text.splitAtFirst "</tool_call>".toList (tagged.drop 11) with
          | none => []
          | some (block, rest) =>
              (parseToolCallBlock number (Text.trim (String.ofList block))).toList ++
                standardFrom fuel (rest.drop 12)

/-- `parse_standard_tool_calls`. -/
def parseStandardToolCalls (text : String) : List ParsedToolCall :=
  standardFrom number text.toList.length text.toList

end Block

/-! ## Lines that are gathered -/

section Gather

variable {number : List Char → Option Number} {m m' : JsonReader.Mode} {st st' : List Frame} {v : Value}
  {acc : List String} {line text : List Char} {name : Option String} {args : Value}

theorem toList_join_newline (texts : List String) :
    (Text.join "\n" texts).toList = Separated.joined '\n' (texts.map String.toList) := by
  rw [Text.join, String.toList_ofList]
  rfl

theorem toList_join_concat (h : acc ≠ []) (line : List Char) :
    (Text.join "\n" (acc ++ [String.ofList line])).toList =
      (Text.join "\n" acc).toList ++ '\n' :: line := by
  have hacc : acc.map String.toList ≠ [] := fun h' => h (List.map_eq_nil_iff.1 h')
  rw [toList_join_newline, toList_join_newline, List.map_append, List.map_singleton,
    Separated.joined_append hacc (List.cons_ne_nil _ _), Separated.joined_singleton,
    String.toList_ofList]

/-- The state of the reader behind the lines that have been gathered. -/
def Gathered (number : List Char → Option Number) (acc : List String) (m : JsonReader.Mode)
    (st : List Frame) : Prop :=
  (acc = [] ∧ m = .value ∧ st = []) ∨
    (acc ≠ [] ∧ LeadsTo number .value [] (Text.join "\n" acc).toList m st)

theorem Gathered.passes (h : Gathered number acc m st) (h' : LeadsTo number m st line m' st') :
    LeadsTo number .value [] (Text.join "\n" (acc ++ [String.ofList line])).toList m' st' := by
  rcases h with ⟨rfl, rfl, rfl⟩ | ⟨hne, h⟩
  · rw [List.nil_append, toList_join_newline, List.map_singleton, Separated.joined_singleton,
      String.toList_ofList]
    exact h'
  · rw [toList_join_concat hne]
    exact h.concat h'

theorem Gathered.reads (h : Gathered number acc m st) (h' : Reads number m st line v) :
    readJson number (Text.join "\n" (acc ++ [String.ofList line])) = some v := by
  rcases h with ⟨rfl, rfl, rfl⟩ | ⟨hne, h⟩
  · rw [readJson, List.nil_append, toList_join_newline, List.map_singleton,
      Separated.joined_singleton, String.toList_ofList]
    exact readChars_eq_some_iff.2 h'
  · rw [readJson, toList_join_concat hne]
    exact h.reads h'

theorem trimmedLine_of_reads {rest : List Char} (hm : m.Between) (hne : line ≠ [])
    (h : Reads number m st (line ++ rest) v) :
    trimmedLine number ⟨name, args, acc, true⟩ (String.ofList line) =
      flushToolCallArgBuffer number ⟨name, args, acc ++ [String.ofList line], true⟩ := by
  have hempty : ¬ String.ofList line = "" := fun heq => hne (by
    rw [← String.toList_ofList (l := line), heq]
    rfl)
  have hname : Text.stripPrefix "name:" (String.ofList line) = none := by
    refine Text.stripPrefix_of_not ?_
    rintro ⟨more, rfl⟩
    exact not_reads_name hm h
  have hargs : Text.stripPrefix "args:" (String.ofList line) = none := by
    refine Text.stripPrefix_of_not ?_
    rintro ⟨more, rfl⟩
    exact not_reads_args hm h
  rw [trimmedLine, if_neg hempty, hname, hargs]
  rfl

theorem flush_of_read (hne : acc ≠ []) (h : readJson number (Text.join "\n" acc) = some v) :
    flushToolCallArgBuffer number ⟨name, args, acc, true⟩ = ⟨name, v, [], true⟩ := by
  rw [flushToolCallArgBuffer, if_neg (by simpa using hne), h]

theorem flush_of_not_read (h : readJson number (Text.join "\n" acc) = none) :
    flushToolCallArgBuffer number ⟨name, args, acc, true⟩ = ⟨name, args, acc, true⟩ := by
  rw [flushToolCallArgBuffer, h]
  exact ite_self _

theorem trim_ofList (cs : List Char) : Text.trim (String.ofList cs) = String.ofList (Text.trimChars cs) := by
  rw [Text.trim, String.toList_ofList]

theorem foldl_white (st : BlockState) (h : ∀ c ∈ text, Text.isWhitespace c = true) :
    (Text.lines (String.ofList text)).foldl (blockLine number) st = st := by
  have hlines : ∀ line ∈ Text.lines (String.ofList text), blockLine number st line = st := by
    intro line hline
    rw [Text.lines, String.toList_ofList] at hline
    obtain ⟨l, hl, rfl⟩ := List.mem_map.1 hline
    have hwhite : ∀ c ∈ l, Text.isWhitespace c = true := fun c hc =>
      h c ((Text.mem_of_mem_linesFrom hl hc).resolve_left List.not_mem_nil)
    rw [blockLine, trim_ofList, Text.trimChars_of_white hwhite]
    exact if_pos rfl
  generalize Text.lines (String.ofList text) = lines at hlines
  induction lines with
  | nil => rfl
  | cons line lines ih =>
      rw [List.foldl_cons, hlines line List.mem_cons_self]
      exact ih fun l hl => hlines l (List.mem_cons_of_mem line hl)

theorem closeArgs_empty : closeArgs number ⟨name, args, [], true⟩ = ⟨name, args, [], true⟩ := rfl

/-- **The lines of a document** are gathered until they are read. -/
theorem foldl_reads (hm : m.Between) (hopen : ∀ w, ¬ (m = .done w ∧ st = []))
    (hacc : Gathered number acc m st) (h : Reads number m st text v) :
    closeArgs number ((Text.lines (String.ofList text)).foldl (blockLine number)
      ⟨name, args, acc, true⟩) = ⟨name, v, [], true⟩ := by
  induction hlength : text.length using Nat.strong_induction_on generalizing text m st acc with
  | _ n ih =>
      subst hlength
      by_cases hline : '\n' ∈ text
      · obtain ⟨a, b, rfl, ha⟩ := List.eq_append_cons_of_mem hline
        have hb : b.length < (a ++ '\n' :: b).length := by
          rw [List.length_append, List.length_cons]
          omega
        have htrim := h.trim_line hm
        rw [Text.lines_newline ha, List.foldl_cons, blockLine, trim_ofList,
          Text.trimChars_dropReturn]
        by_cases hblank : Text.trimChars a = []
        · -- a blank line is passed over
          rw [hblank] at htrim ⊢
          exact ih _ hb hm hopen hacc (Reads.of_cons hm (by decide) htrim) rfl
        · rw [trimmedLine_of_reads hm hblank htrim]
          obtain ⟨m', st', hm', hpasses, hreads⟩ := reads_line htrim
          have hgathered := hacc.passes hpasses
          have hne : acc ++ [String.ofList (Text.trimChars a)] ≠ [] := by simp
          by_cases hdone : ∃ w, m' = .done w ∧ st' = []
          · -- the lines so far are the whole document
            obtain ⟨w, rfl, rfl⟩ := hdone
            have hread := (leadsTo_read_iff hgathered hm' (v := w)).2 ⟨rfl, rfl⟩
            obtain ⟨rfl, hwhite⟩ := hreads.of_done
            rw [flush_of_read hne hread, foldl_white _ hwhite, closeArgs_empty]
          · have hnot : readJson number
                (Text.join "\n" (acc ++ [String.ofList (Text.trimChars a)])) = none := by
              rw [Option.eq_none_iff_forall_ne_some]
              intro w hread
              exact hdone ⟨w, (leadsTo_read_iff hgathered hm').1 hread⟩
            rw [flush_of_not_read hnot]
            exact ih _ hb hm' (fun w hw => hdone ⟨w, hw⟩) (.inr ⟨hne, hgathered⟩) hreads rfl
      · have htrim := h.trim hm
        have hblank : Text.trimChars text ≠ [] := by
          intro hblank
          rw [hblank] at htrim
          obtain ⟨ps, hps, hread⟩ := htrim
          cases hps
          cases m with
          | scalar raw => cases hm
          | done w =>
              cases st with
              | nil => exact hopen w ⟨rfl, rfl⟩
              | cons frame st => cases hread
          | value => cases hread
          | arrayStart => cases hread
          | name fields start => cases hread
          | colon fields name => cases hread
        have hne : text ≠ [] := by
          rintro rfl
          exact hblank rfl
        have hread := hacc.reads htrim
        have hend : Reads number m st (Text.trimChars text ++ []) v := by rwa [List.append_nil]
        rw [Text.lines_last hline hne, List.foldl_cons, List.foldl_nil, blockLine, trim_ofList,
          trimmedLine_of_reads hm hblank hend,
          flush_of_read (by simp) hread, closeArgs_empty]

end Gather

/-! ## Blocks that are written -/

section Written

variable {number : List Char → Option Number} {v : Value} {name args text : List Char}

theorem trimmedLine_name (hname : Text.trimChars name = name) (st : BlockState)
    (hst : st.inArgs = false) :
    trimmedLine number st (String.ofList (Text.trimChars ("name: ".toList ++ name))) =
      { st with acc := [], name := some (String.ofList name) } := by
  have htrim : Text.trimChars ("name: ".toList ++ name) =
      "name:".toList ++ (' ' :: name).rdropWhile Text.isWhitespace :=
    Text.trimChars_word (a := "ame".toList) (by decide) (by decide)
  have hstrip : Text.stripPrefix "name:" (String.ofList (Text.trimChars ("name: ".toList ++ name))) =
      some (String.ofList ((' ' :: name).rdropWhile Text.isWhitespace)) := by
    rw [htrim, Text.stripPrefix_append]
  have hne : ¬ String.ofList (Text.trimChars ("name: ".toList ++ name)) = "" := by
    intro hempty
    rw [hempty] at hstrip
    cases hstrip
  rw [trimmedLine, if_neg hne, hstrip]
  simp only
  rw [trim_ofList, Text.trimChars_rdropWhile, Text.trimChars_cons (by decide), hname, closeArgs, hst]
  rfl

/-- The line with which the arguments begin is like one of the arguments. -/
theorem trimmedLine_args {n : Option String} {args : Value} {rest : List Char}
    (h : Reads number .value [] (Text.trimChars text ++ rest) v) :
    trimmedLine number ⟨n, args, [], false⟩
        (String.ofList (Text.trimChars ("args:".toList ++ text))) =
      trimmedLine number ⟨n, args, [], true⟩ (String.ofList (Text.trimChars text)) := by
  have htrim : Text.trimChars ("args:".toList ++ text) =
      "args:".toList ++ text.rdropWhile Text.isWhitespace :=
    Text.trimChars_word (a := "rgs".toList) (by decide) (by decide)
  have hstrip : Text.stripPrefix "args:" (String.ofList (Text.trimChars ("args:".toList ++ text))) =
      some (String.ofList (text.rdropWhile Text.isWhitespace)) := by
    rw [htrim, Text.stripPrefix_append]
  have hname : Text.stripPrefix "name:"
      (String.ofList (Text.trimChars ("args:".toList ++ text))) = none := by
    rw [htrim]
    refine Text.stripPrefix_of_not ?_
    rintro ⟨more, hmore⟩
    cases hmore
  have hne : ¬ String.ofList (Text.trimChars ("args:".toList ++ text)) = "" := by
    intro hempty
    rw [hempty] at hstrip
    cases hstrip
  rw [trimmedLine, if_neg hne, hname, hstrip]
  simp only
  rw [trim_ofList, Text.trimChars_rdropWhile]
  by_cases hblank : Text.trimChars text = []
  · rw [hblank]
    rfl
  · have hsome : ¬ String.ofList (Text.trimChars text) = "" := fun heq => hblank (by
      rw [← String.toList_ofList (l := Text.trimChars text), heq]
      rfl)
    rw [if_neg hsome, trimmedLine_of_reads (show JsonReader.Mode.value.Between from trivial) hblank h]
    rfl

theorem lines_args {n : Option String} {args : Value} (h : Reads number .value [] text v) :
    (Text.lines (String.ofList ("args:".toList ++ text))).foldl (blockLine number)
        ⟨n, args, [], false⟩ =
      (Text.lines (String.ofList text)).foldl (blockLine number) ⟨n, args, [], true⟩ := by
  have hword : '\n' ∉ "args:".toList := by decide
  have hbetween : JsonReader.Mode.value.Between := trivial
  by_cases hline : '\n' ∈ text
  · obtain ⟨a, b, rfl, ha⟩ := List.eq_append_cons_of_mem hline
    have hfirst : '\n' ∉ "args:".toList ++ a := by
      rw [List.mem_append, not_or]
      exact ⟨hword, ha⟩
    rw [← List.append_assoc, Text.lines_newline hfirst, Text.lines_newline ha, List.foldl_cons,
      List.foldl_cons, blockLine, blockLine, trim_ofList, trim_ofList, Text.trimChars_dropReturn,
      Text.trimChars_dropReturn, trimmedLine_args (h.trim_line hbetween)]
  · have hfirst : '\n' ∉ "args:".toList ++ text := by
      rw [List.mem_append, not_or]
      exact ⟨hword, hline⟩
    have hne : text ≠ [] := by
      rintro rfl
      obtain ⟨ps, hps, hread⟩ := h
      cases hps
      cases hread
    have htrim := h.trim hbetween
    rw [← List.append_nil (Text.trimChars text)] at htrim
    rw [Text.lines_last hfirst (List.append_ne_nil_of_right_ne_nil _ hne), Text.lines_last hline hne,
      List.foldl_cons, List.foldl_cons, blockLine, blockLine, trim_ofList, trim_ofList,
      trimmedLine_args htrim]

theorem parseToolCallBlock_mk (hname : Text.trimChars name = name) (hline : '\n' ∉ name)
    (h : Reads number .value [] text v) :
    parseToolCallBlock number
        (String.ofList ("name: ".toList ++ name ++ '\n' :: ("args:".toList ++ text))) =
      some ⟨String.ofList name, v⟩ := by
  have hfirst : '\n' ∉ "name: ".toList ++ name := by
    rw [List.mem_append, not_or]
    exact ⟨by decide, hline⟩
  have hopen : ∀ w, ¬ (JsonReader.Mode.value = .done w ∧ ([] : List Frame) = []) := by
    rintro w ⟨⟨⟩, -⟩
  have hread : ∀ n args, closeArgs number ((Text.lines (String.ofList text)).foldl
      (blockLine number) ⟨n, args, [], true⟩) = ⟨n, v, [], true⟩ := fun n args =>
    foldl_reads (show JsonReader.Mode.value.Between from trivial) hopen (.inl ⟨rfl, rfl, rfl⟩) h
  rw [parseToolCallBlock, Text.lines_newline hfirst, List.foldl_cons, blockLine, trim_ofList,
    Text.trimChars_dropReturn, trimmedLine_name hname _ rfl]
  simp only
  rw [lines_args h, hread]
  rfl

/-- The text of a call, without its tags. -/
def callBlock (name args : String) : String := s!"name: {name}\nargs: {args}"

/-- The text of a call. -/
def callText (name args : String) : String :=
  s!"<tool_call>\n{callBlock name args}\n</tool_call>"

theorem toList_callBlock (name args : String) : (callBlock name args).toList =
    "name: ".toList ++ name.toList ++ '\n' :: ("args:".toList ++ ' ' :: args.toList) := by
  simp [callBlock, toString]

theorem reads_space (h : Reads number .value [] text v) : Reads number .value [] (' ' :: text) v := by
  obtain ⟨ps, hps, hread⟩ := h
  refine ⟨.out ' ' :: ps, by rw [pieces_cons (by decide), hps]; rfl, ?_⟩
  exact hread

theorem reads_rdropWhile (h : Reads number .value [] text v) :
    Reads number .value [] (text.rdropWhile Text.isWhitespace) v := by
  refine readChars_eq_some_iff.1 (readChars_reverse_dropWhile ?_)
  rw [List.reverse_reverse]
  exact readChars_eq_some_iff.2 h

theorem trim_tagged (name args : String) :
    Text.trim (String.ofList ('\n' :: ((callBlock name args).toList ++ ['\n']))) =
      String.ofList ("name: ".toList ++ name.toList ++
        '\n' :: ("args:".toList ++ (' ' :: args.toList).rdropWhile Text.isWhitespace)) := by
  have hsplit : (callBlock name args).toList =
      'n' :: ("ame: ".toList ++ name.toList ++ "\nargs".toList ++ ':' :: ' ' :: args.toList) := by
    rw [toList_callBlock]
    simp
  rw [trim_ofList, Text.trimChars_cons (by decide), Text.trimChars_concat (by decide), hsplit,
    Text.trimChars_word (by decide) (by decide)]
  simp

theorem standardFrom_nil (fuel : ℕ) : standardFrom number fuel [] = [] := by
  cases fuel with
  | zero => rfl
  | succ fuel => rfl

theorem not_infix_tagged {name args : String} (hname : ¬ "</tool_call>".toList <:+: name.toList)
    (hargs : ¬ "</tool_call>".toList <:+: args.toList) :
    ¬ "</tool_call>".toList <:+: '\n' :: ((callBlock name args).toList ++ ['\n']) := by
  intro h
  rw [toList_callBlock, ← List.nil_append ('\n' :: _)] at h
  have hline : '\n' ∉ "</tool_call>".toList := by decide
  rcases Text.infix_append_cons hline h with h | h
  · exact absurd h (by decide)
  · rw [List.append_assoc, List.cons_append] at h
    rcases Text.infix_append_cons hline h with h | h
    · exact hname (Text.infix_append_of_not_mem (by decide) h)
    · have hargs' : "</tool_call>".toList <:+: "args: ".toList ++ args.toList ++ '\n' :: [] := by
        simpa using h
      rcases Text.infix_append_cons hline hargs' with h | h
      · exact hargs (Text.infix_append_of_not_mem (by decide) h)
      · exact absurd h (by decide)

/-- **A call is read back**, from its block and from its tags, however its arguments are laid out. -/
theorem toolCall_read_back (number : List Char → Option Number) (name args : String) (v : Value)
    (hname : Text.trim name = name) (hline : '\n' ∉ name.toList)
    (h : readJson number args = some v) :
    parseToolCallBlock number (callBlock name args) = some ⟨name, v⟩ ∧
      (¬ "</tool_call>".toList <:+: name.toList → ¬ "</tool_call>".toList <:+: args.toList →
        parseStandardToolCalls number (callText name args) = [⟨name, v⟩]) := by
  have hread : Reads number .value [] args.toList v := readChars_eq_some_iff.1 h
  have htrim : Text.trimChars name.toList = name.toList := by
    have hchars := congrArg String.toList hname
    rwa [Text.trim, String.toList_ofList] at hchars
  have hblock : callBlock name args = String.ofList ("name: ".toList ++ name.toList ++
      '\n' :: ("args:".toList ++ ' ' :: args.toList)) := by
    rw [← toList_callBlock, String.ofList_toList]
  constructor
  · rw [hblock, parseToolCallBlock_mk htrim hline (reads_space hread), String.ofList_toList]
  · intro hfree hfree'
    have htext : (callText name args).toList = "<tool_call>".toList ++
        ('\n' :: ((callBlock name args).toList ++ ['\n']) ++ "</tool_call>".toList) := by
      simp [callText, toString]
    have hopen : Text.splitAtFirst "<tool_call>".toList (callText name args).toList =
        some ([], (callText name args).toList) := by
      rw [htext]
      exact Text.splitAtFirst_append (a := []) (by decide) (by decide)
    have hclose : Text.splitAtFirst "</tool_call>".toList ((callText name args).toList.drop 11) =
        some ('\n' :: ((callBlock name args).toList ++ ['\n']), "</tool_call>".toList) := by
      rw [htext, List.drop_left' (by decide)]
      exact Text.splitAtFirst_append (b := []) (by decide) (not_infix_tagged hfree hfree')
    obtain ⟨fuel, hfuel⟩ : ∃ fuel, (callText name args).toList.length = fuel + 1 := by
      rw [htext]
      exact ⟨_, rfl⟩
    rw [parseStandardToolCalls, hfuel, standardFrom, hopen]
    simp only
    rw [hclose]
    simp only
    rw [trim_tagged, parseToolCallBlock_mk htrim hline (reads_rdropWhile (reads_space hread)),
      String.ofList_toList]
    exact congrArg (_ :: ·) (standardFrom_nil fuel)

/-- A call whose arguments go over three lines. -/
theorem toolCall_read_back_shell :
    parseToolCallBlock (fun _ => none) (callBlock "shell" "\x7b\n  \"cmd\": \"ls\"\n\x7d") =
        some ⟨"shell", .object [("cmd", .string "ls")]⟩ ∧
      (¬ "</tool_call>".toList <:+: "shell".toList →
        ¬ "</tool_call>".toList <:+: "\x7b\n  \"cmd\": \"ls\"\n\x7d".toList →
        parseStandardToolCalls (fun _ => none)
          (callText "shell" "\x7b\n  \"cmd\": \"ls\"\n\x7d") =
            [⟨"shell", .object [("cmd", .string "ls")]⟩]) :=
  toolCall_read_back (fun _ => none) "shell" "\x7b\n  \"cmd\": \"ls\"\n\x7d"
    (.object [("cmd", .string "ls")]) (by decide) (by decide) rfl

/-- The name of a tool is trimmed. -/
theorem spaced_name_not_read_back :
    parseToolCallBlock (fun _ => none) (callBlock "list files " "\x7b\x7d") ≠
      some ⟨"list files ", .object []⟩ := by
  intro h
  have hname : (parseToolCallBlock (fun _ => none) (callBlock "list files " "\x7b\x7d")).map
      ParsedToolCall.name = some "list files" := by rfl
  rw [h] at hname
  exact absurd hname (by decide)

end Written

end PeerClaw
