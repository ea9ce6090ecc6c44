import PeerClaw.Agent.UnifiedLoop
import PeerClaw.Safety.SafetyLayer
import PeerClaw.Serve.JobList
import PeerClaw.Tools.Truncation

/-!
# Where texts are cut

The agent, its tools and the serve loop cut texts at fixed numbers of bytes: what a tool
returned, the goal that a retry keeps, the answer that goes to the memory, the previews of
secrets and violations, the texts of files and pages, and the ids of peers.  The texts
come from models, tools and peers, and none of these places looks for the beginning of a
character.

* `Cut` — the places, each with what it is given; `Cut.runs` — it does not panic.
* `Cut.runs_iff` — a cut runs exactly where its texts are short enough or can be cut.
-/

namespace PeerClaw

open Lib Safety

/-! ## The agent -/

/-- What `store_memory` embeds: the task, and at most 500 bytes of the answer. -/
def memoryContent (userInput answer : String) : Option String :=
  if 500 < Text.byteLen answer.toList then
    (Text.takeBytes 500 answer.toList).map fun head =>
      s!"Task: {userInput}\nResult: {String.ofList head}"
  else some s!"Task: {userInput}\nResult: {answer}"

/-- The headings at which a goal is looked for, in this order. -/
def goalHeadings : List String := ["Goal:", "### Agent goal", "### Task", "### User thread"]

/-- A heading is in the conversation. -/
def Occurs (heading : String) (conversation : List Char) : Prop :=
  (Text.splitAtFirst heading.toList conversation).isSome

instance (heading : String) (conversation : List Char) : Decidable (Occurs heading conversation) :=
  inferInstanceAs (Decidable (_ = true))

/-- The conversation from its goal on: from the first heading that is in it, and from the end of the
system prefix if there is none. -/
inductive GoalFrom (s : AgenticSetup) (conversation tail : List Char) : Prop
  | heading (earlier : List String) (heading : String) (later : List String) (before : List Char)
      (split : goalHeadings = earlier ++ heading :: later)
      (first : ∀ h ∈ earlier, ¬ Occurs h conversation)
      (found : Text.splitAtFirst heading.toList conversation = some (before, tail))
  | system (head : List Char) (none : ∀ h ∈ goalHeadings, ¬ Occurs h conversation)
      (split : conversation = head ++ tail) (head_eq : Text.byteLen head = s.prefixLen)

/-- What follows the first heading that is found. -/
def afterHeading (conversation : List Char) : Option (List Char) :=
  goalHeadings.findSome? fun heading =>
    (Text.splitAtFirst heading.toList conversation).map Prod.snd

theorem not_occurs_iff (heading : String) (conversation : List Char) :
    (Text.splitAtFirst heading.toList conversation).map Prod.snd = none ↔
      ¬ Occurs heading conversation := by
  rw [Option.map_eq_none_iff, Occurs, Option.not_isSome_iff_eq_none]

theorem goalFrom_iff (s : AgenticSetup) (conversation tail : List Char) :
    (afterHeading conversation).or (Text.dropBytes s.prefixLen conversation) = some tail ↔
      GoalFrom s conversation tail := by
  rw [Option.or_eq_some_iff, afterHeading, List.findSome?_eq_some_iff, List.findSome?_eq_none_iff,
    Text.dropBytes_eq_some_iff]
  simp only [not_occurs_iff]
  constructor
  · rintro (⟨earlier, heading, later, hsplit, hfound, hfirst⟩ | ⟨hnone, head, hsplit, hhead⟩)
    · obtain ⟨⟨before, rest⟩, hat, rfl⟩ := Option.map_eq_some_iff.1 hfound
      exact .heading earlier heading later before hsplit hfirst hat
    · exact .system head hnone hsplit hhead
  · rintro (⟨earlier, heading, later, before, hsplit, hfirst, hfound⟩ | ⟨head, hnone, hsplit, hhead⟩)
    · exact .inl ⟨earlier, heading, later, hsplit, by rw [hfound]; rfl, hfirst⟩
    · exact .inr ⟨hnone, head, hsplit, hhead⟩

/-- The goal, at the beginning of what follows it. -/
def goalText (tail : List Char) : Option (List Char) :=
  match Text.splitAtFirst "\n\nAssistant:".toList tail with
  | some (goal, _) => some goal
  | none => Text.takeBytes (min (Text.byteLen tail) 2000) tail

theorem goalSection_eq (s : AgenticSetup) (conversation : List Char) :
    goalSection s conversation =
      ((afterHeading conversation).or (Text.dropBytes s.prefixLen conversation)).bind goalText := by
  unfold afterHeading
  rw [← List.head?_filterMap, goalSection, goalHeadings]
  generalize List.filterMap (fun heading : String =>
    (Text.splitAtFirst heading.toList conversation).map Prod.snd) _ = goals
  cases goals with
  | nil => rfl
  | cons tail goals => rfl

theorem isSome_goalText_iff (tail : List Char) :
    (goalText tail).isSome ↔ Occurs "\n\nAssistant:" tail ∨ Text.CutsAt 2000 tail := by
  unfold goalText Occurs
  cases Text.splitAtFirst "\n\nAssistant:".toList tail with
  | some found => simp
  | none => simpa using Text.isSome_takeBytes_min_iff

/-- **When the goal can be cut out.** -/
theorem isSome_goalSection_iff (s : AgenticSetup) (conversation : List Char) :
    (goalSection s conversation).isSome ↔
      ∃ tail, GoalFrom s conversation tail ∧
        (Occurs "\n\nAssistant:" tail ∨ Text.CutsAt 2000 tail) := by
  simp only [← goalFrom_iff, ← isSome_goalText_iff]
  rw [goalSection_eq]
  cases (afterHeading conversation).or (Text.dropBytes s.prefixLen conversation) with
  | none => simp
  | some tail => simp

/-! ## The previews -/

theorem Safety.Policy.isSome_check_iff (p : Policy) (content : List Char) :
    (p.check content).isSome ↔
      ∀ rule ∈ p.rules, ∀ m ∈ (rule.pattern.findIter content).head?,
        Text.CutsAt 30 (Regex.slice content m.start m.stop) := by
  rw [check, isSome_mapM_iff]
  simp only [Option.isSome_map, isSome_previewOf_iff]
  constructor
  · intro h rule hrule m hm
    refine h (rule, m) (List.mem_filterMap.2 ⟨rule, hrule, ?_⟩)
    rw [Option.mem_def.1 hm, Option.map_some]
  · intro h found hfound
    obtain ⟨rule, hrule, hmap⟩ := List.mem_filterMap.1 hfound
    obtain ⟨m, hm, rfl⟩ := Option.map_eq_some_iff.1 hmap
    exact h rule hrule m hm

/-! ## All of them -/

/-- The places where a text is cut at a fixed number of bytes, with what they are given. -/
inductive Cut
  /-- The result of a tool call, in the unified loop. -/
  | summary (text : String)
  /-- The goal of the conversation, in the unified loop. -/
  | goal (s : AgenticSetup) (conversation : List Char)
  /-- The answer that goes to the memory. -/
  | answer (userInput text : String)
  /-- The output of a command. -/
  | output (bytes : List UInt8) (maxSize : ℕ)
  /-- The previews of secrets. -/
  | leak (d : LeakDetector) (content : List Char)
  /-- The previews of violations. -/
  | policy (p : Policy) (content : List Char)
  /-- The text of a PDF file. -/
  | pdf (text : List Char)
  /-- The page that a browser dumps. -/
  | dom (stdout : List UInt8)
  /-- What is quoted when a patch does not apply. -/
  | patch (content oldText : List Char)
  /-- The ids in the list of jobs. -/
  | jobs (bidsCount : JobId → ℕ) (pending : List JobRequest) (active completed : List Job)

/-- The place does not panic. -/
def Cut.runs : Cut → Bool
  | .summary text => (truncatedSummary text).isSome
  | .goal s conversation => (goalSection s conversation).isSome
  | .answer userInput text => (memoryContent userInput text).isSome
  | .output bytes maxSize => (truncateOutput bytes maxSize).isSome
  | .leak d content => (d.scan content).isSome
  | .policy p content => (p.check content).isSome
  | .pdf text => (pdfText text).isSome
  | .dom stdout => (dumpedDom stdout).isSome
  | .patch content oldText => (findNearbyText content oldText).isSome
  | .jobs bidsCount pending active completed =>
      (jobList bidsCount pending active completed).isSome

/-- The texts are short enough, or can be cut where they are. -/
def Cut.Lands : Cut → Prop
  | .summary text => Text.CutsAt 3000 text.toList
  | .goal s conversation => ∃ tail, GoalFrom s conversation tail ∧
      (Occurs "\n\nAssistant:" tail ∨ Text.CutsAt 2000 tail)
  | .answer _ text => Text.CutsAt 500 text.toList
  | .output bytes maxSize => Text.CutsAt maxSize (fromUtf8Lossy bytes).toList
  | .leak d content => ∀ found ∈ d.found content,
      Text.CutsAt 10 (Regex.slice content found.2.start found.2.stop)
  | .policy p content => ∀ rule ∈ p.rules, ∀ m ∈ (rule.pattern.findIter content).head?,
      Text.CutsAt 30 (Regex.slice content m.start m.stop)
  | .pdf text => Text.CutsAt pdfMaxTextLength text
  | .dom stdout => Text.CutsAt maxDomSize (fromUtf8Lossy stdout).toList
  | .patch content oldText => Text.CutsAt 40 (firstLine oldText) ∧
      (FoundNearby content oldText ∨ Text.CutsAt 200 content)
  | .jobs _ pending active completed =>
      ∀ id ∈ shownIds pending (active ++ completed), EndsInEight id

/-- **When a text can be cut.** -/
theorem Cut.runs_iff (cut : Cut) : cut.runs ↔ cut.Lands := by
  cases cut with
  | summary text => exact Text.isSome_cut_iff _ _
  | goal s conversation => exact isSome_goalSection_iff s conversation
  | answer userInput text => exact Text.isSome_cut_iff _ _
  | output bytes maxSize => exact isSome_truncateOutput_iff bytes maxSize
  | leak d content => exact d.isSome_scan_iff content
  | policy p content => exact p.isSome_check_iff content
  | pdf text => exact isSome_pdfText_iff text
  | dom stdout => exact isSome_dumpedDom_iff stdout
  | patch content oldText => exact isSome_findNearbyText_iff content oldText
  | jobs bidsCount pending active completed =>
      exact isSome_jobList_iff bidsCount pending active completed

/-- A summary with a letter of two bytes where it is cut. -/
theorem summary_cut_panics :
    (Cut.summary (String.ofList (List.replicate 2999 'a' ++ ['é', 'a']))).runs = false := by
  rw [Cut.runs, truncatedSummary, String.toList_ofList]
  decide +kernel

end PeerClaw
