import PeerClaw.Lib.FiniteMap
import PeerClaw.Lib.Regroup
import PeerClaw.Lib.Whitespace

/-!
# The files of a workspace

IDENTITY.md and MEMORY.md are read line by line: a heading names a section, and the items below it
belong to it.  A name is written in lower case with underscores in memory and as a heading in the
file, so that it goes through two mappings on its way out and in again.

* `Identity.parse`, `Identity.toMarkdown` — the identity of an agent.
* `parseMemory`, `formatMemory` — what it remembers, in categories.
* `Reads` — what a reader of lines does with a section; `Reads.sections` is what it does with all.
* `Identity.roundTrips_iff_keeps`, `memoryRoundTrips_iff_keeps` — when each file comes back.
* `roundTrips_iff` — when both do.

The case mappings are a parameter.
-/

namespace PeerClaw

open Lib

namespace Workspace

variable (casing : Text.Casing)

/-! ## Names and headings -/

/-- The name of a section, from its heading. -/
def sectionName (heading : String) : String :=
  Text.replace (casing.toLowercase (Text.trim heading)) " " "_"

/-- A word with its first character in upper case. -/
def capitalize (word : String) : String :=
  match word.toList with
  | [] => ""
  | c :: cs => casing.toUppercase (String.singleton c) ++ String.ofList cs

/-- The heading of a section, from its name: each word is capitalized. -/
def titleCase (name : String) : String :=
  Text.join " " ((Text.splitWhitespace (Text.replace name "_" " ")).map (capitalize casing))

/-- `str::lines`, each of them trimmed. -/
def trimmedLines (content : String) : List String := (Text.lines content).map Text.trim

/-- An item of a list. -/
def itemOf (line : String) : Option String :=
  if Text.startsWith line "- " || Text.startsWith line "* " then
    some (Text.trim (String.ofList (line.toList.drop 2)))
  else none

/-- The items of a section, as they are written. -/
def bullets (items : List String) : String := String.join (items.map fun item => s!"- {item}\n")

/-- A section, as it is written. -/
def sectionText (heading : String) (items : List String) : String :=
  s!"## {heading}\n\n" ++ bullets items ++ "\n"

end Workspace

/-! ## The identity -/

/-- `Identity`. -/
structure Identity where
  name : String
  nature : String
  vibe : String
  traits : List String
  communicationStyle : List String
  values : List String
  customSections : FiniteMap String (List String)

namespace Identity

open Workspace

variable (casing : Text.Casing)

/-- What an identity is before anything is read. -/
def start : Identity :=
  ⟨"PeerClaw", "Helpful AI assistant", "Professional yet friendly", [], [], [], ∅⟩

/-- A line with a key and a value. -/
def setField (identity : Identity) (key value : String) : Identity :=
  if value = "" then identity
  else if key = "name" then { identity with name := value }
  else if key = "nature" then { identity with nature := value }
  else if key = "vibe" ∨ key = "style" then { identity with vibe := value }
  else identity

/-- An item of a section. -/
def addItem (identity : Identity) (sect item : String) : Identity :=
  if sect = "traits" ∨ sect = "personality" ∨ sect = "characteristics" then
    { identity with traits := identity.traits ++ [item] }
  else if sect = "communication_style" ∨ sect = "style" ∨ sect = "communication" then
    { identity with communicationStyle := identity.communicationStyle ++ [item] }
  else if sect = "values" ∨ sect = "core_values" ∨ sect = "principles" then
    { identity with values := identity.values ++ [item] }
  else if sect ≠ "" then
    let items := (identity.customSections.lookup sect).getD []
    { identity with customSections := identity.customSections.insert sect (items ++ [item]) }
  else identity

/-- A line that has been trimmed, and the section it is in. -/
def readLine (st : String × Identity) (line : String) : String × Identity :=
  if line = "" then st
  else if Text.contains line ":" && !Text.startsWith line "#" && !Text.startsWith line "-" then
    match Text.splitOnce ':' line with
    | some (key, value) =>
        (st.1, st.2.setField (casing.toLowercase (Text.trim key)) (Text.trim value))
    | none => st
  else
    match Text.stripPrefix "## " line with
    | some stripped => (sectionName casing stripped, st.2)
    | none =>
        if Text.startsWith line "# " then st
        else
          match itemOf line with
          | some item => if item = "" then st else (st.1, st.2.addItem st.1 item)
          | none => st

/-- `Identity::parse`. -/
def parse (content : String) : Identity :=
  ((trimmedLines content).foldl (readLine casing) ("", start)).2

/-- `Identity::to_markdown`, for an order of the sections. -/
def toMarkdown (self : Identity) (sections : List (String × List String)) : String :=
  "# Identity\n\n" ++ s!"name: {self.name}\n" ++ s!"nature: {self.nature}\n" ++
    s!"vibe: {self.vibe}\n\n" ++
    (if self.traits.isEmpty then "" else sectionText "Traits" self.traits) ++
    (if self.communicationStyle.isEmpty then ""
      else sectionText "Communication Style" self.communicationStyle) ++
    (if self.values.isEmpty then "" else sectionText "Values" self.values) ++
    String.join (sections.map fun s => sectionText (titleCase casing s.1) s.2)

/-- What the map of the custom sections may go through. -/
def Iterates (self : Identity) (sections : List (String × List String)) : Prop :=
  (sections : Multiset (String × List String)) =
    self.customSections.entries.map fun e => (e.1, e.2)

/-- The name that a custom section comes back under. -/
def again (name : String) : String := sectionName casing (titleCase casing name)

/-- Each custom section has a heading and comes back under a name of its own, which is that of a
custom section with the same items. -/
def Keeps (identity : Identity) : Prop :=
  (∀ name ∈ identity.customSections, Text.trim (titleCase casing name) ≠ "" ∧
    identity.customSections.lookup (again casing name) = identity.customSections.lookup name) ∧
  ∀ name ∈ identity.customSections, ∀ name' ∈ identity.customSections,
    again casing name = again casing name' → name = name'

/-- The identity comes back, whatever the order of the map. -/
def RoundTrips (content : String) : Prop :=
  ∀ sections, (parse casing content).Iterates sections →
    parse casing ((parse casing content).toMarkdown casing sections) = parse casing content

end Identity

/-! ## The memory -/

/-- `MemoryEntry`, without what a parsed one does not have. -/
structure MemoryEntry where
  category : String
  content : String
  deriving DecidableEq

namespace Workspace

variable (casing : Text.Casing)

/-- A line that has been trimmed, the category it is in, and the entries before it. -/
def readMemoryLine (st : String × List MemoryEntry) (line : String) :
    String × List MemoryEntry :=
  match Text.stripPrefix "## " line with
  | some stripped => (sectionName casing stripped, st.2)
  | none =>
      match itemOf line with
      | some content =>
          if content ≠ "" ∧ content ≠ "(Add" ∧ Text.startsWith content "(Add" = false then
            (st.1, st.2 ++ [⟨st.1, content⟩])
          else st
      | none => st

/-- `parse_memory`. -/
def parseMemory (content : String) : List MemoryEntry :=
  ((trimmedLines content).foldl (readMemoryLine casing) ("", [])).2

/-- The contents of the entries of a category. -/
def ofCategory (entries : List MemoryEntry) (category : String) : List String :=
  (entries.filter fun e => e.category = category).map MemoryEntry.content

/-- The categories that come first. -/
def standardOrder : List String := ["user_preferences", "important_facts", "lessons_learned"]

/-- `format_memory`, for an order of the remaining categories. -/
def formatMemory (entries : List MemoryEntry) (remaining : List String) : String :=
  "# Memory\n\n" ++
    String.join ((standardOrder.filter fun c => ofCategory entries c ≠ []).map fun c =>
      sectionText (titleCase casing c) (ofCategory entries c)) ++
    String.join (remaining.map fun c =>
      sectionText (Text.replace c "_" " ") (ofCategory entries c))

/-- The heading of a category. -/
def memoryHeading (category : String) : String :=
  if category ∈ standardOrder then titleCase casing category else Text.replace category "_" " "

/-- The name that a category comes back under. -/
def memoryAgain (category : String) : String := sectionName casing (memoryHeading casing category)

/-- What the map of the remaining categories may go through. -/
def IteratesRemaining (entries : List MemoryEntry) (remaining : List String) : Prop :=
  remaining.Nodup ∧ ∀ c, c ∈ remaining ↔ c ∉ standardOrder ∧ ofCategory entries c ≠ []

/-- Each category comes back with its entries, whatever the order of the map. -/
def MemoryRoundTrips (content : String) : Prop :=
  ∀ remaining, IteratesRemaining (parseMemory casing content) remaining → ∀ category,
    ofCategory (parseMemory casing (formatMemory casing (parseMemory casing content) remaining))
      category = ofCategory (parseMemory casing content) category

/-- No entry has a category, or each category has a heading and comes back under a name of its own,
which is that of a category with the same entries. -/
def MemoryKeeps (entries : List MemoryEntry) : Prop :=
  (∀ e ∈ entries, e.category = "") ∨
    (∀ e ∈ entries, Text.trim (memoryHeading casing e.category) ≠ "" ∧
      ofCategory entries (memoryAgain casing e.category) = ofCategory entries e.category) ∧
    ∀ e ∈ entries, ∀ e' ∈ entries,
      memoryAgain casing e.category = memoryAgain casing e'.category → e.category = e'.category

end Workspace

/-! ## The lines of a file -/

namespace Workspace

open Lib.Text (trimChars)

/-- Lines, each with its line feed. -/
def unlines (ls : List String) : String := String.join (ls.map fun l => l ++ "\n")

/-- A text that a section may hold: it is trimmed, it is not empty, and it is on one line. -/
structure Tidy (item : String) : Prop where
  trimmed : Text.trim item = item
  nonempty : item ≠ ""
  oneLine : '\n' ∉ item.toList

section Lines

variable {item line : String} {ls ls' items : List String}

theorem toList_unlines : (unlines ls).toList = (ls.map String.toList).flatMap fun l => l ++ ['\n'] := by
  simp [unlines, String.toList_join, List.flatMap_map]

theorem unlines_append : unlines (ls ++ ls') = unlines ls ++ unlines ls' := by
  rw [← String.toList_inj]
  simp [toList_unlines]

/-- **The lines of a file** that is written line by line. -/
theorem trimmedLines_unlines (h : ∀ l ∈ ls, '\n' ∉ l.toList) :
    trimmedLines (unlines ls) = ls.map Text.trim := by
  have hlines : ∀ l ∈ ls.map String.toList, '\n' ∉ l := by simpa using h
  rw [trimmedLines, Text.lines, toList_unlines, Text.linesFrom_flatMap hlines, List.map_map,
    List.map_map, List.map_map]
  refine List.map_congr_left fun l _ => ?_
  show Text.trim (String.ofList (Text.dropReturn l.toList)) = Text.trim l
  rw [Text.trim, String.toList_ofList, Text.trimChars_dropReturn, Text.trim]

theorem of_mem_trimmedLines {content : String} (h : line ∈ trimmedLines content) :
    Text.trim line = line ∧ '\n' ∉ line.toList := by
  simp only [trimmedLines, Text.lines, List.map_map, List.mem_map, Function.comp] at h
  obtain ⟨l, hl, rfl⟩ := h
  have hone := Text.newline_not_mem_linesFrom List.not_mem_nil hl
  simp only [Text.trim, String.toList_ofList, Text.trimChars_trimChars, true_and]
  exact fun hmem => hone (Text.mem_of_mem_trimChars hmem)

@[simp] theorem trim_trim (s : String) : Text.trim (Text.trim s) = Text.trim s := by
  simp only [Text.trim, String.toList_ofList, Text.trimChars_trimChars]

theorem newline_not_mem_trim {s : String} (h : '\n' ∉ s.toList) : '\n' ∉ (Text.trim s).toList := by
  rw [Text.trim, String.toList_ofList]
  exact fun hmem => h (Text.mem_of_mem_trimChars hmem)

/-- What is trimmed may be held by a section, if there is something left of it. -/
theorem Tidy.of_trim {s : String} (hne : Text.trim s ≠ "") (hone : '\n' ∉ s.toList) :
    Tidy (Text.trim s) := ⟨trim_trim s, hne, newline_not_mem_trim hone⟩

theorem Tidy.of_itemOf (h : itemOf line = some item) (hne : item ≠ "") (hone : '\n' ∉ line.toList) :
    Tidy item := by
  unfold itemOf at h
  split at h
  · obtain rfl := Option.some.inj h
    have hrest : '\n' ∉ (String.ofList (line.toList.drop 2)).toList := by
      rw [String.toList_ofList]
      exact fun hmem => hone (List.drop_subset 2 _ hmem)
    exact Tidy.of_trim hne hrest
  · cases h

theorem Tidy.exists_end (h : Tidy item) :
    ∃ start d, item.toList = start ++ [d] ∧ Text.isWhitespace d = false := by
  have htrim : trimChars item.toList = item.toList := by
    have htrimmed := h.trimmed
    rwa [← String.toList_inj, Text.trim, String.toList_ofList] at htrimmed
  rcases Text.trimChars_cases item.toList with hnil | ⟨-, start, d, hend, hd⟩
  · rw [htrim, String.toList_eq_nil_iff] at hnil
    exact absurd hnil h.nonempty
  · exact ⟨start, d, htrim ▸ hend, hd⟩

/-- A line that ends with a tidy text has nothing to trim at its end. -/
theorem Tidy.trim_append (h : Tidy item) {c : Char} {cs : List Char}
    (hc : Text.isWhitespace c = false) :
    Text.trim (String.ofList (c :: cs ++ item.toList)) = String.ofList (c :: cs ++ item.toList) := by
  obtain ⟨start, d, hend, hd⟩ := h.exists_end
  rw [Text.trim, String.toList_ofList]
  have hlast : c :: cs ++ item.toList = (c :: cs ++ start) ++ [d] := by
    rw [hend, List.append_assoc]
  exact congrArg String.ofList (Text.trimChars_self hc hd rfl hlast)

/-! ## A line is read again -/

theorem trim_bullet (h : Tidy item) :
    Text.trim ("- " ++ item) = String.ofList ('-' :: ' ' :: item.toList) := by
  have hline : "- " ++ item = String.ofList ('-' :: [' '] ++ item.toList) := by
    rw [← String.toList_inj]
    simp
  rw [hline, h.trim_append (by decide)]
  rfl

theorem itemOf_bullet (h : Tidy item) : itemOf (Text.trim ("- " ++ item)) = some item := by
  rw [trim_bullet h, itemOf, Text.startsWith, String.toList_ofList]
  rw [if_pos (by simp [List.isPrefixOf])]
  simp [h.trimmed]

theorem trim_eq_empty_iff {s : String} :
    Text.trim s = "" ↔ ∀ c ∈ s.toList, Text.isWhitespace c = true := by
  rw [← Text.trimChars_eq_nil_iff, ← String.toList_inj, Text.trim, String.toList_ofList]
  rfl

theorem toList_trim_heading (h : String) : (Text.trim ("## " ++ h)).toList =
    '#' :: '#' :: (' ' :: h.toList).rdropWhile Text.isWhitespace := by
  have hline : ("## " ++ h).toList = '#' :: ([] ++ '#' :: ' ' :: h.toList) := by simp
  rw [Text.trim, String.toList_ofList, hline, Text.trimChars_word (by decide) (by decide)]
  rfl

theorem trim_heading {h : String} (hname : Text.trim h ≠ "") : ∃ stripped,
    Text.stripPrefix "## " (Text.trim ("## " ++ h)) = some stripped ∧
      Text.trim stripped = Text.trim h := by
  obtain ⟨c, hc, hword⟩ : ∃ c ∈ h.toList, Text.isWhitespace c = false := by
    by_contra hnone
    push Not at hnone
    exact hname (trim_eq_empty_iff.2 fun c hc => by simpa using hnone c hc)
  obtain ⟨a, b, hsplit⟩ := List.append_of_mem hc
  have hdrop : (' ' :: h.toList).rdropWhile Text.isWhitespace =
      ' ' :: h.toList.rdropWhile Text.isWhitespace := by
    rw [hsplit, ← List.cons_append, Text.rdropWhile_append hword, Text.rdropWhile_append hword,
      List.cons_append]
  have hline : Text.trim ("## " ++ h) =
      String.ofList ("## ".toList ++ h.toList.rdropWhile Text.isWhitespace) := by
    rw [← String.toList_inj, toList_trim_heading, hdrop, String.toList_ofList]
    rfl
  refine ⟨String.ofList (h.toList.rdropWhile Text.isWhitespace), ?_, ?_⟩
  · rw [hline, Text.stripPrefix_append]
  · rw [Text.trim, String.toList_ofList, Text.trimChars_rdropWhile, Text.trim]

theorem trim_heading_blank {h : String} (hblank : Text.trim h = "") :
    Text.trim ("## " ++ h) = "##" := by
  have hwhite : ∀ c ∈ ' ' :: h.toList, Text.isWhitespace c = true :=
    List.forall_mem_cons.2 ⟨by decide, trim_eq_empty_iff.1 hblank⟩
  rw [← String.toList_inj, toList_trim_heading, (List.rdropWhile_eq_nil_iff).2 hwhite]
  rfl

end Lines

/-! ## A section is read again -/

section Sections

variable (casing : Text.Casing)

/-- The section that a heading leads to. -/
def enter (current heading : String) : String :=
  if Text.trim heading = "" then current else sectionName casing heading

/-- The lines of a section, as it is written. -/
def sectionLines (heading : String) (items : List String) : List String :=
  ("## " ++ heading) :: "" :: (items.map fun item => "- " ++ item) ++ [""]

theorem sectionText_eq (heading : String) (items : List String) :
    sectionText heading items = unlines (sectionLines heading items) := by
  have hbullets : bullets items = String.join (items.map fun item => "- " ++ item ++ "\n") := rfl
  have htext : sectionText heading items = "## " ++ heading ++ "\n\n" ++ bullets items ++ "\n" := rfl
  rw [← String.toList_inj, htext, hbullets]
  simp [sectionLines, toList_unlines, String.toList_join, List.flatMap_map]

theorem newline_not_mem_sectionLines {heading line : String} {items : List String}
    (hheading : '\n' ∉ heading.toList) (h : ∀ item ∈ items, Tidy item)
    (hline : line ∈ sectionLines heading items) : '\n' ∉ line.toList := by
  simp only [sectionLines, List.cons_append, List.mem_cons, List.mem_append, List.mem_map,
    List.not_mem_nil, or_false] at hline
  rcases hline with rfl | rfl | ⟨item, hitem, rfl⟩ | rfl
  · simpa using hheading
  · exact List.not_mem_nil
  · simpa using (h item hitem).oneLine
  · exact List.not_mem_nil

/-- A reader of lines that have been trimmed: the section it is in, and what it has read. -/
structure Reads {α κ : Type} [DecidableEq κ] (read : String × α → String → String × α)
    (place : String → Option κ) (itemsAt : α → κ → List String) (Kept : String → Prop) : Prop where
  skip : ∀ st, read st "" = st
  heading : ∀ st h, read st (Text.trim ("## " ++ h)) = (enter casing st.1 h, st.2)
  bullet : ∀ st item, Tidy item → Kept item →
    (read st (Text.trim ("- " ++ item))).1 = st.1 ∧ ∀ name,
      itemsAt (read st (Text.trim ("- " ++ item))).2 name =
        itemsAt st.2 name ++ if place st.1 = some name then [item] else []

variable {casing} {α κ : Type} [DecidableEq κ] {read : String × α → String → String × α}
  {place : String → Option κ} {itemsAt : α → κ → List String} {Kept : String → Prop}
  {st : String × α} {items : List String}

theorem Reads.bullets (hr : Reads casing read place itemsAt Kept) (h : ∀ item ∈ items, Tidy item)
    (hkept : ∀ item ∈ items, Kept item) :
    ((items.map fun item => Text.trim ("- " ++ item)).foldl read st).1 = st.1 ∧ ∀ name,
      itemsAt ((items.map fun item => Text.trim ("- " ++ item)).foldl read st).2 name =
        itemsAt st.2 name ++ if place st.1 = some name then items else [] := by
  induction items generalizing st with
  | nil => simp
  | cons item items ih =>
      obtain ⟨hitem, hitems⟩ := List.forall_mem_cons.1 h
      obtain ⟨hkeep, hkeeps⟩ := List.forall_mem_cons.1 hkept
      obtain ⟨hsect, hadd⟩ := hr.bullet st item hitem hkeep
      obtain ⟨hsect', hadd'⟩ := ih hitems hkeeps
      rw [List.map_cons, List.foldl_cons]
      refine ⟨hsect'.trans hsect, fun name => ?_⟩
      rw [hadd', hadd, hsect, List.append_assoc]
      split
      · rfl
      · rfl

/-- **A section is read again**, under the name that its heading leads to. -/
theorem Reads.section_lines (hr : Reads casing read place itemsAt Kept)
    (h : ∀ item ∈ items, Tidy item) (hkept : ∀ item ∈ items, Kept item) (heading : String) :
    (((sectionLines heading items).map Text.trim).foldl read st).1 = enter casing st.1 heading ∧
      ∀ name, itemsAt (((sectionLines heading items).map Text.trim).foldl read st).2 name =
        itemsAt st.2 name ++
          if place (enter casing st.1 heading) = some name then items else [] := by
  have hempty : Text.trim "" = "" := rfl
  have hlines : (sectionLines heading items).map Text.trim = Text.trim ("## " ++ heading) :: "" ::
      (items.map fun item => Text.trim ("- " ++ item)) ++ [""] := by
    simp [sectionLines, hempty, Function.comp_def]
  rw [hlines, List.foldl_append, List.foldl_cons, List.foldl_cons, List.foldl_cons, List.foldl_nil,
    hr.skip, hr.skip, hr.heading]
  exact hr.bullets h hkept

/-- **Sections are read again**, each under the name that its heading leads to. -/
theorem Reads.sections {κ' : Type} [DecidableEq κ'] (hr : Reads casing read place itemsAt Kept)
    {heading : κ' → String} {itemsOf : κ' → List String} {groups : List κ'} (hnd : groups.Nodup)
    (h : ∀ g ∈ groups, ∀ item ∈ itemsOf g, Tidy item)
    (hkept : ∀ g ∈ groups, ∀ item ∈ itemsOf g, Kept item) (name : κ) :
    itemsAt (((groups.flatMap fun g => sectionLines (heading g) (itemsOf g)).map Text.trim).foldl
        read st).2 name =
      itemsAt st.2 name ++ regroup
        (fun g => place (sentFrom (fun now g => enter casing now (heading g)) st.1 groups g))
        itemsOf groups (some name) := by
  induction groups generalizing st with
  | nil => simp
  | cons g groups ih =>
      obtain ⟨hg, hnd⟩ := List.nodup_cons.1 hnd
      obtain ⟨htidy, htidies⟩ := List.forall_mem_cons.1 h
      obtain ⟨hkeep, hkeeps⟩ := List.forall_mem_cons.1 hkept
      obtain ⟨hsect, hadd⟩ := hr.section_lines htidy hkeep (heading g)
      rw [List.flatMap_cons, List.map_append, List.foldl_append, ih hnd htidies hkeeps, hsect, hadd,
        regroup_sentFrom hg, List.append_assoc]

theorem Reads.keeps {κ' : Type} (hr : Reads casing read place itemsAt Kept) {P : α → Prop}
    (hP : ∀ st item, Tidy item → Kept item → P st.2 → P (read st (Text.trim ("- " ++ item))).2)
    {heading : κ' → String} {itemsOf : κ' → List String} {groups : List κ'}
    (h : ∀ g ∈ groups, ∀ item ∈ itemsOf g, Tidy item)
    (hkept : ∀ g ∈ groups, ∀ item ∈ itemsOf g, Kept item) (hst : P st.2) :
    P (((groups.flatMap fun g => sectionLines (heading g) (itemsOf g)).map Text.trim).foldl
      read st).2 := by
  have hline : ∀ g ∈ groups, ∀ l ∈ sectionLines (heading g) (itemsOf g), ∀ st : String × α,
      P st.2 → P (read st (Text.trim l)).2 := by
    intro g hg l hl st hst
    simp only [sectionLines, List.cons_append, List.mem_cons, List.mem_append, List.mem_map,
      List.not_mem_nil, or_false] at hl
    have hempty : Text.trim "" = "" := rfl
    rcases hl with rfl | rfl | ⟨item, hitem, rfl⟩ | rfl
    · rwa [hr.heading]
    · rwa [hempty, hr.skip]
    · exact hP st item (h g hg item hitem) (hkept g hg item hitem) hst
    · rwa [hempty, hr.skip]
  have hlines : ∀ ls : List String, (∀ l ∈ ls, ∃ g ∈ groups, l ∈ sectionLines (heading g) (itemsOf g)) →
      ∀ st : String × α, P st.2 → P ((ls.map Text.trim).foldl read st).2 := by
    intro ls
    induction ls with
    | nil => exact fun _ _ hst => hst
    | cons l ls ih =>
        intro hls st hst
        obtain ⟨⟨g, hg, hl⟩, hrest⟩ := List.forall_mem_cons.1 hls
        exact ih hrest _ (hline g hg l hl st hst)
  exact hlines _ (fun l hl => List.mem_flatMap.1 hl) st hst

end Sections

/-! ## Headings are on one line -/

section Headings

variable (casing : Text.Casing)

/-- What the case mappings are known to keep: a text on one line stays on one line. -/
structure KeepsLines : Prop where
  lower : ∀ s : String, '\n' ∉ s.toList → '\n' ∉ (casing.toLowercase s).toList
  upper : ∀ s : String, '\n' ∉ s.toList → '\n' ∉ (casing.toUppercase s).toList

theorem ascii_keepsLines : KeepsLines .ascii where
  lower s h := by
    simp only [Text.Casing.ascii, Text.toAsciiLowercase, String.toList_ofList, List.mem_map]
    rintro ⟨c, hc, heq⟩
    unfold Char.toLower at heq
    split at heq
    · next hupper =>
        have hval := congrArg (fun c => c.val.toNat) heq
        have hlow := UInt32.le_iff_toNat_le.1 hupper.1
        have hhigh := UInt32.le_iff_toNat_le.1 hupper.2
        simp [UInt32.toNat_add] at hval hlow hhigh
        omega
    · exact h (heq ▸ hc)
  upper s h := by
    simp only [Text.Casing.ascii, Text.toAsciiUppercase, String.toList_ofList, List.mem_map]
    rintro ⟨c, hc, heq⟩
    unfold Char.toUpper at heq
    split at heq
    · next hlower =>
        have hval := congrArg (fun c => c.val.toNat) heq
        have hlow := UInt32.le_iff_toNat_le.1 hlower.1
        have hhigh := UInt32.le_iff_toNat_le.1 hlower.2
        simp [UInt32.toNat_add] at hval hlow hhigh
        omega
    · exact h (heq ▸ hc)

theorem replace_char {s pattern replacement : String} {a b : Char} (hp : pattern.toList = [a])
    (hr : replacement.toList = [b]) : Text.replace s pattern replacement =
      String.ofList (s.toList.map fun c => if c = a then b else c) := by
  have hfrom : ∀ (cs : List Char) (fuel : ℕ), cs.length ≤ fuel →
      Text.replaceFrom [a] [b] fuel cs = cs.map fun c => if c = a then b else c := by
    intro cs
    induction cs with
    | nil =>
        intro fuel _
        cases fuel with
        | zero => rfl
        | succ fuel => rfl
    | cons c cs ih =>
        intro fuel hfuel
        cases fuel with
        | zero => simp at hfuel
        | succ fuel =>
            have hrest := ih fuel (by simpa using hfuel)
            by_cases hc : c = a
            · simp [Text.replaceFrom, hc, hrest]
            · simp [Text.replaceFrom, hc, Ne.symm hc, hrest]
  rw [Text.replace, hp, hr, hfrom s.toList s.length (le_of_eq String.length_toList)]

variable {casing}

theorem newline_not_mem_replace {s pattern replacement : String} {a b : Char}
    (h : '\n' ∉ s.toList) (hp : pattern.toList = [a]) (hr : replacement.toList = [b])
    (hb : b ≠ '\n') : '\n' ∉ (Text.replace s pattern replacement).toList := by
  rw [replace_char hp hr, String.toList_ofList, List.mem_map]
  rintro ⟨c, hc, heq⟩
  split at heq
  · exact hb heq
  · exact h (heq ▸ hc)

theorem newline_not_mem_sectionName (hk : KeepsLines casing) {heading : String}
    (h : '\n' ∉ heading.toList) : '\n' ∉ (sectionName casing heading).toList :=
  newline_not_mem_replace (hk.lower _ (newline_not_mem_trim h)) rfl rfl (by decide)

theorem newline_not_mem_capitalize (hk : KeepsLines casing) {word : String}
    (h : '\n' ∉ word.toList) : '\n' ∉ (capitalize casing word).toList := by
  unfold capitalize
  split
  · simp
  · next c cs hword =>
      rw [hword] at h
      obtain ⟨hc, hcs⟩ := not_or.1 (List.mem_cons.not.1 h)
      rw [String.toList_append, String.toList_ofList, List.mem_append]
      rintro (hmem | hmem)
      · exact hk.upper (String.singleton c) (by simpa using hc) hmem
      · exact hcs hmem

theorem mem_join_blank {c : Char} {texts : List String} (h : c ∈ (Text.join " " texts).toList) :
    c = ' ' ∨ ∃ text ∈ texts, c ∈ text.toList := by
  rw [Text.join, String.toList_ofList] at h
  induction texts with
  | nil => simp [List.intercalate] at h
  | cons text texts ih =>
      cases texts with
      | nil => exact .inr ⟨text, List.mem_singleton_self text, by simpa [List.intercalate] using h⟩
      | cons text' texts =>
          have hsplit : " ".toList.intercalate ((text :: text' :: texts).map String.toList) =
              text.toList ++ ' ' :: " ".toList.intercalate ((text' :: texts).map String.toList) := by
            simp [List.intercalate]
          rw [hsplit, List.mem_append, List.mem_cons] at h
          rcases h with hfirst | rfl | hrest
          · exact .inr ⟨text, List.mem_cons_self, hfirst⟩
          · exact .inl rfl
          · rcases ih hrest with hblank | ⟨t, ht, hmem⟩
            · exact .inl hblank
            · exact .inr ⟨t, List.mem_cons_of_mem text ht, hmem⟩

theorem mem_join_of_mem {c : Char} {text : String} {texts : List String} (h : text ∈ texts)
    (hc : c ∈ text.toList) : c ∈ (Text.join " " texts).toList := by
  rw [Text.join, String.toList_ofList]
  induction texts with
  | nil => cases h
  | cons text' texts ih =>
      cases texts with
      | nil =>
          obtain rfl := List.mem_singleton.1 h
          simpa [List.intercalate] using hc
      | cons text'' texts =>
          have hsplit : " ".toList.intercalate ((text' :: text'' :: texts).map String.toList) =
              text'.toList ++ ' ' :: " ".toList.intercalate ((text'' :: texts).map String.toList) := by
            simp [List.intercalate]
          rw [hsplit, List.mem_append]
          rcases List.mem_cons.1 h with rfl | h
          · exact .inl hc
          · exact .inr (List.mem_cons_of_mem ' ' (ih h))

theorem mem_capitalize {c : Char} {word : String} (h : c ∈ word.toList.tail) :
    c ∈ (capitalize casing word).toList := by
  unfold capitalize
  split
  · next hnil =>
      rw [hnil] at h
      cases h
  · next d cs hcons =>
      rw [hcons] at h
      rw [String.toList_append, String.toList_ofList]
      exact List.mem_append_right _ h

theorem newline_not_mem_titleCase (hk : KeepsLines casing) (name : String) :
    '\n' ∉ (titleCase casing name).toList := by
  intro hmem
  rcases mem_join_blank hmem with hblank | ⟨text, htext, hmem⟩
  · revert hblank
    decide
  · rw [List.mem_map] at htext
    obtain ⟨word, hword, rfl⟩ := htext
    refine newline_not_mem_capitalize hk ?_ hmem
    rw [Text.splitWhitespace, List.mem_map] at hword
    obtain ⟨w, hw, rfl⟩ := hword
    rw [String.toList_ofList]
    intro hnewline
    have hword := (Text.isWord_of_mem_words w hw).2 _ hnewline
    revert hword
    decide

end Headings

/-! ## The memory is read again -/

section Memory

variable {casing : Text.Casing} {st : String × List MemoryEntry} {item line category : String}
  {entries : List MemoryEntry}

/-- What a memory that has been read holds. -/
def MemoryTidy (entries : List MemoryEntry) : Prop :=
  ∀ e ∈ entries, Tidy e.content ∧ Text.startsWith e.content "(Add" = false ∧
    '\n' ∉ e.category.toList

theorem stripPrefix_newline {start rest : String} (h : Text.stripPrefix start line = some rest)
    (hone : '\n' ∉ line.toList) : '\n' ∉ rest.toList := by
  unfold Text.stripPrefix at h
  split at h
  · obtain rfl := Option.some.inj h
    rw [String.toList_ofList]
    exact fun hmem => hone (List.drop_subset _ _ hmem)
  · cases h

theorem readMemoryLine_tidy (hk : KeepsLines casing) (hone : '\n' ∉ line.toList)
    (hsect : '\n' ∉ st.1.toList) (h : MemoryTidy st.2) :
    '\n' ∉ (readMemoryLine casing st line).1.toList ∧
      MemoryTidy (readMemoryLine casing st line).2 := by
  unfold readMemoryLine
  split
  · next stripped hstrip =>
      exact ⟨newline_not_mem_sectionName hk (stripPrefix_newline hstrip hone), h⟩
  · split
    · next content hitem =>
        split
        · next hkept =>
            refine ⟨hsect, fun e he => ?_⟩
            rcases List.mem_append.1 he with he | he
            · exact h e he
            · obtain rfl := List.mem_singleton.1 he
              exact ⟨Tidy.of_itemOf hitem hkept.1 hone, hkept.2.2, hsect⟩
        · exact ⟨hsect, h⟩
    · exact ⟨hsect, h⟩

theorem foldl_readMemoryLine_tidy (hk : KeepsLines casing) {ls : List String}
    (hone : ∀ l ∈ ls, '\n' ∉ l.toList) (hsect : '\n' ∉ st.1.toList) (h : MemoryTidy st.2) :
    MemoryTidy (ls.foldl (readMemoryLine casing) st).2 := by
  induction ls generalizing st with
  | nil => exact h
  | cons l ls ih =>
      obtain ⟨hl, hrest⟩ := List.forall_mem_cons.1 hone
      obtain ⟨hsect', h'⟩ := readMemoryLine_tidy hk hl hsect h
      exact ih hrest hsect' h'

/-- **What is read is tidy.** -/
theorem parseMemory_tidy (hk : KeepsLines casing) (content : String) :
    MemoryTidy (parseMemory casing content) := by
  refine foldl_readMemoryLine_tidy hk (fun l hl => (of_mem_trimmedLines hl).2) ?_ ?_
  · exact List.not_mem_nil
  · intro e he
    cases he

theorem ofCategory_append (entries entries' : List MemoryEntry) (category : String) :
    ofCategory (entries ++ entries') category =
      ofCategory entries category ++ ofCategory entries' category := by
  simp [ofCategory]

theorem mem_ofCategory : item ∈ ofCategory entries category ↔ ⟨category, item⟩ ∈ entries := by
  simp only [ofCategory, List.mem_map, List.mem_filter, decide_eq_true_eq]
  constructor
  · rintro ⟨⟨category, content⟩, ⟨he, rfl⟩, rfl⟩
    exact he
  · intro h
    exact ⟨⟨category, item⟩, ⟨h, rfl⟩, rfl⟩

theorem reads_memory : Reads casing (readMemoryLine casing) some ofCategory
    (fun item => Text.startsWith item "(Add" = false) where
  skip st := rfl
  heading st h := by
    by_cases hblank : Text.trim h = ""
    · rw [trim_heading_blank hblank, enter, if_pos hblank]
      rfl
    · obtain ⟨stripped, hstrip, heq⟩ := trim_heading hblank
      rw [readMemoryLine, hstrip, enter, if_neg hblank]
      simp only [sectionName, heq]
  bullet st item htidy hadd := by
    have hnone : Text.stripPrefix "## " (Text.trim ("- " ++ item)) = none := by
      rw [trim_bullet htidy]
      exact Text.stripPrefix_of_not (by simp)
    have hne : item ≠ "(Add" := by
      rintro rfl
      revert hadd
      decide
    have hread : readMemoryLine casing st (Text.trim ("- " ++ item)) =
        (st.1, st.2 ++ [⟨st.1, item⟩]) := by
      rw [readMemoryLine, hnone, itemOf_bullet htidy]
      exact if_pos ⟨htidy.nonempty, hne, hadd⟩
    rw [hread]
    refine ⟨rfl, fun name => ?_⟩
    rw [ofCategory_append]
    by_cases hname : st.1 = name
    · simp [ofCategory, hname]
    · simp [ofCategory, hname]

/-- The categories that a memory has of those that come first. -/
def standardOf (entries : List MemoryEntry) : List String :=
  standardOrder.filter fun c => ofCategory entries c ≠ []

theorem unlines_sections {κ : Type} (heading : κ → String) (itemsOf : κ → List String)
    (groups : List κ) : unlines (groups.flatMap fun g => sectionLines (heading g) (itemsOf g)) =
      String.join (groups.map fun g => sectionText (heading g) (itemsOf g)) := by
  induction groups with
  | nil => rfl
  | cons g groups ih =>
      rw [List.flatMap_cons, unlines_append, ih, ← sectionText_eq, List.map_cons, String.join_cons]

theorem formatMemory_eq {remaining : List String} (hremaining : IteratesRemaining entries remaining) :
    formatMemory casing entries remaining = unlines (["# Memory", ""] ++
      (standardOf entries ++ remaining).flatMap fun c =>
        sectionLines (memoryHeading casing c) (ofCategory entries c)) := by
  have hstandard : (standardOf entries).map (fun c =>
        sectionText (memoryHeading casing c) (ofCategory entries c)) =
      (standardOf entries).map fun c => sectionText (titleCase casing c) (ofCategory entries c) :=
    List.map_congr_left fun c hc => by rw [memoryHeading, if_pos (List.mem_filter.1 hc).1]
  have hrest : remaining.map (fun c =>
        sectionText (memoryHeading casing c) (ofCategory entries c)) =
      remaining.map fun c => sectionText (Text.replace c "_" " ") (ofCategory entries c) :=
    List.map_congr_left fun c hc => by rw [memoryHeading, if_neg ((hremaining.2 c).1 hc).1]
  have htitle : unlines ["# Memory", ""] = "# Memory\n\n" := by decide
  rw [List.flatMap_append, unlines_append, unlines_append, unlines_sections, unlines_sections,
    hstandard, hrest, htitle, ← String.append_assoc]
  rfl

/-- **What is written is read again**, category by category. -/
theorem ofCategory_parse_format (hk : KeepsLines casing) (htidy : MemoryTidy entries)
    {remaining : List String} (hremaining : IteratesRemaining entries remaining)
    (hnd : (standardOf entries ++ remaining).Nodup) (name : String) :
    ofCategory (parseMemory casing (formatMemory casing entries remaining)) name =
      readBack (fun c => Text.trim (memoryHeading casing c) = "")
        (fun c => sectionName casing (memoryHeading casing c)) some (ofCategory entries) ""
        (standardOf entries ++ remaining) name := by
  have hitems : ∀ c, ∀ item ∈ ofCategory entries c, Tidy item ∧
      Text.startsWith item "(Add" = false := fun c item hitem =>
    ⟨(htidy _ (mem_ofCategory.1 hitem)).1, (htidy _ (mem_ofCategory.1 hitem)).2.1⟩
  have hpresent : ∀ c ∈ standardOf entries ++ remaining, ofCategory entries c ≠ [] := by
    intro c hc
    rcases List.mem_append.1 hc with hc | hc
    · simpa using (List.mem_filter.1 hc).2
    · exact ((hremaining.2 c).1 hc).2
  have hheading : ∀ c ∈ standardOf entries ++ remaining,
      '\n' ∉ (memoryHeading casing c).toList := by
    intro c hc
    obtain ⟨item, hitem⟩ := List.exists_mem_of_ne_nil _ (hpresent c hc)
    have hone := (htidy _ (mem_ofCategory.1 hitem)).2.2
    unfold memoryHeading
    split
    · exact newline_not_mem_titleCase hk c
    · exact newline_not_mem_replace hone rfl rfl (by decide)
  have hlines : ∀ l ∈ ["# Memory", ""] ++ (standardOf entries ++ remaining).flatMap fun c =>
      sectionLines (memoryHeading casing c) (ofCategory entries c), '\n' ∉ l.toList := by
    intro l hl
    rcases List.mem_append.1 hl with hl | hl
    · have hnone : ["# Memory", ""].all (fun l => !l.toList.contains '\n') = true := by decide
      simpa using List.all_eq_true.1 hnone l hl
    · obtain ⟨c, hc, hl⟩ := List.mem_flatMap.1 hl
      exact newline_not_mem_sectionLines (hheading c hc) (fun item hitem => (hitems c item hitem).1) hl
  have htitle : (["# Memory", ""].map Text.trim).foldl (readMemoryLine casing) ("", []) = ("", []) :=
    rfl
  rw [parseMemory, formatMemory_eq hremaining, trimmedLines_unlines hlines, List.map_append,
    List.foldl_append, htitle, reads_memory.sections hnd
      (fun c _ item hitem => (hitems c item hitem).1) fun c _ item hitem => (hitems c item hitem).2]
  rfl

theorem standard_named {c : String} (h : c ∈ standardOrder) :
    Text.trim (memoryHeading casing c) ≠ "" := by
  have hletters : standardOrder.all (fun c =>
      (Text.splitWhitespace (Text.replace c "_" " ")).any fun w =>
        w.toList.tail.any fun d => !Text.isWhitespace d) = true := by decide
  obtain ⟨w, hw, hletter⟩ := List.any_eq_true.1 (List.all_eq_true.1 hletters c h)
  obtain ⟨d, hd, hword⟩ := List.any_eq_true.1 hletter
  rw [memoryHeading, if_pos h]
  intro hblank
  have hmem : d ∈ (titleCase casing c).toList :=
    mem_join_of_mem (List.mem_map_of_mem hw) (mem_capitalize hd)
  rw [trim_eq_empty_iff.1 hblank d hmem] at hword
  cases hword

theorem iteratesRemaining_iff {remaining : List String} : IteratesRemaining entries remaining ↔
    Free (ofCategory entries) (standardOf entries) remaining := by
  refine and_congr_right fun _ => forall_congr' fun c => iff_congr Iff.rfl ?_
  simp only [standardOf, List.mem_filter, decide_eq_true_eq]
  tauto

theorem memoryKeeps_iff : MemoryKeeps casing entries ↔
    (∃ c, some "" = some c ∧ Text.trim (memoryHeading casing c) = "" ∧
      ∀ c', ofCategory entries c' ≠ [] → c' = c) ∨
    (∀ c, ofCategory entries c ≠ [] → Text.trim (memoryHeading casing c) ≠ "" ∧
      ∃ c', some (memoryAgain casing c) = some c' ∧ ofCategory entries c' = ofCategory entries c) ∧
    Set.InjOn (fun c => some (memoryAgain casing c)) {c | ofCategory entries c ≠ []} := by
  have hexists : ∀ P : String → Prop, (∀ c, ofCategory entries c ≠ [] → P c) ↔
      ∀ e ∈ entries, P e.category := by
    intro P
    constructor
    · intro h e he
      exact h _ (List.ne_nil_of_mem (mem_ofCategory.2 he))
    · intro h c hc
      obtain ⟨item, hitem⟩ := List.exists_mem_of_ne_nil _ hc
      exact h _ (mem_ofCategory.1 hitem)
  have hblank : Text.trim (memoryHeading casing "") = "" := rfl
  unfold MemoryKeeps
  refine or_congr ?_ (and_congr ?_ ?_)
  · rw [← hexists (fun c => c = "")]
    simp [hblank]
  · rw [← hexists (fun c => Text.trim (memoryHeading casing c) ≠ "" ∧
      ofCategory entries (memoryAgain casing c) = ofCategory entries c)]
    simp
  · rw [← hexists (fun c => ∀ e' ∈ entries,
      memoryAgain casing c = memoryAgain casing e'.category → c = e'.category)]
    refine forall₂_congr fun c _ => ?_
    rw [← hexists (fun c' => memoryAgain casing c = memoryAgain casing c' → c = c')]
    simp

/-- **When the memory comes back.** -/
theorem memoryRoundTrips_iff_keeps (hk : KeepsLines casing) (content : String) :
    MemoryRoundTrips casing content ↔ MemoryKeeps casing (parseMemory casing content) := by
  have hnd : (standardOf (parseMemory casing content)).Nodup :=
    List.Nodup.filter _ (by decide)
  have hpresent : ∀ c ∈ standardOf (parseMemory casing content),
      ofCategory (parseMemory casing content) c ≠ [] := by
    intro c hc
    simpa using (List.mem_filter.1 hc).2
  have hnamed : ∀ c ∈ standardOf (parseMemory casing content),
      ¬ Text.trim (memoryHeading casing c) = "" :=
    fun c hc => standard_named (List.mem_filter.1 hc).1
  have hfinite : {c | ofCategory (parseMemory casing content) c ≠ []}.Finite := by
    refine (List.finite_toSet ((parseMemory casing content).map MemoryEntry.category)).subset ?_
    intro c hc
    obtain ⟨item, hitem⟩ := List.exists_mem_of_ne_nil _ hc
    exact List.mem_map.2 ⟨_, mem_ofCategory.1 hitem, rfl⟩
  rw [memoryKeeps_iff, ← readBack_iff hnd hpresent hnamed hfinite]
  refine forall_congr' fun remaining => ?_
  rw [iteratesRemaining_iff]
  refine forall_congr' fun hfree => forall_congr' fun name => ?_
  rw [ofCategory_parse_format hk (parseMemory_tidy hk content) (iteratesRemaining_iff.2 hfree)
    (nodup_append_free hnd hfree)]
  rfl

end Memory

end Workspace

/-! ## The identity is read again -/

namespace Identity

open Workspace

/-- What the items of an identity belong to. -/
inductive Slot where
  | traits
  | communicationStyle
  | values
  | custom (name : String)
  deriving DecidableEq

/-- What the items of a section belong to. -/
def slotOf (sect : String) : Option Slot :=
  if sect = "traits" ∨ sect = "personality" ∨ sect = "characteristics" then some .traits
  else if sect = "communication_style" ∨ sect = "style" ∨ sect = "communication" then
    some .communicationStyle
  else if sect = "values" ∨ sect = "core_values" ∨ sect = "principles" then some .values
  else if sect ≠ "" then some (.custom sect)
  else none

/-- The items that belong there. -/
def itemsAt (identity : Identity) : Slot → List String
  | .traits => identity.traits
  | .communicationStyle => identity.communicationStyle
  | .values => identity.values
  | .custom name => (identity.customSections.lookup name).getD []

/-- What is known of an identity that has been read. -/
structure WellFormed (identity : Identity) : Prop where
  name : Workspace.Tidy identity.name
  nature : Workspace.Tidy identity.nature
  vibe : Workspace.Tidy identity.vibe
  items : ∀ slot, ∀ item ∈ identity.itemsAt slot, Workspace.Tidy item
  custom : ∀ name ∈ identity.customSections, slotOf name = some (.custom name)
  nonempty : ∀ name, identity.customSections.lookup name ≠ some []

variable {identity : Identity} {sect item line key value : String} {slot : Slot}
  {casing : Text.Casing}

theorem slotOf_custom {name : String} (h : slotOf sect = some (.custom name)) : name = sect := by
  unfold slotOf at h
  grind

theorem itemsAt_addItem (identity : Identity) (sect item : String) (slot : Slot) :
    (identity.addItem sect item).itemsAt slot =
      identity.itemsAt slot ++ if slotOf sect = some slot then [item] else [] := by
  unfold addItem slotOf
  split
  · cases slot <;> simp [itemsAt]
  · split
    · cases slot <;> simp [itemsAt]
    · split
      · cases slot <;> simp [itemsAt]
      · split
        · cases slot with
          | custom name =>
              by_cases hname : sect = name
              · subst hname
                simp [itemsAt]
              · have hne : name ≠ sect := Ne.symm hname
                simp [itemsAt, hname, Finmap.lookup_insert_of_ne _ hne]
          | _ => simp [itemsAt]
        · simp

theorem addItem_fields (identity : Identity) (sect item : String) :
    (identity.addItem sect item).name = identity.name ∧
      (identity.addItem sect item).nature = identity.nature ∧
      (identity.addItem sect item).vibe = identity.vibe := by
  unfold addItem
  grind

theorem mem_addItem_custom {name : String} (h : name ∈ (identity.addItem sect item).customSections) :
    name ∈ identity.customSections ∨ slotOf sect = some (.custom name) := by
  unfold addItem at h
  unfold slotOf
  grind [Finmap.mem_insert]

theorem WellFormed.addItem (h : identity.WellFormed) (hitem : Workspace.Tidy item) :
    (identity.addItem sect item).WellFormed where
  name := (addItem_fields identity sect item).1 ▸ h.name
  nature := (addItem_fields identity sect item).2.1 ▸ h.nature
  vibe := (addItem_fields identity sect item).2.2 ▸ h.vibe
  items slot item' hmem := by
    rw [itemsAt_addItem, List.mem_append] at hmem
    rcases hmem with hmem | hmem
    · exact h.items slot item' hmem
    · split at hmem
      · rw [List.mem_singleton.1 hmem]
        exact hitem
      · cases hmem
  custom name hname := by
    rcases mem_addItem_custom hname with hold | hnew
    · exact h.custom name hold
    · obtain rfl := slotOf_custom hnew
      exact hnew
  nonempty name := by
    unfold Identity.addItem
    split
    · exact h.nonempty name
    · split
      · exact h.nonempty name
      · split
        · exact h.nonempty name
        · split
          · rw [Finmap.lookup_insert_eq]
            split
            · simp
            · exact h.nonempty name
          · exact h.nonempty name

theorem WellFormed.setField (h : identity.WellFormed) (hvalue : '\n' ∉ value.toList)
    (htrim : Text.trim value = value) : (identity.setField key value).WellFormed := by
  unfold Identity.setField
  split
  · exact h
  · next hne =>
      have htidy : Workspace.Tidy value := ⟨htrim, hne, hvalue⟩
      split
      · exact ⟨htidy, h.nature, h.vibe, h.items, h.custom, h.nonempty⟩
      · split
        · exact ⟨h.name, htidy, h.vibe, h.items, h.custom, h.nonempty⟩
        · split
          · exact ⟨h.name, h.nature, htidy, h.items, h.custom, h.nonempty⟩
          · exact h

theorem WellFormed.readLine {st : String × Identity} (h : st.2.WellFormed)
    (hone : '\n' ∉ line.toList) : (readLine casing st line).2.WellFormed := by
  unfold Identity.readLine
  split
  · exact h
  · split
    · split
      · next key value hsplit =>
          have hvalue : '\n' ∉ value.toList := by
            unfold Text.splitOnce at hsplit
            split at hsplit
            · cases hsplit
            · next c rest hdrop =>
                obtain ⟨-, rfl⟩ := Prod.mk.inj (Option.some.inj hsplit)
                rw [String.toList_ofList]
                intro hmem
                have hsub := List.dropWhile_suffix (fun d => decide (d ≠ ':')) (l := line.toList)
                rw [hdrop] at hsub
                exact hone (hsub.subset (List.mem_cons_of_mem c hmem))
          exact h.setField (newline_not_mem_trim hvalue) (trim_trim value)
      · exact h
    · split
      · exact h
      · split
        · exact h
        · split
          · next item hitem =>
              split
              · exact h
              · next hne => exact h.addItem (Workspace.Tidy.of_itemOf hitem hne hone)
          · exact h

theorem start_wellFormed : start.WellFormed where
  name := ⟨by decide, by decide, by decide⟩
  nature := ⟨by decide, by decide, by decide⟩
  vibe := ⟨by decide, by decide, by decide⟩
  items slot item hmem := by
    have hnil : start.itemsAt slot = [] := by cases slot <;> rfl
    rw [hnil] at hmem
    cases hmem
  custom name h := absurd h (Finmap.notMem_empty)
  nonempty name := by
    show (∅ : FiniteMap String (List String)).lookup name ≠ some []
    simp

theorem foldl_wellFormed {ls : List String} {st : String × Identity} (h : st.2.WellFormed)
    (hone : ∀ l ∈ ls, '\n' ∉ l.toList) : (ls.foldl (readLine casing) st).2.WellFormed := by
  induction ls generalizing st with
  | nil => exact h
  | cons l ls ih =>
      obtain ⟨hl, hrest⟩ := List.forall_mem_cons.1 hone
      exact ih (h.readLine hl) hrest

/-- **What is read is well formed.** -/
theorem parse_wellFormed (casing : Text.Casing) (content : String) :
    (parse casing content).WellFormed :=
  foldl_wellFormed start_wellFormed fun _ hl => (of_mem_trimmedLines hl).2

/-! ### Lines that are written -/

theorem toList_trim_bullet (h : Workspace.Tidy item) :
    (Text.trim ("- " ++ item)).toList = '-' :: ' ' :: item.toList := by
  rw [trim_bullet h, String.toList_ofList]

theorem readLine_bullet {st : String × Identity} (h : Workspace.Tidy item) :
    readLine casing st (Text.trim ("- " ++ item)) = (st.1, st.2.addItem st.1 item) := by
  have hlist := toList_trim_bullet h
  have hne : Text.trim ("- " ++ item) ≠ "" := by
    intro hempty
    rw [hempty] at hlist
    cases hlist
  have hdash : Text.startsWith (Text.trim ("- " ++ item)) "-" = true := by
    rw [Text.startsWith, hlist]
    rfl
  have hnone : Text.stripPrefix "## " (Text.trim ("- " ++ item)) = none := by
    rw [trim_bullet h]
    exact Text.stripPrefix_of_not (by simp)
  have htitle : Text.startsWith (Text.trim ("- " ++ item)) "# " = false := by
    rw [Text.startsWith, hlist]
    rfl
  rw [readLine, if_neg hne, hdash, Bool.not_true, Bool.and_false, if_neg Bool.false_ne_true, hnone,
    htitle, itemOf_bullet h]
  exact if_neg h.nonempty

theorem readLine_heading (st : String × Identity) (h : String) :
    readLine casing st (Text.trim ("## " ++ h)) = (enter casing st.1 h, st.2) := by
  by_cases hblank : Text.trim h = ""
  · rw [trim_heading_blank hblank, enter, if_pos hblank]
    rfl
  · obtain ⟨stripped, hstrip, heq⟩ := trim_heading hblank
    have hlist := toList_trim_heading h
    have hne : Text.trim ("## " ++ h) ≠ "" := by
      intro hempty
      rw [hempty] at hlist
      cases hlist
    have hhash : Text.startsWith (Text.trim ("## " ++ h)) "#" = true := by
      rw [Text.startsWith, hlist]
      rfl
    rw [readLine, if_neg hne, hhash, Bool.not_true, Bool.and_false, Bool.false_and,
      if_neg Bool.false_ne_true, hstrip, enter, if_neg hblank]
    simp only [sectionName, heq]

theorem reads_identity : Reads casing (readLine casing) slotOf itemsAt fun _ => True where
  skip st := rfl
  heading := readLine_heading
  bullet st item htidy _ := by
    rw [readLine_bullet htidy]
    exact ⟨rfl, itemsAt_addItem st.2 st.1 item⟩

/-- A key of a line, as it is written. -/
structure IsKey (key : String) : Prop where
  start : ∃ c cs, key.toList = c :: cs ∧ Text.isWhitespace c = false ∧ c ≠ '#' ∧ c ≠ '-'
  whole : ':' ∉ key.toList
  trimmed : Text.trim key = key
  ascii : Text.IsAscii key.toList
  lower : key.toList.map Char.toLower = key.toList

theorem isKey (h : key = "name" ∨ key = "nature" ∨ key = "vibe") : IsKey key := by
  rcases h with rfl | rfl | rfl
  · exact ⟨⟨'n', _, rfl, by decide⟩, by decide, by decide, by decide, by decide⟩
  · exact ⟨⟨'n', _, rfl, by decide⟩, by decide, by decide, by decide, by decide⟩
  · exact ⟨⟨'v', _, rfl, by decide⟩, by decide, by decide, by decide, by decide⟩

theorem readLine_field (hcasing : casing.Lawful) (st : String × Identity) (hvalue : Workspace.Tidy value)
    (hkey : IsKey key) :
    readLine casing st (Text.trim (key ++ ": " ++ value)) = (st.1, st.2.setField key value) := by
  obtain ⟨c, cs, hcons, hc, hhash, hdash⟩ := hkey.start
  have hline : key ++ ": " ++ value = String.ofList (c :: (cs ++ [':', ' ']) ++ value.toList) := by
    rw [← String.toList_inj]
    simp [hcons]
  have hsplit : key ++ ": " ++ value = key ++ String.singleton ':' ++ (" " ++ value) := by
    rw [← String.toList_inj]
    simp
  have htrim : Text.trim (key ++ ": " ++ value) = key ++ ": " ++ value := by
    rw [hline]
    exact hvalue.trim_append hc
  have hlist : (key ++ ": " ++ value).toList = c :: (cs ++ [':', ' '] ++ value.toList) := by
    simp [hcons]
  have hcontains : Text.contains (key ++ ": " ++ value) ":" = true := by
    rw [Text.contains_iff, hlist]
    exact ⟨c :: cs, ' ' :: value.toList, by simp⟩
  have hstart : ∀ d : Char, c ≠ d →
      Text.startsWith (key ++ ": " ++ value) (String.singleton d) = false := by
    intro d hd
    rw [Text.startsWith, hlist]
    simp [List.isPrefixOf, Ne.symm hd]
  have hlower : casing.toLowercase (Text.trim key) = key := by
    rw [hkey.trimmed]
    exact hcasing.toLowercase_eq hkey.ascii hkey.lower
  have hrest : Text.trim (" " ++ value) = value := by
    have hblank : (" " ++ value).toList = ' ' :: value.toList := by simp
    rw [Text.trim, hblank, Text.trimChars_cons (by decide)]
    exact hvalue.trimmed
  have hne : key ++ ": " ++ value ≠ "" := by
    intro hempty
    rw [hempty] at hlist
    cases hlist
  have hcond : (Text.contains (key ++ ": " ++ value) ":" &&
      !Text.startsWith (key ++ ": " ++ value) "#" &&
      !Text.startsWith (key ++ ": " ++ value) "-") = true := by
    rw [hcontains]
    have h₁ : Text.startsWith (key ++ ": " ++ value) "#" = false := hstart '#' hhash
    have h₂ : Text.startsWith (key ++ ": " ++ value) "-" = false := hstart '-' hdash
    rw [h₁, h₂]
    rfl
  rw [htrim, readLine, if_neg hne, if_pos hcond, hsplit, Text.splitOnce_append hkey.whole]
  simp only [hlower, hrest]

/-- The lines before the sections. -/
def headLines (identity : Identity) : List String :=
  ["# Identity", "", "name" ++ ": " ++ identity.name, "nature" ++ ": " ++ identity.nature,
    "vibe" ++ ": " ++ identity.vibe, ""]

theorem foldl_headLines (hcasing : casing.Lawful) (h : identity.WellFormed) :
    (identity.headLines.map Text.trim).foldl (readLine casing) ("", start) =
      ("", ⟨identity.name, identity.nature, identity.vibe, [], [], [], ∅⟩) := by
  have htitle : readLine casing ("", start) (Text.trim "# Identity") = ("", start) := rfl
  have hblank : ∀ st, readLine casing st (Text.trim "") = st := fun st => rfl
  simp only [headLines, List.map_cons, List.map_nil, List.foldl_cons, List.foldl_nil, htitle, hblank,
    readLine_field hcasing _ h.name (isKey (.inl rfl)),
    readLine_field hcasing _ h.nature (isKey (.inr (.inl rfl))),
    readLine_field hcasing _ h.vibe (isKey (.inr (.inr rfl)))]
  simp [setField, h.name.nonempty, h.nature.nonempty, h.vibe.nonempty, start]

/-- The heading of a section. -/
def heading (casing : Text.Casing) : Slot → String
  | .traits => "Traits"
  | .communicationStyle => "Communication Style"
  | .values => "Values"
  | .custom name => titleCase casing name

/-- The sections that come first. -/
def standardOf (identity : Identity) : List Slot :=
  [.traits, .communicationStyle, .values].filter fun slot => identity.itemsAt slot ≠ []

/-- The sections that the map goes through. -/
def customOf (sections : List (String × List String)) : List Slot :=
  sections.map fun s => .custom s.1

variable {sections : List (String × List String)}

theorem Iterates.lookup (h : identity.Iterates sections) {s : String × List String} :
    s ∈ sections ↔ identity.customSections.lookup s.1 = some s.2 := by
  have hmem : s ∈ sections ↔ s ∈ (sections : Multiset (String × List String)) := Iff.rfl
  rw [hmem, h, Multiset.mem_map, Finmap.lookup_eq_some_iff]
  constructor
  · rintro ⟨e, he, rfl⟩
    exact he
  · intro he
    exact ⟨_, he, rfl⟩

theorem unlines_headLines (identity : Identity) : unlines identity.headLines =
    "# Identity\n\n" ++ s!"name: {identity.name}\n" ++ s!"nature: {identity.nature}\n" ++
      s!"vibe: {identity.vibe}\n\n" := by
  have hname : s!"name: {identity.name}\n" = "name: " ++ identity.name ++ "\n" := rfl
  have hnature : s!"nature: {identity.nature}\n" = "nature: " ++ identity.nature ++ "\n" := rfl
  have hvibe : s!"vibe: {identity.vibe}\n\n" = "vibe: " ++ identity.vibe ++ "\n\n" := rfl
  rw [hname, hnature, hvibe, ← String.toList_inj]
  simp [headLines, toList_unlines]

theorem join_standardOf (identity : Identity) (text : Slot → String) :
    String.join (identity.standardOf.map text) =
      (if identity.traits.isEmpty then "" else text .traits) ++
      (if identity.communicationStyle.isEmpty then "" else text .communicationStyle) ++
      (if identity.values.isEmpty then "" else text .values) := by
  have hcons : ∀ (slot : Slot) (slots : List Slot),
      String.join (((slot :: slots).filter fun slot => identity.itemsAt slot ≠ []).map text) =
        (if (identity.itemsAt slot).isEmpty then "" else text slot) ++
          String.join ((slots.filter fun slot => identity.itemsAt slot ≠ []).map text) := by
    intro slot slots
    by_cases hempty : identity.itemsAt slot = []
    · simp [hempty]
    · simp [hempty]
  rw [standardOf, hcons, hcons, hcons, List.filter_nil, List.map_nil, ← String.append_assoc,
    ← String.append_assoc]
  exact String.append_empty

theorem toMarkdown_eq (h : identity.Iterates sections) :
    identity.toMarkdown casing sections = unlines (identity.headLines ++
      (identity.standardOf ++ customOf sections).flatMap fun slot =>
        sectionLines (heading casing slot) (identity.itemsAt slot)) := by
  have hcustom : (customOf sections).map (fun slot =>
        sectionText (heading casing slot) (identity.itemsAt slot)) =
      sections.map fun s => sectionText (titleCase casing s.1) s.2 := by
    rw [customOf, List.map_map]
    refine List.map_congr_left fun s hs => ?_
    have hitems : identity.itemsAt (.custom s.1) = s.2 := by
      show (identity.customSections.lookup s.1).getD [] = s.2
      rw [h.lookup.1 hs, Option.getD_some]
    show sectionText (titleCase casing s.1) (identity.itemsAt (.custom s.1)) = _
    rw [hitems]
  have hlines : unlines (identity.headLines ++ (identity.standardOf ++ customOf sections).flatMap
      fun slot => sectionLines (heading casing slot) (identity.itemsAt slot)) =
        unlines identity.headLines ++ (String.join (identity.standardOf.map fun slot =>
          sectionText (heading casing slot) (identity.itemsAt slot)) ++
        String.join ((customOf sections).map fun slot =>
          sectionText (heading casing slot) (identity.itemsAt slot))) := by
    rw [List.flatMap_append, unlines_append, unlines_append, unlines_sections, unlines_sections]
  rw [hlines, hcustom, unlines_headLines, join_standardOf]
  have hassoc : ∀ a b c d t u v w : String,
      a ++ b ++ c ++ d ++ t ++ u ++ v ++ w = a ++ b ++ c ++ d ++ (t ++ u ++ v ++ w) := by
    intro a b c d t u v w
    simp only [String.append_assoc]
  exact hassoc _ _ _ _ _ _ _ _

/-! ### The whole identity -/

/-- What an identity says of itself in one line each. -/
def fields (identity : Identity) : String × String × String :=
  (identity.name, identity.nature, identity.vibe)

theorem ext_items {other : Identity} (h : identity.WellFormed) (h' : other.WellFormed)
    (hfields : identity.fields = other.fields)
    (hitems : ∀ slot, identity.itemsAt slot = other.itemsAt slot) : identity = other := by
  have hlookup : ∀ name, identity.customSections.lookup name = other.customSections.lookup name := by
    intro name
    have hsame := hitems (.custom name)
    have hne := h.nonempty name
    have hne' := h'.nonempty name
    simp only [itemsAt] at hsame
    cases hl : identity.customSections.lookup name with
    | none =>
        cases hl' : other.customSections.lookup name with
        | none => rfl
        | some items =>
            rw [hl, hl', Option.getD_none, Option.getD_some] at hsame
            exact absurd (hl'.trans (congrArg some hsame.symm)) hne'
    | some items =>
        cases hl' : other.customSections.lookup name with
        | none =>
            rw [hl, hl', Option.getD_none, Option.getD_some] at hsame
            exact absurd (hl.trans (congrArg some hsame)) hne
        | some items' =>
            rw [hl, hl', Option.getD_some, Option.getD_some] at hsame
            rw [hsame]
  have htraits := hitems .traits
  have hstyle := hitems .communicationStyle
  have hvalues := hitems .values
  have hcustom := Finmap.ext_lookup hlookup
  simp only [fields, Prod.mk.injEq] at hfields
  obtain ⟨hname, hnature, hvibe⟩ := hfields
  cases identity
  cases other
  simp only [itemsAt] at *
  simp_all

theorem mem_customOf {name : String} (h : identity.Iterates sections) :
    .custom name ∈ customOf sections ↔ name ∈ identity.customSections := by
  simp only [customOf, List.mem_map, Slot.custom.injEq, Finmap.mem_iff]
  constructor
  · rintro ⟨s, hs, rfl⟩
    exact ⟨s.2, h.lookup.1 hs⟩
  · rintro ⟨items, hitems⟩
    exact ⟨(name, items), h.lookup.2 hitems, rfl⟩

theorem itemsAt_custom_ne (h : identity.WellFormed) {name : String} :
    identity.itemsAt (.custom name) ≠ [] ↔ name ∈ identity.customSections := by
  have hne := h.nonempty name
  rw [Finmap.mem_iff]
  show (identity.customSections.lookup name).getD [] ≠ [] ↔ _
  cases hlookup : identity.customSections.lookup name with
  | none => simp
  | some items => simpa [hlookup] using hne

theorem mem_standardOf : slot ∈ identity.standardOf ↔
    (∀ name, slot ≠ .custom name) ∧ identity.itemsAt slot ≠ [] := by
  simp only [standardOf, List.mem_filter, decide_eq_true_eq]
  refine and_congr_left fun _ => ?_
  cases slot with
  | custom name => simp
  | _ => simp

theorem free_of_iterates (hwf : identity.WellFormed) (h : identity.Iterates sections) :
    Free identity.itemsAt identity.standardOf (customOf sections) := by
  constructor
  · have hkeys : ((customOf sections : List Slot) : Multiset Slot) =
        identity.customSections.entries.keys.map Slot.custom := by
      have hcoe : ((customOf sections : List Slot) : Multiset Slot) =
          (sections : Multiset (String × List String)).map fun s => Slot.custom s.1 := rfl
      rw [hcoe, h, Multiset.map_map, Multiset.keys, Multiset.map_map]
      rfl
    rw [← Multiset.coe_nodup, hkeys]
    refine Multiset.Nodup.map (fun a b hab => ?_)
      (Multiset.nodup_keys.2 identity.customSections.nodupKeys)
    exact Slot.custom.inj hab
  · intro slot
    rw [mem_standardOf]
    cases slot with
    | custom name =>
        rw [mem_customOf h, itemsAt_custom_ne hwf]
        simp
    | _ => simp [customOf]

theorem iterates_toList (identity : Identity) : identity.Iterates
    (Multiset.toList (identity.customSections.entries.map fun e => (e.1, e.2))) :=
  Multiset.coe_toList _

theorem exists_iterates (hwf : identity.WellFormed) {free : List Slot}
    (h : Free identity.itemsAt identity.standardOf free) :
    ∃ sections, identity.Iterates sections ∧ customOf sections = free := by
  obtain ⟨sections₀, h₀⟩ : ∃ sections, identity.Iterates sections := ⟨_, iterates_toList identity⟩
  -- the section of a slot
  let sectionOf : Slot → String × List String := fun slot =>
    match slot with
    | .custom name => (name, identity.itemsAt (.custom name))
    | _ => ("", [])
  have hback : (customOf sections₀).map sectionOf = sections₀ := by
    rw [customOf, List.map_map]
    refine (List.map_congr_left fun s hs => ?_).trans (List.map_id sections₀)
    show (s.1, (identity.customSections.lookup s.1).getD []) = s
    rw [h₀.lookup.1 hs, Option.getD_some]
  have hperm : free.Perm (customOf sections₀) := by
    refine (List.perm_ext_iff_of_nodup h.1 (free_of_iterates hwf h₀).1).2 fun slot => ?_
    rw [h.2, (free_of_iterates hwf h₀).2]
  refine ⟨free.map sectionOf, ?_, ?_⟩
  · have hsame := hperm.map sectionOf
    rw [hback] at hsame
    exact (Multiset.coe_eq_coe.2 hsame).trans h₀
  · rw [customOf, List.map_map]
    refine (List.map_congr_left fun slot hslot => ?_).trans (List.map_id free)
    obtain ⟨hitems, hnot⟩ := (h.2 slot).1 hslot
    rw [mem_standardOf] at hnot
    cases slot with
    | custom name => rfl
    | _ => simp [hitems] at hnot

/-- **What is written is read again**, slot by slot. -/
theorem itemsAt_parse_toMarkdown (hcasing : casing.Lawful) (hk : KeepsLines casing)
    (hwf : identity.WellFormed) (h : identity.Iterates sections) :
    (parse casing (identity.toMarkdown casing sections)).fields = identity.fields ∧
      ∀ slot, (parse casing (identity.toMarkdown casing sections)).itemsAt slot =
        readBack (fun slot => Text.trim (heading casing slot) = "")
          (fun slot => sectionName casing (heading casing slot)) slotOf identity.itemsAt ""
          (identity.standardOf ++ customOf sections) slot := by
  have hfree := free_of_iterates hwf h
  have hpresent : ∀ g ∈ identity.standardOf, identity.itemsAt g ≠ [] :=
    fun g hg => (mem_standardOf.1 hg).2
  have hnd : (identity.standardOf ++ customOf sections).Nodup :=
    nodup_append_free (List.Nodup.filter _ (by decide)) hfree
  have htidy : ∀ g ∈ identity.standardOf ++ customOf sections,
      ∀ item ∈ identity.itemsAt g, Workspace.Tidy item := fun g _ => hwf.items g
  have hheading : ∀ slot, '\n' ∉ (heading casing slot).toList := by
    intro slot
    cases slot with
    | custom name => exact newline_not_mem_titleCase hk name
    | _ => simp [heading]
  have hlines : ∀ l ∈ identity.headLines ++ (identity.standardOf ++ customOf sections).flatMap
      fun slot => sectionLines (heading casing slot) (identity.itemsAt slot), '\n' ∉ l.toList := by
    intro l hl
    rcases List.mem_append.1 hl with hl | hl
    · have hname := hwf.name.oneLine
      have hnature := hwf.nature.oneLine
      have hvibe := hwf.vibe.oneLine
      simp only [headLines, List.mem_cons, List.not_mem_nil, or_false] at hl
      rcases hl with rfl | rfl | rfl | rfl | rfl | rfl
      · simp
      · simp
      · simpa using hname
      · simpa using hnature
      · simpa using hvibe
      · simp
    · obtain ⟨slot, -, hl⟩ := List.mem_flatMap.1 hl
      exact newline_not_mem_sectionLines (hheading slot) (hwf.items slot) hl
  have hparse : parse casing (identity.toMarkdown casing sections) =
      ((((identity.standardOf ++ customOf sections).flatMap fun slot =>
        sectionLines (heading casing slot) (identity.itemsAt slot)).map Text.trim).foldl
          (readLine casing)
          ("", ⟨identity.name, identity.nature, identity.vibe, [], [], [], ∅⟩)).2 := by
    rw [parse, toMarkdown_eq h, trimmedLines_unlines hlines, List.map_append, List.foldl_append,
      foldl_headLines hcasing hwf]
  rw [hparse]
  constructor
  · refine reads_identity.keeps (P := fun other : Identity => other.fields = identity.fields)
      (fun st item hitem _ hst => ?_) htidy (fun _ _ _ _ => trivial) rfl
    rw [readLine_bullet hitem, ← hst]
    obtain ⟨hname, hnature, hvibe⟩ := addItem_fields st.2 st.1 item
    simp only [fields, hname, hnature, hvibe]
  · intro slot
    rw [reads_identity.sections hnd htidy fun _ _ _ _ => trivial]
    have hnone : (⟨identity.name, identity.nature, identity.vibe, [], [], [], ∅⟩ : Identity).itemsAt
        slot = [] := by cases slot <;> rfl
    rw [hnone]
    rfl

theorem fixed_again (hcasing : casing.Lawful) :
    slotOf (sectionName casing "Traits") = some .traits ∧
      slotOf (sectionName casing "Communication Style") = some .communicationStyle ∧
      slotOf (sectionName casing "Values") = some .values := by
  have hlower : ∀ {h l : String}, Text.IsAscii h.toList → Text.trim h = h →
      h.toList.map Char.toLower = l.toList → sectionName casing h = Text.replace l " " "_" := by
    intro h l hascii htrim hmap
    have hwhole := hcasing.whole h.toList hascii
    rw [String.ofList_toList, hmap, String.toList_inj] at hwhole
    rw [sectionName, htrim, hwhole]
  have htraits : sectionName casing "Traits" = Text.replace "traits" " " "_" :=
    hlower (by decide) (by decide) (by decide)
  have hstyle : sectionName casing "Communication Style" =
      Text.replace "communication style" " " "_" := hlower (by decide) (by decide) (by decide)
  have hvalues : sectionName casing "Values" = Text.replace "values" " " "_" :=
    hlower (by decide) (by decide) (by decide)
  rw [htraits, hstyle, hvalues]
  decide

theorem fixed_named {slot : Slot} (h : ∀ name, slot ≠ .custom name) :
    Text.trim (heading casing slot) ≠ "" := by
  cases slot with
  | custom name => exact absurd rfl (h name)
  | traits => show Text.trim "Traits" ≠ ""; decide
  | communicationStyle => show Text.trim "Communication Style" ≠ ""; decide
  | values => show Text.trim "Values" ≠ ""; decide

theorem fixed_back (hcasing : casing.Lawful) {slot : Slot} (h : ∀ name, slot ≠ .custom name) :
    slotOf (sectionName casing (heading casing slot)) = some slot := by
  obtain ⟨htraits, hstyle, hvalues⟩ := fixed_again hcasing
  cases slot with
  | custom name => exact absurd rfl (h name)
  | traits => exact htraits
  | communicationStyle => exact hstyle
  | values => exact hvalues

theorem identityKeeps_iff (hcasing : casing.Lawful) (h : identity.WellFormed) : identity.Keeps casing ↔
    (∀ g, identity.itemsAt g ≠ [] → ¬ Text.trim (heading casing g) = "" ∧
      ∃ g', slotOf (sectionName casing (heading casing g)) = some g' ∧
        identity.itemsAt g' = identity.itemsAt g) ∧
    Set.InjOn (fun g => slotOf (sectionName casing (heading casing g)))
      {g | identity.itemsAt g ≠ []} := by
  have hback : identity.Keeps casing → ∀ name ∈ identity.customSections,
      slotOf (again casing name) = some (.custom (again casing name)) := by
    intro hkeeps name hname
    refine h.custom _ (Finmap.mem_iff.2 ?_)
    rw [(hkeeps.1 name hname).2]
    exact Finmap.mem_iff.1 hname
  constructor
  · intro hkeeps
    constructor
    · intro g hg
      cases g with
      | custom name =>
          have hname := (itemsAt_custom_ne h).1 hg
          refine ⟨(hkeeps.1 name hname).1, _, hback hkeeps name hname, ?_⟩
          show (identity.customSections.lookup _).getD [] = (identity.customSections.lookup _).getD []
          rw [(hkeeps.1 name hname).2]
      | _ => exact ⟨fixed_named (by simp), _, fixed_back hcasing (by simp), rfl⟩
    · intro g hg g' hg' hsame
      have hsent : ∀ slot, identity.itemsAt slot ≠ [] → (∃ name, slot = .custom name ∧
          slotOf (sectionName casing (heading casing slot)) = some (.custom (again casing name))) ∨
          ((∀ name, slot ≠ .custom name) ∧
            slotOf (sectionName casing (heading casing slot)) = some slot) := by
        intro slot hslot
        cases slot with
        | custom name => exact .inl ⟨name, rfl, hback hkeeps name ((itemsAt_custom_ne h).1 hslot)⟩
        | _ => exact .inr ⟨by simp, fixed_back hcasing (by simp)⟩
      rcases hsent g hg with ⟨name, rfl, hto⟩ | ⟨hfixed, hto⟩
      · rcases hsent g' hg' with ⟨name', rfl, hto'⟩ | ⟨hfixed', hto'⟩
        · have hagain := Slot.custom.inj (Option.some.inj ((hto.symm.trans hsame).trans hto'))
          rw [hkeeps.2 name ((itemsAt_custom_ne h).1 hg) name' ((itemsAt_custom_ne h).1 hg') hagain]
        · have heq := Option.some.inj ((hto.symm.trans hsame).trans hto')
          exact absurd heq.symm (hfixed' _)
      · rcases hsent g' hg' with ⟨name', rfl, hto'⟩ | ⟨-, hto'⟩
        · have heq := Option.some.inj ((hto.symm.trans hsame).trans hto')
          exact absurd heq (hfixed _)
        · exact Option.some.inj ((hto.symm.trans hsame).trans hto')
  · rintro ⟨hitems, hinj⟩
    have hpresent : ∀ name ∈ identity.customSections, identity.itemsAt (.custom name) ≠ [] :=
      fun name hname => (itemsAt_custom_ne h).2 hname
    constructor
    · intro name hname
      obtain ⟨hnamed, slot, hto, hsame⟩ := hitems _ (hpresent name hname)
      refine ⟨hnamed, ?_⟩
      have hslot : identity.itemsAt slot ≠ [] := hsame ▸ hpresent name hname
      -- a section that is no custom one comes back as itself
      have hcustom : ∃ name', slot = .custom name' := by
        by_contra hfixed
        push Not at hfixed
        have heq := hinj hslot (hpresent name hname) ((fixed_back hcasing hfixed).trans hto.symm)
        exact hfixed name heq
      obtain ⟨name', rfl⟩ := hcustom
      obtain rfl : name' = again casing name := slotOf_custom hto
      obtain ⟨items, hlookup⟩ := Finmap.mem_iff.1 hname
      obtain ⟨items', hlookup'⟩ := Finmap.mem_iff.1 ((itemsAt_custom_ne h).1 hslot)
      have hlists : (identity.customSections.lookup (again casing name)).getD [] =
          (identity.customSections.lookup name).getD [] := hsame
      rw [hlookup, hlookup', Option.getD_some, Option.getD_some] at hlists
      rw [hlookup, hlookup', hlists]
    · intro name hname name' hname' hagain
      exact Slot.custom.inj (hinj (hpresent name hname) (hpresent name' hname')
        (congrArg slotOf hagain))

/-- **When the identity comes back.** -/
theorem roundTrips_iff_keeps (hcasing : casing.Lawful) (hk : KeepsLines casing) (content : String) :
    RoundTrips casing content ↔ (parse casing content).Keeps casing := by
  have hwf := parse_wellFormed casing content
  have hnd : (parse casing content).standardOf.Nodup := List.Nodup.filter _ (by decide)
  have hpresent : ∀ g ∈ (parse casing content).standardOf, (parse casing content).itemsAt g ≠ [] :=
    fun g hg => (mem_standardOf.1 hg).2
  have hnamed : ∀ g ∈ (parse casing content).standardOf, ¬ Text.trim (heading casing g) = "" :=
    fun g hg => fixed_named (mem_standardOf.1 hg).1
  have hfinite : {g | (parse casing content).itemsAt g ≠ []}.Finite := by
    have hfree := free_of_iterates hwf (iterates_toList (parse casing content))
    exact (List.finite_toSet _).subset fun g hg => (mem_append_free hpresent hfree).2 hg
  have hiff : (∀ free, Free (parse casing content).itemsAt (parse casing content).standardOf free →
      ∀ slot, readBack (fun slot => Text.trim (heading casing slot) = "")
        (fun slot => sectionName casing (heading casing slot)) slotOf (parse casing content).itemsAt
        "" ((parse casing content).standardOf ++ free) slot = (parse casing content).itemsAt slot) ↔
      _ := readBack_iff hnd hpresent hnamed hfinite
  rw [identityKeeps_iff hcasing hwf]
  have hstart : ¬ ∃ g, slotOf "" = some g ∧ Text.trim (heading casing g) = "" ∧
      ∀ g', (parse casing content).itemsAt g' ≠ [] → g' = g := by
    rintro ⟨g, hg, -⟩
    cases hg
  rw [or_iff_right hstart] at hiff
  rw [← hiff]
  constructor
  · intro htrip free hfree
    obtain ⟨sections, hsections, rfl⟩ := exists_iterates hwf hfree
    obtain ⟨-, hitems⟩ := itemsAt_parse_toMarkdown hcasing hk hwf hsections
    intro slot
    rw [← hitems, htrip sections hsections]
  · intro hback sections hsections
    obtain ⟨hfields, hitems⟩ := itemsAt_parse_toMarkdown hcasing hk hwf hsections
    refine ext_items (parse_wellFormed casing _) hwf hfields fun slot => ?_
    rw [hitems, hback _ (free_of_iterates hwf hsections)]

end Identity

/-- **Both files come back**, whatever they say and in whatever order the maps are gone through,
exactly when the names of their sections do. -/
theorem Workspace.roundTrips_iff (casing : Text.Casing) (hcasing : casing.Lawful)
    (hk : Workspace.KeepsLines casing) (identity memory : String) :
    (Identity.RoundTrips casing identity ∧ Workspace.MemoryRoundTrips casing memory) ↔
      (Identity.parse casing identity).Keeps casing ∧
        Workspace.MemoryKeeps casing (Workspace.parseMemory casing memory) :=
  and_congr (Identity.roundTrips_iff_keeps hcasing hk identity)
    (Workspace.memoryRoundTrips_iff_keeps hk memory)

/-- A section with a name of one word comes back, as does an identity without custom ones. -/
theorem Workspace.facts_come_back : Identity.RoundTrips .ascii "name: Ada" ∧
    Workspace.MemoryRoundTrips .ascii "## Facts\n- a" := by
  refine (Workspace.roundTrips_iff .ascii Text.Casing.ascii_lawful Workspace.ascii_keepsLines _ _).2
    ⟨?_, .inr ?_⟩
  · have hnone : (Identity.parse .ascii "name: Ada").customSections = ∅ := by rfl
    have hempty : ∀ name, name ∉ (∅ : FiniteMap String (List String)) :=
      fun _ => Finmap.notMem_empty
    rw [Identity.Keeps, hnone]
    exact ⟨fun name hname => absurd hname (hempty name),
      fun name hname => absurd hname (hempty name)⟩
  · have hone : Workspace.parseMemory .ascii "## Facts\n- a" = [⟨"facts", "a"⟩] := by decide
    rw [hone]
    decide

/-- An entry without a category is written behind another section, and read as part of it. -/
theorem Workspace.uncategorised_absorbed : ¬ (Identity.RoundTrips .ascii "" ∧
    Workspace.MemoryRoundTrips .ascii "- a\n## Facts\n- b") := by
  rintro ⟨-, hmemory⟩
  have hentries : Workspace.parseMemory .ascii "- a\n## Facts\n- b" =
      [⟨"", "a"⟩, ⟨"facts", "b"⟩] := by decide
  have horder : Workspace.IteratesRemaining [⟨"", "a"⟩, ⟨"facts", "b"⟩] ["facts", ""] := by
    refine ⟨by decide, fun c => ?_⟩
    by_cases hblank : c = ""
    · subst hblank
      decide
    · by_cases hfacts : c = "facts"
      · subst hfacts
        decide
      · simp [hblank, hfacts, Workspace.ofCategory, Ne.symm hblank, Ne.symm hfacts]
  have hback := hmemory ["facts", ""] (hentries ▸ horder) "facts"
  rw [hentries] at hback
  revert hback
  decide

end PeerClaw
