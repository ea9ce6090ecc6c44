import PeerClaw.Lib.Separated
import PeerClaw.Lib.Glob
import PeerClaw.Lib.Text
import Mathlib.Algebra.Order.BigOperators.Group.List
import Mathlib.Algebra.Order.Ring.Nat

/-!
# The patterns of endpoints

The proxy has a price for each endpoint, and an endpoint has a pattern of paths.  `*` stands for one
segment of a path and `**` for any number of segments; a path is gone through once, and where `**`
ends is not tried again.

* `EndpointPricing.patternMatches` — the loop.
* `patternLoop_iff` — what it finds.
* `pattern_matches_iff` — when it finds what the pattern means, for a path and for all paths.
* `first_fit_taken` — a path on which it ends `**` too early.
-/

namespace PeerClaw

open Lib Glob

/-- Pricing for a specific endpoint pattern. -/
structure EndpointPricing where
  /-- Path pattern (supports * and ** wildcards). -/
  pattern : String
  /-- HTTP method (or "*" for any). -/
  method : String
  /-- Price per request in μPCLAW. -/
  price : UInt64
  description : String

/-- The segments of a path that are not empty. -/
def pathParts (path : String) : List String :=
  ((path.toList.splitOn '/').map String.ofList).filter fun part => part ≠ ""

/-- The loop of `pattern_matches`, from an index of the pattern and one of the path on. -/
def patternLoop : List String → List String → Bool
  | [], path => path.isEmpty
  | _ :: _, [] => false
  | pp :: pattern, part :: path =>
      if pp = "**" then
        match pattern with
        | [] => true
        | next :: _ =>
            -- just check if the next pattern part appears
            patternLoop pattern
              ((part :: path).dropWhile fun part => !decide (next = "*" ∨ next = part))
      else if pp = "*" then patternLoop pattern path
      else if pp = part then patternLoop pattern path
      else false

/-- `EndpointPricing::pattern_matches`. -/
def EndpointPricing.patternMatches (e : EndpointPricing) (path : String) : Bool :=
  if e.pattern = path then true
  else if e.pattern = "**" then true
  else patternLoop (pathParts e.pattern) (pathParts path)

/-- `EndpointPricing::matches`. -/
def EndpointPricing.matches (casing : Text.Casing) (e : EndpointPricing) (path method : String) :
    Bool :=
  if e.method ≠ "*" ∧ casing.toUppercase e.method ≠ casing.toUppercase method then false
  else e.patternMatches path

/-! ## What a pattern means -/

/-- A segment of a pattern. -/
def seg (part : String) : Seg String :=
  if part = "**" then .many else if part = "*" then .one else .lit part

/-- The segments of a pattern. -/
def glob (pattern : String) : List (Seg String) := (pathParts pattern).map seg

/-- A path matches a pattern. -/
def GlobMatches (pattern path : String) : Prop := Matches (glob pattern) (pathParts path)

instance (pattern path : String) : Decidable (GlobMatches pattern path) :=
  inferInstanceAs (Decidable (Matches _ _))

/-- A segment of a path that the loop takes for one of the pattern. -/
def takesSeg : Seg String → String → Prop
  | .lit a, part => a = part
  | .one, _ => True
  | .many, part => part = "**"

instance : ∀ q, DecidablePred (takesSeg q)
  | .lit a, part => inferInstanceAs (Decidable (a = part))
  | .one, _ => isTrue trivial
  | .many, part => inferInstanceAs (Decidable (part = "**"))

/-- A path matches a pattern in which every `**` ends before the first segment that can be taken for
the next one of the pattern. -/
def FirstFitMatches (pattern path : String) : Prop :=
  FirstFit takesSeg (glob pattern) (pathParts path)

theorem fitting_takesSeg : Fitting takesSeg where
  lit _ _ := Iff.rfl
  one _ := trivial

section Loop

variable {pattern path : List String} {part next : String}

theorem takesSeg_seg : takesSeg (seg next) part ↔ next = "*" ∨ next = part := by
  unfold seg
  split
  · next h =>
      subst h
      simp [takesSeg, eq_comm]
  · split
    · next h => simp [takesSeg, h]
    · next h => simp [takesSeg, h]

/-- **What the loop finds.** -/
theorem patternLoop_iff : patternLoop pattern path = true ↔
    FirstFit takesSeg (pattern.map seg) path := by
  induction pattern generalizing path with
  | nil => simp [patternLoop]
  | cons pp pattern ih =>
      cases path with
      | nil => simp [patternLoop, not_firstFit_nil]
      | cons part path =>
          by_cases hmany : pp = "**"
          · subst hmany
            cases pattern with
            | nil => simp [patternLoop, seg]
            | cons next pattern =>
                have hstop : (fun part => !decide (next = "*" ∨ next = part)) =
                    fun part => !decide (takesSeg (seg next) part) := by
                  funext part
                  simp [takesSeg_seg]
                rw [patternLoop, if_pos rfl, ih, hstop]
                exact firstFit_many_iff.symm
          · by_cases hone : pp = "*"
            · subst hone
              simp [patternLoop, seg, ih]
            · by_cases hpart : pp = part
              · subst hpart
                simp [patternLoop, seg, hmany, hone, ih]
              · simp [patternLoop, seg, hmany, hone, hpart, eq_comm]

theorem matches_self (pattern : List String) : Matches (pattern.map seg) pattern := by
  induction pattern with
  | nil => exact .nil
  | cons part pattern ih =>
      by_cases hmany : part = "**"
      · subst hmany
        cases pattern with
        | nil => exact .last _ _
        | cons next pattern => exact .many ["**"] ih
      · by_cases hone : part = "*"
        · subst hone
          exact .one _ ih
        · simpa [seg, hmany, hone] using ih

end Loop

/-! ## Paths with given segments -/

section Paths

variable {path part : String} {parts : List String}

theorem of_mem_pathParts (h : part ∈ pathParts path) : part ≠ "" ∧ '/' ∉ part.toList := by
  simp only [pathParts, List.mem_filter, List.mem_map, decide_eq_true_eq] at h
  obtain ⟨⟨cs, hcs, rfl⟩, hne⟩ := h
  exact ⟨hne, by simpa using Entries.not_mem_of_mem_splitOn hcs⟩

theorem exists_pathParts (hne : parts ≠ []) (h : ∀ part ∈ parts, part ≠ "" ∧ '/' ∉ part.toList) :
    ∃ path, pathParts path = parts := by
  refine ⟨String.ofList (['/'].intercalate (parts.map String.toList)), ?_⟩
  have hsplit : (['/'].intercalate (parts.map String.toList)).splitOn '/' =
      parts.map String.toList := by
    apply List.splitOn_intercalate
    · simp only [List.mem_map, forall_exists_index, and_imp, forall_apply_eq_imp_iff₂]
      exact fun part hpart => (h part hpart).2
    · simpa using hne
  rw [pathParts, String.toList_ofList, hsplit, List.map_map]
  have hid : String.ofList ∘ String.toList = id := by
    funext s
    simp
  rw [hid, List.map_id, List.filter_eq_self]
  simpa using fun part hpart => (h part hpart).1

/-- A segment that is longer than those of a pattern, and no wildcard. -/
def freshPart (pattern : List String) : String :=
  String.ofList (List.replicate ((pattern.map String.length).sum + 3) 'x')

theorem length_freshPart (pattern : List String) :
    (freshPart pattern).length = (pattern.map String.length).sum + 3 := by
  simp [freshPart]

theorem ne_freshPart {pattern : List String} (h : part ∈ pattern) : part ≠ freshPart pattern := by
  intro heq
  have hlength := congrArg String.length heq
  have hle : part.length ≤ (pattern.map String.length).sum :=
    List.single_le_sum (by simp) _ (List.mem_map_of_mem h)
  rw [length_freshPart] at hlength
  omega

theorem freshPart_ne {s : String} (h : s.length < 3) (pattern : List String) :
    freshPart pattern ≠ s := by
  rintro rfl
  rw [length_freshPart] at h
  omega

theorem mem_glob {pattern a : String} (h : .lit a ∈ glob pattern) :
    a ∈ pathParts pattern ∧ a ≠ "**" := by
  obtain ⟨part, hpart, hseg⟩ := List.mem_map.1 h
  unfold seg at hseg
  split at hseg
  · cases hseg
  · next hmany =>
      split at hseg
      · cases hseg
      · cases hseg
        exact ⟨hpart, hmany⟩

theorem fresh_freshPart (pattern : String) :
    Fresh takesSeg (freshPart (pathParts pattern)) (glob pattern) where
  other _ ha := ne_freshPart (mem_glob ha).1
  notMany := freshPart_ne (by decide) _
  litNotMany _ ha := (mem_glob ha).2

end Paths

/-! ## When the loop agrees with the pattern -/

/-- The loop and the meaning of the pattern agree on a path. -/
def EndpointPricing.Agrees (e : EndpointPricing) (path : String) : Prop :=
  e.patternMatches path = true ↔ GlobMatches e.pattern path

section Agrees

variable {e : EndpointPricing} {path : String}

theorem patternMatches_iff : e.patternMatches path = true ↔
    e.pattern = "**" ∨ e.pattern = path ∨ FirstFitMatches e.pattern path := by
  unfold EndpointPricing.patternMatches
  split
  · simp [*]
  · split
    · simp [*]
    · simp [*, patternLoop_iff, FirstFitMatches, glob]

theorem globMatches_all : GlobMatches "**" path ↔ pathParts path ≠ [] := by
  have hglob : glob "**" = [.many] := by decide
  rw [GlobMatches, hglob, matches_last]

/-- A path that is found matches, but for `**` alone. -/
theorem globMatches_of_patternMatches (hall : e.pattern = "**" → pathParts path ≠ [])
    (h : e.patternMatches path = true) : GlobMatches e.pattern path := by
  rcases patternMatches_iff.1 h with hmany | hself | hfit
  · rw [hmany]
    exact globMatches_all.2 (hall hmany)
  · rw [← hself]
    exact matches_self _
  · exact hfit.matches

theorem agrees_iff : e.Agrees path ↔ (e.pattern = "**" → pathParts path ≠ []) ∧
    (GlobMatches e.pattern path →
      e.pattern = "**" ∨ e.pattern = path ∨ FirstFitMatches e.pattern path) := by
  constructor
  · intro hagrees
    refine ⟨fun hmany => ?_, fun hmatches => patternMatches_iff.1 (hagrees.2 hmatches)⟩
    have hfound := hagrees.1 (patternMatches_iff.2 (.inl hmany))
    rwa [hmany, globMatches_all] at hfound
  · rintro ⟨hall, hfound⟩
    exact ⟨globMatches_of_patternMatches hall, fun hmatches =>
      patternMatches_iff.2 (hfound hmatches)⟩

/-- A path on which a pattern that is not settled and the loop do not agree. -/
theorem exists_not_agrees (h : ¬ Settled (glob e.pattern)) : ∃ path, ¬ e.Agrees path := by
  obtain ⟨parts, hmade, hhit, hmissed⟩ :=
    exists_missed fitting_takesSeg (fresh_freshPart e.pattern) h
  have hplain : ∀ part ∈ parts, part ≠ "**" ∧ part ≠ "" ∧ '/' ∉ part.toList := by
    intro part hpart
    rcases hmade part hpart with rfl | hlit
    · refine ⟨freshPart_ne (by decide) _, freshPart_ne (by decide) _, ?_⟩
      simp [freshPart]
    · obtain ⟨hmem, hmany⟩ := mem_glob hlit
      exact ⟨hmany, of_mem_pathParts hmem⟩
  have hne : parts ≠ [] := by
    rintro rfl
    cases hglob : glob e.pattern with
    | nil => simp [hglob, Settled, settledAt] at h
    | cons q ps =>
        rw [hglob] at hhit
        exact not_matches_nil hhit
  obtain ⟨path, rfl⟩ := exists_pathParts hne fun part hpart => (hplain part hpart).2
  refine ⟨path, fun hagrees => ?_⟩
  rcases (agrees_iff.1 hagrees).2 hhit with hmany | hself | hfit
  · rw [hmany] at h
    exact h (by decide)
  · -- the pattern has a wildcard in it, and the path has none
    refine h (settled_of_not_many ?_)
    rw [glob, List.mem_map]
    rintro ⟨part, hpart, hseg⟩
    rw [hself] at hpart
    simp [seg, (hplain part hpart).1] at hseg
    split at hseg <;> cases hseg
  · exact hmissed hfit

/-- **When the loop agrees with the pattern.**  On a path: if the pattern is not `**` alone or the
path has segments, and if a path that matches does so with every `**` ended as the loop ends it (or
is the pattern, or the pattern is `**`).  On all paths: if the pattern is not `**` alone, and behind
each of its `**` comes nothing, or one segment of any kind and then only `*` up to the next `**`. -/
theorem pattern_matches_iff (e : EndpointPricing) :
    (∀ path, e.Agrees path ↔ (e.pattern = "**" → pathParts path ≠ []) ∧
      (GlobMatches e.pattern path →
        e.pattern = "**" ∨ e.pattern = path ∨ FirstFitMatches e.pattern path)) ∧
    ((∀ path, e.Agrees path) ↔ e.pattern ≠ "**" ∧ Settled (glob e.pattern)) := by
  refine ⟨fun path => agrees_iff, fun h => ⟨?_, ?_⟩, ?_⟩
  · intro hmany
    exact (agrees_iff.1 (h "")).1 hmany (by decide)
  · by_contra hsettled
    obtain ⟨path, hpath⟩ := exists_not_agrees hsettled
    exact hpath (h path)
  · rintro ⟨hmany, hsettled⟩ path
    refine agrees_iff.2 ⟨fun hall => absurd hall hmany, fun hmatches => .inr (.inr ?_)⟩
    exact firstFit_of_settled fitting_takesSeg hsettled hmatches

end Agrees

section Example

private def info : EndpointPricing := ⟨"/api/**/info", "*", 100, "test"⟩

/-- **The first `info` ends `**`**, and a path with another one behind it is not found. -/
theorem first_fit_taken :
    GlobMatches info.pattern "/api/info/v1/info" ∧
      info.patternMatches "/api/info/v1/info" = false ∧
      info.patternMatches "/api/v1/info" = true := by
  decide

end Example

end PeerClaw
