import PeerClaw.Lib.Text
import PeerClaw.Skills.Registry

/-!
# The skill that fits best

`skills/registry.rs` keeps the skills of this peer under their names, and the names of those that
the user has switched off; `skills/selector.rs` scores each skill by what of it occurs in the
query and takes the best.

* `LocalSkills.selectBest` — the choice, for an order in which the map is gone through.
* `LocalSkills.selectsRight_iff` — when the choice is the best of the skills that are switched on.

The arithmetic of the scores, the case mappings and the regular expressions are parameters.
-/

namespace PeerClaw

open Lib

/-- `SkillTrust`. -/
inductive SkillTrust
  | network
  | installed
  | local
  deriving DecidableEq

/-- `ActivationCriteria`, as far as the score depends on it. -/
structure ActivationCriteria where
  keywords : List String
  excludeKeywords : List String
  patterns : List String
  tags : List String
  deriving DecidableEq

/-- `LoadedSkill`, as far as the selection depends on it. -/
structure LoadedSkill where
  name : String
  activation : ActivationCriteria
  trust : SkillTrust
  requirementsMet : Bool
  deriving DecidableEq

/-- `LoadedSkill::is_available`. -/
def LoadedSkill.isAvailable (self : LoadedSkill) : Bool := self.requirementsMet

/-- What the score of a skill is computed with. -/
structure Scoring (σ : Type) [LinearOrder σ] where
  casing : Text.Casing
  /-- `Regex::new`, and `is_match` of what it returns. -/
  regex : String → Option (String → Bool)
  /-- The arithmetic of `SkillScore::calculate`: from the numbers of matches and the trust. -/
  calculate : ℕ → ℕ → ℕ → SkillTrust → σ
  /-- The score before it is calculated. -/
  zero : σ
  minScore : σ
  zero_lt : zero < minScore

/-- `SkillScore`. -/
structure SkillScore (σ : Type) where
  skill : LoadedSkill
  score : σ
  keywordMatches : ℕ
  patternMatches : ℕ
  tagMatches : ℕ

namespace Scoring

variable {σ : Type} [LinearOrder σ] (S : Scoring σ)

/-- `score_skill`. -/
def scoreSkill (skill : LoadedSkill) (input : String) (tags : List String) : SkillScore σ :=
  let inputLower := S.casing.toLowercase input
  let inputWords := Text.splitWhitespace inputLower
  let keywordMatches := (skill.activation.keywords.map fun keyword =>
    let keywordLower := S.casing.toLowercase keyword
    (if Text.contains inputLower keywordLower then 1 else 0) + inputWords.count keywordLower).sum
  if skill.activation.excludeKeywords.any fun exclude =>
      Text.contains inputLower (S.casing.toLowercase exclude) then
    -- the score is returned before it is calculated
    ⟨skill, S.zero, keywordMatches, 0, 0⟩
  else
    let patternMatches := skill.activation.patterns.countP fun pattern =>
      (S.regex pattern).any fun isMatch => isMatch inputLower
    let tagMatches := (skill.activation.tags.map fun skillTag =>
      tags.countP fun tag => S.casing.toLowercase tag = S.casing.toLowercase skillTag).sum
    ⟨skill, S.calculate keywordMatches patternMatches tagMatches skill.trust, keywordMatches,
      patternMatches, tagMatches⟩

/-- `select_skills`: the sort is stable. -/
def selectSkills (skills : List LoadedSkill) (input : String) (tags : List String)
    (maxSkills : ℕ) (minScore : σ) : List (SkillScore σ) :=
  ((((skills.filter LoadedSkill.isAvailable).map fun s => S.scoreSkill s input tags).filter
    fun s => decide (minScore ≤ s.score)).mergeSort fun a b => decide (b.score ≤ a.score)).take
      maxSkills

@[simp] theorem skill_scoreSkill (skill : LoadedSkill) (input : String) (tags : List String) :
    (S.scoreSkill skill input tags).skill = skill := by
  unfold scoreSkill
  dsimp only
  split <;> rfl

/-- A keyword of the skill that is to keep it out occurs in the query, whatever the case. -/
def Excluded (input : String) (skill : LoadedSkill) : Prop :=
  ∃ exclude ∈ skill.activation.excludeKeywords, S.casing.Mentions input exclude

/-- The score of a skill for a query without tags. -/
def score (input : String) (skill : LoadedSkill) : σ := (S.scoreSkill skill input []).score

/-- A skill that can be used and scores enough. -/
def Eligible (input : String) (skill : LoadedSkill) : Prop :=
  skill.isAvailable = true ∧ S.minScore ≤ S.score input skill

theorem score_of_excluded {input : String} {skill : LoadedSkill} (h : S.Excluded input skill) :
    S.score input skill = S.zero := by
  have hany : (skill.activation.excludeKeywords.any fun exclude =>
      Text.contains (S.casing.toLowercase input) (S.casing.toLowercase exclude)) = true := by
    obtain ⟨exclude, hmem, hmention⟩ := h
    exact List.any_eq_true.2 ⟨exclude, hmem, hmention⟩
  unfold score scoreSkill
  dsimp only
  rw [if_pos hany]

theorem Eligible.not_excluded {input : String} {skill : LoadedSkill}
    (h : S.Eligible input skill) : ¬ S.Excluded input skill := by
  intro hexcluded
  have hscore := h.2
  rw [S.score_of_excluded hexcluded] at hscore
  exact absurd S.zero_lt (not_lt.2 hscore)

end Scoring

/-! ## The registry -/

/-- The skills of this peer, and the names that are switched off. -/
structure LocalSkills where
  localSkills : FiniteMap String LoadedSkill
  networkSkills : SkillRegistry
  disabledSkills : Finset String
  named : ∀ name skill, localSkills.lookup name = some skill → skill.name = name

namespace LocalSkills

/-- `SkillRegistry::new`. -/
def new : LocalSkills := ⟨∅, ∅, ∅, fun _ _ h => by simp at h⟩

/-- `SkillRegistry::install`, and a file of `scan`: a skill is kept under its name. -/
def install (reg : LocalSkills) (skill : LoadedSkill) : LocalSkills where
  localSkills := reg.localSkills.insert skill.name skill
  networkSkills := reg.networkSkills
  disabledSkills := reg.disabledSkills
  named := by
    intro name s h
    rw [Finmap.lookup_insert_eq] at h
    split at h
    · rename_i heq
      rw [← Option.some.inj h, heq]
    · exact reg.named name s h

/-- `SkillRegistry::scan`: the map is emptied, and the files are read. -/
def scan (reg : LocalSkills) (files : List LoadedSkill) : LocalSkills :=
  files.foldl install { new with
    networkSkills := reg.networkSkills, disabledSkills := reg.disabledSkills }

/-- `SkillRegistry::toggle_skill`. -/
def toggleSkill (reg : LocalSkills) (name : String) : LocalSkills × Option Bool :=
  if ¬ (name ∈ reg.localSkills ∨ name ∈ reg.networkSkills) then (reg, none)
  else if name ∈ reg.disabledSkills then
    ({ reg with disabledSkills := reg.disabledSkills.erase name }, some true)
  else ({ reg with disabledSkills := insert name reg.disabledSkills }, some false)

/-- `SkillRegistry::is_enabled`. -/
def isEnabled (reg : LocalSkills) (name : String) : Bool := decide (name ∉ reg.disabledSkills)

/-- What `values()` may go through. -/
def Iterates (reg : LocalSkills) (skills : List LoadedSkill) : Prop :=
  (skills : Multiset LoadedSkill) = reg.localSkills.entries.map Sigma.snd

section Selection

variable {σ : Type} [LinearOrder σ] (S : Scoring σ) (reg : LocalSkills) (input : String)

/-- `SkillRegistry::select_best`, for an order of the map. -/
def selectBest (skills : List LoadedSkill) : Option LoadedSkill :=
  (S.selectSkills skills input [] 1 S.minScore).head?.map SkillScore.skill

/-- The skills among which the best is to be chosen. -/
def Remains (skill : LoadedSkill) : Prop :=
  S.Eligible input skill ∧ reg.isEnabled skill.name = true ∧ ¬ S.Excluded input skill

/-- **What is promised of the choice**: it is one of the skills that remain, and none of them
scores more; without a choice none remains. -/
def SelectsRight (skills : List LoadedSkill) : Prop :=
  match selectBest S input skills with
  | none => ∀ skill ∈ skills, ¬ reg.Remains S input skill
  | some best => best ∈ skills ∧ reg.Remains S input best ∧
      ∀ skill ∈ skills, reg.Remains S input skill → S.score input skill ≤ S.score input best

/-- The scores that are enough, as they are sorted. -/
def ranked (skills : List LoadedSkill) : List (SkillScore σ) :=
  (((skills.filter LoadedSkill.isAvailable).map fun s => S.scoreSkill s input []).filter
    fun s => decide (S.minScore ≤ s.score)).mergeSort fun a b => decide (b.score ≤ a.score)

variable {S} {input} {skills : List LoadedSkill}

theorem selectBest_eq : selectBest S input skills =
    (ranked S input skills).head?.map SkillScore.skill := by
  unfold selectBest Scoring.selectSkills ranked
  rw [List.head?_take, if_neg one_ne_zero]

theorem mem_ranked {s : SkillScore σ} :
    s ∈ ranked S input skills ↔
      ∃ skill ∈ skills, S.Eligible input skill ∧ S.scoreSkill skill input [] = s := by
  simp only [ranked, List.mem_mergeSort, List.mem_filter, List.mem_map, decide_eq_true_eq]
  constructor
  · rintro ⟨⟨skill, ⟨hmem, havailable⟩, rfl⟩, hscore⟩
    exact ⟨skill, hmem, ⟨havailable, hscore⟩, rfl⟩
  · rintro ⟨skill, hmem, ⟨havailable, hscore⟩, rfl⟩
    exact ⟨⟨skill, ⟨hmem, havailable⟩, rfl⟩, hscore⟩

theorem higher_trans (a b c : SkillScore σ) :
    decide (b.score ≤ a.score) = true → decide (c.score ≤ b.score) = true →
      decide (c.score ≤ a.score) = true := by
  simpa using fun hab hbc => le_trans hbc hab

theorem higher_total (a b : SkillScore σ) :
    (decide (b.score ≤ a.score) || decide (a.score ≤ b.score)) = true := by
  simpa using le_total b.score a.score

theorem ranked_pairwise (S : Scoring σ) (input : String) (skills : List LoadedSkill) :
    (ranked S input skills).Pairwise fun a b => b.score ≤ a.score := by
  have hsorted := List.pairwise_mergeSort higher_trans higher_total
    (((skills.filter LoadedSkill.isAvailable).map fun s => S.scoreSkill s input []).filter
      fun s => decide (S.minScore ≤ s.score))
  simpa [ranked] using hsorted

theorem selectBest_eq_none_iff :
    selectBest S input skills = none ↔ ∀ skill ∈ skills, ¬ S.Eligible input skill := by
  rw [selectBest_eq, Option.map_eq_none_iff, List.head?_eq_none_iff, List.eq_nil_iff_forall_not_mem]
  simp only [mem_ranked]
  constructor
  · exact fun h skill hmem heligible => h _ ⟨skill, hmem, heligible, rfl⟩
  · rintro h s ⟨skill, hmem, heligible, rfl⟩
    exact h skill hmem heligible

theorem selectBest_spec {best : LoadedSkill} (h : selectBest S input skills = some best) :
    best ∈ skills ∧ S.Eligible input best ∧
      ∀ skill ∈ skills, S.Eligible input skill → S.score input skill ≤ S.score input best := by
  rw [selectBest_eq] at h
  obtain ⟨s, hhead, rfl⟩ := Option.map_eq_some_iff.1 h
  obtain ⟨rest, hranked⟩ := List.head?_eq_some_iff.1 hhead
  have hmem : s ∈ ranked S input skills := by simp [hranked]
  obtain ⟨skill, hskill, heligible, rfl⟩ := mem_ranked.1 hmem
  rw [S.skill_scoreSkill]
  refine ⟨hskill, heligible, fun other hother hother' => ?_⟩
  have hall := ranked_pairwise S input skills
  have hin : S.scoreSkill other input [] ∈ ranked S input skills :=
    mem_ranked.2 ⟨other, hother, hother', rfl⟩
  rw [hranked] at hall hin
  rcases List.mem_cons.1 hin with heq | hin
  · exact le_of_eq (congrArg SkillScore.score heq)
  · exact (List.pairwise_cons.1 hall).1 _ hin

/-- If the first skill in the order is eligible and none scores more, it is selected. -/
theorem selectBest_cons {best : LoadedSkill} (heligible : S.Eligible input best)
    (hbest : ∀ skill ∈ skills, S.Eligible input skill → S.score input skill ≤ S.score input best) :
    selectBest S input (best :: skills) = some best := by
  have hlist : ((((best :: skills).filter LoadedSkill.isAvailable).map
      fun s => S.scoreSkill s input []).filter fun s => decide (S.minScore ≤ s.score)) =
      S.scoreSkill best input [] :: (((skills.filter LoadedSkill.isAvailable).map
        fun s => S.scoreSkill s input []).filter fun s => decide (S.minScore ≤ s.score)) := by
    have hscore : S.minScore ≤ (S.scoreSkill best input []).score := heligible.2
    rw [List.filter_cons_of_pos heligible.1, List.map_cons,
      List.filter_cons_of_pos (by simpa using hscore)]
  obtain ⟨before, after, hsort, hrest, hbefore⟩ := List.mergeSort_cons
    higher_trans higher_total (S.scoreSkill best input [])
    (((skills.filter LoadedSkill.isAvailable).map fun s => S.scoreSkill s input []).filter
      fun s => decide (S.minScore ≤ s.score))
  have hnil : before = [] := by
    refine List.eq_nil_iff_forall_not_mem.2 fun s hs => ?_
    have hin : s ∈ ranked S input skills := by
      rw [ranked, hrest]
      exact List.mem_append_left _ hs
    obtain ⟨skill, hskill, hskill', rfl⟩ := mem_ranked.1 hin
    have hnot := hbefore _ hs
    simp only [Bool.not_eq_true', decide_eq_false_iff_not] at hnot
    exact hnot (hbest skill hskill hskill')
  rw [selectBest_eq, ranked, hlist, hsort, hnil]
  simp

variable {reg}

theorem exists_iterates (reg : LocalSkills) : ∃ skills, reg.Iterates skills :=
  ⟨(reg.localSkills.entries.map Sigma.snd).toList, by simp [Iterates]⟩

theorem iterates_of_perm {skills' : List LoadedSkill} (h : reg.Iterates skills)
    (hperm : skills'.Perm skills) : reg.Iterates skills' :=
  (Multiset.coe_eq_coe.2 hperm).trans h

theorem mem_iff_of_iterates (h : reg.Iterates skills) {skill : LoadedSkill} :
    skill ∈ skills ↔ ∃ name, reg.localSkills.lookup name = some skill := by
  rw [← Multiset.mem_coe, h, Multiset.mem_map]
  constructor
  · rintro ⟨⟨name, s⟩, hentry, rfl⟩
    exact ⟨name, Finmap.lookup_eq_some_iff.2 hentry⟩
  · rintro ⟨name, hlookup⟩
    exact ⟨⟨name, skill⟩, Finmap.lookup_eq_some_iff.1 hlookup, rfl⟩

/-- **When the choice is right** in every order of the map: what is switched off scores less than
something that is switched on. -/
theorem selectsRight_iff (S : Scoring σ) (reg : LocalSkills) (input : String) :
    (∀ skills, reg.Iterates skills → reg.SelectsRight S input skills) ↔
      ∀ name skill, reg.localSkills.lookup name = some skill → S.Eligible input skill →
        reg.isEnabled name = false →
        ∃ name' other, reg.localSkills.lookup name' = some other ∧ S.Eligible input other ∧
          reg.isEnabled name' = true ∧ S.score input skill < S.score input other := by
  constructor
  · intro hright name skill hlookup heligible hdisabled
    by_contra hnone
    push Not at hnone
    obtain ⟨skills, hskills⟩ := reg.exists_iterates
    have hmem : skill ∈ skills := (mem_iff_of_iterates hskills).2 ⟨name, hlookup⟩
    -- whatever is chosen scores as much as the skill that is switched off
    have hchoice := hright skills hskills
    unfold SelectsRight at hchoice
    cases hbest : selectBest S input skills with
    | none => exact selectBest_eq_none_iff.1 hbest skill hmem heligible
    | some best =>
        rw [hbest] at hchoice
        obtain ⟨hin, ⟨hbest', henabled, -⟩, -⟩ := hchoice
        obtain ⟨name', hlookup'⟩ := (mem_iff_of_iterates hskills).1 hin
        have hname' := reg.named name' best hlookup'
        have hle := hnone name' best hlookup' hbest' (hname' ▸ henabled)
        have hgreatest := (selectBest_spec hbest).2.2
        -- so it may come first, and is chosen
        have hperm := List.perm_cons_erase hmem
        have hfirst := hright (skill :: skills.erase skill) (iterates_of_perm hskills hperm.symm)
        have hselected : selectBest S input (skill :: skills.erase skill) = some skill :=
          selectBest_cons heligible fun other hother hother' =>
            (hgreatest other (List.mem_of_mem_erase hother) hother').trans hle
        unfold SelectsRight at hfirst
        rw [hselected] at hfirst
        obtain ⟨-, ⟨-, hon, -⟩, -⟩ := hfirst
        rw [reg.named name skill hlookup, hdisabled] at hon
        cases hon
  · intro hcond skills hskills
    unfold SelectsRight
    cases hbest : selectBest S input skills with
    | none =>
        rintro skill hmem ⟨heligible, -, -⟩
        exact selectBest_eq_none_iff.1 hbest skill hmem heligible
    | some best =>
        obtain ⟨hin, heligible, hgreatest⟩ := selectBest_spec hbest
        refine ⟨hin, ⟨heligible, ?_, heligible.not_excluded⟩,
          fun skill hmem hremains => hgreatest skill hmem hremains.1⟩
        obtain ⟨name, hlookup⟩ := (mem_iff_of_iterates hskills).1 hin
        rw [reg.named name best hlookup]
        by_contra hoff
        obtain ⟨name', other, hother, hother', -, hlt⟩ :=
          hcond name best hlookup heligible (Bool.not_eq_true _ ▸ hoff)
        have hle := hgreatest other ((mem_iff_of_iterates hskills).2 ⟨name', hother⟩) hother'
        exact absurd hlt (not_lt.2 hle)

end Selection

/-! ## A skill that is switched off -/

/-- The arithmetic of the scores, in tenths. -/
private def tenths : Scoring ℕ where
  casing := .ascii
  regex := fun _ => none
  calculate k p t trust := min 10 (3 * k + 4 * p + 2 * t +
    match trust with
    | .local => 2
    | .installed => 1
    | .network => 0)
  zero := 0
  minScore := 3
  zero_lt := by decide

private def review : LoadedSkill := ⟨"code-review", ⟨["review"], [], [], []⟩, .local, true⟩

/-- The only skill is switched off, and is chosen. -/
theorem switched_off_selected :
    ((new.install review).toggleSkill "code-review").2 = some false ∧
      selectBest tenths "please review this" [review] = some review ∧
      ¬ ∀ skills, ((new.install review).toggleSkill "code-review").1.Iterates skills →
        ((new.install review).toggleSkill "code-review").1.SelectsRight tenths
          "please review this" skills := by
  have hchosen : selectBest tenths "please review this" [review] = some review := by
    decide +kernel
  have horder : ((new.install review).toggleSkill "code-review").1.Iterates [review] := rfl
  refine ⟨rfl, hchosen, fun hright => ?_⟩
  have hfirst := hright [review] horder
  unfold SelectsRight at hfirst
  rw [hchosen] at hfirst
  obtain ⟨-, ⟨-, hon, -⟩, -⟩ := hfirst
  exact absurd hon (by decide)

end LocalSkills

end PeerClaw
