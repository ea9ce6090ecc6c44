import PeerClaw.Lib.Text
import PeerClaw.Lib.Detours

/-!
# Protected paths

`is_protected_path` in `tools/builtin/file.rs` and in `tools/builtin/patch.rs`: a path is
refused if one of the protected paths occurs in its text, in lower case.  The system that
opens the file follows the components instead.

* `File.isProtectedPath`, `Patch.isProtectedPath` — the two checks.
* `protected_of_adjacent` — a protected path without a detour in it is refused.
* `normalised_refused_iff` — every path to a protected one is refused exactly when none
  takes a detour inside it, unless a protected path occurs in it as well.
-/

namespace PeerClaw
namespace Tools

open Lib Lib.Path

/-- A check with its list of protected paths. -/
def isProtectedPathOf (protectedPaths : List String) (casing : Text.Casing) (path : String) : Bool :=
  protectedPaths.any fun p => Text.contains (casing.toLowercase path) p

namespace File

/-- Protected paths that should never be accessed. -/
def protectedPaths : List String :=
  ["/etc/passwd", "/etc/shadow", "/etc/sudoers", ".ssh/id_rsa", ".ssh/id_ed25519", ".env",
    ".bash_history", ".zsh_history"]

def isProtectedPath : Text.Casing → String → Bool := isProtectedPathOf protectedPaths

end File

namespace Patch

/-- Protected paths that should never be modified. -/
def protectedPaths : List String :=
  ["/etc/passwd", "/etc/shadow", "/etc/sudoers", ".ssh/id_rsa", ".ssh/id_ed25519", ".env",
    ".bash_history", ".zsh_history"]

/-- Check if a path matches any protected path pattern. -/
def isProtectedPath : Text.Casing → String → Bool := isProtectedPathOf protectedPaths

end Patch

/-! ## Where a path leads -/

/-- A path leads to a protected one, or to something below it.  One that does not start at the root
is protected in every directory. -/
def LeadsTo (path p : String) : Prop :=
  ∃ above below, (walk path).names = above ++ ((walk p).names ++ below) ∧
    (IsRooted p → IsRooted path ∧ above = [])

/-- A path leads there with a detour between the two components of the protected path. -/
def WrittenApart (path p : String) : Prop :=
  ∃ pre a gap b post, (walk p).names = [a, b] ∧ parts path = pre ++ a :: (gap ++ b :: post) ∧
    gap ≠ [] ∧ walkAll gap = ⟨0, []⟩ ∧ (walkAll post).ups = 0 ∧
      (IsRooted p → IsRooted path ∧ (walkAll pre).names = [])

section Checks

variable {casing : Text.Casing} {path p : String}

theorem protectedPaths_ascii : ∀ p ∈ File.protectedPaths, Text.IsAscii p.toList := by decide

theorem protectedPaths_lower :
    ∀ p ∈ File.protectedPaths, p.toList.map Char.toLower = p.toList := by
  decide

theorem protectedPaths_names :
    ∀ p ∈ File.protectedPaths, ∀ name ∈ (walk p).names, IsName name := by
  decide

/-- A protected path has one or two components; if it starts at the root it has two. -/
theorem protectedPaths_length : ∀ p ∈ File.protectedPaths,
    ((walk p).names.length = 1 ∧ ¬ IsRooted p) ∨ (walk p).names.length = 2 := by
  decide

theorem protectedPaths_text : ∀ p ∈ File.protectedPaths, p.toList =
    (if IsRooted p then ['/'] else []) ++ Separated.joined '/' ((walk p).names.map String.toList) := by
  decide

/-- **What is refused**: a path in which a protected one occurs, whatever the case. -/
theorem isProtectedPath_iff (hcasing : casing.Lawful) :
    File.isProtectedPath casing path = true ↔
      ∃ p ∈ File.protectedPaths, casing.Mentions path p := by
  simp only [File.isProtectedPath, isProtectedPathOf, List.any_eq_true]
  apply exists_congr
  intro p
  apply and_congr_right
  intro hp
  have hsame := hcasing.toLowercase_eq (protectedPaths_ascii p hp) (protectedPaths_lower p hp)
  rw [Text.Casing.Mentions, hsame]

theorem protected_of_adjacent (hcasing : casing.Lawful) (hp : p ∈ File.protectedPaths)
    {pre post : List String} (hparts : parts path = pre ++ ((walk p).names ++ post))
    (hrooted : IsRooted p → IsRooted path) : casing.Mentions path p := by
  have hnames : (walk p).names ≠ [] := by
    intro hnil
    have hlength := protectedPaths_length p hp
    rw [hnil] at hlength
    simp at hlength
  have htext := joined_parts path
  rw [hparts, List.map_append, List.map_append] at htext
  have hinfix : p.toList <:+: path.toList := by
    rw [protectedPaths_text p hp, ← htext]
    by_cases hroot : IsRooted p
    · have hpre : pre ≠ [] := by
        rintro rfl
        obtain ⟨name, names, hname⟩ := List.exists_cons_of_ne_nil hnames
        have hhead := head_parts (hrooted hroot)
        rw [hparts, List.nil_append, hname, List.cons_append, List.head?_cons] at hhead
        have hempty := protectedPaths_names p hp name (by rw [hname]; exact List.mem_cons_self)
        exact hempty.1 (Option.some.inj hhead)
      rw [if_pos hroot]
      exact sep_joined_infix (by simpa using hpre) (by simpa using hnames)
    · rw [if_neg hroot]
      exact joined_infix (by simpa using hnames)
  have hsame := hcasing.toLowercase_eq (protectedPaths_ascii p hp) (protectedPaths_lower p hp)
  rw [Text.Casing.Mentions, hsame]
  exact hcasing.contains (protectedPaths_ascii p hp) (protectedPaths_lower p hp)
    (Text.contains_iff.2 hinfix)

/-- A path that leads to a protected one is refused, or takes a detour inside it. -/
theorem mentions_or_apart (hcasing : casing.Lawful) (hp : p ∈ File.protectedPaths)
    (h : LeadsTo path p) : casing.Mentions path p ∨ WrittenApart path p := by
  obtain ⟨above, below, hnames, hrooted⟩ := h
  have hwalk : walkAll (parts path) = ⟨(walk path).ups, (walk path).names⟩ := rfl
  rw [hnames] at hwalk
  have hall := protectedPaths_names p hp
  rcases protectedPaths_length p hp with ⟨hone, -⟩ | htwo
  · obtain ⟨a, ha⟩ := List.length_eq_one_iff.1 hone
    rw [ha] at hwalk hall
    obtain ⟨pre, post, hparts, -, -⟩ :=
      (walkAll_append_iff (hall a List.mem_cons_self)).1 hwalk
    have hwritten : parts path = pre ++ ((walk p).names ++ post) := by
      rw [hparts, ha]
      rfl
    exact .inl (protected_of_adjacent hcasing hp hwritten fun hroot => (hrooted hroot).1)
  · obtain ⟨a, b, hab⟩ := List.length_eq_two.1 htwo
    rw [hab] at hwalk hall
    obtain ⟨pre, gap, post, hparts, hpre, hgap, hpost⟩ :=
      (adjacent_iff (hall a (by simp)) (hall b (by simp))).1 hwalk
    by_cases hnone : gap = []
    · subst hnone
      have hwritten : parts path = pre ++ ((walk p).names ++ post) := by
        rw [hparts, hab]
        rfl
      exact .inl (protected_of_adjacent hcasing hp hwritten fun hroot => (hrooted hroot).1)
    · refine .inr ⟨pre, a, gap, b, post, hab, hparts, hnone, hgap, by rw [hpost], ?_⟩
      intro hroot
      obtain ⟨hpath, rfl⟩ := hrooted hroot
      exact ⟨hpath, by rw [hpre]⟩

theorem leadsTo_of_apart (hp : p ∈ File.protectedPaths) (h : WrittenApart path p) :
    LeadsTo path p := by
  obtain ⟨pre, a, gap, b, post, hab, hparts, -, hgap, hpost, hrooted⟩ := h
  have hall := protectedPaths_names p hp
  rw [hab] at hall
  have hwalk : walkAll (parts path) =
      ⟨(walkAll pre).ups, (walkAll pre).names ++ a :: b :: (walkAll post).names⟩ := by
    refine (adjacent_iff (hall a (by simp)) (hall b (by simp))).2
      ⟨pre, gap, post, hparts, rfl, hgap, ?_⟩
    rw [← hpost]
  refine ⟨(walkAll pre).names, (walkAll post).names, ?_, hrooted⟩
  rw [walk_eq_walkAll path, hwalk, hab]
  rfl

/-- **When every way to a protected path is refused**: exactly when none takes a detour between two
of its components, or else a protected path occurs in the text all the same. -/
theorem normalised_refused_iff (casing : Text.Casing) (hcasing : casing.Lawful) (path : String) :
    (∀ p ∈ File.protectedPaths, LeadsTo path p →
        File.isProtectedPath casing path = true ∧ Patch.isProtectedPath casing path = true) ↔
      ∀ p ∈ File.protectedPaths, WrittenApart path p →
        ∃ q ∈ File.protectedPaths, casing.Mentions path q := by
  have hboth : (File.isProtectedPath casing path = true ∧
      Patch.isProtectedPath casing path = true) ↔
        ∃ q ∈ File.protectedPaths, casing.Mentions path q := by
    have hpatch : Patch.isProtectedPath = File.isProtectedPath := rfl
    rw [hpatch, and_self_iff, isProtectedPath_iff hcasing]
  simp only [hboth]
  constructor
  · intro h p hp happart
    exact h p hp (leadsTo_of_apart hp happart)
  · intro h p hp hleads
    rcases mentions_or_apart hcasing hp hleads with hmentions | happart
    · exact ⟨p, hp, hmentions⟩
    · exact h p hp happart

end Checks

/-! ## A detour -/

/-- A path without a detour. -/
theorem refused_passwd :
    LeadsTo "/srv/../etc/passwd" "/etc/passwd" ∧
      ∀ p ∈ File.protectedPaths, LeadsTo "/srv/../etc/passwd" p →
        File.isProtectedPath .ascii "/srv/../etc/passwd" = true ∧
          Patch.isProtectedPath .ascii "/srv/../etc/passwd" = true := by
  refine ⟨⟨[], [], by decide, fun _ => ⟨by decide, rfl⟩⟩, ?_⟩
  refine (normalised_refused_iff .ascii Text.Casing.ascii_lawful "/srv/../etc/passwd").2 ?_
  exact fun _ _ _ => ⟨"/etc/passwd", by decide, by decide⟩

/-- Two slashes are enough. -/
theorem passwd_not_refused :
    ¬ ∀ p ∈ File.protectedPaths, LeadsTo "/etc//passwd" p →
      File.isProtectedPath .ascii "/etc//passwd" = true ∧
        Patch.isProtectedPath .ascii "/etc//passwd" = true := by
  intro h
  have hleads : LeadsTo "/etc//passwd" "/etc/passwd" :=
    ⟨[], [], by decide, fun _ => ⟨by decide, rfl⟩⟩
  have hrefused := (h "/etc/passwd" (by decide) hleads).1
  revert hrefused
  decide

end Tools
end PeerClaw
