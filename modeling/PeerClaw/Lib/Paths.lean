import Mathlib.Data.List.Basic

/-!
# Paths of files

A path is the list of its components from the root.  A text is joined to a path as the operating
system resolves it: an empty component and a dot go nowhere, two dots go up, and a text that
begins with a slash starts at the root.

* `Path.join_of_plain` — a text without a slash names a file in the directory.
* `extension_of_suffix` — what comes after the last dot of a file name.
* `walk` — where a text leads, told without a directory: so many directories up, and down again.
* `isPrefix_join_iff` — when a text that is joined below a directory stays under it.
-/

namespace Lib

/-- The components of a path, from the root. -/
abbrev Path := List String

namespace Path

/-- One component is followed. -/
def follow (p : Path) (part : String) : Path :=
  if part = "" ∨ part = "." then p else if part = ".." then p.dropLast else p ++ [part]

/-- The components of a text. -/
def parts (s : String) : List String := (s.toList.splitOn '/').map String.ofList

/-- `Path::join`. -/
def join (dir : Path) (s : String) : Path :=
  (parts s).foldl follow (if s.toList.head? = some '/' then [] else dir)

/-- `Path::extension` of a file name: what comes after the last dot, if anything comes before
it. -/
def extension (name : String) : Option String :=
  if name = ".." then none
  else
    match name.toList.reverse.dropWhile (· ≠ '.') with
    | _ :: _ :: _ => some (String.ofList (name.toList.reverse.takeWhile (· ≠ '.')).reverse)
    | _ => none

/-- A file name that has a character other than dots, and no slash, names a file in the
directory. -/
theorem join_of_plain (dir : Path) {s : String} (hslash : '/' ∉ s.toList) (hne : s ≠ "")
    (hdot : s ≠ ".") (hdots : s ≠ "..") : join dir s = dir ++ [s] := by
  have hparts : parts s = [s] := by
    unfold parts
    rw [List.splitOn_eq_singleton hslash, List.map_singleton, String.ofList_toList]
  have hhead : s.toList.head? ≠ some '/' := by
    intro h
    exact hslash (List.mem_of_mem_head? h)
  unfold join
  rw [hparts, if_neg hhead, List.foldl_cons, List.foldl_nil, follow,
    if_neg (not_or.2 ⟨hne, hdot⟩), if_neg hdots]

/-- The extension of a file name that ends in a dot and a text without one. -/
theorem extension_of_suffix {stem ext : List Char} (hext : '.' ∉ ext) (hstem : stem ≠ []) (hne : ext ≠ []) :
    extension (String.ofList (stem ++ '.' :: ext)) = some (String.ofList ext) := by
  have hrev : (stem ++ '.' :: ext).reverse = ext.reverse ++ '.' :: stem.reverse := by simp
  have hall : ∀ c ∈ ext.reverse, decide (c ≠ '.') = true := by
    intro c hc
    have hne : c ≠ '.' := fun heq => hext (heq ▸ List.mem_reverse.1 hc)
    exact decide_eq_true hne
  have hnot : ¬ decide ('.' ≠ '.') = true := by decide
  have hdots : String.ofList (stem ++ '.' :: ext) ≠ ".." := by
    intro h
    have hlength := congrArg (fun s => s.toList.length) h
    have hstem' := List.length_pos_of_ne_nil hstem
    have hne' := List.length_pos_of_ne_nil hne
    simp only [String.toList_ofList, List.length_append, List.length_cons] at hlength
    have htwo : "..".toList.length = 2 := rfl
    omega
  unfold extension
  rw [if_neg hdots, String.toList_ofList, hrev, List.dropWhile_append_of_pos hall,
    List.dropWhile_cons_of_neg (p := fun c => decide (c ≠ '.')) hnot,
    List.takeWhile_append_of_pos hall,
    List.takeWhile_cons_of_neg (p := fun c => decide (c ≠ '.')) hnot, List.append_nil,
    List.reverse_reverse]
  cases hcase : stem.reverse with
  | nil => exact absurd (List.reverse_eq_nil_iff.1 hcase) hstem
  | cons c cs => rfl

/-! ## Where a text leads -/

/-- So many directories up, and then down these. -/
structure Walk where
  ups : ℕ
  names : List String

/-- One component is followed. -/
def Walk.step (w : Walk) (part : String) : Walk :=
  if part = "" ∨ part = "." then w
  else if part = ".." then
    if w.names = [] then ⟨w.ups + 1, []⟩ else ⟨w.ups, w.names.dropLast⟩
  else ⟨w.ups, w.names ++ [part]⟩

/-- Where a text leads. -/
def walk (s : String) : Walk := (parts s).foldl Walk.step ⟨0, []⟩

/-- Where one gets to from a directory. -/
def Walk.go (w : Walk) (dir : Path) : Path := dir.take (dir.length - w.ups) ++ w.names

/-- A text that is joined so many directories below this one stays under it: it does not climb
further, or climbs down again by the names of the directory itself. -/
def Under (dir : Path) (depth : ℕ) (s : String) : Prop :=
  (if s.toList.head? = some '/' then dir else dir.drop (dir.length + depth - (walk s).ups)) <+:
    (walk s).names

instance (dir : Path) (depth : ℕ) (s : String) : Decidable (Under dir depth s) :=
  inferInstanceAs (Decidable (_ <+: _))

variable {dir below : Path}

theorem follow_go (w : Walk) (dir : Path) (part : String) :
    follow (w.go dir) part = (w.step part).go dir := by
  unfold follow Walk.step
  split
  · rfl
  split
  · split
    · rename_i hnames
      unfold Walk.go
      rw [hnames, List.append_nil, List.append_nil, List.dropLast_eq_take, List.take_take,
        List.length_take]
      congr 1
      dsimp only
      omega
    · rename_i hnames
      exact List.dropLast_append_of_ne_nil hnames
  · exact List.append_assoc ..

theorem foldl_follow (ps : List String) (w : Walk) (dir : Path) :
    ps.foldl follow (w.go dir) = (ps.foldl Walk.step w).go dir := by
  induction ps generalizing w with
  | nil => rfl
  | cons part ps ih => rw [List.foldl_cons, List.foldl_cons, follow_go, ih]

/-- **A text leads where its walk goes.** -/
theorem join_eq_go (dir : Path) (s : String) :
    join dir s = (walk s).go (if s.toList.head? = some '/' then [] else dir) := by
  have hstart : ∀ d : Path, Walk.go ⟨0, []⟩ d = d := by
    intro d
    unfold Walk.go
    rw [Nat.sub_zero, List.take_length, List.append_nil]
  unfold join walk
  rw [← foldl_follow, hstart]

theorem isPrefix_go_iff (w : Walk) :
    dir <+: w.go (dir ++ below) ↔ dir.drop (dir.length + below.length - w.ups) <+: w.names := by
  unfold Walk.go
  rw [List.length_append]
  generalize dir.length + below.length - w.ups = n
  by_cases hn : dir.length ≤ n
  · rw [List.drop_eq_nil_of_le hn, List.take_append, List.take_of_length_le hn, List.append_assoc]
    exact iff_of_true (List.prefix_append _ _) List.nil_prefix
  · rw [List.take_append_of_le_length (by omega)]
    conv => lhs; enter [1]; rw [← List.take_append_drop n dir]
    exact List.prefix_append_right_inj _

/-- **A text stays under a directory** exactly when it climbs no further, or climbs down again. -/
theorem isPrefix_join_iff (dir below : Path) (s : String) :
    dir <+: join (dir ++ below) s ↔ Under dir below.length s := by
  rw [join_eq_go]
  unfold Under
  split
  · unfold Walk.go
    rw [List.take_nil, List.nil_append]
  · exact isPrefix_go_iff _

end Path

end Lib
