import PeerClaw.Lib.Regex

/-!
# Where a text may be cut

A text of characters is cut at a number of bytes.  The cut succeeds exactly when the
bytes before it are whole characters: when the number is a **boundary** of the text.

* `IsBoundary` — the first bytes are whole characters.
* `takeBytes_eq_some_iff`, `dropBytes_eq_some_iff` — what a cut gives.
* `isSome_takeBytes_iff`, `isSome_dropBytes_iff` — when there is one.
* `isSome_cut_iff` — a text that is cut where it is longer than a limit.
-/

namespace Lib
namespace Text

/-- The first bytes of a text are whole characters of it. -/
def IsBoundary (n : ℕ) (cs : List Char) : Prop := ∃ a b, cs = a ++ b ∧ byteLen a = n

theorem takeBytes_eq_some_iff {n : ℕ} {cs a : List Char} :
    takeBytes n cs = some a ↔ ∃ b, cs = a ++ b ∧ byteLen a = n := by
  constructor
  · intro h
    induction cs generalizing n a with
    | nil =>
        cases n with
        | zero =>
            cases h
            exact ⟨[], rfl, rfl⟩
        | succ n => cases h
    | cons c cs ih =>
        cases n with
        | zero =>
            cases h
            exact ⟨c :: cs, rfl, rfl⟩
        | succ n =>
            rw [takeBytes] at h
            split at h
            · rename_i hle
              obtain ⟨a', ha', rfl⟩ := Option.map_eq_some_iff.1 h
              obtain ⟨b, rfl, hlen⟩ := ih ha'
              refine ⟨b, rfl, ?_⟩
              rw [byteLen_cons, hlen]
              omega
            · cases h
  · rintro ⟨b, rfl, rfl⟩
    exact takeBytes_append a b

theorem dropBytes_eq_some_iff {n : ℕ} {cs b : List Char} :
    dropBytes n cs = some b ↔ ∃ a, cs = a ++ b ∧ byteLen a = n := by
  constructor
  · intro h
    induction cs generalizing n with
    | nil =>
        cases n with
        | zero =>
            cases h
            exact ⟨[], rfl, rfl⟩
        | succ n => cases h
    | cons c cs ih =>
        cases n with
        | zero =>
            cases h
            exact ⟨[], rfl, rfl⟩
        | succ n =>
            rw [dropBytes] at h
            split at h
            · rename_i hle
              obtain ⟨a, rfl, hlen⟩ := ih h
              refine ⟨c :: a, rfl, ?_⟩
              rw [byteLen_cons, hlen]
              omega
            · cases h
  · rintro ⟨a, rfl, rfl⟩
    exact dropBytes_append a b

/-- **A cut succeeds exactly at a boundary.** -/
theorem isSome_takeBytes_iff {n : ℕ} {cs : List Char} :
    (takeBytes n cs).isSome ↔ IsBoundary n cs := by
  simp only [Option.isSome_iff_exists, takeBytes_eq_some_iff]
  rfl

theorem isSome_dropBytes_iff {n : ℕ} {cs : List Char} :
    (dropBytes n cs).isSome ↔ IsBoundary n cs := by
  simp only [Option.isSome_iff_exists, dropBytes_eq_some_iff]
  exact exists_comm

instance (n : ℕ) (cs : List Char) : Decidable (IsBoundary n cs) :=
  decidable_of_iff _ isSome_takeBytes_iff

theorem exists_takeBytes {n : ℕ} {cs : List Char} (h : IsBoundary n cs) :
    ∃ a, takeBytes n cs = some a :=
  Option.isSome_iff_exists.1 (isSome_takeBytes_iff.2 h)

theorem IsBoundary.le {n : ℕ} {cs : List Char} (h : IsBoundary n cs) : n ≤ byteLen cs := by
  obtain ⟨a, b, rfl, rfl⟩ := h
  simp

theorem isBoundary_zero (cs : List Char) : IsBoundary 0 cs := ⟨[], cs, rfl, rfl⟩

theorem isBoundary_byteLen (cs : List Char) : IsBoundary (byteLen cs) cs :=
  ⟨cs, [], (List.append_nil cs).symm, rfl⟩

/-! ## Texts that are cut where they are too long -/

/-- The text is not longer than some bytes, or it can be cut there. -/
def CutsAt (limit : ℕ) (cs : List Char) : Prop := byteLen cs ≤ limit ∨ IsBoundary limit cs

instance (limit : ℕ) (cs : List Char) : Decidable (CutsAt limit cs) :=
  inferInstanceAs (Decidable (_ ∨ _))

/-- **A text that is cut where it is too long.** -/
theorem isSome_cut_iff {β : Type*} {limit : ℕ} {cs : List Char} (f : List Char → β) (b : β) :
    (if limit < byteLen cs then (takeBytes limit cs).map f else some b).isSome ↔
      CutsAt limit cs := by
  unfold CutsAt
  split
  · rename_i hlong
    rw [Option.isSome_map, isSome_takeBytes_iff, or_iff_right (by omega)]
  · rename_i hfits
    exact iff_of_true rfl (.inl (not_lt.1 hfits))

theorem isSome_takeBytes_min_iff {limit : ℕ} {cs : List Char} :
    (takeBytes (min (byteLen cs) limit) cs).isSome ↔ CutsAt limit cs := by
  rw [isSome_takeBytes_iff, CutsAt]
  rcases Nat.le_total (byteLen cs) limit with hle | hle
  · rw [min_eq_left hle]
    exact iff_of_true (isBoundary_byteLen cs) (.inl hle)
  · rw [min_eq_right hle]
    constructor
    · exact .inr
    · rintro (hfits | hboundary)
      · rw [Nat.le_antisymm hle hfits]
        exact isBoundary_byteLen cs
      · exact hboundary

end Text

theorem isSome_mapM_iff {α β : Type} (f : α → Option β) (xs : List α) :
    (xs.mapM f).isSome ↔ ∀ x ∈ xs, (f x).isSome := by
  induction xs with
  | nil => simp
  | cons x xs ih =>
      rw [List.mapM_cons, List.forall_mem_cons, ← ih]
      cases f x with
      | none => simp
      | some y => cases xs.mapM f <;> simp

end Lib
