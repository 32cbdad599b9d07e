import Mathlib.Data.List.Infix

/-!
Patterns of letters and wildcards, over any alphabet, and the words they match.
-/

/-- One part of a pattern: a letter, any one letter, or any word. -/
inductive Glob (α : Type) where
  | lit (a : α)
  | one
  | many

namespace Glob
variable {α : Type}

/-- The words of a pattern. -/
inductive Matches : List (Glob α) → List α → Prop where
  | nil : Matches [] []
  | lit {a : α} {pattern : List (Glob α)} {word : List α} (rest : Matches pattern word) :
      Matches (.lit a :: pattern) (a :: word)
  | one {a : α} {pattern : List (Glob α)} {word : List α} (rest : Matches pattern word) :
      Matches (.one :: pattern) (a :: word)
  | many {skipped : List α} {pattern : List (Glob α)} {word : List α}
      (rest : Matches pattern word) : Matches (.many :: pattern) (skipped ++ word)

theorem matches_nil {word : List α} : Matches [] word ↔ word = [] := by
  constructor
  · rintro ⟨⟩
    rfl
  · rintro rfl
    exact .nil

theorem matches_lit {a : α} {pattern : List (Glob α)} {word : List α} :
    Matches (.lit a :: pattern) word ↔ ∃ rest, word = a :: rest ∧ Matches pattern rest := by
  constructor
  · intro h
    cases h with
    | lit rest => exact ⟨_, rfl, rest⟩
  · rintro ⟨rest, rfl, h⟩
    exact .lit h

theorem matches_one {pattern : List (Glob α)} {word : List α} :
    Matches (.one :: pattern) word ↔ ∃ a rest, word = a :: rest ∧ Matches pattern rest := by
  constructor
  · intro h
    cases h with
    | one rest => exact ⟨_, _, rfl, rest⟩
  · rintro ⟨a, rest, rfl, h⟩
    exact .one h

theorem matches_many {pattern : List (Glob α)} {word : List α} :
    Matches (.many :: pattern) word ↔ ∃ rest, rest <:+ word ∧ Matches pattern rest := by
  constructor
  · intro h
    cases h with
    | many rest => exact ⟨_, List.suffix_append _ _, rest⟩
  · rintro ⟨rest, ⟨skipped, rfl⟩, h⟩
    exact .many h

/-- A word of letters matches itself and then what the rest of the pattern does. -/
theorem matches_lits {letters : List α} {pattern : List (Glob α)} {word : List α} :
    Matches (letters.map .lit ++ pattern) word ↔
      ∃ rest, word = letters ++ rest ∧ Matches pattern rest := by
  induction letters generalizing word with
  | nil => simp
  | cons a letters ih =>
      simp only [List.map_cons, List.cons_append, matches_lit, ih]
      constructor
      · rintro ⟨_, rfl, rest, rfl, h⟩
        exact ⟨rest, rfl, h⟩
      · rintro ⟨rest, rfl, h⟩
        exact ⟨_, rfl, rest, rfl, h⟩

/-- Between two wildcards a word of letters matches wherever it occurs. -/
theorem matches_infix {letters word : List α} :
    Matches (.many :: (letters.map .lit ++ [.many])) word ↔ letters <:+: word := by
  have all (rest : List α) : Matches [.many] rest :=
    matches_many.mpr ⟨[], List.nil_suffix, .nil⟩
  rw [matches_many]
  constructor
  · rintro ⟨rest, ⟨skipped, rfl⟩, h⟩
    obtain ⟨tail, rfl, -⟩ := matches_lits.mp h
    exact ⟨skipped, tail, List.append_assoc ..⟩
  · rintro ⟨skipped, tail, rfl⟩
    refine ⟨letters ++ tail, ⟨skipped, (List.append_assoc ..).symm⟩, ?_⟩
    exact matches_lits.mpr ⟨tail, rfl, all tail⟩

end Glob
