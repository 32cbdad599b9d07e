import Mathlib.Data.List.Basic

/-!
The three truth values of SQL, with the comparisons of a value that may be null
with the elements of an array. A query selects a row whose condition is true, and
neither one whose condition is false nor one for which it is unknown.
-/

/-- `none` is unknown. -/
abbrev Ternary := Option Bool

namespace Ternary
variable {α : Type}

protected def and : Ternary → Ternary → Ternary
  | some false, _ => some false
  | some true, t => t
  | none, some false => some false
  | none, _ => none

protected def or : Ternary → Ternary → Ternary
  | some true, _ => some true
  | some false, t => t
  | none, some true => some true
  | none, _ => none

protected def not (t : Ternary) : Ternary := t.map Bool.not

/-- The condition selects its row. -/
def Holds (t : Ternary) : Prop := t = some true

instance (t : Ternary) : Decidable t.Holds := inferInstanceAs (Decidable (t = some true))

/-- `a = b` -/
def eq [DecidableEq α] (a : Option α) (b : α) : Ternary := a.map fun a => decide (a = b)

/-- `a = any(bs)` -/
def eqAny [DecidableEq α] (a : Option α) (bs : List α) : Ternary :=
  bs.foldr (fun b t => (eq a b).or t) (some false)

/-- `a <> all(bs)` -/
def neAll [DecidableEq α] (a : Option α) (bs : List α) : Ternary :=
  bs.foldr (fun b t => (eq a b).not.and t) (some true)

theorem holds_and {t u : Ternary} : (t.and u).Holds ↔ t.Holds ∧ u.Holds := by
  unfold Holds
  rcases t with _ | (_ | _) <;> rcases u with _ | (_ | _) <;> simp [Ternary.and]

section Arrays
variable [DecidableEq α]

theorem eqAny_some (a : α) (bs : List α) : eqAny (some a) bs = some (decide (a ∈ bs)) := by
  induction bs with
  | nil => rfl
  | cons b bs ih =>
      rw [eqAny, List.foldr_cons]
      refine (congrArg _ ih).trans ?_
      by_cases same : a = b <;> simp [eq, same, Ternary.or]

theorem neAll_some (a : α) (bs : List α) : neAll (some a) bs = some (decide (a ∉ bs)) := by
  induction bs with
  | nil => rfl
  | cons b bs ih =>
      rw [neAll, List.foldr_cons]
      refine (congrArg _ ih).trans ?_
      by_cases same : a = b <;> simp [eq, same, Ternary.and, Ternary.not]

/-- Of a null nothing is known, unless there is nothing to compare it with. -/
theorem eqAny_none (bs : List α) : eqAny none bs = if bs = [] then some false else none := by
  induction bs with
  | nil => rfl
  | cons b bs ih =>
      rw [eqAny, List.foldr_cons]
      refine (congrArg _ ih).trans ?_
      by_cases last : bs = [] <;> simp [eq, last, Ternary.or]

theorem neAll_none (bs : List α) : neAll none bs = if bs = [] then some true else none := by
  induction bs with
  | nil => rfl
  | cons b bs ih =>
      rw [neAll, List.foldr_cons]
      refine (congrArg _ ih).trans ?_
      by_cases last : bs = [] <;> simp [eq, last, Ternary.and, Ternary.not]

theorem holds_eqAny {a : Option α} {bs : List α} : (eqAny a bs).Holds ↔ ∃ b ∈ bs, a = some b := by
  cases a with
  | none => by_cases empty : bs = [] <;> simp [eqAny_none, empty, Holds]
  | some a => simp [eqAny_some, Holds]

/-- A null is different from all of none only. -/
theorem holds_neAll {a : Option α} {bs : List α} :
    (neAll a bs).Holds ↔ bs = [] ∨ ∃ b, a = some b ∧ b ∉ bs := by
  cases a with
  | none => by_cases empty : bs = [] <;> simp [neAll_none, empty, Holds]
  | some a =>
      simp only [neAll_some, Holds, Option.some.injEq, decide_eq_true_eq, exists_eq_left']
      exact ⟨.inr, fun h => h.elim (fun empty => by simp [empty]) id⟩

end Arrays

end Ternary
