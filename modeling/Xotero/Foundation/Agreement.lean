import Xotero.Foundation.Table

/-!
Rows entered into a table one after the other, unless one contradicts another under
its key. Whether that succeeds, and what it comes to, does not depend on the order of
the rows or on how often each is entered. `insertNew` inserts a row unless its key is
taken.
-/

namespace Table
variable {κ ρ : Type}

/-- No row contradicts another. -/
def Consistent (es : List (κ × ρ)) : Prop := ∀ e ∈ es, ∀ e' ∈ es, e.1 = e'.1 → e.2 = e'.2

/-- What a row and the rows after it agree on. -/
theorem consistent_cons {e : κ × ρ} {es : List (κ × ρ)} : Consistent (e :: es) ↔
    Consistent es ∧ ∀ e' ∈ es, e'.1 = e.1 → e'.2 = e.2 := by
  constructor
  · intro all
    exact ⟨fun a ha b hb => all a (List.mem_cons_of_mem e ha) b (List.mem_cons_of_mem e hb),
      fun a ha => all a (List.mem_cons_of_mem e ha) e List.mem_cons_self⟩
  · rintro ⟨rest, first⟩ a ha b hb same
    rcases List.mem_cons.mp ha with atHead | ha <;> rcases List.mem_cons.mp hb with bHead | hb
    · rw [atHead, bHead]
    · rw [atHead] at same ⊢
      exact (first b hb same.symm).symm
    · rw [bHead] at same ⊢
      exact first a ha same
    · exact rest a ha b hb same

variable [DecidableEq κ] [DecidableEq ρ]

/-- Enter a row, unless there is another under its key. -/
def enter (t : Table κ ρ) (e : κ × ρ) : Option (Table κ ρ) :=
  if (t.find? e.1).any (· ≠ e.2) then none else some (t.put e.1 e.2)

/-- No row contradicts the table. -/
def Extends (t : Table κ ρ) (es : List (κ × ρ)) : Prop :=
  ∀ e ∈ es, ∀ r, t.find? e.1 = some r → r = e.2

variable {t t' : Table κ ρ} {e : κ × ρ} {es : List (κ × ρ)}

theorem enter_eq_some : t.enter e = some t' ↔
    (∀ r, t.find? e.1 = some r → r = e.2) ∧ t' = t.put e.1 e.2 := by
  unfold enter
  rcases Option.eq_none_or_eq_some (t.find? e.1) with absent | ⟨r, found⟩
  · simp [absent, eq_comm]
  · by_cases same : r = e.2 <;> simp [found, same, eq_comm]

/-- All rows are in the table that they are entered in, and what was there before. -/
theorem find?_of_entered (h : es.foldlM enter t = some t') (k : κ) (r : ρ) :
    t'.find? k = some r ↔ (k, r) ∈ es ∨ t.find? k = some r := by
  induction es generalizing t with
  | nil =>
      obtain rfl := Option.some.inj h
      simp
  | cons e es ih =>
      rw [List.foldlM_cons] at h
      obtain ⟨u, entered, rest⟩ := Option.bind_eq_some_iff.mp h
      obtain ⟨free, rfl⟩ := enter_eq_some.mp entered
      rw [ih rest, find?_put, List.mem_cons, Prod.ext_iff]
      by_cases here : k = e.1
      · subst here
        rw [if_pos rfl, Option.some.injEq]
        have same : t.find? e.1 = some r → r = e.2 := free r
        simp only [true_and, eq_comm (a := e.2)]
        tauto
      · rw [if_neg here]
        simp [here]

omit [DecidableEq ρ] in
theorem extends_put (free : ∀ r, t.find? e.1 = some r → r = e.2) :
    (t.put e.1 e.2).Extends es ↔ t.Extends es ∧ ∀ e' ∈ es, e'.1 = e.1 → e'.2 = e.2 := by
  simp only [Extends, find?_put]
  constructor
  · intro all
    refine ⟨fun a ha r found => ?_, fun a ha same => ?_⟩
    · by_cases here : a.1 = e.1
      · have value := all a ha e.2 (if_pos here)
        rw [← value]
        exact free r (here ▸ found)
      · exact all a ha r ((if_neg here).trans found)
    · exact (all a ha e.2 (if_pos same)).symm
  · rintro ⟨before, first⟩ a ha r found
    split at found
    · rename_i here
      exact (Option.some.inj found).symm.trans (first a ha here).symm
    · exact before a ha r found

/-- Rows are entered unless they contradict each other or the table. -/
theorem isSome_entered (es : List (κ × ρ)) (t : Table κ ρ) :
    (es.foldlM enter t).isSome ↔ Consistent es ∧ t.Extends es := by
  induction es generalizing t with
  | nil => simp [Consistent, Extends]
  | cons e es ih =>
      rw [List.foldlM_cons, consistent_cons]
      by_cases free : ∀ r, t.find? e.1 = some r → r = e.2
      · rw [enter_eq_some.mpr ⟨free, rfl⟩]
        have all : t.Extends (e :: es) ↔ t.Extends es :=
          ⟨fun h a ha => h a (List.mem_cons_of_mem e ha),
            fun h => List.forall_mem_cons.mpr ⟨free, h⟩⟩
        refine (ih (t.put e.1 e.2)).trans ?_
        rw [extends_put free, all]
        tauto
      · have stopped : t.enter e = none := by
          refine Option.eq_none_iff_forall_ne_some.mpr fun u entered => free ?_
          exact (enter_eq_some.mp entered).1
        rw [stopped]
        exact ⟨fun done => absurd done (by simp),
          fun all => absurd (all.2 e List.mem_cons_self) free⟩

section
omit [DecidableEq ρ]
variable {k k' : κ} {r r' : ρ}

/-- `insert … on conflict (k) do nothing` -/
def insertNew (t : Table κ ρ) (k : κ) (r : ρ) : Table κ ρ :=
  if (t.find? k).isSome then t else t.put k r

theorem insertNew_of_some (found : t.find? k = some r') : t.insertNew k r = t := by
  rw [insertNew, found]
  rfl

theorem insertNew_of_none (absent : t.find? k = none) : t.insertNew k r = t.put k r := by
  rw [insertNew, absent]
  rfl

theorem find?_insertNew_self : (t.insertNew k r).find? k = some ((t.find? k).getD r) := by
  cases found : t.find? k with
  | none => rw [insertNew_of_none found, find?_put_self, Option.getD_none]
  | some r' => rw [insertNew_of_some found, found, Option.getD_some]

/-- No row is changed. -/
theorem find?_insertNew (found : t.find? k' = some r') :
    (t.insertNew k r).find? k' = some r' := by
  cases taken : t.find? k with
  | none =>
      have other : k' ≠ k := by
        rintro rfl
        rw [taken] at found
        cases found
      rw [insertNew_of_none taken, find?_put_ne t r other, found]
  | some r'' => rw [insertNew_of_some taken, found]

theorem isSome_insertNew (found : (t.find? k').isSome) :
    ((t.insertNew k r).find? k').isSome := by
  obtain ⟨r', found⟩ := Option.isSome_iff_exists.mp found
  rw [find?_insertNew found]
  rfl

theorem forall_insertNew {P : κ × ρ → Prop} (h : ∀ e ∈ t.rows, P e)
    (new : t.find? k = none → P (k, r)) : ∀ e ∈ (t.insertNew k r).rows, P e := by
  cases taken : t.find? k with
  | none =>
      rw [insertNew_of_none taken]
      exact forall_put h (new taken)
  | some r' =>
      rw [insertNew_of_some taken]
      exact h

end

end Table
