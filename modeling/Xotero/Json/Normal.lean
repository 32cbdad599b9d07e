import Mathlib.Data.List.Nodup
import Xotero.Json.Jsonb

/-!
The form a value takes when it is stored is stable: names in order, each once.
-/

namespace Xotero

theorem nameBefore_trans {m n k : String} (h : nameBefore m n = true)
    (h' : nameBefore n k = true) : nameBefore m k = true := by
  simp only [nameBefore, Bool.or_eq_true, Bool.and_eq_true, decide_eq_true_eq] at *
  rcases h with shorter | ⟨same, before⟩
  · rcases h' with shorter' | ⟨same', -⟩ <;> exact .inl (by omega)
  · rcases h' with shorter' | ⟨same', before'⟩
    · exact .inl (by omega)
    · exact .inr ⟨by omega, String.lt_trans before before'⟩

theorem nameBefore_irrefl (n : String) : nameBefore n n = false := by
  simp [nameBefore]

theorem nameBefore_total {m n : String} (ne : m ≠ n) (h : nameBefore m n = false) :
    nameBefore n m = true := by
  simp only [nameBefore, Bool.or_eq_false_iff, Bool.and_eq_false_imp, decide_eq_false_iff_not,
    decide_eq_true_eq] at h
  simp only [nameBefore, Bool.or_eq_true, Bool.and_eq_true, decide_eq_true_eq]
  by_cases same : m.utf8ByteSize = n.utf8ByteSize
  · refine .inr ⟨same.symm, ?_⟩
    by_contra other
    exact ne (String.le_antisymm (String.not_lt.mp other) (String.not_lt.mp (h.2 same)))
  · exact .inl (by omega)

namespace Members

/-- The names are in jsonb's order, each once. -/
def Sorted (ms : Members) : Prop := ms.Pairwise fun m m' => nameBefore m.1 m'.1 = true

theorem mem_place {name : String} {value : Value} {ms : Members} {m : String × Value}
    (h : m ∈ ms.place name value) : m = (name, value) ∨ m ∈ ms := by
  induction ms with
  | nil => exact .inl (List.mem_singleton.mp h)
  | cons m' ms ih =>
      obtain ⟨n, v⟩ := m'
      rw [place] at h
      split at h
      · rcases List.mem_cons.mp h with rfl | rest
        · exact .inl rfl
        · exact .inr (List.mem_cons_of_mem _ rest)
      · split at h
        · rcases List.mem_cons.mp h with rfl | rest
          · exact .inl rfl
          · exact .inr rest
        · rcases List.mem_cons.mp h with rfl | rest
          · exact .inr (by simp)
          · exact (ih rest).imp_right (List.mem_cons_of_mem _)

theorem Sorted.place {ms : Members} (h : ms.Sorted) (name : String) (value : Value) :
    (ms.place name value).Sorted := by
  induction ms with
  | nil => exact List.pairwise_singleton _ _
  | cons m ms ih =>
      obtain ⟨n, v⟩ := m
      obtain ⟨first, rest⟩ := List.pairwise_cons.mp h
      rw [Members.place]
      split
      · rename_i same
        subst same
        exact List.pairwise_cons.mpr ⟨first, rest⟩
      · rename_i ne
        split
        · rename_i before
          refine List.pairwise_cons.mpr ⟨fun m hm => ?_, h⟩
          rcases List.mem_cons.mp hm with rfl | later
          · exact before
          · exact nameBefore_trans before (first m later)
        · rename_i after
          refine List.pairwise_cons.mpr ⟨fun m hm => ?_, ih rest⟩
          rcases mem_place hm with rfl | old
          · exact nameBefore_total (Ne.symm ne) (by simpa using after)
          · exact first m old

theorem place_first {name : String} {value : Value} {ms : Members}
    (first : ∀ m ∈ ms, nameBefore name m.1 = true) : ms.place name value = (name, value) :: ms := by
  cases ms with
  | nil => rfl
  | cons m ms =>
      have before := first m (by simp)
      have ne : m.1 ≠ name := by
        intro same
        rw [same, nameBefore_irrefl] at before
        cases before
      simp only [place, if_neg ne, if_pos before]

theorem Sorted.once {ms : Members} (h : ms.Sorted) : ms.Once := by
  refine List.Pairwise.map _ (fun m m' before same => ?_) h
  rw [same, nameBefore_irrefl] at before
  cases before

/-- Members in order are known by what they hold. -/
theorem Sorted.ext {ms ms' : Members} (h : ms.Sorted) (h' : ms'.Sorted)
    (get : ∀ name, ms.get name = ms'.get name) : ms = ms' := by
  have perm : ms.Perm ms' := by
    refine (List.perm_ext_iff_of_nodup (List.Nodup.of_map Prod.fst h.once)
      (List.Nodup.of_map Prod.fst h'.once)).mpr ?_
    rintro ⟨name, v⟩
    rw [← h.once.get_eq_some, ← h'.once.get_eq_some, get]
  refine perm.eq_of_pairwise (fun m m' _ _ before after => ?_) h h'
  have never := nameBefore_trans before after
  rw [nameBefore_irrefl] at never
  cases never

end Members

namespace Value

theorem sorted_toJsonbMembers (ms : Members) : Members.Sorted (toJsonbMembers ms) := by
  induction ms with
  | nil => exact .nil
  | cons m ms ih => exact ih.place m.1 m.2.toJsonb

theorem toJsonbMembers_of_sorted {ms : Members} (sorted : ms.Sorted)
    (values : ∀ m ∈ ms, m.2.toJsonb = m.2) : toJsonbMembers ms = ms := by
  induction ms with
  | nil => rfl
  | cons m ms ih =>
      obtain ⟨n, v⟩ := m
      obtain ⟨first, rest⟩ := List.pairwise_cons.mp sorted
      have value : v.toJsonb = v := values (n, v) (by simp)
      rw [toJsonbMembers, ih rest fun m hm => values m (List.mem_cons_of_mem _ hm), value]
      exact Members.place_first first

mutual

@[simp] theorem toJsonb_toJsonb : ∀ v : Value, v.toJsonb.toJsonb = v.toJsonb
  | .array vs => congrArg Value.array (toJsonbAll_toJsonbAll vs)
  | .object ms => congrArg Value.object
      (toJsonbMembers_of_sorted (sorted_toJsonbMembers ms) (stable_toJsonbMembers ms))
  | .null | .bool _ | .number _ | .string _ => rfl

theorem toJsonbAll_toJsonbAll : ∀ vs : List Value, toJsonbAll (toJsonbAll vs) = toJsonbAll vs
  | [] => rfl
  | v :: vs => congrArg₂ List.cons (toJsonb_toJsonb v) (toJsonbAll_toJsonbAll vs)

theorem stable_toJsonbMembers : ∀ ms : Members, ∀ m ∈ toJsonbMembers ms, m.2.toJsonb = m.2
  | [], m, h => nomatch h
  | (n, v) :: ms, m, h => by
      rcases Members.mem_place h with rfl | old
      · exact toJsonb_toJsonb v
      · exact stable_toJsonbMembers ms m old

end

/-- The value is in the form in which jsonb stores it. -/
def Stored (v : Value) : Prop := v.toJsonb = v

theorem stored_toJsonb (v : Value) : v.toJsonb.Stored := toJsonb_toJsonb v

theorem stored_object {ms : Members} : (Value.object ms).Stored ↔
    ms.Sorted ∧ ∀ m ∈ ms, m.2.Stored := by
  constructor
  · intro h
    have same : toJsonbMembers ms = ms := Value.object.inj h
    exact ⟨same ▸ sorted_toJsonbMembers ms, same ▸ stable_toJsonbMembers ms⟩
  · rintro ⟨sorted, values⟩
    exact congrArg Value.object (toJsonbMembers_of_sorted sorted values)

theorem stored_array {vs : List Value} : (Value.array vs).Stored ↔ ∀ v ∈ vs, v.Stored := by
  have all (vs : List Value) : toJsonbAll vs = vs ↔ ∀ v ∈ vs, v.Stored := by
    induction vs with
    | nil => simp [toJsonbAll]
    | cons v vs ih => simp [toJsonbAll, ih, Stored]
  rw [← all, Stored, toJsonb, Value.array.injEq]

theorem Stored.place {ms : Members} (h : (Value.object ms).Stored) {name : String} {value : Value}
    (stored : value.Stored) : (Value.object (ms.place name value)).Stored := by
  obtain ⟨sorted, values⟩ := stored_object.mp h
  refine stored_object.mpr ⟨sorted.place name value, fun m hm => ?_⟩
  rcases Members.mem_place hm with rfl | old
  · exact stored
  · exact values m old

/-- `||` of stored objects is stored. -/
theorem Stored.concat {ms ms' : Members} (h : (Value.object ms).Stored)
    (h' : ∀ m ∈ ms', m.2.Stored) : ((Value.object ms).concat (.object ms')).Stored := by
  rw [Value.concat]
  induction ms' with
  | nil => exact h
  | cons m ms' ih =>
      exact (ih fun m hm => h' m (List.mem_cons_of_mem _ hm)).place (h' m (by simp))

/-- The same JSON value, however the members of its objects are ordered. -/
def Equals (v w : Value) : Prop := v.toJsonb = w.toJsonb

theorem equals_object {ms ms' : Members}
    (h : ∀ name, (ms.get name).map toJsonb = (ms'.get name).map toJsonb) :
    (Value.object ms).Equals (.object ms') := by
  refine congrArg Value.object ((sorted_toJsonbMembers ms).ext (sorted_toJsonbMembers ms') ?_)
  intro name
  rw [get_toJsonbMembers, get_toJsonbMembers, h]

end Value

end Xotero
