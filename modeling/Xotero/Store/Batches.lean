import Xotero.Json.Normal
import Xotero.Store.Server

/-!
A batch of objects entry by entry: what each entry merges into the library, and
what the report of a committed write says of it.
-/

namespace Xotero

/-! ### The fields of a value -/

namespace Value

/-- The fields an entry supplies, each once. -/
def fields : Value → Members
  | .object ms => ms.foldl (fun base field => Members.insert field.1 field.2 base) []
  | _ => []

/-- The same value, up to the order of its members. -/
inductive FieldsAgree : Value → Value → Prop where
  | same (v : Value) : FieldsAgree v v
  | object {ms ms' : Members} (get : ∀ name, ms.get name = ms'.get name) :
      FieldsAgree (.object ms) (.object ms')

end Value

theorem get_overlaid (fields base : Members) (name : String) :
    Members.get (fields.foldl (fun base field => Members.insert field.1 field.2 base) base) name =
      ((Value.object fields).fields.get name).or (base.get name) := by
  induction fields generalizing base with
  | nil => rfl
  | cons m fields ih =>
      have first : (Value.object (m :: fields)).fields.get name =
          ((Value.object fields).fields.get name).or (Members.get [(m.1, m.2)] name) := ih _
      rw [List.foldl_cons, ih, first, Members.get_insert, Option.or_assoc]
      by_cases same : m.1 = name <;> simp [same, Members.get]

theorem isSome_fields (v : Value) (name : String) :
    (v.fields.get name).isSome = (v.get name).isSome := by
  cases v with
  | object fields =>
      induction fields with
      | nil => rfl
      | cons m fields ih =>
          have first : (Value.object (m :: fields)).fields.get name =
              ((Value.object fields).fields.get name).or (Members.get [(m.1, m.2)] name) :=
            get_overlaid fields _ name
          rw [first, Option.isSome_or, ih]
          by_cases same : m.1 = name <;> simp [same, Members.get]
  | _ => rfl

theorem get_overlay_object (base fields : Members) (name : String) :
    (overlay (some (.object base)) (.object fields)).get name =
      ((Value.object fields).fields.get name).or (base.get name) :=
  get_overlaid fields base name

theorem get_stampObject_of_ne {key name : String} {n : Int} (v : Value)
    (ne : name ≠ "key" ∧ name ≠ "version") : (stampObject key n v).get name = v.get name := by
  cases v with
  | object ms => simp [get_stampObject key n _ rfl, ne]
  | _ => rfl

theorem isSome_toJsonb (v : Value) (name : String) :
    (v.toJsonb.get name).isSome = (v.get name).isSome := by
  rw [Value.get_toJsonb, Option.isSome_map]

namespace Value.FieldsAgree
variable {v w : Value}

theorem get (h : FieldsAgree v w) (name : String) : v.get name = w.get name := by
  cases h with
  | same => rfl
  | object get => exact get name

theorem toJsonb (h : FieldsAgree v w) : FieldsAgree v.toJsonb w.toJsonb := by
  cases h with
  | same v => exact .same _
  | object get =>
      refine .object fun name => ?_
      rw [get_toJsonbMembers, get_toJsonbMembers, get]

theorem orderFields (h : FieldsAgree v w) :
    FieldsAgree (Xotero.orderFields v) (Xotero.orderFields w) := by
  have object (ms : Members) : ∃ ms', Xotero.orderFields (.object ms) = .object ms' := by
    simp only [Xotero.orderFields]
    split <;> exact ⟨_, rfl⟩
  cases h with
  | same v => exact .same _
  | @object ms ms' get =>
      have first (name : String) := orderFields_get (.object ms) name
      have second (name : String) := orderFields_get (.object ms') name
      obtain ⟨shown, same⟩ := object ms
      obtain ⟨shown', same'⟩ := object ms'
      rw [same] at first ⊢
      rw [same'] at second ⊢
      exact .object fun name => (first name).trans ((get name).trans (second name).symm)

theorem stampObject (h : FieldsAgree v w) (key : String) (n : Int) :
    FieldsAgree (Xotero.stampObject key n v) (Xotero.stampObject key n w) := by
  cases h with
  | same v => exact .same _
  | object get =>
      refine .object fun name => ?_
      simp only [Members.get_insert, get]

/-- What an object entry makes of two such objects. -/
theorem overlay {provided : Value} (h : FieldsAgree v w) :
    FieldsAgree (Xotero.overlay (some v) provided) (Xotero.overlay (some w) provided) := by
  cases h with
  | same v => exact .same _
  | object get =>
      cases provided with
      | object fields =>
          refine .object fun name => ?_
          rw [get_overlaid, get_overlaid, get]
      | _ => exact .same _

end Value.FieldsAgree

/-! ### A batch, entry by entry -/

/-- The entries of a batch, each with the key it is stored under. -/
def keyed (random : Nat → Fin 8 → UInt8) : Nat → List Value → List (String × Value)
  | _, [] => []
  | index, provided :: batch =>
      (providedKey provided (random index), provided) :: keyed random (index + 1) batch

namespace Database

def stored (d : Database) (L : LibraryId) (kind : ObjectKind) (key : String) : Option Value :=
  (d.object.find? (L, kind, key)).map Object.data

def storeAll (L : LibraryId) (n : Int) (kind : ObjectKind) (d : Database)
    (es : List (String × Value)) : Database :=
  d.edits L n (es.map fun e => .store kind e.1 e.2)

end Database

theorem length_keyed (random : Nat → Fin 8 → UInt8) (index : Nat) (batch : List Value) :
    (keyed random index batch).length = batch.length := by
  induction batch generalizing index with
  | nil => rfl
  | cons provided batch ih => simp [keyed, ih]

theorem getElem?_keyed (random : Nat → Fin 8 → UInt8) (index i : Nat) (batch : List Value) :
    (keyed random index batch)[i]? = batch[i]?.map fun provided =>
      (providedKey provided (random (index + i)), provided) := by
  induction batch generalizing index i with
  | nil => rfl
  | cons provided batch ih =>
      cases i with
      | zero => rfl
      | succ i => simpa [keyed, Nat.add_assoc, Nat.add_comm 1] using ih (index + 1) i

theorem mem_of_keyed {random : Nat → Fin 8 → UInt8} {index : Nat} {batch : List Value}
    {e : String × Value} (mem : e ∈ keyed random index batch) : e.2 ∈ batch := by
  obtain ⟨i, entry⟩ := List.mem_iff_getElem?.mp mem
  rw [getElem?_keyed] at entry
  obtain ⟨provided, here, rfl⟩ := Option.map_eq_some_iff.mp entry
  exact List.mem_of_getElem? here

theorem storeEdits_eq (kind : ObjectKind) (random : Nat → Fin 8 → UInt8) (index : Nat)
    (batch : List Value) :
    storeEdits kind random index batch =
      (keyed random index batch).map fun e => .store kind e.1 e.2 := by
  induction batch generalizing index with
  | nil => rfl
  | cons provided batch ih => rw [storeEdits, keyed, ih, List.map_cons]

section Stored
variable {L : LibraryId} {kind : ObjectKind} {n : Int} {d : Database} {key : String}
  {es : List (String × Value)}

@[simp] theorem stored_setVersion (n : Int) (key : String) :
    (d.setVersion L n).stored L kind key = d.stored L kind key := by
  simp [Database.stored]

theorem edit_stored (key' : String) (provided : Value) :
    (Database.edit L n d (.store kind key' provided)).stored L kind key =
      if key' = key then some (d.merged L n kind key provided).toJsonb
      else d.stored L kind key := by
  simp only [Database.stored, Database.edit, Table.find?_put]
  by_cases same : key' = key
  · subst same
    simp
  · simp [same, Ne.symm same]

theorem storeAll_cons (e : String × Value) :
    d.storeAll L n kind (e :: es) =
      (Database.edit L n d (.store kind e.1 e.2)).storeAll L n kind es := rfl

theorem storeAll_append (es es' : List (String × Value)) :
    d.storeAll L n kind (es ++ es') = (d.storeAll L n kind es).storeAll L n kind es' := by
  simp [Database.storeAll, Database.edits, List.foldl_map]

/-- A batch stores objects of its kind in its library, under its keys. -/
theorem find?_storeAll_object (k : LibraryId × ObjectKind × String)
    (apart : ∀ e ∈ es, (L, kind, e.1) ≠ k) :
    (d.storeAll L n kind es).object.find? k = d.object.find? k := by
  induction es generalizing d with
  | nil => rfl
  | cons e es ih =>
      rw [storeAll_cons, ih fun e mem => apart e (List.mem_cons_of_mem _ mem)]
      exact Table.find?_put_ne _ _ (apart e (by simp)).symm

theorem stored_storeAll (apart : ∀ e ∈ es, e.1 ≠ key) :
    (d.storeAll L n kind es).stored L kind key = d.stored L kind key := by
  rw [Database.stored, find?_storeAll_object _ fun e mem same => ?_, Database.stored]
  simp only [Prod.mk.injEq] at same
  exact apart e mem same.2.2

theorem version_storeAll {o : Object} (named : ∃ e ∈ es, e.1 = key)
    (found : (d.storeAll L n kind es).object.find? (L, kind, key) = some o) : o.version = n := by
  induction es generalizing d with
  | nil => exact absurd named (by simp)
  | cons e es ih =>
      rw [storeAll_cons] at found
      by_cases later : ∃ e' ∈ es, e'.1 = key
      · exact ih later found
      · obtain ⟨e', mem, rfl⟩ := named
        rcases List.mem_cons.mp mem with rfl | mem
        · rw [find?_storeAll_object _ fun e'' mem' same => later ⟨e'', mem', by simpa using same⟩,
            Database.edit, Table.find?_put_self] at found
          exact (congrArg Object.version (Option.some.inj found)).symm
        · exact absurd ⟨e', mem, rfl⟩ later

/-- It removes their tombstones, and no others. -/
theorem find?_storeAll_deletion (k : LibraryId × DeletionKind × String) :
    (d.storeAll L n kind es).deletion.find? k =
      if ∃ e ∈ es, (L, DeletionKind.object kind, e.1) = k then none else d.deletion.find? k := by
  induction es generalizing d with
  | nil => simp [Database.storeAll, Database.edits]
  | cons e es ih =>
      rw [storeAll_cons, ih]
      by_cases later : ∃ e ∈ es, (L, DeletionKind.object kind, e.1) = k
      · have any : ∃ e' ∈ e :: es, (L, DeletionKind.object kind, e'.1) = k :=
          later.imp fun e h => ⟨List.mem_cons_of_mem _ h.1, h.2⟩
        rw [if_pos later, if_pos any]
      · rw [if_neg later, Database.edit, Table.find?_erase]
        by_cases here : k = (L, DeletionKind.object kind, e.1)
        · rw [if_pos here, if_pos ⟨e, by simp, here.symm⟩]
        · rw [if_neg here, if_neg]
          rintro ⟨e', mem, same⟩
          rcases List.mem_cons.mp mem with rfl | mem
          · exact here same.symm
          · exact later ⟨e', mem, same⟩

/-- The object returned for an entry is the one stored for its key. -/
theorem merged_stored {index : Nat} {provided : Value}
    (entry : es[index]? = some (key, provided)) :
    (d.storeAll L n kind (es.take (index + 1))).stored L kind key =
      some ((d.storeAll L n kind (es.take index)).merged L n kind key provided).toJsonb := by
  have last : d.storeAll L n kind (es.take (index + 1)) = Database.edit L n
      (d.storeAll L n kind (es.take index)) (.store kind key provided) := by
    rw [List.take_add_one, entry, Option.toList_some]
    simp [Database.storeAll, Database.edits]
  rw [last, edit_stored, if_pos rfl]

/-- What the last entry for a key makes of it stays. -/
theorem last_stored {index : Nat} {provided : Value}
    (entry : es[index]? = some (key, provided)) (last : ∀ e ∈ es.drop (index + 1), e.1 ≠ key) :
    (d.storeAll L n kind es).stored L kind key =
      some ((d.storeAll L n kind (es.take index)).merged L n kind key provided).toJsonb := by
  have split : d.storeAll L n kind es =
      (d.storeAll L n kind (es.take (index + 1))).storeAll L n kind (es.drop (index + 1)) := by
    rw [← storeAll_append, List.take_append_drop]
  rw [split, stored_storeAll last, merged_stored entry]

end Stored

/-! ### The response -/

/-- The `data` that a response returns for an entry of the batch. -/
def Reply.data : Reply → Nat → Option Value
  | .object (.done (_, successful)), index =>
      (successful.get (toString index)).bind fun object => object.get "data"
  | _, _ => none

section Response
variable {L : LibraryId} {kind : ObjectKind} {n : Int} {d d' : Database}

theorem get_data (key : String) (n : Int) (object : Value) :
    (objectJson key n object).get "data" = some (orderFields object) := by
  simp [objectJson, Members.get]

theorem toString_injective {m n : Nat} (h : toString m = toString n) : m = n := by
  have digits : Nat.toDigits 10 m = Nat.toDigits 10 n := by
    rw [← Nat.toList_repr, ← Nat.toList_repr]
    exact congrArg String.toList h
  rw [← Nat.ofDigitChars_toDigits (b := 10) (n := m) (by omega) (by omega), digits,
    Nat.ofDigitChars_toDigits (by omega) (by omega)]

/-- The report of the loop of `write` has the object of each entry, under its
index, beside what was there before. -/
theorem writeFrom_report {allow : Bool} {random : Nat → Fin 8 → UInt8} {index : Nat}
    {batch : List Value} {successful : Members} {m : Int} {report : Value}
    (h : (writeFrom L kind allow random n index batch successful).run d =
      some (d', .commit (.done (m, report)))) :
    (∀ label, (∀ i < batch.length, label ≠ toString (index + i)) →
      report.get label = Members.get successful label) ∧
    ∀ i key provided, (keyed random index batch)[i]? = some (key, provided) →
      report.get (toString (index + i)) = some (objectJson key n
        ((d.storeAll L n kind ((keyed random index batch).take i)).merged L n kind key
          provided)) := by
  induction batch generalizing index successful d with
  | nil =>
      obtain ⟨rfl, same⟩ := ret_run h
      cases same
      exact ⟨fun label _ => rfl, fun i key provided entry => nomatch entry⟩
  | cons provided batch ih =>
      obtain ⟨d₁, stored, first, rest⟩ := Txn.run_bind_eq_some h
      cases stored with
      | none => obtain ⟨-, ⟨⟩⟩ := ret_run rest
      | some object =>
          obtain ⟨rfl, rfl⟩ := writeObject_run first
          obtain ⟨other, later⟩ := ih rest
          constructor
          · intro label fresh
            have here : toString index ≠ label := (fresh 0 (by simp)).symm
            rw [other label fun i bound => ?_, Members.get_insert, if_neg here]
            rw [Nat.add_assoc, Nat.add_comm 1]
            exact fresh (i + 1) (by simpa using bound)
          · intro i key p entry
            cases i with
            | zero =>
                obtain ⟨rfl, rfl⟩ : providedKey provided (random index) = key ∧ provided = p := by
                  simpa [keyed] using entry
                rw [Nat.add_zero, other _ fun i _ same => ?_, Members.get_insert, if_pos rfl]
                · rfl
                · have := toString_injective same
                  omega
            | succ i =>
                have := later i key p (by simpa [keyed] using entry)
                rw [Nat.add_assoc, Nat.add_comm 1] at this
                exact this

/-- The report names the index of each entry, in order, after what was there
before. -/
theorem writeFrom_names {allow : Bool} {random : Nat → Fin 8 → UInt8} {index : Nat}
    {batch : List Value} {successful : Members} {m : Int} {report : Value}
    (h : (writeFrom L kind allow random n index batch successful).run d =
      some (d', .commit (.done (m, report))))
    (unnamed : ∀ i, index ≤ i → toString i ∉ successful.map Prod.fst) :
    ∃ ms, report = .object ms ∧ ms.map Prod.fst =
      successful.map Prod.fst ++ (List.range' index batch.length).map toString := by
  induction batch generalizing index successful d with
  | nil =>
      obtain ⟨-, same⟩ := ret_run h
      cases same
      exact ⟨successful, rfl, by simp⟩
  | cons provided batch ih =>
      obtain ⟨d₁, stored, first, rest⟩ := Txn.run_bind_eq_some h
      cases stored with
      | none => obtain ⟨-, ⟨⟩⟩ := ret_run rest
      | some object =>
          have appended (value : Value) : (successful.insert (toString index) value).map Prod.fst =
              successful.map Prod.fst ++ [toString index] := by
            rw [insert_of_absent (unnamed index (le_refl _)), List.map_append]
            rfl
          obtain ⟨ms, same, names⟩ := ih rest fun i later => by
            rw [appended, List.mem_append, List.mem_singleton, not_or]
            refine ⟨unnamed i (by omega), fun same => ?_⟩
            have := toString_injective same
            omega
          refine ⟨ms, same, ?_⟩
          rw [names, appended, List.length_cons, List.range'_succ, List.map_cons,
            List.append_assoc, List.singleton_append]

/-- A committed write is a run of its loop, at the next version. -/
theorem write_run {batch : List Value} {expected : Option Int} {allow : Bool}
    {random : Nat → Fin 8 → UInt8} {a : Reply}
    (h : (GuardedOp.program L expected (.write kind batch allow random)).run d =
      some (d', .commit a)) :
    ∃ report, a = .object (.done (d.version L + 1, report)) ∧
      d' = (d.setVersion L (d.version L + 1)).storeAll L (d.version L + 1) kind
        (keyed random 0 batch) ∧
      (writeFrom L kind allow random (d.version L + 1) 0 batch []).run
        (d.setVersion L (d.version L + 1)) =
          some (d', .commit (.done (d.version L + 1, report))) := by
  obtain ⟨b, rfl, -, -, -, loop⟩ :=
    branch_of_run h (fun o => by cases o <;> exact ⟨_, rfl⟩) fun v => ⟨_, rfl⟩
  obtain ⟨⟨report, rfl⟩, after⟩ := writeFrom_run loop
  exact ⟨report, rfl, after.trans (congrArg _ (storeEdits_eq kind random 0 batch)), loop⟩

/-- A committed write reports, for each entry and nothing else, the object that
it stores. -/
theorem write_reported {batch : List Value} {expected : Option Int} {allow : Bool}
    {random : Nat → Fin 8 → UInt8} {a : Reply}
    (h : (GuardedOp.program L expected (.write kind batch allow random)).run d =
      some (d', .commit a)) :
    ∃ report, a = .object (.done (d.version L + 1, report)) ∧ ∀ index,
      report.get (toString index) = (keyed random 0 batch)[index]?.map fun e =>
        objectJson e.1 (d.version L + 1) (((d.setVersion L (d.version L + 1)).storeAll L
          (d.version L + 1) kind ((keyed random 0 batch).take index)).merged L (d.version L + 1)
            kind e.1 e.2) := by
  obtain ⟨report, rfl, -, loop⟩ := write_run h
  obtain ⟨other, entries⟩ := writeFrom_report loop
  simp only [Nat.zero_add] at other entries
  refine ⟨report, rfl, fun index => ?_⟩
  cases entry : (keyed random 0 batch)[index]? with
  | none =>
      have beyond : batch.length ≤ index := by
        simpa [length_keyed] using entry
      rw [other _ fun i bound same => ?_]
      · rfl
      · have := toString_injective same
        omega
  | some e => exact entries index e.1 e.2 entry

theorem write_reports {batch : List Value} {expected : Option Int} {allow : Bool}
    {random : Nat → Fin 8 → UInt8} {a : Reply}
    (h : (GuardedOp.program L expected (.write kind batch allow random)).run d =
      some (d', .commit a)) (index : Nat) :
    a.data index = (keyed random 0 batch)[index]?.map fun e =>
      orderFields (((d.setVersion L (d.version L + 1)).storeAll L (d.version L + 1) kind
        ((keyed random 0 batch).take index)).merged L (d.version L + 1) kind e.1 e.2) := by
  obtain ⟨report, rfl, returns⟩ := write_reported h
  rw [Reply.data, returns]
  cases (keyed random 0 batch)[index]? with
  | none => rfl
  | some e => exact get_data e.1 _ _

end Response

end Xotero
