import Xotero.Store.Batches
import Xotero.Store.Stamps
import Xotero.Store.Visible

/-!
What a committed batch of objects leaves in the library and says in its report:
the entries are merged in order, field by field, and each is returned as merged.
-/

namespace Xotero

open Session (Run)

/-- What the last entry for the key that has the field supplies. -/
def lastSupplied (es : List (String × Value)) (key name : String) : Option Value :=
  es.reverse.findSome? fun e => if e.1 = key then e.2.get name else none

theorem lastSupplied_cons (e : String × Value) (es : List (String × Value)) (key name : String) :
    lastSupplied (e :: es) key name =
      (lastSupplied es key name).or (if e.1 = key then e.2.get name else none) := by
  simp [lastSupplied, List.findSome?_append]

theorem fields_of_once {ms : Members} (once : ms.Once) : (Value.object ms).fields = ms :=
  (foldl_insert (fun v => v) once).trans (List.map_id ms)

/-- An object entry lies over what is stored. -/
theorem overlay_get (existing : Option Value) {fields : Members} (once : fields.Once)
    (name : String) : (overlay existing (.object fields)).get name =
      (Members.get fields name).or (existing.bind fun v => v.get name) := by
  cases existing with
  | none => exact (Option.or_none).symm
  | some v =>
      cases v with
      | object base =>
          rw [get_overlay_object, fields_of_once once]
          rfl
      | _ => exact (Option.or_none).symm

/-- The entries are objects. -/
def Mergeable (es : List (String × Value)) : Prop :=
  ∀ e ∈ es, ∃ fields, e.2 = .object fields ∧ Members.Once fields

section Merge
variable {L : LibraryId} {kind : ObjectKind} {n : Int} {d : Database} {key name : String}
  {es : List (String × Value)}

theorem isObject_overlay (existing : Option Value) (fields : Members) :
    ∃ ms, overlay existing (.object fields) = .object ms := by
  cases existing with
  | none => exact ⟨fields, rfl⟩
  | some v => cases v <;> exact ⟨_, rfl⟩

theorem isObject_merged (fields : Members) :
    ∃ ms, d.merged L n kind key (.object fields) = .object ms := by
  obtain ⟨ms, same⟩ := isObject_overlay (d.stored L kind key) fields
  exact ⟨_, congrArg (stampObject key n) same⟩

/-- The object that an entry becomes, field by field. -/
theorem get_merged {fields : Members} (once : fields.Once) (name : String) :
    (d.merged L n kind key (.object fields)).get name =
      if name = "version" then some (.ofInt n)
      else if name = "key" then some (.string key)
      else (Members.get fields name).or ((d.stored L kind key).bind fun v => v.get name) := by
  obtain ⟨ms, same⟩ := isObject_overlay (d.stored L kind key) fields
  rw [← overlay_get _ once, same]
  exact get_stampObject key n _ same name

/-- Of every field the last entry that has it decides, else what was stored. -/
theorem Mergeable.field (h : Mergeable es) (other : name ≠ "key" ∧ name ≠ "version") :
    (((d.storeAll L n kind es).stored L kind key).bind fun v => v.get name).map Value.toJsonb =
      ((lastSupplied es key name).or ((d.stored L kind key).bind fun v => v.get name)).map
        Value.toJsonb := by
  induction es generalizing d with
  | nil => rfl
  | cons e es ih =>
      have step : (((Database.edit L n d (.store kind e.1 e.2)).stored L kind key).bind
          fun v => v.get name).map Value.toJsonb =
            ((if e.1 = key then e.2.get name else none).or
              ((d.stored L kind key).bind fun v => v.get name)).map Value.toJsonb := by
        rw [edit_stored]
        split
        · rename_i same
          subst same
          obtain ⟨fields, object, once⟩ := h e (by simp)
          rw [object, Option.bind_some, Value.get_toJsonb, get_merged once, if_neg other.2,
            if_neg other.1, Option.map_map]
          exact congrArg (Option.map · _) (funext Value.toJsonb_toJsonb)
        · rfl
      rw [storeAll_cons, ih fun e mem => h e (List.mem_cons_of_mem _ mem), lastSupplied_cons,
        Option.or_assoc, Option.map_or, step, ← Option.map_or]

end Merge

/-! ### What is read back -/

theorem equals_orderFields (v : Value) : (orderFields v).Equals v := by
  cases v with
  | object ms =>
      have ordered : ∃ ms', orderFields (.object ms) = .object ms' := by
        simp only [orderFields]
        split <;> exact ⟨_, rfl⟩
      obtain ⟨ms', same⟩ := ordered
      rw [same]
      refine Value.equals_object fun name => congrArg _ ?_
      rw [← Value.get_object, ← same, orderFields_get, Value.get_object]
  | _ => rfl

/-- Storing an object and reading it back gives the same JSON. -/
theorem objectJson_toJsonb (key : String) (n : Int) (v : Value) :
    (objectJson key n v.toJsonb).Equals (objectJson key n v) := by
  have data : (orderFields v.toJsonb).toJsonb = (orderFields v).toJsonb := by
    rw [equals_orderFields v.toJsonb, equals_orderFields v, Value.toJsonb_toJsonb]
  refine Value.equals_object fun name => ?_
  simp only [Members.get]
  split
  · rfl
  · split
    · rfl
    · split
      · exact congrArg some data
      · rfl

/-- Whoever may see an object and asks for its key is returned it once. -/
theorem objects_returns {L : LibraryId} {kind : ObjectKind} {d : Database} {key : String}
    {o : Object} {keys : List String} {includeNotes : Bool}
    (found : d.object.find? (L, kind, key) = some o) (asked : key ∈ keys)
    (texts : keys.all storable) (seen : visible includeNotes kind o) :
    ∃ rows, (objects L kind keys includeNotes).run d = some (d, .array rows) ∧
      (rows.filter fun row => (row.get "key").bind Value.asStr = some key) =
        [objectJson key o.version o.data] := by
  have accepted : (Sql.objects L kind keys includeNotes).accepted = true := texts
  refine ⟨_, by rw [objects, execute, if_pos accepted]; rfl, ?_⟩
  have own (row : String × Object) :
      (((objectJson row.1 row.2.version row.2.data).get "key").bind Value.asStr = some key) ↔
        row.1 = key := by
    simp [objectJson, Members.get]
  have selected := Table.filter_select (t := d.object)
    (p := fun k o => k.1 = L && k.2.1 = kind &&
      (keys.contains k.2.2 && (kind ≠ .item || noteVisible includeNotes o))) found
    (by simpa [asked, visible] using seen)
  simp only [List.filter_map, Function.comp_def, own, Sql.eval, Database.objectsWhere]
  have same : (d.object.select fun k o => k.1 = L && k.2.1 = kind &&
        (keys.contains k.2.2 && (kind ≠ .item || noteVisible includeNotes o))).filter
        (fun e => decide (e.1.2.2 = key)) =
      (d.object.select fun k o => k.1 = L && k.2.1 = kind &&
        (keys.contains k.2.2 && (kind ≠ .item || noteVisible includeNotes o))).filter
        (fun e => decide (e.1 = (L, kind, key))) := by
    refine List.filter_congr fun e mem => ?_
    obtain ⟨⟨M, kind', key'⟩, o'⟩ := e
    have inside := (Table.mem_select.mp mem).2
    simp only [Bool.and_eq_true, decide_eq_true_eq] at inside
    obtain ⟨⟨rfl, rfl⟩, -⟩ := inside
    simp
  rw [same, selected]
  rfl

/-! ### A committed batch -/

/-- `d'` is `d` with the entries merged field by field at version `n`, and without
their tombstones. -/
structure MergedInto (L : LibraryId) (kind : ObjectKind) (n : Int) (es : List (String × Value))
    (d d' : Database) : Prop where
  row : ∀ e ∈ es, ∃ o ms, d'.object.find? (L, kind, e.1) = some o ∧ o.version = n ∧
    o.data = .object ms ∧ Members.get ms "key" = some (.string e.1) ∧
      Members.get ms "version" = some (.ofInt n)
  field : ∀ e ∈ es, ∀ name, name ≠ "key" ∧ name ≠ "version" →
    ((d'.stored L kind e.1).bind fun v => v.get name).map Value.toJsonb =
      ((lastSupplied es e.1 name).or ((d.stored L kind e.1).bind fun v => v.get name)).map
        Value.toJsonb
  objects : ∀ k, (∀ e ∈ es, (L, kind, e.1) ≠ k) → d'.object.find? k = d.object.find? k
  tombstones : ∀ k, d'.deletion.find? k =
    if ∃ e ∈ es, (L, DeletionKind.object kind, e.1) = k then none else d.deletion.find? k

section Committed
variable {L : LibraryId} {kind : ObjectKind} {n : Int} {d : Database} {es : List (String × Value)}

/-- A key of the batch has a last entry. -/
theorem exists_last {key : String} (named : ∃ e ∈ es, e.1 = key) :
    ∃ index provided, es[index]? = some (key, provided) ∧
      ∀ e ∈ es.drop (index + 1), e.1 ≠ key := by
  induction es with
  | nil => exact absurd named (by simp)
  | cons e es ih =>
      by_cases later : ∃ e' ∈ es, e'.1 = key
      · obtain ⟨index, provided, entry, last⟩ := ih later
        exact ⟨index + 1, provided, by simpa using entry, by simpa using last⟩
      · obtain ⟨e', mem, rfl⟩ := named
        rcases List.mem_cons.mp mem with rfl | mem
        · exact ⟨0, e'.2, rfl, fun e'' mem' same => later ⟨e'', by simpa using mem', same⟩⟩
        · exact absurd ⟨e', mem, rfl⟩ later

theorem Mergeable.mergedInto (h : Mergeable es) :
    MergedInto L kind n es d (d.storeAll L n kind es) where
  row e mem := by
    obtain ⟨index, provided, entry, last⟩ := exists_last ⟨e, mem, rfl⟩
    obtain ⟨fields, rfl, once⟩ := h _ (List.mem_of_getElem? entry)
    have after := @last_stored L kind n d _ _ _ _ entry last
    obtain ⟨ms, same⟩ := @isObject_merged L kind n (d.storeAll L n kind (es.take index)) e.1 fields
    have get (name : String) := 
      @get_merged L kind n (d.storeAll L n kind (es.take index)) e.1 _ once name
    rw [same] at get after
    obtain ⟨o, found, data⟩ := Option.map_eq_some_iff.mp after
    refine ⟨o, _, found, version_storeAll ⟨e, mem, rfl⟩ found, data, ?_, ?_⟩
    · have key := get "key"
      rw [Value.get_object] at key
      rw [Value.get_toJsonbMembers, key]
      rfl
    · have version := get "version"
      rw [Value.get_object] at version
      rw [Value.get_toJsonbMembers, version]
      rfl
  field e _ name other := h.field other
  objects k apart := find?_storeAll_object k apart
  tombstones := find?_storeAll_deletion

/-- A field of the entry is returned unchanged. -/
theorem returned_field {key : String} {fields : Members} (once : fields.Once)
    (own : Members.get fields "key" = some (.string key)) {name : String}
    (other : name ≠ "version") {v : Value} (supplied : Members.get fields name = some v) :
    (orderFields (d.merged L n kind key (.object fields))).get name = some v := by
  rw [orderFields_get, get_merged once, if_neg other]
  split
  · rename_i same
    subst same
    exact own.symm.trans supplied
  · rw [supplied, Option.some_or]

end Committed

section Runs
variable {digests : Digests} {config : Config} {ι : Type} [DecidableEq ι]
  {σ₀ σ : Session (server digests config) ι} {events : List (Event (server digests config))}

/-- The entry of a report for one object of the batch. -/
def reported (key : String) (n : Int) (data : Value) : Value :=
  .object [("key", .string key), ("version", .ofInt n), ("data", data)]

/-- The last entry of the batch for its key. -/
def LastFor (batch : List Value) (index : Nat) (key : String) : Prop :=
  ∀ later provided, index < later → batch[later]? = some provided →
    (provided.get "key").bind Value.asStr ≠ some key

/-- A book is stored, and then changed by two entries of one batch. -/
def titledRequest : Request :=
  .guarded newLibrary (some 0) (.write .item
    [.object [("key", .string "ITEM2345"), ("itemType", .string "book"),
      ("title", .string "first"), ("pages", .string "9")]] true fun _ _ => 0)

def titledDatabase : Database := plainServer.after newDatabase 6 titledRequest

def titleChanges : List Value :=
  [.object [("key", .string "ITEM2345"), ("title", .string "second"), ("url", .string "there")],
    .object [("key", .string "ITEM2345"), ("title", .string "third")]]

def retitleRequest : Request :=
  .guarded newLibrary (some 1) (.write .item titleChanges true fun _ _ => 0)

def retitledDatabase : Database := plainServer.after titledDatabase 10 retitleRequest

theorem retitled_runs : ∃ events a, Run (Session.idle newDatabase : Session plainServer Unit)
    (events ++ [.commit retitleRequest a titledDatabase retitledDatabase])
    (Session.idle retitledDatabase) := by
  obtain ⟨es, a, store, -⟩ := Run.commits (S := plainServer) (s := newDatabase)
    (t := titledDatabase) (r := titledRequest) () 6 rfl rfl (by constructor <;> decide)
  exact store.then_commits () 10 rfl rfl (by constructor <;> decide)

end Runs

end Xotero
