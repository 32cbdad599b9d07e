import Xotero.Store.Objects
import Xotero.Store.Stamps
import Xotero.Store.Versions

/-!
What a client makes of the listings: a copy of the objects of a library,
brought up to date from the deletion log, the versions above its cursor and the
objects they name, is exact.
-/

namespace Xotero

open Session (Run)

/-! The client's reading of the responses -/

def deletedField : ObjectKind → String
  | .item => "items"
  | .collection => "collections"
  | .search => "searches"

def deletedKeys (kind : ObjectKind) (response : Value) : List String :=
  ((response.get (deletedField kind)).map Value.strings).getD []

/-- The names of a map of versions. -/
def namedKeys : Value → List String
  | .object ms => ms.map fun m => m.1
  | _ => []

def objectEntry (v : Value) : Option (String × Int × Value) :=
  match v.get "key", v.get "version", v.get "data" with
  | some (.string key), some (.number (.int version)), some data => some (key, version, data)
  | _, _, _ => none

def objectEntries : Value → List (String × Int × Value)
  | .array vs => vs.filterMap objectEntry
  | _ => []

/-- Remove the deleted keys, then put in the objects that were sent. -/
def applySync (kind : ObjectKind) (deletions sent : Value)
    (copy : String → Option (Int × Value)) : String → Option (Int × Value) := fun key =>
  match (objectEntries sent).find? fun e => e.1 = key with
  | some e => some e.2
  | none => if key ∈ deletedKeys kind deletions then none else copy key

/-- The objects of a library as `objects` serves them. -/
def served (L : LibraryId) (kind : ObjectKind) (d : Database) (key : String) :
    Option (Int × Value) :=
  (d.object.find? (L, kind, key)).map fun o => (o.version, orderFields o.data)

theorem served_eq (L : LibraryId) (kind : ObjectKind) (d : Database) :
    served L kind d = ((objectFeed L kind d).map orderFields).live := by
  funext key
  simp only [served, objectFeed, Feed.map, Option.map_map, Function.comp_def]

/-! The responses -/

section Responses
variable {L : LibraryId} {kind : ObjectKind} {d : Database} {since : Int} {key : String}

theorem mem_deletedSince {k : DeletionKind} :
    key ∈ ofKind k (Sql.eval (.deletedSince L since) d) ↔
      ∃ v, d.deletion.find? (L, k, key) = some v ∧ since < v := by
  simp only [ofKind, Sql.eval, List.mem_map, List.mem_filter, decide_eq_true_eq]
  constructor
  · rintro ⟨_, ⟨⟨⟨⟨M, k', key'⟩, v⟩, h, rfl⟩, rfl⟩, rfl⟩
    obtain ⟨found, h⟩ := Table.mem_select.mp h
    simp only [Bool.and_eq_true, decide_eq_true_eq] at h
    obtain ⟨rfl, above⟩ := h
    exact ⟨v, found, above⟩
  · rintro ⟨v, found, above⟩
    exact ⟨(k, key), ⟨⟨((L, k, key), v), Table.mem_select.mpr ⟨found, by simpa using above⟩,
      rfl⟩, rfl⟩, rfl⟩

/-- The body of a deletion response. -/
def deletedBody (rows : List (DeletionKind × String)) : Value :=
  .object [
    ("collections", .array ((ofKind (.object .collection) rows).map .string)),
    ("searches", .array ((ofKind (.object .search) rows).map .string)),
    ("items", .array ((ofKind (.object .item) rows).map .string)),
    ("settings", .array ((ofKind .setting rows).map .string)),
    ("tags", .array ((ofKind .tag rows).map deletedTag))]

theorem deleted_run : (deleted L since).run d =
    some (d, deletedBody (Sql.eval (.deletedSince L since) d)) := rfl

theorem deletedKeys_body (rows : List (DeletionKind × String)) :
    deletedKeys kind (deletedBody rows) = ofKind (.object kind) rows := by
  cases kind <;>
    simp [deletedKeys, deletedField, deletedBody, Value.get, Members.get, Value.strings_array]

theorem versions_run : (versions L kind since true).run d =
    some (d, versionMap (Sql.eval (.versions L kind since true) d)) := rfl

/-- The names of a map made of rows. -/
theorem mem_names_foldl {ρ : Type} (value : ρ → Value) (rows : List (String × ρ))
    (map : Members) (name : String) :
    name ∈ (rows.foldl (fun map row => Members.insert row.1 (value row.2) map) map).map Prod.fst ↔
      name ∈ rows.map Prod.fst ∨ name ∈ map.map Prod.fst := by
  induction rows generalizing map with
  | nil => simp
  | cons row rows ih =>
      rw [List.foldl_cons, ih, names_insert, List.map_cons, List.mem_cons]
      tauto

theorem mem_namedKeys (rows : List (String × Int)) (name : String) :
    name ∈ namedKeys (versionMap rows) ↔ name ∈ rows.map Prod.fst := by
  simpa [namedKeys, versionMap] using mem_names_foldl .ofInt rows [] name

theorem mem_namedKeys_versions : key ∈ namedKeys (versionMap
    (Sql.eval (.versions L kind since true) d)) ↔
      ∃ o, d.object.find? (L, kind, key) = some o ∧ since < o.version := by
  simp only [mem_namedKeys, Sql.eval, List.map_map, List.mem_map, Function.comp_apply]
  constructor
  · rintro ⟨⟨k, o⟩, h, rfl⟩
    obtain ⟨found, holds⟩ := mem_objectsWhere.mp h
    exact ⟨o, found, by simpa [noteVisible] using holds⟩
  · rintro ⟨o, found, above⟩
    exact ⟨(key, o), mem_objectsWhere.mpr ⟨found, by simpa [noteVisible] using above⟩, rfl⟩

/-- The body of an object response. -/
def objectsBody (rows : List (String × Object)) : Value :=
  .array (rows.map fun row => objectJson row.1 row.2.version row.2.data)

theorem objects_run {keys : List String} (text : keys.all storable) :
    (objects L kind keys true).run d =
      some (d, objectsBody (Sql.eval (.objects L kind keys true) d)) := by
  have accepted : (Sql.objects L kind keys true).accepted = true := text
  rw [objects, execute_bind, if_pos accepted]
  rfl

theorem objectEntries_body (rows : List (String × Object)) :
    objectEntries (objectsBody rows) =
      rows.map fun row => (row.1, row.2.version, orderFields row.2.data) := by
  simp only [objectEntries, objectsBody, List.filterMap_map]
  rw [← List.filterMap_eq_map]
  congr 1

/-- At most one row of a kind has a given key. -/
theorem find?_objectsWhere (L : LibraryId) (kind : ObjectKind) (d : Database) (key : String)
    (p : String → Object → Bool) :
    ((d.objectsWhere L kind p).find? fun e => e.1 = key) =
      ((d.object.find? (L, kind, key)).filter (p key)).map fun o => (key, o) := by
  cases hf : (d.objectsWhere L kind p).find? fun e => e.1 = key with
  | some e =>
      obtain ⟨k, o⟩ := e
      obtain rfl : k = key := by simpa using List.find?_some hf
      obtain ⟨found, holds⟩ := mem_objectsWhere.mp (List.mem_of_find?_eq_some hf)
      simp [found, Option.filter, holds]
  | none =>
      cases ho : d.object.find? (L, kind, key) with
      | none => rfl
      | some o =>
          have : p key o = false := by
            by_contra holds
            simpa using List.find?_eq_none.mp hf (key, o)
              (mem_objectsWhere.mpr ⟨ho, by simpa using holds⟩)
          simp [Option.filter, this]

theorem storable_of_valid (valid : d.Valid) {o : Object}
    (found : d.object.find? (L, kind, key) = some o) : storable key :=
  valid.object_key_text ((L, kind, key), o) (Table.mem_rows.mpr found)

/-- The rows a client asks for and is sent: those above its cursor. -/
theorem find?_sent (key : String) {keys : List String} (named : ∀ k, k ∈ keys ↔
      ∃ o, d.object.find? (L, kind, k) = some o ∧ since < o.version) :
    ((objectEntries (objectsBody (Sql.eval (.objects L kind keys true) d))).find? fun e =>
        e.1 = key).map (fun e => e.2) =
      (served L kind d key).filter fun r => since < r.1 := by
  rw [objectEntries_body, List.find?_map, Option.map_map]
  have rows := find?_objectsWhere L kind d key
    fun key o => keys.contains key && (kind ≠ .item || noteVisible true o)
  simp only [Sql.eval, Function.comp_def]
  rw [rows]
  cases ho : d.object.find? (L, kind, key) with
  | none => simp [served, ho]
  | some o =>
      have asked : key ∈ keys ↔ since < o.version := by simp [named, ho]
      by_cases above : since < o.version
      · simp [served, ho, noteVisible, asked, above, Option.filter]
      · simp [served, ho, noteVisible, asked, above, Option.filter]

/-- Applying the responses is bringing the copy up to date from the feed. -/
theorem applySync_eq (copy : String → Option (Int × Value)) {keys : List String}
    (named : ∀ k, k ∈ keys ↔
      ∃ o, d.object.find? (L, kind, k) = some o ∧ since < o.version) :
    applySync kind (deletedBody (Sql.eval (.deletedSince L since) d))
        (objectsBody (Sql.eval (.objects L kind keys true) d)) copy =
      ((objectFeed L kind d).map orderFields).sync since copy := by
  funext key
  have sent := find?_sent key named
  have dead : (key ∈ deletedKeys kind (deletedBody (Sql.eval (.deletedSince L since) d))) ↔
      (d.deletion.find? (L, .object kind, key)).any (since < ·) = true := by
    rw [deletedKeys_body, mem_deletedSince]
    cases d.deletion.find? (L, .object kind, key) <;> simp
  simp only [applySync, Feed.sync]
  rw [served_eq] at sent
  rw [← sent]
  cases (objectEntries (objectsBody (Sql.eval (.objects L kind keys true) d))).find? fun e =>
      e.1 = key with
  | some e => rfl
  | none =>
      simp only [Option.map_none, dead]
      rfl

end Responses

/-! Incremental sync -/

section Run
variable {digests : Digests} {config : Config} {ι : Type} [DecidableEq ι]
  {σ₀ σ₁ σ₂ : Session (server digests config) ι}
  {events events' : List (Event (server digests config))} {L : LibraryId}

theorem feed_ok_of_run (run : Run σ₀ events σ₁) (starts : Starts σ₀) (fresh : Fresh L σ₀.state)
    (kind : ObjectKind) : Feed.Ok (objectFeed L kind σ₁.state) :=
  (fresh.feed kind).advance
    (advance_of_steps (librarySteps_of_run run starts L) (fresh.feed kind))

/-- The library changes of the later part of a run. -/
theorem librarySteps_between (run : Run σ₀ events σ₁) (run' : Run σ₁ events' σ₂)
    (starts : Starts σ₀) (L : LibraryId) :
    Relation.ReflTransGen (LibraryStep L) σ₁.state σ₂.state :=
  run'.chain fun e he =>
    libraryStep_of_event (run.trans run') starts L e (List.mem_append_right _ he)

/-- A copy of the objects as they were served at one state of a run, brought up
to date from what is served at any later one, is what is served there. -/
theorem incremental_sync_exact (run : Run σ₀ events σ₁) (run' : Run σ₁ events' σ₂)
    (starts : Starts σ₀) (fresh : Fresh L σ₀.state) (kind : ObjectKind) :
    ∃ deletions listing sent,
      (deleted L (σ₁.state.version L)).run σ₂.state = some (σ₂.state, deletions) ∧
      (versions L kind (σ₁.state.version L) true).run σ₂.state = some (σ₂.state, listing) ∧
      (objects L kind (namedKeys listing) true).run σ₂.state = some (σ₂.state, sent) ∧
      applySync kind deletions sent (served L kind σ₁.state) = served L kind σ₂.state ∧
      ∀ key o, σ₂.state.object.find? (L, kind, key) = some o →
        σ₂.state.deletion.find? (L, .object kind, key) = none := by
  have ok := feed_ok_of_run run starts fresh kind
  have ok' := feed_ok_of_run (run.trans run') starts fresh kind
  have named (key : String) : key ∈ namedKeys (versionMap (Sql.eval
      (.versions L kind (σ₁.state.version L) true) σ₂.state)) ↔
        ∃ o, σ₂.state.object.find? (L, kind, key) = some o ∧ σ₁.state.version L < o.version :=
    mem_namedKeys_versions
  have text : (namedKeys (versionMap (Sql.eval
      (.versions L kind (σ₁.state.version L) true) σ₂.state))).all storable := by
    refine List.all_eq_true.mpr fun key hk => ?_
    obtain ⟨o, found, -⟩ := (named key).mp hk
    exact storable_of_valid ((run.trans run').sound server_wellLocked
      (Session.sound_of_idle starts.idle starts.valid)).valid found
  refine ⟨_, _, _, deleted_run, versions_run, objects_run text, ?_, ?_⟩
  · rw [applySync_eq _ named, served_eq, served_eq]
    have advance := advance_of_steps (librarySteps_between run run' starts L) ok
    exact Feed.sync_exact (ok.map orderFields) (advance.map orderFields)
  · intro key o found
    exact ok'.disjoint (k := key) (r := (o.version, o.data)) (by simp [objectFeed, found])

/-- From the empty library to the one with a note in it. -/
theorem incremental_sync_note : ∃ d' deletions sent,
    applySync .item deletions sent (served newLibrary .item newDatabase) =
      served newLibrary .item d' ∧ served newLibrary .item d' "TEXT2345" ≠ none := by
  obtain ⟨events, d', run, -, stored⟩ := noteRequest_runs
  obtain ⟨deletions, listing, sent, -, -, -, exact, -⟩ :=
    incremental_sync_exact .refl run (starts_idle newDatabase_valid) newLibrary_fresh .item
  refine ⟨d', deletions, sent, exact, fun absent => ?_⟩
  rw [served, Option.map_eq_none_iff] at absent
  simp [absent] at stored

end Run

end Xotero
