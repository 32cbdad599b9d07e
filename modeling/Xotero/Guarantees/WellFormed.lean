import Xotero.Guarantees.Consistency
import Xotero.Guarantees.GeneratedKeys

/-!
What a client may rely on when it reads a library: objects that name their key
and version, and keys of the form it accepts. Both hold as long as the requests
that are not checked for it keep to it themselves.
-/

namespace Xotero

open Session (Run)

/-! ### Objects that are JSON objects -/

/-- An object with a key and a version. -/
def Value.Whole (v : Value) : Prop :=
  ∃ ms, v = .object ms ∧ (Members.get ms "key").isSome ∧ (Members.get ms "version").isSome

/-- Every stored object is one. -/
def WholeObjects (L : LibraryId) (d : Database) : Prop :=
  ∀ kind key o, d.object.find? (L, kind, key) = some o → o.data.Whole

theorem whole_toJsonb {v : Value} (h : v.Whole) : v.toJsonb.Whole := by
  obtain ⟨ms, rfl, key, version⟩ := h
  refine ⟨_, rfl, ?_, ?_⟩
  · rwa [Value.get_toJsonbMembers, Option.isSome_map]
  · rwa [Value.get_toJsonbMembers, Option.isSome_map]

theorem whole_orderFields {v : Value} (h : v.Whole) : (orderFields v).Whole := by
  obtain ⟨ms, rfl, key, version⟩ := h
  have object : ∃ ms', orderFields (.object ms) = .object ms' := by
    simp only [orderFields]
    split <;> exact ⟨_, rfl⟩
  obtain ⟨ms', same⟩ := object
  have get (name : String) : Members.get ms' name = Members.get ms name := by
    rw [← Value.get_object, ← same, orderFields_get, Value.get_object]
  exact ⟨ms', same, by rwa [get], by rwa [get]⟩

section Edits
variable {L : LibraryId} {n : Int} {d d' : Database} {kind : ObjectKind} {key : String}

/-- Whatever is stored, an object entry becomes an object with its key and version. -/
theorem whole_merged {provided : Value} (object : provided.asObject.isSome) :
    (d.merged L n kind key provided).Whole := by
  have overlaid : ∃ ms, overlay ((d.object.find? (L, kind, key)).map Object.data) provided =
      .object ms := by
    cases provided with
    | object fields =>
        cases (d.object.find? (L, kind, key)).map Object.data with
        | none => exact ⟨fields, rfl⟩
        | some base => cases base <;> exact ⟨_, rfl⟩
    | _ => cases object
  obtain ⟨ms, same⟩ := overlaid
  have get (name : String) := get_stampObject key n (.object ms) rfl name
  refine ⟨_, congrArg (stampObject key n) same, ?_, ?_⟩
  · rw [← Value.get_object]
    exact (congrArg Option.isSome (get "key")).trans rfl
  · rw [← Value.get_object]
    exact (congrArg Option.isSome (get "version")).trans rfl

/-- An entry that is no object replaces what is stored, without a key or version. -/
theorem merged_of_other {provided : Value} (other : ¬ provided.asObject.isSome) :
    d.merged L n kind key provided = provided := by
  have replaced : overlay ((d.object.find? (L, kind, key)).map Object.data) provided =
      provided := by
    cases provided with
    | object => exact absurd rfl other
    | _ =>
        cases (d.object.find? (L, kind, key)).map Object.data with
        | none => rfl
        | some base => cases base <;> rfl
  rw [Database.merged, replaced]
  cases provided with
  | object => exact absurd rfl other
  | _ => rfl

theorem orderFields_of_other {v : Value} (other : ¬ v.asObject.isSome) : orderFields v = v := by
  cases v with
  | object => exact absurd rfl other
  | _ => rfl

theorem WholeObjects.congr (h : WholeObjects L d) (same : ∀ kind key,
    d'.object.find? (L, kind, key) = d.object.find? (L, kind, key)) : WholeObjects L d' :=
  fun kind key o found => h kind key o (same kind key ▸ found)

/-- The entries that an edit stores are objects. -/
def Edit.StoresObject : Edit → Prop
  | .store _ _ provided => provided.asObject.isSome
  | _ => True

theorem edit_whole (h : WholeObjects L d) {e : Edit} (object : e.StoresObject) :
    WholeObjects L (Database.edit L n d e) := by
  intro kind key o found
  cases e with
  | store kind' key' provided =>
      rw [Database.edit, Table.find?_put] at found
      split at found
      · obtain rfl := Option.some.inj found
        exact whole_toJsonb (whole_merged object)
      · exact h kind key o found
  | remove kind' key' =>
      rw [Database.edit, Table.find?_erase] at found
      split at found
      · cases found
      · exact h kind key o found
  | removeTag tag =>
      rw [find?_removeTag] at found
      obtain ⟨before, there, rfl⟩ := Option.map_eq_some_iff.mp found
      obtain ⟨ms, data, named, versioned⟩ := h kind key before there
      split
      · refine ⟨_, congrArg (Database.withoutTag · tag) data, ?_, ?_⟩
        · rwa [Members.get_place, if_neg (by decide)]
        · rwa [Members.get_place, if_neg (by decide)]
      · exact ⟨ms, data, named, versioned⟩
  | register key' upload =>
      rw [Database.edit] at found
      cases there : d.object.find? (L, .item, key') with
      | none =>
          simp only [there] at found
          exact h kind key o found
      | some before =>
          simp only [there, Table.find?_put] at found
          split at found
          · obtain rfl := Option.some.inj found
            obtain ⟨ms, data, named, -⟩ := h .item key' before there
            refine ⟨_, congrArg (Value.concat · _) data, ?_, ?_⟩
            · rw [Members.get_concat]
              exact named
            · rw [Members.get_concat]
              rfl
          · exact h kind key o found
  | storeSetting | removeSetting | storeText => exact h kind key o found

/-- The write stores objects only. -/
def GuardedOp.StoresObjects : GuardedOp → Prop
  | .write _ batch _ _ => ∀ provided ∈ batch, provided.asObject.isSome
  | _ => True

theorem edits_whole {op : GuardedOp} (h : WholeObjects L d) (objects : op.StoresObjects) :
    WholeObjects L (Database.edits L n d op.edits) := by
  refine edits_keep (fun e he d h => edit_whole h ?_) h
  cases op with
  | write kind batch allow random =>
      rw [GuardedOp.edits, storeEdits_eq] at he
      obtain ⟨e, mem, rfl⟩ := List.mem_map.mp he
      exact objects _ (mem_of_keyed mem)
  | delete | writeSettings | deleteSettings | deleteTags | writeFulltext =>
      obtain ⟨x, -, rfl⟩ := List.mem_map.mp he
      trivial

end Edits

section Run
variable {digests : Digests} {config : Config} {ι : Type} [DecidableEq ι]
  {σ₀ σ : Session (server digests config) ι} {events : List (Event (server digests config))}
  {L : LibraryId}

/-- What a write reports is an object, with its key and version, exactly when what
it was sent is one. -/
theorem reports_whole (run : Run σ₀ events σ) (starts : Starts σ₀) {expected : Option Int}
    {kind : ObjectKind} {batch : List Value} {allow : Bool} {random : Nat → Fin 8 → UInt8}
    {a : Reply} {d d' : Database}
    (he : .commit (Request.guarded L expected (.write kind batch allow random)) a d d' ∈ events) :
    (∀ index data, a.data index = some data → data.Whole) ↔
      ∀ provided ∈ batch, provided.asObject.isSome := by
  have returns := write_reports (guarded_runs run starts he)
  constructor
  · intro whole provided mem
    obtain ⟨index, here⟩ := List.mem_iff_getElem?.mp mem
    by_contra other
    have returned := returns index
    rw [getElem?_keyed, here, Option.map_some, Option.map_some, merged_of_other other,
      orderFields_of_other other] at returned
    obtain ⟨ms, rfl, -⟩ := whole index provided returned
    exact other rfl
  · intro objects index data returned
    rw [returns] at returned
    obtain ⟨e, entry, rfl⟩ := Option.map_eq_some_iff.mp returned
    exact whole_orderFields (whole_merged (objects _ (mem_of_keyed (List.mem_of_getElem? entry))))

/-- From whole objects on: every stored object and every reported one is whole,
exactly when every committed entry is an object. -/
theorem objects_whole_iff (run : Run σ₀ events σ) (starts : Starts σ₀)
    (whole : ∀ L, WholeObjects L σ₀.state) :
    ((∀ L, WholeObjects L σ.state) ∧
      ∀ L expected kind batch allow random a d d',
        .commit (Request.guarded L expected (.write kind batch allow random)) a d d' ∈ events →
          ∀ index data, a.data index = some data → data.Whole) ↔
      ∀ L expected op a d d', .commit (Request.guarded L expected op) a d d' ∈ events →
        op.StoresObjects := by
  constructor
  · rintro ⟨-, reports⟩ L expected op a d d' he
    cases op with
    | write kind batch allow random =>
        exact (reports_whole run starts he).mp
          (reports L expected kind batch allow random a d d' he)
    | delete | writeSettings | deleteSettings | deleteTags | writeFulltext => trivial
  · intro objects
    refine ⟨fun L => ?_, fun L expected kind batch allow random a d d' he =>
      (reports_whole run starts he).mpr (objects L expected _ a d d' he)⟩
    refine invariant_of_run run starts L (I := WholeObjects L) (whole L) ?_ ?_ ?_
    · exact fun d d' same h => h.congr fun kind key => (same.find?_object kind key).symm
    · intro expected op a d d' he committed h
      exact committed.after ▸ edits_whole (h.congr (by simp)) (objects L expected op a d d' he)
    · exact fun key upload d h => edit_whole (h.congr (by simp)) trivial

theorem objects_whole_iff_note : ∃ d', (∀ L, WholeObjects L d') ∧
    d'.object.find? (newLibrary, .item, "TEXT2345") ≠ none := by
  obtain ⟨events, d', run, only, stored⟩ := noteRequest_runs
  have whole : ∀ L, WholeObjects L newDatabase := fun L kind key o found => by cases found
  refine ⟨d', ((objects_whole_iff run (starts_idle newDatabase_valid) whole).mpr ?_).1,
    fun absent => by simp [absent] at stored⟩
  intro L expected op a d₁ d₂ he
  cases only _ _ _ _ he
  intro provided mem
  cases List.mem_singleton.mp mem
  rfl

/-- A number is stored as an object. -/
def scalarRequest : Request :=
  .guarded newLibrary (some 0) (.write .item [.ofInt 5] true fun _ _ => 0)

def scalarDatabase : Database := plainServer.after newDatabase 6 scalarRequest

theorem scalar_stored : ∃ events a,
    Handlers.write ownerAccess .item [("if-unmodified-since-version", "0")] (some [.ofInt 5])
      (fun _ _ => 0) = .ok scalarRequest ∧
    Run (Session.idle newDatabase : Session plainServer Unit)
      (events ++ [.commit scalarRequest a newDatabase scalarDatabase])
      (Session.idle scalarDatabase) ∧
    a.data 0 = some (.ofInt 5) ∧
    scalarDatabase.object.find? (newLibrary, .item, "22222222") = some ⟨1, .ofInt 5⟩ ∧
    ¬ WholeObjects newLibrary scalarDatabase := by
  obtain ⟨events, a, run, -⟩ := Run.commits (ι := Unit) (S := plainServer) (s := newDatabase)
    (t := scalarDatabase) (r := scalarRequest) () 6 rfl rfl (by constructor <;> decide)
  have returns := write_reports (guarded_runs run (starts_idle newDatabase_valid)
    (List.mem_append_right _ (List.mem_singleton_self _))) 0
  refine ⟨events, a, rfl, run, returns, rfl, fun whole => ?_⟩
  obtain ⟨ms, data, -⟩ := whole .item "22222222" _ rfl
  cases data

end Run

/-! ### Keys that clients accept -/

/-- The keys of a library's objects, of their tombstones and of its texts. -/
structure WellKeyed (L : LibraryId) (d : Database) : Prop where
  object : ∀ kind key, (d.object.find? (L, kind, key)).isSome → validObjectKey key
  deletion : ∀ kind key, (d.deletion.find? (L, .object kind, key)).isSome → validObjectKey key
  fulltext : ∀ key, (d.fulltext.find? (L, key)).isSome → validObjectKey key

/-- The key that an edit stores something under, or logs as deleted. -/
def Edit.objectKey : Edit → Option String
  | .store _ key _ | .remove _ key => some key
  | .storeText item => some (fulltextKey item)
  | _ => none

section Keys
variable {L : LibraryId} {n : Int} {d d' : Database}

theorem WellKeyed.congr (h : WellKeyed L d) (same : LibraryAgree L d d') : WellKeyed L d' where
  object kind key found := h.object kind key (by rwa [same.find?_object])
  deletion kind key found := h.deletion kind key <| by
    rwa [Table.find?_eq_of_part_eq same.deletion (inLibrary_self L _)]
  fulltext key found := h.fulltext key <| by
    rwa [Table.find?_eq_of_part_eq same.fulltext (inLibrary_self L _)]

theorem WellKeyed.setVersion (h : WellKeyed L d) (m : Int) : WellKeyed L (d.setVersion L m) where
  object := by simpa using h.object
  deletion := by simpa using h.deletion
  fulltext := by simpa using h.fulltext

/-- An edit adds objects, tombstones and texts under its own key only. -/
theorem edit_wellKeyed (h : WellKeyed L d) {e : Edit}
    (valid : ∀ key ∈ e.objectKey, validObjectKey key) : WellKeyed L (Database.edit L n d e) := by
  have put {α : Type} {k k' : α} [DecidableEq α] {ρ : Type} {t : Table α ρ} {r : ρ}
      (found : ((t.put k r).find? k').isSome) : k' = k ∨ (t.find? k').isSome := by
    rw [Table.find?_put] at found
    split at found
    · exact .inl ‹_›
    · exact .inr found
  have erase {α : Type} {k k' : α} [DecidableEq α] {ρ : Type} {t : Table α ρ}
      (found : ((t.erase k).find? k').isSome) : (t.find? k').isSome := by
    rw [Table.find?_erase] at found
    split at found
    · cases found
    · exact found
  cases e with
  | store kind key provided =>
      refine ⟨fun kind' key' found => ?_, fun kind' key' found => h.deletion _ _ (erase found),
        h.fulltext⟩
      rcases put found with same | old
      · obtain ⟨-, rfl⟩ : kind' = kind ∧ key' = key := by simpa using same
        exact valid key' rfl
      · exact h.object _ _ old
  | remove kind key =>
      refine ⟨fun kind' key' found => h.object _ _ (erase found), fun kind' key' found => ?_,
        h.fulltext⟩
      rcases put found with same | old
      · obtain ⟨-, rfl⟩ : kind' = kind ∧ key' = key := by simpa using same
        exact valid key' rfl
      · exact h.deletion _ _ old
  | removeSetting key =>
      refine ⟨h.object, fun kind' key' found => h.deletion kind' key' ?_, h.fulltext⟩
      exact (put found).resolve_left (by simp)
  | removeTag tag =>
      refine ⟨fun kind' key' found => h.object kind' key' ?_,
        fun kind' key' found => h.deletion kind' key' ?_, h.fulltext⟩
      · rwa [find?_removeTag, Option.isSome_map] at found
      · exact (put found).resolve_left (by simp)
  | storeText item =>
      refine ⟨h.object, h.deletion, fun key found => ?_⟩
      rcases put found with same | old
      · obtain rfl : key = fulltextKey item := by simpa using same
        exact valid _ rfl
      · exact h.fulltext _ old
  | register key upload =>
      refine ⟨fun kind' key' found => ?_, h.deletion, h.fulltext⟩
      rw [Database.edit] at found
      cases there : d.object.find? (L, .item, key) with
      | none =>
          simp only [there] at found
          exact h.object _ _ found
      | some o =>
          simp only [there] at found
          rcases put found with same | old
          · obtain ⟨rfl, rfl⟩ : kind' = .item ∧ key' = key := by simpa using same
            exact h.object _ _ (Option.isSome_of_eq_some there)
          · exact h.object _ _ old
  | storeSetting key entry => exact ⟨h.object, h.deletion, h.fulltext⟩

/-- The requests whose keys no handler checks name valid ones. -/
def GuardedOp.NamesValidKeys : GuardedOp → Prop
  | .delete _ keys _ => ∀ key ∈ keys, validObjectKey key
  | .writeFulltext batch => ∀ item ∈ batch, validObjectKey (fulltextKey item)
  | _ => True

/-- A batch that names valid keys is stored under valid keys. -/
theorem valid_keyed {random : Nat → Fin 8 → UInt8} {batch : List Value}
    (given : ∀ key ∈ givenKeys batch, validObjectKey key) :
    ∀ e ∈ keyed random 0 batch, validObjectKey e.1 := by
  intro e mem
  rcases mem_keys ⟨e, mem, rfl⟩ with own | drawn
  · exact given _ own
  · obtain ⟨i, p, -, -, same⟩ := mem_drawnKeys.mp drawn
    exact same ▸ valid_generateKey _

/-- A write that its handler lets through stores under valid keys. -/
theorem valid_of_handled {access : LibraryAccess} {m : Mutation} {expected : Option Int}
    {kind : ObjectKind} {batch : List Value} {allow : Bool} {random : Nat → Fin 8 → UInt8}
    (handled : m.request access = .ok (.guarded L expected (.write kind batch allow random))) :
    ∀ e ∈ keyed random 0 batch, validObjectKey e.1 := by
  have given : ∀ key ∈ givenKeys batch, validObjectKey key := by
    cases m with
    | write kind' headers body random' =>
        cases body with
        | none => cases handled
        | some batch' =>
            simp only [Mutation.request, Handlers.write] at handled
            split at handled
            · cases handled
            · rename_i checked
              obtain ⟨expected', made⟩ := precondition_bind handled
              cases made
              simpa [givenKeys] using List.find?_eq_none.mp checked
    | fulltextWrite headers body =>
        cases body with
        | none => cases handled
        | some batch' =>
            obtain ⟨expected', made⟩ := precondition_bind handled
            cases made
    | delete headers params | tagsDelete headers params =>
        obtain ⟨expected', made⟩ := precondition_bind handled
        cases made
    | settingsWrite headers body | settingsDelete headers params =>
        obtain ⟨expected', made⟩ := precondition_bind handled
        dsimp only at made
        split at made <;> cases made
  exact valid_keyed given

theorem edits_wellKeyed {access : LibraryAccess} {m : Mutation} {expected : Option Int}
    {op : GuardedOp} (h : WellKeyed L d)
    (handled : m.request access = .ok (.guarded L expected op)) (names : op.NamesValidKeys) :
    WellKeyed L (Database.edits L n d op.edits) := by
  refine edits_keep (fun e he d h => edit_wellKeyed h ?_) h
  cases op with
  | write kind batch allow random =>
      rw [GuardedOp.edits, storeEdits_eq] at he
      obtain ⟨e, mem, rfl⟩ := List.mem_map.mp he
      rintro _ ⟨⟩
      exact valid_of_handled handled e mem
  | delete kind keys allow =>
      obtain ⟨key, mem, rfl⟩ := List.mem_map.mp he
      rintro _ ⟨⟩
      exact names key mem
  | writeFulltext batch =>
      obtain ⟨item, mem, rfl⟩ := List.mem_map.mp he
      rintro _ ⟨⟩
      exact names item mem
  | writeSettings | deleteSettings | deleteTags =>
      obtain ⟨x, -, rfl⟩ := List.mem_map.mp he
      intro _ names
      cases names

end Keys

/-- What a client reads of a library from a cursor on names valid keys only. -/
structure ReadsValidKeys (L : LibraryId) (since : Int) (d : Database) : Prop where
  row : ∀ kind key o, d.object.find? (L, kind, key) = some o → validObjectKey key
  versions : ∀ kind includeNotes, ∃ map,
    (versions L kind since includeNotes).run d = some (d, map) ∧
      ∀ key ∈ namedKeys map, validObjectKey key
  topVersions : ∀ includeNotes, ∃ map, (topVersions L since includeNotes).run d = some (d, map) ∧
    ∀ key ∈ namedKeys map, validObjectKey key
  deleted : ∃ log, (deleted L since).run d = some (d, log) ∧
    ∀ kind, ∀ key ∈ deletedKeys kind log, validObjectKey key
  fulltext : ∃ map, (fulltextVersions L since).run d = some (d, map) ∧
    ∀ key ∈ namedKeys map, validObjectKey key

section Reads
variable {L : LibraryId} {d : Database}

theorem WellKeyed.listed (h : WellKeyed L d) {kind : ObjectKind} {p : String → Object → Bool}
    {key : String} (mem : key ∈ (d.objectsWhere L kind p).map Prod.fst) : validObjectKey key := by
  obtain ⟨row, listed, rfl⟩ := List.mem_map.mp mem
  obtain ⟨⟨⟨M, kind', key'⟩, o⟩, selected, rfl⟩ := List.mem_map.mp listed
  obtain ⟨found, holds⟩ := Table.mem_select.mp selected
  simp only [Bool.and_eq_true, decide_eq_true_eq] at holds
  obtain ⟨⟨rfl, rfl⟩, -⟩ := holds
  exact h.object kind' key' (Option.isSome_of_eq_some found)

theorem WellKeyed.readsValidKeys (h : WellKeyed L d) (since : Int) : ReadsValidKeys L since d where
  row kind key o found := h.object kind key (Option.isSome_of_eq_some found)
  versions kind includeNotes := by
    refine ⟨_, rfl, fun key named => ?_⟩
    simp only [mem_namedKeys, Sql.eval, List.map_map] at named
    exact h.listed named
  topVersions includeNotes := by
    refine ⟨_, rfl, fun key named => ?_⟩
    simp only [mem_namedKeys, Sql.eval, List.map_map] at named
    exact h.listed named
  deleted := by
    refine ⟨_, deleted_run, fun kind key named => ?_⟩
    rw [deletedKeys_body, mem_deletedSince] at named
    obtain ⟨v, found, -⟩ := named
    exact h.deletion kind key (Option.isSome_of_eq_some found)
  fulltext := by
    refine ⟨_, rfl, fun key named => ?_⟩
    simp only [mem_namedKeys, Sql.eval, List.map_map] at named
    obtain ⟨⟨⟨M, key'⟩, row⟩, selected, rfl⟩ := List.mem_map.mp named
    obtain ⟨found, holds⟩ := Table.mem_select.mp selected
    simp only [Bool.and_eq_true, decide_eq_true_eq] at holds
    obtain ⟨rfl, -⟩ := holds
    exact h.fulltext key' (Option.isSome_of_eq_some found)

end Reads

section Handled
variable {digests : Digests} {config : Config} {ι : Type} [DecidableEq ι]
  {σ₀ σ : Session (server digests config) ι} {events : List (Event (server digests config))}
  {L : LibraryId}

/-- While the committed deletions and full texts name valid keys, a client reads
valid keys only. -/
theorem keys_valid_of_run (run : Run σ₀ events σ) (starts : Starts σ₀) (fresh : Fresh L σ₀.state)
    (handled : ∀ expected op a d d', .commit (Request.guarded L expected op) a d d' ∈ events →
      ∃ access m, Mutation.request access m = .ok (.guarded L expected op))
    (names : ∀ expected op a d d', .commit (Request.guarded L expected op) a d d' ∈ events →
      op.NamesValidKeys) (since : Int) : ReadsValidKeys L since σ.state := by
  have valid : WellKeyed L σ.state := by
    refine invariant_of_run run starts L (I := WellKeyed L) ?_ ?_ ?_ ?_
    · exact ⟨fun kind key found => by simp [fresh.object] at found,
        fun kind key found => by simp [fresh.deletion] at found,
        fun key found => by simp [fresh.fulltext] at found⟩
    · exact fun d d' same h => h.congr same
    · intro expected op a d d' he committed h
      obtain ⟨access, m, made⟩ := handled expected op a d d' he
      exact committed.after ▸ edits_wellKeyed (h.setVersion _) made (names expected op a d d' he)
    · intro key upload d h
      refine edit_wellKeyed (h.setVersion _) fun _ names => ?_
      cases names
  exact valid.readsValidKeys since

def listedTextBatch : List Value :=
  [.object [("key", .string "TEXT2345"), ("content", .string "text")]]

def listedTextRequest : Request := .guarded newLibrary (some 1) (.writeFulltext listedTextBatch)

def unlistRequest : Request :=
  .guarded newLibrary (some 2) (.delete .item ["TEXT2345"] true)

theorem unlistRequest_handled : Handlers.delete ownerAccess .item
    [("if-unmodified-since-version", "2")] [("itemKey", "TEXT2345")] = .ok unlistRequest := by
  have csv : csvOf [("itemKey", "TEXT2345")] (ObjectKind.item.name ++ "Key") = ["TEXT2345"] := by
    change ("TEXT2345".splitOn ",").filter (· ≠ "") = ["TEXT2345"]
    rw [splitOn_noteKey]
    decide
  change Except.ok (Request.guarded newLibrary (some 2) (.delete .item (csvOf _ _) true)) = _
  rw [csv]
  rfl

def listedNoteDatabase : Database := plainServer.after newDatabase 6 noteRequest

def listedTextDatabase : Database := plainServer.after listedNoteDatabase 6 listedTextRequest

def unlistedDatabase : Database := plainServer.after listedTextDatabase 6 unlistRequest

/-- A note and its full text are stored, and the note is deleted. -/
theorem keys_valid_of_run_note :
    (∀ since, ReadsValidKeys newLibrary since unlistedDatabase) ∧
    (unlistedDatabase.deletion.find? (newLibrary, .object .item, "TEXT2345")).isSome ∧
    (unlistedDatabase.fulltext.find? (newLibrary, "TEXT2345")).isSome := by
  have start : Run (Session.idle newDatabase : Session plainServer Unit) []
      (Session.idle newDatabase) := .refl
  obtain ⟨es, run, commits⟩ := start.then_alone (r := noteRequest) (t := listedNoteDatabase) () 6
    rfl rfl (by constructor <;> decide)
  obtain ⟨es', run', commits'⟩ := run.then_alone (r := listedTextRequest)
    (t := listedTextDatabase) () 6 rfl rfl (by constructor <;> decide)
  obtain ⟨events, whole, commits''⟩ := run'.then_alone (r := unlistRequest)
    (t := unlistedDatabase) () 6 rfl rfl (by constructor <;> decide)
  have only {r : Request} {a : Reply} {d d' : Database} (he : .commit r a d d' ∈ events) :
      r = noteRequest ∨ r = listedTextRequest ∨ r = unlistRequest := by
    rcases commits'' _ _ _ _ he with he | ⟨same, -⟩
    · rcases commits' _ _ _ _ he with he | ⟨same, -⟩
      · rcases commits _ _ _ _ he with he | ⟨same, -⟩
        · cases he
        · exact .inl same
      · exact .inr (.inl same)
    · exact .inr (.inr same)
  refine ⟨fun since => keys_valid_of_run whole (starts_idle newDatabase_valid)
    newLibrary_fresh ?_ ?_ since, rfl, rfl⟩
  · intro expected op a d d' he
    rcases only he with same | same | same
    · refine ⟨ownerAccess, .write .item [("if-unmodified-since-version", "0")]
        (some [.object [("key", .string "TEXT2345"), ("itemType", .string "note")]])
        fun _ _ => 0, ?_⟩
      rw [same]
      rfl
    · refine ⟨ownerAccess, .fulltextWrite [("if-unmodified-since-version", "1")]
        (some listedTextBatch), ?_⟩
      rw [same]
      rfl
    · refine ⟨ownerAccess, .delete .item [("if-unmodified-since-version", "2")]
        [("itemKey", "TEXT2345")], ?_⟩
      rw [same]
      exact unlistRequest_handled
  · intro expected op a d d' he
    rcases only he with same | same | same
    · cases same
      trivial
    · cases same
      intro item mem
      cases List.mem_singleton.mp mem
      decide
    · cases same
      intro key mem
      cases List.mem_singleton.mp mem
      decide

def badTextBatch : List Value := [.object [("key", .string "bad"), ("content", .string "text")]]

def badTextRequest : Request := .guarded newLibrary (some 0) (.writeFulltext badTextBatch)

def badTextDatabase : Database := plainServer.after newDatabase 6 badTextRequest

/-- A text is stored under whatever key it is sent with. -/
theorem bad_key_listed : ∃ events a map,
    Handlers.fulltextWrite ownerAccess [("if-unmodified-since-version", "0")]
      (some badTextBatch) = .ok badTextRequest ∧
    Run (Session.idle newDatabase : Session plainServer Unit)
      (events ++ [.commit badTextRequest a newDatabase badTextDatabase])
      (Session.idle badTextDatabase) ∧
    (fulltextVersions newLibrary 0).run badTextDatabase = some (badTextDatabase, map) ∧
    namedKeys map = ["bad"] ∧ ¬ ReadsValidKeys newLibrary 0 badTextDatabase := by
  obtain ⟨events, a, run, -⟩ := Run.commits (ι := Unit) (S := plainServer) (s := newDatabase)
    (t := badTextDatabase) (r := badTextRequest) () 6 rfl rfl (by constructor <;> decide)
  refine ⟨events, a, _, rfl, run, rfl, rfl, fun valid => ?_⟩
  obtain ⟨map, same, names⟩ := valid.fulltext
  obtain ⟨-, rfl⟩ := Prod.mk.inj (Option.some.inj (same.symm.trans rfl))
  exact absurd (names "bad" (by decide)) (by decide)

end Handled

end Xotero
