import Xotero.Guarantees.Consistency
import Xotero.Handlers.Listings

/-!
What a client may conclude from one GET of a sync while other clients commit
between its two reads: a version read before the rows is a safe cursor, and one
read after them is not.
-/

namespace Xotero

open Session (Run)

/-! ### Rows that carry a version -/

/-- The listings that `format=versions` reads. -/
inductive VersionListing where
  | items
  | topItems
  | collections
  | searches
  | fulltext

namespace VersionListing

def read (L : LibraryId) (params : Params) : VersionListing → Txn Db (Option Response)
  | .items => Handlers.itemSyncRead L params false true
  | .topItems => Handlers.itemSyncRead L params true true
  | .collections => do return some (← Handlers.read L .collection params)
  | .searches => do return some (← Handlers.read L .search params)
  | .fulltext => do return some (← Handlers.fulltextVersions L params)

/-- The version of a live row of the listing. -/
def version (L : LibraryId) : VersionListing → Database → String → Option Int
  | .items, d, key => (d.object.find? (L, .item, key)).map Object.version
  | .topItems, d, key =>
      ((d.object.find? (L, .item, key)).filter fun o => o.data.isTop).map Object.version
  | .collections, d, key => (d.object.find? (L, .collection, key)).map Object.version
  | .searches, d, key => (d.object.find? (L, .search, key)).map Object.version
  | .fulltext, d, key => (d.fulltext.find? (L, key)).map Fulltext.version

/-- The rows a response is made of. -/
def rows (L : LibraryId) (since : Int) (d : Database) : VersionListing → List (String × Int)
  | .items => Sql.eval (.versions L .item since true) d
  | .topItems => Sql.eval (.topVersions L since true) d
  | .collections => Sql.eval (.versions L .collection since true) d
  | .searches => Sql.eval (.versions L .search since true) d
  | .fulltext => Sql.eval (.fulltextVersions L since) d

end VersionListing

def settingVersion (L : LibraryId) (d : Database) (key : String) : Option Int :=
  (d.setting.find? (L, key)).map Setting.version

section Listings
variable {L : LibraryId} {since n : Int} {d d' : Database} {key : String}

theorem mem_versions {kind : ObjectKind} :
    (key, n) ∈ Sql.eval (.versions L kind since true) d ↔
      (d.object.find? (L, kind, key)).map Object.version = some n ∧ since < n := by
  simp only [Sql.eval, List.mem_map, Prod.mk.injEq, Option.map_eq_some_iff]
  constructor
  · rintro ⟨⟨k, o⟩, h, rfl, rfl⟩
    obtain ⟨found, holds⟩ := mem_objectsWhere.mp h
    exact ⟨⟨o, found, rfl⟩, by simpa [noteVisible] using holds⟩
  · rintro ⟨⟨o, found, rfl⟩, above⟩
    exact ⟨(key, o), mem_objectsWhere.mpr ⟨found, by simpa [noteVisible] using above⟩, rfl, rfl⟩

theorem VersionListing.mem_rows (listing : VersionListing) :
    (key, n) ∈ listing.rows L since d ↔ listing.version L d key = some n ∧ since < n := by
  cases listing with
  | items | collections | searches => exact mem_versions
  | topItems =>
      simp only [rows, version, Sql.eval, List.mem_map, Prod.mk.injEq, Option.map_eq_some_iff,
        Option.filter_eq_some_iff]
      constructor
      · rintro ⟨⟨k, o⟩, h, rfl, rfl⟩
        obtain ⟨found, holds⟩ := mem_objectsWhere.mp h
        simp only [noteVisible, Bool.true_or, Bool.and_true, Bool.and_eq_true,
          decide_eq_true_eq] at holds
        exact ⟨⟨o, ⟨found, holds.1⟩, rfl⟩, holds.2⟩
      · rintro ⟨⟨o, ⟨found, top⟩, rfl⟩, above⟩
        exact ⟨(key, o), mem_objectsWhere.mpr ⟨found, by simp [noteVisible, top, above]⟩, rfl, rfl⟩
  | fulltext =>
      simp only [rows, version, Sql.eval, List.mem_map, Prod.mk.injEq, Option.map_eq_some_iff]
      constructor
      · rintro ⟨⟨⟨M, k⟩, row⟩, h, rfl, rfl⟩
        obtain ⟨found, holds⟩ := Table.mem_select.mp h
        simp only [Bool.and_eq_true, decide_eq_true_eq] at holds
        obtain ⟨rfl, above⟩ := holds
        exact ⟨⟨row, found, rfl⟩, above⟩
      · rintro ⟨⟨row, found, rfl⟩, above⟩
        exact ⟨((L, key), row), Table.mem_select.mpr ⟨found, by simpa using above⟩, rfl, rfl⟩

/-- Rows whose version is the version of the library when they were written. -/
structure Versioned (L : LibraryId) (version : Database → String → Option Int) : Prop where
  same : ∀ {d d'}, LibraryAgree L d d' → ∀ key, version d' key = version d key
  stamped : ∀ {n d d'}, StampedAt L n d d' → ∀ key,
    version d' key = version d key ∨ version d' key = some n ∨ version d' key = none
  bounded : ∀ {d}, Bounded L d → ∀ key n, version d key = some n → n ≤ d.version L

theorem Stamped.version {ρ : Type} {version : ρ → Int} {a b : Option ρ}
    (h : Stamped version n a b) :
    b.map version = a.map version ∨ b.map version = some n ∨ b.map version = none := by
  rcases h with same | ⟨r, stored, rfl⟩ | removed
  · exact .inl (same ▸ rfl)
  · exact .inr (.inl (stored ▸ rfl))
  · exact .inr (.inr (removed ▸ rfl))

/-- A row may also leave a filtered listing when it is stored. -/
theorem Stamped.filter {ρ : Type} {version : ρ → Int} {a b : Option ρ}
    (h : Stamped version n a b) (p : ρ → Bool) : Stamped version n (a.filter p) (b.filter p) := by
  rcases h with same | ⟨r, stored, rfl⟩ | removed
  · exact .inl (same ▸ rfl)
  · cases hp : p r with
    | true => exact .inr (.inl ⟨r, by simp [stored, Option.filter, hp], rfl⟩)
    | false => exact .inr (.inr (by simp [stored, Option.filter, hp]))
  · exact .inr (.inr (by simp [removed]))

theorem versioned_object (L : LibraryId) (kind : ObjectKind) :
    Versioned L fun d key => (d.object.find? (L, kind, key)).map Object.version where
  same agree key := by rw [agree.find?_object kind key]
  stamped h key := (h.object kind key).version
  bounded b key n h := by
    obtain ⟨o, found, rfl⟩ := Option.map_eq_some_iff.mp h
    exact b.object kind key o found

theorem VersionListing.versioned (L : LibraryId) (listing : VersionListing) :
    Versioned L (listing.version L) := by
  cases listing with
  | items | collections | searches => exact versioned_object L _
  | topItems =>
      refine ⟨fun agree key => ?_, fun h key => ((h.object .item key).filter _).version,
        fun b key n h => ?_⟩
      · simp only [version, agree.find?_object .item key]
      · obtain ⟨o, found, rfl⟩ := Option.map_eq_some_iff.mp h
        exact b.object .item key o (Option.filter_eq_some_iff.mp found).1
  | fulltext =>
      refine ⟨fun agree key => ?_, fun h key => (h.fulltext key).version, fun b key n h => ?_⟩
      · simp only [version, Table.find?_eq_of_part_eq agree.fulltext (inLibrary_self L key)]
      · obtain ⟨t, found, rfl⟩ := Option.map_eq_some_iff.mp h
        exact b.fulltext key t found

theorem versioned_setting (L : LibraryId) : Versioned L (settingVersion L) where
  same agree key := by
    simp only [settingVersion, Table.find?_eq_of_part_eq agree.setting (inLibrary_self L key)]
  stamped h key := (h.setting key).version
  bounded b key n h := by
    obtain ⟨s, found, rfl⟩ := Option.map_eq_some_iff.mp h
    exact b.setting key s found

theorem Versioned.step {version : Database → String → Option Int} (h : Versioned L version)
    (step : LibraryStep L d d') :
    Listing.Step ⟨d.version L, version d⟩ ⟨d'.version L, version d'⟩ := by
  cases step.version_eq with
  | inl change =>
      refine .change (by show d.version L < d'.version L; omega) fun key => ?_
      exact change.1 ▸ h.stamped change.2 key
  | inr agree => exact .same agree.version.symm (h.same agree)

/-! ### The entries of a response -/

def numberOf : Value → Option Int
  | .number (.int n) => some n
  | _ => none

/-- The version that a map of versions gives a key. -/
def listedVersion (map : Value) (key : String) : Option Int := (map.get key).bind numberOf

/-- The version that a map of settings gives a key. -/
def listedSetting (map : Value) (key : String) : Option Int :=
  ((map.get key).bind fun entry => entry.get "version").bind numberOf

theorem VersionListing.listedVersion_rows (listing : VersionListing) :
    listedVersion (versionMap (listing.rows L since d)) key = some n ↔
      listing.version L d key = some n ∧ since < n := by
  have functional (m m' : Int) (h : (key, m) ∈ listing.rows L since d)
      (h' : (key, m') ∈ listing.rows L since d) : m = m' := by
    have one := (listing.mem_rows.mp h).1
    have two := (listing.mem_rows.mp h').1
    exact Option.some.inj (one.symm.trans two)
  rw [← listing.mem_rows, listedVersion, Option.bind_eq_some_iff]
  constructor
  · rintro ⟨v, entry, number⟩
    obtain ⟨m, hm, rfl⟩ := (versionMap_get functional v).mp entry
    obtain rfl : m = n := Option.some.inj number
    exact hm
  · exact fun h => ⟨.ofInt n, (versionMap_get functional _).mpr ⟨n, h, rfl⟩, rfl⟩

theorem mem_settings {row : Setting} :
    (key, row) ∈ Sql.eval (.settings L) d ↔ d.setting.find? (L, key) = some row := by
  simp only [Sql.eval, List.mem_map, Prod.mk.injEq]
  constructor
  · rintro ⟨⟨⟨M, k⟩, row⟩, h, rfl, rfl⟩
    obtain ⟨found, same⟩ := Table.mem_select.mp h
    obtain rfl : M = L := by simpa using same
    exact found
  · exact fun found => ⟨((L, key), row), Table.mem_select.mpr ⟨found, by simp⟩, rfl, rfl⟩

theorem listedSetting_body :
    listedSetting (settingsBody (Sql.eval (.settings L) d)) key = settingVersion L d key := by
  have functional (r r' : Setting) (h : (key, r) ∈ Sql.eval (.settings L) d)
      (h' : (key, r') ∈ Sql.eval (.settings L) d) : r = r' :=
    Option.some.inj ((mem_settings.mp h).symm.trans (mem_settings.mp h'))
  have entry := get_foldl_insert_nil (fun row : Setting =>
    .object [("value", row.value), ("version", .ofInt row.version)]) _ key functional
  ext m
  simp only [listedSetting, settingsBody, Value.get_object, settingVersion,
    Option.bind_eq_some_iff, Option.map_eq_some_iff]
  constructor
  · rintro ⟨v, ⟨w, hw, member⟩, number⟩
    obtain ⟨row, hr, rfl⟩ := (entry w).mp hw
    refine ⟨row, mem_settings.mp hr, ?_⟩
    obtain rfl : Value.ofInt row.version = v := by simpa [Value.get, Members.get] using member
    exact Option.some.inj number
  · rintro ⟨row, found, rfl⟩
    exact ⟨.ofInt row.version, ⟨_, (entry _).mpr ⟨row, mem_settings.mpr found, rfl⟩,
      by simp [Value.get, Members.get]⟩, rfl⟩

end Listings

/-! ### Two reads of one request -/

section Run
variable {digests : Digests} {config : Config} {ι : Type} [DecidableEq ι]
  {σ₀ σ₁ σ₂ : Session (server digests config) ι}
  {events events' : List (Event (server digests config))} {L : LibraryId}

/-- A response with version `h`, read at `d`, that lists rows read at `d'`. -/
structure SafeCursor (L : LibraryId) (version : Database → String → Option Int) (since h : Int)
    (listed : String → Option Int) (d d' : Database)
    (events : List (Event (server digests config))) : Prop where
  header_eq : h = d.version L
  header_le : h ≤ d'.version L
  sound : ∀ key n, listed key = some n → version d' key = some n
  complete : ∀ key n, version d' key = some n → since < n → listed key = some n
  missed : ∀ key n, version d key = some n → since < n → n ≤ h →
    (listed key).isSome ∨ ∃ r a e e', .commit r a e e' ∈ events ∧
      version e key ≠ none ∧ version e' key = none ∧ h < e'.version L

/-- The changes of the later part of a run, each with the commit that made it. -/
theorem changes_between (run : Run σ₀ events σ₁) (run' : Run σ₁ events' σ₂)
    (starts : Starts σ₀) (L : LibraryId) : Relation.ReflTransGen (fun d d' =>
      LibraryAgree L d d' ∨ LibraryStep L d d' ∧ ∃ r a, .commit r a d d' ∈ events')
      σ₁.state σ₂.state := by
  refine run'.chain fun e he d d' moved => ?_
  have he' := List.mem_append_right events he
  have step := libraryStep_of_event (run.trans run') starts L e he' d d' moved
  cases moved with
  | commit => exact .inr ⟨step, _, _, he⟩
  | auto =>
      obtain ⟨-, upload, rfl⟩ := auto_effect (run.trans run') starts he'
      exact .inl (upload_agree upload L d)

/-- Reading the version before the rows gives a safe cursor. -/
theorem safeCursor_of_run (run : Run σ₀ events σ₁) (run' : Run σ₁ events' σ₂)
    (starts : Starts σ₀) (fresh : Fresh L σ₀.state) {version : Database → String → Option Int}
    (versioned : Versioned L version) {since : Int} {listed : String → Option Int}
    (sound : ∀ key n, listed key = some n → version σ₂.state key = some n)
    (complete : ∀ key n, version σ₂.state key = some n → since < n → listed key = some n) :
    SafeCursor L version since (σ₁.state.version L) listed σ₁.state σ₂.state events' := by
  have bounded := bounded_of_steps (librarySteps_of_run run starts L) fresh.bounded
  refine ⟨rfl, version_le_of_steps (librarySteps_between run run' starts L), sound, complete, ?_⟩
  intro key n here above _
  have step (d d' : Database) (h : LibraryAgree L d d' ∨ LibraryStep L d d' ∧
      ∃ r a, Event.commit (S := server digests config) r a d d' ∈ events') :
      Listing.Step ⟨d.version L, version d⟩ ⟨d'.version L, version d'⟩ := by
    cases h with
    | inl agree => exact versioned.step (.apart agree)
    | inr change => exact versioned.step change.1
  rcases Listing.cursor step (changes_between run run' starts L)
    (fun k m => versioned.bounded bounded k m) here above with listed | dropped
  · obtain ⟨m, live, above'⟩ := listed
    exact .inl (Option.isSome_of_eq_some (complete key m live above'))
  · obtain ⟨d, d', agree | ⟨-, r, a, he⟩, live, gone, later⟩ := dropped
    · exact absurd ((versioned.same agree key).symm.trans gone) live
    · exact .inr ⟨r, a, d, d', he, live, gone, later⟩

/-! #### The listings -/

theorem replay_listing {d d' : Database} {params : Params} (listing : VersionListing)
    (found : (d.library.find? L).isSome) (format : params.get "format" = some "versions") :
    (listing.read L params).replay [d, d'] = some (some ⟨200, d.version L,
      some (versionMap (listing.rows L (sinceOf params) d'))⟩) := by
  cases listing with
  | items | topItems =>
      simp only [VersionListing.read, Handlers.itemSyncRead, if_pos format]
      rw [replay_currentVersion found]
      rfl
  | collections | searches =>
      simp only [VersionListing.read, Handlers.read, if_pos format]
      rw [Txn.bind_assoc, replay_currentVersion found]
      rfl
  | fulltext =>
      simp only [VersionListing.read, Handlers.fulltextVersions]
      rw [Txn.bind_assoc, replay_currentVersion found]
      rfl

theorem replay_settings {d d' : Database} {headers params : Params}
    (found : (d.library.find? L).isSome) {since : Int}
    (cursor : since = max (sinceOf params) (ifModifiedSince headers)) :
    (Handlers.settingsRead L headers params).replay [d, d'] =
      if 0 < since ∧ d.version L ≤ since then some ⟨304, d.version L, none⟩
      else some ⟨200, d.version L, some (settingsBody (Sql.eval (.settings L) d'))⟩ := by
  rw [Handlers.settingsRead, sinceCheck, Txn.bind_assoc, replay_currentVersion found, ← cursor]
  by_cases fresh : 0 < since ∧ d.version L ≤ since
  · rw [if_pos fresh]
    simp [fresh]
  · rw [if_neg fresh]
    have stale : (decide (0 < since) && decide (d.version L ≤ since)) = false := by
      simpa using fresh
    simp only [Txn.pure_eq, Txn.ret_bind, stale]
    rfl

/-- What the version reads and the settings read of a sync give a client. -/
theorem sync_reads_safe (run : Run σ₀ events σ₁) (run' : Run σ₁ events' σ₂)
    (starts : Starts σ₀) (fresh : Fresh L σ₀.state) (found : (σ₁.state.library.find? L).isSome)
    (headers params : Params) :
    (∀ listing : VersionListing, params.get "format" = some "versions" →
      ∃ h map, (listing.read L params).replay [σ₁.state, σ₂.state] =
          some (some ⟨200, h, some map⟩) ∧
        SafeCursor L (listing.version L) (sinceOf params) h (listedVersion map)
          σ₁.state σ₂.state events') ∧
    ∃ h since, since = max (sinceOf params) (ifModifiedSince headers) ∧
      ((∃ map, (Handlers.settingsRead L headers params).replay [σ₁.state, σ₂.state] =
          some ⟨200, h, some map⟩ ∧
        SafeCursor L (settingVersion L) since h (listedSetting map)
          σ₁.state σ₂.state events') ∨
      (Handlers.settingsRead L headers params).replay [σ₁.state, σ₂.state] =
          some ⟨304, h, none⟩ ∧ BoundedBy L since σ₁.state) := by
  refine ⟨fun listing format => ⟨_, _, replay_listing listing found format, ?_⟩,
    σ₁.state.version L, _, rfl, ?_⟩
  · refine safeCursor_of_run run run' starts fresh (listing.versioned L) (fun key n h => ?_) ?_
    · exact (listing.listedVersion_rows.mp h).1
    · exact fun key n live above => listing.listedVersion_rows.mpr ⟨live, above⟩
  · rw [replay_settings found rfl]
    by_cases current : 0 < max (sinceOf params) (ifModifiedSince headers) ∧
        σ₁.state.version L ≤ max (sinceOf params) (ifModifiedSince headers)
    · rw [if_pos current]
      have bounded := bounded_of_steps (librarySteps_of_run run starts L) fresh.bounded
      exact .inr ⟨rfl, bounded.mono current.2⟩
    · rw [if_neg current]
      refine .inl ⟨_, rfl, safeCursor_of_run run run' starts fresh (versioned_setting L) ?_ ?_⟩
      · exact fun key n h => listedSetting_body.symm.trans h
      · exact fun key n live _ => listedSetting_body.trans live

/-- A note is stored between the two reads. -/
theorem sync_reads_safe_note : ∃ d' h map,
    (VersionListing.items.read newLibrary [("format", "versions")]).replay [newDatabase, d'] =
      some (some ⟨200, h, some map⟩) ∧ h = 0 ∧ listedVersion map "TEXT2345" = some 1 := by
  obtain ⟨events, d', run, -, stored⟩ := noteRequest_runs
  obtain ⟨listings, -⟩ := sync_reads_safe .refl run (starts_idle newDatabase_valid)
    newLibrary_fresh rfl [] [("format", "versions")]
  obtain ⟨h, map, read, safe⟩ := listings .items rfl
  exact ⟨d', h, map, read, safe.header_eq, safe.complete "TEXT2345" 1 stored (by decide)⟩

/-! #### The deletion log -/

/-- The names of one kind that a deletion response lists. -/
def deletedNames (kind : DeletionKind) (response : Value) : List String :=
  match kind with
  | .object kind => deletedKeys kind response
  | .setting => deletedSettings response
  | .tag => (response.elements "tags").filterMap fun t => t.getText "tag"

theorem deletedNames_body (kind : DeletionKind) (rows : List (DeletionKind × String)) :
    deletedNames kind (deletedBody rows) = ofKind kind rows := by
  cases kind with
  | object kind => exact deletedKeys_body rows
  | setting => exact deletedSettings_body rows
  | tag =>
      have tags : (deletedBody rows).elements "tags" = (ofKind .tag rows).map deletedTag := by
        simp [Value.elements, deletedBody, Value.get, Members.get]
      rw [deletedNames, tags, List.filterMap_map]
      exact List.filterMap_some

/-- The entry an edit makes in the deletion log. -/
def Edit.logs : Edit → Option (DeletionKind × String)
  | .remove kind key => some (.object kind, key)
  | .removeSetting key => some (.setting, key)
  | .removeTag tag => some (.tag, tag)
  | _ => none

section Log
variable {n v : Int} {d : Database} {kind : DeletionKind} {key : String}

theorem find?_put_log {k : DeletionKind} {name : String}
    (dead : (d.deletion.put (L, k, name) n).find? (L, kind, key) = some v) :
    d.deletion.find? (L, kind, key) = some v ∨ some (k, name) = some (kind, key) := by
  by_cases same : (L, kind, key) = (L, k, name)
  · cases same
    exact .inr rfl
  · exact .inl (by rwa [Table.find?_put_ne _ _ same] at dead)

/-- An entry of the log is old or made by the edit. -/
theorem edit_deletion {e : Edit}
    (dead : (Database.edit L n d e).deletion.find? (L, kind, key) = some v) :
    d.deletion.find? (L, kind, key) = some v ∨ e.logs = some (kind, key) := by
  cases e with
  | store kind' key' provided =>
      simp only [Database.edit, Table.find?_erase] at dead
      split at dead
      · cases dead
      · exact .inl dead
  | storeSetting | storeText | register => exact .inl dead
  | remove | removeSetting | removeTag => exact find?_put_log dead

theorem edits_deletion {es : List Edit}
    (dead : (Database.edits L n d es).deletion.find? (L, kind, key) = some v) :
    d.deletion.find? (L, kind, key) = some v ∨ ∃ e ∈ es, e.logs = some (kind, key) := by
  induction es generalizing d with
  | nil => exact .inl dead
  | cons e es ih =>
      rcases ih dead with before | ⟨e', he', logs⟩
      · rcases edit_deletion before with before | logs
        · exact .inl before
        · exact .inr ⟨e, by simp, logs⟩
      · exact .inr ⟨e', List.mem_cons_of_mem _ he', logs⟩

end Log

/-- While the operations that commit between the two reads delete only what the
log already lists above the cursor, no deletion is missed. -/
theorem deleted_cursor_safe (run : Run σ₀ events σ₁) (run' : Run σ₁ events' σ₂)
    (starts : Starts σ₀) (found : (σ₂.state.library.find? L).isSome) (params : Params)
    (known : ∀ expected op a d d', .commit (Request.guarded L expected op) a d d' ∈ events' →
      ∀ e ∈ op.edits, ∀ kind key, e.logs = some (kind, key) →
        ∃ v, d.deletion.find? (L, kind, key) = some v ∧ sinceOf params < v) :
    ∃ h body, (Handlers.deleted L params).replay [σ₁.state, σ₂.state] =
        some ⟨200, h, some body⟩ ∧ h = σ₂.state.version L ∧
      ∀ kind key v, σ₂.state.deletion.find? (L, kind, key) = some v → sinceOf params < v →
        v ≤ h → key ∈ deletedNames kind body := by
  have listed : ∀ kind key, (∃ v, σ₂.state.deletion.find? (L, kind, key) = some v ∧
      sinceOf params < v) → ∃ v, σ₁.state.deletion.find? (L, kind, key) = some v ∧
        sinceOf params < v := by
    refine invariant_between run run' starts L (I := fun d => ∀ kind key,
      (∃ v, d.deletion.find? (L, kind, key) = some v ∧ sinceOf params < v) →
        ∃ v, σ₁.state.deletion.find? (L, kind, key) = some v ∧ sinceOf params < v) ?_ ?_ ?_ ?_
    · exact fun kind key listed => listed
    · intro d d' agree before kind key
      rw [← Table.find?_eq_of_part_eq agree.deletion (inLibrary_self L (kind, key))]
      exact before kind key
    · rintro expected op a d d' he committed before kind key ⟨v, dead, above⟩
      rw [committed.after] at dead
      rcases edits_deletion dead with old | ⟨e, hop, logs⟩
      · exact before kind key ⟨v, by simpa using old, above⟩
      · exact before kind key (known expected op a d d' he e hop kind key logs)
    · rintro item upload d before kind key ⟨v, dead, above⟩
      rcases edit_deletion dead with old | logs
      · exact before kind key ⟨v, by simpa using old, above⟩
      · cases logs
  refine ⟨σ₂.state.version L, deletedBody (Sql.eval (.deletedSince L (sinceOf params))
    σ₁.state), ?_, rfl, fun kind key v dead above _ => ?_⟩
  · rw [Handlers.deleted, Xotero.deleted, Txn.bind_assoc, replay_execute rfl, Txn.pure_eq,
      Txn.ret_bind, replay_currentVersion found]
    rfl
  · rw [deletedNames_body, mem_deletedSince]
    exact listed kind key ⟨v, dead, above⟩

def deleteNoteRequest : Request :=
  .guarded newLibrary (some 1) (.delete .item ["TEXT2345"] true)

def deleteAgainRequest : Request :=
  .guarded newLibrary (some 2) (.delete .item ["TEXT2345"] true)

def noteDatabase : Database := plainServer.after newDatabase 6 noteRequest

def deletedNoteDatabase : Database := plainServer.after noteDatabase 6 deleteNoteRequest

def deletedAgainDatabase : Database := plainServer.after deletedNoteDatabase 6 deleteAgainRequest

/-- A note that is in the log is deleted again between the two reads. -/
theorem deleted_cursor_safe_again : ∃ events events' body,
    Run (Session.idle newDatabase : Session plainServer Unit) events
      (Session.idle deletedNoteDatabase) ∧
    Run (Session.idle deletedNoteDatabase : Session plainServer Unit) events'
      (Session.idle deletedAgainDatabase) ∧
    (Handlers.deleted newLibrary []).replay [deletedNoteDatabase, deletedAgainDatabase] =
      some ⟨200, 3, some body⟩ ∧
    deletedAgainDatabase.deletion.find? (newLibrary, .object .item, "TEXT2345") = some 3 ∧
    "TEXT2345" ∈ deletedNames (.object .item) body := by
  have start : Run (Session.idle newDatabase : Session plainServer Unit) []
      (Session.idle newDatabase) := .refl
  obtain ⟨es, run, -⟩ := start.then_alone (r := noteRequest) (t := noteDatabase) () 6 rfl rfl
    (by constructor <;> decide)
  obtain ⟨events, run, -⟩ := run.then_alone (r := deleteNoteRequest)
    (t := deletedNoteDatabase) () 6 rfl rfl (by constructor <;> decide)
  have between : Run (Session.idle deletedNoteDatabase : Session plainServer Unit) []
      (Session.idle deletedNoteDatabase) := .refl
  obtain ⟨events', run', commits⟩ := between.then_alone (r := deleteAgainRequest)
    (t := deletedAgainDatabase) () 6 rfl rfl (by constructor <;> decide)
  obtain ⟨h, body, read, header, safe⟩ := deleted_cursor_safe run run'
    (starts_idle newDatabase_valid) (L := newLibrary) rfl [] fun expected op a d d' he => by
      rcases commits _ _ _ _ he with he | ⟨again, rfl, -⟩
      · cases he
      · cases again
        intro e hop kind key logs
        cases List.mem_singleton.mp hop
        cases logs
        exact ⟨2, rfl, by decide⟩
  obtain rfl : h = 3 := header
  exact ⟨events, events', body, run, run', read, rfl,
    safe (.object .item) "TEXT2345" 3 rfl (by decide) (by decide)⟩

/-- A note is deleted between the two reads: the response says version 2 and does
not list it, and neither does the next one, since version 2. -/
theorem deletion_missed : ∃ events events' body next,
    Run (Session.idle newDatabase : Session plainServer Unit) events
      (Session.idle noteDatabase) ∧
    Run (Session.idle noteDatabase : Session plainServer Unit) events'
      (Session.idle deletedNoteDatabase) ∧
    (Handlers.deleted newLibrary [("since", "1")]).replay [noteDatabase, deletedNoteDatabase] =
      some ⟨200, 2, some body⟩ ∧
    deletedNoteDatabase.deletion.find? (newLibrary, .object .item, "TEXT2345") = some 2 ∧
    "TEXT2345" ∉ deletedNames (.object .item) body ∧
    (Handlers.deleted newLibrary [("since", "2")]).replay
      [deletedNoteDatabase, deletedNoteDatabase] = some ⟨200, 2, some next⟩ ∧
    "TEXT2345" ∉ deletedNames (.object .item) next := by
  obtain ⟨es, run, -⟩ := Run.alone (S := plainServer) (s := newDatabase)
    (r := noteRequest) () 6 rfl rfl (by constructor <;> decide)
  obtain ⟨es', run', -⟩ := Run.alone (S := plainServer) (s := noteDatabase)
    (r := deleteNoteRequest) () 6 rfl rfl (by constructor <;> decide)
  exact ⟨_, _, _, _, run, run', rfl, rfl, by decide, rfl, by decide⟩

end Run

end Xotero
