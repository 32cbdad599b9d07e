import Xotero.Guarantees.Sync

/-!
Two invariants the server keeps but for one operation each. The version inside
an object's data is that of its row until tags are stripped from it; a live
setting has no tombstone until a deleted one is written again.
-/

namespace Xotero

open Session (Run)

section Edits
variable {L : LibraryId} {n : Int} {d d' : Database}

/-- What each edit of a batch keeps, the batch keeps. -/
theorem edits_keep {I : Database → Prop} {es : List Edit}
    (step : ∀ e ∈ es, ∀ d, I d → I (Database.edit L n d e)) (init : I d) :
    I (Database.edits L n d es) := by
  induction es generalizing d with
  | nil => exact init
  | cons e es ih =>
      exact ih (fun e' he' => step e' (List.mem_cons_of_mem e he')) (step e (by simp) d init)

/-! ### The embedded key and version -/

/-- The data of every object that is a JSON object names its key and version. -/
def Embedded (L : LibraryId) (d : Database) : Prop :=
  ∀ kind key o ms, d.object.find? (L, kind, key) = some o → o.data = .object ms →
    Members.get ms "key" = some (.string key) ∧ Members.get ms "version" = some (.ofInt o.version)

theorem Embedded.congr (h : Embedded L d) (same : ∀ kind key,
    d'.object.find? (L, kind, key) = d.object.find? (L, kind, key)) : Embedded L d' :=
  fun kind key o ms found => h kind key o ms (same kind key ▸ found)

theorem embedded_stampObject {key : String} {v : Value} {ms : Members}
    (h : (stampObject key n v).toJsonb = .object ms) :
    Members.get ms "key" = some (.string key) ∧ Members.get ms "version" = some (.ofInt n) := by
  cases v with
  | object fields =>
      have get (name : String) : Members.get ms name =
          ((stampObject key n (.object fields)).get name).map Value.toJsonb := by
        rw [← Value.get_toJsonb, h, Value.get_object]
      rw [get, get, get_stampObject key n _ rfl, get_stampObject key n _ rfl]
      exact ⟨rfl, rfl⟩
  | null | bool _ | number _ | string _ | array _ => simp [stampObject, Value.toJsonb] at h

theorem embedded_concat {data : Value} {ms : Members} {md5 filename key : String} {mtime : Int}
    (before : ∀ ms, data = .object ms → Members.get ms "key" = some (.string key))
    (h : data.concat (.object (fileStamp n md5 mtime filename)) = .object ms) :
    Members.get ms "key" = some (.string key) ∧ Members.get ms "version" = some (.ofInt n) := by
  cases data with
  | object fields =>
      obtain rfl := Value.object.inj h
      rw [Members.get_concat, Members.get_concat]
      exact ⟨before fields rfl, rfl⟩
  | null | bool _ | number _ | string _ | array _ => simp [Value.concat] at h

/-- Every edit but the removal of a tag restamps the data it stores. -/
theorem edit_embedded (h : Embedded L d) {e : Edit} (other : ∀ tag, e ≠ .removeTag tag) :
    Embedded L (Database.edit L n d e) := by
  intro kind key o ms found data
  cases e with
  | store kind' key' provided =>
      by_cases same : (L, kind, key) = (L, kind', key')
      · obtain ⟨rfl, rfl⟩ : kind = kind' ∧ key = key' := by simpa using same
        simp only [Database.edit, Table.find?_put_self, Option.some.injEq] at found
        subst found
        exact embedded_stampObject data
      · rw [Database.edit, Table.find?_put_ne _ _ same] at found
        exact h kind key o ms found data
  | remove kind' key' =>
      rw [Database.edit, Table.find?_erase] at found
      split at found
      · cases found
      · exact h kind key o ms found data
  | removeTag tag => exact absurd rfl (other tag)
  | register key' upload =>
      rw [Database.edit] at found
      cases ho : d.object.find? (L, .item, key') with
      | none =>
          simp only [ho] at found
          exact h kind key o ms found data
      | some o' =>
          simp only [ho] at found
          by_cases same : (L, kind, key) = (L, .item, key')
          · obtain ⟨rfl, rfl⟩ : kind = .item ∧ key = key' := by simpa using same
            simp only [Table.find?_put_self, Option.some.injEq] at found
            subst found
            exact embedded_concat (fun ms hms => (h .item key o' ms ho hms).1) data
          · rw [Table.find?_put_ne _ _ same] at found
            exact h kind key o ms found data
  | storeSetting | removeSetting | storeText => exact h kind key o ms found data

/-- An item of the library carries the tag. -/
def CarriesTag (L : LibraryId) (d : Database) (tag : String) : Prop :=
  ∃ key o, d.object.find? (L, .item, key) = some o ∧ o.data.tagNames.contains tag = true

/-- Removing tags that no item carries leaves the objects as they are. -/
theorem removeTags_objects {tags : List String} (h : ∀ tag ∈ tags, ¬ CarriesTag L d tag)
    (kind : ObjectKind) (key : String) :
    (Database.edits L n d (tags.map .removeTag)).object.find? (L, kind, key) =
      d.object.find? (L, kind, key) := by
  induction tags generalizing d kind key with
  | nil => rfl
  | cons tag tags ih =>
      have same (kind : ObjectKind) (key : String) :
          (Database.edit L n d (.removeTag tag)).object.find? (L, kind, key) =
            d.object.find? (L, kind, key) := by
        rw [find?_removeTag]
        cases ho : d.object.find? (L, kind, key) with
        | none => rfl
        | some o =>
            rw [Option.map_some, if_neg]
            rintro ⟨rfl, carries⟩
            exact h tag (by simp) ⟨key, o, ho, carries⟩
      refine (ih (fun tag' ht => ?_) kind key).trans (same kind key)
      rintro ⟨key', o, found, carries⟩
      exact h tag' (List.mem_cons_of_mem tag ht) ⟨key', o, same .item key' ▸ found, carries⟩

theorem mem_storeEdits {kind : ObjectKind} {random : Nat → Fin 8 → UInt8} {index : Nat}
    {batch : List Value} {e : Edit} (he : e ∈ storeEdits kind random index batch) :
    ∃ key provided, e = .store kind key provided := by
  induction batch generalizing index with
  | nil => simp [storeEdits] at he
  | cons provided batch ih =>
      cases List.mem_cons.mp he with
      | inl first => exact ⟨_, _, first⟩
      | inr rest => exact ih rest

theorem edits_embedded {op : GuardedOp} (h : Embedded L d)
    (strips : ∀ tags, op = .deleteTags tags → ∀ tag ∈ tags, ¬ CarriesTag L d tag) :
    Embedded L (Database.edits L n d op.edits) := by
  cases op with
  | deleteTags tags => exact h.congr (removeTags_objects (strips tags rfl))
  | write kind batch allow random =>
      refine edits_keep (fun e he d h => edit_embedded h fun tag => ?_) h
      obtain ⟨key, provided, rfl⟩ := mem_storeEdits he
      exact nofun
  | delete | writeSettings | deleteSettings | writeFulltext =>
      refine edits_keep (fun e he d h => edit_embedded h fun tag => ?_) h
      obtain ⟨x, -, rfl⟩ := List.mem_map.mp he
      exact nofun

/-! ### Settings and their tombstones -/

def SettingsDisjoint (L : LibraryId) (d : Database) : Prop :=
  ∀ key row, d.setting.find? (L, key) = some row → d.deletion.find? (L, .setting, key) = none

theorem SettingsDisjoint.congr (h : SettingsDisjoint L d) (same : LibraryAgree L d d') :
    SettingsDisjoint L d' := by
  intro key row found
  have setting : d.setting.find? (L, key) = d'.setting.find? (L, key) :=
    Table.find?_eq_of_part_eq same.setting (inLibrary_self L _)
  have deletion : d.deletion.find? (L, .setting, key) = d'.deletion.find? (L, .setting, key) :=
    Table.find?_eq_of_part_eq same.deletion (inLibrary_self L _)
  exact deletion.symm.trans (h key row (setting.trans found))

theorem SettingsDisjoint.setVersion (h : SettingsDisjoint L d) (m : Int) :
    SettingsDisjoint L (d.setVersion L m) :=
  fun key row found => by simpa using h key row (by simpa using found)

theorem edit_settingsDisjoint (h : SettingsDisjoint L d) {e : Edit}
    (clear : ∀ key entry, e = .storeSetting key entry →
      d.deletion.find? (L, .setting, key) = none) :
    SettingsDisjoint L (Database.edit L n d e) := by
  intro key row found
  cases e with
  | storeSetting key' entry =>
      by_cases same : key = key'
      · exact same ▸ clear key' entry rfl
      · rw [Database.edit, Table.find?_put_ne _ _ (by simpa using same)] at found
        exact h key row found
  | removeSetting key' =>
      by_cases same : key = key'
      · simp [Database.edit, same] at found
      · have ne : (L, key) ≠ (L, key') := by simpa using same
        have ne' : (L, DeletionKind.setting, key) ≠ (L, .setting, key') := by simpa using same
        rw [Database.edit, Table.find?_erase_ne _ ne] at found
        rw [Database.edit, Table.find?_put_ne _ _ ne']
        exact h key row found
  | store | remove | removeTag =>
      simpa [Database.edit, Table.find?_put, Table.find?_erase] using h key row found
  | storeText | register => exact h key row found

theorem edits_settingsDisjoint {op : GuardedOp} (h : SettingsDisjoint L d)
    (clear : ∀ body, op = .writeSettings body → ∀ key ∈ namedKeys body,
      d.deletion.find? (L, .setting, key) = none) :
    SettingsDisjoint L (Database.edits L n d op.edits) := by
  cases op with
  | writeSettings body =>
      -- The tombstones stay as they were while the settings are stored.
      have kept : SettingsDisjoint L (Database.edits L n d (GuardedOp.writeSettings body).edits) ∧
          (Database.edits L n d (GuardedOp.writeSettings body).edits).deletion = d.deletion := by
        refine edits_keep (I := fun d' => SettingsDisjoint L d' ∧ d'.deletion = d.deletion) ?_
          ⟨h, rfl⟩
        rintro e he d' ⟨h', same⟩
        obtain ⟨⟨key, entry⟩, hx, rfl⟩ := List.mem_map.mp he
        refine ⟨edit_settingsDisjoint h' ?_, same⟩
        rintro _ _ ⟨⟩
        rw [same]
        refine clear body rfl key ?_
        cases body with
        | object ms => exact List.mem_map.mpr ⟨(key, entry), hx, rfl⟩
        | _ => simp [Value.asObject] at hx
      exact kept.1
  | write kind batch allow random =>
      refine edits_keep (fun e he d h => edit_settingsDisjoint h fun key entry same => ?_) h
      obtain ⟨key', provided, rfl⟩ := mem_storeEdits he
      cases same
  | delete | deleteSettings | deleteTags | writeFulltext =>
      refine edits_keep (fun e he d h => edit_settingsDisjoint h fun key entry same => ?_) h
      obtain ⟨x, -, rfl⟩ := List.mem_map.mp he
      cases same

end Edits

/-! ### The client's view of the settings -/

def deletedSettings (response : Value) : List String :=
  ((response.get "settings").map Value.strings).getD []

/-- The settings a client keeps when it applies the deletion log to them. -/
def keptSettings (map deletions : Value) : Members :=
  (map.asObject.getD []).filter fun m => !(deletedSettings deletions).contains m.1

/-- The body of a settings response. -/
def settingsBody (rows : List (String × Setting)) : Value :=
  .object (rows.foldl (fun map row => Members.insert row.1
    (.object [("value", row.2.value), ("version", .ofInt row.2.version)]) map) [])

theorem settings_run {L : LibraryId} {d : Database} :
    (settings L).run d = some (d, settingsBody (Sql.eval (.settings L) d)) := rfl

theorem mem_settingsBody {L : LibraryId} {d : Database} {key : String} :
    key ∈ namedKeys (settingsBody (Sql.eval (.settings L) d)) ↔
      (d.setting.find? (L, key)).isSome := by
  simp only [namedKeys, settingsBody]
  rw [mem_names_foldl fun row : Setting =>
    .object [("value", row.value), ("version", .ofInt row.version)]]
  simp only [Sql.eval, List.map_map, List.mem_map, List.map_nil, List.not_mem_nil, or_false]
  constructor
  · rintro ⟨⟨⟨M, k⟩, row⟩, h, rfl⟩
    obtain ⟨found, same⟩ := Table.mem_select.mp h
    obtain rfl : M = L := by simpa using same
    exact Option.isSome_of_eq_some found
  · intro live
    obtain ⟨row, found⟩ := Option.isSome_iff_exists.mp live
    exact ⟨((L, key), row), Table.mem_select.mpr ⟨found, by simp⟩, rfl⟩

theorem deletedSettings_body (rows : List (DeletionKind × String)) :
    deletedSettings (deletedBody rows) = ofKind .setting rows := by
  simp [deletedSettings, deletedBody, Value.get, Members.get, Value.strings_array]

/-! ### Runs -/

section Run
variable {digests : Digests} {config : Config} {ι : Type} [DecidableEq ι]
  {σ₀ σ : Session (server digests config) ι} {events : List (Event (server digests config))}
  {L : LibraryId}

/-- While no committed tag deletion strips an item, every object reports the
version that is inside its data. -/
theorem embedded_of_run (run : Run σ₀ events σ) (starts : Starts σ₀) (fresh : Fresh L σ₀.state)
    (strips : ∀ expected tags a d d',
      .commit (Request.guarded L expected (.deleteTags tags)) a d d' ∈ events →
        ∀ tag ∈ tags, ¬ CarriesTag L d tag) :
    Embedded L σ.state ∧
      ∀ kind key o ms, σ.state.object.find? (L, kind, key) = some o → o.data = .object ms →
        ((objectJson key o.version o.data).get "data").bind (·.get "version") =
          (objectJson key o.version o.data).get "version" := by
  have embedded : Embedded L σ.state := by
    refine invariant_of_run run starts L (I := Embedded L) ?_ ?_ ?_ ?_
    · exact fun kind key o ms found => by simp [fresh.object] at found
    · exact fun d d' same h => h.congr fun kind key => (same.find?_object kind key).symm
    · intro expected op a d d' he committed h
      refine committed.after ▸ edits_embedded (h.congr (by simp)) ?_
      rintro tags rfl tag ht ⟨key, o, found, carries⟩
      exact strips expected tags a d d' he tag ht ⟨key, o, by simpa using found, carries⟩
    · intro key upload d h
      refine edit_embedded (h.congr (by simp)) fun tag removes => ?_
      cases removes
  refine ⟨embedded, fun kind key o ms found data => ?_⟩
  have version := (embedded kind key o ms found data).2
  simp only [objectJson, Value.get_object, Members.get]
  simp [orderFields_get, data, version]

theorem embedded_of_run_note : ∃ d', Embedded newLibrary d' ∧
    d'.object.find? (newLibrary, .item, "TEXT2345") ≠ none := by
  obtain ⟨events, d', run, only, stored⟩ := noteRequest_runs
  refine ⟨d', (embedded_of_run run (starts_idle newDatabase_valid) newLibrary_fresh ?_).1,
    fun absent => by simp [absent] at stored⟩
  intro expected tags a d₁ d₂ he
  cases only _ _ _ _ he

/-- An item that carries a tag is stored, and the tag is deleted. -/
def taggedRequest : Request :=
  .guarded newLibrary (some 0) (.write .item
    [.object [("key", .string "ITEM2345"), ("itemType", .string "book"),
      ("tags", .array [.object [("tag", .string "old")]])]] true fun _ _ => 0)

def untagRequest : Request := .guarded newLibrary (some 1) (.deleteTags ["old"])

def taggedDatabase : Database := plainServer.after newDatabase 6 taggedRequest

def untaggedDatabase : Database := plainServer.after taggedDatabase 6 untagRequest

/-- The row is at version 2 and its data says 1. -/
theorem embedded_version_stale : ∃ events,
    Run (Session.idle newDatabase : Session plainServer Unit) events
      (Session.idle untaggedDatabase) ∧
    ((untaggedDatabase.object.find? (newLibrary, .item, "ITEM2345")).map fun o =>
      (o.version, (o.data.get "version").bind Value.asInt)) = some (2, some 1) ∧
    ¬ Embedded newLibrary untaggedDatabase := by
  obtain ⟨es, run, -⟩ := Run.alone (S := plainServer) (s := newDatabase)
    (r := taggedRequest) () 6 rfl rfl (by constructor <;> decide)
  obtain ⟨es', run', -⟩ := Run.alone (S := plainServer) (s := taggedDatabase)
    (r := untagRequest) () 6 rfl rfl (by constructor <;> decide)
  refine ⟨_, run.trans run', by decide, fun embedded => ?_⟩
  have stale := (embedded .item "ITEM2345" _ _ rfl rfl).2
  exact absurd (Option.some.inj stale) nofun

/-- While no committed write names a deleted setting, none of the settings a
client downloads is in the deletion log, and it keeps exactly the live ones. -/
theorem settings_of_run (run : Run σ₀ events σ) (starts : Starts σ₀) (fresh : Fresh L σ₀.state)
    (clear : ∀ expected body a d d',
      .commit (Request.guarded L expected (.writeSettings body)) a d d' ∈ events →
        ∀ key ∈ namedKeys body, d.deletion.find? (L, .setting, key) = none) (since : Int) :
    ∃ map deletions, (settings L).run σ.state = some (σ.state, map) ∧
      (deleted L since).run σ.state = some (σ.state, deletions) ∧
      (∀ key ∈ namedKeys map, key ∉ deletedSettings deletions) ∧
      ∀ key, key ∈ (keptSettings map deletions).map Prod.fst ↔
        (σ.state.setting.find? (L, key)).isSome := by
  have disjoint : SettingsDisjoint L σ.state := by
    refine invariant_of_run run starts L (I := SettingsDisjoint L) ?_ ?_ ?_ ?_
    · exact fun key row found => by simp [fresh.setting] at found
    · exact fun d d' same h => h.congr same
    · intro expected op a d d' he committed h
      refine committed.after ▸ edits_settingsDisjoint (h.setVersion _) ?_
      rintro body rfl key hk
      simpa using clear expected body a d d' he key hk
    · intro key upload d h
      refine edit_settingsDisjoint (h.setVersion _) fun _ _ sets => ?_
      cases sets
  have apart (key : String) (hk : key ∈ namedKeys (settingsBody (Sql.eval (.settings L) σ.state))) :
      key ∉ deletedSettings (deletedBody (Sql.eval (.deletedSince L since) σ.state)) := by
    rw [mem_settingsBody] at hk
    rw [deletedSettings_body, mem_deletedSince]
    obtain ⟨row, found⟩ := Option.isSome_iff_exists.mp hk
    rintro ⟨v, dead, -⟩
    simp [disjoint key row found] at dead
  refine ⟨_, _, settings_run, deleted_run, apart, fun key => ?_⟩
  have all : keptSettings (settingsBody (Sql.eval (.settings L) σ.state))
      (deletedBody (Sql.eval (.deletedSince L since) σ.state)) =
        ((settingsBody (Sql.eval (.settings L) σ.state)).asObject.getD []) := by
    rw [keptSettings, List.filter_eq_self]
    intro m hm
    simpa using apart m.1 (List.mem_map.mpr ⟨m, hm, rfl⟩)
  rw [all, ← mem_settingsBody]
  rfl

/-- A setting is stored, deleted and stored again. -/
def settingRequest (version : Int) : Request :=
  .guarded newLibrary (some version)
    (.writeSettings (.object [("tagColors", .object [("value", .bool true)])]))

def unsetRequest : Request := .guarded newLibrary (some 1) (.deleteSettings ["tagColors"])

/-- Another setting is stored, once the first is deleted. -/
def otherSettingRequest : Request :=
  .guarded newLibrary (some 2)
    (.writeSettings (.object [("lastPageIndex", .object [("value", .ofInt 7)])]))

def settingDatabase : Database := plainServer.after newDatabase 6 (settingRequest 0)

def unsetDatabase : Database := plainServer.after settingDatabase 6 unsetRequest

def resetDatabase : Database := plainServer.after unsetDatabase 6 (settingRequest 2)

def otherSettingDatabase : Database := plainServer.after unsetDatabase 6 otherSettingRequest

/-- The client keeps the setting that is stored after the other one is deleted. -/
theorem settings_of_run_other : ∃ events map deletions,
    Run (Session.idle newDatabase : Session plainServer Unit) events
      (Session.idle otherSettingDatabase) ∧
    (settings newLibrary).run otherSettingDatabase = some (otherSettingDatabase, map) ∧
    (deleted newLibrary 0).run otherSettingDatabase = some (otherSettingDatabase, deletions) ∧
    namedKeys map = ["lastPageIndex"] ∧ deletedSettings deletions = ["tagColors"] ∧
    (∀ key ∈ namedKeys map, key ∉ deletedSettings deletions) ∧
    ∀ key, key ∈ (keptSettings map deletions).map Prod.fst ↔
      (otherSettingDatabase.setting.find? (newLibrary, key)).isSome := by
  have start : Run (Session.idle newDatabase : Session plainServer Unit) []
      (Session.idle newDatabase) := .refl
  obtain ⟨es, run, commits⟩ := start.then_alone (r := settingRequest 0) (t := settingDatabase) ()
    6 rfl rfl (by constructor <;> decide)
  obtain ⟨es', run', commits'⟩ := run.then_alone (r := unsetRequest) (t := unsetDatabase) () 6
    rfl rfl (by constructor <;> decide)
  obtain ⟨events, whole, commits''⟩ := run'.then_alone (r := otherSettingRequest)
    (t := otherSettingDatabase) () 6 rfl rfl (by constructor <;> decide)
  have clear (expected : Option Int) (body : Value) (a : Reply) (d d' : Database)
      (he : .commit (Request.guarded newLibrary expected (.writeSettings body)) a d d' ∈ events)
      (key : String) (hk : key ∈ namedKeys body) :
      d.deletion.find? (newLibrary, .setting, key) = none := by
    rcases commits'' _ _ _ _ he with he | ⟨stored, rfl, -⟩
    · rcases commits' _ _ _ _ he with he | ⟨unset, -⟩
      · rcases commits _ _ _ _ he with he | ⟨stored, rfl, -⟩
        · cases he
        · exact Table.find?_empty _
      · cases unset
    · cases stored
      obtain rfl : key = "lastPageIndex" := List.mem_singleton.mp hk
      decide
  obtain ⟨map, deletions, live, dead, apart, kept⟩ := settings_of_run whole
    (starts_idle newDatabase_valid) newLibrary_fresh clear 0
  refine ⟨events, map, deletions, whole, live, dead, ?_, ?_, apart, kept⟩
  · obtain rfl := (Prod.mk.inj (Option.some.inj (live.symm.trans settings_run))).2
    decide
  · obtain rfl := (Prod.mk.inj (Option.some.inj (dead.symm.trans deleted_run))).2
    decide

/-- The live setting is in the deletion log. -/
theorem setting_reported_deleted : ∃ events map deletions,
    Run (Session.idle newDatabase : Session plainServer Unit) events
      (Session.idle resetDatabase) ∧
    (settings newLibrary).run resetDatabase = some (resetDatabase, map) ∧
    (deleted newLibrary 0).run resetDatabase = some (resetDatabase, deletions) ∧
    "tagColors" ∈ namedKeys map ∧ "tagColors" ∈ deletedSettings deletions ∧
    (keptSettings map deletions).map Prod.fst = [] := by
  obtain ⟨es, run, -⟩ := Run.alone (S := plainServer) (s := newDatabase)
    (r := settingRequest 0) () 6 rfl rfl (by constructor <;> decide)
  obtain ⟨es', run', -⟩ := Run.alone (S := plainServer) (s := settingDatabase)
    (r := unsetRequest) () 6 rfl rfl (by constructor <;> decide)
  obtain ⟨es'', run'', -⟩ := Run.alone (S := plainServer) (s := unsetDatabase)
    (r := settingRequest 2) () 6 rfl rfl (by constructor <;> decide)
  exact ⟨_, _, _, (run.trans run').trans run'', settings_run, deleted_run, by decide, by decide,
    by decide⟩

end Run

end Xotero
