import Xotero.Guarantees.Concurrency
import Xotero.Guarantees.Fulltext

/-!
Deletions of what is not there. The version guard runs before any key is looked
up, and a tombstone is written whether or not there was a row; so a deletion that
removes nothing is a write like any other, unless its list of keys is empty.
-/

namespace Xotero

/-- The two deletions by key. -/
inductive Deletion where
  | objects (kind : ObjectKind) (allowStoredFileWrite : Bool)
  | settings

namespace Deletion

def op (keys : List String) : Deletion → GuardedOp
  | .objects kind allow => .delete kind keys allow
  | .settings => .deleteSettings keys

/-- There is a row of this key to delete. -/
def Names (d : Database) (L : LibraryId) (key : String) : Deletion → Prop
  | .objects kind _ => (d.object.find? (L, kind, key)).isSome
  | .settings => (d.setting.find? (L, key)).isSome

end Deletion

/-- The version of the library, the rows and the deletion log are as they were. -/
structure Untouched (L : LibraryId) (d d' : Database) : Prop where
  version : d'.version L = d.version L
  objects : d'.object = d.object
  settings : d'.setting = d.setting
  deletions : d'.deletion = d.deletion

theorem Untouched.refl (L : LibraryId) (d : Database) : Untouched L d d := ⟨rfl, rfl, rfl, rfl⟩

/-! ### Keys without a row -/

section Loops
variable {L : LibraryId} {n : Int} {d d' : Database} {key : String} {keys : List String}

theorem deleteObject_missing {kind : ObjectKind} (allow : Bool) (text : storable key = true)
    (missing : d.object.find? (L, kind, key) = none) :
    (deleteObject L kind allow n key).run d = some (d.edit L n (.remove kind key), true) := by
  have denied : (deleteDenied L kind allow key).run d = some (d, false) := by
    unfold deleteDenied
    split
    · have read : (execute (.objectData L kind key)).run d = some (d, none) := by
        have none_read : Sql.eval (.objectData L kind key) d = none := by
          simp [Sql.eval, missing]
        have accepted : (Sql.objectData L kind key).accepted = true := text
        rw [execute, if_pos accepted]
        exact congrArg (fun r => some (d, r)) none_read
      rw [Txn.run_bind, read]
      rfl
    · rfl
  rw [deleteObject, Txn.run_bind, denied, Option.bind_some]
  change Txn.run (D := Db) (execute (.deleteObject L kind key) >>= _) d = _
  have deletes : (Sql.deleteObject L kind key).accepted = true := text
  have drops : (Sql.deleteFile L key).accepted = true := text
  have records : (Sql.upsertDeletion L (.object kind) key n).accepted = true := text
  rw [execute_bind_eq, if_pos deletes, Txn.run_bind]
  by_cases item : kind = .item
  · have dropped (d₁ : Database) :
        (Txn.when (decide (kind = .item)) (execute (.deleteFile L key))).run d₁ =
          some ({ d₁ with file := d₁.file.erase (L, key) }, ()) := by
      rw [decide_eq_true item, Txn.when, if_pos rfl, execute, if_pos drops]
      rfl
    rw [dropped, Option.bind_some, execute_bind_eq, if_pos records]
    simp only [Database.edit, if_pos item]
    rfl
  · have kept (d₁ : Database) :
        (Txn.when (decide (kind = .item)) (execute (.deleteFile L key))).run d₁ =
          some (d₁, ()) := by
      rw [decide_eq_false item]
      rfl
    rw [kept, Option.bind_some, execute_bind_eq, if_pos records]
    simp only [Database.edit, if_neg item]
    rfl

/-- Keys without a row are deleted as others are. -/
theorem deleteFrom_missing {kind : ObjectKind} (allow : Bool)
    (text : ∀ key ∈ keys, storable key = true)
    (missing : ∀ key ∈ keys, d.object.find? (L, kind, key) = none) :
    (deleteFrom L kind allow n keys).run d =
      some (d.edits L n (keys.map (.remove kind)), .commit (.done n)) := by
  induction keys generalizing d with
  | nil => rfl
  | cons key keys ih =>
      rw [deleteFrom, Txn.run_bind, deleteObject_missing allow (text key (by simp))
        (missing key (by simp)), Option.bind_some]
      refine ih (fun key' mem => text key' (by simp [mem])) fun key' mem => ?_
      simp only [Database.edit, Table.find?_erase]
      split
      · rfl
      · exact missing key' (by simp [mem])

theorem deleteSettingsFrom_eq (text : ∀ key ∈ keys, storable key = true) :
    (deleteSettingsFrom L n keys).run d =
      some (d.edits L n (keys.map .removeSetting), .commit (.done n)) := by
  induction keys generalizing d with
  | nil => rfl
  | cons key keys ih =>
      have accepted : storable key = true := text key (by simp)
      have deletes : (Sql.deleteSetting L key).accepted = true := accepted
      have records : (Sql.upsertDeletion L .setting key n).accepted = true := accepted
      rw [deleteSettingsFrom, execute_bind_eq, if_pos deletes, execute_bind_eq, if_pos records]
      exact ih fun key' mem => text key' (by simp [mem])

theorem deleteSettingsFrom_storable {a : Outcome Int}
    (h : (deleteSettingsFrom L n keys).run d = some (d', .commit a)) :
    ∀ key ∈ keys, storable key = true := by
  induction keys generalizing d with
  | nil => exact fun key mem => nomatch mem
  | cons first keys ih =>
      obtain ⟨_, _, deleted, rest⟩ := Txn.run_bind_eq_some h
      intro key mem
      rcases List.mem_cons.mp mem with rfl | later
      · exact execute_accepted deleted
      · exact ih (execute_bind_run rest) key later

theorem find?_edits_remove (kind : ObjectKind) (keys : List String) :
    (d.edits L n (keys.map (.remove kind))).object.find? (L, kind, key) =
      if key ∈ keys then none else d.object.find? (L, kind, key) := by
  induction keys generalizing d with
  | nil => rfl
  | cons first keys ih =>
      rw [List.map_cons, Database.edits, List.foldl_cons]
      refine ih.trans ?_
      by_cases same : key = first <;> simp [Database.edit, Table.find?_erase, same]

theorem find?_edits_removeSetting (keys : List String) :
    (d.edits L n (keys.map .removeSetting)).setting.find? (L, key) =
      if key ∈ keys then none else d.setting.find? (L, key) := by
  induction keys generalizing d with
  | nil => rfl
  | cons first keys ih =>
      rw [List.map_cons, Database.edits, List.foldl_cons]
      refine ih.trans ?_
      by_cases same : key = first <;> simp [Database.edit, Table.find?_erase, same]

end Loops

section Guarded
variable {digests : Digests} {config : Config} {L : LibraryId} {d d' : Database} {row : Library}
  {keys : List String} {deletion : Deletion}

/-- What a request leaves is what it commits, or nothing. -/
theorem Request.alone_snd (r : Request) : (r.alone digests config d).2 = d ∨
    ∃ d' a, (r.program digests config).run d = some (d', .commit a) ∧
      (r.alone digests config d).2 = d' := by
  unfold Request.alone
  split
  · rename_i d' a run
    exact .inr ⟨d', a, run, rfl⟩
  · exact .inl rfl
  · exact .inl rfl

theorem Request.alone_of_commit {r : Request} {a : Reply}
    (run : (r.program digests config).run d = some (d', .commit a)) :
    r.alone digests config d = (some a, d') := by
  rw [Request.alone, run]

namespace Deletion

theorem commits_missing (known : d.library.find? L = some row) (some_key : keys ≠ [])
    (text : ∀ key ∈ keys, storable key = true)
    (missing : ∀ key ∈ keys, ¬ deletion.Names d L key) :
    ∃ d' a, ((deletion.op keys).program L (some row.version)).run d = some (d', .commit a) := by
  have nonempty : ¬ keys.isEmpty = true := by simpa using some_key
  have version : d.version L = row.version := by simp [Database.version, known]
  have guard := @guardedVersion_current L d (by rw [known]; rfl)
  rw [version] at guard
  cases deletion with
  | objects kind allow =>
      have absent : ∀ key ∈ keys, (d.setVersion L (row.version + 1)).object.find? (L, kind, key) =
          none := fun key mem => by simpa [Names] using missing key mem
      refine ⟨(d.setVersion L (row.version + 1)).edits L (row.version + 1)
        (keys.map (.remove kind)), .deletion (.done (row.version + 1)), ?_⟩
      rw [op, GuardedOp.program, endingWith_eq, delete, if_neg nonempty, Txn.run_bind, guard]
      exact congrArg (Option.map _) (deleteFrom_missing allow text absent)
  | settings =>
      refine ⟨(d.setVersion L (row.version + 1)).edits L (row.version + 1)
        (keys.map .removeSetting), .change (.done (row.version + 1)), ?_⟩
      rw [op, GuardedOp.program, endingWith_eq, deleteSettings, if_neg nonempty, Txn.run_bind,
        guard]
      exact congrArg (Option.map _) (deleteSettingsFrom_eq text)

theorem storable_of_commit {expected : Option Int} {a : Reply}
    (h : ((deletion.op keys).program L expected).run d = some (d', .commit a)) :
    ∀ key ∈ keys, storable key = true := by
  cases deletion with
  | objects kind allow =>
      obtain ⟨b, -, -, -, -, loop⟩ :=
        branch_of_run h (fun o => by cases o <;> exact ⟨_, rfl⟩) fun v => ⟨_, rfl⟩
      exact deleteFrom_storable loop
  | settings =>
      obtain ⟨b, -, -, -, -, loop⟩ :=
        branch_of_run h (fun o => ⟨_, rfl⟩) fun v => ⟨_, rfl⟩
      exact deleteSettingsFrom_storable loop

/-- No row of a deleted key is left. -/
theorem not_names_of_commit {expected : Option Int} {a : Reply}
    (h : ((deletion.op keys).program L expected).run d = some (d', .commit a)) :
    ∀ key ∈ keys, ¬ deletion.Names d' L key := by
  obtain ⟨committed, -, -⟩ := guarded_run h
  intro key mem
  rw [committed.after]
  cases deletion with
  | objects kind allow =>
      simp only [Names, op, GuardedOp.edits, find?_edits_remove, if_pos mem]
      exact Bool.false_ne_true
  | settings =>
      simp only [Names, op, GuardedOp.edits, find?_edits_removeSetting, if_pos mem]
      exact Bool.false_ne_true

/-- Without keys there is no write. -/
theorem not_commit_nil {expected : Option Int} {a : Reply} :
    ((deletion.op []).program L expected).run d ≠ some (d', .commit a) := by
  intro run
  obtain ⟨-, -, nonempty⟩ := guarded_run run
  cases deletion <;> exact nonempty rfl

end Deletion

/-- A commit is a new version. -/
theorem Committed.not_untouched {expected : Option Int} {es : List Edit}
    (committed : Committed L expected es d d') : ¬ Untouched L d d' := by
  intro same
  have next := committed.version.symm.trans same.version
  omega

theorem Committed.library {expected : Option Int} {es : List Edit}
    (committed : Committed L expected es d d') :
    ∃ row, d'.library.find? L = some row ∧ row.version = d.version L + 1 := by
  obtain ⟨row, found⟩ := Option.isSome_iff_exists.mp committed.exists_library
  refine ⟨{ row with version := d.version L + 1 }, ?_, rfl⟩
  rw [committed.after, edits_library, Database.setVersion, found]
  exact Table.find?_put_self ..

/-- A list of keys without a row is deleted at the cost of a version. -/
theorem not_untouched_of_missing (digests : Digests) (config : Config)
    (known : d.library.find? L = some row) (some_key : keys ≠ [])
    (text : ∀ key ∈ keys, storable key = true)
    (missing : ∀ key ∈ keys, ¬ deletion.Names d L key) :
    ¬ Untouched L d ((Request.guarded L (some row.version) (deletion.op keys)).alone digests config
        d).2 := by
  obtain ⟨d', a, run⟩ := Deletion.commits_missing known some_key text missing
  have left : ((Request.guarded L (some row.version) (deletion.op keys)).alone digests config
      d).2 = d' :=
    congrArg Prod.snd (Request.alone_of_commit
      (r := .guarded L (some row.version) (deletion.op keys)) run)
  rw [left]
  exact (guarded_run run).1.not_untouched

end Guarded

/-- A deletion at the current version that removes nothing leaves the library as it
was only if it has no keys, or one that is no text of the database. -/
theorem delete_missing_iff (digests : Digests) (config : Config) (deletion : Deletion)
    (L : LibraryId) (keys : List String) {d : Database} {row : Library}
    (known : d.library.find? L = some row) (missing : ∀ key ∈ keys, ¬ deletion.Names d L key) :
    Untouched L d ((Request.guarded L (some row.version) (deletion.op keys)).alone digests config
        d).2 ↔
      keys = [] ∨ ∃ key ∈ keys, storable key = false := by
  constructor
  · intro same
    by_contra other
    simp only [not_or, not_exists, not_and, Bool.not_eq_false] at other
    exact not_untouched_of_missing digests config known other.1 other.2 missing same
  · intro nothing
    rcases @Request.alone_snd digests config d
      (.guarded L (some row.version) (deletion.op keys)) with kept | ⟨d', a, run, -⟩
    · rw [kept]
      exact .refl L d
    · exfalso
      rcases nothing with rfl | ⟨key, mem, other⟩
      · exact Deletion.not_commit_nil run
      · rw [Deletion.storable_of_commit run key mem] at other
        cases other

/-- In a library with a note, an item that never was is deleted at the cost of a version,
but not beside a key that the database refuses. -/
theorem delete_missing_iff_note : ∃ d,
    (d.object.find? (newLibrary, .item, "TEXT2345")).isSome ∧
    ¬ Untouched newLibrary d
      ((Request.guarded newLibrary (some 1) ((Deletion.objects .item true).op
        ["ITEM2345"])).alone plainDigests plainConfig d).2 ∧
    Untouched newLibrary d
      ((Request.guarded newLibrary (some 1) ((Deletion.objects .item true).op
        ["ITEM2345", "ITEM\x00"])).alone plainDigests plainConfig d).2 := by
  have known : (plainServer.after newDatabase 6 noteRequest).library.find? newLibrary =
      some ⟨1, .personal⟩ := rfl
  refine ⟨plainServer.after newDatabase 6 noteRequest, rfl, fun same => ?_, ?_⟩
  · have one := (delete_missing_iff plainDigests plainConfig (.objects .item true) newLibrary
      ["ITEM2345"] known (by simp only [Deletion.Names]; decide)).mp same
    exact absurd one (by decide)
  · exact (delete_missing_iff plainDigests plainConfig (.objects .item true) newLibrary
      ["ITEM2345", "ITEM\x00"] known (by simp only [Deletion.Names]; decide)).mpr
        (.inr ⟨"ITEM\x00", by simp, rfl⟩)

def unknownDelete (expected : Int) : Request :=
  .guarded newLibrary (some expected) ((Deletion.objects .item true).op ["ITEM2345"])

/-- An item that never was, deleted twice: two versions of an empty library. -/
theorem unknownDelete_writes : ∃ d d',
    ¬ (Deletion.objects .item true).Names newDatabase newLibrary "ITEM2345" ∧
    (unknownDelete 0).alone plainDigests plainConfig newDatabase = (some (.deletion (.done 1)), d) ∧
    ¬ Untouched newLibrary newDatabase d ∧
    d.deletion.find? (newLibrary, .object .item, "ITEM2345") = some 1 ∧
    (unknownDelete 1).alone plainDigests plainConfig d = (some (.deletion (.done 2)), d') ∧
    ¬ Untouched newLibrary d d' ∧
    d'.deletion.find? (newLibrary, .object .item, "ITEM2345") = some 2 := by
  have missing : ¬ (newDatabase.object.find? (newLibrary, .item, "ITEM2345")).isSome = true := by
    decide
  refine ⟨_, _, missing, rfl, fun same => ?_, by decide, rfl, fun same => ?_, by decide⟩
  · exact absurd same.version (by decide)
  · exact absurd same.version (by decide)

/-- In particular a deletion that has been committed is no deletion of nothing when it
is repeated at the version of its answer. -/
theorem repeated_delete (digests : Digests) (config : Config) {deletion : Deletion}
    {L : LibraryId} {keys : List String} {expected : Option Int} {d d' : Database} {a : Reply}
    {n : Int} (run : ((deletion.op keys).program L expected).run d = some (d', .commit a))
    (answered : a.doneVersion = some n) :
    ¬ Untouched L d' ((Request.guarded L (some n) (deletion.op keys)).alone digests config
        d').2 := by
  obtain ⟨committed, done, nonempty⟩ := guarded_run run
  obtain ⟨row, known, version⟩ := committed.library
  obtain rfl : n = row.version := by
    rw [version]
    exact Option.some.inj (answered.symm.trans done)
  refine not_untouched_of_missing digests config known ?_ (Deletion.storable_of_commit run)
    (Deletion.not_names_of_commit run)
  rintro rfl
  exact Deletion.not_commit_nil run

end Xotero
