import Xotero.Store.Bootstrap

/-!
The migrations of a database that had one user and no identities, to the schema the
server works on. A migration whose check a row fails is rolled back and ends the start
of the server. The tables that a migration creates are empty, except that the first one
creates library 1.
-/

namespace Xotero

/-- A `file` row while the bytes were kept under the item key. -/
structure LegacyFile where
  md5 : String
  filename : String
  filesize : Int
  mtime : Int
  version : Int

/-- The database after `0007_item_columns_fixes.sql`. -/
structure LegacyDatabase where
  library : Table Int Int
  object : Table (Int × ObjectKind × String) Object
  setting : Table (Int × String) Setting
  deletion : Table (Int × DeletionKind × String) Int
  file : Table (Int × String) LegacyFile
  fulltext : Table (Int × String) Fulltext

/-- What `0001_init.sql` to `0007_item_columns_fixes.sql` create. -/
def LegacyDatabase.init : LegacyDatabase where
  library := (∅ : Table Int Int).put 1 0
  object := ∅
  setting := ∅
  deletion := ∅
  file := ∅
  fulltext := ∅

/-- The constraints of that schema. -/
structure LegacyDatabase.Valid (d : LegacyDatabase) : Prop where
  library_id_bigint : ∀ e ∈ d.library.rows, e.1 ≤ maxBigint
  object_key_text : ∀ e ∈ d.object.rows, storable e.1.2.2
  object_library : ∀ e ∈ d.object.rows, (d.library.find? e.1.1).isSome
  setting_library : ∀ e ∈ d.setting.rows, (d.library.find? e.1.1).isSome
  deletion_library : ∀ e ∈ d.deletion.rows, (d.library.find? e.1.1).isSome
  file_library : ∀ e ∈ d.file.rows, (d.library.find? e.1.1).isSome
  fulltext_library : ∀ e ∈ d.fulltext.rows, (d.library.find? e.1.1).isSome

/-- A `file` row with the key of its bytes. -/
structure KeyedFile extends LegacyFile where
  blobKey : String

/-- The tables that were there before identities, between two migrations. -/
structure Contents (F : Type) where
  library : Table LibraryId Library
  libraryIdSeq : Sequence
  object : Table (LibraryId × ObjectKind × String) Object
  setting : Table (LibraryId × String) Setting
  deletion : Table (LibraryId × DeletionKind × String) Int
  file : Table (LibraryId × String) F
  fulltext : Table (LibraryId × String) Fulltext

/-- The schema after all migrations. -/
structure Migrated where
  identities : IdentityStore
  libraryIdSeq : Sequence

/-- A key that starts with the id of a library. -/
def libraryKey {α : Type} (k : Int × α) : Option (LibraryId × α) :=
  (Id.new k.1).map fun L => (L, k.2)

theorem libraryKey_eq_some {α : Type} {k : Int × α} {j : LibraryId × α} :
    libraryKey k = some j ↔ k = (j.1.get, j.2) := by
  unfold libraryKey
  constructor
  · intro form
    obtain ⟨L, positive, rfl⟩ := Option.map_eq_some_iff.mp form
    rw [Id.get_of_new positive]
  · intro same
    rw [same, Id.new_get]
    rfl

theorem libraryKey_apart {α : Type} (k k' : Int × α) (j : LibraryId × α)
    (form : libraryKey k = some j) (form' : libraryKey k' = some j) : k = k' :=
  (libraryKey_eq_some.mp form).trans (libraryKey_eq_some.mp form').symm

theorem new_apart (value value' : Int) (L : LibraryId) (form : Id.new value = some L)
    (form' : Id.new value' = some L) : value = value' :=
  (Id.get_of_new form).symm.trans (Id.get_of_new form')

/-- A table whose keys start with a library. -/
def ofLibraries {α ρ : Type} [DecidableEq α] (t : Table (Int × α) ρ) : Table (LibraryId × α) ρ :=
  t.rekey libraryKey libraryKey_apart

/-- `setval(…, coalesce(max(id), 1), max(id) is not null)` -/
def Sequence.after (ids : List Int) : Sequence := ⟨ids.max?.getD 1, ids.max?.isSome⟩

/-- The libraries get a kind, and go on to be numbered by a sequence. -/
def LegacyDatabase.identified (d : LegacyDatabase) : Contents LegacyFile where
  library := (d.library.mapRows fun _ version => ⟨version, .personal⟩).rekey Id.new new_apart
  libraryIdSeq := .after (d.library.rows.map Prod.fst)
  object := ofLibraries d.object
  setting := ofLibraries d.setting
  deletion := ofLibraries d.deletion
  file := ofLibraries d.file
  fulltext := ofLibraries d.fulltext

/-- `0008_identity.sql` -/
def LegacyDatabase.identity (d : LegacyDatabase) : Except SqlxError (Contents LegacyFile) := do
  check (d.library.rows.all fun e => 0 < e.1) "library_id_positive"
  return d.identified

def Contents.withFile {F F' : Type} (c : Contents F) (file : Table (LibraryId × String) F') :
    Contents F' :=
  ⟨c.library, c.libraryIdSeq, c.object, c.setting, c.deletion, file, c.fulltext⟩

/-- Where the bytes of an attachment were kept. -/
def legacyBlobKey (L : LibraryId) (itemKey : String) : String :=
  if L.get = 1 then itemKey else "libraries/" ++ toString L.get ++ "/" ++ itemKey

def Contents.keyed (c : Contents LegacyFile) : Contents KeyedFile :=
  c.withFile (c.file.mapRows fun k f => { f with blobKey := legacyBlobKey k.1 k.2 })

/-- `0009_file_blob_key.sql` -/
def Contents.fileBlobKey (c : Contents LegacyFile) : Except SqlxError (Contents KeyedFile) := do
  check (c.keyed.file.rows.all fun e => nonblank e.2.blobKey) "file_blob_key_nonempty"
  return c.keyed

/-- `0013_compressed_files.sql` -/
def Contents.compressedFiles (c : Contents KeyedFile) : Contents File :=
  c.withFile (c.file.mapRows fun _ f =>
    ⟨f.blobKey, f.md5, f.md5, f.filename, f.filesize, f.mtime, false, f.version⟩)

/-- Beside the tables that the migrations have created. -/
def Contents.migrated (c : Contents File) : Migrated where
  identities := {
    database := { Database.empty with
      library := c.library
      object := c.object
      setting := c.setting
      deletion := c.deletion
      file := c.file
      fulltext := c.fulltext }
    externalIdentities := ∅
    usersIdSeq := ⟨1, false⟩ }
  libraryIdSeq := c.libraryIdSeq

/-- `sqlx::migrate!`, from migration 8 on. -/
def LegacyDatabase.migrate (d : LegacyDatabase) : Except SqlxError Migrated := do
  let identified ← d.identity
  let keyed ← identified.fileBlobKey
  return keyed.compressedFiles.migrated

end Xotero
