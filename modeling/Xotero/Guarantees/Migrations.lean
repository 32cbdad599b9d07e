import Xotero.Guarantees.Bootstrap
import Xotero.Guarantees.Downloads
import Xotero.Store.Batches
import Xotero.Store.Migrations

/-!
The migrations carry over every row under its key, to a database that keeps the
constraints of the schema; and the server starts on it with one of its libraries.
-/

namespace Xotero

section
variable {α ρ : Type} [DecidableEq α] {t : Table (Int × α) ρ} {L : LibraryId} {k : α} {r : ρ}

theorem find?_ofLibraries (t : Table (Int × α) ρ) (L : LibraryId) (k : α) :
    (ofLibraries t).find? (L, k) = t.find? (L.get, k) :=
  Table.find?_rekey (libraryKey_eq_some.mpr rfl)

theorem mem_ofLibraries (mem : ((L, k), r) ∈ (ofLibraries t).rows) :
    ((L.get, k), r) ∈ t.rows := by
  rw [Table.mem_rows, find?_ofLibraries] at mem
  exact Table.mem_rows.mpr mem

end

theorem one_le_maxBigint : 1 ≤ maxBigint := by
  simp [maxBigint]

section
variable {old : LegacyDatabase} {s : Migrated}

/-- What becomes of the row of a file. -/
def LegacyFile.carried (L : LibraryId) (itemKey : String) (f : LegacyFile) : File where
  blobKey := legacyBlobKey L itemKey
  md5 := f.md5
  blobMd5 := f.md5
  filename := f.filename
  filesize := f.filesize
  mtime := f.mtime
  compressed := false
  version := f.version

def LegacyDatabase.carried (old : LegacyDatabase) : Migrated :=
  old.identified.keyed.compressedFiles.migrated

/-- Every row is there under its key, and no other. -/
structure Carried (old : LegacyDatabase) (d : Database) : Prop where
  libraries : ∀ id version, old.library.find? id = some version → ∃ L : LibraryId, L.get = id
  library : ∀ L, d.library.find? L = (old.library.find? L.get).map fun version =>
    ⟨version, .personal⟩
  object : ∀ L k, d.object.find? (L, k) = old.object.find? (L.get, k)
  setting : ∀ L key, d.setting.find? (L, key) = old.setting.find? (L.get, key)
  deletion : ∀ L k, d.deletion.find? (L, k) = old.deletion.find? (L.get, k)
  file : ∀ L key, d.file.find? (L, key) =
    (old.file.find? (L.get, key)).map (LegacyFile.carried L key)
  fulltext : ∀ L key, d.fulltext.find? (L, key) = old.fulltext.find? (L.get, key)

theorem nonblank_legacyBlobKey {L : LibraryId} {itemKey : String} :
    nonblank (legacyBlobKey L itemKey) = true ↔ (L.get = 1 → nonblank itemKey = true) := by
  unfold legacyBlobKey
  split
  case isTrue first => simp [first]
  case isFalse other => simp [other, nonblank]

theorem find?_carried_file (L : LibraryId) (key : String) :
    old.carried.identities.database.file.find? (L, key) =
      (old.file.find? (L.get, key)).map (LegacyFile.carried L key) := by
  simp only [LegacyDatabase.carried, Contents.migrated, Contents.compressedFiles, Contents.withFile,
    Contents.keyed, LegacyDatabase.identified, Table.find?_mapRows, find?_ofLibraries,
    Option.map_map]
  rfl

theorem find?_carried_library (L : LibraryId) :
    old.carried.identities.database.library.find? L =
      (old.library.find? L.get).map fun version => ⟨version, .personal⟩ := by
  have positive : (Table.rekey Id.new new_apart (old.library.mapRows fun _ version =>
      Library.mk version .personal)).find? L = _ := Table.find?_rekey L.new_get
  exact positive.trans (Table.find?_mapRows _ _ _)

theorem isSome_carried_library {L : LibraryId} (there : (old.library.find? L.get).isSome = true) :
    (old.carried.identities.database.library.find? L).isSome = true := by
  rw [find?_carried_library, Option.isSome_map]
  exact there

/-- A library that rows are of is carried over with them. -/
theorem library_ofLibraries {α ρ : Type} [DecidableEq α] {t : Table (Int × α) ρ}
    (there : ∀ e ∈ t.rows, (old.library.find? e.1.1).isSome) :
    ∀ e ∈ (ofLibraries t).rows,
      (old.carried.identities.database.library.find? e.1.1).isSome = true :=
  fun _ mem => isSome_carried_library (there _ (mem_ofLibraries mem))

theorem carried_of_positive (positive : ∀ e ∈ old.library.rows, 0 < e.1) :
    Carried old old.carried.identities.database where
  libraries id _ found := ⟨⟨id, positive _ (Table.mem_rows.mpr found)⟩, rfl⟩
  library := find?_carried_library
  object := find?_ofLibraries _
  setting := find?_ofLibraries _
  deletion := find?_ofLibraries _
  file := find?_carried_file
  fulltext := find?_ofLibraries _

/-- The rows of files are those of the files there were. -/
theorem legacy_of_carried {L : LibraryId} {key : String} {f : File}
    (found : old.carried.identities.database.file.find? (L, key) = some f) :
    ∃ f', old.file.find? (L.get, key) = some f' ∧ f'.carried L key = f := by
  rw [find?_carried_file] at found
  exact Option.map_eq_some_iff.mp found

theorem migrate_eq_ok (legacy : old.Valid) : old.migrate = .ok s ↔
    ((∀ e ∈ old.library.rows, 0 < e.1) ∧
      ∀ e ∈ old.file.rows, e.1.1 = 1 → nonblank e.1.2 = true) ∧ s = old.carried := by
  have blobs : (∀ e ∈ old.identified.keyed.file.rows, nonblank e.2.blobKey = true) ↔
      ∀ e ∈ (ofLibraries old.file).rows, e.1.1.get = 1 → nonblank e.1.2 = true := by
    simp only [Contents.keyed, Contents.withFile, Table.rows_mapRows, List.forall_mem_map,
      nonblank_legacyBlobKey]
    rfl
  simp only [LegacyDatabase.migrate, LegacyDatabase.identity, Contents.fileBlobKey,
    Except.bind_eq_ok, check_eq_ok, exists_const, Except.pure_eq_ok, List.all_eq_true,
    decide_eq_true_eq]
  constructor
  · intro done
    obtain ⟨_, ⟨positive, rfl⟩, _, ⟨keys, rfl⟩, rfl⟩ := done
    refine ⟨⟨positive, fun e mem first => ?_⟩, rfl⟩
    have there := legacy.file_library e mem
    obtain ⟨version, there⟩ := Option.isSome_iff_exists.mp there
    let L : LibraryId := ⟨e.1.1, positive _ (Table.mem_rows.mpr there)⟩
    exact blobs.mp keys ((L, e.1.2), e.2) (Table.mem_rows.mpr
      ((find?_ofLibraries _ L _).trans (Table.mem_rows.mp mem))) first
  · intro can
    obtain ⟨⟨positive, named⟩, rfl⟩ := can
    refine ⟨_, ⟨positive, rfl⟩, _, ⟨blobs.mpr fun e mem first => ?_, rfl⟩, rfl⟩
    have found := (find?_ofLibraries _ _ _).symm.trans (Table.mem_rows.mp mem)
    exact named (_, _) (Table.mem_rows.mpr found) first

/-- The constraints of the schema are kept; the new tables have no rows. -/
theorem carried_valid (legacy : old.Valid)
    (named : ∀ e ∈ old.file.rows, e.1.1 = 1 → nonblank e.1.2) :
    old.carried.identities.database.Valid := by
  constructor
  case object_key_text => exact fun e mem => legacy.object_key_text _ (mem_ofLibraries mem)
  case object_library => exact library_ofLibraries legacy.object_library
  case setting_library => exact library_ofLibraries legacy.setting_library
  case deletion_library => exact library_ofLibraries legacy.deletion_library
  case fulltext_library => exact library_ofLibraries legacy.fulltext_library
  case file_library =>
      intro e mem
      obtain ⟨f, there, -⟩ := legacy_of_carried (Table.mem_rows.mp mem)
      exact isSome_carried_library (legacy.file_library (_, _) (Table.mem_rows.mpr there))
  case file_blob_key_nonempty =>
      intro e mem
      obtain ⟨f, there, same⟩ := legacy_of_carried (Table.mem_rows.mp mem)
      rw [← same]
      exact nonblank_legacyBlobKey.mpr (named _ (Table.mem_rows.mpr there))
  all_goals exact fun e mem => absurd mem List.not_mem_nil

theorem carried_identities_valid (legacy : old.Valid)
    (named : ∀ e ∈ old.file.rows, e.1.1 = 1 → nonblank e.1.2) : old.carried.identities.Valid where
  database := carried_valid legacy named
  users_id_bigint _ mem := absurd mem List.not_mem_nil
  external_identities_user _ mem := absurd mem List.not_mem_nil
  external_identities_issuer_nonempty _ mem := absurd mem List.not_mem_nil
  external_identities_subject_nonempty _ mem := absurd mem List.not_mem_nil
  users_id_seq := ⟨Int.le_refl 1, one_le_maxBigint⟩

/-! ### The first start -/

/-- The ids that the sequence of the libraries goes on with are new. -/
theorem carried_libraryIdSeq {n : Int} (generated : old.carried.libraryIdSeq.next = some n)
    {id version : Int} (found : old.library.find? id = some version) : id < n := by
  have mem : id ∈ old.library.rows.map Prod.fst :=
    List.mem_map_of_mem (Table.mem_rows.mpr found)
  change (Sequence.after (old.library.rows.map Prod.fst)).next = some n at generated
  cases greatest : (old.library.rows.map Prod.fst).max? with
  | none =>
      rw [List.max?_eq_none_iff.mp greatest] at mem
      cases mem
  | some m =>
      have least := (List.max?_eq_some_iff.mp greatest).2 id mem
      simp only [Sequence.after, Sequence.next, greatest, Option.isSome_some, Bool.not_true,
        Bool.false_eq_true, if_false, Option.getD_some] at generated
      split at generated
      · have after := Option.some.inj generated
        omega
      · cases generated

/-- The first identity is entered if there is a library for it. -/
theorem carried_admits {userId : UserId} {username displayName : String} {L : LibraryId} :
    Admits old.carried.identities userId username displayName L ↔
      (old.library.find? L.get).isSome ∧ (storable username ∧ storable displayName) ∧
        (nonblank displayName ∧ nonblank username) ∧ userId.get ≤ maxBigint := by
  have library : (old.carried.identities.database.library.find? L).map Library.kind =
      some .personal ↔ (old.library.find? L.get).isSome := by
    rw [find?_carried_library]
    cases old.library.find? L.get with
    | none => exact ⟨nofun, nofun⟩
    | some version => exact ⟨fun _ => rfl, fun _ => rfl⟩
  have greatest : greatestId (enterIdentity userId username displayName L
      old.carried.identities) = max userId.get 1 := rfl
  have positive := userId.positive
  constructor
  · intro admits
    refine ⟨library.mp admits.library, admits.text, admits.named, ?_⟩
    have within := admits.range.2
    rw [greatest] at within
    exact (Int.le_max_left _ _).trans within
  · intro given
    obtain ⟨there, text, named, within⟩ := given
    refine ⟨library.mpr there, text, named, ?_, ?_, ?_, ?_, ?_⟩
    · exact fun user found => nomatch found
    · exact fun _ e mem => absurd mem List.not_mem_nil
    · exact fun M found => nomatch found
    · exact fun _ e mem => absurd mem List.not_mem_nil
    · rw [greatest]
      exact ⟨Int.le_max_right _ _, Int.max_le.mpr ⟨within, one_le_maxBigint⟩⟩

end

/-- The migrations go through if every library has a positive id, and no file of
library 1 a blank item. They carry over every row, keep the constraints of the
schema, and leave ids to generate that no library has; and the server starts if the
library of its configured identity is there. -/
theorem migration_exact {old : LegacyDatabase} (legacy : old.Valid) :
    ((∃ s, old.migrate = .ok s) ↔ (∀ e ∈ old.library.rows, 0 < e.1) ∧
      ∀ e ∈ old.file.rows, e.1.1 = 1 → nonblank e.1.2) ∧
    ∀ s, old.migrate = .ok s → Carried old s.identities.database ∧ s.identities.Valid ∧
      (∀ n, s.libraryIdSeq.next = some n →
        ∀ L, (s.identities.database.library.find? L).isSome → L.get < n) ∧
      ∀ userId username displayName L,
        (bootstrapIdentity (fun _ => false) userId username displayName L s.identities).1 = .ok () ↔
          (old.library.find? L.get).isSome ∧ (storable username ∧ storable displayName) ∧
            (nonblank displayName ∧ nonblank username) ∧ userId.get ≤ maxBigint := by
  constructor
  · constructor
    · exact fun ⟨s, done⟩ => ((migrate_eq_ok legacy).mp done).1
    · exact fun can => ⟨_, (migrate_eq_ok legacy).mpr ⟨can, rfl⟩⟩
  · intro s done
    obtain ⟨⟨positive, named⟩, rfl⟩ := (migrate_eq_ok legacy).mp done
    refine ⟨carried_of_positive positive, carried_identities_valid legacy named, ?_, ?_⟩
    · intro n generated L there
      rw [find?_carried_library, Option.isSome_map] at there
      obtain ⟨version, found⟩ := Option.isSome_iff_exists.mp there
      exact carried_libraryIdSeq generated found
    · intro userId username displayName L
      rw [← carried_admits]
      constructor
      · intro started
        obtain ⟨-, admits, -⟩ := identityStatements_eq_ok.mp
          (transaction_eq_ok.mp (Prod.ext started rfl)).1
        exact admits
      · intro admits
        exact congrArg Prod.fst (transaction_eq_ok.mpr
          ⟨identityStatements_eq_ok.mpr ⟨fun _ _ => rfl, admits, rfl⟩, rfl⟩)

def legacyFile : LegacyFile :=
  ⟨"5d41402abc4b2a76b9719d911017c592", "hello.txt", 5, 1000, 4⟩

/-- An attachment with its file. -/
def legacyDatabase : LegacyDatabase :=
  { LegacyDatabase.init with
    library := (∅ : Table Int Int).put 1 4
    object := (∅ : Table (Int × ObjectKind × String) Object).put (1, .item, "FILE2345")
      ⟨4, .object [("itemType", .string "attachment"), ("linkMode", .string "imported_file")]⟩
    file := (∅ : Table (Int × String) LegacyFile).put (1, "FILE2345") legacyFile }

theorem legacyDatabase_valid : legacyDatabase.Valid := by
  constructor <;> decide

/-- The server starts on what becomes of them. -/
theorem migration_exact_attachment : ∃ s, legacyDatabase.migrate = .ok s ∧
    s.identities.Valid ∧ (s.identities.database.library.find? newLibrary) = some ⟨4, .personal⟩ ∧
    (bootstrapIdentity (fun _ => false) ⟨7, by decide⟩ "xotero" "Xotero" newLibrary
      s.identities).1 = .ok () := by
  obtain ⟨through, carried⟩ := migration_exact legacyDatabase_valid
  obtain ⟨s, done⟩ := through.mpr (by decide)
  obtain ⟨carried, valid, -, starts⟩ := carried s done
  exact ⟨s, done, valid, carried.library newLibrary, (starts _ _ _ _).mpr (by decide)⟩

/-! ### Attachments from before -/

section Paths
variable {L L' : LibraryId} {key key' id : String}

theorem slash_notMem_id (L : LibraryId) : '/' ∉ (toString L.get).toList := by
  intro mem
  obtain ⟨n, same⟩ := Int.eq_ofNat_of_zero_le (Int.le_of_lt L.positive)
  rw [same] at mem
  have mem : '/' ∈ (Nat.repr n).toList := mem
  rw [Nat.repr_eq_ofList_toDigits, String.toList_ofList] at mem
  exact absurd (Nat.isDigit_of_mem_toDigits (by decide) (by decide) mem) (by decide)

theorem slash_notMem_of_validKey (valid : validKey key = true) : '/' ∉ key.toList := by
  intro mem
  simp only [validKey, Bool.and_eq_true, List.all_eq_true] at valid
  exact absurd (valid.2 _ mem) (by decide)

theorem id_of_text (same : toString L.get = toString L'.get) : L = L' := by
  obtain ⟨value, positive⟩ := L
  obtain ⟨value', positive'⟩ := L'
  obtain ⟨n, rfl⟩ := Int.eq_ofNat_of_zero_le (Int.le_of_lt positive)
  obtain ⟨n', rfl⟩ := Int.eq_ofNat_of_zero_le (Int.le_of_lt positive')
  obtain rfl : n = n' := toString_injective same
  rfl

/-- A path of a library other than the first. -/
theorem libraryPath_eq {rest : String} (plain : '/' ∉ key.toList)
    (same : "libraries/" ++ toString L.get ++ "/" ++ key =
      "libraries/" ++ toString L'.get ++ "/" ++ rest) : L = L' ∧ key = rest := by
  have chars := congrArg String.toList same
  simp only [String.toList_append, List.append_assoc] at chars
  have tails := List.append_cancel_left chars
  have parts := (List.append_cons_inj_of_notMem (slash_notMem_id L) plain).mp tails
  have number := id_of_text (String.toList_injective parts.1)
  exact ⟨number, String.toList_injective parts.2.2⟩

theorem legacyBlobKey_ne_uploadStorageKey (valid : validKey key = true) :
    legacyBlobKey L key ≠ uploadStorageKey L' id := by
  have plain := slash_notMem_of_validKey valid
  intro same
  unfold legacyBlobKey at same
  split at same
  · rw [same] at plain
    simp [uploadStorageKey] at plain
  · have path : uploadStorageKey L' id = "libraries/" ++ toString L'.get ++ "/" ++
        ("uploads/" ++ id) := by
      apply String.toList_injective
      simp [uploadStorageKey]
    obtain ⟨-, rfl⟩ := libraryPath_eq plain (same.trans path)
    simp at plain

/-- Different attachments had their bytes at different keys. -/
theorem legacyBlobKey_injective (valid : validKey key = true) (valid' : validKey key' = true)
    (same : legacyBlobKey L key = legacyBlobKey L' key') : L' = L ∧ key' = key := by
  have plain := slash_notMem_of_validKey valid
  have plain' := slash_notMem_of_validKey valid'
  unfold legacyBlobKey at same
  split at same <;> split at same
  · rename_i first first'
    obtain ⟨n, positive⟩ := L
    obtain ⟨n', positive'⟩ := L'
    obtain rfl : n = 1 := first
    obtain rfl : n' = 1 := first'
    exact ⟨rfl, same.symm⟩
  · rw [same] at plain
    simp at plain
  · rw [← same] at plain'
    simp at plain'
  · obtain ⟨rfl, rfl⟩ := libraryPath_eq plain same
    exact ⟨rfl, rfl⟩

end Paths

section World
variable {digests : Digests} {config : Config} {ι π : Type} [DecidableEq ι] [DecidableEq π]
  {old : LegacyDatabase} {s : Migrated} {s' : IdentityStore} {v : Table String Blob}
  {es es' : List (Event (server digests config))}
  {w w' : World (uploadPlant digests config) ι π}

/-- No upload is put or deleted where an attachment had its bytes. -/
theorem call_elsewhere {op : StorageOp} {m : Moment (uploadPlant digests config)} {L : LibraryId}
    {key : String} (valid : validKey key = true) (may : MayCall op m) :
    (storage.apply op m.service).find? (legacyBlobKey L key) =
      m.service.find? (legacyBlobKey L key) := by
  have elsewhere {t : Digest} {c : Candidate} (made : Made m.events t c) :
      legacyBlobKey L key ≠ c.blobKey := by
    obtain ⟨r, _, _, _, _, id, _, _, _, rfl⟩ := made
    exact legacyBlobKey_ne_uploadStorageKey valid
  cases op with
  | put path bytes contentType =>
      obtain ⟨t, c, made, rfl, -⟩ := may
      exact Table.find?_put_ne _ _ (elsewhere made)
  | delete path =>
      obtain ⟨t, c, made, rfl, -⟩ := may
      exact Table.find?_erase_ne _ (elsewhere made)

theorem legacy_spared {m : Moment (uploadPlant digests config)} {L : LibraryId} {key : String}
    (valid : validKey key = true) : ¬ MayCall (.delete (legacyBlobKey L key)) m := by
  intro may
  obtain ⟨t, c, ⟨r, _, _, _, _, id, _, _, _, rfl⟩, same, -⟩ := may
  exact legacyBlobKey_ne_uploadStorageKey valid same.symm

/-- What the first identity leaves of the migrated database. -/
theorem entered_of_migrated (legacy : old.Valid) (migrated : old.migrate = .ok s)
    {lost : ℕ → Bool} {userId : UserId} {username displayName : String} {libraryId : LibraryId}
    (started : bootstrapIdentity lost userId username displayName libraryId s.identities =
      (.ok (), s')) :
    s'.database.Valid ∧ NoUploads s'.database ∧ ∀ L key, s'.database.file.find? (L, key) =
      (old.file.find? (L.get, key)).map (LegacyFile.carried L key) := by
  obtain ⟨⟨-, named⟩, rfl⟩ := (migrate_eq_ok legacy).mp migrated
  obtain ⟨-, admits, rfl⟩ := identityStatements_eq_ok.mp (transaction_eq_ok.mp started).1
  have valid := admits.valid (carried_identities_valid legacy named)
  exact ⟨valid.database, fun _ => rfl, find?_carried_file⟩

/-- The server goes on from a migrated database. Whatever uploads, registrations,
collectors and restarts do: the redirect for an attachment leads to bytes that one of
its registrations has verified, or to the very bytes that were there before the
migrations; nothing is about to delete them, and no other attachment ever has its
bytes at their key. -/
theorem attachments_carried (presign : String → Option String) (legacy : old.Valid)
    (migrated : old.migrate = .ok s) (lost : ℕ → Bool) (userId : UserId)
    (username displayName : String) (libraryId : LibraryId)
    (started : bootstrapIdentity lost userId username displayName libraryId s.identities =
      (.ok (), s'))
    (run : World.Run (World.idle s'.database v) es w) (run' : World.Run w es' w')
    (once : DrawnOnce (es ++ es')) {L : LibraryId} {key : String} {d' : Database}
    {response : FileResponse}
    (served : (Handlers.fileGet presign L key).run w.session.state = some (d', response))
    (found : response.status = 302) :
    ∃ f url, w.session.state.file.find? (L, key) = some f ∧ presign f.blobKey = some url ∧
      response = redirect url f ∧
      ((∃ e ∈ es, ∃ t, WritesFile L key t f e) ∧ f.Held digests w'.service ∨
        ∃ f', old.file.find? (L.get, key) = some f' ∧ f = f'.carried L key ∧
          w'.service.find? f.blobKey = v.find? f.blobKey) ∧
      (StorageOp.delete f.blobKey ∉ w'.sent ∧
        ∀ p next, w'.running p ≠ some (.call (.delete f.blobKey) next)) ∧
      ∀ L' key' f', validKey key' = true → w'.session.state.file.find? (L', key') = some f' →
        f'.blobKey = f.blobKey → L' = L ∧ key' = key := by
  obtain ⟨valid, settled, files⟩ := entered_of_migrated legacy migrated started
  have named := validKey_of_redirect served found
  obtain ⟨f, url, is_f, signed, rfl⟩ := row_of_redirect served found
  have starts : Starts (Session.idle s'.database : Session (server digests config) ι) :=
    starts_idle valid
  have runs := (run.trans run').session
  obtain ⟨-, after, -⟩ := kept_of_run valid settled run run' once
  refine ⟨f, url, is_f, signed, rfl, ?_⟩
  rcases file_written run.session starts is_f with before | ⟨e, mem, t, writes⟩
  · obtain ⟨f', there, rfl⟩ := Option.map_eq_some_iff.mp ((files L key).symm.trans before)
    have spared := legacy_spared (L := L) (m := w'.moment (es ++ es')) named
    have clients : World.Clients (discipline digests config)
        (Session.idle s'.database : Session (server digests config) ι) (es ++ es') :=
      clients_keep valid once
    have same := World.Run.unchanged (fun v => Table.find? v (legacyBlobKey L key)) .refl
      (run.trans run') (kept_idle settled) (fun job m _ => sound_job job m) clients
      fun op m _ may => call_elsewhere named may
    refine ⟨.inr ⟨f', there, rfl, same⟩, ⟨fun sent => spared (after.sent _ sent), ?_⟩, ?_⟩
    · intro p next running
      exact spared (after.processes p _ running _ (.refl _) after.inv).1
    · intro L' key' f₁ named' is_f₁ path
      rcases file_written runs starts is_f₁ with before' | ⟨e', mem', t', writes'⟩
      · obtain ⟨f₂, -, rfl⟩ := Option.map_eq_some_iff.mp ((files L' key').symm.trans before')
        exact legacyBlobKey_injective named named' path.symm
      · obtain ⟨r, _, id, _, _, _, _, _, row⟩ :=
          file_of_authorization runs starts settled mem' writes'
        rw [row] at path
        exact absurd path.symm (legacyBlobKey_ne_uploadStorageKey named)
  · have mem' : e ∈ es ++ es' := List.mem_append_left es' mem
    obtain ⟨stored, spared⟩ := kept_of_written after mem' writes
    refine ⟨.inl ⟨⟨e, mem, t, writes⟩, stored.held⟩, spared, ?_⟩
    intro L' key' f₁ named' is_f₁ path
    rcases file_written runs starts is_f₁ with before' | ⟨e', mem₁, t', writes'⟩
    · obtain ⟨f₂, -, rfl⟩ := Option.map_eq_some_iff.mp ((files L' key').symm.trans before')
      obtain ⟨r, _, id, _, _, _, _, _, row⟩ :=
        file_of_authorization runs starts settled mem' writes
      rw [row] at path
      exact absurd path (legacyBlobKey_ne_uploadStorageKey named')
    · exact place_of_blobKey runs starts settled once mem' writes mem₁ writes' path

end World

/-- The attachment, downloaded after the migrations. -/
theorem attachments_carried_hello : ∃ (s : Migrated) (s' : IdentityStore) (w : DemoWorld)
    (url : String) (f : File), legacyDatabase.migrate = .ok s ∧
    bootstrapIdentity (fun _ => false) demoOwner "owner" "Owner" newLibrary s.identities =
      (.ok (), s') ∧
    (Handlers.fileGet (fun key => some ("https://bucket.example/" ++ key)) newLibrary
      "FILE2345").run w.session.state = some (s'.database, redirect url f) ∧
    w.service.find? f.blobKey = some ⟨demoBody, "text/plain"⟩ := by
  let storage : Table String Blob := (∅ : Table String Blob).put "FILE2345" ⟨demoBody, "text/plain"⟩
  have migrated : legacyDatabase.migrate = .ok legacyDatabase.carried := rfl
  let s' := counted (enterIdentity demoOwner "owner" "Owner" newLibrary
    legacyDatabase.carried.identities)
  have started : bootstrapIdentity (fun _ => false) demoOwner "owner" "Owner" newLibrary
      legacyDatabase.carried.identities = (.ok (), s') := rfl
  let w : DemoWorld := .idle s'.database storage
  have run' : World.Run w ([] ++ []) (w.set () _) :=
    .snoc .refl (.spawn () (UploadJob.startUp []) rfl)
  have served : (Handlers.fileGet (fun key => some ("https://bucket.example/" ++ key)) newLibrary
      "FILE2345").run w.session.state = some (s'.database, redirect
        "https://bucket.example/FILE2345" (legacyFile.carried newLibrary "FILE2345")) := rfl
  obtain ⟨f, url, -, signed, -, kept, -, -⟩ := attachments_carried
    (fun key => some ("https://bucket.example/" ++ key)) legacyDatabase_valid migrated _ _ _ _ _
    started .refl run' ⟨List.nodup_nil, List.nodup_nil⟩ served rfl
  have before := kept.resolve_left fun written => by
    obtain ⟨⟨e, mem, -⟩, -⟩ := written
    exact List.not_mem_nil mem
  obtain ⟨f', there, carried, same⟩ := before
  cases there
  rw [carried] at signed same
  cases signed
  exact ⟨_, s', _, _, _, migrated, started, rfl, same⟩

end Xotero
