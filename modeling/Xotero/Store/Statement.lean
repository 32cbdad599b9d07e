import Xotero.Foundation.Txn
import Xotero.Store.Rows
import Xotero.Store.Search

/-!
The SQL statements of the server, one constructor each: what a statement
returns, the rows it writes and the row locks it takes. `now` is the time the
statement reads, and `skipped` the rows `skip locked` passed over.
-/

namespace Xotero

structure FileMeta where
  md5 : String
  blobMd5 : String
  mtime : Int
  filesize : Int
  compressed : Bool
  blobKey : String
  deriving DecidableEq

/-- A row of the query in `resolve_group_library_with_grants`. -/
structure GroupLibraryRow where
  libraryId : LibraryId
  libraryEditing : LibraryEditing
  fileEditing : FileEditing
  role : Option Role
  allLibrary : Bool
  allWrite : Bool
  explicitLibrary : Bool
  explicitWrite : Bool
  deriving DecidableEq

inductive Sql where
  | libraryForUpdate (L : LibraryId)
  | libraryForShare (L : LibraryId)
  | libraryVersion (L : LibraryId)
  | updateLibraryVersion (L : LibraryId) (version : Int)
  | objectData (L : LibraryId) (kind : ObjectKind) (key : String)
  | objects (L : LibraryId) (kind : ObjectKind) (keys : List String) (includeNotes : Bool)
  | versions (L : LibraryId) (kind : ObjectKind) (since : Int) (includeNotes : Bool)
  | topVersions (L : LibraryId) (since : Int) (includeNotes : Bool)
  | countItems (locale : Locale) (L : LibraryId) (q : ItemQuery) (includeNotes : Bool)
  | queryItems (locale : Locale) (L : LibraryId) (q : ItemQuery) (includeNotes : Bool)
  | itemKeys (locale : Locale) (L : LibraryId) (q : ItemQuery) (includeNotes : Bool)
  | tags (locale : Locale) (L : LibraryId)
  | upsertObject (L : LibraryId) (kind : ObjectKind) (key : String) (version : Int) (data : Value)
  | deleteObject (L : LibraryId) (kind : ObjectKind) (key : String)
  | deletedSince (L : LibraryId) (since : Int)
  | upsertDeletion (L : LibraryId) (kind : DeletionKind) (key : String) (version : Int)
  | deleteDeletion (L : LibraryId) (kind : DeletionKind) (key : String)
  | settings (L : LibraryId)
  | upsertSetting (L : LibraryId) (key : String) (version : Int) (value : Value)
  | deleteSetting (L : LibraryId) (key : String)
  | stripTag (L : LibraryId) (tag : String) (version : Int)
  | fulltextVersions (L : LibraryId) (since : Int)
  | fulltextItem (L : LibraryId) (key : String)
  | upsertFulltext (L : LibraryId) (key : String) (row : Fulltext)
  | fileMeta (L : LibraryId) (key : String)
  | fileMd5 (L : LibraryId) (key : String)
  | upsertFile (L : LibraryId) (key : String) (row : File)
  | deleteFile (L : LibraryId) (key : String)
  | itemForUpdate (L : LibraryId) (key : String)
  | stampItem (L : LibraryId) (key : String) (version : Int) (md5 : String) (mtime : Int)
      (filename : String)
  | createPendingUpload (token : Digest) (upload : PendingUpload) (now : Int)
  | pendingUpload (token : Digest) (now : Int)
  | pendingUploadForUpdate (token : Digest) (now : Int)
  | discardUpload (token : Digest)
  | deletePendingUpload (token : Digest)
  | claimPendingUpload (token : Digest) (now : Int)
  | resetPendingUpload (token : Digest) (now : Int)
  | discardPendingUpload (token : Digest)
  | markPendingUploadUploaded (token : Digest) (now : Int)
  | resetInterruptedPendingUploads
  | claimPendingUploadGarbage (limit : Nat) (now : Int) (skipped : List Digest)
  | deletePendingUploadGarbage (token : Digest)
  | bootstrapPrincipal (user : UserId)
  | authenticateApiKey (tokenHash : Digest)
  | resolveGroupLibrary (group : GroupId) (user : UserId) (key : Option ApiKeyId)
      (grantRows : Bool × Bool)
  | groupForShare (group : GroupId) (L : LibraryId)
  | usersForShare (ids : List UserId)
  | personalLibrariesForShare (ids : List UserId)
  | apiKeysForShare (ids : List ApiKeyId)
  | apiKeyUserPermissionsForShare (ids : List ApiKeyId)
  | groupMembershipsForShare (group : GroupId) (ids : List UserId)
  | allGroupsPermissionsForShare (ids : List ApiKeyId)
  | groupPermissionsForShare (group : GroupId) (ids : List ApiKeyId)
  | account (w : AccountWrite)

abbrev Sql.Result : Sql → Type
  | .libraryForUpdate _ | .libraryForShare _ => Option Int
  | .libraryVersion _ => Option Int
  | .objectData .. | .itemForUpdate .. => Option Value
  | .objects .. | .queryItems .. => List (String × Object)
  | .countItems .. => Nat
  | .itemKeys .. => List String
  | .tags .. => List (String × Nat)
  | .versions .. | .topVersions .. | .fulltextVersions .. => List (String × Int)
  | .deletedSince .. => List (DeletionKind × String)
  | .settings _ => List (String × Setting)
  | .fulltextItem .. => Option Fulltext
  | .fileMeta .. => Option FileMeta
  | .fileMd5 .. => Option String
  | .pendingUpload .. => Option PendingUpload
  | .pendingUploadForUpdate .. => Option (PendingUpload × Bool)
  | .createPendingUpload .. | .claimPendingUpload .. | .markPendingUploadUploaded .. => Bool
  | .claimPendingUploadGarbage .. => List (Digest × String)
  | .bootstrapPrincipal _ => Option Principal
  | .authenticateApiKey _ => Option (ApiKeyId × Principal × Permissions)
  | .resolveGroupLibrary .. => Option GroupLibraryRow
  | .groupForShare .. => Option UserId
  | .usersForShare _ | .personalLibrariesForShare _ | .groupMembershipsForShare .. => List UserId
  | .apiKeysForShare _ | .apiKeyUserPermissionsForShare _ | .allGroupsPermissionsForShare _
  | .groupPermissionsForShare .. => List ApiKeyId
  | _ => Unit

/-- Ids in order, each once: `sort_unstable` and `dedup`, or `order by`. -/
def sortIds {kind : IdKind} (ids : List (Id kind)) : List (Id kind) :=
  (ids.insertionSort fun a b => a.get ≤ b.get).dedup

theorem mem_sortIds {kind : IdKind} {ids : List (Id kind)} {id : Id kind} :
    id ∈ sortIds ids ↔ id ∈ ids := by
  rw [sortIds, List.mem_dedup, List.mem_insertionSort]

/-- `case when expires_at > now()` and its like -/
def PendingUploadRow.live (row : PendingUploadRow) (now : Int) : Bool := now < row.expiresAt

def PendingUploadRow.withState (row : PendingUploadRow) (state : PendingUploadState) :
    PendingUploadRow :=
  { row with upload := { row.upload with state := state } }

def minute : Int := 60 * 1000000

def hour : Int := 60 * minute

def PendingUploadRow.isGarbage (row : PendingUploadRow) (now : Int) : Bool :=
  row.upload.state = .discarded ||
    (!row.live now && row.upload.state ≠ .uploading && row.upload.state ≠ .deleting) ||
    (row.upload.state = .deleting && row.gcAttemptedAt.all (· < now - minute))

namespace Database

def objectsWhere (d : Database) (L : LibraryId) (kind : ObjectKind)
    (p : String → Object → Bool) : List (String × Object) :=
  (d.object.select fun k o => k.1 = L && k.2.1 = kind && p k.2.2 o).map fun e => (e.1.2.2, e.2)

def principalOf (d : Database) (user : UserId) : Option Principal :=
  match d.users.find? user, d.personalLibraries.find? user with
  | some u, some L =>
      if u.disabledAt = none ∧ (d.library.find? L).map Library.kind = some .personal then
        some ⟨user, u.username, u.displayName, L⟩
      else none
  | _, _ => none

def apiKeyRow (d : Database) (tokenHash : Digest) (id : ApiKeyId) (key : ApiKey) :
    Option (ApiKeyId × Principal × Permissions) :=
  if key.tokenHash = tokenHash ∧ key.revokedAt = none then
    match d.principalOf key.userId, d.apiKeyUserPermissions.find? id with
    | some principal, some permissions => some (id, principal, permissions)
    | _, _ => none
  else none

def groupLibraryRow (d : Database) (group : GroupId) (user : UserId) (key : Option ApiKeyId)
    (grantRows : Bool × Bool) : Option GroupLibraryRow :=
  match d.groups.find? group with
  | none => none
  | some g =>
      if (d.library.find? g.libraryId).map Library.kind = some .group ∧
          (d.users.find? g.ownerUserId).map User.disabledAt = some none then
        let all := key.bind fun k =>
          if grantRows.1 then d.apiKeyAllGroupsPermissions.find? k else none
        let explicit := key.bind fun k =>
          if grantRows.2 then (d.apiKeyGroupPermissions.find? (k, group)).map (·.grant) else none
        some {
          libraryId := g.libraryId
          libraryEditing := g.libraryEditing
          fileEditing := g.fileEditing
          role := d.groupMemberships.find? (group, user)
          allLibrary := all.any Grant.library
          allWrite := all.any Grant.write
          explicitLibrary := explicit.any Grant.library
          explicitWrite := explicit.any Grant.write }
      else none

/-- The rows `claim_pending_upload_garbage` picks. -/
def garbage (d : Database) (limit : Nat) (now : Int) (skipped : List Digest) :
    List (Digest × PendingUploadRow) :=
  (((d.pendingUploads.select fun t row => row.isGarbage now && !skipped.contains t).insertionSort
    fun e e' => e.2.expiresAt ≤ e'.2.expiresAt).take limit)

/-- An item without the entries of its `tags` that name `tag`. -/
def withoutTag (data : Value) (tag : String) : Value :=
  data.set "tags" (.array ((data.elements "tags").filter fun t => t.getText "tag" ≠ some tag))

def taggedItems (d : Database) (L : LibraryId) (tag : String) : List (String × Object) :=
  d.objectsWhere L .item fun _ o => o.data.tagNames.contains tag

end Database

def Database.matchingItems (d : Database) (locale : Locale) (L : LibraryId) (q : ItemQuery)
    (includeNotes : Bool) : List (String × Object) :=
  d.objectsWhere L .item fun key o =>
    itemMatches locale q includeNotes (d.fulltext.find? (L, key)) o

/-- `unnest(tag_names)` of the items outside the trash. -/
def Database.usedTags (d : Database) (L : LibraryId) : List String :=
  (d.objectsWhere L .item fun _ o => !o.data.deleted).flatMap fun e => e.2.data.tagNames

/-- The members `register_file` stamps into an attachment. -/
def fileStamp (version : Int) (md5 : String) (mtime : Int) (filename : String) : Members :=
  [("md5", .string md5), ("mtime", .ofInt mtime), ("filename", .string filename),
    ("version", .ofInt version)]

def Sql.eval : (q : Sql) → Database → q.Result
  | .libraryForUpdate L, d | .libraryForShare L, d | .libraryVersion L, d =>
      (d.library.find? L).map Library.version
  | .objectData L kind key, d => (d.object.find? (L, kind, key)).map Object.data
  | .objects L kind keys includeNotes, d =>
      d.objectsWhere L kind fun key o =>
        keys.contains key && (kind ≠ .item || noteVisible includeNotes o)
  | .versions L kind since includeNotes, d =>
      (d.objectsWhere L kind fun _ o =>
        since < o.version && (kind ≠ .item || noteVisible includeNotes o)).map
        fun e => (e.1, e.2.version)
  | .topVersions L since includeNotes, d =>
      (d.objectsWhere L .item fun _ o =>
        o.data.isTop && since < o.version && noteVisible includeNotes o).map
        fun e => (e.1, e.2.version)
  | .countItems locale L q includeNotes, d => (d.matchingItems locale L q includeNotes).length
  | .queryItems locale L q includeNotes, d =>
      (((d.matchingItems locale L q includeNotes).insertionSort fun e e' =>
        (q.compareRows locale e e').isLE).drop q.start.toNat).take q.limit.toNat
  | .itemKeys locale L q includeNotes, d =>
      ((d.matchingItems locale L q includeNotes).map fun e => e.1).insertionSort fun key key' =>
        (locale.compare key key').isLE
  | .tags locale L, d =>
      ((d.usedTags L).dedup.insertionSort fun tag tag' => (locale.compare tag tag').isLE).map
        fun tag => (tag, (d.usedTags L).count tag)
  | .deletedSince L since, d =>
      (d.deletion.select fun k version => k.1 = L && since < version).map fun e => e.1.2
  | .settings L, d => (d.setting.select fun k _ => k.1 = L).map fun e => (e.1.2, e.2)
  | .fulltextVersions L since, d =>
      (d.fulltext.select fun k row => k.1 = L && since < row.version).map
        fun e => (e.1.2, e.2.version)
  | .fulltextItem L key, d => d.fulltext.find? (L, key)
  | .fileMeta L key, d =>
      match d.file.find? (L, key), d.object.find? (L, .item, key) with
      | some f, some o =>
          if o.data.getText "itemType" = some "attachment" ∧
              (o.data.getText "linkMode" = some "imported_file" ∨
                o.data.getText "linkMode" = some "imported_url") then
            some ⟨f.md5, f.blobMd5, f.mtime, f.filesize, f.compressed, f.blobKey⟩
          else none
      | _, _ => none
  | .fileMd5 L key, d => (d.file.find? (L, key)).map File.md5
  | .itemForUpdate L key, d => (d.object.find? (L, .item, key)).map Object.data
  | .createPendingUpload token _ _, d => (d.pendingUploads.find? token).isNone
  | .pendingUpload token now, d =>
      ((d.pendingUploads.find? token).filter fun row => row.live now).map (·.upload)
  | .pendingUploadForUpdate token now, d =>
      (d.pendingUploads.find? token).map fun row => (row.upload, row.live now)
  | .claimPendingUpload token now, d =>
      (d.pendingUploads.find? token).any fun row =>
        row.upload.state = .authorized && row.live now
  | .markPendingUploadUploaded token now, d =>
      (d.pendingUploads.find? token).any fun row =>
        row.upload.state = .uploading && row.live now
  | .claimPendingUploadGarbage limit now skipped, d =>
      (d.garbage limit now skipped).map fun e => (e.1, e.2.upload.blobKey)
  | .bootstrapPrincipal user, d => d.principalOf user
  | .authenticateApiKey tokenHash, d =>
      d.apiKeys.rows.findSome? fun e => d.apiKeyRow tokenHash e.1 e.2
  | .resolveGroupLibrary group user key grantRows, d => d.groupLibraryRow group user key grantRows
  | .groupForShare group L, d =>
      ((d.groups.find? group).filter fun g => g.libraryId = L).map Group.ownerUserId
  | .usersForShare ids, d => (sortIds ids).filter fun u => (d.users.find? u).isSome
  | .personalLibrariesForShare ids, d =>
      (sortIds ids).filter fun u => (d.personalLibraries.find? u).isSome
  | .apiKeysForShare ids, d => (sortIds ids).filter fun k => (d.apiKeys.find? k).isSome
  | .apiKeyUserPermissionsForShare ids, d =>
      (sortIds ids).filter fun k => (d.apiKeyUserPermissions.find? k).isSome
  | .groupMembershipsForShare group ids, d =>
      (sortIds ids).filter fun u => (d.groupMemberships.find? (group, u)).isSome
  | .allGroupsPermissionsForShare ids, d =>
      (sortIds ids).filter fun k => (d.apiKeyAllGroupsPermissions.find? k).isSome
  | .groupPermissionsForShare group ids, d =>
      (sortIds ids).filter fun k => (d.apiKeyGroupPermissions.find? (k, group)).isSome
  | .updateLibraryVersion .., _ | .upsertObject .., _ | .deleteObject .., _
  | .upsertDeletion .., _ | .deleteDeletion .., _ | .upsertSetting .., _ | .deleteSetting .., _
  | .stripTag .., _ | .upsertFulltext .., _ | .upsertFile .., _ | .deleteFile .., _
  | .stampItem .., _ | .discardUpload _, _ | .deletePendingUpload _, _
  | .resetPendingUpload .., _ | .discardPendingUpload _, _
  | .resetInterruptedPendingUploads, _ | .deletePendingUploadGarbage _, _ | .account _, _ => ()

/-- `update pending_uploads set … where token_hash = $1 and p` -/
def updatePendingUpload (d : Database) (token : Digest) (p : PendingUploadRow → Bool)
    (f : PendingUploadRow → Option PendingUploadRow) : List Write :=
  match d.pendingUploads.find? token with
  | some row => if p row then [.pendingUpload token (f row)] else []
  | none => []

def Sql.writes : Sql → Database → List Write
  | .updateLibraryVersion L version, d =>
      match d.library.find? L with
      | some row => [.library L { row with version := version }]
      | none => []
  | .upsertObject L kind key version data, _ =>
      [.object L kind key (some ⟨version, data.toJsonb⟩)]
  | .deleteObject L kind key, _ => [.object L kind key none]
  | .upsertDeletion L kind key version, _ => [.deletion L kind key (some version)]
  | .deleteDeletion L kind key, _ => [.deletion L kind key none]
  | .upsertSetting L key version value, _ => [.setting L key (some ⟨version, value.toJsonb⟩)]
  | .deleteSetting L key, _ => [.setting L key none]
  | .stripTag L tag version, d =>
      (d.taggedItems L tag).map fun e =>
        .object L .item e.1 (some ⟨version, Database.withoutTag e.2.data tag⟩)
  | .upsertFulltext L key row, _ => [.fulltext L key (some row)]
  | .upsertFile L key row, _ => [.file L key (some row)]
  | .deleteFile L key, _ => [.file L key none]
  | .stampItem L key version md5 mtime filename, d =>
      match d.object.find? (L, .item, key) with
      | some o => [.object L .item key
          (some ⟨version, o.data.concat (.object (fileStamp version md5 mtime filename))⟩)]
      | none => []
  | .createPendingUpload token upload now, d =>
      match d.pendingUploads.find? token with
      | some _ => []
      | none => [.pendingUpload token
          (some ⟨{ upload with state := .authorized }, now, now + hour, none⟩)]
  | .discardUpload token, d =>
      updatePendingUpload d token (fun _ => true) fun row => some (row.withState .discarded)
  | .deletePendingUpload token, d => updatePendingUpload d token (fun _ => true) fun _ => none
  | .claimPendingUpload token now, d =>
      updatePendingUpload d token
        (fun row => row.upload.state = .authorized && row.live now)
        fun row => some (row.withState .uploading)
  | .resetPendingUpload token now, d =>
      updatePendingUpload d token (fun row => row.upload.state = .uploading) fun row =>
        some (row.withState (if row.live now then .authorized else .discarded))
  | .discardPendingUpload token, d =>
      updatePendingUpload d token (fun row => row.upload.state = .uploading) fun row =>
        some (row.withState .discarded)
  | .markPendingUploadUploaded token now, d =>
      updatePendingUpload d token
        (fun row => row.upload.state = .uploading && row.live now)
        fun row => some (row.withState .uploaded)
  | .resetInterruptedPendingUploads, d =>
      (d.pendingUploads.select fun _ row => row.upload.state = .uploading).map fun e =>
        .pendingUpload e.1 (some (e.2.withState .authorized))
  | .claimPendingUploadGarbage limit now skipped, d =>
      (d.garbage limit now skipped).map fun e =>
        .pendingUpload e.1 (some { e.2.withState .deleting with gcAttemptedAt := some now })
  | .deletePendingUploadGarbage token, d =>
      updatePendingUpload d token (fun row => row.upload.state = .deleting) fun _ => none
  | .account w, _ => [.account w]
  | _, _ => []

def Sql.locks (q : Sql) (d : Database) : List (RowLock RowId) :=
  match q with
  | .libraryForUpdate L => if (d.library.find? L).isSome then [⟨.library L, .update⟩] else []
  | .libraryForShare L => if (d.library.find? L).isSome then [⟨.library L, .share⟩] else []
  | .itemForUpdate L key =>
      if (d.object.find? (L, .item, key)).isSome then [⟨.item L key, .update⟩] else []
  | .pendingUploadForUpdate token _ =>
      if (d.pendingUploads.find? token).isSome then [⟨.pendingUpload token, .update⟩] else []
  | .createPendingUpload .. | .discardUpload _ | .deletePendingUpload _ | .claimPendingUpload ..
  | .resetPendingUpload .. | .discardPendingUpload _ | .markPendingUploadUploaded ..
  | .resetInterruptedPendingUploads | .claimPendingUploadGarbage ..
  | .deletePendingUploadGarbage _ | .account _ =>
      (q.writes d).map fun w => ⟨w.target, .update⟩
  | .groupForShare group L =>
      if (Sql.eval (.groupForShare group L) d).isSome then [⟨.group group, .share⟩] else []
  | .usersForShare ids =>
      (Sql.eval (.usersForShare ids) d).map fun u => ⟨.user u, .share⟩
  | .personalLibrariesForShare ids =>
      (Sql.eval (.personalLibrariesForShare ids) d).map fun u => ⟨.personalLibrary u, .share⟩
  | .apiKeysForShare ids =>
      (Sql.eval (.apiKeysForShare ids) d).map fun k => ⟨.apiKey k, .share⟩
  | .apiKeyUserPermissionsForShare ids =>
      (Sql.eval (.apiKeyUserPermissionsForShare ids) d).map fun k =>
        ⟨.apiKeyUserPermissions k, .share⟩
  | .groupMembershipsForShare group ids =>
      (Sql.eval (.groupMembershipsForShare group ids) d).map fun u =>
        ⟨.groupMembership group u, .share⟩
  | .allGroupsPermissionsForShare ids =>
      (Sql.eval (.allGroupsPermissionsForShare ids) d).map fun k =>
        ⟨.apiKeyAllGroupsPermissions k, .share⟩
  | .groupPermissionsForShare group ids =>
      (Sql.eval (.groupPermissionsForShare group ids) d).map fun k =>
        ⟨.apiKeyGroupPermission k group, .share⟩
  | _ => []

/-- The database as its clients see it. -/
abbrev Db : Interface where
  State := Database
  Row := RowId
  Write := Write
  Stmt := Sql
  Result := Sql.Result
  apply w d := d.apply w
  eval := Sql.eval
  writes := Sql.writes
  locks := Sql.locks
  valid := Database.Valid
  target := Write.target
  agree := Agree
  agree_equiv := agree_equivalence
  agree_frame := agree_frame
  agree_apply := agree_apply

end Xotero
