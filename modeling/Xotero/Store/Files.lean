import Xotero.Store.Authority

/-!
Attachment files: the locks that hold an upload's authorities in place, and the
registration that makes one uploaded candidate the file of its item.
-/

namespace Xotero

/-- A credential: the digest of a key, and the bootstrap user of a static one. -/
abbrev Credential := Digest × Option UserId

def uploadCredentials (digests : Digests) (upload : PendingUpload) (context : RequestContext) :
    List Credential :=
  [(upload.authorizerKeyHash, upload.bootstrapUserId),
    (digests.sha256 context.presentedKey,
      if context.apiKeyId.isNone then some context.principal.userId else none)]

/-- The authorities of the credentials, if each has one. -/
def discoverAuthorities (config : Config) :
    List Credential → Txn Db (Option (List UploadAuthority))
  | [] => return some []
  | credential :: credentials => do
      match ← UploadAuthority.resolve config credential.1 credential.2 with
      | none => return none
      | some authority =>
          let rest ← discoverAuthorities config credentials
          return rest.map (authority :: ·)

def lockLibrary (uploadLibrary L : LibraryId) : Txn Db (Option Int) :=
  if L = uploadLibrary then execute (.libraryForUpdate L) else execute (.libraryForShare L)

/-- Lock the libraries in order, the upload's for update; its version, if all
of them exist. -/
def lockLibraries (uploadLibrary : LibraryId) :
    List LibraryId → Option Int → Txn Db (Option (Option Int))
  | [], currentVersion => return some currentVersion
  | L :: libraries, currentVersion => do
      match ← lockLibrary uploadLibrary L with
      | none => return none
      | some version =>
          lockLibraries uploadLibrary libraries
            (if L = uploadLibrary then some version else currentVersion)

/-- Re-read the authorities after all waits, on locked grants only. -/
def recheckAuthorities (config : Config) (upload : PendingUpload)
    (allGrants explicitGrants : List ApiKeyId) :
    List (Credential × UploadAuthority) → Txn Db Bool
  | [] => return true
  | (credential, discovered) :: rest => do
      match ← UploadAuthority.resolve config credential.1 credential.2 with
      | none => return false
      | some current =>
          if current.apiKeyId ≠ discovered.apiKeyId ∨
              current.principal.userId ≠ discovered.principal.userId ∨
              current.principal.libraryId ≠ discovered.principal.libraryId then
            return false
          else
            let grantRows := (current.apiKeyId.any allGrants.contains,
              current.apiKeyId.any explicitGrants.contains)
            if ← current.allows upload grantRows then
              recheckAuthorities config upload allGrants explicitGrants rest
            else return false

/-- The locks on the memberships and grants of a group upload. -/
def lockGroupRows (upload : PendingUpload) (owners : List UserId) (keys : List ApiKeyId) :
    Txn Db (Option (List ApiKeyId × List ApiKeyId)) :=
  match upload.groupId with
  | none => return some ([], [])
  | some group => do
      let memberships ← execute (.groupMembershipsForShare group owners)
      if memberships.length ≠ owners.length then return none
      else
        let allGrants ← execute (.allGroupsPermissionsForShare keys)
        let explicitGrants ← execute (.groupPermissionsForShare group keys)
        return some (allGrants, explicitGrants)

/-- The locks on keys and on what they carry. -/
def lockKeys (keys : List ApiKeyId) : Txn Db Bool := do
  let rows ← execute (.apiKeysForShare keys)
  if rows.length ≠ keys.length then return false
  else
    let rows ← execute (.apiKeyUserPermissionsForShare keys)
    return rows.length = keys.length

/-- The owner of the upload's group, if it has one; `none` when the group is
gone. -/
def lockGroup (upload : PendingUpload) : Txn Db (Option (List UserId)) :=
  match upload.groupId with
  | none => return some []
  | some group => do
      match ← execute (.groupForShare group upload.libraryId) with
      | none => return none
      | some owner => return some [owner]

/-- Lock every row the authorities rest on, then read them again. -/
def lockAuthorityRows (config : Config) (upload : PendingUpload)
    (credentials : List Credential) (authorities : List UploadAuthority) : Txn Db Bool := do
  match ← lockGroup upload with
  | none => return false
  | some groupOwner =>
  -- Unlike the locks below, the rows this one finds are not counted.
  let _ ← execute (.usersForShare
    (sortIds (authorities.map (fun a => a.principal.userId) ++ groupOwner)))
  let owners := sortIds (authorities.map fun a => a.principal.userId)
  let mappings ← execute (.personalLibrariesForShare owners)
  if mappings.length ≠ owners.length then return false
  else
  let keys := sortIds (authorities.filterMap fun a => a.apiKeyId)
  if !(← lockKeys keys) then return false
  else
  match ← lockGroupRows upload owners keys with
  | none => return false
  | some (allGrants, explicitGrants) =>
  recheckAuthorities config upload allGrants explicitGrants (credentials.zip authorities)

/-- Discovery supplies lock candidates only. -/
def lockUploadAuthorities (digests : Digests) (config : Config) (upload : PendingUpload)
    (context : RequestContext) : Txn Db (Option Int) := do
  let credentials := uploadCredentials digests upload context
  match ← discoverAuthorities config credentials with
  | none => return none
  | some authorities =>
  let libraries := sortIds (upload.libraryId :: authorities.map fun a => a.principal.libraryId)
  match ← lockLibraries upload.libraryId libraries none with
  | none => return none
  | some currentVersion =>
  if ← lockAuthorityRows config upload credentials authorities then return currentVersion
  else return none

inductive FileRegistrationOutcome where
  | done (version : Int)
  | conflict (current : Int)
  | invalidItem
  | invalidUpload
  | denied
  deriving DecidableEq

def preconditionMatches (expected current : Option String) : Bool :=
  match expected, current with
  | none, none => true
  | some expected, some current => eqIgnoreAsciiCase expected current
  | _, _ => false

def registeredFile (upload : PendingUpload) (version : Int) : File where
  blobKey := upload.blobKey
  md5 := upload.md5
  blobMd5 := upload.uploadMd5
  filename := upload.filename
  filesize := upload.filesize
  mtime := upload.mtime
  compressed := upload.compressed
  version := version

/-- Registration once the authorities are locked: the compare-and-swap of the
file row under the library lock. -/
def registerLocked (token : Digest) (itemKey : String) (L : LibraryId) (upload : PendingUpload)
    (currentVersion : Int) : Txn Db (Ending FileRegistrationOutcome) := do
  let item ← execute (.itemForUpdate L itemKey)
  if item.all fun data => !isStoredFileAttachment data then
    execute (.discardUpload token)
    return .commit .invalidItem
  else
    let currentMd5 ← execute (.fileMd5 L itemKey)
    if !preconditionMatches upload.expectedMd5 currentMd5 then
      execute (.discardUpload token)
      return .commit (.conflict currentVersion)
    else
      let version := currentVersion + 1
      execute (.updateLibraryVersion L version)
      execute (.upsertFile L itemKey (registeredFile upload version))
      execute (.stampItem L itemKey version upload.md5 upload.mtime upload.filename)
      execute (.deletePendingUpload token)
      return .commit (.done version)

def registerFile (digests : Digests) (config : Config) (token : Digest) (itemKey : String)
    (access : LibraryAccess) (context : RequestContext) (now : Int) :
    Txn Db (Ending FileRegistrationOutcome) := do
  match ← execute (.pendingUploadForUpdate token now) with
  | none => return .drop .invalidUpload
  | some (upload, valid) =>
    if !valid then
      execute (.discardUpload token)
      return .commit .invalidUpload
    else if upload.state ≠ .uploaded ∨ upload.libraryId ≠ access.libraryId ∨
        upload.groupId ≠ access.groupId ∨ upload.itemKey ≠ itemKey then
      return .drop .invalidUpload
    else
      match ← lockUploadAuthorities digests config upload context with
      | none => return .drop .denied
      | some currentVersion => registerLocked token itemKey access.libraryId upload currentVersion

end Xotero
