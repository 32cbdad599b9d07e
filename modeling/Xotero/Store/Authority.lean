import Xotero.Store.Library

/-!
Who may do what: principals of bootstrap and database keys, access to group
libraries, and the authority behind an upload.
-/

namespace Xotero

def bootstrapPrincipal (user : UserId) : Txn Db (Option Principal) :=
  execute (.bootstrapPrincipal user)

def authenticateApiKey (tokenHash : Digest) :
    Txn Db (Option (ApiKeyId × Principal × Permissions)) :=
  execute (.authenticateApiKey tokenHash)

inductive GroupLibraryResolution where
  | missing
  | denied
  | allowed (access : LibraryAccess)
  deriving DecidableEq

/-- What the role, the policies and the grants of a row allow. -/
def GroupLibraryRow.resolve (group : GroupId) (staticPermissions : Option Permissions) :
    Option GroupLibraryRow → GroupLibraryResolution
  | none => .missing
  | some row =>
      match row.role with
      | none => .denied
      | some role =>
          let allLibrary := staticPermissions.any Permissions.library || row.allLibrary
          let allWrite := staticPermissions.any Permissions.write || row.allWrite
          if !allLibrary && !row.explicitLibrary then .denied
          else
            let isAdmin := role = .owner || role = .admin
            let policyWrite := isAdmin || (role = .member && row.libraryEditing = .members)
            let write := (row.explicitLibrary && row.explicitWrite) ||
              (allLibrary && allWrite && policyWrite)
            let fileWrite := write &&
              match row.fileEditing with
              | .members => true
              | .admins => isAdmin
              | .none => false
            .allowed {
              libraryId := row.libraryId
              groupId := some group
              permissions := ⟨true, true, write, true⟩
              isAdmin := isAdmin
              fileWrite := fileWrite }

def resolveGroupLibraryWithGrants (group : GroupId) (user : UserId) (key : Option ApiKeyId)
    (staticPermissions : Option Permissions) (grantRows : Bool × Bool) :
    Txn Db GroupLibraryResolution := do
  let row ← execute (.resolveGroupLibrary group user key grantRows)
  return GroupLibraryRow.resolve group staticPermissions row

def resolveGroupLibrary (group : GroupId) (user : UserId) (key : Option ApiKeyId)
    (staticPermissions : Option Permissions) : Txn Db GroupLibraryResolution :=
  resolveGroupLibraryWithGrants group user key staticPermissions (true, true)

/-! The authority behind an upload -/

structure UploadAuthority where
  apiKeyId : Option ApiKeyId
  principal : Principal
  permissions : Permissions
  deriving DecidableEq

namespace UploadAuthority

def resolve (config : Config) (keyHash : Digest) (bootstrapUserId : Option UserId) :
    Txn Db (Option UploadAuthority) :=
  match bootstrapUserId with
  | some userId =>
      if userId ≠ config.userId then return none
      else
        match config.recoveryPermissions keyHash with
        | none => return none
        | some permissions => do
            let principal ← bootstrapPrincipal userId
            return principal.map fun principal => ⟨none, principal, permissions⟩
  | none => do
      let row ← authenticateApiKey keyHash
      return row.map fun row => ⟨some row.1, row.2.1, row.2.2⟩

def allows (authority : UploadAuthority) (upload : PendingUpload) (grantRows : Bool × Bool) :
    Txn Db Bool :=
  match upload.groupId with
  | none =>
      return authority.principal.libraryId = upload.libraryId &&
        authority.permissions.library && authority.permissions.write &&
        authority.permissions.files
  | some group => do
      let resolution ← resolveGroupLibraryWithGrants group authority.principal.userId
        authority.apiKeyId
        (if authority.apiKeyId.isNone then some authority.permissions else none) grantRows
      match resolution with
      | .allowed access => return access.libraryId = upload.libraryId && access.fileWrite
      | .denied | .missing => return false

end UploadAuthority

def PendingUpload.authorized (upload : PendingUpload) (config : Config) : Txn Db Bool := do
  match ← UploadAuthority.resolve config upload.authorizerKeyHash upload.bootstrapUserId with
  | none => return false
  | some authority => authority.allows upload (true, true)

end Xotero
