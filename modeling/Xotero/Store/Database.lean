import Xotero.Domain
import Xotero.Foundation.Table
import Xotero.Json.Jsonb

/-!
The tables of the database and their constraints. A column that no statement
reads is left out; a generated column is a function of the row.
-/

namespace Xotero

/-- The kinds of `object` rows. -/
inductive ObjectKind where
  | item
  | collection
  | search
  deriving DecidableEq, Repr

def ObjectKind.name : ObjectKind → String
  | .item => "item"
  | .collection => "collection"
  | .search => "search"

/-- The kinds of rows in the deletion log. -/
inductive DeletionKind where
  | object (kind : ObjectKind)
  | setting
  | tag
  deriving DecidableEq, Repr

inductive LibraryKind where
  | personal
  | group
  deriving DecidableEq

structure Library where
  version : Int
  kind : LibraryKind
  deriving DecidableEq

structure Object where
  version : Int
  data : Value

structure Setting where
  version : Int
  value : Value

structure File where
  blobKey : String
  md5 : String
  blobMd5 : String
  filename : String
  filesize : Int
  mtime : Int
  compressed : Bool
  version : Int
  deriving DecidableEq

structure Fulltext where
  content : String
  indexedChars : Int
  totalChars : Int
  indexedPages : Int
  totalPages : Int
  version : Int
  deriving DecidableEq

inductive PendingUploadState where
  | authorized
  | uploading
  | uploaded
  | discarded
  | deleting
  deriving DecidableEq

structure PendingUpload where
  libraryId : LibraryId
  groupId : Option GroupId
  authorizerKeyHash : Digest
  bootstrapUserId : Option UserId
  itemKey : String
  expectedMd5 : Option String
  blobKey : String
  md5 : String
  uploadMd5 : String
  filename : String
  filesize : Int
  mtime : Int
  compressed : Bool
  state : PendingUploadState
  deriving DecidableEq

/-- A `pending_uploads` row; times are in microseconds. -/
structure PendingUploadRow where
  upload : PendingUpload
  createdAt : Int
  expiresAt : Int
  gcAttemptedAt : Option Int
  deriving DecidableEq

structure User where
  username : String
  displayName : String
  disabledAt : Option Int
  deriving DecidableEq

structure ApiKey where
  userId : UserId
  tokenHash : Digest
  revokedAt : Option Int
  deriving DecidableEq

inductive LibraryEditing where
  | admins
  | members
  deriving DecidableEq

inductive FileEditing where
  | none
  | admins
  | members
  deriving DecidableEq

structure Group where
  libraryId : LibraryId
  ownerUserId : UserId
  libraryEditing : LibraryEditing
  fileEditing : FileEditing
  deriving DecidableEq

inductive Role where
  | owner
  | admin
  | member
  deriving DecidableEq

structure Grant where
  library : Bool
  write : Bool
  deriving DecidableEq

structure GroupPermission where
  userId : UserId
  grant : Grant
  deriving DecidableEq

structure Database where
  library : Table LibraryId Library
  object : Table (LibraryId × ObjectKind × String) Object
  setting : Table (LibraryId × String) Setting
  deletion : Table (LibraryId × DeletionKind × String) Int
  file : Table (LibraryId × String) File
  fulltext : Table (LibraryId × String) Fulltext
  pendingUploads : Table Digest PendingUploadRow
  users : Table UserId User
  personalLibraries : Table UserId LibraryId
  apiKeys : Table ApiKeyId ApiKey
  apiKeyUserPermissions : Table ApiKeyId Permissions
  groups : Table GroupId Group
  groupMemberships : Table (GroupId × UserId) Role
  apiKeyAllGroupsPermissions : Table ApiKeyId Grant
  apiKeyGroupPermissions : Table (ApiKeyId × GroupId) GroupPermission

namespace Database

def empty : Database where
  library := ∅
  object := ∅
  setting := ∅
  deletion := ∅
  file := ∅
  fulltext := ∅
  pendingUploads := ∅
  users := ∅
  personalLibraries := ∅
  apiKeys := ∅
  apiKeyUserPermissions := ∅
  groups := ∅
  groupMemberships := ∅
  apiKeyAllGroupsPermissions := ∅
  apiKeyGroupPermissions := ∅

def version (d : Database) (L : LibraryId) : Int :=
  ((d.library.find? L).map Library.version).getD 0

end Database

/-- `btrim(text) <> ''` -/
def nonblank (text : String) : Bool := text.toList.any (· ≠ ' ')

/-- Text has no character U+0000. -/
def storable (s : String) : Bool := s.toList.all fun c => c.toNat ≠ 0

/-- The constraints of the schema, on the columns that are modelled. -/
structure Database.Valid (d : Database) : Prop where
  object_key_text : ∀ e ∈ d.object.rows, storable e.1.2.2
  object_library : ∀ e ∈ d.object.rows, (d.library.find? e.1.1).isSome
  setting_library : ∀ e ∈ d.setting.rows, (d.library.find? e.1.1).isSome
  deletion_library : ∀ e ∈ d.deletion.rows, (d.library.find? e.1.1).isSome
  file_library : ∀ e ∈ d.file.rows, (d.library.find? e.1.1).isSome
  file_blob_key_nonempty : ∀ e ∈ d.file.rows, nonblank e.2.blobKey
  fulltext_library : ∀ e ∈ d.fulltext.rows, (d.library.find? e.1.1).isSome
  pending_uploads_library : ∀ e ∈ d.pendingUploads.rows,
    (d.library.find? e.2.upload.libraryId).isSome
  pending_uploads_group : ∀ e ∈ d.pendingUploads.rows, ∀ g ∈ e.2.upload.groupId,
    (d.groups.find? g).isSome
  pending_uploads_bootstrap_user : ∀ e ∈ d.pendingUploads.rows,
    ∀ u ∈ e.2.upload.bootstrapUserId, (d.users.find? u).isSome
  pending_uploads_blob_key_unique : ∀ e ∈ d.pendingUploads.rows, ∀ e' ∈ d.pendingUploads.rows,
    e.2.upload.blobKey = e'.2.upload.blobKey → e.1 = e'.1
  pending_uploads_token_hash_length : ∀ e ∈ d.pendingUploads.rows, e.1.length = 32
  pending_uploads_authorizer_key_hash_length : ∀ e ∈ d.pendingUploads.rows,
    e.2.upload.authorizerKeyHash.length = 32
  pending_uploads_item_key_nonempty : ∀ e ∈ d.pendingUploads.rows, nonblank e.2.upload.itemKey
  pending_uploads_blob_key_nonempty : ∀ e ∈ d.pendingUploads.rows, nonblank e.2.upload.blobKey
  pending_uploads_filesize_nonnegative : ∀ e ∈ d.pendingUploads.rows, 0 ≤ e.2.upload.filesize
  pending_uploads_expiry_valid : ∀ e ∈ d.pendingUploads.rows, e.2.createdAt < e.2.expiresAt
  users_username_unique : ∀ e ∈ d.users.rows, ∀ e' ∈ d.users.rows,
    e.2.username = e'.2.username → e.1 = e'.1
  users_username_nonempty : ∀ e ∈ d.users.rows, nonblank e.2.username
  users_display_name_nonempty : ∀ e ∈ d.users.rows, nonblank e.2.displayName
  personal_libraries_user : ∀ e ∈ d.personalLibraries.rows, (d.users.find? e.1).isSome
  personal_libraries_library : ∀ e ∈ d.personalLibraries.rows,
    (d.library.find? e.2).map Library.kind = some .personal
  personal_libraries_unique : ∀ e ∈ d.personalLibraries.rows, ∀ e' ∈ d.personalLibraries.rows,
    e.2 = e'.2 → e.1 = e'.1
  api_keys_user : ∀ e ∈ d.apiKeys.rows, (d.users.find? e.2.userId).isSome
  api_keys_token_hash_unique : ∀ e ∈ d.apiKeys.rows, ∀ e' ∈ d.apiKeys.rows,
    e.2.tokenHash = e'.2.tokenHash → e.1 = e'.1
  api_keys_sha256_length : ∀ e ∈ d.apiKeys.rows, e.2.tokenHash.length = 32
  api_key_user_permissions_key : ∀ e ∈ d.apiKeyUserPermissions.rows,
    (d.apiKeys.find? e.1).isSome
  api_key_user_permissions_require_library : ∀ e ∈ d.apiKeyUserPermissions.rows,
    e.2.library ∨ ¬ (e.2.notes ∨ e.2.write ∨ e.2.files)
  groups_library : ∀ e ∈ d.groups.rows,
    (d.library.find? e.2.libraryId).map Library.kind = some .group
  groups_library_unique : ∀ e ∈ d.groups.rows, ∀ e' ∈ d.groups.rows,
    e.2.libraryId = e'.2.libraryId → e.1 = e'.1
  groups_owner : ∀ e ∈ d.groups.rows, (d.users.find? e.2.ownerUserId).isSome
  groups_owner_membership : ∀ e ∈ d.groups.rows,
    d.groupMemberships.find? (e.1, e.2.ownerUserId) = some .owner
  group_memberships_group : ∀ e ∈ d.groupMemberships.rows, (d.groups.find? e.1.1).isSome
  group_memberships_user : ∀ e ∈ d.groupMemberships.rows, (d.users.find? e.1.2).isSome
  group_memberships_one_owner : ∀ e ∈ d.groupMemberships.rows,
    ∀ e' ∈ d.groupMemberships.rows, e.1.1 = e'.1.1 → e.2 = .owner → e'.2 = .owner → e.1 = e'.1
  all_groups_permissions_key : ∀ e ∈ d.apiKeyAllGroupsPermissions.rows,
    (d.apiKeys.find? e.1).isSome
  all_groups_permissions_write : ∀ e ∈ d.apiKeyAllGroupsPermissions.rows,
    e.2.library ∨ ¬ e.2.write
  group_permissions_key_owner : ∀ e ∈ d.apiKeyGroupPermissions.rows,
    (d.apiKeys.find? e.1.1).map ApiKey.userId = some e.2.userId
  group_permissions_membership : ∀ e ∈ d.apiKeyGroupPermissions.rows,
    (d.groupMemberships.find? (e.1.2, e.2.userId)).isSome
  group_permissions_write : ∀ e ∈ d.apiKeyGroupPermissions.rows,
    e.2.grant.library ∨ ¬ e.2.grant.write

end Xotero
