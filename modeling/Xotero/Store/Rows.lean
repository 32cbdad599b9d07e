import Xotero.Store.Database

/-!
Writes row by row, the rows that can be locked, and what a lock protects. The
lock of a library row protects all rows of its five data tables: that every
writer holds it is a theorem about the programs, not an assumption. Row locks on
objects are recorded, but nothing rests on them.
-/

namespace Xotero

/-- Writes to the tables of users, keys and groups. -/
inductive AccountWrite where
  | user (id : UserId) (row : Option User)
  | personalLibrary (user : UserId) (row : Option LibraryId)
  | apiKey (id : ApiKeyId) (row : Option ApiKey)
  | apiKeyUserPermissions (key : ApiKeyId) (row : Option Permissions)
  | group (id : GroupId) (row : Option Group)
  | groupMembership (group : GroupId) (user : UserId) (row : Option Role)
  | apiKeyAllGroupsPermissions (key : ApiKeyId) (row : Option Grant)
  | apiKeyGroupPermission (key : ApiKeyId) (group : GroupId) (row : Option GroupPermission)

inductive Write where
  | library (id : LibraryId) (row : Library)
  | object (library : LibraryId) (kind : ObjectKind) (key : String) (row : Option Object)
  | setting (library : LibraryId) (key : String) (row : Option Setting)
  | deletion (library : LibraryId) (kind : DeletionKind) (key : String) (row : Option Int)
  | file (library : LibraryId) (key : String) (row : Option File)
  | fulltext (library : LibraryId) (key : String) (row : Option Fulltext)
  | pendingUpload (token : Digest) (row : Option PendingUploadRow)
  | account (w : AccountWrite)

inductive RowId where
  | library (id : LibraryId)
  | item (library : LibraryId) (key : String)
  | pendingUpload (token : Digest)
  | user (id : UserId)
  | personalLibrary (user : UserId)
  | apiKey (id : ApiKeyId)
  | apiKeyUserPermissions (key : ApiKeyId)
  | group (id : GroupId)
  | groupMembership (group : GroupId) (user : UserId)
  | apiKeyAllGroupsPermissions (key : ApiKeyId)
  | apiKeyGroupPermission (key : ApiKeyId) (group : GroupId)
  deriving DecidableEq

def AccountWrite.target : AccountWrite → RowId
  | .user id _ => .user id
  | .personalLibrary u _ => .personalLibrary u
  | .apiKey id _ => .apiKey id
  | .apiKeyUserPermissions k _ => .apiKeyUserPermissions k
  | .group id _ => .group id
  | .groupMembership g u _ => .groupMembership g u
  | .apiKeyAllGroupsPermissions k _ => .apiKeyAllGroupsPermissions k
  | .apiKeyGroupPermission k g _ => .apiKeyGroupPermission k g

def Write.target : Write → RowId
  | .library L _ | .object L _ _ _ | .setting L _ _ | .deletion L _ _ _ | .file L _ _
  | .fulltext L _ _ => .library L
  | .pendingUpload token _ => .pendingUpload token
  | .account w => w.target

namespace Database

def applyAccount (d : Database) : AccountWrite → Database
  | .user id row => { d with users := d.users.set id row }
  | .personalLibrary user row =>
      { d with personalLibraries := d.personalLibraries.set user row }
  | .apiKey id row => { d with apiKeys := d.apiKeys.set id row }
  | .apiKeyUserPermissions key row =>
      { d with apiKeyUserPermissions := d.apiKeyUserPermissions.set key row }
  | .group id row => { d with groups := d.groups.set id row }
  | .groupMembership group user row =>
      { d with groupMemberships := d.groupMemberships.set (group, user) row }
  | .apiKeyAllGroupsPermissions key row =>
      { d with apiKeyAllGroupsPermissions := d.apiKeyAllGroupsPermissions.set key row }
  | .apiKeyGroupPermission key group row =>
      { d with apiKeyGroupPermissions := d.apiKeyGroupPermissions.set (key, group) row }

def apply (d : Database) : Write → Database
  | .library L row => { d with library := d.library.put L row }
  | .object L kind key row => { d with object := d.object.set (L, kind, key) row }
  | .setting L key row => { d with setting := d.setting.set (L, key) row }
  | .deletion L kind key row => { d with deletion := d.deletion.set (L, kind, key) row }
  | .file L key row => { d with file := d.file.set (L, key) row }
  | .fulltext L key row => { d with fulltext := d.fulltext.set (L, key) row }
  | .pendingUpload token row => { d with pendingUploads := d.pendingUploads.set token row }
  | .account w => d.applyAccount w

end Database

/-- Keys of the rows of one library. -/
def inLibrary {α : Type} (L : LibraryId) : LibraryId × α → Bool := fun k => k.1 = L

/-- Two databases with the same contents of one library. -/
structure LibraryAgree (L : LibraryId) (d d' : Database) : Prop where
  library : d.library.find? L = d'.library.find? L
  object : d.object.part (inLibrary L) = d'.object.part (inLibrary L)
  setting : d.setting.part (inLibrary L) = d'.setting.part (inLibrary L)
  deletion : d.deletion.part (inLibrary L) = d'.deletion.part (inLibrary L)
  file : d.file.part (inLibrary L) = d'.file.part (inLibrary L)
  fulltext : d.fulltext.part (inLibrary L) = d'.fulltext.part (inLibrary L)

def Agree : RowId → Database → Database → Prop
  | .library L, d, d' => LibraryAgree L d d'
  | .item _ _, _, _ => True
  | .pendingUpload token, d, d' => d.pendingUploads.find? token = d'.pendingUploads.find? token
  | .user id, d, d' => d.users.find? id = d'.users.find? id
  | .personalLibrary user, d, d' =>
      d.personalLibraries.find? user = d'.personalLibraries.find? user
  | .apiKey id, d, d' => d.apiKeys.find? id = d'.apiKeys.find? id
  | .apiKeyUserPermissions key, d, d' =>
      d.apiKeyUserPermissions.find? key = d'.apiKeyUserPermissions.find? key
  | .group id, d, d' => d.groups.find? id = d'.groups.find? id
  | .groupMembership group user, d, d' =>
      d.groupMemberships.find? (group, user) = d'.groupMemberships.find? (group, user)
  | .apiKeyAllGroupsPermissions key, d, d' =>
      d.apiKeyAllGroupsPermissions.find? key = d'.apiKeyAllGroupsPermissions.find? key
  | .apiKeyGroupPermission key group, d, d' =>
      d.apiKeyGroupPermissions.find? (key, group) = d'.apiKeyGroupPermissions.find? (key, group)

theorem LibraryAgree.refl (L : LibraryId) (d : Database) : LibraryAgree L d d :=
  ⟨rfl, rfl, rfl, rfl, rfl, rfl⟩

theorem LibraryAgree.symm {L : LibraryId} {d d' : Database} (h : LibraryAgree L d d') :
    LibraryAgree L d' d :=
  ⟨h.library.symm, h.object.symm, h.setting.symm, h.deletion.symm, h.file.symm,
    h.fulltext.symm⟩

theorem LibraryAgree.trans {L : LibraryId} {d d' d'' : Database} (h : LibraryAgree L d d')
    (h' : LibraryAgree L d' d'') : LibraryAgree L d d'' :=
  ⟨h.library.trans h'.library, h.object.trans h'.object, h.setting.trans h'.setting,
    h.deletion.trans h'.deletion, h.file.trans h'.file, h.fulltext.trans h'.fulltext⟩

theorem agree_equivalence (k : RowId) : Equivalence (Agree k) := by
  cases k with
  | library L => exact ⟨.refl L, .symm, .trans⟩
  | item L key => exact ⟨fun _ => trivial, fun _ => trivial, fun _ _ => trivial⟩
  | _ => exact ⟨fun _ => rfl, Eq.symm, Eq.trans⟩

/-- A write aimed at another row leaves alone what the lock on `k` protects. -/
theorem agree_frame {w : Write} {k : RowId} (d : Database) (h : w.target ≠ k) :
    Agree k d (d.apply w) := by
  cases k with
  | library L =>
      have other {M : LibraryId} (hM : RowId.library M ≠ RowId.library L) {α : Type} (x : α) :
          inLibrary L (M, x) = false := by
        simpa [inLibrary] using fun e : M = L => hM (e ▸ rfl)
      cases w with
      | library M row =>
          have hM : L ≠ M := fun e => h (e ▸ rfl)
          exact ⟨(Table.find?_put_ne _ _ hM).symm, rfl, rfl, rfl, rfl, rfl⟩
      | object M kind key row =>
          exact ⟨rfl, (Table.part_set_of_not _ (other h _) _).symm, rfl, rfl, rfl, rfl⟩
      | setting M key row =>
          exact ⟨rfl, rfl, (Table.part_set_of_not _ (other h _) _).symm, rfl, rfl, rfl⟩
      | deletion M kind key row =>
          exact ⟨rfl, rfl, rfl, (Table.part_set_of_not _ (other h _) _).symm, rfl, rfl⟩
      | file M key row =>
          exact ⟨rfl, rfl, rfl, rfl, (Table.part_set_of_not _ (other h _) _).symm, rfl⟩
      | fulltext M key row =>
          exact ⟨rfl, rfl, rfl, rfl, rfl, (Table.part_set_of_not _ (other h _) _).symm⟩
      | pendingUpload token row => exact ⟨rfl, rfl, rfl, rfl, rfl, rfl⟩
      | account w => cases w <;> exact ⟨rfl, rfl, rfl, rfl, rfl, rfl⟩
  | item L key => trivial
  | pendingUpload token =>
      cases w with
      | pendingUpload token' row =>
          have ht : token ≠ token' := fun e => h (e ▸ rfl)
          simp [Agree, Database.apply, Table.find?_set, ht]
      | account w => cases w <;> rfl
      | _ => rfl
  | _ =>
      cases w with
      | account w =>
          cases w <;>
            simp_all [Agree, Database.apply, Database.applyAccount, Table.find?_set,
              Write.target, AccountWrite.target, eq_comm]
      | _ => rfl

/-- What a lock protects after a write depends only on what it protected before. -/
theorem agree_apply (w : Write) {k : RowId} {d d' : Database} (h : Agree k d d') :
    Agree k (d.apply w) (d'.apply w) := by
  cases k with
  | library L =>
      have h : LibraryAgree L d d' := h
      cases w with
      | library M row =>
          refine ⟨?_, h.object, h.setting, h.deletion, h.file, h.fulltext⟩
          simp only [Database.apply, Table.find?_put, h.library]
      | object M kind key row =>
          exact ⟨h.library, Table.part_set_congr h.object _ _, h.setting, h.deletion, h.file,
            h.fulltext⟩
      | setting M key row =>
          exact ⟨h.library, h.object, Table.part_set_congr h.setting _ _, h.deletion, h.file,
            h.fulltext⟩
      | deletion M kind key row =>
          exact ⟨h.library, h.object, h.setting, Table.part_set_congr h.deletion _ _, h.file,
            h.fulltext⟩
      | file M key row =>
          exact ⟨h.library, h.object, h.setting, h.deletion, Table.part_set_congr h.file _ _,
            h.fulltext⟩
      | fulltext M key row =>
          exact ⟨h.library, h.object, h.setting, h.deletion, h.file,
            Table.part_set_congr h.fulltext _ _⟩
      | pendingUpload token row =>
          exact ⟨h.library, h.object, h.setting, h.deletion, h.file, h.fulltext⟩
      | account w =>
          cases w <;> exact ⟨h.library, h.object, h.setting, h.deletion, h.file, h.fulltext⟩
  | item L key => trivial
  | _ =>
      cases w with
      | account w =>
          cases w <;>
            simp_all [Agree, Database.apply, Database.applyAccount, Table.find?_set]
      | _ => simp_all [Agree, Database.apply, Table.find?_set]

end Xotero
