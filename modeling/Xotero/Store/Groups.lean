import Xotero.Store.Evidence

/-!
The groups that a user can discover. One select joins a group with two
memberships, their users and the owner; of the rows of a listing and of a single
group it is the whole query up to the order and the last condition.
-/

namespace Xotero

inductive LibraryReading where
  | members
  | all
  deriving DecidableEq

/-- The columns of a group that only its metadata shows; times as `to_char` writes
them. -/
structure GroupProfile where
  version : Int
  name : String
  description : String
  url : String
  groupType : String
  libraryReading : LibraryReading
  created : String
  lastModified : String
  deriving DecidableEq

structure GroupMetadata where
  id : GroupId
  version : Int
  name : String
  description : String
  url : String
  groupType : String
  libraryReading : LibraryReading
  libraryEditing : LibraryEditing
  fileEditing : FileEditing
  owner : UserId
  role : Role
  admins : List UserId
  members : List UserId
  created : String
  lastModified : String
  numItems : Nat
  deriving DecidableEq

/-- `join users u on u.id = … and u.disabled_at is null` -/
def Database.activeUsers (d : Database) (user : UserId) : List (UserId × User) :=
  d.users.select fun id row => id = user && row.disabledAt = none

def Database.membershipsOf (d : Database) (group : GroupId) (user : UserId) :
    List ((GroupId × UserId) × Role) :=
  d.groupMemberships.select fun k _ => k.1 = group && k.2 = user

/-- `array_agg(gm.user_id order by gm.user_id)` -/
def Database.activeWithRole (d : Database) (group : GroupId) (role : Role) : List UserId :=
  ((d.groupMemberships.select fun k r => k.1 = group && r = role).flatMap fun gm =>
    (d.activeUsers gm.1.2).map fun _ => gm.1.2).insertionSort fun a b => a.get ≤ b.get

/-- The `where` of the select: a recovery key, or a grant of the presented one. -/
def Database.discoverable (d : Database) (group : GroupId) (key : Option ApiKeyId)
    (staticLibraryAccess : Bool) : Bool :=
  staticLibraryAccess ||
    d.apiKeyAllGroupsPermissions.rows.any (fun ag => key = some ag.1 && ag.2.library) ||
    d.apiKeyGroupPermissions.rows.any fun eg =>
      key = some eg.1.1 && eg.1.2 = group && eg.2.grant.library

section Select
variable (profiles : GroupId → GroupProfile) (d : Database)

def Database.groupMetadata (id : GroupId) (g : Group) (role : Role) : GroupMetadata where
  id := id
  version := (profiles id).version
  name := (profiles id).name
  description := (profiles id).description
  url := (profiles id).url
  groupType := (profiles id).groupType
  libraryReading := (profiles id).libraryReading
  libraryEditing := g.libraryEditing
  fileEditing := g.fileEditing
  owner := g.ownerUserId
  role := role
  admins := d.activeWithRole id .admin
  members := d.activeWithRole id .member
  created := (profiles id).created
  lastModified := (profiles id).lastModified
  numItems := (d.objectsWhere g.libraryId .item fun _ _ => true).length

/-- The rows of `GROUP_METADATA_SELECT` for one row of `groups`. -/
def Database.joinGroup (target requesting : UserId) (key : Option ApiKeyId)
    (staticLibraryAccess : Bool) (g : GroupId × Group) : List GroupMetadata :=
  (d.membershipsOf g.1 target).flatMap fun targetMembership =>
    (d.activeUsers targetMembership.1.2).flatMap fun _ =>
      (d.membershipsOf g.1 requesting).flatMap fun membership =>
        (d.activeUsers membership.1.2).flatMap fun _ =>
          (d.activeUsers g.2.ownerUserId).flatMap fun _ =>
            if d.discoverable g.1 key staticLibraryAccess then
              [d.groupMetadata profiles g.1 g.2 membership.2] else []

def Database.groupMetadataSelect (target requesting : UserId) (key : Option ApiKeyId)
    (staticLibraryAccess : Bool) : List GroupMetadata :=
  d.groups.rows.flatMap (d.joinGroup profiles target requesting key staticLibraryAccess)

def groupsForUser (target requesting : UserId) (key : Option ApiKeyId)
    (staticLibraryAccess : Bool) : List GroupMetadata :=
  (d.groupMetadataSelect profiles target requesting key staticLibraryAccess).insertionSort
    fun m m' => m.id.get ≤ m'.id.get

def groupForUser (group : GroupId) (user : UserId) (key : Option ApiKeyId)
    (staticLibraryAccess : Bool) : Option GroupMetadata :=
  ((d.groupMetadataSelect profiles user user key staticLibraryAccess).filter
    fun m => m.id = group).head?

end Select

def activeUserExists (d : Database) (user : UserId) : Bool := !(d.activeUsers user).isEmpty

/-! ### A join on a key finds one row at most -/

section Join
variable {d : Database} {profiles : GroupId → GroupProfile} {user : UserId}
  {key : Option ApiKeyId} {static : Bool} {group : GroupId}

theorem activeUsers_eq (d : Database) (user : UserId) :
    d.activeUsers user =
      (((d.users.find? user).filter fun u => u.disabledAt = none).map fun u => (user, u)).toList :=
  Table.select_key d.users user fun u => u.disabledAt = none

theorem membershipsOf_eq (d : Database) (group : GroupId) (user : UserId) :
    d.membershipsOf group user =
      ((d.groupMemberships.find? (group, user)).map fun role => ((group, user), role)).toList := by
  have pair : d.membershipsOf group user =
      d.groupMemberships.select fun k _ => k = (group, user) && true := by
    refine List.filter_congr fun e _ => ?_
    simp [Prod.ext_iff]
  rw [pair, Table.select_key d.groupMemberships (group, user) fun _ => true]
  cases d.groupMemberships.find? (group, user) <;> rfl

theorem activeUserExists_iff :
    activeUserExists d user = true ↔ (d.users.find? user).map User.disabledAt = some none := by
  rw [activeUserExists, activeUsers_eq]
  cases d.users.find? user with
  | none => simp
  | some u => cases active : u.disabledAt <;> simp [Option.filter, active]

/-- The grants that the select looks for, by their keys. -/
theorem discoverable_eq (d : Database) (group : GroupId) (key : Option ApiKeyId) (static : Bool) :
    d.discoverable group key static =
      (static || (key.bind d.apiKeyAllGroupsPermissions.find?).any Grant.library ||
        (key.bind fun k => d.apiKeyGroupPermissions.find? (k, group)).any (·.grant.library)) := by
  cases key with
  | none =>
      have nothing {α : Type} (l : List α) : (l.any fun _ => false) = false := by simp
      simp [Database.discoverable, nothing]
  | some k =>
      have all := Table.any_key d.apiKeyAllGroupsPermissions k Grant.library
      have explicit := Table.any_key d.apiKeyGroupPermissions (k, group) (·.grant.library)
      rw [Option.bind_some, Option.bind_some, ← all, ← explicit, Database.discoverable]
      simp [Prod.ext_iff, eq_comm]

/-- Rows joined with a user stay when the user is active and go when not. -/
theorem flatMap_activeUsers (d : Database) (user : UserId) {α : Type} (rows : List α) :
    ((d.activeUsers user).flatMap fun _ => rows) =
      if activeUserExists d user then rows else [] := by
  rw [activeUserExists, activeUsers_eq]
  cases (d.users.find? user).filter fun u => u.disabledAt = none <;> simp

/-- A user's own listing joins a group once, where the group shows it at all. -/
theorem joinGroup_own (active : activeUserExists d user = true) (g : Group) :
    d.joinGroup profiles user user key static (group, g) =
      if activeUserExists d g.ownerUserId && d.discoverable group key static then
        ((d.groupMemberships.find? (group, user)).map (d.groupMetadata profiles group g)).toList
      else [] := by
  unfold Database.joinGroup
  rw [membershipsOf_eq]
  cases d.groupMemberships.find? (group, user) with
  | none => simp
  | some role =>
      simp only [Option.map_some, Option.toList_some, List.flatMap_singleton,
        flatMap_activeUsers, active, if_true]
      by_cases owner : activeUserExists d g.ownerUserId <;> simp [owner]

theorem id_of_mem_joinGroup {target requesting : UserId} {g : GroupId × Group}
    {m : GroupMetadata} (mem : m ∈ d.joinGroup profiles target requesting key static g) :
    m.id = g.1 := by
  simp only [Database.joinGroup, List.mem_flatMap] at mem
  obtain ⟨_, _, _, _, _, _, _, _, _, _, last⟩ := mem
  split at last
  · obtain rfl := List.mem_singleton.mp last
    rfl
  · cases last

/-- The rows of one group in the whole select. -/
theorem filter_groupMetadataSelect (profiles : GroupId → GroupProfile) (d : Database)
    (target requesting : UserId) (key : Option ApiKeyId) (static : Bool) (group : GroupId) :
    ((d.groupMetadataSelect profiles target requesting key static).filter
        fun m => m.id = group) =
      ((d.groups.find? group).map fun g =>
        d.joinGroup profiles target requesting key static (group, g)).getD [] :=
  Table.filter_flatMap (fun _ _ mem => id_of_mem_joinGroup mem) d.groups group

/-- What a user's own listing shows of a group. -/
def Database.ownGroup (d : Database) (profiles : GroupId → GroupProfile) (user : UserId)
    (key : Option ApiKeyId) (static : Bool) (group : GroupId) : Option GroupMetadata :=
  (d.groups.find? group).bind fun g =>
    if activeUserExists d g.ownerUserId && d.discoverable group key static then
      (d.groupMemberships.find? (group, user)).map (d.groupMetadata profiles group g)
    else none

theorem filter_own (active : activeUserExists d user = true) :
    ((d.groupMetadataSelect profiles user user key static).filter fun m => m.id = group) =
      (d.ownGroup profiles user key static group).toList := by
  rw [filter_groupMetadataSelect, Database.ownGroup]
  cases d.groups.find? group with
  | none => rfl
  | some g =>
      rw [Option.map_some, Option.getD_some, joinGroup_own active, Option.bind_some]
      split <;> rfl

theorem groupForUser_own (active : activeUserExists d user = true) :
    groupForUser profiles d group user key static =
      d.ownGroup profiles user key static group := by
  rw [groupForUser, filter_own active, Option.head?_toList]

/-- Sorting the listing keeps the rows of each group. -/
theorem filter_groupsForUser (active : activeUserExists d user = true) :
    ((groupsForUser profiles d user user key static).filter fun m => m.id = group) =
      (d.ownGroup profiles user key static group).toList := by
  have sorted := (List.perm_insertionSort (fun m m' : GroupMetadata => m.id.get ≤ m'.id.get)
    (d.groupMetadataSelect profiles user user key static)).filter fun m => m.id = group
  rw [filter_own active] at sorted
  cases shown : d.ownGroup profiles user key static group with
  | none =>
      rw [shown] at sorted
      exact List.perm_nil.mp sorted
  | some m =>
      rw [shown] at sorted
      exact List.perm_singleton.mp sorted

theorem count_groupsForUser (active : activeUserExists d user = true) :
    ((groupsForUser profiles d user user key static).map GroupMetadata.id).count group =
      (d.ownGroup profiles user key static group).toList.length := by
  rw [← filter_groupsForUser active, ← List.countP_eq_length_filter, List.count, List.countP_map]
  exact List.countP_congr fun m _ => by simp

end Join

end Xotero
