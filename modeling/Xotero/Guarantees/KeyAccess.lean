import Xotero.Guarantees.Discovery
import Xotero.Handlers.Keys
import Xotero.Http.Admission

/-!
The answer of `/keys/current` decides what the middleware lets the key do, in the
same state of the database.
-/

namespace Xotero

section
variable {digests : Digests} {config : Config} {headers : Params} {d : Database}
  {context : RequestContext} {req : RequestHead} {rawId : String} {rest : List String}

theorem authenticated_congr {headers' : Params}
    (same : presentedKey headers' = presentedKey headers) :
    authenticated digests config headers' d = authenticated digests config headers d := by
  rw [authenticated, same]
  rfl

/-- The key may always ask. -/
theorem keysCurrent_admitted (known : authenticated digests config headers d = some context) :
    RequestHead.admission digests config ⟨.get, "/keys/current", headers⟩ d =
      .admitted (some context) none := by
  have parts : segments "/keys/current" = ["", "keys", "current"] := by decide
  have named : namedSegments "/keys/current" = ["keys", "current"] := by decide
  rw [admission_eq_admitted]
  refine ⟨?_, known, ?_, ?_, ?_⟩
  · simp [RequestHead.isBootstrap, RequestHead.isUpload, parts]
  · simp [checkUser, pathUserId, parts]
  · simp [selected, pathGroupDataId, named]
  · simp [RequestHead.checkAccess]

theorem admitted_iff (known : authenticated digests config headers d = some context)
    (same : presentedKey req.headers = presentedKey headers) {scope : String}
    (path : DataPath req.path scope rawId rest) :
    (∃ access, req.admission digests config d = .admitted (some context) access) ↔
      checkUser context req.path = .ok () ∧
        ∃ access, selected context req.path d = .ok access ∧ req.checkAccess access = .ok () := by
  have known := (authenticated_congr same).trans known
  simp only [admission_eq_admitted, path.isBootstrap_eq, known, true_and]
  exact exists_and_left

/-- The personal library, below the id of the user. -/
theorem admitted_users (known : authenticated digests config headers d = some context)
    (same : presentedKey req.headers = presentedKey headers)
    (path : DataPath req.path "users" rawId rest) :
    (∃ access, req.admission digests config d = .admitted (some context) access) ↔
      parseI64 rawId = some context.principal.userId.get ∧ context.permissions.library = true ∧
        (isAttachmentPermissionPath req.path = true → context.permissions.files = true) ∧
        (req.mutating = true → context.permissions.write = true) := by
  have user : checkUser context req.path = .ok () ↔
      parseI64 rawId = some context.principal.userId.get := by
    rw [checkUser, path.pathUserId_users, path.isGroupDiscoveryPath_eq]
    cases parseI64 rawId <;> simp
  rw [admitted_iff known same path, user, path.selected_users]
  refine and_congr_right fun _ => ?_
  cases context.permissions.library with
  | false => simp
  | true =>
      simp only [if_true, Except.ok.injEq, exists_eq_left', RequestHead.checkAccess_iff,
        personalAccess, true_and, Bool.and_eq_true]
      tauto

/-- The library of a group; the row of the group says who may do what. -/
theorem admitted_groups (known : authenticated digests config headers d = some context)
    (same : presentedKey req.headers = presentedKey headers)
    (path : DataPath req.path "groups" rawId rest) :
    (∃ access, req.admission digests config d = .admitted (some context) access) ↔
      ∃ group access, parseI64 rawId = some group.get ∧
        GroupLibraryRow.resolve group
          (if context.apiKeyId.isNone then some context.permissions else none)
          (d.groupLibraryRow group context.principal.userId context.apiKeyId (true, true)) =
            .allowed access ∧
        req.checkAccess (some access) = .ok () := by
  have user : checkUser context req.path = .ok () := by rw [checkUser, path.pathUserId_groups]
  rw [admitted_iff known same path]
  simp only [user, true_and]
  cases parsed : (parseI64 rawId).bind Id.new with
  | none =>
      have nowhere : pathGroupDataId req.path = .error () := by
        rw [path.pathGroupDataId_groups, parsed]
      constructor
      · intro h
        obtain ⟨access, selects, -⟩ := h
        rw [selected, nowhere] at selects
        cases selects
      · intro h
        obtain ⟨group, access, number, -⟩ := h
        rw [number, Option.bind_some, Id.new_get] at parsed
        cases parsed
  | some group =>
      obtain ⟨id, number, new⟩ := Option.bind_eq_some_iff.mp parsed
      obtain rfl := Id.get_of_new new
      rw [path.selected_groups number]
      constructor
      · intro h
        obtain ⟨access, selects, allowed⟩ := h
        split at selects
        · cases selects
          exact ⟨group, _, number, ‹_›, allowed⟩
        · cases selects
        · cases selects
      · intro h
        obtain ⟨group', access, number', resolved, allowed⟩ := h
        have alike : Id.new group.get = some group' := by
          rw [Option.some.inj (number.symm.trans number')]
          exact Id.new_get group'
        obtain rfl : group = group' := Option.some.inj ((Id.new_get group).symm.trans alike)
        rw [resolved]
        exact ⟨some access, rfl, allowed⟩

end

/-- What the row of a group lets through. -/
theorem GroupLibraryRow.resolve_lets (group : GroupId) (static : Option Permissions)
    {row : GroupLibraryRow} {role : Role} (member : row.role = some role) (req : RequestHead) :
    (∃ access, GroupLibraryRow.resolve group static (some row) = .allowed access ∧
        req.checkAccess (some access) = .ok ()) ↔
      (row.explicitLibrary = true ∨ (static.any Permissions.library || row.allLibrary) = true) ∧
      (req.mutating = true → (row.explicitLibrary && row.explicitWrite) = true ∨
        ((static.any Permissions.library || row.allLibrary) &&
          (static.any Permissions.write || row.allWrite)) = true ∧
        (role ≠ .member ∨ row.libraryEditing = .members)) ∧
      (req.mutating = true → isAttachmentPermissionPath req.path = true →
        row.fileEditing = .members ∨ row.fileEditing = .admins ∧ role ≠ .member) := by
  simp only [GroupLibraryRow.resolve, member]
  generalize (static.any Permissions.library || row.allLibrary) = all
  generalize (static.any Permissions.write || row.allWrite) = allWrite
  by_cases library : (!all && !row.explicitLibrary) = true
  · rw [if_pos library]
    simp only [Bool.and_eq_true, Bool.not_eq_true'] at library
    simp [library]
  · rw [if_neg library]
    have either : row.explicitLibrary = true ∨ all = true := by
      cases all <;> cases explicit : row.explicitLibrary <;> simp_all
    have admin : (decide (role = .owner) || decide (role = .admin)) = decide (role ≠ .member) := by
      cases role <;> rfl
    have policy : (decide (role ≠ .member) || decide (role = .member) &&
        decide (row.libraryEditing = .members)) =
          decide (role ≠ .member ∨ row.libraryEditing = .members) := by
      cases role <;> simp
    simp only [GroupLibraryResolution.allowed.injEq, exists_eq_left', RequestHead.checkAccess_iff,
      admin, policy]
    cases row.fileEditing <;> simp [either] <;> tauto

section Told
variable {d : Database} (context : RequestContext) {group : GroupId} {g : Group}

/-- The row of a group, with what the answer says of it. -/
theorem groupLibraryRow_told (valid : d.Valid) (found : d.groups.find? group = some g) :
    let static := if context.apiKeyId.isNone then some context.permissions else none
    let answer := Handlers.keyCurrent context d
    if activeUserExists d g.ownerUserId then
      ∃ row, d.groupLibraryRow group context.principal.userId context.apiKeyId (true, true) =
          some row ∧
        row.role = d.groupMemberships.find? (group, context.principal.userId) ∧
        row.libraryEditing = g.libraryEditing ∧ row.fileEditing = g.fileEditing ∧
        (static.any Permissions.library || row.allLibrary) = toldGroup answer none "library" ∧
        ((static.any Permissions.library || row.allLibrary) &&
          (static.any Permissions.write || row.allWrite)) = toldGroup answer none "write" ∧
        row.explicitLibrary = toldGroup answer (some group) "library" ∧
        (row.explicitLibrary && row.explicitWrite) = toldGroup answer (some group) "write"
    else d.groupLibraryRow group context.principal.userId context.apiKeyId (true, true) = none := by
  have library := valid.groups_library _ (Table.mem_rows.mpr found)
  intro static answer
  simp only [Database.groupLibraryRow, found, library, activeUserExists_iff, true_and, if_true]
  split
  · refine ⟨_, rfl, rfl, rfl, rfl, ?_⟩
    simp only [answer, static, (toldGroup_eq context d _).1, (toldGroup_eq context d _).2,
      grantTold]
    obtain ⟨token, principal, ⟨library, notes, write, files⟩, key⟩ := context
    cases key with
    | none => cases library <;> cases write <;> exact ⟨rfl, rfl, rfl, rfl⟩
    | some key =>
        simp only [Database.grantOf, Option.bind_some, Option.isNone_some, Bool.false_eq_true,
          if_false, Option.any_none, Bool.false_or]
        cases d.apiKeyAllGroupsPermissions.find? key <;>
          cases d.apiKeyGroupPermissions.find? (key, group) <;> exact ⟨rfl, rfl, rfl, rfl⟩
  · rfl

/-- The role and the policies of a group, and what a key is told of it, let a
request through. -/
structure GroupLets (answer : Value) (req : RequestHead) (group : GroupId) (g : Group)
    (role : Role) : Prop where
  library : toldGroup answer (some group) "library" = true ∨ toldGroup answer none "library" = true
  write : req.mutating = true → toldGroup answer (some group) "write" = true ∨
    toldGroup answer none "write" = true ∧ (role ≠ .member ∨ g.libraryEditing = .members)
  files : req.mutating = true → isAttachmentPermissionPath req.path = true →
    g.fileEditing = .members ∨ g.fileEditing = .admins ∧ role ≠ .member

theorem groupLets_iff (valid : d.Valid) (req : RequestHead) (group : GroupId) :
    (∃ access, GroupLibraryRow.resolve group
        (if context.apiKeyId.isNone then some context.permissions else none)
        (d.groupLibraryRow group context.principal.userId context.apiKeyId (true, true)) =
          .allowed access ∧
        req.checkAccess (some access) = .ok ()) ↔
      ∃ g role, d.groups.find? group = some g ∧ activeUserExists d g.ownerUserId = true ∧
        d.groupMemberships.find? (group, context.principal.userId) = some role ∧
        GroupLets (Handlers.keyCurrent context d) req group g role := by
  cases found : d.groups.find? group with
  | none =>
      have nowhere : d.groupLibraryRow group context.principal.userId context.apiKeyId
          (true, true) = none := by simp only [Database.groupLibraryRow, found]
      simp [nowhere, GroupLibraryRow.resolve]
  | some g =>
      have told := groupLibraryRow_told context valid found
      dsimp only at told
      split at told
      · rename_i owner
        obtain ⟨row, is_row, member, editing, files, all, allWrite, explicit, explicitWrite⟩ := told
        rw [is_row]
        cases role : d.groupMemberships.find? (group, context.principal.userId) with
        | none => simp [GroupLibraryRow.resolve, member, role]
        | some role' =>
            rw [GroupLibraryRow.resolve_lets group _ (member.trans role), allWrite, all,
              explicitWrite, explicit, editing, files]
            constructor
            · intro lets
              exact ⟨g, role', rfl, owner, rfl, ⟨lets.1, lets.2.1, lets.2.2⟩⟩
            · intro lets
              obtain ⟨g', role'', same, -, same', library, write, files⟩ := lets
              cases same
              cases same'
              exact ⟨library, write, files⟩
      · rename_i owner
        simp [told, GroupLibraryRow.resolve, owner]

end Told

section
variable {digests : Digests} {config : Config} {headers : Params} {d : Database}
  {context : RequestContext} {req : RequestHead} {rawId : String} {rest : List String}

/-- What a key is told of its user lets a request on the user's library through. -/
structure UserLets (answer : Value) (req : RequestHead) (rawId : String) : Prop where
  user : ∃ id, parseI64 rawId = some id ∧ answer.get "userID" = some (.ofInt id)
  library : toldUser answer "library" = true
  files : isAttachmentPermissionPath req.path = true → toldUser answer "files" = true
  write : req.mutating = true → toldUser answer "write" = true

theorem userLets_iff (context : RequestContext) (d : Database) (req : RequestHead)
    (rawId : String) : UserLets (Handlers.keyCurrent context d) req rawId ↔
      parseI64 rawId = some context.principal.userId.get ∧ context.permissions.library = true ∧
        (isAttachmentPermissionPath req.path = true → context.permissions.files = true) ∧
        (req.mutating = true → context.permissions.write = true) := by
  obtain ⟨library, files, -, write⟩ := toldUser_eq context d
  have named (id : Int) : (Handlers.keyCurrent context d).get "userID" = some (.ofInt id) ↔
      id = context.principal.userId.get := by
    simp [Handlers.keyCurrent, Value.get, Members.get, Value.ofInt, eq_comm]
  constructor
  · intro lets
    obtain ⟨⟨id, number, is_id⟩, told, toldFiles, toldWrite⟩ := lets
    rw [library] at told
    rw [files] at toldFiles
    rw [write] at toldWrite
    exact ⟨(named id).mp is_id ▸ number, told, toldFiles, toldWrite⟩
  · intro may
    obtain ⟨number, told, toldFiles, toldWrite⟩ := may
    exact ⟨⟨_, number, (named _).mpr rfl⟩, library ▸ told, files ▸ toldFiles, write ▸ toldWrite⟩

/-- The key may ask what it may do, and the answer, together with the caller's role
in a group and the group's policies, says of every request for data whether the
middleware lets it through. -/
theorem key_current_decides (valid : d.Valid)
    (known : authenticated digests config headers d = some context)
    (same : presentedKey req.headers = presentedKey headers) {scope : String}
    (path : DataPath req.path scope rawId rest) :
    RequestHead.admission digests config ⟨.get, "/keys/current", headers⟩ d =
      .admitted (some context) none ∧
    let answer := Handlers.keyCurrent context d
    ((∃ access, req.admission digests config d = .admitted (some context) access) ↔
      scope = "users" ∧ UserLets answer req rawId ∨
      scope = "groups" ∧ ∃ group g role, parseI64 rawId = some group.get ∧
        d.groups.find? group = some g ∧ activeUserExists d g.ownerUserId = true ∧
        d.groupMemberships.find? (group, context.principal.userId) = some role ∧
        GroupLets answer req group g role) := by
  refine ⟨keysCurrent_admitted known, ?_⟩
  dsimp only
  cases path.scope with
  | inl users =>
      subst users
      rw [admitted_users known same path, ← userLets_iff context d]
      simp
  | inr groups =>
      subst groups
      rw [admitted_groups known same path]
      constructor
      · intro may
        obtain ⟨group, access, number, allowed⟩ := may
        obtain ⟨g, role, lets⟩ := (groupLets_iff context valid req group).mp ⟨access, allowed⟩
        exact .inr ⟨rfl, group, g, role, number, lets⟩
      · intro lets
        obtain ⟨-, group, g, role, number, lets⟩ := lets.resolve_left (by simp)
        obtain ⟨access, allowed⟩ := (groupLets_iff context valid req group).mpr ⟨g, role, lets⟩
        exact ⟨group, access, number, allowed⟩

def memberWrite : RequestHead := ⟨.post, "/groups/1/items", [("zotero-api-key", "member-key")]⟩

/-- A member whose key has a grant for all groups changes the items of a group. -/
theorem key_current_decides_member : ∃ access,
    memberWrite.admission memberDigests demoConfig (groupDatabase (some (member none))) =
      .admitted (some memberContext) access := by
  have valid : (groupDatabase (some (member none))).Valid := groupDatabase_valid (by simp)
  have known : authenticated memberDigests demoConfig memberWrite.headers
      (groupDatabase (some (member none))) = some memberContext := by decide
  have path : DataPath memberWrite.path "groups" "1" ["items"] :=
    ⟨by decide, .inr rfl, by decide, _, _, rfl, by decide⟩
  have decides := (key_current_decides valid known rfl path).2
  refine decides.mpr (.inr ⟨rfl, demoGroup, ⟨groupLibrary, demoOwner, .members, .members⟩, .member,
    by decide, by decide, by decide, by decide, ?_⟩)
  exact ⟨.inr (by decide), fun _ => .inr ⟨by decide, .inr rfl⟩, fun _ _ => .inl rfl⟩

end

end Xotero
