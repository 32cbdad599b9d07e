import Xotero.Guarantees.Authority
import Xotero.Handlers.Groups

/-!
Discovery agrees with access: the groups a user is shown are those whose data the
user is let through to, whichever grants the key has, and they are shown as what
the access says.
-/

namespace Xotero

section Access
variable {d : Database} (profiles : GroupId → GroupProfile) (group : GroupId) (user : UserId)
  (key : Option ApiKeyId) (static : Option Permissions)

/-- A member is allowed in with a grant of either kind, or by a recovery key. -/
theorem GroupLibraryRow.resolve_member {row : GroupLibraryRow} {role : Role}
    (member : row.role = some role) :
    if static.any Permissions.library || row.allLibrary || row.explicitLibrary then
      ∃ access, GroupLibraryRow.resolve group static (some row) = .allowed access ∧
        access.isAdmin = (role = .owner || role = .admin : Bool)
    else GroupLibraryRow.resolve group static (some row) = .denied := by
  simp only [GroupLibraryRow.resolve, member]
  cases static.any Permissions.library || row.allLibrary <;> cases row.explicitLibrary <;> simp

/-- The row of a group, where its owner is active. -/
theorem groupLibraryRow_of_active (valid : d.Valid) {g : Group}
    (found : d.groups.find? group = some g) :
    if activeUserExists d g.ownerUserId then
      ∃ row, d.groupLibraryRow group user key (true, true) = some row ∧
        row.role = d.groupMemberships.find? (group, user) ∧
        (static.any Permissions.library || row.allLibrary || row.explicitLibrary) =
          d.discoverable group key (static.any Permissions.library)
    else d.groupLibraryRow group user key (true, true) = none := by
  have library := valid.groups_library _ (Table.mem_rows.mpr found)
  simp only [Database.groupLibraryRow, found, library, activeUserExists_iff, true_and, if_true,
    discoverable_eq]
  split
  · refine ⟨_, rfl, rfl, ?_⟩
    cases key with
    | none => rfl
    | some k => simp [Option.any_map]
  · rfl

/-- What a listing shows is what a data request resolves to. -/
theorem resolve_ownGroup (valid : d.Valid) :
    match d.ownGroup profiles user key (static.any Permissions.library) group with
    | some m => ∃ access, GroupLibraryRow.resolve group static
          (d.groupLibraryRow group user key (true, true)) = .allowed access ∧
        access.isAdmin = m.isAdmin
    | none => ∀ access, GroupLibraryRow.resolve group static
        (d.groupLibraryRow group user key (true, true)) ≠ .allowed access := by
  cases found : d.groups.find? group with
  | none =>
      have nowhere : d.groupLibraryRow group user key (true, true) = none := by
        simp only [Database.groupLibraryRow, found]
      simp only [Database.ownGroup, found, nowhere, Option.bind_none, GroupLibraryRow.resolve]
      intro access allowed
      cases allowed
  | some g =>
      have joined := groupLibraryRow_of_active group user key static valid found
      simp only [Database.ownGroup, found, Option.bind_some]
      by_cases owner : activeUserExists d g.ownerUserId = true
      · rw [if_pos owner] at joined
        obtain ⟨row, is_row, role, library⟩ := joined
        rw [is_row, owner, Bool.true_and]
        cases member : d.groupMemberships.find? (group, user) with
        | none =>
            simp only [GroupLibraryRow.resolve, role, member, Option.map_none, ite_self]
            intro access allowed
            cases allowed
        | some r =>
            have resolved := GroupLibraryRow.resolve_member group static (role.trans member)
            rw [library] at resolved
            by_cases shown : d.discoverable group key (static.any Permissions.library) = true
            · rw [if_pos shown] at resolved ⊢
              exact resolved
            · rw [if_neg shown] at resolved ⊢
              intro access allowed
              rw [resolved] at allowed
              cases allowed
      · rw [if_neg owner] at joined
        simp only [joined, owner, Bool.false_and, Bool.false_eq_true, if_false,
          GroupLibraryRow.resolve]
        intro access allowed
        cases allowed

theorem allowed_iff_ownGroup (valid : d.Valid) :
    (∃ access, GroupLibraryRow.resolve group static
        (d.groupLibraryRow group user key (true, true)) = .allowed access) ↔
      (d.ownGroup profiles user key (static.any Permissions.library) group).isSome := by
  have agree := resolve_ownGroup profiles group user key static valid
  cases shown : d.ownGroup profiles user key (static.any Permissions.library) group with
  | none =>
      rw [shown] at agree
      simp [agree]
  | some m =>
      rw [shown] at agree
      obtain ⟨access, allowed, -⟩ := agree
      exact ⟨fun _ => rfl, fun _ => ⟨access, allowed⟩⟩

theorem mem_groupsForUser {profiles : GroupId → GroupProfile} {group : GroupId} {user : UserId}
    {key : Option ApiKeyId} {static : Bool} (active : activeUserExists d user = true)
    {m : GroupMetadata} :
    m ∈ groupsForUser profiles d user user key static ∧ m.id = group ↔
      d.ownGroup profiles user key static group = some m := by
  rw [← Option.mem_toList, ← filter_groupsForUser active, List.mem_filter, decide_eq_true_eq]

theorem staticLibraryAccess_eq (context : RequestContext) :
    (if context.apiKeyId.isNone then some context.permissions else none).any
      Permissions.library = context.staticLibraryAccess := by
  cases found : context.apiKeyId <;> simp [RequestContext.staticLibraryAccess, found]

/-- The handlers answer with the groups whose data may be read. -/
theorem handlers_agree_with_access (config : Config) (context : RequestContext) (params : Params)
    (valid : d.Valid)
    (active : activeUserExists d context.principal.userId = true)
    (whole : params.get "format" ≠ some "versions") :
    ∃ resolution groups,
      (resolveGroupLibrary group context.principal.userId context.apiKeyId
        (if context.apiKeyId.isNone then some context.permissions else none)).run d =
          some (d, resolution) ∧
      (Handlers.groups config profiles context context.principal.userId.get params d d).body =
        some (.array groups) ∧
      ((Handlers.groupGet config profiles context group.get d).status = 200 ↔
        ∃ access, resolution = .allowed access) ∧
      ((∃ v ∈ groups, v.get "id" = some (.ofInt group.get)) ↔
        ∃ access, resolution = .allowed access) := by
  have agree := allowed_iff_ownGroup profiles group context.principal.userId context.apiKeyId
    (if context.apiKeyId.isNone then some context.permissions else none) valid
  rw [staticLibraryAccess_eq] at agree
  refine ⟨_, (groupsForUser profiles d context.principal.userId context.principal.userId
    context.apiKeyId context.staticLibraryAccess).map fun m => groupJson m config.publicUrl,
    resolveGroupLibraryWithGrants_run .., ?_, ?_, ?_⟩
  · simp only [Handlers.groups, Id.new_get, active, if_true, if_neg whole]
  · rw [agree, Handlers.groupGet, Id.new_get]
    simp only [groupForUser_own active]
    cases d.ownGroup profiles context.principal.userId context.apiKeyId
      context.staticLibraryAccess group <;> simp [GroupsResponse.notFound]
  · rw [agree, Option.isSome_iff_exists]
    simp only [← mem_groupsForUser active]
    constructor
    · rintro ⟨v, mem, id⟩
      obtain ⟨m, listed, rfl⟩ := List.mem_map.mp mem
      have same : m.id.get = group.get := by simpa [groupJson, Members.get, Value.ofInt] using id
      exact ⟨m, listed, Option.some.inj ((Id.new_get m.id).symm.trans (same ▸ Id.new_get group))⟩
    · rintro ⟨m, listed, rfl⟩
      exact ⟨_, List.mem_map_of_mem listed, rfl⟩

end Access

/-- A group is shown to its user, in its metadata and once in the user's own
listing, exactly where its data may be read; and as an admin's where it is one. -/
theorem discovery_agrees_with_access (profiles : GroupId → GroupProfile) (publicUrl : String)
    (context : RequestContext) (group : GroupId) {d : Database} (valid : d.Valid)
    (active : activeUserExists d context.principal.userId = true) :
    ∃ resolution, (resolveGroupLibrary group context.principal.userId context.apiKeyId
        (if context.apiKeyId.isNone then some context.permissions else none)).run d =
          some (d, resolution) ∧
      let one := groupForUser profiles d group context.principal.userId context.apiKeyId
        context.staticLibraryAccess
      let listing := groupsForUser profiles d context.principal.userId context.principal.userId
        context.apiKeyId context.staticLibraryAccess
      (one.isSome ↔ ∃ access, resolution = .allowed access) ∧
      (group ∈ listing.map GroupMetadata.id ↔ ∃ access, resolution = .allowed access) ∧
      ((listing.map GroupMetadata.id).count group = 1 ↔
        ∃ access, resolution = .allowed access) ∧
      ∀ access, resolution = .allowed access → ∀ m, (one = some m ∨ m ∈ listing ∧ m.id = group) →
        ((groupJson m publicUrl).get "meta").bind (·.get "isAdmin") =
          some (.bool access.isAdmin) := by
  rw [resolveGroupLibrary, resolveGroupLibraryWithGrants_run]
  have agree := resolve_ownGroup profiles group context.principal.userId context.apiKeyId
    (if context.apiKeyId.isNone then some context.permissions else none) valid
  rw [staticLibraryAccess_eq] at agree
  generalize GroupLibraryRow.resolve group (if context.apiKeyId.isNone then
    some context.permissions else none) (d.groupLibraryRow group context.principal.userId
      context.apiKeyId (true, true)) = resolution at agree ⊢
  refine ⟨resolution, rfl, ?_⟩
  simp only [groupForUser_own active, mem_groupsForUser active]
  simp only [← List.count_pos_iff, count_groupsForUser active]
  cases shown : d.ownGroup profiles context.principal.userId context.apiKeyId
      context.staticLibraryAccess group with
  | none =>
      rw [shown] at agree
      simp [agree]
  | some m =>
      rw [shown] at agree
      obtain ⟨access, allowed, admin⟩ := agree
      simp [allowed, admin, groupJson, Members.get]

def demoProfile : GroupProfile :=
  ⟨1, "Reading group", "", "", "Private", .members, "2024-01-01T00:00:00Z", "2024-01-01T00:00:00Z"⟩

/-- A member with a grant for all groups. -/
theorem discovery_agrees_with_access_member :
    ((groupsForUser (fun _ => demoProfile) (groupDatabase (some (member none)))
      demoMember demoMember
      (some memberKey) false).map GroupMetadata.id).count demoGroup = 1 := by
  obtain ⟨resolution, run, -, -, once, -⟩ := discovery_agrees_with_access
    (d := groupDatabase (some (member none))) (fun _ => demoProfile) "https://zotero.example"
    memberContext demoGroup (groupDatabase_valid (by simp)) (by decide)
  obtain ⟨-, rfl⟩ := Prod.mk.inj (Option.some.inj run)
  exact once.mpr ⟨_, rfl⟩

end Xotero
