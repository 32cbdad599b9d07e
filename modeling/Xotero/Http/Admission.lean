import Xotero.Http.Middleware
import Xotero.Store.Evidence

/-!
What the middleware makes of a request in one state of the database: each of its
programs as a function of that state.
-/

namespace Xotero

section
variable {digests : Digests} {config : Config} {headers : Params} {d : Database}

/-- Who makes the request, in one state. -/
def authenticated (digests : Digests) (config : Config) (headers : Params) (d : Database) :
    Option RequestContext :=
  match presentedKey headers with
  | none => none
  | some token =>
      match config.recoveryPermissions (digests.sha256 token) with
      | some permissions =>
          (d.principalOf config.userId).map fun principal => ⟨token, principal, permissions, none⟩
      | none =>
          (Sql.eval (.authenticateApiKey (digests.sha256 token)) d).map fun row =>
            ⟨token, row.2.1, row.2.2, some row.1⟩

theorem authenticateRequest_run :
    (authenticateRequest digests config headers).run d =
      some (d, authenticated digests config headers d) := by
  unfold authenticateRequest authenticated
  cases presentedKey headers with
  | none => rfl
  | some token =>
      simp only
      cases config.recoveryPermissions (digests.sha256 token) <;> rfl

def selected (context : RequestContext) (path : String) (d : Database) :
    Except Rejection (Option LibraryAccess) :=
  match pathGroupDataId path with
  | .error () => .error notFound
  | .ok (some group) =>
      match GroupLibraryRow.resolve group
          (if context.apiKeyId.isNone then some context.permissions else none)
          (d.groupLibraryRow group context.principal.userId context.apiKeyId (true, true)) with
      | .allowed access => .ok (some access)
      | .denied => .error (forbidden "group access denied")
      | .missing => .error notFound
  | .ok none =>
      if path ≠ "/keys/current" && !isGroupDiscoveryPath path then
        if !context.permissions.library then .error (forbidden "library access denied")
        else .ok (some (personalAccess context))
      else .ok none

theorem selectAccess_run {context : RequestContext} {path : String} :
    (selectAccess context path).run d = some (d, selected context path d) := by
  unfold selectAccess selected
  rcases pathGroupDataId path with ⟨⟩ | group
  · rfl
  · cases group with
    | none =>
        simp only
        split
        · split <;> rfl
        · rfl
    | some group =>
        simp only [resolveGroupLibrary, Txn.run_bind, resolveGroupLibraryWithGrants_run,
          Option.bind_some]
        cases GroupLibraryRow.resolve group
          (if context.apiKeyId.isNone then some context.permissions else none)
          (d.groupLibraryRow group context.principal.userId context.apiKeyId (true, true)) <;> rfl

/-- The outcome of `authorizeRequest`. -/
def RequestHead.admission (digests : Digests) (config : Config) (req : RequestHead)
    (d : Database) : Admission :=
  if req.isBootstrap then .admitted none none
  else
    match authenticated digests config req.headers d with
    | none => .refused (forbidden "invalid API key")
    | some context =>
        match checkUser context req.path with
        | .error response => .refused response
        | .ok () =>
            match selected context req.path d with
            | .error response => .refused response
            | .ok access =>
                match req.checkAccess access with
                | .error response => .refused response
                | .ok () => .admitted (some context) access

theorem authorizeRequest_run {req : RequestHead} :
    (authorizeRequest digests config req).run d = some (d, req.admission digests config d) := by
  unfold authorizeRequest RequestHead.admission
  split
  · rfl
  · simp only [Txn.run_bind, authenticateRequest_run, Option.bind_some]
    cases authenticated digests config req.headers d with
    | none => rfl
    | some context =>
        simp only
        cases checkUser context req.path with
        | error response => rfl
        | ok =>
            simp only [Txn.run_bind, selectAccess_run, Option.bind_some]
            cases selected context req.path d with
            | error response => rfl
            | ok access =>
                simp only
                cases req.checkAccess access <;> rfl

/-- A caller who is admitted is authenticated, may use the path, and has the
access and the permissions it asks for. -/
theorem admission_eq_admitted {req : RequestHead} {context : RequestContext}
    {access : Option LibraryAccess} :
    req.admission digests config d = .admitted (some context) access ↔
      req.isBootstrap = false ∧ authenticated digests config req.headers d = some context ∧
        checkUser context req.path = .ok () ∧ selected context req.path d = .ok access ∧
        req.checkAccess access = .ok () := by
  unfold RequestHead.admission
  constructor
  · intro admitted
    split at admitted
    · cases admitted
    rename_i guarded
    split at admitted
    · cases admitted
    rename_i caller known
    split at admitted
    · cases admitted
    rename_i user
    split at admitted
    · cases admitted
    rename_i given selects
    split at admitted
    · cases admitted
    rename_i allowed
    cases admitted
    exact ⟨by simpa using guarded, known, user, selects, allowed⟩
  · rintro ⟨guarded, known, user, selects, allowed⟩
    simp [guarded, known, user, selects, allowed]

theorem RequestHead.checkAccess_iff {req : RequestHead} {access : LibraryAccess} :
    req.checkAccess (some access) = .ok () ↔
      (isAttachmentPermissionPath req.path = true → access.permissions.files = true) ∧
      (req.mutating = true → isAttachmentPermissionPath req.path = true →
        access.fileWrite = true) ∧
      (req.mutating = true → access.permissions.write = true) := by
  obtain ⟨L, group, ⟨library, notes, write, files⟩, isAdmin, fileWrite⟩ := access
  simp only [RequestHead.checkAccess, Option.any_some]
  cases req.mutating <;> cases isAttachmentPermissionPath req.path <;> cases files <;>
    cases fileWrite <;> cases write <;> simp

end

/-! ### On the path of some data -/

namespace DataPath
variable {path scope rawId : String} {rest : List String} {context : RequestContext}
  {d : Database}

theorem isBootstrap_eq {req : RequestHead} (h : DataPath req.path scope rawId rest) :
    req.isBootstrap = false := by
  obtain ⟨name, more, rfl, -⟩ := h.below
  have login : req.path ≠ "/login" :=
    ne_of_segments (by simp [h.parts, show segments "/login" = ["", "login"] by decide])
  have sessions : req.path ≠ "/keys/sessions" :=
    ne_of_segments (by
      simp [h.parts, show segments "/keys/sessions" = ["", "keys", "sessions"] by decide])
  simp only [RequestHead.isBootstrap, RequestHead.isUpload, h.parts, login, sessions]
  rcases h.scope with rfl | rfl <;> cases more <;> simp

theorem selected_users (h : DataPath path "users" rawId rest) :
    selected context path d =
      if context.permissions.library then .ok (some (personalAccess context))
      else .error (forbidden "library access denied") := by
  simp only [selected, h.pathGroupDataId_users, h.isGroupDiscoveryPath_eq]
  cases context.permissions.library <;> simp [h.ne_keysCurrent]

theorem selected_groups {group : GroupId} (h : DataPath path "groups" rawId rest)
    (hr : parseI64 rawId = some group.get) :
    selected context path d =
      match GroupLibraryRow.resolve group
          (if context.apiKeyId.isNone then some context.permissions else none)
          (d.groupLibraryRow group context.principal.userId context.apiKeyId (true, true)) with
      | .allowed access => .ok (some access)
      | .denied => .error (forbidden "group access denied")
      | .missing => .error notFound := by
  have addressed : pathGroupDataId path = .ok (some group) := by
    rw [h.pathGroupDataId_groups, hr, Option.bind_some, Id.new_get]
  unfold selected
  generalize pathGroupDataId path = target at addressed ⊢
  subst addressed
  rfl

end DataPath

end Xotero
