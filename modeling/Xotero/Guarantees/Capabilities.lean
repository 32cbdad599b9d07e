import Xotero.Http.Admission
import Xotero.Store.Uploads

/-!
Two procedures decide who may upload a file: the middleware, when the upload is
authorized, and the authority behind the recorded credential, when its bytes
arrive and when it is registered. They agree.
-/

namespace Xotero

open UploadAuthority

section
variable {digests : Digests} {config : Config} {headers : Params} {d : Database}

/-- The authority of a caller, as far as it does not depend on the library. -/
def RequestContext.authority (context : RequestContext) : UploadAuthority :=
  ⟨context.apiKeyId, context.principal, context.permissions⟩

/-- The user whom `file_post` records for the caller. -/
def RequestContext.bootstrapUser (context : RequestContext) : Option UserId :=
  if context.apiKeyId.isNone then some context.principal.userId else none

theorem upload_credential (r : AuthorizeRequest) (storedMd5 : Option String)
    (candidateId : String) :
    ((r.upload digests storedMd5 candidateId).authorizerKeyHash,
      (r.upload digests storedMd5 candidateId).bootstrapUserId) =
      (digests.sha256 r.context.presentedKey, r.context.bootstrapUser) := rfl

/-- The recorded credential resolves to the authority of its caller. -/
theorem resolved_of_authenticated {context : RequestContext}
    (h : authenticated digests config headers d = some context) :
    resolved config (digests.sha256 context.presentedKey, context.bootstrapUser) d =
      some context.authority := by
  unfold authenticated at h
  split at h
  · cases h
  · rename_i token presented
    split at h
    · rename_i permissions known
      obtain ⟨principal, found, rfl⟩ := Option.map_eq_some_iff.mp h
      have user := (principalOf_eq_some.mp found).1
      simp [resolved, RequestContext.bootstrapUser, user, known, found, RequestContext.authority]
    · obtain ⟨row, found, rfl⟩ := Option.map_eq_some_iff.mp h
      simp [resolved, RequestContext.bootstrapUser, found, RequestContext.authority]

/-- A key that does not authenticate has no authority, whoever is recorded for a
recovery key and no one for any other. -/
theorem resolved_of_unauthenticated {key : String}
    (presented : presentedKey headers = some key)
    (h : authenticated digests config headers d = none) {user : Option UserId}
    (recorded : user = none → config.recoveryPermissions (digests.sha256 key) = none) :
    resolved config (digests.sha256 key, user) d = none := by
  simp only [authenticated, presented] at h
  cases user with
  | none =>
      rw [recorded rfl] at h
      simpa [resolved] using h
  | some user =>
      simp only [resolved]
      split
      · rfl
      · rename_i same
        obtain rfl : user = config.userId := by simpa using same
        cases known : config.recoveryPermissions (digests.sha256 key) with
        | none => rfl
        | some permissions =>
            rw [known] at h
            simpa using h

end

/-! ### The file route of an item -/

section Route
variable {digests : Digests} {config : Config} {headers : Params} {d : Database}
  {context : RequestContext} {rawId key : String} {L : LibraryId}

/-- The request of an upload's authorization and of its registration. -/
def filePost (headers : Params) (scope rawId key : String) : RequestHead :=
  ⟨.post, itemFilePath scope rawId key, headers⟩

/-- The file route asks for all three permissions. -/
theorem filePost_checkAccess {scope : String} {id : Int} (hs : scope = "users" ∨ scope = "groups")
    (hr : parseI64 rawId = some id) (positive : 0 < id) (hk : IsSegment key) (some_key : key ≠ "")
    (access : LibraryAccess) :
    (filePost headers scope rawId key).checkAccess (some access) = .ok () ↔
      access.permissions.files = true ∧ access.fileWrite = true ∧
        access.permissions.write = true := by
  have attachment : isAttachmentPermissionPath (itemFilePath scope rawId key) = true :=
    (dataPath_itemFilePath hs hr hk some_key).isAttachmentPermissionPath_eq hr positive
  simp [RequestHead.checkAccess_iff, attachment, filePost, RequestHead.mutating]

/-- The path of a file route names the caller's own library, or the group. -/
def NamesLibrary (scope rawId : String) (group : Option GroupId) (user : UserId) : Prop :=
  match group with
  | none => scope = "users" ∧ parseI64 rawId = some user.get
  | some g => scope = "groups" ∧ parseI64 rawId = some g.get

theorem checkUser_own (h : parseI64 rawId = some context.principal.userId.get)
    (hk : IsSegment key) (some_key : key ≠ "") :
    checkUser context (itemFilePath "users" rawId key) = .ok () := by
  simp [checkUser, (dataPath_itemFilePath (.inl rfl) h hk some_key).pathUserId_users, h]

theorem checkUser_group {id : Int} (h : parseI64 rawId = some id) (hk : IsSegment key)
    (some_key : key ≠ "") : checkUser context (itemFilePath "groups" rawId key) = .ok () := by
  simp [checkUser, (dataPath_itemFilePath (.inr rfl) h hk some_key).pathUserId_groups]

/-- Whoever may write the files of a group may read them and write the library. -/
theorem GroupLibraryRow.files_of_allowed {group : GroupId} {static : Option Permissions}
    {row : Option GroupLibraryRow} {access : LibraryAccess}
    (h : GroupLibraryRow.resolve group static row = .allowed access) :
    access.permissions.files = true ∧
      (access.fileWrite = true → access.permissions.write = true) := by
  unfold GroupLibraryRow.resolve at h
  split at h
  · cases h
  · split at h
    · cases h
    · simp only at h
      split at h
      · cases h
      · obtain rfl := GroupLibraryResolution.allowed.inj h
        exact ⟨rfl, fun writes => (Bool.and_eq_true_iff.mp writes).1⟩

/-- The middleware lets the caller post to the file route, with access to `L`. -/
def AdmitsUpload (digests : Digests) (config : Config) (d : Database) (headers : Params)
    (scope rawId key : String) (L : LibraryId) : Prop :=
  ∃ context access, (authorizeRequest digests config (filePost headers scope rawId key)).run d =
      some (d, .admitted (some context) (some access)) ∧ access.libraryId = L

theorem admitsUpload_iff {scope : String} {id : Int} (hs : scope = "users" ∨ scope = "groups")
    (hr : parseI64 rawId = some id) (positive : 0 < id) (hk : IsSegment key) (some_key : key ≠ "")
    (known : authenticated digests config headers d = some context) :
    AdmitsUpload digests config d headers scope rawId key L ↔
      ∃ access, checkUser context (itemFilePath scope rawId key) = .ok () ∧
        selected context (itemFilePath scope rawId key) d = .ok (some access) ∧
        access.permissions.files = true ∧ access.fileWrite = true ∧
        access.permissions.write = true ∧ access.libraryId = L := by
  have guarded : (filePost headers scope rawId key).isBootstrap = false :=
    DataPath.isBootstrap_eq (dataPath_itemFilePath hs hr hk some_key)
  simp only [AdmitsUpload, authorizeRequest_run, Option.some.injEq, Prod.mk.injEq, true_and,
    admission_eq_admitted, guarded]
  constructor
  · rintro ⟨caller, access, ⟨same, user, selects, allowed⟩, library⟩
    obtain rfl := Option.some.inj (known.symm.trans same)
    obtain ⟨files, fileWrite, write⟩ :=
      (filePost_checkAccess hs hr positive hk some_key access).mp allowed
    exact ⟨access, user, selects, files, fileWrite, write, library⟩
  · rintro ⟨access, user, selects, files, fileWrite, write, library⟩
    exact ⟨context, access, ⟨known, user, selects,
      (filePost_checkAccess hs hr positive hk some_key access).mpr ⟨files, fileWrite, write⟩⟩,
      library⟩

theorem allowed_own {upload : PendingUpload} (target : upload.groupId = none) :
    context.authority.allowed upload (true, true) d = true ↔
      context.principal.libraryId = upload.libraryId ∧ context.permissions.library = true ∧
        context.permissions.write = true ∧ context.permissions.files = true := by
  simp only [UploadAuthority.allowed, target, Bool.and_eq_true, decide_eq_true_eq, and_assoc]
  rfl

theorem allowed_group {upload : PendingUpload} {group : GroupId}
    (target : upload.groupId = some group) :
    context.authority.allowed upload (true, true) d =
      match GroupLibraryRow.resolve group
          (if context.apiKeyId.isNone then some context.permissions else none)
          (d.groupLibraryRow group context.principal.userId context.apiKeyId (true, true)) with
      | .allowed access => access.libraryId = upload.libraryId && access.fileWrite
      | .denied | .missing => false := by
  simp only [UploadAuthority.allowed, target]
  rfl

/-- A caller is let through to the file route exactly where the authority behind
it allows an upload. -/
theorem admitsUpload_iff_allowed (known : authenticated digests config headers d = some context)
    {scope : String} {upload : PendingUpload}
    (names : NamesLibrary scope rawId upload.groupId context.principal.userId)
    (hk : IsSegment key) (some_key : key ≠ "") :
    AdmitsUpload digests config d headers scope rawId key upload.libraryId ↔
      context.authority.allowed upload (true, true) d = true := by
  cases target : upload.groupId with
  | none =>
      rw [target] at names
      obtain ⟨rfl, names⟩ := names
      rw [admitsUpload_iff (.inl rfl) names context.principal.userId.positive hk some_key known,
        checkUser_own names hk some_key,
        (dataPath_itemFilePath (.inl rfl) names hk some_key).selected_users, allowed_own target]
      constructor
      · rintro ⟨access, -, selects, files, -, write, library⟩
        split at selects
        · rename_i allowed
          cases selects
          exact ⟨library, allowed, write, files⟩
        · cases selects
      · rintro ⟨library, allowed, write, files⟩
        refine ⟨personalAccess context, rfl, by rw [if_pos allowed], files, ?_, write, library⟩
        simp [personalAccess, write, files]
  | some group =>
      rw [target] at names
      obtain ⟨rfl, names⟩ := names
      rw [admitsUpload_iff (.inr rfl) names group.positive hk some_key known,
        checkUser_group names hk some_key,
        (dataPath_itemFilePath (.inr rfl) names hk some_key).selected_groups names,
        allowed_group target]
      cases resolution : GroupLibraryRow.resolve group
          (if context.apiKeyId.isNone then some context.permissions else none)
          (d.groupLibraryRow group context.principal.userId context.apiKeyId (true, true)) with
      | missing | denied => simp
      | allowed access =>
          obtain ⟨files, write⟩ := GroupLibraryRow.files_of_allowed resolution
          simp only [Except.ok.injEq, Option.some.injEq, exists_eq_left', true_and,
            Bool.and_eq_true, decide_eq_true_eq]
          constructor
          · rintro ⟨-, fileWrite, -, library⟩
            exact ⟨library, fileWrite⟩
          · rintro ⟨library, fileWrite⟩
            exact ⟨files, fileWrite, write fileWrite, library⟩

/-- What the middleware admits is what the recorded credential has authority for;
a key that is not admitted at all has none. -/
theorem upload_admission {token : String} (presented : presentedKey headers = some token)
    (upload : PendingUpload) (hk : IsSegment key) (some_key : key ≠ "") :
    (∀ (r : AuthorizeRequest) storedMd5 candidateId scope rawId,
      (authenticateRequest digests config headers).run d = some (d, some r.context) →
      NamesLibrary scope rawId upload.groupId r.context.principal.userId →
      (AdmitsUpload digests config d headers scope rawId key upload.libraryId ↔
        HasAuthority config upload ((r.upload digests storedMd5 candidateId).authorizerKeyHash,
          (r.upload digests storedMd5 candidateId).bootstrapUserId) d)) ∧
    ((authenticateRequest digests config headers).run d = some (d, none) →
      (∀ scope rawId L, ¬ AdmitsUpload digests config d headers scope rawId key L) ∧
      ∀ user, (user = none → config.recoveryPermissions (digests.sha256 token) = none) →
        ¬ HasAuthority config upload (digests.sha256 token, user) d) := by
  simp only [authenticateRequest_run, Option.some.injEq, Prod.mk.injEq, true_and]
  constructor
  · intro r storedMd5 candidateId scope rawId known names
    rw [admitsUpload_iff_allowed known names hk some_key, upload_credential, hasAuthority_iff,
      resolved_of_authenticated known]
    simp
  · intro unknown
    constructor
    · rintro scope rawId L ⟨context, access, run, -⟩
      rw [authorizeRequest_run] at run
      obtain ⟨-, known, -⟩ := admission_eq_admitted.mp (Prod.mk.inj (Option.some.inj run)).2
      exact absurd (unknown.symm.trans known) nofun
    · intro user recorded
      rw [hasAuthority_iff, resolved_of_unauthenticated presented unknown recorded]
      simp

end Route

set_option maxRecDepth 4000 in
/-- The owner's recovery key, on the route of the attachment. -/
theorem upload_admission_owner :
    AdmitsUpload demoDigests demoConfig attachmentDatabase [("zotero-api-key", "recovery-key")]
      "users" "1" "FILE2345" newLibrary := by
  have agree := @upload_admission demoDigests demoConfig [("zotero-api-key", "recovery-key")]
    attachmentDatabase "FILE2345" "recovery-key" rfl demoUpload (by simp [IsSegment]) (by simp)
  exact (agree.1 demoAuthorize none "" "users" "1" rfl ⟨rfl, by decide⟩).mpr ⟨_, rfl, rfl⟩

end Xotero
