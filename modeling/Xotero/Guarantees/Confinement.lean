import Xotero.Http.Admission
import Xotero.Http.Serve
import Xotero.Store.Uploads

/-!
Access of the requests that reach a handler. The recognisers of raw paths, the
middleware and the router agree: a handler that asks for the library of its
request runs in the scope of the access that the path and the caller stand for.
-/

namespace Xotero

section
variable {digests : Digests} {config : Config} {gunzip : Gunzip} {fuel : Nat}
  {headers : Params} {req : RequestHead} {body : BodyStream} {context : RequestContext}
  {access : LibraryAccess} {states : List Database}

/-- The path names the caller, and the access is to the caller's own library. -/
def OnOwnLibrary (d : Database) (context : RequestContext) (access : LibraryAccess)
    (path : String) : Prop :=
  ∃ rawId rest, segments path = "" :: "users" :: rawId :: rest ∧
    parseI64 rawId = some context.principal.userId.get ∧
    context.permissions.library = true ∧ access = personalAccess context ∧
    d.personalLibraries.find? context.principal.userId = some access.libraryId

/-- The path names a group, and the access is the one to its library that the
caller was allowed. -/
def OnGroupLibrary (d : Database) (context : RequestContext) (access : LibraryAccess)
    (path : String) : Prop :=
  ∃ rawId rest group, segments path = "" :: "groups" :: rawId :: rest ∧
    parseI64 rawId = some group.get ∧
    (resolveGroupLibrary group context.principal.userId context.apiKeyId
      (if context.apiKeyId.isNone then some context.permissions else none)).run d =
        some (d, .allowed access) ∧
    (d.groups.find? group).map Group.libraryId = some access.libraryId

/-! ### What the programs have read -/

theorem authenticated_of_replay
    (h : (authenticateRequest digests config headers).replay states = some (some context)) :
    ∃ d ∈ states, authenticated digests config headers d = some context := by
  unfold authenticateRequest at h
  unfold authenticated
  cases presented : presentedKey headers with
  | none =>
      rw [presented] at h
      cases ret_replay h
  | some token =>
      simp only [presented] at h ⊢
      cases known : config.recoveryPermissions (digests.sha256 token) with
      | some permissions =>
          simp only [known] at h ⊢
          obtain ⟨d, rest, rfl, made⟩ := execute_bind_replay h
          exact ⟨d, by simp, (ret_replay made).symm⟩
      | none =>
          simp only [known] at h ⊢
          obtain ⟨d, rest, rfl, made⟩ := execute_bind_replay h
          exact ⟨d, by simp, (ret_replay made).symm⟩

theorem resolved_of_replay {group : GroupId} {user : UserId} {key : Option ApiKeyId}
    {static : Option Permissions} {resolution : GroupLibraryResolution}
    (h : (resolveGroupLibrary group user key static).replay states = some resolution) :
    ∃ d ∈ states, GroupLibraryRow.resolve group static
      (d.groupLibraryRow group user key (true, true)) = resolution := by
  obtain ⟨d, rest, rfl, made⟩ := execute_bind_replay h
  exact ⟨d, by simp, (ret_replay made).symm⟩

/-- An access that is selected for a group is one that was allowed. -/
theorem allowed_of_replay {group : GroupId} {path : String} {scope : Option LibraryAccess}
    (target : pathGroupDataId path = .ok (some group))
    (h : (selectAccess context path).replay states = some (.ok scope)) :
    ∃ access, scope = some access ∧ ∃ d ∈ states, GroupLibraryRow.resolve group
      (if context.apiKeyId.isNone then some context.permissions else none)
      (d.groupLibraryRow group context.principal.userId context.apiKeyId (true, true)) =
        .allowed access := by
  unfold selectAccess at h
  rw [target] at h
  obtain ⟨before, after, resolution, rfl, resolves, made⟩ := Txn.replay_bind h
  obtain ⟨d, mem, same⟩ := resolved_of_replay resolves
  cases resolution with
  | allowed access =>
      cases ret_replay made
      exact ⟨access, rfl, d, by simp [mem], same⟩
  | denied | missing => cases ret_replay made

/-- The access that a group allows is the one to its library. -/
theorem library_of_allowed {d : Database} {group : GroupId} {user : UserId}
    {key : Option ApiKeyId} {static : Option Permissions}
    (h : GroupLibraryRow.resolve group static (d.groupLibraryRow group user key (true, true)) =
      .allowed access) :
    (d.groups.find? group).map Group.libraryId = some access.libraryId := by
  cases found : d.groupLibraryRow group user key (true, true) with
  | none => simp [found, GroupLibraryRow.resolve] at h
  | some row =>
      have library : access.libraryId = row.libraryId := by
        rw [found] at h
        simp only [GroupLibraryRow.resolve] at h
        split at h
        · cases h
        · split at h
          · cases h
          · cases h
            rfl
      unfold Database.groupLibraryRow at found
      split at found
      · cases found
      · rename_i g stored
        split at found
        · cases found
          rw [stored, library]
          rfl
        · cases found

/-- The library of a caller is the one mapped to its user. -/
theorem personal_of_authenticated {d : Database}
    (h : authenticated digests config headers d = some context) :
    d.personalLibraries.find? context.principal.userId = some context.principal.libraryId := by
  unfold authenticated at h
  split at h
  · cases h
  · split at h
    · obtain ⟨principal, found, rfl⟩ := Option.map_eq_some_iff.mp h
      obtain ⟨user, -, mapping, -⟩ := principalOf_eq_some.mp found
      exact user ▸ mapping
    · obtain ⟨⟨id, principal, permissions⟩, found, rfl⟩ := Option.map_eq_some_iff.mp h
      obtain ⟨⟨k, key⟩, -, row⟩ := List.exists_of_findSome?_eq_some found
      obtain ⟨-, -, active, -⟩ := apiKeyRow_eq_some.mp row
      exact (principalOf_eq_some.mp active).2.2.1

/-- What an admission rests on, each part of it read in some of the states. -/
theorem admitted_of_replay {caller : Option RequestContext} {scope : Option LibraryAccess}
    (guarded : req.isBootstrap = false)
    (h : (authorizeRequest digests config req).replay states = some (.admitted caller scope)) :
    ∃ context, caller = some context ∧
      (∃ d ∈ states, authenticated digests config req.headers d = some context) ∧
      checkUser context req.path = .ok () ∧
      (∃ seen, seen ⊆ states ∧
        (selectAccess context req.path).replay seen = some (.ok scope)) ∧
      req.checkAccess scope = .ok () := by
  simp only [authorizeRequest, guarded] at h
  obtain ⟨seen, after, caller', rfl, authenticates, h⟩ := Txn.replay_bind h
  cases caller' with
  | none => cases ret_replay h
  | some context =>
      dsimp only at h
      cases user : checkUser context req.path with
      | error response =>
          rw [user] at h
          cases ret_replay h
      | ok =>
          rw [user] at h
          obtain ⟨seen', _, selection, rfl, selects, h⟩ := Txn.replay_bind h
          cases selection with
          | error response => cases ret_replay h
          | ok access =>
              dsimp only at h
              cases allows : req.checkAccess access with
              | error response =>
                  rw [allows] at h
                  cases ret_replay h
              | ok =>
                  rw [allows] at h
                  cases ret_replay h
                  obtain ⟨d, mem, known⟩ := authenticated_of_replay authenticates
                  exact ⟨context, rfl, ⟨d, by simp [mem], known⟩, user,
                    ⟨seen', fun _ h => by simp [h], selects⟩, allows⟩

/-- On the path of a user's data the caller is that user. -/
theorem own_of_replay {rawId : String} {rest : List String} {scope : Option LibraryAccess}
    {d : Database} (path : DataPath req.path "users" rawId rest)
    (known : authenticated digests config headers d = some context)
    (user : checkUser context req.path = .ok ())
    (selects : (selectAccess context req.path).replay states = some (.ok scope)) :
    ∃ access, scope = some access ∧ OnOwnLibrary d context access req.path := by
  have named : parseI64 rawId = some context.principal.userId.get := by
    unfold checkUser at user
    rw [path.pathUserId_users] at user
    cases parsed : parseI64 rawId with
    | none => simp [parsed] at user
    | some id => simpa [parsed, path.isGroupDiscoveryPath_eq] using user
  have library : context.permissions.library = true ∧ scope = some (personalAccess context) := by
    unfold selectAccess at selects
    rw [path.pathGroupDataId_users] at selects
    have asked :
        (decide (req.path ≠ "/keys/current") && !isGroupDiscoveryPath req.path) = true := by
      simp [path.isGroupDiscoveryPath_eq, path.ne_keysCurrent]
    simp only [asked, if_true] at selects
    cases permitted : context.permissions.library with
    | false =>
        rw [permitted] at selects
        cases ret_replay selects
    | true =>
        rw [permitted] at selects
        cases ret_replay selects
        exact ⟨rfl, rfl⟩
  obtain ⟨permitted, rfl⟩ := library
  exact ⟨_, rfl, rawId, rest, path.parts, named, permitted, rfl, personal_of_authenticated known⟩

/-- On the path of a group's data the access is the one to that group. -/
theorem group_of_replay {rawId : String} {rest : List String} {scope : Option LibraryAccess}
    (path : DataPath req.path "groups" rawId rest)
    (selects : (selectAccess context req.path).replay states = some (.ok scope)) :
    ∃ access, scope = some access ∧ ∃ d ∈ states, OnGroupLibrary d context access req.path := by
  have parsed := path.pathGroupDataId_groups
  cases named : (parseI64 rawId).bind Id.new with
  | none =>
      rw [named] at parsed
      unfold selectAccess at selects
      rw [parsed] at selects
      cases ret_replay selects
  | some group =>
      rw [named] at parsed
      obtain ⟨access, rfl, d, mem, allowed⟩ := allowed_of_replay parsed selects
      obtain ⟨id, number, positive⟩ := Option.bind_eq_some_iff.mp named
      refine ⟨access, rfl, d, mem, rawId, rest, group, path.parts, ?_, ?_,
        library_of_allowed allowed⟩
      · rw [number, Id.get_of_new positive]
      · rw [resolveGroupLibrary, resolveGroupLibraryWithGrants_run, allowed]

theorem readOnly_authenticateRequest :
    (authenticateRequest digests config headers).ReadOnly := by
  unfold authenticateRequest
  cases presentedKey headers with
  | none => trivial
  | some token =>
      dsimp only
      cases config.recoveryPermissions (digests.sha256 token) <;>
        exact Txn.readOnly_bind (readOnly_execute fun _ => rfl) fun _ => trivial

theorem readOnly_selectAccess {path : String} : (selectAccess context path).ReadOnly := by
  unfold selectAccess
  split
  · trivial
  · refine Txn.readOnly_bind ?_ fun resolution => by cases resolution <;> trivial
    exact Txn.readOnly_bind (readOnly_execute fun _ => rfl) fun _ => trivial
  · exact Txn.readOnly_ite (Txn.readOnly_ite trivial trivial) trivial

theorem readOnly_logAndAuth :
    (logAndAuth digests config gunzip fuel req body).ReadOnly := by
  refine Txn.readOnly_bind ?_ fun admission => by cases admission <;> trivial
  refine Txn.readOnly_ite trivial (Txn.readOnly_bind readOnly_authenticateRequest fun caller => ?_)
  cases caller with
  | none => trivial
  | some context =>
      dsimp only
      cases checkUser context req.path with
      | error response => trivial
      | ok =>
          refine Txn.readOnly_bind readOnly_selectAccess fun access => ?_
          cases access with
          | error response => trivial
          | ok access =>
              dsimp only
              cases req.checkAccess access <;> trivial

/-- The number in the path of a request that got this far is positive. -/
theorem positive_of_access {name rawId : String} {rest : List String} {d d' : Database}
    (path : DataPath req.path name rawId rest)
    (h : OnOwnLibrary d context access req.path ∨ OnGroupLibrary d' context access req.path) :
    ∃ id, parseI64 rawId = some id ∧ 0 < id := by
  obtain ⟨rawId', rest', parts, number, -⟩ | ⟨rawId', rest', group, parts, number, -⟩ := h
  · cases path.parts.symm.trans parts
    exact ⟨_, number, context.principal.userId.positive⟩
  · cases path.parts.symm.trans parts
    exact ⟨_, number, group.positive⟩

/-! ### What reaches a handler -/

theorem next_called {headers : Params} {caller : Option RequestContext} {scope : RequestScope}
    {bytes : Option (List UInt8)} {call : Call}
    (h : req.next headers caller scope bytes = .called call) :
    dispatch req = .handler call.handler ∧ call.context = caller ∧ call.scope = scope := by
  unfold RequestHead.next at h
  split at h
  · rename_i handler routed
    cases h
    exact ⟨routed, rfl, rfl⟩
  · cases h
  · cases h

/-- The middleware passes its request on, or answers for an unreadable body. -/
theorem forward_cases {caller : Option RequestContext} {access : Option LibraryAccess}
    {served : Served} (h : (req.forward gunzip fuel caller access body).1 = served) :
    (∃ headers bytes, served = req.next headers caller access bytes) ∨
      (∃ status, served = .unreadable status) ∨ served = .waiting := by
  unfold RequestHead.forward at h
  split at h
  · exact .inl ⟨_, _, h.symm⟩
  · dsimp only at h
    split at h
    · exact .inl ⟨_, _, h.symm⟩
    · exact .inr (.inl ⟨_, h.symm⟩)
    · exact .inr (.inr h.symm)

/-- A handler that asks for the library of its request has one: the caller's own
on a path that names the caller, that of a group that allows the caller on a path
that names the group, with the permissions that the method and the route ask for.
A request that is refused has left its body unread, and none of this writes. -/
theorem access_confined {served : Served} {left : BodyStream}
    (h : (logAndAuth digests config gunzip fuel req body).replay states = some (served, left)) :
    (∀ call, served = .called call → call.handler.usesLibrary = true →
      ∃ context access, call.context = some context ∧ requestAccess call.scope = some access ∧
        requestLibrary call.scope = some access.libraryId ∧
        (∃ d ∈ states, (authenticateRequest digests config req.headers).run d =
            some (d, some context) ∧
          (OnOwnLibrary d context access req.path ∨
            ∃ d' ∈ states, OnGroupLibrary d' context access req.path)) ∧
        (req.mutating = true → access.permissions.write = true) ∧
        (call.handler = .fileGet ∨ call.handler = .filePost →
          access.permissions.files = true ∧
          (req.method = .post → access.fileWrite = true))) ∧
    (∀ response, served = .refused response → left = body) ∧
    (logAndAuth digests config gunzip fuel req body).ReadOnly := by
  obtain ⟨before, after, admission, rfl, authorizes, h⟩ := Txn.replay_bind h
  refine ⟨?_, ?_, readOnly_logAndAuth⟩
  · rintro call rfl uses
    cases admission with
    | refused response => cases ret_replay h
    | admitted caller scope =>
        have forwarded := congrArg Prod.fst (ret_replay h).symm
        obtain ⟨headers, bytes, passed⟩ | ⟨status, bad⟩ | waiting := forward_cases forwarded
        · obtain ⟨routed, rfl, rfl⟩ := next_called passed.symm
          obtain ⟨name, rawId, rest, path, file⟩ := dataPath_of_dispatch routed uses
          obtain ⟨context, caller, ⟨d, mem, known⟩, user, ⟨seen, sub, selects⟩, allows⟩ :=
            admitted_of_replay path.isBootstrap_eq authorizes
          obtain ⟨access, scope, d', mem', access_to⟩ : ∃ access, call.scope = some access ∧
              ∃ d' ∈ before, OnOwnLibrary d context access req.path ∨
                OnGroupLibrary d' context access req.path := by
            rcases path.scope with rfl | rfl
            · obtain ⟨access, scope, own⟩ := own_of_replay path known user selects
              exact ⟨access, scope, d, mem, .inl own⟩
            · obtain ⟨access, scope, d', mem', group⟩ := group_of_replay path selects
              exact ⟨access, scope, d', sub mem', .inr group⟩
          rw [scope] at allows ⊢
          obtain ⟨files, fileWrite, write⟩ := RequestHead.checkAccess_iff.mp allows
          refine ⟨context, access, caller, rfl, rfl, ⟨d, by simp [mem], ?_, ?_⟩, write,
            fun isFile => ?_⟩
          · rw [authenticateRequest_run, known]
          · exact access_to.imp id fun group => ⟨d', by simp [mem'], group⟩
          · obtain ⟨key, rfl⟩ := file isFile
            obtain ⟨id, number, positive⟩ := positive_of_access path access_to
            have attachment := path.isAttachmentPermissionPath_eq number positive
            exact ⟨files attachment, fun post => fileWrite (by simp [RequestHead.mutating, post])
              attachment⟩
        · cases bad
        · cases waiting
  · rintro response rfl
    cases admission with
    | refused response =>
        cases ret_replay h
        rfl
    | admitted caller scope =>
        have forwarded := congrArg Prod.fst (ret_replay h).symm
        obtain ⟨headers, bytes, passed⟩ | ⟨status, bad⟩ | waiting := forward_cases forwarded
        · unfold RequestHead.next at passed
          split at passed <;> cases passed
        · cases bad
        · cases waiting

end

/-- The form `md5=5d41`, in two frames. -/
def formBody : BodyStream where
  frames
    | 0 => .data [109, 100, 53, 61]
    | 1 => .data [53, 100, 52, 49]
    | _ => .finished
  polled := 0

/-- What the owner's recovery key reaches on the file route of the attachment. -/
def fileCall : Call where
  handler := .filePost
  headers := [("zotero-api-key", "recovery-key")]
  context := some demoContext
  scope := some (personalAccess demoContext)
  body := some [109, 100, 53, 61, 53, 100, 52, 49]

set_option maxRecDepth 8000 in
theorem fileCall_reached :
    (logAndAuth demoDigests demoConfig (fun raw => (raw, true)) 3
      ⟨.post, "/users/1/items/FILE2345/file", [("zotero-api-key", "recovery-key")]⟩
      formBody).replay [attachmentDatabase] = some (.called fileCall, ⟨formBody.frames, 3⟩) := by
  rfl

/-- The owner posts to the file route of the attachment. -/
theorem access_confined_file : ∃ access, requestAccess fileCall.scope = some access ∧
    requestLibrary fileCall.scope = some access.libraryId ∧ access.permissions.write = true ∧
    access.permissions.files = true ∧ access.fileWrite = true := by
  obtain ⟨handled, -, -⟩ := access_confined fileCall_reached
  obtain ⟨context, access, -, scope, library, -, write, file⟩ := handled fileCall rfl rfl
  exact ⟨access, scope, library, write rfl, (file (.inr rfl)).1, (file (.inr rfl)).2 rfl⟩

end Xotero
