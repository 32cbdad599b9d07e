import Xotero.Foundation.Fates
import Xotero.Guarantees.Attachments
import Xotero.Guarantees.Capabilities
import Xotero.Guarantees.Confinement
import Xotero.Guarantees.Downloads
import Xotero.Handlers.AuthorizationRun
import Xotero.Handlers.Cleanup
import Xotero.Store.Decisions

/-!
An upload goes through: whoever the middleware lets post to the file route of an attachment
is given a token, the bytes that were announced are taken, the registration is done, and
the next download is of these bytes.
-/

namespace Xotero

open Process (Standing)
open UploadAuthority

/-! ### The row of one upload -/

section Pending
variable {d : Database} {token : Digest} {L : LibraryId} {n : Int}

theorem withPending_withPending (row : PendingUploadRow) (row' : Option PendingUploadRow) :
    (d.withPending token (some row)).withPending token row' = d.withPending token row' :=
  congrArg (fun t => { d with pendingUploads := t }) (Table.set_put d.pendingUploads token row row')

theorem withPending_absent (absent : d.pendingUploads.find? token = none) :
    d.withPending token none = d :=
  congrArg (fun t => { d with pendingUploads := t }) (Table.erase_of_absent absent)

theorem setVersion_withPending (row : Option PendingUploadRow) :
    (d.withPending token row).setVersion L n = (d.setVersion L n).withPending token row := by
  unfold Database.setVersion
  cases found : d.library.find? L with
  | none => simp [Database.withPending, found]
  | some library => simp [Database.withPending, found]

/-- A registration leaves of the row nothing. -/
theorem register_settles (absent : d.pendingUploads.find? token = none) {row : PendingUploadRow}
    {key : String} {upload : PendingUpload} :
    (Database.edit L n ((d.withPending token (some row)).setVersion L n)
        (.register key upload)).withPending token none =
      Database.edit L n (d.setVersion L n) (.register key upload) := by
  rw [setVersion_withPending]
  have same : (Database.edit L n ((d.setVersion L n).withPending token (some row))
      (.register key upload)).withPending token none =
        ((Database.edit L n (d.setVersion L n) (.register key upload)).withPending token
          (some row)).withPending token none := rfl
  rw [same, withPending_withPending, withPending_absent (by simpa using absent)]

theorem eval_pendingUpload {row : PendingUploadRow} {now : Int}
    (found : d.pendingUploads.find? token = some row) (live : row.live now = true) :
    Sql.eval (.pendingUpload token now) d = some row.upload := by
  simp [Sql.eval, found, live]

theorem updatePendingUpload_eq {row : PendingUploadRow} {p : PendingUploadRow → Bool}
    {f : PendingUploadRow → Option PendingUploadRow}
    (found : d.pendingUploads.find? token = some row) (holds : p row = true) :
    (updatePendingUpload d token p f).foldl Database.apply d = d.withPending token (f row) := by
  rw [updatePendingUpload, found]
  simp only [holds, if_true]
  rfl

theorem valid_withState (valid : d.Valid) {row : PendingUploadRow} (state : PendingUploadState)
    (found : d.pendingUploads.find? token = some row) :
    (d.withPending token (some (row.withState state))).Valid := by
  have mem := Table.mem_rows.mpr found
  exact { valid with
    pending_uploads_library := Table.forall_put valid.pending_uploads_library
      (valid.pending_uploads_library (token, row) mem :)
    pending_uploads_group := Table.forall_put valid.pending_uploads_group
      (valid.pending_uploads_group (token, row) mem :)
    pending_uploads_bootstrap_user := Table.forall_put valid.pending_uploads_bootstrap_user
      (valid.pending_uploads_bootstrap_user (token, row) mem :)
    pending_uploads_blob_key_unique :=
      Table.forall_put (fun e member => Table.forall_put
        (valid.pending_uploads_blob_key_unique e member)
        (valid.pending_uploads_blob_key_unique e member (token, row) mem :))
        (Table.forall_put (valid.pending_uploads_blob_key_unique (token, row) mem :) fun _ => rfl)
    pending_uploads_token_hash_length := Table.forall_put valid.pending_uploads_token_hash_length
      (valid.pending_uploads_token_hash_length (token, row) mem :)
    pending_uploads_authorizer_key_hash_length :=
      Table.forall_put valid.pending_uploads_authorizer_key_hash_length
        (valid.pending_uploads_authorizer_key_hash_length (token, row) mem :)
    pending_uploads_item_key_nonempty := Table.forall_put valid.pending_uploads_item_key_nonempty
      (valid.pending_uploads_item_key_nonempty (token, row) mem :)
    pending_uploads_blob_key_nonempty := Table.forall_put valid.pending_uploads_blob_key_nonempty
      (valid.pending_uploads_blob_key_nonempty (token, row) mem :)
    pending_uploads_filesize_nonnegative :=
      Table.forall_put valid.pending_uploads_filesize_nonnegative
        (valid.pending_uploads_filesize_nonnegative (token, row) mem :)
    pending_uploads_expiry_valid := Table.forall_put valid.pending_uploads_expiry_valid
      (valid.pending_uploads_expiry_valid (token, row) mem :) }

end Pending

/-! ### The callers -/

section Caller
variable {digests : Digests} {config : Config} {headers : Params} {d : Database}
  {context : RequestContext} {access : LibraryAccess} {scope rawId key : String}
  {group : Option GroupId}

/-- The middleware lets the caller post to the route of the attachment. -/
structure MayPost (digests : Digests) (config : Config) (d : Database) (headers : Params)
    (scope rawId key : String) (group : Option GroupId) (context : RequestContext)
    (access : LibraryAccess) : Prop where
  run : (authorizeRequest digests config (filePost headers scope rawId key)).run d =
    some (d, .admitted (some context) (some access))
  names : NamesLibrary scope rawId group context.principal.userId

/-- The accounts alone say so. -/
theorem MayPost.withPending {token : Digest} {row : Option PendingUploadRow}
    (h : MayPost digests config d headers scope rawId key group context access) :
    MayPost digests config (d.withPending token row) headers scope rawId key group context
      access := by
  refine ⟨?_, h.names⟩
  have run := h.run
  rw [authorizeRequest_run] at run ⊢
  obtain ⟨guarded, known, user, selects, allowed⟩ :=
    admission_eq_admitted.mp (Prod.mk.inj (Option.some.inj run)).2
  have rows : (d.withPending token row).groupLibraryRow = d.groupLibraryRow := rfl
  have selects' : selected context (filePost headers scope rawId key).path
      (d.withPending token row) = .ok (some access) := by
    simpa only [selected, rows] using selects
  have admitted : (filePost headers scope rawId key).admission digests config
      (d.withPending token row) = .admitted (some context) (some access) :=
    admission_eq_admitted.mpr ⟨guarded, known, user, selects', allowed⟩
  rw [admitted]

theorem groupId_of_resolved {g : GroupId} {static : Option Permissions}
    {row : Option GroupLibraryRow}
    (allowed : GroupLibraryRow.resolve g static row = .allowed access) :
    access.groupId = some g := by
  unfold GroupLibraryRow.resolve at allowed
  split at allowed
  · cases allowed
  · split at allowed
    · cases allowed
    · simp only at allowed
      split at allowed
      · cases allowed
      · cases allowed
        rfl

theorem validKey_segment (valid : validKey key = true) : IsSegment key ∧ key ≠ "" := by
  simp only [validKey, Bool.and_eq_true, decide_eq_true_eq] at valid
  obtain ⟨⟨nonempty, -⟩, letters⟩ := valid
  have letters : ∀ c ∈ key.toList, c.isAlphanum = true := List.all_eq_true.mp letters
  refine ⟨fun slash => ?_, nonempty⟩
  have letter := letters '/' slash
  cases letter

theorem MayPost.known (h : MayPost digests config d headers scope rawId key group context access) :
    authenticated digests config headers d = some context := by
  have run := h.run
  rw [authorizeRequest_run] at run
  exact (admission_eq_admitted.mp (Prod.mk.inj (Option.some.inj run)).2).2.1

/-- The library of the route, by the caller. -/
def Database.routeLibrary (d : Database) (group : Option GroupId) (user : UserId) :
    Option LibraryId :=
  match group with
  | none => d.personalLibraries.find? user
  | some g => (d.groups.find? g).map Group.libraryId

/-- The access is the one to the library that the route names. -/
theorem MayPost.access_eq
    (h : MayPost digests config d headers scope rawId key group context access)
    (named : validKey key = true) : access.groupId = group ∧
      d.routeLibrary group context.principal.userId = some access.libraryId := by
  obtain ⟨segment, nonempty⟩ := validKey_segment named
  have run := h.run
  have names := h.names
  rw [authorizeRequest_run] at run
  obtain ⟨-, -, -, selects, -⟩ :=
    admission_eq_admitted.mp (Prod.mk.inj (Option.some.inj run)).2
  cases group with
  | none =>
      obtain ⟨rfl, number⟩ := names
      have path := dataPath_itemFilePath (.inl rfl) number segment nonempty
      rw [filePost, path.selected_users] at selects
      split at selects
      · cases selects
        exact ⟨rfl, personal_of_authenticated h.known⟩
      · cases selects
  | some g =>
      obtain ⟨rfl, number⟩ := names
      have path := dataPath_itemFilePath (.inr rfl) number segment nonempty
      rw [filePost, path.selected_groups number] at selects
      split at selects
      · rename_i resolution
        cases selects
        exact ⟨groupId_of_resolved resolution, library_of_allowed resolution⟩
      · cases selects
      · cases selects

/-- The authority of a caller whom the middleware lets through. -/
theorem MayPost.allowed (h : MayPost digests config d headers scope rawId key group context access)
    (valid : validKey key = true) {upload : PendingUpload}
    (library : upload.libraryId = access.libraryId) (target : upload.groupId = group) :
    context.authority.allowed upload (true, true) d = true := by
  obtain ⟨segment, nonempty⟩ := validKey_segment valid
  subst target
  exact (admitsUpload_iff_allowed h.known h.names segment nonempty).mp
    ⟨context, access, h.run, library.symm⟩

/-- The recorded credential has authority for what its caller uploads. -/
theorem MayPost.authorizes
    (h : MayPost digests config d headers scope rawId key group context access)
    (valid : validKey key = true) {upload : PendingUpload}
    (library : upload.libraryId = access.libraryId) (target : upload.groupId = group) :
    d.authorizes config upload (digests.sha256 context.presentedKey, context.bootstrapUser) =
      true := by
  rw [authorizes_iff, hasAuthority_iff]
  exact ⟨context.authority, resolved_of_authenticated h.known, h.allowed valid library target⟩

/-- What the row of the caller's upload refers to is there. -/
theorem MayPost.founded (h : MayPost digests config d headers scope rawId key group context access)
    (valid : d.Valid) (named : validKey key = true) :
    (d.library.find? access.libraryId).isSome ∧
      (∀ g ∈ access.groupId, (d.groups.find? g).isSome) ∧
      (d.users.find? context.principal.userId).isSome := by
  obtain ⟨same, route⟩ := h.access_eq named
  have personal := personal_of_authenticated h.known
  have user := valid.personal_libraries_user (_, _) (Table.mem_rows.mpr personal)
  rw [same]
  cases group with
  | none =>
      have kind := valid.personal_libraries_library (_, _) (Table.mem_rows.mpr route)
      obtain ⟨row, present, -⟩ := Option.map_eq_some_iff.mp kind
      exact ⟨Option.isSome_of_eq_some present, by simp, user⟩
  | some g =>
      obtain ⟨row, found, library⟩ := Option.map_eq_some_iff.mp route
      have kind := valid.groups_library (g, row) (Table.mem_rows.mpr found)
      obtain ⟨row', present, -⟩ := Option.map_eq_some_iff.mp kind
      refine ⟨library ▸ Option.isSome_of_eq_some present, ?_, user⟩
      intro g' mem
      obtain rfl := Option.some.inj mem
      exact Option.isSome_of_eq_some found

/-- Two callers at one route are at one library. -/
theorem MayPost.libraryId {headers' : Params} {context' : RequestContext}
    {access' : LibraryAccess}
    (h : MayPost digests config d headers scope rawId key group context access)
    (h' : MayPost digests config d headers' scope rawId key group context' access')
    (named : validKey key = true) : access'.libraryId = access.libraryId := by
  have route := (h.access_eq named).2
  have route' := (h'.access_eq named).2
  cases group with
  | none =>
      have number : context.principal.userId.get = context'.principal.userId.get :=
        Option.some.inj (h.names.2.symm.trans h'.names.2)
      have user : context.principal.userId = context'.principal.userId :=
        Option.some.inj ((Id.new_get _).symm.trans ((congrArg Id.new number).trans (Id.new_get _)))
      rw [user, route'] at route
      exact Option.some.inj route
  | some g =>
      have same : some access.libraryId = some access'.libraryId := route.symm.trans route'
      exact (Option.some.inj same).symm

end Caller


/-! ### The steps -/

/-- What is drawn for an upload is used nowhere. -/
structure AuthorizeRequest.Draws (r : AuthorizeRequest) (digests : Digests)
    (token candidateId : String) (d : Database) : Prop where
  token_eq : r.token = some token
  candidate_eq : r.candidateId = some candidateId
  text : storable candidateId = true
  new : d.pendingUploads.find? (digests.sha256 token) = none
  apart : ∀ e ∈ d.pendingUploads.rows,
    e.2.upload.blobKey ≠ uploadStorageKey r.access.libraryId candidateId

/-- The row that the authorization inserts. -/
def AuthorizeRequest.row (r : AuthorizeRequest) (digests : Digests) (candidateId : String)
    (d : Database) : PendingUploadRow where
  upload := r.upload digests
    ((Sql.eval (.fileMeta r.access.libraryId r.key) d).map FileMeta.md5) candidateId
  createdAt := r.now
  expiresAt := r.now + hour
  gcAttemptedAt := none

section Steps
variable {digests : Digests} {config : Config} {headers : Params} {d : Database}
  {scope rawId token candidateId : String} {group : Option GroupId} {r : AuthorizeRequest}

theorem authorizeUpload_completes (valid : d.Valid) (typed : d.Typed)
    (lengths : ∀ text, (digests.sha256 text).length = 32)
    (admits : MayPost digests config d headers scope rawId r.key group r.context r.access)
    (reaches : r.Reaches d) (fits : r.Storable) (draws : r.Draws digests token candidateId d) :
    (authorizeUpload digests r).atomically d =
        (d.withPending (digests.sha256 token) (some (r.row digests candidateId d)),
          some (.authorized token r.compressed)) ∧
      (r.row digests candidateId d).upload.checked = true ∧
      (d.withPending (digests.sha256 token) (some (r.row digests candidateId d))).Valid := by
  obtain ⟨library, groups, user⟩ := admits.founded valid reaches.key
  have ready : r.Ready digests r.access d := ⟨rfl, groups, user, lengths, token, candidateId,
    draws.token_eq, draws.candidate_eq, draws.text, draws.new, draws.apart⟩
  have checked : (r.row digests candidateId d).upload.checked = true :=
    (upload_checked ready typed reaches.key draws.text).mpr fits
  refine ⟨?_, checked, ?_⟩
  · have run := @authorizeUpload_eq digests d r
    rw [if_pos reaches.key, if_pos reaches.precondition, if_pos reaches.attachment,
      rest_inserts reaches.zip reaches.proceed draws.token_eq draws.candidate_eq (lengths token)
        draws.new] at run
    rw [Txn.atomically, run.trans (if_pos checked)]
    rfl
  · have users : ∀ u ∈ (r.row digests candidateId d).upload.bootstrapUserId,
        (d.users.find? u).isSome := by
      intro u mem
      simp only [AuthorizeRequest.row, AuthorizeRequest.upload, Option.mem_def] at mem
      split at mem
      · obtain rfl := Option.some.inj mem
        exact user
      · cases mem
    exact valid_createPendingUpload valid library groups users (lengths token) checked draws.apart

/-- The upload endpoint asks what a registration asks of one credential. -/
theorem authorized_run (upload : PendingUpload) :
    (upload.authorized config).run d = some (d, d.authorizes config upload
      (upload.authorizerKeyHash, upload.bootstrapUserId)) := by
  rw [PendingUpload.authorized, Txn.run_bind,
    resolve_run config (upload.authorizerKeyHash, upload.bootstrapUserId), Option.bind_some,
    Database.authorizes]
  cases resolved config (upload.authorizerKeyHash, upload.bootstrapUserId) d with
  | none => rfl
  | some authority => exact allows_run authority upload (true, true) d

/-- A live token that was not used yet is admitted, if its caller still has authority. -/
theorem uploadCheck_run (config : Config) {text : String} {now : Int} {row : PendingUploadRow}
    (found : d.pendingUploads.find? (digests.sha256 text) = some row)
    (live : row.live now = true) (state : row.upload.state = .authorized)
    (authorized : d.authorizes config row.upload
      (row.upload.authorizerKeyHash, row.upload.bootstrapUserId) = true) :
    (uploadCheck digests config text now).run d = some (d, .admitted row.upload) := by
  have asked : (row.upload.authorized config).run d = some (d, true) :=
    (authorized_run row.upload).trans (by rw [authorized])
  rw [uploadCheck, execute_bind_read rfl rfl, eval_pendingUpload found live]
  dsimp only
  rw [if_neg (by simp [state]), Txn.run_bind, asked]
  rfl

section Done
variable {fate : Nat → Fate} (done : ∀ i, fate i = .done) {β : Type} {σ : Standing Db storage}
include done

theorem statement_done (q : Sql) (f : Option q.Result → Process Db storage β) :
    (statement q >>= f).under fate σ = (f (some (q.eval σ.state))).under fate
      ⟨σ.calls + 1, (q.writes σ.state).foldl Database.apply σ.state, σ.service⟩ := by
  rw [Process.under_bind, statement_under, done]
  rfl

theorem callStorage_done (op : StorageOp) (f : Bool → Process Db storage β) :
    (callStorage op >>= f).under fate σ =
      (f true).under fate ⟨σ.calls + 1, σ.state, storage.apply op σ.service⟩ := by
  rw [Process.under_bind, callStorage_under, done]
  rfl

/-- The bytes that were announced are taken, wherever the token is live and its caller
still has authority. -/
theorem uploadPut_completes (config : Config) {put : PutRequest} {row : PendingUploadRow}
    {bytes : List UInt8}
    (found : σ.state.pendingUploads.find? (digests.sha256 put.token) = some row)
    (state : row.upload.state = .authorized)
    (authorized : σ.state.authorizes config row.upload
      (row.upload.authorizerKeyHash, row.upload.bootstrapUserId) = true)
    (body : put.body = .ok bytes) (announced : row.upload.matchesBytes digests bytes = true)
    (looked : row.live put.lookedUpAt = true) (claimed : row.live put.claimedAt = true)
    (finished : row.live put.finishedAt = true) :
    ∃ calls, (uploadPut digests config put).under fate σ = (⟨201, ""⟩, ⟨calls,
      σ.state.withPending (digests.sha256 put.token) (some (row.withState .uploaded)),
      storage.apply (.put row.upload.blobKey bytes
        (if row.upload.compressed then "application/zip" else "application/octet-stream"))
        σ.service⟩) := by
  obtain ⟨calls, asked⟩ := Process.under_ofTxn done σ
    (uploadCheck_run config found looked state authorized)
  have claims : Sql.eval (.claimPendingUpload (digests.sha256 put.token) put.claimedAt) σ.state =
      true := by
    simp [Sql.eval, found, state, claimed]
  have claim : ((Sql.claimPendingUpload (digests.sha256 put.token) put.claimedAt).writes
      σ.state).foldl Database.apply σ.state =
        σ.state.withPending (digests.sha256 put.token) (some (row.withState .uploading)) :=
    updatePendingUpload_eq found (by simp [state, claimed])
  have uploading : (σ.state.withPending (digests.sha256 put.token)
      (some (row.withState .uploading))).pendingUploads.find? (digests.sha256 put.token) =
        some (row.withState .uploading) := by
    rw [withPending_find?, if_pos rfl]
  have marks : Sql.eval (.markPendingUploadUploaded (digests.sha256 put.token) put.finishedAt)
      (σ.state.withPending (digests.sha256 put.token) (some (row.withState .uploading))) =
        true := by
    rw [Sql.eval, uploading]
    exact Bool.and_eq_true_iff.mpr ⟨rfl, finished⟩
  have mark : ((Sql.markPendingUploadUploaded (digests.sha256 put.token) put.finishedAt).writes
      (σ.state.withPending (digests.sha256 put.token) (some (row.withState .uploading)))).foldl
        Database.apply (σ.state.withPending (digests.sha256 put.token)
          (some (row.withState .uploading))) =
        σ.state.withPending (digests.sha256 put.token) (some (row.withState .uploaded)) :=
    (updatePendingUpload_eq uploading (Bool.and_eq_true_iff.mpr ⟨rfl, finished⟩)).trans
      (withPending_withPending _ _)
  rw [uploadPut_eq, Process.under_bind, asked]
  dsimp only
  rw [receiveUpload, body]
  dsimp only
  rw [if_neg (by simp [announced]), statement_done done, claims, claim]
  dsimp only
  rw [storeCandidate, callStorage_done done]
  dsimp only
  rw [statement_done done, marks, mark]
  exact ⟨_, rfl⟩

end Done

/-! ### The download -/

theorem getText_of_asStr {data : Value} {name text : String}
    (found : (data.get name).bind Value.asStr = some text) : data.getText name = some text := by
  obtain ⟨v, member, is_text⟩ := Option.bind_eq_some_iff.mp found
  rw [Value.getText, member, Option.bind_some]
  cases v with
  | string s => exact is_text
  | null | bool b | number n | array vs | object ms => cases is_text

/-- What the download asks of the item is what the upload asked. -/
theorem getText_of_isStoredFileAttachment {data : Value}
    (attached : isStoredFileAttachment data = true) :
    data.getText "itemType" = some "attachment" ∧
      (data.getText "linkMode" = some "imported_file" ∨
        data.getText "linkMode" = some "imported_url") := by
  simp only [isStoredFileAttachment, Bool.and_eq_true, Bool.or_eq_true, decide_eq_true_eq]
    at attached
  exact ⟨getText_of_asStr attached.1, attached.2.imp getText_of_asStr getText_of_asStr⟩

theorem fileGet_registered {presign : String → Option String} {url key : String} {L : LibraryId}
    {n : Int} {upload : PendingUpload} (named : validKey key = true)
    (attached : d.attachment L key = true) (signed : presign upload.blobKey = some url) :
    (Handlers.fileGet presign L key).run (Database.edit L n d (.register key upload)) =
      some (Database.edit L n d (.register key upload),
        redirect url (registeredFile upload n)) := by
  obtain ⟨data, found, stored⟩ := (Option.any_eq_true _ _).mp attached
  obtain ⟨o, present, rfl⟩ := Option.map_eq_some_iff.mp found
  obtain ⟨itemType, linkMode⟩ := getText_of_isStoredFileAttachment
    ((isStoredFileAttachment_fileStamp (n := n) o.data upload.md5 upload.filename
      upload.mtime).trans stored)
  have shown : Sql.eval (.fileMeta L key) (Database.edit L n d (.register key upload)) =
      some ⟨upload.md5, upload.uploadMd5, upload.mtime, upload.filesize, upload.compressed,
        upload.blobKey⟩ := by
    simp only [Sql.eval, Database.edit, present, Table.find?_put, if_true]
    rw [if_pos ⟨itemType, linkMode⟩]
    rfl
  rw [Handlers.fileGet, if_neg (by simp [named]),
    execute_bind_read (q := .fileMeta L key) (validKey_text named).1 rfl, shown]
  dsimp only
  rw [signed]
  rfl

/-! ### The registration -/

/-- Where the item is an attachment, the look at its file misses no row. -/
theorem fileMeta_md5 {L : LibraryId} {key : String} (attached : d.attachment L key = true) :
    (Sql.eval (.fileMeta L key) d).map FileMeta.md5 = (d.file.find? (L, key)).map File.md5 := by
  obtain ⟨data, found, stored⟩ := (Option.any_eq_true _ _).mp attached
  obtain ⟨o, present, rfl⟩ := Option.map_eq_some_iff.mp found
  simp only [Sql.eval, present]
  cases d.file.find? (L, key) with
  | none => rfl
  | some f =>
      dsimp only
      rw [if_pos (getText_of_isStoredFileAttachment stored)]
      rfl

/-- What the authorization has found is what the registration expects. -/
theorem preconditionMatches_row (digests : Digests) (candidateId : String) (reaches : r.Reaches d) :
    preconditionMatches (r.row digests candidateId d).upload.expectedMd5
      ((d.file.find? (r.access.libraryId, r.key)).map File.md5) = true := by
  have proceed := reaches.proceed
  rw [← fileMeta_md5 reaches.attachment]
  simp only [AuthorizeRequest.row, AuthorizeRequest.upload]
  generalize (Sql.eval (.fileMeta r.access.libraryId r.key) d).map FileMeta.md5 = stored
    at proceed ⊢
  cases absent : r.ifNoneMatch with
  | true =>
      cases stored with
      | none => rfl
      | some md5 =>
          simp only [filePrecondition, absent, if_true] at proceed
          split at proceed <;> cases proceed
  | false =>
      obtain ⟨want, given⟩ := Option.isSome_iff_exists.mp
        (reaches.precondition.resolve_left (by simp [absent]))
      cases stored with
      | none => simp [filePrecondition, absent, given] at proceed
      | some md5 => exact decide_eq_true rfl

/-- The locks of a registration and its second look at the authorities refuse no one:
alone it does what one look at the state decides. -/
theorem registration_decided (valid : d.Valid) {t : Digest}
    (checked : ∀ row, d.pendingUploads.find? t = some row → row.upload.checked = true)
    (itemKey : String) (access : LibraryAccess) (context : RequestContext) (now : Int) :
    (Request.registerFile t itemKey access context now).alone digests config d =
      (some (.registration (d.register digests config t itemKey access context now).2),
        (d.register digests config t itemKey access context now).1) := by
  have decided : (registerFile digests config t itemKey access context now).atomically d = _ :=
    registerFile_atomically valid checked digests itemKey access context now
  rw [Txn.atomically] at decided
  rw [Request.alone, Request.program, endingWith_eq]
  cases run : (registerFile digests config t itemKey access context now).run d with
  | none =>
      rw [run] at decided
      cases congrArg Prod.snd decided
  | some ended =>
      obtain ⟨d', e⟩ := ended
      rw [run] at decided
      obtain ⟨state, reply⟩ := Prod.mk.inj decided
      cases e with
      | commit o | drop o => rw [← Option.some.inj reply, ← state]; rfl

/-- The handler finds an upload that it may register. -/
theorem fileRegistration_shown (access : LibraryAccess) (now : Int) {t : Digest}
    {row : PendingUploadRow} (found : d.pendingUploads.find? t = some row)
    (live : row.live now = true) (state : row.upload.state = .uploaded)
    (library : row.upload.libraryId = access.libraryId)
    (groups : row.upload.groupId = access.groupId) :
    fileRegistration t row.upload.itemKey access now d = true := by
  rw [fileRegistration, eval_pendingUpload found live]
  simp [state, library, groups]

/-- A registration goes through where the bytes are there, both callers have authority
and the file is still what was expected. -/
theorem registerFile_completes (digests : Digests) (config : Config) (valid : d.Valid)
    {t : Digest} {row : PendingUploadRow} (access : LibraryAccess) (context : RequestContext)
    (now : Int) (found : d.pendingUploads.find? t = some row) (checked : row.upload.checked = true)
    (live : row.live now = true) (state : row.upload.state = .uploaded)
    (library : row.upload.libraryId = access.libraryId)
    (groups : row.upload.groupId = access.groupId)
    (recorded : d.authorizes config row.upload
      (row.upload.authorizerKeyHash, row.upload.bootstrapUserId) = true)
    (presented : d.authorizes config row.upload
      (digests.sha256 context.presentedKey, context.bootstrapUser) = true)
    (attached : d.attachment access.libraryId row.upload.itemKey = true)
    (same : preconditionMatches row.upload.expectedMd5
      ((d.file.find? (access.libraryId, row.upload.itemKey)).map File.md5) = true) :
    (registerFile digests config t row.upload.itemKey access context now).atomically d =
      ((Database.edit access.libraryId (d.version access.libraryId + 1)
        (d.setVersion access.libraryId (d.version access.libraryId + 1))
        (.register row.upload.itemKey row.upload)).withPending t none,
        some (.done (d.version access.libraryId + 1))) := by
  have only : ∀ row', d.pendingUploads.find? t = some row' → row'.upload.checked = true := by
    intro row' found'
    obtain rfl := Option.some.inj (found.symm.trans found')
    exact checked
  have all : (uploadCredentials digests row.upload context).all
      (d.authorizes config row.upload) = true := by
    simp only [uploadCredentials, List.all_cons, List.all_nil, Bool.and_true, Bool.and_eq_true]
    exact ⟨recorded, presented⟩
  rw [registerFile_atomically valid only, Database.register, found]
  dsimp only
  rw [if_neg (by simp [live]), if_neg (by simp [state, library, groups]), if_neg (by simp [all]),
    Database.swap, if_neg (by simp [attached]), if_neg (by simp [same])]

/-- Whoever the middleware lets post to the file route of an attachment can upload: with a
form that the row can hold, the token is given; the bytes that were announced are taken;
whoever is let through to the same route, perhaps with another key, registers them; of
all this the database keeps the registration alone, and the next download is of these
bytes. -/
theorem upload_completes (presign : String → Option String) (valid : d.Valid) (typed : d.Typed)
    (lengths : ∀ text, (digests.sha256 text).length = 32)
    (first : MayPost digests config d headers scope rawId r.key group r.context r.access)
    {headers' : Params} {context' : RequestContext} {access' : LibraryAccess}
    (second : MayPost digests config d headers' scope rawId r.key group context' access')
    (reaches : r.Reaches d) (fits : r.Storable) (draws : r.Draws digests token candidateId d)
    (put : PutRequest) {bytes : List UInt8} (presented : put.token = token)
    (body : put.body = .ok bytes) (length : bytes.length = r.integer "filesize")
    (digest : digests.md5Hex bytes = toLowercase (r.zipMd5.getD r.md5)) (now : Int)
    (hasty : ∀ t ∈ [put.lookedUpAt, put.claimedAt, put.finishedAt, now], t < r.now + hour)
    {url : String} (signed : presign (uploadStorageKey r.access.libraryId candidateId) = some url)
    (v : Table String Blob) :
    ∃ d₁ d₂ d₃ calls,
      (authorizeUpload digests r).atomically d = (d₁, some (.authorized token r.compressed)) ∧
      (uploadPut digests config put).under (fun _ => .done) ⟨0, d₁, v⟩ = (⟨201, ""⟩, ⟨calls, d₂,
        v.put (uploadStorageKey r.access.libraryId candidateId) ⟨bytes,
          if r.compressed then "application/zip" else "application/octet-stream"⟩⟩) ∧
      fileRegistration (digests.sha256 token) r.key access' now d₂ = true ∧
      (registerFile digests config (digests.sha256 token) r.key access' context' now).atomically
        d₂ = (d₃, some (.done (d.version r.access.libraryId + 1))) ∧
      d₃ = Database.edit r.access.libraryId (d.version r.access.libraryId + 1)
        (d.setVersion r.access.libraryId (d.version r.access.libraryId + 1))
        (.register r.key (r.row digests candidateId d).upload) ∧
      (Handlers.fileGet presign r.access.libraryId r.key).run d₃ = some (d₃,
        redirect url (r.file candidateId (d.version r.access.libraryId + 1))) := by
  obtain ⟨authorized, checked, valid₁⟩ :=
    authorizeUpload_completes valid typed lengths first reaches fits draws
  have live : ∀ t ∈ [put.lookedUpAt, put.claimedAt, put.finishedAt, now],
      (r.row digests candidateId d).live t = true := fun t mem => decide_eq_true (hasty t mem)
  simp only [List.forall_mem_cons] at live
  obtain ⟨looked, claimed, finished, registered, -⟩ := live
  subst presented
  have groups := (first.access_eq reaches.key).1
  have found : (d.withPending (digests.sha256 put.token)
      (some (r.row digests candidateId d))).pendingUploads.find? (digests.sha256 put.token) =
        some (r.row digests candidateId d) := by
    rw [withPending_find?, if_pos rfl]
  have announced : (r.row digests candidateId d).upload.matchesBytes digests bytes = true :=
    Bool.and_eq_true_iff.mpr ⟨decide_eq_true length, decide_eq_true digest⟩
  obtain ⟨calls, taken⟩ := uploadPut_completes (fun _ => rfl) config
    (σ := ⟨0, d.withPending (digests.sha256 put.token) (some (r.row digests candidateId d)), v⟩)
    found rfl (first.withPending.authorizes reaches.key rfl groups) body announced looked claimed
    finished
  have valid₂ := valid_withState valid₁ .uploaded found
  rw [withPending_withPending] at valid₂
  dsimp only at taken
  rw [withPending_withPending] at taken
  have library := first.libraryId second reaches.key
  have groups' := (second.access_eq reaches.key).1
  have found₂ : (d.withPending (digests.sha256 put.token)
      (some ((r.row digests candidateId d).withState .uploaded))).pendingUploads.find?
        (digests.sha256 put.token) = some ((r.row digests candidateId d).withState .uploaded) := by
    rw [withPending_find?, if_pos rfl]
  have shown := fileRegistration_shown access' now found₂ registered rfl
    library.symm (groups.trans groups'.symm)
  have done := registerFile_completes digests config valid₂ access' context' now found₂ checked
    registered rfl library.symm (groups.trans groups'.symm)
    (first.withPending.authorizes reaches.key rfl groups)
    (second.withPending.authorizes reaches.key library.symm groups)
    (library ▸ reaches.attachment)
    (library ▸ preconditionMatches_row digests candidateId reaches)
  have version : (d.withPending (digests.sha256 put.token)
      (some ((r.row digests candidateId d).withState .uploaded))).version r.access.libraryId =
        d.version r.access.libraryId := rfl
  rw [library, version, register_settles draws.new] at done
  refine ⟨_, _, _, calls, authorized, taken, shown, done, rfl, ?_⟩
  refine fileGet_registered reaches.key ?_ signed
  rw [Database.attachment, Database.setVersion_object]
  exact reaches.attachment

end Steps

set_option maxRecDepth 4000 in
theorem demoRegister_decided : (pendingDatabase .uploaded).register demoDigests demoConfig demoToken
    "FILE2345" demoAccess demoContext 3 = (registeredDatabase, .done 1) := rfl

/-- The first upload of the demo library is registered. -/
theorem registration_decided_first :
    demoRegister.alone demoDigests demoConfig (pendingDatabase .uploaded) =
      (some (.registration (.done 1)), registeredDatabase) := by
  have checked (row : PendingUploadRow)
      (found : (pendingDatabase .uploaded).pendingUploads.find? demoToken = some row) :
      row.upload.checked = true := by
    obtain rfl : _ = row := Option.some.inj found
    decide
  have decided := @registration_decided demoDigests demoConfig _ (pendingDatabase_valid .uploaded)
    demoToken checked "FILE2345" demoAccess demoContext 3
  rw [demoRegister_decided] at decided
  exact decided

theorem demoAuthorize_admitted : MayPost demoDigests demoConfig attachmentDatabase
    [("zotero-api-key", "recovery-key")] "users" "1" demoAuthorize.key none demoAuthorize.context
    demoAuthorize.access :=
  ⟨rfl, rfl, by decide⟩

theorem demoAuthorize_reaches : demoAuthorize.Reaches attachmentDatabase := by
  constructor <;> decide

theorem demoAuthorize_storable : demoAuthorize.Storable := by
  constructor <;> decide

theorem demoAuthorize_draws : demoAuthorize.Draws demoDigests "00112233445566778899aabbccddeeff"
    "ffeeddccbbaa99887766554433221100" attachmentDatabase := by
  constructor <;> decide

theorem attachmentDatabase_typed : attachmentDatabase.Typed where
  object L kind key v found := by
    simp only [Database.stored, attachmentDatabase, Table.find?_put] at found
    split at found
    · obtain rfl := Option.some.inj found
      exact ⟨rfl, by decide⟩
    · cases found
  file k f found := by cases found

theorem demoDigests_length (text : String) : (demoDigests.sha256 text).length = 32 := by
  unfold demoDigests
  dsimp only
  split <;> rfl

/-- The first upload of the demo library goes through. -/
theorem upload_completes_owner : ∃ d₁ d₂ d₃ calls,
    (authorizeUpload demoDigests demoAuthorize).atomically attachmentDatabase =
      (d₁, some (.authorized "00112233445566778899aabbccddeeff" false)) ∧
    (uploadPut demoDigests demoConfig demoPut).under (fun _ => .done)
        ⟨0, d₁, (∅ : Table String Blob)⟩ = (⟨201, ""⟩, ⟨calls, d₂, (∅ : Table String Blob).put
        "libraries/1/uploads/ffeeddccbbaa99887766554433221100"
        ⟨demoBody, "application/octet-stream"⟩⟩) ∧
    (registerFile demoDigests demoConfig demoToken "FILE2345" demoAccess demoContext 3).atomically
      d₂ = (d₃, some (.done 1)) ∧
    (Handlers.fileGet (fun key => some ("https://bucket.example/" ++ key)) newLibrary
      "FILE2345").run d₃ = some (d₃, redirect
        "https://bucket.example/libraries/1/uploads/ffeeddccbbaa99887766554433221100"
        (demoAuthorize.file "ffeeddccbbaa99887766554433221100" 1)) := by
  obtain ⟨d₁, d₂, d₃, calls, authorized, taken, -, registered, -, downloaded⟩ :=
    upload_completes (fun key => some ("https://bucket.example/" ++ key))
      attachmentDatabase_valid attachmentDatabase_typed demoDigests_length
      demoAuthorize_admitted demoAuthorize_admitted demoAuthorize_reaches demoAuthorize_storable
      demoAuthorize_draws demoPut rfl rfl rfl rfl 3 (by decide) rfl ∅
  exact ⟨d₁, d₂, d₃, calls, authorized, taken, registered, downloaded⟩

end Xotero
