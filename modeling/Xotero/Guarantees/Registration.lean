import Mathlib.Algebra.BigOperators.Group.List.Basic
import Xotero.Store.Uploads

/-!
Registration as a compare-and-swap that uses up its token: when it is done the
file is the one recorded at the authorization, and every other outcome leaves
the libraries as they were.
-/

namespace Xotero

open Session (Run Step Specified)

/-! ### Outcomes without a commit -/

/-- A registration that ends without a commit is not done. -/
def NotDropped (e : Ending FileRegistrationOutcome) : Prop := ∀ n, e ≠ .drop (.done n)

theorem ends_commit {α : Type} {q : Sql} {P : Ending α → Prop} {e : Ending α} (h : P e) :
    (execute q >>= fun _ => pure e).Ends P :=
  Txn.ends_bind (Txn.ends_true _) fun _ _ => h

theorem ends_registerLocked (token : Digest) (itemKey : String) (L : LibraryId)
    (upload : PendingUpload) (n : Int) :
    (registerLocked token itemKey L upload n).Ends NotDropped := by
  refine Txn.ends_bind (Txn.ends_true _) fun item _ => ?_
  split
  · exact ends_commit fun _ => nofun
  refine Txn.ends_bind (Txn.ends_true _) fun md5 _ => ?_
  split
  · exact ends_commit fun _ => nofun
  refine Txn.ends_bind (Txn.ends_true _) fun _ _ => ?_
  refine Txn.ends_bind (Txn.ends_true _) fun _ _ => ?_
  refine Txn.ends_bind (Txn.ends_true _) fun _ _ => ?_
  exact ends_commit fun _ => nofun

theorem ends_registerFile {digests : Digests} {config : Config} {token : Digest}
    {itemKey : String} {access : LibraryAccess} {context : RequestContext} {now : Int} :
    (registerFile digests config token itemKey access context now).Ends NotDropped := by
  refine Txn.ends_bind (Txn.ends_true _) fun found _ => ?_
  split
  · exact fun _ => nofun
  · split
    · exact ends_commit fun _ => nofun
    · split
      · exact fun _ => nofun
      · refine Txn.ends_bind (Txn.ends_true _) fun current _ => ?_
        split
        · exact fun _ => nofun
        · exact ends_registerLocked _ _ _ _ _

/-! ### What a registration does -/

/-- Everything a registration that is done has checked and done, for the upload
that `r` authorized and the state `view` it read the file row in. -/
structure Completed (r : AuthorizeRequest) (view : Database) (upload : PendingUpload)
    (token : Digest) (L : LibraryId) (itemKey : String) (d d' : Database) (n : Int) : Prop where
  item : r.access.libraryId = L ∧ r.key = itemKey
  attachment : d.attachment L itemKey = true
  absent : r.ifNoneMatch = true →
    Sql.eval (.fileMeta L itemKey) view = none ∧ d.file.find? (L, itemKey) = none
  unchanged : r.ifNoneMatch = false → ∃ recorded file,
    Sql.eval (.fileMeta L itemKey) view = some recorded ∧
      d.file.find? (L, itemKey) = some file ∧ eqIgnoreAsciiCase recorded.md5 file.md5 = true
  next : n = d.version L + 1
  version : d'.version L = n
  file : d'.file.find? (L, itemKey) = some {
    blobKey := upload.blobKey
    md5 := upload.md5
    blobMd5 := upload.uploadMd5
    filename := upload.filename
    filesize := upload.filesize
    mtime := upload.mtime
    compressed := upload.compressed
    version := n }
  data : ∃ o o', d.object.find? (L, .item, itemKey) = some o ∧
    d'.object.find? (L, .item, itemKey) = some o' ∧ o'.version = n ∧
    o'.data.get "md5" = some (.string upload.md5) ∧
    o'.data.get "mtime" = some (.ofInt upload.mtime) ∧
    o'.data.get "filename" = some (.string upload.filename) ∧
    o'.data.get "version" = some (.ofInt n) ∧
    ∀ name, name ∉ ["md5", "mtime", "filename", "version"] →
      o'.data.get name = o.data.get name
  objects : ∀ k, k ≠ (L, .item, itemKey) → d'.object.find? k = d.object.find? k
  files : ∀ k, k ≠ (L, itemKey) → d'.file.find? k = d.file.find? k
  removed : d'.pendingUploads.find? token = none

/-- Nothing but the pending row of `token` may have changed. -/
structure LeftAlone (token : Digest) (d d' : Database) : Prop where
  only : d' = { d with pendingUploads := d'.pendingUploads }
  pending : ∀ t, t ≠ token → d'.pendingUploads.find? t = d.pendingUploads.find? t

section Done
variable {L : LibraryId} {n : Int} {d : Database} {itemKey : String} {upload : PendingUpload}

theorem leftAlone_withPending (token : Digest) (row : Option PendingUploadRow) :
    LeftAlone token d (d.withPending token row) :=
  ⟨rfl, fun t other => by rw [withPending_find?, if_neg other]⟩

/-- The data of an attachment is an object. -/
theorem attachment_object (item : d.attachment L itemKey = true) :
    ∃ o ms, d.object.find? (L, .item, itemKey) = some o ∧ o.data = .object ms := by
  cases found : d.object.find? (L, .item, itemKey) with
  | none => simp [Database.attachment, found] at item
  | some o =>
      cases data : o.data with
      | object ms => exact ⟨o, ms, rfl, data⟩
      | _ => simp [Database.attachment, found, data, isStoredFileAttachment, Value.get] at item

theorem get_fileStamp (ms : Members) (name : String)
    (other : name ∉ ["md5", "mtime", "filename", "version"]) :
    (Value.concat (.object ms) (.object (fileStamp n upload.md5 upload.mtime
      upload.filename))).get name = (Value.object ms).get name := by
  simp only [List.mem_cons, not_or] at other
  simp only [Value.concat, Value.get_object, Members.get_concat, fileStamp, Members.get]
  simp [Ne.symm other.1, Ne.symm other.2.1, Ne.symm other.2.2.1, Ne.symm other.2.2.2.1]

theorem preconditionMatches_none {current : Option String} :
    preconditionMatches none current = true ↔ current = none := by
  cases current <;> simp [preconditionMatches]

theorem preconditionMatches_some {expected : String} {current : Option String} :
    preconditionMatches (some expected) current = true ↔
      ∃ md5, current = some md5 ∧ eqIgnoreAsciiCase expected md5 = true := by
  cases current <;> simp [preconditionMatches]

/-- A first upload goes on only when there is no file. -/
theorem filePrecondition_absent {ifMatch stored : Option String} {md5 : String}
    (proceed : filePrecondition true ifMatch stored md5 = .proceed) : stored = none := by
  cases stored with
  | none => rfl
  | some existing =>
      simp only [filePrecondition, if_true] at proceed
      split at proceed <;> cases proceed

/-- A replacement goes on only when there is a file. -/
theorem filePrecondition_present {want md5 : String} {stored : Option String}
    (proceed : filePrecondition false (some want) stored md5 = .proceed) :
    ∃ recorded, stored = some recorded := by
  cases stored with
  | some recorded => exact ⟨recorded, rfl⟩
  | none => simp [filePrecondition] at proceed

theorem completed_of_done {A : Sql → Database → Prop} {digests : Digests} {r : AuthorizeRequest}
    {uploadKey candidateId : String} {view e e' d' : Database} {token : Digest}
    {access : LibraryAccess} {now : Int} {row : PendingUploadRow}
    (authorized : Authorized A digests r uploadKey candidateId view e e')
    (upload_eq : row.upload = { r.upload digests ((Sql.eval (.fileMeta r.access.libraryId r.key)
      view).map FileMeta.md5) candidateId with state := row.upload.state })
    (presented : Presented token itemKey access now row d)
    (item : d.attachment access.libraryId itemKey = true)
    (same : preconditionMatches row.upload.expectedMd5
      ((d.file.find? (access.libraryId, itemKey)).map File.md5) = true)
    (after : d' = (Database.edit access.libraryId (d.version access.libraryId + 1)
      (d.setVersion access.libraryId (d.version access.libraryId + 1))
      (.register itemKey row.upload)).withPending token none) :
    Completed r view row.upload token access.libraryId itemKey d d'
      (d.version access.libraryId + 1) := by
  have library : r.access.libraryId = access.libraryId :=
    (congrArg PendingUpload.libraryId upload_eq).symm.trans presented.library
  have key : r.key = itemKey := (congrArg PendingUpload.itemKey upload_eq).symm.trans presented.item
  have expected : row.upload.expectedMd5 = if r.ifNoneMatch then none else
      (Sql.eval (.fileMeta access.libraryId itemKey) view).map FileMeta.md5 := by
    rw [← library, ← key]
    exact congrArg PendingUpload.expectedMd5 upload_eq
  have proceed := authorized.proceed
  rw [library, key] at proceed
  rw [expected] at same
  obtain ⟨o, ms, found, data⟩ := attachment_object item
  have object : d'.object = d.object.put (access.libraryId, .item, itemKey)
      ⟨d.version access.libraryId + 1, o.data.concat (.object (fileStamp
        (d.version access.libraryId + 1) row.upload.md5 row.upload.mtime
        row.upload.filename))⟩ := by
    rw [after]
    simp [Database.withPending, Database.edit, found]
  have file : d'.file = d.file.put (access.libraryId, itemKey)
      (registeredFile row.upload (d.version access.libraryId + 1)) := by
    rw [after]
    simp [Database.withPending, Database.edit]
  refine ⟨⟨library, key⟩, item, fun first => ?_, fun replaced => ?_, rfl, ?_, ?_, ?_, ?_, ?_, ?_⟩
  · rw [first] at proceed same
    refine ⟨?_, ?_⟩
    · simpa using filePrecondition_absent proceed
    · simpa using preconditionMatches_none.mp same
  · rw [replaced] at proceed same
    obtain ⟨want, hw⟩ := Option.isSome_iff_exists.mp
      (authorized.precondition.resolve_left (by simp [replaced]))
    rw [hw] at proceed
    obtain ⟨md5, hm⟩ := filePrecondition_present proceed
    obtain ⟨recorded, known, rfl⟩ := Option.map_eq_some_iff.mp hm
    rw [hm] at same
    obtain ⟨md5, current, matched⟩ := preconditionMatches_some.mp same
    obtain ⟨file, stored, rfl⟩ := Option.map_eq_some_iff.mp current
    exact ⟨recorded, file, known, stored, matched⟩
  · rw [after]
    exact edits_version presented.exists_library _ [.register itemKey row.upload]
  · rw [file, Table.find?_put_self]
    rfl
  · refine ⟨o, _, found, by rw [object, Table.find?_put_self], rfl, ?_⟩
    rw [data]
    refine ⟨?_, ?_, ?_, ?_, fun name other => get_fileStamp ms name other⟩
    all_goals simp [Value.concat, Members.get_concat, fileStamp, Members.get]
  · intro k other
    rw [object, Table.find?_put_ne _ _ other]
  · intro k other
    rw [file, Table.find?_put_ne _ _ other]
  · rw [after, withPending_find?, if_pos rfl]

end Done

/-! ### Runs -/

section Run
variable {digests : Digests} {config : Config} {ι : Type} [DecidableEq ι]
  {σ₀ σ : Session (server digests config) ι} {events : List (Event (server digests config))}

/-- The key an authorization hands out. -/
def Reply.uploadKey : Reply → Option String
  | .authorization (.authorized token _) => some token
  | _ => none

/-- The token a registration presents. -/
def Request.token : Request → Option Digest
  | .registerFile token .. => some token
  | _ => none

/-- The commits that authorize an upload under `token`. -/
def authorizes (token : Digest) : Event (server digests config) → Bool
  | .commit _ a _ _ => (Reply.uploadKey a).any fun key => digests.sha256 key = token
  | _ => false

/-- The registrations of `token` that end in `Done`. -/
def completes (token : Digest) : Event (server digests config) → Bool
  | .commit r a _ _ => Request.token r = some token && (Reply.doneVersion a).isSome
  | _ => false

/-- 1 while the token has a pending row. -/
def pendingCount (token : Digest) (d : Database) : Int :=
  if (d.pendingUploads.find? token).isSome then 1 else 0

theorem pendingCount_le {token : Digest} {d d' : Database}
    (h : Descends (d.pendingUploads.find? token) (d'.pendingUploads.find? token)) :
    pendingCount token d' ≤ pendingCount token d := by
  simp only [pendingCount]
  cases found : d'.pendingUploads.find? token with
  | none =>
      rw [if_neg (by simp)]
      split <;> omega
  | some row' =>
      obtain ⟨row, before, -⟩ := h row' found
      simp [before]

theorem done_registered (run : Run σ₀ events σ) (starts : Starts σ₀) {token : Digest}
    {e : Event (server digests config)} (he : e ∈ events) (done : completes token e = true) :
    ∃ d d', Session.Event.Moves e d d' ∧ (d.pendingUploads.find? token).isSome ∧
      d'.pendingUploads.find? token = none := by
  cases e with
  | stmt | drop | auto => simp [completes] at done
  | commit r a d d' =>
      refine ⟨d, d', .commit, ?_⟩
      simp only [completes, Bool.and_eq_true, decide_eq_true_eq] at done
      cases (commit_plainEffect run starts he).2 with
      | guarded | authorized | administered => simp [Request.token] at done
      | @registered token' itemKey access context now o _ _ registered =>
          obtain rfl : token' = token := Option.some.inj done.1
          cases registered with
          | expired | invalidItem | conflict => simp [Reply.doneVersion] at done
          | @done row presented authority item same after =>
              exact ⟨Option.isSome_of_eq_some presented.found, by
                rw [after, withPending_find?, if_pos rfl]⟩

/-- An authorization may add the row of a token, and `Done` takes it away. -/
theorem pendingCount_of_event (run : Run σ₀ events σ) (starts : Starts σ₀) (token : Digest) :
    ∀ e ∈ events, ∀ d d', Session.Event.Moves e d d' → pendingCount token d' ≤
      pendingCount token d + ((if authorizes token e then 1 else 0) +
        if completes token e then -1 else 0) := by
  intro e he d d' moved
  cases done : completes token e with
  | true =>
      obtain ⟨d₁, d₂, moved', before, after⟩ := done_registered run starts he done
      obtain ⟨rfl, rfl⟩ : d = d₁ ∧ d' = d₂ := by
        cases moved <;> cases moved' <;> exact ⟨rfl, rfl⟩
      simp only [pendingCount, before, after, Option.isSome_none, Bool.false_eq_true, if_true,
        if_false]
      split <;> omega
  | false =>
      rw [if_neg Bool.false_ne_true]
      rcases descends_of_event run starts token e he d d' moved with descends | made
      · have := pendingCount_le descends
        split <;> omega
      · obtain ⟨r, key, candidateId, view, rfl, same, authorized⟩ := made
        have adds : authorizes token (.commit (.authorizeUpload r) (.authorization (.authorized key
            r.compressed)) d d' : Event (server digests config)) = true := by
          simp [authorizes, Reply.uploadKey, same]
        have bound : pendingCount token d' ≤ 1 := by
          simp only [pendingCount]
          split <;> omega
        have positive : 0 ≤ pendingCount token d := by
          simp only [pendingCount]
          split <;> omega
        rw [if_pos adds]
        omega

/-- A token is used up no more often than it was authorized. -/
theorem completions_le (run : Run σ₀ events σ) (starts : Starts σ₀) {token : Digest}
    (unused : σ₀.state.pendingUploads.find? token = none) :
    events.countP (completes token) ≤ events.countP (authorizes token) := by
  have total := run.sum_le (pendingCount_of_event run starts token) fun e he negative => by
    cases done : completes token e with
    | true =>
        obtain ⟨d, d', moved, -⟩ := done_registered run starts he done
        exact ⟨d, d', moved⟩
    | false =>
        simp only [done, Bool.false_eq_true, if_false] at negative
        split at negative <;> omega
  rw [List.sum_map_add, Session.sum_indicator, Session.sum_indicator] at total
  have start : pendingCount token σ₀.state = 0 := by simp [pendingCount, unused]
  have finish : 0 ≤ pendingCount token σ.state := by
    simp only [pendingCount]
    split <;> omega
  omega

theorem not_done_of_drop (run : Run σ₀ events σ) (starts : Starts σ₀) {token : Digest}
    {itemKey : String} {access : LibraryAccess} {context : RequestContext} {now : Int}
    {o : FileRegistrationOutcome} {d : Database}
    (he : .drop (Request.registerFile token itemKey access context now) (.registration o) d ∈
      events) (n : Int) : o ≠ .done n := by
  have spec : Specified (server digests config) (fun _ _ _ => True)
      (fun r e _ _ _ => ∀ token itemKey access context now,
        r = Request.registerFile token itemKey access context now →
          ∀ o, e = .drop (.registration o) → ∀ n, o ≠ .done n) := by
    refine ⟨fun r s _ => ?_⟩
    cases r with
    | guarded | authorizeUpload | administer =>
        exact (Ensures.of_ends (Txn.ends_true _) [] [] s).imp fun _ _ _ _ _ _ _ _ _ _ same =>
          nomatch same
    | registerFile token itemKey access context now =>
        refine Ensures.map ((Ensures.of_ends ends_registerFile [] [] s).imp ?_)
        rintro e _ _ _ notDropped _ _ _ _ _ _ o same n rfl
        cases e with
        | commit => cases same
        | drop o' =>
            obtain rfl := Reply.registration.inj (Ending.drop.inj same)
            exact notDropped n rfl
  obtain ⟨-, held, log, post⟩ := run.meets server_wellLocked spec starts.idle starts.valid
    (fun _ _ _ _ => trivial) _ he
  exact post _ _ _ _ _ rfl o rfl n

theorem leftAlone_of_registered {P : PendingUpload → Database → Prop} {token : Digest}
    {itemKey : String} {access : LibraryAccess} {now : Int} {o : FileRegistrationOutcome}
    {d d' : Database} (h : Registered P token itemKey access now d d' o)
    (notDone : ∀ n, o ≠ .done n) : LeftAlone token d d' := by
  cases h with
  | expired _ _ after => exact after ▸ leftAlone_withPending _ _
  | invalidItem _ _ _ after => exact after ▸ leftAlone_withPending _ _
  | conflict _ _ _ _ after => exact after ▸ leftAlone_withPending _ _
  | done => exact absurd rfl (notDone _)

/-- File registration is an atomic, single-use compare-and-swap. -/
theorem registration_compare_and_swap (run : Run σ₀ events σ) (starts : Starts σ₀)
    {token : Digest} (unused : σ₀.state.pendingUploads.find? token = none) :
    (events.countP (authorizes token) ≤ 1 → events.countP (completes token) ≤ 1) ∧
    (∀ itemKey access context now n d d',
      .commit (Request.registerFile token itemKey access context now)
        (.registration (.done n)) d d' ∈ events →
      ∃ r uploadKey candidateId view upload,
        AuthorizedBy digests events token r uploadKey candidateId view upload ∧
        Completed r view upload token access.libraryId itemKey d d' n) ∧
    (∀ itemKey access context now o d d',
      .commit (Request.registerFile token itemKey access context now)
        (.registration o) d d' ∈ events → (∀ n, o ≠ .done n) → LeftAlone token d d') ∧
    (∀ itemKey access context now o d,
      .drop (Request.registerFile token itemKey access context now) (.registration o) d ∈
        events → ∀ n, o ≠ .done n) ∧
    ∀ (σ₁ σ₂ : Session (server digests config) ι) ev, Step σ₁ ev σ₂ →
      (∃ r a d, .drop r a d ∈ ev) → σ₂.state = σ₁.state := by
  refine ⟨fun distinct => Nat.le_trans (completions_le run starts unused) distinct, ?_, ?_,
    fun _ _ _ _ _ _ he => not_done_of_drop run starts he, ?_⟩
  · intro itemKey access context now n d d' he
    obtain ⟨es, σ₁, run₁, rfl, earlier⟩ := run.before he .commit
    cases (commit_plainEffect run starts he).2 with
    | registered registered =>
        cases registered with
        | done presented authority item same after =>
            obtain ⟨r, key, candidateId, view, origin⟩ :=
              authorizedBy_of_run run₁ starts unused _ presented.found
            obtain ⟨e, e', -, authorized⟩ := origin.committed
            exact ⟨r, key, candidateId, view, _, origin.mono earlier.subset,
              completed_of_done authorized origin.upload_eq presented item same after⟩
  · intro itemKey access context now o d d' he notDone
    cases (commit_plainEffect run starts he).2 with
    | registered registered => exact leftAlone_of_registered registered notDone
  · rintro σ₁ σ₂ ev step ⟨r, a, d, he⟩
    cases step with
    | drop => rfl
    | start | abort => rfl
    | query | commit | auto => simp at he

end Run

theorem countP_stmts {S : System Db} {es : List (Event S)} {p : Event S → Bool}
    (stmts : ∀ e ∈ es, ∃ r q v, e = .stmt r q v) (none : ∀ r q v, p (.stmt r q v) = false) :
    es.countP p = 0 := by
  rw [List.countP_eq_zero]
  intro e he
  obtain ⟨r, q, v, rfl⟩ := stmts e he
  simp [none]

/-- The first upload of an attachment, from its authorization to its end. -/
theorem registration_compare_and_swap_first : ∃ events r uploadKey candidateId view upload,
    Run (Session.idle attachmentDatabase : Session demoServer Unit) events
      (Session.idle registeredDatabase) ∧
    events.countP (completes demoToken) ≤ 1 ∧
    AuthorizedBy demoDigests events demoToken r uploadKey candidateId view upload ∧
    Completed r view upload demoToken newLibrary "FILE2345" (pendingDatabase .uploaded)
      registeredDatabase 1 := by
  obtain ⟨es, first, stmts⟩ := demoAuthorize_runs ()
  obtain ⟨es', last, stmts'⟩ := demoRegister_runs ()
  have claim : Run (Session.idle (pendingDatabase .authorized) : Session demoServer Unit)
      [.auto (.claimPendingUpload demoToken 1) _ _] (Session.idle (pendingDatabase .uploading)) :=
    Run.lone rfl rfl (pendingDatabase_valid .uploading)
  have mark : Run (Session.idle (pendingDatabase .uploading) : Session demoServer Unit)
      [.auto (.markPendingUploadUploaded demoToken 2) _ _]
      (Session.idle (pendingDatabase .uploaded)) :=
    Run.lone rfl rfl (pendingDatabase_valid .uploaded)
  have run := ((first.trans claim).trans mark).trans last
  have unused : attachmentDatabase.pendingUploads.find? demoToken = none := rfl
  obtain ⟨once, done, -⟩ := registration_compare_and_swap run (starts_idle attachmentDatabase_valid)
    unused
  have authorized := countP_stmts (p := authorizes demoToken) stmts fun _ _ _ => rfl
  have authorized' := countP_stmts (p := authorizes demoToken) stmts' fun _ _ _ => rfl
  have most := once (by
    simp only [List.countP_append, authorized, authorized']
    decide)
  obtain ⟨r, key, candidateId, view, upload, origin, completed⟩ :=
    done "FILE2345" demoAccess demoContext 3 1 _ _
      (List.mem_append_right _ (List.mem_append_right _ (List.mem_singleton_self _)))
  exact ⟨_, r, key, candidateId, view, upload, run, most, origin, completed⟩

end Xotero
