import Xotero.Store.Stamps

/-!
What becomes of a pending upload: the rows each statement of the upload endpoint
and the collector writes, and that no change but an authorization makes a new
row or alters what one describes.
-/

namespace Xotero

open Session (Run)

section Statements
variable {d : Database} {token t : Digest} {now : Int}

/-- The row of one token after an update of another or of the same. -/
theorem find?_updatePendingUpload (p : PendingUploadRow → Bool)
    (f : PendingUploadRow → Option PendingUploadRow) :
    ((updatePendingUpload d token p f).foldl Database.apply d).pendingUploads.find? t =
      if t = token then (d.pendingUploads.find? token).bind fun row =>
        if p row then f row else some row
      else d.pendingUploads.find? t := by
  unfold updatePendingUpload
  cases found : d.pendingUploads.find? token with
  | none =>
      by_cases same : t = token
      · simp [same, found]
      · simp [same]
  | some row =>
      cases holds : p row with
      | true => simp [Database.apply, Table.find?_set, holds]
      | false =>
          by_cases same : t = token
          · simp [same, found, holds]
          · simp [same, holds]

/-- The same change made to several rows. -/
theorem find?_foldl_pending {xs : List (Digest × PendingUploadRow)}
    (g : PendingUploadRow → PendingUploadRow)
    (rows : ∀ x ∈ xs, d.pendingUploads.find? x.1 = some x.2) :
    ((xs.map fun x => Write.pendingUpload x.1 (some (g x.2))).foldl Database.apply
        d).pendingUploads.find? t =
      (d.pendingUploads.find? t).map
        fun row => if (xs.map Prod.fst).contains t then g row else row := by
  have fold (ys : List (Digest × PendingUploadRow)) (d : Database) :
      ((ys.map fun x => Write.pendingUpload x.1 (some (g x.2))).foldl Database.apply
        d).pendingUploads = ys.foldl (fun u x => u.put x.1 (g x.2)) d.pendingUploads := by
    induction ys generalizing d with
    | nil => rfl
    | cons y ys ih => exact ih _
  have functional : ∀ x ∈ xs, ∀ y ∈ xs, x.1 = y.1 → g x.2 = g y.2 := by
    intro x hx y hy same
    have := (rows x hx).symm.trans (same ▸ rows y hy)
    rw [Option.some.inj this]
  rw [fold, Table.find?_foldl_put functional]
  cases hf : xs.find? fun x => x.1 = t with
  | some x =>
      obtain rfl : x.1 = t := by simpa using List.find?_some hf
      have member := List.mem_of_find?_eq_some hf
      have named : (xs.map Prod.fst).contains x.1 = true := by
        simpa using ⟨x.2, member⟩
      simp only [rows x member, Option.map_some, named, if_true, Option.some_or]
  | none =>
      have other : (xs.map Prod.fst).contains t = false := by
        simpa using fun row member => List.find?_eq_none.mp hf (t, row) member
      simp only [Option.map_none, Option.none_or, other, Bool.false_eq_true, if_false,
        Option.map_id']

theorem mem_garbage {limit : Nat} {skipped : List Digest} {x : Digest × PendingUploadRow}
    (h : x ∈ d.garbage limit now skipped) :
    d.pendingUploads.find? x.1 = some x.2 ∧ x.2.isGarbage now = true := by
  have h := Table.mem_select.mp ((List.mem_insertionSort _).mp (List.mem_of_mem_take h))
  simp only [Bool.and_eq_true] at h
  exact ⟨h.1, h.2.1⟩

theorem find?_claimPendingUploadGarbage {limit : Nat} {skipped : List Digest} :
    (((Sql.claimPendingUploadGarbage limit now skipped).writes d).foldl Database.apply
        d).pendingUploads.find? t =
      (d.pendingUploads.find? t).map fun row =>
        if ((d.garbage limit now skipped).map Prod.fst).contains t then
          { row.withState .deleting with gcAttemptedAt := some now } else row :=
  find?_foldl_pending (fun row => { row.withState .deleting with gcAttemptedAt := some now })
    fun _ hx => (mem_garbage hx).1

/-- The row of a candidate that the collector claims. -/
theorem find?_of_claimed {limit : Nat} {skipped : List Digest} {x : Digest × String}
    (mem : x ∈ (Sql.claimPendingUploadGarbage limit now skipped).eval d) :
    ∃ row : PendingUploadRow, row.upload.blobKey = x.2 ∧
      (((Sql.claimPendingUploadGarbage limit now skipped).writes d).foldl Database.apply
        d).pendingUploads.find? x.1 =
          some { row.withState .deleting with gcAttemptedAt := some now } := by
  obtain ⟨⟨t, row⟩, garbage, rfl⟩ := List.mem_map.mp mem
  have named : ((d.garbage limit now skipped).map Prod.fst).contains t = true := by
    simpa using ⟨row, garbage⟩
  refine ⟨row, rfl, ?_⟩
  rw [find?_claimPendingUploadGarbage, (mem_garbage garbage).1, Option.map_some, if_pos named]

theorem find?_resetInterruptedPendingUploads :
    ((Sql.resetInterruptedPendingUploads.writes d).foldl Database.apply
        d).pendingUploads.find? t =
      (d.pendingUploads.find? t).map fun row =>
        if row.upload.state = .uploading then row.withState .authorized else row := by
  have rows : ∀ x ∈ d.pendingUploads.select fun _ row => row.upload.state = .uploading,
      d.pendingUploads.find? x.1 = some x.2 := fun x hx => (Table.mem_select.mp hx).1
  refine (find?_foldl_pending (fun row => row.withState .authorized) rows).trans ?_
  cases found : d.pendingUploads.find? t with
  | none => rfl
  | some row =>
      have chosen : ((d.pendingUploads.select fun _ row =>
          row.upload.state = .uploading).map Prod.fst).contains t =
            decide (row.upload.state = .uploading) := by
        rw [Bool.eq_iff_iff, List.contains_iff_mem, List.mem_map, decide_eq_true_eq]
        constructor
        · rintro ⟨⟨t', row'⟩, h, rfl⟩
          obtain ⟨found', state⟩ := Table.mem_select.mp h
          obtain rfl := Option.some.inj (found.symm.trans found')
          exact of_decide_eq_true state
        · exact fun state => ⟨(t, row), Table.mem_select.mpr ⟨found, decide_eq_true state⟩, rfl⟩
      simp only [Option.map_some, chosen, decide_eq_true_eq]

end Statements

/-! ### Rows that go on describing the same upload -/

/-- The row is the one before, perhaps in another state, or gone. -/
def Descends (before after : Option PendingUploadRow) : Prop :=
  ∀ row', after = some row' → ∃ row, before = some row ∧
    row'.upload = { row.upload with state := row'.upload.state }

theorem Descends.refl (row : Option PendingUploadRow) : Descends row row :=
  fun row' found => ⟨row', found, rfl⟩

theorem Descends.gone (row : Option PendingUploadRow) : Descends row none := by
  intro row' found
  cases found

theorem descends_withState {row : PendingUploadRow} (state : PendingUploadState) :
    Descends (some row) (some (row.withState state)) := by
  rintro _ ⟨⟩
  exact ⟨row, rfl, rfl⟩

theorem descends_bind {before : Option PendingUploadRow} {p : PendingUploadRow → Bool}
    {f : PendingUploadRow → Option PendingUploadRow}
    (h : ∀ row, Descends (some row) (f row)) :
    Descends before (before.bind fun row => if p row then f row else some row) := by
  intro row' found
  obtain ⟨row, rfl, kept⟩ := Option.bind_eq_some_iff.mp found
  split at kept
  · exact h row row' kept
  · obtain rfl := Option.some.inj kept
    exact ⟨row, rfl, rfl⟩

theorem descends_map {before : Option PendingUploadRow} {p : PendingUploadRow → Prop}
    [DecidablePred p] {g : PendingUploadRow → PendingUploadRow}
    (h : ∀ row, (g row).upload = { row.upload with state := (g row).upload.state }) :
    Descends before (before.map fun row => if p row then g row else row) := by
  intro row' found
  obtain ⟨row, rfl, rfl⟩ := Option.map_eq_some_iff.mp found
  refine ⟨row, rfl, ?_⟩
  split
  · exact h row
  · rfl

theorem upload_descends {q : Sql} (h : q.isUploadStatement) (d : Database) (t : Digest) :
    Descends (d.pendingUploads.find? t)
      (((q.writes d).foldl Database.apply d).pendingUploads.find? t) := by
  have update (token : Digest) (p : PendingUploadRow → Bool)
      (f : PendingUploadRow → Option PendingUploadRow)
      (hf : ∀ row, Descends (some row) (f row)) : Descends (d.pendingUploads.find? t)
        (((updatePendingUpload d token p f).foldl Database.apply d).pendingUploads.find? t) := by
    rw [find?_updatePendingUpload]
    by_cases same : t = token
    · subst same
      rw [if_pos rfl]
      exact descends_bind hf
    · rw [if_neg same]
      exact .refl _
  cases q with
  | claimPendingUpload | discardPendingUpload | markPendingUploadUploaded | resetPendingUpload =>
      simp only [Sql.writes]
      exact update _ _ _ fun row => descends_withState _
  | deletePendingUploadGarbage =>
      simp only [Sql.writes]
      exact update _ _ _ fun row => .gone _
  | resetInterruptedPendingUploads =>
      rw [find?_resetInterruptedPendingUploads]
      exact descends_map (g := fun row => row.withState .authorized) fun row => rfl
  | claimPendingUploadGarbage =>
      rw [find?_claimPendingUploadGarbage]
      exact descends_map (g := fun row => { row.withState .deleting with gcAttemptedAt := _ })
        fun row => rfl
  | _ => simp [Sql.isUploadStatement] at h

/-! ### The requests that commit -/

section Commits
variable {d d' : Database} {token t : Digest}

theorem edits_pendingUploads (L : LibraryId) (n : Int) (d : Database) (es : List Edit) :
    (Database.edits L n d es).pendingUploads = d.pendingUploads := by
  induction es generalizing d with
  | nil => rfl
  | cons e es ih => exact (ih _).trans (Database.edit_pendingUploads d L n e)

theorem Committed.pendingUploads {L : LibraryId} {expected : Option Int} {es : List Edit}
    (h : Committed L expected es d d') : d'.pendingUploads = d.pendingUploads := by
  rw [h.after, edits_pendingUploads, Database.setVersion_pendingUploads]

theorem accounts_pendingUploads (ws : List AccountWrite) :
    ((ws.map Write.account).foldl Database.apply d).pendingUploads = d.pendingUploads := by
  induction ws generalizing d with
  | nil => rfl
  | cons w ws ih =>
      refine ih.trans ?_
      cases w <;> rfl

theorem withPending_find? (row : Option PendingUploadRow) :
    (d.withPending token row).pendingUploads.find? t =
      if t = token then row else d.pendingUploads.find? t :=
  Table.find?_set _ _ _ _

theorem descends_withPending {row : Option PendingUploadRow}
    (h : Descends (d.pendingUploads.find? token) row) :
    Descends (d.pendingUploads.find? t) ((d.withPending token row).pendingUploads.find? t) := by
  rw [withPending_find?]
  by_cases same : t = token
  · rw [if_pos same, same]
    exact h
  · rw [if_neg same]
    exact .refl _

/-- A registration discards the row that it is about, or takes it out. -/
theorem Registered.pending {P : PendingUpload → Database → Prop} {itemKey : String}
    {access : LibraryAccess} {now : Int} {o : FileRegistrationOutcome}
    (h : Registered P token itemKey access now d d' o) :
    ∃ row left, d.pendingUploads.find? token = some row ∧
      d'.pendingUploads = (d.withPending token left).pendingUploads ∧
      (left = some (row.withState .discarded) ∨ left = none) := by
  cases h with
  | expired found _ after => exact ⟨_, _, found, congrArg _ after, .inl rfl⟩
  | invalidItem presented _ _ after => exact ⟨_, _, presented.found, congrArg _ after, .inl rfl⟩
  | conflict presented _ _ _ after => exact ⟨_, _, presented.found, congrArg _ after, .inl rfl⟩
  | @done row presented _ _ _ after =>
      have kept : (Database.edit access.libraryId (d.version access.libraryId + 1)
          (d.setVersion access.libraryId (d.version access.libraryId + 1))
          (.register itemKey row.upload)).pendingUploads = d.pendingUploads := by simp
      refine ⟨row, none, presented.found, ?_, .inr rfl⟩
      rw [after, Database.withPending, kept, Database.withPending]

theorem Registered.descends {P : PendingUpload → Database → Prop} {itemKey : String}
    {access : LibraryAccess} {now : Int} {o : FileRegistrationOutcome}
    (h : Registered P token itemKey access now d d' o) :
    Descends (d.pendingUploads.find? t) (d'.pendingUploads.find? t) := by
  obtain ⟨row, left, found, after, discarded | gone⟩ := h.pending
  · rw [after, discarded]
    exact descends_withPending (found ▸ descends_withState _)
  · rw [after, gone]
    exact descends_withPending (.gone _)

/-- Only an authorization makes a row for a token. -/
theorem Effect.descends {A : Request → Sql → Database → Prop}
    {P : Request → PendingUpload → Database → Prop} {digests : Digests} {r : Request}
    {a : Reply} (h : Effect A P digests r a d d') (t : Digest) :
    Descends (d.pendingUploads.find? t) (d'.pendingUploads.find? t) ∨
      ∃ r' token candidateId view, r = .authorizeUpload r' ∧
        a = .authorization (.authorized token r'.compressed) ∧ digests.sha256 token = t ∧
        Authorized (A r) digests r' token candidateId view d d' := by
  cases h with
  | guarded committed => exact .inl (committed.pendingUploads ▸ .refl _)
  | registered registered => exact .inl registered.descends
  | administered after => exact .inl (after ▸ accounts_pendingUploads _ ▸ .refl _)
  | @authorized r' token candidateId view _ _ authorized =>
      by_cases same : digests.sha256 token = t
      · exact .inr ⟨r', token, candidateId, view, rfl, rfl, same, authorized⟩
      · refine .inl ?_
        rw [authorized.after]
        simp only [Database.apply, Table.find?_set, if_neg (Ne.symm same)]
        exact .refl _

end Commits

/-! ### Runs -/

section Run
variable {digests : Digests} {config : Config} {ι : Type} [DecidableEq ι]
  {σ₀ σ : Session (server digests config) ι} {events : List (Event (server digests config))}

/-- The authorization that made a pending row, and the state it read the file
row in. -/
structure AuthorizedBy (digests : Digests) (events : List (Event (server digests config)))
    (t : Digest) (r : AuthorizeRequest) (token candidateId : String) (view : Database)
    (upload : PendingUpload) : Prop where
  token_eq : digests.sha256 token = t
  committed : ∃ d d', .commit (Request.authorizeUpload r)
      (.authorization (.authorized token r.compressed)) d d' ∈ events ∧
    Authorized (fun q v => .stmt (Request.authorizeUpload r) q v ∈ events) digests r token
      candidateId view d d'
  upload_eq : upload = { r.upload digests ((Sql.eval (.fileMeta r.access.libraryId r.key) view).map
    FileMeta.md5) candidateId with state := upload.state }

omit [DecidableEq ι] in
theorem AuthorizedBy.mono {events' : List (Event (server digests config))} {t : Digest}
    {r : AuthorizeRequest} {token candidateId : String} {view : Database} {upload : PendingUpload}
    (h : AuthorizedBy digests events t r token candidateId view upload) (sub : events ⊆ events') :
    AuthorizedBy digests events' t r token candidateId view upload := by
  obtain ⟨d, d', he, authorized⟩ := h.committed
  exact ⟨h.token_eq, ⟨d, d', sub he, { authorized with seen := sub authorized.seen }⟩, h.upload_eq⟩

theorem commit_tracked (run : Run σ₀ events σ) (starts : Starts σ₀) {r : Request} {a : Reply}
    {d d' : Database} (he : .commit r a d d' ∈ events) :
    Effect (fun r q v => .stmt r q v ∈ events) (fun _ _ _ => True) digests r a d d' :=
  (commit_effect (A := fun r q v => Event.stmt r q v ∈ events) (P := fun _ _ _ => True) run starts
    (fun _ _ _ h => h) (fun _ _ _ _ _ => secures_true _ _) he).2

/-- A row goes on describing one upload, unless the event makes it. -/
theorem descends_of_event (run : Run σ₀ events σ) (starts : Starts σ₀) (t : Digest) :
    ∀ e ∈ events, ∀ d d', Session.Event.Moves e d d' →
      Descends (d.pendingUploads.find? t) (d'.pendingUploads.find? t) ∨
        ∃ r token candidateId view, e = .commit (.authorizeUpload r)
            (.authorization (.authorized token r.compressed)) d d' ∧ digests.sha256 token = t ∧
          Authorized (fun q v => .stmt (Request.authorizeUpload r) q v ∈ events) digests r token
            candidateId view d d' := by
  intro e he d d' moved
  cases moved with
  | auto =>
      obtain ⟨-, upload, rfl⟩ := auto_effect run starts he
      exact .inl (upload_descends upload d t)
  | commit =>
      refine ((commit_tracked run starts he).descends t).imp_right ?_
      rintro ⟨r, token, candidateId, view, rfl, rfl, same, authorized⟩
      exact ⟨r, token, candidateId, view, rfl, same, authorized⟩

/-- Every pending row comes from an authorization of the run. -/
theorem authorizedBy_of_run (run : Run σ₀ events σ) (starts : Starts σ₀) {t : Digest}
    (unused : σ₀.state.pendingUploads.find? t = none) :
    ∀ row, σ.state.pendingUploads.find? t = some row →
      ∃ r token candidateId view,
        AuthorizedBy digests events t r token candidateId view row.upload := by
  induction run with
  | refl => exact fun row found => by simp [unused] at found
  | @snoc es ev σ σ' run step ih =>
      intro row' found'
      have earlier : es ⊆ es ++ ev := List.subset_append_left es ev
      rcases step.moves with same | ⟨e, he, moved⟩
      · obtain ⟨r, token, candidateId, view, origin⟩ := ih row' (same ▸ found')
        exact ⟨r, token, candidateId, view, origin.mono earlier⟩
      · have he := List.mem_append_right es he
        rcases descends_of_event (run.snoc step) starts t e he _ _ moved with descends | made
        · obtain ⟨row, found, upload⟩ := descends row' found'
          obtain ⟨r, token, candidateId, view, origin⟩ := ih row found
          refine ⟨r, token, candidateId, view, { origin.mono earlier with upload_eq := ?_ }⟩
          rw [upload, origin.upload_eq]
        · obtain ⟨r, token, candidateId, view, rfl, same, authorized⟩ := made
          refine ⟨r, token, candidateId, view, same, ⟨_, _, he, authorized⟩, ?_⟩
          rw [authorized.after] at found'
          simp only [Database.apply, Table.find?_set, same, if_true] at found'
          obtain rfl := Option.some.inj found'
          rfl

end Run

/-! ### A first upload -/

/-- The digests of the two texts and the one body of the upload below. -/
def demoDigests : Digests where
  sha256 text :=
    if text = "recovery-key" then
      [59, 76, 132, 202, 33, 101, 29, 215, 36, 87, 222, 177, 10, 139, 107, 234, 176, 73, 209, 184,
        22, 36, 178, 204, 55, 54, 137, 168, 194, 142, 195, 98]
    else
      [89, 71, 215, 195, 61, 120, 63, 148, 179, 180, 193, 169, 110, 188, 137, 145, 237, 40, 241,
        176, 105, 183, 30, 3, 55, 108, 186, 140, 170, 152, 167, 32]
  md5Hex _ := "5d41402abc4b2a76b9719d911017c592"

def demoBody : List UInt8 := [104, 101, 108, 108, 111]

def demoOwner : UserId := ⟨1, Int.zero_lt_one⟩

def demoConfig : Config :=
  ⟨[(demoDigests.sha256 "recovery-key", ⟨true, true, true, true⟩)], demoOwner, ""⟩

abbrev demoServer : System Db := server demoDigests demoConfig

/-- A personal library with one attachment that has no file yet. -/
def attachmentDatabase : Database :=
  { newDatabase with
    users := (∅ : Table UserId User).put demoOwner ⟨"owner", "Owner", none⟩
    personalLibraries := (∅ : Table UserId LibraryId).put demoOwner newLibrary
    object := (∅ : Table (LibraryId × ObjectKind × String) Object).put
      (newLibrary, .item, "FILE2345") ⟨0, .object [("itemType", .string "attachment"),
        ("linkMode", .string "imported_file")]⟩ }

theorem attachmentDatabase_valid : attachmentDatabase.Valid := by
  constructor <;> decide

def demoAccess : LibraryAccess := ⟨newLibrary, none, ⟨true, true, true, true⟩, true, true⟩

def demoContext : RequestContext :=
  ⟨"recovery-key", ⟨demoOwner, "owner", "Owner", newLibrary⟩, ⟨true, true, true, true⟩, none⟩

def demoAuthorize : AuthorizeRequest where
  access := demoAccess
  context := demoContext
  key := "FILE2345"
  ifNoneMatch := true
  ifMatch := none
  form := [("md5", "5d41402abc4b2a76b9719d911017c592"), ("filename", "note.txt"),
    ("filesize", "5"), ("mtime", "1700000000000")]
  token := some "00112233445566778899aabbccddeeff"
  candidateId := some "ffeeddccbbaa99887766554433221100"
  now := 0

def demoToken : Digest := demoDigests.sha256 "00112233445566778899aabbccddeeff"

def demoRegister : Request := .registerFile demoToken "FILE2345" demoAccess demoContext 3

def demoUpload : PendingUpload where
  libraryId := newLibrary
  groupId := none
  authorizerKeyHash := demoDigests.sha256 "recovery-key"
  bootstrapUserId := some demoOwner
  itemKey := "FILE2345"
  expectedMd5 := none
  blobKey := "libraries/1/uploads/ffeeddccbbaa99887766554433221100"
  md5 := "5d41402abc4b2a76b9719d911017c592"
  uploadMd5 := "5d41402abc4b2a76b9719d911017c592"
  filename := "note.txt"
  filesize := 5
  mtime := 1700000000000
  compressed := false
  state := .authorized

/-- The database while the upload is under way. -/
def pendingDatabase (state : PendingUploadState) : Database :=
  attachmentDatabase.withPending demoToken
    (some ⟨{ demoUpload with state := state }, 0, hour, none⟩)

theorem pendingDatabase_valid (state : PendingUploadState) : (pendingDatabase state).Valid := by
  cases state <;> constructor <;> decide

def registeredDatabase : Database :=
  { attachmentDatabase with
    library := attachmentDatabase.library.put newLibrary ⟨1, .personal⟩
    object := attachmentDatabase.object.put (newLibrary, .item, "FILE2345") ⟨1, .object [
      ("md5", .string "5d41402abc4b2a76b9719d911017c592"), ("mtime", .ofInt 1700000000000),
      ("version", .ofInt 1), ("filename", .string "note.txt"),
      ("itemType", .string "attachment"), ("linkMode", .string "imported_file")]⟩
    file := attachmentDatabase.file.put (newLibrary, "FILE2345") (registeredFile demoUpload 1) }

set_option maxRecDepth 4000 in
theorem demoAuthorize_runs {ι : Type} [DecidableEq ι] (c : ι) : ∃ es,
    Run (Session.idle attachmentDatabase : Session demoServer ι) (es ++ [.commit
        (.authorizeUpload demoAuthorize) (.authorization (.authorized
          "00112233445566778899aabbccddeeff" false)) attachmentDatabase
        (pendingDatabase .authorized)])
      (Session.idle (pendingDatabase .authorized)) ∧ ∀ e ∈ es, ∃ r q v, e = .stmt r q v := by
  obtain ⟨es, run, stmts⟩ := Run.alone (S := demoServer) (s := attachmentDatabase)
    (r := .authorizeUpload demoAuthorize) c 10 rfl rfl (pendingDatabase_valid .authorized)
  exact ⟨es, run, fun e he => ⟨_, stmts e he⟩⟩

set_option maxRecDepth 4000 in
theorem demoRegister_runs {ι : Type} [DecidableEq ι] (c : ι) : ∃ es,
    Run (Session.idle (pendingDatabase .uploaded) : Session demoServer ι) (es ++ [.commit
        demoRegister (.registration (.done 1)) (pendingDatabase .uploaded) registeredDatabase])
      (Session.idle registeredDatabase) ∧ ∀ e ∈ es, ∃ r q v, e = .stmt r q v := by
  obtain ⟨es, run, stmts⟩ := Run.alone (S := demoServer) (s := pendingDatabase .uploaded)
    (r := demoRegister) c 30 rfl rfl (by constructor <;> decide)
  exact ⟨es, run, fun e he => ⟨_, stmts e he⟩⟩

end Xotero
