import Xotero.Handlers.Authorization
import Xotero.Store.Stamps
import Xotero.Store.Visible

/-!
Libraries do not see one another, even where they share object keys: an
operation in the scope of a library leaves every other one as it was, and a read
in its scope depends on its own rows only.
-/

namespace Xotero

open Session (Run)

/-- The library in whose scope a request is made. -/
def Request.scope : Request → Option LibraryId
  | .guarded L _ _ => some L
  | .registerFile _ _ access _ _ => some access.libraryId
  | .authorizeUpload r => some r.access.libraryId
  | .administer _ => none

/-- The states have the same rows of library `L`. -/
structure SameLibrary (L : LibraryId) (d d' : Database) : Prop where
  library : d.library.find? L = d'.library.find? L
  object : ∀ kind key, d.object.find? (L, kind, key) = d'.object.find? (L, kind, key)
  setting : ∀ key, d.setting.find? (L, key) = d'.setting.find? (L, key)
  deletion : ∀ kind key, d.deletion.find? (L, kind, key) = d'.deletion.find? (L, kind, key)
  file : ∀ key, d.file.find? (L, key) = d'.file.find? (L, key)
  fulltext : ∀ key, d.fulltext.find? (L, key) = d'.fulltext.find? (L, key)

theorem LibraryAgree.same {L : LibraryId} {d d' : Database} (h : LibraryAgree L d d') :
    SameLibrary L d d' where
  library := h.library
  object := h.find?_object
  setting key := Table.find?_eq_of_part_eq h.setting (inLibrary_self L key)
  deletion kind key := Table.find?_eq_of_part_eq h.deletion (inLibrary_self L (kind, key))
  file := h.find?_file
  fulltext key := Table.find?_eq_of_part_eq h.fulltext (inLibrary_self L key)

/-- Notes included, every row is visible. -/
theorem SameLibrary.rows {L : LibraryId} {d d' : Database} (h : SameLibrary L d d') :
    SameRows L true d d' where
  version := congrArg _ h.library
  object kind key := congrArg _ (h.object kind key)
  setting := h.setting
  deletion := h.deletion
  file := h.file
  fulltext := h.fulltext

/-! ### Operations -/

section Operations
variable {digests : Digests} {config : Config} {d d' : Database} {L M : LibraryId}

theorem aims_endingWith {α : Type} {K : List RowId} {f : α → Reply} {p : Txn Db (Ending α)}
    (h : p.Aims K) : (endingWith f p).Aims K :=
  Txn.aims_bind h fun _ => trivial

theorem aims_guarded (L : LibraryId) (expected : Option Int) (op : GuardedOp) :
    (op.program L expected).Aims [RowId.library L] := by
  have shape := guardedShape L expected op
  revert shape
  generalize op.program L expected = p
  intro shape
  cases shape with
  | unchanged drops =>
      refine Txn.aims_bind ((readOnly_noChange L expected).aims _) fun o => ?_
      obtain ⟨b, same⟩ := drops o
      rw [same]
      trivial
  | locked inside => exact (Txn.scoped_bind (scoped_guardedVersion L expected) inside).aims

theorem readOnly_lockUploadAuthorities (upload : PendingUpload) (context : RequestContext) :
    (lockUploadAuthorities digests config upload context).ReadOnly := by
  refine Txn.readOnly_bind (readOnly_of_lookups (avoids_discoverAuthorities _ _))
    fun authorities => ?_
  cases authorities with
  | none => trivial
  | some authorities =>
      refine Txn.readOnly_bind (readOnly_lockLibraries _ _ _) fun current => ?_
      cases current with
      | none => trivial
      | some current =>
          exact Txn.readOnly_bind (readOnly_lockAuthorityRows _ _ _ _) fun _ =>
            Txn.readOnly_ite trivial trivial

theorem aims_registerFile (token : Digest) (itemKey : String) (access : LibraryAccess)
    (context : RequestContext) (now : Int) :
    (registerFile digests config token itemKey access context now).Aims
      [RowId.library access.libraryId, RowId.pendingUpload token] := by
  have discarded : (execute (.discardUpload token)).Aims
      [RowId.library access.libraryId, RowId.pendingUpload token] :=
    (scoped_execute ((scopedStmt_of_token rfl).mono (by simp))).aims
  refine Txn.aims_bind ((readOnly_execute fun _ => rfl).aims _) fun row => ?_
  cases row with
  | none => trivial
  | some row =>
      refine Txn.aims_ite (Txn.aims_bind discarded fun _ => trivial) (Txn.aims_ite trivial ?_)
      refine Txn.aims_bind ((readOnly_lockUploadAuthorities _ context).aims _) fun current => ?_
      cases current with
      | none => trivial
      | some current => exact scoped_registerLocked.aims

theorem aims_createPendingUpload (token : Digest) (upload : PendingUpload) (now : Int) :
    (createPendingUpload token upload now).Aims [RowId.pendingUpload token] := by
  refine Txn.aims_bind ?_ fun created => Txn.aims_ite trivial trivial
  unfold execute
  split
  · refine ⟨fun s w hw => ?_, fun _ => trivial⟩
    simp only [Sql.writes] at hw
    split at hw
    · cases hw
    · obtain rfl := List.mem_singleton.mp hw
      simp [Write.target]
  · trivial

theorem aims_authorizeUpload (r : AuthorizeRequest) :
    (authorizeUpload digests r).Aims
      [RowId.pendingUpload (digests.sha256 (r.token.getD ""))] := by
  have current : (currentVersion r.access.libraryId).ReadOnly :=
    Txn.readOnly_bind (readOnly_execute fun _ => rfl) fun _ => readOnly_fetchOne
  unfold authorizeUpload
  refine Txn.aims_ite trivial (Txn.aims_ite trivial ?_)
  have present : (storedFileAttachmentExists r.access.libraryId r.key).ReadOnly :=
    Txn.readOnly_bind (readOnly_execute fun _ => rfl) fun _ => trivial
  refine Txn.aims_bind (present.aims _) fun present => Txn.aims_ite trivial ?_
  refine Txn.aims_bind ((readOnly_execute fun _ => rfl).aims _) fun file => Txn.aims_ite trivial ?_
  split
  · exact Txn.aims_bind (current.aims _) fun _ => trivial
  · exact Txn.aims_bind (current.aims _) fun _ => trivial
  · split
    · rename_i token candidateId same _
      rw [same]
      exact Txn.aims_bind (aims_createPendingUpload _ _ _) fun _ => trivial
    · trivial

/-- A request leaves every other library as it was, in whatever state it runs. -/
theorem Request.isolated {r : Request} (scope : r.scope = some L) (other : M ≠ L)
    {e : Ending Reply} (run : (r.program digests config).run d = some (d', e)) :
    SameLibrary M d d' := by
  refine LibraryAgree.same ?_
  cases r with
  | guarded N expected op =>
      obtain rfl := Option.some.inj scope
      exact (aims_guarded N expected op).frame (k := RowId.library M) (by simpa using other) run
  | registerFile token itemKey access context now =>
      obtain rfl := Option.some.inj scope
      exact (aims_endingWith (aims_registerFile token itemKey access context now)).frame
        (k := RowId.library M) (by simpa using other) run
  | authorizeUpload r =>
      exact (aims_endingWith (aims_authorizeUpload r)).frame (k := RowId.library M) (by simp) run
  | administer => cases scope

end Operations

/-- In any interleaving, too, a commit in the scope of one library leaves the
others as they were. -/
theorem commit_isolated {digests : Digests} {config : Config} {ι : Type} [DecidableEq ι]
    {σ₀ σ : Session (server digests config) ι} {events : List (Event (server digests config))}
    (run : Run σ₀ events σ) (starts : Starts σ₀) {r : Request} {a : Reply} {d d' : Database}
    (he : .commit r a d d' ∈ events) {L M : LibraryId} (scope : r.scope = some L)
    (other : M ≠ L) : SameLibrary M d d' := by
  refine LibraryAgree.same ?_
  cases (commit_plainEffect run starts he).2 with
  | guarded committed =>
      obtain rfl := Option.some.inj scope
      exact committed.after ▸ (setVersion_agree other.symm).trans (edits_agree other.symm _)
  | registered registered =>
      obtain rfl := Option.some.inj scope
      rcases registered.change with ⟨unchanged, -⟩ | ⟨upload, -, -, after⟩
      · exact unchanged M
      · exact (next_agree other.symm _ _).trans (after M)
  | authorized authorized => exact authorized.after ▸ withPending_agree _ _
  | administered => cases scope

/-! ### Reads -/

/-- The reads of the store. -/
inductive StoreRead where
  | versions (kind : ObjectKind) (since : Int) (includeNotes : Bool)
  | topVersions (since : Int) (includeNotes : Bool)
  | objects (kind : ObjectKind) (keys : List String) (includeNotes : Bool)
  | queryItems (locale : Locale) (q : ItemQuery) (includeNotes : Bool)
  | itemKeys (locale : Locale) (q : ItemQuery) (includeNotes : Bool)
  | tags (locale : Locale)
  | settings
  | deleted (since : Int)
  | fulltextVersions (since : Int)
  | fulltextItem (key : String)
  | fileMeta (key : String)
  | storedFileAttachmentExists (key : String)
  | currentVersion

inductive Answer where
  | value (v : Value)
  | page (items : List Value) (total : Nat)
  | keys (keys : List String)
  | fulltext (row : Option (Int × Value))
  | file (file : Option FileMeta)
  | exists (present : Bool)
  | version (n : Int)

/-- The same answer; of rows without an order, the same rows. -/
inductive Answer.Same : Answer → Answer → Prop where
  | refl (a : Answer) : Same a a
  | value {v w : Value} (same : Value.Same v w) : Same (.value v) (.value w)

def StoreRead.program (L : LibraryId) : StoreRead → Txn Db Answer
  | .versions kind since includeNotes => do
      return .value (← Xotero.versions L kind since includeNotes)
  | .topVersions since includeNotes => do return .value (← Xotero.topVersions L since includeNotes)
  | .objects kind keys includeNotes => do
      return .value (← Xotero.objects L kind keys includeNotes)
  | .queryItems locale q includeNotes => do
      let (items, total) ← Xotero.queryItems locale L q includeNotes
      return .page items total
  | .itemKeys locale q includeNotes => do
      return .keys (← Xotero.itemKeys locale L q includeNotes)
  | .tags locale => do return .value (← Xotero.tags locale L)
  | .settings => do return .value (← Xotero.settings L)
  | .deleted since => do return .value (← Xotero.deleted L since)
  | .fulltextVersions since => do return .value (← Xotero.fulltextVersions L since)
  | .fulltextItem key => do return .fulltext (← Xotero.fulltextItem L key)
  | .fileMeta key => do return .file (← execute (.fileMeta L key))
  | .storedFileAttachmentExists key => do
      return .exists (← Xotero.storedFileAttachmentExists L key)
  | .currentVersion => do return .version (← Xotero.currentVersion L)

section Reads
variable {L : LibraryId} {α : Type} {S : α → α → Prop} {p : Txn Db α} {f : α → Answer}

theorem alike_answer (h : ReadsAlike L true Eq p) :
    ReadsAlike L true Answer.Same (do return f (← p)) :=
  Txn.alike_bind h fun a b same => by
    obtain rfl : a = b := same
    exact Txn.alike_ret (.refl _)

theorem alike_value {p : Txn Db Value} (h : ReadsAlike L true Value.Same p) :
    ReadsAlike L true Answer.Same (do return .value (← p)) :=
  Txn.alike_bind h fun _ _ same => Txn.alike_ret (.value same)

theorem alike_storeRead (read : StoreRead) : ReadsAlike L true Answer.Same (read.program L) := by
  have all {includeNotes : Bool} : includeNotes = true → true = true := fun _ => rfl
  cases read with
  | versions kind since => exact alike_value (alike_versions all kind since)
  | topVersions since => exact alike_value (alike_topVersions all since)
  | objects kind keys => exact alike_value (alike_objects all kind keys)
  | queryItems locale q => exact alike_answer (alike_queryItems all locale q)
  | itemKeys locale q => exact alike_answer (alike_itemKeys all locale q)
  | tags locale => exact alike_answer (alike_tags locale) (f := .value)
  | settings => exact alike_value alike_settings
  | deleted since => exact alike_value (alike_deleted since)
  | fulltextVersions since => exact alike_value (alike_fulltextVersions since)
  | fulltextItem key => exact alike_answer (alike_fulltextItem key)
  | fileMeta key =>
      exact alike_answer (alike_execute (q := .fileMeta L key) rfl) (f := .file)
  | storedFileAttachmentExists key =>
      refine alike_answer (f := .exists) (alike_read (q := .objectData L .item key)
        ⟨rfl, fun _ => rfl⟩ fun data data' same => ?_)
      obtain rfl : data = data' := same
      rfl
  | currentVersion => exact alike_answer alike_currentVersion

end Reads

/-- Whatever the state, an operation in the scope of a library changes no row of
another one, and a read in its scope is answered alike in states with the same
rows of the library. -/
theorem libraries_isolated (digests : Digests) (config : Config) (L : LibraryId) :
    (∀ (r : Request) (d d' : Database) (e : Ending Reply), r.scope = some L →
      (r.program digests config).run d = some (d', e) → ∀ M, M ≠ L → SameLibrary M d d') ∧
    ∀ (read : StoreRead) (states states' : List Database),
      List.Forall₂ (SameLibrary L) states states' →
      Option.Rel Answer.Same ((read.program L).replay states) ((read.program L).replay states') :=
  ⟨fun _ _ _ _ scope run _ other => Request.isolated scope other run,
    fun read _ _ same => (alike_storeRead read).replay (same.imp fun _ _ h => h.rows.twin)⟩

/-- Two libraries with an item of the same key. -/
def sharedDatabase : Database :=
  { newDatabase with
    library := newDatabase.library.put otherLibrary ⟨5, .personal⟩
    object := (newDatabase.object.put (newLibrary, .item, "TEXT2345")
      ⟨0, .object [("note", .string "ours"), ("itemType", .string "note")]⟩).put
      (otherLibrary, .item, "TEXT2345")
      ⟨5, .object [("note", .string "theirs"), ("itemType", .string "note")]⟩ }

/-- A write of one of the two items leaves the other, and what is read of it. -/
theorem libraries_isolated_shared : ∃ d' e,
    (noteRequest.program plainDigests plainConfig).run sharedDatabase = some (d', e) ∧
    SameLibrary otherLibrary sharedDatabase d' ∧
    Option.Rel Answer.Same
      (((StoreRead.objects .item ["TEXT2345"] true).program otherLibrary).replay [sharedDatabase])
      (((StoreRead.objects .item ["TEXT2345"] true).program otherLibrary).replay [d']) := by
  refine ⟨_, _, rfl, ?_⟩
  have same := (libraries_isolated plainDigests plainConfig newLibrary).1 noteRequest
    sharedDatabase _ _ rfl rfl otherLibrary (by decide)
  exact ⟨same, (libraries_isolated plainDigests plainConfig otherLibrary).2 _ _ _
    (.cons same .nil)⟩

end Xotero
