import Xotero.Handlers.Authorization
import Xotero.Store.Constraints

/-!
An authorization alone: the checks it passes before its pending upload is stored,
and what of the form can make the insert fail.
-/

namespace Xotero

/-- The request passes every check before its pending upload is stored. -/
structure AuthorizeRequest.Reaches (r : AuthorizeRequest) (d : Database) : Prop where
  key : validKey r.key = true
  precondition : r.ifNoneMatch = true ∨ r.ifMatch.isSome
  attachment : (d.stored r.access.libraryId .item r.key).any isStoredFileAttachment = true
  zip : r.zipMd5.isSome = r.zipFilename.isSome
  proceed : filePrecondition r.ifNoneMatch r.ifMatch
    ((Sql.eval (.fileMeta r.access.libraryId r.key) d).map FileMeta.md5) r.md5 = .proceed

/-- What the form must not hold. -/
structure AuthorizeRequest.Storable (r : AuthorizeRequest) : Prop where
  md5 : storable r.md5 = true
  uploadMd5 : storable (r.zipMd5.getD r.md5) = true
  filename : storable ((r.form.get "filename").getD "") = true
  filesize : 0 ≤ r.integer "filesize"

/-- The caller's access, and what is drawn for it. -/
structure AuthorizeRequest.Ready (r : AuthorizeRequest) (digests : Digests)
    (access : LibraryAccess) (d : Database) : Prop where
  caller : r.access = access
  group : ∀ g ∈ access.groupId, (d.groups.find? g).isSome
  user : (d.users.find? r.context.principal.userId).isSome
  sha256 : ∀ text, (digests.sha256 text).length = 32
  drawn : ∃ token candidateId, r.token = some token ∧ r.candidateId = some candidateId ∧
    storable candidateId = true ∧ d.pendingUploads.find? (digests.sha256 token) = none ∧
    ∀ e ∈ d.pendingUploads.rows,
      e.2.upload.blobKey ≠ uploadStorageKey access.libraryId candidateId

theorem storable_append {s t : String} :
    storable (s ++ t) = true ↔ storable s = true ∧ storable t = true := by
  simp [storable, List.all_append]

theorem storable_uploadStorageKey (L : LibraryId) {id : String} (text : storable id = true) :
    storable (uploadStorageKey L id) = true := by
  have number : storable (toString L.get) = true := by
    obtain ⟨n, hn⟩ := Int.eq_ofNat_of_zero_le (Int.le_of_lt L.positive)
    rw [hn, storable, List.all_eq_true]
    intro c mem
    have mem : c ∈ (Nat.repr n).toList := mem
    rw [Nat.repr_eq_ofList_toDigits, String.toList_ofList] at mem
    have digit : c.isDigit = true := Nat.isDigit_of_mem_toDigits (by decide) (by decide) mem
    refine decide_eq_true fun zero => ?_
    obtain rfl : c = '\x00' := Char.toNat_inj.mp zero
    cases digit
  exact storable_append.mpr ⟨storable_append.mpr ⟨storable_append.mpr ⟨by decide, number⟩,
    by decide⟩, text⟩

theorem nonblank_uploadStorageKey (L : LibraryId) (id : String) :
    nonblank (uploadStorageKey L id) = true := by
  simp [nonblank, uploadStorageKey]

theorem validKey_text {key : String} (h : validKey key = true) :
    storable key = true ∧ nonblank key = true := by
  simp only [validKey, Bool.and_eq_true, decide_eq_true_eq] at h
  obtain ⟨⟨nonempty, -⟩, letters⟩ := h
  have letters : ∀ c ∈ key.toList, c.isAlphanum = true := List.all_eq_true.mp letters
  constructor
  · rw [storable, List.all_eq_true]
    refine fun c mem => decide_eq_true fun zero => ?_
    obtain rfl : c = '\x00' := Char.toNat_inj.mp zero
    cases letters _ mem
  · obtain ⟨c, mem⟩ : ∃ c, c ∈ key.toList := by
      refine List.exists_mem_of_ne_nil _ fun empty => nonempty ?_
      exact String.toList_injective empty
    refine List.any_eq_true.mpr ⟨c, mem, decide_eq_true fun blank => ?_⟩
    rw [blank] at mem
    cases letters _ mem

section Authorize
variable {digests : Digests} {access : LibraryAccess} {d : Database} {r : AuthorizeRequest}
  {candidateId : String}

theorem storable_fileMeta (typed : d.Typed) (L : LibraryId) (key : String) :
    ∀ m ∈ (Sql.eval (.fileMeta L key) d).map FileMeta.md5, storable m = true := by
  intro m mem
  simp only [Sql.eval, Option.mem_def, Option.map_eq_some_iff] at mem
  obtain ⟨file, found, rfl⟩ := mem
  split at found
  · rename_i row o stored _
    split at found
    · obtain rfl := Option.some.inj found
      exact typed.file (L, key) row stored
    · cases found
  · cases found

/-- Of the row that an authorization inserts only the form's own values can be
refused. -/
theorem upload_checked (ready : r.Ready digests access d) (typed : d.Typed)
    (key : validKey r.key = true) (text : storable candidateId = true) :
    (r.upload digests ((Sql.eval (.fileMeta r.access.libraryId r.key) d).map FileMeta.md5)
      candidateId).checked = true ↔ r.Storable := by
  obtain ⟨item, nonempty⟩ := validKey_text key
  have blob := storable_uploadStorageKey r.access.libraryId text
  have expected : ((if r.ifNoneMatch then none else
      (Sql.eval (.fileMeta r.access.libraryId r.key) d).map FileMeta.md5).all storable) = true := by
    split
    · rfl
    · rcases Option.eq_none_or_eq_some ((Sql.eval (.fileMeta r.access.libraryId r.key) d).map
        FileMeta.md5) with absent | ⟨m, found⟩
      · rw [absent]
        rfl
      · rw [found]
        exact storable_fileMeta typed _ _ m found
  simp only [PendingUpload.checked, AuthorizeRequest.upload, List.all_cons, List.all_nil,
    Bool.and_true, Bool.and_eq_true, decide_eq_true_eq, item, nonempty, blob, expected,
    ready.sha256, nonblank_uploadStorageKey, true_and, and_true]
  constructor
  · rintro ⟨⟨md5, uploadMd5, filename⟩, filesize⟩
    exact ⟨md5, uploadMd5, filename, of_decide_eq_true filesize⟩
  · intro h
    exact ⟨⟨h.md5, h.uploadMd5, h.filename⟩, decide_eq_true h.filesize⟩

/-- What is left of an authorization whose item is a stored file. -/
def AuthorizeRequest.rest (digests : Digests) (r : AuthorizeRequest) (storedMd5 : Option String) :
    Txn Db (Ending AuthorizeOutcome) :=
  if r.zipMd5.isSome ≠ r.zipFilename.isSome then return .drop .zipFieldsApart
  else
    match filePrecondition r.ifNoneMatch r.ifMatch storedMd5 r.md5 with
    | .alreadyExists => do return .drop (.alreadyExists (← currentVersion r.access.libraryId))
    | .conflict => do return .drop (.conflict (← currentVersion r.access.libraryId))
    | .proceed =>
        match r.token, r.candidateId with
        | some token, some candidateId => do
            createPendingUpload (digests.sha256 token) (r.upload digests storedMd5 candidateId)
              r.now
            return .commit (.authorized token r.compressed)
        | _, _ => return .drop .noRandomness

theorem authorizeUpload_eq : (authorizeUpload digests r).run d =
    if validKey r.key = true then
      if r.ifNoneMatch = true ∨ r.ifMatch.isSome then
        if (d.stored r.access.libraryId .item r.key).any isStoredFileAttachment = true then
          (r.rest digests ((Sql.eval (.fileMeta r.access.libraryId r.key) d).map
            FileMeta.md5)).run d
        else some (d, .drop .notFound)
      else some (d, .drop .preconditionRequired)
    else some (d, .drop .invalidKey) := by
  by_cases key : validKey r.key = true
  · have text := (validKey_text key).1
    have taken (q : Sql) (same : q.accepted = storable r.key) : q.accepted = true :=
      same.trans text
    rw [authorizeUpload, if_neg (by simp [key]), if_pos key]
    by_cases precondition : r.ifNoneMatch = true ∨ r.ifMatch.isSome
    · have given : ¬ (!r.ifNoneMatch && r.ifMatch.isNone) = true := by
        cases hn : r.ifNoneMatch <;> cases hm : r.ifMatch <;> simp_all
      rw [if_neg given, if_pos precondition, storedFileAttachmentExists, Txn.bind_assoc,
        execute_bind_eq, if_pos (taken _ rfl)]
      change Txn.run (D := Db) (if (!(d.stored r.access.libraryId .item r.key).any
        isStoredFileAttachment) = true then _ else _) d = _
      by_cases attachment : (d.stored r.access.libraryId .item r.key).any
        isStoredFileAttachment = true
      · rw [if_neg (by simp [attachment]), if_pos attachment, execute_bind_eq,
          if_pos (taken _ rfl)]
        rfl
      · rw [if_pos (by simpa using attachment), if_neg attachment]
        rfl
    · have missing : (!r.ifNoneMatch && r.ifMatch.isNone) = true := by
        cases hn : r.ifNoneMatch <;> cases hm : r.ifMatch <;> simp_all
      rw [if_pos missing, if_neg precondition]
      rfl
  · rw [authorizeUpload, if_pos (by simpa using key), if_neg key]
    rfl

theorem currentVersion_run {L : LibraryId} (known : (d.library.find? L).isSome) :
    ∃ n, (currentVersion L).run d = some (d, n) := by
  obtain ⟨row, found⟩ := Option.isSome_iff_exists.mp known
  refine ⟨row.version, ?_⟩
  show Txn.run (D := Db) (fetchOne ((d.library.find? L).map Library.version)) d = _
  rw [found]
  rfl

theorem rest_refused (known : (d.library.find? r.access.libraryId).isSome)
    {storedMd5 : Option String} (refused : ¬ (r.zipMd5.isSome = r.zipFilename.isSome ∧
      filePrecondition r.ifNoneMatch r.ifMatch storedMd5 r.md5 = .proceed)) :
    ∃ o, (r.rest digests storedMd5).run d = some (d, .drop o) := by
  obtain ⟨n, current⟩ := currentVersion_run known
  rw [AuthorizeRequest.rest]
  split
  · exact ⟨_, rfl⟩
  · rename_i together
    split
    · exact ⟨_, by rw [Txn.run_bind, current]; rfl⟩
    · exact ⟨_, by rw [Txn.run_bind, current]; rfl⟩
    · rename_i proceed
      exact absurd ⟨not_not.mp together, proceed⟩ refused

theorem rest_inserts {storedMd5 : Option String} {token : String}
    (zip : r.zipMd5.isSome = r.zipFilename.isSome)
    (proceed : filePrecondition r.ifNoneMatch r.ifMatch storedMd5 r.md5 = .proceed)
    (drawn : r.token = some token) (candidate : r.candidateId = some candidateId)
    (length : (digests.sha256 token).length = 32)
    (new : d.pendingUploads.find? (digests.sha256 token) = none) :
    (r.rest digests storedMd5).run d =
      if (r.upload digests storedMd5 candidateId).checked = true then
        some (d.apply (.pendingUpload (digests.sha256 token) (some
          ⟨{ r.upload digests storedMd5 candidateId with state := .authorized }, r.now,
            r.now + hour, none⟩)), .commit (.authorized token r.compressed))
      else none := by
  have accepted : (Sql.createPendingUpload (digests.sha256 token)
      (r.upload digests storedMd5 candidateId) r.now).accepted =
        (r.upload digests storedMd5 candidateId).checked := by
    rw [Sql.accepted, decide_eq_true length, Bool.true_and]
  rw [AuthorizeRequest.rest, if_neg (not_not.mpr zip), proceed, drawn, candidate]
  show Txn.run (D := Db) (createPendingUpload _ _ _ >>= _) d = _
  rw [createPendingUpload, Txn.bind_assoc, execute_bind_eq, accepted]
  split
  · simp only [Sql.eval, Sql.writes, new, Option.isNone_none, if_true, List.foldl_cons,
      List.foldl_nil]
    rfl
  · rfl

end Authorize

end Xotero
