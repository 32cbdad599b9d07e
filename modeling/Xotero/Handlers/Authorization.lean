import Xotero.Store.Server

/-!
Authorization under interference: the file row it has read may be stale when the
pending upload is stored, so its outcome names the view it was read in.
-/

namespace Xotero

/-- What an authorization that commits has done. `A` holds of the view in which
it read the file row. -/
structure Authorized (A : Sql → Database → Prop) (digests : Digests) (r : AuthorizeRequest)
    (token candidateId : String) (view d d' : Database) : Prop where
  seen : A (.fileMeta r.access.libraryId r.key) view
  precondition : r.ifNoneMatch = true ∨ r.ifMatch.isSome
  proceed : filePrecondition r.ifNoneMatch r.ifMatch
    ((Sql.eval (.fileMeta r.access.libraryId r.key) view).map FileMeta.md5) r.md5 = .proceed
  token_eq : r.token = some token
  candidate_eq : r.candidateId = some candidateId
  fresh : d.pendingUploads.find? (digests.sha256 token) = none
  after : d' = d.apply (.pendingUpload (digests.sha256 token) (some {
    upload := r.upload digests
      ((Sql.eval (.fileMeta r.access.libraryId r.key) view).map FileMeta.md5) candidateId
    createdAt := r.now
    expiresAt := r.now + hour
    gcAttemptedAt := none }))

section
variable {A : Sql → Database → Prop} {digests : Digests} {r : AuthorizeRequest}

theorem readOnly_storedFileAttachmentExists (L : LibraryId) (key : String) :
    (storedFileAttachmentExists L key).ReadOnly :=
  Txn.readOnly_bind (readOnly_execute fun _ => rfl) fun _ => trivial

theorem readOnly_currentVersion (L : LibraryId) : (currentVersion L).ReadOnly :=
  Txn.readOnly_bind (readOnly_execute fun _ => rfl) fun _ => readOnly_fetchOne

/-- An insert that goes through holds the lock of its row to the end. -/
theorem ensures_createPendingUpload (token : Digest) (upload : PendingUpload) (now : Int)
    (held : List (RowLock RowId)) (s : Database) :
    Ensures (D := Db) A (fun _ held' log d => ⟨.pendingUpload token, .update⟩ ∈ held' ∧
        d.pendingUploads.find? token = none ∧
        log = [.pendingUpload token
          (some ⟨{ upload with state := .authorized }, now, now + hour, none⟩)])
      (createPendingUpload token upload now) held [] s := by
  refine ensures_execute_bind fun d i _ => ?_
  refine Ensures.ite (fun absent => ?_) fun _ => trivial
  have absent : d.pendingUploads.find? token = none := by simpa [Sql.eval] using absent
  intro d' i'
  simp only [Sql.locks, Sql.writes, absent] at i' ⊢
  have same : d.pendingUploads.find? token = d'.pendingUploads.find? token :=
    i'.2 ⟨.pendingUpload token, .update⟩ (by simp [Write.target])
  exact ⟨by simp [Write.target], same ▸ absent, by simp⟩

theorem ensures_authorizeUpload (s : Database) :
    Ensures (D := Db) A (fun e _ log d => ∀ o, e = Ending.commit o → ∃ token candidateId view,
        o = AuthorizeOutcome.authorized token r.compressed ∧
          Authorized A digests r token candidateId view d (log.foldl Database.apply d))
      (authorizeUpload digests r) [] [] s := by
  refine Ensures.ite (fun _ _ _ o same => nomatch same) fun _ => ?_
  refine Ensures.ite (fun _ _ _ o same => nomatch same) fun precondition => ?_
  refine Ensures.bind
    ((Ensures.of_readOnly (readOnly_storedFileAttachmentExists _ _) _ _ _).imp ?_)
  rintro item held log d rfl
  refine Ensures.ite (fun _ _ _ o same => nomatch same) fun _ => ?_
  refine ensures_execute_bind fun view i seen => ?_
  refine Ensures.ite (fun _ _ _ o same => nomatch same) fun _ => ?_
  have dropped (p : Int → AuthorizeOutcome) (held : List (RowLock RowId)) (d : Database) :=
    Ensures.of_drops (D := Db) (A := A) (Q := fun o log d => ∃ token candidateId view,
        o = AuthorizeOutcome.authorized token r.compressed ∧
          Authorized A digests r token candidateId view d (log.foldl Database.apply d))
      (p := currentVersion r.access.libraryId >>= fun v => pure (Ending.drop (p v)))
      (Txn.ends_bind (Txn.ends_true _) fun _ _ => fun _ same => nomatch same) held [] d
  split
  · exact dropped _ _ _
  · exact dropped _ _ _
  · rename_i proceed
    split
    · rename_i token candidateId token_eq candidate_eq
      refine Ensures.bind ((ensures_createPendingUpload _ _ _ _ _).imp ?_)
      rintro _ held log d ⟨lock, absent, rfl⟩ d' i' o same
      obtain rfl := Ending.commit.inj same
      have kept : d.pendingUploads.find? (digests.sha256 token) =
        d'.pendingUploads.find? (digests.sha256 token) := i'.2 _ lock
      refine ⟨token, candidateId, view, rfl, seen, ?_, proceed, token_eq, candidate_eq,
        kept ▸ absent, rfl⟩
      cases hn : r.ifNoneMatch with
      | true => exact .inl rfl
      | false => exact .inr (by simpa [hn, Option.isSome_iff_ne_none] using precondition)
    · exact fun _ _ o same => nomatch same

theorem disciplined_authorizeUpload :
    (authorizeUpload digests r).Disciplined (fun _ _ => True) [] := by
  have reads {α : Type} {p : Txn Db α} {f : α → Txn Db (Ending AuthorizeOutcome)}
      (hp : p.ReadOnly) (hf : ∀ a held, (f a).Disciplined (fun _ _ => True) held)
      (held : List (RowLock RowId)) : (p >>= f).Disciplined (fun _ _ => True) held :=
    Txn.disciplined_bind (Txn.disciplined_imp (Txn.disciplined_of_readOnly hp)
      fun a held' _ => hf a held')
  unfold authorizeUpload
  split
  · trivial
  split
  · trivial
  refine reads (readOnly_storedFileAttachmentExists _ _) (fun item held => ?_) _
  split
  · trivial
  refine reads (readOnly_execute fun _ => rfl) (fun file held => ?_) _
  split
  · trivial
  dsimp only
  cases filePrecondition r.ifNoneMatch r.ifMatch (file.map FileMeta.md5) r.md5 with
  | alreadyExists | conflict =>
      refine reads (readOnly_currentVersion _) (fun _ _ => ?_) _
      trivial
  | proceed =>
      cases r.token with
      | none => trivial
      | some token =>
          cases r.candidateId with
          | none => trivial
          | some candidateId =>
              refine Txn.disciplined_bind (Txn.disciplined_bind
                (disciplined_execute ?_ fun d => ?_))
              · exact fun d w hw => List.mem_append_right _ (List.mem_map.mpr ⟨w, hw, rfl⟩)
              · split <;> trivial

end

end Xotero
