import Xotero.Handlers.Authorization
import Xotero.Store.Commits
import Xotero.Store.Registration

/-!
Every commit of every interleaving, by what it does to the database. The server
locks what it writes, so a request that commits has its whole effect in the
state it commits to.
-/

namespace Xotero

/-! Administrative transactions -/

theorem disciplined_administer (ws : List AccountWrite) (held : List (RowLock RowId)) :
    (administer ws).Disciplined (fun _ _ => True) held := by
  induction ws generalizing held with
  | nil => trivial
  | cons w ws ih =>
      refine Txn.disciplined_bind (disciplined_execute (q := .account w) (fun d w' hw => ?_)
        fun d => ih _)
      exact List.mem_append_right _ (List.mem_map.mpr ⟨w', hw, rfl⟩)

theorem ensures_administer {A : Sql → Database → Prop} (ws : List AccountWrite)
    (held : List (RowLock RowId)) (log : List Write) (s : Database) :
    Ensures (D := Db) A (fun e _ log' _ => e = .commit .administered ∧
      log' = log ++ ws.map .account) (administer ws) held log s := by
  induction ws generalizing held log s with
  | nil => exact fun _ _ => ⟨rfl, by simp⟩
  | cons w ws ih =>
      intro d _ _
      refine (ih _ _ d).imp fun e _ log' _ post => ⟨post.1, post.2.trans ?_⟩
      simp [Sql.writes]

/-! The statements that run alone lock the rows they write -/

theorem covered_of_upload {q : Sql} (h : q.isUploadStatement) (d : Database) :
    ∀ w ∈ q.writes d, ⟨w.target, .update⟩ ∈ q.locks d := by
  intro w hw
  cases q <;> first
    | exact List.mem_map.mpr ⟨w, hw, rfl⟩
    | simp [Sql.isUploadStatement] at h

section Server
variable {digests : Digests} {config : Config}

theorem disciplined_endingWith {α : Type} {f : α → Reply} {p : Txn Db (Ending α)}
    (h : p.Disciplined (fun _ _ => True) []) :
    (endingWith f p).Disciplined (fun _ _ => True) [] :=
  Txn.disciplined_bind (Txn.disciplined_imp h fun _ _ _ => trivial)

theorem server_wellLocked : (server digests config).WellLocked where
  program r := by
    cases r with
    | guarded L expected op => exact (guardedShape L expected op).disciplined
    | registerFile => exact disciplined_endingWith disciplined_registerFile
    | authorizeUpload => exact disciplined_endingWith disciplined_authorizeUpload
    | administer ws => exact disciplined_administer ws []
  auto h d := covered_of_upload h d

/-- What a request that commits has done. `A` holds of the views its statements
read; `P` is what its authority check keeps true. -/
inductive Effect (A : Request → Sql → Database → Prop)
    (P : Request → PendingUpload → Database → Prop) (digests : Digests) :
    Request → Reply → Database → Database → Prop where
  | guarded {L : LibraryId} {expected : Option Int} {op : GuardedOp} {a : Reply}
      {d d' : Database} (committed : Committed L expected op.edits d d')
      (version : a.doneVersion = some (d.version L + 1)) (nonempty : op.edits ≠ []) :
      Effect A P digests (.guarded L expected op) a d d'
  | registered {token : Digest} {itemKey : String} {access : LibraryAccess}
      {context : RequestContext} {now : Int} {o : FileRegistrationOutcome} {d d' : Database}
      (registered : Registered (P (.registerFile token itemKey access context now)) token itemKey
        access now d d' o) :
      Effect A P digests (.registerFile token itemKey access context now) (.registration o) d d'
  | authorized {r : AuthorizeRequest} {token candidateId : String} {view d d' : Database}
      (authorized : Authorized (A (.authorizeUpload r)) digests r token candidateId view d d') :
      Effect A P digests (.authorizeUpload r)
        (.authorization (.authorized token r.compressed)) d d'
  | administered {ws : List AccountWrite} {d d' : Database}
      (after : d' = (ws.map Write.account).foldl Database.apply d) :
      Effect A P digests (.administer ws) .administered d d'

variable {A : Request → Sql → Database → Prop}
  {P : Request → PendingUpload → Database → Prop}

theorem ensures_endingWith {α : Type} {B : Sql → Database → Prop} {f : α → Reply}
    {p : Txn Db (Ending α)} {s : Database} {Q : Reply → Database → Database → Prop}
    (h : Ensures (D := Db) B (fun e _ log d => ∀ a, e = .commit a →
      Q (f a) d (log.foldl Database.apply d)) p [] [] s) :
    Ensures (D := Db) B (fun e _ log d => ∀ a, e = .commit a →
      Q a d (log.foldl Database.apply d)) (endingWith f p) [] [] s := by
  refine Ensures.map (h.imp fun e _ log d post a same => ?_)
  cases e with
  | commit b =>
      obtain rfl := Ending.commit.inj same
      exact post b rfl
  | drop b => cases same

theorem specified (secures : ∀ token itemKey access context now,
      Secures (A (.registerFile token itemKey access context now))
        (P (.registerFile token itemKey access context now)) digests config context) :
    Session.Specified (server digests config) A (fun r e _ log d => ∀ a, e = .commit a →
      Effect A P digests r a d (log.foldl Database.apply d)) where
  ensures r s valid := by
    cases r with
    | guarded L expected op =>
        refine ((guardedShape L expected op).ensures s).imp fun e _ log d h a same => ?_
        obtain ⟨committed, version, nonempty⟩ :=
          guarded_run (Txn.run_of_collect (same ▸ h a same))
        exact .guarded committed version nonempty
    | registerFile token itemKey access context now =>
        refine ensures_endingWith ?_
        refine (ensures_registerFile (secures token itemKey access context now) valid).imp ?_
        exact fun e _ log d h o same => .registered (h o same)
    | authorizeUpload r =>
        refine ensures_endingWith ((ensures_authorizeUpload s).imp fun e _ log d h o same => ?_)
        obtain ⟨token, candidateId, view, rfl, authorized⟩ := h o same
        exact .authorized authorized
    | administer ws =>
        refine (ensures_administer ws [] [] s).imp fun e _ log d h a same => ?_
        obtain ⟨rfl, rfl⟩ := h
        obtain rfl := Ending.commit.inj same
        exact .administered rfl

end Server

end Xotero
