import Xotero.Guarantees.Attachments

/-!
What a registration knows of the time since its authorization. It compares the
digest of the file it replaces, so it notices when that file went away; nothing
it looks at tells a first upload that its attachment is another one.
-/

namespace Xotero

open Session (Run)

section Run
variable {digests : Digests} {config : Config} {ι : Type} [DecidableEq ι]
  {σ₀ σ : Session (server digests config) ι} {L : LibraryId} {key : String} {d d' : Database}
  {e : Event (server digests config)}

theorem remove_mem_edits {op : GuardedOp} (h : .remove .item key ∈ op.edits) :
    ∃ keys allow, op = .delete .item keys allow ∧ key ∈ keys := by
  cases op with
  | delete kind keys allow =>
      obtain ⟨key', mem, same⟩ := List.mem_map.mp h
      obtain ⟨rfl, rfl⟩ := Edit.remove.inj same
      exact ⟨keys, allow, rfl, mem⟩
  | write kind batch allow random =>
      obtain ⟨key', provided, same⟩ := mem_storeEdits h
      cases same
  | writeSettings | deleteSettings | deleteTags | writeFulltext => simp [GuardedOp.edits] at h

/-- An attachment stays one until a commit ends its identity. -/
theorem Change.attachment (h : Change L e d d') (attached : d.attachment L key = true)
    (kept : ¬ EndsIdentity L key e) : d'.attachment L key = true := by
  have other (expected : Option Int) (op : GuardedOp) (a : Reply)
      (same : e = .commit (Request.guarded L expected op) a d d')
      (apart : ∀ batch allow random, op ≠ .write .item batch allow random) :
      (d'.entry L key).attachment = true := by
    refine h.keeps (I := fun x => x.attachment = true) attached ?_ ?_
    · rintro expected' op' a' same' n x hx y attached
      obtain ⟨req, -⟩ := Event.commit.inj (same.symm.trans same')
      obtain ⟨-, rfl, rfl⟩ := Request.guarded.inj req
      rw [Entry.attachment_on]
      · exact attached
      · rintro provided rfl
        have stores : Request.Stores L key provided (.guarded L expected _) :=
          stores_of_mem_edits hx
        obtain ⟨_, batch, allow, random, write, -⟩ := stores
        exact apart batch allow random (Request.guarded.inj write).2.2
      · rintro rfl
        obtain ⟨keys, allow, rfl, named⟩ := remove_mem_edits hx
        exact kept (same ▸ .deleted named)
    · intro upload n _ item
      rw [Entry.attachment_on (e := .register key upload) (fun _ => nofun) nofun]
      exact item
  have entry := h
  cases h with
  | @guarded expected op a _ _ committed =>
      by_cases write : ∃ batch allow random, op = .write .item batch allow random
      · obtain ⟨batch, allow, random, rfl⟩ := write
        by_contra lost
        refine kept (.converted (List.append_nil _).symm ?_)
        have after := committed.after
        rw [← Bool.not_eq_true]
        exact after ▸ lost
      · exact other expected op a rfl fun batch allow random same =>
          write ⟨batch, allow, random, same⟩
  | @registered _ key' upload _ _ registers item after =>
      refine entry.keeps (I := fun x => x.attachment = true) attached ?_ ?_
      · rintro expected op a rfl
        cases registers
      · intro upload n _ item
        rw [Entry.attachment_on (e := .register key upload) (fun _ => nofun) nofun]
        exact item
  | apart same _ =>
      have same := same.entry key
      exact (congrArg Entry.attachment same).symm.trans attached

/-- The registration replaces a file, and no other one came between. -/
def ReplacesSame (L : LibraryId) (key : String) (token : Digest)
    (between : List (Event (server digests config))) (d : Database) : Prop :=
  (∃ row, d.pendingUploads.find? token = some row ∧ row.upload.expectedMd5.isSome) ∧
    ∀ e ∈ between, ¬ Registers L key e

/-- The authorization is for a live attachment whose identity no commit ends. -/
def Undisturbed (L : LibraryId) (key : String) (between : List (Event (server digests config)))
    (e : Database) : Prop :=
  e.attachment L key = true ∧ ∀ e ∈ between, ¬ EndsIdentity L key e

/-- At every moment of a part of a run that starts in `d` the key is a live
attachment. -/
def AttachedThroughout (L : LibraryId) (key : String)
    (between : List (Event (server digests config))) (d : Database) : Prop :=
  d.attachment L key = true ∧
    ∀ e ∈ between, ∀ s s', Session.Event.Moves e s s' → s'.attachment L key = true

theorem attachedThroughout_of_undisturbed {before between : List (Event (server digests config))}
    {σ₁ : Session (server digests config) ι} (run₁ : Run σ₀ before σ₁) (run₂ : Run σ₁ between σ)
    (starts : Starts σ₀) (attached : σ₁.state.attachment L key = true)
    (kept : ∀ e ∈ between, ¬ EndsIdentity L key e) :
    AttachedThroughout L key between σ₁.state := by
  have all : (∀ e ∈ between, ∀ s s', Session.Event.Moves e s s' → s'.attachment L key = true) ∧
      σ.state.attachment L key = true := by
    refine run₂.history (H := fun es d => (∀ e ∈ es, ∀ s s', Session.Event.Moves e s s' →
      s'.attachment L key = true) ∧ d.attachment L key = true) ⟨by simp, attached⟩ ?_ ?_
    · rintro es e s - still ⟨past, here⟩
      refine ⟨fun e' he' s s' moved => ?_, here⟩
      rcases List.mem_append.mp he' with old | new
      · exact past e' old s s' moved
      · obtain rfl := List.mem_singleton.mp new
        exact absurd moved (still s s')
    · rintro es e s s' earlier moved ⟨past, here⟩
      have mem : e ∈ between := earlier.subset (by simp)
      have change := change_of_event (run₁.trans run₂) starts L e
        (List.mem_append_right before mem) s s' moved
      have next := change.attachment here (kept e mem)
      refine ⟨fun e' he' t t' moved' => ?_, next⟩
      rcases List.mem_append.mp he' with old | new
      · exact past e' old t t' moved'
      · obtain rfl := List.mem_singleton.mp new
        cases moved <;> cases moved' <;> exact next
  exact ⟨attached, all.1⟩

/-- A file that is there was there ever since the last registration. -/
theorem file_between {before between : List (Event (server digests config))}
    {σ₁ : Session (server digests config) ι} (run₁ : Run σ₀ before σ₁) (run₂ : Run σ₁ between σ)
    (starts : Starts σ₀) (silent : ∀ e ∈ between, ¬ Registers L key e) {f : File}
    (found : (σ.state.entry L key).file = some f) : (σ₁.state.entry L key).file = some f := by
  refine kept_between run₁ run₂ starts L (I := fun d => (d.entry L key).file = some f →
    (σ₁.state.entry L key).file = some f) id ?_ found
  exact fun e he d d' change kept found => kept (change.file (silent e he) found)

theorem attachedThroughout_of_file {before between : List (Event (server digests config))}
    {σ₁ : Session (server digests config) ι} (run₁ : Run σ₀ before σ₁) (run₂ : Run σ₁ between σ)
    (starts : Starts σ₀) (fresh : Fresh L σ₀.state)
    (silent : ∀ e ∈ between, ¬ Registers L key e) {f : File}
    (found : (σ.state.entry L key).file = some f) :
    AttachedThroughout L key between σ₁.state := by
  constructor
  · have here := file_between run₁ run₂ starts silent found
    exact owned_of_run run₁ starts fresh key (Option.isSome_of_eq_some here)
  · intro e he s s' moved
    obtain ⟨front, back, rfl⟩ := List.append_of_mem he
    obtain ⟨σ₂, σ₃, -, -, upTo, rfl, rest⟩ := run₂.around moved
    have here := file_between (run₁.trans upTo) rest starts
      (fun e' he' => silent e' (by simp [he'])) found
    exact owned_of_run (run₁.trans upTo) starts fresh key (Option.isSome_of_eq_some here)

theorem presented_of_done {before : List (Event (server digests config))}
    {σ₁ : Session (server digests config) ι} {token : Digest} {itemKey : String}
    {access : LibraryAccess} {context : RequestContext} {now n : Int} (run : Run σ₀ before σ₁)
    (last : Run σ₁ [.commit (Request.registerFile token itemKey access context now)
      (.registration (.done n)) d d'] σ) (starts : Starts σ₀) :
    ∃ row, Presented token itemKey access now row d ∧
      d.attachment access.libraryId itemKey = true ∧
      preconditionMatches row.upload.expectedMd5
        ((d.file.find? (access.libraryId, itemKey)).map File.md5) = true := by
  cases (commit_plainEffect (run.trans last) starts
    (List.mem_append_right before (List.mem_singleton_self _))).2 with
  | registered registered =>
      cases registered with
      | @done row presented authority item matched after => exact ⟨row, presented, item, matched⟩

/-- When a registration is done, its item was a live attachment at every moment
since the authorization: if it replaces a file and no other registration came
between, or if the item's identity was not ended meanwhile. -/
theorem upload_identity_kept {before between : List (Event (server digests config))}
    {r : AuthorizeRequest} {uploadKey : String} {compressed : Bool} {v v' : Database}
    {itemKey : String} {access : LibraryAccess} {context : RequestContext} {now n : Int}
    (run : Run σ₀ (before ++ .commit (Request.authorizeUpload r)
        (.authorization (.authorized uploadKey compressed)) v v' :: (between ++
      [.commit (Request.registerFile (digests.sha256 uploadKey) itemKey access context now)
        (.registration (.done n)) d d'])) σ)
    (starts : Starts σ₀) (fresh : Fresh access.libraryId σ₀.state)
    (same : ReplacesSame access.libraryId itemKey (digests.sha256 uploadKey) between d ∨
      Undisturbed access.libraryId itemKey between v) :
    AttachedThroughout access.libraryId itemKey between v' := by
  have authorization := change_of_event run starts access.libraryId _
    (List.mem_append_right before List.mem_cons_self) v v' .commit
  obtain ⟨σ₁, σ₂, -, rfl, run₂, rfl, rest⟩ := run.around .commit
  obtain ⟨σ₃, middle, last⟩ := rest.split
  obtain ⟨rfl, -⟩ := last.moves .commit
  obtain ⟨row, presented, item, matched⟩ := presented_of_done (run₂.trans middle) last starts
  rcases same with ⟨⟨row', found, expects⟩, silent⟩ | ⟨attached, kept⟩
  · obtain rfl := Option.some.inj (presented.found.symm.trans found)
    obtain ⟨expected, he⟩ := Option.isSome_iff_exists.mp expects
    rw [he] at matched
    obtain ⟨md5, current, -⟩ := preconditionMatches_some.mp matched
    obtain ⟨f, stored, -⟩ := Option.map_eq_some_iff.mp current
    exact attachedThroughout_of_file run₂ middle starts fresh silent stored
  · exact attachedThroughout_of_undisturbed run₂ middle starts
      (authorization.attachment attached nofun) kept

end Run

/-! ### A first upload, without and with a deletion before its registration -/

/-- A new personal library and its owner. -/
def ownedDatabase : Database := { attachmentDatabase with object := ∅ }

theorem ownedDatabase_valid : ownedDatabase.Valid := by
  constructor <;> decide

theorem ownedDatabase_fresh : Fresh newLibrary ownedDatabase := by
  constructor <;> intros <;> rfl

def attachedDatabase : Database := demoServer.after ownedDatabase 8 (storeFileRequest 0)

def authorizedDatabase : Database :=
  demoServer.after attachedDatabase 10 (.authorizeUpload demoAuthorize)

def uploadingDatabase : Database :=
  Db.applyAll (Sql.writes (.claimPendingUpload demoToken 1) authorizedDatabase) authorizedDatabase

def uploadedDatabase : Database :=
  Db.applyAll (Sql.writes (.markPendingUploadUploaded demoToken 2) uploadingDatabase)
    uploadingDatabase

def orphanedDatabase : Database := demoServer.after uploadedDatabase 8 (deleteFileRequest 1)

def reattachedDatabase : Database := demoServer.after orphanedDatabase 8 (storeFileRequest 2)

def resurrectedDatabase : Database := demoServer.after reattachedDatabase 30 demoRegister

set_option maxRecDepth 4000 in
/-- The attachment is stored, its upload authorized, and the bytes arrive. -/
theorem demoUpload_runs : ∃ before es,
    Run (Session.idle ownedDatabase : Session demoServer Unit)
      (before ++ .commit (.authorizeUpload demoAuthorize) (.authorization (.authorized
        "00112233445566778899aabbccddeeff" false)) attachedDatabase authorizedDatabase :: es)
      (Session.idle uploadedDatabase) ∧
    ∀ e ∈ es, ∃ q d d', e = .auto q d d' := by
  obtain ⟨es₁, a, store, -⟩ := Run.commits (S := demoServer) (s := ownedDatabase)
    (t := attachedDatabase) (r := storeFileRequest 0) () 8 rfl rfl (by constructor <;> decide)
  obtain ⟨es₂, authorize, -⟩ := Run.alone (S := demoServer) (s := attachedDatabase)
    (t := authorizedDatabase) (r := .authorizeUpload demoAuthorize) () 10 rfl rfl
    (by constructor <;> decide)
  have claim := Run.lone (S := demoServer) (ι := Unit) (s := authorizedDatabase)
    (t := uploadingDatabase) (q := .claimPendingUpload demoToken 1) rfl rfl
    (by constructor <;> decide)
  have mark := Run.lone (S := demoServer) (ι := Unit) (s := uploadingDatabase)
    (t := uploadedDatabase) (q := .markPendingUploadUploaded demoToken 2) rfl rfl
    (by constructor <;> decide)
  have run := (store.trans authorize).trans (claim.trans mark)
  rw [← List.append_assoc _ es₂, List.append_assoc _ [_], List.singleton_append] at run
  refine ⟨_, _, run, fun e he => ?_⟩
  rcases List.mem_append.mp he with first | second
  · exact ⟨_, _, _, List.mem_singleton.mp first⟩
  · exact ⟨_, _, _, List.mem_singleton.mp second⟩

def acceptedDatabase : Database := demoServer.after uploadedDatabase 30 demoRegister

set_option maxRecDepth 4000 in
theorem upload_identity_kept_first : ∃ before between,
    Run (Session.idle ownedDatabase : Session demoServer Unit)
      (before ++ .commit (.authorizeUpload demoAuthorize) (.authorization (.authorized
        "00112233445566778899aabbccddeeff" false)) attachedDatabase authorizedDatabase ::
        (between ++ [.commit demoRegister (.registration (.done 2)) uploadedDatabase
          acceptedDatabase])) (Session.idle acceptedDatabase) ∧
    AttachedThroughout newLibrary "FILE2345" between authorizedDatabase := by
  obtain ⟨before, es, upload, autos⟩ := demoUpload_runs
  obtain ⟨es', register, stmts⟩ := Run.alone (S := demoServer) (s := uploadedDatabase)
    (t := acceptedDatabase) (a := .registration (.done 2)) (r := demoRegister) () 30 rfl rfl
    (by constructor <;> decide)
  have run := upload.trans register
  rw [List.append_assoc, List.cons_append, ← List.append_assoc es] at run
  refine ⟨before, es ++ es', run, ?_⟩
  refine upload_identity_kept run (starts_idle ownedDatabase_valid) ownedDatabase_fresh
    (.inr ⟨by decide, fun e he ends => ?_⟩)
  rcases List.mem_append.mp he with first | second
  · obtain ⟨q, d, d', rfl⟩ := autos e first
    cases ends
  · obtain ⟨q, v, rfl⟩ := stmts e second
    cases ends

set_option maxRecDepth 4000 in
/-- The attachment is deleted and stored again before the registration, which
is done all the same. -/
theorem upload_identity_lost : ∃ before between,
    Run (Session.idle ownedDatabase : Session demoServer Unit)
      (before ++ .commit (.authorizeUpload demoAuthorize) (.authorization (.authorized
        "00112233445566778899aabbccddeeff" false)) attachedDatabase authorizedDatabase ::
        (between ++ [.commit demoRegister (.registration (.done 4)) reattachedDatabase
          resurrectedDatabase])) (Session.idle resurrectedDatabase) ∧
    (.commit (deleteFileRequest 1) (.deletion (.done 2)) uploadedDatabase orphanedDatabase ∈
      between) ∧ ¬ AttachedThroughout newLibrary "FILE2345" between authorizedDatabase := by
  obtain ⟨before, es, upload, -⟩ := demoUpload_runs
  obtain ⟨es₁, delete, -⟩ := Run.alone (S := demoServer) (s := uploadedDatabase)
    (t := orphanedDatabase) (a := .deletion (.done 2)) (r := deleteFileRequest 1) () 8 rfl rfl
    (by constructor <;> decide)
  obtain ⟨es₂, a, restore, -⟩ := Run.commits (S := demoServer) (s := orphanedDatabase)
    (t := reattachedDatabase) (r := storeFileRequest 2) () 8 rfl rfl (by constructor <;> decide)
  obtain ⟨es₃, register, -⟩ := Run.alone (S := demoServer) (s := reattachedDatabase)
    (t := resurrectedDatabase) (a := .registration (.done 4)) (r := demoRegister) () 30 rfl rfl
    (by constructor <;> decide)
  have run := upload.trans ((delete.trans restore).trans register)
  rw [← List.append_assoc _ es₃, List.append_assoc before, List.cons_append,
    ← List.append_assoc es] at run
  refine ⟨before, _, run, ?_, fun throughout => ?_⟩
  · simp
  · exact absurd (throughout.2 (.commit (deleteFileRequest 1) (.deletion (.done 2))
      uploadedDatabase orphanedDatabase) (by simp) _ _ .commit) (by decide)

end Xotero
