import Xotero.Store.Server

/-!
Registration under interference. `register_file` locks the pending upload, then
the libraries, users, keys and groups its authorities rest on; what follows is
confined to the upload's library and its pending row, so it is atomic in the
state it commits to.
-/

namespace Xotero

open Txn (ScopedStmt)

/-- A plain read of a principal, a key or a group. -/
def Sql.isLookup : Sql → Bool
  | .bootstrapPrincipal _ | .authenticateApiKey _ | .resolveGroupLibrary .. => true
  | _ => false

theorem avoids_resolve (config : Config) (hash : Digest) (user : Option UserId) :
    (UploadAuthority.resolve config hash user).Avoids fun q : Sql => ¬ q.isLookup := by
  cases user with
  | none => exact Txn.avoids_bind (avoids_execute (by simp [Sql.isLookup])) fun _ => trivial
  | some user =>
      refine Txn.avoids_ite trivial ?_
      cases config.recoveryPermissions hash with
      | none => trivial
      | some permissions =>
          exact Txn.avoids_bind (avoids_execute (by simp [Sql.isLookup])) fun _ => trivial

theorem avoids_allows (authority : UploadAuthority) (upload : PendingUpload)
    (grantRows : Bool × Bool) :
    (authority.allows upload grantRows).Avoids fun q : Sql => ¬ q.isLookup := by
  unfold UploadAuthority.allows
  split
  · trivial
  · refine Txn.avoids_bind ?_ fun resolution => ?_
    · exact Txn.avoids_bind (avoids_execute (by simp [Sql.isLookup])) fun _ => trivial
    · cases resolution <;> trivial

theorem avoids_discoverAuthorities (config : Config) (credentials : List Credential) :
    (discoverAuthorities config credentials).Avoids fun q : Sql => ¬ q.isLookup := by
  induction credentials with
  | nil => trivial
  | cons credential credentials ih =>
      refine Txn.avoids_bind (avoids_resolve _ _ _) fun authority => ?_
      cases authority with
      | none => trivial
      | some authority => exact Txn.avoids_bind ih fun _ => trivial

theorem avoids_recheckAuthorities (config : Config) (upload : PendingUpload)
    (allGrants explicitGrants : List ApiKeyId) (pairs : List (Credential × UploadAuthority)) :
    (recheckAuthorities config upload allGrants explicitGrants pairs).Avoids
      fun q : Sql => ¬ q.isLookup := by
  induction pairs with
  | nil => trivial
  | cons pair pairs ih =>
      refine Txn.avoids_bind (avoids_resolve _ _ _) fun authority => ?_
      cases authority with
      | none => trivial
      | some current =>
          refine Txn.avoids_ite trivial ?_
          exact Txn.avoids_bind (avoids_allows _ _ _) fun _ => Txn.avoids_ite ih trivial

theorem readOnly_of_lookups {α : Type} {p : Txn Db α} (h : p.Avoids fun q : Sql => ¬ q.isLookup) :
    p.ReadOnly := by
  induction p with
  | ret a | fail => trivial
  | query q next ih =>
      have lookup : q.isLookup := Decidable.not_not.mp h.1
      refine ⟨fun d => ?_, fun r => ih r (h.2 r)⟩
      cases q <;> simp only [Sql.isLookup, Bool.false_eq_true] at lookup <;> rfl

theorem readOnly_lockGroup (upload : PendingUpload) : (lockGroup upload).ReadOnly := by
  unfold lockGroup
  split
  · trivial
  · refine Txn.readOnly_bind (readOnly_execute fun _ => rfl) fun owner => ?_
    cases owner <;> trivial

theorem readOnly_lockKeys (keys : List ApiKeyId) : (lockKeys keys).ReadOnly := by
  refine Txn.readOnly_bind (readOnly_execute fun _ => rfl) fun rows => ?_
  refine Txn.readOnly_ite trivial ?_
  exact Txn.readOnly_bind (readOnly_execute fun _ => rfl) fun _ => trivial

theorem readOnly_lockGroupRows (upload : PendingUpload) (owners : List UserId)
    (keys : List ApiKeyId) : (lockGroupRows upload owners keys).ReadOnly := by
  unfold lockGroupRows
  split
  · trivial
  · refine Txn.readOnly_bind (readOnly_execute fun _ => rfl) fun memberships => ?_
    refine Txn.readOnly_ite trivial ?_
    refine Txn.readOnly_bind (readOnly_execute fun _ => rfl) fun _ => ?_
    exact Txn.readOnly_bind (readOnly_execute fun _ => rfl) fun _ => trivial

theorem readOnly_lockAuthorityRows (config : Config) (upload : PendingUpload)
    (credentials : List Credential) (authorities : List UploadAuthority) :
    (lockAuthorityRows config upload credentials authorities).ReadOnly := by
  refine Txn.readOnly_bind (readOnly_lockGroup upload) fun groupOwner => ?_
  cases groupOwner with
  | none => trivial
  | some groupOwner =>
      refine Txn.readOnly_bind (readOnly_execute fun _ => rfl) fun _ => ?_
      refine Txn.readOnly_bind (readOnly_execute fun _ => rfl) fun mappings => ?_
      refine Txn.readOnly_ite trivial ?_
      refine Txn.readOnly_bind (readOnly_lockKeys _) fun locked => Txn.readOnly_ite trivial ?_
      refine Txn.readOnly_bind (readOnly_lockGroupRows _ _ _) fun grants => ?_
      cases grants with
      | none => trivial
      | some grants => exact readOnly_of_lookups (avoids_recheckAuthorities _ _ _ _ _)

theorem readOnly_lockLibrary (U L : LibraryId) : (lockLibrary U L).ReadOnly :=
  Txn.readOnly_ite (readOnly_execute fun _ => rfl) (readOnly_execute fun _ => rfl)

theorem readOnly_lockLibraries (U : LibraryId) (libraries : List LibraryId)
    (current : Option Int) : (lockLibraries U libraries current).ReadOnly := by
  induction libraries generalizing current with
  | nil => trivial
  | cons L libraries ih =>
      refine Txn.readOnly_bind (readOnly_lockLibrary U L) fun version => ?_
      cases version with
      | none => trivial
      | some version => exact ih _

/-! The library lock -/

theorem disciplined_lockLibrary (U L : LibraryId) (held : List (RowLock RowId)) :
    (lockLibrary U L).Disciplined (fun o held' => held ⊆ held' ∧
      (o.isSome → L = U → ⟨.library U, .update⟩ ∈ held')) held := by
  unfold lockLibrary
  split
  case isTrue same =>
      subst same
      refine disciplined_read (q := .libraryForUpdate L) (fun _ => rfl) fun d => ?_
      refine ⟨List.subset_append_left _ _, fun found _ => List.mem_append_right _ ?_⟩
      simpa [Sql.eval, Sql.locks] using found
  case isFalse other =>
      refine disciplined_read (q := .libraryForShare L) (fun _ => rfl) fun d => ?_
      exact ⟨List.subset_append_left _ _, fun _ same => absurd same other⟩

theorem disciplined_lockLibraries (U : LibraryId) (libraries : List LibraryId)
    (current : Option Int) (held : List (RowLock RowId))
    (known : current.isSome → ⟨.library U, .update⟩ ∈ held) :
    (lockLibraries U libraries current).Disciplined (fun o held' => held ⊆ held' ∧
      ∀ n, o = some (some n) → ⟨.library U, .update⟩ ∈ held') held := by
  induction libraries generalizing current held with
  | nil => exact ⟨List.Subset.refl _, fun n hn => known (by rw [Option.some.inj hn]; rfl)⟩
  | cons L libraries ih =>
      refine Txn.disciplined_bind (Txn.disciplined_imp (disciplined_lockLibrary U L held) ?_)
      rintro version held' ⟨sub, locked⟩
      cases version with
      | none => exact ⟨sub, fun n hn => nomatch hn⟩
      | some version =>
          refine Txn.disciplined_imp (ih _ held' ?_) fun o held'' h =>
            ⟨List.Subset.trans sub h.1, h.2⟩
          split
          case isTrue same => exact fun _ => locked rfl same
          case isFalse other => exact fun h => sub (known h)

/-- What is known of the library version a registration reads. -/
def KnowsVersion (U : LibraryId) (current : Option Int) (held : List (RowLock RowId))
    (d : Database) : Prop :=
  ∀ n, current = some n → ⟨.library U, .update⟩ ∈ held ∧
    (d.library.find? U).map Library.version = some n

theorem KnowsVersion.stable {U : LibraryId} {current : Option Int}
    {held held' : List (RowLock RowId)} {d d' : Database} (h : KnowsVersion U current held d)
    (sub : held ⊆ held') (i : Interference Db held d d') : KnowsVersion U current held' d' := by
  intro n hn
  obtain ⟨lock, version⟩ := h n hn
  have agree : LibraryAgree U d d' := i.2 _ lock
  exact ⟨sub lock, agree.library ▸ version⟩

section Ensures
variable {A : Sql → Database → Prop}

theorem ensures_lockLibrary (U L : LibraryId) (held : List (RowLock RowId)) (s : Database) :
    Ensures (D := Db) A (fun o held' log d => log = [] ∧
      (o.isSome → ∃ m, ⟨.library L, m⟩ ∈ held') ∧ (L = U → KnowsVersion U o held' d))
      (lockLibrary U L) held [] s := by
  unfold lockLibrary
  split
  case isTrue same =>
      subst same
      refine ensures_execute (q := .libraryForUpdate L) fun d d' _ _ i => ?_
      have lock (found : (Sql.eval (.libraryForUpdate L) d).isSome) :
          ⟨.library L, .update⟩ ∈ held ++ Sql.locks (.libraryForUpdate L) d :=
        List.mem_append_right _ (by simpa [Sql.eval, Sql.locks] using found)
      refine ⟨rfl, fun found => ⟨.update, lock found⟩, fun _ => ?_⟩
      refine KnowsVersion.stable (fun n hn => ?_) (List.Subset.refl _) i
      exact ⟨lock (Option.isSome_of_eq_some hn), hn⟩
  case isFalse other =>
      refine ensures_execute (q := .libraryForShare L) fun d d' _ _ i =>
        ⟨rfl, ?_, fun same => absurd same other⟩
      intro found
      exact ⟨.share, List.mem_append_right _ (by simpa [Sql.eval, Sql.locks] using found)⟩

theorem ensures_lockLibraries (U : LibraryId) (libraries : List LibraryId)
    (current : Option Int) (held : List (RowLock RowId)) (s : Database)
    (known : KnowsVersion U current held s) :
    Ensures (D := Db) A (fun o held' log d => log = [] ∧ ∀ current', o = some current' →
      (∀ L ∈ libraries, ∃ m, ⟨.library L, m⟩ ∈ held') ∧ KnowsVersion U current' held' d)
      (lockLibraries U libraries current) held [] s := by
  induction libraries generalizing current held s with
  | nil =>
      intro d i
      refine ⟨rfl, fun current' same => ⟨by simp, ?_⟩⟩
      obtain rfl := Option.some.inj same
      exact known.stable (List.Subset.refl _) i
  | cons L libraries ih =>
      refine Ensures.bind ((ensures_lockLibrary U L held s).frame.imp ?_)
      rintro version held' log d ⟨⟨rfl, locked, knows⟩, sub, i⟩
      cases version with
      | none => exact fun _ _ => ⟨rfl, fun current' same => nomatch same⟩
      | some version =>
          have known' : KnowsVersion U (if L = U then some version else current) held' d := by
            split
            case isTrue same => exact knows same
            case isFalse other => exact known.stable sub i
          refine (ih _ held' d known').frame.imp ?_
          rintro o held'' log d' ⟨⟨rfl, post⟩, sub', -⟩
          refine ⟨rfl, fun current' same => ?_⟩
          obtain ⟨locks, knows'⟩ := post current' same
          refine ⟨?_, knows'⟩
          intro M hM
          rcases List.mem_cons.mp hM with rfl | rest
          · obtain ⟨m, hm⟩ := locked rfl
            exact ⟨m, sub' hm⟩
          · exact locks M rest

theorem ensures_lockUploadAuthorities (digests : Digests) (config : Config)
    (upload : PendingUpload) (context : RequestContext) (held : List (RowLock RowId))
    (s : Database) :
    Ensures (D := Db) A (fun o held' log d => log = [] ∧ KnowsVersion upload.libraryId o held' d)
      (lockUploadAuthorities digests config upload context) held [] s := by
  have reads := readOnly_of_lookups
    (avoids_discoverAuthorities config (uploadCredentials digests upload context))
  refine Ensures.bind ((Ensures.of_readOnly reads _ _ _).imp ?_)
  rintro authorities held₁ log d₁ rfl
  cases authorities with
  | none => exact fun _ _ => ⟨rfl, fun n hn => nomatch hn⟩
  | some authorities =>
      refine Ensures.bind ((ensures_lockLibraries _ _ none held₁ d₁ fun n hn => nomatch hn).imp ?_)
      rintro current held₂ log d₂ ⟨rfl, locked⟩
      cases current with
      | none => exact fun _ _ => ⟨rfl, fun n hn => nomatch hn⟩
      | some current =>
          have known := (locked current rfl).2
          refine Ensures.bind
            ((Ensures.of_readOnly (readOnly_lockAuthorityRows _ _ _ _) _ _ _).frame.imp ?_)
          rintro allowed held₃ log d₃ ⟨rfl, sub, i⟩
          cases allowed with
          | false => exact fun _ _ => ⟨rfl, fun n hn => nomatch hn⟩
          | true =>
              exact fun _ i' => ⟨rfl, (known.stable sub i).stable (List.Subset.refl _) i'⟩

end Ensures

theorem disciplined_lockUploadAuthorities (digests : Digests) (config : Config)
    (upload : PendingUpload) (context : RequestContext) (held : List (RowLock RowId)) :
    (lockUploadAuthorities digests config upload context).Disciplined (fun o held' =>
      held ⊆ held' ∧ (o.isSome → ⟨.library upload.libraryId, .update⟩ ∈ held')) held := by
  refine Txn.disciplined_bind (Txn.disciplined_imp
    (Txn.disciplined_of_readOnly (readOnly_of_lookups (avoids_discoverAuthorities _ _))) ?_)
  intro authorities held₁ sub₁
  cases authorities with
  | none => exact ⟨sub₁, fun h => nomatch h⟩
  | some authorities =>
      refine Txn.disciplined_bind (Txn.disciplined_imp
        (disciplined_lockLibraries _ _ none held₁ fun h => nomatch h) ?_)
      rintro current held₂ ⟨sub₂, locked⟩
      have sub := List.Subset.trans sub₁ sub₂
      cases current with
      | none => exact ⟨sub, fun h => nomatch h⟩
      | some current =>
          refine Txn.disciplined_bind (Txn.disciplined_imp
            (Txn.disciplined_of_readOnly (readOnly_lockAuthorityRows _ _ _ _)) ?_)
          intro allowed held₃ sub₃
          have sub := List.Subset.trans sub sub₃
          cases allowed with
          | false => exact ⟨sub, fun h => nomatch h⟩
          | true =>
              refine ⟨sub, fun known => sub₃ ?_⟩
              obtain ⟨n, rfl⟩ := Option.isSome_iff_exists.mp known
              exact locked n rfl

/-! The compare-and-swap -/

def Sql.token : Sql → Option Digest
  | .discardUpload token | .deletePendingUpload token => some token
  | _ => none

theorem scopedStmt_of_token {q : Sql} {token : Digest} (h : q.token = some token) :
    ScopedStmt Db [.pendingUpload token] q where
  eval_eq {d d'} agree := by
    cases q <;> simp only [Sql.token, Option.some.injEq, reduceCtorEq] at h <;> rfl
  writes_eq {d d'} agree := by
    have agree : d.pendingUploads.find? token = d'.pendingUploads.find? token :=
      agree (.pendingUpload token) (by simp)
    cases q <;> simp only [Sql.token, Option.some.injEq, reduceCtorEq] at h <;> subst h <;>
      simp only [Sql.writes, updatePendingUpload, agree]
  target_mem {d w} hw := by
    cases q <;> simp only [Sql.token, Option.some.injEq, reduceCtorEq] at h <;> subst h <;>
      simp only [Sql.writes, updatePendingUpload] at hw
    all_goals grind [Write.target]

theorem scoped_token {q : Sql} {token : Digest} (h : q.token = some token) :
    (execute q).Scoped [RowId.pendingUpload token] :=
  scoped_execute (scopedStmt_of_token h)

section RegisterLocked
variable {token : Digest} {itemKey : String} {L : LibraryId} {upload : PendingUpload} {n : Int}
  {d d' : Database}

/-- The statement is about neither the library nor the token. -/
def Sql.Strays (L : LibraryId) (token : Digest) (q : Sql) : Prop :=
  q.home ≠ some L ∧ q.token ≠ some token

theorem avoids_registerLocked :
    (registerLocked token itemKey L upload n).Avoids (Sql.Strays L token) := by
  have inLibrary {q : Sql} (h : q.home = some L) : (execute q).Avoids (Sql.Strays L token) :=
    avoids_execute fun strays => strays.1 h
  have inToken {q : Sql} (h : q.token = some token) : (execute q).Avoids (Sql.Strays L token) :=
    avoids_execute fun strays => strays.2 h
  have discarded {o : FileRegistrationOutcome} :
      (execute (.discardUpload token) >>= fun _ => pure (Ending.commit o)).Avoids
        (Sql.Strays L token) :=
    Txn.avoids_bind (inToken rfl) fun _ => trivial
  refine Txn.avoids_bind (inLibrary rfl) fun item => Txn.avoids_ite discarded ?_
  refine Txn.avoids_bind (inLibrary rfl) fun md5 => Txn.avoids_ite discarded ?_
  refine Txn.avoids_bind (inLibrary rfl) fun _ => ?_
  refine Txn.avoids_bind (inLibrary rfl) fun _ => ?_
  refine Txn.avoids_bind (inLibrary rfl) fun _ => ?_
  exact Txn.avoids_bind (inToken rfl) fun _ => trivial

theorem scoped_of_strays {α : Type} {p : Txn Db α} (h : p.Avoids (Sql.Strays L token)) :
    p.Scoped [RowId.library L, RowId.pendingUpload token] := by
  induction p with
  | ret a | fail => trivial
  | query q next ih =>
      refine ⟨?_, fun r => ih r (h.2 r)⟩
      by_cases home : q.home = some L
      · exact (scopedStmt_of_home home).mono (by simp)
      · have aimed : q.token = some token := by
          by_contra other
          exact h.1 ⟨home, other⟩
        exact (scopedStmt_of_token aimed).mono (by simp)

theorem scoped_registerLocked : (registerLocked token itemKey L upload n).Scoped
    [RowId.library L, RowId.pendingUpload token] :=
  scoped_of_strays avoids_registerLocked

/-- The state with a pending upload's row replaced. -/
def Database.withPending (d : Database) (token : Digest) (row : Option PendingUploadRow) :
    Database :=
  { d with pendingUploads := d.pendingUploads.set token row }

/-- The item is a live stored-file attachment. -/
def Database.attachment (d : Database) (L : LibraryId) (key : String) : Bool :=
  ((d.object.find? (L, .item, key)).map Object.data).any isStoredFileAttachment

theorem attachment_eq_false : d.attachment L itemKey = false ↔
    ((Sql.itemForUpdate L itemKey).eval d).all fun data => !isStoredFileAttachment data := by
  rw [Database.attachment, Sql.eval]
  cases (d.object.find? (L, .item, itemKey)).map Object.data <;> simp

theorem discardUpload_eq {row : PendingUploadRow}
    (found : d.pendingUploads.find? token = some row) :
    ((Sql.discardUpload token).writes d).foldl Database.apply d =
      d.withPending token (some (row.withState .discarded)) := by
  simp only [Sql.writes, updatePendingUpload, found]
  rfl

theorem deletePendingUpload_eq {row : PendingUploadRow}
    (found : d.pendingUploads.find? token = some row) :
    ((Sql.deletePendingUpload token).writes d).foldl Database.apply d =
      d.withPending token none := by
  simp only [Sql.writes, updatePendingUpload, found]
  rfl

/-- The three outcomes of the compare-and-swap, each with all it does. -/
theorem registerLocked_run {row : PendingUploadRow} {e : Ending FileRegistrationOutcome}
    (found : d.pendingUploads.find? token = some row)
    (h : (registerLocked token itemKey L upload n).run d = some (d', e)) :
    d.attachment L itemKey = false ∧ e = .commit .invalidItem ∧
        d' = d.withPending token (some (row.withState .discarded)) ∨
      d.attachment L itemKey = true ∧
        preconditionMatches upload.expectedMd5 ((d.file.find? (L, itemKey)).map File.md5) = false ∧
        e = .commit (.conflict n) ∧ d' = d.withPending token (some (row.withState .discarded)) ∨
      d.attachment L itemKey = true ∧
        preconditionMatches upload.expectedMd5 ((d.file.find? (L, itemKey)).map File.md5) = true ∧
        e = .commit (.done (n + 1)) ∧
        d' = (((d.setVersion L (n + 1)).edit L (n + 1) (.register itemKey upload)).withPending
          token none) := by
  have h := execute_bind_run_to d rfl h
  obtain ⟨missing, h⟩ | ⟨item, h⟩ := Txn.run_ite h
  · have h := execute_bind_run_to _ (discardUpload_eq found) h
    obtain ⟨rfl, rfl⟩ := ret_run h
    exact .inl ⟨attachment_eq_false.mpr missing, rfl, rfl⟩
  · have item : d.attachment L itemKey = true :=
      Bool.of_not_eq_false fun absent => item (attachment_eq_false.mp absent)
    have h := execute_bind_run_to d rfl h
    obtain ⟨mismatch, h⟩ | ⟨same, h⟩ := Txn.run_ite h
    · have h := execute_bind_run_to _ (discardUpload_eq found) h
      obtain ⟨rfl, rfl⟩ := ret_run h
      exact .inr (.inl ⟨item, by simpa [Sql.eval] using mismatch, rfl, rfl⟩)
    · have h := execute_bind_run_to _ (updateLibraryVersion_eq d L (n + 1)) h
      have h := execute_bind_run_to _ rfl h
      have h := execute_bind_run_to _
          (register_eq (d.setVersion L (n + 1)) L (n + 1) itemKey upload) h
      have kept : ((d.setVersion L (n + 1)).edit L (n + 1)
          (.register itemKey upload)).pendingUploads.find? token = some row := by
        simpa using found
      have h := execute_bind_run_to _ (deletePendingUpload_eq kept) h
      obtain ⟨rfl, rfl⟩ := ret_run h
      exact .inr (.inr ⟨item, by simpa [Sql.eval] using same, rfl, rfl⟩)

end RegisterLocked

/-! The whole registration -/

/-- The pending row a registration may go on with. -/
structure Presented (token : Digest) (itemKey : String) (access : LibraryAccess) (now : Int)
    (row : PendingUploadRow) (d : Database) : Prop where
  found : d.pendingUploads.find? token = some row
  live : row.live now = true
  uploaded : row.upload.state = .uploaded
  library : row.upload.libraryId = access.libraryId
  group : row.upload.groupId = access.groupId
  item : row.upload.itemKey = itemKey
  exists_library : (d.library.find? access.libraryId).isSome

/-- What a registration that commits has done; `P` holds of the uploads that
passed the authority check. -/
inductive Registered (P : PendingUpload → Database → Prop) (token : Digest) (itemKey : String)
    (access : LibraryAccess) (now : Int) (d d' : Database) : FileRegistrationOutcome → Prop where
  | expired {row : PendingUploadRow} (found : d.pendingUploads.find? token = some row)
      (dead : row.live now = false)
      (after : d' = d.withPending token (some (row.withState .discarded))) :
      Registered P token itemKey access now d d' .invalidUpload
  | invalidItem {row : PendingUploadRow} (presented : Presented token itemKey access now row d)
      (authority : P row.upload d) (absent : d.attachment access.libraryId itemKey = false)
      (after : d' = d.withPending token (some (row.withState .discarded))) :
      Registered P token itemKey access now d d' .invalidItem
  | conflict {row : PendingUploadRow} (presented : Presented token itemKey access now row d)
      (authority : P row.upload d) (item : d.attachment access.libraryId itemKey = true)
      (mismatch : preconditionMatches row.upload.expectedMd5
        ((d.file.find? (access.libraryId, itemKey)).map File.md5) = false)
      (after : d' = d.withPending token (some (row.withState .discarded))) :
      Registered P token itemKey access now d d' (.conflict (d.version access.libraryId))
  | done {row : PendingUploadRow} (presented : Presented token itemKey access now row d)
      (authority : P row.upload d) (item : d.attachment access.libraryId itemKey = true)
      (same : preconditionMatches row.upload.expectedMd5
        ((d.file.find? (access.libraryId, itemKey)).map File.md5) = true)
      (after : d' = (Database.edit access.libraryId (d.version access.libraryId + 1)
        (d.setVersion access.libraryId (d.version access.libraryId + 1))
        (.register itemKey row.upload)).withPending token none) :
      Registered P token itemKey access now d d' (.done (d.version access.libraryId + 1))

theorem Registered.imp {P P' : PendingUpload → Database → Prop} {token : Digest}
    {itemKey : String} {access : LibraryAccess} {now : Int} {d d' : Database}
    {o : FileRegistrationOutcome} (h : Registered P token itemKey access now d d' o)
    (weaker : ∀ upload, P upload d → P' upload d) :
    Registered P' token itemKey access now d d' o := by
  cases h with
  | expired found dead after => exact .expired found dead after
  | invalidItem presented authority absent after =>
      exact .invalidItem presented (weaker _ authority) absent after
  | conflict presented authority item mismatch after =>
      exact .conflict presented (weaker _ authority) item mismatch after
  | done presented authority item same after =>
      exact .done presented (weaker _ authority) item same after

section RegisterFile
variable {A : Sql → Database → Prop} {P : PendingUpload → Database → Prop} {digests : Digests}
  {config : Config} {token : Digest} {itemKey : String} {access : LibraryAccess}
  {context : RequestContext} {now : Int}

/-- `P` is what the locks of a successful authority check keep true. -/
def Secures (A : Sql → Database → Prop) (P : PendingUpload → Database → Prop) (digests : Digests)
    (config : Config) (context : RequestContext) : Prop :=
  ∀ upload held s, Database.Valid s →
    Ensures (D := Db) A (fun o held' _ d => o.isSome → ∀ d', Interference Db held' d d' →
      P upload d')
      (lockUploadAuthorities digests config upload context) held [] s

theorem ensures_registerLocked {row : PendingUploadRow} {n : Int} {held : List (RowLock RowId)}
    {s : Database} (presented : Presented token itemKey access now row s)
    (version : s.version access.libraryId = n)
    (library : ⟨.library access.libraryId, .update⟩ ∈ held)
    (pending : ⟨.pendingUpload token, .update⟩ ∈ held)
    (authority : ∀ d, Interference Db held s d → P row.upload d) :
    Ensures (D := Db) A (fun e _ log d => ∀ o, e = Ending.commit o →
        Registered P token itemKey access now d (log.foldl Database.apply d) o)
      (registerLocked token itemKey access.libraryId row.upload n) held [] s := by
  refine ((Ensures.of_scoped scoped_registerLocked ?_).frame).imp ?_
  · intro k hk
    refine ⟨.update, ?_⟩
    obtain rfl | rfl : k = _ ∨ k = _ := by simpa using hk
    · exact library
    · exact pending
  · rintro e held' log d ⟨⟨agree, collected⟩, -, i⟩ o rfl
    have inside : LibraryAgree access.libraryId s d := agree (.library access.libraryId) (by simp)
    have row_eq : s.pendingUploads.find? token = d.pendingUploads.find? token :=
      agree (.pendingUpload token) (by simp)
    have presented : Presented token itemKey access now row d :=
      { presented with
        found := row_eq ▸ presented.found
        exists_library := inside.library ▸ presented.exists_library }
    obtain rfl : d.version access.libraryId = n := inside.version ▸ version
    have run := Txn.run_of_collect collected
    obtain ⟨absent, same, after⟩ | ⟨item, mismatch, same, after⟩ | ⟨item, matched, same, after⟩ :=
      registerLocked_run presented.found run
    · obtain rfl := Ending.commit.inj same
      exact .invalidItem presented (authority d i) absent after
    · obtain rfl := Ending.commit.inj same
      exact .conflict presented (authority d i) item mismatch after
    · obtain rfl := Ending.commit.inj same
      exact .done presented (authority d i) item matched after

theorem ensures_discardExpired {row : PendingUploadRow} {held : List (RowLock RowId)}
    {s : Database} (found : s.pendingUploads.find? token = some row) (dead : row.live now = false)
    (pending : ⟨.pendingUpload token, .update⟩ ∈ held) :
    Ensures (D := Db) A (fun e _ log d => ∀ o, e = Ending.commit o →
        Registered P token itemKey access now d (log.foldl Database.apply d) o)
      (execute (.discardUpload token) >>= fun _ =>
        pure (Ending.commit FileRegistrationOutcome.invalidUpload)) held [] s := by
  have inside : (execute (.discardUpload token) >>= fun _ =>
      pure (Ending.commit FileRegistrationOutcome.invalidUpload)).Scoped
        [RowId.pendingUpload token] :=
    Txn.scoped_bind (scoped_token rfl) fun _ => trivial
  refine (Ensures.of_scoped inside ?_).imp ?_
  · intro k hk
    obtain rfl := List.mem_singleton.mp hk
    exact ⟨.update, pending⟩
  · rintro e _ log d ⟨agree, collected⟩ o rfl
    have row_eq : s.pendingUploads.find? token = d.pendingUploads.find? token :=
      agree (.pendingUpload token) (by simp)
    have found := row_eq ▸ found
    have run := Txn.run_of_collect collected
    have run := execute_bind_run_to _ (discardUpload_eq found) run
    obtain ⟨after, same⟩ := ret_run run
    obtain rfl := Ending.commit.inj same
    exact .expired found dead after

/-- A registration that commits has its effect in the state it commits to. -/
theorem ensures_registerFile (secures : Secures A P digests config context) {s : Database}
    (valid : s.Valid) :
    Ensures (D := Db) A (fun e _ log d => ∀ o, e = Ending.commit o →
        Registered P token itemKey access now d (log.foldl Database.apply d) o)
      (registerFile digests config token itemKey access context now) [] [] s := by
  refine ensures_execute_bind fun d i _ => ?_
  have valid := i.1 valid
  cases found : d.pendingUploads.find? token with
  | none =>
      simp only [Sql.eval, found]
      intro _ _ o same
      cases same
  | some row =>
      have lock : ⟨.pendingUpload token, .update⟩ ∈
          [] ++ Sql.locks (.pendingUploadForUpdate token now) d := by
        simp [Sql.locks, found]
      simp only [Sql.eval, found, Option.map_some]
      refine Ensures.ite (fun dead => ?_) fun live => Ensures.ite (fun _ => ?_) fun fits => ?_
      · exact ensures_discardExpired found (by simpa using dead) lock
      · intro _ _ o same
        cases same
      · simp only [not_or, ne_eq, Decidable.not_not] at fits
        refine Ensures.bind (((secures row.upload _ d valid).and
          (ensures_lockUploadAuthorities digests config row.upload context _ d)).frame.imp ?_)
        rintro current held log d₁ ⟨⟨authority, rfl, known⟩, sub, i₁⟩
        cases current with
        | none =>
            intro _ _ o same
            cases same
        | some n =>
            obtain ⟨library, version⟩ := known n rfl
            rw [fits.2.1] at library version
            refine ensures_registerLocked ?_ ?_ library (sub lock) (authority rfl)
            · have row_eq : d.pendingUploads.find? token = d₁.pendingUploads.find? token :=
                i₁.2 _ lock
              exact ⟨row_eq ▸ found, by simpa using live, fits.1, fits.2.1, fits.2.2.1,
                fits.2.2.2, by simpa using congrArg Option.isSome version⟩
            · simp [Database.version, version]

theorem disciplined_registerFile :
    (registerFile digests config token itemKey access context now).Disciplined
      (fun _ _ => True) [] := by
  refine Txn.disciplined_bind (disciplined_read (q := .pendingUploadForUpdate token now)
    (fun _ => rfl) fun d => ?_)
  cases found : d.pendingUploads.find? token with
  | none =>
      simp only [Sql.eval, found]
      trivial
  | some row =>
      have lock : ⟨.pendingUpload token, .update⟩ ∈
          [] ++ Sql.locks (.pendingUploadForUpdate token now) d := by
        simp [Sql.locks, found]
      simp only [Sql.eval, found, Option.map_some]
      split
      · refine Txn.disciplined_of_scoped (D := Db)
          (K := [RowId.pendingUpload token]) ?_ fun k hk => ?_
        · exact Txn.scoped_bind (scoped_token rfl) fun _ => trivial
        · obtain rfl := List.mem_singleton.mp hk
          exact lock
      · split
        case isTrue => trivial
        case isFalse fits =>
            simp only [not_or, ne_eq, Decidable.not_not] at fits
            refine Txn.disciplined_bind (Txn.disciplined_imp
              (disciplined_lockUploadAuthorities digests config row.upload context _) ?_)
            rintro current held ⟨sub, library⟩
            cases current with
            | none => trivial
            | some n =>
                refine Txn.disciplined_of_scoped scoped_registerLocked fun k hk => ?_
                obtain rfl | rfl : k = _ ∨ k = _ := by simpa using hk
                · exact fits.2.1 ▸ library rfl
                · exact sub lock

end RegisterFile

end Xotero
