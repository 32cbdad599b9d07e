import Xotero.Store.AuthorityLocks

/-!
A registration with nothing else going on. Its locks and its second look at the
authorities then refuse no one whom a plain check would let through, so it comes to
what one look at the state decides.
-/

namespace Xotero

open UploadAuthority

section
variable {α : Type} {q : Sql} {f : q.Result → Txn Db α} {d : Database}

/-- A statement that the database takes, and then the rest. -/
theorem execute_bind_takes (accepted : q.accepted = true) :
    (execute q >>= f).run d = (f (q.eval d)).run ((q.writes d).foldl Database.apply d) := by
  rw [execute_bind_eq, if_pos accepted]

/-- One that only reads. -/
theorem execute_bind_read (accepted : q.accepted = true) (reads : q.writes d = []) :
    (execute q >>= f).run d = (f (q.eval d)).run d := by
  rw [execute_bind_takes accepted, reads, List.foldl_nil]

end

/-! ### Counts -/

theorem nodup_sortIds {kind : IdKind} (ids : List (Id kind)) : (sortIds ids).Nodup :=
  List.nodup_dedup _

/-- A lock of rows that are all there counts as many as it was asked for. -/
theorem count_sortIds {kind : IdKind} {ids : List (Id kind)} (nodup : ids.Nodup)
    (p : Id kind → Bool) :
    ((sortIds ids).filter p).length = ids.length ↔ ∀ id ∈ ids, p id = true := by
  have sorted : (ids.insertionSort fun a b => a.get ≤ b.get).Perm ids :=
    List.perm_insertionSort _ _
  have whole : (sortIds ids).Perm ids := by
    rw [sortIds, (sorted.nodup_iff.mpr nodup).dedup]
    exact sorted
  rw [(whole.filter p).length_eq, List.length_filter_eq_length_iff]

/-- Some element has no image, or each is paired with its own. -/
theorem mapM_cases {α β : Type} (f : α → Option β) (l : List α) :
    (l.mapM f = none ∧ ∃ a ∈ l, f a = none) ∨
      ∃ pairs : List (α × β), l = pairs.map Prod.fst ∧ l.mapM f = some (pairs.map Prod.snd) ∧
        ∀ pair ∈ pairs, f pair.1 = some pair.2 := by
  induction l with
  | nil => exact .inr ⟨[], rfl, rfl, by simp⟩
  | cons a l ih =>
      cases image : f a with
      | none => exact .inl ⟨by simp [image], a, List.mem_cons_self, image⟩
      | some b =>
          cases ih with
          | inl missing =>
              obtain ⟨none, a', mem, is_none⟩ := missing
              exact .inl ⟨by simp [image, none], a', List.mem_cons_of_mem a mem, is_none⟩
          | inr paired =>
              obtain ⟨pairs, rfl, all, each⟩ := paired
              refine .inr ⟨(a, b) :: pairs, rfl, ?_, ?_⟩
              · rw [List.mapM_cons, image, all]
                rfl
              · exact List.forall_mem_cons.mpr ⟨image, each⟩

section
variable {config : Config} {upload : PendingUpload} {d : Database}

/-! ### Authorities -/

/-- The credential stands for a caller who may upload, in this state. -/
def Database.authorizes (d : Database) (config : Config) (upload : PendingUpload)
    (credential : Credential) : Bool :=
  (resolved config credential d).any fun authority => authority.allowed upload (true, true) d

theorem authorizes_iff {credential : Credential} :
    d.authorizes config upload credential = true ↔ HasAuthority config upload credential d := by
  rw [Database.authorizes, Option.any_eq_true, hasAuthority_iff]

theorem discoverAuthorities_run (config : Config) (credentials : List Credential) (d : Database) :
    (discoverAuthorities config credentials).run d =
      some (d, credentials.mapM fun credential => resolved config credential d) := by
  induction credentials with
  | nil => rfl
  | cons credential credentials ih =>
      rw [discoverAuthorities, Txn.run_bind, resolve_run, Option.bind_some, List.mapM_cons]
      cases resolved config credential d with
      | none => rfl
      | some authority =>
          show Txn.run (D := Db) (discoverAuthorities config credentials >>= _) d = _
          rw [Txn.run_bind, ih, Option.bind_some]
          cases credentials.mapM fun credential => resolved config credential d <;> rfl

/-- What an authority that a credential resolves to rests on is there. -/
structure Founded (a : UploadAuthority) (d : Database) : Prop where
  library : (d.library.find? a.principal.libraryId).isSome
  personal : (d.personalLibraries.find? a.principal.userId).isSome
  key : ∀ k ∈ a.apiKeyId, (d.apiKeys.find? k).isSome
  permissions : ∀ k ∈ a.apiKeyId, (d.apiKeyUserPermissions.find? k).isSome

theorem founded_of_principal {user : UserId} {principal : Principal}
    (found : d.principalOf user = some principal) :
    (d.library.find? principal.libraryId).isSome ∧
      (d.personalLibraries.find? principal.userId).isSome := by
  obtain ⟨rfl, -, personal, kind⟩ := principalOf_eq_some.mp found
  obtain ⟨row, present, -⟩ := Option.map_eq_some_iff.mp kind
  exact ⟨Option.isSome_of_eq_some present, Option.isSome_of_eq_some personal⟩

theorem founded_of_resolved (valid : d.Valid) {credential : Credential} {a : UploadAuthority}
    (found : resolved config credential d = some a) : Founded a d := by
  obtain ⟨hash, user⟩ := credential
  cases user with
  | some user =>
      simp only [resolved] at found
      split at found
      · cases found
      · split at found
        · cases found
        · obtain ⟨principal, is_principal, rfl⟩ := Option.map_eq_some_iff.mp found
          obtain ⟨library, personal⟩ := founded_of_principal is_principal
          exact ⟨library, personal, by simp, by simp⟩
  | none =>
      obtain ⟨row, authenticated, rfl⟩ := Option.map_eq_some_iff.mp found
      obtain ⟨stored, is_principal, permitted⟩ :=
        (authenticateApiKey_eq_some valid).mp authenticated
      obtain ⟨library, personal⟩ := founded_of_principal is_principal
      refine ⟨library, personal, fun k same => ?_, fun k same => ?_⟩
      · obtain rfl := Option.some.inj same
        exact Option.isSome_of_eq_some stored
      · obtain rfl := Option.some.inj same
        exact Option.isSome_of_eq_some permitted

/-! ### Locks -/

theorem lockLibrary_run (U L : LibraryId) (d : Database) :
    (lockLibrary U L).run d = some (d, (d.library.find? L).map Library.version) := by
  unfold lockLibrary
  split <;> rfl

theorem lockLibraries_run {U : LibraryId} {libraries : List LibraryId}
    (known : ∀ L ∈ libraries, (d.library.find? L).isSome) (current : Option Int) :
    (lockLibraries U libraries current).run d =
      some (d, some (if U ∈ libraries then some (d.version U) else current)) := by
  induction libraries generalizing current with
  | nil => rfl
  | cons L libraries ih =>
      obtain ⟨row, found⟩ := Option.isSome_iff_exists.mp (known L List.mem_cons_self)
      have later := ih (fun M mem => known M (List.mem_cons_of_mem L mem))
        (if L = U then some row.version else current)
      rw [lockLibraries, Txn.run_bind, lockLibrary_run, Option.bind_some, found, Option.map_some]
      show Txn.run (D := Db) (lockLibraries U libraries
        (if L = U then some row.version else current)) d = _
      rw [later]
      by_cases here : L = U
      · subst here
        have version : d.version L = row.version := by simp [Database.version, found]
        simp [version]
      · simp [here, Ne.symm here]

theorem lockKeys_run {keys : List ApiKeyId} (nodup : keys.Nodup)
    (known : ∀ k ∈ keys, (d.apiKeys.find? k).isSome ∧ (d.apiKeyUserPermissions.find? k).isSome) :
    (lockKeys keys).run d = some (d, true) := by
  have rows := (count_sortIds nodup fun k => (d.apiKeys.find? k).isSome).mpr
    fun k mem => (known k mem).1
  have permissions := (count_sortIds nodup fun k => (d.apiKeyUserPermissions.find? k).isSome).mpr
    fun k mem => (known k mem).2
  rw [lockKeys, execute_bind_read rfl rfl]
  show Txn.run (D := Db) (if (List.filter _ _).length ≠ _ then _ else _) d = _
  rw [if_neg (not_not.mpr rows), execute_bind_read rfl rfl]
  show some (d, decide ((List.filter _ _).length = _)) = _
  rw [decide_eq_true permissions]

/-- The grants that are locked, of those keys. -/
def Database.lockedGrants (d : Database) (keys : List ApiKeyId) :
    Option GroupId → List ApiKeyId × List ApiKeyId
  | none => ([], [])
  | some group => ((sortIds keys).filter fun k => (d.apiKeyAllGroupsPermissions.find? k).isSome,
      (sortIds keys).filter fun k => (d.apiKeyGroupPermissions.find? (k, group)).isSome)

theorem lockGroupRows_run {owners : List UserId} (nodup : owners.Nodup) (keys : List ApiKeyId) :
    (lockGroupRows upload owners keys).run d =
      some (d, if ∀ group ∈ upload.groupId, ∀ u ∈ owners,
          (d.groupMemberships.find? (group, u)).isSome then
        some (d.lockedGrants keys upload.groupId) else none) := by
  unfold lockGroupRows
  cases upload.groupId with
  | none =>
      rw [if_pos fun _ none => nomatch none]
      rfl
  | some group =>
      have rows := count_sortIds nodup fun u => (d.groupMemberships.find? (group, u)).isSome
      show Txn.run (D := Db) (execute (.groupMembershipsForShare group owners) >>= _) d = _
      rw [execute_bind_read rfl rfl]
      show Txn.run (D := Db) (if (List.filter _ _).length ≠ _ then _ else _) d = _
      split
      · rename_i fewer
        rw [if_neg fun all => fewer (rows.mpr (all group rfl))]
        rfl
      · rename_i counted
        rw [if_pos]
        · rfl
        · intro group' same
          obtain rfl := Option.some.inj same
          exact rows.mp (not_not.mp counted)

/-- The owner of the upload's group, if it has one; `none` when it is not there. -/
def Database.groupOwner (d : Database) (upload : PendingUpload) : Option (List UserId) :=
  match upload.groupId with
  | none => some []
  | some group => ((d.groups.find? group).filter fun g => g.libraryId = upload.libraryId).map
      fun g => [g.ownerUserId]

theorem lockGroup_run : (lockGroup upload).run d = some (d, d.groupOwner upload) := by
  unfold lockGroup Database.groupOwner
  cases upload.groupId with
  | none => rfl
  | some group =>
      show Txn.run (D := Db) (execute (.groupForShare group upload.libraryId) >>= _) d = _
      rw [execute_bind_read rfl rfl]
      simp only [Sql.eval]
      cases (d.groups.find? group).filter fun g => g.libraryId = upload.libraryId <;> rfl

/-! ### The second look -/

theorem recheckAuthorities_run {all explicit : List ApiKeyId}
    {pairs : List (Credential × UploadAuthority)}
    (found : ∀ pair ∈ pairs, resolved config pair.1 d = some pair.2) :
    (recheckAuthorities config upload all explicit pairs).run d =
      some (d, pairs.all fun pair => pair.2.allowed upload
        (pair.2.apiKeyId.any all.contains, pair.2.apiKeyId.any explicit.contains) d) := by
  induction pairs with
  | nil => rfl
  | cons pair pairs ih =>
      obtain ⟨credential, authority⟩ := pair
      have here := found (credential, authority) List.mem_cons_self
      have later := ih fun pair mem => found pair (List.mem_cons_of_mem _ mem)
      rw [recheckAuthorities, Txn.run_bind, resolve_run, here, Option.bind_some]
      show Txn.run (D := Db) (if _ ∨ _ ∨ _ then _ else _) d = _
      rw [if_neg (by simp)]
      show Txn.run (D := Db) (authority.allows upload _ >>= _) d = _
      rw [Txn.run_bind, allows_run, Option.bind_some, List.all_cons]
      cases authority.allowed upload
        (authority.apiKeyId.any all.contains, authority.apiKeyId.any explicit.contains) d with
      | false => rfl
      | true => exact later

/-- The grants that were locked are the grants there are. -/
theorem allowed_lockedGrants {a : UploadAuthority} {keys : List ApiKeyId}
    (mem : ∀ k ∈ a.apiKeyId, k ∈ keys) :
    a.allowed upload (a.apiKeyId.any (d.lockedGrants keys upload.groupId).1.contains,
      a.apiKeyId.any (d.lockedGrants keys upload.groupId).2.contains) d =
      a.allowed upload (true, true) d := by
  obtain ⟨key, principal, permissions⟩ := a
  cases target : upload.groupId with
  | none => simp [allowed, target]
  | some group =>
      cases key with
      | none => simp [allowed, target, Database.groupLibraryRow]
      | some k =>
          have member := mem_sortIds.mpr (mem k rfl)
          simp only [allowed, target, Database.groupLibraryRow, Database.lockedGrants,
            Option.any_some, Option.bind_some, List.contains_eq_mem, List.mem_filter, member,
            true_and, if_true, Bool.decide_eq_true]
          cases d.apiKeyAllGroupsPermissions.find? k <;>
            cases d.apiKeyGroupPermissions.find? (k, group) <;> rfl

/-! ### The whole check -/

/-- Access to a group library is for a member, and the library is the row's. -/
theorem GroupLibraryRow.of_allowed {group : GroupId} {static : Option Permissions}
    {row : Option GroupLibraryRow} {access : LibraryAccess}
    (h : GroupLibraryRow.resolve group static row = .allowed access) :
    ∃ r, row = some r ∧ r.role.isSome ∧ access.libraryId = r.libraryId := by
  unfold GroupLibraryRow.resolve at h
  split at h
  · cases h
  · rename_i r
    split at h
    · cases h
    · rename_i role is_role
      simp only at h
      split at h
      · cases h
      · obtain rfl := GroupLibraryResolution.allowed.inj h
        exact ⟨r, rfl, Option.isSome_of_eq_some is_role, rfl⟩

theorem groupLibraryRow_eq_some {group : GroupId} {user : UserId} {key : Option ApiKeyId}
    {grantRows : Bool × Bool} {r : GroupLibraryRow}
    (h : d.groupLibraryRow group user key grantRows = some r) :
    ∃ g, d.groups.find? group = some g ∧ r.libraryId = g.libraryId ∧
      r.role = d.groupMemberships.find? (group, user) := by
  unfold Database.groupLibraryRow at h
  split at h
  · cases h
  · rename_i g found
    split at h
    · obtain rfl := Option.some.inj h
      exact ⟨g, found, rfl, rfl⟩
    · cases h

/-- A group uploader needs the group of the upload's library, and to be a member. -/
theorem group_of_allowed {group : GroupId} (target : upload.groupId = some group)
    {a : UploadAuthority} (allowed : a.allowed upload (true, true) d = true) :
    (∃ g, d.groups.find? group = some g ∧ g.libraryId = upload.libraryId) ∧
      (d.groupMemberships.find? (group, a.principal.userId)).isSome := by
  simp only [UploadAuthority.allowed, target] at allowed
  cases resolution : GroupLibraryRow.resolve group
      (if a.apiKeyId.isNone then some a.permissions else none)
      (d.groupLibraryRow group a.principal.userId a.apiKeyId (true, true)) with
  | missing | denied =>
      rw [resolution] at allowed
      cases allowed
  | allowed access =>
      have library : access.libraryId = upload.libraryId := by
        simp only [resolution, Bool.and_eq_true, decide_eq_true_eq] at allowed
        exact allowed.1
      obtain ⟨r, row, role, same⟩ := GroupLibraryRow.of_allowed resolution
      obtain ⟨g, found, of_group, of_member⟩ := groupLibraryRow_eq_some row
      exact ⟨⟨g, found, of_group.symm.trans (same.symm.trans library)⟩, of_member ▸ role⟩

theorem lockAuthorityRows_run {pairs : List (Credential × UploadAuthority)} (some_pair : pairs ≠ [])
    (found : ∀ pair ∈ pairs, resolved config pair.1 d = some pair.2)
    (founded : ∀ pair ∈ pairs, Founded pair.2 d) :
    (lockAuthorityRows config upload (pairs.map Prod.fst) (pairs.map Prod.snd)).run d =
      some (d, pairs.all fun pair => pair.2.allowed upload (true, true) d) := by
  have user : ∀ u ∈ sortIds ((pairs.map Prod.snd).map fun a => a.principal.userId),
      ∃ pair ∈ pairs, pair.2.principal.userId = u := fun u mem => by simpa using mem_sortIds.mp mem
  have key : ∀ k ∈ sortIds ((pairs.map Prod.snd).filterMap fun a => a.apiKeyId),
      ∃ pair ∈ pairs, k ∈ pair.2.apiKeyId := fun k mem => by simpa using mem_sortIds.mp mem
  rw [lockAuthorityRows, Txn.run_bind, lockGroup_run, Option.bind_some]
  cases group : d.groupOwner upload with
  | none =>
      -- Without its group nobody may upload, whatever is granted.
      have refused : (pairs.all fun pair => pair.2.allowed upload (true, true) d) = false := by
        obtain ⟨pair, mem⟩ := List.exists_mem_of_ne_nil pairs some_pair
        refine List.all_eq_false.mpr ⟨pair, mem, fun allowed => ?_⟩
        cases target : upload.groupId with
        | none => simp [Database.groupOwner, target] at group
        | some id =>
            obtain ⟨⟨g, is_g, library⟩, -⟩ := group_of_allowed target allowed
            simp [Database.groupOwner, target, is_g, library] at group
      rw [refused]
      rfl
  | some groupOwner =>
      show Txn.run (D := Db) (execute (.usersForShare _) >>= _) d = _
      rw [execute_bind_read rfl rfl, execute_bind_read rfl rfl]
      have mappings : (Sql.eval (.personalLibrariesForShare (sortIds ((pairs.map Prod.snd).map
          fun a => a.principal.userId))) d).length = (sortIds ((pairs.map Prod.snd).map
            fun a => a.principal.userId)).length := by
        refine (count_sortIds (nodup_sortIds _) _).mpr fun u mem => ?_
        obtain ⟨pair, member, rfl⟩ := user u mem
        exact (founded pair member).personal
      have keys := lockKeys_run (d := d) (nodup_sortIds _) fun k mem => by
        obtain ⟨pair, member, is_key⟩ := key k mem
        exact ⟨(founded pair member).key k is_key, (founded pair member).permissions k is_key⟩
      rw [if_neg (not_not.mpr mappings)]
      show Txn.run (D := Db) (lockKeys _ >>= _) d = _
      rw [Txn.run_bind, keys, Option.bind_some]
      show Txn.run (D := Db) (lockGroupRows upload _ _ >>= _) d = _
      rw [Txn.run_bind, lockGroupRows_run (nodup_sortIds _), Option.bind_some]
      by_cases members : ∀ group ∈ upload.groupId, ∀ u ∈ sortIds ((pairs.map Prod.snd).map
          fun a => a.principal.userId), (d.groupMemberships.find? (group, u)).isSome
      · rw [if_pos members]
        show Txn.run (D := Db) (recheckAuthorities config upload _ _
          ((pairs.map Prod.fst).zip (pairs.map Prod.snd))) d = _
        rw [List.zip_map', List.map_id'' (fun _ => rfl), recheckAuthorities_run found]
        refine congrArg (fun all => some (d, all)) (Bool.eq_iff_iff.mpr ?_)
        rw [List.all_eq_true, List.all_eq_true]
        refine forall₂_congr fun pair mem => ?_
        exact iff_of_eq (congrArg (· = true) (allowed_lockedGrants fun k is_key =>
          mem_sortIds.mpr (List.mem_filterMap.mpr ⟨pair.2, List.mem_map_of_mem mem, is_key⟩)))
      · rw [if_neg members]
        push Not at members
        obtain ⟨id, target, u, mem, absent⟩ := members
        obtain ⟨pair, member, rfl⟩ := user u mem
        have refused : (pairs.all fun pair => pair.2.allowed upload (true, true) d) = false :=
          List.all_eq_false.mpr ⟨pair, member, fun allowed =>
            absent (group_of_allowed target allowed).2⟩
        rw [refused]
        rfl

/-- With nothing else going on, the locks are taken exactly if both callers may upload. -/
theorem lockUploadAuthorities_run (valid : d.Valid)
    (known : (d.library.find? upload.libraryId).isSome) (digests : Digests)
    (context : RequestContext) :
    (lockUploadAuthorities digests config upload context).run d =
      some (d, if (uploadCredentials digests upload context).all (d.authorizes config upload) then
        some (d.version upload.libraryId) else none) := by
  rw [lockUploadAuthorities, Txn.run_bind, discoverAuthorities_run, Option.bind_some]
  cases mapM_cases (fun credential => resolved config credential d)
      (uploadCredentials digests upload context) with
  | inl unresolved =>
      obtain ⟨none, credential, mem, missing⟩ := unresolved
      have refused : ((uploadCredentials digests upload context).all
          (d.authorizes config upload)) = false :=
        List.all_eq_false.mpr ⟨credential, mem, by simp [Database.authorizes, missing]⟩
      rw [none, refused]
      rfl
  | inr resolves =>
      obtain ⟨pairs, split, all, found⟩ := resolves
      have founded (pair) (mem : pair ∈ pairs) := founded_of_resolved valid (found pair mem)
      have some_pair : pairs ≠ [] := by
        intro none
        simp [none, uploadCredentials] at split
      have same : (uploadCredentials digests upload context).all (d.authorizes config upload) =
          pairs.all fun pair => pair.2.allowed upload (true, true) d := by
        rw [split, List.all_map]
        refine Bool.eq_iff_iff.mpr ?_
        rw [List.all_eq_true, List.all_eq_true]
        refine forall₂_congr fun pair mem => ?_
        simp [Database.authorizes, found pair mem]
      have libraries : ∀ L ∈ sortIds (upload.libraryId ::
          (pairs.map Prod.snd).map fun a => a.principal.libraryId),
          (d.library.find? L).isSome := by
        intro L mem
        cases List.mem_cons.mp (mem_sortIds.mp mem) with
        | inl here => exact here ▸ known
        | inr own =>
            obtain ⟨a, member, rfl⟩ := List.mem_map.mp own
            obtain ⟨pair, is_pair, rfl⟩ := List.mem_map.mp member
            exact (founded pair is_pair).library
      have named : upload.libraryId ∈ sortIds (upload.libraryId ::
          (pairs.map Prod.snd).map fun a => a.principal.libraryId) :=
        mem_sortIds.mpr List.mem_cons_self
      rw [all, same, split]
      show Txn.run (D := Db) (lockLibraries upload.libraryId _ none >>= _) d = _
      rw [Txn.run_bind, lockLibraries_run libraries, if_pos named, Option.bind_some]
      show Txn.run (D := Db) (lockAuthorityRows config upload _ _ >>= _) d = _
      rw [Txn.run_bind, lockAuthorityRows_run some_pair found founded, Option.bind_some]
      cases pairs.all fun pair => pair.2.allowed upload (true, true) d <;> rfl

/-! ### The registration -/

/-- What the database took when the row was inserted. -/
theorem storable_of_checked (checked : upload.checked = true) :
    storable upload.itemKey = true ∧
      [upload.blobKey, upload.md5, upload.uploadMd5, upload.filename].all storable = true ∧
      storable upload.md5 = true ∧ storable upload.filename = true := by
  simp only [PendingUpload.checked, List.all_cons, Bool.and_eq_true] at checked
  simp [checked]

/-- The compare-and-swap as one step. -/
def Database.swap (d : Database) (token : Digest) (L : LibraryId) (row : PendingUploadRow) :
    Database × FileRegistrationOutcome :=
  let discarded := d.withPending token (some (row.withState .discarded))
  if d.attachment L row.upload.itemKey = false then (discarded, .invalidItem)
  else if preconditionMatches row.upload.expectedMd5
      ((d.file.find? (L, row.upload.itemKey)).map File.md5) = false then
    (discarded, .conflict (d.version L))
  else
    ((Database.edit L (d.version L + 1) (d.setVersion L (d.version L + 1))
      (.register row.upload.itemKey row.upload)).withPending token none,
      .done (d.version L + 1))

theorem registerLocked_swap {token : Digest} {L : LibraryId} {row : PendingUploadRow}
    (found : d.pendingUploads.find? token = some row) (checked : row.upload.checked = true) :
    (registerLocked token row.upload.itemKey L row.upload (d.version L)).run d =
      some ((d.swap token L row).1, .commit (d.swap token L row).2) := by
  obtain ⟨key, file, md5, filename⟩ := storable_of_checked checked
  have answered : ((registerLocked token row.upload.itemKey L row.upload (d.version L)).run
      d).isSome := by
    rw [registerLocked, execute_bind_read (q := .itemForUpdate L row.upload.itemKey) key rfl]
    split
    · rfl
    · rw [execute_bind_read (q := .fileMd5 L row.upload.itemKey) key rfl]
      split
      · rfl
      · have upsert : (Sql.upsertFile L row.upload.itemKey
            (registeredFile row.upload (d.version L + 1))).accepted = true :=
          Bool.and_eq_true_iff.mpr ⟨key, file⟩
        have stamp : (Sql.stampItem L row.upload.itemKey (d.version L + 1) row.upload.md5
            row.upload.mtime row.upload.filename).accepted = true :=
          Bool.and_eq_true_iff.mpr ⟨Bool.and_eq_true_iff.mpr ⟨key, md5⟩, filename⟩
        rw [execute_bind_takes rfl, execute_bind_takes upsert, execute_bind_takes stamp,
          execute_bind_takes rfl]
        rfl
  obtain ⟨⟨d', e⟩, run⟩ := Option.isSome_iff_exists.mp answered
  rw [run, Database.swap]
  obtain ⟨item, rfl, rfl⟩ | ⟨item, mismatch, rfl, rfl⟩ | ⟨item, same, rfl, rfl⟩ :=
    registerLocked_run found run
  · simp [item]
  · simp [item, mismatch]
  · simp [item, same]

/-- What a registration comes to, by one look at the state. -/
def Database.register (d : Database) (digests : Digests) (config : Config) (token : Digest)
    (itemKey : String) (access : LibraryAccess) (context : RequestContext) (now : Int) :
    Database × FileRegistrationOutcome :=
  match d.pendingUploads.find? token with
  | none => (d, .invalidUpload)
  | some row =>
      if row.live now = false then
        (d.withPending token (some (row.withState .discarded)), .invalidUpload)
      else if row.upload.state ≠ .uploaded ∨ row.upload.libraryId ≠ access.libraryId ∨
          row.upload.groupId ≠ access.groupId ∨ row.upload.itemKey ≠ itemKey then
        (d, .invalidUpload)
      else if (uploadCredentials digests row.upload context).all
          (d.authorizes config row.upload) = false then
        (d, .denied)
      else d.swap token access.libraryId row

/-- A registration alone does what one look decides, and nothing when it refuses. -/
theorem registerFile_atomically (valid : d.Valid) {token : Digest}
    (checked : ∀ row, d.pendingUploads.find? token = some row → row.upload.checked = true)
    (digests : Digests) (itemKey : String) (access : LibraryAccess) (context : RequestContext)
    (now : Int) :
    (registerFile digests config token itemKey access context now).atomically d =
      ((d.register digests config token itemKey access context now).1,
        some (d.register digests config token itemKey access context now).2) := by
  rw [Txn.atomically, registerFile, execute_bind_read rfl rfl]
  simp only [Sql.eval, Database.register]
  cases found : d.pendingUploads.find? token with
  | none => rfl
  | some row =>
      have known : (d.library.find? row.upload.libraryId).isSome :=
        valid.pending_uploads_library _ (Table.mem_rows.mpr found)
      simp only [Option.map_some]
      by_cases dead : row.live now = false
      · rw [if_pos dead, if_pos (by simp [dead]), execute_bind_takes rfl, discardUpload_eq found]
        rfl
      · rw [if_neg dead, if_neg (by simpa using dead)]
        by_cases apart : row.upload.state ≠ .uploaded ∨ row.upload.libraryId ≠ access.libraryId ∨
            row.upload.groupId ≠ access.groupId ∨ row.upload.itemKey ≠ itemKey
        · rw [if_pos apart, if_pos apart]
          rfl
        · rw [if_neg apart, if_neg apart, Txn.run_bind,
            lockUploadAuthorities_run valid known, Option.bind_some]
          cases (uploadCredentials digests row.upload context).all
              (d.authorizes config row.upload) with
          | false => rfl
          | true =>
              obtain ⟨-, library, -, item⟩ : row.upload.state = .uploaded ∧
                  row.upload.libraryId = access.libraryId ∧
                  row.upload.groupId = access.groupId ∧ row.upload.itemKey = itemKey := by
                simpa using apart
              have swap := registerLocked_swap (L := access.libraryId) found (checked row found)
              rw [item] at swap
              simp only [if_true, library, swap, Bool.true_eq_false, if_false]

end

end Xotero
