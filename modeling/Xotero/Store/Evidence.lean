import Xotero.Store.Registration

/-!
What an upload authority rests on. Two states that agree on the rows a
credential resolves through agree on the authority, and further grants only add
to it; so the locks of a successful check keep both authorities as they were.
-/

namespace Xotero

/-! ### Authorities of one state -/

namespace UploadAuthority

def resolved (config : Config) (credential : Credential) (d : Database) :
    Option UploadAuthority :=
  match credential.2 with
  | some userId =>
      if userId ≠ config.userId then none
      else
        match config.recoveryPermissions credential.1 with
        | none => none
        | some permissions =>
            (d.principalOf userId).map fun principal => ⟨none, principal, permissions⟩
  | none =>
      (Sql.eval (.authenticateApiKey credential.1) d).map fun row => ⟨some row.1, row.2.1, row.2.2⟩

def allowed (authority : UploadAuthority) (upload : PendingUpload) (grantRows : Bool × Bool)
    (d : Database) : Bool :=
  match upload.groupId with
  | none =>
      authority.principal.libraryId = upload.libraryId &&
        authority.permissions.library && authority.permissions.write &&
        authority.permissions.files
  | some group =>
      match GroupLibraryRow.resolve group
          (if authority.apiKeyId.isNone then some authority.permissions else none)
          (d.groupLibraryRow group authority.principal.userId authority.apiKeyId grantRows) with
      | .allowed access => access.libraryId = upload.libraryId && access.fileWrite
      | .denied | .missing => false

end UploadAuthority

open UploadAuthority

theorem resolve_run (config : Config) (credential : Credential) (d : Database) :
    (UploadAuthority.resolve config credential.1 credential.2).run d =
      some (d, resolved config credential d) := by
  obtain ⟨hash, user⟩ := credential
  cases user with
  | none => rfl
  | some user =>
      simp only [UploadAuthority.resolve, resolved]
      split
      · rfl
      · cases config.recoveryPermissions hash <;> rfl

theorem resolveGroupLibraryWithGrants_run (group : GroupId) (user : UserId)
    (key : Option ApiKeyId) (staticPermissions : Option Permissions) (grantRows : Bool × Bool)
    (d : Database) :
    (resolveGroupLibraryWithGrants group user key staticPermissions grantRows).run d =
      some (d, GroupLibraryRow.resolve group staticPermissions
        (d.groupLibraryRow group user key grantRows)) := rfl

theorem allows_run (authority : UploadAuthority) (upload : PendingUpload)
    (grantRows : Bool × Bool) (d : Database) :
    (authority.allows upload grantRows).run d =
      some (d, authority.allowed upload grantRows d) := by
  unfold UploadAuthority.allows UploadAuthority.allowed
  cases upload.groupId with
  | none => rfl
  | some group =>
      simp only [Txn.run_bind, resolveGroupLibraryWithGrants_run, Option.bind_some]
      split <;> simp_all

/-- The credential resolves and is allowed file writes on the upload's library. -/
def HasAuthority (config : Config) (upload : PendingUpload) (credential : Credential)
    (d : Database) : Prop :=
  ∃ authority, (UploadAuthority.resolve config credential.1 credential.2).run d =
      some (d, some authority) ∧
    (authority.allows upload (true, true)).run d = some (d, true)

theorem hasAuthority_iff {config : Config} {upload : PendingUpload} {credential : Credential}
    {d : Database} : HasAuthority config upload credential d ↔
      ∃ authority, resolved config credential d = some authority ∧
        authority.allowed upload (true, true) d = true := by
  simp only [HasAuthority, resolve_run, allows_run, Option.some.injEq, Prod.mk.injEq, true_and]

/-! ### Rows that agree -/

/-- Two states with the same rows behind a principal. -/
structure PrincipalAgree (principal : Principal) (d d' : Database) : Prop where
  library : LibraryAgree principal.libraryId d d'
  user : d.users.find? principal.userId = d'.users.find? principal.userId
  personalLibrary : d.personalLibraries.find? principal.userId =
    d'.personalLibraries.find? principal.userId

theorem principalOf_eq_some {d : Database} {user : UserId} {principal : Principal} :
    d.principalOf user = some principal ↔ principal.userId = user ∧
      d.users.find? user = some ⟨principal.username, principal.displayName, none⟩ ∧
      d.personalLibraries.find? user = some principal.libraryId ∧
      (d.library.find? principal.libraryId).map Library.kind = some .personal := by
  unfold Database.principalOf
  constructor
  · intro found
    split at found
    · split at found
      · obtain rfl := Option.some.inj found
        rename_i u L user mapping active
        exact ⟨rfl, by rw [user, ← active.1], mapping, active.2⟩
      · cases found
    · cases found
  · rintro ⟨rfl, user, mapping, kind⟩
    simp [user, mapping, kind]

theorem PrincipalAgree.principalOf {principal : Principal} {d d' : Database}
    (h : PrincipalAgree principal d d')
    (found : d.principalOf principal.userId = some principal) :
    d'.principalOf principal.userId = some principal := by
  obtain ⟨-, user, mapping, kind⟩ := principalOf_eq_some.mp found
  exact principalOf_eq_some.mpr ⟨rfl, h.user ▸ user, h.personalLibrary ▸ mapping,
    h.library.library ▸ kind⟩

/-- Two states with the same rows behind an authority. -/
structure AuthorityAgree (authority : UploadAuthority) (d d' : Database) : Prop where
  principal : PrincipalAgree authority.principal d d'
  apiKey : ∀ k ∈ authority.apiKeyId, d.apiKeys.find? k = d'.apiKeys.find? k
  permissions : ∀ k ∈ authority.apiKeyId,
    d.apiKeyUserPermissions.find? k = d'.apiKeyUserPermissions.find? k

theorem apiKeyRow_eq_some {d : Database} {hash : Digest} {k id : ApiKeyId} {key : ApiKey}
    {principal : Principal} {permissions : Permissions} :
    d.apiKeyRow hash k key = some (id, principal, permissions) ↔
      k = id ∧ key = ⟨principal.userId, hash, none⟩ ∧
        d.principalOf principal.userId = some principal ∧
        d.apiKeyUserPermissions.find? id = some permissions := by
  unfold Database.apiKeyRow
  constructor
  · intro found
    split at found
    · rename_i live
      split at found
      · rename_i p q hp hq
        obtain ⟨rfl, rfl, rfl⟩ : k = id ∧ p = principal ∧ q = permissions := by
          simpa using found
        have owner := (principalOf_eq_some.mp hp).1
        obtain ⟨user, tokenHash, revokedAt⟩ := key
        obtain ⟨rfl, rfl⟩ := live
        obtain rfl : p.userId = user := owner
        exact ⟨rfl, rfl, hp, hq⟩
      · cases found
    · cases found
  · rintro ⟨rfl, rfl, hp, hq⟩
    simp [hp, hq]

/-- One key at most has a given digest. -/
theorem authenticateApiKey_eq_some {d : Database} (valid : d.Valid) {hash : Digest}
    {id : ApiKeyId} {principal : Principal} {permissions : Permissions} :
    Sql.eval (.authenticateApiKey hash) d = some (id, principal, permissions) ↔
      d.apiKeys.find? id = some ⟨principal.userId, hash, none⟩ ∧
        d.principalOf principal.userId = some principal ∧
        d.apiKeyUserPermissions.find? id = some permissions := by
  simp only [Sql.eval]
  constructor
  · intro found
    obtain ⟨⟨k, key⟩, member, row⟩ := List.exists_of_findSome?_eq_some found
    obtain ⟨rfl, rfl, facts⟩ := apiKeyRow_eq_some.mp row
    exact ⟨Table.mem_rows.mp member, facts⟩
  · rintro ⟨stored, facts⟩
    have member := Table.mem_rows.mpr stored
    have row : d.apiKeyRow hash id ⟨principal.userId, hash, none⟩ =
        some (id, principal, permissions) := apiKeyRow_eq_some.mpr ⟨rfl, rfl, facts⟩
    cases hf : d.apiKeys.rows.findSome? fun e => d.apiKeyRow hash e.1 e.2 with
    | none => exact absurd (List.findSome?_eq_none_iff.mp hf _ member) (by simp [row])
    | some found =>
        obtain ⟨⟨k, key⟩, member', row'⟩ := List.exists_of_findSome?_eq_some hf
        obtain ⟨id', principal', permissions'⟩ := found
        have same : key.tokenHash = hash :=
          congrArg ApiKey.tokenHash (apiKeyRow_eq_some.mp row').2.1
        obtain rfl : k = id := valid.api_keys_token_hash_unique _ member' _ member same
        obtain rfl := Option.some.inj ((Table.mem_rows.mp member').symm.trans stored)
        exact row'.symm.trans row

/-- The authority stays resolved while its rows stay the same. -/
theorem AuthorityAgree.resolved {config : Config} {credential : Credential}
    {authority : UploadAuthority} {d d' : Database} (h : AuthorityAgree authority d d')
    (valid : d.Valid) (valid' : d'.Valid)
    (found : resolved config credential d = some authority) :
    UploadAuthority.resolved config credential d' = some authority := by
  obtain ⟨hash, user⟩ := credential
  cases user with
  | some user =>
      simp only [UploadAuthority.resolved] at found ⊢
      split at found
      · cases found
      rename_i same
      rw [if_neg same]
      split at found
      · cases found
      obtain ⟨principal, hp, rfl⟩ := Option.map_eq_some_iff.mp found
      obtain rfl := (principalOf_eq_some.mp hp).1
      rw [h.principal.principalOf hp]
      rfl
  | none =>
      simp only [UploadAuthority.resolved] at found ⊢
      obtain ⟨⟨id, principal, permissions⟩, hr, rfl⟩ := Option.map_eq_some_iff.mp found
      obtain ⟨stored, hp, hq⟩ := (authenticateApiKey_eq_some valid).mp hr
      refine Option.map_eq_some_iff.mpr ⟨(id, principal, permissions), ?_, rfl⟩
      refine (authenticateApiKey_eq_some valid').mpr ⟨?_, h.principal.principalOf hp, ?_⟩
      · exact h.apiKey id rfl ▸ stored
      · exact h.permissions id rfl ▸ hq

/-! ### Grants -/

/-- One row of the query allows at least what another does. -/
structure GroupLibraryRow.Le (row row' : GroupLibraryRow) : Prop where
  libraryId : row'.libraryId = row.libraryId
  libraryEditing : row'.libraryEditing = row.libraryEditing
  fileEditing : row'.fileEditing = row.fileEditing
  role : row'.role = row.role
  allLibrary : row.allLibrary → row'.allLibrary
  allWrite : row.allWrite → row'.allWrite
  explicitLibrary : row.explicitLibrary → row'.explicitLibrary
  explicitWrite : row.explicitWrite → row'.explicitWrite

theorem GroupLibraryRow.Le.resolve {row row' : GroupLibraryRow} (h : row.Le row')
    {group : GroupId} {static : Option Permissions} {access : LibraryAccess}
    (allowed : GroupLibraryRow.resolve group static (some row) = .allowed access)
    (writes : access.fileWrite = true) :
    ∃ access', GroupLibraryRow.resolve group static (some row') = .allowed access' ∧
      access'.libraryId = access.libraryId ∧ access'.fileWrite = true := by
  obtain ⟨libraryId, libraryEditing, fileEditing, role, allLibrary, allWrite, explicitLibrary,
    explicitWrite⟩ := row
  obtain ⟨libraryId', libraryEditing', fileEditing', role', allLibrary', allWrite',
    explicitLibrary', explicitWrite'⟩ := row'
  obtain ⟨rfl, rfl, rfl, rfl, moreLibrary, moreWrite, moreExplicit, moreExplicitWrite⟩ := h
  cases role' with
  | none => simp [GroupLibraryRow.resolve] at allowed
  | some role =>
      simp only [GroupLibraryRow.resolve] at allowed ⊢
      split at allowed
      · cases allowed
      rename_i granted
      obtain rfl := GroupLibraryResolution.allowed.inj allowed
      simp only [Bool.and_eq_true] at writes
      refine ⟨_, if_neg ?_, rfl, ?_⟩
      · intro refused
        apply granted
        clear writes allowed
        grind
      · rw [Bool.and_eq_true]
        refine ⟨?_, writes.2⟩
        have written := writes.1
        clear allowed writes granted
        grind

/-- Two states with the same rows behind an access to a group; of the grants,
those that are looked at. -/
structure GroupAgree (group : GroupId) (user : UserId) (key : Option ApiKeyId)
    (grantRows : Bool × Bool) (d d' : Database) : Prop where
  row : d.groups.find? group = d'.groups.find? group
  library : ∀ g ∈ d.groups.find? group, LibraryAgree g.libraryId d d'
  owner : ∀ g ∈ d.groups.find? group,
    d.users.find? g.ownerUserId = d'.users.find? g.ownerUserId
  membership : d.groupMemberships.find? (group, user) = d'.groupMemberships.find? (group, user)
  allGrant : grantRows.1 → ∀ k ∈ key,
    d.apiKeyAllGroupsPermissions.find? k = d'.apiKeyAllGroupsPermissions.find? k
  explicitGrant : grantRows.2 → ∀ k ∈ key,
    d.apiKeyGroupPermissions.find? (k, group) = d'.apiKeyGroupPermissions.find? (k, group)

theorem any_grant_mono {key : Option ApiKeyId} {looked : Bool} {f f' : ApiKeyId → Option Grant}
    (same : looked → ∀ k ∈ key, f k = f' k) (p : Grant → Bool)
    (held : (key.bind fun k => if looked then f k else none).any p) :
    (key.bind fun k => if true then f' k else none).any p := by
  cases key with
  | none => simp at held
  | some k =>
      cases looked with
      | false => simp at held
      | true => simpa [same rfl k rfl] using held

/-- With all grants the row allows at least what it did with some. -/
theorem GroupAgree.le {group : GroupId} {user : UserId} {key : Option ApiKeyId}
    {grantRows : Bool × Bool} {d d' : Database} (h : GroupAgree group user key grantRows d d')
    {row : GroupLibraryRow} (found : d.groupLibraryRow group user key grantRows = some row) :
    ∃ row', d'.groupLibraryRow group user key (true, true) = some row' ∧ row.Le row' := by
  unfold Database.groupLibraryRow at found ⊢
  rw [← h.row]
  cases hg : d.groups.find? group with
  | none => simp [hg] at found
  | some g =>
      rw [hg] at found
      simp only at found ⊢
      rw [← (h.library g hg).library, ← h.owner g hg]
      split at found
      · rename_i live
        obtain rfl := Option.some.inj found
        have explicit : grantRows.2 → ∀ k ∈ key,
            (d.apiKeyGroupPermissions.find? (k, group)).map (·.grant) =
              (d'.apiKeyGroupPermissions.find? (k, group)).map (·.grant) :=
          fun looked k hk => by rw [h.explicitGrant looked k hk]
        exact ⟨_, if_pos live, rfl, rfl, rfl, h.membership.symm,
          any_grant_mono h.allGrant _, any_grant_mono h.allGrant _,
          any_grant_mono explicit _, any_grant_mono explicit _⟩
      · cases found

/-- An authority allowed on some of its grants is allowed on all of them. -/
theorem UploadAuthority.allowed_mono {authority : UploadAuthority} {upload : PendingUpload}
    {grantRows : Bool × Bool} {d d' : Database}
    (agree : ∀ group ∈ upload.groupId,
      GroupAgree group authority.principal.userId authority.apiKeyId grantRows d d')
    (h : authority.allowed upload grantRows d = true) :
    authority.allowed upload (true, true) d' = true := by
  unfold UploadAuthority.allowed at h ⊢
  cases hg : upload.groupId with
  | none => simpa [hg] using h
  | some group =>
      simp only [hg] at h ⊢
      cases hr : d.groupLibraryRow group authority.principal.userId authority.apiKeyId
          grantRows with
      | none => simp [hr, GroupLibraryRow.resolve] at h
      | some row =>
          obtain ⟨row', found, le⟩ := (agree group hg).le hr
          rw [hr] at h
          rw [found]
          split at h
          · rename_i access allowed
            simp only [Bool.and_eq_true, decide_eq_true_eq] at h
            obtain ⟨access', allowed', library, writes⟩ := le.resolve allowed h.2
            rw [allowed']
            simp [library, writes, h.1]
          · cases h
          · cases h

/-! ### Locked evidence -/

/-- Some lock on the row is held. -/
def Held (held : List (RowLock RowId)) (k : RowId) : Prop := ∃ m, ⟨k, m⟩ ∈ held

theorem Held.mono {held held' : List (RowLock RowId)} {k : RowId} (h : Held held k)
    (sub : held ⊆ held') : Held held' k :=
  have ⟨m, hm⟩ := h
  ⟨m, sub hm⟩

theorem Held.agree {held : List (RowLock RowId)} {k : RowId} {d d' : Database} (h : Held held k)
    (i : Interference Db held d d') : Agree k d d' :=
  have ⟨_, hm⟩ := h
  i.2 _ hm

/-- The locks of a check that got as far as its second look at the authorities. -/
structure EvidenceLocked (upload : PendingUpload) (authorities : List UploadAuthority)
    (allGrants explicitGrants : List ApiKeyId) (held : List (RowLock RowId)) (d : Database) :
    Prop where
  uploadLibrary : Held held (.library upload.libraryId)
  libraries : ∀ a ∈ authorities, Held held (.library a.principal.libraryId)
  users : ∀ a ∈ authorities, Held held (.user a.principal.userId)
  personalLibraries : ∀ a ∈ authorities, Held held (.personalLibrary a.principal.userId)
  apiKeys : ∀ a ∈ authorities, ∀ k ∈ a.apiKeyId, Held held (.apiKey k)
  permissions : ∀ a ∈ authorities, ∀ k ∈ a.apiKeyId, Held held (.apiKeyUserPermissions k)
  group : ∀ group ∈ upload.groupId, Held held (.group group)
  owner : ∀ group ∈ upload.groupId, ∀ g ∈ d.groups.find? group,
    g.libraryId = upload.libraryId ∧ Held held (.user g.ownerUserId)
  memberships : ∀ group ∈ upload.groupId, ∀ a ∈ authorities,
    Held held (.groupMembership group a.principal.userId)
  allGrants : ∀ group ∈ upload.groupId, ∀ k ∈ allGrants,
    Held held (.apiKeyAllGroupsPermissions k)
  explicitGrants : ∀ group ∈ upload.groupId, ∀ k ∈ explicitGrants,
    Held held (.apiKeyGroupPermission k group)

section EvidenceLocked
variable {upload : PendingUpload} {authorities : List UploadAuthority}
  {allGrants explicitGrants : List ApiKeyId} {held held' : List (RowLock RowId)}
  {d d' : Database}

theorem EvidenceLocked.stable
    (h : EvidenceLocked upload authorities allGrants explicitGrants held d) (sub : held ⊆ held')
    (i : Interference Db held d d') :
    EvidenceLocked upload authorities allGrants explicitGrants held' d' where
  uploadLibrary := h.uploadLibrary.mono sub
  libraries a ha := (h.libraries a ha).mono sub
  users a ha := (h.users a ha).mono sub
  personalLibraries a ha := (h.personalLibraries a ha).mono sub
  apiKeys a ha k hk := (h.apiKeys a ha k hk).mono sub
  permissions a ha k hk := (h.permissions a ha k hk).mono sub
  group group hg := (h.group group hg).mono sub
  owner group hg g hr := by
    have same : d.groups.find? group = d'.groups.find? group := (h.group group hg).agree i
    obtain ⟨library, owner⟩ := h.owner group hg g (same ▸ hr)
    exact ⟨library, owner.mono sub⟩
  memberships group hg a ha := (h.memberships group hg a ha).mono sub
  allGrants group hg k hk := (h.allGrants group hg k hk).mono sub
  explicitGrants group hg k hk := (h.explicitGrants group hg k hk).mono sub

/-- An authority with the identity of one whose rows are locked keeps its rows. -/
theorem EvidenceLocked.authorityAgree
    (h : EvidenceLocked upload authorities allGrants explicitGrants held d)
    (i : Interference Db held d d') {current discovered : UploadAuthority}
    (member : discovered ∈ authorities) (key : current.apiKeyId = discovered.apiKeyId)
    (user : current.principal.userId = discovered.principal.userId)
    (library : current.principal.libraryId = discovered.principal.libraryId) :
    AuthorityAgree current d d' where
  principal := ⟨library ▸ (h.libraries _ member).agree i, user ▸ (h.users _ member).agree i,
    user ▸ (h.personalLibraries _ member).agree i⟩
  apiKey k hk := (h.apiKeys _ member k (key ▸ hk)).agree i
  permissions k hk := (h.permissions _ member k (key ▸ hk)).agree i

theorem EvidenceLocked.groupAgree
    (h : EvidenceLocked upload authorities allGrants explicitGrants held d)
    (i : Interference Db held d d') {current discovered : UploadAuthority}
    (member : discovered ∈ authorities)
    (user : current.principal.userId = discovered.principal.userId) {group : GroupId}
    (hg : group ∈ upload.groupId) :
    GroupAgree group current.principal.userId current.apiKeyId
      (current.apiKeyId.any allGrants.contains, current.apiKeyId.any explicitGrants.contains)
      d d' where
  row := (h.group group hg).agree i
  library g hr := (h.owner group hg g hr).1 ▸ h.uploadLibrary.agree i
  owner g hr := (h.owner group hg g hr).2.agree i
  membership := user ▸ (h.memberships group hg _ member).agree i
  allGrant looked k hk := by
    rw [Option.mem_def.mp hk] at looked
    exact (h.allGrants group hg k (by simpa using looked)).agree i
  explicitGrant looked k hk := by
    rw [Option.mem_def.mp hk] at looked
    exact (h.explicitGrants group hg k (by simpa using looked)).agree i

end EvidenceLocked

end Xotero
