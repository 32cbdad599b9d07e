import Xotero.Store.Evidence

/-!
The authority check of a registration, statement by statement: each lock
statement secures the rows it finds, and the counts secure the rows it asks for.
What passes at the end is then evidence that nobody else can take away.
-/

namespace Xotero

section Statements
variable {A : Sql → Database → Prop} {held : List (RowLock RowId)} {s : Database}

theorem ensures_resolve (config : Config) (credential : Credential)
    (held : List (RowLock RowId)) (s : Database) :
    Ensures (D := Db) A (fun o _ log d => log = [] ∧ ∃ v, Interference Db held s v ∧
        Interference Db held v d ∧ o = UploadAuthority.resolved config credential v)
      (UploadAuthority.resolve config credential.1 credential.2) held [] s := by
  obtain ⟨hash, user⟩ := credential
  cases user with
  | none =>
      refine Ensures.map (ensures_execute (q := .authenticateApiKey hash) fun d d' i _ i' => ?_)
      exact ⟨rfl, d, i, i'.mono (List.subset_append_left _ _), rfl⟩
  | some user =>
      refine Ensures.ite (fun other => ?_) fun same => ?_
      · exact fun d i => ⟨rfl, d, i, .refl _ _, by simp [UploadAuthority.resolved, other]⟩
      · cases recovery : config.recoveryPermissions hash with
        | none => exact fun d i => ⟨rfl, d, i, .refl _ _, by
            simp [UploadAuthority.resolved, recovery]⟩
        | some permissions =>
            refine Ensures.map (ensures_execute
              (q := .bootstrapPrincipal user) fun d d' i _ i' => ?_)
            refine ⟨rfl, d, i, i'.mono (List.subset_append_left _ _), ?_⟩
            simp only [UploadAuthority.resolved, if_neg same, recovery]
            rfl

theorem ensures_allows (authority : UploadAuthority) (upload : PendingUpload)
    (grantRows : Bool × Bool) (held : List (RowLock RowId)) (s : Database) :
    Ensures (D := Db) A (fun o _ log d => log = [] ∧ ∃ v, Interference Db held s v ∧
        Interference Db held v d ∧ o = authority.allowed upload grantRows v)
      (authority.allows upload grantRows) held [] s := by
  unfold UploadAuthority.allows UploadAuthority.allowed
  cases upload.groupId with
  | none => exact fun d i => ⟨rfl, d, i, .refl _ _, rfl⟩
  | some group =>
      refine Ensures.bind (Ensures.map (ensures_execute (q := .resolveGroupLibrary group _ _ _)
        fun d d' i _ i' => ?_))
      have i' := i'.mono (List.subset_append_left held _)
      have later {locks : List (RowLock RowId)} {d'' : Database}
          (i'' : Interference Db (held ++ locks) d' d'') : Interference Db held d d'' :=
        i'.trans (i''.mono (List.subset_append_left held locks))
      cases allowed : GroupLibraryRow.resolve group
          (if authority.apiKeyId.isNone then some authority.permissions else none)
          (d.groupLibraryRow group authority.principal.userId authority.apiKeyId grantRows) with
      | missing | denied | allowed =>
          simp only [Sql.eval, allowed]
          exact fun d'' i'' => ⟨rfl, d, i, later i'', by rw [allowed]⟩

/-- On locked evidence a check that passes goes on holding. -/
theorem ensures_recheckAuthorities (config : Config) {upload : PendingUpload}
    {authorities : List UploadAuthority} {allGrants explicitGrants : List ApiKeyId}
    (pairs : List (Credential × UploadAuthority)) (members : ∀ pair ∈ pairs, pair.2 ∈ authorities)
    {held : List (RowLock RowId)} {s : Database} (valid : s.Valid)
    (locked : EvidenceLocked upload authorities allGrants explicitGrants held s) :
    Ensures (D := Db) A (fun o held' _ d => o = true → ∀ pair ∈ pairs, ∀ d',
        Interference Db held' d d' → HasAuthority config upload pair.1 d')
      (recheckAuthorities config upload allGrants explicitGrants pairs) held [] s := by
  induction pairs generalizing held s with
  | nil => exact fun _ _ _ pair member => nomatch member
  | cons pair pairs ih =>
      obtain ⟨credential, discovered⟩ := pair
      refine Ensures.bind ((ensures_resolve config credential held s).frame.imp ?_)
      rintro current held₁ log d₁ ⟨⟨rfl, v, i, i', resolved⟩, sub₁, i₁⟩
      cases current with
      | none => exact fun _ _ same => nomatch same
      | some current =>
          refine Ensures.ite (fun _ _ _ same => nomatch same) fun same => ?_
          simp only [not_or, ne_eq, Decidable.not_not] at same
          have member := members _ List.mem_cons_self
          refine Ensures.bind ((ensures_allows current upload _ held₁ d₁).frame.imp ?_)
          rintro allows held₂ log d₂ ⟨⟨rfl, v', j, j', allowed⟩, sub₂, i₂⟩
          refine Ensures.ite (fun passed => ?_) fun _ _ _ same => nomatch same
          have locked₁ := locked.stable sub₁ i₁
          have locked₂ := locked₁.stable sub₂ i₂
          have valid₁ := i₁.1 valid
          refine (ih (fun pair h => members pair (List.mem_cons_of_mem _ h)) (i₂.1 valid₁)
            locked₂).frame.imp ?_
          rintro o held₃ log d₃ ⟨rest, sub₃, i₃⟩ rfl pair inside d' k
          rcases List.mem_cons.mp inside with rfl | later
          case inr => exact rest rfl pair later d' k
          -- From its second look on, the rows of the authority are locked.
          have k₂ : Interference Db held₂ d₂ d' := i₃.trans (k.mono sub₃)
          have after : Interference Db held₁ v' d' := j'.trans (k₂.mono sub₂)
          have before : Interference Db held v d' :=
            (i'.trans (j.mono sub₁)).trans (after.mono sub₁)
          have agree := (locked.stable (List.Subset.refl _) i).authorityAgree before member
            same.1 same.2.1 same.2.2
          have agree' := fun group (hg : group ∈ upload.groupId) =>
            (locked₁.stable (List.Subset.refl _) j).groupAgree after member same.2.1 hg
          refine hasAuthority_iff.mpr ⟨current, ?_, ?_⟩
          · exact agree.resolved (i.1 valid) (before.1 (i.1 valid)) resolved.symm
          · exact current.allowed_mono agree' (allowed.symm.trans passed)

/-! ### What the lock statements secure -/

/-- A statement that finds as many rows as it has ids finds each of them. -/
theorem mem_filter_of_count {kind : IdKind} {ids : List (Id kind)} {p : Id kind → Bool}
    (count : ((sortIds ids).filter p).length = ids.length) {id : Id kind} (h : id ∈ ids) :
    id ∈ (sortIds ids).filter p := by
  have fewer : (sortIds ids).length ≤ ids.length :=
    (List.dedup_sublist _).length_le.trans (List.length_insertionSort _ _).le
  have filtered := List.length_filter_le p (sortIds ids)
  have all := List.length_filter_eq_length_iff.mp
    (show ((sortIds ids).filter p).length = (sortIds ids).length by omega)
  have member := mem_sortIds.mpr h
  exact List.mem_filter.mpr ⟨member, all id member⟩

theorem held_map {α : Type} (row : α → RowId) {ids : List α} {id : α} (h : id ∈ ids) :
    Held (held ++ ids.map fun id => ⟨row id, .share⟩) (row id) :=
  ⟨.share, List.mem_append_right _ (List.mem_map.mpr ⟨id, h, rfl⟩)⟩

theorem ensures_lockKeys (keys : List ApiKeyId) :
    Ensures (D := Db) A (fun o held' log _ => log = [] ∧ (o = true → ∀ k ∈ keys,
        Held held' (.apiKey k) ∧ Held held' (.apiKeyUserPermissions k)))
      (lockKeys keys) held [] s := by
  refine ensures_execute_bind (q := .apiKeysForShare keys) fun d _ _ => ?_
  refine Ensures.ite (fun _ _ _ => ⟨rfl, fun same => nomatch same⟩) fun found => ?_
  refine Ensures.map (ensures_execute (q := .apiKeyUserPermissionsForShare keys)
    fun d' _ _ _ _ => ⟨rfl, fun found' k hk => ⟨?_, ?_⟩⟩)
  · have locked := mem_filter_of_count (Decidable.not_not.mp found) hk
    exact (held_map RowId.apiKey locked).mono (List.subset_append_left _ _)
  · have locked := mem_filter_of_count (of_decide_eq_true found') hk
    exact held_map RowId.apiKeyUserPermissions locked

theorem ensures_lockGroup (upload : PendingUpload) :
    Ensures (D := Db) A (fun o held' log d => log = [] ∧ ∀ owners, o = some owners →
        ∀ group ∈ upload.groupId, Held held' (.group group) ∧
          ∀ g ∈ d.groups.find? group, g.libraryId = upload.libraryId ∧ g.ownerUserId ∈ owners)
      (lockGroup upload) held [] s := by
  unfold lockGroup
  cases hg : upload.groupId with
  | none => exact fun _ _ => ⟨rfl, fun _ _ group same => nomatch same⟩
  | some group =>
      refine ensures_execute_bind (q := .groupForShare group upload.libraryId) fun d _ _ => ?_
      cases found : Sql.eval (.groupForShare group upload.libraryId) d with
      | none => exact fun _ _ => ⟨rfl, fun _ same => nomatch same⟩
      | some owner =>
          intro d' i
          refine ⟨rfl, fun owners same group' hg' => ?_⟩
          obtain rfl := Option.some.inj same
          obtain rfl := Option.some.inj hg'
          have lock : Held (held ++ Sql.locks (.groupForShare group upload.libraryId) d)
              (.group group) :=
            ⟨.share, List.mem_append_right _ (by simp [Sql.locks, found])⟩
          refine ⟨lock, fun g row => ?_⟩
          have kept : d.groups.find? group = d'.groups.find? group := lock.agree i
          obtain ⟨g', fits, rfl⟩ := Option.map_eq_some_iff.mp found
          obtain ⟨row', library⟩ := Option.filter_eq_some_iff.mp fits
          obtain rfl := Option.some.inj (row'.symm.trans (kept.trans row))
          exact ⟨of_decide_eq_true library, List.mem_singleton_self _⟩

theorem ensures_lockGroupRows (upload : PendingUpload) (owners : List UserId)
    (keys : List ApiKeyId) :
    Ensures (D := Db) A (fun o held' log _ => log = [] ∧ ∀ grants, o = some grants →
        ∀ group ∈ upload.groupId, (∀ u ∈ owners, Held held' (.groupMembership group u)) ∧
          (∀ k ∈ grants.1, Held held' (.apiKeyAllGroupsPermissions k)) ∧
          ∀ k ∈ grants.2, Held held' (.apiKeyGroupPermission k group))
      (lockGroupRows upload owners keys) held [] s := by
  unfold lockGroupRows
  cases hg : upload.groupId with
  | none => exact fun _ _ => ⟨rfl, fun _ _ group same => nomatch same⟩
  | some group =>
      refine ensures_execute_bind (q := .groupMembershipsForShare group owners) fun d _ _ => ?_
      refine Ensures.ite (fun _ _ _ => ⟨rfl, fun _ same => nomatch same⟩) fun found => ?_
      refine ensures_execute_bind (q := .allGroupsPermissionsForShare keys) fun d' _ _ => ?_
      refine Ensures.map (ensures_execute (q := .groupPermissionsForShare group keys)
        fun d'' _ _ _ _ => ⟨rfl, ?_⟩)
      intro grants same group' hg'
      obtain rfl := Option.some.inj same
      obtain rfl := Option.some.inj hg'
      refine ⟨fun u hu => ?_, fun k hk => ?_, fun k hk => ?_⟩
      · have locked := mem_filter_of_count (Decidable.not_not.mp found) hu
        exact ((held_map (RowId.groupMembership group) locked).mono
          (List.subset_append_left _ _)).mono (List.subset_append_left _ _)
      · exact (held_map RowId.apiKeyAllGroupsPermissions hk).mono
          (List.subset_append_left _ _)
      · exact held_map (RowId.apiKeyGroupPermission · group) hk

/-- The lock of users finds every row it asks for. -/
def Sql.findsUsers : Sql → Database → Bool
  | .usersForShare ids, view => ids.all fun id => (view.users.find? id).isSome
  | _, _ => true

theorem ensures_usersForShare (ids : List UserId) :
    Ensures (D := Db) (fun q v => q.findsUsers v) (fun _ held' log _ => log = [] ∧
        ∀ u ∈ ids, Held held' (.user u))
      (execute (.usersForShare ids)) held [] s := by
  refine ensures_execute (q := .usersForShare ids) fun d _ _ finds _ => ⟨rfl, fun u hu => ?_⟩
  have found : u ∈ Sql.eval (.usersForShare ids) d :=
    List.mem_filter.mpr ⟨mem_sortIds.mpr hu, List.all_eq_true.mp finds u hu⟩
  exact held_map RowId.user found

theorem ensures_personalLibrariesForShare (owners : List UserId) :
    Ensures (D := Db) A (fun rows held' log _ => log = [] ∧
        (rows.length = owners.length → ∀ u ∈ owners, Held held' (.personalLibrary u)))
      (execute (.personalLibrariesForShare owners)) held [] s :=
  ensures_execute (q := .personalLibrariesForShare owners) fun _ _ _ _ _ =>
    ⟨rfl, fun count _ hu => held_map RowId.personalLibrary (mem_filter_of_count count hu)⟩

theorem ensures_lockAuthorityRows (config : Config) {upload : PendingUpload}
    {credentials : List Credential} {authorities : List UploadAuthority} (valid : s.Valid)
    (uploadLibrary : Held held (.library upload.libraryId))
    (libraries : ∀ a ∈ authorities, Held held (.library a.principal.libraryId)) :
    Ensures (D := Db) (fun q v => q.findsUsers v) (fun o held' _ d => o = true →
        ∀ pair ∈ credentials.zip authorities, ∀ d', Interference Db held' d d' →
          HasAuthority config upload pair.1 d')
      (lockAuthorityRows config upload credentials authorities) held [] s := by
  refine Ensures.bind ((ensures_lockGroup upload).frame.imp ?_)
  rintro groupOwner held₁ log d₁ ⟨⟨rfl, group⟩, sub₁, i₁⟩
  cases groupOwner with
  | none => exact fun _ _ same => nomatch same
  | some groupOwner =>
      have group := group groupOwner rfl
      refine Ensures.bind ((ensures_usersForShare _).frame.imp ?_)
      rintro - held₂ log d₂ ⟨⟨rfl, users⟩, sub₂, i₂⟩
      refine Ensures.bind ((ensures_personalLibrariesForShare _).frame.imp ?_)
      rintro mappings held₃ log d₃ ⟨⟨rfl, personal⟩, sub₃, i₃⟩
      refine Ensures.ite (fun _ _ _ same => nomatch same) fun counted => ?_
      have personal := personal (Decidable.not_not.mp counted)
      refine Ensures.bind ((ensures_lockKeys _).frame.imp ?_)
      rintro locked held₄ log d₄ ⟨⟨rfl, keys⟩, sub₄, i₄⟩
      cases locked with
      | false => exact fun _ _ same => nomatch same
      | true =>
          refine Ensures.bind ((ensures_lockGroupRows upload _ _).frame.imp ?_)
          rintro grants held₅ log d₅ ⟨⟨rfl, rows⟩, sub₅, i₅⟩
          cases grants with
          | none => exact fun _ _ same => nomatch same
          | some grants =>
              have rows := rows grants rfl
              have keys := keys rfl
              have sub₂₅ : held₂ ⊆ held₅ := fun l hl => sub₅ (sub₄ (sub₃ hl))
              have sub₁₅ : held₁ ⊆ held₅ := fun l hl => sub₂₅ (sub₂ hl)
              have sub₅' : held ⊆ held₅ := fun l hl => sub₁₅ (sub₁ hl)
              have i₁₅ : Interference Db held₁ d₁ d₅ :=
                ((i₂.trans (i₃.mono sub₂)).trans (i₄.mono fun l hl => sub₃ (sub₂ hl))).trans
                  (i₅.mono fun l hl => sub₄ (sub₃ (sub₂ hl)))
              have user {a : UploadAuthority} (ha : a ∈ authorities) : a.principal.userId ∈
                  sortIds (authorities.map fun a => a.principal.userId) :=
                mem_sortIds.mpr (List.mem_map.mpr ⟨a, ha, rfl⟩)
              have key {a : UploadAuthority} (ha : a ∈ authorities) {k : ApiKeyId}
                  (hk : k ∈ a.apiKeyId) : k ∈ sortIds (authorities.filterMap fun a => a.apiKeyId) :=
                mem_sortIds.mpr (List.mem_filterMap.mpr ⟨a, ha, hk⟩)
              refine ensures_recheckAuthorities config _ ?_ ?_ {
                uploadLibrary := uploadLibrary.mono sub₅'
                libraries := fun a ha => (libraries a ha).mono sub₅'
                users := fun a ha => (users _ (mem_sortIds.mpr (List.mem_append_left _
                  (List.mem_map.mpr ⟨a, ha, rfl⟩)))).mono sub₂₅
                personalLibraries := fun a ha =>
                  (personal _ (user ha)).mono fun l hl => sub₅ (sub₄ hl)
                apiKeys := fun a ha k hk => (keys k (key ha hk)).1.mono sub₅
                permissions := fun a ha k hk => (keys k (key ha hk)).2.mono sub₅
                group := fun g hg => (group g hg).1.mono sub₁₅
                owner := ?_
                memberships := fun g hg a ha => (rows g hg).1 _ (user ha)
                allGrants := fun g hg => (rows g hg).2.1
                explicitGrants := fun g hg => (rows g hg).2.2 }
              · exact fun pair member => (List.of_mem_zip member).2
              · exact i₁₅.1 (i₁.1 valid)
              · intro g hg row found
                have kept : d₁.groups.find? g = d₅.groups.find? g := (group g hg).1.agree i₁₅
                obtain ⟨library, owner⟩ := (group g hg).2 row (kept ▸ found)
                exact ⟨library, (users _ (mem_sortIds.mpr
                  (List.mem_append_right _ owner))).mono sub₂₅⟩

/-- Each credential that an authority is discovered for has one. -/
theorem ends_discoverAuthorities (config : Config) (credentials : List Credential) :
    (discoverAuthorities config credentials).Ends fun o =>
      ∀ authorities, o = some authorities → authorities.length = credentials.length := by
  induction credentials with
  | nil =>
      intro authorities same
      obtain rfl := Option.some.inj same
      rfl
  | cons credential credentials ih =>
      refine Txn.ends_bind (Txn.ends_true _) fun authority _ => ?_
      cases authority with
      | none => exact fun _ same => nomatch same
      | some authority =>
          refine Txn.ends_bind ih fun rest counted authorities same => ?_
          obtain ⟨rest, rfl, rfl⟩ := Option.map_eq_some_iff.mp same
          simp [counted rest rfl]

/-- Every credential of the upload has authority, whatever others then do. -/
theorem secures_authority {digests : Digests} {config : Config} {context : RequestContext} :
    Secures (fun q v => q.findsUsers v)
      (fun upload d => ∀ credential ∈ uploadCredentials digests upload context,
      HasAuthority config upload credential d) digests config context := by
  intro upload held s valid
  have reads := readOnly_of_lookups
    (avoids_discoverAuthorities config (uploadCredentials digests upload context))
  refine Ensures.bind (((Ensures.of_ends (ends_discoverAuthorities config _) held [] s).and
    (Ensures.of_readOnly reads held [] s)).frame.imp ?_)
  rintro authorities held₁ log d₁ ⟨⟨counted, rfl⟩, -, i₁⟩
  cases authorities with
  | none => exact fun _ _ found => nomatch found
  | some authorities =>
      refine Ensures.bind ((ensures_lockLibraries _ _ none held₁ d₁
        fun n hn => nomatch hn).frame.imp ?_)
      rintro current held₂ log d₂ ⟨⟨rfl, locked⟩, -, i₂⟩
      cases current with
      | none => exact fun _ _ found => nomatch found
      | some current =>
          have libraries := (locked current rfl).1
          refine Ensures.bind ((ensures_lockAuthorityRows config (i₂.1 (i₁.1 valid)) ?_ ?_).imp ?_)
          · exact libraries _ (mem_sortIds.mpr List.mem_cons_self)
          · exact fun a ha => libraries _ (mem_sortIds.mpr (List.mem_cons_of_mem _
              (List.mem_map.mpr ⟨a, ha, rfl⟩)))
          · intro allowed held₃ log d₃ secured
            cases allowed with
            | false => exact fun _ _ found => nomatch found
            | true =>
                intro d₄ i₄ _ d' i' credential member
                have paired := List.map_fst_zip (Nat.le_of_eq (counted authorities rfl).symm)
                rw [← paired] at member
                obtain ⟨pair, inside, rfl⟩ := List.mem_map.mp member
                exact secured rfl pair inside d' (i₄.trans i')

end Statements

end Xotero
