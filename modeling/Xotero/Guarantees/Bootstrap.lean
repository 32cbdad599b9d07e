import Xotero.Foundation.Results
import Xotero.Store.Bootstrap

/-!
The configured identity is entered or refused, but no identity is ever rewritten. Once it
has been entered it is entered again at each start, which changes nothing.
-/

namespace Xotero

section Results
variable {α : Type} {a : α}

theorem reach_eq_ok {lost : Bool} {u : Unit} : reach lost = .ok u ↔ lost = false := by
  cases lost <;> simp [reach]

theorem check_eq_ok {holds : Bool} {constraint : String} {u : Unit} :
    check holds constraint = .ok u ↔ holds = true := by
  cases holds <;> simp [check]

theorem requireSame_eq_ok {same : Bool} {message : String} {u : Unit} :
    requireSame same message = .ok u ↔ same = true := by
  cases same <;> simp [requireSame]

theorem fetchRow_eq_ok {row : Option α} : fetchRow row = .ok a ↔ row = some a := by
  cases row <;> simp [fetchRow]

end Results

section
variable {lost : ℕ → Bool} {userId : UserId} {username displayName : String}
  {libraryId : LibraryId} {issuer subject : String} {s s' : IdentityStore}

/-- A new user has a name of its own. -/
theorem insertUser_eq_ok : insertUser userId username displayName s = .ok s' ↔
    ((storable username ∧ storable displayName) ∧ nonblank displayName ∧ nonblank username ∧
      (s.database.users.find? userId = none →
        ∀ e ∈ s.database.users.rows, e.2.username ≠ username)) ∧
    s' = s.setUsers (s.database.users.insertNew userId ⟨username, displayName, none⟩) := by
  simp only [insertUser, Except.bind_eq_ok, check_eq_ok, exists_const, Except.pure_eq_ok,
    Bool.and_eq_true, Bool.or_eq_true, List.all_eq_true, decide_eq_true_eq, and_assoc]
  cases s.database.users.find? userId <;> simp

theorem insertPersonalLibrary_eq_ok : insertPersonalLibrary userId libraryId s = .ok s' ↔
    (s.database.personalLibraries.find? userId = none →
      (∀ e ∈ s.database.personalLibraries.rows, e.2 ≠ libraryId) ∧
      (s.database.users.find? userId).isSome ∧
      (s.database.library.find? libraryId).map Library.kind = some .personal) ∧
    s' = s.setPersonalLibraries
      (s.database.personalLibraries.insertNew userId libraryId) := by
  simp only [insertPersonalLibrary, Except.bind_eq_ok, check_eq_ok, exists_const, Except.pure_eq_ok,
    Bool.or_eq_true, List.all_eq_true, decide_eq_true_eq]
  cases s.database.personalLibraries.find? userId <;> simp [and_assoc]

theorem insertExternalIdentity_eq_ok : insertExternalIdentity issuer subject userId s = .ok s' ↔
    ((storable issuer ∧ storable subject) ∧ nonblank issuer ∧ nonblank subject ∧
      (s.externalIdentities.find? (issuer, subject) = none →
        (s.database.users.find? userId).isSome)) ∧
    s' = { s with
      externalIdentities := s.externalIdentities.insertNew (issuer, subject) userId } := by
  simp only [insertExternalIdentity, Except.bind_eq_ok, check_eq_ok, exists_const,
    Except.pure_eq_ok, Bool.and_eq_true, Bool.or_eq_true, and_assoc]
  cases s.externalIdentities.find? (issuer, subject) <;> simp

theorem setval_eq_ok {value : Int} {q : Sequence} : Sequence.setval value = .ok q ↔
    (1 ≤ value ∧ value ≤ maxBigint) ∧ q = ⟨value, true⟩ := by
  unfold Sequence.setval
  split <;> simp_all [eq_comm]

/-- The rows once the identity is entered. -/
def enterIdentity (userId : UserId) (username displayName : String) (libraryId : LibraryId)
    (s : IdentityStore) : IdentityStore :=
  let s' := s.setUsers (s.database.users.insertNew userId ⟨username, displayName, none⟩)
  s'.setPersonalLibraries (s.database.personalLibraries.insertNew userId libraryId)

/-- The greatest id that is used or has been generated. -/
def greatestId (s : IdentityStore) : Int :=
  max (maxUserId s.database.users) s.usersIdSeq.lastValue

/-- The sequence goes on after the greatest id. -/
def counted (s : IdentityStore) : IdentityStore :=
  { s with usersIdSeq := ⟨greatestId s, true⟩ }

/-- What an identity that is entered has to be like. -/
structure Admits (s : IdentityStore) (userId : UserId) (username displayName : String)
    (libraryId : LibraryId) : Prop where
  library : (s.database.library.find? libraryId).map Library.kind = some .personal
  text : storable username ∧ storable displayName
  named : nonblank displayName ∧ nonblank username
  user : ∀ user, s.database.users.find? userId = some user →
    user.username = username ∧ user.displayName = displayName
  username_free : s.database.users.find? userId = none →
    ∀ e ∈ s.database.users.rows, e.2.username ≠ username
  mapping : ∀ L, s.database.personalLibraries.find? userId = some L → L = libraryId
  library_free : s.database.personalLibraries.find? userId = none →
    ∀ e ∈ s.database.personalLibraries.rows, e.2 ≠ libraryId
  range : 1 ≤ greatestId (enterIdentity userId username displayName libraryId s) ∧
    greatestId (enterIdentity userId username displayName libraryId s) ≤ maxBigint

theorem identityStatements_eq_ok :
    identityStatements lost userId username displayName libraryId s = .ok s' ↔
      (∀ i < 7, lost i = false) ∧ Admits s userId username displayName libraryId ∧
        s' = counted (enterIdentity userId username displayName libraryId s) := by
  simp only [identityStatements, Except.bind_eq_ok, requireSame_eq_ok, reach_eq_ok, fetchRow_eq_ok,
    exists_const, Except.pure_eq_ok, decide_eq_true_eq, Bool.and_eq_true, insertUser_eq_ok,
    insertPersonalLibrary_eq_ok, setval_eq_ok]
  constructor
  · rintro ⟨l₀, l₁, library, found, kind, l₂, s₁, ⟨⟨text, display, name, free⟩, rfl⟩, l₃, user,
      read, matching, l₄, s₂, ⟨fresh, rfl⟩, l₅, mapped, read', rfl, l₆, q, ⟨range, rfl⟩, rfl⟩
    rw [IdentityStore.setUsers_users, Table.find?_insertNew_self, Option.some.injEq] at read
    rw [IdentityStore.setPersonalLibraries_personalLibraries,
      IdentityStore.setUsers_personalLibraries, Table.find?_insertNew_self,
      Option.some.injEq] at read'
    refine ⟨fun i within => ?_, ?_, rfl⟩
    · obtain rfl | rfl | rfl | rfl | rfl | rfl | rfl :
          i = 0 ∨ i = 1 ∨ i = 2 ∨ i = 3 ∨ i = 4 ∨ i = 5 ∨ i = 6 := by omega
      exacts [l₀, l₁, l₂, l₃, l₄, l₅, l₆]
    · refine ⟨?_, text, ⟨display, name⟩, fun user' present => ?_, free, fun L present => ?_,
        fun absent => (fresh absent).1, range⟩
      · rw [found, Option.map_some, kind]
      · rw [present, Option.getD_some] at read
        exact read ▸ matching
      · rw [present, Option.getD_some] at read'
        exact read'
  · rintro ⟨reached, admits, rfl⟩
    obtain ⟨library, found, kind⟩ := Option.map_eq_some_iff.mp admits.library
    refine ⟨reached 0 (by decide), reached 1 (by decide), library, found, kind,
      reached 2 (by decide), _, ⟨⟨admits.text, admits.named.1, admits.named.2,
        admits.username_free⟩, rfl⟩, reached 3 (by decide), _,
      Table.find?_insertNew_self, ?_, reached 4 (by decide), _, ⟨fun absent => ⟨?_, ?_, ?_⟩, rfl⟩,
      reached 5 (by decide), _, Table.find?_insertNew_self, ?_, reached 6 (by decide), _,
      ⟨admits.range, rfl⟩, rfl⟩
    · cases present : s.database.users.find? userId with
      | none => exact ⟨rfl, rfl⟩
      | some user => exact admits.user user present
    · exact admits.library_free absent
    · rw [IdentityStore.setUsers_users, Table.find?_insertNew_self]
      rfl
    · exact admits.library
    · cases present : s.database.personalLibraries.find? userId with
      | none =>
          rw [IdentityStore.setUsers_personalLibraries, present]
          rfl
      | some L =>
          rw [IdentityStore.setUsers_personalLibraries, present]
          exact admits.mapping L present

/-- What an external identity that is entered has to be like. -/
structure AdmitsExternal (s : IdentityStore) (issuer subject : String) (userId : UserId) :
    Prop where
  text : storable issuer ∧ storable subject
  named : nonblank issuer ∧ nonblank subject
  user : s.externalIdentities.find? (issuer, subject) = none →
    (s.database.users.find? userId).isSome
  mapping : ∀ u, s.externalIdentities.find? (issuer, subject) = some u → u = userId

theorem externalIdentityStatements_eq_ok :
    externalIdentityStatements lost issuer subject userId s = .ok s' ↔
      (lost 0 = false ∧ lost 1 = false) ∧ AdmitsExternal s issuer subject userId ∧
        s' = { s with
          externalIdentities := s.externalIdentities.insertNew (issuer, subject) userId } := by
  simp only [externalIdentityStatements, Except.bind_eq_ok, requireSame_eq_ok, reach_eq_ok,
    fetchRow_eq_ok, exists_const, Except.pure_eq_ok, decide_eq_true_eq,
    insertExternalIdentity_eq_ok]
  constructor
  · rintro ⟨l₀, s₁, ⟨⟨text, issuer', subject', user⟩, rfl⟩, l₁, mapped, read, rfl, rfl⟩
    rw [Table.find?_insertNew_self, Option.some.injEq] at read
    refine ⟨⟨l₀, l₁⟩, ⟨text, ⟨issuer', subject'⟩, user, fun u present => ?_⟩, rfl⟩
    rw [present, Option.getD_some] at read
    exact read
  · rintro ⟨⟨l₀, l₁⟩, admits, rfl⟩
    refine ⟨l₀, _, ⟨⟨admits.text, admits.named.1, admits.named.2, admits.user⟩, rfl⟩, l₁, _,
      Table.find?_insertNew_self, ?_, rfl⟩
    cases present : s.externalIdentities.find? (issuer, subject) with
    | none => rfl
    | some u => exact admits.mapping u present

end

/-! ### What is kept -/

/-- Rows of identities are only added, and libraries stay what they are. -/
structure Adds (s s' : IdentityStore) : Prop where
  library : ∀ L kind, (s.database.library.find? L).map Library.kind = some kind →
    (s'.database.library.find? L).map Library.kind = some kind
  users : ∀ u row, s.database.users.find? u = some row → s'.database.users.find? u = some row
  personalLibraries : ∀ u L, s.database.personalLibraries.find? u = some L →
    s'.database.personalLibraries.find? u = some L
  externalIdentities : ∀ e u, s.externalIdentities.find? e = some u →
    s'.externalIdentities.find? e = some u

/-- No row is added or changed. -/
def SameIdentities (s s' : IdentityStore) : Prop :=
  s'.database = s.database ∧ s'.externalIdentities = s.externalIdentities

/-- The identity is there as it is configured, beside what was there before. -/
structure IdentityEntered (userId : UserId) (username displayName : String)
    (libraryId : LibraryId) (s s' : IdentityStore) : Prop where
  user : ∃ row, s'.database.users.find? userId = some row ∧ row.username = username ∧
    row.displayName = displayName
  mapping : s'.database.personalLibraries.find? userId = some libraryId
  adds : Adds s s'
  next : ∀ n, s'.usersIdSeq.next = some n →
    ∀ u row, s'.database.users.find? u = some row → u.get < n
  exhausted : s'.usersIdSeq.next = none → s.usersIdSeq.lastValue = maxBigint ∨
    ∃ u row, s'.database.users.find? u = some row ∧ u.get = maxBigint
  forward : s.usersIdSeq.lastValue ≤ s'.usersIdSeq.lastValue ∧ s'.usersIdSeq.isCalled = true

structure ExternalEntered (issuer subject : String) (userId : UserId)
    (s s' : IdentityStore) : Prop where
  mapping : s'.externalIdentities.find? (issuer, subject) = some userId
  adds : Adds s s'
  database : s'.database = s.database

theorem transaction_cases (lostCommit : Bool)
    (statements : IdentityStore → Except SqlxError IdentityStore) (s : IdentityStore) :
    (∃ s', statements s = .ok s' ∧ lostCommit = false ∧
        transaction lostCommit statements s = (.ok (), s')) ∨
      ∃ e s', transaction lostCommit statements s = (.error e, s') ∧ SameIdentities s s' := by
  unfold transaction
  cases statements s with
  | error e => exact .inr ⟨e, s, rfl, rfl, rfl⟩
  | ok s' =>
      cases lostCommit with
      | true => exact .inr ⟨.io, _, rfl, rfl, rfl⟩
      | false => exact .inl ⟨s', rfl, rfl, rfl⟩

/-- The greatest of the ids that users have. -/
theorem maxUserId_spec {users : Table UserId User} {u : UserId} {row : User}
    (found : users.find? u = some row) : u.get ≤ maxUserId users ∧
      ∃ u' row', users.find? u' = some row' ∧ u'.get = maxUserId users := by
  have present : u.get ∈ users.rows.map fun e => e.1.get :=
    List.mem_map_of_mem (Table.mem_rows.mpr found)
  unfold maxUserId
  cases greatest : (users.rows.map fun e => e.1.get).max? with
  | none =>
      rw [List.max?_eq_none_iff.mp greatest] at present
      cases present
  | some m =>
      obtain ⟨attained, above⟩ := List.max?_eq_some_iff.mp greatest
      obtain ⟨e, present', same⟩ := List.mem_map.mp attained
      exact ⟨above _ present, e.1, e.2, Table.mem_rows.mp present', same⟩

section
variable {lost : ℕ → Bool} {userId : UserId} {username displayName : String}
  {libraryId : LibraryId} {issuer subject : String} {s s' s₁ s₂ : IdentityStore}

theorem enterIdentity_adds : Adds s (enterIdentity userId username displayName libraryId s) where
  library _ _ found := found
  users _ _ found := Table.find?_insertNew found
  personalLibraries _ _ found := Table.find?_insertNew found
  externalIdentities _ _ found := found

theorem counted_next (s : IdentityStore) : (counted s).usersIdSeq.next =
    if greatestId s < maxBigint then some (greatestId s + 1) else none := rfl

theorem next_counted (s : IdentityStore) (n : Int)
    (generated : (counted s).usersIdSeq.next = some n) {u : UserId} {row : User}
    (found : s.database.users.find? u = some row) : u.get < n := by
  have least := (maxUserId_spec found).1
  have after : greatestId s + 1 = n := by
    rw [counted_next] at generated
    split at generated
    · exact Option.some.inj generated
    · cases generated
  have greatest : maxUserId s.database.users ≤ greatestId s := Int.le_max_left _ _
  omega

theorem Admits.entered (admits : Admits s userId username displayName libraryId) :
    IdentityEntered userId username displayName libraryId s
      (counted (enterIdentity userId username displayName libraryId s)) := by
  have stored : (enterIdentity userId username displayName libraryId s).database.users.find?
      userId = some ((s.database.users.find? userId).getD ⟨username, displayName, none⟩) :=
    Table.find?_insertNew_self
  have mapped : (enterIdentity userId username displayName
      libraryId s).database.personalLibraries.find? userId =
        some ((s.database.personalLibraries.find? userId).getD libraryId) :=
    Table.find?_insertNew_self
  refine ⟨⟨_, stored, ?_⟩, mapped.trans (congrArg some ?_), { enterIdentity_adds with },
    fun n generated u row found => next_counted _ n generated found, ?_,
    Int.le_max_right _ _, rfl⟩
  · cases present : s.database.users.find? userId with
    | none => exact ⟨rfl, rfl⟩
    | some user => exact admits.user user present
  · cases present : s.database.personalLibraries.find? userId with
    | none => rfl
    | some L => exact admits.mapping L present
  · intro ended
    have full : greatestId (enterIdentity userId username displayName libraryId s) =
        maxBigint := by
      have last := admits.range.2
      simp only [counted_next, ite_eq_right_iff, reduceCtorEq, imp_false, not_lt] at ended
      omega
    obtain ⟨-, u, row, found, greatest⟩ := maxUserId_spec stored
    rcases Int.le_total (maxUserId (enterIdentity userId username displayName
        libraryId s).database.users) s.usersIdSeq.lastValue with below | above
    · exact .inl ((Int.max_eq_right below).symm.trans full)
    · exact .inr ⟨u, row, found, greatest.trans ((Int.max_eq_left above).symm.trans full)⟩

theorem enterIdentity_of_present {user : User} (stored : s.database.users.find? userId = some user)
    (mapped : s.database.personalLibraries.find? userId = some libraryId) :
    enterIdentity userId username displayName libraryId s = s := by
  rw [enterIdentity, Table.insertNew_of_some stored, Table.insertNew_of_some mapped]
  rfl

/-- The constraints of the schema are kept. -/
theorem Admits.valid (admits : Admits s userId username displayName libraryId)
    (valid : s.Valid) :
    (counted (enterIdentity userId username displayName libraryId s)).Valid where
  database := { valid.database with
    pending_uploads_bootstrap_user := fun e present u asked =>
      Table.isSome_insertNew (valid.database.pending_uploads_bootstrap_user e present u asked)
    users_username_unique := by
      refine Table.forall_insertNew (fun e present => Table.forall_insertNew
        (valid.database.users_username_unique e present) fun absent same => ?_)
        fun absent => Table.forall_insertNew (fun e present same => ?_) fun _ _ => rfl
      · exact absurd same (admits.username_free absent e present)
      · exact absurd same.symm (admits.username_free absent e present)
    users_username_nonempty :=
      Table.forall_insertNew valid.database.users_username_nonempty fun _ => admits.named.2
    users_display_name_nonempty :=
      Table.forall_insertNew valid.database.users_display_name_nonempty fun _ => admits.named.1
    personal_libraries_user := by
      refine Table.forall_insertNew (fun e present => ?_) fun _ => ?_
      · exact Table.isSome_insertNew (valid.database.personal_libraries_user e present)
      · exact Option.isSome_iff_exists.mpr ⟨_, Table.find?_insertNew_self⟩
    personal_libraries_library :=
      Table.forall_insertNew valid.database.personal_libraries_library fun _ => admits.library
    personal_libraries_unique := by
      refine Table.forall_insertNew (fun e present => Table.forall_insertNew
        (valid.database.personal_libraries_unique e present) fun absent same => ?_)
        fun absent => Table.forall_insertNew (fun e present same => ?_) fun _ _ => rfl
      · exact absurd same (admits.library_free absent e present)
      · exact absurd same.symm (admits.library_free absent e present)
    api_keys_user := fun e present =>
      Table.isSome_insertNew (valid.database.api_keys_user e present)
    groups_owner := fun e present =>
      Table.isSome_insertNew (valid.database.groups_owner e present)
    group_memberships_user := fun e present =>
      Table.isSome_insertNew (valid.database.group_memberships_user e present) }
  users_id_bigint := by
    have stored : (enterIdentity userId username displayName
        libraryId s).database.users.find? userId = some _ := Table.find?_insertNew_self
    have least := (maxUserId_spec stored).1
    have greatest := (Int.le_max_left _ _).trans admits.range.2
    exact Table.forall_insertNew valid.users_id_bigint fun _ => least.trans greatest
  external_identities_user e present :=
    Table.isSome_insertNew (valid.external_identities_user e present)
  external_identities_issuer_nonempty := valid.external_identities_issuer_nonempty
  external_identities_subject_nonempty := valid.external_identities_subject_nonempty
  users_id_seq := admits.range

/-- Once an identity has been entered, it is admitted whatever else is added. -/
theorem Admits.again (admits : Admits s userId username displayName libraryId)
    (done : IdentityEntered userId username displayName libraryId s s₁) (adds : Adds s₁ s₂)
    (valid : s₂.Valid) : Admits s₂ userId username displayName libraryId := by
  obtain ⟨user, stored, matching⟩ := done.user
  have stored := adds.users _ _ stored
  have mapped := adds.personalLibraries _ _ done.mapping
  refine ⟨adds.library _ _ (done.adds.library _ _ admits.library), admits.text, admits.named,
    fun user' present => ?_, fun absent => ?_, fun L present => ?_, fun absent => ?_, ?_⟩
  · obtain rfl := Option.some.inj (stored.symm.trans present)
    exact matching
  · rw [stored] at absent
    cases absent
  · exact (Option.some.inj (mapped.symm.trans present)).symm
  · rw [mapped] at absent
    cases absent
  · rw [enterIdentity_of_present stored mapped]
    obtain ⟨-, u, row', found', greatest⟩ := maxUserId_spec stored
    have within := valid.users_id_bigint (u, row') (Table.mem_rows.mpr found')
    have positive := (u.positive)
    obtain ⟨first, last⟩ := valid.users_id_seq
    dsimp only at within
    constructor
    · exact first.trans (Int.le_max_right _ _)
    · exact Int.max_le.mpr ⟨greatest ▸ within, last⟩

end

section
variable {issuer subject : String} {userId : UserId} {s s₁ s₂ : IdentityStore}

theorem AdmitsExternal.entered (admits : AdmitsExternal s issuer subject userId) :
    ExternalEntered issuer subject userId s { s with
      externalIdentities := s.externalIdentities.insertNew (issuer, subject) userId } where
  mapping := by
    rw [Table.find?_insertNew_self]
    cases present : s.externalIdentities.find? (issuer, subject) with
    | none => rfl
    | some u => exact congrArg some (admits.mapping u present)
  adds := ⟨fun _ _ found => found, fun _ _ found => found, fun _ _ found => found,
    fun _ _ found => Table.find?_insertNew found⟩
  database := rfl

theorem AdmitsExternal.valid (admits : AdmitsExternal s issuer subject userId)
    (valid : s.Valid) : { s with
      externalIdentities := s.externalIdentities.insertNew (issuer, subject) userId :
        IdentityStore }.Valid :=
  { valid with
    external_identities_user :=
      Table.forall_insertNew valid.external_identities_user admits.user
    external_identities_issuer_nonempty :=
      Table.forall_insertNew valid.external_identities_issuer_nonempty fun _ => admits.named.1
    external_identities_subject_nonempty :=
      Table.forall_insertNew valid.external_identities_subject_nonempty
        fun _ => admits.named.2 }

theorem AdmitsExternal.again (admits : AdmitsExternal s issuer subject userId)
    (mapped : s₂.externalIdentities.find? (issuer, subject) = some userId) :
    AdmitsExternal s₂ issuer subject userId where
  text := admits.text
  named := admits.named
  user absent := by
    rw [mapped] at absent
    cases absent
  mapping u present := (Option.some.inj (mapped.symm.trans present)).symm

end

/-- Each start enters the configured identity or fails, and changes no row that is there. -/
structure BootstrapsExactly : Prop where
  identity : ∀ lost userId username displayName libraryId s,
    (∃ s', bootstrapIdentity lost userId username displayName libraryId s = (.ok (), s') ∧
        IdentityEntered userId username displayName libraryId s s' ∧ (s.Valid → s'.Valid)) ∨
      ∃ e s', bootstrapIdentity lost userId username displayName libraryId s =
        (.error e, s') ∧ SameIdentities s s'
  again : ∀ lost userId username displayName libraryId s s₁ s₂,
    bootstrapIdentity lost userId username displayName libraryId s = (.ok (), s₁) →
    Adds s₁ s₂ → s₂.Valid →
    ∃ s₃, bootstrapIdentity (fun _ => false) userId username displayName libraryId s₂ =
      (.ok (), s₃) ∧ SameIdentities s₂ s₃
  external : ∀ lost issuer subject userId s,
    (∃ s', bootstrapExternalIdentity lost issuer subject userId s = (.ok (), s') ∧
        ExternalEntered issuer subject userId s s' ∧ (s.Valid → s'.Valid)) ∨
      ∃ e s', bootstrapExternalIdentity lost issuer subject userId s = (.error e, s') ∧
        SameIdentities s s'
  external_again : ∀ lost issuer subject userId s s₁ s₂,
    bootstrapExternalIdentity lost issuer subject userId s = (.ok (), s₁) → Adds s₁ s₂ →
    ∃ s₃, bootstrapExternalIdentity (fun _ => false) issuer subject userId s₂ = (.ok (), s₃) ∧
      SameIdentities s₂ s₃

theorem transaction_eq_ok {lostCommit : Bool}
    {statements : IdentityStore → Except SqlxError IdentityStore} {s s' : IdentityStore} :
    transaction lostCommit statements s = (.ok (), s') ↔
      statements s = .ok s' ∧ lostCommit = false := by
  unfold transaction
  cases statements s with
  | error e => simp
  | ok s'' => cases lostCommit <;> simp

theorem bootstraps_exactly : BootstrapsExactly where
  identity lost userId username displayName libraryId s := by
    refine (transaction_cases (lost 7) _ s).imp_left fun ⟨s', done, _, answered⟩ => ?_
    obtain ⟨-, admits, rfl⟩ := identityStatements_eq_ok.mp done
    exact ⟨_, answered, admits.entered, admits.valid⟩
  again lost userId username displayName libraryId s s₁ s₂ done adds valid := by
    obtain ⟨-, admits, rfl⟩ := identityStatements_eq_ok.mp (transaction_eq_ok.mp done).1
    have entered := admits.entered
    obtain ⟨user, stored, -⟩ := entered.user
    have same := @enterIdentity_of_present userId username displayName libraryId s₂ user
      (adds.users _ _ stored) (adds.personalLibraries _ _ entered.mapping)
    refine ⟨_, transaction_eq_ok.mpr ⟨identityStatements_eq_ok.mpr
      ⟨fun _ _ => rfl, admits.again entered adds valid, rfl⟩, rfl⟩, ?_⟩
    rw [same]
    exact ⟨rfl, rfl⟩
  external lost issuer subject userId s := by
    refine (transaction_cases (lost 2) _ s).imp_left fun ⟨s', done, _, answered⟩ => ?_
    obtain ⟨-, admits, rfl⟩ := externalIdentityStatements_eq_ok.mp done
    exact ⟨_, answered, admits.entered, admits.valid⟩
  external_again lost issuer subject userId s s₁ s₂ done adds := by
    obtain ⟨-, admits, rfl⟩ := externalIdentityStatements_eq_ok.mp (transaction_eq_ok.mp done).1
    have mapped := adds.externalIdentities _ _ admits.entered.mapping
    refine ⟨_, transaction_eq_ok.mpr ⟨externalIdentityStatements_eq_ok.mpr
      ⟨⟨rfl, rfl⟩, admits.again mapped, rfl⟩, rfl⟩, rfl, ?_⟩
    exact Table.insertNew_of_some mapped

/-- A fresh database, with the library it has from the start. -/
example : (bootstrapIdentity (fun _ => false) ⟨7, by decide⟩ "xotero" "Xotero" ⟨1, by decide⟩
    ⟨{ Database.empty with library := Table.put ∅ ⟨1, by decide⟩ ⟨0, .personal⟩ }, ∅,
      ⟨1, false⟩⟩).2.usersIdSeq = ⟨7, true⟩ := by decide

end Xotero
