import Xotero.Foundation.Agreement
import Xotero.Store.Database

/-!
The configured identity, which each start of the server enters into the database. A
transaction rolls back the rows, but no sequence.
-/

namespace Xotero

/-- `sqlx::Error` -/
inductive SqlxError where
  | rowNotFound
  | protocol (message : String)
  | database (constraint : String)
  | io
  deriving DecidableEq

/-- The largest `bigint`. -/
def maxBigint : Int := 2 ^ 63 - 1

structure Sequence where
  lastValue : Int
  isCalled : Bool
  deriving DecidableEq

/-- The value `nextval` generates, unless the sequence has reached its end. -/
def Sequence.next (q : Sequence) : Option Int :=
  if !q.isCalled then some q.lastValue
  else if q.lastValue < maxBigint then some (q.lastValue + 1)
  else none

/-- `setval(…, value, true)` -/
def Sequence.setval (value : Int) : Except SqlxError Sequence :=
  if 1 ≤ value ∧ value ≤ maxBigint then .ok ⟨value, true⟩
  else .error (.database "value is out of bounds for sequence")

/-- The database, with the tables that only identities use. -/
structure IdentityStore where
  database : Database
  externalIdentities : Table (String × String) UserId
  usersIdSeq : Sequence

/-- The constraints of the schema. -/
structure IdentityStore.Valid (s : IdentityStore) : Prop where
  database : s.database.Valid
  users_id_bigint : ∀ e ∈ s.database.users.rows, e.1.get ≤ maxBigint
  external_identities_user : ∀ e ∈ s.externalIdentities.rows,
    (s.database.users.find? e.2).isSome
  external_identities_issuer_nonempty : ∀ e ∈ s.externalIdentities.rows, nonblank e.1.1
  external_identities_subject_nonempty : ∀ e ∈ s.externalIdentities.rows, nonblank e.1.2
  users_id_seq : 1 ≤ s.usersIdSeq.lastValue ∧ s.usersIdSeq.lastValue ≤ maxBigint

namespace IdentityStore
variable (s : IdentityStore)

def setUsers (users : Table UserId User) : IdentityStore :=
  { s with database.users := users }

def setPersonalLibraries (mappings : Table UserId LibraryId) : IdentityStore :=
  { s with database.personalLibraries := mappings }

@[simp] theorem setUsers_users (users : Table UserId User) :
    (s.setUsers users).database.users = users := rfl

@[simp] theorem setUsers_personalLibraries (users : Table UserId User) :
    (s.setUsers users).database.personalLibraries = s.database.personalLibraries := rfl

@[simp] theorem setUsers_library (users : Table UserId User) :
    (s.setUsers users).database.library = s.database.library := rfl

@[simp] theorem setUsers_usersIdSeq (users : Table UserId User) :
    (s.setUsers users).usersIdSeq = s.usersIdSeq := rfl

@[simp] theorem setPersonalLibraries_personalLibraries (mappings : Table UserId LibraryId) :
    (s.setPersonalLibraries mappings).database.personalLibraries = mappings := rfl

@[simp] theorem setPersonalLibraries_users (mappings : Table UserId LibraryId) :
    (s.setPersonalLibraries mappings).database.users = s.database.users := rfl

@[simp] theorem setPersonalLibraries_usersIdSeq (mappings : Table UserId LibraryId) :
    (s.setPersonalLibraries mappings).usersIdSeq = s.usersIdSeq := rfl

end IdentityStore

/-- A statement does not go through if the connection is lost. -/
def reach (lost : Bool) : Except SqlxError Unit := if lost then .error .io else .ok ()

def check (holds : Bool) (constraint : String) : Except SqlxError Unit :=
  if holds then .ok () else .error (.database constraint)

/-- What is stored is compared with what is configured. -/
def requireSame (same : Bool) (message : String) : Except SqlxError Unit :=
  if same then .ok () else .error (.protocol message)

def invalidText : String := "invalid byte sequence for encoding \"UTF8\": 0x00"

def LibraryKind.text : LibraryKind → String
  | .personal => "personal"
  | .group => "group"

/-- `insert into users … on conflict (id) do nothing` -/
def insertUser (userId : UserId) (username displayName : String) (s : IdentityStore) :
    Except SqlxError IdentityStore := do
  let users := s.database.users
  check (storable username && storable displayName) invalidText
  check (nonblank displayName) "users_display_name_nonempty"
  check (nonblank username) "users_username_nonempty"
  check ((users.find? userId).isSome || users.rows.all fun e => e.2.username ≠ username)
    "users_username_key"
  return s.setUsers (users.insertNew userId ⟨username, displayName, none⟩)

/-- `insert into personal_libraries … on conflict (user_id) do nothing` -/
def insertPersonalLibrary (userId : UserId) (libraryId : LibraryId) (s : IdentityStore) :
    Except SqlxError IdentityStore := do
  let mappings := s.database.personalLibraries
  check ((mappings.find? userId).isSome || mappings.rows.all fun e => e.2 ≠ libraryId)
    "personal_libraries_library_id_key"
  check ((mappings.find? userId).isSome || (s.database.users.find? userId).isSome)
    "personal_libraries_user_id_fkey"
  check ((mappings.find? userId).isSome ||
      (s.database.library.find? libraryId).map Library.kind = some .personal)
    "personal_libraries_library_fk"
  return s.setPersonalLibraries (mappings.insertNew userId libraryId)

/-- `insert into external_identities … on conflict (issuer, subject) do nothing` -/
def insertExternalIdentity (issuer subject : String) (userId : UserId) (s : IdentityStore) :
    Except SqlxError IdentityStore := do
  let identities := s.externalIdentities
  check (storable issuer && storable subject) invalidText
  check (nonblank issuer) "external_identities_issuer_nonempty"
  check (nonblank subject) "external_identities_subject_nonempty"
  check ((identities.find? (issuer, subject)).isSome || (s.database.users.find? userId).isSome)
    "external_identities_user_id_fkey"
  return { s with externalIdentities := identities.insertNew (issuer, subject) userId }

/-- `select coalesce(max(id), 1) from users` -/
def maxUserId (users : Table UserId User) : Int :=
  ((users.rows.map fun e => e.1.get).max?).getD 1

/-- `fetch_one` -/
def fetchRow {α : Type} (row : Option α) : Except SqlxError α :=
  row.elim (.error .rowNotFound) .ok

/-- The statements of `bootstrap_identity`, before its transaction is committed. -/
def identityStatements (lost : ℕ → Bool) (userId : UserId) (username displayName : String)
    (libraryId : LibraryId) (s : IdentityStore) : Except SqlxError IdentityStore := do
  reach (lost 0)
  reach (lost 1)
  let library ← fetchRow (s.database.library.find? libraryId)
  requireSame (library.kind = .personal)
    s!"bootstrap library {libraryId.get} is {library.kind.text}, not personal"
  reach (lost 2)
  let s ← insertUser userId username displayName s
  reach (lost 3)
  let user ← fetchRow (s.database.users.find? userId)
  requireSame (user.username = username && user.displayName = displayName)
    s!"bootstrap user {userId.get} does not match configured identity"
  reach (lost 4)
  let s ← insertPersonalLibrary userId libraryId s
  reach (lost 5)
  let mapped ← fetchRow (s.database.personalLibraries.find? userId)
  requireSame (mapped = libraryId)
    s!"bootstrap user {userId.get} already owns library {mapped.get}"
  reach (lost 6)
  let q ← Sequence.setval (max (maxUserId s.database.users) s.usersIdSeq.lastValue)
  return { s with usersIdSeq := q }

def externalIdentityStatements (lost : ℕ → Bool) (issuer subject : String) (userId : UserId)
    (s : IdentityStore) : Except SqlxError IdentityStore := do
  reach (lost 0)
  let s ← insertExternalIdentity issuer subject userId s
  reach (lost 1)
  let mapped ← fetchRow (s.externalIdentities.find? (issuer, subject))
  requireSame (mapped = userId)
    s!"external identity ({issuer}, {subject}) already belongs to user {mapped.get}"
  return s

/-- A transaction whose statements end in an error, or whose commit fails, changes no row.
A commit whose reply is lost is left out. -/
def transaction (lostCommit : Bool) (statements : IdentityStore → Except SqlxError IdentityStore)
    (s : IdentityStore) : Except SqlxError Unit × IdentityStore :=
  match statements s with
  | .error e => (.error e, s)
  | .ok s' =>
      if lostCommit then (.error .io, { s with usersIdSeq := s'.usersIdSeq })
      else (.ok (), s')

def bootstrapIdentity (lost : ℕ → Bool) (userId : UserId) (username displayName : String)
    (libraryId : LibraryId) : IdentityStore → Except SqlxError Unit × IdentityStore :=
  transaction (lost 7) (identityStatements lost userId username displayName libraryId)

def bootstrapExternalIdentity (lost : ℕ → Bool) (issuer subject : String) (userId : UserId) :
    IdentityStore → Except SqlxError Unit × IdentityStore :=
  transaction (lost 2) (externalIdentityStatements lost issuer subject userId)

end Xotero
