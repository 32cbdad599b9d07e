import Xotero.Store.Statement

/-!
Login sessions: the rows of an enrollment beside the rest of the database, the
statements on them, and the operations of the store. `now` is the time at which
a transaction began.
-/

namespace Xotero

inductive SessionStatus where
  | pending
  | completed
  | cancelled
  deriving DecidableEq

inductive ClientType where
  | mac
  | windows
  | linux
  | ios
  | android
  | unknown
  deriving DecidableEq

/-- A `login_sessions` row; times are in microseconds. -/
structure LoginSessionRow where
  userId : Option UserId
  apiKeyId : Option ApiKeyId
  clientType : ClientType
  status : SessionStatus
  createdAt : Int
  expiresAt : Int
  completedAt : Option Int
  deriving DecidableEq

/-- The tables behind an enrollment; `base` has all the others. -/
structure Enrollment where
  base : Database
  externalIdentities : Table (String × String) UserId
  loginSessions : Table Digest LoginSessionRow

structure Enrollment.Valid (s : Enrollment) : Prop where
  base : s.base.Valid
  external_identities_user : ∀ e ∈ s.externalIdentities.rows, (s.base.users.find? e.2).isSome
  external_identities_issuer_nonempty : ∀ e ∈ s.externalIdentities.rows, nonblank e.1.1
  external_identities_subject_nonempty : ∀ e ∈ s.externalIdentities.rows, nonblank e.1.2
  login_sessions_user : ∀ e ∈ s.loginSessions.rows, ∀ u ∈ e.2.userId,
    (s.base.users.find? u).isSome
  login_sessions_sha256_length : ∀ e ∈ s.loginSessions.rows, e.1.length = 32
  login_sessions_expiry_valid : ∀ e ∈ s.loginSessions.rows, e.2.createdAt < e.2.expiresAt
  login_sessions_completion_valid : ∀ e ∈ s.loginSessions.rows,
    e.2.status = .completed ∧ e.2.userId.isSome ∧ e.2.apiKeyId.isSome ∧ e.2.completedAt.isSome ∨
    e.2.status ≠ .completed ∧ e.2.apiKeyId = none ∧ e.2.completedAt = none
  login_sessions_api_key_owner : ∀ e ∈ s.loginSessions.rows, ∀ k ∈ e.2.apiKeyId,
    ∀ u ∈ e.2.userId, (s.base.apiKeys.find? k).map ApiKey.userId = some u

inductive EnrollmentWrite where
  | base (w : Write)
  | externalIdentity (issuer subject : String) (row : Option UserId)
  | loginSession (token : Digest) (row : Option LoginSessionRow)

inductive EnrollmentRow where
  | base (k : RowId)
  | externalIdentity (issuer subject : String)
  | loginSession (token : Digest)
  deriving DecidableEq

def EnrollmentWrite.target : EnrollmentWrite → EnrollmentRow
  | .base w => .base w.target
  | .externalIdentity issuer subject _ => .externalIdentity issuer subject
  | .loginSession token _ => .loginSession token

/-- What other requests and administrators write: a login session goes only with
its user or its key. -/
inductive OutsideWrite where
  | base (w : Write)
  | externalIdentity (issuer subject : String) (row : Option UserId)
  | removeSession (token : Digest)

def OutsideWrite.write : OutsideWrite → EnrollmentWrite
  | .base w => .base w
  | .externalIdentity issuer subject row => .externalIdentity issuer subject row
  | .removeSession token => .loginSession token none

namespace Enrollment

def apply (s : Enrollment) : EnrollmentWrite → Enrollment
  | .base w => { s with base := s.base.apply w }
  | .externalIdentity issuer subject row =>
      { s with externalIdentities := s.externalIdentities.set (issuer, subject) row }
  | .loginSession token row => { s with loginSessions := s.loginSessions.set token row }

def Agree : EnrollmentRow → Enrollment → Enrollment → Prop
  | .base k, s, s' => Xotero.Agree k s.base s'.base
  | .externalIdentity issuer subject, s, s' =>
      s.externalIdentities.find? (issuer, subject) = s'.externalIdentities.find? (issuer, subject)
  | .loginSession token, s, s' => s.loginSessions.find? token = s'.loginSessions.find? token

theorem agree_equivalence (k : EnrollmentRow) : Equivalence (Agree k) := by
  cases k with
  | base k =>
      have h := Xotero.agree_equivalence k
      exact ⟨fun _ => h.refl _, h.symm, h.trans⟩
  | _ => exact ⟨fun _ => rfl, Eq.symm, Eq.trans⟩

theorem agree_frame {w : EnrollmentWrite} {k : EnrollmentRow} (s : Enrollment)
    (h : w.target ≠ k) : Agree k s (s.apply w) := by
  cases k with
  | base k =>
      cases w with
      | base w => exact Xotero.agree_frame s.base fun same => h (congrArg EnrollmentRow.base same)
      | _ => exact (Xotero.agree_equivalence k).refl s.base
  | externalIdentity issuer subject =>
      cases w with
      | externalIdentity issuer' subject' row =>
          have other : (issuer, subject) ≠ (issuer', subject') := by
            rintro ⟨⟩
            exact h rfl
          simp [Agree, Enrollment.apply, Table.find?_set, other]
      | _ => rfl
  | loginSession token =>
      cases w with
      | loginSession token' row =>
          have other : token ≠ token' := fun e => h (e ▸ rfl)
          simp [Agree, Enrollment.apply, Table.find?_set, other]
      | _ => rfl

theorem agree_apply (w : EnrollmentWrite) {k : EnrollmentRow} {s s' : Enrollment}
    (h : Agree k s s') : Agree k (s.apply w) (s'.apply w) := by
  cases k with
  | base k =>
      cases w with
      | base w => exact Xotero.agree_apply w h
      | _ => exact h
  | _ => cases w <;> simp_all [Agree, Enrollment.apply, Table.find?_set]

/-- `external_identities` joined with the active user and the personal library. -/
def mappedPrincipal (s : Enrollment) (issuer subject : String) : Option Principal :=
  (s.externalIdentities.find? (issuer, subject)).bind s.base.principalOf

end Enrollment

def day : Int := 24 * hour

/-- What the clean-up deletes. -/
def LoginSessionRow.isStale (row : LoginSessionRow) (now : Int) : Bool :=
  (row.status = .pending && row.expiresAt < now - day) ||
    (row.status = .cancelled && row.createdAt < now - day)

def LoginSessionRow.expired (row : LoginSessionRow) (now : Int) : Bool := row.expiresAt ≤ now

/-- A row of the query in `login_session`. -/
structure LoginSessionJoin where
  status : SessionStatus
  expired : Bool
  user : Option (UserId × User)
  libraryId : Option LibraryId
  deriving DecidableEq

inductive LoginSql where
  | deleteStaleSessions (now : Int)
  | insertSession (token : Digest) (clientType : ClientType) (now : Int)
  | session (token : Digest) (now : Int)
  | sessionForUpdate (token : Digest) (now : Int)
  | cancelSession (token : Digest)
  | mappedUserForShare (issuer subject : String)
  | insertApiKey (id : ApiKeyId) (user : UserId) (name : String) (tokenHash : Digest)
  | insertUserPermissions (key : ApiKeyId)
  | insertAllGroupsPermissions (key : ApiKeyId)
  | completeSession (token : Digest) (user : UserId) (key : ApiKeyId) (now : Int)
  | other (w : OutsideWrite)

/-- An insert returns whether its row was new. -/
abbrev LoginSql.Result : LoginSql → Type
  | .insertSession .. | .insertApiKey .. | .insertUserPermissions _
  | .insertAllGroupsPermissions _ => Bool
  | .session .. => Option LoginSessionJoin
  | .sessionForUpdate .. => Option (SessionStatus × ClientType × Bool)
  | .mappedUserForShare .. => Option UserId
  | .deleteStaleSessions _ | .cancelSession _ | .completeSession .. | .other _ => Unit

def LoginSql.eval : (q : LoginSql) → Enrollment → q.Result
  | .insertSession token _ _, s => token.length = 32 && (s.loginSessions.find? token).isNone
  | .session token now, s =>
      (s.loginSessions.find? token).map fun row =>
        let user := row.userId.bind fun u => (s.base.users.find? u).map fun user => (u, user)
        ⟨row.status, row.expired now, user,
          user.bind fun user => s.base.personalLibraries.find? user.1⟩
  | .sessionForUpdate token now, s =>
      (s.loginSessions.find? token).map fun row => (row.status, row.clientType, row.expired now)
  | .mappedUserForShare issuer subject, s =>
      (s.mappedPrincipal issuer subject).map Principal.userId
  | .insertApiKey id _ _ tokenHash, s =>
      tokenHash.length = 32 && (s.base.apiKeys.find? id).isNone &&
        s.base.apiKeys.rows.all fun e => e.2.tokenHash ≠ tokenHash
  | .insertUserPermissions key, s => (s.base.apiKeyUserPermissions.find? key).isNone
  | .insertAllGroupsPermissions key, s => (s.base.apiKeyAllGroupsPermissions.find? key).isNone
  | .deleteStaleSessions _, _ | .cancelSession _, _ | .completeSession .., _ | .other _, _ => ()

/-- `update login_sessions set … where token_hash = $1` -/
def updateSession (s : Enrollment) (token : Digest) (f : LoginSessionRow → LoginSessionRow) :
    List EnrollmentWrite :=
  match s.loginSessions.find? token with
  | some row => [.loginSession token (some (f row))]
  | none => []

def EnrollmentWrite.account (w : AccountWrite) : EnrollmentWrite := .base (.account w)

/-- A refused insert writes nothing. The name of a key is not modelled further. -/
def LoginSql.writes : LoginSql → Enrollment → List EnrollmentWrite
  | .deleteStaleSessions now, s =>
      (s.loginSessions.select fun _ row => row.isStale now).map fun e => .loginSession e.1 none
  | .insertSession token clientType now, s =>
      if LoginSql.eval (.insertSession token clientType now) s then
        [.loginSession token (some {
          userId := none
          apiKeyId := none
          clientType := clientType
          status := .pending
          createdAt := now
          expiresAt := now + 15 * minute
          completedAt := none })]
      else []
  | .cancelSession token, s => updateSession s token fun row => { row with status := .cancelled }
  | .insertApiKey id user name tokenHash, s =>
      if LoginSql.eval (.insertApiKey id user name tokenHash) s then
        [.account (.apiKey id (some ⟨user, tokenHash, none⟩))]
      else []
  | .insertUserPermissions key, s =>
      if LoginSql.eval (.insertUserPermissions key) s then
        [.account (.apiKeyUserPermissions key (some ⟨true, true, true, true⟩))]
      else []
  | .insertAllGroupsPermissions key, s =>
      if LoginSql.eval (.insertAllGroupsPermissions key) s then
        [.account (.apiKeyAllGroupsPermissions key (some ⟨true, true⟩))]
      else []
  | .completeSession token user key now, s =>
      updateSession s token fun row => { row with
        status := .completed
        userId := some user
        apiKeyId := some key
        completedAt := some now }
  | .other w, _ => [w.write]
  | .session .., _ | .sessionForUpdate .., _ | .mappedUserForShare .., _ => []

def LoginSql.locks (q : LoginSql) (s : Enrollment) : List (RowLock EnrollmentRow) :=
  match q with
  | .session .. => []
  | .sessionForUpdate token _ =>
      if (s.loginSessions.find? token).isSome then [⟨.loginSession token, .update⟩] else []
  | .mappedUserForShare issuer subject =>
      match s.mappedPrincipal issuer subject with
      | some principal =>
          [⟨.externalIdentity issuer subject, .share⟩, ⟨.base (.user principal.userId), .share⟩,
            ⟨.base (.personalLibrary principal.userId), .share⟩,
            ⟨.base (.library principal.libraryId), .share⟩]
      | none => []
  | _ => (q.writes s).map fun w => ⟨w.target, .update⟩

abbrev LoginDb : Interface where
  State := Enrollment
  Row := EnrollmentRow
  Write := EnrollmentWrite
  Stmt := LoginSql
  Result := LoginSql.Result
  apply w s := s.apply w
  eval := LoginSql.eval
  writes := LoginSql.writes
  locks := LoginSql.locks
  valid := Enrollment.Valid
  target := EnrollmentWrite.target
  agree := Enrollment.Agree
  agree_equiv := Enrollment.agree_equivalence
  agree_frame := Enrollment.agree_frame
  agree_apply := Enrollment.agree_apply

/-! The operations -/

def sql (q : LoginSql) : Txn LoginDb q.Result := Txn.stmt (D := LoginDb) q

/-- An insert that breaks a constraint ends in an error. -/
def inserted (isNew : Bool) : Txn LoginDb Unit := if isNew then return () else .fail

inductive LoginSession where
  | pending
  | completed (principal : Principal)
  | cancelled
  | expired
  | missing
  deriving DecidableEq

inductive LoginSessionChange where
  | done
  | conflict
  | expired
  | missing
  | userUnavailable
  deriving DecidableEq

def createLoginSession (tokenHash : Digest) (clientType : ClientType) (now : Int) :
    Txn LoginDb Unit := do
  sql (.deleteStaleSessions now)
  inserted (← sql (.insertSession tokenHash clientType now))

/-- `principal_from_row` -/
def LoginSessionJoin.principal (row : LoginSessionJoin) : Txn LoginDb Principal :=
  match row.user, row.libraryId with
  | some (userId, user), some libraryId =>
      return ⟨userId, user.username, user.displayName, libraryId⟩
  | _, _ => .fail

def loginSession (tokenHash : Digest) (now : Int) : Txn LoginDb LoginSession := do
  match ← sql (.session tokenHash now) with
  | none => return .missing
  | some row =>
      match row.status with
      | .pending => return if row.expired then .expired else .pending
      | .cancelled => return .cancelled
      | .completed => do
          let principal ← row.principal
          return .completed principal

def cancelLoginSession (tokenHash : Digest) (now : Int) : Txn LoginDb LoginSessionChange := do
  match ← sql (.sessionForUpdate tokenHash now) with
  | none => return .missing
  | some (status, _, expired) =>
      if status = .pending && !expired then do
        sql (.cancelSession tokenHash)
        return .done
      else return .conflict

def ClientType.keyName : ClientType → String
  | .mac => "Zotero for Mac"
  | .windows => "Zotero for Windows"
  | .linux => "Zotero for Linux"
  | .ios => "Zotero for iOS"
  | .android => "Zotero for Android"
  | .unknown => "Zotero"

/-- The key row and its permissions; `id` is the next of the sequence. -/
def insertKey (id : ApiKeyId) (user : UserId) (name : String) (apiKeyHash : Digest) :
    Txn LoginDb Unit := do
  inserted (← sql (.insertApiKey id user name apiKeyHash))
  inserted (← sql (.insertUserPermissions id))
  inserted (← sql (.insertAllGroupsPermissions id))

def completeLoginSession (tokenHash apiKeyHash : Digest) (issuer subject : String)
    (id : ApiKeyId) (now : Int) : Txn LoginDb (Ending LoginSessionChange) := do
  match ← sql (.sessionForUpdate tokenHash now) with
  | none => return .drop .missing
  | some (status, clientType, expired) =>
      if status ≠ .pending then return .drop .conflict
      else if expired then return .drop .expired
      else
        match ← sql (.mappedUserForShare issuer subject) with
        | none => return .drop .userUnavailable
        | some user => do
            insertKey id user clientType.keyName apiKeyHash
            sql (.completeSession tokenHash user id now)
            return .commit .done

end Xotero
