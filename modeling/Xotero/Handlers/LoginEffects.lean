import Xotero.Handlers.Login
import Xotero.Store.Evidence

/-!
What each login request does under interference. The session row is locked from
the first statement of a change, and the rows an identity is resolved through
are locked before a key is made for it.
-/

namespace Xotero

section Statements
variable {α : Type} {A : LoginSql → Enrollment → Prop}
  {Q : α → List (RowLock EnrollmentRow) → List EnrollmentWrite → Enrollment → Prop}
  {held : List (RowLock EnrollmentRow)} {log : List EnrollmentWrite} {s : Enrollment}

theorem ensures_sql_bind {q : LoginSql} {f : q.Result → Txn LoginDb α}
    (h : ∀ d, Interference LoginDb held s d → A q (log.foldl Enrollment.apply d) →
      Ensures (D := LoginDb) A Q (f (q.eval (log.foldl Enrollment.apply d)))
        (held ++ q.locks (log.foldl Enrollment.apply d))
        (log ++ q.writes (log.foldl Enrollment.apply d)) d) :
    Ensures (D := LoginDb) A Q (sql q >>= f) held log s :=
  fun d i a => h d i a

/-- An insert goes on only when its row is new. -/
theorem ensures_inserted {isNew : Bool} {rest : Unit → Txn LoginDb α}
    (h : isNew = true → Ensures (D := LoginDb) A Q (rest ()) held log s) :
    Ensures (D := LoginDb) A Q (inserted isNew >>= rest) held log s := by
  cases isNew with
  | true => exact h rfl
  | false => trivial

end Statements

/-! ### Locks -/

theorem LoginSql.covered (q : LoginSql) (s : Enrollment) :
    ∀ w ∈ q.writes s, ⟨w.target, .update⟩ ∈ q.locks s := by
  intro w hw
  cases q <;> first
    | exact List.mem_map.mpr ⟨w, hw, rfl⟩
    | simp [LoginSql.writes] at hw

/-- Every statement locks what it writes, so every program does. -/
theorem login_disciplined {α : Type} (p : Txn LoginDb α) (held : List (RowLock EnrollmentRow)) :
    p.Disciplined (fun _ _ => True) held := by
  induction p generalizing held with
  | ret a | fail => trivial
  | query q next ih =>
      exact fun s => ⟨fun w hw => List.mem_append_right _ (q.covered s w hw), ih _ _⟩

theorem enrollment_wellLocked {site : LoginSite} : (enrollment site).WellLocked where
  program _ := login_disciplined _ []
  auto h := h.elim

/-! ### Sessions -/

def freshSession (clientType : ClientType) (now : Int) : LoginSessionRow where
  userId := none
  apiKeyId := none
  clientType := clientType
  status := .pending
  createdAt := now
  expiresAt := now + 15 * minute
  completedAt := none

/-- What creating a session does: the clean-up takes stale rows only. -/
structure Opened (tokenHash : Digest) (clientType : ClientType) (now : Int)
    (s s' : Enrollment) : Prop where
  base : s'.base = s.base
  identities : s'.externalIdentities = s.externalIdentities
  session : s'.loginSessions.find? tokenHash = some (freshSession clientType now)
  others : ∀ t, t ≠ tokenHash → s'.loginSessions.find? t = s.loginSessions.find? t ∨
    ∃ row, s.loginSessions.find? t = some row ∧ row.isStale now = true ∧
      s'.loginSessions.find? t = none

/-- The row is pending and not yet expired. -/
structure Open (tokenHash : Digest) (now : Int) (row : LoginSessionRow) (s : Enrollment) :
    Prop where
  session : s.loginSessions.find? tokenHash = some row
  pending : row.status = .pending
  alive : now < row.expiresAt

/-- What an approval that succeeds has found, and what it does. -/
structure Approved (tokenHash apiKeyHash : Digest) (issuer subject : String) (id : ApiKeyId)
    (now : Int) (row : LoginSessionRow) (principal : Principal) (s s' : Enrollment) : Prop where
  found : Open tokenHash now row s
  mapped : s.mappedPrincipal issuer subject = some principal
  absent : s.base.apiKeys.find? id = none
  after : s' = {
    base := { s.base with
      apiKeys := s.base.apiKeys.put id ⟨principal.userId, apiKeyHash, none⟩
      apiKeyUserPermissions := s.base.apiKeyUserPermissions.put id ⟨true, true, true, true⟩
      apiKeyAllGroupsPermissions := s.base.apiKeyAllGroupsPermissions.put id ⟨true, true⟩ }
    externalIdentities := s.externalIdentities
    loginSessions := s.loginSessions.put tokenHash { row with
      status := .completed
      userId := some principal.userId
      apiKeyId := some id
      completedAt := some now } }

section Sessions
variable {A : LoginSql → Enrollment → Prop}

/-- Sessions removed one by one. -/
theorem foldl_removeSession (rows : List (Digest × LoginSessionRow)) (s : Enrollment) :
    (rows.map fun e => EnrollmentWrite.loginSession e.1 none).foldl Enrollment.apply s =
      { s with loginSessions := rows.foldl (fun t e => t.erase e.1) s.loginSessions } := by
  induction rows generalizing s with
  | nil => rfl
  | cons e rows ih => exact ih _

theorem find?_foldl_erase (rows : List (Digest × LoginSessionRow))
    (sessions : Table Digest LoginSessionRow) (t : Digest) :
    (rows.foldl (fun table e => table.erase e.1) sessions).find? t =
      if t ∈ rows.map Prod.fst then none else sessions.find? t := by
  induction rows generalizing sessions with
  | nil => simp
  | cons e rows ih =>
      rw [List.foldl_cons, ih, Table.find?_erase]
      by_cases later : t ∈ rows.map Prod.fst
      · exact (if_pos later).trans (if_pos (List.mem_cons_of_mem _ later)).symm
      · rw [if_neg later]
        exact if_congr (by rw [List.map_cons, List.mem_cons, or_iff_left later]) rfl rfl

theorem ensures_createLoginSession (tokenHash : Digest) (clientType : ClientType) (now : Int)
    (s : Enrollment) :
    Ensures (D := LoginDb) A (fun _ _ log d => Opened tokenHash clientType now d
        (log.foldl Enrollment.apply d)) (createLoginSession tokenHash clientType now) [] [] s := by
  refine ensures_sql_bind fun d _ _ => ensures_sql_bind fun d₁ i₁ _ => ?_
  refine Ensures.ite (fun isNew => ?_) fun _ => trivial
  simp only [List.foldl_nil, List.nil_append] at i₁ isNew ⊢
  have added : LoginSql.writes (.insertSession tokenHash clientType now) (List.foldl
      Enrollment.apply d₁ (LoginSql.writes (.deleteStaleSessions now) d)) =
      [.loginSession tokenHash (some (freshSession clientType now))] := if_pos isNew
  rw [added]
  intro d₂ i₂
  have removed := foldl_removeSession
    (d.loginSessions.select fun _ row => row.isStale now) d₂
  rw [List.foldl_append, LoginSql.writes, removed]
  refine ⟨rfl, rfl, Table.find?_put_self _ _ _, fun t other => ?_⟩
  rw [List.foldl_cons, List.foldl_nil, Enrollment.apply, Table.set, Table.find?_put_ne _ _ other,
    find?_foldl_erase]
  by_cases stale : t ∈ (d.loginSessions.select fun _ row => row.isStale now).map Prod.fst
  · obtain ⟨⟨t', row⟩, selected, rfl⟩ := List.mem_map.mp stale
    obtain ⟨found, old⟩ := Table.mem_select.mp selected
    -- The clean-up has locked the row, so it is still there at the commit.
    have lock : ⟨.loginSession t', .update⟩ ∈ LoginSql.locks (.deleteStaleSessions now) d :=
      List.mem_map.mpr ⟨.loginSession t' none, List.mem_map.mpr ⟨_, selected, rfl⟩, rfl⟩
    have kept : Enrollment.Agree (.loginSession t') d d₂ :=
      (i₁.2 _ lock).trans (i₂.2 _ (List.mem_append_left _ lock))
    exact .inr ⟨row, kept.symm.trans found, old, if_pos stale⟩
  · exact .inl (if_neg stale)

variable {α : Type}
  {Q : α → List (RowLock EnrollmentRow) → List EnrollmentWrite → Enrollment → Prop}
  {tokenHash : Digest} {now : Int} {s : Enrollment}

/-- From the first statement of a change on, its session row is locked. -/
theorem ensures_sessionForUpdate
    {f : Option (SessionStatus × ClientType × Bool) → Txn LoginDb α}
    (missing : ∀ d, Ensures (D := LoginDb) A Q (f none) [] [] d)
    (found : ∀ d row, d.loginSessions.find? tokenHash = some row →
      Ensures (D := LoginDb) A Q (f (some (row.status, row.clientType, row.expired now)))
        [⟨.loginSession tokenHash, .update⟩] [] d) :
    Ensures (D := LoginDb) A Q (sql (.sessionForUpdate tokenHash now) >>= f) [] [] s := by
  refine ensures_sql_bind fun d _ _ => ?_
  rcases Option.eq_none_or_eq_some (d.loginSessions.find? tokenHash) with h | ⟨row, h⟩
  · simpa [LoginSql.eval, LoginSql.locks, LoginSql.writes, h] using missing d
  · simpa [LoginSql.eval, LoginSql.locks, LoginSql.writes, h] using found d row h

theorem session_kept {row : LoginSessionRow} {d d' : Enrollment}
    {held : List (RowLock EnrollmentRow)} (found : d.loginSessions.find? tokenHash = some row)
    (locked : ⟨.loginSession tokenHash, .update⟩ ∈ held) (i : Interference LoginDb held d d') :
    d'.loginSessions.find? tokenHash = some row :=
  have kept : d.loginSessions.find? tokenHash = d'.loginSessions.find? tokenHash := i.2 _ locked
  kept ▸ found

theorem ensures_cancelLoginSession :
    Ensures (D := LoginDb) A (fun o held log d =>
        o = .done ∧ ⟨.loginSession tokenHash, .update⟩ ∈ held ∧ (∃ row, Open tokenHash now row d ∧
          log = [.loginSession tokenHash (some { row with status := .cancelled })]) ∨
        o ≠ .done ∧ log = [])
      (cancelLoginSession tokenHash now) [] [] s := by
  refine ensures_sessionForUpdate (fun d _ _ => .inr ⟨nofun, rfl⟩) fun d row found => ?_
  refine Ensures.ite (fun isOpen => ?_) fun _ _ _ => .inr ⟨nofun, rfl⟩
  simp only [Bool.and_eq_true, decide_eq_true_eq, Bool.not_eq_true', LoginSessionRow.expired,
    decide_eq_false_iff_not, Int.not_le] at isOpen
  refine ensures_sql_bind fun d₁ i₁ _ d₂ i₂ => .inl ⟨rfl, by simp, row, ?_⟩
  have row₁ := session_kept found (by simp) i₁
  refine ⟨⟨session_kept row₁ (by simp) i₂, isOpen.1, isOpen.2⟩, ?_⟩
  simp [LoginSql.writes, updateSession, row₁]

/-- The rows of a new key. -/
def keyWrites (id : ApiKeyId) (user : UserId) (apiKeyHash : Digest) : List EnrollmentWrite :=
  [.account (.apiKey id (some ⟨user, apiKeyHash, none⟩)),
    .account (.apiKeyUserPermissions id (some ⟨true, true, true, true⟩)),
    .account (.apiKeyAllGroupsPermissions id (some ⟨true, true⟩))]

theorem writes_insertApiKey {id : ApiKeyId} {user : UserId} {name : String} {apiKeyHash : Digest}
    (isNew : LoginSql.eval (.insertApiKey id user name apiKeyHash) s = true) :
    LoginSql.writes (.insertApiKey id user name apiKeyHash) s =
      [.account (.apiKey id (some ⟨user, apiKeyHash, none⟩))] := if_pos isNew

theorem writes_insertUserPermissions {id : ApiKeyId}
    (isNew : LoginSql.eval (.insertUserPermissions id) s = true) :
    LoginSql.writes (.insertUserPermissions id) s =
      [.account (.apiKeyUserPermissions id (some ⟨true, true, true, true⟩))] := if_pos isNew

theorem writes_insertAllGroupsPermissions {id : ApiKeyId}
    (isNew : LoginSql.eval (.insertAllGroupsPermissions id) s = true) :
    LoginSql.writes (.insertAllGroupsPermissions id) s =
      [.account (.apiKeyAllGroupsPermissions id (some ⟨true, true⟩))] := if_pos isNew

theorem ensures_insertKey (id : ApiKeyId) (user : UserId) (name : String) (apiKeyHash : Digest)
    (held : List (RowLock EnrollmentRow)) :
    Ensures (D := LoginDb) A (fun _ held' log d => ⟨.base (.apiKey id), .update⟩ ∈ held' ∧
        d.base.apiKeys.find? id = none ∧ log = keyWrites id user apiKeyHash)
      (insertKey id user name apiKeyHash) held [] s := by
  refine ensures_sql_bind fun d _ _ => ensures_inserted fun isNew => ?_
  simp only [List.foldl_nil, List.nil_append] at isNew ⊢
  have absent : d.base.apiKeys.find? id = none := by
    simp only [LoginSql.eval, Bool.and_eq_true, Option.isNone_iff_eq_none] at isNew
    exact isNew.1.2
  have key := writes_insertApiKey isNew
  have lock : ⟨.base (.apiKey id), .update⟩ ∈
      LoginSql.locks (.insertApiKey id user name apiKeyHash) d := by
    simp [LoginSql.locks, key, EnrollmentWrite.account, EnrollmentWrite.target, Write.target,
      AccountWrite.target]
  rw [key]
  refine ensures_sql_bind fun d₁ i₁ _ => ensures_inserted fun isNew₁ => ?_
  refine ensures_sql_bind fun d₂ i₂ _ => Ensures.ite (fun isNew₂ => ?_) fun _ => trivial
  intro d₃ i₃
  have kept : d.base.apiKeys.find? id = d₃.base.apiKeys.find? id :=
    Eq.trans (i₁.2 _ (List.mem_append_right _ lock)) (Eq.trans
      (i₂.2 _ (List.mem_append_left _ (List.mem_append_right _ lock)))
      (i₃.2 _ (List.mem_append_left _ (List.mem_append_left _ (List.mem_append_right _ lock)))))
  refine ⟨List.mem_append_left _ (List.mem_append_left _ (List.mem_append_right _ lock)),
    kept ▸ absent, ?_⟩
  rw [writes_insertAllGroupsPermissions isNew₂, writes_insertUserPermissions isNew₁]
  rfl

/-- The rows a mapping is resolved through are locked with it. -/
theorem mapped_kept {issuer subject : String} {principal : Principal} {d d' : Enrollment}
    {held : List (RowLock EnrollmentRow)}
    (mapped : d.mappedPrincipal issuer subject = some principal)
    (locked : LoginSql.locks (.mappedUserForShare issuer subject) d ⊆ held)
    (i : Interference LoginDb held d d') : d'.mappedPrincipal issuer subject = some principal := by
  have lock {k : EnrollmentRow} (h : ⟨k, .share⟩ ∈ LoginSql.locks
      (.mappedUserForShare issuer subject) d) : Enrollment.Agree k d d' := i.2 _ (locked h)
  simp only [LoginSql.locks, mapped] at lock
  obtain ⟨user, identity, active⟩ := Option.bind_eq_some_iff.mp mapped
  obtain ⟨rfl, -⟩ := principalOf_eq_some.mp active
  have identity' : d.externalIdentities.find? (issuer, subject) =
      d'.externalIdentities.find? (issuer, subject) := lock (k := .externalIdentity _ _) (by simp)
  have agree : PrincipalAgree principal d.base d'.base :=
    ⟨lock (k := .base (.library _)) (by simp), lock (k := .base (.user _)) (by simp),
      lock (k := .base (.personalLibrary _)) (by simp)⟩
  exact Option.bind_eq_some_iff.mpr ⟨_, identity' ▸ identity, agree.principalOf active⟩

theorem ensures_completeLoginSession (apiKeyHash : Digest) (issuer subject : String)
    (id : ApiKeyId) :
    Ensures (D := LoginDb) A (fun e _ log d => ∀ o, e = .commit o → o = .done ∧
        ∃ row principal, Approved tokenHash apiKeyHash issuer subject id now row principal d
          (log.foldl Enrollment.apply d))
      (completeLoginSession tokenHash apiKeyHash issuer subject id now) [] [] s := by
  refine ensures_sessionForUpdate (fun d _ _ o same => nomatch same) fun d row found => ?_
  refine Ensures.ite (fun _ _ _ o same => nomatch same) fun pending => ?_
  refine Ensures.ite (fun _ _ _ o same => nomatch same) fun alive => ?_
  simp only [LoginSessionRow.expired, decide_eq_true_eq, Int.not_le] at alive
  refine ensures_sql_bind fun d₁ i₁ _ => ?_
  simp only [List.foldl_nil, LoginSql.writes, List.append_nil]
  rcases Option.eq_none_or_eq_some (d₁.mappedPrincipal issuer subject) with h | ⟨principal, h⟩
  · simp only [LoginSql.eval, h]
    exact fun _ _ o same => nomatch same
  · have user : LoginSql.eval (.mappedUserForShare issuer subject) d₁ =
        some principal.userId := by simp [LoginSql.eval, h]
    rw [user]
    refine Ensures.bind ((ensures_insertKey id principal.userId row.clientType.keyName
      apiKeyHash _).frame.imp ?_)
    rintro _ held log d₂ ⟨⟨key, absent, rfl⟩, sub, i₂⟩
    refine ensures_sql_bind fun d₃ i₃ _ d₄ i₄ o same => ?_
    obtain rfl := Ending.commit.inj same
    -- What the locks have kept since they were taken.
    have rest := i₃.trans (i₄.mono (List.subset_append_left _ _))
    have since₃ := i₂.trans (i₃.mono sub)
    have since₄ := i₂.trans (rest.mono sub)
    have row₁ := session_kept found (by simp) i₁
    have row₃ := session_kept row₁ (by simp) since₃
    have absent₄ : d₂.base.apiKeys.find? id = d₄.base.apiKeys.find? id := rest.2 _ key
    have written : LoginSql.writes (.completeSession tokenHash principal.userId id now)
        ((keyWrites id principal.userId apiKeyHash).foldl Enrollment.apply d₃) =
        [.loginSession tokenHash (some { row with
          status := .completed
          userId := some principal.userId
          apiKeyId := some id
          completedAt := some now })] := by
      have here : ((keyWrites id principal.userId apiKeyHash).foldl Enrollment.apply
          d₃).loginSessions.find? tokenHash = some row := row₃
      simp [LoginSql.writes, updateSession, here]
    refine ⟨rfl, row, principal, ⟨session_kept row₁ (by simp) since₄,
      Decidable.not_not.mp pending, alive⟩, mapped_kept h (List.subset_append_right _ _) since₄,
      absent₄ ▸ absent, ?_⟩
    rw [written]
    rfl

theorem ensures_principal (row : LoginSessionJoin) (held : List (RowLock EnrollmentRow)) :
    Ensures (D := LoginDb) A (fun principal _ log _ => log = [] ∧
        ∃ user, row.user = some user ∧ principal.userId = user.1) row.principal held [] s := by
  obtain ⟨status, expired, user, libraryId⟩ := row
  rcases user with _ | user
  · trivial
  · rcases libraryId with _ | L
    · trivial
    · exact fun _ _ => ⟨rfl, user, rfl, rfl⟩

/-- A read of a session, from the view its statement saw. -/
theorem ensures_loginSession :
    Ensures (D := LoginDb) A (fun o _ log _ => log = [] ∧ ∀ principal, o = .completed principal →
        ∃ view row, A (.session tokenHash now) view ∧
          view.loginSessions.find? tokenHash = some row ∧ row.status = .completed ∧
          row.userId = some principal.userId)
      (loginSession tokenHash now) [] [] s := by
  refine ensures_sql_bind fun d _ seen => ?_
  rcases Option.eq_none_or_eq_some (d.loginSessions.find? tokenHash) with h | ⟨row, h⟩
  · simp only [List.foldl_nil, LoginSql.eval, h]
    refine fun _ _ => ⟨rfl, fun principal same => ?_⟩
    cases same
  · simp only [List.foldl_nil, LoginSql.eval, h, Option.map_some]
    cases status : row.status with
    | pending =>
        refine fun _ _ => ⟨rfl, fun principal same => ?_⟩
        split at same <;> cases same
    | cancelled =>
        refine fun _ _ => ⟨rfl, fun principal same => ?_⟩
        cases same
    | completed =>
        refine Ensures.map ((ensures_principal _ _).imp ?_)
        rintro principal _ log _ ⟨rfl, user, joined, named⟩
        refine ⟨rfl, fun principal' same => ⟨d, row, seen, h, status, ?_⟩⟩
        obtain rfl := LoginSession.completed.inj same
        obtain ⟨u, owner, found⟩ := Option.bind_eq_some_iff.mp joined
        obtain ⟨row', -, rfl⟩ := Option.map_eq_some_iff.mp found
        rw [owner, named]

end Sessions

/-! ### Requests -/

/-- What a login request that commits has done. -/
inductive LoginEffect (site : LoginSite) :
    LoginRequest → LoginReply → Enrollment → Enrollment → Prop where
  | opened {token : String} {headers : Params} {now : Int} {s s' : Enrollment}
      (opened : Opened (site.tokenHash token) (loginClientType headers) now s s') :
      LoginEffect site (.createSession (some token) headers now)
        (.created token (site.config.publicUrl ++ "/login?session=" ++ token)) s s'
  | cancelled {token : String} {now : Int} {row : LoginSessionRow} {s : Enrollment}
      (found : Open (site.tokenHash token) now row s) :
      LoginEffect site (.cancelSession token now) .noContent s
        (s.apply (.loginSession (site.tokenHash token) (some { row with status := .cancelled })))
  | refused {token : String} {now : Int} {a : LoginReply} {s : Enrollment} (no : a ≠ .noContent) :
      LoginEffect site (.cancelSession token now) a s s
  | authorized {headers form : Params} {id : ApiKeyId} {now : Int}
      {token apiKey issuer subject : String} {row : LoginSessionRow} {principal : Principal}
      {s s' : Enrollment} (session : form.get "session" = some token)
      (claims : oidcClaims headers = some (issuer, subject))
      (key : loginApiKey site token = some apiKey)
      (approved : Approved (site.tokenHash token) (site.tokenHash apiKey) issuer subject id now row
        principal s s') :
      LoginEffect site (.loginAuthorize headers form id now) .authorized s s'
  | outside {ws : List OutsideWrite} {s : Enrollment} :
      LoginEffect site (.outside ws) .outside s
        ((ws.map OutsideWrite.write).foldl Enrollment.apply s)

section Requests
variable {site : LoginSite} {A : LoginSql → Enrollment → Prop} {s : Enrollment}

theorem ensures_outside (ws : List OutsideWrite) (held : List (RowLock EnrollmentRow))
    (log : List EnrollmentWrite) (s : Enrollment) :
    Ensures (D := LoginDb) A (fun e _ log' _ => e = .commit .outside ∧
      log' = log ++ ws.map OutsideWrite.write) (outside ws) held log s := by
  induction ws generalizing held log s with
  | nil => exact fun _ _ => ⟨rfl, by simp⟩
  | cons w ws ih =>
      refine ensures_sql_bind fun d _ _ => (ih _ _ d).imp fun e _ log' _ post => ⟨post.1, ?_⟩
      simp [post.2, LoginSql.writes]

/-- A poll that hands out a key has seen the session completed. -/
structure Polled (A : LoginSql → Enrollment → Prop) (site : LoginSite) (token : String)
    (now : Int) (apiKey : String) (user : UserId) : Prop where
  key : loginApiKey site token = some apiKey
  seen : ∃ view row, A (.session (site.tokenHash token) now) view ∧
    view.loginSessions.find? (site.tokenHash token) = some row ∧ row.status = .completed ∧
    row.userId = some user

theorem ensures_checkSession {token : String} {now : Int} :
    Ensures (D := LoginDb) A (fun e _ _ _ => (∀ a, e ≠ .commit a) ∧ ∀ apiKey user username,
        e = .drop (.completed apiKey user username) → Polled A site token now apiKey user)
      (site.checkSession token now) [] [] s := by
  refine Ensures.bind (ensures_loginSession.imp ?_)
  rintro o held log d ⟨rfl, seen⟩
  cases o with
  | completed principal =>
      cases key : loginApiKey site token with
      | none => trivial
      | some apiKey =>
          refine fun _ _ => ⟨nofun, fun apiKey' user username same => ?_⟩
          obtain ⟨rfl, rfl, rfl⟩ := LoginReply.completed.inj (Ending.drop.inj same)
          exact ⟨key, seen principal rfl⟩
  | pending | cancelled | expired | missing => exact fun _ _ => ⟨nofun, nofun⟩

theorem ensures_cancelSession {token : String} {now : Int} :
    Ensures (D := LoginDb) A (fun e _ log d => ∀ a, e = .commit a →
        LoginEffect site (.cancelSession token now) a d (log.foldl Enrollment.apply d))
      (site.cancelSession token now) [] [] s := by
  refine Ensures.bind (ensures_cancelLoginSession.imp ?_)
  rintro o held log d (⟨rfl, lock, row, found, rfl⟩ | ⟨no, rfl⟩)
  · intro d' i a same
    obtain rfl := Ending.commit.inj same
    exact .cancelled ⟨session_kept found.session lock i, found.pending, found.alive⟩
  · cases o with
    | done => exact absurd rfl no
    | conflict | expired | missing | userUnavailable =>
        intro d' _ a same
        obtain rfl := Ending.commit.inj same
        exact .refused nofun

theorem ensures_loginAuthorize {headers form : Params} {id : ApiKeyId} {now : Int} :
    Ensures (D := LoginDb) A (fun e _ log d => ∀ a, e = .commit a →
        LoginEffect site (.loginAuthorize headers form id now) a d
          (log.foldl Enrollment.apply d))
      (site.loginAuthorize headers form id now) [] [] s := by
  have refused (message : LoginReply) : Ensures (D := LoginDb) A (fun e _ log d => ∀ a,
      e = Ending.commit a → LoginEffect site (.loginAuthorize headers form id now) a d
        (log.foldl Enrollment.apply d)) (pure (.drop message)) [] [] s :=
    fun _ _ a same => nomatch same
  refine Ensures.ite (fun _ => refused _) fun _ => ?_
  cases claims : oidcClaims headers with
  | none => exact refused _
  | some claim =>
      obtain ⟨issuer, subject⟩ := claim
      cases session : form.get "session" with
      | none => exact refused _
      | some token =>
          dsimp only
          cases key : loginApiKey site token with
          | none => trivial
          | some apiKey =>
              refine Ensures.ite (fun _ => refused _) fun _ => Ensures.map ?_
              refine (ensures_completeLoginSession (site.tokenHash apiKey) issuer subject id).imp
                fun e _ log d post a same => ?_
              cases e with
              | drop o => cases same
              | commit o =>
                  obtain ⟨rfl, row, principal, approved⟩ := post o rfl
                  obtain rfl := Ending.commit.inj same
                  exact .authorized session claims key approved

/-- What each request promises of its commits, and a poll of its reply. -/
def LoginPost (A : LoginRequest → LoginSql → Enrollment → Prop) (site : LoginSite)
    (r : LoginRequest) (e : Ending LoginReply) (_ : List (RowLock EnrollmentRow))
    (log : List EnrollmentWrite) (d : Enrollment) : Prop :=
  (∀ a, e = .commit a → LoginEffect site r a d (log.foldl Enrollment.apply d)) ∧
    ∀ token now apiKey user username, r = .checkSession token now →
      e = .drop (.completed apiKey user username) → Polled (A r) site token now apiKey user

theorem enrollment_specified (A : LoginRequest → LoginSql → Enrollment → Prop) :
    Session.Specified (enrollment site) A (LoginPost A site) where
  ensures r s _ := by
    cases r with
    | createSession token headers now =>
        cases token with
        | none => exact fun _ _ => ⟨nofun, nofun⟩
        | some token =>
            refine Ensures.map ((ensures_createLoginSession _ _ _ s).imp ?_)
            refine fun _ _ log d opened => ⟨fun a same => ?_, nofun⟩
            obtain rfl := Ending.commit.inj same
            exact .opened opened
    | checkSession token now =>
        refine ensures_checkSession.imp fun e _ log d post => ⟨fun a same => ?_, ?_⟩
        · exact absurd same (post.1 a)
        · rintro _ _ apiKey user username ⟨⟩ same
          exact post.2 apiKey user username same
    | cancelSession token now => exact ensures_cancelSession.imp fun _ _ _ _ post => ⟨post, nofun⟩
    | loginPage params now =>
        have never : (site.loginPage params now).Ends fun e => ∀ a, e ≠ .commit a := by
          unfold LoginSite.loginPage
          split
          · exact fun _ => nofun
          · exact Txn.ends_bind (Txn.ends_true _) fun o _ => by cases o <;> exact fun _ => nofun
        exact (Ensures.of_ends never [] [] s).imp fun _ _ _ _ never =>
          ⟨fun a same => absurd same (never a), nofun⟩
    | loginAuthorize headers form id now =>
        exact ensures_loginAuthorize.imp fun _ _ _ _ post => ⟨post, nofun⟩
    | outside ws =>
        refine (ensures_outside ws [] [] s).imp fun e _ log d post => ⟨fun a same => ?_, nofun⟩
        obtain ⟨rfl, rfl⟩ := post
        obtain rfl := Ending.commit.inj same
        exact .outside

end Requests

end Xotero
