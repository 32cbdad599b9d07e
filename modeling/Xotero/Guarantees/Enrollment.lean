import Xotero.Handlers.LoginEffects
import Xotero.Store.Uploads

/-!
Login sessions over whole runs: a session that is settled stays as it is, so it
is approved at most once, and the key of an approval is all a poll hands out.
-/

namespace Xotero

open Session (Run Step)

section Run
variable {site : LoginSite} {ι : Type} [DecidableEq ι]
  {σ₀ σ : Session (enrollment site) ι} {events : List (Event (enrollment site))}

/-- No client is at work, the constraints hold, and there are no sessions yet. -/
structure EnrollmentStarts (σ₀ : Session (enrollment site) ι) : Prop where
  idle : ∀ c, σ₀.running c = none
  valid : σ₀.state.Valid
  none : σ₀.state.loginSessions = ∅

def eventRequest : Event (enrollment site) → Option LoginRequest
  | .stmt r _ _ | .commit r _ _ _ | .drop r _ _ => some r
  | .auto .. => none

/-- The token of the session an event has created. -/
def createdToken : Event (enrollment site) → Option String
  | .commit (.createSession token _ _) _ _ _ => token
  | _ => none

def presentedToken (e : Event (enrollment site)) : Option String :=
  (eventRequest e).bind LoginRequest.token

/-- Random tokens do not repeat, and no two of those presented have one digest. -/
structure TokensApart (site : LoginSite) (events : List (Event (enrollment site))) : Prop where
  distinct : (events.filterMap createdToken).Nodup
  digests : ∀ token ∈ events.filterMap presentedToken,
    ∀ token' ∈ events.filterMap presentedToken,
      site.tokenHash token = site.tokenHash token' → token = token'

theorem TokensApart.mono {es es' : List (Event (enrollment site))}
    (h : TokensApart site es')
    (earlier : es <+: es') : TokensApart site es where
  distinct := h.distinct.sublist (earlier.sublist.filterMap _)
  digests token ht token' ht' :=
    h.digests token ((earlier.sublist.filterMap _).subset ht) token'
      ((earlier.sublist.filterMap _).subset ht')

/-- An approval that has completed the session of `token` and made its key. -/
inductive Approves (site : LoginSite) (token apiKey : String) (user : UserId) :
    Event (enrollment site) → Prop where
  | intro {headers form : Params} {id : ApiKeyId} {now : Int} {issuer subject : String}
      {row : LoginSessionRow} {principal : Principal} {s s' : Enrollment}
      (session : form.get "session" = some token)
      (claims : oidcClaims headers = some (issuer, subject))
      (key : loginApiKey site token = some apiKey)
      (approved : Approved (site.tokenHash token) (site.tokenHash apiKey) issuer subject id now row
        principal s s') (owner : principal.userId = user) :
      Approves site token apiKey user
        (.commit (LoginRequest.loginAuthorize headers form id now) LoginReply.authorized s s')

/-- The key `id` was created by a request for the session of `token`. -/
inductive Mints (token : String) (id : ApiKeyId) : Event (enrollment site) → Prop where
  | intro {r : LoginRequest} {a : LoginReply} {s s' : Enrollment} (session : r.token = some token)
      (absent : s.base.apiKeys.find? id = none) (present : (s'.base.apiKeys.find? id).isSome) :
      Mints token id (.commit r a s s')

/-! ### One change -/

theorem login_effect (run : Run σ₀ events σ) (starts : EnrollmentStarts σ₀)
    {e : Event (enrollment site)} (he : e ∈ events) {s s' : Enrollment}
    (moved : Session.Event.Moves e s s') :
      ∃ r a, e = .commit r a s s' ∧ LoginEffect site r a s s' := by
  have meets := run.meets enrollment_wellLocked (enrollment_specified fun _ _ _ => True)
    starts.idle starts.valid (fun _ _ _ _ => trivial) e he
  cases moved with
  | commit =>
      obtain ⟨-, held, log, post, rfl⟩ := meets
      exact ⟨_, _, rfl, post.1 _ rfl⟩
  | auto => exact meets.2.1.elim

/-- What a change does to the session row of the digest `t`. -/
inductive SessionChange (site : LoginSite) (t : Digest) (e : Event (enrollment site))
    (s s' : Enrollment) : Prop where
  | same (same : s'.loginSessions.find? t = s.loginSessions.find? t)
  | removed (gone : s'.loginSessions.find? t = none)
  | created {token : String} {row : LoginSessionRow} (created : createdToken e = some token)
      (hash : site.tokenHash token = t) (found : s'.loginSessions.find? t = some row)
      (pending : row.status = .pending)
  | cancelled {row : LoginSessionRow} (found : s.loginSessions.find? t = some row)
      (pending : row.status = .pending)
      (after : s'.loginSessions.find? t = some { row with status := .cancelled })
  | approved {token apiKey : String} {user : UserId} {row : LoginSessionRow}
      (approves : Approves site token apiKey user e) (hash : site.tokenHash token = t)
      (found : s.loginSessions.find? t = some row) (pending : row.status = .pending)

theorem Approved.session {tokenHash apiKeyHash : Digest} {issuer subject : String} {id : ApiKeyId}
    {now : Int} {row : LoginSessionRow} {principal : Principal} {s s' : Enrollment}
    (h : Approved tokenHash apiKeyHash issuer subject id now row principal s s') :
    s'.loginSessions = s.loginSessions.put tokenHash { row with
      status := .completed
      userId := some principal.userId
      apiKeyId := some id
      completedAt := some now } := by
  rw [h.after]

/-- What the outside does to a session: nothing, or it is gone. -/
theorem outside_session (ws : List OutsideWrite) (s : Enrollment) (t : Digest) :
    ((ws.map OutsideWrite.write).foldl Enrollment.apply s).loginSessions.find? t =
        s.loginSessions.find? t ∨
      ((ws.map OutsideWrite.write).foldl Enrollment.apply s).loginSessions.find? t = none := by
  induction ws generalizing s with
  | nil => exact .inl rfl
  | cons w ws ih =>
      have first : (s.apply w.write).loginSessions.find? t = s.loginSessions.find? t ∨
          (s.apply w.write).loginSessions.find? t = none := by
        cases w with
        | base w => exact .inl rfl
        | externalIdentity issuer subject row => exact .inl rfl
        | removeSession token =>
            simp only [OutsideWrite.write, Enrollment.apply, Table.find?_set]
            by_cases same : t = token <;> simp [same]
      rcases ih (s.apply w.write) with kept | gone
      · rcases first with same | none
        · exact .inl (kept.trans same)
        · exact .inr (kept.trans none)
      · exact .inr gone

theorem session_change (run : Run σ₀ events σ) (starts : EnrollmentStarts σ₀) (t : Digest)
    {e : Event (enrollment site)} (he : e ∈ events) {s s' : Enrollment}
    (moved : Session.Event.Moves e s s') : SessionChange site t e s s' := by
  obtain ⟨r, a, rfl, effect⟩ := login_effect run starts he moved
  cases effect with
  | @opened token headers now _ _ opened =>
      by_cases same : t = site.tokenHash token
      · subst same
        exact .created rfl rfl opened.session rfl
      · rcases opened.others t same with kept | ⟨row, -, -, gone⟩
        · exact .same kept
        · exact .removed gone
  | @cancelled token now row _ found =>
      by_cases same : t = site.tokenHash token
      · subst same
        exact .cancelled found.session found.pending (Table.find?_put_self _ _ _)
      · exact .same (Table.find?_put_ne _ _ same)
  | refused => exact .same rfl
  | @authorized headers form id now token apiKey issuer subject row principal _ _ session claims key
      approved =>
      by_cases same : t = site.tokenHash token
      · subst same
        exact .approved (.intro session claims key approved rfl) rfl approved.found.session
          approved.found.pending
      · exact .same (by rw [approved.session, Table.find?_put_ne _ _ same])
  | outside =>
      rcases outside_session _ _ t with kept | gone
      · exact .same kept
      · exact .removed gone

/-- An approval completes the session it is for. -/
theorem Approves.completes {token apiKey : String} {user : UserId} {e : Event (enrollment site)}
    (h : Approves site token apiKey user e) {s s' : Enrollment}
    (moved : Session.Event.Moves e s s') : ∃ row,
      s'.loginSessions.find? (site.tokenHash token) = some row ∧ row.status = .completed := by
  cases h with
  | intro session claims key approved owner =>
      cases moved
      exact ⟨_, by rw [approved.session, Table.find?_put_self], rfl⟩

/-- A completed row is an old one or the work of an approval just made. -/
theorem completed_by (run : Run σ₀ events σ) (starts : EnrollmentStarts σ₀)
    {e : Event (enrollment site)} (he : e ∈ events) {s s' : Enrollment}
    (moved : Session.Event.Moves e s s') {t : Digest} {row : LoginSessionRow}
    (found : s'.loginSessions.find? t = some row) (completed : row.status = .completed) :
    s.loginSessions.find? t = some row ∨
      ∃ token apiKey user, site.tokenHash token = t ∧ Approves site token apiKey user e := by
  cases session_change run starts t he moved with
  | same same => exact .inl (same.symm.trans found)
  | removed gone => exact nomatch gone.symm.trans found
  | created _ _ found' pending =>
      obtain rfl := Option.some.inj (found'.symm.trans found)
      exact nomatch pending.symm.trans completed
  | cancelled _ _ after =>
      obtain rfl := Option.some.inj (after.symm.trans found)
      cases completed
  | approved approves hash => exact .inr ⟨_, _, _, hash, approves⟩

/-! ### What a session row tells about the past -/

omit [DecidableEq ι] in
theorem mem_of_earlier {es es' : List (Event (enrollment site))} {e : Event (enrollment site)}
    (h : es' ++ [e] <+: es) : e ∈ es :=
  h.subset (List.mem_append_right _ (List.mem_singleton_self e))

/-- Every session has been created. -/
theorem created_before (run : Run σ₀ events σ) (starts : EnrollmentStarts σ₀) {t : Digest}
    {row : LoginSessionRow} (found : σ.state.loginSessions.find? t = some row) :
    ∃ token ∈ events.filterMap createdToken, site.tokenHash token = t := by
  refine run.history (H := fun es s => ∀ t row, s.loginSessions.find? t = some row →
    ∃ token ∈ es.filterMap createdToken, site.tokenHash token = t) ?_ ?_ ?_ t row found
  · intro t row found
    rw [starts.none, Table.find?_empty] at found
    cases found
  · intro es e s _ _ known t row found
    obtain ⟨token, before, hash⟩ := known t row found
    exact ⟨token, by simp [before], hash⟩
  · intro es e s s' earlier moved known t row found
    have old {row' : LoginSessionRow} (found' : s.loginSessions.find? t = some row') :
        ∃ token ∈ (es ++ [e]).filterMap createdToken, site.tokenHash token = t := by
      obtain ⟨token, before, hash⟩ := known t row' found'
      exact ⟨token, by simp [before], hash⟩
    cases session_change run starts t (mem_of_earlier earlier) moved with
    | same same => exact old (same.symm.trans found)
    | removed gone => exact nomatch gone.symm.trans found
    | @created token _ created hash => exact ⟨token, by simp [created], hash⟩
    | cancelled found' | approved _ _ found' => exact old found'

/-- Every completed session has been approved. -/
theorem approved_before (run : Run σ₀ events σ) (starts : EnrollmentStarts σ₀) {t : Digest}
    {row : LoginSessionRow} (found : σ.state.loginSessions.find? t = some row)
    (completed : row.status = .completed) :
    ∃ e ∈ events, ∃ token apiKey user, site.tokenHash token = t ∧
      Approves site token apiKey user e ∧ row.userId = some user := by
  refine run.history (H := fun es s => ∀ t row, s.loginSessions.find? t = some row →
    row.status = .completed → ∃ e ∈ es, ∃ token apiKey user, site.tokenHash token = t ∧
      Approves site token apiKey user e ∧ row.userId = some user) ?_ ?_ ?_ t row found completed
  · intro t row found
    rw [starts.none, Table.find?_empty] at found
    cases found
  · intro es e s _ _ known t row found completed
    obtain ⟨e', before, rest⟩ := known t row found completed
    exact ⟨e', List.mem_append_left _ before, rest⟩
  · intro es e s s' earlier moved known t row found completed
    obtain old | ⟨token, apiKey, user, hash, approves⟩ :=
      completed_by run starts (mem_of_earlier earlier) moved found completed
    · obtain ⟨e', before, rest⟩ := known t row old completed
      exact ⟨e', List.mem_append_left _ before, rest⟩
    · refine ⟨e, by simp, token, apiKey, user, hash, approves, ?_⟩
      cases approves with
      | intro _ _ _ approved owner =>
          cases moved
          rw [← hash, approved.session, Table.find?_put_self] at found
          obtain rfl := Option.some.inj found
          exact congrArg some owner

/-- A session that is there is not created again. -/
theorem not_created_again {es es' : List (Event (enrollment site))}
    (run : Run σ₀ es σ) (starts : EnrollmentStarts σ₀) (apart : TokensApart site (es ++ es'))
    {t : Digest} {row : LoginSessionRow} (found : σ.state.loginSessions.find? t = some row) :
    ∀ e ∈ es', ∀ token, createdToken e = some token → site.tokenHash token ≠ t := by
  intro e he token created hash
  obtain ⟨token', before, hash'⟩ := created_before run starts found
  have presented {e : Event (enrollment site)} {token : String}
      (created : createdToken e = some token) : presentedToken e = some token := by
    unfold createdToken at created
    split at created
    · exact created
    · cases created
  obtain ⟨e', he', created'⟩ := List.mem_filterMap.mp before
  have same : token' = token := by
    refine apart.digests _ ?_ _ ?_ (hash'.trans hash.symm)
    · exact List.mem_filterMap.mpr ⟨e', List.mem_append_left _ he', presented created'⟩
    · exact List.mem_filterMap.mpr ⟨e, List.mem_append_right _ he, presented created⟩
  have distinct := apart.distinct
  rw [List.filterMap_append, List.nodup_append] at distinct
  exact distinct.2.2 token' before token (List.mem_filterMap.mpr ⟨e, he, created⟩) same

/-- What stays of a session from one state to a later one. -/
def Settled (t : Digest) (s s' : Enrollment) : Prop :=
  (s.loginSessions.find? t = none → s'.loginSessions.find? t = none) ∧
    ∀ row, s.loginSessions.find? t = some row → row.status ≠ .pending →
      s'.loginSessions.find? t = some row ∨ s'.loginSessions.find? t = none

theorem Settled.trans {t : Digest} {s s' s'' : Enrollment} (h : Settled t s s')
    (h' : Settled t s' s'') : Settled t s s'' := by
  refine ⟨fun absent => h'.1 (h.1 absent), fun row found settled => ?_⟩
  rcases h.2 row found settled with kept | gone
  · exact h'.2 row kept settled
  · exact .inr (h'.1 gone)

instance (t : Digest) : Std.Refl (Settled t) := ⟨fun _ => ⟨id, fun _ found _ => .inl found⟩⟩

instance (t : Digest) : IsTrans Enrollment (Settled t) := ⟨fun _ _ _ => Settled.trans⟩

theorem SessionChange.settled {t : Digest} {e : Event (enrollment site)} {s s' : Enrollment}
    (h : SessionChange site t e s s')
    (old : ∀ token, createdToken e = some token → site.tokenHash token ≠ t) : Settled t s s' := by
  cases h with
  | same same => exact ⟨fun absent => same.trans absent, fun row found _ => .inl (same.trans found)⟩
  | removed gone => exact ⟨fun _ => gone, fun _ _ _ => .inr gone⟩
  | created created hash => exact absurd hash (old _ created)
  | cancelled found pending | approved _ _ found pending =>
      refine ⟨fun absent => (nomatch absent.symm.trans found), fun row found' settled => ?_⟩
      obtain rfl := Option.some.inj (found.symm.trans found')
      exact absurd pending settled

/-- A session that is no longer pending stays as it is, or is gone for good. -/
theorem settled_stays {es es' : List (Event (enrollment site))} {σ₁ : Session (enrollment site) ι}
    (run : Run σ₀ es σ₁) (run' : Run σ₁ es' σ) (starts : EnrollmentStarts σ₀)
    (apart : TokensApart site (es ++ es')) {t : Digest} {row : LoginSessionRow}
    (found : σ₁.state.loginSessions.find? t = some row) (settled : row.status ≠ .pending) :
    σ.state.loginSessions.find? t = some row ∨ σ.state.loginSessions.find? t = none := by
  have chain := run'.chain (R := Settled t) fun e he s s' moved =>
    (session_change (run.trans run') starts t (List.mem_append_right _ he) moved).settled
      (not_created_again run starts apart found e he)
  rw [Relation.reflTransGen_eq_self] at chain
  exact chain.2 row found settled

/-! ### Keys -/

/-- Only an approval creates a key for a session. -/
theorem mints_approves (run : Run σ₀ events σ) (starts : EnrollmentStarts σ₀) {token : String}
    {id : ApiKeyId} {e : Event (enrollment site)} (he : e ∈ events) (mints : Mints token id e) :
    ∃ headers form now issuer subject apiKey row principal s s',
      e = .commit (LoginRequest.loginAuthorize headers form id now) LoginReply.authorized s s' ∧
      Approved (site.tokenHash token) (site.tokenHash apiKey) issuer subject id now row principal
        s s' := by
  obtain ⟨session, absent, present⟩ := mints
  obtain ⟨r, a, same, effect⟩ := login_effect run starts he .commit
  obtain ⟨rfl, rfl, -, -⟩ := Event.commit.inj same
  cases effect with
  | opened opened => simp [opened.base, absent] at present
  | cancelled | refused => simp [Enrollment.apply, absent] at present
  | @authorized headers form id' now token' apiKey issuer subject row principal _ _ session' _ _
      approved =>
      obtain rfl := Option.some.inj (session'.symm.trans session)
      by_cases other : id = id'
      · subst other
        exact ⟨_, _, _, _, _, _, _, _, _, _, rfl, approved⟩
      · rw [approved.after, Table.find?_put_ne _ _ other, absent] at present
        cases present
  | outside => cases session

theorem pairwise_of_split {α : Type} {R : α → α → Prop} {xs : List α}
    (h : ∀ ys x zs, xs = ys ++ x :: zs → ∀ z ∈ zs, R x z) : xs.Pairwise R := by
  induction xs with
  | nil => exact .nil
  | cons x xs ih =>
      refine List.pairwise_cons.mpr ⟨h [] x xs rfl, ih fun ys y zs same => ?_⟩
      exact h (x :: ys) y zs (by simp [same])

/-- Of two keys for one session, the second would need it to be pending again. -/
theorem mints_once (run : Run σ₀ events σ) (starts : EnrollmentStarts σ₀)
    (apart : TokensApart site events) :
    events.Pairwise fun e e' => ∀ token id id', Mints token id e → ¬ Mints token id' e' := by
  refine pairwise_of_split fun es e es' whole e' he' token id id' mints mints' => ?_
  obtain ⟨es₁, es₂, rfl⟩ := List.append_of_mem he'
  have he : e ∈ events := by simp [whole]
  have apart' : TokensApart site (es ++ [e] ++ es₁) := apart.mono ⟨e' :: es₂, by simp [whole]⟩
  obtain ⟨_, _, _, _, _, _, row, principal, s, s', rfl, approved⟩ :=
    mints_approves run starts he mints
  obtain ⟨_, _, _, _, _, _, row', _, t, t', rfl, approved'⟩ :=
    mints_approves run starts (by simp [whole]) mints'
  subst whole
  obtain ⟨σ₁, σ₂, -, -, run₂, rfl, rest⟩ := run.around .commit
  obtain ⟨σ₃, σ₄, run₃, rfl, -⟩ := rest.around .commit
  have completed := congrArg (fun sessions => sessions.find? (site.tokenHash token))
    approved.session
  rw [Table.find?_put_self] at completed
  rcases settled_stays run₂ run₃ starts apart' completed nofun with kept | gone
  · obtain rfl := Option.some.inj (kept.symm.trans approved'.found.session)
    cases approved'.found.pending
  · exact nomatch gone.symm.trans approved'.found.session

/-! ### Polls -/

theorem readOnly_loginSession (tokenHash : Digest) (now : Int) :
    (loginSession tokenHash now).ReadOnly := by
  refine Txn.readOnly_bind (p := sql _) ⟨fun _ => rfl, fun _ => trivial⟩ fun row => ?_
  rcases row with _ | ⟨status, expired, user, libraryId⟩
  · trivial
  · cases status with
    | pending | cancelled => trivial
    | completed =>
        dsimp only
        refine Txn.readOnly_bind ?_ fun _ => trivial
        cases user <;> cases libraryId <;> trivial

theorem readOnly_checkSession (token : String) (now : Int) :
    (site.checkSession token now).ReadOnly := by
  refine Txn.readOnly_bind (readOnly_loginSession _ _) fun o => ?_
  cases o with
  | completed principal =>
      dsimp only
      cases loginApiKey site token <;> trivial
  | pending | cancelled | expired | missing => trivial

/-- The key that a poll hands out is that of an earlier approval. -/
theorem polled_approved {es es' : List (Event (enrollment site))} {token apiKey username : String}
    {now : Int} {user : UserId} {s : Enrollment}
    (run : Run σ₀ (es ++ .drop (LoginRequest.checkSession token now)
      (LoginReply.completed apiKey user username) s :: es') σ) (starts : EnrollmentStarts σ₀)
    (apart : TokensApart site (es ++ .drop (LoginRequest.checkSession token now)
      (LoginReply.completed apiKey user username) s :: es')) :
    ∃ e ∈ es, Approves site token apiKey user e := by
  obtain ⟨σ₁, σ₂, run₁, step, -⟩ := run.split_at
  have meets := (run₁.snoc step).meets enrollment_wellLocked
    (enrollment_specified fun r q view => .stmt r q view ∈ es) starts.idle starts.valid
    (fun r q view seen => by simpa using seen) _
    (List.mem_append_right _ (List.mem_singleton_self _))
  obtain ⟨-, _, _, post⟩ := meets
  obtain ⟨key, view, row, seen, found, completed, owner⟩ := post.2 _ _ _ _ _ rfl rfl
  obtain ⟨es₁, es₂, rfl⟩ := List.append_of_mem seen
  obtain ⟨σ₃, run₃, rfl⟩ := run₁.view starts.idle (readOnly_checkSession token now)
  obtain ⟨e, he, token', apiKey', user', hash, approves, owner'⟩ :=
    approved_before run₃ starts found completed
  have presented : presentedToken e = some token' := by
    cases approves with
    | intro session => exact session
  have same : token' = token := by
    refine apart.digests _ (List.mem_filterMap.mpr ⟨e, by simp [he], presented⟩) _ ?_ hash
    exact List.mem_filterMap.mpr ⟨_, List.mem_append_right _ List.mem_cons_self, rfl⟩
  subst same
  obtain rfl := Option.some.inj (owner'.symm.trans owner)
  have derived : loginApiKey site token' = some apiKey' := by
    cases approves with
    | intro _ _ key => exact key
  obtain rfl := Option.some.inj (derived.symm.trans key)
  exact ⟨e, by simp [he], approves⟩

/-- A step of an approval that is not its success leaves everything as it was. -/
theorem approval_unchanged (run : Run σ₀ events σ) (starts : EnrollmentStarts σ₀)
    {ev : List (Event (enrollment site))} {σ' : Session (enrollment site) ι} (step : Step σ ev σ')
    {c : ι} {headers form : Params} {id : ApiKeyId} {now : Int} {x : Running LoginDb LoginReply}
    (here : σ.running c = some (LoginRequest.loginAuthorize headers form id now, x))
    (mine : σ'.running c ≠ σ.running c)
    (failed : ∀ s s', .commit (LoginRequest.loginAuthorize headers form id now)
      LoginReply.authorized s s' ∉ ev) : σ'.state = σ.state := by
  have next := run.snoc step
  cases step with
  | start | query | drop | abort => rfl
  | auto alone => exact alone.elim
  | @commit c' r a held log before accepted =>
      by_cases same : c = c'
      · subst same
        obtain ⟨rfl, rfl⟩ := Prod.mk.inj (Option.some.inj (here.symm.trans before))
        obtain ⟨r, b, same, effect⟩ := login_effect next starts
          (List.mem_append_right _ (List.mem_singleton_self _)) .commit
        obtain ⟨rfl, rfl, -, -⟩ := Event.commit.inj same
        cases effect
        exact absurd (List.mem_singleton_self _) (failed _ _)
      · exact absurd (by simp [Session.set, same]) mine

/-- The enrollment of browsers over any run from an empty table, in which a restart
aborts the clients: at most one key
is made for a session; a session that is completed or cancelled stays so; it is
completed only by an approval begun before its expiry, of an active user mapped
to the verified claims; a poll hands out only the key of an earlier approval;
and an approval that fails changes nothing. -/
theorem login_sessions (run : Run σ₀ events σ) (starts : EnrollmentStarts σ₀)
    (apart : TokensApart site events) :
    (events.Pairwise fun e e' => ∀ token id id', Mints token id e → ¬ Mints token id' e') ∧
    (∀ e ∈ events, ∀ token id id', Mints token id e → Mints token id' e → id = id') ∧
    (∀ es es' σ₁, events = es ++ es' → Run σ₀ es σ₁ → Run σ₁ es' σ →
      ∀ t row, σ₁.state.loginSessions.find? t = some row → row.status ≠ .pending →
        σ.state.loginSessions.find? t = some row ∨ σ.state.loginSessions.find? t = none) ∧
    (∀ e ∈ events, ∀ s s', Session.Event.Moves e s s' →
      ∀ t row, s'.loginSessions.find? t = some row → row.status = .completed →
        s.loginSessions.find? t = some row ∨
          ∃ token apiKey user, site.tokenHash token = t ∧ Approves site token apiKey user e) ∧
    (∀ es es' token now apiKey user username s, events = es ++
        .drop (LoginRequest.checkSession token now) (LoginReply.completed apiKey user username) s ::
          es' → ∃ e ∈ es, Approves site token apiKey user e) ∧
    ∀ ev (σ' : Session (enrollment site) ι), Step σ ev σ' →
      ∀ c headers form id now x,
        σ.running c = some (LoginRequest.loginAuthorize headers form id now, x) →
        σ'.running c ≠ σ.running c →
        (∀ s s', .commit (LoginRequest.loginAuthorize headers form id now)
          LoginReply.authorized s s' ∉ ev) → σ'.state = σ.state := by
  refine ⟨mints_once run starts apart, ?_, ?_, ?_, ?_, ?_⟩
  · intro e he token id id' mints mints'
    obtain ⟨_, _, _, _, _, _, _, _, _, _, rfl, -⟩ := mints_approves run starts he mints
    obtain ⟨_, _, _, _, _, _, _, _, _, _, same, -⟩ := mints_approves run starts he mints'
    exact (LoginRequest.loginAuthorize.inj (Event.commit.inj same).1).2.2.1
  · rintro es es' σ₁ rfl run₁ run₂ t row found settled
    exact settled_stays run₁ run₂ starts apart found settled
  · intro e he s s' moved t row found completed
    exact completed_by run starts he moved found completed
  · rintro es es' token now apiKey user username s rfl
    exact polled_approved run starts apart
  · intro ev σ' step c headers form id now x here mine failed
    exact approval_unchanged run starts step here mine failed

end Run

/-! ### An approval across the expiry -/

/-- The digests of the session token, of its first block and of its key. -/
def demoSite : LoginSite where
  digests := {
    sha256 := fun text =>
      if text = "CI8KBZUEEC7DKRVA7GKSPCNH" then
        [185, 134, 154, 158, 1, 229, 23, 173, 76, 223, 69, 223, 69, 60, 115, 145, 50, 206, 19,
          159, 4, 30, 225, 80, 246, 11, 24, 188, 72, 213, 9, 206]
      else demoDigests.sha256 text
    md5Hex := demoDigests.md5Hex }
  hmac _ _ := [142, 251, 49, 138, 51, 108, 238, 131, 192, 144, 45, 43, 233, 5, 44, 150, 24, 160,
    233, 41, 5, 212, 117, 58, 255, 239, 55, 142, 54, 15, 204, 156]
  config := ⟨[], demoOwner, "http://localhost:8189"⟩
  loginKdfKey := utf8 "0123456789abcdef0123456789abcdef"

def sessionToken : String := "00112233445566778899aabbccddeeff"

/-- The key of the session. -/
def sessionKey : String := "CI8KBZUEEC7DKRVA7GKSPCNH"

def firstKey : ApiKeyId := ⟨1, Int.zero_lt_one⟩

def demoEnrollment : Enrollment where
  base := { attachmentDatabase with object := ∅ }
  externalIdentities := (∅ : Table (String × String) UserId).put ("https://id.example", "owner")
    demoOwner
  loginSessions := ∅

def openRequest : LoginRequest := .createSession (some sessionToken) [] 0

/-- The approval begins a microsecond before the session expires. -/
def approveRequest : LoginRequest :=
  .loginAuthorize [("x-xotero-oidc-issuer", "https://id.example"),
    ("x-xotero-oidc-subject", "owner")] [("session", sessionToken)] firstKey (15 * minute - 1)

def pollRequest (now : Int) : LoginRequest := .checkSession sessionToken now

def openedEnrollment : Enrollment :=
  { demoEnrollment with
    loginSessions := (∅ : Table Digest LoginSessionRow).put (demoSite.tokenHash sessionToken)
      (freshSession .unknown 0) }

def approvedEnrollment : Enrollment where
  base := { demoEnrollment.base with
    apiKeys := (∅ : Table ApiKeyId ApiKey).put firstKey
      ⟨demoOwner, demoSite.tokenHash sessionKey, none⟩
    apiKeyUserPermissions := (∅ : Table ApiKeyId Permissions).put firstKey ⟨true, true, true, true⟩
    apiKeyAllGroupsPermissions := (∅ : Table ApiKeyId Grant).put firstKey ⟨true, true⟩ }
  externalIdentities := demoEnrollment.externalIdentities
  loginSessions := openedEnrollment.loginSessions.put (demoSite.tokenHash sessionToken)
    { freshSession .unknown 0 with
      status := .completed
      userId := some demoOwner
      apiKeyId := some firstKey
      completedAt := some (15 * minute - 1) }

example : loginApiKey demoSite sessionToken = some sessionKey := by decide

theorem demoEnrollment_valid : demoEnrollment.Valid := by
  refine ⟨?_, ?_, ?_, ?_, ?_, ?_, ?_, ?_, ?_⟩
  · constructor <;> decide
  all_goals decide

abbrev demoEnrollments : System LoginDb := enrollment demoSite

def approving : Running LoginDb LoginReply :=
  Running.advance openedEnrollment 6 ⟨demoEnrollments.program approveRequest, [], []⟩

set_option maxRecDepth 4000 in
theorem approving_ends : approving.prog = .ret (.commit .authorized) ∧
    LoginDb.applyAll approving.log openedEnrollment = approvedEnrollment :=
  ⟨rfl, rfl⟩

theorem openedEnrollment_valid : openedEnrollment.Valid := by
  refine ⟨demoEnrollment_valid.base, ?_, ?_, ?_, ?_, ?_, ?_, ?_, ?_⟩
  all_goals decide

theorem approvedEnrollment_valid : approvedEnrollment.Valid := by
  refine ⟨?_, ?_, ?_, ?_, ?_, ?_, ?_, ?_, ?_⟩
  · constructor <;> decide
  all_goals decide

/-- The statements of a request, with the states they see. -/
def runs (s : Enrollment) (n : Nat) (r : LoginRequest) : List (Event demoEnrollments) :=
  Session.stmtEvents r (demoEnrollments.stmts s n r)

/-- The session is opened, and its approval has run when a poll looks at it. -/
def untilExpiry : List (Event demoEnrollments) :=
  runs demoEnrollment 2 openRequest ++
    [.commit openRequest (LoginReply.created sessionToken
      "http://localhost:8189/login?session=00112233445566778899aabbccddeeff") demoEnrollment
      openedEnrollment] ++
    runs openedEnrollment 6 approveRequest ++ runs openedEnrollment 1 (pollRequest (15 * minute))

/-- The approval commits, and the session is polled once more. -/
def sinceExpiry : List (Event demoEnrollments) :=
  [.commit approveRequest LoginReply.authorized openedEnrollment approvedEnrollment] ++
    runs approvedEnrollment 1 (pollRequest (16 * minute))

def expiryEvents : List (Event demoEnrollments) :=
  (untilExpiry ++ .drop (pollRequest (15 * minute)) LoginReply.gone openedEnrollment ::
    sinceExpiry) ++ [.drop (pollRequest (16 * minute))
      (LoginReply.completed sessionKey demoOwner "owner") approvedEnrollment]

set_option maxRecDepth 4000 in
theorem expiryEvents_run : Run (Session.idle demoEnrollment : Session demoEnrollments Bool)
    expiryEvents (Session.idle approvedEnrollment) := by
  have opened := Run.request (σ := (Session.idle demoEnrollment : Session demoEnrollments Bool))
    (c := false) (r := openRequest) (s := demoEnrollment) (t := openedEnrollment) 2 rfl rfl rfl rfl
    (fun _ _ _ running => nomatch running) openedEnrollment_valid
  have start := Run.refl.snoc (Step.start
    (σ := (Session.idle openedEnrollment : Session demoEnrollments Bool)) false approveRequest rfl)
  have approved := Run.goOn (S := demoEnrollments) (ι := Bool) (s := openedEnrollment)
    (c := false) (r := approveRequest) 6 (x := ⟨demoEnrollments.program approveRequest, [], []⟩)
  have expired := Run.peek (S := demoEnrollments) (r := pollRequest (15 * minute)) (c := true)
    (σ := (Session.idle openedEnrollment).set false (some (approveRequest, approving))) 1
    (a := LoginReply.gone) rfl rfl rfl
  have commit := Run.finish (S := demoEnrollments) (c := false) (r := approveRequest)
    (ι := Bool) approving_ends.1 approving_ends.2 approvedEnrollment_valid
  have polled := Run.peek (S := demoEnrollments) (r := pollRequest (16 * minute)) (c := true)
    (σ := (Session.idle approvedEnrollment : Session demoEnrollments Bool)) 1
    (a := LoginReply.completed sessionKey demoOwner "owner") rfl rfl rfl
  have whole := (((opened.trans (start.trans approved)).trans expired).trans commit).trans polled
  convert whole using 1
  simp only [expiryEvents, untilExpiry, sinceExpiry, List.append_assoc, List.cons_append,
    List.nil_append]
  rfl

theorem created_runs (s : Enrollment) (n : Nat) (r : LoginRequest) :
    (runs s n r).filterMap createdToken = [] := by
  rw [List.filterMap_eq_nil_iff]
  intro e he
  obtain ⟨p, -, rfl⟩ := List.mem_map.mp he
  rfl

theorem presented_runs {s : Enrollment} {n : Nat} {r : LoginRequest} {e : Event demoEnrollments}
    (h : e ∈ runs s n r) : presentedToken e = r.token := by
  obtain ⟨p, -, rfl⟩ := List.mem_map.mp h
  rfl

theorem presented_expiryEvents : ∀ e ∈ expiryEvents, presentedToken e = some sessionToken := by
  intro e he
  simp only [expiryEvents, untilExpiry, sinceExpiry, List.mem_append, List.mem_cons,
    List.not_mem_nil, or_false] at he
  rcases he with ((((opened | rfl) | approved) | expired) | rfl | rfl | polled) | rfl
  · exact presented_runs opened
  · rfl
  · exact presented_runs approved
  · exact presented_runs expired
  · rfl
  · rfl
  · exact presented_runs polled
  · rfl

theorem expiryEvents_apart : TokensApart demoSite expiryEvents where
  distinct := by
    simp only [expiryEvents, untilExpiry, sinceExpiry, List.filterMap_append,
      List.filterMap_cons, created_runs]
    decide
  digests token ht token' ht' _ := by
    obtain ⟨e, he, presented⟩ := List.mem_filterMap.mp ht
    obtain ⟨e', he', presented'⟩ := List.mem_filterMap.mp ht'
    rw [presented_expiryEvents e he] at presented
    rw [presented_expiryEvents e' he'] at presented'
    exact Option.some.inj (presented.symm.trans presented')

theorem demoEnrollment_starts :
    EnrollmentStarts (Session.idle demoEnrollment : Session demoEnrollments Bool) :=
  ⟨fun _ => rfl, demoEnrollment_valid, rfl⟩

/-- The last poll gets the key of the approval. -/
theorem login_sessions_across_expiry :
    ∃ e ∈ expiryEvents, Approves demoSite sessionToken sessionKey demoOwner e := by
  have sessions := login_sessions expiryEvents_run demoEnrollment_starts expiryEvents_apart
  obtain ⟨e, he, approves⟩ := sessions.2.2.2.2.1 _ [] _ _ _ _ _ _ rfl
  exact ⟨e, List.mem_append_left _ he, approves⟩

/-- A session that a poll has found expired is completed all the same: the
approval read the clock when its transaction began. -/
theorem expired_session_completed : ∃ events es es' s s',
    Run (Session.idle demoEnrollment : Session demoEnrollments Bool) events
      (Session.idle approvedEnrollment) ∧
    EnrollmentStarts (Session.idle demoEnrollment : Session demoEnrollments Bool) ∧
    TokensApart demoSite events ∧
    events = es ++ .drop (pollRequest (15 * minute)) LoginReply.gone s :: es' ∧
    .commit approveRequest LoginReply.authorized s s' ∈ es' ∧
    approveRequest.token = (pollRequest (15 * minute)).token ∧
    (s'.loginSessions.find? (demoSite.tokenHash sessionToken)).map LoginSessionRow.status =
      some .completed := by
  refine ⟨expiryEvents, untilExpiry, sinceExpiry ++ _, openedEnrollment, approvedEnrollment,
    expiryEvents_run, demoEnrollment_starts, expiryEvents_apart, List.append_assoc _ _ _, ?_, rfl,
    rfl⟩
  exact List.mem_append_left _ List.mem_cons_self

end Xotero
