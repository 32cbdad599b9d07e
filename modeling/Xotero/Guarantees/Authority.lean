import Xotero.Guarantees.Registration
import Xotero.Store.AuthorityLocks

/-!
A registration that is done still has its authority when it commits, provided
that its lock of users finds the rows it asks for: that lock alone is not
counted, and a row inserted after it can be taken away again.
-/

namespace Xotero

open Session (Run Step)

/-! ### Authority does not depend on the contents of libraries -/

/-- Two states with the same accounts, and libraries of the same kinds. -/
structure AccountsAgree (d d' : Database) : Prop where
  kind : ∀ L, (d.library.find? L).map Library.kind = (d'.library.find? L).map Library.kind
  users : d'.users = d.users
  personalLibraries : d'.personalLibraries = d.personalLibraries
  apiKeys : d'.apiKeys = d.apiKeys
  apiKeyUserPermissions : d'.apiKeyUserPermissions = d.apiKeyUserPermissions
  groups : d'.groups = d.groups
  groupMemberships : d'.groupMemberships = d.groupMemberships
  apiKeyAllGroupsPermissions : d'.apiKeyAllGroupsPermissions = d.apiKeyAllGroupsPermissions
  apiKeyGroupPermissions : d'.apiKeyGroupPermissions = d.apiKeyGroupPermissions

section AccountsAgree
variable {d d' : Database}

theorem AccountsAgree.hasAuthority (h : AccountsAgree d d') {config : Config}
    {upload : PendingUpload} {credential : Credential} :
    HasAuthority config upload credential d' ↔ HasAuthority config upload credential d := by
  have principals : d'.principalOf = d.principalOf := by
    funext user
    simp only [Database.principalOf, h.users, h.personalLibraries, h.kind]
  have keys : d'.apiKeyRow = d.apiKeyRow := by
    funext hash id key
    simp only [Database.apiKeyRow, principals, h.apiKeyUserPermissions]
  have rows : d'.groupLibraryRow = d.groupLibraryRow := by
    funext group user key grantRows
    simp only [Database.groupLibraryRow, h.users, h.groups, h.groupMemberships, h.kind,
      h.apiKeyAllGroupsPermissions, h.apiKeyGroupPermissions]
  simp only [hasAuthority_iff, UploadAuthority.resolved, UploadAuthority.allowed, Sql.eval,
    principals, keys, rows, h.apiKeys]

theorem accountsAgree_setVersion (d : Database) (L : LibraryId) (n : Int) :
    AccountsAgree d (d.setVersion L n) := by
  unfold Database.setVersion
  cases found : d.library.find? L with
  | none => exact ⟨fun _ => rfl, rfl, rfl, rfl, rfl, rfl, rfl, rfl, rfl⟩
  | some row =>
      refine ⟨fun M => ?_, rfl, rfl, rfl, rfl, rfl, rfl, rfl, rfl⟩
      by_cases same : M = L
      · simp [same, found]
      · rw [Table.find?_put_ne _ _ same]

theorem AccountsAgree.registered (h : AccountsAgree d d') (token : Digest) (itemKey : String)
    (L : LibraryId) (n : Int) (upload : PendingUpload) :
    AccountsAgree d ((Database.edit L n d' (.register itemKey upload)).withPending token none) :=
  { h with }

end AccountsAgree

/-! ### Runs -/

section Run
variable {digests : Digests} {config : Config} {ι : Type} [DecidableEq ι]
  {σ₀ σ : Session (server digests config) ι} {events : List (Event (server digests config))}
  {token : Digest} {itemKey : String} {access : LibraryAccess} {context : RequestContext}
  {now : Int}

/-- A registration that is done had its authority in the state it committed to. -/
theorem registered_authority (run : Run σ₀ events σ) (starts : Starts σ₀)
    (finds : ∀ q view, .stmt (Request.registerFile token itemKey access context now) q view ∈
      events → q.findsUsers view = true) {o : FileRegistrationOutcome} {d d' : Database}
    (he : .commit (Request.registerFile token itemKey access context now) (.registration o) d d' ∈
      events) :
    Registered (fun upload d => ∀ credential ∈ uploadCredentials digests upload context,
      HasAuthority config upload credential d) token itemKey access now d d' o := by
  obtain ⟨r, hr⟩ : ∃ r, r = Request.registerFile token itemKey access context now := ⟨_, rfl⟩
  rw [← hr] at finds he
  have secures : ∀ token' itemKey' access' context' now',
      Secures (fun q v => .registerFile token' itemKey' access' context' now' = r →
          q.findsUsers v = true)
        (fun upload d => .registerFile token' itemKey' access' context' now' = r →
          ∀ credential ∈ uploadCredentials digests upload context,
            HasAuthority config upload credential d) digests config context' := by
    intro token' itemKey' access' context' now' upload held s valid
    by_cases this : Request.registerFile token' itemKey' access' context' now' = r
    · obtain ⟨-, -, -, rfl, -⟩ := Request.registerFile.inj (this.trans hr)
      refine ((secures_authority upload held s valid).assuming fun q v h => h this).imp ?_
      exact fun o held' log d secured found d' i _ => secured found d' i
    · refine (Ensures.of_ends (Txn.ends_true _) held [] s).imp ?_
      exact fun _ _ _ _ _ _ _ _ same => absurd same this
  obtain ⟨-, effect⟩ := commit_effect (A := fun r' q v => r' = r → q.findsUsers v = true)
    (P := fun r' upload d => r' = r → ∀ credential ∈ uploadCredentials digests upload context,
      HasAuthority config upload credential d) run starts
    (fun r' q v ran same => finds q v (same ▸ ran)) secures he
  subst hr
  cases effect with
  | registered registered => exact registered.imp fun upload authority => authority rfl

/-- Registration does not outlive its authority: what is done was authorized
when it committed, and what is denied changes nothing. -/
theorem registration_keeps_authority (run : Run σ₀ events σ) (starts : Starts σ₀)
    (finds : ∀ q view, .stmt (Request.registerFile token itemKey access context now) q view ∈
      events → q.findsUsers view = true) :
    (∀ n d d', .commit (Request.registerFile token itemKey access context now)
        (.registration (.done n)) d d' ∈ events →
      ∃ row, d.pendingUploads.find? token = some row ∧
        ∀ credential ∈ uploadCredentials digests row.upload context,
          HasAuthority config row.upload credential d ∧
            HasAuthority config row.upload credential d') ∧
    (∀ d d', .commit (Request.registerFile token itemKey access context now)
        (.registration .denied) d d' ∉ events) ∧
    ∀ (σ₁ σ₂ : Session (server digests config) ι) ev, Step σ₁ ev σ₂ →
      (∃ d, .drop (Request.registerFile token itemKey access context now)
        (.registration .denied) d ∈ ev) → σ₂.state = σ₁.state := by
  refine ⟨fun n d d' he => ?_, fun d d' he => ?_, ?_⟩
  · cases registered_authority run starts finds he with
    | @done row presented authority item same after =>
        refine ⟨row, presented.found, fun credential member => ?_⟩
        have agree := (accountsAgree_setVersion d access.libraryId
          (d.version access.libraryId + 1)).registered token itemKey access.libraryId
          (d.version access.libraryId + 1) row.upload
        rw [← after] at agree
        exact ⟨authority credential member, agree.hasAuthority.mpr (authority credential member)⟩
  · cases registered_authority run starts finds he
  · rintro σ₁ σ₂ ev step ⟨d, he⟩
    cases step with
    | drop => rfl
    | start | abort => rfl
    | query | commit | auto => simp at he

end Run

set_option maxRecDepth 4000 in
/-- The first upload of an attachment is registered with its authority. -/
theorem registration_keeps_authority_first : ∃ events,
    Run (Session.idle (pendingDatabase .uploaded) : Session demoServer Unit) events
      (Session.idle registeredDatabase) ∧
    ∀ credential ∈ uploadCredentials demoDigests demoUpload demoContext,
      HasAuthority demoConfig { demoUpload with state := .uploaded } credential
        registeredDatabase := by
  have run := Run.request (S := demoServer) (ι := Unit)
      (σ := Session.idle (pendingDatabase .uploaded))
    (c := ()) (r := demoRegister) 30 rfl rfl rfl rfl (fun c' x _ running => nomatch running)
    (show registeredDatabase.Valid by constructor <;> decide)
  have finds : (demoServer.stmts (pendingDatabase .uploaded) 30 demoRegister).all
      (fun p => p.1.findsUsers p.2) = true := rfl
  obtain ⟨done, -⟩ := registration_keeps_authority run
      (starts_idle (pendingDatabase_valid .uploaded))
    fun q view he => by
      cases List.mem_append.mp he with
      | inl ran =>
          obtain ⟨p, hp, same⟩ := List.mem_map.mp ran
          cases same
          exact List.all_eq_true.mp finds p hp
      | inr last => cases List.mem_singleton.mp last
  obtain ⟨row, found, authority⟩ := done 1 _ _ (List.mem_append_right _ (List.mem_singleton_self _))
  obtain rfl := Option.some.inj found
  exact ⟨_, run, fun credential member => (authority credential member).2⟩

/-! ### A member who is put back and disabled -/

def demoMember : UserId := ⟨2, by decide⟩

def groupLibrary : LibraryId := ⟨2, by decide⟩

def demoGroup : GroupId := ⟨1, Int.zero_lt_one⟩

def memberKey : ApiKeyId := ⟨1, Int.zero_lt_one⟩

/-- The digest of the member's key. -/
def memberDigests : Digests where
  sha256 text :=
    if text = "member-key" then
      [70, 95, 14, 8, 143, 144, 185, 154, 145, 26, 2, 150, 85, 108, 105, 118, 197, 190, 112, 50,
        246, 6, 12, 40, 136, 166, 110, 24, 77, 239, 237, 207]
    else demoDigests.sha256 text
  md5Hex := demoDigests.md5Hex

abbrev memberServer : System Db := server memberDigests demoConfig

def groupUpload : PendingUpload :=
  { demoUpload with
    libraryId := groupLibrary
    groupId := some demoGroup
    authorizerKeyHash := memberDigests.sha256 "member-key"
    bootstrapUserId := none
    blobKey := "libraries/2/uploads/ffeeddccbbaa99887766554433221100"
    state := .uploaded }

/-- A group of an owner and perhaps a member; its one item is an attachment whose
file the member has uploaded. -/
def groupDatabase (member : Option User) : Database :=
  { Database.empty with
    library := newDatabase.library.put groupLibrary ⟨0, .group⟩
    object := (∅ : Table (LibraryId × ObjectKind × String) Object).put
      (groupLibrary, .item, "FILE2345") ⟨0, .object [("itemType", .string "attachment"),
        ("linkMode", .string "imported_file")]⟩
    pendingUploads := (∅ : Table Digest PendingUploadRow).put demoToken
      ⟨groupUpload, 0, hour, none⟩
    users := ((∅ : Table UserId User).put demoOwner ⟨"owner", "Owner", none⟩).set demoMember member
    personalLibraries := (∅ : Table UserId LibraryId).set demoMember
      (member.map fun _ => newLibrary)
    apiKeys := (∅ : Table ApiKeyId ApiKey).set memberKey
      (member.map fun _ => ⟨demoMember, memberDigests.sha256 "member-key", none⟩)
    apiKeyUserPermissions := (∅ : Table ApiKeyId Permissions).set memberKey
      (member.map fun _ => ⟨true, true, true, true⟩)
    groups := (∅ : Table GroupId Group).put demoGroup ⟨groupLibrary, demoOwner, .members, .members⟩
    groupMemberships := ((∅ : Table (GroupId × UserId) Role).put (demoGroup, demoOwner) .owner).set
      (demoGroup, demoMember) (member.map fun _ => .member)
    apiKeyAllGroupsPermissions := (∅ : Table ApiKeyId Grant).set memberKey
      (member.map fun _ => ⟨true, true⟩) }

def member (disabledAt : Option Int) : User := ⟨"member", "Member", disabledAt⟩

theorem groupDatabase_valid {u : Option User}
    (h : u ∈ [none, some (member none), some (member (some 5))]) : (groupDatabase u).Valid := by
  simp only [List.mem_cons, List.not_mem_nil, or_false] at h
  rcases h with rfl | rfl | rfl <;> constructor <;> decide

def removeMember : Request := .administer [.apiKeyAllGroupsPermissions memberKey none,
  .apiKeyUserPermissions memberKey none, .apiKey memberKey none,
  .groupMembership demoGroup demoMember none, .personalLibrary demoMember none,
  .user demoMember none]

def restoreMember : Request := .administer [.user demoMember (some (member none)),
  .personalLibrary demoMember (some newLibrary), .groupMembership demoGroup demoMember
    (some .member),
  .apiKey memberKey (some ⟨demoMember, memberDigests.sha256 "member-key", none⟩),
  .apiKeyUserPermissions memberKey (some ⟨true, true, true, true⟩),
  .apiKeyAllGroupsPermissions memberKey (some ⟨true, true⟩)]

def disableMember : Request := .administer [.user demoMember (some (member (some 5)))]

def memberContext : RequestContext :=
  ⟨"member-key", ⟨demoMember, "member", "Member", newLibrary⟩, ⟨true, true, true, true⟩,
    some memberKey⟩

def memberRegister : Request := .registerFile demoToken "FILE2345"
  ⟨groupLibrary, some demoGroup, ⟨true, true, true, true⟩, false, true⟩ memberContext 3

/-- The registration after the statements it has run in each state. -/
def memberRunning (steps : List (Database × Nat)) : Running Db Reply :=
  steps.foldl (fun x step => x.advance step.1 step.2) ⟨memberServer.program memberRegister, [], []⟩

/-- The states in which it runs how many of its statements. -/
def memberSteps : List (Database × Nat) :=
  [(groupDatabase (some (member none)), 6), (groupDatabase none, 1),
    (groupDatabase (some (member none)), 10), (groupDatabase (some (member (some 5))), 6)]

/-- The member is gone when the users are locked, back before the second look at
the authorities, and disabled before the commit; nobody waits. -/
theorem memberRegister_runs : ∃ events,
    Run (Session.idle (groupDatabase (some (member none))) : Session memberServer Bool) events
      ((Session.idle (groupDatabase (some (member (some 5))))).set false
        (some (memberRegister, memberRunning memberSteps))) := by
  have start := Run.refl.snoc (Step.start
    (σ := (Session.idle (groupDatabase (some (member none))) : Session memberServer Bool))
    false memberRegister rfl)
  have discovered := Run.goOn (S := memberServer) (s := groupDatabase (some (member none)))
    (c := false) (r := memberRegister) 6 (x := memberRunning [])
  have removed := Run.beside (S := memberServer) (s := groupDatabase (some (member none)))
    (t := groupDatabase none) (x := (memberRegister, memberRunning (memberSteps.take 1)))
    (c := false) (k := true) (r := removeMember) (by decide) 6 rfl rfl (by decide)
    (groupDatabase_valid (by simp))
  have locked := Run.goOn (S := memberServer) (s := groupDatabase none) (c := false)
    (r := memberRegister) 1 (x := memberRunning (memberSteps.take 1))
  have restored := Run.beside (S := memberServer) (s := groupDatabase none)
    (t := groupDatabase (some (member none)))
    (x := (memberRegister, memberRunning (memberSteps.take 2))) (c := false) (k := true)
    (r := restoreMember) (by decide) 6 rfl rfl (by decide) (groupDatabase_valid (by simp))
  have rechecked := Run.goOn (S := memberServer) (s := groupDatabase (some (member none)))
    (c := false) (r := memberRegister) 10 (x := memberRunning (memberSteps.take 2))
  have disabled := Run.beside (S := memberServer) (s := groupDatabase (some (member none)))
    (t := groupDatabase (some (member (some 5))))
    (x := (memberRegister, memberRunning (memberSteps.take 3))) (c := false) (k := true)
    (r := disableMember) (by decide) 1 rfl rfl (by decide) (groupDatabase_valid (by simp))
  have written := Run.goOn (S := memberServer) (s := groupDatabase (some (member (some 5))))
    (c := false) (r := memberRegister) 6 (x := memberRunning (memberSteps.take 3))
  have first := ((start.trans discovered).trans removed).trans locked
  exact ⟨_, (((first.trans restored).trans rechecked).trans disabled).trans written⟩

def groupRegistered : Database :=
  { groupDatabase (some (member (some 5))) with
    library := newDatabase.library.put groupLibrary ⟨1, .group⟩
    object := (∅ : Table (LibraryId × ObjectKind × String) Object).put
      (groupLibrary, .item, "FILE2345") ⟨1, .object [
        ("md5", .string "5d41402abc4b2a76b9719d911017c592"), ("mtime", .ofInt 1700000000000),
        ("version", .ofInt 1), ("filename", .string "note.txt"),
        ("itemType", .string "attachment"), ("linkMode", .string "imported_file")]⟩
    file := (∅ : Table (LibraryId × String) File).put (groupLibrary, "FILE2345")
      (registeredFile groupUpload 1)
    pendingUploads := ∅ }

set_option maxRecDepth 4000 in
theorem memberRunning_ends :
    (memberRunning memberSteps).prog = .ret (.commit (.registration (.done 1))) ∧
      (memberRunning memberSteps).log.foldl Database.apply
        (groupDatabase (some (member (some 5)))) = groupRegistered :=
  ⟨rfl, rfl⟩

/-- The registration is done although its key no longer has any authority. -/
theorem authority_outlived : ∃ events row credential,
    Run (Session.idle (groupDatabase (some (member none))) : Session memberServer Bool) events
      (Session.idle groupRegistered) ∧
    .commit memberRegister (.registration (.done 1)) (groupDatabase (some (member (some 5))))
      groupRegistered ∈ events ∧
    (groupDatabase (some (member (some 5)))).pendingUploads.find? demoToken = some row ∧
    credential ∈ uploadCredentials memberDigests row.upload memberContext ∧
    ¬ HasAuthority demoConfig row.upload credential groupRegistered := by
  obtain ⟨events, run⟩ := memberRegister_runs
  obtain ⟨ends, after⟩ := memberRunning_ends
  have commit := Run.finish (S := memberServer) (c := false) (r := memberRegister) ends after
    (show groupRegistered.Valid by constructor <;> decide)
  refine ⟨_, _, (memberDigests.sha256 "member-key", none), run.trans commit,
    List.mem_append_right _ (List.mem_singleton_self _), rfl, List.mem_cons_self, ?_⟩
  rw [hasAuthority_iff]
  rintro ⟨authority, resolved, -⟩
  cases resolved

end Xotero
