import Mathlib
import Xotero.Foundation.Waiting
import Xotero.Store.Commits
import Xotero.Store.Uploads

/-!
Registrations and guarded writers never wait in a circle: a pending upload comes
before all libraries, the libraries in the order of their ids, then the group,
and what the credentials rest on, table by table and id by id. The rows of a
library are touched only by whoever has locked it for update.
-/

namespace Xotero

/-- The rows that a statement may lock: those named by a lock clause, and those
it writes. -/
inductive LockedRow where
  | named (row : RowId)
  | object (library : LibraryId) (kind : ObjectKind) (key : String)
  | setting (library : LibraryId) (key : String)
  | deletion (library : LibraryId) (kind : DeletionKind) (key : String)
  | file (library : LibraryId) (key : String)
  | fulltext (library : LibraryId) (key : String)
  deriving DecidableEq

def RowId.locked : RowId → LockedRow
  | .item L key => .object L .item key
  | row => .named row

def Write.locked : Write → LockedRow
  | .library L _ => .named (.library L)
  | .object L kind key _ => .object L kind key
  | .setting L key _ => .setting L key
  | .deletion L kind key _ => .deletion L kind key
  | .file L key _ => .file L key
  | .fulltext L key _ => .fulltext L key
  | .pendingUpload token _ => .named (.pendingUpload token)
  | .account w => .named w.target

/-- The row locks of a statement, in the order it asks for them: those of its
lock clause, and then an update lock on each row it writes. -/
def Sql.requests (q : Sql) (d : Database) : List (RowLock LockedRow) :=
  (q.locks d).map (fun l => ⟨l.row.locked, l.mode⟩) ++
    (q.writes d).map fun w => ⟨w.locked, .update⟩

/-- The order of the tables, and in each the order of the ids. -/
def RowId.rank : RowId → Nat × Int
  | .pendingUpload _ => (0, 0)
  | .library L => (1, L.get)
  | .group _ => (2, 0)
  | .user u => (3, u.get)
  | .personalLibrary u => (4, u.get)
  | .apiKey k => (5, k.get)
  | .apiKeyUserPermissions k => (6, k.get)
  | .groupMembership _ u => (7, u.get)
  | .apiKeyAllGroupsPermissions k => (8, k.get)
  | .apiKeyGroupPermission k _ => (9, k.get)
  | .item _ _ => (10, 0)

def LockedRow.rank : LockedRow → Nat ×ₗ Int
  | .named row => toLex row.rank
  | _ => toLex (10, 0)

/-- The library whose lock comes first. -/
def LockedRow.shelter : LockedRow → Option LockedRow
  | .named (.item L _) | .object L _ _ | .setting L _ | .deletion L _ _ | .file L _
  | .fulltext L _ => some (.named (.library L))
  | .named _ => none

def lockOrder : LockOrder LockedRow (Nat ×ₗ Int) := ⟨LockedRow.rank, LockedRow.shelter⟩

abbrev Climbing {α : Type} (Q : α → List (RowLock LockedRow) → Prop) (p : Txn Db α)
    (held : List (RowLock LockedRow)) : Prop :=
  lockOrder.Climbs (D := Db) Sql.requests Q p held

section Climbing
variable {α : Type} {Q : α → List (RowLock LockedRow) → Prop} {q : Sql}
  {held held' : List (RowLock LockedRow)} {p : Txn Db α} {L : LibraryId} {token : Digest}

theorem climbing_execute {Q : q.Result → List (RowLock LockedRow) → Prop}
    (ascending : ∀ d, lockOrder.Ascending held (q.requests d))
    (done : ∀ d d', q.requests d' ⊆ held ++ q.requests d → Q (q.eval d') (held ++ q.requests d)) :
    Climbing Q (execute q) held := by
  unfold execute
  split
  · exact fun d => ⟨ascending d, fun d' locked => done d d' locked⟩
  · trivial

/-- Lookups lock nothing. -/
theorem climbing_lookups (h : p.Avoids fun q : Sql => ¬ q.isLookup) :
    Climbing (fun _ held' => held' = held) p held := by
  induction p with
  | ret a => rfl
  | fail => trivial
  | query q next ih =>
      have lookup : q.isLookup := Decidable.not_not.mp h.1
      have none (d : Database) : q.requests d = [] := by
        cases q <;> simp only [Sql.isLookup, Bool.false_eq_true] at lookup <;> rfl
      intro d
      rw [show Sql.requests q d = [] from none d, List.append_nil]
      exact ⟨trivial, fun d' _ => ih _ (h.2 _)⟩

/-- Whoever has locked what a write is aimed at may write. -/
theorem sheltered_write {w : Write} (locked : ⟨.named w.target, .update⟩ ∈ held) :
    lockOrder.Sheltered held ⟨w.locked, .update⟩ := by
  cases w with
  | library | pendingUpload | account => exact .inl locked
  | object | setting | deletion | file | fulltext => exact .inr ⟨_, rfl, locked⟩

theorem sheltered_writes {K : List RowId} (locked : ∀ k ∈ K, ⟨.named k, .update⟩ ∈ held)
    (inside : Txn.ScopedStmt Db K q) (d : Database) :
    ∀ l ∈ (q.writes d).map (fun w => (⟨w.locked, .update⟩ : RowLock LockedRow)),
      lockOrder.Sheltered held l := by
  intro l mem
  obtain ⟨w, written, rfl⟩ := List.mem_map.mp mem
  exact sheltered_write (locked _ (inside.target_mem written))

/-- Under the update lock of a library, what is about it is sheltered. -/
theorem sheltered_home (home : q.home = some L) (library : ⟨.named (.library L), .update⟩ ∈ held)
    (d : Database) : ∀ l ∈ q.requests d, lockOrder.Sheltered held l := by
  have writes := @sheltered_writes _ held _ (by simpa using library)
    (scopedStmt_of_home home) d
  refine List.forall_mem_append.mpr ⟨fun l mem => ?_, writes⟩
  obtain ⟨l, lock, rfl⟩ := List.mem_map.mp mem
  have named : l.row = .library L ∨ ∃ key, l.row = .item L key := by
    cases q <;> simp only [Sql.home, Option.some.injEq, reduceCtorEq] at home <;> subst home <;>
      simp only [Sql.locks, List.not_mem_nil] at lock
    all_goals grind
  rcases named with same | ⟨key, same⟩
  · exact .inl (by rw [same]; exact library)
  · exact .inr ⟨.named (.library L), by rw [same]; rfl, library⟩

theorem sheltered_token (aimed : q.token = some token)
    (pending : ⟨.named (.pendingUpload token), .update⟩ ∈ held) (d : Database) :
    ∀ l ∈ q.requests d, lockOrder.Sheltered held l := by
  have writes := @sheltered_writes _ held _ (by simpa using pending)
    (scopedStmt_of_token aimed) d
  refine List.forall_mem_append.mpr ⟨fun l mem => ?_, writes⟩
  obtain ⟨l, lock, rfl⟩ := List.mem_map.mp mem
  have named : l.row = .pendingUpload token := by
    cases q <;> simp only [Sql.token, Option.some.injEq, reduceCtorEq] at aimed <;> subst aimed <;>
      simp only [Sql.locks, Sql.writes, updatePendingUpload] at lock
    all_goals grind [Write.target]
  exact .inl (by rw [named]; exact pending)

theorem climbing_of_sheltered {S : Sql → Prop} (h : p.Avoids S)
    (sheltered : ∀ q, ¬ S q → ∀ held', held ⊆ held' → ∀ d, ∀ l ∈ q.requests d,
      lockOrder.Sheltered held' l) : Climbing (fun _ _ => True) p held := by
  induction p generalizing held with
  | ret a | fail => trivial
  | query q next ih =>
      intro d
      refine ⟨LockOrder.ascending_of_sheltered (sheltered q h.1 held (List.Subset.refl _) d),
        fun d' _ => ih _ (h.2 _) fun q' other held' sub => ?_⟩
      exact sheltered q' other held' (List.Subset.trans (List.subset_append_left _ _) sub)

/-- What is in hand comes from the tables before the `k`th. -/
def Passed (k : Nat) (held : List (RowLock LockedRow)) : Prop :=
  ∀ h ∈ held, h.row.shelter = none → (ofLex h.row.rank).1 < k

theorem Passed.mono {k k' : Nat} (h : Passed k held) (le : k ≤ k') : Passed k' held :=
  fun l mem free => Nat.lt_of_lt_of_le (h l mem free) le

/-- The locks of one table, in the order of the ids. -/
def FromTable (k : Nat) (ls : List (RowLock LockedRow)) : Prop :=
  (∀ l ∈ ls, l.row.shelter = none ∧ (ofLex l.row.rank).1 = k) ∧
    ls.Pairwise fun l l' => l.row.rank < l'.row.rank

theorem FromTable.ascending {k : Nat} {ls : List (RowLock LockedRow)} (h : FromTable k ls)
    (passed : Passed k held) : lockOrder.Ascending held ls := by
  refine LockOrder.ascending_of_sorted (fun l mem => ⟨(h.1 l mem).1, fun l' mem' free => ?_⟩) h.2
  exact Prod.Lex.lt_iff.mpr (.inl ((h.1 l mem).2.symm ▸ passed l' mem' free))

theorem FromTable.passed {k : Nat} {ls : List (RowLock LockedRow)} (h : FromTable k ls)
    (passed : Passed k held) : Passed (k + 1) (held ++ ls) := by
  intro l mem free
  rcases List.mem_append.mp mem with before | now
  · exact Nat.lt_succ_of_lt (passed l before free)
  · exact Nat.lt_succ_of_le (Nat.le_of_eq (h.1 l now).2)

/-- A statement that locks rows of the next table. -/
theorem climbing_table {k : Nat} (asks : ∀ d, FromTable k (q.requests d)) (passed : Passed k held) :
    Climbing (fun a held' => (held ⊆ held' ∧ Passed (k + 1) held') ∧
      ∃ d, a = q.eval d ∧ q.requests d ⊆ held') (execute q) held :=
  climbing_execute (fun d => (asks d).ascending passed) fun d d' locked =>
    ⟨⟨List.subset_append_left _ _, (asks d).passed passed⟩, d', rfl, locked⟩

theorem sortIds_sorted {kind : IdKind} (ids : List (Id kind)) :
    (sortIds ids).Pairwise fun a b => a.get < b.get := by
  have sorted : (sortIds ids).Pairwise fun a b => a.get ≤ b.get :=
    (List.pairwise_insertionSort _ ids).sublist (List.dedup_sublist _)
  refine (sorted.and (List.nodup_dedup _)).imp fun {a b} ⟨le, ne⟩ => lt_of_le_of_ne le ?_
  obtain ⟨a, _⟩ := a
  rintro rfl
  exact ne rfl

theorem fromTable_ids {kind : IdKind} {row : Id kind → RowId} {k : Nat} (ids : List (Id kind))
    (p : Id kind → Bool) (m : LockMode) (free : ∀ id, (LockedRow.named (row id)).shelter = none)
    (rank : ∀ id, (row id).rank = (k, id.get)) :
    FromTable k (((sortIds ids).filter p).map fun id => ⟨.named (row id), m⟩) := by
  refine ⟨fun l mem => ?_, ?_⟩
  · obtain ⟨id, -, rfl⟩ := List.mem_map.mp mem
    exact ⟨free id, congrArg Prod.fst (rank id)⟩
  · refine List.pairwise_map.mpr ((sortIds_sorted ids).filter p |>.imp fun {a b} lt => ?_)
    refine Prod.Lex.lt_iff.mpr (.inr ⟨?_, ?_⟩)
    · exact (congrArg Prod.fst (rank a)).trans (congrArg Prod.fst (rank b)).symm
    · have first := congrArg Prod.snd (rank a)
      have second := congrArg Prod.snd (rank b)
      exact first.symm ▸ second.symm ▸ lt

/-- The libraries that are left come after all that is in hand. -/
def Ahead (libraries : List LibraryId) (held : List (RowLock LockedRow)) : Prop :=
  ∀ L ∈ libraries, ∀ h ∈ held, h.row.shelter = none →
    h.row.rank < (LockedRow.named (.library L)).rank

theorem climbing_library {libraries : List LibraryId} {m : LockMode}
    (asks : ∀ d, q.requests d =
      if (d.library.find? L).isSome then [⟨.named (.library L), m⟩] else [])
    (ahead : Ahead (L :: libraries) held) (passed : Passed 2 held)
    (sorted : (L :: libraries).Pairwise fun a b => a.get < b.get) :
    Climbing (fun a held' => (held ⊆ held' ∧ Passed 2 held' ∧ Ahead libraries held') ∧
      ∃ d, a = q.eval d ∧ q.requests d ⊆ held') (execute q) held := by
  obtain ⟨first, rest⟩ := List.forall_mem_cons.mp ahead
  refine climbing_execute (fun d => ?_) fun d d' locked =>
    ⟨⟨List.subset_append_left _ _, fun l mem free => ?_, fun L' mem' l mem free => ?_⟩, d', rfl,
      locked⟩
  · rw [asks]
    split
    · exact ⟨.inr ⟨rfl, first⟩, trivial⟩
    · trivial
  · rcases List.mem_append.mp mem with before | now
    · exact passed l before free
    · rw [asks] at now
      split at now
      · obtain rfl := List.mem_singleton.mp now
        exact Nat.lt_succ_self 1
      · cases now
  · rcases List.mem_append.mp mem with before | now
    · exact rest L' mem' l before free
    · rw [asks] at now
      split at now
      · obtain rfl := List.mem_singleton.mp now
        exact Prod.Lex.lt_iff.mpr (.inr ⟨rfl, (List.pairwise_cons.mp sorted).1 L' mem'⟩)
      · cases now

theorem climbing_lockLibrary {U : LibraryId} {libraries : List LibraryId}
    (ahead : Ahead (L :: libraries) held) (passed : Passed 2 held)
    (sorted : (L :: libraries).Pairwise fun a b => a.get < b.get) :
    Climbing (fun o held' => (held ⊆ held' ∧ Passed 2 held' ∧ Ahead libraries held') ∧
      (o.isSome → L = U → ⟨.named (.library U), .update⟩ ∈ held')) (lockLibrary U L) held := by
  have asks {q : Sql} {m : LockMode} {d : Database}
      (locks : q.locks d = if (d.library.find? L).isSome then [⟨.library L, m⟩] else [])
      (reads : q.writes d = []) : q.requests d =
        if (d.library.find? L).isSome then [⟨.named (.library L), m⟩] else [] := by
    rw [Sql.requests, locks, reads]
    split <;> rfl
  unfold lockLibrary
  split
  case isTrue same =>
      subst same
      have forUpdate (d : Database) := asks (q := .libraryForUpdate L) (d := d) rfl rfl
      refine (climbing_library forUpdate ahead passed sorted).imp ?_
      rintro o held' ⟨facts, d, rfl, locked⟩
      refine ⟨facts, fun found _ => locked ?_⟩
      rw [forUpdate, if_pos (by simpa [Sql.eval] using found)]
      exact List.mem_singleton.mpr rfl
  case isFalse other =>
      refine (climbing_library (fun d => asks (q := .libraryForShare L) (d := d) rfl rfl) ahead
        passed sorted).imp fun o held' h => ⟨h.1, fun _ same => absurd same other⟩

theorem climbing_lockLibraries {U : LibraryId} {libraries : List LibraryId}
    {current : Option Int} (ahead : Ahead libraries held) (passed : Passed 2 held)
    (sorted : libraries.Pairwise fun a b => a.get < b.get)
    (known : current.isSome → ⟨.named (.library U), .update⟩ ∈ held) :
    Climbing (fun o held' => (held ⊆ held' ∧ Passed 2 held') ∧
      ∀ n, o = some (some n) → ⟨.named (.library U), .update⟩ ∈ held')
      (lockLibraries U libraries current) held := by
  induction libraries generalizing current held with
  | nil => exact ⟨⟨List.Subset.refl _, passed⟩, fun n hn => known (by rw [Option.some.inj hn]; rfl)⟩
  | cons L libraries ih =>
      refine LockOrder.Climbs.bind ((climbing_lockLibrary (U := U) ahead passed sorted).imp ?_)
      rintro version held' ⟨⟨sub, passed', ahead'⟩, locked⟩
      cases version with
      | none => exact ⟨⟨sub, passed'⟩, fun n hn => nomatch hn⟩
      | some version =>
          refine (ih ahead' passed' (List.pairwise_cons.mp sorted).2 ?_).imp
            fun o held'' h => ⟨⟨List.Subset.trans sub h.1.1, h.1.2⟩, h.2⟩
          split
          case isTrue same => exact fun _ => locked rfl same
          case isFalse other => exact fun h => sub (known h)

/-- A statement that shares rows of one table, named by ids in order. -/
theorem climbing_sharing {kind : IdKind} (row : Id kind → RowId) {k : Nat} {ids : List (Id kind)}
    {p : Database → Id kind → Bool}
    (locks : ∀ d, q.locks d = ((sortIds ids).filter (p d)).map fun id => ⟨row id, .share⟩)
    (reads : ∀ d, q.writes d = []) (named : ∀ id, (row id).locked = .named (row id))
    (free : ∀ id, (LockedRow.named (row id)).shelter = none)
    (rank : ∀ id, (row id).rank = (k, id.get)) (passed : Passed k held) :
    Climbing (fun _ held' => held ⊆ held' ∧ Passed (k + 1) held') (execute q) held := by
  refine (climbing_table (fun d => ?_) passed).imp fun _ _ h => h.1
  have asks : q.requests d =
      ((sortIds ids).filter (p d)).map fun id => ⟨.named (row id), .share⟩ := by
    rw [Sql.requests, locks, reads, List.map_map, List.map_nil, List.append_nil]
    exact List.map_congr_left fun id _ => by simp only [Function.comp, named]
  exact asks ▸ fromTable_ids ids (p d) .share free rank

theorem climbing_lockGroup (upload : PendingUpload) (passed : Passed 2 held) :
    Climbing (fun _ held' => held ⊆ held' ∧ Passed 3 held') (lockGroup upload) held := by
  unfold lockGroup
  split
  · exact ⟨List.Subset.refl _, passed.mono (by omega)⟩
  · rename_i group _
    refine LockOrder.Climbs.bind ((climbing_table (k := 2) (fun d => ?_) passed).imp ?_)
    · simp only [Sql.requests, Sql.locks, Sql.writes]
      split
      · exact ⟨by simp [RowId.locked, LockedRow.shelter, LockedRow.rank, RowId.rank], by simp⟩
      · exact ⟨by simp, by simp⟩
    · rintro owner held' ⟨grown, -⟩
      cases owner <;> exact grown

theorem climbing_lockKeys (keys : List ApiKeyId) (passed : Passed 5 held) :
    Climbing (fun _ held' => held ⊆ held' ∧ Passed 7 held') (lockKeys keys) held := by
  refine LockOrder.Climbs.bind ((climbing_sharing .apiKey (fun _ => rfl) (fun _ => rfl)
    (fun _ => rfl) (fun _ => rfl) (fun _ => rfl) passed).imp ?_)
  rintro rows held₁ ⟨sub₁, passed₁⟩
  split
  · exact ⟨sub₁, passed₁.mono (by omega)⟩
  · refine LockOrder.Climbs.bind ((climbing_sharing .apiKeyUserPermissions (fun _ => rfl)
      (fun _ => rfl) (fun _ => rfl) (fun _ => rfl) (fun _ => rfl) passed₁).imp ?_)
    exact fun _ _ h => ⟨List.Subset.trans sub₁ h.1, h.2⟩

theorem climbing_lockGroupRows (upload : PendingUpload) (owners : List UserId)
    (keys : List ApiKeyId) (passed : Passed 7 held) :
    Climbing (fun _ held' => held ⊆ held') (lockGroupRows upload owners keys) held := by
  unfold lockGroupRows
  split
  · exact List.Subset.refl _
  · rename_i group _
    refine LockOrder.Climbs.bind ((climbing_sharing (.groupMembership group) (fun _ => rfl)
      (fun _ => rfl) (fun _ => rfl) (fun _ => rfl) (fun _ => rfl) passed).imp ?_)
    rintro memberships held₁ ⟨sub₁, passed₁⟩
    split
    · exact sub₁
    · refine LockOrder.Climbs.bind ((climbing_sharing .apiKeyAllGroupsPermissions
        (fun _ => rfl) (fun _ => rfl) (fun _ => rfl) (fun _ => rfl) (fun _ => rfl) passed₁).imp ?_)
      rintro allGrants held₂ ⟨sub₂, passed₂⟩
      refine LockOrder.Climbs.bind ((climbing_sharing (fun k => .apiKeyGroupPermission k group)
        (fun _ => rfl) (fun _ => rfl) (fun _ => rfl) (fun _ => rfl) (fun _ => rfl) passed₂).imp ?_)
      exact fun _ _ h => List.Subset.trans sub₁ (List.Subset.trans sub₂ h.1)

theorem climbing_lockAuthorityRows (config : Config) (upload : PendingUpload)
    (credentials : List Credential) (authorities : List UploadAuthority) (passed : Passed 2 held) :
    Climbing (fun _ held' => held ⊆ held') (lockAuthorityRows config upload credentials authorities)
      held := by
  refine LockOrder.Climbs.bind ((climbing_lockGroup upload passed).imp ?_)
  rintro groupOwner held₁ ⟨sub₁, passed₁⟩
  cases groupOwner with
  | none => exact sub₁
  | some groupOwner =>
      refine LockOrder.Climbs.bind ((climbing_sharing .user (fun _ => rfl) (fun _ => rfl)
        (fun _ => rfl) (fun _ => rfl) (fun _ => rfl) passed₁).imp ?_)
      rintro _ held₂ ⟨sub₂, passed₂⟩
      refine LockOrder.Climbs.bind ((climbing_sharing .personalLibrary (fun _ => rfl)
        (fun _ => rfl) (fun _ => rfl) (fun _ => rfl) (fun _ => rfl) passed₂).imp ?_)
      rintro mappings held₃ ⟨sub₃, passed₃⟩
      have sub₃ := List.Subset.trans sub₁ (List.Subset.trans sub₂ sub₃)
      dsimp only
      split
      · exact sub₃
      · refine LockOrder.Climbs.bind ((climbing_lockKeys _ passed₃).imp ?_)
        rintro locked held₄ ⟨sub₄, passed₄⟩
        have sub₄ := List.Subset.trans sub₃ sub₄
        split
        · exact sub₄
        · refine LockOrder.Climbs.bind ((climbing_lockGroupRows upload _ _ passed₄).imp ?_)
          rintro grants held₅ sub₅
          have sub₅ := List.Subset.trans sub₄ sub₅
          cases grants with
          | none => exact sub₅
          | some grants =>
              refine (climbing_lookups (avoids_recheckAuthorities _ _ _ _ _)).imp ?_
              rintro _ _ rfl
              exact sub₅

theorem climbing_lockUploadAuthorities (digests : Digests) (config : Config)
    (upload : PendingUpload) (context : RequestContext) (passed : Passed 1 held) :
    Climbing (fun o held' => held ⊆ held' ∧
      (o.isSome → ⟨.named (.library upload.libraryId), .update⟩ ∈ held'))
      (lockUploadAuthorities digests config upload context) held := by
  refine LockOrder.Climbs.bind ((climbing_lookups (avoids_discoverAuthorities _ _)).imp ?_)
  rintro authorities _ rfl
  cases authorities with
  | none => exact ⟨List.Subset.refl _, nofun⟩
  | some authorities =>
      refine LockOrder.Climbs.bind ((climbing_lockLibraries (fun L _ l mem free => ?_)
        (passed.mono (by omega)) (sortIds_sorted _) ?_).imp ?_)
      · exact Prod.Lex.lt_iff.mpr (.inl (passed l mem free))
      · exact nofun
      rintro o held₁ ⟨⟨sub₁, passed₁⟩, locked⟩
      cases o with
      | none => exact ⟨sub₁, nofun⟩
      | some current =>
          refine LockOrder.Climbs.bind ((climbing_lockAuthorityRows _ _ _ _ passed₁).imp ?_)
          rintro allowed held₂ sub₂
          split
          · refine ⟨List.Subset.trans sub₁ sub₂, fun found => ?_⟩
            obtain ⟨n, rfl⟩ := Option.isSome_iff_exists.mp found
            exact sub₂ (locked n rfl)
          · exact ⟨List.Subset.trans sub₁ sub₂, nofun⟩

theorem climbing_registerFile (digests : Digests) (config : Config) (token : Digest)
    (itemKey : String) (access : LibraryAccess) (context : RequestContext) (now : Int) :
    Climbing (fun _ _ => True)
      (registerFile digests config token itemKey access context now) [] := by
  have pendingFirst (d : Database) :
      FromTable 0 ((Sql.pendingUploadForUpdate token now).requests d) := by
    simp only [Sql.requests, Sql.locks, Sql.writes]
    split
    · exact ⟨by simp [RowId.locked, LockedRow.shelter, LockedRow.rank, RowId.rank], by simp⟩
    · exact ⟨by simp, by simp⟩
  refine LockOrder.Climbs.bind ((climbing_table pendingFirst
    fun _ mem => absurd mem List.not_mem_nil).imp ?_)
  rintro pending held ⟨⟨-, passed⟩, d, rfl, locked⟩
  split
  · trivial
  · rename_i upload valid found
    have pending : ⟨.named (.pendingUpload token), .update⟩ ∈ held := by
      refine locked ?_
      obtain ⟨row, found, -⟩ := Option.map_eq_some_iff.mp found
      simp [Sql.requests, Sql.locks, found, RowId.locked]
    split
    · refine climbing_of_sheltered (S := fun q => q.token ≠ some token)
        (Txn.avoids_bind (avoids_execute fun other => other rfl) fun _ => trivial) ?_
      exact fun q aimed held' sub d => sheltered_token (Decidable.not_not.mp aimed) (sub pending) d
    · split
      · trivial
      · rename_i matching
        refine LockOrder.Climbs.bind ((climbing_lockUploadAuthorities _ _ _ _ passed).imp ?_)
        rintro current held₁ ⟨sub, library⟩
        cases current with
        | none => trivial
        | some current =>
            refine climbing_of_sheltered avoids_registerLocked fun q stays held' sub' d => ?_
            have pending := sub' (sub pending)
            have library : ⟨.named (.library access.libraryId), .update⟩ ∈ held' := by
              have same : upload.libraryId = access.libraryId := by
                by_contra other
                exact matching (.inr (.inl other))
              exact sub' (same ▸ library rfl)
            by_cases home : q.home = some access.libraryId
            · exact sheltered_home home library d
            · refine @sheltered_token _ _ token ?_ pending d
              by_contra other
              exact stays ⟨home, other⟩

theorem climbing_guarded (L : LibraryId) (expected : Option Int) (op : GuardedOp) :
    Climbing (fun _ _ => True) (op.program L expected) [] := by
  have stays := avoids_program L expected op
  have shape := guardedShape L expected op
  generalize op.program L expected = p at stays shape
  cases shape with
  | unchanged drops =>
      refine climbing_of_sheltered (S := fun q => q ≠ .libraryVersion L)
        (Txn.avoids_bind (avoids_noChange L expected fun other => other rfl) fun o => ?_) ?_
      · obtain ⟨b, same⟩ := drops o
        rw [same]
        trivial
      · rintro q same held' - d l mem
        obtain rfl := Classical.not_not.mp same
        cases mem
  | @locked f inside =>
      obtain ⟨next, same, failed⟩ := guardedVersion_bind L expected f
      rw [same] at stays ⊢
      have asks (d : Database) : (Sql.libraryForUpdate L).requests d =
          if (d.library.find? L).isSome then [⟨.named (.library L), .update⟩] else [] := by
        simp only [Sql.requests, Sql.locks, Sql.writes]
        split <;> rfl
      refine fun d => ⟨?_, fun d' locked => ?_⟩
      · rw [show Sql.requests (.libraryForUpdate L) d = _ from asks d]
        split
        · exact ⟨.inr ⟨rfl, fun _ mem => absurd mem List.not_mem_nil⟩, trivial⟩
        · trivial
      · rcases locks_or_fails failed L d' with lock | fails
        · have library : ⟨.named (.library L), .update⟩ ∈
              [] ++ (Sql.libraryForUpdate L).requests d :=
            locked (List.mem_append_left _ (List.mem_map_of_mem lock))
          refine climbing_of_sheltered (stays.2 _) fun q home held' sub d => ?_
          exact sheltered_home (Decidable.not_not.mp home) (sub library) d
        · rw [show next (Db.eval (.libraryForUpdate L) d') = _ from fails]
          trivial

end Climbing

/-! ### Any number of registrations and writers -/

/-- The programs of the two. -/
def RegistersOrWrites (digests : Digests) (config : Config) (p : Txn Db (Ending Reply)) : Prop :=
  ∃ r, p = Request.program digests config r ∧
    match r with
    | .registerFile .. | .guarded .. => True
    | .authorizeUpload _ | .administer _ => False

/-- Registrations and guarded writers never deadlock: at no point of any
interleaving of their lock requests does anyone wait for itself, however many
there are between. -/
theorem registrations_and_writers_never_deadlock {ι : Type} [DecidableEq ι] {digests : Digests}
    {config : Config} {w : Contest Db LockedRow (Ending Reply) ι}
    (reachable : Contest.Reachable (RegistersOrWrites digests config) Sql.requests w) (c : ι) :
    ¬ Relation.TransGen w.Waits c c := by
  refine Contest.never_circular (O := lockOrder) ?_ reachable c
  rintro _ ⟨r, rfl, one⟩
  cases r with
  | guarded L expected op => exact climbing_guarded L expected op
  | registerFile token itemKey access context now =>
      refine ((climbing_registerFile digests config token itemKey access context now).imp ?_).bind
      exact fun _ _ _ => trivial
  | authorizeUpload | administer => exact one.elim

/-- Two writers of one library, of which one waits for the other. -/
theorem registrations_and_writers_never_deadlock_two :
    ∃ w : Contest Db LockedRow (Ending Reply) Bool,
      Contest.Reachable (RegistersOrWrites demoDigests demoConfig) Sql.requests w ∧
      w.Waits true false ∧ ∀ c, ¬ Relation.TransGen w.Waits c c := by
  let r : Request := .guarded newLibrary none (.deleteTags ["draft"])
  obtain ⟨next, begins⟩ : ∃ next, Request.program demoDigests demoConfig r =
      Txn.query (D := Db) (.libraryForUpdate newLibrary) next := ⟨_, rfl⟩
  let lock : RowLock LockedRow := ⟨.named (.library newLibrary), .update⟩
  have asks : Sql.requests (.libraryForUpdate newLibrary) attachmentDatabase = [lock] := rfl
  let first : Contest Db LockedRow (Ending Reply) Bool :=
    Contest.set (fun _ => none) false
      (some ⟨.query (.libraryForUpdate newLibrary) next, [lock], some []⟩)
  let w : Contest Db LockedRow (Ending Reply) Bool :=
    first.set true (some ⟨.query (.libraryForUpdate newLibrary) next, [], some [lock]⟩)
  have one : RegistersOrWrites demoDigests demoConfig
      (Txn.query (D := Db) (.libraryForUpdate newLibrary) next) := ⟨r, begins.symm, trivial⟩
  have reachable : Contest.Reachable (RegistersOrWrites demoDigests demoConfig) Sql.requests w := by
    have none : Contest.Reachable (RegistersOrWrites demoDigests demoConfig) Sql.requests
        (fun _ : Bool => none) := .refl
    have asked := none.begin (c := false) one rfl attachmentDatabase
    rw [show Sql.requests (.libraryForUpdate newLibrary) attachmentDatabase = _ from asks] at asked
    have took := asked.take fun _ _ _ here => by cases here
    have waits := took.begin (c := true) one rfl attachmentDatabase
    rwa [show Sql.requests (.libraryForUpdate newLibrary) attachmentDatabase = _ from asks] at waits
  refine ⟨w, reachable,
    ⟨nofun, lock, ⟨_, _, _, rfl⟩, _, rfl, lock, List.mem_cons_self, rfl, .inl rfl⟩, ?_⟩
  exact registrations_and_writers_never_deadlock reachable

end Xotero
