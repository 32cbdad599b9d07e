import Xotero.Foundation.Locking
import Xotero.Store.Statement

/-!
Statements as programs, and the version guard that every write of a library goes
through. The statements that stay inside one library are confined to its lock.
-/

namespace Xotero

open Txn (ScopedStmt)

/-! What PostgreSQL refuses: text and jsonb with the character U+0000, and the
checks on an inserted pending upload -/

namespace Value

mutual

def storable : Value → Bool
  | .string s => Xotero.storable s
  | .array vs => allStorable vs
  | .object ms => membersStorable ms
  | .null | .bool _ | .number _ => true

def allStorable : List Value → Bool
  | [] => true
  | v :: vs => v.storable && allStorable vs

def membersStorable : Members → Bool
  | [] => true
  | (n, v) :: ms => Xotero.storable n && v.storable && membersStorable ms

end

end Value

def PendingUpload.checked (upload : PendingUpload) : Bool :=
  [upload.itemKey, upload.blobKey, upload.md5, upload.uploadMd5, upload.filename].all storable &&
    upload.expectedMd5.all storable && nonblank upload.itemKey && nonblank upload.blobKey &&
    upload.authorizerKeyHash.length = 32 && 0 ≤ upload.filesize

/-- The texts a query binds. -/
def ItemQuery.storable (q : ItemQuery) : Bool :=
  q.q.all Xotero.storable && q.itemType.included.all Xotero.storable &&
    q.itemType.excluded.all Xotero.storable && q.tags.all (·.all Xotero.storable) &&
    q.collection.all Xotero.storable

def Sql.accepted : Sql → Bool
  | .objectData _ _ key | .deleteObject _ _ key | .upsertDeletion _ _ key _
  | .deleteDeletion _ _ key | .deleteSetting _ key | .fulltextItem _ key | .fileMeta _ key
  | .fileMd5 _ key | .deleteFile _ key | .itemForUpdate _ key => storable key
  | .objects _ _ keys _ => keys.all storable
  | .countItems _ _ q _ | .queryItems _ _ q _ | .itemKeys _ _ q _ => q.storable
  | .upsertObject _ _ key _ data => storable key && data.storable
  | .upsertSetting _ key _ value => storable key && value.storable
  | .stripTag _ tag _ => storable tag
  | .upsertFulltext _ key row => storable key && storable row.content
  | .upsertFile _ key row =>
      storable key && [row.blobKey, row.md5, row.blobMd5, row.filename].all storable
  | .stampItem _ key _ md5 _ filename => storable key && storable md5 && storable filename
  | .createPendingUpload token upload _ => token.length = 32 && upload.checked
  | _ => true

/-- One statement as a program; a refused one ends it in an error. -/
def execute (q : Sql) : Txn Db q.Result := if q.accepted then Txn.stmt (D := Db) q else .fail

/-- `fetch_one` -/
def fetchOne {α : Type} : Option α → Txn Db α
  | some a => .ret a
  | none => .fail

inductive Outcome (α : Type) where
  | done (a : α)
  | conflict (current : Int)
  deriving DecidableEq

def currentVersion (L : LibraryId) : Txn Db Int := do
  let row ← execute (.libraryVersion L)
  fetchOne row

/-- Lock the library row, check the client's expected version, and reserve the
next one. -/
def guardedVersion (L : LibraryId) (expected : Option Int) : Txn Db (Outcome Int) := do
  let row ← execute (.libraryForUpdate L)
  let current ← fetchOne row
  if expected.any (· ≠ current) then
    return .conflict current
  else
    let version := current + 1
    execute (.updateLibraryVersion L version)
    return .done version

/-- A write that changes nothing: no transaction is begun. -/
def noChange (L : LibraryId) (expected : Option Int) : Txn Db (Outcome Int) := do
  let current ← currentVersion L
  if expected.any (· ≠ current) then
    return .conflict current
  else
    return .done current

/-! Programs of single statements -/

section Execute
variable {α : Type} {q : Sql}

theorem execute_bind (f : q.Result → Txn Db α) :
    execute q >>= f = if q.accepted then Txn.query (D := Db) q f else .fail := by
  unfold execute
  split
  · exact Txn.stmt_bind (D := Db) q f
  · exact Txn.fail_bind f

/-- A statement and then the rest: the database takes the statement or nothing follows. -/
theorem execute_bind_eq {f : q.Result → Txn Db α} {d : Database} :
    (execute q >>= f).run d = if q.accepted = true then
      (f (q.eval d)).run ((q.writes d).foldl Database.apply d) else none := by
  rw [execute_bind]
  split <;> rfl

theorem scoped_execute {K : List RowId} (h : ScopedStmt Db K q) : (execute q).Scoped K := by
  unfold execute
  split
  · exact ⟨h, fun _ => trivial⟩
  · trivial

theorem avoids_execute {S : Sql → Prop} (h : ¬ S q) : (execute q).Avoids S := by
  unfold execute
  split
  · exact ⟨h, fun _ => trivial⟩
  · trivial

theorem readOnly_execute (h : ∀ d, q.writes d = []) : (execute q).ReadOnly := by
  unfold execute
  split
  · exact ⟨h, fun _ => trivial⟩
  · trivial

theorem readOnly_fetchOne {a : Option α} : (fetchOne a).ReadOnly := by
  cases a <;> trivial

theorem avoids_fetchOne {S : Sql → Prop} {a : Option α} : (fetchOne a).Avoids S := by
  cases a <;> trivial

/-- A run of one statement. -/
theorem execute_run {d d' : Database} {r : q.Result} (h : (execute q).run d = some (d', r)) :
    d' = (q.writes d).foldl Database.apply d ∧ r = q.eval d := by
  unfold execute at h
  split at h
  · obtain ⟨rfl, rfl⟩ := Prod.mk.inj (Option.some.inj h)
    exact ⟨rfl, rfl⟩
  · simp at h

/-- A run of one statement and then the rest. -/
theorem execute_bind_run {f : q.Result → Txn Db α} {d d' : Database} {a : α}
    (h : (execute q >>= f).run d = some (d', a)) :
    (f (q.eval d)).run ((q.writes d).foldl Database.apply d) = some (d', a) := by
  obtain ⟨_, _, first, rest⟩ := Txn.run_bind_eq_some h
  obtain ⟨rfl, rfl⟩ := execute_run first
  exact rest

/-- A run that begins with a statement whose effect is known. -/
theorem execute_bind_run_to {f : q.Result → Txn Db α} {d d' : Database} {a : α} (d₁ : Database)
    (effect : (q.writes d).foldl Database.apply d = d₁)
    (h : (execute q >>= f).run d = some (d', a)) : (f (q.eval d)).run d₁ = some (d', a) :=
  effect ▸ execute_bind_run h

/-- A replay that begins with a statement reads one of the states there. -/
theorem execute_bind_replay {f : q.Result → Txn Db α} {ds : List Database} {a : α}
    (h : (execute q >>= f).replay ds = some a) :
    ∃ d rest, ds = d :: rest ∧ (f (q.eval d)).replay rest = some a := by
  rw [execute_bind] at h
  split at h
  · cases ds with
    | nil => cases h
    | cons d rest => exact ⟨d, rest, rfl, h⟩
  · cases ds <;> cases h

theorem ret_run {a b : α} {d d' : Database} (h : (pure a : Txn Db α).run d = some (d', b)) :
    d' = d ∧ b = a := by
  obtain ⟨rfl, rfl⟩ := Prod.mk.inj (Option.some.inj h)
  exact ⟨rfl, rfl⟩

theorem ret_replay {a b : α} {ds : List Database} (h : (pure a : Txn Db α).replay ds = some b) :
    b = a :=
  (Option.some.inj ((Txn.replay_ret (D := Db) a ds).symm.trans h)).symm

/-- One statement under interference. -/
theorem ensures_execute {A : Sql → Database → Prop}
    {Q : q.Result → List (RowLock RowId) → List Write → Database → Prop}
    {held : List (RowLock RowId)} {s : Database}
    (h : ∀ d d', Interference Db held s d → A q d → Interference Db (held ++ q.locks d) d d' →
      Q (q.eval d) (held ++ q.locks d) (q.writes d) d') :
    Ensures (D := Db) A Q (execute q) held [] s := by
  unfold execute
  split
  · exact fun d i a d' i' => h d d' i a i'
  · trivial

/-- One statement under interference, and then the rest. -/
theorem ensures_execute_bind {A : Sql → Database → Prop} {f : q.Result → Txn Db α}
    {Q : α → List (RowLock RowId) → List Write → Database → Prop}
    {held : List (RowLock RowId)} {s : Database}
    (h : ∀ d, Interference Db held s d → A q d →
      Ensures (D := Db) A Q (f (q.eval d)) (held ++ q.locks d) (q.writes d) d) :
    Ensures (D := Db) A Q (execute q >>= f) held [] s := by
  rw [execute_bind]
  split
  · exact fun d i a => h d i a
  · trivial

theorem disciplined_execute {Q : q.Result → List (RowLock RowId) → Prop}
    {held : List (RowLock RowId)} (covered : ∀ d, ∀ w ∈ q.writes d,
      ⟨w.target, .update⟩ ∈ held ++ q.locks d)
    (h : ∀ d, Q (q.eval d) (held ++ q.locks d)) : (execute q).Disciplined Q held := by
  unfold execute
  split
  · exact fun d => ⟨covered d, h d⟩
  · trivial

theorem disciplined_read {Q : q.Result → List (RowLock RowId) → Prop}
    {held : List (RowLock RowId)} (reads : ∀ d, q.writes d = [])
    (h : ∀ d, Q (q.eval d) (held ++ q.locks d)) : (execute q).Disciplined Q held :=
  disciplined_execute (fun d w hw => by simp [reads] at hw) h

end Execute

/-! Statements confined to one library -/

def Sql.home : Sql → Option LibraryId
  | .libraryForUpdate L | .libraryVersion L | .updateLibraryVersion L _ | .objectData L _ _
  | .upsertObject L _ _ _ _ | .deleteObject L _ _ | .upsertDeletion L _ _ _
  | .deleteDeletion L _ _ | .upsertSetting L _ _ _ | .deleteSetting L _ | .stripTag L _ _
  | .upsertFulltext L _ _ | .fileMd5 L _ | .upsertFile L _ _ | .deleteFile L _
  | .itemForUpdate L _ | .stampItem L _ _ _ _ _ => some L
  | _ => none

section Home
variable {L : LibraryId} {d d' : Database}

@[simp] theorem inLibrary_self {α : Type} (L : LibraryId) (x : α) : inLibrary L (L, x) = true := by
  simp [inLibrary]

theorem LibraryAgree.find?_object (h : LibraryAgree L d d') (kind : ObjectKind) (key : String) :
    d.object.find? (L, kind, key) = d'.object.find? (L, kind, key) :=
  Table.find?_eq_of_part_eq h.object (inLibrary_self L _)

theorem LibraryAgree.find?_file (h : LibraryAgree L d d') (key : String) :
    d.file.find? (L, key) = d'.file.find? (L, key) :=
  Table.find?_eq_of_part_eq h.file (inLibrary_self L _)

theorem LibraryAgree.taggedItems (h : LibraryAgree L d d') (tag : String) :
    d.taggedItems L tag = d'.taggedItems L tag := by
  unfold Database.taggedItems Database.objectsWhere
  rw [Table.select_eq_of_part_eq h.object]
  intro k o hk
  simp only [Bool.and_eq_true, decide_eq_true_eq] at hk
  simpa [inLibrary] using hk.1.1

theorem LibraryAgree.version (h : LibraryAgree L d d') : d.version L = d'.version L := by
  simp only [Database.version, h.library]

theorem scopedStmt_of_home {q : Sql} (h : q.home = some L) : ScopedStmt Db [.library L] q where
  eval_eq {d d'} agree := by
    have agree : LibraryAgree L d d' := agree (.library L) (by simp)
    cases q <;> simp only [Sql.home, Option.some.injEq, reduceCtorEq] at h <;> subst h <;>
      simp only [Sql.eval, agree.library, agree.find?_object, agree.find?_file]
  writes_eq {d d'} agree := by
    have agree : LibraryAgree L d d' := agree (.library L) (by simp)
    cases q <;> simp only [Sql.home, Option.some.injEq, reduceCtorEq] at h <;> subst h <;>
      simp only [Sql.writes, agree.library, agree.find?_object, agree.taggedItems]
  target_mem {d w} hw := by
    cases q <;> simp only [Sql.home, Option.some.injEq, reduceCtorEq] at h <;> subst h <;>
      simp only [Sql.writes] at hw
    all_goals grind [Write.target]

/-- The statement is not about the library alone. -/
def Sql.Leaves (L : LibraryId) (q : Sql) : Prop := q.home ≠ some L

theorem avoids_home {q : Sql} (h : q.home = some L) : (execute q).Avoids (Sql.Leaves L) :=
  avoids_execute fun leaves => leaves h

theorem scoped_of_avoids {α : Type} {p : Txn Db α} (h : p.Avoids (Sql.Leaves L)) :
    p.Scoped [RowId.library L] := by
  induction p with
  | ret a | fail => trivial
  | query q next ih => exact ⟨scopedStmt_of_home (Decidable.not_not.mp h.1), fun r => ih r (h.2 r)⟩

end Home

end Xotero
