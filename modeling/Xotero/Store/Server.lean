import Xotero.Handlers.Files
import Xotero.Store.Edits

/-!
The requests that change the database, each with its transaction program, and
the lone statements of the upload endpoint and the garbage collector.
-/

namespace Xotero

/-- A write of one library under the version guard. -/
inductive GuardedOp where
  | write (kind : ObjectKind) (batch : List Value) (allowStoredFileWrite : Bool)
      (random : Nat → Fin 8 → UInt8)
  | delete (kind : ObjectKind) (keys : List String) (allowStoredFileWrite : Bool)
  | writeSettings (body : Value)
  | deleteSettings (keys : List String)
  | deleteTags (tags : List String)
  | writeFulltext (batch : List Value)

inductive Request where
  | guarded (L : LibraryId) (expected : Option Int) (op : GuardedOp)
  | registerFile (token : Digest) (itemKey : String) (access : LibraryAccess)
      (context : RequestContext) (now : Int)
  | authorizeUpload (r : AuthorizeRequest)
  | administer (writes : List AccountWrite)

inductive Reply where
  | object (m : ObjectMutation (Int × Value))
  | deletion (m : ObjectMutation Int)
  | change (o : Outcome Int)
  | fulltext (o : Outcome (Int × Value))
  | registration (o : FileRegistrationOutcome)
  | authorization (o : AuthorizeOutcome)
  | administered

/-- The version of a reply that ends in `Done`. -/
def Reply.doneVersion : Reply → Option Int
  | .object (.done r) => some r.1
  | .deletion (.done version) => some version
  | .change (.done version) => some version
  | .fulltext (.done r) => some r.1
  | .registration (.done version) => some version
  | _ => none

def endingWith {α : Type} (f : α → Reply) (p : Txn Db (Ending α)) : Txn Db (Ending Reply) := do
  return (← p).map f

def GuardedOp.program (L : LibraryId) (expected : Option Int) :
    GuardedOp → Txn Db (Ending Reply)
  | .write kind batch allow random =>
      endingWith .object (Xotero.write L kind batch expected allow random)
  | .delete kind keys allow => endingWith .deletion (Xotero.delete L kind keys expected allow)
  | .writeSettings body => endingWith .change (Xotero.writeSettings L body expected)
  | .deleteSettings keys => endingWith .change (Xotero.deleteSettings L keys expected)
  | .deleteTags tags => endingWith .change (Xotero.deleteTags L tags expected)
  | .writeFulltext batch => endingWith .fulltext (Xotero.writeFulltext L batch expected)

/-- The edits of a committed operation, in order. -/
def GuardedOp.edits : GuardedOp → List Edit
  | .write kind batch _ random => storeEdits kind random 0 batch
  | .delete kind keys _ => keys.map (.remove kind)
  | .writeSettings body =>
      (body.asObject.getD []).map fun entry => .storeSetting entry.1 entry.2
  | .deleteSettings keys => keys.map .removeSetting
  | .deleteTags tags => tags.map .removeTag
  | .writeFulltext batch => batch.map .storeText

/-- An administrative transaction: row by row, then a commit. -/
def administer : List AccountWrite → Txn Db (Ending Reply)
  | [] => return .commit .administered
  | w :: ws => do
      execute (.account w)
      administer ws

def Request.program (digests : Digests) (config : Config) : Request → Txn Db (Ending Reply)
  | .guarded L expected op => op.program L expected
  | .registerFile token itemKey access context now =>
      endingWith .registration (Xotero.registerFile digests config token itemKey access context now)
  | .authorizeUpload r => endingWith .authorization (Xotero.authorizeUpload digests r)
  | .administer ws => Xotero.administer ws

/-- The reply of a request that runs alone, and the state it leaves; an error
rolls back and has none. -/
def Request.alone (digests : Digests) (config : Config) (r : Request) (d : Database) :
    Option Reply × Database :=
  match (r.program digests config).run d with
  | some (d', .commit a) => (some a, d')
  | some (_, .drop a) => (some a, d)
  | none => (none, d)

/-- The statements of `upload_put`, the collector and the start-up. -/
def Sql.isUploadStatement : Sql → Bool
  | .claimPendingUpload .. | .resetPendingUpload .. | .discardPendingUpload _
  | .markPendingUploadUploaded .. | .resetInterruptedPendingUploads
  | .claimPendingUploadGarbage .. | .deletePendingUploadGarbage _ => true
  | _ => false

def server (digests : Digests) (config : Config) : System Db where
  Request := Request
  Reply := Reply
  program := Request.program digests config
  auto q := q.isUploadStatement

/-! A guarded operation alone -/

/-- `d'` is what committing `es` on library `L` makes of `d`. -/
structure Committed (L : LibraryId) (expected : Option Int) (es : List Edit)
    (d d' : Database) : Prop where
  exists_library : (d.library.find? L).isSome
  expected_eq : ∀ v ∈ expected, v = d.version L
  after : d' = (d.setVersion L (d.version L + 1)).edits L (d.version L + 1) es

section Guarded
variable {L : LibraryId} {expected : Option Int} {d d' : Database}

theorem guardedVersion_run {o : Outcome Int}
    (h : (guardedVersion L expected).run d = some (d', o)) :
    (d.library.find? L).isSome ∧
      ((∃ v ∈ expected, v ≠ d.version L) ∧ o = .conflict (d.version L) ∧ d' = d ∨
        (∀ v ∈ expected, v = d.version L) ∧ o = .done (d.version L + 1) ∧
          d' = d.setVersion L (d.version L + 1)) := by
  have h := execute_bind_run h
  simp only [Sql.eval, Sql.writes, List.foldl_nil] at h
  cases hr : d.library.find? L with
  | none =>
      rw [hr] at h
      cases h
  | some row =>
      have version : d.version L = row.version := by simp [Database.version, hr]
      rw [hr] at h
      refine ⟨rfl, ?_⟩
      rw [version]
      obtain ⟨stale, h⟩ | ⟨fresh, h⟩ := Txn.run_ite h
      · obtain ⟨rfl, rfl⟩ := ret_run h
        refine .inl ⟨?_, rfl, rfl⟩
        cases expected with
        | none => simp at stale
        | some v => exact ⟨v, rfl, by simpa using stale⟩
      · have h := execute_bind_run h
        obtain ⟨rfl, rfl⟩ := ret_run h
        refine .inr ⟨?_, rfl, ?_⟩
        · rintro v ⟨⟩
          simpa using fresh
        · simp only [Sql.writes, Database.setVersion, hr]
          rfl

theorem guardedVersion_current (known : (d.library.find? L).isSome) :
    (guardedVersion L (some (d.version L))).run d =
      some (d.setVersion L (d.version L + 1), .done (d.version L + 1)) := by
  obtain ⟨row, found⟩ := Option.isSome_iff_exists.mp known
  have version : d.version L = row.version := by simp [Database.version, found]
  have read : (execute (.libraryForUpdate L)).run d = some (d, some row.version) := by
    show some (d, (d.library.find? L).map Library.version) = _
    rw [found]
    rfl
  rw [guardedVersion, Txn.run_bind, read, Option.bind_some, version]
  show Txn.run (D := Db) (if (some row.version).any (· ≠ row.version) = true then _ else _) d = _
  have accepted : (Sql.updateLibraryVersion L (row.version + 1)).accepted = true := rfl
  rw [if_neg (by simp), execute_bind_eq, if_pos accepted, updateLibraryVersion_eq]
  rfl

/-- A write that changes nothing, on a library that exists. -/
theorem noChange_eq : (noChange L expected).run d =
    (d.library.find? L).map fun row =>
      (d, if expected.any (· ≠ row.version) then .conflict row.version else .done row.version) := by
  have read : (execute (.libraryVersion L)).run d =
      some (d, (d.library.find? L).map Library.version) := rfl
  rw [noChange, currentVersion, Txn.bind_assoc, Txn.run_bind, read]
  cases d.library.find? L with
  | none => rfl
  | some row =>
      show Txn.run (D := Db) (if _ then _ else _) d = _
      rw [Option.map_some]
      split <;> rfl

theorem endingWith_eq {α : Type} (f : α → Reply) (p : Txn Db (Ending α)) :
    (endingWith f p).run d = (p.run d).map fun r => (r.1, r.2.map f) := by
  rw [endingWith, Txn.run_bind]
  cases p.run d <;> rfl

theorem endingWith_run {α : Type} {f : α → Reply} {p : Txn Db (Ending α)} {a : Reply}
    (h : (endingWith f p).run d = some (d', .commit a)) :
    ∃ b, p.run d = some (d', .commit b) ∧ a = f b := by
  obtain ⟨d₁, e, h, rest⟩ := Txn.run_bind_eq_some h
  obtain ⟨rfl, same⟩ := ret_run rest
  cases e with
  | commit b => exact ⟨b, h, Ending.commit.inj same⟩
  | drop b => cases same

/-- Without a transaction there is no commit. -/
theorem noChange_not_commit {β : Type} {f : Outcome Int → Txn Db (Ending β)} {a : β}
    (drops : ∀ o, ∃ b, f o = pure (.drop b)) :
    (noChange L expected >>= f).run d ≠ some (d', .commit a) := by
  intro h
  obtain ⟨d₁, o, -, rest⟩ := Txn.run_bind_eq_some h
  obtain ⟨b, hb⟩ := drops o
  rw [hb] at rest
  obtain ⟨-, ⟨⟩⟩ := ret_run rest

/-- Past the guard: the rest of the program runs at the next version. -/
theorem guarded_of_run {β : Type} {f : Outcome Int → Txn Db (Ending β)} {a : β}
    (h : (guardedVersion L expected >>= f).run d = some (d', .commit a))
    (conflict : ∀ v, ∃ b, f (.conflict v) = pure (.drop b)) :
    (d.library.find? L).isSome ∧ (∀ v ∈ expected, v = d.version L) ∧
      (f (.done (d.version L + 1))).run (d.setVersion L (d.version L + 1)) =
        some (d', .commit a) := by
  obtain ⟨d₁, o, guard, rest⟩ := Txn.run_bind_eq_some h
  obtain ⟨found, ⟨-, rfl, rfl⟩ | ⟨fresh, rfl, rfl⟩⟩ := guardedVersion_run guard
  · obtain ⟨b, hb⟩ := conflict (d₁.version L)
    rw [hb] at rest
    obtain ⟨-, ⟨⟩⟩ := ret_run rest
  · exact ⟨found, fresh, rest⟩

/-- A commit has left the branch without a transaction aside, and is past the guard. -/
theorem branch_of_run {α : Type} {c : Prop} [Decidable c] {f : α → Reply}
    {g k : Outcome Int → Txn Db (Ending α)} {a : Reply}
    (h : (endingWith f (if c then noChange L expected >>= g
      else guardedVersion L expected >>= k)).run d = some (d', .commit a))
    (drops : ∀ o, ∃ b, g o = pure (.drop b))
    (conflict : ∀ v, ∃ b, k (.conflict v) = pure (.drop b)) :
    ∃ b, a = f b ∧ ¬ c ∧ (d.library.find? L).isSome ∧ (∀ v ∈ expected, v = d.version L) ∧
      (k (.done (d.version L + 1))).run (d.setVersion L (d.version L + 1)) =
        some (d', .commit b) := by
  obtain ⟨b, run, same⟩ := endingWith_run h
  obtain ⟨-, run⟩ | ⟨guarded, run⟩ := Txn.run_ite run
  · exact absurd run (noChange_not_commit drops)
  · exact ⟨b, same, guarded, guarded_of_run run conflict⟩

/-- A guarded operation that commits has done its edits, at the next version. -/
theorem guarded_run {op : GuardedOp} {a : Reply}
    (h : (op.program L expected).run d = some (d', .commit a)) :
    Committed L expected op.edits d d' ∧ a.doneVersion = some (d.version L + 1) ∧
      op.edits ≠ [] := by
  cases op with
  | write kind batch allow random =>
      obtain ⟨b, rfl, nonempty, found, fresh, loop⟩ :=
        branch_of_run h (fun o => by cases o <;> exact ⟨_, rfl⟩) fun v => ⟨_, rfl⟩
      obtain ⟨⟨report, rfl⟩, after⟩ := writeFrom_run loop
      refine ⟨⟨found, fresh, after⟩, rfl, ?_⟩
      cases batch with
      | nil => simp at nonempty
      | cons => simp [GuardedOp.edits, storeEdits]
  | delete kind keys allow =>
      obtain ⟨b, rfl, nonempty, found, fresh, loop⟩ :=
        branch_of_run h (fun o => by cases o <;> exact ⟨_, rfl⟩) fun v => ⟨_, rfl⟩
      obtain ⟨rfl, after⟩ := deleteFrom_run loop
      exact ⟨⟨found, fresh, after⟩, rfl, by simpa [GuardedOp.edits] using nonempty⟩
  | writeSettings body =>
      obtain ⟨b, rfl, nonempty, found, fresh, loop⟩ :=
        branch_of_run h (fun o => ⟨_, rfl⟩) fun v => ⟨_, rfl⟩
      obtain ⟨rfl, after⟩ := writeSettingsFrom_run loop
      refine ⟨⟨found, fresh, after⟩, rfl, ?_⟩
      cases hb : body.asObject with
      | none => simp [hb] at nonempty
      | some entries => simpa [GuardedOp.edits, hb] using nonempty
  | deleteSettings keys =>
      obtain ⟨b, rfl, nonempty, found, fresh, loop⟩ :=
        branch_of_run h (fun o => ⟨_, rfl⟩) fun v => ⟨_, rfl⟩
      obtain ⟨rfl, after⟩ := deleteSettingsFrom_run loop
      exact ⟨⟨found, fresh, after⟩, rfl, by simpa [GuardedOp.edits] using nonempty⟩
  | deleteTags tags =>
      obtain ⟨b, rfl, nonempty, found, fresh, loop⟩ :=
        branch_of_run h (fun o => ⟨_, rfl⟩) fun v => ⟨_, rfl⟩
      obtain ⟨rfl, after⟩ := deleteTagsFrom_run loop
      exact ⟨⟨found, fresh, after⟩, rfl, by simpa [GuardedOp.edits] using nonempty⟩
  | writeFulltext batch =>
      obtain ⟨b, rfl, nonempty, found, fresh, loop⟩ :=
        branch_of_run h (fun o => by cases o <;> exact ⟨_, rfl⟩) fun v => ⟨_, rfl⟩
      obtain ⟨⟨report, rfl⟩, after⟩ := writeFulltextFrom_run loop
      exact ⟨⟨found, fresh, after⟩, rfl, by simpa [GuardedOp.edits] using nonempty⟩

end Guarded

end Xotero
