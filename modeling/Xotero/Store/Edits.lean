import Xotero.Store.Files
import Xotero.Store.Objects
import Xotero.Store.Settings

/-!
What one entry of a committed batch does to the library, as a function of the
database. Each loop of the store is the fold of its edits; what an edit can
change is said once, table by table.
-/

namespace Xotero

inductive Edit where
  | store (kind : ObjectKind) (key : String) (provided : Value)
  | remove (kind : ObjectKind) (key : String)
  | storeSetting (key : String) (entry : Value)
  | removeSetting (key : String)
  | removeTag (tag : String)
  | storeText (item : Value)
  | register (key : String) (upload : PendingUpload)

namespace Database

def setVersion (d : Database) (L : LibraryId) (version : Int) : Database :=
  match d.library.find? L with
  | some row => { d with library := d.library.put L { row with version := version } }
  | none => d

/-- The object a provided value becomes when it is stored at version `n`. -/
def merged (d : Database) (L : LibraryId) (n : Int) (kind : ObjectKind) (key : String)
    (provided : Value) : Value :=
  stampObject key n (overlay ((d.object.find? (L, kind, key)).map Object.data) provided)

/-- The file row outlives a write only while the key stays a stored attachment. -/
def keepsFile (d : Database) (L : LibraryId) (n : Int) (kind : ObjectKind) (key : String)
    (provided : Value) : Bool :=
  !(kind = .item && !(((d.object.find? (L, kind, key)).map Object.data).any
      isStoredFileAttachment && isStoredFileAttachment (d.merged L n kind key provided)))

def edit (L : LibraryId) (n : Int) (d : Database) : Edit → Database
  | .store kind key provided =>
      { d with
        object := d.object.put (L, kind, key) ⟨n, (d.merged L n kind key provided).toJsonb⟩
        file := if d.keepsFile L n kind key provided then d.file else d.file.erase (L, key)
        deletion := d.deletion.erase (L, .object kind, key) }
  | .remove kind key =>
      { d with
        object := d.object.erase (L, kind, key)
        file := if kind = .item then d.file.erase (L, key) else d.file
        deletion := d.deletion.put (L, .object kind, key) n }
  | .storeSetting key entry =>
      { d with setting := d.setting.put (L, key) ⟨n, (settingValue entry).toJsonb⟩ }
  | .removeSetting key =>
      { d with
        setting := d.setting.erase (L, key)
        deletion := d.deletion.put (L, .setting, key) n }
  | .removeTag tag =>
      { d with
        object := (d.taggedItems L tag).foldl
          (fun t e => t.put (L, .item, e.1) ⟨n, withoutTag e.2.data tag⟩) d.object
        deletion := d.deletion.put (L, .tag, tag) n }
  | .storeText item =>
      { d with fulltext := d.fulltext.put (L, fulltextKey item) (fulltextRow item n) }
  | .register key upload =>
      { d with
        file := d.file.put (L, key) (registeredFile upload n)
        object := match d.object.find? (L, .item, key) with
          | some o => d.object.put (L, .item, key)
              ⟨n, o.data.concat (.object (fileStamp n upload.md5 upload.mtime upload.filename))⟩
          | none => d.object }

def edits (L : LibraryId) (n : Int) (d : Database) (es : List Edit) : Database :=
  es.foldl (Database.edit L n) d

end Database

@[simp] theorem Database.setVersion_pendingUploads (d : Database) (L : LibraryId) (n : Int) :
    (d.setVersion L n).pendingUploads = d.pendingUploads := by
  unfold Database.setVersion
  split <;> rfl

@[simp] theorem Database.setVersion_object (d : Database) (L : LibraryId) (n : Int) :
    (d.setVersion L n).object = d.object := by
  unfold Database.setVersion
  split <;> rfl

@[simp] theorem Database.setVersion_setting (d : Database) (L : LibraryId) (n : Int) :
    (d.setVersion L n).setting = d.setting := by
  unfold Database.setVersion
  split <;> rfl

@[simp] theorem Database.setVersion_deletion (d : Database) (L : LibraryId) (n : Int) :
    (d.setVersion L n).deletion = d.deletion := by
  unfold Database.setVersion
  split <;> rfl

@[simp] theorem Database.setVersion_file (d : Database) (L : LibraryId) (n : Int) :
    (d.setVersion L n).file = d.file := by
  unfold Database.setVersion
  split <;> rfl

@[simp] theorem Database.setVersion_fulltext (d : Database) (L : LibraryId) (n : Int) :
    (d.setVersion L n).fulltext = d.fulltext := by
  unfold Database.setVersion
  split <;> rfl

@[simp] theorem Database.edit_pendingUploads (d : Database) (L : LibraryId) (n : Int) (e : Edit) :
    (Database.edit L n d e).pendingUploads = d.pendingUploads := by
  cases e <;> rfl

theorem updateLibraryVersion_eq (d : Database) (L : LibraryId) (n : Int) :
    ((Sql.updateLibraryVersion L n).writes d).foldl Database.apply d = d.setVersion L n := by
  simp only [Sql.writes, Database.setVersion]
  cases d.library.find? L <;> rfl

/-- The file row and the stamp of a registration, one after the other. -/
theorem register_eq (d : Database) (L : LibraryId) (n : Int) (key : String)
    (upload : PendingUpload) :
    ((Sql.stampItem L key n upload.md5 upload.mtime upload.filename).writes
        (d.apply (.file L key (some (registeredFile upload n))))).foldl Database.apply
      (d.apply (.file L key (some (registeredFile upload n)))) =
      Database.edit L n d (.register key upload) := by
  have same : (d.apply (.file L key (some (registeredFile upload n)))).object = d.object := rfl
  simp only [Sql.writes, Database.edit, same]
  cases d.object.find? (L, .item, key) <;> rfl

/-! The loops -/

def storeEdits (kind : ObjectKind) (random : Nat → Fin 8 → UInt8) : Nat → List Value → List Edit
  | _, [] => []
  | index, provided :: batch =>
      .store kind (providedKey provided (random index)) provided ::
        storeEdits kind random (index + 1) batch

section Loops
variable {L : LibraryId} {n : Int} {d d' : Database}

theorem writeObject_run {kind : ObjectKind} {allow : Bool} {key : String} {provided object : Value}
    (h : (writeObject L kind allow n key provided).run d = some (d', some object)) :
    object = d.merged L n kind key provided ∧ d' = d.edit L n (.store kind key provided) := by
  obtain ⟨-, h⟩ | ⟨-, h⟩ := Txn.run_ite (execute_bind_run h)
  · obtain ⟨-, ⟨⟩⟩ := ret_run h
  · obtain ⟨d₁, ⟨⟩, dropped, h⟩ := Txn.run_bind_eq_some (execute_bind_run h)
    have h := execute_bind_run h
    obtain ⟨rfl, same⟩ := ret_run h
    refine ⟨Option.some.inj same, ?_⟩
    obtain ⟨gone, dropped⟩ | ⟨kept, rfl⟩ := Txn.run_when dropped
    · obtain ⟨rfl, -⟩ := execute_run dropped
      have : d.keepsFile L n kind key provided = false := by
        rw [Database.keepsFile, Database.merged]
        exact congrArg Bool.not gone
      simp only [Database.edit, this]
      rfl
    · have : d.keepsFile L n kind key provided = true := by
        rw [Database.keepsFile, Database.merged]
        exact congrArg Bool.not kept
      simp only [Database.edit, this]
      rfl

theorem writeFrom_run {kind : ObjectKind} {allow : Bool} {random : Nat → Fin 8 → UInt8}
    {index : Nat} {batch : List Value} {successful : Members}
    {a : ObjectMutation (Int × Value)}
    (h : (writeFrom L kind allow random n index batch successful).run d = some (d', .commit a)) :
    (∃ report, a = .done (n, report)) ∧ d' = d.edits L n (storeEdits kind random index batch) := by
  induction batch generalizing index successful d with
  | nil =>
      obtain ⟨rfl, same⟩ := ret_run h
      exact ⟨⟨_, Ending.commit.inj same⟩, rfl⟩
  | cons provided batch ih =>
      obtain ⟨d₁, stored, first, rest⟩ := Txn.run_bind_eq_some h
      cases stored with
      | none => obtain ⟨-, ⟨⟩⟩ := ret_run rest
      | some object =>
          obtain ⟨rfl, rfl⟩ := writeObject_run first
          exact ih rest

theorem deleteObject_run {kind : ObjectKind} {allow : Bool} {key : String}
    (h : (deleteObject L kind allow n key).run d = some (d', true)) :
    d' = d.edit L n (.remove kind key) := by
  obtain ⟨d₁, denied, look, rest⟩ := Txn.run_bind_eq_some h
  have same : d₁ = d := by
    obtain ⟨-, look⟩ | ⟨-, look⟩ := Txn.run_ite look
    · have look := execute_bind_run look
      exact (ret_run look).1
    · exact (ret_run look).1
  subst same
  obtain ⟨-, h⟩ | ⟨-, h⟩ := Txn.run_ite rest
  · obtain ⟨-, ⟨⟩⟩ := ret_run h
  · have h := execute_bind_run h
    obtain ⟨d₂, ⟨⟩, dropped, h⟩ := Txn.run_bind_eq_some h
    have h := execute_bind_run h
    obtain ⟨rfl, -⟩ := ret_run h
    obtain ⟨item, dropped⟩ | ⟨other, rfl⟩ := Txn.run_when dropped
    · obtain ⟨rfl, -⟩ := execute_run dropped
      simp only [Database.edit, if_pos (of_decide_eq_true item)]
      rfl
    · simp only [Database.edit, if_neg (of_decide_eq_false other)]
      rfl

theorem deleteFrom_run {kind : ObjectKind} {allow : Bool} {keys : List String}
    {a : ObjectMutation Int}
    (h : (deleteFrom L kind allow n keys).run d = some (d', .commit a)) :
    a = .done n ∧ d' = d.edits L n (keys.map (.remove kind)) := by
  induction keys generalizing d with
  | nil =>
      obtain ⟨rfl, same⟩ := ret_run h
      exact ⟨Ending.commit.inj same, rfl⟩
  | cons key keys ih =>
      obtain ⟨d₁, allowed, first, rest⟩ := Txn.run_bind_eq_some h
      cases allowed with
      | false => obtain ⟨-, ⟨⟩⟩ := ret_run rest
      | true =>
          obtain rfl := deleteObject_run first
          exact ih rest

theorem writeSettingsFrom_run {entries : Members} {a : Outcome Int}
    (h : (writeSettingsFrom L n entries).run d = some (d', .commit a)) :
    a = .done n ∧
      d' = d.edits L n (entries.map fun entry => .storeSetting entry.1 entry.2) := by
  induction entries generalizing d with
  | nil =>
      obtain ⟨rfl, same⟩ := ret_run h
      exact ⟨Ending.commit.inj same, rfl⟩
  | cons entry entries ih =>
      have h := execute_bind_run h
      exact ih h

theorem deleteSettingsFrom_run {keys : List String} {a : Outcome Int}
    (h : (deleteSettingsFrom L n keys).run d = some (d', .commit a)) :
    a = .done n ∧ d' = d.edits L n (keys.map .removeSetting) := by
  induction keys generalizing d with
  | nil =>
      obtain ⟨rfl, same⟩ := ret_run h
      exact ⟨Ending.commit.inj same, rfl⟩
  | cons key keys ih =>
      have h := execute_bind_run (execute_bind_run h)
      exact ih h

theorem foldl_apply_object (rows : List (String × Object)) (row : String × Object → Object)
    (d : Database) :
    (rows.map fun e => Write.object L .item e.1 (some (row e))).foldl Database.apply d =
      { d with object := rows.foldl (fun t e => t.put (L, .item, e.1) (row e)) d.object } := by
  induction rows generalizing d with
  | nil => rfl
  | cons e rows ih => exact ih _

theorem deleteTagsFrom_run {tags : List String} {a : Outcome Int}
    (h : (deleteTagsFrom L n tags).run d = some (d', .commit a)) :
    a = .done n ∧ d' = d.edits L n (tags.map .removeTag) := by
  induction tags generalizing d with
  | nil =>
      obtain ⟨rfl, same⟩ := ret_run h
      exact ⟨Ending.commit.inj same, rfl⟩
  | cons tag tags ih =>
      have h := execute_bind_run (execute_bind_run h)
      obtain ⟨done, after⟩ := ih h
      refine ⟨done, after.trans ?_⟩
      simp only [Sql.writes, foldl_apply_object]
      rfl

theorem writeFulltextFrom_run {index : Nat} {batch : List Value} {successful : Members}
    {a : Outcome (Int × Value)}
    (h : (writeFulltextFrom L n index batch successful).run d = some (d', .commit a)) :
    (∃ report, a = .done (n, report)) ∧ d' = d.edits L n (batch.map .storeText) := by
  induction batch generalizing index successful d with
  | nil =>
      obtain ⟨rfl, same⟩ := ret_run h
      exact ⟨⟨_, Ending.commit.inj same⟩, rfl⟩
  | cons item batch ih =>
      have h := execute_bind_run h
      exact ih h

end Loops

end Xotero
