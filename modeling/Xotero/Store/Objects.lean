import Mathlib.Data.List.OfFn
import Xotero.Store.Library

/-!
Objects: batches stored with merge semantics, deletions with their log, and the
listings. A batch is one transaction; a denied entry drops all of it.
-/

namespace Xotero

/-- The members an attachment or annotation must show first. -/
def orderFirst : List String := ["annotationType", "linkMode"]

def orderFields : Value → Value
  | .object map =>
      if orderFirst.any fun name => (Members.get map name).isSome then
        .object ((orderFirst.filterMap fun name => (Members.get map name).map (name, ·)) ++
          map.filter fun m => !orderFirst.contains m.1)
      else .object map
  | v => v

def objectJson (key : String) (version : Int) (data : Value) : Value :=
  .object [("key", .string key), ("version", .ofInt version), ("data", orderFields data)]

def keyAlphabet : List Char := "23456789ABCDEFGHIJKLMNPQRSTUVWXYZ".toList

/-- An object key from 8 random bytes; they are zero when the source fails. -/
def generateKey (buf : Fin 8 → UInt8) : String :=
  String.ofList <| (List.ofFn buf).map fun b =>
    keyAlphabet.get ⟨b.toNat % keyAlphabet.length, Nat.mod_lt _ (by decide)⟩

inductive ObjectMutation (α : Type) where
  | done (a : α)
  | conflict (current : Int)
  | fileWriteDenied
  deriving DecidableEq

/-- The provided top-level members laid over the stored object, if both are
objects. -/
def overlay (existing : Option Value) (provided : Value) : Value :=
  match existing, provided with
  | some (.object base), .object fields =>
      .object (fields.foldl (fun base field => Members.insert field.1 field.2 base) base)
  | _, _ => provided

def stampObject (key : String) (version : Int) : Value → Value
  | .object fields =>
      .object (Members.insert "version" (.ofInt version)
        (Members.insert "key" (.string key) fields))
  | v => v

def providedKey (provided : Value) (buf : Fin 8 → UInt8) : String :=
  ((provided.get "key").bind Value.asStr).getD (generateKey buf)

/-- One entry of a batch: what is stored, or `none` when the file policy forbids
it. -/
def writeObject (L : LibraryId) (kind : ObjectKind) (allowStoredFileWrite : Bool)
    (version : Int) (key : String) (provided : Value) : Txn Db (Option Value) := do
  let existing ← execute (.objectData L kind key)
  let existingIsStoredFile := existing.any isStoredFileAttachment
  let object := stampObject key version (overlay existing provided)
  let objectIsStoredFile := isStoredFileAttachment object
  if kind = .item && !allowStoredFileWrite && (existingIsStoredFile || objectIsStoredFile) then
    return none
  else
    execute (.upsertObject L kind key version object)
    Txn.when (kind = .item && !(existingIsStoredFile && objectIsStoredFile))
      (execute (.deleteFile L key))
    execute (.deleteDeletion L (.object kind) key)
    return some object

/-- The loop of `write`, from `index` on. -/
def writeFrom (L : LibraryId) (kind : ObjectKind) (allowStoredFileWrite : Bool)
    (random : Nat → Fin 8 → UInt8) (version : Int) :
    Nat → List Value → Members → Txn Db (Ending (ObjectMutation (Int × Value)))
  | _, [], successful => return .commit (.done (version, .object successful))
  | index, provided :: batch, successful => do
      let key := providedKey provided (random index)
      match ← writeObject L kind allowStoredFileWrite version key provided with
      | none => return .drop .fileWriteDenied
      | some object =>
          writeFrom L kind allowStoredFileWrite random version (index + 1) batch
            (successful.insert (toString index) (objectJson key version object))

def write (L : LibraryId) (kind : ObjectKind) (batch : List Value) (expected : Option Int)
    (allowStoredFileWrite : Bool) (random : Nat → Fin 8 → UInt8) :
    Txn Db (Ending (ObjectMutation (Int × Value))) := do
  if batch.isEmpty then
    match ← noChange L expected with
    | .done version => return .drop (.done (version, .object []))
    | .conflict current => return .drop (.conflict current)
  else
    match ← guardedVersion L expected with
    | .done version => writeFrom L kind allowStoredFileWrite random version 0 batch []
    | .conflict current => return .drop (.conflict current)

def deleteDenied (L : LibraryId) (kind : ObjectKind) (allowStoredFileWrite : Bool)
    (key : String) : Txn Db Bool :=
  if kind = .item && !allowStoredFileWrite then do
    let data ← execute (.objectData L kind key)
    return data.any isStoredFileAttachment
  else return false

/-- One key of a deletion: whether the file policy allows it. -/
def deleteObject (L : LibraryId) (kind : ObjectKind) (allowStoredFileWrite : Bool)
    (version : Int) (key : String) : Txn Db Bool := do
  if ← deleteDenied L kind allowStoredFileWrite key then
    return false
  else
    execute (.deleteObject L kind key)
    Txn.when (kind = .item) (execute (.deleteFile L key))
    execute (.upsertDeletion L (.object kind) key version)
    return true

/-- The loop of `delete`. -/
def deleteFrom (L : LibraryId) (kind : ObjectKind) (allowStoredFileWrite : Bool)
    (version : Int) : List String → Txn Db (Ending (ObjectMutation Int))
  | [] => return .commit (.done version)
  | key :: keys => do
      if ← deleteObject L kind allowStoredFileWrite version key then
        deleteFrom L kind allowStoredFileWrite version keys
      else return .drop .fileWriteDenied

def delete (L : LibraryId) (kind : ObjectKind) (keys : List String) (expected : Option Int)
    (allowStoredFileWrite : Bool) : Txn Db (Ending (ObjectMutation Int)) := do
  if keys.isEmpty then
    match ← noChange L expected with
    | .done version => return .drop (.done version)
    | .conflict current => return .drop (.conflict current)
  else
    match ← guardedVersion L expected with
    | .done version => deleteFrom L kind allowStoredFileWrite version keys
    | .conflict current => return .drop (.conflict current)

def objects (L : LibraryId) (kind : ObjectKind) (keys : List String) (includeNotes : Bool) :
    Txn Db Value := do
  let rows ← execute (.objects L kind keys includeNotes)
  return .array (rows.map fun row => objectJson row.1 row.2.version row.2.data)

/-- A page of the matching items, and the number of all of them. -/
def queryItems (locale : Locale) (L : LibraryId) (q : ItemQuery) (includeNotes : Bool) :
    Txn Db (List Value × Nat) := do
  let total ← execute (.countItems locale L q includeNotes)
  let rows ← execute (.queryItems locale L q includeNotes)
  return (rows.map fun row => objectJson row.1 row.2.version row.2.data, total)

def itemKeys (locale : Locale) (L : LibraryId) (q : ItemQuery) (includeNotes : Bool) :
    Txn Db (List String) :=
  execute (.itemKeys locale L q includeNotes)

/-! What the merge keeps -/

theorem get_stampObject (key : String) (version : Int) (v : Value) {ms : Members}
    (h : v = .object ms) (name : String) :
    (stampObject key version v).get name =
      if name = "version" then some (.ofInt version)
      else if name = "key" then some (.string key) else ms.get name := by
  subst h
  simp only [stampObject, Value.get_object, Members.get_insert, eq_comm (a := name)]

theorem get_filterMap_get (map : Members) (names : List String) (name : String) :
    Members.get (names.filterMap fun n => (map.get n).map (n, ·)) name =
      if name ∈ names then map.get name else none := by
  induction names with
  | nil => rfl
  | cons n names ih =>
      by_cases hn : n = name
      · subst hn
        cases hg : map.get n with
        | none => simp [hg, ih]
        | some v => simp [hg, Members.get]
      · cases hg : map.get n with
        | none => simp [hg, ih, Ne.symm hn]
        | some v => simp [hg, ih, Members.get, hn, Ne.symm hn]

theorem orderFields_get (v : Value) (name : String) : (orderFields v).get name = v.get name := by
  cases v with
  | object map =>
      simp only [orderFields]
      split
      · rw [Value.get_object, Value.get_object, Members.get_append, get_filterMap_get,
          Members.get_filter fun n => !orderFirst.contains n]
        by_cases first : name ∈ orderFirst <;> simp [first]
      · rfl
  | _ => rfl

end Xotero
