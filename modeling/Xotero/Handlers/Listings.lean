import Xotero.Store.Objects
import Xotero.Store.Settings
import Xotero.Store.Versions

/-!
The GET handlers of a sync. They begin no transaction: each of their statements
reads the state committed at that moment.
-/

namespace Xotero

/-- A response with the `Last-Modified-Version` header. -/
structure Response where
  status : Nat
  version : Int
  body : Option Value

/-- `since_of`; 0 is the initial pull. -/
def sinceOf (params : Params) : Int := ((params.get "since").bind parseI64).getD 0

def ifModifiedSince (headers : Params) : Int :=
  ((headers.get "if-modified-since-version").bind parseI64).getD 0

def csvOf (params : Params) (key : String) : List String :=
  ((params.get key).map fun s => (s.splitOn ",").filter (· ≠ "")).getD []

/-- The current version, and whether the client holds everything up to it. -/
def sinceCheck (L : LibraryId) (since : Int) : Txn Db (Int × Bool) := do
  let current ← currentVersion L
  return (current, 0 < since && current ≤ since)

namespace Handlers

def read (L : LibraryId) (kind : ObjectKind) (params : Params) : Txn Db Response := do
  if params.get "format" = some "versions" then
    let current ← currentVersion L
    let value ← versions L kind (sinceOf params) true
    return ⟨200, current, some value⟩
  else
    let value ← objects L kind (csvOf params (kind.name ++ "Key")) true
    let current ← currentVersion L
    return ⟨200, current, some value⟩

/-- The sync reads of `/items` and, with `top`, of `/items/top`. -/
def itemSyncRead (L : LibraryId) (params : Params) (top notes : Bool) :
    Txn Db (Option Response) := do
  if params.get "format" = some "versions" then
    let current ← currentVersion L
    let value ← if top then Xotero.topVersions L (sinceOf params) notes
      else versions L .item (sinceOf params) notes
    return some ⟨200, current, some value⟩
  else
    match params.get "itemKey" with
    | some csv =>
        let value ← objects L .item (csv.splitOn ",") notes
        let current ← currentVersion L
        return some ⟨200, current, some value⟩
    | none => return none

def fulltextVersions (L : LibraryId) (params : Params) : Txn Db Response := do
  let current ← currentVersion L
  let value ← Xotero.fulltextVersions L (sinceOf params)
  return ⟨200, current, some value⟩

/-- The cursor may come as `since` or in a header; the higher counts. -/
def settingsRead (L : LibraryId) (headers params : Params) : Txn Db Response := do
  let (current, fresh) ← sinceCheck L (max (sinceOf params) (ifModifiedSince headers))
  if fresh then
    return ⟨304, current, none⟩
  else
    return ⟨200, current, some (← settings L)⟩

/-- The log is read before the version. -/
def deleted (L : LibraryId) (params : Params) : Txn Db Response := do
  let value ← Xotero.deleted L (sinceOf params)
  let current ← currentVersion L
  return ⟨200, current, some value⟩

end Handlers

section Replay
variable {L : LibraryId} {d : Database} {ds : List Database}

/-- The version of a library that exists, in the state the statement runs in. -/
theorem replay_currentVersion {α : Type} {next : Int → Txn Db α}
    (found : (d.library.find? L).isSome) :
    (currentVersion L >>= next).replay (d :: ds) = (next (d.version L)).replay ds := by
  obtain ⟨row, hr⟩ := Option.isSome_iff_exists.mp found
  have version : d.version L = row.version := by simp [Database.version, hr]
  have accepted : (Sql.libraryVersion L).accepted = true := rfl
  rw [version, currentVersion, Txn.bind_assoc, execute_bind, if_pos accepted, Txn.replay_query]
  have read : Sql.eval (.libraryVersion L) d = some row.version := by simp [Sql.eval, hr]
  exact congrArg (fun r => Txn.replay (fetchOne r >>= next) ds) read

/-- A statement that is accepted reads the next state. -/
theorem replay_execute {α : Type} {q : Sql} {next : q.Result → Txn Db α}
    (accepted : q.accepted = true) :
    (execute q >>= next).replay (d :: ds) = (next (q.eval d)).replay ds := by
  rw [execute_bind, if_pos accepted, Txn.replay_query]

end Replay

end Xotero
