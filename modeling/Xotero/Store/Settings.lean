import Xotero.Store.Library

/-!
Settings, tags and full text: the other guarded writes of a library, and what is
read back.
-/

namespace Xotero

/-! Settings -/

def settings (L : LibraryId) : Txn Db Value := do
  let rows ← execute (.settings L)
  return .object (rows.foldl (fun map row =>
    Members.insert row.1
      (.object [("value", row.2.value), ("version", .ofInt row.2.version)]) map) [])

/-- The submitted value of an entry: its `value` member, or the entry itself. -/
def settingValue (entry : Value) : Value := (entry.get "value").getD entry

def writeSettingsFrom (L : LibraryId) (version : Int) :
    Members → Txn Db (Ending (Outcome Int))
  | [] => return .commit (.done version)
  | (key, entry) :: entries => do
      execute (.upsertSetting L key version (settingValue entry))
      writeSettingsFrom L version entries

def writeSettings (L : LibraryId) (body : Value) (expected : Option Int) :
    Txn Db (Ending (Outcome Int)) := do
  if body.asObject.all List.isEmpty then
    return .drop (← noChange L expected)
  else
    match ← guardedVersion L expected with
    | .done version => writeSettingsFrom L version (body.asObject.getD [])
    | .conflict current => return .drop (.conflict current)

def deleteSettingsFrom (L : LibraryId) (version : Int) :
    List String → Txn Db (Ending (Outcome Int))
  | [] => return .commit (.done version)
  | key :: keys => do
      execute (.deleteSetting L key)
      execute (.upsertDeletion L .setting key version)
      deleteSettingsFrom L version keys

def deleteSettings (L : LibraryId) (keys : List String) (expected : Option Int) :
    Txn Db (Ending (Outcome Int)) := do
  if keys.isEmpty then
    return .drop (← noChange L expected)
  else
    match ← guardedVersion L expected with
    | .done version => deleteSettingsFrom L version keys
    | .conflict current => return .drop (.conflict current)

/-! Tags -/

/-- The tags of the items outside the trash, with the number of times each is
used; notes count too. -/
def tags (locale : Locale) (L : LibraryId) : Txn Db Value := do
  let rows ← execute (.tags locale L)
  return .array (rows.map fun row =>
    .object [("tag", .string row.1), ("numItems", .ofInt row.2)])

def deleteTagsFrom (L : LibraryId) (version : Int) :
    List String → Txn Db (Ending (Outcome Int))
  | [] => return .commit (.done version)
  | tag :: tags => do
      execute (.stripTag L tag version)
      execute (.upsertDeletion L .tag tag version)
      deleteTagsFrom L version tags

def deleteTags (L : LibraryId) (tags : List String) (expected : Option Int) :
    Txn Db (Ending (Outcome Int)) := do
  if tags.isEmpty then
    return .drop (← noChange L expected)
  else
    match ← guardedVersion L expected with
    | .done version => deleteTagsFrom L version tags
    | .conflict current => return .drop (.conflict current)

/-! Full text -/

def fulltextKey (item : Value) : String := ((item.get "key").bind Value.asStr).getD ""

def fulltextRow (item : Value) (version : Int) : Fulltext :=
  let count name := ((item.get name).bind Value.asInt).getD 0
  { content := ((item.get "content").bind Value.asStr).getD ""
    indexedChars := count "indexedChars"
    totalChars := count "totalChars"
    indexedPages := count "indexedPages"
    totalPages := count "totalPages"
    version := version }

def fulltextItem (L : LibraryId) (itemKey : String) : Txn Db (Option (Int × Value)) := do
  let row ← execute (.fulltextItem L itemKey)
  return row.map fun r => (r.version, .object [
    ("content", .string r.content),
    ("indexedChars", .ofInt r.indexedChars),
    ("totalChars", .ofInt r.totalChars),
    ("indexedPages", .ofInt r.indexedPages),
    ("totalPages", .ofInt r.totalPages)])

def writeFulltextFrom (L : LibraryId) (version : Int) :
    Nat → List Value → Members → Txn Db (Ending (Outcome (Int × Value)))
  | _, [], successful => return .commit (.done (version, .object successful))
  | index, item :: batch, successful => do
      execute (.upsertFulltext L (fulltextKey item) (fulltextRow item version))
      writeFulltextFrom L version (index + 1) batch
        (successful.insert (toString index) (.object [("key", .string (fulltextKey item))]))

def writeFulltext (L : LibraryId) (batch : List Value) (expected : Option Int) :
    Txn Db (Ending (Outcome (Int × Value))) := do
  if batch.isEmpty then
    match ← noChange L expected with
    | .done version => return .drop (.done (version, .object []))
    | .conflict current => return .drop (.conflict current)
  else
    match ← guardedVersion L expected with
    | .done version => writeFulltextFrom L version 0 batch []
    | .conflict current => return .drop (.conflict current)

end Xotero
