import Xotero.Handlers.Listings
import Xotero.Store.Server

/-!
The handlers of the mutating data routes: what they refuse before the store is
reached, and the store request they make with the access of their caller.
-/

namespace Xotero

/-- Files of a personal library follow the write permission alone. -/
def LibraryAccess.allowStoredFileWrite (access : LibraryAccess) : Bool :=
  access.groupId.isNone || access.fileWrite

def objectKeyAlphabet : List Char := "23456789ABCDEFGHIJKLMNPQRSTUVWXYZ".toList

def validObjectKey (key : String) : Bool :=
  key.utf8ByteSize = 8 && key.toList.all objectKeyAlphabet.contains

inductive Refusal where
  | malformedBody
  | invalidObjectKey (key : String)
  | preconditionRequired
  | adminSettingDenied
  deriving DecidableEq

def ifUnmodified (headers : Params) : Option Int :=
  (headers.get "if-unmodified-since-version").bind parseI64

def precondition (headers : Params) : Except Refusal Int :=
  match ifUnmodified headers with
  | some expected => .ok expected
  | none => .error .preconditionRequired

namespace Handlers

def adminOnly : List String :=
  ["attachmentRenameTemplate", "autoRenameFiles", "autoRenameFilesFileTypes"]

def groupAdminSettingDenied (access : LibraryAccess) (keys : List String) : Bool :=
  access.groupId.isSome && !access.isAdmin && keys.any adminOnly.contains

/-- `body` is what `serde_json` makes of the request's body. -/
def write (access : LibraryAccess) (kind : ObjectKind) (headers : Params)
    (body : Option (List Value)) (random : Nat → Fin 8 → UInt8) : Except Refusal Request :=
  match body with
  | none => .error .malformedBody
  | some batch =>
      match (batch.filterMap fun o => (o.get "key").bind Value.asStr).find?
          fun key => !validObjectKey key with
      | some bad => .error (.invalidObjectKey bad)
      | none => do
          let expected ← precondition headers
          return .guarded access.libraryId (some expected)
            (.write kind batch access.allowStoredFileWrite random)

def delete (access : LibraryAccess) (kind : ObjectKind) (headers params : Params) :
    Except Refusal Request := do
  let expected ← precondition headers
  return .guarded access.libraryId (some expected)
    (.delete kind (csvOf params (kind.name ++ "Key")) access.allowStoredFileWrite)

/-- A body that is not JSON counts as an empty object. -/
def settingsWrite (access : LibraryAccess) (headers : Params) (body : Option Value) :
    Except Refusal Request := do
  let expected ← precondition headers
  let value := body.getD (.object [])
  if groupAdminSettingDenied access ((value.asObject.getD []).map fun m => m.1) then
    .error .adminSettingDenied
  else return .guarded access.libraryId (some expected) (.writeSettings value)

def settingsDelete (access : LibraryAccess) (headers params : Params) :
    Except Refusal Request := do
  let expected ← precondition headers
  let keys := csvOf params "settingKey"
  if groupAdminSettingDenied access keys then .error .adminSettingDenied
  else return .guarded access.libraryId (some expected) (.deleteSettings keys)

def tagsOf (params : Params) : List String :=
  (((params.get "tags").or (params.get "tag")).map fun raw =>
    ((splitBars raw.toList).map fun part => trim (String.ofList part)).filter (· ≠ "")).getD []

def tagsDelete (access : LibraryAccess) (headers params : Params) : Except Refusal Request := do
  let expected ← precondition headers
  return .guarded access.libraryId (some expected) (.deleteTags (tagsOf params))

def fulltextWrite (access : LibraryAccess) (headers : Params) (body : Option (List Value)) :
    Except Refusal Request :=
  match body with
  | none => .error .malformedBody
  | some batch => do
      let expected ← precondition headers
      return .guarded access.libraryId (some expected) (.writeFulltext batch)

end Handlers

/-- A call of one of these handlers. -/
inductive Mutation where
  | write (kind : ObjectKind) (headers : Params) (body : Option (List Value))
      (random : Nat → Fin 8 → UInt8)
  | delete (kind : ObjectKind) (headers params : Params)
  | settingsWrite (headers : Params) (body : Option Value)
  | settingsDelete (headers params : Params)
  | tagsDelete (headers params : Params)
  | fulltextWrite (headers : Params) (body : Option (List Value))

/-- The store request it makes with the access of its caller. -/
def Mutation.request (access : LibraryAccess) : Mutation → Except Refusal Request
  | .write kind headers body random => Handlers.write access kind headers body random
  | .delete kind headers params => Handlers.delete access kind headers params
  | .settingsWrite headers body => Handlers.settingsWrite access headers body
  | .settingsDelete headers params => Handlers.settingsDelete access headers params
  | .tagsDelete headers params => Handlers.tagsDelete access headers params
  | .fulltextWrite headers body => Handlers.fulltextWrite access headers body

section
variable {access : LibraryAccess} {headers : Params} {r : Request}

theorem precondition_bind {f : Int → Except Refusal Request}
    (h : (precondition headers >>= f) = .ok r) : ∃ expected, f expected = .ok r := by
  cases hp : precondition headers with
  | error refusal =>
      rw [hp] at h
      cases h
  | ok expected =>
      rw [hp] at h
      exact ⟨expected, h⟩

/-- A mutating request is a guarded operation on the caller's library, with the
caller's file policy. -/
theorem Mutation.request_guarded {m : Mutation} (h : m.request access = .ok r) :
    ∃ expected op, r = .guarded access.libraryId (some expected) op ∧
      (∀ kind batch allow random, op = .write kind batch allow random →
        allow = access.allowStoredFileWrite) ∧
      ∀ kind keys allow, op = .delete kind keys allow → allow = access.allowStoredFileWrite := by
  cases m with
  | write kind headers body random =>
      cases body with
      | none => cases h
      | some batch =>
          simp only [Mutation.request, Handlers.write] at h
          split at h
          · cases h
          · obtain ⟨expected, h⟩ := precondition_bind h
            cases h
            refine ⟨expected, _, rfl, ?_, fun _ _ _ => nofun⟩
            rintro _ _ _ _ ⟨⟩
            rfl
  | delete kind headers params =>
      obtain ⟨expected, h⟩ := precondition_bind h
      cases h
      refine ⟨expected, _, rfl, fun _ _ _ _ => nofun, ?_⟩
      rintro _ _ _ ⟨⟩
      rfl
  | settingsWrite headers body =>
      obtain ⟨expected, h⟩ := precondition_bind h
      dsimp only at h
      split at h
      · cases h
      · cases h
        exact ⟨expected, _, rfl, fun _ _ _ _ => nofun, fun _ _ _ => nofun⟩
  | settingsDelete headers params =>
      obtain ⟨expected, h⟩ := precondition_bind h
      dsimp only at h
      split at h
      · cases h
      · cases h
        exact ⟨expected, _, rfl, fun _ _ _ _ => nofun, fun _ _ _ => nofun⟩
  | tagsDelete headers params =>
      obtain ⟨expected, h⟩ := precondition_bind h
      cases h
      exact ⟨expected, _, rfl, fun _ _ _ _ => nofun, fun _ _ _ => nofun⟩
  | fulltextWrite headers body =>
      cases body with
      | none => cases h
      | some batch =>
          obtain ⟨expected, h⟩ := precondition_bind h
          cases h
          exact ⟨expected, _, rfl, fun _ _ _ _ => nofun, fun _ _ _ => nofun⟩

end

end Xotero
