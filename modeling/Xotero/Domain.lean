import Mathlib.Algebra.Group.Int.Defs
import Mathlib.Algebra.Group.Nat.Defs
import Mathlib.Data.List.Basic

/-!
Identifiers, permissions and request identities. The digests are those of SHA-256
and MD5; what they compute is left open.
-/

namespace Xotero

inductive IdKind where
  | library
  | user
  | apiKey
  | group
  deriving DecidableEq

/-- A database identifier; the source wraps one `i64` for each kind. -/
structure Id (kind : IdKind) where
  get : Int
  positive : 0 < get
  deriving DecidableEq

def Id.new {kind : IdKind} (value : Int) : Option (Id kind) :=
  if h : 0 < value then some ⟨value, h⟩ else none

theorem Id.new_get {kind : IdKind} (id : Id kind) : Id.new id.get = some id := by
  simp [Id.new, id.positive]

theorem Id.get_of_new {kind : IdKind} {value : Int} {id : Id kind} (h : Id.new value = some id) :
    id.get = value := by
  unfold Id.new at h
  split at h
  · obtain rfl := Option.some.inj h
    rfl
  · simp at h

abbrev LibraryId := Id .library
abbrev UserId := Id .user
abbrev ApiKeyId := Id .apiKey
abbrev GroupId := Id .group

structure Principal where
  userId : UserId
  username : String
  displayName : String
  libraryId : LibraryId
  deriving DecidableEq

structure Permissions where
  library : Bool
  notes : Bool
  write : Bool
  files : Bool
  deriving DecidableEq

def Permissions.recovery (write : Bool) : Permissions where
  library := true
  notes := true
  write := write
  files := true

structure LibraryAccess where
  libraryId : LibraryId
  groupId : Option GroupId
  permissions : Permissions
  isAdmin : Bool
  fileWrite : Bool
  deriving DecidableEq

structure RequestContext where
  presentedKey : String
  principal : Principal
  permissions : Permissions
  apiKeyId : Option ApiKeyId
  deriving DecidableEq

abbrev Digest := List UInt8

/-- The digest functions the server calls. -/
structure Digests where
  sha256 : String → Digest
  md5Hex : List UInt8 → String

structure Config where
  keys : List (Digest × Permissions)
  userId : UserId
  publicUrl : String

/-- `digest.try_into()` wants exactly 32 bytes. -/
def Config.recoveryPermissions (config : Config) (digest : Digest) : Option Permissions :=
  if digest.length = 32 then
    (config.keys.find? fun entry => entry.1 = digest).map fun entry => entry.2
  else none

/-- `str::to_lowercase` and `eq_ignore_ascii_case` on the texts the server folds. -/
def toLowercase (s : String) : String := String.ofList (s.toList.map Char.toLower)

def eqIgnoreAsciiCase (s t : String) : Bool := toLowercase s = toLowercase t

/-- `str::parse::<i64>`: an optional sign, then digits only, in range. -/
def parseDigits (digits : List Char) : Option Nat :=
  if digits ≠ [] ∧ digits.all Char.isDigit then
    some (digits.foldl (fun n c => 10 * n + (c.toNat - '0'.toNat)) 0)
  else none

def inI64 (n : Int) : Option Int := if -2 ^ 63 ≤ n ∧ n < 2 ^ 63 then some n else none

def parseI64 (s : String) : Option Int :=
  match s.toList with
  | '-' :: digits => (parseDigits digits).bind fun n => inI64 (-(n : Int))
  | '+' :: digits => (parseDigits digits).bind fun n => inI64 n
  | digits => (parseDigits digits).bind fun n => inI64 n

/-- `char::is_whitespace` -/
def isWhitespace (c : Char) : Bool :=
  (9 ≤ c.toNat && c.toNat ≤ 13) || (0x2000 ≤ c.toNat && c.toNat ≤ 0x200A) ||
    [0x20, 0x85, 0xA0, 0x1680, 0x2028, 0x2029, 0x202F, 0x205F, 0x3000].contains c.toNat

/-- `str::trim` -/
def trim (s : String) : String :=
  String.ofList ((s.toList.dropWhile isWhitespace).reverse.dropWhile isWhitespace).reverse

/-- `split("||")` -/
def splitBars : List Char → List (List Char)
  | [] => [[]]
  | '|' :: '|' :: cs => [] :: splitBars cs
  | c :: cs =>
      match splitBars cs with
      | [] => [[c]]
      | part :: parts => (c :: part) :: parts

/-- Form fields and query parameters. -/
abbrev Params := List (String × String)

def Params.get (params : Params) (name : String) : Option String :=
  (params.find? fun p => p.1 = name).map fun p => p.2

def Params.all (params : Params) (name : String) : List String :=
  (params.filter fun p => p.1 = name).map fun p => p.2

end Xotero
