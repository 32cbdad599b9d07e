import Xotero.Domain
import Xotero.Foundation.Agreement

/-!
Recovery keys from the environment. Only the digests of the tokens are kept, each
with the access of its role.
-/

namespace Xotero

/-- `[u8; 32]` -/
abbrev Digest32 := { digest : Digest // digest.length = 32 }

/-- `HashMap<[u8; 32], Permissions>` -/
abbrev RecoveryKeys := Table Digest32 Permissions

/-- `std::ffi::OsString` -/
abbrev OsString := ByteArray

def OsString.toStr (value : OsString) : Option String := String.fromUTF8? value

/-- The keys are looked through for one that is the digest. -/
def recoveryPermissions (keys : RecoveryKeys) (digest : Digest) : Option Permissions :=
  if digest.length = 32 then
    keys.rows.findSome? fun entry => if entry.1.val = digest then some entry.2 else none
  else none

theorem recoveryPermissions_eq_some {keys : RecoveryKeys} {digest : Digest}
    {permissions : Permissions} : recoveryPermissions keys digest = some permissions ↔
      ∃ key : Digest32, key.val = digest ∧ keys.find? key = some permissions := by
  unfold recoveryPermissions
  by_cases length : digest.length = 32
  · rw [if_pos length]
    constructor
    · intro found
      obtain ⟨⟨key, value⟩, present, found⟩ := List.exists_of_findSome?_eq_some found
      obtain ⟨same, rfl⟩ : key.val = digest ∧ value = permissions := by
        simpa using found
      exact ⟨key, same, Table.mem_rows.mp present⟩
    · rintro ⟨key, rfl, found⟩
      have present := Table.mem_rows.mpr found
      cases taken : keys.rows.findSome? fun entry =>
          if entry.1.val = key.val then some entry.2 else none with
      | none =>
          have missed := List.findSome?_eq_none_iff.mp taken _ present
          simp at missed
      | some other =>
          obtain ⟨⟨key', value⟩, present', found'⟩ := List.exists_of_findSome?_eq_some taken
          obtain ⟨same, rfl⟩ : key'.val = key.val ∧ value = other := by
            simpa using found'
          obtain rfl := Subtype.ext same
          exact congrArg some (Table.rows_functional present' present)
  · rw [if_neg length]
    refine ⟨fun found => (nomatch found), ?_⟩
    rintro ⟨key, rfl, -⟩
    exact absurd key.property length

theorem recoveryPermissions_val (keys : RecoveryKeys) (key : Digest32) :
    recoveryPermissions keys key.val = keys.find? key := by
  refine Option.ext fun permissions => ?_
  rw [recoveryPermissions_eq_some]
  constructor
  · rintro ⟨key', same, found⟩
    exact Subtype.ext same ▸ found
  · exact fun found => ⟨key, rfl, found⟩

/-- The table is the one that the requests are authenticated with. -/
theorem recoveryPermissions_config (config : Config) (keys : RecoveryKeys)
    (loaded : config.keys = keys.rows.map fun entry => (entry.1.val, entry.2))
    (digest : Digest) :
    config.recoveryPermissions digest = recoveryPermissions keys digest := by
  unfold Config.recoveryPermissions recoveryPermissions
  rw [loaded]
  split
  · rw [List.find?_map]
    induction keys.rows with
    | nil => rfl
    | cons entry rest ih =>
        by_cases here : entry.1.val = digest
        · simp [here]
        · simpa [here] using ih
  · rfl

/-- `str::split_once` -/
def splitOnce (separator : Char) : List Char → Option (List Char × List Char)
  | [] => none
  | c :: rest =>
      if c = separator then some ([], rest)
      else (splitOnce separator rest).map fun found => (c :: found.1, found.2)

theorem splitOnce_eq_some {separator : Char} {s before after : List Char} :
    splitOnce separator s = some (before, after) ↔
      s = before ++ separator :: after ∧ separator ∉ before := by
  induction s generalizing before with
  | nil => simp [splitOnce]
  | cons c rest ih =>
      rw [splitOnce]
      split
      · rename_i here
        cases before <;> simp_all [eq_comm]
      · rename_i elsewhere
        rw [Option.map_eq_some_iff]
        cases before with
        | nil => simp [elsewhere]
        | cons c' before =>
            rw [List.cons_append, List.cons.injEq, List.mem_cons, not_or]
            constructor
            · rintro ⟨⟨before', after'⟩, found, same⟩
              obtain ⟨⟨rfl, rfl⟩, rfl⟩ : (c = c' ∧ before' = before) ∧ after' = after := by
                simpa using same
              have split := ih.mp found
              exact ⟨⟨rfl, split.1⟩, Ne.symm elsewhere, split.2⟩
            · rintro ⟨⟨rfl, whole⟩, -, absent⟩
              exact ⟨(before, after), ih.mpr ⟨whole, absent⟩, rfl⟩

section
variable (sha256 : String → Digest32) (read : String → Option String)

def readToken (path : String) : Except String String :=
  if path = "" then .error "recovery key file path must be nonempty"
  else
    match read path with
    | none => .error "cannot read recovery key file as UTF-8"
    | some value =>
        let token := trim value
        if token = "" ∨ token.toList.any fun c => c = '\r' || c = '\n' then
          .error "recovery key file must contain one nonempty token"
        else .ok token

/-- The token's digest is entered with the role's access. -/
def insertToken (keys : RecoveryKeys) (token : String) (write : Bool) :
    Except String RecoveryKeys :=
  if trim token = "" then .error "recovery token must be nonempty"
  else
    let digest := sha256 token
    let permissions := Permissions.recovery write
    if (recoveryPermissions keys digest.val).any (· ≠ permissions) then
      .error "recovery token has conflicting roles"
    else .ok (keys.put digest permissions)

def loadEntry (keys : RecoveryKeys) (entry : String) : Except String RecoveryKeys :=
  match splitOnce ':' entry.toList with
  | none => .error "XOTERO_KEYS requires nonempty role:path entries"
  | some (role, path) => do
      let write ←
        if String.ofList role = "rw" then .ok true
        else if String.ofList role = "ro" then .ok false
        else .error "XOTERO_KEYS role must be exactly rw or ro"
      insertToken sha256 keys (← readToken read (String.ofList path)) write

/-- `manifest.split(',')` -/
def manifestEntries (manifest : String) : List String :=
  (manifest.toList.splitOn ',').map String.ofList

/-- The source of the highest priority is read, whatever it comes to. -/
def loadKeysFrom (env : String → Option OsString) : Except String RecoveryKeys :=
  match env "XOTERO_KEYS" with
  | some manifest =>
      match manifest.toStr with
      | none => .error "XOTERO_KEYS must be Unicode"
      | some manifest => (manifestEntries manifest).foldlM (loadEntry sha256 read) ∅
  | none =>
      match env "XOTERO_API_KEY_FILE" with
      | some path =>
          match path.toStr with
          | none => .error "XOTERO_API_KEY_FILE must be Unicode"
          | some path => do insertToken sha256 ∅ (← readToken read path) true
      | none =>
          match env "XOTERO_API_KEY" with
          | some token =>
              match token.toStr with
              | none => .error "XOTERO_API_KEY must be Unicode"
              | some token => insertToken sha256 ∅ token true
          | none => .ok ∅

end

end Xotero
