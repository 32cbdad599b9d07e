import Mathlib.Data.List.Induction
import Xotero.Json.Value
import Xotero.Query
import Xotero.Store.Groups

/-!
What a key may do, as it is told: the permissions of its user and its grants for
groups, in the JSON of `/keys/current`.
-/

namespace Xotero

/-- A grant for one group, or for all. -/
structure GroupGrant where
  groupId : Option GroupId
  library : Bool
  write : Bool
  deriving DecidableEq

/-- `order by group_id nulls first` -/
def nullsFirst : Option GroupId → Option GroupId → Bool
  | none, _ => true
  | some _, none => false
  | some a, some b => a.get ≤ b.get

def GroupGrant.of (groupId : Option GroupId) (grant : Grant) : GroupGrant :=
  ⟨groupId, grant.library, grant.write⟩

/-- A union of two selects. -/
def apiKeyGroupGrants (d : Database) (apiKeyId : ApiKeyId) : List GroupGrant :=
  let all := (d.apiKeyAllGroupsPermissions.select fun k _ => k = apiKeyId && true).map fun e =>
    GroupGrant.of none e.2
  let one := (d.apiKeyGroupPermissions.select fun k _ => k.1 = apiKeyId).map fun e =>
    GroupGrant.of (some e.1.2) e.2.grant
  (all ++ one).insertionSort fun a b => nullsFirst a.groupId b.groupId

/-- The name of a grant in the answer. -/
def grantName : Option GroupId → String
  | none => "all"
  | some id => toString id.get

/-- The flags of a user; those that are false are left out. -/
def userFlags (permissions : Permissions) : Members :=
  [("library", permissions.library), ("files", permissions.files), ("notes", permissions.notes),
    ("write", permissions.write)].foldl
    (fun user flag => if flag.2 then Members.insert flag.1 (.bool true) user else user) []

def grantEntry (grant : GroupGrant) : Value :=
  .object [("library", .bool true), ("write", .bool grant.write)]

def grantEntries (groupGrants : List GroupGrant) : Members :=
  (groupGrants.filter GroupGrant.library).foldl
    (fun groups grant => Members.insert (grantName grant.groupId) (grantEntry grant) groups) []

/-- What is empty is left out. -/
def accessPayload (permissions : Permissions) (groupGrants : List GroupGrant) : Value :=
  let user := userFlags permissions
  let access := if user.isEmpty then [] else Members.insert "user" (.object user) []
  let groups := grantEntries groupGrants
  .object (if groups.isEmpty then access else Members.insert "groups" (.object groups) access)

/-- The statement of the handler, and what stands for it with a recovery key. -/
def groupGrants (context : RequestContext) (d : Database) : List GroupGrant :=
  match context.apiKeyId with
  | some apiKeyId => apiKeyGroupGrants d apiKeyId
  | none =>
      if context.permissions.library then [⟨none, true, context.permissions.write⟩] else []

/-- The body of the answer. -/
def Handlers.keyCurrent (context : RequestContext) (d : Database) : Value :=
  .object [
    ("key", .string context.presentedKey),
    ("userID", .ofInt context.principal.userId.get),
    ("username", .string context.principal.username),
    ("displayName", .string context.principal.displayName),
    ("access", accessPayload context.permissions (groupGrants context d))]

/-! ### What is told of a flag, and of a grant -/

def Value.isTrue : Value → Bool
  | .bool b => b
  | _ => false

/-- A client reads a flag of its user off the answer. -/
def toldUser (answer : Value) (name : String) : Bool :=
  (((answer.get "access").bind (·.get "user")).bind (·.get name)).any Value.isTrue

/-- And a flag of the grant for a group, or for all. -/
def toldGroup (answer : Value) (group : Option GroupId) (name : String) : Bool :=
  ((((answer.get "access").bind (·.get "groups")).bind (·.get (grantName group))).bind
    (·.get name)).any Value.isTrue

theorem grantName_injective {group group' : Option GroupId}
    (h : grantName group = grantName group') : group = group' := by
  have number (group : Option GroupId) :
      parseDigits (grantName group).toList = group.map fun id => id.get.toNat := by
    cases group with
    | none => rfl
    | some id =>
        obtain ⟨n, is_n⟩ := Int.eq_ofNat_of_zero_le id.positive.le
        have written : grantName (some id) = Nat.repr n := by
          rw [grantName, is_n]
          rfl
        rw [written, parseDigits_repr, Option.map_some, is_n]
        rfl
  have same := (number group).symm.trans (h ▸ number group')
  cases group with
  | none =>
      cases group' with
      | none => rfl
      | some id => cases same
  | some id =>
      cases group' with
      | none => cases same
      | some id' =>
          obtain ⟨n, positive⟩ := id
          obtain ⟨n', positive'⟩ := id'
          have same : n.toNat = n'.toNat := Option.some.inj same
          obtain rfl : n = n' := by omega
          rfl

/-- Of the entries of one name, the last one is kept. -/
theorem get_insertEach {α : Type} (name : α → String) (value : α → Value) (xs : List α)
    (ms : Members) (n : String) :
    (xs.foldl (fun ms x => Members.insert (name x) (value x) ms) ms).get n =
      (((xs.filter fun x => name x = n).getLast?).map value).or (ms.get n) := by
  induction xs using List.reverseRecOn with
  | nil => rfl
  | append_singleton xs x ih =>
      rw [List.foldl_append, List.foldl_cons, List.foldl_nil, Members.get_insert, ih,
        List.filter_append]
      by_cases here : name x = n
      · simp [here]
      · simp [here]

section Payload
variable (context : RequestContext) (d : Database)

theorem get_user (permissions : Permissions) (grants : List GroupGrant) (name : String) :
    (((accessPayload permissions grants).get "user").bind (·.get name)) =
      (userFlags permissions).get name := by
  have inner : Members.get (if (userFlags permissions).isEmpty then []
      else Members.insert "user" (.object (userFlags permissions)) []) "user" =
        if (userFlags permissions).isEmpty then none
        else some (.object (userFlags permissions)) := by
    split <;> rfl
  have outer : (accessPayload permissions grants).get "user" =
      if (userFlags permissions).isEmpty then none
      else some (.object (userFlags permissions)) := by
    rw [← inner, accessPayload]
    dsimp only [Value.get]
    split
    · rfl
    · rw [Members.get_insert, if_neg (by decide)]
  rw [outer]
  split
  · rename_i none
    rw [List.isEmpty_iff.mp none]
    rfl
  · rfl

theorem get_groups (permissions : Permissions) (grants : List GroupGrant) (name : String) :
    (((accessPayload permissions grants).get "groups").bind (·.get name)) =
      (grantEntries grants).get name := by
  have outer : (accessPayload permissions grants).get "groups" =
      if (grantEntries grants).isEmpty then none else some (.object (grantEntries grants)) := by
    rw [accessPayload]
    dsimp only [Value.get]
    split
    · split <;> rfl
    · rw [Members.get_insert, if_pos rfl]
  rw [outer]
  split
  · rename_i none
    rw [List.isEmpty_iff.mp none]
    rfl
  · rfl

/-- The user is told of its own permissions. -/
theorem toldUser_eq :
    toldUser (Handlers.keyCurrent context d) "library" = context.permissions.library ∧
    toldUser (Handlers.keyCurrent context d) "files" = context.permissions.files ∧
    toldUser (Handlers.keyCurrent context d) "notes" = context.permissions.notes ∧
    toldUser (Handlers.keyCurrent context d) "write" = context.permissions.write := by
  have told (name : String) : toldUser (Handlers.keyCurrent context d) name =
      ((userFlags context.permissions).get name).any Value.isTrue := by
    rw [← get_user context.permissions (groupGrants context d)]
    rfl
  simp only [told]
  obtain ⟨library, notes, write, files⟩ := context.permissions
  cases library <;> cases notes <;> cases write <;> cases files <;> exact ⟨rfl, rfl, rfl, rfl⟩

/-- The row behind the entry of a group, or of all. -/
def Database.grantOf (key : ApiKeyId) : Option GroupId → Option GroupGrant
  | none => (d.apiKeyAllGroupsPermissions.find? key).map (GroupGrant.of none)
  | some group =>
      (d.apiKeyGroupPermissions.find? (key, group)).map fun row =>
        GroupGrant.of (some group) row.grant

/-- The keys of the tables make it one row. -/
theorem filter_apiKeyGroupGrants (key : ApiKeyId) (group : Option GroupId) :
    ((apiKeyGroupGrants d key).filter fun grant => grant.groupId = group) =
      (d.grantOf key group).toList := by
  have one {α : Type} {xs : List α} {o : Option α} (h : xs.Perm o.toList) : xs = o.toList := by
    cases o with
    | none => exact h.eq_nil
    | some a => exact List.perm_singleton.mp h
  apply one
  rw [apiKeyGroupGrants]
  refine ((List.perm_insertionSort _ _).filter _).trans (.of_eq ?_)
  rw [List.filter_append, Table.select_key d.apiKeyAllGroupsPermissions key fun _ => true,
    List.filter_map, List.filter_map]
  cases group with
  | none =>
      have others : (d.apiKeyGroupPermissions.select fun k _ => k.1 = key).filter
          ((fun grant => decide (grant.groupId = none)) ∘ fun e =>
            GroupGrant.of (some e.1.2) e.2.grant) = [] := by
        rw [List.filter_eq_nil_iff]
        intro e _
        simp [GroupGrant.of]
      rw [others, List.map_nil, List.append_nil]
      cases found : d.apiKeyAllGroupsPermissions.find? key with
      | none => simp [Database.grantOf, found]
      | some grant => simp [Database.grantOf, found, GroupGrant.of, Option.filter]
  | some group =>
      have others : ((((d.apiKeyAllGroupsPermissions.find? key).filter fun _ => true).map
          fun r => (key, r)).toList).filter ((fun grant => decide (grant.groupId = some group)) ∘
            fun e => GroupGrant.of none e.2) = [] := by
        rw [List.filter_eq_nil_iff]
        intro e _
        simp [GroupGrant.of]
      have row : (d.apiKeyGroupPermissions.select fun k _ => k.1 = key).filter
          ((fun grant => decide (grant.groupId = some group)) ∘ fun e =>
            GroupGrant.of (some e.1.2) e.2.grant) =
          ((d.apiKeyGroupPermissions.find? (key, group)).map fun r =>
            ((key, group), r)).toList := by
        rw [← Table.filter_key, Table.select, List.filter_filter]
        refine List.filter_congr fun e _ => ?_
        simp [GroupGrant.of, Prod.ext_iff, Bool.and_comm]
      rw [others, row, List.map_nil, List.nil_append, Database.grantOf]
      cases d.apiKeyGroupPermissions.find? (key, group) <;> rfl

/-- What an answer says of a group, or of all. -/
def grantTold (group : Option GroupId) : Option GroupGrant :=
  match context.apiKeyId with
  | some key => d.grantOf key group
  | none =>
      if group = none && context.permissions.library then
        some ⟨none, true, context.permissions.write⟩
      else none

theorem filter_groupGrants (group : Option GroupId) :
    ((groupGrants context d).filter fun grant => grant.groupId = group) =
      (grantTold context d group).toList := by
  rw [groupGrants, grantTold]
  cases context.apiKeyId with
  | some key => exact filter_apiKeyGroupGrants d key group
  | none => cases group <;> cases context.permissions.library <;> rfl

theorem toldGroup_eq (group : Option GroupId) :
    toldGroup (Handlers.keyCurrent context d) group "library" =
      (grantTold context d group).any GroupGrant.library ∧
    toldGroup (Handlers.keyCurrent context d) group "write" =
      (grantTold context d group).any fun grant => grant.library && grant.write := by
  have told (name : String) : toldGroup (Handlers.keyCurrent context d) group name =
      (((grantTold context d group).filter GroupGrant.library).bind fun grant =>
        (grantEntry grant).get name).any Value.isTrue := by
    have entry : ((Handlers.keyCurrent context d).get "access").bind (·.get "groups") =
        (accessPayload context.permissions (groupGrants context d)).get "groups" := rfl
    have same : ((groupGrants context d).filter GroupGrant.library).filter
        (fun grant => grantName grant.groupId = grantName group) =
          ((grantTold context d group).filter GroupGrant.library).toList := by
      have names : (fun grant : GroupGrant => decide (grantName grant.groupId = grantName group)) =
          fun grant => decide (grant.groupId = group) := by
        funext grant
        exact decide_eq_decide.mpr ⟨grantName_injective, congrArg grantName⟩
      rw [List.filter_comm, names, filter_groupGrants]
      cases grantTold context d group with
      | none => rfl
      | some grant => cases shown : grant.library <;> simp [Option.filter, shown]
    rw [toldGroup, entry, get_groups, grantEntries, get_insertEach, same]
    cases (grantTold context d group).filter GroupGrant.library <;> rfl
  rw [told, told]
  cases grantTold context d group with
  | none => exact ⟨rfl, rfl⟩
  | some grant =>
      obtain ⟨_, library, write⟩ := grant
      cases library <;> cases write <;> exact ⟨rfl, rfl⟩

end Payload

end Xotero
