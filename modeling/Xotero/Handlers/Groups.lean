import Xotero.Json.Value
import Xotero.Store.Groups

/-!
The handlers of group discovery: the groups of a user, and one group. Both show
a group as the same JSON.
-/

namespace Xotero

def LibraryReading.name : LibraryReading → String
  | .members => "members"
  | .all => "all"

def LibraryEditing.name : LibraryEditing → String
  | .admins => "admins"
  | .members => "members"

def FileEditing.name : FileEditing → String
  | .none => "none"
  | .admins => "admins"
  | .members => "members"

structure GroupsResponse where
  status : Nat
  headers : Params
  body : Option Value

def GroupsResponse.notFound : GroupsResponse := ⟨404, [], none⟩

/-- `matches!(group.role.as_str(), "owner" | "admin")` -/
def GroupMetadata.isAdmin (group : GroupMetadata) : Bool :=
  group.role = .owner || group.role = .admin

/-- A member that is left out when there are no users to name. -/
def userIds (name : String) (ids : List UserId) : Members :=
  if ids = [] then [] else [(name, .array (ids.map fun id => .ofInt id.get))]

def groupJson (group : GroupMetadata) (publicUrl : String) : Value :=
  let data : Members :=
    [("id", .ofInt group.id.get), ("version", .ofInt group.version),
      ("name", .string group.name), ("owner", .ofInt group.owner.get),
      ("type", .string group.groupType), ("description", .string group.description),
      ("url", .string group.url), ("libraryEditing", .string group.libraryEditing.name),
      ("libraryReading", .string group.libraryReading.name),
      ("fileEditing", .string group.fileEditing.name)] ++
    userIds "admins" group.admins ++ userIds "members" group.members
  .object [
    ("id", .ofInt group.id.get),
    ("version", .ofInt group.version),
    ("links", .object [
      ("self", .object [
        ("href", .string (publicUrl ++ "/groups/" ++ toString group.id.get)),
        ("type", .string "application/json")]),
      ("alternate", .object [
        ("href", .string ("https://www.zotero.org/groups/" ++ toString group.id.get)),
        ("type", .string "text/html")])]),
    ("meta", .object [
      ("created", .string group.created),
      ("lastModified", .string group.lastModified),
      ("numItems", .ofInt group.numItems),
      ("isAdmin", .bool group.isAdmin)]),
    ("data", .object data)]

/-- The static access of the handlers: a recovery key that may read. -/
def RequestContext.staticLibraryAccess (context : RequestContext) : Bool :=
  context.apiKeyId.isNone && context.permissions.library

namespace Handlers
section
variable (config : Config) (profiles : GroupId → GroupProfile) (context : RequestContext)

/-- The two statements each read a state of their own. -/
def groups (targetUserId : Int) (params : Params) (users listing : Database) : GroupsResponse :=
  match (Id.new targetUserId : Option UserId) with
  | none => .notFound
  | some target =>
      if activeUserExists users target then
        let groups := groupsForUser profiles listing target context.principal.userId
          context.apiKeyId context.staticLibraryAccess
        let headers := [("total-results", toString groups.length),
          ("link", "<" ++ config.publicUrl ++ "/users/" ++ toString target.get ++
            "/groups>; rel=\"alternate\"")]
        if params.get "format" = some "versions" then
          let versions := groups.foldl
            (fun versions group => Members.insert (toString group.id.get) (.ofInt group.version)
              versions) []
          ⟨200, headers, some (.object versions)⟩
        else
          ⟨200, headers, some (.array (groups.map fun group => groupJson group config.publicUrl))⟩
      else .notFound

def groupGet (groupId : Int) (d : Database) : GroupsResponse :=
  match (Id.new groupId : Option GroupId) with
  | none => .notFound
  | some id =>
      match groupForUser profiles d id context.principal.userId context.apiKeyId
          context.staticLibraryAccess with
      | some group => ⟨200, [("last-modified-version", toString group.version)],
          some (groupJson group config.publicUrl)⟩
      | none => .notFound

end
end Handlers

end Xotero
