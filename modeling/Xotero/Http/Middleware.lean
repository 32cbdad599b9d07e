import Xotero.Http.Path
import Xotero.Store.Authority

/-!
The part of the middleware that runs before a body is read: who makes the
request, and the library access it gets. Logging is left out.
-/

namespace Xotero

inductive Method where
  | get
  | head
  | post
  | put
  | patch
  | delete
  | other (name : String)
  deriving DecidableEq

/-- The head of a request; the names of its headers are in lower case. -/
structure RequestHead where
  method : Method
  path : String
  headers : Params

/-- `to_str` wants visible ASCII. -/
def headerStr (headers : Params) (name : String) : Option String :=
  (headers.get name).filter fun v =>
    v.toList.all fun c => (32 ≤ c.toNat && c.toNat < 127) || c = '\t'

/-- The key of a request; an empty one counts as none. -/
def presentedKey (headers : Params) : Option String :=
  (headerStr headers "zotero-api-key").filter (· ≠ "")

def authenticateRequest (digests : Digests) (config : Config) (headers : Params) :
    Txn Db (Option RequestContext) :=
  match presentedKey headers with
  | none => return none
  | some token =>
      let digest := digests.sha256 token
      match config.recoveryPermissions digest with
      | some permissions => do
          let principal ← bootstrapPrincipal config.userId
          return principal.map fun principal => {
            presentedKey := token
            principal := principal
            permissions := permissions
            apiKeyId := none }
      | none => do
          let row ← authenticateApiKey digest
          return row.map fun row => {
            presentedKey := token
            principal := row.2.1
            permissions := row.2.2
            apiKeyId := some row.1 }

namespace RequestHead
variable (req : RequestHead)

def isUpload : Bool :=
  req.method = .post &&
    match segments req.path with
    | [root, uploads, token] => root = "" && uploads = "uploads" && token ≠ ""
    | _ => false

def isBootstrap : Bool :=
  req.isUpload ||
    (req.path = "/login" &&
      (req.method = .get || req.method = .head || req.method = .post)) ||
    (req.path = "/keys/sessions" && req.method = .post) ||
    ((match segments req.path with
      | [root, keys, sessions, token] =>
          root = "" && keys = "keys" && sessions = "sessions" && token ≠ ""
      | _ => false) &&
      (req.method = .get || req.method = .head || req.method = .delete))

def mutating : Bool :=
  req.method = .post || req.method = .put || req.method = .patch || req.method = .delete

end RequestHead

/-- A response of the middleware itself. -/
structure Rejection where
  status : Nat
  message : String
  deriving DecidableEq

inductive Admission where
  | refused (response : Rejection)
  | admitted (context : Option RequestContext) (access : Option LibraryAccess)
  deriving DecidableEq

def forbidden (message : String) : Rejection := ⟨403, message⟩

def notFound : Rejection := ⟨404, ""⟩

/-- The user that the path names, against the one who makes the request. -/
def checkUser (context : RequestContext) (path : String) : Except Rejection Unit :=
  match pathUserId path with
  | .ok (some id) =>
      if id = context.principal.userId.get || isGroupDiscoveryPath path then .ok ()
      else .error (forbidden "user access denied")
  | .error () => .error notFound
  | .ok none => .ok ()

def personalAccess (context : RequestContext) : LibraryAccess where
  libraryId := context.principal.libraryId
  groupId := none
  permissions := context.permissions
  isAdmin := true
  fileWrite := context.permissions.write && context.permissions.files

/-- The library that the path is about, and what the caller may do there. -/
def selectAccess (context : RequestContext) (path : String) :
    Txn Db (Except Rejection (Option LibraryAccess)) :=
  match pathGroupDataId path with
  | .error () => return .error notFound
  | .ok (some group) => do
      match ← resolveGroupLibrary group context.principal.userId context.apiKeyId
          (if context.apiKeyId.isNone then some context.permissions else none) with
      | .allowed access => return .ok (some access)
      | .denied => return .error (forbidden "group access denied")
      | .missing => return .error notFound
  | .ok none =>
      if path ≠ "/keys/current" && !isGroupDiscoveryPath path then
        if !context.permissions.library then return .error (forbidden "library access denied")
        else return .ok (some (personalAccess context))
      else return .ok none

/-- The permissions that the method and the path ask for. -/
def RequestHead.checkAccess (req : RequestHead) (access : Option LibraryAccess) :
    Except Rejection Unit :=
  if isAttachmentPermissionPath req.path && access.any fun a => !a.permissions.files then
    .error (forbidden "file access denied")
  else if req.mutating && isAttachmentPermissionPath req.path && access.any fun a =>
    !a.fileWrite then
    .error (forbidden "file editing denied")
  else if req.mutating && access.any fun a => !a.permissions.write then
    .error (forbidden "read-only API key")
  else .ok ()

/-- `log_and_auth`, up to where it reads the body. -/
def authorizeRequest (digests : Digests) (config : Config) (req : RequestHead) :
    Txn Db Admission := do
  if req.isBootstrap then return .admitted none none
  else
    match ← authenticateRequest digests config req.headers with
    | none => return .refused (forbidden "invalid API key")
    | some context =>
        match checkUser context req.path with
        | .error response => return .refused response
        | .ok () =>
            match ← selectAccess context req.path with
            | .error response => return .refused response
            | .ok access =>
                match req.checkAccess access with
                | .error response => return .refused response
                | .ok () => return .admitted (some context) access

end Xotero
