import Xotero.Store.Files

/-!
The authorization step of `file_post`: check the client's precondition against
the registered file and record a pending upload under the digest of its token.
-/

namespace Xotero

def validKey (key : String) : Bool :=
  key ≠ "" && key.utf8ByteSize ≤ 32 && key.toList.all Char.isAlphanum

structure AuthorizeRequest where
  access : LibraryAccess
  context : RequestContext
  key : String
  ifNoneMatch : Bool
  ifMatch : Option String
  form : Params
  /-- What `upload_token` draws, if the random source can be read. -/
  token : Option String
  candidateId : Option String
  now : Int

inductive AuthorizeOutcome where
  | invalidKey
  | preconditionRequired
  | notFound
  | zipFieldsApart
  | alreadyExists (version : Int)
  | conflict (current : Int)
  | noRandomness
  | authorized (token : String) (compressed : Bool)
  deriving DecidableEq

def uploadStorageKey (L : LibraryId) (uploadToken : String) : String :=
  "libraries/" ++ toString L.get ++ "/uploads/" ++ uploadToken

def storedFileAttachmentExists (L : LibraryId) (key : String) : Txn Db Bool := do
  let data ← execute (.objectData L .item key)
  return data.any isStoredFileAttachment

inductive FilePrecondition where
  | proceed
  | alreadyExists
  | conflict
  deriving DecidableEq

def filePrecondition (ifNoneMatch : Bool) (ifMatch storedMd5 : Option String) (md5 : String) :
    FilePrecondition :=
  if ifNoneMatch then
    match storedMd5 with
    | some existing => if eqIgnoreAsciiCase existing md5 then .alreadyExists else .conflict
    | none => .proceed
  else
    match ifMatch with
    | some want =>
        if storedMd5.any fun stored => eqIgnoreAsciiCase stored want then .proceed else .conflict
    | none => .proceed

namespace AuthorizeRequest
variable (r : AuthorizeRequest)

def md5 : String := (r.form.get "md5").getD ""

def zipMd5 : Option String := (r.form.get "zipMD5").filter (· ≠ "")

def zipFilename : Option String := (r.form.get "zipFilename").filter (· ≠ "")

def compressed : Bool :=
  r.zipMd5.isSome || (r.form.get "zip").any fun value => value ≠ "" && value ≠ "0"

def integer (name : String) : Int := ((r.form.get name).bind parseI64).getD 0

def upload (digests : Digests) (storedMd5 : Option String) (candidateId : String) :
    PendingUpload where
  libraryId := r.access.libraryId
  groupId := r.access.groupId
  authorizerKeyHash := digests.sha256 r.context.presentedKey
  bootstrapUserId := if r.context.apiKeyId.isNone then some r.context.principal.userId else none
  itemKey := r.key
  expectedMd5 := if r.ifNoneMatch then none else storedMd5
  blobKey := uploadStorageKey r.access.libraryId candidateId
  md5 := r.md5
  uploadMd5 := r.zipMd5.getD r.md5
  filename := (r.form.get "filename").getD ""
  filesize := r.integer "filesize"
  mtime := r.integer "mtime"
  compressed := r.compressed
  state := .authorized

end AuthorizeRequest

/-- A failed insert (a token that exists) is an error. -/
def createPendingUpload (token : Digest) (upload : PendingUpload) (now : Int) : Txn Db Unit := do
  if ← execute (.createPendingUpload token upload now) then return () else .fail

def authorizeUpload (digests : Digests) (r : AuthorizeRequest) :
    Txn Db (Ending AuthorizeOutcome) := do
  let L := r.access.libraryId
  if !validKey r.key then return .drop .invalidKey
  else if !r.ifNoneMatch && r.ifMatch.isNone then return .drop .preconditionRequired
  else if !(← storedFileAttachmentExists L r.key) then return .drop .notFound
  else
    let file ← execute (.fileMeta L r.key)
    let storedMd5 := file.map FileMeta.md5
    if r.zipMd5.isSome ≠ r.zipFilename.isSome then return .drop .zipFieldsApart
    else
      match filePrecondition r.ifNoneMatch r.ifMatch storedMd5 r.md5 with
      | .alreadyExists => return .drop (.alreadyExists (← currentVersion L))
      | .conflict => return .drop (.conflict (← currentVersion L))
      | .proceed =>
          match r.token, r.candidateId with
          | some token, some candidateId => do
              createPendingUpload (digests.sha256 token) (r.upload digests storedMd5 candidateId)
                r.now
              return .commit (.authorized token r.compressed)
          | _, _ => return .drop .noRandomness

end Xotero
