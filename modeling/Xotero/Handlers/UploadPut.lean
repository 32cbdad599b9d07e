import Xotero.Foundation.Custody
import Xotero.Store.Server

/-!
What moves the bytes of uploads: the endpoint that receives them, the collector
of candidates that no file took, and the start-up of the server. They run lone
statements against the database and calls against the object storage.
-/

namespace Xotero

structure Blob where
  bytes : List UInt8
  contentType : String
  deriving DecidableEq

inductive StorageOp where
  | put (key : String) (bytes : List UInt8) (contentType : String)
  | delete (key : String)

def storage : Service where
  State := Table String Blob
  Op := StorageOp
  apply
    | .put key bytes contentType, blobs => blobs.put key ⟨bytes, contentType⟩
    | .delete key, blobs => blobs.erase key

/-- One statement; `none` is an error. -/
def statement (q : Sql) : Process Db storage (Option q.Result) := Process.query (D := Db) q

/-- One call of the object storage; `false` is an error. -/
def callStorage (op : StorageOp) : Process Db storage Bool := Process.invoke (V := storage) op

/-- The time of a statement, and the rows it skips because they are locked. -/
structure Round where
  now : Int
  skipped : List Digest

def deleteCandidate (candidate : Digest × String) : Process Db storage Unit := do
  match ← callStorage (.delete candidate.2) with
  | false => return ()
  | true =>
      let _ ← statement (.deletePendingUploadGarbage candidate.1)
      return ()

def deleteCandidates : List (Digest × String) → Process Db storage Unit
  | [] => return ()
  | candidate :: garbage => do
      deleteCandidate candidate
      deleteCandidates garbage

/-- A round for each turn of the loop that is taken. -/
def cleanupPendingUploads : List Round → Process Db storage Unit
  | [] => return ()
  | round :: rounds => do
      match ← statement (.claimPendingUploadGarbage 32 round.now round.skipped) with
      | none | some [] => return ()
      | some garbage => do
          deleteCandidates garbage
          cleanupPendingUploads rounds

/-- A request to the upload endpoint, with the times of its statements. -/
structure PutRequest where
  token : String
  /-- What `buffered_body` makes of the body, or its error. -/
  body : Except Nat (List UInt8)
  lookedUpAt : Int
  claimedAt : Int
  finishedAt : Int
  rounds : List Round

structure UploadResponse where
  status : Nat
  message : String
  deriving DecidableEq

def serverError : UploadResponse := ⟨500, ""⟩

/-- The bytes are those that were authorized. -/
def PendingUpload.matchesBytes (digests : Digests) (upload : PendingUpload)
    (bytes : List UInt8) : Bool :=
  bytes.length = upload.filesize && digests.md5Hex bytes = toLowercase upload.uploadMd5

/-- The object storage and the row that goes with it, once the token is claimed. -/
def storeCandidate (tokenHash : Digest) (upload : PendingUpload) (bytes : List UInt8)
    (r : PutRequest) : Process Db storage UploadResponse := do
  let contentType := if upload.compressed then "application/zip" else "application/octet-stream"
  match ← callStorage (.put upload.blobKey bytes contentType) with
  | false =>
      let _ ← statement (.resetPendingUpload tokenHash r.finishedAt)
      cleanupPendingUploads r.rounds
      return serverError
  | true =>
      match ← statement (.markPendingUploadUploaded tokenHash r.finishedAt) with
      | some true => return ⟨201, ""⟩
      | some false =>
          let _ ← statement (.discardPendingUpload tokenHash)
          cleanupPendingUploads r.rounds
          return ⟨409, "upload token already used"⟩
      | none => return serverError

def uploadPut (digests : Digests) (config : Config) (r : PutRequest) :
    Process Db storage UploadResponse := do
  let tokenHash := digests.sha256 r.token
  match ← statement (.pendingUpload tokenHash r.lookedUpAt) with
  | none => return serverError
  | some none => return ⟨400, "unknown upload token"⟩
  | some (some upload) =>
  if upload.state ≠ .authorized then return ⟨409, "upload token already used"⟩
  else
  match ← Process.ofTxn (upload.authorized config) with
  | none => return serverError
  | some false => return ⟨403, "upload access revoked"⟩
  | some true =>
  match r.body with
  | .error status => return ⟨status, ""⟩
  | .ok bytes =>
  if !upload.matchesBytes digests bytes then
    return ⟨400, "uploaded bytes do not match md5/filesize"⟩
  else
  match ← statement (.claimPendingUpload tokenHash r.claimedAt) with
  | none => return serverError
  | some false => return ⟨409, "upload token already used"⟩
  | some true => storeCandidate tokenHash upload bytes r

/-- What `upload_put` makes of its token before it reads the body. -/
inductive UploadAdmission where
  | refused (response : UploadResponse)
  | admitted (upload : PendingUpload)

def uploadCheck (digests : Digests) (config : Config) (token : String) (now : Int) :
    Txn Db UploadAdmission := do
  match ← execute (.pendingUpload (digests.sha256 token) now) with
  | none => return .refused ⟨400, "unknown upload token"⟩
  | some upload =>
  if upload.state ≠ .authorized then return .refused ⟨409, "upload token already used"⟩
  else if ← upload.authorized config then return .admitted upload
  else return .refused ⟨403, "upload access revoked"⟩

/-- The rest of `upload_put`. -/
def receiveUpload (digests : Digests) (upload : PendingUpload) (r : PutRequest) :
    Process Db storage UploadResponse := do
  let tokenHash := digests.sha256 r.token
  match r.body with
  | .error status => return ⟨status, ""⟩
  | .ok bytes =>
  if !upload.matchesBytes digests bytes then
    return ⟨400, "uploaded bytes do not match md5/filesize"⟩
  else
  match ← statement (.claimPendingUpload tokenHash r.claimedAt) with
  | none => return serverError
  | some false => return ⟨409, "upload token already used"⟩
  | some true => storeCandidate tokenHash upload bytes r

/-- The body is not asked for before the token is admitted. -/
theorem uploadPut_eq (digests : Digests) (config : Config) (r : PutRequest) :
    uploadPut digests config r = (do
      match ← Process.ofTxn (uploadCheck digests config r.token r.lookedUpAt) with
      | none => return serverError
      | some (.refused response) => return response
      | some (.admitted upload) => receiveUpload digests upload r) := by
  refine congrArg (Process.stmt _) (funext fun answer => ?_)
  cases answer with
  | none => rfl
  | some found =>
      cases found with
      | none => rfl
      | some upload =>
          change (if upload.state ≠ .authorized then _ else _) =
            Process.ofTxn (if upload.state ≠ .authorized then _ else _) >>= _
          by_cases used : upload.state ≠ .authorized
          · rw [if_pos used, if_pos used]
            rfl
          · rw [if_neg used, if_neg used, Process.ofTxn_bind, Process.bind_bind]
            refine congrArg (_ >>= ·) (funext fun answer => ?_)
            cases answer with
            | none => rfl
            | some allowed =>
                cases allowed with
                | false => rfl
                | true => rfl

/-- `main`, before it serves requests. -/
def startUp (rounds : List Round) : Process Db storage Unit := do
  match ← statement .resetInterruptedPendingUploads with
  | none => return ()
  | some () => cleanupPendingUploads rounds

inductive UploadJob where
  | uploadPut (r : PutRequest)
  | cleanup (rounds : List Round)
  | startUp (rounds : List Round)

/-- The registration step of `file_post`, up to `register_file`: the upload it
shows to the caller is for this item and has its bytes. -/
def fileRegistration (token : Digest) (itemKey : String) (access : LibraryAccess)
    (lookedUpAt : Int) (d : Database) : Bool :=
  (Sql.eval (.pendingUpload token lookedUpAt) d).any fun upload =>
    upload.itemKey = itemKey && upload.libraryId = access.libraryId &&
      upload.groupId = access.groupId && upload.state = .uploaded

/-- The server, with any number of uploads, collectors and restarts beside it. -/
def uploadPlant (digests : Digests) (config : Config) : Plant Db storage where
  system := server digests config
  Job := UploadJob
  Answer := Option UploadResponse
  process
    | .uploadPut r => return some (← uploadPut digests config r)
    | .cleanup rounds => do
        cleanupPendingUploads rounds
        return none
    | .startUp rounds => do
        Xotero.startUp rounds
        return none

/-- One server: only a deletion outlasts its caller, and a registration follows a
look at its row. -/
def uploadHost (digests : Digests) (config : Config) : Host (uploadPlant digests config) where
  boot job := ∃ rounds, job = .startUp rounds
  lasting op := ∃ key, op = .delete key
  looks r d := match r with
    | .registerFile token itemKey access _ _ =>
        ∃ lookedUpAt, fileRegistration token itemKey access lookedUpAt d
    | _ => True

end Xotero
