import Xotero.Foundation.Semaphore
import Xotero.Handlers.UploadPut
import Xotero.Http.Serve

/-!
All requests on their way through the middleware at once, and uploads through their
handler, which reads the body itself. A compressed body is collected and decoded under a
permit; the decoding itself is a job of its own, which owns the permit and goes on when its
request is dropped.
-/

namespace Xotero

/-- How a request is done with before its body is used. -/
inductive IntakeResult where
  | refused (response : Rejection)
  /-- The handler of an upload answers before it reads the body. -/
  | denied (response : UploadResponse)
  /-- A statement fails. -/
  | failed
  | read (answer : Except Nat (List UInt8))
  | dropped

inductive Stage where
  | authorizing
  /-- The handler of an upload looks at its token. -/
  | lookingUp
  | waiting
  | reading (raw : List UInt8) (body : BodyStream)
  /-- `attached` while the request waits for the job. -/
  | decoding (raw : List UInt8) (attached : Bool)
  | settled (outcome : IntakeResult)

inductive IntakeEvent (κ : Type) where
  /-- The statements of the authorization read these states. -/
  | authorize (k : κ) (states : List Database)
  /-- So do those of the handler of an upload. -/
  | lookUp (k : κ) (now : Int) (states : List Database)
  /-- A statement of the authorization or of the handler fails. -/
  | fail (k : κ)
  | enter (k : κ)
  | poll (k : κ)
  | decode (k : κ)
  /-- The job panics. -/
  | crash (k : κ)
  /-- The client goes away. -/
  | drop (k : κ)

def decoders : Nat := 4

/-- The requests, and what the middleware is given. -/
structure Intake (κ : Type) [DecidableEq κ] where
  digests : Digests
  config : Config
  gunzip : Gunzip
  request : κ → RequestHead
  /-- The token that the extractor finds in the path of an upload, or its answer. -/
  token : κ → Except UploadResponse String
  body : κ → BodyStream
  semaphore : Semaphore κ decoders

namespace Intake
variable {κ : Type} [DecidableEq κ] (intake : Intake κ)

structure State where
  permits : intake.semaphore.State
  stage : κ → Stage

def start : intake.State := ⟨intake.semaphore.initial, fun _ => .authorizing⟩

def encoding (k : κ) : Option String := (intake.request k).headers.get "content-encoding"

def compressed (k : κ) : Bool :=
  (intake.encoding k).any fun encoding => eqIgnoreAsciiCase encoding "gzip"

def limit (k : κ) : Nat :=
  if (intake.request k).isUpload then maxBody
  else if (intake.request k).isBootstrap then maxPublicBody
  else maxBody

/-- The handler of an upload before it reads the body. -/
def lookUp (k : κ) (now : Int) : Txn Db UploadAdmission :=
  match intake.token k with
  | .error response => return .refused response
  | .ok token => uploadCheck intake.digests intake.config token now

namespace State
variable {intake} (s : intake.State)

def move (k : κ) (stage : Stage) : intake.State :=
  { s with stage := fun k' => if k' = k then stage else s.stage k' }

/-- The collection of the body has come to this; a permit is given back. -/
def settle (k : κ) (outcome : IntakeResult) : intake.State :=
  let permits :=
    if intake.compressed k then intake.semaphore.release s.permits k else s.permits
  { s with permits := permits }.move k (.settled outcome)

/-- `buffered_body`: an unknown encoding is refused before anything is awaited. -/
def collect (k : κ) : intake.State :=
  match intake.encoding k with
  | none => s.move k (.reading [] (intake.body k))
  | some encoding =>
      if eqIgnoreAsciiCase encoding "gzip" then
        { s with permits := intake.semaphore.acquire s.permits k }.move k .waiting
      else if eqIgnoreAsciiCase encoding "identity" then
        s.move k (.reading [] (intake.body k))
      else s.move k (.settled (.read (.error 415)))

/-- One poll of the body. -/
def pollBody (k : κ) (raw : List UInt8) (body : BodyStream) : intake.State :=
  match body.poll with
  | (.pending, body) | (.trailers, body) => s.move k (.reading raw body)
  | (.failed, _) => s.settle k (.read (.error 400))
  | (.finished, _) =>
      if intake.compressed k then s.move k (.decoding raw true) else s.settle k (.read (.ok raw))
  | (.data bytes, body) =>
      let raw := raw ++ bytes.take (intake.limit k + 1 - raw.length)
      if intake.limit k < raw.length then s.settle k (.read (.error 413))
      else s.move k (.reading raw body)

/-- What an event does, if it can happen. -/
def step : IntakeEvent κ → Option intake.State
  | .authorize k states =>
      match s.stage k with
      | .authorizing =>
          match (authorizeRequest intake.digests intake.config (intake.request k)).replay
              states with
          | some (.refused response) => some (s.move k (.settled (.refused response)))
          | some (.admitted _ _) =>
              some (if (intake.request k).isUpload then s.move k .lookingUp else s.collect k)
          | none => none
      | _ => none
  | .lookUp k now states =>
      match s.stage k with
      | .lookingUp =>
          match (intake.lookUp k now).replay states with
          | some (.refused response) => some (s.move k (.settled (.denied response)))
          | some (.admitted _) => some (s.collect k)
          | none => none
      | _ => none
  | .fail k =>
      match s.stage k with
      | .authorizing | .lookingUp => some (s.move k (.settled .failed))
      | _ => none
  | .enter k =>
      match s.stage k with
      | .waiting =>
          if k ∈ intake.semaphore.held s.permits then
            some (s.move k (.reading [] (intake.body k)))
          else none
      | _ => none
  | .poll k =>
      match s.stage k with
      | .reading raw body => some (s.pollBody k raw body)
      | _ => none
  | .decode k =>
      match s.stage k with
      | .decoding raw attached =>
          some (s.settle k (if attached then
            .read (decodeGzip intake.gunzip (intake.limit k) raw) else .dropped))
      | _ => none
  | .crash k =>
      match s.stage k with
      | .decoding _ attached =>
          some (s.settle k (if attached then .read (.error 500) else .dropped))
      | _ => none
  | .drop k =>
      match s.stage k with
      | .authorizing | .lookingUp => some (s.move k (.settled .dropped))
      | .waiting =>
          if k ∈ intake.semaphore.held s.permits then some (s.settle k .dropped)
          else some ({ s with permits := intake.semaphore.leave s.permits k }.move k
            (.settled .dropped))
      | .reading _ _ => some (s.settle k .dropped)
      | .decoding raw true => some (s.move k (.decoding raw false))
      | .decoding _ false | .settled _ => none

@[simp] theorem move_permits (k : κ) (stage : Stage) : (s.move k stage).permits = s.permits := rfl

@[simp] theorem move_stage_self (k : κ) (stage : Stage) : (s.move k stage).stage k = stage :=
  if_pos rfl

@[simp] theorem move_stage_ne {k k' : κ} (other : k' ≠ k) (stage : Stage) :
    (s.move k stage).stage k' = s.stage k' :=
  if_neg other

end State

/-- What has happened since, and where it has led to. -/
inductive State.Leads {intake : Intake κ} (s : intake.State) :
    List (IntakeEvent κ) → intake.State → Prop where
  | rest : s.Leads [] s
  | step {events : List (IntakeEvent κ)} {s' s'' : intake.State} (before : s.Leads events s')
      {e : IntakeEvent κ} (next : s'.step e = some s'') : s.Leads (events ++ [e]) s''

abbrev Reaches : List (IntakeEvent κ) → intake.State → Prop := intake.start.Leads

end Intake

end Xotero
