import Xotero.Http.Router

/-!
A request on its way to its handler: the middleware authorizes it, reads its
body, and runs the handler in the scope of the access it selected. Waiting for a
decoder permit is left out.
-/

namespace Xotero

/-! ### The access of the running request -/

/-- What `REQUEST_ACCESS` holds in the task of a handler. -/
abbrev RequestScope := Option LibraryAccess

/-- `none` is the panic outside of a scope, here and below. -/
def requestLibrary (scope : RequestScope) : Option LibraryId := scope.map LibraryAccess.libraryId

def requestAccess (scope : RequestScope) : Option LibraryAccess := scope

/-! ### Bodies -/

/-- What a poll for the next frame of a body gives. -/
inductive Frame where
  | pending
  | data (bytes : List UInt8)
  | trailers
  | failed
  | finished

structure BodyStream where
  frames : Nat → Frame
  polled : Nat

def BodyStream.poll (body : BodyStream) : Frame × BodyStream :=
  (body.frames body.polled, { body with polled := body.polled + 1 })

def maxBody : Nat := 256 * 1024 * 1024

def maxPublicBody : Nat := 1024 * 1024

/-- The loop over the frames; `none` while a frame is awaited. -/
def collectFrames (limit : Nat) :
    Nat → List UInt8 → BodyStream → Option (Except Nat (List UInt8)) × BodyStream
  | 0, _, body => (none, body)
  | fuel + 1, raw, body =>
      match body.poll with
      | (.pending, body) | (.trailers, body) => collectFrames limit fuel raw body
      | (.failed, body) => (some (.error 400), body)
      | (.finished, body) => (some (.ok raw), body)
      | (.data bytes, body) =>
          let raw := raw ++ bytes.take (limit + 1 - raw.length)
          if limit < raw.length then (some (.error 413), body)
          else collectFrames limit fuel raw body

/-- What `MultiGzDecoder` makes of its input: the bytes before its end or its
first error, and whether it got to the end. -/
abbrev Gunzip := List UInt8 → List UInt8 × Bool

def decodeGzip (gunzip : Gunzip) (limit : Nat) (raw : List UInt8) : Except Nat (List UInt8) :=
  let out := (gunzip raw).1.take (limit + 1)
  if limit < out.length then .error 413
  else if !(gunzip raw).2 then .error 400
  else .ok out

def bufferedBody (gunzip : Gunzip) (fuel : Nat) (headers : Params) (limit : Nat)
    (body : BodyStream) : Option (Except Nat (List UInt8)) × BodyStream :=
  match headers.get "content-encoding" with
  | none => collectFrames limit fuel [] body
  | some encoding =>
      if eqIgnoreAsciiCase encoding "gzip" then
        match collectFrames limit fuel [] body with
        | (some (.ok raw), body) => (some (decodeGzip gunzip limit raw), body)
        | unread => unread
      else if eqIgnoreAsciiCase encoding "identity" then collectFrames limit fuel [] body
      else (some (.error 415), body)

/-! ### The middleware around the routes -/

/-- A handler and what it is called with; an upload reads its body itself. -/
structure Call where
  handler : Handler
  headers : Params
  context : Option RequestContext
  scope : RequestScope
  body : Option (List UInt8)

inductive Served where
  | refused (response : Rejection)
  | unreadable (status : Nat)
  | waiting
  | called (call : Call)
  | notFound
  | methodNotAllowed

namespace RequestHead
variable (req : RequestHead)

/-- `next.run` -/
def next (headers : Params) (context : Option RequestContext) (scope : RequestScope)
    (body : Option (List UInt8)) : Served :=
  match dispatch req with
  | .handler handler => .called ⟨handler, headers, context, scope, body⟩
  | .notFound => .notFound
  | .methodNotAllowed => .methodNotAllowed

def forward (gunzip : Gunzip) (fuel : Nat) (context : Option RequestContext)
    (access : Option LibraryAccess) (body : BodyStream) : Served × BodyStream :=
  if req.isUpload then (req.next req.headers context access none, body)
  else
    let limit := if req.isBootstrap then maxPublicBody else maxBody
    match bufferedBody gunzip fuel req.headers limit body with
    | (some (.ok bytes), body) =>
        let headers :=
          req.headers.filter fun h => h.1 ≠ "content-encoding" && h.1 ≠ "content-length"
        (req.next headers context access (some bytes), body)
    | (some (.error status), body) => (.unreadable status, body)
    | (none, body) => (.waiting, body)

end RequestHead

/-- `fuel` bounds the polls of the body. -/
def logAndAuth (digests : Digests) (config : Config) (gunzip : Gunzip) (fuel : Nat)
    (req : RequestHead) (body : BodyStream) : Txn Db (Served × BodyStream) := do
  match ← authorizeRequest digests config req with
  | .refused response => return (.refused response, body)
  | .admitted context access => return req.forward gunzip fuel context access body

end Xotero
