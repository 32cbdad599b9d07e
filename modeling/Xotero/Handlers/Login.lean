import Xotero.Http.Middleware
import Xotero.Store.Sessions

/-!
Browser login: a client opens a session, polls it, and is handed a key once
somebody with a mapped identity has approved it. The key is not stored: poll and
approval derive it from the session token.
-/

namespace Xotero

/-- What the handlers have at hand; the keyed digest is HMAC-SHA256, with what it
computes left open. -/
structure LoginSite where
  digests : Digests
  hmac : List UInt8 → List UInt8 → List UInt8
  config : Config
  loginKdfKey : List UInt8

def LoginSite.tokenHash (site : LoginSite) (token : String) : Digest := site.digests.sha256 token

/-! Derivation of keys -/

def loginAlphabet : List Char := "23456789ABCDEFGHIJKLMNPQRSTUVWXYZ".toList

/-- `u32::to_be_bytes` -/
def bigEndian (n : Nat) : List UInt8 :=
  [.ofNat (n / 2 ^ 24), .ofNat (n / 2 ^ 16), .ofNat (n / 2 ^ 8), .ofNat n]

def utf8 (s : String) : List UInt8 := s.toUTF8.toList

def loginKeyMessage (sessionToken : String) (counter : Nat) : List UInt8 :=
  utf8 "xotero login api key\x00" ++ utf8 sessionToken ++ bigEndian counter

/-- Characters for the bytes of one block, until there are 24. -/
def pushKeyChars (key : List Char) : List UInt8 → List Char
  | [] => key
  | byte :: bytes =>
      if byte < 231 then
        let key := key ++ [loginAlphabet.get ⟨byte.toNat % loginAlphabet.length,
          Nat.mod_lt _ (by decide)⟩]
        if key.length = 24 then key else pushKeyChars key bytes
      else pushKeyChars key bytes

def loginApiKeyFrom (site : LoginSite) (sessionToken : String) :
    Nat → Nat → List Char → Option String
  | 0, _, _ => none
  | blocks + 1, counter, key =>
      let key := pushKeyChars key
        (site.hmac site.loginKdfKey (loginKeyMessage sessionToken counter))
      if key.length < 24 then loginApiKeyFrom site sessionToken blocks (counter + 1) key
      else some (String.ofList key)

/-- There are as many blocks as values of the counter, an `u32`. -/
def loginApiKey (site : LoginSite) (sessionToken : String) : Option String :=
  loginApiKeyFrom site sessionToken (2 ^ 32) 0 []

theorem pushKeyChars_length {key : List Char} (h : key.length < 24) (bytes : List UInt8) :
    (pushKeyChars key bytes).length ≤ 24 := by
  induction bytes generalizing key with
  | nil => exact Nat.le_of_lt h
  | cons byte bytes ih =>
      simp only [pushKeyChars]
      split
      · split
        · exact Nat.le_of_eq ‹_›
        · refine ih ?_
          rw [List.length_append, List.length_singleton] at *
          omega
      · exact ih h

theorem pushKeyChars_alphabet {key : List Char} (h : ∀ c ∈ key, c ∈ loginAlphabet)
    (bytes : List UInt8) : ∀ c ∈ pushKeyChars key bytes, c ∈ loginAlphabet := by
  induction bytes generalizing key with
  | nil => exact h
  | cons byte bytes ih =>
      have pushed (i : Fin loginAlphabet.length) :
          ∀ c ∈ key ++ [loginAlphabet.get i], c ∈ loginAlphabet := by
        intro c hc
        rcases List.mem_append.mp hc with old | new
        · exact h c old
        · exact List.mem_singleton.mp new ▸ List.get_mem _ _
      simp only [pushKeyChars]
      split
      · split
        · exact pushed _
        · exact ih (pushed _)
      · exact ih h

theorem loginApiKeyFrom_wellFormed {site : LoginSite} {sessionToken apiKey : String}
    {blocks counter : Nat} {key : List Char} (short : key.length < 24)
    (letters : ∀ c ∈ key, c ∈ loginAlphabet)
    (h : loginApiKeyFrom site sessionToken blocks counter key = some apiKey) :
    apiKey.toList.length = 24 ∧ ∀ c ∈ apiKey.toList, c ∈ loginAlphabet := by
  induction blocks generalizing counter key with
  | zero => cases h
  | succ blocks ih =>
      have atMost := pushKeyChars_length short
        (site.hmac site.loginKdfKey (loginKeyMessage sessionToken counter))
      have letters' := pushKeyChars_alphabet letters
        (site.hmac site.loginKdfKey (loginKeyMessage sessionToken counter))
      simp only [loginApiKeyFrom] at h
      split at h
      · exact ih ‹_› letters' h
      · obtain rfl := Option.some.inj h
        rw [String.toList_ofList]
        exact ⟨by omega, letters'⟩

/-- A derived key has 24 characters, all of Zotero's alphabet. -/
theorem loginApiKey_wellFormed {site : LoginSite} {sessionToken apiKey : String}
    (h : loginApiKey site sessionToken = some apiKey) :
    apiKey.toList.length = 24 ∧ ∀ c ∈ apiKey.toList, c ∈ loginAlphabet :=
  loginApiKeyFrom_wellFormed (by decide) (by simp) h

/-! Requests -/

/-- `str::contains` -/
def containsText (needle : List Char) : List Char → Bool
  | [] => needle.isEmpty
  | c :: cs => needle.isPrefixOf (c :: cs) || containsText needle cs

def loginClientType (headers : Params) : ClientType :=
  let agent := (toLowercase ((headerStr headers "user-agent").getD "")).toList
  if containsText "android".toList agent then .android
  else if containsText "iphone".toList agent || containsText "ipad".toList agent ||
      containsText "ios".toList agent then .ios
  else if containsText "windows".toList agent then .windows
  else if containsText "mac".toList agent then .mac
  else if containsText "linux".toList agent then .linux
  else .unknown

/-- `trim_end_matches('/')` -/
def trimEndSlashes (s : String) : List Char := (s.toList.reverse.dropWhile (· = '/')).reverse

/-- One verified claim: a header that is there once and not empty. -/
def oidcClaim (headers : Params) (name : String) : Option String :=
  match headers.all name with
  | [_] => (headerStr headers name).filter (· ≠ "")
  | _ => none

/-- The issuer and the subject the proxy vouches for. -/
def oidcClaims (headers : Params) : Option (String × String) :=
  match oidcClaim headers "x-xotero-oidc-issuer", oidcClaim headers "x-xotero-oidc-subject" with
  | some issuer, some subject => some (issuer, subject)
  | _, _ => none

inductive LoginReply where
  | created (sessionToken loginURL : String)
  | pending
  | cancelled
  | completed (apiKey : String) (userID : UserId) (username : String)
  | gone
  | notFound
  | noContent
  | conflict (message : String)
  | badRequest (message : String)
  | forbidden (message : String)
  | internalServerError
  | consentPage (token : String)
  | authorized
  | outside
  deriving DecidableEq

namespace LoginSite
variable (site : LoginSite)

def createSession (token : Option String) (headers : Params) (now : Int) :
    Txn LoginDb (Ending LoginReply) :=
  match token with
  | none => return .drop .internalServerError
  | some token => do
      createLoginSession (site.tokenHash token) (loginClientType headers) now
      return .commit (.created token (site.config.publicUrl ++ "/login?session=" ++ token))

def checkSession (token : String) (now : Int) : Txn LoginDb (Ending LoginReply) := do
  match ← loginSession (site.tokenHash token) now with
  | .pending => return .drop .pending
  | .cancelled => return .drop .cancelled
  | .completed principal =>
      match loginApiKey site token with
      | some apiKey => return .drop (.completed apiKey principal.userId principal.username)
      | none => .fail
  | .expired => return .drop .gone
  | .missing => return .drop .notFound

def cancelSession (token : String) (now : Int) : Txn LoginDb (Ending LoginReply) := do
  match ← cancelLoginSession (site.tokenHash token) now with
  | .done => return .commit .noContent
  | .missing => return .commit .notFound
  | _ => return .commit (.conflict "")

def loginPage (params : Params) (now : Int) : Txn LoginDb (Ending LoginReply) :=
  match params.get "session" with
  | none => return .drop (.badRequest "missing session")
  | some token => do
      match ← loginSession (site.tokenHash token) now with
      | .pending => return .drop (.consentPage token)
      | .expired => return .drop .gone
      | _ => return .drop .notFound

/-- Some browser says the form came from elsewhere. -/
def foreignOrigin (headers : Params) : Bool :=
  (headerStr headers "origin").any fun origin =>
    trimEndSlashes origin ≠ trimEndSlashes site.config.publicUrl

/-- The reply to an approval that has gone through the store. -/
def approvalReply : LoginSessionChange → LoginReply
  | .done => .authorized
  | .conflict => .conflict ""
  | .expired => .gone
  | .missing => .notFound
  | .userUnavailable => .forbidden ""

def loginAuthorize (headers form : Params) (id : ApiKeyId) (now : Int) :
    Txn LoginDb (Ending LoginReply) :=
  if site.foreignOrigin headers then return .drop (.forbidden "bad origin")
  else
    match oidcClaims headers with
    | none => return .drop (.forbidden "missing verified OIDC identity")
    | some (issuer, subject) =>
        match form.get "session" with
        | none => return .drop (.badRequest "missing session")
        | some token =>
            match loginApiKey site token with
            | none => .fail
            | some apiKey =>
                let apiKeyHash := site.tokenHash apiKey
                if (site.config.recoveryPermissions apiKeyHash).isSome then
                  return .drop (.conflict "generated key collides with recovery key")
                else do
                  let ending ← completeLoginSession (site.tokenHash token) apiKeyHash issuer
                    subject id now
                  return ending.map approvalReply

end LoginSite

/-- What other requests and administrators do meanwhile. -/
def outside : List OutsideWrite → Txn LoginDb (Ending LoginReply)
  | [] => return .commit .outside
  | w :: ws => do
      sql (.other w)
      outside ws

inductive LoginRequest where
  | createSession (token : Option String) (headers : Params) (now : Int)
  | checkSession (token : String) (now : Int)
  | cancelSession (token : String) (now : Int)
  | loginPage (params : Params) (now : Int)
  | loginAuthorize (headers form : Params) (id : ApiKeyId) (now : Int)
  | outside (ws : List OutsideWrite)

def LoginRequest.program (site : LoginSite) : LoginRequest → Txn LoginDb (Ending LoginReply)
  | .createSession token headers now => site.createSession token headers now
  | .checkSession token now => site.checkSession token now
  | .cancelSession token now => site.cancelSession token now
  | .loginPage params now => site.loginPage params now
  | .loginAuthorize headers form id now => site.loginAuthorize headers form id now
  | .outside ws => Xotero.outside ws

/-- The session token a request presents. -/
def LoginRequest.token : LoginRequest → Option String
  | .createSession token _ _ => token
  | .checkSession token _ | .cancelSession token _ => some token
  | .loginPage params _ => params.get "session"
  | .loginAuthorize _ form _ _ => form.get "session"
  | .outside _ => none

def enrollment (site : LoginSite) : System LoginDb where
  Request := LoginRequest
  Reply := LoginReply
  program := LoginRequest.program site
  auto _ := False

end Xotero
