import Quackapi.Auth.Registry
import Quackapi.Util.Numeral

/-! Verification of a credential: an API key against the stored hashes, a token against its signature
and its time bounds. The digests, the base64 decoder of the bundled library and the JSON parser of
the engine are given. -/

namespace Quackapi.Auth
open Library

/-- A JSON value, as far as its text goes. -/
inductive JsonValue
  | null
  | string (text : Str)
  | bool (b : Bool)
  | integer (n : Numeral)
  /-- A number with a fraction or an exponent. -/
  | float (n : Numeral) (mark : { c : Char // c = '.' ∨ c = 'e' ∨ c = 'E' }) (rest : Str)
  | array (rest : Str)
  | object (rest : Str)

/-- The `val` column of the field query. -/
def JsonValue.text : JsonValue → Option Str
  | .null => none
  | .string text => some text
  | .bool b => some (if b then "true".toList else "false".toList)
  | .integer n => some n.text
  | .float n mark rest => some (n.text ++ mark.val :: rest)
  | .array rest => some ('[' :: rest)
  | .object rest => some ('\x7b' :: rest)

abbrev Members := List (Str × JsonValue)

/-- What the engine makes of a string it is asked to read as JSON; a string that is no UTF-8 throws. -/
inductive JsonParse
  | threw
  | invalid
  | notObject
  | object (members : Members)

structure AuthEngine where
  sha256 : Str → Str
  hmacSha256 : Str → Str → Str
  base64Decode : Str → Option Str
  parseJson : Str → JsonParse

structure ParsedClaims where
  claims : List (Str × Str)
  nullClaims : List Str

/-- The loop over the fields; a second member of a name fails it. -/
def collectMembers : List Str → Members → Option ParsedClaims
  | _, [] => some ⟨[], []⟩
  | seen, (key, value) :: members =>
    if key ∈ seen then none
    else (collectMembers (key :: seen) members).map fun c =>
      match value.text with
      | some text => { c with claims := (key, text) :: c.claims }
      | none => { c with nullClaims := key :: c.nullClaims }

inductive JwtOutcome
  | accepted (claims : List (Str × Str))
  | rejected (detail : Str)
  | threw

def invalidCredentials : Str := "Invalid authentication credentials".toList

def base64UrlToStd (input : Str) : Str :=
  input.map fun c => if c = '-' then '+' else if c = '_' then '/' else c

def padBase64 (s : Str) : Str := s ++ List.replicate ((4 - s.length % 4) % 4) '='

def base64UrlDecode (e : AuthEngine) (input : Str) : Option Str :=
  e.base64Decode (padBase64 (base64UrlToStd input))

/-- Header, payload and signature: three segments, none of them empty. -/
def splitToken (token : Str) : Option (Str × Str × Str) :=
  let header := token.takeWhile (· ≠ '.')
  match token.dropWhile (· ≠ '.') with
  | [] => none
  | _ :: rest =>
    let payload := rest.takeWhile (· ≠ '.')
    match rest.dropWhile (· ≠ '.') with
    | [] => none
    | _ :: signature =>
      if '.' ∈ signature then none
      else if header.isEmpty || payload.isEmpty || signature.isEmpty then none
      else some (header, payload, signature)

/-- A claim read as whole seconds: all of its text is consumed. -/
def dateSeconds (text : Str) : Option Int :=
  match stoll text with
  | some (value, []) => some value
  | _ => none

/-- `NowEpochSeconds` when `exp` and when `nbf` is looked at. -/
structure JwtClock where
  exp : Int
  nbf : Int

def dateHolds (claims : List (Str × Str)) (key : Str) (holds : Int → Bool) : Bool :=
  match claims.lookup key with
  | none => true
  | some text =>
    match dateSeconds text with
    | none => false
    | some value => holds value

def parseJsonObjectClaims (e : AuthEngine) (json : Str) : Except JwtOutcome ParsedClaims :=
  match e.parseJson json with
  | .threw => .error .threw
  | .invalid => .error (.rejected invalidCredentials)
  | .notObject => .error (.rejected invalidCredentials)
  | .object members =>
    match collectMembers [] members with
    | none => .error (.rejected invalidCredentials)
    | some c => .ok c

def checkHeader (e : AuthEngine) (header : Str) : Except JwtOutcome Unit :=
  match base64UrlDecode e header with
  | none => .error (.rejected invalidCredentials)
  | some json => do
    let c ← parseJsonObjectClaims e json
    if c.claims.lookup "alg".toList = some "HS256".toList then return ()
    else throw (.rejected invalidCredentials)

def checkPayload (e : AuthEngine) (clock : JwtClock) (payload : Str) :
    Except JwtOutcome (List (Str × Str)) :=
  match base64UrlDecode e payload with
  | none => .error (.rejected invalidCredentials)
  | some json => do
    let c ← parseJsonObjectClaims e json
    if "exp".toList ∈ c.nullClaims ∨ "nbf".toList ∈ c.nullClaims then
      throw (.rejected invalidCredentials)
    else if dateHolds c.claims "exp".toList (fun v => decide (clock.exp < v)) = false then
      throw (.rejected invalidCredentials)
    else if dateHolds c.claims "nbf".toList (fun v => decide (v ≤ clock.nbf)) = false then
      throw (.rejected invalidCredentials)
    else return c.claims

def verifyJwtHs256 (e : AuthEngine) (clock : JwtClock) (token secret : Str) : JwtOutcome :=
  match splitToken token with
  | none => .rejected invalidCredentials
  | some (header, payload, signature) =>
    if base64UrlDecode e signature ≠ some (e.hmacSha256 secret (header ++ '.' :: payload)) then
      .rejected invalidCredentials
    else
      match checkHeader e header with
      | .error o => o
      | .ok () =>
        match checkPayload e clock payload with
        | .error o => o
        | .ok claims => .accepted claims

structure AuthResult where
  ok : Bool
  status : Nat
  body : Str
  wwwAuthenticate : Str
  claims : List (Str × Str)
deriving DecidableEq

/-- The details are fixed texts without a character that JSON escapes. -/
def detailJson (detail : Str) : Str := "\x7b\"detail\":\"".toList ++ detail ++ "\"\x7d".toList

def fail401 (detail wwwAuthenticate : Str) : AuthResult :=
  ⟨false, 401, detailJson detail, wwwAuthenticate, []⟩

def authOk (claims : List (Str × Str)) : AuthResult := ⟨true, 200, [], [], claims⟩

/-- The API key branch: the first entry of the scheme with the digest of the key. -/
def verifyApiKey (e : AuthEngine) (s : AuthState) (auth : QuackapiAuth) (authString : Str) :
    AuthResult :=
  if authString.isEmpty then fail401 "Not authenticated".toList "ApiKey".toList
  else
    match (snapshotApiKeys s auth.name).find? fun entry =>
        decide (e.sha256 authString = entry.keyHash) with
    | none => fail401 invalidCredentials []
    | some entry => authOk [("sub".toList, entry.subject)]

/-- `VerifyAuthScheme`; there is no result when the engine threw. -/
def verifyAuthScheme (e : AuthEngine) (s : AuthState) (clock : JwtClock)
    (schemeName authString : Str) : Option AuthResult :=
  match getAuth s schemeName with
  | none => some (fail401 "Not authenticated".toList [])
  | some auth =>
    match auth.kind with
    | .apiKey => some (verifyApiKey e s auth authString)
    | .jwtHs256 =>
      if authString.isEmpty then some (fail401 "Not authenticated".toList "Bearer".toList)
      else
        match verifyJwtHs256 e clock authString auth.secret with
        | .accepted claims => some (authOk claims)
        | .rejected detail => some (fail401 detail [])
        | .threw => none

end Quackapi.Auth
