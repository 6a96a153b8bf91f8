import Quackapi.Http.Response
import Quackapi.Util.Utf8

/-! The record a request leaves in the access log: what is taken from the request and its response,
what of it is redacted, and the values the table gets. -/

namespace Quackapi.Telemetry
open Http

def contains (s part : Str) : Bool := s.tails.any (part.isPrefixOf ·)

/-- `decode_query_component`, where a plus is a blank. -/
def decodeQueryComponent : Str → Str
  | [] => []
  | '%' :: a :: b :: rest =>
    match fromHex [a, b] with
    | some byte => Char.ofNat byte :: decodeQueryComponent rest
    | none => '%' :: decodeQueryComponent (a :: b :: rest)
  | '+' :: rest => ' ' :: decodeQueryComponent rest
  | c :: rest => c :: decodeQueryComponent rest

/-- `std::stoull`: the digits at the start, after blanks and a sign. -/
def stoull (s : Str) : Option Nat :=
  let signed := takeSign (s.dropWhile isSpace)
  let digits := signed.2.takeWhile Char.isDigit
  let value := digits.foldl (fun n c => 10 * n + (c.toNat - '0'.toNat)) 0
  if digits.isEmpty || decide (2 ^ 64 ≤ value) then none
  else some (if signed.1 then (2 ^ 64 - value) % 2 ^ 64 else value)

structure LoggedRequest where
  method : Str
  /-- The request target as sent, up to a fragment. -/
  target : Str
  path : Str
  version : Str
  remoteAddr : Str
  headers : List (Str × Str)
  body : Str

def pathOfTarget (target : Str) : Str := decodePathComponent (target.takeWhile (· ≠ '?'))

structure LogOptions where
  logHeaders : Str
  logQuery : Bool

/-- What the server itself puts into a record. Durations are only ever compared with zero. -/
structure RecordArgs where
  requestId : Str
  routeName : Str
  routePath : Str
  durationMs : Int
  receivedAtMicros : Int
  sqlPrepareMs : Int
  sqlExecuteMs : Int
  rowsOut : Int
  traceId : Str
  spanId : Str
  parentSpanId : Str
  sampled : Bool

structure RequestRecord where
  requestId : Str
  receivedAtMicros : Int
  method : Str
  path : Str
  routeName : Str
  routePath : Str
  status : Int
  durationMs : Int
  sqlPrepareMs : Int
  sqlExecuteMs : Int
  rowsOut : Int
  bytesIn : Int
  bytesOut : Int
  clientIp : Str
  userAgent : Str
  httpVersion : Str
  errorType : Str
  errorMessage : Str
  traceId : Str
  spanId : Str
  parentSpanId : Str
  sampled : Bool
  headersLogged : Bool
  headers : List (Str × Str)
  queryLogged : Bool
  query : Str

def sanitizeClientRequestId (s : Str) : Str :=
  (s.filter fun c => decide (0x21 ≤ c.toNat) && decide (c.toNat ≤ 0x7e)).take 128

def headerValue (name : Str) (headers : List (Str × Str)) : Str :=
  ((headers.find? fun h => ciEquals h.1 name).map Prod.snd).getD []

def toInt64 (n : Nat) : Int := if n % 2 ^ 64 < 2 ^ 63 then (n % 2 ^ 64 : Nat) else (n % 2 ^ 64 : Nat) - 2 ^ 64

def responseBytes (res : HttpResponse) : Int :=
  match res.headers.find? fun h => ciEquals h.1 "Content-Length".toList with
  | none => toInt64 res.body.length
  | some h => toInt64 ((stoull h.2).getD res.body.length)

def detailPrefix : Str := "\x7b\"detail\":\"".toList

/-- A detail up to the quote that no backslash stands before. -/
def detailText : Option Char → Str → Str
  | _, [] => []
  | previous, c :: rest =>
    if c = '"' ∧ previous ≠ some '\\' then [] else c :: detailText (some c) rest

def errorText (body : Str) : Str :=
  if detailPrefix.isPrefixOf body then detailText none (body.drop detailPrefix.length) else body

def errorMessageFromResponse (body : Str) : Str := (errorText body).take 512

def errorTypeForStatus (status : Int) : Str :=
  if status = 502 then "upstream_error".toList
  else if status = 503 then "service_unavailable".toList
  else if status = 504 then "timeout".toList
  else if status = 507 then "response_too_large".toList
  else if 500 ≤ status then "internal_error".toList
  else "http_error".toList

def redacted : Str := "[REDACTED]".toList

def isDeniedHeaderName (name : Str) : Bool :=
  decide (name = "authorization".toList) || decide (name = "proxy-authorization".toList) ||
    decide (name = "cookie".toList) || decide (name = "set-cookie".toList) ||
    decide (name = "x-api-key".toList) || contains name "token".toList ||
    contains name "secret".toList || contains name "password".toList

def allowedHeaders (allowlist : Str) : List Str :=
  ((allowlist.splitOn ',').map fun name => lower (Params.trim name)).filter fun name => !name.isEmpty

/-- The first header of a name that is allowed. -/
def redactedHeader (allowed : List Str) (result : List (Str × Str)) (header : Str × Str) :
    List (Str × Str) :=
  let name := lower header.1
  if allowed.contains name && !result.any (·.1 == name) then
    result ++ [(name, if isDeniedHeaderName name then redacted else header.2)]
  else result

def redactedHeaders (headers : List (Str × Str)) (allowlist : Str) : List (Str × Str) :=
  headers.foldl (redactedHeader (allowedHeaders allowlist)) []

def deniedQueryKeyParts : List Str :=
  ["token".toList, "key".toList, "secret".toList, "password".toList, "sig".toList, "code".toList,
    "auth".toList]

def isDeniedQueryKey (rawKey : Str) : Bool :=
  deniedQueryKeyParts.any (contains (lower (decodeQueryComponent rawKey)) ·)

def pairKey (pair : Str) : Str := pair.takeWhile (· ≠ '=')

def redactPair (pair : Str) : Str :=
  if isDeniedQueryKey (pairKey pair) then pairKey pair ++ '=' :: redacted
  else pairKey pair ++ pair.dropWhile (· ≠ '=')

/-- One round of the loop for each pair; an ampersand at the end is followed by an empty pair. -/
def redactPairs (first : Bool) (rest : Str) : Str :=
  (if first then [] else "&".toList) ++ redactPair (rest.takeWhile (· ≠ '&')) ++
    match h : rest.dropWhile (· ≠ '&') with
    | [] => []
    | _ :: more =>
      have : more.length < rest.length := by
        have hle := (List.dropWhile_suffix (· ≠ '&') (l := rest)).length_le
        rw [h, List.length_cons] at hle
        omega
      redactPairs false more
termination_by rest.length

def rawQuery (target : Str) : Option Str :=
  match target.dropWhile (· ≠ '?') with
  | [] => none
  | _ :: query => some query

def redactRawQuery (target : Str) : Str :=
  match rawQuery target with
  | none => []
  | some query => redactPairs true query

def makeRequestRecord (req : LoggedRequest) (res : HttpResponse) (args : RecordArgs)
    (options : LogOptions) : RequestRecord where
  requestId := args.requestId
  receivedAtMicros := args.receivedAtMicros
  method := req.method
  path := req.path
  routeName := args.routeName
  routePath := args.routePath
  status := res.status
  durationMs := args.durationMs
  sqlPrepareMs := args.sqlPrepareMs
  sqlExecuteMs := args.sqlExecuteMs
  rowsOut := args.rowsOut
  bytesIn := toInt64 req.body.length
  bytesOut := responseBytes res
  clientIp := req.remoteAddr
  userAgent := (headerValue "User-Agent".toList req.headers).take 256
  httpVersion := req.version
  errorType := if 400 ≤ res.status then errorTypeForStatus res.status else []
  errorMessage := if 500 ≤ res.status then errorMessageFromResponse res.body else []
  traceId := args.traceId
  spanId := args.spanId
  parentSpanId := args.parentSpanId
  sampled := args.sampled
  headersLogged := !options.logHeaders.isEmpty
  headers := if options.logHeaders.isEmpty then [] else redactedHeaders req.headers options.logHeaders
  queryLogged := options.logQuery
  query := if options.logQuery then redactRawQuery req.target else []

end Quackapi.Telemetry
