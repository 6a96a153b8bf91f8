import Quackapi.Exec.Result
import Quackapi.Http.Redirect
import Quackapi.Middleware.Execute

/-! The response a route's result is made into: three loops over the rows, one for Arrow, one for
Parquet and one for the formats that are text, each of which takes the control columns out. -/

namespace Quackapi.Http
open Exec
open Middleware (MiddlewareEngine MiddlewareRegistry MiddlewareReply executeQuackapiMiddleware)
open Params (MiddlewareContext)

inductive BodyFormat
  | json | ndjson | csv | parquet | arrow | binary
deriving DecidableEq, Repr

/-- The part of a route that its response is made by. -/
structure RouteResponse where
  status : Int
  responseEnvelope : Str
  /-- Zero leaves an empty result to the route's status. -/
  emptyStatus : Int
  emptyBody : Str

structure HttpResponse where
  status : Int
  body : Str
  headers : List (Str × Str)
deriving DecidableEq

/-- What the engine knows of its values, as a response body needs it. -/
structure ResponseCodec (V : Type) extends NativeCodec V where
  /-- The bytes of a `BLOB`, unless it is null. -/
  blob : V → Option Str
  /-- A `LIST`, `STRUCT` or `MAP`. -/
  isNested : V → Bool

inductive SerializeStop
  | tooLarge
  | stopped
  | failed (what : Str)

/-- The two serializers that work on the engine's chunks, given the limit and the data columns. -/
structure Serializers (V : Type) where
  arrow : Nat → QueryResult V → List Nat → Except SerializeStop Str
  parquet : Nat → QueryResult V → List Nat → Except SerializeStop Str

/-- What a request's deadline says when a serializer has stopped. -/
structure Deadline where
  expired : Bool
  disconnected : Bool

def newResponse : HttpResponse := ⟨-1, [], []⟩

/-- A value that no header may have is dropped without a word. -/
def setHeader (res : HttpResponse) (name value : Str) : HttpResponse :=
  if isFieldValue value then { res with headers := res.headers ++ [(name, value)] } else res

def contentTypeName : Str := "Content-Type".toList

def setContent (res : HttpResponse) (body contentType : Str) : HttpResponse :=
  setHeader { res with
    body
    headers := res.headers.filter fun h => !ciEquals h.1 contentTypeName } contentTypeName contentType

def setJson (res : HttpResponse) (status : Int) (body : Str) : HttpResponse :=
  setContent { res with status } body "application/json".toList

def headerValues (name : Str) (res : HttpResponse) : List Str :=
  (res.headers.filter fun h => ciEquals h.1 name).map Prod.snd

def setCookies (res : HttpResponse) (cookies : List Str) : HttpResponse :=
  cookies.foldl (setHeader · "Set-Cookie".toList ·) res

def setLocation (res : HttpResponse) (location : Str) : HttpResponse :=
  if location.isEmpty then res else setHeader res "Location".toList location

def responseTooLarge (res : HttpResponse) : HttpResponse :=
  setJson res 507 (detailJson "Response exceeds configured byte limit".toList)

def deadlineExceeded (res : HttpResponse) : HttpResponse :=
  setJson res 504 (detailJson "Query execution deadline exceeded".toList)

def emptyResultBody (route : RouteResponse) : Str :=
  if route.emptyBody.isEmpty then detailJson "Not Found".toList else route.emptyBody

def objectEnvelope (route : RouteResponse) : Bool :=
  decide (lower (if route.responseEnvelope.isEmpty then "array".toList else route.responseEnvelope) =
    "object".toList)

section
variable {V : Type}

def dataNames (names : List Str) : List Str := (dataCols names).map (names.getD · [])

def csvEscapeField (input : Str) : Str :=
  if input.any fun c => c = '"' || c = ',' || c = '\n' || c = '\r' then
    '"' :: input.flatMap (fun c => if c = '"' then "\"\"".toList else [c]) ++ "\"".toList
  else input

def valueToCsvCell (codec : ResponseCodec V) (v : V) : Str :=
  if codec.isNull v then []
  else if codec.isNested v then codec.toJson v
  else codec.toText v

def serializeRowsNdjson (codec : ResponseCodec V) (names : List Str) (rows : List (List V)) : Str :=
  rows.flatMap fun row =>
    serializeRowJsonObject codec.toNativeCodec names (dataCols names) row ++ "\n".toList

def csvLine (fields : List Str) : Str :=
  ",".toList.intercalate (fields.map csvEscapeField) ++ "\n".toList

def serializeRowsCsv (codec : ResponseCodec V) (names : List Str) (rows : List (List V)) : Str :=
  csvLine (dataNames names) ++ rows.flatMap fun row =>
    csvLine ((dataCols names).map fun i => ((row[i]?).map (valueToCsvCell codec)).getD [])

/-- The cells of the one `html` or `text` column, one after the other. -/
def concatenateCells (codec : ResponseCodec V) (names : List Str) (rows : List (List V)) : Str :=
  rows.flatMap fun row => (cell codec.toNativeCodec row (dataCols names).head?).getD []

def modeContentType : ResponseMode → Str
  | .json => "application/json".toList
  | .html => "text/html; charset=utf-8".toList
  | .text => "text/plain; charset=utf-8".toList

structure Controls where
  location : Str
  cookies : List Str

def visitRow (codec : ResponseCodec V) (names : List Str) (c : Controls) (row : List V) : Controls where
  location :=
    if c.location.isEmpty then
      (cell codec.toNativeCodec row (columnsWhere isLocation names).getLast?).getD []
    else c.location
  cookies := c.cookies ++ (cell codec.toNativeCodec row (columnsWhere isSetCookie names).getLast?).toList

def visitRows (codec : ResponseCodec V) (result : QueryResult V) : Controls :=
  result.rows.foldl (visitRow codec result.names) ⟨[], []⟩

/-- The response around a body that a serializer has made of all rows. -/
def serializedResponse (codec : ResponseCodec V) (route : RouteResponse) (result : QueryResult V)
    (contentType body : Str) : HttpResponse :=
  let controls := visitRows codec result
  let res := setLocation (setCookies newResponse controls.cookies) controls.location
  if result.rows.length = 0 ∧ route.emptyStatus ≠ 0 then
    setJson res route.emptyStatus (emptyResultBody route)
  else setContent { res with status := route.status } body contentType

/-- Why a request ends before its result is a response. -/
inductive ResultStop
  | overLimit
  | expired
  | disconnected
  | failed (what : Str)

structure FetchState (V : Type) where
  rows : List (List V)
  jsonBody : Str
  location : Str
  cookies : List Str
  rowCount : Nat
  responseValueBytes : Nat

def countJsonBytes (fmt : BodyFormat) (names : List Str) : Bool :=
  decide (fmt = .json) && isJsonResult names

def startFetch (json object : Bool) : FetchState V where
  rows := []
  jsonBody := if object then [] else "[".toList
  location := []
  cookies := []
  rowCount := 0
  responseValueBytes := if json && !object then 2 else 0

def cellBytes (codec : ResponseCodec V) (v : V) : Nat :=
  match codec.blob v with
  | some bytes => bytes.length
  | none => (codec.toText v).length

def countCells (codec : ResponseCodec V) (maxBytes : Nat) (json : Bool) :
    Nat → List V → Except ResultStop Nat
  | n, [] => .ok n
  | n, v :: row =>
    let counted := if json then n else n + cellBytes codec v
    if maxBytes < counted then .error .overLimit else countCells codec maxBytes json counted row

def rowJson (codec : ResponseCodec V) (names : List Str) (json object : Bool) (rowCount : Nat)
    (row : List V) : Str :=
  if json then
    (if !object && rowCount != 0 then ",".toList else []) ++
      serializeRowJsonObject codec.toNativeCodec names (dataCols names) row
  else []

def fetchRow (codec : ResponseCodec V) (maxBytes : Nat) (names : List Str) (json object : Bool)
    (st : FetchState V) (row : List V) : Except ResultStop (FetchState V) := do
  let counted ← countCells codec maxBytes json st.responseValueBytes row
  let encoded := rowJson codec names json object st.rowCount row
  if json && decide (maxBytes < counted + encoded.length) then throw .overLimit
  return {
    rows := if json then st.rows else st.rows ++ [row]
    jsonBody := st.jsonBody ++ encoded
    location :=
      if st.location.isEmpty then
        (cell codec.toNativeCodec row (columnsWhere isLocation names).getLast?).getD []
      else st.location
    cookies :=
      st.cookies ++ (cell codec.toNativeCodec row (columnsWhere isSetCookie names).getLast?).toList
    rowCount := st.rowCount + 1
    responseValueBytes := counted + encoded.length }

def fetchRows (codec : ResponseCodec V) (maxBytes : Nat) (names : List Str) (json object : Bool) :
    FetchState V → List (List V) → Except ResultStop (FetchState V)
  | st, [] => .ok st
  | st, row :: rows => do
    let st ← fetchRow codec maxBytes names json object st row
    fetchRows codec maxBytes names json object st rows

def isBinaryContentType (contentType : Str) : Bool :=
  !contentType.isEmpty && contentType.all fun c => !(decide (c.toNat < 0x20) || decide (c.toNat = 0x7f))

/-- `FORMAT binary`: exactly one `BLOB` and at most its content type. -/
def binaryResponse (codec : ResponseCodec V) (route : RouteResponse) (names : List Str)
    (res : HttpResponse) (rows : List (List V)) : HttpResponse :=
  let columns p := (dataCols names).filter fun i => ciEquals (names.getD i []) p
  let bodyCol := (columns "body".toList).getLast?
  let typeCol := (columns "content_type".toList).getLast?
  let refused := setJson res 500
    (detailJson "FORMAT binary requires one row with a BLOB body and optional content_type".toList)
  match rows with
  | [row] =>
    match (bodyCol.bind (row[·]?)).bind codec.blob with
    | none => refused
    | some bytes =>
      if (dataCols names).length ≠ (if typeCol.isNone then 1 else 2) then refused
      else
        let contentType :=
          (cell codec.toNativeCodec row typeCol).getD "application/octet-stream".toList
        if isBinaryContentType contentType then
          setContent { res with status := route.status } bytes contentType
        else setJson res 500 (detailJson "Invalid binary content_type".toList)
  | _ => refused

def objectResponse (route : RouteResponse) (res : HttpResponse) (st : FetchState V) : HttpResponse :=
  if 1 < st.rowCount then
    setJson res 500 (detailJson ("ENVELOPE object requires exactly one row, got ".toList ++
      Nat.toDigits 10 st.rowCount))
  else if st.rowCount = 0 then setJson res route.status "null".toList
  else setJson res route.status st.jsonBody

def dataResponse (codec : ResponseCodec V) (route : RouteResponse) (fmt : BodyFormat)
    (names : List Str) (res : HttpResponse) (st : FetchState V) : HttpResponse :=
  match fmt with
  | .ndjson =>
    setContent { res with status := route.status } (serializeRowsNdjson codec names st.rows)
      "application/x-ndjson".toList
  | .csv =>
    setContent { res with status := route.status } (serializeRowsCsv codec names st.rows)
      "text/csv; charset=utf-8".toList
  | .parquet =>
    setContent { res with status := route.status } [] "application/vnd.apache.parquet".toList
  | _ =>
    if objectEnvelope route then objectResponse route res st
    else setJson res route.status (st.jsonBody ++ "]".toList)

def fetchedResponse (codec : ResponseCodec V) (route : RouteResponse) (fmt : BodyFormat)
    (execRoute : Bool) (names : List Str) (st : FetchState V) : HttpResponse :=
  let res := setCookies (setLocation newResponse st.location) st.cookies
  if st.rowCount = 0 ∧ route.emptyStatus ≠ 0 then
    setJson res route.emptyStatus (emptyResultBody route)
  else if (dataCols names).isEmpty && execRoute && (columnsWhere isLocation names).isEmpty &&
      (columnsWhere isSetCookie names).isEmpty then
    setJson res route.status "[]".toList
  else if (dataCols names).isEmpty then { res with status := route.status, body := [] }
  else if fmt = .binary then binaryResponse codec route names res st.rows
  else if responseModeFor (dataNames names) ≠ .json then
    setContent { res with status := route.status } (concatenateCells codec names st.rows)
      (modeContentType (responseModeFor (dataNames names)))
  else dataResponse codec route fmt names res st

def buildResult (codec : ResponseCodec V) (serializers : Serializers V) (maxBytes : Nat)
    (deadline : Deadline) (route : RouteResponse) (fmt : BodyFormat) (execRoute : Bool)
    (result : QueryResult V) : Except ResultStop HttpResponse :=
  let names := result.names
  if fmt = .arrow ∧ isJsonResult names = true then
    match serializers.arrow maxBytes result (dataCols names) with
    | .ok body =>
      .ok (serializedResponse codec route result "application/vnd.apache.arrow.stream".toList body)
    | .error .tooLarge => .error .overLimit
    | .error .stopped => .error (.failed "unknown exception".toList)
    | .error (.failed what) => .error (.failed what)
  else if fmt = .parquet ∧ (dataCols names).isEmpty = false then
    match serializers.parquet maxBytes result (dataCols names) with
    | .ok body =>
      .ok (serializedResponse codec route result "application/vnd.apache.parquet".toList body)
    | .error .tooLarge => .error .overLimit
    | .error .stopped => .error (if deadline.expired then .expired else .disconnected)
    | .error (.failed what) =>
      .error (if deadline.expired then .expired
        else if deadline.disconnected then .disconnected else .failed what)
  else do
    let json := countJsonBytes fmt names
    let object := objectEnvelope route
    let st ← fetchRows codec maxBytes names json object (startFetch json object) result.rows
    return fetchedResponse codec route fmt execRoute names st

/-- A request that has stopped has set no header. -/
def stopResponse : ResultStop → HttpResponse
  | .overLimit => responseTooLarge newResponse
  | .expired => deadlineExceeded newResponse
  | .disconnected => newResponse
  | .failed what => setJson newResponse 500 (detailJson (jsonEscape what))

/-- What the AFTER middleware makes of a response: a reply, and whether it lets the response pass. -/
abbrev AfterMiddleware := HttpResponse → MiddlewareReply × Bool

def noAfter : AfterMiddleware := fun res => (⟨res.status, res.body, [], false⟩, true)

/-- The chain of a group, with the headers that the BEFORE phase has left in the context. -/
def afterMiddleware {σ : Type} (e : MiddlewareEngine σ) (r : MiddlewareRegistry) (c : MiddlewareContext)
    (authenticated : Bool) (claims : List (Str × Str)) (s : σ) (headers : List (Str × Str)) :
    AfterMiddleware := fun res =>
  (executeQuackapiMiddleware e { c with status := res.status } authenticated claims r .after
    c.groupName s ⟨res.status, res.body, headers, false⟩).2

def runAfter (after : AfterMiddleware) (res : HttpResponse) : HttpResponse :=
  let answer := after res
  let res' := if answer.2 then res else setJson res answer.1.status answer.1.responseBody
  answer.1.responseHeaders.foldl (fun res header => setHeader res header.1 header.2) res'

@[simp] theorem runAfter_noAfter (res : HttpResponse) : runAfter noAfter res = res := rfl

/-- The last look at a response, before it is compressed. -/
def finish (after : AfterMiddleware) (maxBytes : Nat) (expired : Bool) (res : HttpResponse) :
    HttpResponse :=
  let res := runAfter after res
  if expired then deadlineExceeded res
  else if maxBytes < res.body.length then responseTooLarge res
  else res

def handleResultAfter (after : AfterMiddleware) (codec : ResponseCodec V) (serializers : Serializers V)
    (maxBytes : Nat) (deadline : Deadline) (expired : Bool) (route : RouteResponse) (fmt : BodyFormat)
    (execRoute : Bool) (result : QueryResult V) : HttpResponse :=
  finish after maxBytes expired <|
    match buildResult codec serializers maxBytes deadline route fmt execRoute result with
    | .ok res => res
    | .error stop => stopResponse stop

def handleResult (codec : ResponseCodec V) (serializers : Serializers V) (maxBytes : Nat)
    (deadline : Deadline) (expired : Bool) (route : RouteResponse) (fmt : BodyFormat)
    (execRoute : Bool) (result : QueryResult V) : HttpResponse :=
  handleResultAfter noAfter codec serializers maxBytes deadline expired route fmt execRoute result

end

/-- `VARCHAR` values; a native row costs its texts and one byte a value. -/
def varcharCodec : ResponseCodec (Option Str) where
  isNull := Option.isNone
  toText v := v.getD "NULL".toList
  toJson v := (v.map jsonString).getD "null".toList
  rowsBytes rows := rows.foldr (fun row n => row.foldr (fun v n => n + (v.getD []).length + 1) n) 0
  resultBytes columns rows := columns.length + rows.length
  countBytes _ := 8
  deduplicateColumns := id
  blob _ := none
  isNested _ := false

def isSendable (header : Str × Str) : Bool := isFieldValue header.2

theorem headers_setHeader (res : HttpResponse) (name value : Str) :
    (setHeader res name value).headers = res.headers ++ [(name, value)].filter isSendable := by
  unfold setHeader
  by_cases hvalue : isFieldValue value = true
  · have hsend : isSendable (name, value) = true := hvalue
    rw [if_pos hvalue, List.filter_cons_of_pos hsend]
    rfl
  · have hsend : ¬ isSendable (name, value) = true := hvalue
    rw [if_neg hvalue, List.filter_cons_of_neg hsend]
    exact (List.append_nil _).symm

theorem headerValues_setHeader (name : Str) (res : HttpResponse) (key value : Str) :
    headerValues name (setHeader res key value) =
      headerValues name res ++ if isFieldValue value && ciEquals key name then [value] else [] := by
  simp only [headerValues, setHeader]
  cases hv : isFieldValue value with
  | false => simp
  | true => cases hk : ciEquals key name <;> simp [hk]

theorem headerValues_setHeader_ne {name key : Str} (h : ciEquals key name = false)
    (res : HttpResponse) (value : Str) :
    headerValues name (setHeader res key value) = headerValues name res := by
  rw [headerValues_setHeader, h]
  simp

theorem ciEquals_eq {a b : Str} : ciEquals a b = true ↔ lower a = lower b := beq_iff_eq

theorem headerValues_setContent {name : Str} (h : ciEquals contentTypeName name = false)
    (res : HttpResponse) (body contentType : Str) :
    headerValues name (setContent res body contentType) = headerValues name res := by
  -- a header of this name is no content type, so the filter keeps it
  have hkeep : ∀ e : Str × Str, ciEquals e.1 name = true → ciEquals e.1 contentTypeName = false := by
    intro e he
    by_contra hne
    have hct : lower e.1 = lower contentTypeName := ciEquals_eq.mp (by simpa using hne)
    have hname : ciEquals contentTypeName name = true :=
      ciEquals_eq.mpr (hct.symm.trans (ciEquals_eq.mp he))
    rw [h] at hname
    cases hname
  rw [setContent, headerValues_setHeader_ne h]
  simp only [headerValues, List.filter_filter]
  congr 1
  apply List.filter_congr
  intro e _
  cases he : ciEquals e.1 name with
  | false => rfl
  | true => rw [hkeep e he]; rfl

theorem headerValues_contentType (res : HttpResponse) (body contentType : Str) :
    headerValues contentTypeName (setContent res body contentType) =
      if isFieldValue contentType then [contentType] else [] := by
  have hrefl : ciEquals contentTypeName contentTypeName = true := ciEquals_eq.mpr rfl
  rw [setContent, headerValues_setHeader, hrefl]
  simp [headerValues, List.filter_filter]

@[simp] theorem status_setHeader (res : HttpResponse) (name value : Str) :
    (setHeader res name value).status = res.status := by
  unfold setHeader
  split <;> rfl

@[simp] theorem body_setHeader (res : HttpResponse) (name value : Str) :
    (setHeader res name value).body = res.body := by
  unfold setHeader
  split <;> rfl

@[simp] theorem status_setContent (res : HttpResponse) (body contentType : Str) :
    (setContent res body contentType).status = res.status := by
  simp [setContent]

@[simp] theorem body_setContent (res : HttpResponse) (body contentType : Str) :
    (setContent res body contentType).body = body := by
  simp [setContent]

@[simp] theorem status_setJson (res : HttpResponse) (status : Int) (body : Str) :
    (setJson res status body).status = status := by
  simp [setJson]

@[simp] theorem body_setJson (res : HttpResponse) (status : Int) (body : Str) :
    (setJson res status body).body = body := by
  simp [setJson]

theorem headerValues_setCookies_ne {name : Str} (h : ciEquals "Set-Cookie".toList name = false)
    (res : HttpResponse) (cookies : List Str) :
    headerValues name (setCookies res cookies) = headerValues name res := by
  induction cookies generalizing res with
  | nil => rfl
  | cons cookie cookies ih =>
    have hstep := ih (setHeader res "Set-Cookie".toList cookie)
    rw [headerValues_setHeader_ne h] at hstep
    exact hstep

theorem headerValues_setCookies (res : HttpResponse) (cookies : List Str) :
    headerValues "Set-Cookie".toList (setCookies res cookies) =
      headerValues "Set-Cookie".toList res ++ cookies.filter isFieldValue := by
  have hrefl : ciEquals "Set-Cookie".toList "Set-Cookie".toList = true := ciEquals_eq.mpr rfl
  induction cookies generalizing res with
  | nil => simp [setCookies]
  | cons cookie cookies ih =>
    have hstep := ih (setHeader res "Set-Cookie".toList cookie)
    rw [headerValues_setHeader, hrefl] at hstep
    refine hstep.trans ?_
    cases hv : isFieldValue cookie <;> simp [hv]

theorem headerValues_setLocation_ne {name : Str} (h : ciEquals "Location".toList name = false)
    (res : HttpResponse) (location : Str) :
    headerValues name (setLocation res location) = headerValues name res := by
  unfold setLocation
  split
  · rfl
  · exact headerValues_setHeader_ne h res location

theorem headerValues_setLocation (res : HttpResponse) (location : Str) :
    headerValues "Location".toList (setLocation res location) =
      headerValues "Location".toList res ++
        if location.isEmpty then [] else [location].filter isFieldValue := by
  have hrefl : ciEquals "Location".toList "Location".toList = true := ciEquals_eq.mpr rfl
  unfold setLocation
  split
  · simp
  · rw [headerValues_setHeader, hrefl]
    cases hv : isFieldValue location <;> simp [hv]

end Quackapi.Http
