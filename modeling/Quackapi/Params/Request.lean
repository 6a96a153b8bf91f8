import Quackapi.Params.Declared

/-! What a request offers a route's handler: one value a name, whatever its case, from the query
string, the path, the server's own stamps, declared headers and cookies, and the body. -/

namespace Quackapi.Params
open Library

/-- A `case_insensitive_map_t`, as the lookup it offers. -/
def CiMap (α : Type) := Str → Option α

namespace CiMap
variable {α : Type}

def empty : CiMap α := fun _ => none

def find (m : CiMap α) (name : Str) : Option α := m (lower name)

def set (m : CiMap α) (name : Str) (a : α) : CiMap α :=
  fun k => if k = lower name then some a else m k

def setIfAbsent (m : CiMap α) (name : Str) (a : α) : CiMap α :=
  if (m.find name).isSome then m else m.set name a

def setAll (m : CiMap α) (l : List (Str × α)) : CiMap α :=
  l.foldl (fun m p => m.set p.1 p.2) m

theorem find_set (m : CiMap α) (name key : Str) (a : α) :
    (m.set key a).find name = if lower name = lower key then some a else m.find name := rfl

end CiMap

inductive Loc
  | query | path | header | cookie | body | server
deriving DecidableEq, Repr

def Loc.text : Loc → Str
  | .query => "query".toList
  | .path => "path".toList
  | .header => "header".toList
  | .cookie => "cookie".toList
  | .body => "body".toList
  | .server => "server".toList

structure FormFile where
  name : Str
  content : Str
  filename : Str

/-- A request as the HTTP library hands it over, with the captures of the matched pattern and the
identifiers the server gave it. -/
structure Request where
  method : Str
  params : List (Str × Str)
  pathParams : List (Str × Str)
  headers : List (Str × Str)
  body : Str
  formFields : List (Str × Str)
  formFiles : List FormFile
  requestId : Str
  traceId : Str
  spanId : Str

/-- A named parameter of a prepared statement, with the type the planner expects. -/
structure ParamEntry where
  name : Str
  expected : LogicalType

/-- The named parameters of a prepared statement; their names differ by more than case. -/
structure Statement where
  params : List ParamEntry
  distinct : (params.map fun p => lower p.name).Nodup

/-- A handler's SQL: its text, the `$names` the lexer finds outside literals and comments, and what
the policies and the planner make of it for a caller who is authenticated or is not. -/
structure Handler where
  sql : Str
  dollarNames : List Str
  /-- The policies let such a caller run it. -/
  admitted : Bool → Bool
  /-- The statement it prepares, unless that fails. -/
  statement : Bool → Option Statement

structure Route where
  pattern : Str
  params : List ParamSpec
  requireAuth : Str
  bodySchema : Str
  bodyType : Str
  handler : Handler

structure JsonBodyField where
  value : Str
  jsonValue : Str
  explicitNull : Bool

structure BodyEngine extends ParamEngine where
  extractJson : Str → Except Violation (CiMap JsonBodyField)
  validateSchema : Str → Str → Except Violation Unit
  transformBody : Str → Str → Except Violation Value
  hasVariant : Str → Bool
  decodeComponent : Str → Str

def textEngine : BodyEngine where
  castFloating _ _ := none
  castDecimal _ _ _ := none
  castBoolean _ := none
  castOther _ _ := none
  castsToInteger _ := false
  jsonVariant _ := none
  castVariant _ _ := none
  numericLiteral _ := none
  compareFloating _ _ _ := false
  numberText _ := []
  extractJson _ := .ok .empty
  validateSchema _ _ := .ok ()
  transformBody _ _ := .ok .null
  hasVariant _ := false
  decodeComponent s := s

/-- A problem with one parameter, as a 422 answer lists it. -/
structure Issue where
  loc : Loc
  name : Str
  msg : Str
  type : Str
deriving DecidableEq

inductive Refusal
  | notAuthenticated
  | policyDenied
  | internal
  /-- A 422 answer about the body as a whole. -/
  | body (v : Violation)
  /-- A 422 answer that lists parameters. -/
  | invalid (issues : List Issue)

def splitPath (path : Str) : List Str := (path.splitOn '/').filter fun s => !s.isEmpty

def segmentCapture (segment : Str) : Option Str :=
  match segment with
  | ':' :: name => some name
  | '\x7b' :: rest => if rest.getLast? = some '\x7d' then some rest.dropLast else none
  | _ => none

def isPathParam (pattern name : Str) : Bool :=
  (splitPath pattern).any fun s => decide (segmentCapture s = some name)

def claimsPrefix : Str := "claims_".toList

/-- The claim a `$claims_` parameter stands for. -/
def isClaimsParam (name : Str) : Option Str :=
  if name.length ≤ claimsPrefix.length then none
  else if claimsPrefix.isPrefixOf (lower name) then some (name.drop claimsPrefix.length)
  else none

/-- `QuackapiTrim`: surrounding space, and semicolons at the end. -/
def quackapiTrim (s : Str) : Str :=
  ((s.dropWhile isSpace).reverse.dropWhile fun c => isSpace c || c == ';').reverse

def isNameStart (c : Char) : Bool :=
  (decide ('A' ≤ c) && decide (c ≤ 'Z')) || (decide ('a' ≤ c) && decide (c ≤ 'z')) || c == '_'

/-- `QuackapiExecRouteParam`: the handler is one `$name`, whose value is the SQL to run. -/
def execRouteParam (sql : Str) : Option Str :=
  match quackapiTrim sql with
  | '$' :: c :: rest =>
    if isNameStart c && rest.all (fun d => isNameStart d || d.isDigit) &&
        !claimsPrefix.isPrefixOf (lower (c :: rest)) then some (c :: rest)
    else none
  | _ => none

abbrev Provided := CiMap (Loc × Str)

def collectHeaders (headers : List (Str × Str)) : CiMap Str :=
  headers.foldl (fun m p => m.setIfAbsent p.1 p.2) .empty

def paramWireName (spec : ParamSpec) : Str :=
  if !spec.externalName.isEmpty then spec.externalName
  else if spec.source = .header then spec.name.map fun c => if c = '_' then '-' else c
  else spec.name

def trim (s : Str) : Str := ((s.dropWhile isSpace).reverse.dropWhile isSpace).reverse

def stripQuotes (s : Str) : Str :=
  match s with
  | '\x22' :: rest => if rest.getLast? = some '\x22' then rest.dropLast else s
  | _ => s

/-- One `name=value` of a `Cookie` header. -/
def cookiePair (part : Str) : Str × Str :=
  let part := part.dropWhile fun c => c = ' ' || c = '\t'
  (trim (part.takeWhile (· ≠ '=')), stripQuotes (trim ((part.dropWhile (· ≠ '=')).drop 1)))

def parseCookieHeader (header : Str) : CiMap Str :=
  ((header.splitOn ';').map cookiePair).foldl
    (fun m p => if p.1.isEmpty then m else m.setIfAbsent p.1 p.2) .empty

/-- A declared header or cookie gives way to a path capture only. -/
def provideDeclared (headers cookies : CiMap Str) (m : Provided) (spec : ParamSpec) : Provided :=
  let isPath := (m.find spec.name).any fun p => decide (p.1 = .path)
  match spec.source with
  | .query => m
  | .header =>
    match headers.find (paramWireName spec) with
    | some v => if isPath then m else m.set spec.name (.header, v)
    | none => m
  | .cookie =>
    match cookies.find (paramWireName spec) with
    | some v => if isPath then m else m.set spec.name (.cookie, v)
    | none => m

def provideStamps (m : Provided) (req : Request) : Provided :=
  ((m.set "request_id".toList (.server, req.requestId)).set "trace_id".toList
    (.server, req.traceId)).set "span_id".toList (.server, req.spanId)

def providedParams (route : Route) (req : Request) : Provided :=
  let query := CiMap.empty.setAll (req.params.map fun p => (p.1, Loc.query, p.2))
  let path := query.setAll (req.pathParams.map fun p => (p.1, Loc.path, p.2))
  let headers := collectHeaders req.headers
  let cookies := ((headers.find "Cookie".toList).map parseCookieHeader).getD .empty
  route.params.foldl (provideDeclared headers cookies) (provideStamps path req)

def contentTypeMedia (headers : CiMap Str) : Str :=
  match headers.find "Content-Type".toList with
  | none => []
  | some ct => lower (trim (ct.takeWhile (· ≠ ';')))

def isJsonMediaType (media : Str) : Bool :=
  decide (media = "application/json".toList) || "+json".toList.isSuffixOf media

def isFormUrlEncodedMediaType (media : Str) : Bool :=
  decide (media = "application/x-www-form-urlencoded".toList)

def isMultipartMediaType (media : Str) : Bool := "multipart/form-data".toList.isPrefixOf media

def isBodyMethod (method : Str) : Bool :=
  decide (method = "POST".toList) || decide (method = "PUT".toList) ||
    decide (method = "PATCH".toList)

/-- The body is read as JSON: by its media type, or by its first character where none is given. -/
def bodyIsJson (req : Request) : Bool :=
  let media := contentTypeMedia (collectHeaders req.headers)
  isJsonMediaType media ||
    (media.isEmpty && (req.body.head?.any fun c => decide (c = '\x7b' ∨ c = '[')))

def parseFormUrlEncoded (e : BodyEngine) (body : Str) : CiMap Str :=
  ((body.splitOn '&').filter fun pair => !pair.isEmpty).foldl
    (fun m pair =>
      let key := e.decodeComponent (pair.takeWhile (· ≠ '='))
      let value := e.decodeComponent ((pair.dropWhile (· ≠ '=')).drop 1)
      if key.isEmpty then m else m.set key value) .empty

/-- What the request offers: a value a name, the JSON text and nullness of the body's members, and
the body as its declared type. -/
structure Sources where
  provided : Provided
  jsonValues : CiMap Str
  explicitNulls : CiMap Unit
  typedBody : Option Value

/-- What a `$name` of the handler asks of the body. -/
inductive FieldNeed
  | nothing | wholeBody | optionalField | field
deriving DecidableEq

def fieldNeed (route : Route) (provided : Provided) (name : Str) : FieldNeed :=
  if lower name = "body".toList then .wholeBody
  else if (isClaimsParam name).isSome then .nothing
  else if (provided.find name).isSome then .nothing
  else if isPathParam route.pattern name then .nothing
  else
    match findParamSpec route.params name with
    | none => .field
    | some spec =>
      if spec.source = .header ∨ spec.source = .cookie then .nothing
      else if spec.default.isSome then .optionalField
      else .field

def jsonSources (e : BodyEngine) (route : Route) (req : Request) (provided : Provided)
    (needs : List FieldNeed) : Except Violation Sources := do
  let fields ←
    if FieldNeed.optionalField ∈ needs ∨ FieldNeed.field ∈ needs then e.extractJson req.body
    else .ok .empty
  if !route.bodySchema.isEmpty then e.validateSchema route.bodySchema req.body
  let typed ←
    if route.bodyType.isEmpty then .ok none else some <$> e.transformBody route.bodyType req.body
  -- body members fill the names nothing else provides
  let new : CiMap JsonBodyField := fun k => if (provided k).isSome then none else fields k
  let merged : Provided := fun k => (provided k).or ((new k).map fun f => (.body, f.value))
  let jsonValues : CiMap Str := fun k => (new k).map JsonBodyField.jsonValue
  let nulls : CiMap Unit := fun k => (new k).bind fun f => if f.explicitNull then some () else none
  if FieldNeed.wholeBody ∈ needs ∧ merged.find "body".toList = none then
    return ⟨merged.set "body".toList (.body, req.body), jsonValues.set "body".toList req.body, nulls,
      typed⟩
  else return ⟨merged, jsonValues, nulls, typed⟩

def provideWholeBody (m : Provided) (req : Request) (needs : List FieldNeed) : Provided :=
  if FieldNeed.wholeBody ∈ needs then m.setIfAbsent "body".toList (.body, req.body) else m

/-- Form fields stand in for query values too, since the HTTP library merges the form into these. -/
def provideForm (e : BodyEngine) (m : Provided) (req : Request) : Provided :=
  let form := parseFormUrlEncoded e req.body
  fun k =>
    match m k, form k with
    | some (.query, _), some v => some (.body, v)
    | none, some v => some (.body, v)
    | p, _ => p

def provideFile (m : Provided) (file : FormFile) : Provided :=
  ((m.setIfAbsent file.name (.body, file.content)).set (file.name ++ "_filename".toList)
    (.body, file.filename)).setIfAbsent "filename".toList (.body, file.filename)

def provideMultipart (m : Provided) (req : Request) : Provided :=
  let fields := req.formFields.foldl (fun m p => m.setIfAbsent p.1 (.body, p.2)) m
  req.formFiles.foldl provideFile fields

def notADictionary : Violation :=
  ("Input should be a valid dictionary or object to extract fields from".toList,
    "model_attributes_type".toList)

def requestSources (e : BodyEngine) (route : Route) (req : Request) : Except Violation Sources :=
  let provided := providedParams route req
  let media := contentTypeMedia (collectHeaders req.headers)
  let needs := route.handler.dollarNames.map (fieldNeed route provided)
  let declaresBody := !route.bodySchema.isEmpty || !route.bodyType.isEmpty
  let needsBody := declaresBody || decide (FieldNeed.wholeBody ∈ needs ∨ FieldNeed.field ∈ needs)
  if !isBodyMethod req.method then .ok ⟨provided, .empty, .empty, none⟩
  else if bodyIsJson req then
    if req.body.isEmpty && !needsBody then .ok ⟨provided, .empty, .empty, none⟩
    else jsonSources e route req provided needs
  else if isFormUrlEncodedMediaType media || isMultipartMediaType media then
    if declaresBody then
      .error ("BODY SCHEMA and BODY TYPE require JSON".toList, "model_attributes_type".toList)
    else
      let filled :=
        if isFormUrlEncodedMediaType media then provideForm e provided req
        else provideMultipart provided req
      .ok ⟨provideWholeBody filled req needs, .empty, .empty, none⟩
  else if !media.isEmpty && !req.body.isEmpty && needsBody then .error notADictionary
  else if declaresBody then .error notADictionary
  else .ok ⟨provided, .empty, .empty, none⟩

end Quackapi.Params
