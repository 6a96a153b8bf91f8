import Quackapi.Params.Binding

/-! The other handlers, each with its own loop over the named parameters of what it prepares:
streams, the middleware around a route, and the selections of a GraphQL query. -/

namespace Quackapi.Params
open Library

/-- A loop that returns at the first parameter it cannot bind. -/
def bindEach {ε : Type} (bind : ParamEntry → Except ε Value) (ps : List ParamEntry) :
    Except ε Bindings :=
  ps.mapM fun p => do return (p.name, ← bind p)

theorem bindEach_ok {ε : Type} {bind : ParamEntry → Except ε Value} {ps : List ParamEntry}
    {b : Bindings} :
    bindEach bind ps = .ok b ↔
      List.Forall₂ (fun p x => x.1 = p.name ∧ bind p = .ok x.2) ps b := by
  have hstep : ∀ p : ParamEntry, ∀ x : Str × Value,
      (do return (p.name, ← bind p) : Except ε (Str × Value)) = .ok x ↔
        x.1 = p.name ∧ bind p = .ok x.2 := by
    rintro p ⟨name, v⟩
    simp only [bind_eq_ok, pure_eq_ok, Prod.mk.injEq]
    constructor
    · rintro ⟨w, hw, rfl, rfl⟩
      exact ⟨rfl, hw⟩
    · rintro ⟨rfl, hv⟩
      exact ⟨v, hv, rfl, rfl⟩
  rw [bindEach, mapM_eq_ok]
  simp only [hstep]

inductive StreamTransport
  | sse | ws
deriving DecidableEq, Repr

structure Stream where
  transport : StreamTransport
  pattern : Str
  handler : Handler

/-- The parameter that binds null where the request has none. -/
def StreamTransport.optional : StreamTransport → Str
  | .sse => "last_id".toList
  | .ws => "message".toList

def streamProvidedParams (req : Request) : CiMap Str :=
  ((((CiMap.empty.setAll req.params).setAll req.pathParams).set "request_id".toList
    req.requestId).set "trace_id".toList req.traceId).set "span_id".toList req.spanId

/-- The `Last-Event-ID` header stands in for a missing `last_id`. -/
def withLastEventId (m : CiMap Str) (req : Request) : CiMap Str :=
  if (m.find "last_id".toList).isSome then m
  else
    match (collectHeaders req.headers).find "Last-Event-ID".toList with
    | none => m
    | some id => if id.isEmpty then m else m.set "last_id".toList id

def streamProvided (t : StreamTransport) (req : Request) : CiMap Str :=
  match t with
  | .sse => withLastEventId (streamProvidedParams req) req
  | .ws => streamProvidedParams req

/-- One parameter of `BindStreamParams`; a text that is no UTF-8 ends in an internal error. -/
def bindStreamParam (e : ParamEngine) (s : Stream) (provided : CiMap Str) (p : ParamEntry) :
    Except Refusal Value :=
  let loc := if isPathParam s.pattern p.name then Loc.path else .query
  match provided.find p.name with
  | none =>
    if p.name = s.transport.optional then .ok .null
    else .error (.invalid [⟨loc, p.name, requiredField, "missing".toList⟩])
  | some raw =>
    match bindParamValue e raw p.expected with
    | .ok v => .ok v
    | .error (.invalid msg type) => .error (.invalid [⟨loc, p.name, msg, type⟩])
    | .error .threw => .error .internal

/-- Streams take no authentication. A `HEAD` gets the headers of the stream, and binds nothing. -/
def bindStream (e : ParamEngine) (s : Stream) (req : Request) : Except Refusal Bindings :=
  if !s.handler.admitted false then .error .policyDenied
  else if s.transport = .sse ∧ req.method = "HEAD".toList then .ok []
  else
    match s.handler.statement false with
    | none => .error .internal
    | some st => bindEach (bindStreamParam e s (streamProvided s.transport req)) st.params

/-- A WebSocket client's message is bound as `$message`; one that does not bind changes nothing. -/
def bindMessage (e : ParamEngine) (st : Statement) (b : Bindings) (message : Str) : Bindings :=
  match st.params.find? fun p => decide (p.name = "message".toList) with
  | none => b
  | some p =>
    match bindParamValue e message p.expected with
    | .error _ => b
    | .ok v => b.map fun x => if x.1 = "message".toList then (x.1, v) else x

def bindSession (e : ParamEngine) (s : Stream) (req : Request) (messages : List Str) :
    Except Refusal Bindings :=
  (bindStream e s req).map fun b =>
    match s.transport, s.handler.statement false with
    | .ws, some st => messages.foldl (bindMessage e st) b
    | _, _ => b

structure MiddlewareContext where
  method : Str
  path : Str
  routeName : Str
  groupName : Str
  requestId : Str
  requestBody : Str
  headersJson : Str
  queryJson : Str
  clientIp : Str
  authSubject : Str
  status : Int
  elapsedMs : Int

/-- A string that is no UTF-8 makes the engine's value throw. -/
def textValue (s : Str) : Option Value := if isUtf8 s then some (.text s) else none

def optionalText (s : Str) : Option Value := if s.isEmpty then some .null else textValue s

/-- What a middleware may ask of the request; any other name fails it. -/
def contextValue (c : MiddlewareContext) (name : Str) : Option Value :=
  if name = "request_id".toList then textValue c.requestId
  else if name = "method".toList then textValue c.method
  else if name = "path".toList then textValue c.path
  else if name = "route".toList then textValue c.routeName
  else if name = "group".toList then optionalText c.groupName
  else if name = "client_ip".toList then optionalText c.clientIp
  else if name = "auth_subject".toList then optionalText c.authSubject
  else if name = "headers_json".toList then textValue c.headersJson
  else if name = "query_json".toList then textValue c.queryJson
  else if name = "body".toList then textValue c.requestBody
  else if name = "status".toList then
    some (if c.status = 0 then .null else .number (.integer c.status))
  else if name = "elapsed_ms".toList then some (.number (.integer c.elapsedMs))
  else none

def bindMiddlewareParam (c : MiddlewareContext) (claims : List (Str × Str)) (p : ParamEntry) :
    Except Refusal Value :=
  match isClaimsParam p.name with
  | some key => .ok (claimValue claims key)
  | none =>
    match contextValue c (lower p.name) with
    | some v => .ok v
    | none => .error .internal

/-- `ExecuteQuackapiMiddleware` for one definition; a policy that denies answers 401 here. -/
def bindMiddleware (m : Handler) (c : MiddlewareContext) (authenticated : Bool)
    (claims : List (Str × Str)) : Except Refusal Bindings :=
  if !m.admitted authenticated then .error .notAuthenticated
  else
    match m.statement authenticated with
    | none => .error .internal
    | some st => bindEach (bindMiddlewareParam c claims) st.params

/-- Middleware runs around a route, for a request the route admits. -/
def bindRouteMiddleware (route : Route) (m : Handler) (verified : Auth.AuthResult)
    (c : MiddlewareContext) : Except Refusal Bindings :=
  if !(routeAuth route verified).ok then .error .notAuthenticated
  else if !route.handler.admitted (authenticated route verified) then .error .policyDenied
  else bindMiddleware m c (authenticated route verified) (routeAuth route verified).claims

/-- The built-in endpoint takes no scheme; a mount takes the name of one, or none. -/
structure GraphqlEndpoint where
  builtIn : Bool
  requireAuth : Str
  /-- For a caller who is authenticated or is not, the roots a query selects: each with the
  statement its policies and the planner give, or the error it ends in. -/
  roots : Bool → Str → List (Str × Except Str Statement)

/-- One parameter of `SelectTableJson`: only the policies bring any. -/
def bindSelectParam (claims : Option (List (Str × Str))) (p : ParamEntry) : Except Str Value :=
  if !claimsPrefix.isPrefixOf (lower p.name) then
    .error "unexpected parameter in GraphQL query".toList
  else
    match claims with
    | none => .ok .null
    | some claims => .ok (claimValue claims (p.name.drop claimsPrefix.length))

def queryFailed (root err : Str) : Str :=
  "query failed for '".toList ++ root ++ "': ".toList ++ err

/-- The loop of `ExecuteGraphqlQuery`: what the selections bind up to the first error. -/
def selectRoots (claims : Option (List (Str × Str))) :
    List (Str × Except Str Statement) → Bindings × Option Str
  | [] => ([], none)
  | (_, .error err) :: _ => ([], some err)
  | (root, .ok st) :: roots =>
    match bindEach (bindSelectParam claims) st.params with
    | .error err => ([], some (queryFailed root err))
    | .ok b =>
      let rest := selectRoots claims roots
      (b ++ rest.1, rest.2)

/-- A mount without a scheme keeps an authentication result that nothing has filled. -/
def graphqlAuth (g : GraphqlEndpoint) (verified : Auth.AuthResult) : Auth.AuthResult :=
  if g.builtIn || g.requireAuth.isEmpty then ⟨false, 401, [], [], []⟩ else verified

def graphqlClaims (g : GraphqlEndpoint) (verified : Auth.AuthResult) :
    Option (List (Str × Str)) :=
  if g.builtIn then none else some (graphqlAuth g verified).claims

/-- What the selections of a query bind, also where it ends in an error. -/
def bindGraphql (g : GraphqlEndpoint) (verified : Auth.AuthResult) (query : Str) :
    Except Refusal Bindings :=
  if !(g.builtIn || g.requireAuth.isEmpty) && !verified.ok then .error .notAuthenticated
  else .ok (selectRoots (graphqlClaims g verified) (g.roots (graphqlAuth g verified).ok query)).1

end Quackapi.Params
