import Quackapi.Auth.Verify
import Quackapi.Library.Traverse
import Quackapi.Params.Request

/-! The binding of a route's named parameters: claims from the verified result only, everything else
from the request under its declaration. -/

namespace Quackapi.Params
open Library

structure RouteContext where
  route : Route
  claims : List (Str × Str)
  sources : Sources
  /-- The request has a JSON body for its method. -/
  jsonBody : Bool

inductive ParamOutcome
  /-- A text from the client comes with its value, for the report of a failed execution. -/
  | bound (v : Value) (raw : Option (Loc × Str))
  | invalid (issue : Issue)
  /-- The request is refused at once. -/
  | refused (v : Violation)

def requiredField : Str := "Field required".toList

def shouldBe (t : LogicalType) : Str := "Input should be a valid ".toList ++ t.text

/-- A declared header or cookie, or a query parameter under another name, takes no other source. -/
def lookupParam (ctx : RouteContext) (spec : Option ParamSpec) (name : Str) : Option (Loc × Str) :=
  let provided := ctx.sources.provided
  match spec with
  | none => provided.find name
  | some s =>
    match s.source with
    | .header => (provided.find name).filter fun p => decide (p.1 = .header)
    | .cookie => (provided.find name).filter fun p => decide (p.1 = .cookie)
    | .query =>
      if !s.externalName.isEmpty && !isPathParam ctx.route.pattern name then
        (provided.find s.externalName).filter fun p => decide (p.1 = .query)
      else provided.find name

def missingLoc (ctx : RouteContext) (spec : Option ParamSpec) (name : Str) : Loc :=
  if isPathParam ctx.route.pattern name then .path
  else
    match spec.map ParamSpec.source with
    | some .header => .header
    | some .cookie => .cookie
    | _ => if ctx.jsonBody then .body else .query

inductive Resolved
  | missing (loc : Loc)
  | nullDefault
  | explicitNull (loc : Loc)
  /-- A default brings the value a `VARIANT` parameter takes. -/
  | text (loc : Loc) (raw : Str) (variant : Option Value)

def resolveParam (ctx : RouteContext) (spec : Option ParamSpec) (name : Str) : Resolved :=
  match lookupParam ctx spec name with
  | some (loc, raw) =>
    -- nulls are kept under the parameter's own name, whatever name its value was found under
    if (ctx.sources.explicitNulls.find name).isSome then .explicitNull loc else .text loc raw none
  | none =>
    match spec.bind ParamSpec.default with
    | none => .missing (missingLoc ctx spec name)
    | some .null => .nullDefault
    | some (.literal raw v) => .text (missingLoc ctx spec name) raw (some v)

def ParamSpec.constrained (s : ParamSpec) : Bool :=
  s.ge.isSome || s.gt.isSome || s.le.isSome || s.lt.isSome || s.minLength.isSome ||
    s.maxLength.isSome

def nullAllowed (ctx : RouteContext) (spec : Option ParamSpec) (expected : LogicalType) (loc : Loc) :
    Bool :=
  (decide (loc = .body) && !ctx.route.bodySchema.isEmpty) ||
    (spec.any fun s => decide (s.default = some .null)) ||
    (decide (expected = .variant) && !(spec.any ParamSpec.constrained))

/-- An undeclared parameter of no certain type takes no number that a cast would round. -/
def roundsToInteger (e : ParamEngine) (raw : Str) : Bool :=
  !raw.isEmpty && !isStrictIntegerString raw true && e.castsToInteger raw &&
    raw.any Char.isDigit && raw.any fun c => !c.isDigit && c != '-' && c != '+'

/-- `$body` under a `BODY TYPE` binds the transformed body, not its text. -/
def bindsTypedBody (e : BodyEngine) (ctx : RouteContext) (expected : LogicalType) (name : Str) :
    Bool :=
  let isNested := match expected with
    | .nested _ => true
    | _ => false
  decide (name = "body".toList) && !ctx.route.bodyType.isEmpty &&
    (isNested || (e.hasVariant ctx.route.bodyType && ctx.sources.typedBody.isSome))

def bindTypedBody (e : BodyEngine) (ctx : RouteContext) (expected : LogicalType) (raw : Str) :
    ParamOutcome :=
  let typed : Except Violation Value := match ctx.sources.typedBody with
    | some v => .ok v
    | none => e.transformBody ctx.route.bodyType raw
  match typed with
  | .error v => .refused v
  | .ok v =>
    if expected = LogicalType.unknown then .bound v none
    else
      match e.castVariant v expected with
      | some v => .bound v none
      | none =>
        .refused ("BODY TYPE does not match handler parameter type".toList, "type_error".toList)

/-- The value a text binds, and the value its constraints are checked on. -/
def readParam (e : BodyEngine) (ctx : RouteContext) (expected : LogicalType) (name : Str)
    (loc : Loc) (raw : Str) (defaultVariant : Option Value) : Except Violation (Value × Value) :=
  if expected = .variant then
    match if loc = .body then ctx.sources.jsonValues.find name else none with
    | some json =>
      match e.jsonVariant json with
      | some v => .ok (.variant v, v)
      | none => .error ("Input should be valid JSON".toList, "json_invalid".toList)
    | none =>
      match defaultVariant with
      | some v => .ok (.variant v, v)
      | none => .ok (.variant (.text raw), .text raw)
  else
    match bindParamValue e.toParamEngine raw expected with
    | .ok v => .ok (v, v)
    | .error _ => .error (shouldBe expected, "type_error".toList)

def readConstrained (e : BodyEngine) (ctx : RouteContext) (spec : Option ParamSpec)
    (expected : LogicalType) (name : Str) (loc : Loc) (raw : Str) (defaultVariant : Option Value) :
    Except Violation Value := do
  let (bound, value) ← readParam e ctx expected name loc raw defaultVariant
  match spec with
  | none => return bound
  | some s =>
    checkParamConstraints e.toParamEngine s raw value (decide (expected = .variant))
    return bound

def isDeclared (spec : Option ParamSpec) : Bool := spec.any fun s => !s.typeName.isEmpty

def bindText (e : BodyEngine) (ctx : RouteContext) (spec : Option ParamSpec)
    (expected : LogicalType) (isExecSql : Bool) (name : Str) (loc : Loc) (raw : Str)
    (defaultVariant : Option Value) : ParamOutcome :=
  if !isUtf8 raw then
    .invalid ⟨loc, name, "Input should be valid UTF-8 text".toList, "type_error".toList⟩
  else if isIntegralType expected && !isStrictIntegerString raw (allowsNegative expected) then
    .invalid ⟨loc, name, "Input should be a valid integer".toList, "type_error".toList⟩
  else if !isExecSql && decide (expected = .unknown ∨ expected = .varchar) && !isDeclared spec &&
      roundsToInteger e.toParamEngine raw then
    .invalid ⟨loc, name, "Input should be a valid integer".toList, "type_error".toList⟩
  else if bindsTypedBody e ctx expected name then bindTypedBody e ctx expected raw
  else
    match readConstrained e ctx spec expected name loc raw defaultVariant with
    | .ok v => .bound v (some (loc, raw))
    | .error (msg, type) => .invalid ⟨loc, name, msg, type⟩

def isExecSql (route : Route) (name : Str) : Bool :=
  (execRouteParam route.handler.sql).any fun p => ciEquals name p

/-- The type a parameter is bound as. The parameter of an exec route is SQL text whatever its
declaration says. -/
def expectedType (route : Route) (spec : Option ParamSpec) (p : ParamEntry) : LogicalType :=
  if isExecSql route p.name then .varchar
  else
    match spec with
    | none => p.expected
    | some s => boundType s.typeName p.expected

/-- A claim that is absent binds null, and never fails. -/
def claimValue (claims : List (Str × Str)) (key : Str) : Value :=
  match claims.lookup key with
  | none => .null
  | some v => .text v

def bindRequestParam (e : BodyEngine) (ctx : RouteContext) (p : ParamEntry) : ParamOutcome :=
  let spec := findParamSpec ctx.route.params p.name
  let expected := expectedType ctx.route spec p
  match resolveParam ctx spec p.name with
  | .missing loc => .invalid ⟨loc, p.name, requiredField, "missing".toList⟩
  | .nullDefault => .bound .null none
  | .explicitNull loc =>
    if nullAllowed ctx spec expected loc then .bound .null none
    else .invalid ⟨loc, p.name, shouldBe expected, "type_error".toList⟩
  | .text loc raw variant =>
    bindText e ctx spec expected (isExecSql ctx.route p.name) p.name loc raw variant

def bindParam (e : BodyEngine) (ctx : RouteContext) (p : ParamEntry) : ParamOutcome :=
  match isClaimsParam p.name with
  | some key => .bound (claimValue ctx.claims key) none
  | none => bindRequestParam e ctx p

abbrev Bindings := List (Str × Value)

/-- The loop: it goes on after an issue, so that one answer lists them all. -/
def bindParams (e : BodyEngine) (ctx : RouteContext) :
    List ParamEntry → Except Violation (Bindings × List Issue)
  | [] => .ok ([], [])
  | p :: ps =>
    match bindParam e ctx p with
    | .refused v => .error v
    | .bound v _ => (bindParams e ctx ps).map fun r => ((p.name, v) :: r.1, r.2)
    | .invalid issue => (bindParams e ctx ps).map fun r => (r.1, issue :: r.2)

/-- A handler runs when no parameter has an issue. -/
def bindStatement (e : BodyEngine) (ctx : RouteContext) (ps : List ParamEntry) :
    Except Refusal Bindings :=
  match bindParams e ctx ps with
  | .error v => .error (.body v)
  | .ok (bindings, []) => .ok bindings
  | .ok (_, issue :: issues) => .error (.invalid (issue :: issues))

/-- `CheckAuth`: a route that requires no scheme has no claims, whatever the request carries. -/
def routeAuth (route : Route) (verified : Auth.AuthResult) : Auth.AuthResult :=
  if route.requireAuth.isEmpty then Auth.authOk [] else verified

def routeContext (e : BodyEngine) (route : Route) (claims : List (Str × Str)) (req : Request) :
    Except Refusal RouteContext :=
  match requestSources e route req with
  | .error v => .error (.body v)
  | .ok sources => .ok ⟨route, claims, sources, isBodyMethod req.method && bodyIsJson req⟩

def authenticated (route : Route) (verified : Auth.AuthResult) : Bool :=
  !route.requireAuth.isEmpty && (routeAuth route verified).ok

/-- The parameters a request to the route runs the handler with. -/
def bindRoute (e : BodyEngine) (route : Route) (verified : Auth.AuthResult) (req : Request) :
    Except Refusal Bindings :=
  if !(routeAuth route verified).ok then .error .notAuthenticated
  else if !route.handler.admitted (authenticated route verified) then .error .policyDenied
  else do
    let ctx ← routeContext e route (routeAuth route verified).claims req
    match route.handler.statement (authenticated route verified) with
    | none => throw .internal
    | some st => bindStatement e ctx st.params

def Binds (e : BodyEngine) (ctx : RouteContext) (p : ParamEntry) (v : Value) : Prop :=
  ∃ raw, bindParam e ctx p = .bound v raw

theorem bindParams_ok {e : BodyEngine} {ctx : RouteContext} {ps : List ParamEntry} {b : Bindings}
    (h : bindParams e ctx ps = .ok (b, [])) :
    List.Forall₂ (fun p x => x.1 = p.name ∧ Binds e ctx p x.2) ps b := by
  induction ps generalizing b with
  | nil =>
    cases h
    exact .nil
  | cons p ps ih =>
    simp only [bindParams] at h
    split at h
    · cases h
    · next v raw hp =>
      rcases hrest : bindParams e ctx ps with _ | r <;> rw [hrest] at h
      · cases h
      obtain ⟨b', issues⟩ := r
      cases h
      exact .cons ⟨rfl, raw, hp⟩ (ih hrest)
    · rcases hrest : bindParams e ctx ps with _ | r <;> rw [hrest] at h
      · cases h
      · cases h

theorem bindParams_of_binds {e : BodyEngine} {ctx : RouteContext} {ps : List ParamEntry}
    {b : Bindings} (h : List.Forall₂ (fun p x => x.1 = p.name ∧ Binds e ctx p x.2) ps b) :
    bindParams e ctx ps = .ok (b, []) := by
  induction h with
  | nil => rfl
  | @cons p x ps b hp _ ih =>
    obtain ⟨hname, raw, hp⟩ := hp
    simp only [bindParams, hp, ih, Except.map, ← hname]

theorem bindStatement_ok {e : BodyEngine} {ctx : RouteContext} {ps : List ParamEntry}
    {b : Bindings} :
    bindStatement e ctx ps = .ok b ↔
      List.Forall₂ (fun p x => x.1 = p.name ∧ Binds e ctx p x.2) ps b := by
  unfold bindStatement
  constructor
  · intro h
    split at h
    · cases h
    · next hps =>
      cases h
      exact bindParams_ok hps
    · cases h
  · intro h
    rw [bindParams_of_binds h]

theorem binds_of_mem {e : BodyEngine} {ctx : RouteContext} {ps : List ParamEntry} {b : Bindings}
    (h : bindStatement e ctx ps = .ok b) {p : ParamEntry} (hp : p ∈ ps) :
    ∃ v, Binds e ctx p v := by
  obtain ⟨x, _, _, hbind⟩ := exists_of_mem_left (bindStatement_ok.mp h) hp
  exact ⟨x.2, hbind⟩

theorem param_of_binding {e : BodyEngine} {ctx : RouteContext} {ps : List ParamEntry}
    {b : Bindings} (h : bindStatement e ctx ps = .ok b) {x : Str × Value} (hx : x ∈ b) :
    ∃ p ∈ ps, x.1 = p.name ∧ Binds e ctx p x.2 :=
  exists_of_mem_right (bindStatement_ok.mp h) hx

theorem routeContext_ok {e : BodyEngine} {route : Route} {claims : List (Str × Str)} {req : Request}
    {ctx : RouteContext} (h : routeContext e route claims req = .ok ctx) :
    ctx.route = route ∧ ctx.claims = claims := by
  unfold routeContext at h
  split at h
  · cases h
  · cases h
    exact ⟨rfl, rfl⟩

theorem bindRoute_ok {e : BodyEngine} {route : Route} {verified : Auth.AuthResult} {req : Request}
    {b : Bindings} :
    bindRoute e route verified req = .ok b ↔
      (routeAuth route verified).ok = true ∧
        route.handler.admitted (authenticated route verified) = true ∧
        ∃ ctx st, routeContext e route (routeAuth route verified).claims req = .ok ctx ∧
          route.handler.statement (authenticated route verified) = some st ∧
          bindStatement e ctx st.params = .ok b := by
  unfold bindRoute
  rcases hauth : (routeAuth route verified).ok with _ | _
  · exact iff_of_false (fun h => nomatch h) fun h => nomatch h.1
  rcases hadm : route.handler.admitted (authenticated route verified) with _ | _
  · exact iff_of_false (fun h => nomatch h) fun h => nomatch h.2.1
  simp only [Bool.not_true, Bool.false_eq_true, if_false, bind_eq_ok, true_and]
  refine exists_congr fun ctx => ?_
  rcases route.handler.statement (authenticated route verified) with _ | st
  · refine iff_of_false (fun h => nomatch h.2) ?_
    rintro ⟨_, _, h, _⟩
    cases h
  · simp only [Option.some.injEq, exists_and_left, exists_eq_left']

end Quackapi.Params
