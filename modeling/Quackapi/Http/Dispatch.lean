import Quackapi.Graphql.Mounts
import Quackapi.Http.Routes

/-! What answers a request. The built-in endpoints come first; then one pass over the routes and one
over the streams gather the handler and, for the requests that have none, the methods of the path. -/

namespace Quackapi.Http
open Library Graphql

/-- A request as the HTTP library hands it over; its path is percent-decoded. -/
structure HttpRequest where
  method : Str
  path : Str
  params : List (Str × Str)
  body : Str

structure ServeOptions where
  maxRequestBytes : Int
  corsOrigins : List Str
  healthRoutes : Bool

abbrev Captures := List (Str × Str)

inductive Builtin
  | health | healthz
  | mountQuery (mount : QuackapiGraphqlRoute)
  | mountSchema (mount : QuackapiGraphqlRoute)
  | graphqlQuery | graphqlOptions | graphqlMethodNotAllowed | graphqlSchema
  | openapi | docs | redoc | docsOptions

def isGetOrHead (method : Str) : Bool :=
  decide (method = "GET".toList) || decide (method = "HEAD".toList)

/-- The path is this one, with or without a slash at its end. -/
def isPathOrSlash (path builtin : Str) : Bool :=
  decide (path = builtin) || decide (path = builtin ++ "/".toList)

def healthEndpoint (options : ServeOptions) (method path : Str) : Option Builtin :=
  if options.healthRoutes && isGetOrHead method then
    if path = "/health".toList then some .health
    else if path = "/healthz".toList then some .healthz
    else none
  else none

def mountEndpoint (g : GraphqlState) (method path : Str) : Option Builtin :=
  if method = "POST".toList then (getGraphqlRouteByPath g path method).map .mountQuery
  else if isGetOrHead method then (getGraphqlRouteBySchemaPath g path).map .mountSchema
  else none

def graphqlEndpoint (method path : Str) : Option Builtin :=
  if isPathOrSlash path "/graphql".toList then
    if method = "POST".toList then some .graphqlQuery
    else if method = "OPTIONS".toList then some .graphqlOptions
    else some .graphqlMethodNotAllowed
  else if isGetOrHead method && isPathOrSlash path "/graphql/schema".toList then
    some .graphqlSchema
  else none

def docsEndpoint (method path : Str) : Option Builtin :=
  let openapi := decide (path = "/openapi.json".toList)
  let docs := isPathOrSlash path "/docs".toList
  let redoc := isPathOrSlash path "/redoc".toList
  if isGetOrHead method && openapi then some .openapi
  else if isGetOrHead method && docs then some .docs
  else if isGetOrHead method && redoc then some .redoc
  else if decide (method = "OPTIONS".toList) && (openapi || docs || redoc) then some .docsOptions
  else none

def builtinEndpoint (options : ServeOptions) (g : GraphqlState) (method path : Str) :
    Option Builtin :=
  (healthEndpoint options method path).or <| (mountEndpoint g method path).or <|
    (graphqlEndpoint method path).or (docsEndpoint method path)

structure RouteScan where
  routeMatch : Option (QuackapiRoute × Captures) := none
  streamMatch : Option (QuackapiStream × Captures) := none
  methodsForPath : List Str := []
  pathMatchedOtherMethod : Bool := false
  websocketPath : Bool := false

/-- Unique methods, in the order they are first seen. -/
def addMethod (methods : List Str) (method : Str) : List Str :=
  if methods.contains method then methods else methods ++ [method]

def scanRoute (req : HttpRequest) (a : RouteScan) (route : QuackapiRoute) : RouteScan :=
  match matchPattern route.pattern req.path with
  | none => a
  | some captures =>
    let a := { a with methodsForPath := addMethod a.methodsForPath route.method }
    if route.method = req.method then { a with routeMatch := some (route, captures) }
    else if a.routeMatch.isNone then { a with pathMatchedOtherMethod := true }
    else a

def scanStream (req : HttpRequest) (a : RouteScan) (stream : QuackapiStream) : RouteScan :=
  if stream.transport = .ws then
    { a with websocketPath := a.websocketPath || patternMatches stream.pattern req.path }
  else
    match matchPattern stream.pattern req.path with
    | none => a
    | some captures =>
      let a := { a with methodsForPath := addMethod a.methodsForPath stream.method }
      let free := a.routeMatch.isNone && a.streamMatch.isNone
      if stream.method = req.method then
        if free then { a with streamMatch := some (stream, captures) } else a
      else if free then { a with pathMatchedOtherMethod := true }
      else a

/-- `HEAD` is answered by a `GET` route where it has no route of its own. -/
def scanHeadRoute (req : HttpRequest) (a : RouteScan) (route : QuackapiRoute) : RouteScan :=
  match matchPattern route.pattern req.path with
  | none => a
  | some captures =>
    if route.method = "GET".toList then
      { a with
        routeMatch := some (route, captures)
        methodsForPath := addMethod a.methodsForPath "HEAD".toList }
    else a

/-- The first `GET` stream, which ends the loop. -/
def scanHeadStreams (req : HttpRequest) (a : RouteScan) : List QuackapiStream → RouteScan
  | [] => a
  | stream :: streams =>
    match matchPattern stream.pattern req.path with
    | none => scanHeadStreams req a streams
    | some captures =>
      if stream.method = "GET".toList then
        { a with
          streamMatch := some (stream, captures)
          methodsForPath := addMethod a.methodsForPath "HEAD".toList }
      else scanHeadStreams req a streams

def scanHead (req : HttpRequest) (routes : List QuackapiRoute) (streams : List QuackapiStream)
    (a : RouteScan) : RouteScan :=
  if a.routeMatch.isNone && a.streamMatch.isNone && decide (req.method = "HEAD".toList) then
    let a := routes.foldl (scanHeadRoute req) a
    if a.routeMatch.isNone then scanHeadStreams req a streams else a
  else a

def scanRegistry (req : HttpRequest) (routes : List QuackapiRoute) (streams : List QuackapiStream) :
    RouteScan :=
  scanHead req routes streams <| streams.foldl (scanStream req) <|
    routes.foldl (scanRoute req) {}

def quackapiPayloadMaxLength : Int := 8 * 1024 * 1024

def hardBodyLimit (options : ServeOptions) : Int := max 1 options.maxRequestBytes

def defaultBodyLimit (options : ServeOptions) : Int :=
  min quackapiPayloadMaxLength (hardBodyLimit options)

/-- The limit of a route, or of a handler that is none. -/
def effectiveBodyLimit (options : ServeOptions) (route : Option QuackapiRoute) : Int :=
  let routeBodyLimit :=
    match route with
    | some r => if 0 < r.maxRequestBytes then r.maxRequestBytes else defaultBodyLimit options
    | none => defaultBodyLimit options
  min routeBodyLimit (hardBodyLimit options)

inductive Answer
  | builtin (endpoint : Builtin)
  | route (route : QuackapiRoute) (captures : Captures)
  | stream (stream : QuackapiStream) (captures : Captures)
  | payloadTooLarge
  | preflight (allow : List Str)
  | upgradeRequired
  | redirect (altPath : Str)
  | methodNotAllowed (allow : List Str)
  | notFound

/-- The status of an answer that is no handler's. -/
def Answer.status : Answer → Option Nat
  | .builtin _ | .route _ _ | .stream _ _ => none
  | .payloadTooLarge => some 413
  | .preflight _ => some 204
  | .upgradeRequired => some 426
  | .redirect _ => some 307
  | .methodNotAllowed _ => some 405
  | .notFound => some 404

/-- `HEAD` where there is `GET`, and `OPTIONS` where preflights are accepted. -/
def advertise (options : ServeOptions) (methods : List Str) : List Str :=
  let methods :=
    if methods.contains "GET".toList && !methods.contains "HEAD".toList then
      methods ++ ["HEAD".toList] else methods
  if !options.corsOrigins.isEmpty && !methods.contains "OPTIONS".toList then
    methods ++ ["OPTIONS".toList] else methods

def altPath (path : Str) : Str :=
  if hasTrailingSlash path then stripTrailingSlash path else path ++ "/".toList

/-- Some route or stream of any method takes the path. -/
def pathRegistered (routes : List QuackapiRoute) (streams : List QuackapiStream) (path : Str) :
    Bool :=
  routes.any (fun r => patternMatches r.pattern path) ||
    streams.any fun s => patternMatches s.pattern path

/-- The answer to a request of any method but `OPTIONS`. -/
def answerScan (options : ServeOptions) (routes : List QuackapiRoute)
    (streams : List QuackapiStream) (req : HttpRequest) (a : RouteScan) : Answer :=
  match a.routeMatch, a.streamMatch with
  | some (route, captures), _ => .route route captures
  | none, some (stream, captures) => .stream stream captures
  | none, none =>
    if a.websocketPath then .upgradeRequired
    else if !a.pathMatchedOtherMethod && a.methodsForPath.isEmpty &&
        !decide (req.path = "/".toList) && pathRegistered routes streams (altPath req.path) then
      .redirect (altPath req.path)
    else if a.pathMatchedOtherMethod || !a.methodsForPath.isEmpty then
      .methodNotAllowed (advertise options a.methodsForPath)
    else .notFound

def dispatchRegistry (options : ServeOptions) (routes : List QuackapiRoute)
    (streams : List QuackapiStream) (req : HttpRequest) : Answer :=
  let a := scanRegistry req routes streams
  if effectiveBodyLimit options (a.routeMatch.map Prod.fst) < req.body.length then .payloadTooLarge
  else if req.method = "OPTIONS".toList then
    if !a.methodsForPath.isEmpty || a.pathMatchedOtherMethod then
      if options.corsOrigins.isEmpty then .methodNotAllowed (advertise options a.methodsForPath)
      else .preflight (advertise options a.methodsForPath)
    else .notFound
  else answerScan options routes streams req a

def dispatch (options : ServeOptions) (g : GraphqlState) (s : RouteState) (req : HttpRequest) :
    Answer :=
  match builtinEndpoint options g req.method req.path with
  | some endpoint => .builtin endpoint
  | none => dispatchRegistry options (liveRoutes s) (liveStreams s) req

/-- The routes of a method that take the path, in registry order, with what they capture. -/
def routesFor (routes : List QuackapiRoute) (method path : Str) : List (QuackapiRoute × Captures) :=
  routes.filterMap fun r =>
    if r.method = method then (matchPattern r.pattern path).map (r, ·) else none

/-- The same for the streams that answer ordinary requests. -/
def streamsFor (streams : List QuackapiStream) (method path : Str) :
    List (QuackapiStream × Captures) :=
  streams.filterMap fun s =>
    if s.transport = .sse ∧ s.method = method then (matchPattern s.pattern path).map (s, ·) else none

/-- Some route has the method and takes the path. -/
def RouteMethod (routes : List QuackapiRoute) (path method : Str) : Prop :=
  ∃ r ∈ routes, patternMatches r.pattern path = true ∧ r.method = method

def StreamMethod (streams : List QuackapiStream) (path method : Str) : Prop :=
  ∃ s ∈ streams, s.transport = .sse ∧ patternMatches s.pattern path = true ∧ s.method = method

def WebsocketPath (streams : List QuackapiStream) (path : Str) : Prop :=
  ∃ s ∈ streams, s.transport = .ws ∧ patternMatches s.pattern path = true

theorem mem_addMethod {methods : List Str} {m method : Str} :
    m ∈ addMethod methods method ↔ m ∈ methods ∨ m = method := by
  unfold addMethod
  split
  · next h =>
    have hin := List.contains_iff_mem.mp h
    exact ⟨.inl, fun hm => hm.elim id fun he => he ▸ hin⟩
  · rw [List.mem_append, List.mem_singleton]

theorem nodup_addMethod {methods : List Str} (h : methods.Nodup) (method : Str) :
    (addMethod methods method).Nodup := by
  unfold addMethod
  split
  · exact h
  · next hnot =>
    refine h.append (List.nodup_singleton _) (List.disjoint_singleton.mpr fun hin => ?_)
    exact hnot (List.contains_iff_mem.mpr hin)

theorem patternMatches_of_some {pattern path : Str} {captures : Captures}
    (h : matchPattern pattern path = some captures) : patternMatches pattern path = true := by
  rw [patternMatches, h]
  rfl

theorem patternMatches_of_none {pattern path : Str} (h : matchPattern pattern path = none) :
    patternMatches pattern path = false := by
  rw [patternMatches, h]
  rfl

structure RoutesScanned (req : HttpRequest) (routes : List QuackapiRoute) (a : RouteScan) : Prop where
  routeMatch : a.routeMatch = (routesFor routes req.method req.path).getLast?
  streamMatch : a.streamMatch = none
  methods : ∀ m, m ∈ a.methodsForPath ↔ RouteMethod routes req.path m
  nodup : a.methodsForPath.Nodup
  other : a.pathMatchedOtherMethod = true → a.methodsForPath ≠ []
  websocket : a.websocketPath = false

theorem routesFor_concat (routes : List QuackapiRoute) (r : QuackapiRoute) (method path : Str) :
    routesFor (routes ++ [r]) method path = routesFor routes method path ++
      (if r.method = method then (matchPattern r.pattern path).map (r, ·) else none).toList := by
  rw [routesFor, List.filterMap_append]
  rfl

theorem routeMethod_concat {routes : List QuackapiRoute} {r : QuackapiRoute} {path m : Str} :
    RouteMethod (routes ++ [r]) path m ↔
      RouteMethod routes path m ∨ (patternMatches r.pattern path = true ∧ r.method = m) := by
  simp only [RouteMethod, List.mem_append, List.mem_singleton, or_and_right, exists_or,
    exists_eq_left]

theorem scanRoute_scanned {req : HttpRequest} {routes : List QuackapiRoute} {a : RouteScan}
    (h : RoutesScanned req routes a) (r : QuackapiRoute) :
    RoutesScanned req (routes ++ [r]) (scanRoute req a r) := by
  rcases hmatch : matchPattern r.pattern req.path with _ | captures
  · -- a route that does not take the path changes nothing
    have hscan : scanRoute req a r = a := by
      unfold scanRoute
      rw [hmatch]
    have hnone : patternMatches r.pattern req.path = false := patternMatches_of_none hmatch
    rw [hscan]
    refine ⟨?_, h.streamMatch, fun m => ?_, h.nodup, h.other, h.websocket⟩
    · rw [routesFor_concat, hmatch, Option.map_none, ite_self, Option.toList_none, List.append_nil]
      exact h.routeMatch
    · rw [routeMethod_concat, hnone, h.methods m]
      exact (or_iff_left fun hm => Bool.false_ne_true hm.1).symm
  · have hpath : patternMatches r.pattern req.path = true := patternMatches_of_some hmatch
    have hmethods : ∀ m, m ∈ addMethod a.methodsForPath r.method ↔
        RouteMethod (routes ++ [r]) req.path m := by
      intro m
      rw [mem_addMethod, routeMethod_concat, h.methods m, hpath, eq_comm (a := m)]
      exact or_congr_right (and_iff_right rfl).symm
    have hnodup := nodup_addMethod h.nodup r.method
    have hne : addMethod a.methodsForPath r.method ≠ [] :=
      List.ne_nil_of_mem (mem_addMethod.mpr (.inr rfl))
    have hconcat := routesFor_concat routes r req.method req.path
    by_cases hmethod : r.method = req.method
    · have hscan : scanRoute req a r = { a with
          routeMatch := some (r, captures), methodsForPath := addMethod a.methodsForPath r.method } := by
        simp only [scanRoute, hmatch, if_pos hmethod]
      rw [hscan]
      refine ⟨?_, h.streamMatch, hmethods, hnodup, fun _ => hne, h.websocket⟩
      rw [hconcat, if_pos hmethod, hmatch]
      exact List.getLast?_concat.symm
    · have hsame : routesFor (routes ++ [r]) req.method req.path =
          routesFor routes req.method req.path := by
        rw [hconcat, if_neg hmethod]
        exact List.append_nil _
      have hscan : scanRoute req a r = { a with
          methodsForPath := addMethod a.methodsForPath r.method
          pathMatchedOtherMethod := a.pathMatchedOtherMethod || a.routeMatch.isNone } := by
        simp only [scanRoute, hmatch, if_neg hmethod]
        split
        · next hfree => rw [hfree, Bool.or_true]
        · next hfree => rw [Bool.eq_false_iff.mpr hfree, Bool.or_false]
      rw [hscan]
      refine ⟨?_, h.streamMatch, hmethods, hnodup, fun _ => hne, h.websocket⟩
      rw [hsame]
      exact h.routeMatch

theorem routesScanned (req : HttpRequest) (routes : List QuackapiRoute) :
    RoutesScanned req routes (routes.foldl (scanRoute req) {}) := by
  induction routes using List.reverseRecOn with
  | nil =>
    have hno : ∀ m, ¬ RouteMethod [] req.path m := by
      rintro m ⟨r, hr, _⟩
      cases hr
    exact ⟨rfl, rfl, fun m => iff_of_false List.not_mem_nil (hno m), List.nodup_nil, nofun, rfl⟩
  | append_singleton routes r ih =>
    rw [List.foldl_concat]
    exact scanRoute_scanned ih r

/-- What the passes over the routes and then the streams have gathered. -/
structure RegistryScanned (req : HttpRequest) (routes : List QuackapiRoute)
    (streams : List QuackapiStream) (a : RouteScan) : Prop where
  routeMatch : a.routeMatch = (routesFor routes req.method req.path).getLast?
  streamMatch : a.routeMatch = none →
    a.streamMatch = (streamsFor streams req.method req.path).head?
  streamFree : a.routeMatch ≠ none → a.streamMatch = none
  methods : ∀ m, m ∈ a.methodsForPath ↔
    RouteMethod routes req.path m ∨ StreamMethod streams req.path m
  nodup : a.methodsForPath.Nodup
  other : a.pathMatchedOtherMethod = true → a.methodsForPath ≠ []
  websocket : a.websocketPath = true ↔ WebsocketPath streams req.path

theorem streamsFor_concat (streams : List QuackapiStream) (s : QuackapiStream) (method path : Str) :
    streamsFor (streams ++ [s]) method path = streamsFor streams method path ++
      (if s.transport = .sse ∧ s.method = method then (matchPattern s.pattern path).map (s, ·)
        else none).toList := by
  rw [streamsFor, List.filterMap_append]
  rfl

theorem streamMethod_concat {streams : List QuackapiStream} {s : QuackapiStream} {path m : Str} :
    StreamMethod (streams ++ [s]) path m ↔ StreamMethod streams path m ∨
      (s.transport = .sse ∧ patternMatches s.pattern path = true ∧ s.method = m) := by
  simp only [StreamMethod, List.mem_append, List.mem_singleton, or_and_right, exists_or,
    exists_eq_left]

theorem websocketPath_concat {streams : List QuackapiStream} {s : QuackapiStream} {path : Str} :
    WebsocketPath (streams ++ [s]) path ↔ WebsocketPath streams path ∨
      (s.transport = .ws ∧ patternMatches s.pattern path = true) := by
  simp only [WebsocketPath, List.mem_append, List.mem_singleton, or_and_right, exists_or,
    exists_eq_left]

theorem head?_append_toList {α : Type*} {l : List α} {o : Option α} :
    (l ++ o.toList).head? = l.head?.or o := by
  cases l with
  | nil => cases o <;> rfl
  | cons a l => rfl

theorem streamsFor_concat_of_not {streams : List QuackapiStream} {s : QuackapiStream}
    {method path : Str} (h : ¬ (s.transport = .sse ∧ s.method = method)) :
    streamsFor (streams ++ [s]) method path = streamsFor streams method path := by
  rw [streamsFor_concat, if_neg h]
  exact List.append_nil _

section
variable {req : HttpRequest} {routes : List QuackapiRoute} {streams : List QuackapiStream}
  {a : RouteScan} {s : QuackapiStream}

theorem scanStream_ws_scanned (h : RegistryScanned req routes streams a)
    (htransport : s.transport = .ws) :
    RegistryScanned req routes (streams ++ [s]) (scanStream req a s) := by
  have hscan : scanStream req a s =
      { a with websocketPath := a.websocketPath || patternMatches s.pattern req.path } := by
    rw [scanStream, if_pos htransport]
  have hsse : ¬ s.transport = .sse := by
    rw [htransport]
    exact nofun
  have hsame : streamsFor (streams ++ [s]) req.method req.path =
      streamsFor streams req.method req.path := streamsFor_concat_of_not fun hs => hsse hs.1
  rw [hscan]
  refine ⟨h.routeMatch, fun hfree => ?_, h.streamFree, fun m => ?_, h.nodup, h.other, ?_⟩
  · rw [hsame]
    exact h.streamMatch hfree
  · rw [streamMethod_concat, h.methods m]
    exact or_congr_right (or_iff_left fun hs => hsse hs.1).symm
  · rw [websocketPath_concat, Bool.or_eq_true, h.websocket, htransport]
    exact or_congr_right (and_iff_right rfl).symm

theorem scanStream_sse_scanned (h : RegistryScanned req routes streams a)
    (hsse : s.transport = .sse) :
    RegistryScanned req routes (streams ++ [s]) (scanStream req a s) := by
  have htransport : ¬ s.transport = .ws := by
    rw [hsse]
    exact nofun
  have hws : WebsocketPath (streams ++ [s]) req.path ↔ WebsocketPath streams req.path := by
    rw [websocketPath_concat]
    exact or_iff_left fun hs => htransport hs.1
  rcases hmatch : matchPattern s.pattern req.path with _ | captures
  · have hscan : scanStream req a s = a := by
      simp only [scanStream, if_neg htransport, hmatch]
    have hnone : patternMatches s.pattern req.path = false := patternMatches_of_none hmatch
    rw [hscan]
    refine ⟨h.routeMatch, fun hfree => ?_, h.streamFree, fun m => ?_, h.nodup, h.other,
      h.websocket.trans hws.symm⟩
    · rw [streamsFor_concat, hmatch, Option.map_none, ite_self, Option.toList_none,
        List.append_nil]
      exact h.streamMatch hfree
    · rw [streamMethod_concat, hnone, h.methods m]
      exact or_congr_right (or_iff_left fun hs => Bool.false_ne_true hs.2.1).symm
  · have hpath : patternMatches s.pattern req.path = true := patternMatches_of_some hmatch
    have hmethods : ∀ m, m ∈ addMethod a.methodsForPath s.method ↔
        RouteMethod routes req.path m ∨ StreamMethod (streams ++ [s]) req.path m := by
      intro m
      rw [mem_addMethod, streamMethod_concat, h.methods m, hpath, hsse, eq_comm (a := m), or_assoc]
      simp only [true_and]
    have hnodup := nodup_addMethod h.nodup s.method
    have hne : addMethod a.methodsForPath s.method ≠ [] :=
      List.ne_nil_of_mem (mem_addMethod.mpr (.inr rfl))
    by_cases hmethod : s.method = req.method
    · have hscan : scanStream req a s = { a with
          streamMatch := if a.routeMatch.isNone then a.streamMatch.or (some (s, captures))
            else a.streamMatch
          methodsForPath := addMethod a.methodsForPath s.method } := by
        simp only [scanStream, if_neg htransport, hmatch, if_pos hmethod]
        rcases a.routeMatch with _ | _ <;> rcases a.streamMatch with _ | _ <;> rfl
      rw [hscan]
      refine ⟨h.routeMatch, fun hfree => ?_, fun htaken => ?_, hmethods, hnodup, fun _ => hne,
        h.websocket.trans hws.symm⟩
      · have hfree : a.routeMatch = none := hfree
        have hfor : streamsFor (streams ++ [s]) req.method req.path =
            streamsFor streams req.method req.path ++ (some (s, captures)).toList := by
          rw [streamsFor_concat, if_pos ⟨hsse, hmethod⟩, hmatch]
          rfl
        rw [hfor, head?_append_toList, ← h.streamMatch hfree]
        simp only [hfree, Option.isNone_none, if_true]
      · have htaken : a.routeMatch ≠ none := htaken
        simp only [Option.isNone_iff_eq_none, htaken, if_false]
        exact h.streamFree htaken
    · have hscan : scanStream req a s = { a with
          methodsForPath := addMethod a.methodsForPath s.method
          pathMatchedOtherMethod := a.pathMatchedOtherMethod ||
            (a.routeMatch.isNone && a.streamMatch.isNone) } := by
        simp only [scanStream, if_neg htransport, hmatch, if_neg hmethod]
        split
        · next hfree => rw [hfree, Bool.or_true]
        · next hfree => rw [Bool.eq_false_iff.mpr hfree, Bool.or_false]
      have hsame : streamsFor (streams ++ [s]) req.method req.path =
          streamsFor streams req.method req.path := streamsFor_concat_of_not fun hs => hmethod hs.2
      rw [hscan]
      refine ⟨h.routeMatch, fun hfree => ?_, h.streamFree, hmethods, hnodup, fun _ => hne,
        h.websocket.trans hws.symm⟩
      rw [hsame]
      exact h.streamMatch hfree

theorem scanStream_scanned (h : RegistryScanned req routes streams a) (s : QuackapiStream) :
    RegistryScanned req routes (streams ++ [s]) (scanStream req a s) := by
  rcases ht : s.transport with _ | _
  · exact scanStream_sse_scanned h ht
  · exact scanStream_ws_scanned h ht

end

theorem registryScanned (req : HttpRequest) (routes : List QuackapiRoute)
    (streams : List QuackapiStream) :
    RegistryScanned req routes streams
      (streams.foldl (scanStream req) (routes.foldl (scanRoute req) {})) := by
  induction streams using List.reverseRecOn with
  | nil =>
    have h := routesScanned req routes
    have hno : ∀ m, ¬ StreamMethod [] req.path m := by
      rintro m ⟨s, hs, _⟩
      cases hs
    have hnows : ¬ WebsocketPath [] req.path := by
      rintro ⟨s, hs, _⟩
      cases hs
    refine ⟨h.routeMatch, fun _ => h.streamMatch, fun _ => h.streamMatch, fun m => ?_, h.nodup,
      h.other, ?_⟩
    · rw [List.foldl_nil, h.methods m]
      exact (or_iff_left (hno m)).symm
    · rw [List.foldl_nil, h.websocket]
      exact iff_of_false Bool.false_ne_true hnows
  | append_singleton streams s ih =>
    rw [List.foldl_concat]
    exact scanStream_scanned ih s

inductive Handler
  | route (route : QuackapiRoute) (captures : Captures)
  | stream (stream : QuackapiStream) (captures : Captures)

def routeHandler (routes : List QuackapiRoute) (method path : Str) : Option Handler :=
  (routesFor routes method path).getLast?.map fun p => .route p.1 p.2

def streamHandler (streams : List QuackapiStream) (method path : Str) : Option Handler :=
  (streamsFor streams method path).head?.map fun p => .stream p.1 p.2

/-- The last route of the method that takes the path, else the first stream; for `HEAD` without
either, the same for `GET`. -/
def handlerFor (routes : List QuackapiRoute) (streams : List QuackapiStream) (method path : Str) :
    Option Handler :=
  ((routeHandler routes method path).or (streamHandler streams method path)).or
    (if method = "HEAD".toList then
      (routeHandler routes "GET".toList path).or (streamHandler streams "GET".toList path)
    else none)

def Handler.ofRoute : Handler → Option QuackapiRoute
  | .route r _ => some r
  | .stream _ _ => none

def Handler.answer : Handler → Answer
  | .route r captures => .route r captures
  | .stream s captures => .stream s captures

def RouteScan.handler (a : RouteScan) : Option Handler :=
  (a.routeMatch.map fun p => .route p.1 p.2).or (a.streamMatch.map fun p => .stream p.1 p.2)

theorem scanHeadRoutes_cases (req : HttpRequest) (routes : List QuackapiRoute) (a : RouteScan) :
    (routesFor routes "GET".toList req.path = [] ∧ routes.foldl (scanHeadRoute req) a = a) ∨
    ∃ p, (routesFor routes "GET".toList req.path).getLast? = some p ∧
      (routes.foldl (scanHeadRoute req) a).routeMatch = some p := by
  induction routes using List.reverseRecOn with
  | nil => exact .inl ⟨rfl, rfl⟩
  | append_singleton routes r ih =>
    rw [List.foldl_concat, routesFor_concat]
    rcases hmatch : matchPattern r.pattern req.path with _ | captures
    · have hscan : ∀ b, scanHeadRoute req b r = b := fun b => by
        unfold scanHeadRoute
        rw [hmatch]
      rw [hscan, Option.map_none, ite_self, Option.toList_none, List.append_nil]
      exact ih
    · by_cases hget : r.method = "GET".toList
      · right
        refine ⟨(r, captures), ?_, ?_⟩
        · rw [if_pos hget]
          exact List.getLast?_concat
        · simp only [scanHeadRoute, hmatch, if_pos hget]
      · have hscan : ∀ b, scanHeadRoute req b r = b := fun b => by
          simp only [scanHeadRoute, hmatch, if_neg hget]
        rw [hscan, if_neg hget, Option.toList_none, List.append_nil]
        exact ih

theorem transport_of_get {s : QuackapiStream} (h : s.method = "GET".toList) : s.transport = .sse := by
  rw [s.transport_eq, streamTransportForMethod, h]
  rfl

theorem scanHeadStreams_cases (req : HttpRequest) (streams : List QuackapiStream) (a : RouteScan) :
    (streamsFor streams "GET".toList req.path = [] ∧ scanHeadStreams req a streams = a) ∨
    ∃ p, (streamsFor streams "GET".toList req.path).head? = some p ∧
      (scanHeadStreams req a streams).routeMatch = a.routeMatch ∧
      (scanHeadStreams req a streams).streamMatch = some p := by
  induction streams with
  | nil => exact .inl ⟨rfl, rfl⟩
  | cons s streams ih =>
    have hcons : streamsFor (s :: streams) "GET".toList req.path =
        (if s.transport = .sse ∧ s.method = "GET".toList then
          (matchPattern s.pattern req.path).map (s, ·) else none).toList ++
          streamsFor streams "GET".toList req.path := by
      rw [streamsFor, List.filterMap_cons]
      split
      · next h => rw [h]; rfl
      · next h => rw [h]; rfl
    rcases hmatch : matchPattern s.pattern req.path with _ | captures
    · have hscan : scanHeadStreams req a (s :: streams) = scanHeadStreams req a streams := by
        rw [scanHeadStreams, hmatch]
      rw [hscan, hcons, hmatch, Option.map_none, ite_self]
      exact ih
    · by_cases hget : s.method = "GET".toList
      · have hscan : scanHeadStreams req a (s :: streams) = { a with
            streamMatch := some (s, captures)
            methodsForPath := addMethod a.methodsForPath "HEAD".toList } := by
          simp only [scanHeadStreams, hmatch, if_pos hget]
        refine .inr ⟨(s, captures), ?_, ?_⟩
        · rw [hcons, hmatch, if_pos ⟨transport_of_get hget, hget⟩]
          rfl
        · rw [hscan]
          exact ⟨rfl, rfl⟩
      · have hscan : scanHeadStreams req a (s :: streams) = scanHeadStreams req a streams := by
          simp only [scanHeadStreams, hmatch, if_neg hget]
        rw [hscan, hcons, if_neg fun h => hget h.2]
        exact ih

section
variable {req : HttpRequest} {routes : List QuackapiRoute} {streams : List QuackapiStream}

theorem handler_of_scanned {a : RouteScan} (h : RegistryScanned req routes streams a) :
    a.handler = (routeHandler routes req.method req.path).or
      (streamHandler streams req.method req.path) := by
  rw [RouteScan.handler, routeHandler, ← h.routeMatch]
  rcases hroute : a.routeMatch with _ | p
  · rw [h.streamMatch hroute]
    rfl
  · rfl

theorem scanRegistry_spec (req : HttpRequest) (routes : List QuackapiRoute)
    (streams : List QuackapiStream) :
    (scanRegistry req routes streams).handler =
        handlerFor routes streams req.method req.path ∧
      (handlerFor routes streams req.method req.path = none →
        RegistryScanned req routes streams (scanRegistry req routes streams)) := by
  have hscanned := registryScanned req routes streams
  have hfirst := handler_of_scanned hscanned
  unfold scanRegistry
  generalize streams.foldl (scanStream req) (routes.foldl (scanRoute req) {}) = a at hscanned hfirst
  unfold scanHead handlerFor
  rw [← hfirst]
  split
  · next hhead =>
    rw [Bool.and_eq_true, Bool.and_eq_true, Option.isNone_iff_eq_none, Option.isNone_iff_eq_none,
      decide_eq_true_eq] at hhead
    obtain ⟨⟨hroute, hstream⟩, hmethod⟩ := hhead
    have hnone : a.handler = none := by
      rw [RouteScan.handler, hroute, hstream]
      rfl
    rw [hnone, Option.none_or, if_pos hmethod]
    rcases scanHeadRoutes_cases req routes a with ⟨hempty, heq⟩ | ⟨p, hlast, hp⟩
    · have hgetRoute : routeHandler routes "GET".toList req.path = none := by
        rw [routeHandler, hempty]
        rfl
      simp only [heq, hroute, Option.isNone_none, if_true, hgetRoute, Option.none_or]
      rcases scanHeadStreams_cases req streams a with ⟨hsempty, hseq⟩ | ⟨p, hhead, hr, hp⟩
      · have hgetStream : streamHandler streams "GET".toList req.path = none := by
          rw [streamHandler, hsempty]
          rfl
        rw [hseq, hnone, hgetStream]
        exact ⟨rfl, fun _ => hscanned⟩
      · have hgetStream : streamHandler streams "GET".toList req.path = some (.stream p.1 p.2) := by
          rw [streamHandler, hhead]
          rfl
        rw [hgetStream, RouteScan.handler, hr, hroute, hp]
        exact ⟨rfl, nofun⟩
    · have hgetRoute : routeHandler routes "GET".toList req.path = some (.route p.1 p.2) := by
        rw [routeHandler, hlast]
        rfl
      simp only [hp, Option.isNone_some, Bool.false_eq_true, if_false, hgetRoute, Option.some_or]
      rw [RouteScan.handler, hp]
      exact ⟨rfl, nofun⟩
  · next hhead =>
    rcases hhandler : a.handler with _ | h
    · have hboth : a.routeMatch = none ∧ a.streamMatch = none := by
        rw [RouteScan.handler, Option.or_eq_none_iff, Option.map_eq_none_iff,
          Option.map_eq_none_iff] at hhandler
        exact hhandler
      have hmethod : ¬ req.method = "HEAD".toList := by
        intro hmethod
        rw [hboth.1, hboth.2, decide_eq_true hmethod] at hhead
        exact hhead rfl
      rw [if_neg hmethod]
      exact ⟨rfl, fun _ => hscanned⟩
    · exact ⟨rfl, nofun⟩

end

/-- Some route or stream that answers ordinary requests has the method and takes the path. -/
def PathMethod (routes : List QuackapiRoute) (streams : List QuackapiStream) (path method : Str) :
    Prop :=
  RouteMethod routes path method ∨ StreamMethod streams path method

def PathTaken (routes : List QuackapiRoute) (streams : List QuackapiStream) (path : Str) : Prop :=
  (∃ r ∈ routes, patternMatches r.pattern path = true) ∨
    ∃ s ∈ streams, patternMatches s.pattern path = true

structure Unhandled (options : ServeOptions) (routes : List QuackapiRoute)
    (streams : List QuackapiStream) (path : Str) (answer : Answer) : Prop where
  upgradeRequired : answer.status = some 426 ↔ WebsocketPath streams path
  methodNotAllowed : ¬ WebsocketPath streams path →
    (answer.status = some 405 ↔ ∃ m, PathMethod routes streams path m)
  allow : ∀ methods, answer = .methodNotAllowed methods → methods.Nodup ∧
    ∀ m, m ∈ methods ↔ PathMethod routes streams path m ∨
      (m = "HEAD".toList ∧ PathMethod routes streams path "GET".toList) ∨
      (m = "OPTIONS".toList ∧ options.corsOrigins ≠ [])
  redirect : ¬ WebsocketPath streams path → (¬ ∃ m, PathMethod routes streams path m) →
    (answer.status = some 307 ↔
      path ≠ "/".toList ∧ PathTaken routes streams (altPath path))
  altPath : ∀ alt, answer = .redirect alt → alt = altPath path
  notFound : ¬ WebsocketPath streams path → (¬ ∃ m, PathMethod routes streams path m) →
    ¬ (path ≠ "/".toList ∧ PathTaken routes streams (Http.altPath path)) →
    answer.status = some 404

theorem pathRegistered_iff {routes : List QuackapiRoute} {streams : List QuackapiStream}
    {path : Str} : pathRegistered routes streams path = true ↔ PathTaken routes streams path := by
  rw [pathRegistered, Bool.or_eq_true, List.any_eq_true, List.any_eq_true]
  rfl

theorem addMethod_of_guard (p : Bool) (methods : List Str) (m : Str) :
    (if p && !methods.contains m then methods ++ [m] else methods) =
      if p then addMethod methods m else methods := by
  cases p with
  | false => rfl
  | true =>
    unfold addMethod
    rcases methods.contains m with _ | _
    · rfl
    · rfl

theorem mem_ite_addMethod {p : Bool} {methods : List Str} {m method : Str} :
    (m ∈ if p then addMethod methods method else methods) ↔
      m ∈ methods ∨ (m = method ∧ p = true) := by
  cases p with
  | false => exact (or_iff_left fun h => Bool.false_ne_true h.2).symm
  | true =>
    rw [if_pos rfl, mem_addMethod]
    exact or_congr_right (and_iff_left rfl).symm

theorem mem_advertise {options : ServeOptions} {methods : List Str} {m : Str} :
    m ∈ advertise options methods ↔ m ∈ methods ∨
      (m = "HEAD".toList ∧ "GET".toList ∈ methods) ∨
      (m = "OPTIONS".toList ∧ options.corsOrigins ≠ []) := by
  rw [advertise, addMethod_of_guard, addMethod_of_guard, mem_ite_addMethod, mem_ite_addMethod,
    or_assoc, List.contains_iff_mem, Bool.not_eq_true', List.isEmpty_eq_false_iff]

theorem nodup_advertise {options : ServeOptions} {methods : List Str} (h : methods.Nodup) :
    (advertise options methods).Nodup := by
  have hstep : ∀ (p : Bool) (methods : List Str) (m : Str), methods.Nodup →
      (if p then addMethod methods m else methods).Nodup := by
    intro p methods m h
    cases p with
    | false => exact h
    | true => exact nodup_addMethod h m
  rw [advertise, addMethod_of_guard, addMethod_of_guard]
  exact hstep _ _ _ (hstep _ _ _ h)

section
variable {options : ServeOptions} {routes : List QuackapiRoute} {streams : List QuackapiStream}
  {req : HttpRequest}

/-- A body within the limit of the request's handler. -/
def WithinLimit (options : ServeOptions) (routes : List QuackapiRoute)
    (streams : List QuackapiStream) (req : HttpRequest) : Prop :=
  (req.body.length : Int) ≤ effectiveBodyLimit options
    ((handlerFor routes streams req.method req.path).bind Handler.ofRoute)

theorem ofRoute_handler {a : RouteScan} :
    a.handler.bind Handler.ofRoute = a.routeMatch.map Prod.fst := by
  unfold RouteScan.handler
  rcases a.routeMatch with _ | p
  · rcases a.streamMatch with _ | p
    · rfl
    · rfl
  · rfl

theorem dispatchRegistry_of_within (hbody : WithinLimit options routes streams req)
    (hmethod : req.method ≠ "OPTIONS".toList) :
    dispatchRegistry options routes streams req =
      answerScan options routes streams req (scanRegistry req routes streams) := by
  unfold WithinLimit at hbody
  rw [← (scanRegistry_spec req routes streams).1, ofRoute_handler] at hbody
  unfold dispatchRegistry
  dsimp only
  rw [if_neg (Int.not_lt.mpr hbody), if_neg hmethod]

theorem answerScan_of_handler {a : RouteScan} {h : Handler} (ha : a.handler = some h) :
    answerScan options routes streams req a = h.answer := by
  unfold RouteScan.handler at ha
  unfold answerScan
  rcases hroute : a.routeMatch with _ | p
  · rcases hstream : a.streamMatch with _ | p
    · rw [hroute, hstream] at ha
      cases ha
    · rw [hroute, hstream] at ha
      cases ha
      rfl
  · rw [hroute] at ha
    cases ha
    rfl

theorem answerScan_unhandled {a : RouteScan} (ha : a.handler = none)
    (hscan : RegistryScanned req routes streams a) :
    Unhandled options routes streams req.path (answerScan options routes streams req a) := by
  obtain ⟨hroute, hstream⟩ : a.routeMatch = none ∧ a.streamMatch = none := by
    rw [RouteScan.handler, Option.or_eq_none_iff, Option.map_eq_none_iff,
      Option.map_eq_none_iff] at ha
    exact ha
  have hmethods : a.methodsForPath ≠ [] ↔ ∃ m, PathMethod routes streams req.path m := by
    constructor
    · intro hne
      obtain ⟨m, hm⟩ := List.exists_mem_of_ne_nil _ hne
      exact ⟨m, (hscan.methods m).mp hm⟩
    · rintro ⟨m, hm⟩
      exact List.ne_nil_of_mem ((hscan.methods m).mpr hm)
  unfold answerScan
  rw [hroute, hstream]
  dsimp only
  by_cases hws : WebsocketPath streams req.path
  · rw [if_pos (hscan.websocket.mpr hws)]
    exact ⟨iff_of_true rfl hws, fun h => absurd hws h, nofun, fun h => absurd hws h, nofun,
      fun h => absurd hws h⟩
  have hwebsocket : ¬ a.websocketPath = true := fun h => hws (hscan.websocket.mp h)
  rw [if_neg hwebsocket]
  by_cases hany : ∃ m, PathMethod routes streams req.path m
  · -- The path has methods: whatever the other flag says, they are advertised.
    have hne : a.methodsForPath.isEmpty = false := List.isEmpty_eq_false_iff.mpr (hmethods.mpr hany)
    simp only [hne, Bool.and_false, Bool.false_and, Bool.false_eq_true, if_false, Bool.not_false,
      Bool.or_true, if_true]
    refine ⟨iff_of_false nofun hws, fun _ => iff_of_true rfl hany, ?_, fun _ h => absurd hany h,
      nofun, fun _ h => absurd hany h⟩
    intro methods hallow
    cases hallow
    refine ⟨nodup_advertise hscan.nodup, fun m => ?_⟩
    rw [mem_advertise, hscan.methods, hscan.methods]
    rfl
  · have hempty : a.methodsForPath = [] := not_not.mp fun h => hany (hmethods.mp h)
    have hother : a.pathMatchedOtherMethod = false := by
      rw [Bool.eq_false_iff]
      exact fun h => hscan.other h hempty
    have hcond : (!a.pathMatchedOtherMethod && a.methodsForPath.isEmpty &&
        !decide (req.path = "/".toList) && pathRegistered routes streams (altPath req.path)) = true ↔
          req.path ≠ "/".toList ∧ PathTaken routes streams (altPath req.path) := by
      rw [hother, hempty, ← pathRegistered_iff]
      simp only [Bool.not_false, List.isEmpty_nil, Bool.true_and, Bool.and_eq_true,
        Bool.not_eq_true', decide_eq_false_iff_not, ne_eq]
    by_cases htaken : req.path ≠ "/".toList ∧ PathTaken routes streams (altPath req.path)
    · rw [if_pos (hcond.mpr htaken)]
      refine ⟨iff_of_false nofun hws, fun _ => iff_of_false nofun hany, nofun,
        fun _ _ => iff_of_true rfl htaken, fun alt halt => ?_, fun _ _ hno => absurd htaken hno⟩
      cases halt
      rfl
    · rw [if_neg fun h => htaken (hcond.mp h), hother, hempty]
      exact ⟨iff_of_false nofun hws, fun _ => iff_of_false nofun hany, nofun,
        fun _ _ => iff_of_false nofun htaken, nofun, fun _ _ _ => rfl⟩

end

theorem handlerFor_options (routes : List QuackapiRoute) (streams : List QuackapiStream)
    (path : Str) : handlerFor routes streams "OPTIONS".toList path = none := by
  have hroutes : routesFor routes "OPTIONS".toList path = [] := by
    refine List.filterMap_eq_nil_iff.mpr fun r _ => if_neg fun hmethod => ?_
    have hhttp := r.isHttpMethod
    rw [hmethod] at hhttp
    exact absurd hhttp (by decide)
  have hstreams : streamsFor streams "OPTIONS".toList path = [] := by
    refine List.filterMap_eq_nil_iff.mpr fun s _ => if_neg fun h => ?_
    have hmethod := s.isStreamMethod
    rw [h.2] at hmethod
    exact absurd hmethod (by decide)
  have hroute : routeHandler routes "OPTIONS".toList path = none := by
    rw [routeHandler, hroutes]
    rfl
  have hstream : streamHandler streams "OPTIONS".toList path = none := by
    rw [streamHandler, hstreams]
    rfl
  rw [handlerFor, hroute, hstream, if_neg (by decide)]
  rfl

/-- What answers a request that no built-in endpoint takes, its body within the limit. -/
theorem dispatch_spec {options : ServeOptions} {g : GraphqlState} {s : RouteState}
    {req : HttpRequest} (hbuiltin : builtinEndpoint options g req.method req.path = none)
    (hbody : WithinLimit options (liveRoutes s) (liveStreams s) req) :
    (∀ h, handlerFor (liveRoutes s) (liveStreams s) req.method req.path = some h →
      dispatch options g s req = h.answer) ∧
    (handlerFor (liveRoutes s) (liveStreams s) req.method req.path = none →
      req.method ≠ "OPTIONS".toList →
      Unhandled options (liveRoutes s) (liveStreams s) req.path (dispatch options g s req)) := by
  obtain ⟨hhandler, hscanned⟩ := scanRegistry_spec req (liveRoutes s) (liveStreams s)
  have hdispatch : dispatch options g s req =
      dispatchRegistry options (liveRoutes s) (liveStreams s) req := by
    rw [dispatch, hbuiltin]
  rw [hdispatch]
  constructor
  · intro h hfor
    have hmethod : req.method ≠ "OPTIONS".toList := by
      intro hmethod
      rw [hmethod, handlerFor_options] at hfor
      cases hfor
    rw [dispatchRegistry_of_within hbody hmethod]
    exact answerScan_of_handler (hhandler.trans hfor)
  · intro hfor hmethod
    rw [dispatchRegistry_of_within hbody hmethod]
    exact answerScan_unhandled (hhandler.trans hfor) (hscanned hfor)

/-- `DELETE` of a path that has a `GET` route only. -/
theorem dispatch_spec_items :
    let s := { emptyRoutes with routes := [getRoute "items".toList "/items".toList] }
    let req : HttpRequest := ⟨"DELETE".toList, "/items".toList, [], []⟩
    (dispatch ⟨1024, [], true⟩ emptyGraphql s req).status = some 405 := by
  intro s req
  have hbuiltin : builtinEndpoint ⟨1024, [], true⟩ emptyGraphql req.method req.path = none := rfl
  have hbody : WithinLimit ⟨1024, [], true⟩ (liveRoutes s) (liveStreams s) req := by
    show (0 : Int) ≤ _
    decide
  have hfor : handlerFor (liveRoutes s) (liveStreams s) req.method req.path = none := rfl
  have hspec := (dispatch_spec hbuiltin hbody).2 hfor (by decide)
  have hws : ¬ WebsocketPath (liveStreams s) req.path := by
    rintro ⟨stream, hmem, _⟩
    cases hmem
  refine (hspec.methodNotAllowed hws).mpr ⟨"GET".toList, .inl ?_⟩
  exact ⟨_, List.mem_cons_self, by decide, rfl⟩

end Quackapi.Http
