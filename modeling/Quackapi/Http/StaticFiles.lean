import Quackapi.Http.Dispatch

/-! Files beside the API. The HTTP library looks for a file before it calls a handler, so a hook that
runs first sends to `HandleRequest` what the API is to answer. -/

namespace Quackapi.Http
open Library Graphql

/-- What a path names below the directory; a link may lead out of it. -/
inductive FileStat
  | file (content : Str)
  | dir
  | outside
deriving DecidableEq

/-- The files that exist, by path below `static_dir`. -/
abbrev Disk := Str → Option FileStat

inductive FileAnswer
  | content (content : Str)
  | movedPermanently (location : Str)
  | forbidden
deriving DecidableEq

/-- No prefix of the components climbs above the start; `level` is the depth reached. -/
def validComponents : Nat → List Str → Bool
  | _, [] => true
  | level, component :: rest =>
    if component.contains '\x00' || component.contains '\\' then false
    else if component = ".".toList then validComponents level rest
    else if component = "..".toList then
      match level with
      | 0 => false
      | level + 1 => validComponents level rest
    else validComponents (level + 1) rest

def isValidPath (path : Str) : Bool := validComponents 0 (Params.splitPath path)

/-- The handler of the one mount point, `/`. -/
def handleFileRequest (disk : Disk) (path : Str) : Option FileAnswer :=
  if path.head? = some '/' && isValidPath path then
    match disk (if path.getLast? = some '/' then path ++ "index.html".toList else path) with
    | some .outside => some .forbidden
    | some .dir => some (.movedPermanently (path ++ "/".toList))
    | some (.file content) => some (.content content)
    | none => none
  else none

inductive HandlerResponse
  | handled | unhandled
deriving DecidableEq

structure ServerRequest extends HttpRequest where
  websocketUpgrade : Bool

structure ServerConfig where
  options : ServeOptions
  staticDir : Str
  /-- The upgrades `RejectWebSocket` refuses: no stream, an origin, a policy or a parameter. -/
  refusesUpgrade : HttpRequest → Bool

def rejectWebSocket (config : ServerConfig) (req : ServerRequest) : Bool :=
  req.websocketUpgrade && config.refusesUpgrade req.toHttpRequest

def isBuiltinPath (options : ServeOptions) (path : Str) : Bool :=
  decide (path = "/openapi.json".toList) || decide (path = "/docs".toList) ||
    decide (path = "/docs/".toList) || decide (path = "/redoc".toList) ||
    decide (path = "/redoc/".toList) || decide (path = "/graphql".toList) ||
    decide (path = "/graphql/schema".toList) || decide (path = "/graphql/schema/".toList) ||
    (options.healthRoutes && (decide (path = "/health".toList) || decide (path = "/healthz".toList)))

/-- The method is the handler's, or `HEAD` where the handler has `GET`. -/
def servesMethod (handlerMethod method : Str) : Bool :=
  decide (handlerMethod = method) ||
    (decide (method = "HEAD".toList) && decide (handlerMethod = "GET".toList))

def routeTakes (routes : List QuackapiRoute) (method path : Str) : Bool :=
  routes.any fun route => servesMethod route.method method && patternMatches route.pattern path

def streamTakes (streams : List QuackapiStream) (method path : Str) : Bool :=
  streams.any fun stream => !decide (stream.transport = .ws) &&
    servesMethod stream.method method && patternMatches stream.pattern path

/-- Where it answers `handled` it has called `RejectWebSocket` or `HandleRequest`. -/
def preRouting (config : ServerConfig) (s : RouteState) (req : ServerRequest) : HandlerResponse :=
  if rejectWebSocket config req then .handled
  else if req.websocketUpgrade || !isGetOrHead req.method || config.staticDir.isEmpty then .unhandled
  else if isBuiltinPath config.options req.path then .handled
  else if routeTakes (liveRoutes s) req.method req.path then .handled
  else if streamTakes (liveStreams s) req.method req.path then .handled
  else .unhandled

inductive Served
  | handleRequest (answer : Answer)
  | file (answer : FileAnswer)
  /-- Refused by `RejectWebSocket`, or a session. -/
  | webSocket

/-- The routing of the HTTP library. It reads the body after the hook has run. -/
def serve (config : ServerConfig) (disk : Disk) (g : GraphqlState) (s : RouteState)
    (req : ServerRequest) : Served :=
  if req.websocketUpgrade then .webSocket
  else
    match preRouting config s req with
    | .handled => .handleRequest (dispatch config.options g s { req.toHttpRequest with body := [] })
    | .unhandled =>
      let file :=
        if isGetOrHead req.method && !config.staticDir.isEmpty then handleFileRequest disk req.path
        else none
      match file with
      | some answer => .file answer
      | none => .handleRequest (dispatch config.options g s req.toHttpRequest)

/-- A built-in endpoint, a route or a stream answers. -/
def Answer.FromApi (answer : Answer) : Prop := answer.status = none

/-- A route or a stream of the method takes the path; for `HEAD` one of `GET` will do. -/
def HandlerTakes (routes : List QuackapiRoute) (streams : List QuackapiStream) (method path : Str) :
    Prop :=
  PathMethod routes streams path method ∨
    (method = "HEAD".toList ∧ PathMethod routes streams path "GET".toList)

theorem pathMethod_of_handler {routes : List QuackapiRoute} {streams : List QuackapiStream}
    {method path : Str}
    (h : (routeHandler routes method path).or (streamHandler streams method path) ≠ none) :
    PathMethod routes streams path method := by
  rcases hroutes : routesFor routes method path with _ | ⟨p, ps⟩
  · rcases hstreams : streamsFor streams method path with _ | ⟨p, ps⟩
    · rw [routeHandler, streamHandler, hroutes, hstreams] at h
      exact absurd rfl h
    · have hmem : p ∈ streamsFor streams method path := by
        rw [hstreams]
        exact List.mem_cons_self
      obtain ⟨stream, hstream, hp⟩ := List.mem_filterMap.mp hmem
      rw [Option.ite_none_right_eq_some, Option.map_eq_some_iff] at hp
      obtain ⟨⟨htransport, hmethod⟩, captures, hmatch, -⟩ := hp
      exact .inr ⟨stream, hstream, htransport, patternMatches_of_some hmatch, hmethod⟩
  · have hmem : p ∈ routesFor routes method path := by
      rw [hroutes]
      exact List.mem_cons_self
    obtain ⟨route, hroute, hp⟩ := List.mem_filterMap.mp hmem
    rw [Option.ite_none_right_eq_some, Option.map_eq_some_iff] at hp
    obtain ⟨hmethod, captures, hmatch, -⟩ := hp
    exact .inl ⟨route, hroute, patternMatches_of_some hmatch, hmethod⟩

theorem handlerTakes_of_handlerFor {routes : List QuackapiRoute} {streams : List QuackapiStream}
    {method path : Str} (h : handlerFor routes streams method path ≠ none) :
    HandlerTakes routes streams method path := by
  unfold handlerFor at h
  by_cases hown : (routeHandler routes method path).or (streamHandler streams method path) = none
  · rw [hown, Option.none_or] at h
    by_cases hmethod : method = "HEAD".toList
    · rw [if_pos hmethod] at h
      exact .inr ⟨hmethod, pathMethod_of_handler h⟩
    · rw [if_neg hmethod] at h
      exact absurd rfl h
  · exact .inl (pathMethod_of_handler hown)

theorem servesMethod_iff {handlerMethod method : Str} : servesMethod handlerMethod method = true ↔
    handlerMethod = method ∨ (method = "HEAD".toList ∧ handlerMethod = "GET".toList) := by
  rw [servesMethod, Bool.or_eq_true, Bool.and_eq_true, decide_eq_true_eq, decide_eq_true_eq,
    decide_eq_true_eq]

theorem routeTakes_iff {routes : List QuackapiRoute} {method path : Str} :
    routeTakes routes method path = true ↔ RouteMethod routes path method ∨
      (method = "HEAD".toList ∧ RouteMethod routes path "GET".toList) := by
  simp only [routeTakes, List.any_eq_true, Bool.and_eq_true, servesMethod_iff, RouteMethod]
  constructor
  · rintro ⟨r, hr, hmethod | ⟨hhead, hget⟩, hpath⟩
    · exact .inl ⟨r, hr, hpath, hmethod⟩
    · exact .inr ⟨hhead, r, hr, hpath, hget⟩
  · rintro (⟨r, hr, hpath, hmethod⟩ | ⟨hhead, r, hr, hpath, hget⟩)
    · exact ⟨r, hr, .inl hmethod, hpath⟩
    · exact ⟨r, hr, .inr ⟨hhead, hget⟩, hpath⟩

theorem sse_of_not_ws {s : QuackapiStream} (h : ¬ s.transport = .ws) : s.transport = .sse := by
  rcases ht : s.transport with _ | _
  · rfl
  · exact absurd ht h

theorem streamTakes_iff {streams : List QuackapiStream} {method path : Str} :
    streamTakes streams method path = true ↔ StreamMethod streams path method ∨
      (method = "HEAD".toList ∧ StreamMethod streams path "GET".toList) := by
  have hsse : ∀ s : QuackapiStream, ¬ s.transport = .ws ↔ s.transport = .sse := fun s =>
    ⟨sse_of_not_ws, fun h hws => absurd (h.symm.trans hws) (by decide)⟩
  simp only [streamTakes, List.any_eq_true, Bool.and_eq_true, servesMethod_iff, StreamMethod,
    Bool.not_eq_true', decide_eq_false_iff_not, hsse]
  constructor
  · rintro ⟨s, hs, ⟨htransport, hmethod | ⟨hhead, hget⟩⟩, hpath⟩
    · exact .inl ⟨s, hs, htransport, hpath, hmethod⟩
    · exact .inr ⟨hhead, s, hs, htransport, hpath, hget⟩
  · rintro (⟨s, hs, htransport, hpath, hmethod⟩ | ⟨hhead, s, hs, htransport, hpath, hget⟩)
    · exact ⟨s, hs, ⟨htransport, .inl hmethod⟩, hpath⟩
    · exact ⟨s, hs, ⟨htransport, .inr ⟨hhead, hget⟩⟩, hpath⟩

theorem handlerTakes_iff {routes : List QuackapiRoute} {streams : List QuackapiStream}
    {method path : Str} : HandlerTakes routes streams method path ↔
      routeTakes routes method path = true ∨ streamTakes streams method path = true := by
  rw [HandlerTakes, PathMethod, PathMethod, routeTakes_iff, streamTakes_iff, and_or_left]
  exact or_or_or_comm

section
variable {config : ServerConfig} {g : GraphqlState} {s : RouteState} {req : ServerRequest}

theorem preRouting_iff (hstatic : config.staticDir ≠ []) (hmethod : isGetOrHead req.method = true)
    (hupgrade : req.websocketUpgrade = false) :
    preRouting config s req = .handled ↔ isBuiltinPath config.options req.path = true ∨
      HandlerTakes (liveRoutes s) (liveStreams s) req.method req.path := by
  have hreject : rejectWebSocket config req = false := by
    rw [rejectWebSocket, hupgrade]
    rfl
  have hserves : (req.websocketUpgrade || !isGetOrHead req.method || config.staticDir.isEmpty) =
      false := by
    rw [hupgrade, hmethod, List.isEmpty_eq_false_iff.mpr hstatic]
    rfl
  unfold preRouting
  rw [hreject, hserves, handlerTakes_iff]
  simp only [Bool.false_eq_true, if_false]
  rcases isBuiltinPath config.options req.path with _ | _
  · rcases routeTakes (liveRoutes s) req.method req.path with _ | _
    · rcases streamTakes (liveStreams s) req.method req.path with _ | _
      · decide
      · decide
    · simp
  · simp

/-- What `HandleRequest` answers and the hook does not list: `/graphql/`, and the schema path of a
mount. -/
def Unlisted (g : GraphqlState) (path : Str) : Prop :=
  path = "/graphql/".toList ∨ (isPathOrSlash path "/graphql/schema".toList = false ∧
    ∃ mount ∈ g.graphqlRoutes, normalizeGraphqlMountPath path = schemaPath mount.path)

theorem schemaPath_of_found {path : Str} :
    getGraphqlRouteBySchemaPath g path ≠ none ↔
      ∃ mount ∈ g.graphqlRoutes, normalizeGraphqlMountPath path = schemaPath mount.path := by
  rw [← Option.isSome_iff_ne_none, getGraphqlRouteBySchemaPath, List.find?_isSome]
  simp only [decide_eq_true_eq]

theorem isPathOrSlash_iff {path builtin : Str} :
    isPathOrSlash path builtin = true ↔ path = builtin ∨ path = builtin ++ "/".toList := by
  rw [isPathOrSlash, Bool.or_eq_true, decide_eq_true_eq, decide_eq_true_eq]

theorem isBuiltinPath_iff {options : ServeOptions} {path : Str} :
    isBuiltinPath options path = true ↔ path = "/openapi.json".toList ∨
      isPathOrSlash path "/docs".toList = true ∨ isPathOrSlash path "/redoc".toList = true ∨
      path = "/graphql".toList ∨ isPathOrSlash path "/graphql/schema".toList = true ∨
      (options.healthRoutes = true ∧ (path = "/health".toList ∨ path = "/healthz".toList)) := by
  simp only [isBuiltinPath, isPathOrSlash_iff, Bool.or_eq_true, Bool.and_eq_true,
    decide_eq_true_eq, or_assoc]
  rfl

/-- A `GET` or `HEAD` that a built-in endpoint answers is on the hook's list, or it is one of those
the list lacks. -/
theorem listed_of_builtin {options : ServeOptions} {method path : Str}
    (hmethod : isGetOrHead method = true) (h : builtinEndpoint options g method path ≠ none) :
    isBuiltinPath options path = true ∨ Unlisted g path := by
  rw [isBuiltinPath_iff]
  have hpost : ¬ method = "POST".toList := by
    intro hpost
    rw [hpost] at hmethod
    exact absurd hmethod (by decide)
  by_contra hno
  rw [not_or] at hno
  obtain ⟨hlist, hunlisted⟩ := hno
  simp only [not_or] at hlist
  obtain ⟨hopenapi, hdocs, hredoc, hgraphql, hschema, hhealth⟩ := hlist
  have hhealthEndpoint : healthEndpoint options method path = none := by
    unfold healthEndpoint
    split
    · next hroutes =>
      have hnot := fun hpath => hhealth ⟨(Bool.and_eq_true_iff.mp hroutes).1, hpath⟩
      rw [if_neg fun hpath => hnot (.inl hpath), if_neg fun hpath => hnot (.inr hpath)]
    · rfl
  have hmountEndpoint : mountEndpoint g method path = none := by
    have hfound : getGraphqlRouteBySchemaPath g path = none := by
      by_contra hfound
      exact hunlisted (.inr ⟨Bool.not_eq_true _ ▸ hschema, schemaPath_of_found.mp hfound⟩)
    rw [mountEndpoint, if_neg hpost, if_pos hmethod, hfound]
    rfl
  have hgraphqlEndpoint : graphqlEndpoint method path = none := by
    have hslash : ¬ isPathOrSlash path "/graphql".toList = true := by
      rw [isPathOrSlash_iff]
      rintro (hpath | hpath)
      · exact hgraphql hpath
      · exact hunlisted (.inl hpath)
    rw [graphqlEndpoint, if_neg hslash, if_neg fun hboth => hschema (Bool.and_eq_true_iff.mp hboth).2]
  have hdocsEndpoint : docsEndpoint method path = none := by
    simp only [docsEndpoint, hopenapi, hdocs, hredoc, decide_false, Bool.and_false, Bool.or_false,
      Bool.false_eq_true, if_false]
  rw [builtinEndpoint, hhealthEndpoint, hmountEndpoint, hgraphqlEndpoint, hdocsEndpoint] at h
  exact h rfl

theorem builtin_of_unlisted {options : ServeOptions} {method path : Str}
    (hmethod : isGetOrHead method = true) (h : Unlisted g path) :
    builtinEndpoint options g method path ≠ none := by
  have hpost : ¬ method = "POST".toList := by
    intro hpost
    rw [hpost] at hmethod
    exact absurd hmethod (by decide)
  rw [builtinEndpoint, Ne, Option.or_eq_none_iff, Option.or_eq_none_iff, Option.or_eq_none_iff]
  rintro ⟨-, hmount, hgraphql, -⟩
  rcases h with hslash | ⟨-, hschema⟩
  · have hpath : isPathOrSlash path "/graphql".toList = true := isPathOrSlash_iff.mpr (.inr hslash)
    rw [graphqlEndpoint, if_pos hpath, if_neg hpost] at hgraphql
    split at hgraphql
    · cases hgraphql
    · cases hgraphql
  · rw [mountEndpoint, if_neg hpost, if_pos hmethod, Option.map_eq_none_iff] at hmount
    exact schemaPath_of_found.mpr hschema hmount

theorem ne_schemaPath {path : Str} (h : ¬ "/schema".toList <:+ normalizeGraphqlMountPath path) :
    ¬ ∃ mount ∈ g.graphqlRoutes, normalizeGraphqlMountPath path = schemaPath mount.path := by
  rintro ⟨mount, -, hpath⟩
  rw [hpath] at h
  exact h (List.suffix_append _ _)

theorem not_listed_of_unlisted {options : ServeOptions} {path : Str} (h : Unlisted g path) :
    ¬ isBuiltinPath options path = true := by
  rw [isBuiltinPath_iff]
  simp only [isPathOrSlash_iff]
  rcases h with rfl | ⟨hnot, hschema⟩
  · simp
  · rw [← Bool.not_eq_true, isPathOrSlash_iff] at hnot
    have hother : ∀ other : Str, ¬ "/schema".toList <:+ normalizeGraphqlMountPath other →
        path ≠ other := by
      rintro other hsuffix rfl
      exact ne_schemaPath hsuffix hschema
    rintro (h | (h | h) | (h | h) | h | h | ⟨-, h | h⟩)
    · exact hother _ (by decide) h
    · exact hother _ (by decide) h
    · exact hother _ (by decide) h
    · exact hother _ (by decide) h
    · exact hother _ (by decide) h
    · exact hother _ (by decide) h
    · exact hnot h
    · exact hother _ (by decide) h
    · exact hother _ (by decide) h

end

/-- A request the API would answer is dispatched to it, and its answer depends on no file. -/
structure NotShadowed (config : ServerConfig) (g : GraphqlState) (s : RouteState)
    (req : ServerRequest) : Prop where
  handled : req.websocketUpgrade = false →
    (dispatch config.options g s req.toHttpRequest).FromApi → preRouting config s req = .handled
  sameAnswer : (dispatch config.options g s req.toHttpRequest).FromApi →
    ∀ disk disk', serve config disk g s req = serve config disk' g s req

section
variable {config : ServerConfig} {g : GraphqlState} {s : RouteState} {req : ServerRequest}

theorem serve_of_handled (hupgrade : req.websocketUpgrade = false)
    (hhandled : preRouting config s req = .handled) (disk : Disk) :
    serve config disk g s req =
      .handleRequest (dispatch config.options g s { req.toHttpRequest with body := [] }) := by
  unfold serve
  rw [hupgrade, hhandled]
  rfl

theorem notShadowed_of_handled
    (h : req.websocketUpgrade = false →
      (dispatch config.options g s req.toHttpRequest).FromApi → preRouting config s req = .handled) :
    NotShadowed config g s req := by
  refine ⟨h, fun hapi disk disk' => ?_⟩
  rcases hupgrade : req.websocketUpgrade with _ | _
  · have hhandled := h hupgrade hapi
    rw [serve_of_handled hupgrade hhandled, serve_of_handled hupgrade hhandled]
  · unfold serve
    rw [hupgrade]
    rfl

theorem fromApi_of_builtin (h : builtinEndpoint config.options g req.method req.path ≠ none) :
    (dispatch config.options g s req.toHttpRequest).FromApi := by
  obtain ⟨endpoint, hendpoint⟩ := Option.ne_none_iff_exists'.mp h
  unfold dispatch
  rw [hendpoint]
  rfl

theorem handlerTakes_of_fromApi
    (hbuiltin : builtinEndpoint config.options g req.method req.path = none)
    (hapi : (dispatch config.options g s req.toHttpRequest).FromApi) :
    HandlerTakes (liveRoutes s) (liveStreams s) req.method req.path := by
  apply handlerTakes_of_handlerFor
  rw [← (scanRegistry_spec req.toHttpRequest (liveRoutes s) (liveStreams s)).1]
  intro hnone
  rw [RouteScan.handler, Option.or_eq_none_iff, Option.map_eq_none_iff,
    Option.map_eq_none_iff] at hnone
  unfold dispatch at hapi
  rw [hbuiltin] at hapi
  dsimp only [dispatchRegistry] at hapi
  unfold answerScan at hapi
  rw [hnone.1, hnone.2] at hapi
  dsimp only at hapi
  repeat' split at hapi
  all_goals cases hapi

end

/-- For a `GET` or `HEAD` beside static files: it is not shadowed exactly where the path is not one
that the hook leaves out, unless a route or stream takes that path. -/
theorem static_files_never_shadow (config : ServerConfig) (g : GraphqlState) (s : RouteState)
    (req : ServerRequest) (hstatic : config.staticDir ≠ [])
    (hmethod : isGetOrHead req.method = true) :
    NotShadowed config g s req ↔ (req.websocketUpgrade = false → Unlisted g req.path →
      HandlerTakes (liveRoutes s) (liveStreams s) req.method req.path) := by
  constructor
  · intro h hupgrade hunlisted
    have hapi : (dispatch config.options g s req.toHttpRequest).FromApi :=
      fromApi_of_builtin (builtin_of_unlisted hmethod hunlisted)
    have hhandled := (preRouting_iff hstatic hmethod hupgrade).mp (h.handled hupgrade hapi)
    exact hhandled.resolve_left (not_listed_of_unlisted hunlisted)
  · intro h
    apply notShadowed_of_handled
    intro hupgrade hapi
    rw [preRouting_iff hstatic hmethod hupgrade]
    by_cases hbuiltin : builtinEndpoint config.options g req.method req.path = none
    · exact .inr (handlerTakes_of_fromApi hbuiltin hapi)
    · rcases listed_of_builtin hmethod hbuiltin with hlisted | hunlisted
      · exact .inl hlisted
      · exact .inr (h hupgrade hunlisted)

def staticConfig : ServerConfig := ⟨⟨1024, [], true⟩, "static".toList, fun _ => false⟩

/-- A route wins over the file of its path. -/
theorem static_files_never_shadow_route :
    let s := { emptyRoutes with routes := [getRoute "collision".toList "/collision.txt".toList] }
    let req : ServerRequest := ⟨⟨"GET".toList, "/collision.txt".toList, [], []⟩, false⟩
    NotShadowed staticConfig emptyGraphql s req := by
  intro s req
  refine (static_files_never_shadow staticConfig emptyGraphql s req (by decide) (by decide)).mpr ?_
  intro _ _
  exact .inl (.inl ⟨_, List.mem_cons_self, by decide, rfl⟩)

/-- A file of the name hides the schema of a mount. -/
theorem static_file_shadows_schema :
    let mount : QuackapiGraphqlRoute :=
      { name := "shop".toList, path := "/shop".toList, method := "POST".toList,
        tables := ["items".toList], requireAuth := [], limit := 0 }
    let g : GraphqlState := ⟨[], [mount]⟩
    let req : ServerRequest := ⟨⟨"GET".toList, "/shop/schema".toList, [], []⟩, false⟩
    let disk : Disk := fun path => if path = "/shop/schema".toList then some (.file []) else none
    builtinEndpoint staticConfig.options g req.method req.path = some (.mountSchema mount) ∧
      serve staticConfig disk g emptyRoutes req = .file (.content []) ∧
      ¬ NotShadowed staticConfig g emptyRoutes req := by
  intro mount g req disk
  have hbuiltin : builtinEndpoint staticConfig.options g req.method req.path =
      some (.mountSchema mount) := rfl
  refine ⟨hbuiltin, rfl, fun h => ?_⟩
  have hapi : (dispatch staticConfig.options g emptyRoutes req.toHttpRequest).FromApi := by
    apply fromApi_of_builtin
    rw [hbuiltin]
    exact Option.some_ne_none _
  have hhandled := h.handled rfl hapi
  exact absurd hhandled (by decide)

end Quackapi.Http
