import Quackapi.Http.Dispatch

/-! The limit on a request's body. The header phase of a connection picks it from the routes alone;
the dispatch checks it again, after the built-in endpoints. -/

namespace Quackapi.Http
open Library Graphql

def routeLimit (options : ServeOptions) (route : QuackapiRoute) : Int :=
  if 0 < route.maxRequestBytes then route.maxRequestBytes else defaultBodyLimit options

/-- The last route of the method that takes the path sets the limit. -/
def limitStep (options : ServeOptions) (method path : Str) (limit : Int) (route : QuackapiRoute) :
    Int :=
  if route.method ≠ method then limit
  else if patternMatches route.pattern path then routeLimit options route
  else limit

def setRequestPayloadLimit (options : ServeOptions) (routes : List QuackapiRoute)
    (req : HttpRequest) : Int :=
  let limit := routes.foldl (limitStep options req.method req.path) (defaultBodyLimit options)
  let headRouteFound := routes.any fun r =>
    decide (r.method = "HEAD".toList) && patternMatches r.pattern req.path
  let limit :=
    if req.method = "HEAD".toList ∧ headRouteFound = false then
      routes.foldl (limitStep options "GET".toList req.path) limit
    else limit
  min limit (hardBodyLimit options)

/-- A connection, or `quackapi_request`, which hands over a body it has already. -/
inductive Entry
  | socket | inProcess
deriving DecidableEq, Repr

/-- A body beyond the header phase's limit is refused before the dispatch. -/
def answerRequest (options : ServeOptions) (g : GraphqlState) (s : RouteState) (entry : Entry)
    (req : HttpRequest) : Answer :=
  if entry = .socket ∧ setRequestPayloadLimit options (liveRoutes s) req < req.body.length then
    .payloadTooLarge
  else dispatch options g s req

/-- The limit that belongs to what takes the request: a route's own, the default for all else. -/
def handlerLimit (options : ServeOptions) (g : GraphqlState) (s : RouteState) (req : HttpRequest) :
    Int :=
  match builtinEndpoint options g req.method req.path with
  | some _ => effectiveBodyLimit options none
  | none => effectiveBodyLimit options
      ((handlerFor (liveRoutes s) (liveStreams s) req.method req.path).bind Handler.ofRoute)

theorem foldl_limitStep (options : ServeOptions) (routes : List QuackapiRoute) (method path : Str)
    (limit : Int) :
    routes.foldl (limitStep options method path) limit =
      (((routesFor routes method path).getLast?.map fun p => routeLimit options p.1)).getD limit := by
  induction routes using List.reverseRecOn with
  | nil => rfl
  | append_singleton routes r ih =>
    rw [List.foldl_concat, routesFor_concat, ih, limitStep]
    by_cases hmethod : r.method = method
    · rw [if_neg (not_not.mpr hmethod), if_pos hmethod]
      rcases hmatch : matchPattern r.pattern path with _ | captures
      · rw [patternMatches_of_none hmatch, if_neg Bool.false_ne_true, Option.map_none,
          Option.toList_none, List.append_nil]
      · rw [patternMatches_of_some hmatch, if_pos rfl, Option.map_some, Option.toList_some,
          List.getLast?_concat]
        rfl
    · rw [if_pos hmethod, if_neg hmethod, Option.toList_none, List.append_nil]

theorem effectiveBodyLimit_eq (options : ServeOptions) (route : Option QuackapiRoute) :
    effectiveBodyLimit options route =
      min ((route.map (routeLimit options)).getD (defaultBodyLimit options))
        (hardBodyLimit options) := by
  cases route with
  | none => rfl
  | some r => rfl

theorem streamHandler_head (streams : List QuackapiStream) (path : Str) :
    streamHandler streams "HEAD".toList path = none := by
  have hnone : streamsFor streams "HEAD".toList path = [] := by
    refine List.filterMap_eq_nil_iff.mpr fun s _ => if_neg fun h => ?_
    have hmethod := s.isStreamMethod
    rw [h.2] at hmethod
    exact absurd hmethod (by decide)
  rw [streamHandler, hnone]
  rfl

theorem routesFor_eq_nil {routes : List QuackapiRoute} {method path : Str} :
    routesFor routes method path = [] ↔
      (routes.any fun r => decide (r.method = method) && patternMatches r.pattern path) = false := by
  rw [routesFor, List.filterMap_eq_nil_iff, List.any_eq_false]
  refine forall₂_congr fun r _ => ?_
  rw [Bool.and_eq_true, decide_eq_true_eq, patternMatches, Option.isSome_iff_ne_none]
  by_cases hmethod : r.method = method
  · rw [if_pos hmethod, Option.map_eq_none_iff, not_and, not_not]
    exact ⟨fun h _ => h, fun h => h hmethod⟩
  · rw [if_neg hmethod]
    exact iff_of_true rfl fun h => hmethod h.1

theorem routeHandler_bind (routes : List QuackapiRoute) (method path : Str) :
    (routeHandler routes method path).bind Handler.ofRoute =
      (routesFor routes method path).getLast?.map Prod.fst := by
  rw [routeHandler]
  cases (routesFor routes method path).getLast? with
  | none => rfl
  | some p => rfl

theorem streamHandler_bind (streams : List QuackapiStream) (method path : Str) :
    (streamHandler streams method path).bind Handler.ofRoute = none := by
  rw [streamHandler]
  cases (streamsFor streams method path).head? with
  | none => rfl
  | some p => rfl

theorem or_bind_ofRoute {a b : Option Handler} (hb : b.bind Handler.ofRoute = none) :
    (a.or b).bind Handler.ofRoute = a.bind Handler.ofRoute := by
  cases a with
  | none => exact hb
  | some h => rfl

theorem setRequestPayloadLimit_eq (options : ServeOptions) (routes : List QuackapiRoute)
    (streams : List QuackapiStream) (req : HttpRequest) :
    setRequestPayloadLimit options routes req = effectiveBodyLimit options
      ((handlerFor routes streams req.method req.path).bind Handler.ofRoute) := by
  rw [effectiveBodyLimit_eq, setRequestPayloadLimit]
  congr 1
  rw [foldl_limitStep, foldl_limitStep]
  have hmap : ∀ method, ((routesFor routes method req.path).getLast?.map fun p =>
      routeLimit options p.1) = ((routeHandler routes method req.path).bind
        Handler.ofRoute).map (routeLimit options) := fun method => by
    rw [routeHandler_bind, Option.map_map]
    rfl
  rw [hmap, hmap]
  by_cases hhead : req.method = "HEAD".toList
  · have hor : handlerFor routes streams req.method req.path =
        (routeHandler routes req.method req.path).or
          ((routeHandler routes "GET".toList req.path).or
            (streamHandler streams "GET".toList req.path)) := by
      rw [handlerFor, if_pos hhead, hhead, streamHandler_head, Option.or_none]
    have hstream := streamHandler_bind streams "GET".toList req.path
    rw [hor]
    rcases hroute : routesFor routes "HEAD".toList req.path with _ | ⟨p, ps⟩
    · have hnone : routeHandler routes req.method req.path = none := by
        rw [hhead, routeHandler, hroute]
        rfl
      rw [if_pos ⟨hhead, routesFor_eq_nil.mp hroute⟩, hnone, Option.none_or,
        or_bind_ofRoute hstream]
      rfl
    · have hfound : ¬ (req.method = "HEAD".toList ∧ (routes.any fun r =>
          decide (r.method = "HEAD".toList) && patternMatches r.pattern req.path) = false) := by
        rintro ⟨_, hany⟩
        rw [routesFor_eq_nil.mpr hany] at hroute
        cases hroute
      rw [if_neg hfound]
      have hsome : ∃ h, routeHandler routes req.method req.path = some h := by
        rw [hhead, routeHandler, hroute, List.getLast?_cons]
        exact ⟨_, rfl⟩
      obtain ⟨h, hsome⟩ := hsome
      rw [hsome]
      rfl
  · rw [if_neg fun h => hhead h.1, handlerFor, if_neg hhead, Option.or_none,
      or_bind_ofRoute (streamHandler_bind streams req.method req.path)]

/-- The header phase picks the limit of what takes the request, and nothing takes a body beyond it. -/
structure OneLimit (options : ServeOptions) (g : GraphqlState) (s : RouteState) (req : HttpRequest) :
    Prop where
  selected : setRequestPayloadLimit options (liveRoutes s) req = handlerLimit options g s req
  refused : ∀ entry, handlerLimit options g s req < req.body.length →
    answerRequest options g s entry req = .payloadTooLarge

section
variable {options : ServeOptions} {g : GraphqlState} {s : RouteState} {req : HttpRequest}

theorem dispatchRegistry_of_beyond {routes : List QuackapiRoute} {streams : List QuackapiStream}
    (hbody : ¬ WithinLimit options routes streams req) :
    dispatchRegistry options routes streams req = .payloadTooLarge := by
  unfold WithinLimit at hbody
  rw [← (scanRegistry_spec req routes streams).1, ofRoute_handler] at hbody
  unfold dispatchRegistry
  exact if_pos (Int.not_le.mp hbody)

theorem oneLimit_of_registry (hbuiltin : builtinEndpoint options g req.method req.path = none) :
    OneLimit options g s req := by
  have hlimit : handlerLimit options g s req = effectiveBodyLimit options
      ((handlerFor (liveRoutes s) (liveStreams s) req.method req.path).bind Handler.ofRoute) := by
    rw [handlerLimit, hbuiltin]
  have hdispatch : dispatch options g s req =
      dispatchRegistry options (liveRoutes s) (liveStreams s) req := by
    rw [dispatch, hbuiltin]
  refine ⟨?_, fun entry hbeyond => ?_⟩
  · rw [hlimit]
    exact setRequestPayloadLimit_eq options _ _ req
  · rw [hlimit] at hbeyond
    rw [answerRequest, hdispatch, dispatchRegistry_of_beyond (Int.not_le.mpr hbeyond), ite_self]

theorem oneLimit_of_builtin {endpoint : Builtin}
    (hbuiltin : builtinEndpoint options g req.method req.path = some endpoint) :
    OneLimit options g s req ↔
      setRequestPayloadLimit options (liveRoutes s) req = effectiveBodyLimit options none ∧
        (req.body.length : Int) ≤ effectiveBodyLimit options none := by
  have hlimit : handlerLimit options g s req = effectiveBodyLimit options none := by
    rw [handlerLimit, hbuiltin]
  have hinProcess : answerRequest options g s .inProcess req = .builtin endpoint := by
    rw [answerRequest, if_neg (fun h => nomatch h.1), dispatch, hbuiltin]
  constructor
  · rintro ⟨hselected, hrefused⟩
    rw [hlimit] at hselected hrefused
    refine ⟨hselected, Int.not_lt.mp fun hbeyond => ?_⟩
    have hanswer := hrefused .inProcess hbeyond
    rw [hinProcess] at hanswer
    cases hanswer
  · rintro ⟨hselected, hwithin⟩
    refine ⟨hselected.trans hlimit.symm, fun _ hbeyond => ?_⟩
    rw [hlimit] at hbeyond
    exact absurd hwithin (Int.not_le.mpr hbeyond)

end

/-- There is one limit where no built-in endpoint takes the request, or where the route it hides
would have the default limit and the body keeps to it. -/
theorem oneLimit_iff (options : ServeOptions) (g : GraphqlState) (s : RouteState)
    (req : HttpRequest) :
    OneLimit options g s req ↔ builtinEndpoint options g req.method req.path = none ∨
      (effectiveBodyLimit options ((handlerFor (liveRoutes s) (liveStreams s) req.method
          req.path).bind Handler.ofRoute) = effectiveBodyLimit options none ∧
        (req.body.length : Int) ≤ effectiveBodyLimit options none) := by
  rcases hbuiltin : builtinEndpoint options g req.method req.path with _ | endpoint
  · exact iff_of_true (oneLimit_of_registry hbuiltin) (.inl rfl)
  · rw [oneLimit_of_builtin hbuiltin, setRequestPayloadLimit_eq options _ (liveStreams s)]
    exact (or_iff_right nofun).symm

/-- A query of three bytes in process, where two are the limit, is answered by `/graphql`. -/
theorem graphql_beyond_limit :
    ¬ OneLimit ⟨2, [], true⟩ emptyGraphql emptyRoutes
      ⟨"POST".toList, "/graphql".toList, [], "abc".toList⟩ := by
  intro h
  have hanswer := h.refused .inProcess (by decide)
  exact absurd hanswer nofun

end Quackapi.Http
