import Quackapi.Library.ExceptRules
import Quackapi.Library.Machine
import Quackapi.Library.Upsert
import Quackapi.Http.Pattern
import Quackapi.Params.Handlers

/-! The registry of routes and streams. A registration works on a copy and publishes it at the end;
each operation holds the registry's mutex, so it is one step. -/

namespace Quackapi.Http
open Library

def IsHttpMethod (method : Str) : Bool :=
  ["GET".toList, "POST".toList, "PUT".toList, "DELETE".toList, "PATCH".toList,
    "HEAD".toList].contains method

structure QuackapiRoute extends Params.Route where
  name : Str
  method : Str
  /-- Zero inherits the default limit. -/
  maxRequestBytes : Int
  /-- Of a success; an empty result has one of its own where that is not zero. -/
  status : Int := 200
  emptyStatus : Int := 0
  tags : Str := []
  responseFormat : Str := "json".toList
  responseEnvelope : Str := "array".toList
  isHttpMethod : IsHttpMethod method = true

def streamTransportForMethod (method : Str) : Params.StreamTransport :=
  if method = "WS".toList then .ws else .sse

/-- Streams answer `GET` (Server-Sent Events) or `WS` (WebSocket). -/
structure QuackapiStream extends Params.Stream where
  name : Str
  method : Str
  isStreamMethod : method = "GET".toList ∨ method = "WS".toList
  transport_eq : transport = streamTransportForMethod method

structure RateLimitEntry where
  count : Nat
  expires : Int
deriving DecidableEq, Repr

/-- The published snapshots are made at the first request after the start. -/
structure RouteState where
  routes : List QuackapiRoute
  routesLive : Option (List QuackapiRoute)
  streams : List QuackapiStream
  streamsLive : Option (List QuackapiStream)
  rateLimitEntries : List (Str × RateLimitEntry)

def emptyRoutes : RouteState := ⟨[], none, [], none, []⟩

def plainHandler : Params.Handler where
  sql := "SELECT 1".toList
  dollarNames := []
  admitted _ := true
  statement _ := some ⟨[], List.nodup_nil⟩

/-- A `GET` route without options. -/
def getRoute (name pattern : Str) : QuackapiRoute where
  pattern := pattern
  params := []
  requireAuth := []
  bodySchema := []
  bodyType := []
  handler := plainHandler
  name := name
  method := "GET".toList
  maxRequestBytes := 0
  isHttpMethod := by decide

def rateLimitPrefix (route : Str) : Str :=
  Nat.toDigits 10 route.length ++ ':' :: route ++ "|".toList

def rateLimitKey (route client : Str) : Str := rateLimitPrefix route ++ client

def clearRouteRateLimit (s : RouteState) (route : Str) : RouteState :=
  { s with rateLimitEntries :=
      s.rateLimitEntries.filter fun e => !(rateLimitPrefix route).isPrefixOf e.1 }

def clearRateLimits (s : RouteState) (newRoutes : List QuackapiRoute) : RouteState :=
  newRoutes.foldl (fun s r => clearRouteRateLimit s r.name) s

def publishRoutes (s : RouteState) : RouteState := { s with routesLive := some s.routes }

def liveRoutes (s : RouteState) : List QuackapiRoute := s.routesLive.getD s.routes

def routeExistsMessage (name : Str) : Str :=
  "Route \"".toList ++ name ++ "\" already exists — use CREATE OR REPLACE ROUTE".toList

def routePathMessage (route other : QuackapiRoute) : Str :=
  "Route path \"".toList ++ route.method ++ " ".toList ++ route.pattern ++
    "\" already used by route \"".toList ++ other.name ++ "\"".toList

/-- The scan of the proposed routes: where the route of the new one's name is, unless the new one is
refused. -/
def findExisting (orReplace : Bool) (route : QuackapiRoute) :
    List QuackapiRoute → Nat → Option Nat → Except Str (Option Nat)
  | [], _, existing => .ok existing
  | it :: rest, i, existing =>
    if it.name = route.name then
      if orReplace then findExisting orReplace route rest (i + 1) (some i)
      else .error (routeExistsMessage route.name)
    else if it.method = route.method ∧ it.pattern = route.pattern then
      .error (routePathMessage route it)
    else findExisting orReplace route rest (i + 1) existing

def proposeRoute (orReplace : Bool) (proposed : List QuackapiRoute) (route : QuackapiRoute) :
    Except Str (List QuackapiRoute) := do
  match ← findExisting orReplace route proposed 0 none with
  | none => return proposed ++ [route]
  | some i => return proposed.set i route

def proposeRoutes (orReplace : Bool) : List QuackapiRoute → List QuackapiRoute →
    Except Str (List QuackapiRoute)
  | proposed, [] => .ok proposed
  | proposed, route :: newRoutes => do
    proposeRoutes orReplace (← proposeRoute orReplace proposed route) newRoutes

def addRoutes (s : RouteState) (newRoutes : List QuackapiRoute) (orReplace : Bool) :
    RouteState × Except Str Unit :=
  match proposeRoutes orReplace s.routes newRoutes with
  | .error e => (s, .error e)
  | .ok proposed => (clearRateLimits (publishRoutes { s with routes := proposed }) newRoutes, .ok ())

def addRoute (s : RouteState) (route : QuackapiRoute) (orReplace : Bool) :
    RouteState × Except Str Unit :=
  addRoutes s [route] orReplace

def dropRoute (s : RouteState) (name : Str) : RouteState × Bool :=
  match findKey QuackapiRoute.name name s.routes with
  | some _ =>
    let dropped := publishRoutes { s with routes := eraseKey QuackapiRoute.name name s.routes }
    (clearRouteRateLimit dropped name, true)
  | none => (s, false)

def publishStreams (s : RouteState) : RouteState := { s with streamsLive := some s.streams }

def liveStreams (s : RouteState) : List QuackapiStream := s.streamsLive.getD s.streams

def streamExistsMessage (name : Str) : Str :=
  "Stream \"".toList ++ name ++ "\" already exists — use CREATE OR REPLACE STREAM".toList

def streamPathMessage (stream other : QuackapiStream) : Str :=
  "Stream path \"".toList ++ stream.method ++ " ".toList ++ stream.pattern ++
    "\" already used by stream \"".toList ++ other.name ++ "\"".toList

/-- The first stream in the candidate's place, but for those of a name. -/
def collides (streams : List QuackapiStream) (candidate : QuackapiStream) (ignoreName : Str) :
    Option QuackapiStream :=
  streams.find? fun other => !decide (other.name = ignoreName) &&
    decide (other.method = candidate.method) && decide (other.pattern = candidate.pattern)

def addStream (s : RouteState) (stream : QuackapiStream) (orReplace : Bool) :
    RouteState × Except Str Unit :=
  match findKey QuackapiStream.name stream.name s.streams with
  | some _ =>
    if !orReplace then (s, .error (streamExistsMessage stream.name))
    else
      match collides s.streams stream stream.name with
      | some hit => (s, .error (streamPathMessage stream hit))
      | none =>
        (publishStreams { s with streams := replaceKey QuackapiStream.name stream s.streams }, .ok ())
  | none =>
    match collides s.streams stream [] with
    | some hit => (s, .error (streamPathMessage stream hit))
    | none => (publishStreams { s with streams := s.streams ++ [stream] }, .ok ())

def dropStream (s : RouteState) (name : Str) : RouteState × Bool :=
  match findKey QuackapiStream.name name s.streams with
  | some _ => (publishStreams { s with streams := eraseKey QuackapiStream.name name s.streams }, true)
  | none => (s, false)

inductive RouteAction
  | addRoutes (newRoutes : List QuackapiRoute) (orReplace : Bool)
  | dropRoute (name : Str)
  | addStream (stream : QuackapiStream) (orReplace : Bool)
  | dropStream (name : Str)

/-- An operation throws, or answers whether it found what it was to drop. -/
def routeStep (s : RouteState) : RouteAction → RouteState × Except Str Bool
  | .addRoutes newRoutes orReplace =>
    let r := addRoutes s newRoutes orReplace
    (r.1, r.2.map fun _ => true)
  | .dropRoute name =>
    let r := dropRoute s name
    (r.1, .ok r.2)
  | .addStream stream orReplace =>
    let r := addStream s stream orReplace
    (r.1, r.2.map fun _ => true)
  | .dropStream name =>
    let r := dropStream s name
    (r.1, .ok r.2)

def routeMachine : Machine RouteState RouteAction (Except Str Bool) := ⟨routeStep⟩

@[simp] theorem publishRoutes_routes (s : RouteState) : (publishRoutes s).routes = s.routes := rfl

@[simp] theorem publishRoutes_routesLive (s : RouteState) :
    (publishRoutes s).routesLive = some s.routes := rfl

@[simp] theorem publishStreams_streams (s : RouteState) :
    (publishStreams s).streams = s.streams := rfl

theorem clearRateLimits_eq (s : RouteState) (newRoutes : List QuackapiRoute) :
    clearRateLimits s newRoutes =
      { s with rateLimitEntries := s.rateLimitEntries.filter fun e =>
          newRoutes.all fun r => !(rateLimitPrefix r.name).isPrefixOf e.1 } := by
  induction newRoutes generalizing s with
  | nil =>
    simp only [clearRateLimits, List.foldl_nil, List.all_nil, List.filter_true]
  | cons r newRoutes ih =>
    have hstep : clearRateLimits s (r :: newRoutes) =
        clearRateLimits (clearRouteRateLimit s r.name) newRoutes := rfl
    rw [hstep, ih]
    simp only [clearRouteRateLimit, List.filter_filter, List.all_cons, Bool.and_comm]

theorem isPrefixOf_rateLimitKey (route client : Str) :
    (rateLimitPrefix route).isPrefixOf (rateLimitKey route client) = true :=
  List.isPrefixOf_iff_prefix.mpr ⟨client, rfl⟩

/-- Why a route cannot join the proposed ones: its name is taken, or its method and pattern are. -/
def RouteClash (orReplace : Bool) (route it : QuackapiRoute) : Prop :=
  (it.name = route.name ∧ orReplace = false) ∨
    (it.name ≠ route.name ∧ it.method = route.method ∧ it.pattern = route.pattern)

theorem findExisting_ok {orReplace : Bool} {route : QuackapiRoute} {l : List QuackapiRoute}
    {i : Nat} {existing r : Option Nat} (h : findExisting orReplace route l i existing = .ok r) :
    (∀ it ∈ l, ¬ RouteClash orReplace route it) ∧
      ((route.name ∉ l.map QuackapiRoute.name ∧ r = existing) ∨
        ∃ j, (l[j]?).map QuackapiRoute.name = some route.name ∧ r = some (i + j)) := by
  induction l generalizing i existing with
  | nil =>
    cases h
    exact ⟨nofun, .inl ⟨List.not_mem_nil, rfl⟩⟩
  | cons it l ih =>
    rw [List.forall_mem_cons]
    -- A later route of the name, one place further on.
    have hlater : (∃ j, (l[j]?).map QuackapiRoute.name = some route.name ∧
        r = some (i + 1 + j)) →
        ∃ j, ((it :: l)[j]?).map QuackapiRoute.name = some route.name ∧ r = some (i + j) := by
      rintro ⟨j, hj, rfl⟩
      exact ⟨j + 1, hj, by rw [Nat.add_right_comm, Nat.add_assoc]⟩
    simp only [findExisting] at h
    split at h
    · next hname =>
      split at h
      · next hreplace =>
        obtain ⟨hclash, hr⟩ := ih h
        refine ⟨⟨?_, hclash⟩, .inr ?_⟩
        · rintro (⟨_, hno⟩ | ⟨hne, _⟩)
          · rw [hreplace] at hno
            cases hno
          · exact hne hname
        · rcases hr with ⟨_, rfl⟩ | hr
          · exact ⟨0, congrArg some hname, rfl⟩
          · exact hlater hr
      · cases h
    · next hname =>
      split at h
      · cases h
      · next hpath =>
        obtain ⟨hclash, hr⟩ := ih h
        refine ⟨⟨?_, hclash⟩, ?_⟩
        · rintro (⟨heq, _⟩ | ⟨_, hsame⟩)
          · exact hname heq
          · exact hpath hsame
        · rcases hr with ⟨hn, rfl⟩ | hr
          · left
            rw [List.map_cons, List.mem_cons, not_or]
            exact ⟨⟨fun he => hname he.symm, hn⟩, rfl⟩
          · exact .inr (hlater hr)

theorem findExisting_succeeds {orReplace : Bool} {route : QuackapiRoute} {l : List QuackapiRoute}
    (h : ∀ it ∈ l, ¬ RouteClash orReplace route it) (i : Nat) (existing : Option Nat) :
    ∃ r, findExisting orReplace route l i existing = .ok r := by
  induction l generalizing i existing with
  | nil => exact ⟨existing, rfl⟩
  | cons it l ih =>
    obtain ⟨hit, hl⟩ := List.forall_mem_cons.mp h
    simp only [findExisting]
    split
    · next hname =>
      have hreplace : orReplace = true := by
        by_contra hno
        exact hit (.inl ⟨hname, Bool.eq_false_iff.mpr hno⟩)
      rw [if_pos hreplace]
      exact ih hl _ _
    · next hname =>
      have hpath : ¬ (it.method = route.method ∧ it.pattern = route.pattern) := fun hsame =>
        hit (.inr ⟨hname, hsame⟩)
      rw [if_neg hpath]
      exact ih hl _ _

theorem proposeRoute_eq_ok {orReplace : Bool} {route : QuackapiRoute} {l t : List QuackapiRoute}
    (hl : (l.map QuackapiRoute.name).Nodup) :
    proposeRoute orReplace l route = .ok t ↔
      (∀ it ∈ l, ¬ RouteClash orReplace route it) ∧ t = upsertKey QuackapiRoute.name route l := by
  have hplace : ∀ {r : Option Nat}, findExisting orReplace route l 0 none = .ok r →
      proposeRoute orReplace l route = .ok (upsertKey QuackapiRoute.name route l) := by
    intro r hr
    unfold proposeRoute upsertKey
    rw [hr]
    rcases (findExisting_ok hr).2 with ⟨hn, rfl⟩ | ⟨j, hj, rfl⟩
    · rw [if_neg hn]
      rfl
    · have hmem : route.name ∈ l.map QuackapiRoute.name := by
        obtain ⟨it, hit, hname⟩ := Option.map_eq_some_iff.mp hj
        exact hname ▸ List.mem_map_of_mem (List.mem_of_getElem? hit)
      rw [if_pos hmem, ← set_eq_replaceKey hl hj, Nat.zero_add]
      rfl
  constructor
  · intro h
    obtain ⟨r, hr, _⟩ := bind_eq_ok.mp h
    rw [hplace hr] at h
    cases h
    exact ⟨(findExisting_ok hr).1, rfl⟩
  · rintro ⟨hclash, rfl⟩
    obtain ⟨r, hr⟩ := findExisting_succeeds hclash 0 none
    exact hplace hr

/-- No route of the batch clashes with the routes proposed before it. -/
def Admissible (orReplace : Bool) (l newRoutes : List QuackapiRoute) : Prop :=
  ∀ earlier route later, newRoutes = earlier ++ route :: later →
    ∀ it ∈ upsertAll QuackapiRoute.name l earlier, ¬ RouteClash orReplace route it

theorem admissible_cons {orReplace : Bool} {l newRoutes : List QuackapiRoute}
    {route : QuackapiRoute} :
    Admissible orReplace l (route :: newRoutes) ↔
      (∀ it ∈ l, ¬ RouteClash orReplace route it) ∧
        Admissible orReplace (upsertKey QuackapiRoute.name route l) newRoutes := by
  constructor
  · intro h
    refine ⟨h [] route newRoutes rfl, fun earlier r later hsplit => ?_⟩
    exact h (route :: earlier) r later (congrArg (route :: ·) hsplit)
  · rintro ⟨hroute, hrest⟩ earlier r later hsplit
    rcases List.cons_eq_append_iff.mp hsplit with ⟨rfl, hr⟩ | ⟨earlier, rfl, hrest'⟩
    · cases hr
      exact hroute
    · exact hrest earlier r later hrest'

theorem proposeRoutes_eq_ok {orReplace : Bool} {newRoutes l t : List QuackapiRoute}
    (hl : (l.map QuackapiRoute.name).Nodup) :
    proposeRoutes orReplace l newRoutes = .ok t ↔
      Admissible orReplace l newRoutes ∧ t = upsertAll QuackapiRoute.name l newRoutes := by
  induction newRoutes generalizing l with
  | nil =>
    have hadm : Admissible orReplace l [] := fun earlier route later h => by
      cases earlier <;> cases h
    have hnil : proposeRoutes orReplace l [] = .ok t ↔ l = t := pure_eq_ok
    rw [hnil, and_iff_right hadm, eq_comm]
    rfl
  | cons route newRoutes ih =>
    have hnext := nodup_upsertKey hl route
    rw [proposeRoutes, bind_eq_ok, admissible_cons, and_assoc]
    constructor
    · rintro ⟨l', hl', ht⟩
      obtain ⟨hclash, rfl⟩ := (proposeRoute_eq_ok hl).mp hl'
      exact ⟨hclash, (ih hnext).mp ht⟩
    · rintro ⟨hclash, hrest⟩
      exact ⟨_, (proposeRoute_eq_ok hl).mpr ⟨hclash, rfl⟩, (ih hnext).mpr hrest⟩

end Quackapi.Http
