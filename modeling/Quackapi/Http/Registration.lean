import Quackapi.Http.Routes

/-! Registering a batch of routes is atomic, and routes are unique as their texts go. Matching is by
segments, so two routes of different texts may still answer the same requests. -/

namespace Quackapi.Http
open Library

def QuackapiRoute.path (r : QuackapiRoute) : Str × Str := (r.method, r.pattern)

structure RouteState.Valid (s : RouteState) : Prop where
  names : (s.routes.map QuackapiRoute.name).Nodup
  paths : (s.routes.map QuackapiRoute.path).Nodup
  published : liveRoutes s = s.routes

theorem valid_empty : emptyRoutes.Valid := ⟨List.nodup_nil, List.nodup_nil, rfl⟩

theorem paths_upsertKey {orReplace : Bool} {route : QuackapiRoute} {l : List QuackapiRoute}
    (hl : (l.map QuackapiRoute.name).Nodup) (hp : (l.map QuackapiRoute.path).Nodup)
    (hclash : ∀ it ∈ l, ¬ RouteClash orReplace route it) :
    ((upsertKey QuackapiRoute.name route l).map QuackapiRoute.path).Nodup := by
  rw [List.Nodup, List.pairwise_map] at hp ⊢
  refine pairwise_upsertKey hl hp fun it hit hname => ?_
  have hne : it.path ≠ route.path := by
    intro he
    obtain ⟨hmethod, hpattern⟩ := Prod.mk.inj he
    exact hclash it hit (.inr ⟨hname, hmethod, hpattern⟩)
  exact ⟨hne, hne.symm⟩

theorem paths_upsertAll {orReplace : Bool} {newRoutes l : List QuackapiRoute}
    (hl : (l.map QuackapiRoute.name).Nodup) (hp : (l.map QuackapiRoute.path).Nodup)
    (hadm : Admissible orReplace l newRoutes) :
    ((upsertAll QuackapiRoute.name l newRoutes).map QuackapiRoute.path).Nodup := by
  induction newRoutes generalizing l with
  | nil => exact hp
  | cons route newRoutes ih =>
    obtain ⟨hclash, hrest⟩ := admissible_cons.mp hadm
    exact ih (nodup_upsertKey hl route) (paths_upsertKey hl hp hclash) hrest

theorem addRoutes_cases {s : RouteState} (hs : (s.routes.map QuackapiRoute.name).Nodup)
    (newRoutes : List QuackapiRoute) (orReplace : Bool) :
    (¬ Admissible orReplace s.routes newRoutes ∧
      ∃ e, addRoutes s newRoutes orReplace = (s, .error e)) ∨
    (Admissible orReplace s.routes newRoutes ∧
      addRoutes s newRoutes orReplace = (clearRateLimits (publishRoutes
        { s with routes := upsertAll QuackapiRoute.name s.routes newRoutes }) newRoutes, .ok ())) := by
  unfold addRoutes
  rcases hp : proposeRoutes orReplace s.routes newRoutes with e | proposed
  · refine .inl ⟨fun hadm => ?_, e, rfl⟩
    rw [(proposeRoutes_eq_ok hs).mpr ⟨hadm, rfl⟩] at hp
    cases hp
  · obtain ⟨hadm, rfl⟩ := (proposeRoutes_eq_ok hs).mp hp
    exact .inr ⟨hadm, rfl⟩

theorem dropRoute_cases (s : RouteState) (name : Str) :
    dropRoute s name = (clearRouteRateLimit (publishRoutes
        { s with routes := eraseKey QuackapiRoute.name name s.routes }) name, true) ∨
      dropRoute s name = (s, false) := by
  unfold dropRoute
  split
  · exact .inl rfl
  · exact .inr rfl

theorem dropRoute_valid {s : RouteState} (hs : s.Valid) (name : Str) : (dropRoute s name).1.Valid := by
  rcases dropRoute_cases s name with h | h
  · rw [h]
    have hsub : (eraseKey QuackapiRoute.name name s.routes).Sublist s.routes :=
      List.eraseP_sublist
    exact ⟨hs.names.sublist (hsub.map _), hs.paths.sublist (hsub.map _), rfl⟩
  · rw [h]
    exact hs

theorem clearRateLimits_bucket {s : RouteState} {newRoutes : List QuackapiRoute}
    {r : QuackapiRoute} (hr : r ∈ newRoutes) (client : Str) :
    rateLimitKey r.name client ∉ (clearRateLimits s newRoutes).rateLimitEntries.map Prod.fst := by
  intro h
  obtain ⟨e, he, hkey⟩ := List.mem_map.mp h
  rw [clearRateLimits_eq] at he
  have hall := (List.mem_filter.mp he).2
  have hnot := List.all_eq_true.mp hall r hr
  rw [hkey, isPrefixOf_rateLimitKey] at hnot
  cases hnot

theorem addRoutes_valid {s : RouteState} (hs : s.Valid) {newRoutes : List QuackapiRoute}
    {orReplace : Bool} (hadm : Admissible orReplace s.routes newRoutes) :
    (clearRateLimits (publishRoutes
      { s with routes := upsertAll QuackapiRoute.name s.routes newRoutes }) newRoutes).Valid := by
  rw [clearRateLimits_eq]
  exact ⟨nodup_upsertAll hs.names newRoutes, paths_upsertAll hs.names hs.paths hadm, rfl⟩

/-- A batch that is refused changes nothing; one that is accepted leaves a valid registry with the
last route of each of its names, the other routes as they were and no bucket of its own. -/
theorem registration_atomic {s : RouteState} (hs : s.Valid) (newRoutes : List QuackapiRoute)
    (orReplace : Bool) :
    (∀ e, (addRoutes s newRoutes orReplace).2 = .error e →
      (addRoutes s newRoutes orReplace).1.routes = s.routes ∧
      (addRoutes s newRoutes orReplace).1.routesLive = s.routesLive ∧
      (addRoutes s newRoutes orReplace).1.rateLimitEntries = s.rateLimitEntries) ∧
    ((addRoutes s newRoutes orReplace).2 = .ok () →
      (addRoutes s newRoutes orReplace).1.Valid ∧
      (∀ name ∈ newRoutes.map QuackapiRoute.name, ∃ r,
        lastKey QuackapiRoute.name name newRoutes = some r ∧
          r ∈ (addRoutes s newRoutes orReplace).1.routes) ∧
      ((addRoutes s newRoutes orReplace).1.routes.filter
          fun r => !(newRoutes.map QuackapiRoute.name).contains r.name) =
        s.routes.filter (fun r => !(newRoutes.map QuackapiRoute.name).contains r.name) ∧
      ∀ r ∈ newRoutes, ∀ client, rateLimitKey r.name client ∉
        (addRoutes s newRoutes orReplace).1.rateLimitEntries.map Prod.fst) ∧
    ∀ name, (dropRoute s name).1.Valid := by
  refine ⟨?_, ?_, dropRoute_valid hs⟩
  · intro e he
    rcases addRoutes_cases hs.names newRoutes orReplace with ⟨_, e', h⟩ | ⟨_, h⟩
    · rw [h]
      exact ⟨rfl, rfl, rfl⟩
    · rw [h] at he
      cases he
  · intro hok
    rcases addRoutes_cases hs.names newRoutes orReplace with ⟨_, e', h⟩ | ⟨hadm, h⟩
    · rw [h] at hok
      cases hok
    · rw [h]
      refine ⟨addRoutes_valid hs hadm, ?_, ?_, fun r hr => clearRateLimits_bucket hr⟩
      · intro name hname
        rcases hlast : lastKey QuackapiRoute.name name newRoutes with _ | r
        · exact absurd hname (lastKey_eq_none.mp hlast)
        · refine ⟨r, rfl, ?_⟩
          obtain ⟨_, rfl⟩ := lastKey_eq_some hlast
          rw [clearRateLimits_eq]
          exact (mem_upsertAll hs.names).mpr (.inr hlast)
      · rw [clearRateLimits_eq]
        refine filter_upsertAll (fun r hr => ?_) s.routes
        rw [List.contains_iff_mem.mpr hr]
        rfl

/-- A route that is replaced takes its new path and loses its bucket. -/
theorem registration_atomic_items :
    let items := getRoute "items".toList "/items".toList
    let s := { emptyRoutes with
      routes := [items], routesLive := some [items],
      rateLimitEntries := [(rateLimitKey "items".toList "10.0.0.1".toList, ⟨1, 60⟩)] }
    (addRoutes s [getRoute "items".toList "/all".toList] true).1.Valid ∧
      rateLimitKey "items".toList "10.0.0.1".toList ∉
        (addRoutes s [getRoute "items".toList "/all".toList] true).1.rateLimitEntries.map Prod.fst := by
  intro items s
  have hs : s.Valid := ⟨List.nodup_singleton _, List.nodup_singleton _, rfl⟩
  obtain ⟨hvalid, _, _, hbuckets⟩ :=
    (registration_atomic hs [getRoute "items".toList "/all".toList] true).2.1 rfl
  exact ⟨hvalid, hbuckets (getRoute "items".toList "/all".toList) List.mem_cons_self _⟩

/-- Two routes that answer no request in each other's place. -/
def RoutesApart (r r' : QuackapiRoute) : Prop :=
  r.method = r'.method → ¬ SamePaths r.pattern r'.pattern

def StreamsApart (r r' : QuackapiStream) : Prop :=
  r.method = r'.method → ¬ SamePaths r.pattern r'.pattern

structure SemanticallyUnique (s : RouteState) : Prop where
  routes : s.routes.Pairwise RoutesApart
  streams : s.streams.Pairwise StreamsApart

instance : Std.Symm RoutesApart :=
  ⟨fun _ _ h hmethod hsame => h hmethod.symm fun path => (hsame path).symm⟩

instance : Std.Symm StreamsApart :=
  ⟨fun _ _ h hmethod hsame => h hmethod.symm fun path => (hsame path).symm⟩

theorem routesApart_iff {r r' : QuackapiRoute} :
    RoutesApart r r' ↔ (r.method = r'.method → patternShape r.pattern ≠ patternShape r'.pattern) := by
  rw [RoutesApart, samePaths_iff]

theorem streamsApart_iff {r r' : QuackapiStream} :
    StreamsApart r r' ↔ (r.method = r'.method → patternShape r.pattern ≠ patternShape r'.pattern) := by
  rw [StreamsApart, samePaths_iff]

/-- The routes a batch leaves: those it does not name, and the last it has of each name. -/
def Leaves (l newRoutes : List QuackapiRoute) (r : QuackapiRoute) : Prop :=
  (r ∈ l ∧ r.name ∉ newRoutes.map QuackapiRoute.name) ∨
    lastKey QuackapiRoute.name r.name newRoutes = some r

/-- The name whose streams the search for a taken place passes over. -/
def ignoredName (streams : List QuackapiStream) (stream : QuackapiStream) : Str :=
  if (streams.map QuackapiStream.name).contains stream.name then stream.name else []

def StreamAdmissible (orReplace : Bool) (streams : List QuackapiStream) (stream : QuackapiStream) :
    Prop :=
  (stream.name ∈ streams.map QuackapiStream.name → orReplace = true) ∧
    ∀ other ∈ streams, other.name ≠ ignoredName streams stream →
      ¬ (other.method = stream.method ∧ other.pattern = stream.pattern)

/-- What is registered differs in shape from the others of its method, which the texts of the
patterns do not decide: `/a/:x`, `/a/{y}` and `//a/:x` have one shape. -/
def ShapesApart (s : RouteState) : RouteAction → Prop
  | .addRoutes newRoutes orReplace =>
    Admissible orReplace s.routes newRoutes →
      ∀ r, lastKey QuackapiRoute.name r.name newRoutes = some r →
        ∀ r', Leaves s.routes newRoutes r' → r'.name ≠ r.name → r'.method = r.method →
          patternShape r'.pattern ≠ patternShape r.pattern
  | .addStream stream orReplace =>
    StreamAdmissible orReplace s.streams stream →
      ∀ other ∈ s.streams, other.name ≠ stream.name → other.method = stream.method →
        patternShape other.pattern ≠ patternShape stream.pattern
  | .dropRoute _ => True
  | .dropStream _ => True

theorem collides_eq_none {streams : List QuackapiStream} {stream : QuackapiStream} {name : Str} :
    collides streams stream name = none ↔
      ∀ other ∈ streams, other.name ≠ name →
        ¬ (other.method = stream.method ∧ other.pattern = stream.pattern) := by
  simp only [collides, List.find?_eq_none, Bool.and_eq_true, Bool.not_eq_true', decide_eq_true_eq,
    decide_eq_false_iff_not, and_assoc, not_and, ne_eq]

theorem addStream_cases (s : RouteState) (stream : QuackapiStream) (orReplace : Bool) :
    (¬ StreamAdmissible orReplace s.streams stream ∧
      ∃ e, addStream s stream orReplace = (s, .error e)) ∨
    (StreamAdmissible orReplace s.streams stream ∧
      addStream s stream orReplace = (publishStreams
        { s with streams := upsertKey QuackapiStream.name stream s.streams }, .ok ())) := by
  unfold addStream StreamAdmissible ignoredName upsertKey
  rcases hf : findKey QuackapiStream.name stream.name s.streams with _ | old
  · have hmem : stream.name ∉ s.streams.map QuackapiStream.name := findKey_eq_none.mp hf
    rw [if_neg hmem, if_neg (mt List.contains_iff_mem.mp hmem), ← collides_eq_none]
    rcases hc : collides s.streams stream [] with _ | hit
    · exact .inr ⟨⟨fun h => absurd h hmem, rfl⟩, rfl⟩
    · exact .inl ⟨fun h => (nomatch h.2), _, rfl⟩
  · have hmem : stream.name ∈ s.streams.map QuackapiStream.name := by
      obtain ⟨hold, hname⟩ := findKey_eq_some hf
      exact hname ▸ List.mem_map_of_mem hold
    rw [if_pos hmem, if_pos (List.contains_iff_mem.mpr hmem), ← collides_eq_none]
    cases orReplace with
    | false => exact .inl ⟨fun h => Bool.false_ne_true (h.1 hmem), _, rfl⟩
    | true =>
      rcases hc : collides s.streams stream stream.name with _ | hit
      · exact .inr ⟨⟨fun _ => rfl, rfl⟩, rfl⟩
      · exact .inl ⟨fun h => (nomatch h.2), _, rfl⟩

theorem dropStream_cases (s : RouteState) (name : Str) :
    dropStream s name = (publishStreams
        { s with streams := eraseKey QuackapiStream.name name s.streams }, true) ∨
      dropStream s name = (s, false) := by
  unfold dropStream
  split
  · exact .inl rfl
  · exact .inr rfl

theorem routeStep_valid {s : RouteState} (hs : s.Valid) (a : RouteAction) :
    (routeStep s a).1.Valid := by
  cases a with
  | addRoutes newRoutes orReplace =>
    show (addRoutes s newRoutes orReplace).1.Valid
    rcases addRoutes_cases hs.names newRoutes orReplace with ⟨_, e, h⟩ | ⟨hadm, h⟩
    · rw [h]
      exact hs
    · rw [h]
      exact addRoutes_valid hs hadm
  | dropRoute name => exact dropRoute_valid hs name
  | addStream stream orReplace =>
    show (addStream s stream orReplace).1.Valid
    rcases addStream_cases s stream orReplace with ⟨_, e, h⟩ | ⟨_, h⟩
    · rw [h]
      exact hs
    · rw [h]
      exact ⟨hs.names, hs.paths, hs.published⟩
  | dropStream name =>
    show (dropStream s name).1.Valid
    rcases dropStream_cases s name with h | h
    · rw [h]
      exact ⟨hs.names, hs.paths, hs.published⟩
    · rw [h]
      exact hs

theorem routes_valid (as : List RouteAction) : (routeMachine.run emptyRoutes as).Valid :=
  routeMachine.run_invariant (P := RouteState.Valid) (fun _ a hs => routeStep_valid hs a)
    valid_empty as

/-- Names are distinct in every state; with them, what one step must keep apart. -/
structure Named (s : RouteState) : Prop where
  routes : (s.routes.map QuackapiRoute.name).Nodup
  streams : (s.streams.map QuackapiStream.name).Nodup

theorem routeStep_named {s : RouteState} (hs : Named s) (a : RouteAction) :
    Named (routeStep s a).1 := by
  cases a with
  | addRoutes newRoutes orReplace =>
    show Named (addRoutes s newRoutes orReplace).1
    rcases addRoutes_cases hs.routes newRoutes orReplace with ⟨_, e, h⟩ | ⟨_, h⟩
    · rw [h]
      exact hs
    · rw [h, clearRateLimits_eq]
      exact ⟨nodup_upsertAll hs.routes newRoutes, hs.streams⟩
  | dropRoute name =>
    show Named (dropRoute s name).1
    rcases dropRoute_cases s name with h | h
    · rw [h]
      exact ⟨nodup_eraseKey hs.routes name, hs.streams⟩
    · rw [h]
      exact hs
  | addStream stream orReplace =>
    show Named (addStream s stream orReplace).1
    rcases addStream_cases s stream orReplace with ⟨_, e, h⟩ | ⟨_, h⟩
    · rw [h]
      exact hs
    · rw [h]
      exact ⟨hs.routes, nodup_upsertKey hs.streams stream⟩
  | dropStream name =>
    show Named (dropStream s name).1
    rcases dropStream_cases s name with h | h
    · rw [h]
      exact ⟨hs.routes, nodup_eraseKey hs.streams name⟩
    · rw [h]
      exact hs

theorem addRoutes_unique_iff {s : RouteState} (hs : Named s) (hu : SemanticallyUnique s)
    (newRoutes : List QuackapiRoute) (orReplace : Bool) :
    SemanticallyUnique (addRoutes s newRoutes orReplace).1 ↔
      ShapesApart s (.addRoutes newRoutes orReplace) := by
  rcases addRoutes_cases hs.routes newRoutes orReplace with ⟨hadm, e, h⟩ | ⟨hadm, h⟩
  · rw [h]
    exact iff_of_true hu fun h => absurd h hadm
  · have hpairs : SemanticallyUnique (addRoutes s newRoutes orReplace).1 ↔
        (upsertAll QuackapiRoute.name s.routes newRoutes).Pairwise RoutesApart := by
      rw [h, clearRateLimits_eq]
      exact ⟨fun h => h.routes, fun h => ⟨h, hu.streams⟩⟩
    rw [hpairs, pairwise_upsertAll_iff hs.routes hu.routes]
    simp only [mem_upsertAll hs.routes, routesApart_iff]
    exact ⟨fun h _ => h, fun h => h hadm⟩

theorem addStream_unique_iff {s : RouteState} (hs : Named s) (hu : SemanticallyUnique s)
    (stream : QuackapiStream) (orReplace : Bool) :
    SemanticallyUnique (addStream s stream orReplace).1 ↔
      ShapesApart s (.addStream stream orReplace) := by
  rcases addStream_cases s stream orReplace with ⟨hadm, e, h⟩ | ⟨hadm, h⟩
  · rw [h]
    exact iff_of_true hu fun h => absurd h hadm
  · have hpairs : SemanticallyUnique (addStream s stream orReplace).1 ↔
        (upsertKey QuackapiStream.name stream s.streams).Pairwise StreamsApart := by
      rw [h]
      exact ⟨fun h => h.streams, fun h => ⟨hu.routes, h⟩⟩
    rw [hpairs]
    constructor
    · intro hp _ other hother hname
      have hpair := (pairwise_iff_of_keys (nodup_upsertKey hs.streams stream)).mp hp
      exact streamsApart_iff.mp (hpair other ((mem_upsertKey hs.streams).mpr (.inr ⟨hother, hname⟩))
        stream ((mem_upsertKey hs.streams).mpr (.inl rfl)) hname)
    · intro hshapes
      refine pairwise_upsertKey hs.streams hu.streams fun other hother hname => ?_
      have hapart : StreamsApart other stream :=
        streamsApart_iff.mpr (hshapes hadm other hother hname)
      exact ⟨hapart, Std.Symm.symm _ _ hapart⟩

theorem routeStep_unique_iff {s : RouteState} (hs : Named s) (hu : SemanticallyUnique s)
    (a : RouteAction) : SemanticallyUnique (routeStep s a).1 ↔ ShapesApart s a := by
  cases a with
  | addRoutes newRoutes orReplace => exact addRoutes_unique_iff hs hu newRoutes orReplace
  | addStream stream orReplace => exact addStream_unique_iff hs hu stream orReplace
  | dropRoute name =>
    refine iff_of_true ?_ trivial
    show SemanticallyUnique (dropRoute s name).1
    rcases dropRoute_cases s name with h | h
    · rw [h]
      exact ⟨hu.routes.sublist List.eraseP_sublist, hu.streams⟩
    · rw [h]
      exact hu
  | dropStream name =>
    refine iff_of_true ?_ trivial
    show SemanticallyUnique (dropStream s name).1
    rcases dropStream_cases s name with h | h
    · rw [h]
      exact ⟨hu.routes, hu.streams.sublist List.eraseP_sublist⟩
    · rw [h]
      exact hu

/-- A run keeps routes and streams unique by what they match exactly when each registration it makes
differs in shape from the others of its method. -/
theorem unique_throughout_iff (as : List RouteAction) :
    routeMachine.Along ShapesApart emptyRoutes as ↔
      ∀ pre, pre <+: as → SemanticallyUnique (routeMachine.run emptyRoutes pre) := by
  have hnamed : ∀ s a, Named s → Named (routeMachine.step s a).1 := fun _ a hs =>
    routeStep_named hs a
  have hempty : Named emptyRoutes := ⟨List.nodup_nil, List.nodup_nil⟩
  have hiff : routeMachine.Along ShapesApart emptyRoutes as ↔ ∀ pre, pre <+: as →
      Named (routeMachine.run emptyRoutes pre) ∧
        SemanticallyUnique (routeMachine.run emptyRoutes pre) :=
    routeMachine.along_iff_invariant (P := fun s => Named s ∧ SemanticallyUnique s)
      (fun s a hs => (and_iff_right (hnamed s a hs.1)).trans (routeStep_unique_iff hs.1 hs.2 a))
      ⟨hempty, .nil, .nil⟩
  rw [hiff]
  refine forall₂_congr fun pre _ => and_iff_right ?_
  exact routeMachine.run_invariant hnamed hempty pre

/-- Two captures of different spelling: both routes are accepted, and answer the same requests. -/
theorem captures_taken_over :
    let a := getRoute "a".toList "/a/:x".toList
    let b := getRoute "b".toList "/a/\x7by\x7d".toList
    let s := (addRoutes (addRoutes emptyRoutes [a] false).1 [b] false).1
    (addRoutes (addRoutes emptyRoutes [a] false).1 [b] false).2 = .ok () ∧
      s = routeMachine.run emptyRoutes [.addRoutes [a] false, .addRoutes [b] false] ∧
      s.routes = [a, b] ∧ ¬ SemanticallyUnique s := by
  intro a b s
  have hroutes : s.routes = [a, b] := rfl
  refine ⟨rfl, rfl, hroutes, fun h => ?_⟩
  have hpair := h.routes
  rw [hroutes, List.pairwise_pair] at hpair
  have hshape : patternShape a.pattern = patternShape b.pattern := by decide
  exact routesApart_iff.mp hpair rfl hshape

end Quackapi.Http
