import Quackapi.Openapi.Parameters
import Quackapi.Params.Slot

/-! The parameters the document lists, compared with what the binder does: where a value is looked for
and whether a request may do without it. -/

namespace Quackapi.Openapi
open Library
open Params
open Http (QuackapiRoute)

/-- What a request has at a place the document names. -/
def suppliedAt (req : Request) (loc : Loc) (name : Str) : Option Str :=
  match loc with
  | .query => lastValue req.params name
  | .path => lastValue req.pathParams name
  | .header => (collectHeaders req.headers).find name
  | .cookie => (requestCookies req).find name
  | .body | .server => none

/-- A request to the route, its handler prepared and every parameter bound but the one of the name. -/
structure OtherwiseValid (e : BodyEngine) (route : QuackapiRoute) (name : Str)
    (verified : Auth.AuthResult) (req : Request) (ctx : RouteContext) (st : Statement) : Prop where
  method : req.method = route.method ∨ (req.method = "HEAD".toList ∧ route.method = "GET".toList)
  matched : ∃ path, Http.matchPattern route.pattern path = some req.pathParams
  auth : (routeAuth route.toRoute verified).ok = true
  admitted : route.handler.admitted (authenticated route.toRoute verified) = true
  context : routeContext e route.toRoute (routeAuth route.toRoute verified).claims req = .ok ctx
  statement : route.handler.statement (authenticated route.toRoute verified) = some st
  others : ∀ p ∈ st.params, lower p.name ≠ lower name → ∃ v, Binds e ctx p v

/-- A 422 answer with one issue, that the value of the name is missing. -/
def AnswersMissing (e : BodyEngine) (route : QuackapiRoute) (verified : Auth.AuthResult)
    (req : Request) (name : Str) : Prop :=
  ∃ issue, bindRoute e route.toRoute verified req = .error (.invalid [issue]) ∧
    lower issue.name = lower name ∧ IsMissing issue

/-- The statement a request runs has the parameters of the one that the document was made from. -/
structure Prepares (route : QuackapiRoute) (prepared : Prepared) : Prop where
  kept : ∀ authenticated st, route.handler.statement authenticated = some st →
    ∀ n ∈ prepared.namedParams, ∃ p ∈ st.params, p.name = n

/-- The entry of a name in the list of parameters. -/
inductive Lists (docs : DocEngine) (route : QuackapiRoute) (prepared : Prepared) (name : Str) :
    DocParam → Prop
  | path (h : name ∈ pathParamNames route.pattern) :
      Lists docs route prepared name (pathDocParam docs route prepared name)
  | named (h : name ∈ listedNames route prepared) :
      Lists docs route prepared name (namedDocParam docs route prepared name)

theorem mem_docParams_iff {docs : DocEngine} {route : QuackapiRoute} {prepared : Prepared}
    {d : DocParam} : d ∈ docParams docs route prepared ↔ ∃ name, Lists docs route prepared name d := by
  rw [docParams, List.mem_append, List.mem_map, List.mem_map]
  constructor
  · rintro (⟨name, hname, rfl⟩ | ⟨name, hname, rfl⟩)
    · exact ⟨name, .path hname⟩
    · exact ⟨name, .named hname⟩
  · rintro ⟨name, hname | hname⟩
    · exact .inl ⟨name, hname, rfl⟩
    · exact .inr ⟨name, hname, rfl⟩

/-- The document and the binder agree on a parameter: it is required there exactly when every request
that is otherwise valid and does not have it is answered so, and a value in its place alone is read. -/
structure Agrees (e : BodyEngine) (route : QuackapiRoute) (name : Str) (d : DocParam) : Prop where
  required : d.required = true ↔ ∀ verified req ctx st, OtherwiseValid e route name verified req ctx st →
    suppliedAt req d.loc d.name = none → AnswersMissing e route verified req name
  value : ∀ verified req ctx st raw, OtherwiseValid e route name verified req ctx st →
    suppliedAt req d.loc d.name = some raw → ∀ p ∈ st.params, lower p.name = lower name →
      Alone e route.toRoute req p.name d.loc raw → ReadsText ctx p.name raw

/-- What agreement comes to. A parameter that is documented as required has no other source in any
request that is otherwise valid; one that is not has its default, or such a source, in some request;
and nothing takes the place of a value in the documented one. -/
structure SourcesAgree (e : BodyEngine) (route : QuackapiRoute) (name : Str) (d : DocParam) : Prop where
  required : d.required = true → ∀ verified req ctx st,
    OtherwiseValid e route name verified req ctx st → suppliedAt req d.loc d.name = none →
      ¬ StandsIn e route.toRoute req name
  optional : d.required = false → ∃ verified req ctx st,
    OtherwiseValid e route name verified req ctx st ∧ suppliedAt req d.loc d.name = none ∧
      (((findParamSpec route.params name).bind ParamSpec.default).isSome ∨
        StandsIn e route.toRoute req name)
  value : ∀ verified req ctx st raw, OtherwiseValid e route name verified req ctx st →
    suppliedAt req d.loc d.name = some raw → ∀ p ∈ st.params, lower p.name = lower name →
      Alone e route.toRoute req p.name d.loc raw → Unobstructed route.toRoute req p.name d.loc raw

theorem names_of_matchSegments {patternSegments pathSegments : List Str}
    {captures : List (Str × Str)}
    (h : Http.matchSegments patternSegments pathSegments = some captures) :
    captures.map Prod.fst = patternSegments.filterMap segmentCapture := by
  fun_induction Http.matchSegments patternSegments pathSegments generalizing captures with
  | case1 =>
    cases h
    rfl
  | case2 ps patternSegments s pathSegments name hname ih =>
    obtain ⟨rest, hrest, rfl⟩ := Option.map_eq_some_iff.mp h
    rw [List.map_cons, ih hrest, List.filterMap_cons_some hname]
  | case3 patternSegments s pathSegments hnone ih =>
    rw [List.filterMap_cons_none hnone]
    exact ih h
  | _ => cases h

theorem names_of_matchPattern {pattern path : Str} {captures : List (Str × Str)}
    (h : Http.matchPattern pattern path = some captures) :
    captures.map Prod.fst = pathParamNames pattern := by
  unfold Http.matchPattern at h
  split at h
  · exact names_of_matchSegments h
  · cases h

section
variable {e : BodyEngine} {docs : DocEngine} {route : QuackapiRoute} {prepared : Prepared}
  {name : Str} {verified : Auth.AuthResult} {req : Request} {ctx : RouteContext} {st : Statement}

theorem lastValue_isSome_iff {pairs : List (Str × Str)} {n : Str} :
    (lastValue pairs n).isSome = true ↔ ∃ m ∈ pairs.map Prod.fst, lower m = lower n := by
  simp [lastValue]

theorem OtherwiseValid.captured_iff (h : OtherwiseValid e route name verified req ctx st) {n : Str} :
    (lastValue req.pathParams n).isSome = true ↔ listContains (pathParamNames route.pattern) n = true := by
  obtain ⟨path, hpath⟩ := h.matched
  rw [lastValue_isSome_iff, names_of_matchPattern hpath, listContains, List.any_eq_true]
  simp only [beq_iff_eq]

theorem OtherwiseValid.bindRoute_eq (h : OtherwiseValid e route name verified req ctx st) :
    bindRoute e route.toRoute verified req = bindStatement e ctx st.params := by
  have hadmitted : (!route.toRoute.handler.admitted (authenticated route.toRoute verified)) = false := by
    rw [h.admitted]
    rfl
  simp only [bindRoute, h.auth, Bool.not_true, Bool.false_eq_true, if_false, hadmitted, h.context,
    h.statement]
  rfl

theorem OtherwiseValid.route_eq (h : OtherwiseValid e route name verified req ctx st) :
    ctx.route = route.toRoute := (routeContext_ok h.context).1

theorem answersMissing_iff (h : OtherwiseValid e route name verified req ctx st) {p : ParamEntry}
    (hp : p ∈ st.params) (hname : p.name = name) :
    AnswersMissing e route verified req name ↔ isClaimsParam name = none ∧
      lookupParam ctx (findParamSpec ctx.route.params name) name = none ∧
        (findParamSpec ctx.route.params name).bind ParamSpec.default = none := by
  subst hname
  rw [← bindParam_missing_iff (e := e) rfl]
  unfold AnswersMissing
  rw [h.bindRoute_eq]
  simp only [bindStatement_invalid_iff st.distinct hp h.others]
  constructor
  · rintro ⟨issue, hissue, _, hmissing⟩
    exact ⟨issue, hissue, hmissing⟩
  · rintro ⟨issue, hissue, hmissing⟩
    exact ⟨issue, hissue, by rw [bindParam_name hissue], hmissing⟩

theorem listed_iff : name ∈ listedNames route prepared ↔ name ∈ prepared.namedParams ∧
    isClaimsParamName name = false ∧ listContains (pathParamNames route.pattern) name = false := by
  rw [listedNames, List.mem_filter, Bool.not_eq_true', Bool.or_eq_false_iff]

theorem isClaimsParam_of_listed (h : name ∈ listedNames route prepared) : isClaimsParam name = none := by
  have hclaims := (listed_iff.mp h).2.1
  have hlength : claimsPrefix.length = 7 := by decide
  unfold isClaimsParam
  split
  · rfl
  · case isFalse hlong =>
    rw [hlength, not_le] at hlong
    rw [isClaimsParamName, decide_eq_true hlong, Bool.and_true] at hclaims
    exact if_neg (Bool.eq_false_iff.mp hclaims)

theorem pathValue_of_listed (h : OtherwiseValid e route name verified req ctx st)
    (hlisted : name ∈ listedNames route prepared) : pathValue req name = none := by
  have hnone : ¬ (lastValue req.pathParams name).isSome = true := by
    rw [h.captured_iff, (listed_iff.mp hlisted).2.2]
    exact Bool.false_ne_true
  rw [pathValue, Option.not_isSome_iff_eq_none.mp hnone]
  rfl

theorem isPathParam_of_listed (hlisted : name ∈ listedNames route prepared) :
    isPathParam route.pattern name = false := by
  by_contra hpath
  obtain ⟨segment, hsegment, hcapture⟩ := List.any_eq_true.mp (eq_true_of_ne_false hpath)
  have hmem : name ∈ pathParamNames route.pattern :=
    List.mem_filterMap.mpr ⟨segment, hsegment, of_decide_eq_true hcapture⟩
  have hcontains : listContains (pathParamNames route.pattern) name = true :=
    List.any_eq_true.mpr ⟨name, hmem, beq_self_eq_true _⟩
  rw [(listed_iff.mp hlisted).2.2] at hcontains
  cases hcontains

theorem queryValue_of_listed (hlisted : name ∈ listedNames route prepared)
    (htakes : takesDeclared route.toRoute name = false) :
    queryValue req (slotName route.toRoute (findParamSpec route.params name) name) =
        (suppliedAt req (namedDocParam docs route prepared name).loc
          (namedDocParam docs route prepared name).name).map (Loc.query, ·) ∧
      (namedDocParam docs route prepared name).loc = .query := by
  have hpath := isPathParam_of_listed hlisted
  simp only [namedDocParam]
  rw [takesDeclared] at htakes
  rcases hspec : findParamSpec route.params name with _ | s
  · exact ⟨rfl, rfl⟩
  · rw [hspec] at htakes
    have hsource : s.source = .query := by simpa using htakes
    have hslot : slotName route.toRoute (some s) name = oasName (some s) name := by
      simp only [slotName, oasName, hsource, isRenamed, hpath, Bool.not_false, Bool.and_true, ne_eq,
        not_true_eq_false, decide_false, Bool.or_false, paramWireName]
      split <;> rfl
    have hloc : oasLoc (some s) = .query := by simp only [oasLoc, hsource]
    rw [hslot, hloc]
    exact ⟨rfl, rfl⟩

theorem missing_iff (hprepares : Prepares route prepared) (hlisted : name ∈ listedNames route prepared)
    (h : OtherwiseValid e route name verified req ctx st)
    (hlacks : suppliedAt req (namedDocParam docs route prepared name).loc
      (namedDocParam docs route prepared name).name = none) :
    AnswersMissing e route verified req name ↔
      (findParamSpec route.params name).bind ParamSpec.default = none ∧
        ¬ StandsIn e route.toRoute req name := by
  have hmem := (List.mem_filter.mp hlisted).1
  obtain ⟨p, hp, hname⟩ := hprepares.kept _ _ h.statement name hmem
  have hctx := h.context
  rw [← h.route_eq] at hctx
  have hpath := pathValue_of_listed h hlisted
  have hlookup := lookupParam_isSome_iff hctx hpath fun htakes => by
    rw [h.route_eq] at htakes ⊢
    rw [(@queryValue_of_listed docs route prepared name req hlisted htakes).1, hlacks]
    rfl
  rw [answersMissing_iff h hp hname, isClaimsParam_of_listed hlisted, ← h.route_eq, ← hlookup,
    Option.not_isSome_iff_eq_none, h.route_eq]
  simp only [true_and, and_comm]

theorem specValue_of_listed {s : ParamSpec} (hspec : findParamSpec route.params name = some s)
    (hsource : s.source ≠ .query) :
    specValue (collectHeaders req.headers) (requestCookies req) s =
      (suppliedAt req (namedDocParam docs route prepared name).loc
        (namedDocParam docs route prepared name).name).map
          ((namedDocParam docs route prepared name).loc, ·) := by
  simp only [namedDocParam, hspec, oasLoc, oasName, specValue]
  rcases hcase : s.source with _ | _ | _
  · exact absurd hcase hsource
  · simp only [suppliedAt, ne_eq, reduceCtorEq, not_false_eq_true, decide_true, Bool.or_true, if_true]
  · simp only [suppliedAt, ne_eq, reduceCtorEq, not_false_eq_true, decide_true, Bool.or_true, if_true]

theorem admits_listed : admits route.toRoute (findParamSpec route.params name) name
    (namedDocParam docs route prepared name).loc = true := by
  simp only [namedDocParam]
  rcases findParamSpec route.params name with _ | s
  · rfl
  · unfold admits oasLoc
    cases hsource : s.source <;> simp [hsource]

theorem takesDeclared_iff : takesDeclared route.toRoute name = true ↔
    ∃ s, findParamSpec route.params name = some s ∧ s.source ≠ .query := by
  simp only [takesDeclared, Option.any_eq_true, decide_eq_true_eq]

theorem suppliedBy_of_listed {raw : Str} (hlisted : name ∈ listedNames route prepared)
    (hsupplied : suppliedAt req (namedDocParam docs route prepared name).loc
      (namedDocParam docs route prepared name).name = some raw)
    (halone : Alone e route.toRoute req name (namedDocParam docs route prepared name).loc raw) :
    SuppliedBy route.toRoute req name (namedDocParam docs route prepared name).loc raw := by
  rcases htakes : takesDeclared route.toRoute name with _ | _
  · obtain ⟨hquery, hloc⟩ := @queryValue_of_listed docs route prepared name req hlisted htakes
    rw [hsupplied] at hquery
    rw [hloc]
    exact .query htakes hquery
  · obtain ⟨s, hspec, hsource⟩ := takesDeclared_iff.mp htakes
    have hmem : s ∈ route.params := List.mem_of_find?_eq_some hspec
    have hname : lower s.name = lower name := by
      have hfound := List.find?_some hspec
      exact of_decide_eq_true hfound
    -- the declaration has the value, so the last one that has a value exists, and it is this one
    have hvalue := @specValue_of_listed docs route prepared name req s hspec hsource
    rw [hsupplied] at hvalue
    have hslot : slotName route.toRoute (findParamSpec route.params name) name = name := by
      simp only [slotName, hspec]
      rcases hcase : s.source with _ | _ | _
      · exact absurd hcase hsource
      · simp
      · simp
    refine .declared htakes admits_listed ?_
    obtain ⟨u, hlast⟩ : ∃ u, lastDeclared route.toRoute req name = some u := by
      rw [← Option.isSome_iff_exists, lastDeclared, List.findSome?_isSome_iff]
      refine ⟨s, List.mem_filter.mpr ⟨List.mem_reverse.mpr hmem, decide_eq_true hname⟩, ?_⟩
      rw [hvalue]
      rfl
    have hdeclared := halone.declared
    rw [hslot] at hdeclared
    rw [hlast, hdeclared u hlast]

theorem OtherwiseValid.readsText_iff (h : OtherwiseValid e route name verified req ctx st) {n : Str}
    {loc : Loc} {raw : Str} (halone : Alone e route.toRoute req n loc raw)
    (hsupplied : SuppliedBy route.toRoute req n loc raw) :
    ReadsText ctx n raw ↔ Unobstructed route.toRoute req n loc raw := by
  have hctx := h.context
  rw [← h.route_eq] at hctx halone hsupplied ⊢
  exact Params.readsText_iff hctx halone hsupplied

theorem agrees_path_iff (h : name ∈ pathParamNames route.pattern) :
    Agrees e route name (pathDocParam docs route prepared name) ↔
      SourcesAgree e route name (pathDocParam docs route prepared name) := by
  have hcaptured : ∀ verified req ctx st, OtherwiseValid e route name verified req ctx st →
      suppliedAt req .path name ≠ none := by
    intro verified req ctx st hvalid hnone
    have hsome := hvalid.captured_iff.mpr (List.any_eq_true.mpr ⟨name, h, beq_self_eq_true _⟩)
    rw [suppliedAt] at hnone
    rw [hnone] at hsome
    cases hsome
  have hvalue : ∀ verified req ctx st raw, OtherwiseValid e route name verified req ctx st →
      suppliedAt req .path name = some raw → ∀ p ∈ st.params, lower p.name = lower name →
        Alone e route.toRoute req p.name .path raw →
          (ReadsText ctx p.name raw ↔ Unobstructed route.toRoute req p.name .path raw) := by
    intro verified req ctx st raw hvalid hsupplied p _ hname halone
    refine hvalid.readsText_iff halone (.path ?_)
    rw [suppliedAt, lastValue, ← hname] at hsupplied
    rw [pathValue, lastValue, hsupplied]
    rfl
  constructor
  · rintro ⟨_, hreads⟩
    refine ⟨fun _ verified req ctx st hvalid hnone => absurd hnone (hcaptured _ _ _ _ hvalid),
      fun hoptional => ?_, fun verified req ctx st raw hvalid hsupplied p hp hname halone =>
        (hvalue _ _ _ _ _ hvalid hsupplied p hp hname halone).mp
          (hreads _ _ _ _ _ hvalid hsupplied p hp hname halone)⟩
    cases hoptional
  · rintro ⟨_, _, hfree⟩
    refine ⟨iff_of_true rfl fun verified req ctx st hvalid hnone =>
      absurd hnone (hcaptured _ _ _ _ hvalid), ?_⟩
    exact fun verified req ctx st raw hvalid hsupplied p hp hname halone =>
      (hvalue _ _ _ _ _ hvalid hsupplied p hp hname halone).mpr
        (hfree _ _ _ _ _ hvalid hsupplied p hp hname halone)

theorem name_of_listed (hprepares : Prepares route prepared) (hlisted : name ∈ listedNames route prepared)
    (h : OtherwiseValid e route name verified req ctx st) {p : ParamEntry} (hp : p ∈ st.params)
    (hname : lower p.name = lower name) : p.name = name := by
  obtain ⟨q, hq, hspelled⟩ := hprepares.kept _ _ h.statement name (listed_iff.mp hlisted).1
  have hsame : p = q := List.inj_on_of_nodup_map st.distinct hp hq (hname.trans (by rw [hspelled]))
  rw [hsame, hspelled]

theorem agrees_named_iff (hprepares : Prepares route prepared) (h : name ∈ listedNames route prepared) :
    Agrees e route name (namedDocParam docs route prepared name) ↔
      SourcesAgree e route name (namedDocParam docs route prepared name) := by
  have hmissing : ∀ verified req ctx st, OtherwiseValid e route name verified req ctx st →
      suppliedAt req (namedDocParam docs route prepared name).loc
        (namedDocParam docs route prepared name).name = none →
      (AnswersMissing e route verified req name ↔
        (findParamSpec route.params name).bind ParamSpec.default = none ∧
          ¬ StandsIn e route.toRoute req name) :=
    fun _ _ _ _ hvalid hlacks => missing_iff hprepares h hvalid hlacks
  have hvalue : ∀ verified req ctx st raw, OtherwiseValid e route name verified req ctx st →
      suppliedAt req (namedDocParam docs route prepared name).loc
        (namedDocParam docs route prepared name).name = some raw →
      ∀ p ∈ st.params, lower p.name = lower name →
        Alone e route.toRoute req p.name (namedDocParam docs route prepared name).loc raw →
          (ReadsText ctx p.name raw ↔
            Unobstructed route.toRoute req p.name (namedDocParam docs route prepared name).loc raw) := by
    intro verified req ctx st raw hvalid hsupplied p hp hname halone
    rw [name_of_listed hprepares h hvalid hp hname] at halone ⊢
    exact hvalid.readsText_iff halone (suppliedBy_of_listed h hsupplied halone)
  have hdefault : (namedDocParam docs route prepared name).required = true →
      (findParamSpec route.params name).bind ParamSpec.default = none := by
    simp only [namedDocParam, Bool.and_eq_true, Bool.not_eq_true', Option.isSome_eq_false_iff,
      Option.isNone_iff_eq_none]
    exact And.left
  constructor
  · rintro ⟨hrequired, hreads⟩
    refine ⟨fun hreq verified req ctx st hvalid hlacks => ?_, fun hreq => ?_, ?_⟩
    · exact ((hmissing _ _ _ _ hvalid hlacks).mp
        (hrequired.mp hreq verified req ctx st hvalid hlacks)).2
    · by_contra hnone
      push Not at hnone
      refine Bool.eq_false_iff.mp hreq (hrequired.mpr fun verified req ctx st hvalid hlacks => ?_)
      obtain ⟨hdef, hstands⟩ := hnone verified req ctx st hvalid hlacks
      exact (hmissing _ _ _ _ hvalid hlacks).mpr ⟨by simpa using hdef, hstands⟩
    · exact fun verified req ctx st raw hvalid hsupplied p hp hname halone =>
        (hvalue _ _ _ _ _ hvalid hsupplied p hp hname halone).mp
          (hreads _ _ _ _ _ hvalid hsupplied p hp hname halone)
  · rintro ⟨hrequired, hoptional, hfree⟩
    refine ⟨⟨fun hreq verified req ctx st hvalid hlacks => ?_, fun hall => ?_⟩, ?_⟩
    · exact (hmissing _ _ _ _ hvalid hlacks).mpr
        ⟨hdefault hreq, hrequired hreq verified req ctx st hvalid hlacks⟩
    · by_contra hreq
      obtain ⟨verified, req, ctx, st, hvalid, hlacks, hsource⟩ := hoptional (eq_false_of_ne_true hreq)
      obtain ⟨hdef, hstands⟩ :=
        (hmissing _ _ _ _ hvalid hlacks).mp (hall verified req ctx st hvalid hlacks)
      rcases hsource with hsource | hsource
      · rw [hdef] at hsource
        cases hsource
      · exact hstands hsource
    · exact fun verified req ctx st raw hvalid hsupplied p hp hname halone =>
        (hvalue _ _ _ _ _ hvalid hsupplied p hp hname halone).mpr
          (hfree _ _ _ _ _ hvalid hsupplied p hp hname halone)

/-- The document and the binder agree on a parameter exactly when its sources do. -/
theorem parameters_agree_iff (e : BodyEngine) (docs : DocEngine) (route : QuackapiRoute)
    (prepared : Prepared) (hprepares : Prepares route prepared) (name : Str) (d : DocParam)
    (h : Lists docs route prepared name d) : Agrees e route name d ↔ SourcesAgree e route name d := by
  cases h with
  | path h => exact agrees_path_iff h
  | named h => exact agrees_named_iff hprepares h

/-- A parameter of a route that reads no body: it has no default, is declared once, and is called like
nothing the server stamps, in the query either. -/
structure Unshared (route : QuackapiRoute) (name : Str) : Prop where
  method : isBodyMethod route.method = false
  default : (findParamSpec route.params name).bind ParamSpec.default = none
  once : ∀ s ∈ route.params, lower s.name = lower name → findParamSpec route.params name = some s
  stamp : ∀ req, stampValue req name = none ∧
    stampValue req (slotName route.toRoute (findParamSpec route.params name) name) = none

theorem spec_of_lastDeclared {v : Loc × Str} (h : lastDeclared route.toRoute req name = some v) :
    ∃ s ∈ route.params, lower s.name = lower name ∧
      specValue (collectHeaders req.headers) (requestCookies req) s = some v := by
  obtain ⟨s, hs, hvalue⟩ := List.exists_of_findSome?_eq_some h
  obtain ⟨hmem, hname⟩ := List.mem_filter.mp hs
  exact ⟨s, List.mem_reverse.mp hmem, of_decide_eq_true hname, hvalue⟩

theorem specValue_of_lacks {s : ParamSpec} (hspec : findParamSpec route.params name = some s)
    (hlacks : suppliedAt req (namedDocParam docs route prepared name).loc
      (namedDocParam docs route prepared name).name = none) :
    specValue (collectHeaders req.headers) (requestCookies req) s = none := by
  by_cases hsource : s.source = .query
  · simp only [specValue, hsource]
  · rw [specValue_of_listed hspec hsource, hlacks]
    rfl

theorem Unshared.bodyValue_eq (hshared : Unshared route name)
    (h : OtherwiseValid e route name verified req ctx st) : bodyValue e route.toRoute req name = none := by
  have hmethod : isBodyMethod req.method = false := by
    rcases h.method with hmethod | ⟨hhead, _⟩
    · rw [hmethod]
      exact hshared.method
    · rw [hhead]
      decide
  have hkind : bodyKind req = .unread := by
    rw [bodyKind, hmethod]
    rfl
  rw [bodyValue, hkind]

theorem Unshared.lastDeclared_eq (hshared : Unshared route name)
    (hlacks : suppliedAt req (namedDocParam docs route prepared name).loc
      (namedDocParam docs route prepared name).name = none) :
    lastDeclared route.toRoute req name = none := by
  by_contra hsome
  obtain ⟨v, hv⟩ := Option.ne_none_iff_exists'.mp hsome
  obtain ⟨s, hmem, hname, hvalue⟩ := spec_of_lastDeclared hv
  rw [specValue_of_lacks (hshared.once s hmem hname) hlacks] at hvalue
  cases hvalue

theorem Unshared.not_standsIn (hshared : Unshared route name)
    (hlisted : name ∈ listedNames route prepared)
    (h : OtherwiseValid e route name verified req ctx st)
    (hlacks : suppliedAt req (namedDocParam docs route prepared name).loc
      (namedDocParam docs route prepared name).name = none) :
    ¬ StandsIn e route.toRoute req name := by
  have hlast := hshared.lastDeclared_eq hlacks
  rintro (⟨-, hdeclared, -, -⟩ | ⟨-, hstamp | hpath | hdeclared | hbody⟩)
  · rw [hlast] at hdeclared
    cases hdeclared
  · rw [(hshared.stamp req).1] at hstamp
    cases hstamp
  · rw [pathValue_of_listed h hlisted] at hpath
    cases hpath
  · rw [hlast] at hdeclared
    cases hdeclared
  · rw [hshared.bodyValue_eq h] at hbody
    cases hbody

theorem Unshared.required (hshared : Unshared route name) :
    (namedDocParam docs route prepared name).required = true := by
  have hcapable : bodyCapable route = false := by
    have hmethod := hshared.method
    rw [isBodyMethod, Bool.or_eq_false_iff, Bool.or_eq_false_iff] at hmethod
    obtain ⟨⟨hpost, hput⟩, hpatch⟩ := hmethod
    refine decide_eq_false ?_
    rintro (h | h | h)
    · exact absurd h (of_decide_eq_false hpost)
    · exact absurd h (of_decide_eq_false hput)
    · exact absurd h (of_decide_eq_false hpatch)
  have halternative : (findParamSpec route.params name).filter
      (hasVariantBodyAlternative route prepared.namedParams) = none := by
    refine Option.filter_eq_none_iff.mpr fun s _ => ?_
    rw [hasVariantBodyAlternative, hcapable, Bool.false_and, Bool.false_and, Bool.false_and,
      Bool.false_and, Bool.false_and, Bool.false_and]
    exact Bool.false_ne_true
  simp only [namedDocParam, hshared.default, halternative]
  rfl

theorem sourcesAgree_of_unshared (hprepares : Prepares route prepared)
    (hlisted : name ∈ listedNames route prepared) (hshared : Unshared route name) :
    SourcesAgree e route name (namedDocParam docs route prepared name) := by
  refine ⟨fun _ verified req ctx st hvalid hlacks => hshared.not_standsIn hlisted hvalid hlacks,
    fun hoptional => ?_, ?_⟩
  · rw [hshared.required] at hoptional
    cases hoptional
  · intro verified req ctx st raw hvalid _ p hp hname _
    rw [name_of_listed hprepares hlisted hvalid hp hname]
    refine ⟨isClaimsParam_of_listed hlisted, admits_listed, fun s hs => ?_⟩
    rw [(hshared.stamp req).2] at hs
    cases hs

end

/-- `GET /items`, its handler a query of the parameter. -/
def parameterRoute (name : Str) : QuackapiRoute :=
  { Http.getRoute "items".toList "/items".toList with
    handler :=
      { sql := "SELECT $".toList ++ name
        dollarNames := [name]
        admitted _ := true
        statement _ := some ⟨[⟨name, .varchar⟩], List.nodup_singleton _⟩ } }

def parameterDocs (name : Str) : DocEngine where
  prepare _ := some ⟨[(name, .varchar)], .empty, [name]⟩
  selectAlias _ := none
  numberText _ := []
  castText _ _ := none

def parameterPrepared (name : Str) : Prepared := ⟨[(name, .varchar)], .empty, [name]⟩

theorem parameterRoute_prepares (name : Str) :
    Prepares (parameterRoute name) (parameterPrepared name) := by
  refine ⟨fun _ st hst n hn => ?_⟩
  cases hst
  exact ⟨_, List.mem_singleton_self _, (List.mem_singleton.mp hn).symm⟩

theorem parameterRoute_listed (name : Str) (h : isClaimsParamName name = false) :
    name ∈ listedNames (parameterRoute name) (parameterPrepared name) := by
  have hnames : pathParamNames "/items".toList = [] := by decide
  have hpattern : (parameterRoute name).pattern = "/items".toList := rfl
  refine listed_iff.mpr ⟨List.mem_singleton_self _, h, ?_⟩
  rw [hpattern, hnames]
  rfl

theorem parameterRoute_unshared {name : Str} (hstamp : ∀ req, stampValue req name = none) :
    Unshared (parameterRoute name) name := by
  have hmethod : isBodyMethod "GET".toList = false := by decide
  have hspec : findParamSpec (parameterRoute name).params name = none := rfl
  refine ⟨hmethod, ?_, fun s hs => absurd hs List.not_mem_nil, fun req => ⟨hstamp req, ?_⟩⟩
  · rw [hspec]
    rfl
  · rw [hspec]
    exact hstamp req

/-- `GET /items` without a query. -/
def itemsRequest : Request where
  method := "GET".toList
  params := []
  pathParams := []
  headers := []
  body := []
  formFields := []
  formFiles := []
  requestId := "0af7651916cd43dd".toList
  traceId := []
  spanId := []

theorem itemsRequest_valid (name : Str) : ∃ ctx st,
    OtherwiseValid noJsonEngine (parameterRoute name) name (Auth.authOk []) itemsRequest ctx st := by
  have hpath : Http.matchPattern "/items".toList "/items".toList = some [] := by decide
  refine ⟨_, _, .inl rfl, ⟨_, hpath⟩, rfl, rfl, rfl, rfl, fun p hp hname => ?_⟩
  rw [List.mem_singleton.mp hp] at hname
  exact absurd rfl hname

theorem parameters_agree_limit :
    Agrees noJsonEngine (parameterRoute "limit".toList) "limit".toList
        (namedDocParam (parameterDocs "limit".toList) (parameterRoute "limit".toList)
          (parameterPrepared "limit".toList) "limit".toList) ∧
      AnswersMissing noJsonEngine (parameterRoute "limit".toList) (Auth.authOk []) itemsRequest
        "limit".toList := by
  have hlisted := parameterRoute_listed "limit".toList (by decide)
  have hstamp : ∀ req, stampValue req "limit".toList = none := fun _ => rfl
  have hagrees := (parameters_agree_iff noJsonEngine (parameterDocs "limit".toList)
    (parameterRoute "limit".toList) (parameterPrepared "limit".toList) (parameterRoute_prepares _)
    "limit".toList _ (.named hlisted)).mpr
      (sourcesAgree_of_unshared (parameterRoute_prepares _) hlisted (parameterRoute_unshared hstamp))
  obtain ⟨ctx, st, hvalid⟩ := itemsRequest_valid "limit".toList
  exact ⟨hagrees, hagrees.required.mp rfl _ _ ctx st hvalid rfl⟩

/-- `$request_id` is listed as a required query parameter, and no request lacks it. -/
theorem request_id_disagrees :
    Lists (parameterDocs "request_id".toList) (parameterRoute "request_id".toList)
        (parameterPrepared "request_id".toList) "request_id".toList
        (namedDocParam (parameterDocs "request_id".toList) (parameterRoute "request_id".toList)
          (parameterPrepared "request_id".toList) "request_id".toList) ∧
      ¬ Agrees noJsonEngine (parameterRoute "request_id".toList) "request_id".toList
        (namedDocParam (parameterDocs "request_id".toList) (parameterRoute "request_id".toList)
          (parameterPrepared "request_id".toList) "request_id".toList) := by
  have hlisted := parameterRoute_listed "request_id".toList (by decide)
  refine ⟨.named hlisted, fun hagrees => ?_⟩
  have hsources := (agrees_named_iff (parameterRoute_prepares _) hlisted).mp hagrees
  obtain ⟨ctx, st, hvalid⟩ := itemsRequest_valid "request_id".toList
  exact hsources.required rfl _ _ ctx st hvalid rfl (.plain rfl (.inl rfl))

end Quackapi.Openapi
