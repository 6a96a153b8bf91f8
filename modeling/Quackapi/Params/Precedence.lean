import Quackapi.Http.Pattern
import Quackapi.Params.Sources

/-! Which source a parameter's value comes from. The sources are listed in the order in which they
count, and the map that a request fills comes to the first of them that has a value. -/

namespace Quackapi.Params
open Library

inductive Offer
  | text (value : Loc × Str)
  | member (field : JsonBodyField)

def Offer.value : Offer → Loc × Str
  | .text value => value
  | .member field => (.body, field.value)

def Offer.isNull : Offer → Bool
  | .text _ => false
  | .member field => field.explicitNull

def Offer.resolved (offer : Offer) : Resolved :=
  if offer.isNull then .explicitNull offer.value.1 else .text offer.value.1 offer.value.2 none

inductive BodyKind
  | unread | json | form | multipart
deriving DecidableEq

def bodyKind (req : Request) : BodyKind :=
  let media := contentTypeMedia (collectHeaders req.headers)
  if !isBodyMethod req.method then .unread
  else if bodyIsJson req then .json
  else if isFormUrlEncodedMediaType media then .form
  else if isMultipartMediaType media then .multipart
  else .unread

def bodyOffers (e : BodyEngine) (req : Request) (n : Str) : List (Option Offer) :=
  match bodyKind req with
  | .unread => [(queryValue req n).map .text]
  | .json =>
    [(queryValue req n).map .text, (memberField e req n).map .member, (payloadValue req n).map .text]
  | .form =>
    [(formValue e req n).map .text, (queryValue req n).map .text, (payloadValue req n).map .text]
  | .multipart =>
    [(queryValue req n).map .text, (fieldValue req n).map .text, (fileValue req n).map .text,
      (filenameValue req n).map .text, (payloadValue req n).map .text]

def offers (e : BodyEngine) (route : Route) (req : Request) (n : Str) : List (Option Offer) :=
  (stampValue req n).map .text :: (pathValue req n).map .text ::
    if takesDeclared route n then [(declaredValue route req n).map .text] else bodyOffers e req n

/-- What a parameter that nothing provides is bound to. -/
def absentResolved (ctx : RouteContext) (spec : Option ParamSpec) (n : Str) : Resolved :=
  match spec.bind ParamSpec.default with
  | none => .missing (missingLoc ctx spec n)
  | some .null => .nullDefault
  | some (.literal raw v) => .text (missingLoc ctx spec n) raw (some v)

def firstOffer (offered : List (Option Offer)) : Option Offer := offered.findSome? id

def resolveOffers (ctx : RouteContext) (spec : Option ParamSpec) (n : Str)
    (offered : List (Option Offer)) : Resolved :=
  match firstOffer offered with
  | some offer => offer.resolved
  | none => absentResolved ctx spec n

section
variable {route : Route} {req : Request} {n : Str} {e : BodyEngine} {needs : List FieldNeed}
  {provided : Provided} {sources : Sources}

theorem mem_captures_of_matchSegments {patternSegments pathSegments : List Str}
    {captures : List (Str × Str)} {d : Str}
    (hmatch : Http.matchSegments patternSegments pathSegments = some captures)
    (h : ∃ s ∈ patternSegments, segmentCapture s = some d) : ∃ p ∈ captures, p.1 = d := by
  fun_induction Http.matchSegments patternSegments pathSegments generalizing captures with
  | case1 => simp at h
  | case2 ps patternSegments s pathSegments name hname ih =>
    obtain ⟨rest, hrest, rfl⟩ := Option.map_eq_some_iff.mp hmatch
    obtain ⟨segment, hmem, hcapture⟩ := h
    rcases List.mem_cons.mp hmem with rfl | hmem
    · rw [hname] at hcapture
      cases hcapture
      exact ⟨_, List.mem_cons_self, rfl⟩
    · obtain ⟨p, hp, heq⟩ := ih hrest ⟨segment, hmem, hcapture⟩
      exact ⟨p, List.mem_cons_of_mem _ hp, heq⟩
  | case3 patternSegments s pathSegments hnone ih =>
    obtain ⟨segment, hmem, hcapture⟩ := h
    rcases List.mem_cons.mp hmem with rfl | hmem
    · rw [hnone] at hcapture
      cases hcapture
    · exact ih hmatch ⟨segment, hmem, hcapture⟩
  | _ => cases hmatch

theorem mem_captures_of_isPathParam {pattern path d : Str} {captures : List (Str × Str)}
    (hmatch : Http.matchPattern pattern path = some captures) (h : isPathParam pattern d = true) :
    ∃ p ∈ captures, p.1 = d := by
  unfold Http.matchPattern at hmatch
  split at hmatch
  · obtain ⟨segment, hmem, hcapture⟩ := List.any_eq_true.mp h
    exact mem_captures_of_matchSegments hmatch ⟨segment, hmem, of_decide_eq_true hcapture⟩
  · cases hmatch

theorem pathValue_of_isPathParam {path d : Str} (hd : lower d = lower n)
    (hmatch : Http.matchPattern route.pattern path = some req.pathParams)
    (h : isPathParam route.pattern d = true) : (pathValue req n).isSome := by
  obtain ⟨p, hp, rfl⟩ := mem_captures_of_isPathParam hmatch h
  rw [pathValue, lastValue, Option.isSome_map, Option.isSome_map, List.find?_isSome]
  exact ⟨p, List.mem_reverse.mpr hp, decide_eq_true hd⟩

theorem isClaimsParam_congr {d : Str} (hd : lower d = lower n) (h : isClaimsParam n = none) :
    isClaimsParam d = none := by
  have hlength : d.length = n.length := by
    have hlower := congrArg List.length hd
    simpa only [lower, List.length_map] using hlower
  unfold isClaimsParam at h ⊢
  rw [hd, hlength]
  split_ifs at h ⊢
  · rfl
  · rfl

theorem fieldNeed_of_absent {path d : Str} (hd : lower d = lower n)
    (hmatch : Http.matchPattern route.pattern path = some req.pathParams)
    (hpath : pathValue req n = none) (hbody : lower n ≠ "body".toList)
    (hclaim : isClaimsParam n = none) (htakes : takesDeclared route n = false)
    (habsent : provided.find n = none) :
    fieldNeed route provided d = .field ∨ fieldNeed route provided d = .optionalField := by
  have hdbody : lower d ≠ "body".toList := hd ▸ hbody
  have hdclaim : (isClaimsParam d).isSome = false := by rw [isClaimsParam_congr hd hclaim]; rfl
  have hdabsent : (provided.find d).isSome = false := by
    rw [CiMap.find, hd]
    exact Option.isSome_eq_false_iff.mpr (Option.isNone_iff_eq_none.mpr habsent)
  have hdpath : isPathParam route.pattern d = false := by
    rcases h : isPathParam route.pattern d with _ | _
    · rfl
    · have hcapture := pathValue_of_isPathParam hd hmatch h
      rw [hpath] at hcapture
      cases hcapture
  have hspec : findParamSpec route.params d = findParamSpec route.params n := by
    simp only [findParamSpec, hd]
  unfold fieldNeed
  rw [if_neg hdbody, hdclaim, hdabsent, hdpath, hspec]
  rw [takesDeclared] at htakes
  rcases hfound : findParamSpec route.params n with _ | spec
  · exact .inl rfl
  · rw [hfound] at htakes
    have hquery : spec.source = .query := by simpa using htakes
    rcases hdefault : spec.default with _ | literal
    · left
      simp [hquery, hdefault]
    · right
      simp [hquery, hdefault]

/-- A parameter of a route for which the order of the sources is settled: it is no claim, it goes
under no other name in the query, the request matched the route, and what the body is read for
names it. A declared header or cookie is declared once and has neither a capture nor a stamp of its
name; the name of an uploaded file has no other source; no member of a JSON body is called like the
body as a whole. -/
structure Settled (e : BodyEngine) (route : Route) (req : Request) (n : Str) : Prop
    extends DeclaredApart route req n where
  noClaim : isClaimsParam n = none
  noAlias : ∀ s, findParamSpec route.params n = some s → s.source = .query → s.externalName = []
  matched : ∃ path, Http.matchPattern route.pattern path = some req.pathParams
  named : bodyKind req = .json ∨ lower n = "body".toList →
    ∃ d ∈ route.handler.dollarNames, lower d = lower n
  filename : bodyKind req = .multipart → (filenameValue req n).isSome →
    pathValue req n = none ∧ declaredValue route req n = none ∧ queryValue req n = none ∧
      fieldValue req n = none ∧ fileValue req n = none
  payload : bodyKind req = .json → lower n = "body".toList → memberField e req n = none

def handlerNeeds (route : Route) (req : Request) : List FieldNeed :=
  route.handler.dollarNames.map (fieldNeed route (providedParams route req))

theorem requestSources_ok (h : requestSources e route req = .ok sources) :
    (bodyKind req = .unread ∧ sources = ⟨providedParams route req, .empty, .empty, none⟩) ∨
      (bodyKind req = .json ∧ req.body = [] ∧ FieldNeed.wholeBody ∉ handlerNeeds route req ∧
        sources = ⟨providedParams route req, .empty, .empty, none⟩) ∨
      (bodyKind req = .json ∧
        jsonSources e route req (providedParams route req) (handlerNeeds route req) = .ok sources) ∨
      (bodyKind req = .form ∧ sources = ⟨provideWholeBody
        (provideForm e (providedParams route req) req) req (handlerNeeds route req), .empty, .empty,
          none⟩) ∨
      (bodyKind req = .multipart ∧ sources = ⟨provideWholeBody
        (provideMultipart (providedParams route req) req) req (handlerNeeds route req), .empty, .empty,
          none⟩) := by
  unfold requestSources at h
  unfold bodyKind
  dsimp only at h ⊢
  by_cases hmethod : isBodyMethod req.method = true
  · rw [hmethod, Bool.not_true, if_neg Bool.false_ne_true] at h
    rw [hmethod, Bool.not_true, if_neg Bool.false_ne_true]
    by_cases hjson : bodyIsJson req = true
    · rw [if_pos hjson] at h
      rw [if_pos hjson]
      split at h
      · next hempty =>
        cases h
        simp only [Bool.and_eq_true, Bool.not_eq_true', Bool.or_eq_false_iff,
          decide_eq_false_iff_not, not_or, List.isEmpty_iff] at hempty
        exact .inr (.inl ⟨rfl, hempty.1, hempty.2.2.1, rfl⟩)
      · exact .inr (.inr (.inl ⟨rfl, h⟩))
    · rw [if_neg hjson] at h
      rw [if_neg hjson]
      by_cases hform : isFormUrlEncodedMediaType (contentTypeMedia (collectHeaders req.headers)) = true
      · rw [hform, Bool.true_or, if_pos rfl] at h
        rw [hform, if_pos rfl]
        split at h
        · cases h
        · cases h
          exact .inr (.inr (.inr (.inl ⟨rfl, rfl⟩)))
      · rw [eq_false_of_ne_true hform, Bool.false_or] at h
        rw [eq_false_of_ne_true hform, if_neg Bool.false_ne_true]
        split at h
        · next hmultipart =>
          rw [if_pos hmultipart]
          split at h
          · cases h
          · cases h
            exact .inr (.inr (.inr (.inr ⟨rfl, rfl⟩)))
        · next hmultipart =>
          rw [if_neg hmultipart]
          split at h
          · cases h
          · split at h
            · cases h
            · cases h
              exact .inl ⟨rfl, rfl⟩
  · rw [eq_false_of_ne_true hmethod] at h
    rw [eq_false_of_ne_true hmethod]
    cases h
    exact .inl ⟨rfl, rfl⟩

theorem firstOffer_cons (o : Option Offer) (l : List (Option Offer)) :
    firstOffer (o :: l) = o.or (firstOffer l) := by
  cases o <;> rfl

theorem firstOffer_nil : firstOffer [] = none := rfl

/-- What the sources have of a parameter, compared with its first offer. -/
structure Offered (sources : Sources) (n : Str) (offer : Option Offer) : Prop where
  value : sources.provided.find n = offer.map Offer.value
  null : (sources.explicitNulls.find n).isSome = offer.any Offer.isNull
  json : ∀ f, offer = some (.member f) → sources.jsonValues.find n = some f.jsonValue

theorem wholeBodyValue_eq (hnamed : lower n = "body".toList →
      ∃ d ∈ route.handler.dollarNames, lower d = lower n) :
    wholeBodyValue req (handlerNeeds route req) n = payloadValue req n := by
  rw [wholeBodyValue, payloadValue]
  split_ifs with hneed hbody
  · rfl
  · rfl
  · obtain ⟨d, hd, hlower⟩ := hnamed ‹_›
    refine absurd (List.mem_map.mpr ⟨d, hd, ?_⟩) hneed
    rw [fieldNeed, if_pos (hlower.trans ‹_›)]
  · rfl

theorem value_text (v : Option (Loc × Str)) : (v.map Offer.text).map Offer.value = v := by
  cases v <;> rfl

theorem offered_text {m : Provided} {v : Option (Loc × Str)} (h : m.find n = v) :
    Offered ⟨m, .empty, .empty, none⟩ n (v.map Offer.text) := by
  refine ⟨h.trans (value_text v).symm, ?_, fun f hf => ?_⟩
  · cases v <;> rfl
  · cases v <;> cases hf

theorem find_readFields {fields : CiMap JsonBodyField} (hsettled : Settled e route req n)
    (htakes : takesDeclared route n = false) (hkind : bodyKind req = .json)
    (hpath : pathValue req n = none) (habsent : (providedParams route req).find n = none)
    (hread : FieldNeed.optionalField ∈ handlerNeeds route req ∨
      FieldNeed.field ∈ handlerNeeds route req → e.extractJson req.body = .ok fields)
    (hunread : ¬ (FieldNeed.optionalField ∈ handlerNeeds route req ∨
      FieldNeed.field ∈ handlerNeeds route req) → fields = .empty) :
    fields.find n = memberField e req n := by
  by_cases hneeds : FieldNeed.optionalField ∈ handlerNeeds route req ∨
      FieldNeed.field ∈ handlerNeeds route req
  · rw [memberField, hread hneeds]
  · rw [hunread hneeds]
    by_cases hbody : lower n = "body".toList
    · exact (hsettled.payload hkind hbody).symm
    · obtain ⟨d, hmem, hd⟩ := hsettled.named (.inl hkind)
      obtain ⟨path, hmatch⟩ := hsettled.matched
      have hasked : ∀ need, fieldNeed route (providedParams route req) d = need →
          need ∈ handlerNeeds route req := fun need hneed => List.mem_map.mpr ⟨d, hmem, hneed⟩
      rcases fieldNeed_of_absent hd hmatch hpath hbody hsettled.noClaim htakes habsent with
        hneed | hneed
      · exact absurd (.inr (hasked _ hneed)) hneeds
      · exact absurd (.inl (hasked _ hneed)) hneeds

theorem offered_of_plain (hsettled : Settled e route req n) (htakes : takesDeclared route n = false)
    (hempty : ∀ fields, e.extractJson [] ≠ .ok fields) (h : requestSources e route req = .ok sources) :
    Offered sources n (firstOffer (offers e route req n)) := by
  have hdeclared : declaredValue route req n = none := declaredValue_eq_none htakes
  have hprovided := find_providedParams hsettled.toDeclaredApart
  rw [hdeclared, Option.none_or] at hprovided
  have hwhole : wholeBodyValue req (handlerNeeds route req) n = payloadValue req n :=
    wholeBodyValue_eq fun hbody => hsettled.named (.inr hbody)
  have hoffers : firstOffer (offers e route req n) = ((stampValue req n).map .text).or
      (((pathValue req n).map .text).or (firstOffer (bodyOffers e req n))) := by
    rw [offers, htakes, if_neg Bool.false_ne_true, firstOffer_cons, firstOffer_cons]
  rw [hoffers, bodyOffers]
  rcases requestSources_ok h with ⟨hkind, rfl⟩ | ⟨hkind, hbody, hneed, rfl⟩ | ⟨hkind, hjson⟩ |
    ⟨hkind, rfl⟩ | ⟨hkind, rfl⟩
  · simp only [hkind, firstOffer_cons, firstOffer_nil, Option.or_none, ← Option.map_or]
    exact offered_text hprovided
  · have hmember : memberField e req n = none := by
      rw [memberField, hbody]
      rcases hread : e.extractJson [] with _ | fields
      · rfl
      · exact absurd hread (hempty fields)
    have hpayload : payloadValue req n = none := by
      rw [← hwhole, wholeBodyValue, if_neg hneed]
    simp only [hkind, firstOffer_cons, firstOffer_nil, hmember, hpayload, Option.map_none,
      Option.or_none, ← Option.map_or]
    exact offered_text hprovided
  · have hfold : ∀ rest : Option Offer, ((stampValue req n).map .text).or
        (((pathValue req n).map .text).or (((queryValue req n).map .text).or rest)) =
          (((providedParams route req).find n).map .text).or rest := by
      intro rest
      rw [hprovided, Option.map_or, Option.map_or, Option.or_assoc, Option.or_assoc]
    simp only [hkind, firstOffer_cons, firstOffer_nil, Option.or_none, hfold]
    obtain ⟨fields, hread, hunread, hfilled⟩ := jsonSources_ok hjson
    have hnew : (newMember (providedParams route req) fields).find n =
        if ((providedParams route req).find n).isSome then none else fields.find n := rfl
    have hvalue := hfilled.value n
    have hnull := hfilled.nulls n
    rw [hwhole] at hvalue
    rcases hfound : (providedParams route req).find n with _ | v
    · have hpath : pathValue req n = none := by
        rw [hfound] at hprovided
        exact (Option.or_eq_none_iff.mp (Option.or_eq_none_iff.mp hprovided.symm).2).1
      have hmember := find_readFields hsettled htakes hkind hpath hfound hread hunread
      rw [hfound] at hnew hvalue
      rw [if_neg (by simp), hmember] at hnew
      rw [hnew, Option.none_or] at hvalue
      rw [hnew] at hnull
      rw [Option.map_none, Option.none_or]
      rcases hoffered : memberField e req n with _ | field
      · rw [hoffered] at hvalue hnull
        refine ⟨hvalue.trans (value_text _).symm, hnull.trans ?_, fun f hf => ?_⟩
        · cases payloadValue req n <;> rfl
        · cases hpayload : payloadValue req n <;> rw [hpayload] at hf <;> cases hf
      · rw [hoffered] at hvalue hnull
        refine ⟨hvalue, hnull, fun f hf => ?_⟩
        cases hf
        exact hfilled.json n field (hnew.trans hoffered)
    · rw [hfound] at hnew hvalue
      rw [if_pos Option.isSome_some] at hnew
      rw [hnew] at hnull hvalue
      exact ⟨hvalue, hnull, fun f hf => by cases hf⟩
  · simp only [hkind, firstOffer_cons, firstOffer_nil, Option.or_none, ← Option.map_or]
    refine offered_text ?_
    rw [find_provideWholeBody, find_provideForm, hprovided, hwhole]
    rcases hstamp : stampValue req n with _ | stamp
    · rcases hpath : pathValue req n with _ | capture
      · have hall : ((queryValue req n).all fun v => decide (v.1 = .query)) = true := by
          rcases hquery : queryValue req n with _ | v
          · rfl
          · exact decide_eq_true (queryValue_loc hquery)
        simp only [Option.none_or, hall, if_true, Option.or_assoc]
      · simp [pathValue_loc hpath]
    · simp [stampValue_loc hstamp]
  · simp only [hkind, firstOffer_cons, firstOffer_nil, Option.or_none, ← Option.map_or]
    refine offered_text ?_
    rw [find_provideWholeBody, find_provideMultipart, hprovided, hwhole]
    · simp only [Option.or_assoc]
    · intro hname
      obtain ⟨hpath, _, hquery, hfield, hfile⟩ := hsettled.filename hkind hname
      refine ⟨?_, hfield, hfile⟩
      rw [hprovided, hpath, hquery, stampValue_eq_none hname]
      rfl

def FromQueryOrBody (value : Option (Loc × Str)) : Prop :=
  ∀ v, value = some v → v.1 = .query ∨ v.1 = .body

theorem FromQueryOrBody.or {a b : Option (Loc × Str)} (ha : FromQueryOrBody a)
    (hb : FromQueryOrBody b) : FromQueryOrBody (a.or b) := by
  intro v hv
  rcases a with _ | w
  · exact hb v hv
  · exact ha v hv

theorem fromQueryOrBody_query : FromQueryOrBody (queryValue req n) :=
  fun _ hv => .inl (queryValue_loc hv)

theorem fromQueryOrBody_body {α : Type} (o : Option α) (f : α → Str) :
    FromQueryOrBody (o.map fun a => (Loc.body, f a)) := by
  intro v hv
  obtain ⟨a, _, rfl⟩ := Option.map_eq_some_iff.mp hv
  exact .inr rfl

theorem fromQueryOrBody_wholeBody : FromQueryOrBody (wholeBodyValue req needs n) := by
  intro v hv
  unfold wholeBodyValue payloadValue at hv
  split_ifs at hv
  cases hv
  exact .inr rfl

theorem fromQueryOrBody_file : FromQueryOrBody (fileValue req n) := by
  intro v hv
  obtain ⟨file, _, hpart⟩ := List.exists_of_findSome?_eq_some hv
  unfold partValue at hpart
  split_ifs at hpart <;> cases hpart <;> exact .inr rfl

theorem declared_kept (hsettled : Settled e route req n) (htakes : takesDeclared route n = true)
    (h : requestSources e route req = .ok sources) :
    (∀ v, declaredValue route req n = some v →
        sources.provided.find n = some v ∧ sources.explicitNulls.find n = none) ∧
      (declaredValue route req n = none → FromQueryOrBody (sources.provided.find n)) := by
  obtain ⟨hstamp, hpath⟩ := hsettled.apart htakes
  have hprovided := find_providedParams hsettled.toDeclaredApart
  rw [hstamp, hpath, Option.none_or, Option.none_or] at hprovided
  have hloc : ∀ v, declaredValue route req n = some v → v.1 ≠ .query := by
    intro v hv
    obtain ⟨spec, _, hvalue⟩ := Option.bind_eq_some_iff.mp hv
    rcases specValue_loc hvalue with ⟨_, hloc⟩ | ⟨_, hloc⟩ <;> rw [hloc] <;> decide
  rcases requestSources_ok h with ⟨hkind, rfl⟩ | ⟨hkind, _, _, rfl⟩ | ⟨hkind, hjson⟩ |
    ⟨hkind, rfl⟩ | ⟨hkind, rfl⟩
  · refine ⟨fun v hv => ⟨hprovided.trans (by rw [hv]; rfl), rfl⟩, fun hnone => ?_⟩
    show FromQueryOrBody ((providedParams route req).find n)
    rw [hprovided, hnone]
    exact fromQueryOrBody_query
  · refine ⟨fun v hv => ⟨hprovided.trans (by rw [hv]; rfl), rfl⟩, fun hnone => ?_⟩
    show FromQueryOrBody ((providedParams route req).find n)
    rw [hprovided, hnone]
    exact fromQueryOrBody_query
  · obtain ⟨fields, _, _, hfilled⟩ := jsonSources_ok hjson
    refine ⟨fun v hv => ?_, fun hnone => ?_⟩
    · have hfound : (providedParams route req).find n = some v := hprovided.trans (by rw [hv]; rfl)
      have hnew : (newMember (providedParams route req) fields).find n = none :=
        if_pos (by rw [CiMap.find] at hfound; rw [hfound]; rfl)
      have hnull := hfilled.nulls n
      rw [hnew] at hnull
      refine ⟨?_, Option.not_isSome_iff_eq_none.mp (by rw [hnull]; exact Bool.false_ne_true)⟩
      rw [hfilled.value, hfound]
      rfl
    · rw [hfilled.value, hprovided, hnone]
      exact (fromQueryOrBody_query.or (fromQueryOrBody_body _ _)).or fromQueryOrBody_wholeBody
  · refine ⟨fun v hv => ⟨?_, rfl⟩, fun hnone => ?_⟩
    · show (provideWholeBody _ req _).find n = some v
      rw [find_provideWholeBody, find_provideForm, hprovided, hv]
      simp [hloc v hv]
    · show FromQueryOrBody ((provideWholeBody _ req _).find n)
      rw [find_provideWholeBody, find_provideForm, hprovided, hnone, Option.none_or]
      refine FromQueryOrBody.or ?_ fromQueryOrBody_wholeBody
      split
      · exact (fromQueryOrBody_body _ _).or fromQueryOrBody_query
      · exact fromQueryOrBody_query
  · have halone : (filenameValue req n).isSome →
        (providedParams route req).find n = none ∧ fieldValue req n = none ∧ fileValue req n = none := by
      intro hname
      obtain ⟨_, hdeclared, hquery, hfield, hfile⟩ := hsettled.filename hkind hname
      exact ⟨by rw [hprovided, hdeclared, hquery]; rfl, hfield, hfile⟩
    refine ⟨fun v hv => ⟨?_, rfl⟩, fun hnone => ?_⟩
    · show (provideWholeBody _ req _).find n = some v
      rw [find_provideWholeBody, find_provideMultipart halone, hprovided, hv]
      rfl
    · show FromQueryOrBody ((provideWholeBody _ req _).find n)
      rw [find_provideWholeBody, find_provideMultipart halone, hprovided, hnone, Option.none_or]
      exact (fromQueryOrBody_query.or ((fromQueryOrBody_body _ _).or
        (fromQueryOrBody_file.or (fromQueryOrBody_body _ _)))).or fromQueryOrBody_wholeBody

theorem lookupParam_plain {ctx : RouteContext} (hsettled : Settled e route req n)
    (htakes : takesDeclared route n = false) :
    lookupParam ctx (findParamSpec route.params n) n = ctx.sources.provided.find n := by
  unfold lookupParam
  rw [takesDeclared] at htakes
  rcases hspec : findParamSpec route.params n with _ | spec
  · rfl
  · rw [hspec] at htakes
    have hquery : spec.source = .query := by simpa using htakes
    have hname : spec.externalName = [] := hsettled.noAlias spec hspec hquery
    simp [hquery, hname]

theorem resolveParam_of_lookup {ctx : RouteContext} {spec : Option ParamSpec}
    {offered : List (Option Offer)}
    (hvalue : lookupParam ctx spec n = (firstOffer offered).map Offer.value)
    (hnull : ∀ o, firstOffer offered = some o →
      (ctx.sources.explicitNulls.find n).isSome = o.isNull) :
    resolveParam ctx spec n = resolveOffers ctx spec n offered := by
  unfold resolveParam resolveOffers absentResolved
  rcases hoffer : firstOffer offered with _ | offer
  · rw [hvalue, hoffer]
    rfl
  · rw [hvalue, hoffer]
    simp only [Option.map_some, hnull offer hoffer, Offer.resolved]

theorem resolveParam_text {ctx : RouteContext} {spec : Option ParamSpec} {loc : Loc} {raw : Str}
    (hvalue : lookupParam ctx spec n = some (loc, raw))
    (hnull : ctx.sources.explicitNulls.find n = none) :
    resolveParam ctx spec n = .text loc raw none := by
  unfold resolveParam
  rw [hvalue]
  simp only [hnull, Option.isSome_none, Bool.false_eq_true, if_false]

theorem routeContext_sources {ctx : RouteContext} {claims : List (Str × Str)}
    (h : routeContext e route claims req = .ok ctx) : requestSources e route req = .ok ctx.sources := by
  unfold routeContext at h
  split at h
  · cases h
  · next hsources =>
    cases h
    exact hsources

theorem resolveParam_declared {ctx : RouteContext} {claims : List (Str × Str)}
    (hsettled : Settled e route req n) (htakes : takesDeclared route n = true)
    (h : routeContext e route claims req = .ok ctx) :
    resolveParam ctx (findParamSpec route.params n) n =
      resolveOffers ctx (findParamSpec route.params n) n (offers e route req n) := by
  obtain ⟨hstamp, hpath⟩ := hsettled.apart htakes
  have hoffers : firstOffer (offers e route req n) = (declaredValue route req n).map .text := by
    rw [offers, htakes, if_pos rfl, hstamp, hpath]
    simp only [Option.map_none, firstOffer_cons, firstOffer_nil, Option.none_or, Option.or_none]
  obtain ⟨hkept, hother⟩ := declared_kept hsettled htakes (routeContext_sources h)
  obtain ⟨spec, hspec⟩ : ∃ spec, findParamSpec route.params n = some spec := by
    rw [takesDeclared] at htakes
    rcases hspec : findParamSpec route.params n with _ | spec
    · rw [hspec] at htakes
      cases htakes
    · exact ⟨spec, rfl⟩
  -- the map is asked for the source the declaration names
  have hlookup : lookupParam ctx (some spec) n = declaredValue route req n := by
    have hdeclared : declaredValue route req n =
        specValue (collectHeaders req.headers) (requestCookies req) spec := by
      rw [declaredValue, hspec]
      rfl
    rw [takesDeclared, hspec] at htakes
    have hsource : spec.source ≠ .query := of_decide_eq_true htakes
    have hask : ∃ loc, (loc = Loc.header ∨ loc = Loc.cookie) ∧
        lookupParam ctx (some spec) n =
          (ctx.sources.provided.find n).filter (fun p => decide (p.1 = loc)) ∧
        ∀ v, declaredValue route req n = some v → v.1 = loc := by
      rw [hdeclared]
      rcases hcase : spec.source with _ | _ | _
      · exact absurd hcase hsource
      · refine ⟨.header, .inl rfl, by simp only [lookupParam, hcase], fun v hv => ?_⟩
        rcases specValue_loc hv with ⟨_, hloc⟩ | ⟨hcookie, _⟩
        · exact hloc
        · rw [hcase] at hcookie
          cases hcookie
      · refine ⟨.cookie, .inr rfl, by simp only [lookupParam, hcase], fun v hv => ?_⟩
        rcases specValue_loc hv with ⟨hheader, _⟩ | ⟨_, hloc⟩
        · rw [hcase] at hheader
          cases hheader
        · exact hloc
    obtain ⟨loc, hloc, hask, hvalue⟩ := hask
    rw [hask]
    rcases hfound : declaredValue route req n with _ | v
    · rcases hprovided : ctx.sources.provided.find n with _ | w
      · rfl
      · have hw := hother hfound w hprovided
        have hne : w.1 ≠ loc := by
          rcases hloc with rfl | rfl <;> rcases hw with hw | hw <;> rw [hw] <;> decide
        simp [hne]
    · rw [(hkept v hfound).1]
      simp [hvalue v hfound]
  rw [hspec]
  refine resolveParam_of_lookup ?_ fun o ho => ?_
  · rw [hlookup, hoffers, value_text]
  · rw [hoffers] at ho
    obtain ⟨v, hv, rfl⟩ := Option.map_eq_some_iff.mp ho
    rw [(hkept v hv).2]
    rfl

theorem resolveParam_plain {ctx : RouteContext} {claims : List (Str × Str)}
    (hsettled : Settled e route req n) (htakes : takesDeclared route n = false)
    (hempty : ∀ fields, e.extractJson [] ≠ .ok fields)
    (h : routeContext e route claims req = .ok ctx) :
    resolveParam ctx (findParamSpec route.params n) n =
      resolveOffers ctx (findParamSpec route.params n) n (offers e route req n) := by
  have hoffered := offered_of_plain hsettled htakes hempty (routeContext_sources h)
  refine resolveParam_of_lookup ?_ fun o ho => ?_
  · rw [lookupParam_plain hsettled htakes]
    exact hoffered.value
  · rw [hoffered.null, ho]
    rfl

theorem firstOffer_eq_of_take {l l' : List (Option Offer)} {k : Nat} {o : Offer}
    (htake : l.take k = l'.take k) (h : l[k]? = some (some o)) (h' : l'[k]? = some (some o)) :
    ∃ offer, firstOffer l = some offer ∧ firstOffer l' = some offer := by
  have hsplit : ∀ m : List (Option Offer), m[k]? = some (some o) →
      firstOffer m = (firstOffer (m.take k)).or (some o) := by
    intro m hm
    have hdrop : m.drop k = some o :: m.drop (k + 1) := by
      rw [List.drop_eq_getElem?_toList_append, hm]
      rfl
    conv_lhs => rw [← List.take_append_drop k m, hdrop]
    simp [firstOffer, List.findSome?_append]
  rw [hsplit l h, hsplit l' h', htake]
  rcases firstOffer (l'.take k) with _ | offer
  · exact ⟨o, rfl, rfl⟩
  · exact ⟨offer, rfl, rfl⟩

end

/-- A parameter takes its value from the first of its sources that has one; a `VARIANT` parameter
that takes a member takes the member's own JSON text. Two requests that agree on the sources down to
one that has a value give the same, whatever else they bring. -/
theorem source_precedence (e : BodyEngine) (hempty : ∀ fields, e.extractJson [] ≠ .ok fields)
    (route : Route) (n : Str) (req : Request) (claims : List (Str × Str)) (ctx : RouteContext)
    (hsettled : Settled e route req n) (hctx : routeContext e route claims req = .ok ctx) :
    resolveParam ctx (findParamSpec route.params n) n =
        resolveOffers ctx (findParamSpec route.params n) n (offers e route req n) ∧
      (∀ field, firstOffer (offers e route req n) = some (.member field) →
        ctx.sources.jsonValues.find n = some field.jsonValue) ∧
      ∀ (req' : Request) (claims' : List (Str × Str)) (ctx' : RouteContext),
        Settled e route req' n → routeContext e route claims' req' = .ok ctx' →
        ∀ (k : Nat) (o : Offer),
          (offers e route req n).take k = (offers e route req' n).take k →
          (offers e route req n)[k]? = some (some o) →
          (offers e route req' n)[k]? = some (some o) →
            resolveParam ctx' (findParamSpec route.params n) n =
              resolveParam ctx (findParamSpec route.params n) n := by
  have hresolve : ∀ (req : Request) (claims : List (Str × Str)) (ctx : RouteContext),
      Settled e route req n → routeContext e route claims req = .ok ctx →
        resolveParam ctx (findParamSpec route.params n) n =
          resolveOffers ctx (findParamSpec route.params n) n (offers e route req n) := by
    intro req claims ctx hsettled hctx
    rcases htakes : takesDeclared route n with _ | _
    · exact resolveParam_plain hsettled htakes hempty hctx
    · exact resolveParam_declared hsettled htakes hctx
  refine ⟨hresolve req claims ctx hsettled hctx, fun field hfield => ?_, ?_⟩
  · rcases htakes : takesDeclared route n with _ | _
    · exact (offered_of_plain hsettled htakes hempty (routeContext_sources hctx)).json field hfield
    · obtain ⟨hstamp, hpath⟩ := hsettled.apart htakes
      rw [offers, htakes, if_pos rfl, hstamp, hpath] at hfield
      rcases hvalue : declaredValue route req n with _ | v <;> rw [hvalue] at hfield <;> cases hfield
  · intro req' claims' ctx' hsettled' hctx' k o htake h h'
    obtain ⟨offer, hoffer, hoffer'⟩ := firstOffer_eq_of_take htake h h'
    rw [hresolve req claims ctx hsettled hctx, hresolve req' claims' ctx' hsettled' hctx',
      resolveOffers, resolveOffers, hoffer, hoffer']

def noJsonEngine : BodyEngine where
  toParamEngine := textEngine.toParamEngine
  extractJson _ := .error ("JSON decode error".toList, "json_invalid".toList)
  validateSchema _ _ := .ok ()
  transformBody _ _ := .ok .null
  hasVariant _ := false
  decodeComponent s := s

def plainRoute (pattern : Str) (names : List Str) : Route where
  pattern := pattern
  params := []
  requireAuth := []
  bodySchema := []
  bodyType := []
  handler := ⟨[], names, fun _ => true, fun _ => none⟩

def renameRequest : Request where
  method := "POST".toList
  params := [("name".toList, "a".toList), ("id".toList, "8".toList)]
  pathParams := [("id".toList, "7".toList)]
  headers := [("content-type".toList, "application/x-www-form-urlencoded".toList)]
  body := "name=b&id=9".toList
  formFields := []
  formFiles := []
  requestId := "r".toList
  traceId := []
  spanId := []

theorem renameRequest_name : ∃ ctx,
    routeContext noJsonEngine (plainRoute "/items/:id".toList ["id".toList, "name".toList]) []
        renameRequest = .ok ctx ∧
      resolveParam ctx none "name".toList = .text .body "b".toList none ∧
      resolveParam ctx none "id".toList = .text .path "7".toList none := by
  have hempty : ∀ fields, noJsonEngine.extractJson [] ≠ .ok fields := nofun
  have hkind : bodyKind renameRequest = .form := by decide
  have hmatched : Http.matchPattern "/items/:id".toList "/items/7".toList =
      some renameRequest.pathParams := by decide
  have hsettled : ∀ n ∈ ["id".toList, "name".toList], isClaimsParam n = none →
      Settled noJsonEngine (plainRoute "/items/:id".toList ["id".toList, "name".toList]) renameRequest
        n := by
    intro n hn hclaim
    refine ⟨⟨fun s hs => (by cases hs), fun h => (by cases h)⟩, hclaim, fun s hs => (by cases hs),
      ⟨_, hmatched⟩, fun _ => ⟨n, hn, rfl⟩, fun h => ?_, fun h => ?_⟩
    · rw [hkind] at h
      cases h
    · rw [hkind] at h
      cases h
  have hname : firstOffer (offers noJsonEngine
      (plainRoute "/items/:id".toList ["id".toList, "name".toList]) renameRequest "name".toList) =
        some (.text (.body, "b".toList)) := by
    have hstamp : stampValue renameRequest "name".toList = none := by decide
    have hpath : pathValue renameRequest "name".toList = none := by decide
    have hform : formValue noJsonEngine renameRequest "name".toList = some (.body, "b".toList) := by
      decide
    simp only [offers, bodyOffers, hkind, hstamp, hpath, hform]
    rfl
  have hid : firstOffer (offers noJsonEngine
      (plainRoute "/items/:id".toList ["id".toList, "name".toList]) renameRequest "id".toList) =
        some (.text (.path, "7".toList)) := by
    have hstamp : stampValue renameRequest "id".toList = none := by decide
    have hpath : pathValue renameRequest "id".toList = some (.path, "7".toList) := by decide
    simp only [offers, hstamp, hpath]
    rfl
  refine ⟨_, rfl, ?_, ?_⟩
  · refine (source_precedence noJsonEngine hempty _ "name".toList renameRequest [] _
      (hsettled _ (by decide) (by decide)) rfl).1.trans ?_
    rw [resolveOffers, hname]
    rfl
  · refine (source_precedence noJsonEngine hempty _ "id".toList renameRequest [] _
      (hsettled _ (by decide) (by decide)) rfl).1.trans ?_
    rw [resolveOffers, hid]
    rfl

/-- A multipart upload of one file `a`, to a path that captures a name of its own for it. -/
def uploadRequest : Request where
  method := "POST".toList
  params := []
  pathParams := [("a_filename".toList, "kept".toList)]
  headers := [("content-type".toList, "multipart/form-data; boundary=x".toList)]
  body := []
  formFields := []
  formFiles := [⟨"a".toList, "content".toList, "sent".toList⟩]
  requestId := "r".toList
  traceId := []
  spanId := []

/-- A parameter named like a stamp and declared as a header, which the client sends. -/
def stampedRoute : Route :=
  { plainRoute "/r".toList ["request_id".toList] with
    params := [{ name := "request_id".toList, source := .header }] }

def stampedRequest : Request :=
  { uploadRequest with
    pathParams := []
    headers := [("request-id".toList, "forged".toList)]
    formFiles := [] }

/-- The file's name is also bound as `filename`, which names no source; it takes the place of a path
capture; and a declared header takes the place of the server's own request id. -/
theorem uploadRequest_filename :
    (∃ ctx, routeContext noJsonEngine
        (plainRoute "/files/:a_filename".toList ["filename".toList, "a_filename".toList]) []
        uploadRequest = .ok ctx ∧
      resolveParam ctx none "filename".toList = .text .body "sent".toList none ∧
      (stampValue uploadRequest "filename".toList = none ∧
        pathValue uploadRequest "filename".toList = none ∧
        queryValue uploadRequest "filename".toList = none ∧
        fieldValue uploadRequest "filename".toList = none ∧
        (∀ file ∈ uploadRequest.formFiles, lower file.name ≠ "filename".toList) ∧
        filenameValue uploadRequest "filename".toList = none) ∧
      pathValue uploadRequest "a_filename".toList = some (.path, "kept".toList) ∧
      resolveParam ctx none "a_filename".toList = .text .body "sent".toList none) ∧
    ∃ ctx, routeContext noJsonEngine stampedRoute [] stampedRequest = .ok ctx ∧
      stampValue stampedRequest "request_id".toList = some (.server, "r".toList) ∧
      resolveParam ctx (findParamSpec stampedRoute.params "request_id".toList) "request_id".toList =
        .text .header "forged".toList none := by
  have hname : lower "a".toList ≠ "filename".toList := by decide
  refine ⟨⟨_, rfl, ?_, ⟨by decide, by decide, by decide, by decide, fun file hfile => ?_, by decide⟩,
    by decide, ?_⟩, ⟨_, rfl, by decide, ?_⟩⟩
  · exact resolveParam_text (by decide) rfl
  · rw [List.mem_singleton.mp hfile]
    exact hname
  · exact resolveParam_text (by decide) rfl
  · exact resolveParam_text (by decide) rfl

end Quackapi.Params
