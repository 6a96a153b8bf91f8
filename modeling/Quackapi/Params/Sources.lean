import Quackapi.Params.Binding

/-! The sources of a parameter, each for itself, and what the map that a request fills has of them
after each of its steps: some overwrite, some fill gaps, some give way to some. -/

namespace Quackapi.Params
open Library

def stampValue (req : Request) (n : Str) : Option (Loc × Str) :=
  if lower n = "request_id".toList then some (.server, req.requestId)
  else if lower n = "trace_id".toList then some (.server, req.traceId)
  else if lower n = "span_id".toList then some (.server, req.spanId)
  else none

def lastValue (pairs : List (Str × Str)) (n : Str) : Option Str :=
  (pairs.reverse.find? fun p => decide (lower p.1 = lower n)).map Prod.snd

def firstValue (pairs : List (Str × Str)) (n : Str) : Option Str :=
  (pairs.find? fun p => decide (lower p.1 = lower n)).map Prod.snd

def pathValue (req : Request) (n : Str) : Option (Loc × Str) :=
  (lastValue req.pathParams n).map (Loc.path, ·)

def queryValue (req : Request) (n : Str) : Option (Loc × Str) :=
  (lastValue req.params n).map (Loc.query, ·)

def requestCookies (req : Request) : CiMap Str :=
  (((collectHeaders req.headers).find "Cookie".toList).map parseCookieHeader).getD .empty

/-- What the header or cookie of a declaration brings. -/
def specValue (headers cookies : CiMap Str) (spec : ParamSpec) : Option (Loc × Str) :=
  match spec.source with
  | .query => none
  | .header => (headers.find (paramWireName spec)).map (Loc.header, ·)
  | .cookie => (cookies.find (paramWireName spec)).map (Loc.cookie, ·)

def declaredValue (route : Route) (req : Request) (n : Str) : Option (Loc × Str) :=
  (findParamSpec route.params n).bind (specValue (collectHeaders req.headers) (requestCookies req))

def takesDeclared (route : Route) (n : Str) : Bool :=
  (findParamSpec route.params n).any fun s => decide (s.source ≠ .query)

def formValue (e : BodyEngine) (req : Request) (n : Str) : Option (Loc × Str) :=
  ((parseFormUrlEncoded e req.body).find n).map (Loc.body, ·)

def memberField (e : BodyEngine) (req : Request) (n : Str) : Option JsonBodyField :=
  match e.extractJson req.body with
  | .ok fields => fields.find n
  | .error _ => none

def fieldValue (req : Request) (n : Str) : Option (Loc × Str) :=
  (firstValue req.formFields n).map (Loc.body, ·)

/-- What a file offers under its part's name, and under the alias for its file name. -/
def partValue (n : Str) (file : FormFile) : Option (Loc × Str) :=
  if lower n = lower file.name then some (.body, file.content)
  else if lower n = "filename".toList then some (.body, file.filename)
  else none

def fileValue (req : Request) (n : Str) : Option (Loc × Str) := req.formFiles.findSome? (partValue n)

/-- The name is a file part's with `_filename` after it. -/
def isFilenameOf (n : Str) (file : FormFile) : Bool :=
  decide (lower n = lower (file.name ++ "_filename".toList))

def filenameValue (req : Request) (n : Str) : Option (Loc × Str) :=
  (req.formFiles.reverse.find? (isFilenameOf n)).map fun file => (Loc.body, file.filename)

def payloadValue (req : Request) (n : Str) : Option (Loc × Str) :=
  if lower n = "body".toList then some (.body, req.body) else none

namespace CiMap
variable {α : Type}

theorem find_setIfAbsent (m : CiMap α) (key name : Str) (a : α) :
    (m.setIfAbsent key a).find name =
      if lower name = lower key then (m.find name).or (some a) else m.find name := by
  by_cases hkey : lower name = lower key
  · have hsame : m.find key = m.find name := by rw [find, find, hkey]
    rw [if_pos hkey, setIfAbsent, hsame]
    rcases h : m.find name with _ | b
    · simp [find_set, hkey]
    · simpa using h
  · rw [if_neg hkey, setIfAbsent]
    split
    · rfl
    · rw [find_set, if_neg hkey]

theorem find_setAll_last (m : CiMap α) (l : List (Str × α)) (name : Str) :
    (m.setAll l).find name =
      ((l.reverse.find? fun p => decide (lower p.1 = lower name)).map Prod.snd).or (m.find name) := by
  induction l generalizing m with
  | nil => rfl
  | cons p l ih =>
    have hstep : (m.setAll (p :: l)).find name = ((m.set p.1 p.2).setAll l).find name := rfl
    rw [hstep, ih, find_set, List.reverse_cons, List.find?_append, List.find?_singleton]
    by_cases hname : lower p.1 = lower name
    · simp [hname]
    · simp [hname, Ne.symm hname]

theorem find_foldl_setIfAbsent {β : Type} (f : β → Str × α) (m : CiMap α) (l : List β) (name : Str) :
    (l.foldl (fun m p => m.setIfAbsent (f p).1 (f p).2) m).find name =
      (m.find name).or ((l.find? fun p => decide (lower (f p).1 = lower name)).map fun p => (f p).2) := by
  induction l generalizing m with
  | nil => simp
  | cons p l ih =>
    rw [List.foldl_cons, ih, find_setIfAbsent, List.find?_cons]
    by_cases hname : lower (f p).1 = lower name
    · simp [hname]
    · simp [hname, Ne.symm hname]

end CiMap

section
variable {route : Route} {req : Request} {n : Str}

theorem stampValue_loc {v : Loc × Str} (h : stampValue req n = some v) : v.1 = .server := by
  unfold stampValue at h
  split_ifs at h <;> cases h <;> rfl

theorem pathValue_loc {v : Loc × Str} (h : pathValue req n = some v) : v.1 = .path := by
  obtain ⟨raw, _, rfl⟩ := Option.map_eq_some_iff.mp h
  rfl

theorem queryValue_loc {v : Loc × Str} (h : queryValue req n = some v) : v.1 = .query := by
  obtain ⟨raw, _, rfl⟩ := Option.map_eq_some_iff.mp h
  rfl

theorem find_provideStamps (m : Provided) :
    (provideStamps m req).find n = (stampValue req n).or (m.find n) := by
  have hrequest : lower "request_id".toList = "request_id".toList := by decide
  have htrace : lower "trace_id".toList = "trace_id".toList := by decide
  have hspan : lower "span_id".toList = "span_id".toList := by decide
  rw [provideStamps, CiMap.find_set, CiMap.find_set, CiMap.find_set, hrequest, htrace, hspan,
    stampValue]
  by_cases hr : lower n = "request_id".toList
  · have ht : lower n ≠ "trace_id".toList := by rw [hr]; decide
    have hs : lower n ≠ "span_id".toList := by rw [hr]; decide
    simp only [if_neg hs, if_neg ht, if_pos hr, Option.some_or]
  · by_cases ht : lower n = "trace_id".toList
    · have hs : lower n ≠ "span_id".toList := by rw [ht]; decide
      simp only [if_neg hs, if_pos ht, if_neg hr, Option.some_or]
    · by_cases hs : lower n = "span_id".toList
      · simp only [if_pos hs, if_neg hr, if_neg ht, Option.some_or]
      · simp only [if_neg hs, if_neg ht, if_neg hr, Option.none_or]

theorem find_pathAndQuery :
    ((CiMap.empty.setAll (req.params.map fun p => (p.1, Loc.query, p.2))).setAll
        (req.pathParams.map fun p => (p.1, Loc.path, p.2))).find n =
      (pathValue req n).or (queryValue req n) := by
  have hlast : ∀ (loc : Loc) (pairs : List (Str × Str)),
      ((pairs.map fun p => (p.1, loc, p.2)).reverse.find? fun p =>
        decide (lower p.1 = lower n)).map Prod.snd = (lastValue pairs n).map (loc, ·) := by
    intro loc pairs
    rw [← List.map_reverse, List.find?_map, lastValue, Option.map_map, Option.map_map]
    rfl
  rw [CiMap.find_setAll_last, CiMap.find_setAll_last, hlast, hlast]
  simp only [pathValue, queryValue]
  rw [show (CiMap.empty : Provided).find n = none from rfl, Option.or_none]

theorem provideDeclared_eq (headers cookies : CiMap Str) (m : Provided) (spec : ParamSpec) :
    provideDeclared headers cookies m spec =
      match specValue headers cookies spec with
      | none => m
      | some v => if (m.find spec.name).any fun p => decide (p.1 = .path) then m
        else m.set spec.name v := by
  unfold provideDeclared specValue
  cases spec.source with
  | query => rfl
  | header => cases headers.find (paramWireName spec) <;> rfl
  | cookie => cases cookies.find (paramWireName spec) <;> rfl

theorem specValue_loc {headers cookies : CiMap Str} {spec : ParamSpec} {v : Loc × Str}
    (h : specValue headers cookies spec = some v) :
    (spec.source = .header ∧ v.1 = .header) ∨ (spec.source = .cookie ∧ v.1 = .cookie) := by
  unfold specValue at h
  rcases hsource : spec.source <;> rw [hsource] at h
  · cases h
  · obtain ⟨raw, _, rfl⟩ := Option.map_eq_some_iff.mp h
    exact .inl ⟨rfl, rfl⟩
  · obtain ⟨raw, _, rfl⟩ := Option.map_eq_some_iff.mp h
    exact .inr ⟨rfl, rfl⟩

theorem find_provideDeclared_other {headers cookies : CiMap Str} {m : Provided} {spec : ParamSpec}
    (h : lower n ≠ lower spec.name) :
    (provideDeclared headers cookies m spec).find n = m.find n := by
  rw [provideDeclared_eq]
  split
  · rfl
  · split
    · rfl
    · rw [CiMap.find_set, if_neg h]

theorem find_provideDeclared_same {headers cookies : CiMap Str} {m : Provided} {spec : ParamSpec}
    (h : lower n = lower spec.name) :
    (provideDeclared headers cookies m spec).find n =
      if (m.find n).any fun p => decide (p.1 = .path) then m.find n
      else (specValue headers cookies spec).or (m.find n) := by
  have hsame : m.find spec.name = m.find n := by rw [CiMap.find, CiMap.find, h]
  rw [provideDeclared_eq, hsame]
  rcases specValue headers cookies spec with _ | v
  · simp
  · simp only [Option.some_or]
    split
    · rfl
    · rw [CiMap.find_set, if_pos h]

theorem find_foldl_provideDeclared {headers cookies : CiMap Str} {specs : List ParamSpec}
    {spec : ParamSpec} (honly : ∀ s ∈ specs, lower s.name = lower n → s = spec)
    (hname : lower spec.name = lower n) (m : Provided)
    (hpath : ∀ v, m.find n = some v → v.1 ≠ .path) :
    (specs.foldl (provideDeclared headers cookies) m).find n =
      if spec ∈ specs then (specValue headers cookies spec).or (m.find n) else m.find n := by
  induction specs generalizing m with
  | nil => rfl
  | cons s specs ih =>
    have honly' : ∀ t ∈ specs, lower t.name = lower n → t = spec :=
      fun t ht => honly t (List.mem_cons_of_mem s ht)
    rw [List.foldl_cons]
    by_cases hs : lower s.name = lower n
    · have hspec : s = spec := honly s List.mem_cons_self hs
      subst hspec
      have hnot : ((m.find n).any fun p => decide (p.1 = .path)) = false := by
        rcases hm : m.find n with _ | v
        · rfl
        · exact decide_eq_false (hpath v hm)
      have hstep : (provideDeclared headers cookies m s).find n =
          (specValue headers cookies s).or (m.find n) := by
        rw [find_provideDeclared_same hs.symm, hnot]
        rfl
      rw [ih honly' _ ?_, hstep, if_pos List.mem_cons_self]
      · split
        · rw [← Option.or_assoc, Option.or_self]
        · rfl
      · intro v hv
        rw [hstep] at hv
        rcases hvalue : specValue headers cookies s with _ | w <;> rw [hvalue] at hv
        · exact hpath v hv
        · cases hv
          rcases specValue_loc hvalue with ⟨_, hloc⟩ | ⟨_, hloc⟩ <;> rw [hloc] <;> decide
    · have hstep : (provideDeclared headers cookies m s).find n = m.find n :=
        find_provideDeclared_other fun h => hs h.symm
      have hne : spec ≠ s := fun h => hs (h ▸ hname)
      rw [ih honly' _ (hstep ▸ hpath), hstep]
      simp only [List.mem_cons, hne, false_or]

theorem find_foldl_provideDeclared_path {headers cookies : CiMap Str} {specs : List ParamSpec}
    {m : Provided} (hpath : ((m.find n).any fun p => decide (p.1 = .path)) = true) :
    (specs.foldl (provideDeclared headers cookies) m).find n = m.find n := by
  induction specs generalizing m with
  | nil => rfl
  | cons s specs ih =>
    have hstep : (provideDeclared headers cookies m s).find n = m.find n := by
      by_cases hs : lower n = lower s.name
      · rw [find_provideDeclared_same hs, if_pos hpath]
      · exact find_provideDeclared_other hs
    rw [List.foldl_cons, ih (hstep ▸ hpath), hstep]

theorem find_foldl_provideDeclared_none {headers cookies : CiMap Str} {specs : List ParamSpec}
    {m : Provided} (hnone : ∀ s ∈ specs, lower n ≠ lower s.name) :
    (specs.foldl (provideDeclared headers cookies) m).find n = m.find n := by
  induction specs generalizing m with
  | nil => rfl
  | cons s specs ih =>
    rw [List.foldl_cons, ih fun t ht => hnone t (List.mem_cons_of_mem s ht)]
    exact find_provideDeclared_other (hnone s List.mem_cons_self)

/-- The name is declared at most once, and as a header or cookie only where neither the path nor the
server has a value of the name. -/
structure DeclaredApart (route : Route) (req : Request) (n : Str) : Prop where
  once : ∀ s ∈ route.params, lower s.name = lower n → findParamSpec route.params n = some s
  apart : takesDeclared route n = true → stampValue req n = none ∧ pathValue req n = none

theorem declaredValue_eq_none (h : takesDeclared route n = false) : declaredValue route req n = none := by
  rw [declaredValue]
  rcases hspec : findParamSpec route.params n with _ | spec
  · rfl
  · rw [takesDeclared, hspec] at h
    have hquery : spec.source = .query := by simpa using h
    simp [specValue, hquery]

theorem find_providedParams (h : DeclaredApart route req n) :
    (providedParams route req).find n =
      (stampValue req n).or ((pathValue req n).or ((declaredValue route req n).or (queryValue req n))) := by
  have hbase : (provideStamps
      ((CiMap.empty.setAll (req.params.map fun p => (p.1, Loc.query, p.2))).setAll
        (req.pathParams.map fun p => (p.1, Loc.path, p.2))) req).find n =
      (stampValue req n).or _ := find_provideStamps _
  rw [find_pathAndQuery] at hbase
  show (route.params.foldl (provideDeclared (collectHeaders req.headers) (requestCookies req))
    (provideStamps _ req)).find n = _
  rcases hspec : findParamSpec route.params n with _ | spec
  · have hdeclared : declaredValue route req n = none := by rw [declaredValue, hspec]; rfl
    have hnone : ∀ s ∈ route.params, lower n ≠ lower s.name := fun s hs heq =>
      List.find?_eq_none.mp hspec s hs (decide_eq_true heq.symm)
    rw [find_foldl_provideDeclared_none hnone, hbase, hdeclared, Option.none_or]
  · have hmem : spec ∈ route.params := List.mem_of_find?_eq_some hspec
    have hname : lower spec.name = lower n := by
      have hfound := List.find?_some (p := fun s : ParamSpec => decide (lower s.name = lower n)) hspec
      exact of_decide_eq_true hfound
    have honly : ∀ s ∈ route.params, lower s.name = lower n → s = spec := fun s hs heq =>
      (Option.some.inj (hspec.symm.trans (h.once s hs heq))).symm
    have hdeclared : declaredValue route req n =
        specValue (collectHeaders req.headers) (requestCookies req) spec := by
      rw [declaredValue, hspec]
      rfl
    rcases hstamp : stampValue req n with _ | stamp
    · rcases hpath : pathValue req n with _ | capture
      · rw [hstamp, hpath] at hbase
        rw [find_foldl_provideDeclared honly hname _ ?_, if_pos hmem, hbase, hdeclared]
        · simp only [Option.none_or]
        · intro v hv
          rw [hbase, Option.none_or, Option.none_or] at hv
          rw [queryValue_loc hv]
          nofun
      · have hcapture : capture.1 = .path := pathValue_loc hpath
        rw [hstamp, hpath] at hbase
        rw [find_foldl_provideDeclared_path, hbase]
        · rfl
        · rw [hbase]
          exact decide_eq_true hcapture
    · have hquery : takesDeclared route n = false := by
        rcases htakes : takesDeclared route n with _ | _
        · rfl
        · have hnone := (h.apart htakes).1
          rw [hstamp] at hnone
          cases hnone
      have hvalue := hdeclared.symm.trans (declaredValue_eq_none hquery)
      rw [hstamp] at hbase
      rw [find_foldl_provideDeclared honly hname _ ?_, if_pos hmem, hbase, hvalue]
      · rfl
      · intro v hv
        rw [hbase] at hv
        cases hv
        rw [stampValue_loc hstamp]
        nofun

/-- What `$body` asks for. -/
def wholeBodyValue (req : Request) (needs : List FieldNeed) (n : Str) : Option (Loc × Str) :=
  if FieldNeed.wholeBody ∈ needs then payloadValue req n else none

variable {e : BodyEngine} {needs : List FieldNeed} {provided : Provided} {sources : Sources}

def newMember (provided : Provided) (fields : CiMap JsonBodyField) : CiMap JsonBodyField :=
  fun k => if (provided k).isSome then none else fields k

/-- The last step of `jsonSources`. -/
def fillSources (req : Request) (needs : List FieldNeed) (provided : Provided)
    (fields : CiMap JsonBodyField) (typed : Option Value) : Except Violation Sources :=
  let new := newMember provided fields
  let merged : Provided := fun k => (provided k).or ((new k).map fun f => (.body, f.value))
  let jsonValues : CiMap Str := fun k => (new k).map JsonBodyField.jsonValue
  let nulls : CiMap Unit := fun k => (new k).bind fun f => if f.explicitNull then some () else none
  if FieldNeed.wholeBody ∈ needs ∧ merged.find "body".toList = none then
    pure ⟨merged.set "body".toList (.body, req.body), jsonValues.set "body".toList req.body, nulls,
      typed⟩
  else pure ⟨merged, jsonValues, nulls, typed⟩

theorem jsonSources_eq : jsonSources e route req provided needs =
    ((if FieldNeed.optionalField ∈ needs ∨ FieldNeed.field ∈ needs then e.extractJson req.body
      else .ok .empty) >>= fun fields =>
      (if !route.bodySchema.isEmpty then e.validateSchema route.bodySchema req.body
        else pure ()) >>= fun _ =>
      (if route.bodyType.isEmpty then .ok none
        else some <$> e.transformBody route.bodyType req.body) >>= fun typed =>
      fillSources req needs provided fields typed) := by
  unfold jsonSources
  split_ifs <;> rfl

structure FilledBy (req : Request) (needs : List FieldNeed) (provided : Provided)
    (fields : CiMap JsonBodyField) (sources : Sources) : Prop where
  value : ∀ n, sources.provided.find n =
    ((provided.find n).or (((newMember provided fields).find n).map fun f => (Loc.body, f.value))).or
      (wholeBodyValue req needs n)
  nulls : ∀ n, (sources.explicitNulls.find n).isSome =
    ((newMember provided fields).find n).any JsonBodyField.explicitNull
  json : ∀ n f, (newMember provided fields).find n = some f →
    sources.jsonValues.find n = some f.jsonValue

theorem filledBy_fillSources {fields : CiMap JsonBodyField} {typed : Option Value}
    (h : fillSources req needs provided fields typed = .ok sources) :
    FilledBy req needs provided fields sources := by
  have hbody : lower "body".toList = "body".toList := by decide
  have hnulls : ∀ n, (CiMap.find (fun k => (newMember provided fields k).bind
      fun f => if f.explicitNull then some () else none) n).isSome =
        ((newMember provided fields).find n).any JsonBodyField.explicitNull := by
    intro n
    simp only [CiMap.find]
    rcases newMember provided fields (lower n) with _ | f
    · rfl
    · cases hnull : f.explicitNull <;> simp [hnull]
  unfold fillSources at h
  dsimp only at h
  split at h
  · next hwhole =>
    obtain ⟨hneed, hfree⟩ := hwhole
    simp only [CiMap.find, hbody] at hfree
    cases h
    refine ⟨fun n => ?_, hnulls, fun n f hf => ?_⟩
    · refine (CiMap.find_set _ _ _ _).trans ?_
      rw [hbody, wholeBodyValue, if_pos hneed, payloadValue]
      by_cases hn : lower n = "body".toList
      · simp only [CiMap.find, hn, hfree, if_true, Option.none_or]
      · simp only [if_neg hn, Option.or_none]
        rfl
    · refine (CiMap.find_set _ _ _ _).trans ?_
      rw [hbody]
      by_cases hn : lower n = "body".toList
      · simp only [CiMap.find, hn] at hf
        have hnone := (Option.or_eq_none_iff.mp hfree).2
        rw [hf] at hnone
        cases hnone
      · rw [if_neg hn]
        exact congrArg (Option.map JsonBodyField.jsonValue) hf
  · next hwhole =>
    cases h
    refine ⟨fun n => ?_, hnulls, fun n f hf => congrArg (Option.map JsonBodyField.jsonValue) hf⟩
    rw [wholeBodyValue, payloadValue]
    split_ifs with hneed hn
    · have hsome : (CiMap.find (fun k => (provided k).or
          ((newMember provided fields k).map fun f => (Loc.body, f.value))) "body".toList) ≠ none :=
        fun hnone => hwhole ⟨hneed, hnone⟩
      simp only [CiMap.find, hbody, hn] at hsome ⊢
      obtain ⟨v, hv⟩ := Option.ne_none_iff_exists'.mp hsome
      rw [hv, Option.some_or]
    · rw [Option.or_none]
      rfl
    · rw [Option.or_none]
      rfl

theorem jsonSources_ok (h : jsonSources e route req provided needs = .ok sources) :
    ∃ fields : CiMap JsonBodyField,
      (FieldNeed.optionalField ∈ needs ∨ FieldNeed.field ∈ needs →
        e.extractJson req.body = .ok fields) ∧
      (¬ (FieldNeed.optionalField ∈ needs ∨ FieldNeed.field ∈ needs) → fields = .empty) ∧
      FilledBy req needs provided fields sources := by
  rw [jsonSources_eq] at h
  obtain ⟨fields, hfields, h⟩ := bind_eq_ok.mp h
  obtain ⟨_, _, h⟩ := bind_eq_ok.mp h
  obtain ⟨typed, _, h⟩ := bind_eq_ok.mp h
  refine ⟨fields, fun hneeds => ?_, fun hneeds => ?_, filledBy_fillSources h⟩
  · rwa [if_pos hneeds] at hfields
  · rw [if_neg hneeds] at hfields
    cases hfields
    rfl

theorem find_provideForm (m : Provided) :
    (provideForm e m req).find n =
      if (m.find n).all fun v => decide (v.1 = .query) then (formValue e req n).or (m.find n)
      else m.find n := by
  have hm : m (lower n) = m.find n := rfl
  have hform : parseFormUrlEncoded e req.body (lower n) =
      (parseFormUrlEncoded e req.body).find n := rfl
  show provideForm e m req (lower n) = _
  unfold provideForm
  rw [hm, hform, formValue]
  rcases m.find n with _ | ⟨loc, raw⟩
  · cases (parseFormUrlEncoded e req.body).find n <;> rfl
  · cases loc <;> cases (parseFormUrlEncoded e req.body).find n <;> rfl

theorem find_provideWholeBody (m : Provided) :
    (provideWholeBody m req needs).find n = (m.find n).or (wholeBodyValue req needs n) := by
  have hbody : lower "body".toList = "body".toList := by decide
  rw [provideWholeBody, wholeBodyValue, payloadValue]
  split
  · rw [CiMap.find_setIfAbsent, hbody]
    split
    · rfl
    · rw [Option.or_none]
  · rw [Option.or_none]

theorem find_provideFields (m : Provided) :
    (req.formFields.foldl (fun m p => m.setIfAbsent p.1 (.body, p.2)) m).find n =
      (m.find n).or (fieldValue req n) := by
  have hfold := CiMap.find_foldl_setIfAbsent (fun p : Str × Str => (p.1, (Loc.body, p.2))) m
    req.formFields n
  rw [hfold, fieldValue, firstValue, Option.map_map]
  rfl

theorem find_provideFile (m : Provided) (file : FormFile) :
    (provideFile m file).find n =
      if isFilenameOf n file then some (.body, file.filename)
      else (m.find n).or (partValue n file) := by
  have halias : lower "filename".toList = "filename".toList := by decide
  rw [provideFile, CiMap.find_setIfAbsent, CiMap.find_set, CiMap.find_setIfAbsent, halias,
    isFilenameOf, partValue]
  by_cases hderived : lower n = lower (file.name ++ "_filename".toList)
  · simp only [hderived, decide_true, if_true, Option.some_or, ite_self]
  · rw [if_neg hderived, decide_eq_false hderived]
    by_cases hname : lower n = lower file.name
    · rw [if_pos hname, if_pos hname, Option.or_assoc]
      split <;> rfl
    · rw [if_neg hname, if_neg hname]
      split
      · rfl
      · rw [Option.or_none]
        rfl

theorem find_foldl_provideFile {files : List FormFile} (m : Provided)
    (hplain : ∀ file ∈ files, isFilenameOf n file = false) :
    (files.foldl provideFile m).find n = (m.find n).or (files.findSome? (partValue n)) := by
  induction files generalizing m with
  | nil => exact (Option.or_none).symm
  | cons file files ih =>
    rw [List.foldl_cons, ih _ fun f hf => hplain f (List.mem_cons_of_mem file hf), find_provideFile,
      hplain file List.mem_cons_self, if_neg Bool.false_ne_true, List.findSome?_cons, Option.or_assoc]
    cases partValue n file <;> rfl

theorem find_foldl_provideFile_filename {files : List FormFile} (m : Provided)
    (hnone : ∀ file ∈ files, partValue n file = none) :
    (files.foldl provideFile m).find n =
      ((files.reverse.find? (isFilenameOf n)).map fun file => (Loc.body, file.filename)).or
        (m.find n) := by
  induction files generalizing m with
  | nil => rfl
  | cons file files ih =>
    rw [List.foldl_cons, ih _ fun f hf => hnone f (List.mem_cons_of_mem file hf), find_provideFile,
      hnone file List.mem_cons_self, List.reverse_cons, List.find?_append, List.find?_singleton,
      Option.or_none, Option.map_or, Option.or_assoc]
    cases isFilenameOf n file <;> rfl

theorem stampValue_eq_none (h : (filenameValue req n).isSome) : stampValue req n = none := by
  rw [filenameValue, Option.isSome_map, List.find?_isSome] at h
  obtain ⟨file, _, hname⟩ := h
  have hlast : (lower n).getLast? = some 'e' := by
    have hname : lower n = lower (file.name ++ "_filename".toList) := of_decide_eq_true hname
    have hsuffix : lower "_filename".toList = "_filename".toList := by decide
    rw [hname, lower, List.map_append, ← lower, ← lower, hsuffix]
    exact List.getLast?_append_of_ne_nil (lower file.name) (by decide)
  unfold stampValue
  split_ifs with hrequest htrace hspan
  · rw [hrequest] at hlast
    exact absurd hlast (by decide)
  · rw [htrace] at hlast
    exact absurd hlast (by decide)
  · rw [hspan] at hlast
    exact absurd hlast (by decide)
  · rfl

theorem find_provideMultipart {m : Provided}
    (hfilename : (filenameValue req n).isSome →
      m.find n = none ∧ fieldValue req n = none ∧ fileValue req n = none) :
    (provideMultipart m req).find n =
      (m.find n).or ((fieldValue req n).or ((fileValue req n).or (filenameValue req n))) := by
  show (req.formFiles.foldl provideFile (req.formFields.foldl
    (fun m p => m.setIfAbsent p.1 (.body, p.2)) m)).find n = _
  rcases hname : filenameValue req n with _ | filename
  · have hplain : ∀ file ∈ req.formFiles, isFilenameOf n file = false := by
      intro file hmem
      have hnone := List.find?_eq_none.mp (Option.map_eq_none_iff.mp hname) file
        (List.mem_reverse.mpr hmem)
      exact Bool.eq_false_iff.mpr hnone
    rw [find_foldl_provideFile _ hplain, find_provideFields, Option.or_none, Option.or_assoc]
    rfl
  · obtain ⟨hm, hfield, hfile⟩ := hfilename (by rw [hname]; rfl)
    have hnone : ∀ file ∈ req.formFiles, partValue n file = none :=
      List.findSome?_eq_none_iff.mp hfile
    rw [find_foldl_provideFile_filename _ hnone, find_provideFields, hm, hfield, hfile]
    exact congrArg (Option.or · none) hname

end

end Quackapi.Params
