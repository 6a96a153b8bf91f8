import Quackapi.Params.Precedence

/-! One slot of the map that a request fills, whatever its name and however it is declared: what the
query, the path and the server put there, the last declaration of the name that the request has a
value for, and the body. -/

namespace Quackapi.Params
open Library

/-- The last declared header or cookie of the name that the request has. -/
def lastDeclared (route : Route) (req : Request) (n : Str) : Option (Loc × Str) :=
  (route.params.reverse.filter fun s => decide (lower s.name = lower n)).findSome?
    (specValue (collectHeaders req.headers) (requestCookies req))

def basicValue (req : Request) (n : Str) : Option (Loc × Str) :=
  (stampValue req n).or ((pathValue req n).or (queryValue req n))

def isPathValue (v : Option (Loc × Str)) : Bool := v.any fun p => decide (p.1 = .path)

def headValue (route : Route) (req : Request) (n : Str) : Option (Loc × Str) :=
  if isPathValue (basicValue req n) then basicValue req n
  else (lastDeclared route req n).or (basicValue req n)

/-- An empty body is read for its members only by a handler that cannot do without. -/
def readsMembers (route : Route) (req : Request) : Bool :=
  let needs := handlerNeeds route req
  decide (FieldNeed.optionalField ∈ needs ∨ FieldNeed.field ∈ needs) &&
    !(req.body.isEmpty && !(!route.bodySchema.isEmpty || !route.bodyType.isEmpty ||
      decide (FieldNeed.wholeBody ∈ needs ∨ FieldNeed.field ∈ needs)))

def memberValue (e : BodyEngine) (route : Route) (req : Request) (n : Str) : Option (Loc × Str) :=
  if readsMembers route req then (memberField e req n).map fun f => (.body, f.value) else none

def partsValue (req : Request) (n : Str) : Option (Loc × Str) := (fieldValue req n).or (fileValue req n)

def slotValue (e : BodyEngine) (route : Route) (req : Request) (n : Str) : Option (Loc × Str) :=
  let head := headValue route req n
  let whole := wholeBodyValue req (handlerNeeds route req) n
  match bodyKind req with
  | .unread => head
  | .json => (head.or (memberValue e route req n)).or whole
  | .form =>
    (if head.all fun v => decide (v.1 = .query) then (formValue e req n).or head else head).or whole
  | .multipart => ((filenameValue req n).or (head.or (partsValue req n))).or whole

section
variable {e : BodyEngine} {route : Route} {req : Request} {n : Str}

theorem find_foldl_provideDeclared_last {headers cookies : CiMap Str} {specs : List ParamSpec}
    {m : Provided} (hm : isPathValue (m.find n) = false) :
    (specs.foldl (provideDeclared headers cookies) m).find n =
      ((specs.reverse.filter fun s => decide (lower s.name = lower n)).findSome?
        (specValue headers cookies)).or (m.find n) := by
  induction specs generalizing m with
  | nil => rfl
  | cons s specs ih =>
    rw [List.foldl_cons, List.reverse_cons, List.filter_append, List.findSome?_append]
    by_cases hs : lower s.name = lower n
    · have hstep : (provideDeclared headers cookies m s).find n =
          (specValue headers cookies s).or (m.find n) := by
        rw [find_provideDeclared_same hs.symm]
        exact if_neg (Bool.eq_false_iff.mp hm)
      have hnext : isPathValue ((provideDeclared headers cookies m s).find n) = false := by
        rw [hstep]
        rcases hvalue : specValue headers cookies s with _ | v
        · exact hm
        · rcases specValue_loc hvalue with ⟨_, hloc⟩ | ⟨_, hloc⟩ <;> simp [isPathValue, hloc]
      have hsingle : ([s].filter fun s => decide (lower s.name = lower n)).findSome?
          (specValue headers cookies) = specValue headers cookies s := by
        cases hvalue : specValue headers cookies s <;> simp [hs, hvalue]
      rw [ih hnext, hstep, hsingle, Option.or_assoc]
    · have hstep : (provideDeclared headers cookies m s).find n = m.find n :=
        find_provideDeclared_other fun h => hs h.symm
      have hsingle : ([s].filter fun s => decide (lower s.name = lower n)) = [] := by
        simp [hs]
      rw [ih (by rw [hstep]; exact hm), hstep, hsingle]
      simp

theorem find_providedParams_eq : (providedParams route req).find n = headValue route req n := by
  have hbase : (provideStamps
      ((CiMap.empty.setAll (req.params.map fun p => (p.1, Loc.query, p.2))).setAll
        (req.pathParams.map fun p => (p.1, Loc.path, p.2))) req).find n = basicValue req n := by
    rw [find_provideStamps, find_pathAndQuery, basicValue]
  show (route.params.foldl (provideDeclared (collectHeaders req.headers) (requestCookies req))
    (provideStamps _ req)).find n = _
  rw [headValue]
  split
  · case isTrue hpath =>
    rw [find_foldl_provideDeclared_path, hbase]
    rw [hbase]
    exact hpath
  · case isFalse hpath =>
    rw [find_foldl_provideDeclared_last, hbase]
    · rfl
    · rw [hbase]
      exact Bool.eq_false_iff.mpr hpath

theorem find_foldl_provideFile_eq {files : List FormFile} (m : Provided) :
    (files.foldl provideFile m).find n =
      ((files.reverse.find? (isFilenameOf n)).map fun file => (Loc.body, file.filename)).or
        ((m.find n).or (files.findSome? (partValue n))) := by
  induction files generalizing m with
  | nil => simp
  | cons file files ih =>
    rw [List.foldl_cons, ih, find_provideFile, List.reverse_cons, List.find?_append,
      List.find?_singleton, List.findSome?_cons]
    rcases hlast : files.reverse.find? (isFilenameOf n) with _ | f
    · cases hfile : isFilenameOf n file <;> cases m.find n <;> cases partValue n file <;> simp
    · simp

theorem find_provideMultipart_eq (m : Provided) : (provideMultipart m req).find n =
    (filenameValue req n).or ((m.find n).or (partsValue req n)) := by
  show (req.formFiles.foldl provideFile (req.formFields.foldl
    (fun m p => m.setIfAbsent p.1 (.body, p.2)) m)).find n = _
  rw [find_foldl_provideFile_eq, find_provideFields, Option.or_assoc]
  rfl

theorem find_form_eq : (provideForm e (providedParams route req) req).find n =
    if (headValue route req n).all fun v => decide (v.1 = .query) then
      (formValue e req n).or (headValue route req n) else headValue route req n := by
  rw [find_provideForm, find_providedParams_eq]

theorem requestSources_json {sources : Sources} (hkind : bodyKind req = .json)
    (h : requestSources e route req = .ok sources) :
    ((∀ need, need = .wholeBody ∨ need = .field → need ∉ handlerNeeds route req) ∧
        readsMembers route req = false ∧
        sources = ⟨providedParams route req, .empty, .empty, none⟩) ∨
      ∃ fields : CiMap JsonBodyField,
        (readsMembers route req = true → e.extractJson req.body = .ok fields) ∧
        (readsMembers route req = false → fields = .empty) ∧
        FilledBy req (handlerNeeds route req) (providedParams route req) fields sources := by
  have hmethod : isBodyMethod req.method = true := by
    by_contra hno
    rw [bodyKind, eq_false_of_ne_true hno] at hkind
    cases hkind
  have hjson : bodyIsJson req = true := by
    by_contra hno
    rw [bodyKind, hmethod, eq_false_of_ne_true hno] at hkind
    simp only [Bool.not_true, Bool.false_eq_true, if_false] at hkind
    split_ifs at hkind
  unfold requestSources at h
  simp only [hmethod, hjson, Bool.not_true, Bool.false_eq_true, if_false, if_true] at h
  change (if req.body.isEmpty && !(!route.bodySchema.isEmpty || !route.bodyType.isEmpty ||
    decide (FieldNeed.wholeBody ∈ handlerNeeds route req ∨ FieldNeed.field ∈ handlerNeeds route req))
      then _ else jsonSources e route req (providedParams route req) (handlerNeeds route req)) = _ at h
  split at h
  · case isTrue hearly =>
    cases h
    refine .inl ⟨?_, ?_, rfl⟩
    · simp only [Bool.and_eq_true, Bool.not_eq_true', Bool.or_eq_false_iff, decide_eq_false_iff_not,
        not_or] at hearly
      rintro need (rfl | rfl)
      · exact hearly.2.2.1
      · exact hearly.2.2.2
    · rw [readsMembers, hearly, Bool.not_true, Bool.and_false]
  · case isFalse hearly =>
    have hreads : readsMembers route req = true ↔ FieldNeed.optionalField ∈ handlerNeeds route req ∨
        FieldNeed.field ∈ handlerNeeds route req := by
      rw [readsMembers, eq_false_of_ne_true hearly, Bool.not_false, Bool.and_true, decide_eq_true_eq]
    obtain ⟨fields, hread, hunread, hfilled⟩ := jsonSources_ok h
    refine .inr ⟨fields, fun h => hread (hreads.mp h), fun h => hunread fun hneeds => ?_, hfilled⟩
    rw [hreads.mpr hneeds] at h
    cases h

theorem find_newMember {fields : CiMap JsonBodyField} :
    (newMember (providedParams route req) fields).find n =
      if (headValue route req n).isSome then none else fields.find n := by
  have hfind : (newMember (providedParams route req) fields).find n =
      if ((providedParams route req).find n).isSome then none else fields.find n := rfl
  rw [hfind, find_providedParams_eq]

theorem find_fields {fields : CiMap JsonBodyField}
    (hread : readsMembers route req = true → e.extractJson req.body = .ok fields)
    (hunread : readsMembers route req = false → fields = .empty) :
    (fields.find n).map (fun f => (Loc.body, f.value)) = memberValue e route req n := by
  rw [memberValue]
  split
  · case isTrue hreads => rw [memberField, hread hreads]
  · case isFalse hreads => rw [hunread (eq_false_of_ne_true hreads)]; rfl

theorem find_sources {sources : Sources} (h : requestSources e route req = .ok sources) :
    sources.provided.find n = slotValue e route req n := by
  rw [slotValue]
  rcases hkind : bodyKind req with _ | _ | _ | _
  · rcases requestSources_ok h with ⟨_, rfl⟩ | ⟨h', _⟩ | ⟨h', _⟩ | ⟨h', _⟩ | ⟨h', _⟩
    · exact find_providedParams_eq
    all_goals rw [hkind] at h'; cases h'
  · rcases requestSources_json hkind h with ⟨hneeds, hreads, rfl⟩ | ⟨fields, hread, hunread, hfilled⟩
    · have hwhole : wholeBodyValue req (handlerNeeds route req) n = none :=
        if_neg (hneeds _ (.inl rfl))
      have hmember : memberValue e route req n = none := by
        rw [memberValue, hreads, if_neg Bool.false_ne_true]
      simp only [hwhole, hmember, Option.or_none]
      exact find_providedParams_eq
    · have hmember := find_fields (n := n) hread hunread
      simp only [hfilled.value, find_newMember, find_providedParams_eq, ← hmember]
      cases headValue route req n <;> simp
  · rcases requestSources_ok h with ⟨h', _⟩ | ⟨h', _⟩ | ⟨h', _⟩ | ⟨_, rfl⟩ | ⟨h', _⟩
    case inr.inr.inr.inl => rw [find_provideWholeBody, find_form_eq]
    all_goals rw [hkind] at h'; cases h'
  · rcases requestSources_ok h with ⟨h', _⟩ | ⟨h', _⟩ | ⟨h', _⟩ | ⟨h', _⟩ | ⟨_, rfl⟩
    case inr.inr.inr.inr =>
      rw [find_provideWholeBody, find_provideMultipart_eq, find_providedParams_eq]
    all_goals rw [hkind] at h'; cases h'

theorem explicitNull_of_member {sources : Sources} (h : requestSources e route req = .ok sources)
    (hnull : (sources.explicitNulls.find n).isSome) :
    bodyKind req = .json ∧ headValue route req n = none ∧ (memberValue e route req n).isSome := by
  have hempty : ¬ ((CiMap.empty : CiMap Unit).find n).isSome := nofun
  rcases requestSources_ok h with ⟨_, rfl⟩ | ⟨_, _, _, rfl⟩ | ⟨hkind, _⟩ | ⟨_, rfl⟩ | ⟨_, rfl⟩
  case inr.inr.inl =>
    rcases requestSources_json hkind h with ⟨_, _, rfl⟩ | ⟨fields, hread, hunread, hfilled⟩
    · exact absurd hnull hempty
    · rw [hfilled.nulls, find_newMember] at hnull
      rw [← find_fields (n := n) hread hunread]
      split at hnull
      · cases hnull
      · case isFalse hhead =>
        refine ⟨hkind, Option.not_isSome_iff_eq_none.mp hhead, ?_⟩
        cases hfield : fields.find n with
        | none => rw [hfield] at hnull; cases hnull
        | some f => rfl
  all_goals exact absurd hnull hempty

end

def bodyValue (e : BodyEngine) (route : Route) (req : Request) (n : Str) : Option (Loc × Str) :=
  let whole := wholeBodyValue req (handlerNeeds route req) n
  match bodyKind req with
  | .unread => none
  | .json => (memberValue e route req n).or whole
  | .form => (formValue e req n).or whole
  | .multipart => ((filenameValue req n).or (partsValue req n)).or whole

section
variable {e : BodyEngine} {route : Route} {req : Request} {n : Str} {v : Loc × Str}

theorem isSome_headValue : (headValue route req n).isSome = true ↔
    (basicValue req n).isSome ∨ (lastDeclared route req n).isSome := by
  rw [headValue]
  split
  · case isTrue hpath =>
    have hsome : (basicValue req n).isSome = true := by
      rw [isPathValue, Option.any_eq_true] at hpath
      obtain ⟨v, hv, -⟩ := hpath
      rw [hv]
      rfl
    exact iff_of_true hsome (.inl hsome)
  · rw [Option.isSome_or, Bool.or_eq_true, or_comm]

theorem isSome_slotValue : (slotValue e route req n).isSome = true ↔
    (basicValue req n).isSome ∨ (lastDeclared route req n).isSome ∨ (bodyValue e route req n).isSome := by
  have hslot : (slotValue e route req n).isSome = true ↔
      (headValue route req n).isSome ∨ (bodyValue e route req n).isSome := by
    unfold slotValue bodyValue
    cases bodyKind req with
    | unread => simp
    | json => simp only [Option.isSome_or, Bool.or_eq_true, or_assoc]
    | form =>
      cases headValue route req n with
      | none => simp
      | some v => simp only [Option.isSome_or, Option.isSome_some]; split <;> simp
    | multipart =>
      simp only [Option.isSome_or, Bool.or_eq_true]
      tauto
  rw [hslot, isSome_headValue, or_assoc]

theorem lastDeclared_loc (h : lastDeclared route req n = some v) : v.1 = .header ∨ v.1 = .cookie := by
  obtain ⟨s, _, hs⟩ := List.exists_of_findSome?_eq_some h
  exact (specValue_loc hs).imp And.right And.right

theorem basicValue_query (h : basicValue req n = some v) (hv : v.1 = .query) :
    queryValue req n = some v := by
  rw [basicValue] at h
  rcases hstamp : stampValue req n with _ | stamp
  · rcases hpath : pathValue req n with _ | capture
    · rwa [hstamp, hpath] at h
    · rw [hstamp, hpath] at h
      cases h
      rw [pathValue_loc hpath] at hv
      cases hv
  · rw [hstamp] at h
    cases h
    rw [stampValue_loc hstamp] at hv
    cases hv

theorem basicValue_loc (h : basicValue req n = some v) :
    v.1 = .server ∨ v.1 = .path ∨ v.1 = .query := by
  rcases Option.or_eq_some_iff.mp h with hstamp | ⟨_, h⟩
  · exact .inl (stampValue_loc hstamp)
  · rcases Option.or_eq_some_iff.mp h with hpath | ⟨_, hquery⟩
    · exact .inr (.inl (pathValue_loc hpath))
    · exact .inr (.inr (queryValue_loc hquery))

theorem isPathValue_basicValue (hpath : pathValue req n = none) :
    isPathValue (basicValue req n) = false := by
  rw [basicValue, hpath, Option.none_or]
  rcases h : (stampValue req n).or (queryValue req n) with _ | v
  · rfl
  · rcases Option.or_eq_some_iff.mp h with hstamp | ⟨_, hquery⟩
    · simp [isPathValue, stampValue_loc hstamp]
    · simp [isPathValue, queryValue_loc hquery]

theorem headValue_cases (h : headValue route req n = some v) :
    basicValue req n = some v ∨ (isPathValue (basicValue req n) = false ∧
      lastDeclared route req n = some v) := by
  rw [headValue] at h
  split at h
  · exact .inl h
  · case isFalse hpath =>
    rcases Option.or_eq_some_iff.mp h with h | ⟨_, h⟩
    · exact .inr ⟨eq_false_of_ne_true hpath, h⟩
    · exact .inl h

theorem wholeBodyValue_loc {needs : List FieldNeed} (h : wholeBodyValue req needs n = some v) :
    v.1 = .body := by
  rw [wholeBodyValue, payloadValue] at h
  split_ifs at h
  cases h
  rfl

theorem body_of_map {α : Type} {o : Option α} {f : α → Str}
    (h : (o.map fun a => (Loc.body, f a)) = some v) : v.1 = .body := by
  obtain ⟨raw, _, rfl⟩ := Option.map_eq_some_iff.mp h
  rfl

theorem memberValue_loc (h : memberValue e route req n = some v) : v.1 = .body := by
  rw [memberValue] at h
  split at h
  · exact body_of_map h
  · cases h

theorem partsValue_loc (h : partsValue req n = some v) : v.1 = .body := by
  rcases Option.or_eq_some_iff.mp h with hfield | ⟨_, hfile⟩
  · exact body_of_map (f := id) hfield
  · obtain ⟨file, _, hpart⟩ := List.exists_of_findSome?_eq_some hfile
    unfold partValue at hpart
    split_ifs at hpart <;> cases hpart <;> rfl

theorem slotValue_cases (h : slotValue e route req n = some v) :
    headValue route req n = some v ∨ v.1 = .body := by
  unfold slotValue at h
  split at h
  · exact .inl h
  · rcases Option.or_eq_some_iff.mp h with h | ⟨_, h⟩
    · exact (Option.or_eq_some_iff.mp h).imp_right fun h => memberValue_loc h.2
    · exact .inr (wholeBodyValue_loc h)
  · rcases Option.or_eq_some_iff.mp h with h | ⟨_, h⟩
    · split at h
      · rcases Option.or_eq_some_iff.mp h with h | ⟨_, h⟩
        · exact .inr (body_of_map (f := id) h)
        · exact .inl h
      · exact .inl h
    · exact .inr (wholeBodyValue_loc h)
  · rcases Option.or_eq_some_iff.mp h with h | ⟨_, h⟩
    · rcases Option.or_eq_some_iff.mp h with h | ⟨_, h⟩
      · exact .inr (body_of_map h)
      · exact (Option.or_eq_some_iff.mp h).imp_right fun h => partsValue_loc h.2
    · exact .inr (wholeBodyValue_loc h)

/-- What was there before the body stays, but for a form's field in place of a query value and the
name of an uploaded file. -/
theorem slotValue_of_head (h : headValue route req n = some v)
    (hform : bodyKind req = .form → v.1 = .query → formValue e req n = none)
    (hfile : bodyKind req = .multipart → filenameValue req n = none) :
    slotValue e route req n = some v := by
  unfold slotValue
  rw [h]
  cases hkind : bodyKind req with
  | unread => rfl
  | json => rfl
  | form =>
    by_cases hquery : v.1 = .query
    · simp [hquery, hform hkind hquery]
    · simp [hquery]
  | multipart => simp [hfile hkind]

theorem slotValue_filename (hkind : bodyKind req = .multipart) (h : filenameValue req n = some v) :
    slotValue e route req n = some v := by
  unfold slotValue
  rw [hkind, h]
  rfl

theorem slotValue_query (h : slotValue e route req n = some v) (hv : v.1 = .query) :
    queryValue req n = some v := by
  rcases slotValue_cases h with h | h
  · rcases headValue_cases h with h | ⟨_, h⟩
    · exact basicValue_query h hv
    · rcases lastDeclared_loc h with hloc | hloc <;> rw [hloc] at hv <;> cases hv
  · rw [h] at hv
    cases hv

/-- A header or cookie is in its slot when it is the last declared one that the request has, and
neither a capture nor the name of an uploaded file takes its place. -/
theorem slotValue_declared_iff (hv : v.1 = .header ∨ v.1 = .cookie) :
    slotValue e route req n = some v ↔ isPathValue (basicValue req n) = false ∧
      lastDeclared route req n = some v ∧ (bodyKind req = .multipart → filenameValue req n = none) := by
  have hne : ∀ loc, loc = Loc.server ∨ loc = .path ∨ loc = .query ∨ loc = .body → v.1 ≠ loc := by
    rintro loc hloc heq
    rw [heq] at hv
    rcases hloc with rfl | rfl | rfl | rfl <;> rcases hv with hv | hv <;> cases hv
  constructor
  · intro h
    rcases slotValue_cases h with hhead | hbody
    · rcases headValue_cases hhead with hbasic | ⟨hpath, hlast⟩
      · rcases basicValue_loc hbasic with hloc | hloc | hloc
        · exact absurd hloc (hne _ (.inl rfl))
        · exact absurd hloc (hne _ (.inr (.inl rfl)))
        · exact absurd hloc (hne _ (.inr (.inr (.inl rfl))))
      · refine ⟨hpath, hlast, fun hkind => ?_⟩
        rcases hfile : filenameValue req n with _ | w
        · rfl
        · rw [slotValue_filename hkind hfile] at h
          have hw : v.1 = .body := Option.some.inj h ▸ body_of_map hfile
          exact absurd hw (hne _ (.inr (.inr (.inr rfl))))
    · exact absurd hbody (hne _ (.inr (.inr (.inr rfl))))
  · rintro ⟨hpath, hlast, hfile⟩
    refine slotValue_of_head ?_ (fun _ hquery => absurd hquery (hne _ (.inr (.inr (.inl rfl))))) hfile
    rw [headValue, hpath, hlast]
    rfl

end

/-- A query parameter goes under its external name, but for a capture. -/
def isRenamed (route : Route) (s : ParamSpec) (name : Str) : Bool :=
  !s.externalName.isEmpty && !isPathParam route.pattern name

def slotName (route : Route) (spec : Option ParamSpec) (name : Str) : Str :=
  match spec with
  | none => name
  | some s =>
    match s.source with
    | .header | .cookie => name
    | .query => if isRenamed route s name then s.externalName else name

def admits (route : Route) (spec : Option ParamSpec) (name : Str) (loc : Loc) : Bool :=
  match spec with
  | none => true
  | some s =>
    match s.source with
    | .header => decide (loc = .header)
    | .cookie => decide (loc = .cookie)
    | .query => !isRenamed route s name || decide (loc = .query)

section
variable {e : BodyEngine} {ctx : RouteContext} {spec : Option ParamSpec} {n : Str}

theorem filter_true {α : Type} (o : Option α) : o.filter (fun _ => true) = o := by
  cases o <;> rfl

theorem lookupParam_eq : lookupParam ctx spec n =
    (ctx.sources.provided.find (slotName ctx.route spec n)).filter fun p =>
      admits ctx.route spec n p.1 := by
  unfold lookupParam slotName admits
  rcases spec with _ | s
  · exact (filter_true _).symm
  rcases hsource : s.source with _ | _ | _
  · have hrenamed : (!s.externalName.isEmpty && !isPathParam ctx.route.pattern n) =
        isRenamed ctx.route s n := rfl
    cases h : isRenamed ctx.route s n with
    | false =>
      simp only [hsource, hrenamed, h, Bool.false_eq_true, if_false, Bool.not_false, Bool.true_or,
        filter_true]
    | true => simp only [hsource, hrenamed, h, if_true, Bool.not_true, Bool.false_or]
  · simp only [hsource]
  · simp only [hsource]

theorem resolveParam_missing_iff : (∃ loc, resolveParam ctx spec n = .missing loc) ↔
    lookupParam ctx spec n = none ∧ spec.bind ParamSpec.default = none := by
  unfold resolveParam
  rcases lookupParam ctx spec n with _ | ⟨loc, raw⟩
  · rcases spec.bind ParamSpec.default with _ | _ | _
    · exact iff_of_true ⟨_, rfl⟩ ⟨rfl, rfl⟩
    · simp
    · simp
  · simp only [reduceCtorEq, false_and, iff_false, not_exists]
    intro loc'
    split <;> exact nofun

/-- Another source than the declared place has a value that the parameter takes. -/
inductive StandsIn (e : BodyEngine) (route : Route) (req : Request) (n : Str) : Prop
  | declared {v : Loc × Str} (htakes : takesDeclared route n = true)
      (hlast : lastDeclared route req n = some v)
      (hadmits : admits route (findParamSpec route.params n) n v.1 = true)
      (hfile : bodyKind req = .multipart → filenameValue req n = none)
  | plain (hplain : admits route (findParamSpec route.params n) n .server = true)
      (h : (stampValue req n).isSome ∨ (pathValue req n).isSome ∨
        (lastDeclared route req n).isSome ∨ (bodyValue e route req n).isSome)

theorem slot_cases (route : Route) (n : Str) :
    (takesDeclared route n = false ∧ slotName route (findParamSpec route.params n) n = n ∧
        ∀ loc, admits route (findParamSpec route.params n) n loc = true) ∨
      (takesDeclared route n = false ∧
        ∀ loc, admits route (findParamSpec route.params n) n loc = decide (loc = .query)) ∨
      (takesDeclared route n = true ∧ slotName route (findParamSpec route.params n) n = n ∧
        ∃ place, (place = Loc.header ∨ place = .cookie) ∧
          ∀ loc, admits route (findParamSpec route.params n) n loc = decide (loc = place)) := by
  unfold takesDeclared slotName admits
  rcases findParamSpec route.params n with _ | s
  · exact .inl ⟨rfl, rfl, fun _ => rfl⟩
  rcases hsource : s.source with _ | _ | _
  · cases hrenamed : isRenamed route s n with
    | false => exact .inl (by simp [hsource, hrenamed])
    | true => exact .inr (.inl (by simp [hsource, hrenamed]))
  · exact .inr (.inr (by simp [hsource]))
  · exact .inr (.inr (by simp [hsource]))

theorem lookupParam_slot {req : Request} {claims : List (Str × Str)}
    (hctx : routeContext e ctx.route claims req = .ok ctx) :
    lookupParam ctx spec n = (slotValue e ctx.route req (slotName ctx.route spec n)).filter fun p =>
      admits ctx.route spec n p.1 := by
  rw [lookupParam_eq, find_sources (routeContext_sources hctx)]

theorem lookupParam_isSome_iff {req : Request} {claims : List (Str × Str)}
    (hctx : routeContext e ctx.route claims req = .ok ctx) (hpath : pathValue req n = none)
    (hquery : takesDeclared ctx.route n = false →
      queryValue req (slotName ctx.route (findParamSpec ctx.route.params n) n) = none) :
    (lookupParam ctx (findParamSpec ctx.route.params n) n).isSome = true ↔
      StandsIn e ctx.route req n := by
  rw [lookupParam_slot hctx, Option.isSome_filter, Option.any_eq_true]
  have hbasic := isPathValue_basicValue hpath
  rcases slot_cases ctx.route n with ⟨htakes, hslot, hadmits⟩ | ⟨htakes, hadmits⟩ |
    ⟨htakes, hslot, place, hplace, hadmits⟩
  · -- every source counts
    have hnone := hquery htakes
    rw [hslot] at hnone ⊢
    have hfilled := @isSome_slotValue e ctx.route req n
    rw [basicValue, hnone, Option.or_none, Option.isSome_or, Bool.or_eq_true, or_assoc] at hfilled
    simp only [hadmits, and_true]
    rw [← Option.isSome_iff_exists, hfilled]
    constructor
    · exact fun h => .plain (hadmits _) h
    · rintro (⟨htakes', _⟩ | ⟨_, h⟩)
      · rw [htakes] at htakes'
        cases htakes'
      · exact h
  · -- a query value only, and there is none
    have hnone := hquery htakes
    refine iff_of_false ?_ ?_
    · rintro ⟨v, hv, hloc⟩
      rw [hadmits, decide_eq_true_eq] at hloc
      rw [slotValue_query hv hloc] at hnone
      cases hnone
    · rintro (⟨htakes', _⟩ | ⟨hserver, _⟩)
      · rw [htakes] at htakes'
        cases htakes'
      · rw [hadmits] at hserver
        cases hserver
  · rw [hslot]
    constructor
    · rintro ⟨v, hv, hloc⟩
      have hv1 : v.1 = place := by simpa [hadmits] using hloc
      obtain ⟨-, hlast, hfile⟩ := (slotValue_declared_iff (hv1 ▸ hplace)).mp hv
      exact .declared htakes hlast hloc hfile
    · rintro (@⟨v, _, hlast, hloc, hfile⟩ | ⟨hserver, _⟩)
      · have hv1 : v.1 = place := by simpa [hadmits] using hloc
        exact ⟨v, (slotValue_declared_iff (hv1 ▸ hplace)).mpr ⟨hbasic, hlast, hfile⟩, hloc⟩
      · rw [hadmits] at hserver
        rcases hplace with rfl | rfl <;> cases hserver

/-- The body of a request has no value of the name. -/
structure BodySilent (e : BodyEngine) (req : Request) (n : Str) : Prop where
  member : bodyKind req = .json → memberField e req n = none
  form : bodyKind req = .form → formValue e req n = none
  parts : bodyKind req = .multipart → partsValue req n = none
  filename : bodyKind req = .multipart → filenameValue req n = none

/-- The client has no value for the parameter but this one, in this place. -/
structure Alone (e : BodyEngine) (route : Route) (req : Request) (n : Str) (loc : Loc) (raw : Str) :
    Prop where
  query : loc ≠ .query → queryValue req (slotName route (findParamSpec route.params n) n) = none
  path : loc ≠ .path → pathValue req (slotName route (findParamSpec route.params n) n) = none
  declared : ∀ u, lastDeclared route req (slotName route (findParamSpec route.params n) n) = some u →
    u = (loc, raw)
  slot : BodySilent e req (slotName route (findParamSpec route.params n) n)
  body : BodySilent e req n

inductive SuppliedBy (route : Route) (req : Request) (n : Str) : Loc → Str → Prop
  | query {raw : Str} (htakes : takesDeclared route n = false)
      (h : queryValue req (slotName route (findParamSpec route.params n) n) = some (.query, raw)) :
      SuppliedBy route req n .query raw
  | path {raw : Str} (h : pathValue req n = some (.path, raw)) : SuppliedBy route req n .path raw
  | declared {loc : Loc} {raw : Str} (htakes : takesDeclared route n = true)
      (hadmits : admits route (findParamSpec route.params n) n loc = true)
      (h : lastDeclared route req n = some (loc, raw)) : SuppliedBy route req n loc raw

/-- Nothing takes the place of the value: the parameter is no claim, it takes values from there, and
the server has no other value for it. -/
structure Unobstructed (route : Route) (req : Request) (n : Str) (loc : Loc) (raw : Str) : Prop where
  claim : isClaimsParam n = none
  place : admits route (findParamSpec route.params n) n loc = true
  stamp : ∀ s, stampValue req (slotName route (findParamSpec route.params n) n) = some s →
    takesDeclared route n = true ∨
      (admits route (findParamSpec route.params n) n .server = true ∧ s.2 = raw)

/-- The binder reads this text of the request for the parameter. -/
def ReadsText (ctx : RouteContext) (n : Str) (raw : Str) : Prop :=
  isClaimsParam n = none ∧
    ∃ loc, resolveParam ctx (findParamSpec ctx.route.params n) n = .text loc raw none

theorem resolveParam_text_iff {raw : Str} :
    (∃ loc, resolveParam ctx spec n = .text loc raw none) ↔
      (∃ loc, lookupParam ctx spec n = some (loc, raw)) ∧ ctx.sources.explicitNulls.find n = none := by
  unfold resolveParam
  rcases lookupParam ctx spec n with _ | ⟨loc, raw'⟩
  · refine iff_of_false ?_ (by simp)
    rintro ⟨loc, h⟩
    dsimp only at h
    split at h <;> cases h
  · rcases ctx.sources.explicitNulls.find n with _ | u
    · simp [eq_comm]
    · simp

theorem explicitNulls_of_silent {req : Request} {claims : List (Str × Str)}
    (hctx : routeContext e ctx.route claims req = .ok ctx) (hsilent : BodySilent e req n) :
    ctx.sources.explicitNulls.find n = none := by
  by_contra hsome
  obtain ⟨hkind, -, hmember⟩ := explicitNull_of_member (routeContext_sources hctx)
    (Option.isSome_iff_ne_none.mpr hsome)
  rw [memberValue, hsilent.member hkind] at hmember
  split at hmember <;> cases hmember

theorem slotValue_of_silent {route : Route} {req : Request} {v : Loc × Str}
    (h : headValue route req n = some v) (hsilent : BodySilent e req n) :
    slotValue e route req n = some v :=
  slotValue_of_head h (fun hkind _ => hsilent.form hkind) hsilent.filename

theorem headValue_of_undeclared {route : Route} {req : Request}
    (h : lastDeclared route req n = none) : headValue route req n = basicValue req n := by
  rw [headValue, h, Option.none_or, ite_self]

theorem or_stamp_iff {req : Request} {m : Str} {loc : Loc} {raw : Str} :
    (∃ loc', (stampValue req m).or (some (loc, raw)) = some (loc', raw)) ↔
      ∀ s, stampValue req m = some s → s.2 = raw := by
  rcases stampValue req m with _ | ⟨loc', raw'⟩
  · exact iff_of_true ⟨loc, rfl⟩ nofun
  · simp

theorem slotValue_of_alone {route : Route} {req : Request} {m : Str} {loc : Loc} {raw : Str}
    (hsilent : BodySilent e req m) (hlast : lastDeclared route req m = none)
    (hbasic : basicValue req m = (stampValue req m).or (some (loc, raw))) :
    slotValue e route req m = (stampValue req m).or (some (loc, raw)) := by
  obtain ⟨v, hv⟩ : ∃ v, (stampValue req m).or (some (loc, raw)) = some v := by
    cases stampValue req m with
    | none => exact ⟨_, rfl⟩
    | some v => exact ⟨v, rfl⟩
  rw [hv] at hbasic ⊢
  exact slotValue_of_silent (by rw [headValue_of_undeclared hlast, hbasic]) hsilent

theorem lookupParam_alone_iff {req : Request} {claims : List (Str × Str)} {loc : Loc} {raw : Str}
    (hctx : routeContext e ctx.route claims req = .ok ctx) (halone : Alone e ctx.route req n loc raw)
    (hsupplied : SuppliedBy ctx.route req n loc raw) :
    (∃ loc', lookupParam ctx (findParamSpec ctx.route.params n) n = some (loc', raw)) ↔
      admits ctx.route (findParamSpec ctx.route.params n) n loc = true ∧
        ∀ s, stampValue req (slotName ctx.route (findParamSpec ctx.route.params n) n) = some s →
          takesDeclared ctx.route n = true ∨
            (admits ctx.route (findParamSpec ctx.route.params n) n .server = true ∧ s.2 = raw) := by
  obtain ⟨hquery, hpath, hdeclared, hslotsilent, hsilent⟩ := halone
  have hundeclared : loc = .query ∨ loc = .path →
      lastDeclared ctx.route req (slotName ctx.route (findParamSpec ctx.route.params n) n) = none := by
    intro hloc
    rcases hlast : lastDeclared ctx.route req _ with _ | u
    · rfl
    · have hu := lastDeclared_loc hlast
      rw [hdeclared u hlast] at hu
      rcases hloc with rfl | rfl <;> rcases hu with hu | hu <;> cases hu
  rw [lookupParam_slot hctx]
  rcases slot_cases ctx.route n with ⟨htakes, hslot, hadmits⟩ | ⟨htakes, hadmits⟩ |
    ⟨htakes, hslot, place, hplace, hadmits⟩
  · -- a plain parameter takes what the server has, or else this
    have hvalue : slotValue e ctx.route req n = (stampValue req n).or (some (loc, raw)) := by
      rw [hslot] at hquery hpath hundeclared
      cases hsupplied with
      | query _ h =>
        rw [hslot] at h
        refine slotValue_of_alone hsilent (hundeclared (.inl rfl)) ?_
        rw [basicValue, hpath nofun, h, Option.none_or]
      | path h =>
        refine slotValue_of_alone hsilent (hundeclared (.inr rfl)) ?_
        rw [basicValue, h, Option.some_or]
      | declared htakes' =>
        rw [htakes] at htakes'
        cases htakes'
    rw [hslot, hvalue]
    simp only [hadmits, filter_true, htakes, Bool.false_eq_true, false_or, true_and]
    exact or_stamp_iff
  · -- under another name in the query the server's value is no value of the parameter
    cases hsupplied with
    | query _ h =>
      have hvalue := slotValue_of_alone hslotsilent (hundeclared (.inl rfl))
        (by rw [basicValue, hpath nofun, h, Option.none_or])
      rw [hvalue]
      simp only [hadmits, htakes]
      rcases hstamp : stampValue req _ with _ | s
      · simp
      · have hne : s ≠ (.query, raw) := fun h => by
          have hserver := stampValue_loc hstamp
          rw [h] at hserver
          cases hserver
        simpa using hne
    | path h =>
      refine iff_of_false ?_ (by simp [hadmits])
      rintro ⟨loc', h'⟩
      obtain ⟨hvalue, hloc⟩ := Option.filter_eq_some_iff.mp h'
      rw [hadmits, decide_eq_true_eq] at hloc
      rw [slotValue_query hvalue hloc] at hquery
      exact absurd (hquery nofun) nofun
    | declared htakes' =>
      rw [htakes] at htakes'
      cases htakes'
  · rw [hslot] at hpath hdeclared ⊢
    simp only [htakes, true_or, implies_true, and_true]
    cases hsupplied with
    | query htakes' =>
      rw [htakes] at htakes'
      cases htakes'
    | path h =>
      have hne : place ≠ .path := by rcases hplace with rfl | rfl <;> decide
      refine iff_of_false ?_ (by simpa [hadmits] using hne.symm)
      rintro ⟨loc', h'⟩
      obtain ⟨hvalue, hloc⟩ := Option.filter_eq_some_iff.mp h'
      have hloc' : loc' = place := by simpa [hadmits] using hloc
      obtain ⟨-, hlast, -⟩ := (slotValue_declared_iff (hloc' ▸ hplace)).mp hvalue
      have hu := congrArg Prod.fst (hdeclared _ hlast)
      exact absurd (hloc'.symm.trans hu) hne
    | declared _ hloc h =>
      refine iff_of_true ⟨loc, ?_⟩ hloc
      have hplace' : loc = place := by simpa [hadmits] using hloc
      have hne : loc ≠ .path := by rcases hplace with rfl | rfl <;> rw [hplace'] <;> decide
      have hvalue := (slotValue_declared_iff (e := e) (v := (loc, raw)) (hplace' ▸ hplace)).mpr
        ⟨isPathValue_basicValue (hpath hne), h, hsilent.filename⟩
      rw [hvalue]
      exact Option.filter_eq_some_iff.mpr ⟨rfl, hloc⟩

theorem readsText_iff {req : Request} {claims : List (Str × Str)} {loc : Loc} {raw : Str}
    (hctx : routeContext e ctx.route claims req = .ok ctx) (halone : Alone e ctx.route req n loc raw)
    (hsupplied : SuppliedBy ctx.route req n loc raw) :
    ReadsText ctx n raw ↔ Unobstructed ctx.route req n loc raw := by
  rw [ReadsText, resolveParam_text_iff, lookupParam_alone_iff hctx halone hsupplied]
  exact ⟨fun ⟨hclaim, ⟨hloc, hstamp⟩, _⟩ => ⟨hclaim, hloc, hstamp⟩, fun h =>
    ⟨h.claim, ⟨h.place, h.stamp⟩, explicitNulls_of_silent hctx halone.body⟩⟩

def NotMissing (v : Violation) : Prop := v.2 ≠ "missing".toList

theorem failsIn_violation {α : Type} {msg type : Str} (h : type ≠ "missing".toList) :
    FailsIn NotMissing (.error (msg, type) : Except Violation α) := failsIn_error h

theorem failsIn_ensure {p : Bool} {msg type : Str} (h : type ≠ "missing".toList) :
    FailsIn NotMissing (ensure p (msg, type)) := by
  rw [ensure]
  split
  · exact failsIn_ok
  · exact failsIn_violation h

theorem checkBound_type {x : Number} {c : Comparison} {bound : Option Number} :
    FailsIn NotMissing (checkBound e.toParamEngine x c bound) := by
  unfold checkBound
  split
  · exact failsIn_ok
  · exact failsIn_ensure (by cases c <;> decide)

theorem checkParamConstraints_type {s : ParamSpec} {raw : Str} {v : Value} {native : Bool} :
    FailsIn NotMissing (checkParamConstraints e.toParamEngine s raw v native) := by
  have hlengths : FailsIn NotMissing (checkLengths s raw v native) :=
    (failsIn_ensure (by decide)).bind fun _ => (failsIn_ensure (by decide)).bind fun _ =>
      failsIn_ensure (by decide)
  refine hlengths.bind fun _ => ?_
  split
  · exact failsIn_pure
  · split
    · exact failsIn_pure
    · split
      · exact failsIn_violation (by decide)
      · exact checkBound_type.bind fun _ => checkBound_type.bind fun _ =>
          checkBound_type.bind fun _ => checkBound_type

theorem readParam_type {expected : LogicalType} {loc : Loc} {raw : Str} {variant : Option Value} :
    FailsIn NotMissing (readParam e ctx expected n loc raw variant) := by
  unfold readParam
  split
  · split
    · split
      · exact failsIn_ok
      · exact failsIn_violation (by decide)
    · split <;> exact failsIn_ok
  · split
    · exact failsIn_ok
    · exact failsIn_violation (by decide)

theorem readConstrained_type {expected : LogicalType} {loc : Loc} {raw : Str}
    {variant : Option Value} :
    FailsIn NotMissing (readConstrained e ctx spec expected n loc raw variant) := by
  unfold readConstrained
  cases spec with
  | none => exact readParam_type.bind fun _ => failsIn_pure
  | some s => exact readParam_type.bind fun _ => checkParamConstraints_type.bind fun _ => failsIn_pure

theorem bindText_issue {expected : LogicalType} {exec : Bool} {loc : Loc} {raw : Str}
    {variant : Option Value} {issue : Issue}
    (h : bindText e ctx spec expected exec n loc raw variant = .invalid issue) :
    issue.name = n ∧ issue.type ≠ "missing".toList := by
  have htype : "type_error".toList ≠ "missing".toList := by decide
  unfold bindText at h
  split at h
  · cases h
    exact ⟨rfl, htype⟩
  split at h
  · cases h
    exact ⟨rfl, htype⟩
  split at h
  · cases h
    exact ⟨rfl, htype⟩
  split at h
  · unfold bindTypedBody at h
    dsimp only at h
    split at h
    · cases h
    · split at h
      · cases h
      · split at h <;> cases h
  · split at h
    · cases h
    · case h_2 hread =>
      cases h
      exact ⟨rfl, readConstrained_type _ hread⟩

theorem bindParam_name {p : ParamEntry} {issue : Issue} (h : bindParam e ctx p = .invalid issue) :
    issue.name = p.name := by
  unfold bindParam at h
  split at h
  · cases h
  · unfold bindRequestParam at h
    dsimp only at h
    split at h
    · cases h
      rfl
    · cases h
    · split at h
      · cases h
      · cases h
        rfl
    · exact (bindText_issue h).1

/-- A parameter's issue is that its value is missing. -/
def IsMissing (issue : Issue) : Prop := issue.msg = requiredField ∧ issue.type = "missing".toList

theorem bindParam_missing_iff {p : ParamEntry} {spec : Option ParamSpec}
    (hspec : findParamSpec ctx.route.params p.name = spec) :
    (∃ issue, bindParam e ctx p = .invalid issue ∧ IsMissing issue) ↔
      isClaimsParam p.name = none ∧ lookupParam ctx spec p.name = none ∧
        spec.bind ParamSpec.default = none := by
  subst hspec
  unfold bindParam
  cases isClaimsParam p.name with
  | some key => simp
  | none =>
    simp only [bindRequestParam, true_and]
    generalize findParamSpec ctx.route.params p.name = spec
    rw [← resolveParam_missing_iff]
    cases hresolve : resolveParam ctx spec p.name with
    | missing loc => exact iff_of_true ⟨_, rfl, rfl, rfl⟩ ⟨loc, rfl⟩
    | nullDefault => simp
    | explicitNull loc =>
      refine iff_of_false ?_ (by simp)
      rintro ⟨issue, hissue, -, htype⟩
      dsimp only at hissue
      split at hissue
      · cases hissue
      · cases hissue
        exact absurd htype (show "type_error".toList ≠ "missing".toList by decide)
    | text loc raw variant =>
      refine iff_of_false ?_ (by simp)
      rintro ⟨issue, hissue, -, htype⟩
      exact (bindText_issue hissue).2 htype

theorem bindParams_append {pre : List ParamEntry} (rest : List ParamEntry) (hpre : ∀ p ∈ pre, ∃ v, Binds e ctx p v) :
    ∃ b, bindParams e ctx (pre ++ rest) =
      (bindParams e ctx rest).map fun r => (b ++ r.1, r.2) := by
  induction pre with
  | nil =>
    refine ⟨[], ?_⟩
    rw [List.nil_append]
    cases bindParams e ctx rest <;> rfl
  | cons p pre ih =>
    obtain ⟨⟨v, raw, hp⟩, hpre⟩ := List.forall_mem_cons.mp hpre
    obtain ⟨b, hb⟩ := ih hpre
    refine ⟨(p.name, v) :: b, ?_⟩
    rw [List.cons_append, bindParams, hp, hb]
    cases bindParams e ctx rest <;> rfl

theorem bindStatement_invalid_iff {ps : List ParamEntry} {p : ParamEntry}
    (hnames : (ps.map fun q => lower q.name).Nodup) (hp : p ∈ ps)
    (hothers : ∀ q ∈ ps, lower q.name ≠ lower p.name → ∃ v, Binds e ctx q v) (issue : Issue) :
    bindStatement e ctx ps = .error (.invalid [issue]) ↔ bindParam e ctx p = .invalid issue := by
  obtain ⟨pre, post, rfl⟩ := List.append_of_mem hp
  rw [List.map_append, List.map_cons, List.nodup_append] at hnames
  obtain ⟨-, hpost, hcross⟩ := hnames
  have hpre : ∀ q ∈ pre, ∃ v, Binds e ctx q v := fun q hq =>
    hothers q (List.mem_append_left _ hq)
      (hcross _ (List.mem_map_of_mem hq) _ List.mem_cons_self)
  have hbehind : ∀ q ∈ post, ∃ v, Binds e ctx q v := fun q hq =>
    hothers q (List.mem_append_right _ (List.mem_cons_of_mem p hq)) fun heq =>
      (List.nodup_cons.mp hpost).1 (heq ▸ List.mem_map_of_mem hq)
  obtain ⟨b, hb⟩ := bindParams_append (p :: post) hpre
  obtain ⟨b', hb'⟩ := bindParams_append [] hbehind
  rw [List.append_nil] at hb'
  rw [bindStatement, hb, bindParams, hb']
  cases bindParam e ctx p with
  | bound v raw => simp [bindParams, Except.map]
  | refused v => simp [Except.map]
  | invalid i => simp [bindParams, Except.map]

end

end Quackapi.Params
