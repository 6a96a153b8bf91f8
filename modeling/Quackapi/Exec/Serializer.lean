import Quackapi.Http.ResponseCap

/-! `QuackapiExecResult` against the response a plain exec route makes of the same result. Both read
the rows one by one; the HTTP library leaves out headers that no header may be. -/

namespace Quackapi.Exec
open Http Library

section
variable {V : Type}

structure LawfulTyped (codec : NativeCodec V) (result : QueryResult V) : Prop where
  columns : (codec.deduplicateColumns result.names).length = result.names.length
  rows : ∀ row ∈ result.rows, row.length = result.names.length
  rowsBytes : ∀ row ∈ result.rows, codec.rowsBytes [] ≤ codec.rowsBytes [row]
  countBytes : ∀ n, codec.countBytes 0 ≤ codec.countBytes n

/-- No status, no envelope and no answer of its own for an empty result. -/
structure IsPlainExecRoute (route : RouteResponse) : Prop where
  status : route.status = 200
  emptyStatus : route.emptyStatus = 0
  envelope : objectEnvelope route = false

/-- The HTTP response is the exec response without the headers that the HTTP library refuses. -/
structure SameAsExec (res : HttpResponse) (out : QuackapiExecResponse V) : Prop where
  status : res.status = out.status
  body : res.body = out.body
  contentType : headerValues contentTypeName res = headerValues contentTypeName ⟨res.status, [], out.headers⟩
  headers : res.headers.Perm (out.headers.filter isSendable)

/-- After the same rows the two loops have the same. -/
structure SameRows (codec : ResponseCodec V) (names : List Str) (headers : List (Str × Str))
    (st : FetchState V) (out : ResultState V) : Prop where
  rows : st.rowCount = out.rows
  location : st.location = out.location
  headers : out.headers = headers ++ st.cookies.map ("Set-Cookie".toList, ·)
  body : out.body = if isJsonResult names then st.jsonBody else concatenateCells codec names st.rows

variable {codec : ResponseCodec V} {maxBytes : Nat} {names : List Str} {headers : List (Str × Str)}

theorem sameRows_start (collectTypedRows : Bool) :
    SameRows codec names (startResult codec.toNativeCodec collectTypedRows names).headers
      (startFetch (isJsonResult names) false) (startResult codec.toNativeCodec collectTypedRows names) where
  rows := rfl
  location := rfl
  headers := (List.append_nil _).symm
  body := by
    unfold startResult startFetch concatenateCells
    cases isJsonResult names <;> rfl

theorem rowBody_ok {out : ResultState V} {row : List V} {body : Str}
    (h : rowBody codec.toNativeCodec maxBytes names out row = .ok body) :
    body = out.body ++ if isJsonResult names then rowJson codec names true false out.rows row
      else (cell codec.toNativeCodec row (dataCols names).head?).getD [] := by
  unfold rowBody at h
  by_cases hjson : isJsonResult names = true
  · rw [if_pos hjson] at h
    by_cases hover : maxBytes < out.body.length +
        (serializeRowJsonObject codec.toNativeCodec names (dataCols names) row).length +
        (if out.rows = 0 then [] else ",".toList).length + 1
    · rw [if_pos hover] at h
      cases h
    · rw [if_neg hover] at h
      have hbody := Except.ok.inj h
      have hseparator : (if out.rows = 0 then [] else ",".toList) =
          if !false && out.rows != 0 then ",".toList else [] := by
        cases out.rows <;> rfl
      rw [← hbody, if_pos hjson, hseparator, List.append_assoc]
      rfl
  · rw [if_neg hjson] at h
    rw [← Except.ok.inj h, if_neg hjson]

theorem addResultRow_ok {out out' : ResultState V} {row : List V}
    (h : addResultRow codec.toNativeCodec maxBytes names out row = .ok out') :
    ∃ body, rowBody codec.toNativeCodec maxBytes names out row = .ok body ∧
      out'.body = body ∧ out'.rows = out.rows + 1 ∧
      out'.headers = out.headers ++
        ((cell codec.toNativeCodec row (columnsWhere isSetCookie names).getLast?).map
          ("Set-Cookie".toList, ·)).toList ∧
      (out'.location = if out.location.isEmpty then
          (cell codec.toNativeCodec row (columnsWhere isLocation names).getLast?).getD []
        else out.location) ∧
      ∀ t', out'.typedRows = some t' →
        ∃ t, out.typedRows = some t ∧ appendRow codec.toNativeCodec maxBytes t row = .ok t' := by
  unfold addResultRow at h
  rcases ht : out.typedRows with _ | t
  · simp only [ht, bind_eq_ok, pure_eq_ok] at h
    obtain ⟨_, rfl, body, hbody, h⟩ := h
    by_cases hover : maxBytes < body.length
    · rw [if_pos hover] at h
      cases h
    · rw [if_neg hover] at h
      cases h
      exact ⟨body, hbody, rfl, rfl, rfl, rfl, fun _ hnone => by cases hnone⟩
  · simp only [ht, bind_eq_ok, pure_eq_ok] at h
    obtain ⟨t', happend, _, rfl, body, hbody, h⟩ := h
    by_cases hover : maxBytes < body.length
    · rw [if_pos hover] at h
      cases h
    · rw [if_neg hover] at h
      cases h
      exact ⟨body, hbody, rfl, rfl, rfl, rfl, fun _ hsome => ⟨t, rfl, Option.some.inj hsome ▸ happend⟩⟩

theorem sameRows_step {st : FetchState V} {out out' : ResultState V} {row : List V}
    (hsame : SameRows codec names headers st out)
    (h : addResultRow codec.toNativeCodec maxBytes names out row = .ok out') :
    SameRows codec names headers (takeRow codec names (isJsonResult names) false st row) out' := by
  obtain ⟨body, hbody, hout, hrows, hheaders, hlocation, _⟩ := addResultRow_ok h
  refine ⟨?_, ?_, ?_, ?_⟩
  · rw [hrows, ← hsame.rows]
    rfl
  · rw [hlocation, ← hsame.location]
    rfl
  · rw [hheaders, hsame.headers]
    simp only [takeRow, List.map_append, List.append_assoc]
    cases cell codec.toNativeCodec row (columnsWhere isSetCookie names).getLast? <;> rfl
  · rw [hout, rowBody_ok hbody, hsame.body, ← hsame.rows]
    unfold takeRow concatenateCells
    cases isJsonResult names with
    | true => rfl
    | false => simp

theorem sameRows_run {rows : List (List V)} {st : FetchState V} {out out' : ResultState V}
    (hsame : SameRows codec names headers st out)
    (h : addResultRows codec.toNativeCodec maxBytes names out rows = .ok out') :
    SameRows codec names headers (takeRows codec names (isJsonResult names) false st rows) out' := by
  induction rows generalizing st out with
  | nil =>
    cases h
    exact hsame
  | cons row rows ih =>
    simp only [addResultRows, bind_eq_ok] at h
    obtain ⟨next, hrow, hrest⟩ := h
    exact ih (sameRows_step hsame hrow) hrest

def IsTooLarge (stop : ExecStop) : Prop := stop = .overLimit ∨ stop = .typedTooLarge

/-- What the rows still to come need of the rows kept so far. -/
def TypedSafe (codec : NativeCodec V) (names : List Str) (rows : List (List V))
    (typedRows : Option (TypedCollector V)) : Prop :=
  ∀ t, typedRows = some t → t.columns.length = names.length ∧
    (∀ row ∈ rows, row.length = names.length ∧ codec.rowsBytes [] ≤ codec.rowsBytes [row]) ∧
    ∀ n, codec.countBytes 0 ≤ codec.countBytes n

theorem failsIn_limit {α : Type} {c : Prop} [Decidable c] {stop : ExecStop} {a : α}
    (hstop : IsTooLarge stop) : FailsIn IsTooLarge (if c then .error stop else .ok a) := by
  by_cases hc : c
  · rw [if_pos hc]
    exact failsIn_error hstop
  · rw [if_neg hc]
    exact failsIn_ok

theorem appendRow_columns {native : NativeCodec V} {t t' : TypedCollector V} {row : List V}
    (h : appendRow native maxBytes t row = .ok t') : t'.columns = t.columns := by
  unfold appendRow at h
  simp only at h
  split_ifs at h
  cases h
  rfl

theorem appendRow_failsIn {native : NativeCodec V} {rows : List (List V)} {row : List V}
    {typedRows : Option (TypedCollector V)} {t : TypedCollector V}
    (hsafe : TypedSafe native names (row :: rows) typedRows) (ht : typedRows = some t) :
    FailsIn IsTooLarge (appendRow native maxBytes t row) := by
  obtain ⟨hcolumns, hrows, hcount⟩ := hsafe t ht
  obtain ⟨hlength, hbytes⟩ := hrows row List.mem_cons_self
  unfold appendRow
  rw [if_neg (not_not_intro (hlength.trans hcolumns.symm)), if_neg (Nat.not_lt.mpr hbytes),
    if_neg (Nat.not_lt.mpr (hcount _))]
  exact failsIn_limit (.inr rfl)

theorem rowBody_failsIn {native : NativeCodec V} (out : ResultState V) (row : List V) :
    FailsIn IsTooLarge (rowBody native maxBytes names out row) := by
  unfold rowBody
  by_cases hjson : isJsonResult names = true
  · rw [if_pos hjson]
    exact failsIn_limit (.inl rfl)
  · rw [if_neg hjson]
    exact failsIn_ok

theorem addResultRow_failsIn {out : ResultState V} {row : List V} {rows : List (List V)}
    (hsafe : TypedSafe codec.toNativeCodec names (row :: rows) out.typedRows) :
    FailsIn IsTooLarge (addResultRow codec.toNativeCodec maxBytes names out row) := by
  have hlast : ∀ (body : Str) (next : ResultState V), FailsIn IsTooLarge
      (if maxBytes < body.length then throw ExecStop.overLimit else pure next) :=
    fun _ _ => failsIn_limit (.inl rfl)
  unfold addResultRow
  rcases ht : out.typedRows with _ | t
  · exact (rowBody_failsIn out row).bind fun body => hlast body _
  · exact (appendRow_failsIn hsafe ht).bind fun t' =>
      (rowBody_failsIn out row).bind fun body => hlast body _

theorem typedSafe_step {out out' : ResultState V} {row : List V} {rows : List (List V)}
    (hsafe : TypedSafe codec.toNativeCodec names (row :: rows) out.typedRows)
    (h : addResultRow codec.toNativeCodec maxBytes names out row = .ok out') :
    TypedSafe codec.toNativeCodec names rows out'.typedRows := by
  obtain ⟨_, _, _, _, _, _, htyped⟩ := addResultRow_ok h
  intro t' ht'
  obtain ⟨t, ht, happend⟩ := htyped t' ht'
  obtain ⟨hcolumns, hrows, hcount⟩ := hsafe t ht
  refine ⟨?_, fun row hrow => hrows row (List.mem_cons_of_mem _ hrow), hcount⟩
  rw [appendRow_columns happend]
  exact hcolumns

theorem addResultRows_failsIn {rows : List (List V)} {out : ResultState V}
    (hsafe : TypedSafe codec.toNativeCodec names rows out.typedRows) :
    FailsIn IsTooLarge (addResultRows codec.toNativeCodec maxBytes names out rows) := by
  induction rows generalizing out with
  | nil => exact failsIn_ok
  | cons row rows ih =>
    intro stop hstop
    rcases hrow : addResultRow codec.toNativeCodec maxBytes names out row with stop' | next
    · rw [addResultRows, hrow] at hstop
      cases hstop
      exact addResultRow_failsIn hsafe _ hrow
    · rw [addResultRows, hrow] at hstop
      exact ih (typedSafe_step hsafe hrow) stop hstop

theorem endResult_failsIn (native : NativeCodec V) (out : ResultState V) :
    FailsIn IsTooLarge (endResult native maxBytes names out) := by
  have hfinish : ∀ t, FailsIn IsTooLarge (finishRows native maxBytes t) :=
    fun _ => failsIn_limit (.inr rfl)
  unfold endResult
  rcases out.typedRows with _ | t
  · exact failsIn_pure
  · exact (hfinish t).bind fun _ => failsIn_pure

theorem typedSafe_start {result : QueryResult V} {collectTypedRows : Bool}
    (hlawful : collectTypedRows = true → LawfulTyped codec.toNativeCodec result) :
    TypedSafe codec.toNativeCodec result.names result.rows
      (startResult codec.toNativeCodec collectTypedRows result.names).typedRows := by
  intro t ht
  cases collectTypedRows with
  | false => cases ht
  | true =>
    obtain ⟨hcolumns, hrows, hbytes, hcount⟩ := hlawful rfl
    cases ht
    exact ⟨hcolumns, fun row hrow => ⟨hrows row hrow, hbytes row hrow⟩, hcount⟩

theorem collectResult_failsIn {result : QueryResult V} {collectTypedRows : Bool}
    (hlawful : collectTypedRows = true → LawfulTyped codec.toNativeCodec result) :
    FailsIn IsTooLarge (collectResult codec.toNativeCodec maxBytes collectTypedRows result) :=
  (addResultRows_failsIn (typedSafe_start hlawful)).bind fun out => endResult_failsIn _ out

theorem quackapiExecResult_of_ne {result : QueryResult V} {collectTypedRows : Bool}
    (hlawful : collectTypedRows = true → LawfulTyped codec.toNativeCodec result)
    (h : (quackapiExecResult codec.toNativeCodec maxBytes collectTypedRows result).status ≠ 507) :
    collectResult codec.toNativeCodec maxBytes collectTypedRows result =
      .ok (quackapiExecResult codec.toNativeCodec maxBytes collectTypedRows result) := by
  unfold quackapiExecResult at h ⊢
  rcases hcollect : collectResult codec.toNativeCodec maxBytes collectTypedRows result with stop | out
  · simp only [hcollect] at h
    rcases collectResult_failsIn hlawful stop hcollect with rfl | rfl
    · exact absurd rfl h
    · exact absurd rfl h
  · simp only [hcollect] at h ⊢
    unfold capResponse at h ⊢
    split_ifs at h ⊢
    · exact absurd rfl h
    · rfl

def contentTypeOf (names : List Str) : List (Str × Str) :=
  if isJsonResult names || names.isEmpty then [(contentTypeName, "application/json".toList)]
  else if (dataCols names).isEmpty then []
  else [(contentTypeName, modeContentType (responseModeFor (dataNames names)))]

def locationHeader (location : Str) : List (Str × Str) :=
  if location.isEmpty then [] else [("Location".toList, location)]

def cookieHeaders (cookies : List Str) : List (Str × Str) := cookies.map ("Set-Cookie".toList, ·)

/-- The body of a plain exec route's result, from what its loop has gathered. -/
def plainBody (codec : ResponseCodec V) (names : List Str) (st : FetchState V) : Str :=
  if isJsonResult names then st.jsonBody ++ "]".toList
  else if names.isEmpty then "[]".toList
  else concatenateCells codec names st.rows

theorem headers_setCookies (res : HttpResponse) (cookies : List Str) :
    (setCookies res cookies).headers = res.headers ++ (cookieHeaders cookies).filter isSendable := by
  induction cookies generalizing res with
  | nil => exact (List.append_nil _).symm
  | cons cookie cookies ih =>
    refine (ih (setHeader res "Set-Cookie".toList cookie)).trans ?_
    rw [headers_setHeader, List.append_assoc, ← List.filter_append]
    rfl

theorem headers_setLocation (location : Str) :
    (setLocation newResponse location).headers = (locationHeader location).filter isSendable := by
  unfold setLocation locationHeader
  by_cases hempty : location.isEmpty = true
  · rw [if_pos hempty, if_pos hempty]
    rfl
  · rw [if_neg hempty, if_neg hempty, headers_setHeader]
    rfl

/-- The headers of the control columns, those the HTTP library takes. -/
def controlHeaders (location : Str) (cookies : List Str) : List (Str × Str) :=
  (locationHeader location ++ cookieHeaders cookies).filter isSendable

theorem headers_controls (location : Str) (cookies : List Str) :
    (setCookies (setLocation newResponse location) cookies).headers =
      controlHeaders location cookies := by
  rw [headers_setCookies, headers_setLocation, controlHeaders, List.filter_append]

theorem not_contentType {location : Str} {cookies : List Str} {h : Str × Str}
    (hmem : h ∈ locationHeader location ++ cookieHeaders cookies) :
    ciEquals h.1 contentTypeName = false := by
  have hlocation : ciEquals "Location".toList contentTypeName = false := by decide
  have hcookie : ciEquals "Set-Cookie".toList contentTypeName = false := by decide
  rcases List.mem_append.mp hmem with hl | hc
  · unfold locationHeader at hl
    split at hl
    · cases hl
    · rw [List.mem_singleton.mp hl]
      exact hlocation
  · obtain ⟨cookie, _, rfl⟩ := List.mem_map.mp hc
    exact hcookie

theorem headers_setContent {res : HttpResponse} {location : Str} {cookies : List Str} {status : Int}
    (hres : res.headers = controlHeaders location cookies) (body : Str) {contentType : Str}
    (hvalue : isFieldValue contentType = true) :
    (setContent { res with status } body contentType).headers =
      controlHeaders location cookies ++ [(contentTypeName, contentType)] := by
  have hkeep : (controlHeaders location cookies).filter (fun h => !ciEquals h.1 contentTypeName) =
      controlHeaders location cookies := by
    refine List.filter_eq_self.mpr fun h hmem => ?_
    rw [not_contentType (List.mem_filter.mp hmem).1]
    rfl
  have hsend : isSendable (contentTypeName, contentType) = true := hvalue
  rw [setContent, headers_setHeader]
  simp only [hres, hkeep, List.filter_cons_of_pos hsend]
  rfl

theorem headers_setJson {res : HttpResponse} {location : Str} {cookies : List Str}
    (hres : res.headers = controlHeaders location cookies) (status : Int) (body : Str) :
    (setJson res status body).headers =
      controlHeaders location cookies ++ [(contentTypeName, "application/json".toList)] :=
  headers_setContent hres body (by decide)

theorem columnsWhere_nil {p : Str → Bool} (h : columnsWhere p names = []) {name : Str}
    (hname : name ∈ names) : p name = false := by
  obtain ⟨i, hi, rfl⟩ := List.getElem_of_mem hname
  by_contra hp
  have hmem : i ∈ columnsWhere p names := by
    refine List.mem_filter.mpr ⟨List.mem_range.mpr hi, ?_⟩
    simpa [List.getD_eq_getElem?_getD, hi] using hp
  rw [h] at hmem
  cases hmem

theorem names_isEmpty_iff :
    ((dataCols names).isEmpty = true ∧ (columnsWhere isLocation names).isEmpty = true ∧
      (columnsWhere isSetCookie names).isEmpty = true) ↔ names.isEmpty = true := by
  simp only [List.isEmpty_iff]
  constructor
  · rintro ⟨hdata, hlocation, hcookie⟩
    rcases names with _ | ⟨name, names⟩
    · rfl
    · have hd := columnsWhere_nil hdata List.mem_cons_self
      rw [columnsWhere_nil hlocation List.mem_cons_self,
        columnsWhere_nil hcookie List.mem_cons_self] at hd
      cases hd
  · rintro rfl
    exact ⟨rfl, rfl, rfl⟩

theorem cell_none (native : NativeCodec V) (row : List V) : cell native row none = none := rfl

theorem controls_of_names_nil {result : QueryResult V} (h : result.names.isEmpty = true) :
    firstLocation codec result = [] ∧ cookieValues codec result = [] := by
  have hnone : ∀ (p : Str → Bool) (row : List V),
      cell codec.toNativeCodec row (columnsWhere p result.names).getLast? = none := by
    intro p row
    rw [List.isEmpty_iff.mp h]
    rfl
  have hlocation : locationCell codec result.names = fun _ => none := funext (hnone _)
  have hcookie : cookieCell codec result.names = fun _ => none := funext (hnone _)
  constructor
  · rw [firstLocation, hlocation, List.filterMap_none]
    rfl
  · rw [cookieValues, hcookie, List.filterMap_none]

variable {route : RouteResponse} {result : QueryResult V}

theorem countJsonBytes_json (names : List Str) : countJsonBytes .json names = isJsonResult names := rfl

theorem completeResponse_plain (hroute : IsPlainExecRoute route) :
    let st := gathered codec route .json result
    let res := completeResponse codec route .json true result
    res.status = 200 ∧ res.body = plainBody codec result.names st ∧
      res.headers = controlHeaders st.location st.cookies ++ contentTypeOf result.names := by
  intro st res
  have hres : res = fetchedResponse codec route .json true result.names st := rfl
  have hcontrols := headers_controls st.location st.cookies
  have he : ¬ IsEmptyStatus route result := fun h => h.2 hroute.emptyStatus
  have harray : ¬ objectEnvelope route = true := by
    rw [hroute.envelope]
    decide
  by_cases hdata : (dataCols result.names).isEmpty = false
  · -- with data columns the body is rows or the cells of one column
    have hnil : ¬ result.names.isEmpty = true := fun h => by
      rw [(names_isEmpty_iff.mpr h).1] at hdata
      cases hdata
    by_cases hmode : responseModeFor (dataNames result.names) = .json
    · have hjson := (isJsonResult_iff hdata).mpr hmode
      rw [fetchedResponse_data hdata (by decide) he rowCount_gathered hmode] at hres
      simp only [dataResponse, if_neg harray, hroute.status] at hres
      rw [hres, plainBody, if_pos hjson, contentTypeOf, if_pos (by simp [hjson])]
      exact ⟨status_setJson _ _ _, body_setJson _ _ _, headers_setJson hcontrols _ _⟩
    · have hjson : ¬ isJsonResult result.names = true := fun h => hmode ((isJsonResult_iff hdata).mp h)
      rw [fetchedResponse_column hdata (by decide) he rowCount_gathered hmode, hroute.status] at hres
      rw [hres, plainBody, if_neg hjson, if_neg hnil, contentTypeOf, if_neg (by simp [hjson, hnil]),
        if_neg (by simp [hdata])]
      exact ⟨status_setContent _ _ _, body_setContent _ _ _,
        headers_setContent hcontrols _ (isFieldValue_modeContentType _)⟩
  · have hempty : (dataCols result.names).isEmpty = true := by simpa using hdata
    have hjson : ¬ isJsonResult result.names = true := by simp [isJsonResult, hempty]
    have hstatus : ¬ (st.rowCount = 0 ∧ route.emptyStatus ≠ 0) := fun h => h.2 hroute.emptyStatus
    rw [fetchedResponse, if_neg hstatus, hroute.status] at hres
    by_cases hnil : result.names.isEmpty = true
    · obtain ⟨_, hlocation, hcookie⟩ := names_isEmpty_iff.mpr hnil
      rw [if_pos (by simp [hempty, hlocation, hcookie])] at hres
      rw [hres, plainBody, if_neg hjson, if_pos hnil, contentTypeOf, if_pos (by simp [hnil])]
      exact ⟨status_setJson _ _ _, body_setJson _ _ _, headers_setJson hcontrols _ _⟩
    · have hspecial : ¬ ((dataCols result.names).isEmpty && true &&
          (columnsWhere isLocation result.names).isEmpty &&
          (columnsWhere isSetCookie result.names).isEmpty) = true := by
        intro h
        simp only [Bool.and_eq_true] at h
        exact hnil (names_isEmpty_iff.mp ⟨h.1.1.1, h.1.2, h.2⟩)
      rw [if_neg hspecial, if_pos hempty] at hres
      rw [hres, plainBody, if_neg hjson, if_neg hnil, contentTypeOf, if_neg (by simp [hjson, hnil]),
        if_pos hempty]
      refine ⟨rfl, ?_, hcontrols.trans (List.append_nil _).symm⟩
      simp [concatenateCells, List.isEmpty_iff.mp hempty, cell_none]

theorem startResult_headers (native : NativeCodec V) (collectTypedRows : Bool) (names : List Str)
    (hnil : ¬ names.isEmpty = true) :
    (startResult native collectTypedRows names).headers = contentTypeOf names := by
  unfold contentTypeOf
  by_cases hjson : isJsonResult names = true
  · have hor : (isJsonResult names || names.isEmpty) = true := by simp [hjson]
    rw [if_pos hor, startResult]
    exact if_pos hjson
  · have hor : ¬ (isJsonResult names || names.isEmpty) = true := by simp [hjson, hnil]
    rw [if_neg hor, startResult]
    refine (if_neg hjson).trans ?_
    by_cases hdata : (dataCols names).isEmpty = true
    · rw [if_pos hdata, if_pos hdata]
    · rw [if_neg hdata, if_neg hdata]
      have hmode : responseModeFor (dataNames names) ≠ .json := fun hmode =>
        hjson ((isJsonResult_iff (by simpa using hdata)).mpr hmode)
      change (if responseModeFor (dataNames names) = .html then _ else _) = _
      cases hm : responseModeFor (dataNames names) with
      | json => exact absurd hm hmode
      | html => rfl
      | text => rfl

theorem endResult_ok {native : NativeCodec V} {out : ResultState V} {response : QuackapiExecResponse V}
    (h : endResult native maxBytes names out = .ok response) :
    response.status = 200 ∧
      response.body = (if isJsonResult names then out.body ++ "]".toList
        else if names.isEmpty then "[]".toList else out.body) ∧
      response.headers = (if isJsonResult names then out.headers
        else if names.isEmpty then [(contentTypeName, "application/json".toList)] else out.headers) ++
          locationHeader out.location := by
  let base : QuackapiExecResponse V :=
    if isJsonResult names then ⟨200, out.body ++ "]".toList, out.headers, out.rows, none⟩
    else if names.isEmpty then execJsonResponse 200 "[]".toList
    else ⟨200, out.body, out.headers, out.rows, none⟩
  have hbase : ∃ typedResult, response =
      { base with headers := base.headers ++ locationHeader out.location, typedResult } := by
    unfold endResult at h
    rcases ht : out.typedRows with _ | t
    · simp only [ht, bind_eq_ok, pure_eq_ok] at h
      obtain ⟨typed, _, rfl⟩ := h
      exact ⟨typed, rfl⟩
    · simp only [ht, bind_eq_ok, pure_eq_ok] at h
      obtain ⟨_, _, typed, _, rfl⟩ := h
      exact ⟨typed, rfl⟩
  obtain ⟨typedResult, rfl⟩ := hbase
  by_cases hjson : isJsonResult names = true
  · simp [base, hjson]
  · by_cases hnil : names.isEmpty = true
    · simp only [base, if_neg hjson, if_pos hnil]
      exact ⟨rfl, rfl, rfl⟩
    · simp [base, hjson, hnil]

theorem contentTypes_of_controls {location : Str} {cookies : List Str} {headers : List (Str × Str)}
    (h : ∀ e ∈ headers, e ∈ locationHeader location ++ cookieHeaders cookies) :
    headers.filter (fun e => ciEquals e.1 contentTypeName) = [] := by
  refine List.filter_eq_nil_iff.mpr fun e he => ?_
  rw [not_contentType (h e he)]
  decide

theorem contentTypeOf_sendable (names : List Str) :
    (contentTypeOf names).filter isSendable = contentTypeOf names := by
  unfold contentTypeOf
  split
  · rfl
  · split
    · rfl
    · exact List.filter_cons_of_pos (isFieldValue_modeContentType _)

theorem sameAsExec (hroute : IsPlainExecRoute route) {collectTypedRows : Bool}
    {response : QuackapiExecResponse V}
    (hcollect : collectResult codec.toNativeCodec maxBytes collectTypedRows result = .ok response)
    (hfetch : ¬ Overcounted codec maxBytes route .json result) :
    SameAsExec (completeResponse codec route .json true result) response := by
  obtain ⟨out, hrows, hend⟩ := bind_eq_ok.mp hcollect
  obtain ⟨hstatus, hbody, hheaders⟩ := endResult_ok hend
  obtain ⟨hstatus', hbody', hheaders'⟩ :
      let st := gathered codec route .json result
      let res := completeResponse codec route .json true result
      res.status = 200 ∧ res.body = plainBody codec result.names st ∧
        res.headers = controlHeaders st.location st.cookies ++ contentTypeOf result.names :=
    completeResponse_plain hroute
  have hgathered : gathered codec route .json result =
      takeRows codec result.names (isJsonResult result.names) false
        (startFetch (isJsonResult result.names) false) result.rows := by
    rw [gathered, countJsonBytes_json, hroute.envelope]
  have hsame := sameRows_run (sameRows_start collectTypedRows) hrows
  rw [← hgathered] at hsame
  have hok : fetchRows codec maxBytes result.names (isJsonResult result.names) false
      (startFetch (isJsonResult result.names) false) result.rows =
        .ok (gathered codec route .json result) := by
    rw [fetchRows_startFetch_eq, ← hgathered]
    exact if_neg hfetch
  obtain ⟨hlocation, hcookies, _⟩ := fetchRows_startFetch hok
  generalize gathered codec route .json result = st at *
  have hresponse : response.headers =
      contentTypeOf result.names ++ cookieHeaders st.cookies ++ locationHeader st.location := by
    rw [hheaders, ← hsame.location, hsame.headers]
    by_cases hnil : result.names.isEmpty = true
    · have hjson : ¬ isJsonResult result.names = true := by
        rw [List.isEmpty_iff.mp hnil]
        decide
      have hnone : st.cookies = [] := hcookies.trans (controls_of_names_nil hnil).2
      rw [if_neg hjson, if_pos hnil, contentTypeOf, if_pos (by simp [hnil]), hnone]
      rfl
    · rw [startResult_headers _ _ _ hnil, if_neg hnil, ite_self]
      rfl
  refine ⟨?_, ?_, ?_, ?_⟩
  · rw [hstatus', hstatus]
    rfl
  · rw [hbody', hbody, hsame.body, plainBody]
    by_cases hjson : isJsonResult result.names = true
    · rw [if_pos hjson, if_pos hjson, if_pos hjson]
    · rw [if_neg hjson, if_neg hjson, if_neg hjson]
  · have hcontrols := contentTypes_of_controls
      (fun e he => (List.mem_filter.mp he).1 : ∀ e ∈ controlHeaders st.location st.cookies, _)
    have hc : (cookieHeaders st.cookies).filter (fun e => ciEquals e.1 contentTypeName) = [] :=
      contentTypes_of_controls fun e he => List.mem_append_right (locationHeader []) he
    have hl : (locationHeader st.location).filter (fun e => ciEquals e.1 contentTypeName) = [] :=
      contentTypes_of_controls fun e he => List.mem_append_left (cookieHeaders []) he
    simp only [headerValues, hheaders', hresponse, List.filter_append, hcontrols, hc, hl,
      List.nil_append, List.append_nil]
  · rw [hheaders', hresponse, controlHeaders]
    simp only [List.filter_append, contentTypeOf_sendable]
    refine List.perm_append_comm.trans ?_
    rw [List.append_assoc]
    exact List.Perm.append_left _ List.perm_append_comm

/-- Where neither path answers 507, a plain exec route answers what `QuackapiExecResult` does, less
the headers that no response may have. -/
theorem quackapiExecResult_eq_handleResult (codec : ResponseCodec V) (serializers : Serializers V)
    (maxBytes : Nat) (deadline : Deadline) (route : RouteResponse) (collectTypedRows : Bool)
    (result : QueryResult V) (hroute : IsPlainExecRoute route)
    (hlawful : collectTypedRows = true → LawfulTyped codec.toNativeCodec result)
    (hexec : (quackapiExecResult codec.toNativeCodec maxBytes collectTypedRows result).status ≠ 507)
    (hhttp : (handleResult codec serializers maxBytes deadline false route .json true
      result).status ≠ 507) :
    SameAsExec (handleResult codec serializers maxBytes deadline false route .json true result)
      (quackapiExecResult codec.toNativeCodec maxBytes collectTypedRows result) := by
  have hloop : UsesRowLoop .json result.names := by simp [UsesRowLoop]
  rw [Ne, status_handleResult hloop, not_or, not_or] at hhttp
  obtain ⟨hfetch, hbody, _⟩ := hhttp
  have hbuild : buildResult codec serializers maxBytes deadline route .json true result =
      .ok (completeResponse codec route .json true result) := by
    rw [buildResult_eq hloop]
    exact if_neg hfetch
  rw [handleResult_of_notCutShort rfl hbuild (Nat.not_lt.mp hbody)]
  exact sameAsExec hroute (quackapiExecResult_of_ne hlawful hexec) hfetch

end

theorem lawful_varchar (result : QueryResult (Option Str))
    (h : ∀ row ∈ result.rows, row.length = result.names.length) :
    LawfulTyped varcharCodec.toNativeCodec result :=
  ⟨rfl, h, fun _ _ => Nat.zero_le _, fun _ => Nat.le_refl _⟩

theorem pageResult_sameAsExec :
    SameAsExec (handleResult varcharCodec noSerializers 100 ⟨false, false⟩ false pageRoute .json true
      pageResult) (quackapiExecResult varcharCodec.toNativeCodec 100 true pageResult) :=
  quackapiExecResult_eq_handleResult varcharCodec noSerializers 100 ⟨false, false⟩ pageRoute true
    pageResult ⟨rfl, rfl, by decide⟩ (fun _ => lawful_varchar pageResult (by decide)) (by decide)
    (by decide)

def splitLocation : QueryResult (Option Str) :=
  ⟨["id".toList, "location".toList], [[some "1".toList, some "/a\nb".toList]]⟩

/-- A `location` over two lines is in the exec response, and no header of the HTTP response. -/
theorem splitLocation_headers :
    (quackapiExecResult varcharCodec.toNativeCodec 100 false splitLocation).status ≠ 507 ∧
      (handleResult varcharCodec noSerializers 100 ⟨false, false⟩ false pageRoute .json true
        splitLocation).status ≠ 507 ∧
      ¬ (handleResult varcharCodec noSerializers 100 ⟨false, false⟩ false pageRoute .json true
          splitLocation).headers.Perm
        (quackapiExecResult varcharCodec.toNativeCodec 100 false splitLocation).headers := by
  refine ⟨by decide, by decide, by decide +kernel⟩

end Quackapi.Exec
