import Quackapi.Http.Response

/-! What a response takes from its control columns, and how far that depends on the format of its
body. The three loops agree; the Parquet branch alone does not look at the name of the column. -/

namespace Quackapi.Http
open Exec

section
variable {V : Type} (codec : ResponseCodec V)

def locationCell (names : List Str) (row : List V) : Option Str :=
  cell codec.toNativeCodec row (columnsWhere isLocation names).getLast?

def cookieCell (names : List Str) (row : List V) : Option Str :=
  cell codec.toNativeCodec row (columnsWhere isSetCookie names).getLast?

/-- The first value of the `location` column that is neither null nor empty. -/
def firstLocation (result : QueryResult V) : Str :=
  ((result.rows.filterMap (locationCell codec result.names)).find? fun l => !l.isEmpty).getD []

def cookieValues (result : QueryResult V) : List Str :=
  result.rows.filterMap (cookieCell codec result.names)

def IsEmptyStatus (route : RouteResponse) (result : QueryResult V) : Prop :=
  result.rows = [] ∧ route.emptyStatus ≠ 0

instance (route : RouteResponse) (result : QueryResult V) : Decidable (IsEmptyStatus route result) :=
  decidable_of_iff (result.rows.isEmpty = true ∧ route.emptyStatus ≠ 0) (by
    rw [List.isEmpty_iff]
    rfl)

def emptyStatusResponse (route : RouteResponse) : HttpResponse :=
  setJson newResponse route.emptyStatus (emptyResultBody route)

variable {codec}

theorem foldl_first_nonempty {α : Type} (f : α → Option Str) (l : List α) (first : Str) :
    l.foldl (fun acc a => if acc.isEmpty then (f a).getD [] else acc) first =
      if first.isEmpty then ((l.filterMap f).find? fun s => !s.isEmpty).getD [] else first := by
  induction l generalizing first with
  | nil =>
    cases first with
    | nil => rfl
    | cons c first => rfl
  | cons a l ih =>
    rw [List.foldl_cons, ih]
    cases first with
    | cons c first => rfl
    | nil =>
      rcases hf : f a with _ | value
      · simp [List.filterMap_cons_none hf]
      · rw [List.filterMap_cons_some hf]
        cases value <;> rfl

theorem foldl_append_toList {α β : Type} (f : α → Option β) (l : List α) (acc : List β) :
    l.foldl (fun acc a => acc ++ (f a).toList) acc = acc ++ l.filterMap f := by
  induction l generalizing acc with
  | nil => simp
  | cons a l ih =>
    rw [List.foldl_cons, ih]
    rcases hf : f a with _ | b
    · simp [List.filterMap_cons_none hf]
    · simp [List.filterMap_cons_some hf]

theorem foldl_visitRow (names : List Str) (rows : List (List V)) (c : Controls) :
    rows.foldl (visitRow codec names) c =
      ⟨rows.foldl (fun acc row => if acc.isEmpty then (locationCell codec names row).getD [] else acc)
          c.location,
        rows.foldl (fun acc row => acc ++ (cookieCell codec names row).toList) c.cookies⟩ := by
  induction rows generalizing c with
  | nil => rfl
  | cons row rows ih => exact ih (visitRow codec names c row)

theorem visitRows_eq (result : QueryResult V) :
    visitRows codec result = ⟨firstLocation codec result, cookieValues codec result⟩ := by
  rw [visitRows, foldl_visitRow, foldl_first_nonempty, foldl_append_toList]
  rfl

def FetchState.controls (st : FetchState V) : Controls := ⟨st.location, st.cookies⟩

theorem fetchRow_ok {maxBytes : Nat} {names : List Str} {json object : Bool} {st st' : FetchState V}
    {row : List V} (h : fetchRow codec maxBytes names json object st row = .ok st') :
    st'.controls = visitRow codec names st.controls row ∧ st'.rowCount = st.rowCount + 1 ∧
      st'.rows = (if json then st.rows else st.rows ++ [row]) ∧
      st'.jsonBody = st.jsonBody ++ rowJson codec names json object st.rowCount row := by
  simp only [fetchRow, Library.bind_eq_ok] at h
  obtain ⟨counted, _, h⟩ := h
  split at h
  · cases h
  · cases h
    exact ⟨rfl, rfl, rfl, rfl⟩

theorem fetchRows_controls {maxBytes : Nat} {names : List Str} {json object : Bool}
    {st st' : FetchState V} {rows : List (List V)}
    (h : fetchRows codec maxBytes names json object st rows = .ok st') :
    st'.controls = rows.foldl (visitRow codec names) st.controls ∧
      st'.rowCount = st.rowCount + rows.length ∧
      st'.rows = if json then st.rows else st.rows ++ rows := by
  induction rows generalizing st with
  | nil =>
    cases h
    simp
  | cons row rows ih =>
    simp only [fetchRows, Library.bind_eq_ok] at h
    obtain ⟨next, hrow, hrest⟩ := h
    obtain ⟨hcontrols, hcount, hrows, _⟩ := fetchRow_ok hrow
    obtain ⟨ihcontrols, ihcount, ihrows⟩ := ih hrest
    refine ⟨?_, ?_, ?_⟩
    · rw [ihcontrols, hcontrols, List.foldl_cons]
    · rw [ihcount, hcount, List.length_cons]
      omega
    · rw [ihrows, hrows]
      cases json <;> simp

theorem fetchRows_startFetch {maxBytes : Nat} {json object : Bool} {result : QueryResult V}
    {st : FetchState V}
    (h : fetchRows codec maxBytes result.names json object (startFetch json object) result.rows =
      .ok st) :
    st.location = firstLocation codec result ∧ st.cookies = cookieValues codec result ∧
      st.rowCount = result.rows.length ∧ (json = false → st.rows = result.rows) := by
  obtain ⟨hcontrols, hcount, hrows⟩ := fetchRows_controls h
  have hstart : (startFetch json object : FetchState V).controls = ⟨[], []⟩ := rfl
  have hall : st.controls = ⟨firstLocation codec result, cookieValues codec result⟩ := by
    rw [hcontrols, hstart]
    exact visitRows_eq result
  refine ⟨congrArg Controls.location hall, congrArg Controls.cookies hall, ?_, ?_⟩
  · rw [hcount]
    exact Nat.zero_add _
  · rintro rfl
    rw [hrows]
    rfl

/-- The response has what the rows ask for, as far as a header can carry it. -/
structure TakesControls (codec : ResponseCodec V) (route : RouteResponse) (result : QueryResult V)
    (res : HttpResponse) : Prop where
  status : res.status = if IsEmptyStatus route result then route.emptyStatus else route.status
  location : headerValues "Location".toList res =
    if (firstLocation codec result).isEmpty then []
    else [firstLocation codec result].filter isFieldValue
  cookies : headerValues "Set-Cookie".toList res = (cookieValues codec result).filter isFieldValue
  emptyStatus : IsEmptyStatus route result → res = emptyStatusResponse route

/-- The body is the cells of the one `html` or `text` column. -/
def IsColumnResponse (codec : ResponseCodec V) (result : QueryResult V) (res : HttpResponse) : Prop :=
  res.body = concatenateCells codec result.names result.rows ∧
    headerValues contentTypeName res = [modeContentType (responseModeFor (dataNames result.names))]

theorem headerValues_controls {location : Str} {cookies : List Str} {res : HttpResponse}
    (hres : ∃ body contentType, ∃ status : Int,
      res = setContent { setCookies (setLocation newResponse location) cookies with status } body
          contentType ∨
        res = setContent { setLocation (setCookies newResponse cookies) location with status } body
          contentType) :
    headerValues "Location".toList res =
        (if location.isEmpty then [] else [location].filter isFieldValue) ∧
      headerValues "Set-Cookie".toList res = cookies.filter isFieldValue := by
  have hnew : ∀ name, headerValues name newResponse = [] := fun _ => rfl
  have hlocation : ciEquals contentTypeName "Location".toList = false := by decide
  have hcookie : ciEquals contentTypeName "Set-Cookie".toList = false := by decide
  have hcross : ciEquals "Set-Cookie".toList "Location".toList = false := by decide
  have hcross' : ciEquals "Location".toList "Set-Cookie".toList = false := by decide
  obtain ⟨body, contentType, status, rfl | rfl⟩ := hres
  · rw [headerValues_setContent hlocation, headerValues_setContent hcookie]
    have h₁ := headerValues_setCookies_ne hcross (setLocation newResponse location) cookies
    have h₂ := headerValues_setCookies (setLocation newResponse location) cookies
    rw [headerValues_setLocation, hnew, List.nil_append] at h₁
    rw [headerValues_setLocation_ne hcross', hnew, List.nil_append] at h₂
    exact ⟨h₁, h₂⟩
  · rw [headerValues_setContent hlocation, headerValues_setContent hcookie]
    have h₁ := headerValues_setLocation (setCookies newResponse cookies) location
    have h₂ := headerValues_setLocation_ne hcross' (setCookies newResponse cookies) location
    rw [headerValues_setCookies_ne hcross, hnew, List.nil_append] at h₁
    rw [headerValues_setCookies, hnew, List.nil_append] at h₂
    exact ⟨h₁, h₂⟩

theorem firstLocation_of_rows_nil {result : QueryResult V} (h : result.rows = []) :
    firstLocation codec result = [] := by
  rw [firstLocation, h]
  rfl

theorem cookieValues_of_rows_nil {result : QueryResult V} (h : result.rows = []) :
    cookieValues codec result = [] := by
  rw [cookieValues, h]
  rfl

theorem takesControls_serializedResponse (route : RouteResponse) (result : QueryResult V)
    (contentType body : Str) :
    TakesControls codec route result (serializedResponse codec route result contentType body) := by
  have hempty : IsEmptyStatus route result ↔ result.rows.length = 0 ∧ route.emptyStatus ≠ 0 := by
    rw [IsEmptyStatus, List.length_eq_zero_iff]
  simp only [serializedResponse, visitRows_eq]
  by_cases he : IsEmptyStatus route result
  · rw [if_pos (hempty.mp he)]
    obtain ⟨hl, hc⟩ := headerValues_controls ⟨emptyResultBody route, "application/json".toList,
      route.emptyStatus, .inr rfl⟩
    refine ⟨by simp [he], hl, hc, fun _ => ?_⟩
    rw [firstLocation_of_rows_nil he.1, cookieValues_of_rows_nil he.1]
    rfl
  · rw [if_neg fun h => he (hempty.mpr h)]
    obtain ⟨hl, hc⟩ := headerValues_controls ⟨body, contentType, route.status, .inr rfl⟩
    exact ⟨by simp [he], hl, hc, fun h => absurd h he⟩

/-- `JSON` array, `NDJSON`, `CSV`, Arrow and Parquet. -/
def IsRowFormat (route : RouteResponse) (fmt : BodyFormat) : Prop :=
  fmt ≠ .binary ∧ (fmt = .json → objectEnvelope route = false)

instance (route : RouteResponse) (fmt : BodyFormat) : Decidable (IsRowFormat route fmt) :=
  inferInstanceAs (Decidable (_ ∧ _))

theorem dataResponse_eq {route : RouteResponse} {fmt : BodyFormat} (hfmt : IsRowFormat route fmt)
    (harrow : fmt ≠ .arrow) (names : List Str) (res : HttpResponse) (st : FetchState V) :
    ∃ body contentType, dataResponse codec route fmt names res st =
      setContent { res with status := route.status } body contentType := by
  cases fmt with
  | json =>
    refine ⟨st.jsonBody ++ "]".toList, "application/json".toList, ?_⟩
    simp only [dataResponse, hfmt.2 rfl]
    rfl
  | ndjson => exact ⟨_, _, rfl⟩
  | csv => exact ⟨_, _, rfl⟩
  | parquet => exact ⟨_, _, rfl⟩
  | arrow => exact absurd rfl harrow
  | binary => exact absurd rfl hfmt.1

section
variable {route : RouteResponse} {fmt : BodyFormat} {execRoute : Bool} {result : QueryResult V}
  {st : FetchState V}

theorem fetchedResponse_emptyStatus (he : IsEmptyStatus route result)
    (hcount : st.rowCount = result.rows.length) (hlocation : st.location = [])
    (hcookies : st.cookies = []) :
    fetchedResponse codec route fmt execRoute result.names st = emptyStatusResponse route := by
  have hzero : st.rowCount = 0 := by rw [hcount, he.1, List.length_nil]
  rw [fetchedResponse, if_pos ⟨hzero, he.2⟩, hlocation, hcookies]
  rfl

theorem fetchedResponse_column (hdata : (dataCols result.names).isEmpty = false)
    (hfmt : fmt ≠ .binary) (he : ¬ IsEmptyStatus route result)
    (hcount : st.rowCount = result.rows.length)
    (hmode : responseModeFor (dataNames result.names) ≠ .json) :
    fetchedResponse codec route fmt execRoute result.names st =
      setContent { setCookies (setLocation newResponse st.location) st.cookies with
          status := route.status }
        (concatenateCells codec result.names st.rows)
        (modeContentType (responseModeFor (dataNames result.names))) := by
  have hnot : ¬ (st.rowCount = 0 ∧ route.emptyStatus ≠ 0) := by
    rw [hcount, List.length_eq_zero_iff]
    exact he
  rw [fetchedResponse, if_neg hnot, if_neg (by simp [hdata]), if_neg (by simp [hdata]), if_neg hfmt,
    if_pos hmode]

theorem fetchedResponse_data (hdata : (dataCols result.names).isEmpty = false)
    (hfmt : fmt ≠ .binary) (he : ¬ IsEmptyStatus route result)
    (hcount : st.rowCount = result.rows.length)
    (hmode : responseModeFor (dataNames result.names) = .json) :
    fetchedResponse codec route fmt execRoute result.names st =
      dataResponse codec route fmt result.names
        (setCookies (setLocation newResponse st.location) st.cookies) st := by
  have hnot : ¬ (st.rowCount = 0 ∧ route.emptyStatus ≠ 0) := by
    rw [hcount, List.length_eq_zero_iff]
    exact he
  rw [fetchedResponse, if_neg hnot, if_neg (by simp [hdata]), if_neg (by simp [hdata]), if_neg hfmt,
    if_neg (by simp [hmode])]

theorem takesControls_fetchedResponse (hdata : (dataCols result.names).isEmpty = false)
    (hfmt : IsRowFormat route fmt)
    (harrow : responseModeFor (dataNames result.names) = .json → fmt ≠ .arrow)
    (hcount : st.rowCount = result.rows.length) (hlocation : st.location = firstLocation codec result)
    (hcookies : st.cookies = cookieValues codec result) :
    TakesControls codec route result
      (fetchedResponse codec route fmt execRoute result.names st) := by
  by_cases he : IsEmptyStatus route result
  · have hl : firstLocation codec result = [] := firstLocation_of_rows_nil he.1
    have hc : cookieValues codec result = [] := cookieValues_of_rows_nil he.1
    rw [fetchedResponse_emptyStatus he hcount (hlocation.trans hl) (hcookies.trans hc)]
    refine ⟨by simp [emptyStatusResponse, he], ?_, ?_, fun _ => rfl⟩
    · rw [hl]
      rfl
    · rw [hc]
      rfl
  · -- with rows, or without an answer for no rows, the body is what the mode and the format make
    have hcontent : ∃ body contentType,
        fetchedResponse codec route fmt execRoute result.names st =
          setContent { setCookies (setLocation newResponse st.location) st.cookies with
            status := route.status } body contentType := by
      by_cases hmode : responseModeFor (dataNames result.names) = .json
      · rw [fetchedResponse_data hdata hfmt.1 he hcount hmode]
        exact dataResponse_eq hfmt (harrow hmode) _ _ st
      · exact ⟨_, _, fetchedResponse_column hdata hfmt.1 he hcount hmode⟩
    obtain ⟨body, contentType, hres⟩ := hcontent
    rw [hlocation, hcookies] at hres
    obtain ⟨hl, hc⟩ := headerValues_controls ⟨body, contentType, route.status, .inl hres⟩
    exact ⟨by rw [hres, if_neg he]; exact status_setContent _ _ _, hl, hc, fun h => absurd h he⟩

end

/-- Neither the cap nor the deadline nor a serializer has put an end to the request. -/
def NotCutShort (codec : ResponseCodec V) (serializers : Serializers V) (maxBytes : Nat)
    (deadline : Deadline) (expired : Bool) (route : RouteResponse) (fmt : BodyFormat)
    (execRoute : Bool) (result : QueryResult V) : Prop :=
  expired = false ∧ ∃ res,
    buildResult codec serializers maxBytes deadline route fmt execRoute result = .ok res ∧
      res.body.length ≤ maxBytes

/-- What two responses to one result have in common. -/
structure SameControls (codec : ResponseCodec V) (route : RouteResponse) (result : QueryResult V)
    (r s : HttpResponse) : Prop where
  status : r.status = s.status
  location : headerValues "Location".toList r = headerValues "Location".toList s
  firstLocation : headerValues "Location".toList r =
    if (firstLocation codec result).isEmpty then []
    else [firstLocation codec result].filter isFieldValue
  cookies : headerValues "Set-Cookie".toList r = headerValues "Set-Cookie".toList s
  allCookies : headerValues "Set-Cookie".toList r = (cookieValues codec result).filter isFieldValue
  emptyStatus : IsEmptyStatus route result →
    r = emptyStatusResponse route ∧ s = emptyStatusResponse route
  column : responseModeFor (dataNames result.names) ≠ .json → ¬ IsEmptyStatus route result →
    IsColumnResponse codec result r ∧ IsColumnResponse codec result s

section
variable {serializers : Serializers V} {maxBytes : Nat} {deadline : Deadline} {expired : Bool}
  {route : RouteResponse} {fmt : BodyFormat} {execRoute : Bool} {result : QueryResult V}

theorem handleResult_of_notCutShort {res : HttpResponse} (hexpired : expired = false)
    (hbuild : buildResult codec serializers maxBytes deadline route fmt execRoute result = .ok res)
    (hlen : res.body.length ≤ maxBytes) :
    handleResult codec serializers maxBytes deadline expired route fmt execRoute result = res := by
  rw [handleResult, handleResultAfter, hbuild, hexpired]
  exact if_neg (Nat.not_lt.mpr hlen)

theorem isJsonResult_iff {names : List Str} (hdata : (dataCols names).isEmpty = false) :
    isJsonResult names = true ↔ responseModeFor (dataNames names) = .json := by
  simp [isJsonResult, dataNames, hdata]

theorem isFieldValue_modeContentType (mode : ResponseMode) :
    isFieldValue (modeContentType mode) = true := by
  cases mode <;> decide

theorem contentType_serializedResponse (he : ¬ IsEmptyStatus route result) (contentType body : Str)
    (hvalue : isFieldValue contentType = true) :
    headerValues contentTypeName (serializedResponse codec route result contentType body) =
      [contentType] := by
  have hnot : ¬ (result.rows.length = 0 ∧ route.emptyStatus ≠ 0) := by
    rw [List.length_eq_zero_iff]
    exact he
  rw [serializedResponse, if_neg hnot, headerValues_contentType, if_pos hvalue]

theorem parquet_ne_modeContentType (mode : ResponseMode) :
    "application/vnd.apache.parquet".toList ≠ modeContentType mode := by
  cases mode <;> decide +kernel

theorem handleResult_spec (hdata : (dataCols result.names).isEmpty = false)
    (hfmt : IsRowFormat route fmt)
    (hcut : NotCutShort codec serializers maxBytes deadline expired route fmt execRoute result) :
    let res := handleResult codec serializers maxBytes deadline expired route fmt execRoute result
    TakesControls codec route result res ∧
      (responseModeFor (dataNames result.names) ≠ .json → ¬ IsEmptyStatus route result →
        (IsColumnResponse codec result res ↔ fmt ≠ .parquet)) := by
  obtain ⟨hexpired, res, hbuild, hlen⟩ := hcut
  simp only [handleResult_of_notCutShort hexpired hbuild hlen]
  simp only [buildResult] at hbuild
  split at hbuild
  · next h =>
    -- Arrow has made the body
    split at hbuild
    · cases hbuild
      have hmode := (isJsonResult_iff hdata).mp h.2
      exact ⟨takesControls_serializedResponse route result _ _, fun hne => absurd hmode hne⟩
    all_goals cases hbuild
  · next harrow =>
    split at hbuild
    · next h =>
      -- Parquet has made the body, whatever the name of the column
      split at hbuild
      · next body _ =>
        cases hbuild
        refine ⟨takesControls_serializedResponse route result _ _, fun hmode he => ?_⟩
        refine iff_of_false (fun hcolumn => ?_) (fun hne => hne h.1)
        have htype := hcolumn.2
        rw [contentType_serializedResponse he _ body (by decide)] at htype
        exact parquet_ne_modeContentType _ (List.singleton_injective htype)
      all_goals cases hbuild
    · next hparquet =>
      obtain ⟨st, hst, hres⟩ := Library.bind_eq_ok.mp hbuild
      cases hres
      obtain ⟨hlocation, hcookies, hcount, hrows⟩ := fetchRows_startFetch hst
      have hne : fmt ≠ .parquet := fun h => hparquet ⟨h, hdata⟩
      refine ⟨takesControls_fetchedResponse hdata hfmt ?_ hcount hlocation hcookies, ?_⟩
      · intro hmode h
        exact harrow ⟨h, (isJsonResult_iff hdata).mpr hmode⟩
      · intro hmode he
        refine iff_of_true ?_ hne
        have hjson : countJsonBytes fmt result.names = false := by
          simp [countJsonBytes, isJsonResult_iff hdata |>.not.mpr hmode]
        rw [fetchedResponse_column hdata hfmt.1 he hcount hmode, IsColumnResponse, body_setContent,
          headerValues_contentType, isFieldValue_modeContentType, hrows hjson]
        exact ⟨rfl, rfl⟩

/-- Two formats agree on the controls of every result, and on an `html` or `text` column unless one of
them is Parquet. -/
theorem sameControls_iff {serializers' : Serializers V} {deadline' : Deadline} {expired' : Bool}
    {fmt' : BodyFormat} (hdata : (dataCols result.names).isEmpty = false)
    (hfmt : IsRowFormat route fmt) (hfmt' : IsRowFormat route fmt')
    (hcut : NotCutShort codec serializers maxBytes deadline expired route fmt execRoute result)
    (hcut' : NotCutShort codec serializers' maxBytes deadline' expired' route fmt' execRoute result) :
    SameControls codec route result
        (handleResult codec serializers maxBytes deadline expired route fmt execRoute result)
        (handleResult codec serializers' maxBytes deadline' expired' route fmt' execRoute result) ↔
      responseModeFor (dataNames result.names) = .json ∨ IsEmptyStatus route result ∨
        (fmt ≠ .parquet ∧ fmt' ≠ .parquet) := by
  obtain ⟨htakes, hcolumn⟩ := handleResult_spec hdata hfmt hcut
  obtain ⟨htakes', hcolumn'⟩ := handleResult_spec hdata hfmt' hcut'
  constructor
  · intro h
    by_cases hmode : responseModeFor (dataNames result.names) = .json
    · exact .inl hmode
    · by_cases he : IsEmptyStatus route result
      · exact .inr (.inl he)
      · obtain ⟨hr, hs⟩ := h.column hmode he
        exact .inr (.inr ⟨(hcolumn hmode he).mp hr, (hcolumn' hmode he).mp hs⟩)
  · intro h
    exact {
      status := htakes.status.trans htakes'.status.symm
      location := htakes.location.trans htakes'.location.symm
      firstLocation := htakes.location
      cookies := htakes.cookies.trans htakes'.cookies.symm
      allCookies := htakes.cookies
      emptyStatus := fun he => ⟨htakes.emptyStatus he, htakes'.emptyStatus he⟩
      column := fun hmode he => by
        obtain ⟨hf, hf'⟩ := (h.resolve_left hmode).resolve_left he
        exact ⟨(hcolumn hmode he).mpr hf, (hcolumn' hmode he).mpr hf'⟩ }

end

end

def pageRoute : RouteResponse := ⟨200, [], 0, []⟩

def pageResult : QueryResult (Option Str) :=
  ⟨["html".toList, "location".toList], [[some "<p>".toList, none], [some "</p>".toList, some "/next".toList]]⟩

def noSerializers : Serializers (Option Str) where
  arrow _ _ _ := .error (.failed "no Arrow".toList)
  parquet _ _ _ := .ok "PAR1PAR1".toList

theorem page_json_csv : SameControls varcharCodec pageRoute pageResult
    (handleResult varcharCodec noSerializers 100 ⟨false, false⟩ false pageRoute .json false pageResult)
    (handleResult varcharCodec noSerializers 100 ⟨false, false⟩ false pageRoute .csv false pageResult) :=
  (sameControls_iff (by decide) (by decide) (by decide) ⟨rfl, _, rfl, by decide⟩
    ⟨rfl, _, rfl, by decide⟩).mpr (.inr (.inr ⟨by decide, by decide⟩))

/-- `FORMAT parquet` wins over the name of the column. -/
theorem page_parquet : ¬ SameControls varcharCodec pageRoute pageResult
    (handleResult varcharCodec noSerializers 100 ⟨false, false⟩ false pageRoute .json false pageResult)
    (handleResult varcharCodec noSerializers 100 ⟨false, false⟩ false pageRoute .parquet false
      pageResult) := by
  intro h
  have hbody := (h.column (by decide) (by decide)).2.1
  exact absurd hbody (by decide +kernel)

end Quackapi.Http
