import Quackapi.Http.ControlColumns

/-! The response cap. The loop counts bytes as rows arrive: the JSON text as it stands, but for every
other body the texts of all cells, which is not the body. -/

namespace Quackapi.Http
open Exec

section
variable {V : Type} (codec : ResponseCodec V)

def rowBytes (json : Bool) (row : List V) : Nat :=
  if json then 0 else row.foldr (fun v n => cellBytes codec v + n) 0

def takeRow (names : List Str) (json object : Bool) (st : FetchState V) (row : List V) :
    FetchState V where
  rows := if json then st.rows else st.rows ++ [row]
  jsonBody := st.jsonBody ++ rowJson codec names json object st.rowCount row
  location :=
    if st.location.isEmpty then
      (cell codec.toNativeCodec row (columnsWhere isLocation names).getLast?).getD []
    else st.location
  cookies :=
    st.cookies ++ (cell codec.toNativeCodec row (columnsWhere isSetCookie names).getLast?).toList
  rowCount := st.rowCount + 1
  responseValueBytes := st.responseValueBytes + rowBytes codec json row +
    (rowJson codec names json object st.rowCount row).length

def takeRows (names : List Str) (json object : Bool) (st : FetchState V) (rows : List (List V)) :
    FetchState V :=
  rows.foldl (takeRow codec names json object) st

def gathered (route : RouteResponse) (fmt : BodyFormat) (result : QueryResult V) : FetchState V :=
  takeRows codec result.names (countJsonBytes fmt result.names) (objectEnvelope route)
    (startFetch (countJsonBytes fmt result.names) (objectEnvelope route)) result.rows

/-- The response that would be sent if nothing were too large. -/
def completeResponse (route : RouteResponse) (fmt : BodyFormat) (execRoute : Bool)
    (result : QueryResult V) : HttpResponse :=
  fetchedResponse codec route fmt execRoute result.names (gathered codec route fmt result)

variable {codec}

theorem countCells_eq (maxBytes : Nat) (json : Bool) (n : Nat) (row : List V) :
    countCells codec maxBytes json n row =
      if row ≠ [] ∧ maxBytes < n + rowBytes codec json row then .error .overLimit
      else .ok (n + rowBytes codec json row) := by
  induction row generalizing n with
  | nil => cases json <;> simp [countCells, rowBytes]
  | cons v row ih =>
    have hcost : rowBytes codec json (v :: row) =
        (if json then 0 else cellBytes codec v) + rowBytes codec json row := by
      cases json <;> simp [rowBytes]
    have hcounted : (if json then n else n + cellBytes codec v) =
        n + if json then 0 else cellBytes codec v := by
      cases json <;> simp
    simp only [countCells, hcounted]
    rw [hcost, ← Nat.add_assoc]
    generalize n + (if json then 0 else cellBytes codec v) = counted
    by_cases hover : maxBytes < counted
    · rw [if_pos hover, if_pos ⟨List.cons_ne_nil _ _, Nat.lt_of_lt_of_le hover (Nat.le_add_right _ _)⟩]
    · rw [if_neg hover, ih]
      -- a check the rest makes or, with no rest, the one just made
      have hiff : (row ≠ [] ∧ maxBytes < counted + rowBytes codec json row) ↔
          (v :: row ≠ [] ∧ maxBytes < counted + rowBytes codec json row) := by
        refine and_congr_left fun hlt => iff_of_true ?_ (List.cons_ne_nil _ _)
        rintro rfl
        have hzero : rowBytes codec json [] = 0 := by cases json <;> rfl
        rw [hzero] at hlt
        exact hover hlt
      simp only [hiff]

theorem fetchRow_eq (maxBytes : Nat) (names : List Str) (json object : Bool) (st : FetchState V)
    (row : List V) :
    fetchRow codec maxBytes names json object st row =
      if (row ≠ [] ∧ maxBytes < st.responseValueBytes + rowBytes codec json row) ∨
          (json = true ∧ maxBytes < (takeRow codec names json object st row).responseValueBytes) then
        .error .overLimit
      else .ok (takeRow codec names json object st row) := by
  rw [fetchRow, countCells_eq]
  by_cases hcells : row ≠ [] ∧ maxBytes < st.responseValueBytes + rowBytes codec json row
  · rw [if_pos hcells]
    exact (if_pos (Or.inl hcells)).symm
  · rw [if_neg hcells]
    by_cases hrow : json = true ∧
        maxBytes < (takeRow codec names json object st row).responseValueBytes
    · refine Eq.trans ?_ (if_pos (Or.inr hrow)).symm
      obtain ⟨rfl, hlt⟩ := hrow
      exact if_pos (by simpa [takeRow] using hlt)
    · refine Eq.trans ?_ (if_neg (not_or.mpr ⟨hcells, hrow⟩)).symm
      exact if_neg (by simpa [takeRow] using hrow)

theorem responseValueBytes_le_takeRow (names : List Str) (json object : Bool) (st : FetchState V)
    (row : List V) :
    st.responseValueBytes ≤ (takeRow codec names json object st row).responseValueBytes := by
  simp only [takeRow]
  omega

theorem responseValueBytes_le_takeRows (names : List Str) (json object : Bool) (st : FetchState V)
    (rows : List (List V)) :
    st.responseValueBytes ≤ (takeRows codec names json object st rows).responseValueBytes := by
  induction rows generalizing st with
  | nil => exact Nat.le_refl _
  | cons row rows ih =>
    exact Nat.le_trans (responseValueBytes_le_takeRow names json object st row) (ih _)

theorem fetchRow_of_le {maxBytes : Nat} {names : List Str} {json object : Bool} {st : FetchState V}
    (hst : st.responseValueBytes ≤ maxBytes) (row : List V) :
    fetchRow codec maxBytes names json object st row =
      if maxBytes < (takeRow codec names json object st row).responseValueBytes then .error .overLimit
      else .ok (takeRow codec names json object st row) := by
  rw [fetchRow_eq]
  refine if_congr ?_ rfl rfl
  cases json with
  | true =>
    have hcells : rowBytes codec true row = 0 := rfl
    rw [hcells]
    constructor
    · rintro (⟨_, h⟩ | ⟨_, h⟩)
      · omega
      · exact h
    · exact fun h => .inr ⟨rfl, h⟩
  | false =>
    have htext : rowJson codec names false object st.rowCount row = [] := rfl
    simp only [takeRow, htext, List.length_nil, Nat.add_zero]
    constructor
    · rintro (⟨_, h⟩ | ⟨h, _⟩)
      · exact h
      · cases h
    · refine fun h => .inl ⟨?_, h⟩
      rintro rfl
      exact absurd h (Nat.not_lt.mpr hst)

theorem fetchRows_of_le {maxBytes : Nat} {names : List Str} {json object : Bool} {st : FetchState V}
    (hst : st.responseValueBytes ≤ maxBytes) (rows : List (List V)) :
    fetchRows codec maxBytes names json object st rows =
      if maxBytes < (takeRows codec names json object st rows).responseValueBytes then
        .error .overLimit
      else .ok (takeRows codec names json object st rows) := by
  induction rows generalizing st with
  | nil => exact (if_neg (Nat.not_lt.mpr hst)).symm
  | cons row rows ih =>
    have hmono : (takeRow codec names json object st row).responseValueBytes ≤
        (takeRows codec names json object (takeRow codec names json object st row)
          rows).responseValueBytes := responseValueBytes_le_takeRows _ _ _ _ _
    rw [fetchRows, fetchRow_of_le hst]
    by_cases hover : maxBytes < (takeRow codec names json object st row).responseValueBytes
    · rw [if_pos hover]
      exact (if_pos (Nat.lt_of_lt_of_le hover hmono)).symm
    · rw [if_neg hover]
      exact ih (Nat.not_lt.mp hover)

theorem fetchRows_startFetch_eq (maxBytes : Nat) (names : List Str) (json object : Bool)
    (rows : List (List V)) :
    fetchRows codec maxBytes names json object (startFetch json object) rows =
      if rows ≠ [] ∧ maxBytes <
          (takeRows codec names json object (startFetch json object) rows).responseValueBytes then
        .error .overLimit
      else .ok (takeRows codec names json object (startFetch json object) rows) := by
  by_cases hst : (startFetch json object : FetchState V).responseValueBytes ≤ maxBytes
  · rw [fetchRows_of_le hst]
    refine if_congr ?_ rfl rfl
    constructor
    · refine fun h => ⟨?_, h⟩
      rintro rfl
      exact absurd h (Nat.not_lt.mpr hst)
    · exact fun h => h.2
  · -- the brackets of an empty array are over the cap, which the first row finds out
    cases rows with
    | nil => rfl
    | cons row rows =>
      have hover := Nat.not_le.mp hst
      have hjson : json = true := by
        cases json with
        | true => rfl
        | false => exact absurd hover (Nat.not_lt_zero _)
      have hrow : maxBytes <
          (takeRow codec names json object (startFetch json object) row).responseValueBytes :=
        Nat.lt_of_lt_of_le hover (responseValueBytes_le_takeRow names json object _ row)
      have hrows : maxBytes <
          (takeRows codec names json object (startFetch json object) (row :: rows)).responseValueBytes :=
        Nat.lt_of_lt_of_le hrow (responseValueBytes_le_takeRows names json object _ rows)
      refine Eq.trans ?_ (if_pos ⟨List.cons_ne_nil _ _, hrows⟩).symm
      rw [fetchRows, fetchRow_eq, if_pos (Or.inr ⟨hjson, hrow⟩)]
      rfl

/-- The formats whose body is text, and every result without data columns. -/
def UsesRowLoop (fmt : BodyFormat) (names : List Str) : Prop :=
  ¬ (fmt = .arrow ∧ isJsonResult names = true) ∧
    ¬ (fmt = .parquet ∧ (dataCols names).isEmpty = false) ∧ fmt ≠ .binary

instance (fmt : BodyFormat) (names : List Str) : Decidable (UsesRowLoop fmt names) :=
  inferInstanceAs (Decidable (_ ∧ _ ∧ _))

def Overcounted (codec : ResponseCodec V) (maxBytes : Nat) (route : RouteResponse) (fmt : BodyFormat)
    (result : QueryResult V) : Prop :=
  result.rows ≠ [] ∧ maxBytes < (gathered codec route fmt result).responseValueBytes

instance (codec : ResponseCodec V) (maxBytes : Nat) (route : RouteResponse) (fmt : BodyFormat)
    (result : QueryResult V) : Decidable (Overcounted codec maxBytes route fmt result) :=
  inferInstanceAs (Decidable (result.rows ≠ [] ∧ _))

def ownStatus (route : RouteResponse) (fmt : BodyFormat) (result : QueryResult V) : Int :=
  if result.rows.length = 0 ∧ route.emptyStatus ≠ 0 then route.emptyStatus
  else if countJsonBytes fmt result.names = true ∧ objectEnvelope route = true ∧
      1 < result.rows.length then 500
  else route.status

section
variable {serializers : Serializers V} {maxBytes : Nat} {deadline : Deadline}
  {route : RouteResponse} {fmt : BodyFormat} {execRoute : Bool} {result : QueryResult V}

theorem buildResult_eq (hfmt : UsesRowLoop fmt result.names) :
    buildResult codec serializers maxBytes deadline route fmt execRoute result =
      if result.rows ≠ [] ∧ maxBytes < (gathered codec route fmt result).responseValueBytes then
        .error .overLimit
      else .ok (completeResponse codec route fmt execRoute result) := by
  obtain ⟨harrow, hparquet, _⟩ := hfmt
  simp only [buildResult]
  rw [if_neg harrow, if_neg hparquet, fetchRows_startFetch_eq]
  split
  · next h => exact (if_pos h).symm
  · next h => exact (if_neg h).symm

theorem rowCount_takeRows (names : List Str) (json object : Bool) (st : FetchState V)
    (rows : List (List V)) :
    (takeRows codec names json object st rows).rowCount = st.rowCount + rows.length := by
  induction rows generalizing st with
  | nil => rfl
  | cons row rows ih =>
    refine (ih (takeRow codec names json object st row)).trans ?_
    simp only [takeRow, List.length_cons]
    omega

theorem rowCount_gathered :
    (gathered codec route fmt result).rowCount = result.rows.length := by
  rw [gathered, rowCount_takeRows]
  exact Nat.zero_add _

theorem countJsonBytes_eq_true {names : List Str} :
    countJsonBytes fmt names = true ↔
      fmt = .json ∧ responseModeFor (dataNames names) = .json ∧ (dataCols names).isEmpty = false := by
  simp [countJsonBytes, isJsonResult, dataNames]

theorem status_dataResponse (harrow : fmt ≠ .arrow) (hbinary : fmt ≠ .binary) (names : List Str)
    (res : HttpResponse) (st : FetchState V) :
    (dataResponse codec route fmt names res st).status =
      if fmt = .json ∧ objectEnvelope route = true ∧ 1 < st.rowCount then 500 else route.status := by
  cases fmt with
  | json =>
    simp only [dataResponse, objectResponse, true_and]
    by_cases ho : objectEnvelope route = true
    · rw [if_pos ho]
      by_cases hmany : 1 < st.rowCount
      · rw [if_pos hmany, if_pos ⟨ho, hmany⟩, status_setJson]
      · have hone : ¬ (objectEnvelope route = true ∧ 1 < st.rowCount) := fun h => hmany h.2
        rw [if_neg hmany, if_neg hone]
        split <;> exact status_setJson _ _ _
    · rw [if_neg ho, if_neg fun h => ho h.1, status_setJson]
  | ndjson => exact status_setContent _ _ _
  | csv => exact status_setContent _ _ _
  | parquet => exact status_setContent _ _ _
  | arrow => exact absurd rfl harrow
  | binary => exact absurd rfl hbinary

theorem status_completeResponse (hfmt : UsesRowLoop fmt result.names) :
    (completeResponse codec route fmt execRoute result).status = ownStatus route fmt result := by
  have hcount : (gathered codec route fmt result).rowCount = result.rows.length := rowCount_gathered
  obtain ⟨harrow, _, hbinary⟩ := hfmt
  by_cases he : result.rows.length = 0 ∧ route.emptyStatus ≠ 0
  · rw [completeResponse, fetchedResponse, hcount, if_pos he, ownStatus, if_pos he, status_setJson]
  · rw [completeResponse, fetchedResponse, hcount, if_neg he, ownStatus, if_neg he]
    by_cases hdata : (dataCols result.names).isEmpty = true
    · have hplain : ¬ (countJsonBytes fmt result.names = true ∧ objectEnvelope route = true ∧
          1 < result.rows.length) := by
        rw [countJsonBytes_eq_true, hdata]
        simp
      rw [if_neg hplain, if_pos hdata]
      split
      · exact status_setJson _ _ _
      · rfl
    · rw [if_neg (by simp [hdata]), if_neg hdata, if_neg hbinary]
      have hdata' : (dataCols result.names).isEmpty = false := by simpa using hdata
      by_cases hmode : responseModeFor (dataNames result.names) = .json
      · have hnot : fmt ≠ .arrow := fun h => harrow ⟨h, (isJsonResult_iff hdata').mpr hmode⟩
        rw [if_neg (not_not_intro hmode), status_dataResponse hnot hbinary, hcount]
        refine if_congr (and_congr_left' ?_) rfl rfl
        rw [countJsonBytes_eq_true]
        exact ⟨fun h => ⟨h, hmode, hdata'⟩, fun h => h.1⟩
      · have hplain : ¬ (countJsonBytes fmt result.names = true ∧ objectEnvelope route = true ∧
            1 < result.rows.length) := by
          rw [countJsonBytes_eq_true]
          exact fun h => hmode h.1.2.1
        rw [if_pos hmode, if_neg hplain]
        exact status_setContent _ _ _

def sentResponse (codec : ResponseCodec V) (maxBytes : Nat) (route : RouteResponse) (fmt : BodyFormat)
    (execRoute : Bool) (result : QueryResult V) : HttpResponse :=
  if Overcounted codec maxBytes route fmt result then responseTooLarge newResponse
  else completeResponse codec route fmt execRoute result

theorem handleResultAfter_eq (after : AfterMiddleware) (expired : Bool)
    (hfmt : UsesRowLoop fmt result.names) :
    handleResultAfter after codec serializers maxBytes deadline expired route fmt execRoute result =
      finish after maxBytes expired (sentResponse codec maxBytes route fmt execRoute result) := by
  rw [handleResultAfter, buildResult_eq hfmt, sentResponse]
  by_cases hover : Overcounted codec maxBytes route fmt result
  · rw [if_pos hover]
    unfold Overcounted at hover
    rw [if_pos hover]
    rfl
  · rw [if_neg hover]
    unfold Overcounted at hover
    rw [if_neg hover]

theorem status_finish (after : AfterMiddleware) (res : HttpResponse) :
    (finish after maxBytes false res).status = 507 ↔
      (runAfter after res).status = 507 ∨ maxBytes < (runAfter after res).body.length := by
  simp only [finish, Bool.false_eq_true, if_false]
  split
  · next hbody => exact iff_of_true (status_setJson _ _ _) (.inr hbody)
  · next hbody => rw [or_iff_left hbody]

theorem status_handleResult (hfmt : UsesRowLoop fmt result.names) :
    (handleResult codec serializers maxBytes deadline false route fmt execRoute result).status = 507 ↔
      Overcounted codec maxBytes route fmt result ∨
        maxBytes < (completeResponse codec route fmt execRoute result).body.length ∨
        ownStatus route fmt result = 507 := by
  have hstatus : (completeResponse codec route fmt execRoute result).status =
      ownStatus route fmt result := status_completeResponse hfmt
  rw [handleResult, handleResultAfter_eq noAfter false hfmt, status_finish, runAfter_noAfter,
    sentResponse]
  by_cases hover : Overcounted codec maxBytes route fmt result
  · rw [if_pos hover]
    exact iff_of_true (.inl (status_setJson _ _ _)) (.inl hover)
  · rw [if_neg hover, hstatus, or_iff_right hover, or_comm]

theorem counted_takeRow {names : List Str} {object : Bool} {st : FetchState V} {extra : Nat}
    (h : st.responseValueBytes = st.jsonBody.length + extra) (row : List V) :
    (takeRow codec names true object st row).responseValueBytes =
      (takeRow codec names true object st row).jsonBody.length + extra := by
  have hcells : rowBytes codec true row = 0 := rfl
  simp only [takeRow, h, hcells, List.length_append]
  omega

theorem counted_takeRows {names : List Str} {object : Bool} {st : FetchState V} {extra : Nat}
    (h : st.responseValueBytes = st.jsonBody.length + extra) (rows : List (List V)) :
    (takeRows codec names true object st rows).responseValueBytes =
      (takeRows codec names true object st rows).jsonBody.length + extra := by
  induction rows generalizing st with
  | nil => exact h
  | cons row rows ih => exact ih (counted_takeRow h row)

theorem counted_jsonArray (hjson : countJsonBytes .json result.names = true)
    (harray : objectEnvelope route = false) :
    (gathered codec route .json result).responseValueBytes =
      (gathered codec route .json result).jsonBody.length + 1 := by
  simp only [gathered, hjson, harray]
  exact counted_takeRows rfl result.rows

theorem body_jsonArray (hjson : countJsonBytes .json result.names = true)
    (harray : objectEnvelope route = false) (hrows : result.rows ≠ []) :
    (completeResponse codec route .json execRoute result).body =
      (gathered codec route .json result).jsonBody ++ "]".toList := by
  obtain ⟨_, hmode, hdata⟩ := countJsonBytes_eq_true.mp hjson
  have he : ¬ IsEmptyStatus route result := fun h => hrows h.1
  rw [completeResponse, fetchedResponse_data hdata (by decide) he rowCount_gathered hmode, dataResponse,
    if_neg (by simp [harray]), body_setJson]
  all_goals
    intro h
    cases h

theorem jsonArray_cap_exact (hjson : countJsonBytes .json result.names = true)
    (harray : objectEnvelope route = false) (hstatus : ownStatus route .json result ≠ 507) :
    (handleResult codec serializers maxBytes deadline false route .json execRoute result).status = 507 ↔
      maxBytes < (completeResponse codec route .json execRoute result).body.length := by
  have hloop : UsesRowLoop .json result.names := by simp [UsesRowLoop]
  rw [status_handleResult hloop, or_iff_left hstatus]
  refine or_iff_right_of_imp ?_
  rintro ⟨hrows, hover⟩
  rw [counted_jsonArray hjson harray] at hover
  rw [body_jsonArray hjson harray hrows, List.length_append]
  exact hover

end

end

end Quackapi.Http
