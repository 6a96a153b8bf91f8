import Mathlib.Algebra.Order.BigOperators.Group.List
import Mathlib.Algebra.Ring.Int.Defs
import Mathlib.Algebra.Ring.Nat
import Quackapi.Http.ResponseCap
import Quackapi.Middleware.RowOrder

/-! The bytes the loop counts beside the bytes of the body. They differ by cells that the body does not
have, by what it makes of the cells it has, and by its own separators; the cap is exact for the results
in which this comes to no more than the body. -/

namespace Quackapi.Http
open Exec
open Middleware (MiddlewareEngine MiddlewareRegistry)

section
variable {V : Type} (codec : ResponseCodec V)

/-- The text that a body of rows has for a data cell. -/
def cellText (fmt : BodyFormat) (names : List Str) (v : V) : Str :=
  if responseModeFor (dataNames names) ≠ .json then
    if codec.isNull v then [] else codec.toText v
  else if fmt = .csv then csvEscapeField (valueToCsvCell codec v)
  else codec.toJson v

/-- What it has of a row besides: the separators, and in JSON the names. -/
def rowFraming (fmt : BodyFormat) (names : List Str) : Nat :=
  if responseModeFor (dataNames names) ≠ .json then 0
  else if fmt = .csv then (dataCols names).length
  else ((dataNames names).map fun name => (jsonString name).length + 1).sum +
    (dataCols names).length + 2

/-- A data cell is counted by its text as a value. A control cell is counted, and is not in the body. -/
def cellExcess (fmt : BodyFormat) (names : List Str) (v : V) (col : Nat) : Int :=
  if col ∈ dataCols names then cellBytes codec v - (cellText codec fmt names v).length
  else cellBytes codec v

def rowExcess (fmt : BodyFormat) (names : List Str) (row : List V) : Int :=
  (row.zipIdx.map fun c => cellExcess codec fmt names c.1 c.2).sum - rowFraming fmt names

def headerLine (fmt : BodyFormat) (names : List Str) : Str :=
  if responseModeFor (dataNames names) = .json ∧ fmt = .csv then csvLine (dataNames names) else []

def severalRows (n : Nat) : Str :=
  detailJson ("ENVELOPE object requires exactly one row, got ".toList ++ Nat.toDigits 10 n)

/-- By how many bytes the count of a result with rows is ahead of the body. -/
def countExcess (route : RouteResponse) (fmt : BodyFormat) (execRoute : Bool)
    (result : QueryResult V) : Int :=
  let names := result.names
  if countJsonBytes fmt names = true then
    if objectEnvelope route = true ∧ 1 < result.rows.length then
      (result.rows.map fun row =>
        ((serializeRowJsonObject codec.toNativeCodec names (dataCols names) row).length : Int)).sum -
          (severalRows result.rows.length).length
    else 0
  else if (dataCols names).isEmpty then
    (result.rows.map fun row => (row.map fun v => (cellBytes codec v : Int)).sum).sum -
      if execRoute && (columnsWhere isLocation names).isEmpty &&
        (columnsWhere isSetCookie names).isEmpty then 2 else 0
  else (result.rows.map (rowExcess codec fmt names)).sum - (headerLine fmt names).length

variable {codec}

theorem length_intercalate (sep : Str) (l : List Str) :
    (sep.intercalate l).length = (l.map List.length).sum + (l.length - 1) * sep.length := by
  induction l with
  | nil => simp
  | cons x l ih =>
    cases l with
    | nil => simp
    | cons y l =>
      rw [List.intercalate_cons_cons, List.length_append, List.length_append, ih]
      simp only [List.map_cons, List.sum_cons, List.length_cons, Nat.add_sub_cancel, Nat.succ_mul]
      omega

theorem sum_columns {cols : List Nat} (hcols : cols.Nodup) (f : V → Nat) (row : List V) :
    (cols.map fun i => ((row[i]?).map f).getD 0).sum =
      (row.zipIdx.map fun c => if c.2 ∈ cols then f c.1 else 0).sum := by
  induction row using List.reverseRecOn with
  | nil => simp
  | append_singleton row v ih =>
    have hlast : (cols.map fun i => (((row ++ [v])[i]?).map f).getD 0).sum =
        (cols.map fun i => ((row[i]?).map f).getD 0).sum +
          if row.length ∈ cols then f v else 0 := by
      clear ih
      induction cols with
      | nil => rfl
      | cons i cols ih =>
        obtain ⟨hi, hcols⟩ := List.nodup_cons.mp hcols
        rw [List.map_cons, List.sum_cons, List.map_cons, List.sum_cons, ih hcols]
        by_cases heq : i = row.length
        · subst heq
          simp [hi, Nat.add_comm]
        · have hget : (row ++ [v])[i]? = row[i]? := by
            rcases Nat.lt_or_gt_of_ne heq with hlt | hgt
            · exact List.getElem?_append_left hlt
            · rw [List.getElem?_eq_none (by simp; omega), List.getElem?_eq_none (by omega)]
          have hmem : row.length ∈ i :: cols ↔ row.length ∈ cols := by
            simp [Ne.symm heq]
          rw [hget, if_congr hmem rfl rfl]
          omega
    rw [hlast, ih, List.zipIdx_append, List.map_append, List.sum_append]
    simp

theorem nodup_dataCols (names : List Str) : (dataCols names).Nodup :=
  List.nodup_range.filter _

theorem rowExcess_add (codec : ResponseCodec V) (fmt : BodyFormat) (names : List Str) (row : List V) :
    rowExcess codec fmt names row +
        ((((dataCols names).map fun i => ((row[i]?).map fun v =>
          (cellText codec fmt names v).length).getD 0).sum + rowFraming fmt names : Nat) : Int) =
      (row.map fun v => (cellBytes codec v : Int)).sum := by
  rw [rowExcess, sum_columns (nodup_dataCols names)]
  have hcells : ∀ (row : List V) n,
      ((row.zipIdx n).map fun c => cellExcess codec fmt names c.1 c.2).sum +
        ((((row.zipIdx n).map fun c => if c.2 ∈ dataCols names then
          (cellText codec fmt names c.1).length else 0).sum : Nat) : Int) =
      (row.map fun v => (cellBytes codec v : Int)).sum := by
    intro row
    induction row with
    | nil => intro n; rfl
    | cons v row ih =>
      intro n
      have hrest := ih (n + 1)
      have hcell : cellExcess codec fmt names v n +
          ((if n ∈ dataCols names then (cellText codec fmt names v).length else 0 : Nat) : Int) =
            cellBytes codec v := by
        unfold cellExcess
        split <;> omega
      simp only [List.zipIdx_cons, List.map_cons, List.sum_cons]
      omega
  have hrow := hcells row 0
  omega

section
variable {route : RouteResponse} {fmt : BodyFormat} {execRoute : Bool} {result : QueryResult V}

theorem takeRows_cells {names : List Str} {object : Bool} {st : FetchState V} (rows : List (List V)) :
    (takeRows codec names false object st rows).rows = st.rows ++ rows ∧
      ((takeRows codec names false object st rows).responseValueBytes : Int) =
        st.responseValueBytes + (rows.map fun row => (row.map fun v => (cellBytes codec v : Int)).sum).sum := by
  have hcells : ∀ row : List V,
      (rowBytes codec false row : Int) = (row.map fun v => (cellBytes codec v : Int)).sum := by
    intro row
    induction row with
    | nil => rfl
    | cons v row ih =>
      rw [List.map_cons, List.sum_cons, ← ih]
      exact Int.natCast_add _ _
  induction rows generalizing st with
  | nil => simp [takeRows]
  | cons row rows ih =>
    obtain ⟨hrows, hbytes⟩ := @ih (takeRow codec names false object st row)
    refine ⟨hrows.trans (by simp [takeRow]), hbytes.trans ?_⟩
    have hrow := hcells row
    simp only [takeRow, rowJson, Bool.false_eq_true, if_false, List.length_nil, List.map_cons,
      List.sum_cons]
    omega

theorem length_takeRows_object {names : List Str} {st : FetchState V} (rows : List (List V)) :
    ((takeRows codec names true true st rows).jsonBody.length : Int) =
      st.jsonBody.length + (rows.map fun row =>
        ((serializeRowJsonObject codec.toNativeCodec names (dataCols names) row).length : Int)).sum := by
  induction rows generalizing st with
  | nil => simp [takeRows]
  | cons row rows ih =>
    refine (@ih (takeRow codec names true true st row)).trans ?_
    simp only [takeRow, rowJson, if_true, Bool.not_true, Bool.false_and, Bool.false_eq_true, if_false,
      List.nil_append, List.length_append, List.map_cons, List.sum_cons]
    omega

theorem length_column (hmode : responseModeFor (dataNames result.names) ≠ .json) (row : List V) :
    ((cell codec.toNativeCodec row (dataCols result.names).head?).getD []).length =
      ((dataCols result.names).map fun i => ((row[i]?).map fun v =>
        (cellText codec fmt result.names v).length).getD 0).sum + rowFraming fmt result.names := by
  have hone : ∃ i, dataCols result.names = [i] := by
    rcases hcols : dataCols result.names with _ | ⟨i, _ | ⟨j, cols⟩⟩
    · exact absurd (by rw [dataNames, hcols]; rfl) hmode
    · exact ⟨i, rfl⟩
    · exact absurd (by rw [dataNames, hcols]; rfl) hmode
  obtain ⟨i, hi⟩ := hone
  rw [rowFraming, if_pos hmode, hi]
  simp only [List.head?_cons, List.map_cons, List.map_nil, List.sum_cons, List.sum_nil, Nat.add_zero,
    cell, Option.bind_some]
  rcases row[i]? with _ | v
  · rfl
  · simp only [cellText, if_pos hmode, Option.map_some, Option.getD_some]
    split <;> rfl

theorem length_csvLine (hdata : (dataCols result.names).isEmpty = false)
    (hmode : responseModeFor (dataNames result.names) = .json) (row : List V) :
    (csvLine ((dataCols result.names).map fun i =>
        ((row[i]?).map (valueToCsvCell codec)).getD [])).length =
      ((dataCols result.names).map fun i => ((row[i]?).map fun v =>
        (cellText codec .csv result.names v).length).getD 0).sum + rowFraming .csv result.names := by
  have hne : 0 < (dataCols result.names).length :=
    List.length_pos_iff.mpr (List.isEmpty_eq_false_iff.mp hdata)
  have hcell : ∀ i : Nat, (csvEscapeField (((row[i]?).map (valueToCsvCell codec)).getD [])).length =
      ((row[i]?).map fun v => (cellText codec .csv result.names v).length).getD 0 := by
    intro i
    rcases row[i]? with _ | v
    · rfl
    · simp [cellText, hmode]
  rw [rowFraming, if_neg (not_not_intro hmode), if_pos rfl, csvLine, List.length_append,
    length_intercalate]
  have hcomma : ",".toList.length = 1 := rfl
  have hline : "\n".toList.length = 1 := rfl
  simp only [List.map_map, List.length_map, Function.comp_def, hcell, hcomma, Nat.mul_one]
  omega

theorem length_ndjsonLine (hdata : (dataCols result.names).isEmpty = false) (hcsv : fmt ≠ .csv)
    (hmode : responseModeFor (dataNames result.names) = .json) (row : List V) :
    (serializeRowJsonObject codec.toNativeCodec result.names (dataCols result.names) row ++
        "\n".toList).length =
      ((dataCols result.names).map fun i => ((row[i]?).map fun v =>
        (cellText codec fmt result.names v).length).getD 0).sum + rowFraming fmt result.names := by
  have hne : 0 < (dataCols result.names).length :=
    List.length_pos_iff.mpr (List.isEmpty_eq_false_iff.mp hdata)
  have hcell : ∀ i : Nat, (((row[i]?).map codec.toJson).getD []).length =
      ((row[i]?).map fun v => (cellText codec fmt result.names v).length).getD 0 := by
    intro i
    rcases row[i]? with _ | v
    · rfl
    · simp [cellText, hmode, hcsv]
  have hsplit : ∀ cols : List Nat,
      (cols.map fun i => (jsonString (result.names.getD i []) ++ ":".toList ++
        ((row[i]?).map codec.toJson).getD []).length).sum =
      ((cols.map (result.names.getD · [])).map fun name => (jsonString name).length + 1).sum +
        (cols.map fun i => ((row[i]?).map fun v =>
          (cellText codec fmt result.names v).length).getD 0).sum := by
    intro cols
    induction cols with
    | nil => rfl
    | cons i cols ih =>
      have hi := hcell i
      have hcolon : ":".toList.length = 1 := rfl
      rw [List.map_cons, List.sum_cons, ih]
      simp only [List.map_cons, List.sum_cons, List.length_append]
      omega
  rw [rowFraming, if_neg (not_not_intro hmode), if_neg hcsv, serializeRowJsonObject, dataNames]
  simp only [List.length_append, length_intercalate, List.map_map, List.length_map]
  have hcols := hsplit (dataCols result.names)
  simp only [List.map_map] at hcols
  have hbrace : "\x7b".toList.length = 1 := rfl
  have hbrace' : "\x7d".toList.length = 1 := rfl
  have hcomma : ",".toList.length = 1 := rfl
  have hline : "\n".toList.length = 1 := rfl
  simp only [Function.comp_def, List.length_append, hcomma, Nat.mul_one] at hcols ⊢
  omega

theorem excess_of_lines {line : List V → Str} {body : Str}
    (hdata : (dataCols result.names).isEmpty = false) (hjson : countJsonBytes fmt result.names = false)
    (hbody : body = headerLine fmt result.names ++ result.rows.flatMap line)
    (hline : ∀ row, (line row).length =
      ((dataCols result.names).map fun i => ((row[i]?).map fun v =>
        (cellText codec fmt result.names v).length).getD 0).sum + rowFraming fmt result.names) :
    ((gathered codec route fmt result).responseValueBytes : Int) =
      body.length + countExcess codec route fmt execRoute result := by
  have hlines : ∀ rows : List (List V), ((rows.flatMap line).length : Int) +
      (rows.map (rowExcess codec fmt result.names)).sum =
        (rows.map fun row => (row.map fun v => (cellBytes codec v : Int)).sum).sum := by
    intro rows
    induction rows with
    | nil => rfl
    | cons row rows ih =>
      have hrow := rowExcess_add codec fmt result.names row
      rw [← hline] at hrow
      rw [List.flatMap_cons, List.length_append, List.map_cons, List.sum_cons, List.map_cons,
        List.sum_cons]
      omega
  have hall := hlines result.rows
  have hstart : (startFetch false (objectEnvelope route) : FetchState V).responseValueBytes = 0 := rfl
  rw [gathered, hjson, (takeRows_cells result.rows).2, hstart, hbody, List.length_append, countExcess,
    if_neg (by simp [hjson]), if_neg (by simp [hdata])]
  omega

theorem counted_object (hjson : countJsonBytes .json result.names = true)
    (hobject : objectEnvelope route = true) :
    (gathered codec route .json result).responseValueBytes =
      (gathered codec route .json result).jsonBody.length := by
  simp only [gathered, hjson, hobject]
  have hstart : (startFetch true true : FetchState V).responseValueBytes =
      (startFetch true true : FetchState V).jsonBody.length + 0 := rfl
  exact counted_takeRows hstart result.rows

theorem body_object (hjson : countJsonBytes .json result.names = true)
    (hobject : objectEnvelope route = true) (hrows : result.rows ≠ []) :
    (completeResponse codec route .json execRoute result).body =
      if 1 < result.rows.length then severalRows result.rows.length
      else (gathered codec route .json result).jsonBody := by
  obtain ⟨_, hmode, hdata⟩ := countJsonBytes_eq_true.mp hjson
  have he : ¬ IsEmptyStatus route result := fun h => hrows h.1
  have hsome : result.rows.length ≠ 0 := mt List.length_eq_zero_iff.mp hrows
  rw [completeResponse, fetchedResponse_data hdata (by decide) he rowCount_gathered hmode, dataResponse,
    if_pos hobject, objectResponse, rowCount_gathered]
  · by_cases hmany : 1 < result.rows.length
    · rw [if_pos hmany, if_pos hmany, body_setJson]
      rfl
    · rw [if_neg hmany, if_neg hmany, if_neg hsome, body_setJson]
  all_goals
    intro h
    cases h

theorem kept_rows (hjson : countJsonBytes fmt result.names = false) :
    (gathered codec route fmt result).rows = result.rows := by
  have hstart : (startFetch false (objectEnvelope route) : FetchState V).rows = [] := rfl
  rw [gathered, hjson, (takeRows_cells result.rows).1, hstart, List.nil_append]

theorem counted_eq_json (hjson : countJsonBytes fmt result.names = true) (hrows : result.rows ≠ []) :
    ((gathered codec route fmt result).responseValueBytes : Int) =
      (completeResponse codec route fmt execRoute result).body.length +
        countExcess codec route fmt execRoute result := by
  obtain ⟨rfl, -, -⟩ := countJsonBytes_eq_true.mp hjson
  have hexcess : countExcess codec route .json execRoute result = _ := if_pos hjson
  cases hobject : objectEnvelope route with
  | true =>
    rw [counted_object hjson hobject, body_object hjson hobject hrows, hexcess]
    by_cases hmany : 1 < result.rows.length
    · have hstart : (startFetch true true : FetchState V).jsonBody = [] := rfl
      rw [if_pos hmany, if_pos ⟨hobject, hmany⟩, gathered, hjson, hobject, length_takeRows_object,
        hstart, List.length_nil]
      omega
    · rw [if_neg hmany, if_neg fun h => hmany h.2, Int.add_zero]
  | false =>
    rw [counted_jsonArray hjson hobject, body_jsonArray hjson hobject hrows, List.length_append,
      hexcess, if_neg fun h => absurd (hobject.symm.trans h.1) (by decide), Int.add_zero]
    rfl

/-- Without data columns the cells are counted, and the body has none of them. -/
theorem counted_eq_controls (hjson : countJsonBytes fmt result.names = false)
    (hdata : (dataCols result.names).isEmpty = true) (hrows : result.rows ≠ []) :
    ((gathered codec route fmt result).responseValueBytes : Int) =
      (completeResponse codec route fmt execRoute result).body.length +
        countExcess codec route fmt execRoute result := by
  have hzero : (startFetch false (objectEnvelope route) : FetchState V).responseValueBytes = 0 := rfl
  have hnot : ¬ ((gathered codec route fmt result).rowCount = 0 ∧ route.emptyStatus ≠ 0) := by
    rw [rowCount_gathered, List.length_eq_zero_iff]
    exact fun h => hrows h.1
  have hcount : ((gathered codec route fmt result).responseValueBytes : Int) =
      (result.rows.map fun row => (row.map fun v => (cellBytes codec v : Int)).sum).sum := by
    rw [gathered, hjson, (takeRows_cells result.rows).2, hzero]
    exact Int.zero_add _
  rw [hcount, countExcess, if_neg (by simp [hjson]), if_pos hdata, completeResponse,
    fetchedResponse, if_neg hnot, hdata, Bool.true_and]
  split
  · rw [body_setJson]
    have hbrackets : "[]".toList.length = 2 := rfl
    omega
  · rw [if_pos rfl]
    exact (Int.zero_add _).trans (Int.sub_zero _) |>.symm

theorem counted_eq_body_add (hfmt : UsesRowLoop fmt result.names) (hrows : result.rows ≠ []) :
    ((gathered codec route fmt result).responseValueBytes : Int) =
      (completeResponse codec route fmt execRoute result).body.length +
        countExcess codec route fmt execRoute result := by
  obtain ⟨harrow, hparquet, hbinary⟩ := hfmt
  have he : ¬ IsEmptyStatus route result := fun h => hrows h.1
  cases hjson : countJsonBytes fmt result.names with
  | true => exact counted_eq_json hjson hrows
  | false =>
    by_cases hdata : (dataCols result.names).isEmpty = true
    · exact counted_eq_controls hjson hdata hrows
    · have hdata' : (dataCols result.names).isEmpty = false := by simpa using hdata
      have hkept : (gathered codec route fmt result).rows = result.rows := kept_rows hjson
      by_cases hmode : responseModeFor (dataNames result.names) = .json
      · have hbody : (completeResponse codec route fmt execRoute result).body = _ :=
          congrArg HttpResponse.body
            (fetchedResponse_data hdata' hbinary he rowCount_gathered hmode)
        cases fmt with
        | json =>
          have hyes := countJsonBytes_eq_true.mpr ⟨rfl, hmode, hdata'⟩
          rw [hjson] at hyes
          cases hyes
        | ndjson =>
          refine excess_of_lines hdata' hjson ?_ (length_ndjsonLine hdata' (by decide) hmode)
          rw [hbody, dataResponse, body_setContent, serializeRowsNdjson, hkept, headerLine,
            if_neg (by simp), List.nil_append]
        | csv =>
          refine excess_of_lines hdata' hjson ?_ (length_csvLine hdata' hmode)
          rw [hbody, dataResponse, body_setContent, serializeRowsCsv, hkept, headerLine,
            if_pos ⟨hmode, rfl⟩]
        | parquet => exact absurd ⟨rfl, hdata'⟩ hparquet
        | arrow => exact absurd ⟨rfl, (isJsonResult_iff hdata').mpr hmode⟩ harrow
        | binary => exact absurd rfl hbinary
      · refine excess_of_lines hdata' hjson ?_ (length_column hmode)
        rw [completeResponse, fetchedResponse_column hdata' hbinary he rowCount_gathered hmode,
          body_setContent, hkept, headerLine, if_neg fun h => hmode h.1, List.nil_append]
        rfl

/-- What the AFTER middleware puts in a response's place. -/
def refusal (after : AfterMiddleware) (res : HttpResponse) : Option (Int × Str) :=
  if (after res).2 then none else some ((after res).1.status, (after res).1.responseBody)

theorem status_runAfter (after : AfterMiddleware) (res : HttpResponse) :
    (runAfter after res).status = ((refusal after res).map Prod.fst).getD res.status ∧
      (runAfter after res).body = ((refusal after res).map Prod.snd).getD res.body := by
  have hheaders : ∀ (headers : List (Str × Str)) (res : HttpResponse),
      (headers.foldl (fun res header => setHeader res header.1 header.2) res).status = res.status ∧
        (headers.foldl (fun res header => setHeader res header.1 header.2) res).body = res.body := by
    intro headers
    induction headers with
    | nil => exact fun _ => ⟨rfl, rfl⟩
    | cons header headers ih =>
      intro res
      obtain ⟨hstatus, hbody⟩ := ih (setHeader res header.1 header.2)
      exact ⟨hstatus.trans (status_setHeader _ _ _), hbody.trans (body_setHeader _ _ _)⟩
  unfold runAfter refusal
  dsimp only
  obtain ⟨hstatus, hbody⟩ := hheaders (after res).1.responseHeaders
    (if (after res).2 then res else setJson res (after res).1.status (after res).1.responseBody)
  rw [hstatus, hbody]
  cases (after res).2 with
  | true => exact ⟨rfl, rfl⟩
  | false => exact ⟨status_setJson _ _ _, body_setJson _ _ _⟩

end

section
variable (codec) (after : AfterMiddleware) (maxBytes : Nat) (route : RouteResponse) (fmt : BodyFormat)
  (execRoute : Bool) (result : QueryResult V)

/-- The whole body, as it would be sent without a cap. -/
def completeBody : Str := (runAfter after (completeResponse codec route fmt execRoute result)).body

/-- The cap is less than the body and what the count is ahead of it. -/
def RunsAhead : Prop :=
  result.rows ≠ [] ∧ (maxBytes : Int) <
    (completeResponse codec route fmt execRoute result).body.length +
      countExcess codec route fmt execRoute result

instance : Decidable (RunsAhead codec maxBytes route fmt execRoute result) :=
  inferInstanceAs (Decidable (result.rows ≠ [] ∧ _))

/-- A 507 that the last look sends on, or an answer that it makes one. -/
def AnswersOver : Option (Int × Str) → Prop
  | none => True
  | some (status, body) => status = 507 ∨ maxBytes < body.length

instance : (refused : Option (Int × Str)) → Decidable (AnswersOver maxBytes refused)
  | none => .isTrue trivial
  | some (_, _) => inferInstanceAs (Decidable (_ ∨ _))

/-- When the answer is right about the cap. Past the deadline it is 504. Where the count runs ahead, the
507 is right for a body over the cap, unless the AFTER middleware puts something else in its place;
elsewhere only a 507 that the route or the AFTER middleware has of its own is wrong. -/
def CapKept (expired : Bool) : Prop :=
  if expired then (completeBody codec after route fmt execRoute result).length ≤ maxBytes
  else if RunsAhead codec maxBytes route fmt execRoute result then
    (AnswersOver maxBytes (refusal after (responseTooLarge newResponse)) ↔
      maxBytes < (completeBody codec after route fmt execRoute result).length)
  else maxBytes < (completeBody codec after route fmt execRoute result).length ∨
    ((refusal after (completeResponse codec route fmt execRoute result)).map Prod.fst).getD
      (ownStatus route fmt result) ≠ 507

instance (expired : Bool) :
    Decidable (CapKept codec after maxBytes route fmt execRoute result expired) := by
  delta CapKept
  infer_instance

end

section
variable {serializers : Serializers V} {maxBytes : Nat} {deadline : Deadline}
  {route : RouteResponse} {fmt : BodyFormat} {execRoute : Bool} {result : QueryResult V}

theorem overcounted_iff (execRoute : Bool) (hfmt : UsesRowLoop fmt result.names) :
    Overcounted codec maxBytes route fmt result ↔
      RunsAhead codec maxBytes route fmt execRoute result := by
  refine and_congr_right fun hrows => ?_
  rw [← counted_eq_body_add hfmt hrows]
  exact Int.ofNat_lt.symm

theorem status_handleResultAfter (after : AfterMiddleware) (expired : Bool)
    (hfmt : UsesRowLoop fmt result.names) :
    ((handleResultAfter after codec serializers maxBytes deadline expired route fmt execRoute
          result).status = 507 ↔
        maxBytes < (completeBody codec after route fmt execRoute result).length) ↔
      CapKept codec after maxBytes route fmt execRoute result expired := by
  rw [handleResultAfter_eq after expired hfmt, CapKept]
  cases expired with
  | true =>
    have h504 : ∀ res, (finish after maxBytes true res).status = 504 := fun _ => status_setJson _ _ _
    rw [h504, if_pos rfl]
    constructor
    · intro h
      exact Nat.not_lt.mp fun hlt => absurd (h.mpr hlt) (by decide)
    · intro h
      exact iff_of_false (by decide) (Nat.not_lt.mpr h)
  | false =>
    rw [status_finish, if_neg Bool.false_ne_true, sentResponse]
    by_cases hover : RunsAhead codec maxBytes route fmt execRoute result
    · rw [if_pos ((overcounted_iff execRoute hfmt).mpr hover), if_pos hover]
      obtain ⟨hstatus, hbody⟩ := status_runAfter after (responseTooLarge newResponse)
      rw [hstatus, hbody]
      rcases refusal after (responseTooLarge newResponse) with _ | ⟨status, body⟩
      · have h507 : (responseTooLarge newResponse).status = 507 := status_setJson _ _ _
        simp only [Option.map_none, Option.getD_none, h507, true_or, AnswersOver]
      · exact Iff.rfl
    · rw [if_neg fun h => hover ((overcounted_iff execRoute hfmt).mp h), if_neg hover]
      obtain ⟨hstatus, -⟩ := status_runAfter after (completeResponse codec route fmt execRoute result)
      rw [hstatus, status_completeResponse hfmt, completeBody]
      constructor
      · intro h
        by_cases hbody : maxBytes <
            (runAfter after (completeResponse codec route fmt execRoute result)).body.length
        · exact .inl hbody
        · exact .inr fun h507 => hbody (h.mp (.inl h507))
      · rintro (hbody | hne)
        · exact iff_of_true (.inr hbody) hbody
        · rw [or_iff_right hne]

/-- A route that has nothing of its own to say: the cap that the count runs into is one of those from
the body's length on. -/
theorem every_cap_iff (hfmt : UsesRowLoop fmt result.names) (hown : ownStatus route fmt result ≠ 507) :
    (∀ cap, (handleResult codec serializers cap deadline false route fmt execRoute result).status =
          507 ↔ cap < (completeResponse codec route fmt execRoute result).body.length) ↔
      result.rows = [] ∨ countExcess codec route fmt execRoute result ≤ 0 := by
  have hone : ∀ cap, ((handleResult codec serializers cap deadline false route fmt execRoute
          result).status = 507 ↔ cap < (completeResponse codec route fmt execRoute result).body.length) ↔
      (RunsAhead codec cap route fmt execRoute result →
        cap < (completeResponse codec route fmt execRoute result).body.length) := by
    intro cap
    rw [status_handleResult hfmt, overcounted_iff execRoute hfmt, or_iff_left hown]
    exact ⟨fun h hahead => h.mp (.inl hahead), fun h => or_iff_right_of_imp h⟩
  simp only [hone]
  by_cases hrows : result.rows = []
  · exact iff_of_true (fun cap hahead => absurd hrows hahead.1) (.inl hrows)
  · rw [or_iff_right hrows]
    constructor
    · intro h
      have hself := h (completeResponse codec route fmt execRoute result).body.length
      by_contra hpos
      exact absurd (hself ⟨hrows, by omega⟩) (Nat.lt_irrefl _)
    · rintro h cap ⟨-, hahead⟩
      omega

/-- The cap is exact just where it is kept, for every result and format. With no middleware after the
handler and a status of its own other than 507, a route is right about every cap just where the count of
a result with rows is nowhere ahead of the body. -/
theorem response_cap_exact_iff (after : AfterMiddleware) (expired : Bool)
    (hfmt : UsesRowLoop fmt result.names) :
    (((handleResultAfter after codec serializers maxBytes deadline expired route fmt execRoute
          result).status = 507 ↔
        maxBytes < (completeBody codec after route fmt execRoute result).length) ↔
      CapKept codec after maxBytes route fmt execRoute result expired) ∧
    (ownStatus route fmt result ≠ 507 →
      ((∀ cap, (handleResult codec serializers cap deadline false route fmt execRoute result).status =
          507 ↔ cap < (completeResponse codec route fmt execRoute result).body.length) ↔
        result.rows = [] ∨ countExcess codec route fmt execRoute result ≤ 0)) :=
  ⟨status_handleResultAfter after expired hfmt, every_cap_iff hfmt⟩

end

end

def nullResult : QueryResult (Option Str) := ⟨["a".toList], [[none]]⟩

/-- An AFTER middleware that allows every response and gives it a header. -/
def auditEngine : MiddlewareEngine Unit where
  handler _ _ := ⟨[], [], fun _ => true, fun _ => some ⟨[], List.nodup_nil⟩⟩
  execute _ _ _ := ((), .result ["allow".toList, "header_name".toList, "header_value".toList]
    [.boolean, .varchar, .varchar] [[[.boolean true, .text "X-Audit".toList, .text "1".toList]]] false)

def auditRegistry : MiddlewareRegistry := ⟨[⟨⟨"audit".toList, .after, [], []⟩, 1⟩], 2⟩

def auditAfter : AfterMiddleware :=
  afterMiddleware auditEngine auditRegistry Middleware.emptyContext false [] () []

/-- In JSON the count is the body, whatever the cap. -/
theorem nullResult_json :
    ((handleResultAfter auditAfter varcharCodec noSerializers 9 ⟨false, false⟩ false pageRoute .json
        false nullResult).status = 507 ↔
      9 < (completeBody varcharCodec auditAfter pageRoute .json false nullResult).length) ∧
    ∀ cap, (handleResult varcharCodec noSerializers cap ⟨false, false⟩ false pageRoute .json false
        nullResult).status = 507 ↔
      cap < (completeResponse varcharCodec pageRoute .json false nullResult).body.length := by
  have hexact :
      (((handleResultAfter auditAfter varcharCodec noSerializers 9 ⟨false, false⟩ false pageRoute .json
            false nullResult).status = 507 ↔
          9 < (completeBody varcharCodec auditAfter pageRoute .json false nullResult).length) ↔
        CapKept varcharCodec auditAfter 9 pageRoute .json false nullResult false) ∧
      (ownStatus pageRoute .json nullResult ≠ 507 →
        ((∀ cap, (handleResult varcharCodec noSerializers cap ⟨false, false⟩ false pageRoute .json false
              nullResult).status = 507 ↔
            cap < (completeResponse varcharCodec pageRoute .json false nullResult).body.length) ↔
          nullResult.rows = [] ∨ countExcess varcharCodec pageRoute .json false nullResult ≤ 0)) :=
    response_cap_exact_iff auditAfter false (by decide)
  exact ⟨hexact.1.mpr (by decide), (hexact.2 (by decide)).mpr (.inr (by decide))⟩

/-- A null is no text in a CSV line, and four bytes to the loop. -/
theorem nullResult_csv :
    ¬ ((handleResult varcharCodec noSerializers 3 ⟨false, false⟩ false pageRoute .csv false
        nullResult).status = 507 ↔
      3 < (completeResponse varcharCodec pageRoute .csv false nullResult).body.length) := by
  decide

end Quackapi.Http
