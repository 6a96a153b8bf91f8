import Quackapi.Openapi.Body

/-! One operation of the document: the parameters of its route, the body it takes and the responses it
gives. -/

namespace Quackapi.Openapi
open Library
open Http (QuackapiRoute)

def isControlColumn (name : Str) : Bool :=
  let name := lower name
  decide (name = "location".toList ∨ name = "set_cookie".toList ∨ name = "set-cookie".toList)

inductive ResponseMode
  | json | html | text
deriving DecidableEq

/-- A single column of such a name is the whole response. -/
def modeFor (names : List Str) : ResponseMode :=
  match names with
  | [name] =>
    if lower name = "html".toList then .html
    else if lower name = "text".toList then .text
    else .json
  | _ => .json

structure Response where
  contentType : Str
  description : Str
  schema : Str

def binarySchema : Str := formatSchema "string" "binary"

def describedString (description : String) : Str :=
  jsonObject [("type".toList, jsonString "string".toList),
    ("description".toList, jsonString description.toList)]

def rowSchema (columns : List (Str × LogicalType)) : Str :=
  jsonObject [("type".toList, jsonString "object".toList),
    ("properties".toList, jsonObject (columns.map fun c => (c.1, duckTypeToOas c.2)))]

def isObjectEnvelope (route : QuackapiRoute) : Bool :=
  decide (lower (if route.responseEnvelope.isEmpty then "array".toList else route.responseEnvelope) =
    "object".toList)

def isBinaryTable (format : Str) : Bool :=
  decide (format = "arrow".toList ∨ format = "arrows".toList ∨ format = "parquet".toList)

def isTextTable (format : Str) : Bool := decide (format = "csv".toList ∨ format = "ndjson".toList)

/-- The response lists its columns: it is JSON, and has some that are no control columns. -/
def listsColumns (route : QuackapiRoute) (columns : List (Str × LogicalType)) : Bool :=
  let format := lower route.responseFormat
  decide (format ≠ "binary".toList) && decide (modeFor (columns.map Prod.fst) = .json) &&
    !isBinaryTable format && !isTextTable format && !columns.isEmpty

/-- The response to a success, with columns that are no control columns. -/
def successResponse (route : QuackapiRoute) (columns : List (Str × LogicalType)) : Response :=
  let format := lower route.responseFormat
  if format = "binary".toList then
    ⟨"application/octet-stream".toList,
      "Raw binary body; the handler may provide a different content_type".toList, binarySchema⟩
  else
    match modeFor (columns.map Prod.fst) with
    | .html =>
      ⟨"text/html".toList, "HTML response".toList,
        describedString "Raw HTML body (single-column handler AS html)"⟩
    | .text =>
      ⟨"text/plain".toList, "Plain text response".toList,
        describedString "Raw text body (single-column handler AS text)"⟩
    | .json =>
      if isBinaryTable format then
        ⟨(if format = "parquet".toList then "application/vnd.apache.parquet".toList
          else "application/vnd.apache.arrow.stream".toList),
          "Binary tabular response".toList, binarySchema⟩
      else if isTextTable format then
        ⟨(if format = "csv".toList then "text/csv".toList else "application/x-ndjson".toList),
          "Tabular text response".toList, typeSchema "string"⟩
      else if columns.isEmpty then
        ⟨"application/json".toList,
          "Empty body (redirect / Set-Cookie control columns only)".toList,
          jsonObject [("type".toList, jsonString "string".toList),
            ("maxLength".toList, Nat.toDigits 10 0)]⟩
      else if isObjectEnvelope route then
        ⟨"application/json".toList, "Successful response (JSON object — single row)".toList,
          rowSchema columns⟩
      else
        ⟨"application/json".toList, "Successful response (JSON array of row objects)".toList,
          jsonObject [("type".toList, jsonString "array".toList),
            ("items".toList, rowSchema columns)]⟩

def Response.text (r : Response) : Str :=
  jsonObject [("description".toList, jsonString r.description),
    ("content".toList, jsonObject [(r.contentType, jsonObject [("schema".toList, r.schema)])])]

def detailSchema (detail : Str) : Str :=
  jsonObject [("type".toList, jsonString "object".toList),
    ("properties".toList, jsonObject [("detail".toList, detail)])]

def validationResponse : Response where
  contentType := "application/json".toList
  description := "Validation error (FastAPI-shaped detail)".toList
  schema := detailSchema (jsonObject [("type".toList, jsonString "array".toList),
    ("items".toList, typeSchema "object")])

def emptyResponse : Response where
  contentType := "application/json".toList
  description := "Empty result set (EMPTY STATUS)".toList
  schema := detailSchema (typeSchema "string")

/-- `std::to_string`. -/
def intText : Int → Str
  | .ofNat n => Nat.toDigits 10 n
  | .negSucc n => '-' :: Nat.toDigits 10 (n + 1)

def responseFields (route : QuackapiRoute) (columns : List (Str × LogicalType)) : List (Str × Str) :=
  [(intText route.status, (successResponse route columns).text),
    (intText 422, validationResponse.text)] ++
    if route.emptyStatus = 0 then [] else [(intText route.emptyStatus, emptyResponse.text)]

def execParam (route : QuackapiRoute) : Option Str := Params.execRouteParam route.handler.sql

/-- What is prepared; nothing is known of a handler that does not prepare. -/
def preparedHandler (e : DocEngine) (route : QuackapiRoute) : Prepared :=
  let sql := match execParam route with
    | some p => "SELECT $".toList ++ p ++ "::VARCHAR".toList
    | none => route.handler.sql
  (e.prepare sql).getD ⟨[], .empty, []⟩

/-- A placeholder for the column of a query not yet bound gives way to its alias. -/
def recoveredColumns (e : DocEngine) (sql : Str) : List (Str × LogicalType) → List (Str × LogicalType)
  | [(name, type)] =>
    if name = "unknown".toList then [((e.selectAlias sql).getD name, type)] else [(name, type)]
  | columns => columns

/-- The columns of the response, without those that set headers; an exec route advertises none. -/
def dataColumns (e : DocEngine) (route : QuackapiRoute) : List (Str × LogicalType) :=
  let columns := match execParam route with
    | some _ => []
    | none => recoveredColumns e route.handler.sql (preparedHandler e route).columns
  columns.filter fun c => !isControlColumn c.1

def tagList (tags : Str) : List Str :=
  ((tags.splitOn ',').map Params.trim).filter fun tag => !tag.isEmpty

def tagsField (tags : Str) : List (Str × Str) :=
  if (tagList tags).isEmpty then [] else [("tags".toList, jsonArray ((tagList tags).map jsonString))]

def securityJson (requireAuth : Str) : Str :=
  if requireAuth.isEmpty then jsonArray []
  else jsonArray [jsonObject [(requireAuth, jsonArray [])]]

def operationFields (e : DocEngine) (route : QuackapiRoute) : List (Str × Str) :=
  [("operationId".toList, jsonString route.name), ("summary".toList, jsonString route.name)] ++
    tagsField route.tags ++ requestBodyField e route (preparedHandler e route) ++
    [("parameters".toList, paramsJson e route (preparedHandler e route)),
      ("responses".toList, jsonObject (responseFields route (dataColumns e route))),
      ("security".toList, securityJson route.requireAuth)]

def operationJson (e : DocEngine) (route : QuackapiRoute) : Str := jsonObject (operationFields e route)

/-- The statuses of a route are told apart, and so are the columns of a response that lists them. -/
structure ResponseSound (route : QuackapiRoute) (columns : List (Str × LogicalType)) : Prop where
  status : route.status ≠ 422
  emptyStatus : route.emptyStatus ≠ 0 →
    route.emptyStatus ≠ 422 ∧ route.emptyStatus ≠ route.status
  names : listsColumns route columns = true → (columns.map Prod.fst).Nodup
  types : listsColumns route columns = true → ∀ c ∈ columns, DistinctNames c.2

theorem intText_injective {m n : Int} (h : intText m = intText n) : m = n := by
  have hdigits : ∀ {a b : Nat}, Nat.toDigits 10 a = Nat.toDigits 10 b → a = b := by
    intro a b hab
    rw [← Nat.ofDigitChars_ten_toDigits (n := a), hab, Nat.ofDigitChars_ten_toDigits]
  have hsign : ∀ {a b : Nat}, Nat.toDigits 10 a ≠ '-' :: Nat.toDigits 10 b := by
    intro a b hab
    have hmem : '-' ∈ Nat.toDigits 10 a := hab ▸ List.mem_cons_self
    exact absurd (Nat.isDigit_of_mem_toDigits (by decide) (by decide) hmem) (by decide)
  cases m with
  | ofNat a =>
    cases n with
    | ofNat b => rw [hdigits h]
    | negSucc b => exact absurd h hsign
  | negSucc a =>
    cases n with
    | ofNat b => exact absurd h.symm hsign
    | negSucc b => rw [Nat.succ.inj (hdigits (List.cons.inj h).2)]

theorem nodup_responseFields {route : QuackapiRoute} {columns : List (Str × LogicalType)} :
    ((responseFields route columns).map Prod.fst).Nodup ↔ route.status ≠ 422 ∧
      (route.emptyStatus ≠ 0 → route.emptyStatus ≠ 422 ∧ route.emptyStatus ≠ route.status) := by
  have hkeys : (responseFields route columns).map Prod.fst = ([route.status, 422] ++
      if route.emptyStatus = 0 then [] else [route.emptyStatus]).map intText := by
    unfold responseFields
    split
    · rfl
    · rfl
  have hinj : Function.Injective intText := fun _ _ h => intText_injective h
  rw [hkeys, List.nodup_map_iff hinj]
  by_cases hzero : route.emptyStatus = 0
  · simp [hzero]
  · rw [if_neg hzero]
    simp only [List.cons_append, List.nil_append, List.nodup_cons, List.mem_cons, List.not_mem_nil,
      or_false, not_or, not_false_eq_true, List.nodup_nil, and_true, ne_eq, hzero, forall_const]
    constructor
    · rintro ⟨⟨hstatus, hsame⟩, hempty⟩
      exact ⟨hstatus, fun h => hempty h.symm, fun h => hsame h.symm⟩
    · rintro ⟨hstatus, hempty, hsame⟩
      exact ⟨⟨hstatus, fun h => hsame h.symm⟩, fun h => hempty h.symm⟩

section Response
variable {route : QuackapiRoute} {columns : List (Str × LogicalType)}

theorem wellFormed_describedString (description : String) :
    WellFormed (describedString description) :=
  (isSchema_pair (by decide) (by decide) (wellFormed_string _) (wellFormed_string _)).wellFormed

theorem wellFormed_rowSchema (hnames : (columns.map Prod.fst).Nodup)
    (htypes : ∀ c ∈ columns, DistinctNames c.2) : WellFormed (rowSchema columns) := by
  refine (isSchema_pair (by decide) (by decide) (wellFormed_string _) ?_).wellFormed
  refine wellFormed_object ?_ fun f hf => ?_
  · rwa [List.map_map]
  · obtain ⟨c, hc, rfl⟩ := List.mem_map.mp hf
    exact (isSchema_duckTypeToOas (htypes c hc)).wellFormed

theorem wellFormed_successSchema (h : ResponseSound route columns) :
    WellFormed (successResponse route columns).schema := by
  have hrow : listsColumns route columns = true → WellFormed (rowSchema columns) := fun hlists =>
    wellFormed_rowSchema (h.names hlists) (h.types hlists)
  unfold successResponse
  dsimp only
  split
  · exact (isSchema_formatSchema _ _).wellFormed
  next hbinary =>
  split
  · exact wellFormed_describedString _
  · exact wellFormed_describedString _
  next hmode =>
  split
  · exact (isSchema_formatSchema _ _).wellFormed
  next htable =>
  split
  · exact (isSchema_typeSchema _).wellFormed
  next htext =>
  split
  · have hfree : ["type".toList, "maxLength".toList].Nodup := by decide
    exact wellFormed_object hfree
      (List.forall_mem_cons.mpr ⟨wellFormed_string _, List.forall_mem_singleton.mpr (wellFormed_numeral 0)⟩)
  next hempty =>
  have hlists : listsColumns route columns = true := by
    simp only [listsColumns, hbinary, hmode, htable, htext, hempty, ne_eq, not_false_eq_true,
      decide_true, Bool.not_false, Bool.and_self]
  split
  · exact hrow hlists
  · exact (isSchema_pair (by decide) (by decide) (wellFormed_string _) (hrow hlists)).wellFormed

theorem Response.wellFormed_text {r : Response} (h : WellFormed r.schema) : WellFormed r.text := by
  have hkeys : ["description".toList, "content".toList].Nodup := by decide
  exact wellFormed_object hkeys (List.forall_mem_cons.mpr
    ⟨wellFormed_string _, List.forall_mem_singleton.mpr (wellFormed_single (wellFormed_single h))⟩)

theorem wellFormed_detailSchema {detail : Str} (h : WellFormed detail) :
    WellFormed (detailSchema detail) :=
  (isSchema_pair (by decide) (by decide) (wellFormed_string _) (wellFormed_single h)).wellFormed

theorem wellFormed_responses (h : ResponseSound route columns) :
    WellFormed (jsonObject (responseFields route columns)) := by
  have hitems := isSchema_pair (a := "type".toList) (b := "items".toList) (by decide) (by decide)
    (wellFormed_string "array".toList) (isSchema_typeSchema "object").wellFormed
  have hvalidation : WellFormed validationResponse.text :=
    Response.wellFormed_text (wellFormed_detailSchema hitems.wellFormed)
  have hempty : WellFormed emptyResponse.text :=
    Response.wellFormed_text (wellFormed_detailSchema (isSchema_typeSchema "string").wellFormed)
  refine wellFormed_object (nodup_responseFields.mpr ⟨h.status, h.emptyStatus⟩) ?_
  unfold responseFields
  rw [List.forall_mem_append, List.forall_mem_cons]
  refine ⟨⟨Response.wellFormed_text (wellFormed_successSchema h),
    List.forall_mem_singleton.mpr hvalidation⟩, ?_⟩
  split
  · exact nofun
  · exact List.forall_mem_singleton.mpr hempty

end Response

structure OperationSound (e : DocEngine) (route : QuackapiRoute) : Prop where
  params : ParamsSound e route (preparedHandler e route)
  body : BodySound e route (variantBodySpecs route (preparedHandler e route).namedParams)
  responses : ResponseSound route (dataColumns e route)

theorem wellFormed_securityJson (requireAuth : Str) : WellFormed (securityJson requireAuth) := by
  have hempty : WellFormed (jsonArray []) := wellFormed_array nofun
  unfold securityJson
  split
  · exact hempty
  · exact wellFormed_array (List.forall_mem_singleton.mpr (wellFormed_single hempty))

theorem wellFormed_tagsField (tags : Str) : ∀ f ∈ tagsField tags, WellFormed f.2 := by
  unfold tagsField
  split
  · exact nofun
  · refine List.forall_mem_singleton.mpr (wellFormed_array fun t ht => ?_)
    obtain ⟨tag, _, rfl⟩ := List.mem_map.mp ht
    exact wellFormed_string tag

theorem nodup_operationFields (e : DocEngine) (route : QuackapiRoute) :
    ((operationFields e route).map Prod.fst).Nodup := by
  have hall : ["operationId".toList, "summary".toList, "tags".toList, "requestBody".toList,
      "parameters".toList, "responses".toList, "security".toList].Nodup := by decide
  have hoptional : ∀ {fields : List (Str × Str)} {name : Str},
      fields = [] ∨ fields.map Prod.fst = [name] → (fields.map Prod.fst).Sublist [name] := by
    rintro fields name (rfl | h)
    · exact List.nil_sublist _
    · rw [h]
  have htags : ((tagsField route.tags).map Prod.fst).Sublist ["tags".toList] := by
    refine hoptional ?_
    unfold tagsField
    split
    · exact .inl rfl
    · exact .inr rfl
  have hbody : ((requestBodyField e route (preparedHandler e route)).map Prod.fst).Sublist
      ["requestBody".toList] := by
    refine hoptional ?_
    dsimp only [requestBodyField]
    split
    · exact .inl rfl
    · exact .inr rfl
  refine hall.sublist ?_
  unfold operationFields
  rw [List.map_append, List.map_append, List.map_append]
  exact (((List.Sublist.refl ["operationId".toList, "summary".toList]).append htags).append
    hbody).append (List.Sublist.refl ["parameters".toList, "responses".toList, "security".toList])

theorem wellFormed_operationFields {e : DocEngine} {route : QuackapiRoute}
    (h : OperationSound e route) : ∀ f ∈ operationFields e route, WellFormed f.2 := by
  unfold operationFields
  rw [List.forall_mem_append, List.forall_mem_append, List.forall_mem_append]
  refine ⟨⟨⟨?_, wellFormed_tagsField route.tags⟩, wellFormed_requestBodyField h.body⟩, ?_⟩
  · rw [List.forall_mem_cons, List.forall_mem_singleton]
    exact ⟨wellFormed_string route.name, wellFormed_string route.name⟩
  · rw [List.forall_mem_cons, List.forall_mem_cons, List.forall_mem_singleton]
    exact ⟨wellFormed_paramsJson h.params, wellFormed_responses h.responses,
      wellFormed_securityJson route.requireAuth⟩

theorem readsAs_operation {e : DocEngine} {route : QuackapiRoute} (h : OperationSound e route) :
    ∃ j, ReadsAs (operationJson e route) j ∧ j.UniqueKeys ∧
      j.member "operationId".toList = some (.string route.name) := by
  have hfields : operationFields e route =
      ("operationId".toList, jsonString route.name) :: (operationFields e route).tail := rfl
  have hvalues := wellFormed_operationFields h
  have hkeys := nodup_operationFields e route
  rw [hfields, List.forall_mem_cons] at hvalues
  obtain ⟨members, hreads, hnames, hunique⟩ := exists_members hvalues.2
  refine ⟨.object (("operationId".toList, .string route.name) :: members), ?_, ?_, rfl⟩
  · rw [operationJson, hfields]
    exact readsAs_object (.cons ⟨rfl, readsAs_string route.name⟩ hreads)
  · refine .object ?_ (List.forall_mem_cons.mpr ⟨.string route.name, hunique⟩)
    rw [List.map_cons, hnames]
    exact hkeys

end Quackapi.Openapi
