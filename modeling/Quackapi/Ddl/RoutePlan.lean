import Quackapi.Ddl.RouteParse
import Quackapi.Library.Traverse

/-! The plan of `CREATE ROUTE`: the route travels from the parser to the execution as a list of engine
values, written in one place and read back in another. -/

namespace Quackapi.Ddl
open Params

/-- `QuackapiParamSpec`, with the flags and the values it keeps side by side. -/
structure SpecRecord where
  name : Str
  typeName : Str := []
  source : ParamSource := .query
  externalName : Str := []
  hasDefault : Bool := false
  defaultIsNull : Bool := false
  defaultRaw : Str := []
  defaultVariant : Params.Value := .null
  hasGe : Bool := false
  ge : Params.Value := .null
  hasGt : Bool := false
  gt : Params.Value := .null
  hasLe : Bool := false
  le : Params.Value := .null
  hasLt : Bool := false
  lt : Params.Value := .null
  hasMinLength : Bool := false
  minLength : Nat := 0
  hasMaxLength : Bool := false
  maxLength : Nat := 0
deriving DecidableEq

/-- `QuackapiRoute`, without the tags, which come from the group. -/
structure RouteRecord where
  name : Str
  method : Str
  pattern : Str
  handlerSql : Str
  status : Int
  requireAuth : Str
  params : List SpecRecord := []
  bodySchema : Str := []
  bodyType : Str := []
  groupName : Str := []
  rateLimitN : Int := 0
  rateLimitPerSec : Int := 0
  rateLimitBy : Str := []
  responseFormat : Str := "json".toList
  responseEnvelope : Str := "array".toList
  emptyStatus : Int := 0
  emptyBody : Str := []
  timeoutSec : Int := 0
  schedule : Str := []
  maxRequestBytes : Int := 0
deriving DecidableEq

/-- `RouteDdlParseData` -/
structure RouteDdlData where
  action : Str
  orReplace : Bool
  route : RouteRecord
deriving DecidableEq

def boundValue (bound : Option Number) : Params.Value := bound.elim .null .number

def defaultRaw : Option ParamDefault → Str
  | some (.literal raw _) => raw
  | _ => []

/-- `default_variant` behind an option. `DEFAULT NULL` leaves what an earlier `DEFAULT` has set. -/
def keepVariant (variant : Params.Value) : Option ParamDefault → Params.Value
  | some (.literal _ value) => value
  | _ => variant

def specRecord (spec : ParamSpec) (variant : Params.Value) : SpecRecord where
  name := spec.name
  typeName := spec.typeName
  source := spec.source
  externalName := spec.externalName
  hasDefault := spec.default.isSome
  defaultIsNull := decide (spec.default = some .null)
  defaultRaw := defaultRaw spec.default
  defaultVariant := keepVariant variant spec.default
  hasGe := spec.ge.isSome
  ge := boundValue spec.ge
  hasGt := spec.gt.isSome
  gt := boundValue spec.gt
  hasLe := spec.le.isSome
  le := boundValue spec.le
  hasLt := spec.lt.isSome
  lt := boundValue spec.lt
  hasMinLength := spec.minLength.isSome
  minLength := spec.minLength.getD 0
  hasMaxLength := spec.maxLength.isSome
  maxLength := spec.maxLength.getD 0

section
variable (engine : DdlEngine)

/-- `default_variant` behind a parameter's options. -/
def optionsVariant : Nat → ParamSpec → Params.Value → Str → Params.Value
  | 0, _, variant, _ => variant
  | fuel + 1, spec, variant, rest =>
    if rest.isEmpty || endsOptions rest then variant
    else
      match paramOption engine spec rest with
      | .error _ => variant
      | .ok (spec, rest) => optionsVariant fuel spec (keepVariant variant spec.default) rest

/-- `default_variant` behind a `PARAM` clause. -/
def clauseVariant (rest : Str) : Params.Value :=
  let rest := afterKeyword "PARAM".toList rest
  let (spec, rest) := takeType { name := nextToken rest } (afterToken rest)
  let (spec, rest) := (tryConsumeSource spec rest).getD (spec, rest)
  optionsVariant engine rest.length spec .null rest

def clauseRecords : Nat → List SpecRecord → Str → Scan (List SpecRecord)
  | 0, records, _ => .ok records
  | fuel + 1, records, rest =>
    if !atKeyword "PARAM".toList rest then .ok records
    else
      match paramClause engine rest with
      | .error e => .error e
      | .ok (spec, after) => clauseRecords fuel (records ++ [specRecord spec (clauseVariant engine rest)]) after

/-- The parameters of a statement, with everything their records hold. -/
def paramRecords (orReplace : Bool) (text : Str) : Scan (List SpecRecord) := do
  let (_, rest) ← routeHead orReplace text
  let (_, rest) ← headClauses clauseRounds {} rest
  let (_, rest) ← tryConsumeBodySchema {} rest
  clauseRecords engine rest.length [] rest

def routeRecord (route : RouteDdl) (params : List SpecRecord) : RouteRecord where
  name := route.name
  method := route.method
  pattern := route.pattern
  handlerSql := route.handlerSql
  status := route.status
  requireAuth := route.requireAuth
  params := params
  bodySchema := route.bodySchema
  bodyType := route.bodyType
  groupName := route.groupName
  rateLimitN := route.rateLimitN
  rateLimitPerSec := route.rateLimitPerSec
  rateLimitBy := route.rateLimitBy
  responseFormat := route.responseFormat
  responseEnvelope := route.responseEnvelope
  emptyStatus := route.emptyStatus
  emptyBody := route.emptyBody
  timeoutSec := route.timeoutSec
  schedule := route.schedule
  maxRequestBytes := route.maxRequestBytes

/-- What `CREATE ROUTE` hands to the plan. -/
def createRouteData (orReplace : Bool) (text : Str) : Scan RouteDdlData := do
  let route ← createRoute engine orReplace text
  let params ← paramRecords engine orReplace text
  return ⟨"CREATE".toList, route.orReplace, routeRecord route params⟩

end

/-- The engine's casts to and from `VARIANT`, of values that are not NULL. -/
structure VariantEngine (V : Type) where
  toVariant : Params.Value → V
  getValue : V → Params.Value
  lossless : ∀ v, getValue (toVariant v) = v

/-- `Value`, as far as a plan's parameters hold one. -/
inductive PlanValue (V : Type)
  | null
  | varchar (s : Str)
  | boolean (b : Bool)
  | integer (n : Int)
  | bigint (n : Int)
  | ubigint (n : Nat)
  | utinyint (n : Nat)
  | variant (v : V)
  | struct (fields : List (PlanValue V))
  | list (entries : List (PlanValue V))

namespace PlanValue
variable {V : Type}

def isNull : PlanValue V → Bool
  | null => true
  | _ => false

def getString : PlanValue V → Option Str
  | varchar s => some s
  | _ => none

def getBool : PlanValue V → Option Bool
  | boolean b => some b
  | _ => none

def getInt : PlanValue V → Option Int
  | integer n => some n
  | _ => none

def getBigint : PlanValue V → Option Int
  | bigint n => some n
  | _ => none

def getUbigint : PlanValue V → Option Nat
  | ubigint n => some n
  | _ => none

def getSource : PlanValue V → Option ParamSource
  | utinyint 0 => some .query
  | utinyint 1 => some .header
  | utinyint 2 => some .cookie
  | _ => none

def structFields : PlanValue V → Option (List (PlanValue V))
  | struct fields => some fields
  | _ => none

def listEntries : PlanValue V → Option (List (PlanValue V))
  | list entries => some entries
  | _ => none

end PlanValue

section
variable {V : Type} (engine : VariantEngine V)

/-- `DefaultCastAs(LogicalType::VARIANT())`; a NULL stays one. -/
def castVariant (v : Params.Value) : PlanValue V :=
  if v = .null then .null else .variant (engine.toVariant v)

/-- `VariantValue::GetValue`, and `Value()` for a NULL. -/
def variantValue : PlanValue V → Option Params.Value
  | .null => some .null
  | .variant v => some (engine.getValue v)
  | _ => none

def sourceNumber : ParamSource → Nat
  | .query => 0
  | .header => 1
  | .cookie => 2

def specValue (spec : SpecRecord) : PlanValue V :=
  .struct
    [.varchar spec.name, .varchar spec.typeName, .boolean spec.hasDefault,
      if spec.defaultIsNull then .null else .varchar spec.defaultRaw,
      if spec.hasGe then castVariant engine spec.ge else .null,
      if spec.hasGt then castVariant engine spec.gt else .null,
      if spec.hasLe then castVariant engine spec.le else .null,
      if spec.hasLt then castVariant engine spec.lt else .null,
      if spec.hasMinLength then .ubigint spec.minLength else .null,
      if spec.hasMaxLength then .ubigint spec.maxLength else .null,
      .utinyint (sourceNumber spec.source), .varchar spec.externalName,
      if spec.hasDefault && !spec.defaultIsNull then castVariant engine spec.defaultVariant else .null]

def paramSpecsValue (specs : List SpecRecord) : PlanValue V := .list (specs.map (specValue engine))

/-- The default text of a specification: a NULL is the mark of a NULL default. -/
def readRaw (field : PlanValue V) : Option Str := if field.isNull then some [] else field.getString

def readLength (field : PlanValue V) : Option Nat := if field.isNull then some 0 else field.getUbigint

def specFromValue (entry : PlanValue V) : Option SpecRecord := do
  let fields ← entry.structFields
  match fields with
  | [name, typeName, hasDefault, raw, ge, gt, le, lt, minLength, maxLength, source, externalName, variant] =>
    return {
      name := ← name.getString
      typeName := ← typeName.getString
      source := ← source.getSource
      externalName := ← externalName.getString
      hasDefault := ← hasDefault.getBool
      defaultIsNull := raw.isNull
      defaultRaw := ← readRaw raw
      defaultVariant := ← variantValue engine variant
      hasGe := !ge.isNull
      ge := ← variantValue engine ge
      hasGt := !gt.isNull
      gt := ← variantValue engine gt
      hasLe := !le.isNull
      le := ← variantValue engine le
      hasLt := !lt.isNull
      lt := ← variantValue engine lt
      hasMinLength := !minLength.isNull
      minLength := ← readLength minLength
      hasMaxLength := !maxLength.isNull
      maxLength := ← readLength maxLength }
  | _ => none

def paramSpecsFromValue (value : PlanValue V) : Option (List SpecRecord) := do
  let entries ← value.listEntries
  entries.mapM (specFromValue engine)

def routeDdlPlan (data : RouteDdlData) : List (PlanValue V) :=
  let route := data.route
  [.varchar data.action, .boolean data.orReplace, .varchar route.name, .varchar route.method,
    .varchar route.pattern, .varchar route.handlerSql, .integer route.status, .varchar route.requireAuth,
    paramSpecsValue engine route.params, .varchar route.bodySchema, .varchar route.groupName,
    .integer route.rateLimitN, .integer route.rateLimitPerSec, .varchar route.rateLimitBy,
    .varchar (if route.responseFormat.isEmpty then "json".toList else route.responseFormat),
    .varchar (if route.responseEnvelope.isEmpty then "array".toList else route.responseEnvelope),
    .integer route.emptyStatus, .varchar route.emptyBody, .integer route.timeoutSec, .varchar route.bodyType,
    .varchar route.schedule, .bigint route.maxRequestBytes]

/-- An input the function may be called without: what is read from it, or the field's own value. -/
def inputOr {α : Type} (inputs : List (PlanValue V)) (i : Nat) (read : PlanValue V → Option α) (own : α) :
    Option α :=
  match inputs[i]? with
  | none => some own
  | some value => if value.isNull then some own else read value

/-- A name in lower case, where the empty one means another. -/
def readName (empty : Str) (value : PlanValue V) : Option Str :=
  value.getString.map fun s => if (lower s).isEmpty then empty else lower s

def applyRouteBind (inputs : List (PlanValue V)) : Option RouteDdlData := do
  let action ← (← inputs[0]?).getString
  let orReplace ← (← inputs[1]?).getBool
  let name ← (← inputs[2]?).getString
  let method ← (← inputs[3]?).getString
  let pattern ← (← inputs[4]?).getString
  let handlerSql ← (← inputs[5]?).getString
  let status ← (← inputs[6]?).getInt
  let requireAuth ← (← inputs[7]?).getString
  let route : RouteRecord := { name, method, pattern, handlerSql, status, requireAuth }
  return {
    action, orReplace
    route := { route with
      params := ← inputOr inputs 8 (paramSpecsFromValue engine) route.params
      bodySchema := ← inputOr inputs 9 PlanValue.getString route.bodySchema
      bodyType := ← inputOr inputs 19 PlanValue.getString route.bodyType
      groupName := ← inputOr inputs 10 PlanValue.getString route.groupName
      rateLimitN := ← inputOr inputs 11 PlanValue.getInt route.rateLimitN
      rateLimitPerSec := ← inputOr inputs 12 PlanValue.getInt route.rateLimitPerSec
      rateLimitBy := ← inputOr inputs 13 PlanValue.getString route.rateLimitBy
      responseFormat := ← inputOr inputs 14 (readName "json".toList) route.responseFormat
      responseEnvelope := ← inputOr inputs 15 (readName "array".toList) route.responseEnvelope
      emptyStatus := ← inputOr inputs 16 PlanValue.getInt route.emptyStatus
      emptyBody := ← inputOr inputs 17 PlanValue.getString route.emptyBody
      timeoutSec := ← inputOr inputs 18 PlanValue.getInt route.timeoutSec
      schedule := ← inputOr inputs 20 PlanValue.getString route.schedule
      maxRequestBytes := ← inputOr inputs 21 PlanValue.getBigint route.maxRequestBytes } }

end

section
variable {V : Type} (engine : VariantEngine V)

theorem isNull_castVariant (v : Params.Value) : (castVariant engine v).isNull = decide (v = .null) := by
  by_cases h : v = .null
  · rw [castVariant, if_pos h, decide_eq_true h]
    rfl
  · rw [castVariant, if_neg h, decide_eq_false h]
    rfl

theorem variantValue_castVariant (v : Params.Value) : variantValue engine (castVariant engine v) = some v := by
  by_cases h : v = .null
  · rw [castVariant, if_pos h, h]
    rfl
  · rw [castVariant, if_neg h]
    exact congrArg some (engine.lossless v)

def boundField (has : Bool) (value : Params.Value) : PlanValue V :=
  if has then castVariant engine value else .null

theorem boundField_bound (bound : Option Number) :
    (boundField engine bound.isSome (boundValue bound)).isNull = !bound.isSome ∧
      variantValue engine (boundField engine bound.isSome (boundValue bound)) = some (boundValue bound) := by
  cases bound with
  | none => exact ⟨rfl, rfl⟩
  | some n =>
    refine ⟨?_, variantValue_castVariant engine (.number n)⟩
    exact (isNull_castVariant engine (.number n)).trans (decide_eq_false (fun h => by cases h))

theorem getSource_sourceNumber (source : ParamSource) :
    (PlanValue.utinyint (sourceNumber source) : PlanValue V).getSource = some source := by
  cases source <;> rfl

def lengthField (length : Option Nat) : PlanValue V := if length.isSome then .ubigint (length.getD 0) else .null

theorem lengthField_length (length : Option Nat) :
    (lengthField length : PlanValue V).isNull = !length.isSome ∧
      readLength (lengthField length : PlanValue V) = some (length.getD 0) := by
  cases length <;> exact ⟨rfl, rfl⟩

def rawField (default : Option ParamDefault) : PlanValue V :=
  if decide (default = some .null) then .null else .varchar (defaultRaw default)

theorem rawField_default (default : Option ParamDefault) :
    (rawField default : PlanValue V).isNull = decide (default = some .null) ∧
      readRaw (rawField default : PlanValue V) = some (defaultRaw default) := by
  cases default with
  | none => exact ⟨rfl, rfl⟩
  | some d => cases d <;> exact ⟨rfl, rfl⟩

theorem variantValue_default (default : Option ParamDefault) (variant : Params.Value) :
    variantValue engine (if default.isSome && !decide (default = some .null) then
      castVariant engine (keepVariant variant default) else .null) = some (keepVariant .null default) := by
  cases default with
  | none => rfl
  | some d =>
    cases d with
    | null => rfl
    | literal raw value => exact variantValue_castVariant engine value

theorem then_some {α β : Type} {x : Option α} {f : α → Option β} {a : α} {b : β} (hx : x = some a)
    (hf : f a = some b) : (x >>= f) = some b := by
  rw [hx]
  exact hf

theorem specFromValue_struct {spec : SpecRecord} {source raw ge gt le lt minLength maxLength variant : PlanValue V}
    (hsource : source.getSource = some spec.source) (hraw : readRaw raw = some spec.defaultRaw)
    (hge : variantValue engine ge = some spec.ge) (hgt : variantValue engine gt = some spec.gt)
    (hle : variantValue engine le = some spec.le) (hlt : variantValue engine lt = some spec.lt)
    (hmin : readLength minLength = some spec.minLength) (hmax : readLength maxLength = some spec.maxLength)
    (hvariant : variantValue engine variant = some spec.defaultVariant) :
    specFromValue engine (.struct [.varchar spec.name, .varchar spec.typeName, .boolean spec.hasDefault, raw, ge, gt,
        le, lt, minLength, maxLength, source, .varchar spec.externalName, variant]) =
      some { spec with
        defaultIsNull := raw.isNull
        hasGe := !ge.isNull
        hasGt := !gt.isNull
        hasLe := !le.isNull
        hasLt := !lt.isNull
        hasMinLength := !minLength.isNull
        hasMaxLength := !maxLength.isNull } := by
  refine then_some rfl ?_
  refine then_some rfl (then_some rfl (then_some hsource (then_some rfl (then_some rfl ?_))))
  refine then_some hraw (then_some hvariant ?_)
  refine then_some hge (then_some hgt (then_some hle (then_some hlt ?_)))
  exact then_some hmin (then_some hmax rfl)

theorem specFromValue_specValue (spec : ParamSpec) (variant : Params.Value) :
    specFromValue engine (specValue engine (specRecord spec variant)) = some (specRecord spec .null) := by
  obtain ⟨hgeNull, hge⟩ := boundField_bound engine spec.ge
  obtain ⟨hgtNull, hgt⟩ := boundField_bound engine spec.gt
  obtain ⟨hleNull, hle⟩ := boundField_bound engine spec.le
  obtain ⟨hltNull, hlt⟩ := boundField_bound engine spec.lt
  obtain ⟨hminNull, hmin⟩ := lengthField_length (V := V) spec.minLength
  obtain ⟨hmaxNull, hmax⟩ := lengthField_length (V := V) spec.maxLength
  obtain ⟨hrawNull, hraw⟩ := rawField_default (V := V) spec.default
  have hvariant := variantValue_default engine spec.default variant
  have hsource := getSource_sourceNumber (V := V) spec.source
  have hread := @specFromValue_struct V engine (specRecord spec .null) _ _ _ _ _ _ _ _ _ hsource hraw
    hge hgt hle hlt hmin hmax hvariant
  rw [hrawNull, hgeNull, hgtNull, hleNull, hltNull, hminNull, hmaxNull] at hread
  simp only [Bool.not_not] at hread
  exact hread

/-- What the plan keeps of a record: a variant only where there is a literal default. -/
def SpecRecord.planned (spec : SpecRecord) : SpecRecord :=
  { spec with defaultVariant := if spec.hasDefault && !spec.defaultIsNull then spec.defaultVariant else .null }

def SpecRecord.Parsed (spec : SpecRecord) : Prop := ∃ parsed variant, spec = specRecord parsed variant

theorem planned_specRecord (spec : ParamSpec) (variant : Params.Value) :
    (specRecord spec variant).planned = specRecord spec .null := by
  have hvariant : (if spec.default.isSome && !decide (spec.default = some .null) then
      keepVariant variant spec.default else .null) = keepVariant .null spec.default := by
    cases spec.default with
    | none => rfl
    | some d => cases d <;> rfl
  rw [SpecRecord.planned]
  exact congrArg (fun v => { specRecord spec variant with defaultVariant := v }) hvariant

theorem SpecRecord.Parsed.roundTrip {spec : SpecRecord} (h : spec.Parsed) :
    specFromValue engine (specValue engine spec) = some spec.planned := by
  obtain ⟨parsed, variant, rfl⟩ := h
  rw [specFromValue_specValue, planned_specRecord]

theorem paramSpecs_roundTrip {specs : List SpecRecord} (h : ∀ spec ∈ specs, spec.Parsed) :
    paramSpecsFromValue engine (paramSpecsValue engine specs) = some (specs.map SpecRecord.planned) := by
  change (specs.map (specValue engine)).mapM (specFromValue engine) = _
  induction specs with
  | nil => rfl
  | cons spec specs ih =>
    have hspec := (h spec List.mem_cons_self).roundTrip engine
    have hspecs := ih fun spec hspec => h spec (List.mem_cons_of_mem _ hspec)
    rw [List.map_cons, List.mapM_cons, hspec, hspecs]
    rfl

def RouteRecord.planned (route : RouteRecord) : RouteRecord :=
  { route with params := route.params.map SpecRecord.planned }

theorem readName_of_lower {empty s : Str} (hlower : lower s = s) (hs : s.isEmpty = false) :
    readName empty (.varchar (if s.isEmpty then empty else s) : PlanValue V) = some s := by
  rw [readName, if_neg (by rw [hs]; decide)]
  change some (if (lower s).isEmpty then empty else lower s) = some s
  rw [hlower, if_neg (by rw [hs]; decide)]

theorem isNull_varchar (s : Str) : (.varchar s : PlanValue V).isNull = false := rfl

theorem isNull_integer (n : Int) : (.integer n : PlanValue V).isNull = false := rfl

theorem isNull_bigint (n : Int) : (.bigint n : PlanValue V).isNull = false := rfl

theorem names_lower_format : ∀ name ∈ formatNames, lower name = name ∧ name.isEmpty = false := by decide

theorem names_lower_envelope : ∀ name ∈ envelopeNames, lower name = name ∧ name.isEmpty = false := by decide

theorem route_roundTrip {data : RouteDdlData} (hparams : ∀ spec ∈ data.route.params, spec.Parsed)
    (hformat : data.route.responseFormat ∈ formatNames)
    (henvelope : data.route.responseEnvelope ∈ envelopeNames) :
    applyRouteBind engine (routeDdlPlan engine data) = some { data with route := data.route.planned } := by
  have hspecs := paramSpecs_roundTrip engine hparams
  obtain ⟨hformatLower, hformatSome⟩ := names_lower_format _ hformat
  obtain ⟨henvelopeLower, henvelopeSome⟩ := names_lower_envelope _ henvelope
  have hformatRead := @readName_of_lower V "json".toList _ hformatLower hformatSome
  have henvelopeRead := @readName_of_lower V "array".toList _ henvelopeLower henvelopeSome
  have hnull : (paramSpecsValue engine data.route.params).isNull = false := rfl
  rw [applyRouteBind, routeDdlPlan]
  simp only [List.getElem?_cons_zero, List.getElem?_cons_succ, Option.bind_eq_bind, Option.bind_some, inputOr,
    isNull_varchar, isNull_integer, isNull_bigint, hnull, Bool.false_eq_true, if_false, PlanValue.getString,
    PlanValue.getBool, PlanValue.getInt, PlanValue.getBigint, hspecs, hformatRead, henvelopeRead]
  rfl

end

def Formatted (st : HeadState) : Prop :=
  st.responseFormat ∈ formatNames ∧ st.responseEnvelope ∈ envelopeNames

def KeepsFormats (clause : Clause) : Prop :=
  ∀ st rest st' rest', clause st rest = .ok (st', rest') → Formatted st → Formatted st'

theorem keeps_of_returns {clause : Clause}
    (h : ∀ st rest, Formatted st → Library.Returns (fun r => Formatted r.1) (clause st rest)) :
    KeepsFormats clause := fun st rest st' rest' hr hst => h st rest hst (st', rest') hr

theorem scheduleClause_keeps : KeepsFormats scheduleClause := by
  refine keeps_of_returns fun st rest hst => Library.returns_unless fun _ => ?_
  split
  · split
    · exact Library.returns_error
    · split
      · exact Library.returns_error
      · exact Library.returns_ok hst
  · exact Library.returns_error

theorem statusClause_keeps : KeepsFormats statusClause := by
  refine keeps_of_returns fun st rest hst => ?_
  refine Library.returns_unless fun _ => Library.returns_unless fun _ => ?_
  exact Library.returns_ok hst

theorem rateLimitBy_keeps : KeepsFormats rateLimitBy := by
  refine keeps_of_returns fun st rest hst => ?_
  rw [rateLimitBy]
  split
  · refine Library.returns_unless fun _ => Library.returns_unless fun _ => ?_
    exact Library.returns_ok hst
  · exact Library.returns_ok hst

theorem rateLimitPer_keeps : KeepsFormats rateLimitPer := by
  refine keeps_of_returns fun st rest hst => ?_
  refine Library.returns_unless fun _ => Library.returns_unless fun _ => Library.returns_unless fun _ => ?_
  exact fun r hr => rateLimitBy_keeps _ _ _ _ hr hst

theorem rateClause_keeps : KeepsFormats rateClause := by
  refine keeps_of_returns fun st rest hst => ?_
  refine Library.returns_unless fun _ => Library.returns_unless fun _ => Library.returns_unless fun _ => ?_
  exact fun r hr => rateLimitPer_keeps _ _ _ _ hr hst

theorem requireClause_keeps : KeepsFormats requireClause := by
  refine keeps_of_returns fun st rest hst => Library.returns_unless fun _ => ?_
  exact Library.returns_ok hst

theorem formatClause_keeps : KeepsFormats formatClause := by
  refine keeps_of_returns fun st rest hst => ?_
  refine Library.returns_unless fun _ => Library.returns_unless fun hnames => ?_
  exact Library.returns_ok ⟨not_not.mp hnames, hst.2⟩

theorem envelopeClause_keeps : KeepsFormats envelopeClause := by
  refine keeps_of_returns fun st rest hst => ?_
  refine Library.returns_unless fun _ => Library.returns_unless fun hnames => ?_
  exact Library.returns_ok ⟨hst.1, not_not.mp hnames⟩

theorem emptyBodyPart_keeps : KeepsFormats emptyBodyPart := by
  refine keeps_of_returns fun st rest hst => ?_
  rw [emptyBodyPart]
  split
  · refine Library.returns_unless fun _ => ?_
    split
    · split
      · exact Library.returns_error
      · exact Library.returns_ok hst
    · exact Library.returns_error
  · exact Library.returns_ok hst

theorem emptyClause_keeps : KeepsFormats emptyClause := by
  refine keeps_of_returns fun st rest hst => ?_
  refine Library.returns_unless fun _ => Library.returns_unless fun _ => Library.returns_unless fun _ => ?_
  exact fun r hr => emptyBodyPart_keeps _ _ _ _ hr hst

theorem timeoutClause_keeps : KeepsFormats timeoutClause := by
  refine keeps_of_returns fun st rest hst => ?_
  rw [timeoutClause]
  split
  · exact Library.returns_error
  · split
    · exact Library.returns_error
    · exact Library.returns_unless fun _ => Library.returns_ok hst

theorem groupOperand_keeps (missing : Str) : KeepsFormats (groupOperand missing) := by
  refine keeps_of_returns fun st rest hst => ?_
  refine Library.returns_unless fun _ => Library.returns_unless fun _ => ?_
  exact Library.returns_ok hst

theorem keeps_ite {p : Prop} [Decidable p] {clause : Clause} {other : Option Clause}
    (hclause : KeepsFormats clause) (hother : ∀ c ∈ other, KeepsFormats c) :
    ∀ c ∈ (if p then some clause else other), KeepsFormats c := by
  intro c hc
  split at hc
  · exact Option.some.inj hc ▸ hclause
  · exact hother c hc

theorem headClauseAt_keeps {rest : Str} {clause : Clause} (h : headClauseAt rest = some clause) :
    KeepsFormats clause := by
  have hgroup : ∀ (missing : Str) (after : Str → Str),
      KeepsFormats fun st rest => groupOperand missing st (after rest) :=
    fun missing after st rest => groupOperand_keeps missing st (after rest)
  refine keeps_ite scheduleClause_keeps ?_ clause h
  refine keeps_ite statusClause_keeps (keeps_ite rateClause_keeps ?_)
  refine keeps_ite requireClause_keeps (keeps_ite formatClause_keeps ?_)
  refine keeps_ite envelopeClause_keeps (keeps_ite emptyClause_keeps ?_)
  refine keeps_ite timeoutClause_keeps (keeps_ite (hgroup _ _) (keeps_ite (hgroup _ _) ?_))
  intro c hc
  cases hc

theorem headClauses_formatted {rounds : Nat} {st st' : HeadState} {rest rest' : Str}
    (h : headClauses rounds st rest = .ok (st', rest')) (hst : Formatted st) : Formatted st' := by
  induction rounds generalizing st rest with
  | zero =>
    cases h
    exact hst
  | succ rounds ih =>
    rw [headClauses] at h
    cases hclause : headClauseAt rest with
    | none =>
      simp only [hclause] at h
      cases h
      exact hst
    | some clause =>
      simp only [hclause] at h
      cases hstep : clause st rest with
      | error e =>
        simp only [hstep] at h
        cases h
      | ok next =>
        simp only [hstep] at h
        exact ih h (headClauseAt_keeps hclause st rest next.1 next.2 hstep hst)

theorem lateClauses_formatted {st st' : HeadState} {rest rest' : Str}
    (h : lateClauses st rest = .ok (st', rest')) (hst : Formatted st) : Formatted st' := by
  have hlate : ∀ {mid after}, Formatted mid →
      (if atKeyword "TIMEOUT".toList after then timeoutClause mid after else .ok (mid, after)) = .ok (st', rest') →
      Formatted st' := by
    intro mid after hmid htimeout
    split at htimeout
    · exact timeoutClause_keeps _ _ _ _ htimeout hmid
    · cases htimeout
      exact hmid
  rw [lateClauses] at h
  split at h
  · obtain ⟨⟨mid, after⟩, hschedule, htimeout⟩ := Library.bind_eq_ok.mp h
    exact hlate (scheduleClause_keeps _ _ _ _ hschedule hst) htimeout
  · obtain ⟨⟨mid, after⟩, hsame, htimeout⟩ := Library.bind_eq_ok.mp h
    cases hsame
    exact hlate hst htimeout

theorem createRoute_ok {engine : DdlEngine} {orReplace : Bool} {text : Str} {route : RouteDdl}
    (h : createRoute engine orReplace text = .ok route) :
    ∃ head rest st rest₁ body rest₂ params rest₃ rest₄ st' rest₅,
      routeHead orReplace text = .ok (head, rest) ∧ headClauses clauseRounds {} rest = .ok (st, rest₁) ∧
      tryConsumeBodySchema {} rest₁ = .ok (body, rest₂) ∧
      paramClauses engine rest₂.length [] rest₂ = .ok (params, rest₃) ∧
      lateClauses st rest₄ = .ok (st', rest₅) ∧ route.params = params ∧
      route.responseFormat = st'.responseFormat ∧ route.responseEnvelope = st'.responseEnvelope := by
  rw [createRoute] at h
  obtain ⟨⟨head, rest⟩, hhead, h⟩ := Library.bind_eq_ok.mp h
  obtain ⟨⟨st, rest₁⟩, hclauses, h⟩ := Library.bind_eq_ok.mp h
  obtain ⟨_, -, h⟩ := Library.bind_eq_ok.mp h
  rw [routeTail] at h
  obtain ⟨⟨body, rest₂⟩, hbody, h⟩ := Library.bind_eq_ok.mp h
  obtain ⟨⟨params, rest₃⟩, hparams, h⟩ := Library.bind_eq_ok.mp h
  obtain ⟨⟨body', rest₄⟩, -, h⟩ := Library.bind_eq_ok.mp h
  obtain ⟨⟨st', rest₅⟩, hlate, h⟩ := Library.bind_eq_ok.mp h
  obtain ⟨⟨limits, rest₆⟩, -, h⟩ := Library.bind_eq_ok.mp h
  obtain ⟨handler, -, h⟩ := Library.bind_eq_ok.mp h
  cases h
  exact ⟨head, rest, st, rest₁, body, rest₂, params, rest₃, rest₄, st', rest₅, hhead, hclauses, hbody, hparams,
    hlate, rfl, rfl, rfl⟩

theorem takeWireName_default (spec : ParamSpec) (rest : Str) :
    (takeWireName spec rest).1.default = spec.default := by
  unfold takeWireName
  split
  · rfl
  · split <;> rfl
  · split <;> rfl

theorem tryConsumeSource_default {spec spec' : ParamSpec} {rest rest' : Str}
    (h : tryConsumeSource spec rest = some (spec', rest')) : spec'.default = spec.default := by
  obtain ⟨source, -, heq⟩ := Option.map_eq_some_iff.mp h
  have hwire := takeWireName_default { spec with source } (afterToken rest)
  rw [heq] at hwire
  exact hwire

theorem setBound_default {engine : DdlEngine} {spec spec' : ParamSpec} {k : BoundKey} {num : Str}
    (h : setBound engine spec k num = .ok spec') : spec'.default = spec.default := by
  have hmap : ∀ {α : Type} {s : Scan α} {f : α → ParamSpec}, s.map f = .ok spec' →
      (∀ a, (f a).default = spec.default) → spec'.default = spec.default := by
    intro α s f hs hf
    cases s with
    | error e => cases hs
    | ok a =>
      cases hs
      exact hf a
  cases k with
  | ge | gt | le | lt | minLength | maxLength => exact hmap h fun _ => rfl

theorem paramOption_default_none {engine : DdlEngine} {spec spec' : ParamSpec} {rest rest' : Str}
    (h : paramOption engine spec rest = .ok (spec', rest')) (hnone : spec'.default = none) :
    spec.default = none := by
  rw [paramOption] at h
  cases hsource : tryConsumeSource spec rest with
  | some r =>
    simp only [hsource] at h
    cases h
    exact (tryConsumeSource_default hsource).symm.trans hnone
  | none =>
    simp only [hsource] at h
    split at h
    · -- A `DEFAULT` leaves one.
      unfold defaultOption quotedDefault at h
      split at h
      · cases h
      · split at h
        · cases h
          cases hnone
        · cases h
      · split at h
        · cases h
        · cases h
          cases hnone
    · split at h
      · rename_i k _
        rw [boundOption] at h
        split at h
        · cases h
        · cases hbound : setBound engine spec k
            ((afterToken rest).take (numberEnd engine (afterToken rest))) with
          | error e =>
            rw [hbound] at h
            cases h
          | ok bounded =>
            rw [hbound] at h
            cases h
            exact (setBound_default hbound).symm.trans hnone
      · cases h

theorem optionsVariant_of_none {engine : DdlEngine} {fuel : Nat} {spec spec' : ParamSpec} {rest rest' : Str}
    (variant : Params.Value) (h : paramOptions engine fuel spec rest = .ok (spec', rest'))
    (hnone : spec'.default = none) :
    spec.default = none ∧ optionsVariant engine fuel spec variant rest = variant := by
  induction fuel generalizing spec rest with
  | zero =>
    cases h
    exact ⟨hnone, rfl⟩
  | succ fuel ih =>
    rw [paramOptions] at h
    rw [optionsVariant]
    split at h
    · next hend =>
      cases h
      exact ⟨hnone, if_pos hend⟩
    · next hend =>
      cases hoption : paramOption engine spec rest with
      | error e =>
        simp only [hoption] at h
        cases h
      | ok r =>
        simp only [hoption] at h
        obtain ⟨hkept, hvariant⟩ := ih h
        refine ⟨paramOption_default_none hoption hkept, ?_⟩
        rw [if_neg hend]
        dsimp only
        rw [hkept]
        exact hvariant

theorem clauseVariant_of_none {engine : DdlEngine} {spec : ParamSpec} {rest rest' : Str}
    (h : paramClause engine rest = .ok (spec, rest')) (hnone : spec.default = none) :
    clauseVariant engine rest = .null := by
  rw [paramClause] at h
  split at h
  · cases h
  · exact (optionsVariant_of_none .null h hnone).2

def RecordOf (spec : ParamSpec) (record : SpecRecord) : Prop :=
  ∃ variant, record = specRecord spec variant ∧ (spec.default = none → variant = .null)

theorem RecordOf.variant {spec : ParamSpec} {record : SpecRecord} (h : RecordOf spec record)
    (hnone : record.hasDefault = false) : record.defaultVariant = .null := by
  obtain ⟨variant, rfl, hvariant⟩ := h
  have hdefault : spec.default = none := Option.isSome_eq_false_iff.mp hnone |> Option.isNone_iff_eq_none.mp
  change keepVariant variant spec.default = .null
  rw [hdefault]
  exact hvariant hdefault

theorem clauseRecords_of_paramClauses {engine : DdlEngine} {fuel : Nat} {specs specs' : List ParamSpec}
    {records : List SpecRecord} {rest rest' : Str} (hrecords : List.Forall₂ RecordOf specs records)
    (h : paramClauses engine fuel specs rest = .ok (specs', rest')) :
    ∃ records', clauseRecords engine fuel records rest = .ok records' ∧
      List.Forall₂ RecordOf specs' records' := by
  induction fuel generalizing specs records rest with
  | zero =>
    cases h
    exact ⟨records, rfl, hrecords⟩
  | succ fuel ih =>
    rw [paramClauses] at h
    rw [clauseRecords]
    by_cases hend : (!atKeyword "PARAM".toList rest) = true
    · rw [if_pos hend] at h ⊢
      cases h
      exact ⟨records, rfl, hrecords⟩
    · rw [if_neg hend] at h ⊢
      cases hclause : paramClause engine rest with
      | error e =>
        simp only [hclause] at h
        cases h
      | ok r =>
        simp only [hclause] at h
        have hnext : List.Forall₂ RecordOf (specs ++ [r.1])
            (records ++ [specRecord r.1 (clauseVariant engine rest)]) :=
          List.rel_append hrecords (.cons ⟨_, rfl, fun hnone => clauseVariant_of_none hclause hnone⟩ .nil)
        exact ih hnext h

/-- A statement that is accepted gives a record, which differs from the route in nothing but what it keeps
beside each parameter. -/
theorem createRouteData_of_createRoute {engine : DdlEngine} {orReplace : Bool} {text : Str} {route : RouteDdl}
    (h : createRoute engine orReplace text = .ok route) :
    ∃ records, List.Forall₂ RecordOf route.params records ∧
      createRouteData engine orReplace text =
        .ok ⟨"CREATE".toList, route.orReplace, routeRecord route records⟩ := by
  obtain ⟨head, rest, st, rest₁, body, rest₂, params, rest₃, rest₄, st', rest₅, hhead, hclauses, hbody, hparams, -,
    rfl, -, -⟩ := createRoute_ok h
  obtain ⟨records, hrecords, hof⟩ := clauseRecords_of_paramClauses .nil hparams
  refine ⟨records, hof, ?_⟩
  have hrun : paramRecords engine orReplace text = .ok records := by
    rw [paramRecords, hhead]
    change (headClauses clauseRounds {} rest >>= _) = _
    rw [hclauses]
    change (tryConsumeBodySchema {} rest₁ >>= _) = _
    rw [hbody]
    exact hrecords
  rw [createRouteData, h]
  change (paramRecords engine orReplace text >>= _) = _
  rw [hrun]
  rfl

/-- A route that `CREATE ROUTE` makes comes out of its plan as it went in, apart from the variant a
parameter keeps of an earlier default where its last one is NULL; without a default there is none. -/
theorem create_route_planned {V : Type} (values : VariantEngine V) {engine : DdlEngine} {orReplace : Bool}
    {text : Str} {data : RouteDdlData} (h : createRouteData engine orReplace text = .ok data) :
    applyRouteBind values (routeDdlPlan values data) = some { data with route := data.route.planned } ∧
      ∀ p ∈ data.route.params, p.hasDefault = false → p.defaultVariant = .null := by
  cases hroute : createRoute engine orReplace text with
  | error e =>
    rw [createRouteData, hroute] at h
    cases h
  | ok route =>
    obtain ⟨records, hof, hdata⟩ := createRouteData_of_createRoute hroute
    obtain rfl := Except.ok.inj (hdata.symm.trans h)
    obtain ⟨head, rest, st, rest₁, body, rest₂, params, rest₃, rest₄, st', rest₅, -, hclauses, -, -, hlate, -,
      hformat, henvelope⟩ := createRoute_ok hroute
    have hst : Formatted st := headClauses_formatted hclauses ⟨by decide, by decide⟩
    have hst' := lateClauses_formatted hlate hst
    refine ⟨route_roundTrip values (fun record hrecord => ?_) ?_ ?_, fun record hrecord hnone => ?_⟩
    · obtain ⟨spec, -, variant, hrec, -⟩ := Library.exists_of_mem_right hof hrecord
      exact ⟨spec, variant, hrec⟩
    · have hnamed : route.responseFormat ∈ formatNames := hformat ▸ hst'.1
      exact hnamed
    · have hnamed : route.responseEnvelope ∈ envelopeNames := henvelope ▸ hst'.2
      exact hnamed
    · obtain ⟨spec, -, hrec⟩ := Library.exists_of_mem_right hof hrecord
      exact hrec.variant hnone

def digitsEngine : DdlEngine where
  tokenStarts _ := []
  parseExpression s :=
    some (if s.all Char.isDigit then some (s, .number (.integer (decimalValue s))) else none)
  numericLiteral s := if s.all Char.isDigit then some (.integer (decimalValue s)) else none

/-- A `VARIANT` that keeps the value it is made of. -/
def plainVariants : VariantEngine Params.Value where
  toVariant v := v
  getValue v := v
  lossless _ := rfl

def pagedText : Str :=
  "a GET '/a' FORMAT CSV PARAM n INTEGER DEFAULT 5 GE 1 PARAM q DEFAULT NULL PARAM t HEADER AS SELECT $n, $q, $t".toList

def pagedRoute : RouteRecord where
  name := "a".toList
  method := "GET".toList
  pattern := "/a".toList
  handlerSql := "SELECT $n, $q, $t".toList
  status := 200
  requireAuth := []
  params :=
    [{ name := "n".toList, typeName := "INTEGER".toList, hasDefault := true, defaultRaw := "5".toList
       defaultVariant := .number (.integer 5), hasGe := true, ge := .number (.integer 1) },
     { name := "q".toList, hasDefault := true, defaultIsNull := true },
     { name := "t".toList, source := .header }]
  responseFormat := "csv".toList

theorem create_route_planned_paged :
    applyRouteBind plainVariants (routeDdlPlan plainVariants ⟨"CREATE".toList, false, pagedRoute⟩) =
        some ⟨"CREATE".toList, false, pagedRoute⟩ ∧
      ∀ p ∈ pagedRoute.params, p.hasDefault = false → p.defaultVariant = .null :=
  @create_route_planned _ plainVariants digitsEngine false pagedText ⟨"CREATE".toList, false, pagedRoute⟩
    (by decide +kernel)

def twiceDefaultText : Str := "a GET '/a' PARAM n DEFAULT 5 DEFAULT NULL AS SELECT $n".toList

/-- The 5 is still in the record, and not in the plan. -/
def twiceDefaultRoute : RouteRecord where
  name := "a".toList
  method := "GET".toList
  pattern := "/a".toList
  handlerSql := "SELECT $n".toList
  status := 200
  requireAuth := []
  params :=
    [{ name := "n".toList, hasDefault := true, defaultIsNull := true, defaultVariant := .number (.integer 5) }]

theorem earlier_variant_dropped :
    createRouteData digitsEngine false twiceDefaultText = .ok ⟨"CREATE".toList, false, twiceDefaultRoute⟩ ∧
      applyRouteBind plainVariants (routeDdlPlan plainVariants ⟨"CREATE".toList, false, twiceDefaultRoute⟩) ≠
        some ⟨"CREATE".toList, false, twiceDefaultRoute⟩ := by
  decide +kernel

end Quackapi.Ddl
