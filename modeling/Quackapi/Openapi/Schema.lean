import Quackapi.Openapi.Text
import Quackapi.Params.Request

/-! Types as OpenAPI schemas, and the schema of a declared parameter. What the engine says of a
handler, and the texts it makes of values, are given. -/

namespace Quackapi.Openapi
open Library
open Params (ParamSpec ParamDefault)

/-- A type of a result or a parameter, as far as its schema depends on it. -/
inductive LogicalType
  | boolean
  | tinyint | smallint | integer | utinyint | usmallint | uinteger
  | bigint | ubigint | hugeint
  | float | double | decimal
  | date | time | timeTz
  | timestamp | timestampTz | timestampSec | timestampMs | timestampNs
  | list (child : LogicalType)
  | struct (children : List (Str × LogicalType))
  | map | union | variant | varchar | blob | uuid | unknown
  /-- Another type, by its name. -/
  | other (text : Str)

def typeSchema (type : String) : Str := jsonObject [("type".toList, jsonString type.toList)]

def formatSchema (type format : String) : Str :=
  jsonObject [("type".toList, jsonString type.toList), ("format".toList, jsonString format.toList)]

def otherSchema (text : Str) : Str :=
  let name := lower text
  if name = "json".toList ∨ "struct".toList.isPrefixOf name = true ∨
      "map".toList.isPrefixOf name = true then typeSchema "object"
  else typeSchema "string"

mutual

def duckTypeToOas : LogicalType → Str
  | .boolean => typeSchema "boolean"
  | .tinyint | .smallint | .integer | .utinyint | .usmallint | .uinteger => typeSchema "integer"
  | .bigint | .ubigint | .hugeint => formatSchema "integer" "int64"
  | .float | .double => formatSchema "number" "double"
  | .decimal => typeSchema "number"
  | .date => formatSchema "string" "date"
  | .time | .timeTz => formatSchema "string" "time"
  | .timestamp | .timestampTz | .timestampSec | .timestampMs | .timestampNs =>
    formatSchema "string" "date-time"
  | .list child => jsonObject
      [("type".toList, jsonString "array".toList), ("items".toList, duckTypeToOas child)]
  | .struct children => jsonObject
      [("type".toList, jsonString "object".toList),
        ("properties".toList, jsonObject (duckChildren children))]
  | .map | .union => typeSchema "object"
  | .variant => jsonObject []
  | .varchar | .blob => typeSchema "string"
  | .uuid => formatSchema "string" "uuid"
  | .unknown => otherSchema "UNKNOWN".toList
  | .other text => otherSchema text

def duckChildren : List (Str × LogicalType) → List (Str × Str)
  | [] => []
  | child :: children => duckChild child :: duckChildren children

def duckChild : Str × LogicalType → Str × Str
  | (name, type) => (name, duckTypeToOas type)

end

/-- Text stands for what the planner does not know. -/
def paramTypeToOas : LogicalType → Str
  | .unknown | .varchar => typeSchema "string"
  | type => duckTypeToOas type

def LogicalType.isVariant : LogicalType → Bool
  | .variant => true
  | _ => false

def LogicalType.isVarchar : LogicalType → Bool
  | .varchar => true
  | _ => false

/-- A statement that prepares: its result, and its named parameters with the types it expects. -/
structure Prepared where
  columns : List (Str × LogicalType)
  expectedTypes : Params.CiMap LogicalType
  namedParams : List Str

structure DocEngine where
  prepare : Str → Option Prepared
  /-- The alias of a query of one expression. -/
  selectAlias : Str → Option Str
  /-- A numeric literal's value as text. -/
  numberText : Params.Number → Str
  /-- A text cast to a type, as text. -/
  castText : LogicalType → Str → Option Str

def documentedType (t : Str) : Option LogicalType :=
  if t = "INTEGER".toList ∨ t = "INT".toList then some .integer
  else if t = "BIGINT".toList then some .bigint
  else if t = "SMALLINT".toList then some .smallint
  else if t = "TINYINT".toList then some .tinyint
  else if t = "DOUBLE".toList then some .double
  else if t = "FLOAT".toList ∨ t = "REAL".toList then some .float
  else if t = "BOOLEAN".toList ∨ t = "BOOL".toList then some .boolean
  else if t = "VARCHAR".toList ∨ t = "TEXT".toList ∨ t = "STRING".toList then some .varchar
  else if t = "VARIANT".toList then some .variant
  else none

def schemaType (spec : Option ParamSpec) (ptype : LogicalType) : LogicalType :=
  match spec with
  | none => ptype
  | some s => if s.typeName.isEmpty then ptype else (documentedType (upper s.typeName)).getD ptype

def hasNumericParamBounds (s : ParamSpec) : Bool :=
  s.ge.isSome || s.gt.isSome || s.le.isSome || s.lt.isSome

def hasLengths (s : ParamSpec) : Bool := s.minLength.isSome || s.maxLength.isSome

def notSchema : Str := jsonObject [("not".toList, jsonObject [])]

/-- Text is no number, and what has a length is none either: no `VARIANT` meets such a declaration. -/
def isImpossible (ptype : LogicalType) (spec : Option ParamSpec) (textWire : Bool) : Bool :=
  ptype.isVariant && spec.any hasNumericParamBounds && (textWire || spec.any hasLengths)

def baseSchema (ptype : LogicalType) (spec : Option ParamSpec) (textWire : Bool) : Str :=
  if isImpossible ptype spec textWire then notSchema
  else if !textWire && ptype.isVariant && spec.any hasNumericParamBounds then typeSchema "number"
  else if !textWire && ptype.isVariant && spec.any hasLengths then typeSchema "string"
  else if textWire && ptype.isVariant then typeSchema "string"
  else paramTypeToOas ptype

def isUnprintable (text : Str) : Bool :=
  decide (text = "nan".toList ∨ text = "inf".toList ∨ text = "-inf".toList)

def variantDefaultJson (e : DocEngine) : ParamDefault → Str
  | .null => "null".toList
  | .literal _ (.text s) => jsonString s
  | .literal _ (.boolean b) => (toString b).toList
  | .literal _ (.number n) =>
    let text := lower (e.numberText n)
    if isUnprintable text then [] else text
  | .literal _ _ => []

def appendSome (schema name : Str) : Option Str → Str
  | none => schema
  | some value => appendOasProperty schema name value

def appendBounds (e : DocEngine) (s : ParamSpec) (schema : Str) : Str :=
  let schema := appendSome schema "minimum".toList (s.ge.map e.numberText)
  let schema := appendSome schema "exclusiveMinimum".toList (s.gt.map e.numberText)
  let schema := appendSome schema "maximum".toList (s.le.map e.numberText)
  let schema := appendSome schema "exclusiveMaximum".toList (s.lt.map e.numberText)
  let schema := appendSome schema "minLength".toList (s.minLength.map (Nat.toDigits 10))
  appendSome schema "maxLength".toList (s.maxLength.map (Nat.toDigits 10))

/-- A null is allowed by a second alternative, where the schema is of a body; elsewhere by a keyword. -/
def appendNullable (ptype : LogicalType) (textWire : Bool) (schema : Str) : ParamDefault → Str
  | .null =>
    if !textWire && ptype.isVariant then
      openObject [("anyOf".toList, jsonArray [schema ++ ['\x7d'], typeSchema "null"])]
    else appendOasProperty schema "nullable".toList "true".toList
  | .literal _ _ => schema

/-- The value under `default`; none for what has no JSON text. -/
def defaultJson (e : DocEngine) (ptype : LogicalType) (d : ParamDefault) : Option Str :=
  if ptype.isVariant then
    let value := variantDefaultJson e d
    if value.isEmpty then none else some value
  else
    match d with
    | .null => some "null".toList
    | .literal raw _ =>
      if ptype.isVarchar then some (jsonString raw)
      else (e.castText ptype raw).bind fun cast =>
        if isUnprintable (lower cast) then none else some (lower cast)

def appendDefault (e : DocEngine) (ptype : LogicalType) (s : ParamSpec) (textWire : Bool)
    (schema : Str) : Str :=
  match s.default with
  | none => schema
  | some d =>
    appendSome (appendNullable ptype textWire schema d) "default".toList (defaultJson e ptype d)

/-- `ParamSchema`; the schema of a text, or of a member of the body. -/
def paramSchema (e : DocEngine) (ptype : LogicalType) (spec : Option ParamSpec) (textWire : Bool) :
    Str :=
  let ptype := schemaType spec ptype
  let schema := baseSchema ptype spec textWire
  match spec with
  | none => schema
  | some s =>
    let schema := schema.dropLast
    let schema := if isImpossible ptype spec textWire then schema else appendBounds e s schema
    appendDefault e ptype s textWire schema ++ ['\x7d']

/-- No structure in the type has two fields of one name; those of a row without names have one. -/
inductive DistinctNames : LogicalType → Prop
  | flat {type : LogicalType} (hlist : ∀ child, type ≠ .list child)
      (hstruct : ∀ children, type ≠ .struct children) : DistinctNames type
  | list {child : LogicalType} (h : DistinctNames child) : DistinctNames (.list child)
  | struct {children : List (Str × LogicalType)} (hnames : (children.map Prod.fst).Nodup)
      (h : ∀ child ∈ children, DistinctNames child.2) : DistinctNames (.struct children)

theorem duckChildren_eq (children : List (Str × LogicalType)) :
    duckChildren children = children.map fun child => (child.1, duckTypeToOas child.2) := by
  induction children with
  | nil => rfl
  | cons child children ih =>
    obtain ⟨name, type⟩ := child
    rw [duckChildren, List.map_cons, ih, duckChild]

def transformName : Str := "x-duckdb-json-transform".toList

/-- The properties that are added to schemas, in the order a declaration adds them. -/
def addedNames : List Str :=
  ["minimum".toList, "exclusiveMinimum".toList, "maximum".toList, "exclusiveMaximum".toList,
    "minLength".toList, "maxLength".toList, "nullable".toList, "default".toList, transformName]

def IsSchema (schema : Str) : Prop :=
  ∃ fields, schema = jsonObject fields ∧ (fields.map Prod.fst).Nodup ∧
    (∀ name ∈ addedNames, name ∉ fields.map Prod.fst) ∧ ∀ f ∈ fields, WellFormed f.2

theorem IsSchema.wellFormed {schema : Str} (h : IsSchema schema) : WellFormed schema := by
  obtain ⟨fields, rfl, hkeys, _, hvalues⟩ := h
  exact wellFormed_object hkeys hvalues

theorem isSchema_empty : IsSchema (jsonObject []) := ⟨[], rfl, List.nodup_nil, nofun, nofun⟩

theorem isSchema_single {a s : Str} (ha : ∀ name ∈ addedNames, name ∉ [a]) (hs : WellFormed s) :
    IsSchema (jsonObject [(a, s)]) :=
  ⟨_, rfl, List.nodup_singleton _, ha, List.forall_mem_singleton.mpr hs⟩

theorem isSchema_pair {a b s t : Str} (hab : [a, b].Nodup) (hfree : ∀ name ∈ addedNames, name ∉ [a, b])
    (hs : WellFormed s) (ht : WellFormed t) : IsSchema (jsonObject [(a, s), (b, t)]) :=
  ⟨_, rfl, hab, hfree, List.forall_mem_cons.mpr ⟨hs, List.forall_mem_singleton.mpr ht⟩⟩

theorem isSchema_typeSchema (type : String) : IsSchema (typeSchema type) := by
  have hfree : ∀ name ∈ addedNames, name ∉ ["type".toList] := by decide
  exact isSchema_single hfree (wellFormed_string _)

theorem isSchema_formatSchema (type format : String) : IsSchema (formatSchema type format) :=
  isSchema_pair (by decide) (by decide) (wellFormed_string _) (wellFormed_string _)

theorem isSchema_otherSchema (text : Str) : IsSchema (otherSchema text) := by
  dsimp only [otherSchema]
  split
  · exact isSchema_typeSchema _
  · exact isSchema_typeSchema _

theorem isSchema_duckTypeToOas {type : LogicalType} (h : DistinctNames type) :
    IsSchema (duckTypeToOas type) := by
  induction h with
  | @flat type hlist hstruct =>
    cases type with
    | list child => exact absurd rfl (hlist child)
    | struct children => exact absurd rfl (hstruct children)
    | boolean | tinyint | smallint | integer | utinyint | usmallint | uinteger | decimal | map | union
    | varchar | blob => exact isSchema_typeSchema _
    | bigint | ubigint | hugeint | float | double | date | time | timeTz | timestamp | timestampTz
    | timestampSec | timestampMs | timestampNs | uuid => exact isSchema_formatSchema _ _
    | variant => exact isSchema_empty
    | unknown => exact isSchema_otherSchema _
    | other text => exact isSchema_otherSchema text
  | list _ ih =>
    rw [duckTypeToOas]
    exact isSchema_pair (by decide) (by decide) (wellFormed_string _) ih.wellFormed
  | @struct children hnames _ ih =>
    have hprops : WellFormed (jsonObject (duckChildren children)) := by
      rw [duckChildren_eq]
      refine wellFormed_object ?_ fun f hf => ?_
      · rwa [List.map_map]
      · obtain ⟨child, hchild, rfl⟩ := List.mem_map.mp hf
        exact (ih child hchild).wellFormed
    rw [duckTypeToOas]
    exact isSchema_pair (by decide) (by decide) (wellFormed_string _) hprops

theorem isSchema_baseSchema {type : LogicalType} (h : DistinctNames type) (spec : Option ParamSpec)
    (textWire : Bool) : IsSchema (baseSchema type spec textWire) := by
  have htype : IsSchema (paramTypeToOas type) := by
    unfold paramTypeToOas
    split
    · exact isSchema_typeSchema _
    · exact isSchema_typeSchema _
    · exact isSchema_duckTypeToOas h
  unfold baseSchema
  split_ifs
  · exact isSchema_single (by decide) isSchema_empty.wellFormed
  · exact isSchema_typeSchema _
  · exact isSchema_typeSchema _
  · exact isSchema_typeSchema _
  · exact htype

def OpenFor (free : List Str) (schema : Str) : Prop :=
  ∃ fields, schema = openObject fields ∧ (fields.map Prod.fst).Nodup ∧
    (∀ name ∈ free, name ∉ fields.map Prod.fst) ∧ ∀ f ∈ fields, WellFormed f.2

theorem OpenFor.close {free : List Str} {schema : Str} (h : OpenFor free schema) :
    WellFormed (schema ++ ['\x7d']) := by
  obtain ⟨fields, rfl, hkeys, _, hvalues⟩ := h
  exact wellFormed_object hkeys hvalues

theorem OpenFor.tail {name : Str} {free : List Str} {schema : Str}
    (h : OpenFor (name :: free) schema) : OpenFor free schema := by
  obtain ⟨fields, hschema, hkeys, hfree, hvalues⟩ := h
  exact ⟨fields, hschema, hkeys, fun n hn => hfree n (List.mem_cons_of_mem _ hn), hvalues⟩

theorem OpenFor.append {name value : Str} {free : List Str} {schema : Str}
    (h : OpenFor (name :: free) schema) (hname : name ∉ free) (hvalue : WellFormed value) :
    OpenFor free (appendOasProperty schema name value) := by
  obtain ⟨fields, rfl, hkeys, hfree, hvalues⟩ := h
  refine ⟨fields ++ [(name, value)], append_openObject fields name value, ?_, ?_, ?_⟩
  · rw [List.map_append, List.nodup_append]
    refine ⟨hkeys, List.nodup_singleton _, ?_⟩
    intro a ha b hb he
    rw [he, List.mem_singleton.mp hb] at ha
    exact hfree name List.mem_cons_self ha
  · intro n hn hmem
    rw [List.map_append, List.mem_append] at hmem
    rcases hmem with hmem | hmem
    · exact hfree n (List.mem_cons_of_mem _ hn) hmem
    · rw [List.mem_singleton.mp hmem] at hn
      exact hname hn
  · intro f hf
    rcases List.mem_append.mp hf with hf | hf
    · exact hvalues f hf
    · rw [List.mem_singleton.mp hf]
      exact hvalue

theorem OpenFor.appendSome {name : Str} {value : Option Str} {free : List Str} {schema : Str}
    (h : OpenFor (name :: free) schema) (hname : name ∉ free)
    (hvalue : ∀ v ∈ value, WellFormed v) : OpenFor free (appendSome schema name value) := by
  rcases value with _ | v
  · exact h.tail
  · exact h.append hname (hvalue v rfl)

theorem IsSchema.openFor {schema : Str} (h : IsSchema schema) : OpenFor addedNames schema.dropLast := by
  obtain ⟨fields, rfl, hkeys, hfree, hvalues⟩ := h
  exact ⟨fields, dropLast_jsonObject fields, hkeys, hfree, hvalues⟩

/-- What the engine makes of bounds and defaults is JSON, and no structure repeats a name. -/
structure SchemaSound (e : DocEngine) (ptype : LogicalType) (spec : Option ParamSpec)
    (textWire : Bool) : Prop where
  type : DistinctNames (schemaType spec ptype)
  bounds : isImpossible (schemaType spec ptype) spec textWire = false →
    ∀ s ∈ spec, ∀ b ∈ s.bounds, WellFormed (e.numberText b.2)
  default : ∀ s ∈ spec, ∀ d ∈ s.default, ∀ text ∈ defaultJson e (schemaType spec ptype) d,
    WellFormed text

theorem wellFormed_numeral (n : Nat) : WellFormed (Nat.toDigits 10 n) :=
  wellFormed_word (.inr (.inr (.inr (isNumber_toDigits n))))

theorem wellFormed_map {α : Type} {o : Option α} {f : α → Str} (h : ∀ a ∈ o, WellFormed (f a)) :
    ∀ v ∈ o.map f, WellFormed v := by
  intro v hv
  obtain ⟨a, ha, rfl⟩ := Option.map_eq_some_iff.mp hv
  exact h a ha

theorem openFor_appendBounds {e : DocEngine} {s : ParamSpec} {schema : Str}
    (hbounds : ∀ b ∈ s.bounds, WellFormed (e.numberText b.2)) (h : OpenFor addedNames schema) :
    OpenFor ["nullable".toList, "default".toList, transformName] (appendBounds e s schema) := by
  obtain ⟨hge, hgt, hle, hlt⟩ :=
    (Params.mem_bounds (p := fun b => WellFormed (e.numberText b.2))).mp hbounds
  have h := h.appendSome (by decide) (wellFormed_map hge)
  have h := h.appendSome (by decide) (wellFormed_map hgt)
  have h := h.appendSome (by decide) (wellFormed_map hle)
  have h := h.appendSome (by decide) (wellFormed_map hlt)
  have h := h.appendSome (by decide) (wellFormed_map (o := s.minLength) fun n _ => wellFormed_numeral n)
  exact h.appendSome (by decide) (wellFormed_map (o := s.maxLength) fun n _ => wellFormed_numeral n)

theorem openFor_appendNullable {ptype : LogicalType} {textWire : Bool} {schema : Str}
    (h : OpenFor ["nullable".toList, "default".toList, transformName] schema) (d : ParamDefault) :
    OpenFor ["default".toList, transformName] (appendNullable ptype textWire schema d) := by
  cases d with
  | null =>
    dsimp only [appendNullable]
    split
    · have hfree : ∀ name ∈ ["default".toList, transformName], name ∉ ["anyOf".toList] := by decide
      refine ⟨_, rfl, List.nodup_singleton _, hfree, List.forall_mem_singleton.mpr ?_⟩
      refine wellFormed_array (List.forall_mem_cons.mpr ⟨h.close, ?_⟩)
      exact List.forall_mem_singleton.mpr (isSchema_typeSchema _).wellFormed
    · exact h.append (by decide) (wellFormed_word (.inl rfl))
  | literal raw v => exact h.tail

theorem OpenFor.drop {schema : Str} (names : List Str) {free : List Str}
    (h : OpenFor (names ++ free) schema) : OpenFor free schema := by
  induction names with
  | nil => exact h
  | cons name names ih => exact ih h.tail

theorem wellFormed_paramSchema {e : DocEngine} {ptype : LogicalType} {spec : Option ParamSpec}
    {textWire : Bool} (h : SchemaSound e ptype spec textWire) :
    WellFormed (paramSchema e ptype spec textWire) := by
  have hbase := isSchema_baseSchema h.type spec textWire
  rcases spec with _ | s
  · exact hbase.wellFormed
  · have hopen : OpenFor ["nullable".toList, "default".toList, transformName]
        (if isImpossible (schemaType (some s) ptype) (some s) textWire then
          (baseSchema (schemaType (some s) ptype) (some s) textWire).dropLast
        else appendBounds e s (baseSchema (schemaType (some s) ptype) (some s) textWire).dropLast) := by
      split
      · exact hbase.openFor.drop (addedNames.take 6)
      · next himpossible =>
        exact openFor_appendBounds
          (h.bounds (Bool.eq_false_iff.mpr himpossible) s rfl) hbase.openFor
    show WellFormed (appendDefault e (schemaType (some s) ptype) s textWire _ ++ ['\x7d'])
    rw [appendDefault]
    rcases hd : s.default with _ | d
    · exact hopen.close
    · exact ((openFor_appendNullable hopen d).appendSome (by decide)
        (h.default s rfl d hd)).close

end Quackapi.Openapi
