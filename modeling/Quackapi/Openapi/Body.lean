import Quackapi.Openapi.Parameters

/-! The body an operation takes: the schema of its route, the declared structure, and the members that
stand for `VARIANT` parameters. -/

namespace Quackapi.Openapi
open Library
open Params (ParamSpec)
open Http (QuackapiRoute)
open Validation (JsonNode)

def int32Names : List Str :=
  ["TINYINT".toList, "SMALLINT".toList, "INTEGER".toList, "INT".toList, "UTINYINT".toList,
    "USMALLINT".toList]

def openNames : List Str := ["JSON".toList, "ANY".toList, "VARIANT".toList]

def transformScalarToOpenApi (declaredType : Str) : Str :=
  let type := upper (Params.trim declaredType)
  if type = "BOOLEAN".toList ∨ type = "BOOL".toList then typeSchema "boolean"
  else if type ∈ int32Names then formatSchema "integer" "int32"
  else if type = "BIGINT".toList ∨ type = "UINTEGER".toList then formatSchema "integer" "int64"
  else if type = "HUGEINT".toList ∨ type = "UBIGINT".toList ∨ type = "UHUGEINT".toList then
    typeSchema "integer"
  else if type = "FLOAT".toList ∨ type = "REAL".toList then formatSchema "number" "float"
  else if type = "DOUBLE".toList ∨ "DECIMAL".toList.isPrefixOf type = true ∨
      "NUMERIC".toList.isPrefixOf type = true then typeSchema "number"
  else if type = "DATE".toList then formatSchema "string" "date"
  else if "TIMESTAMP".toList.isPrefixOf type = true then formatSchema "string" "date-time"
  else if type = "UUID".toList then formatSchema "string" "uuid"
  else if type ∈ openNames then jsonObject []
  else typeSchema "string"

mutual

/-- The items of a list are described by its first element. -/
def transformNodeToOpenApi : JsonNode → Str
  | .string scalar => transformScalarToOpenApi scalar
  | .array children => jsonObject
      [("type".toList, jsonString "array".toList), ("items".toList, transformItems children)]
  | .object members => jsonObject
      [("type".toList, jsonString "object".toList),
        ("properties".toList, jsonObject (transformMembers members))]
  | .nil => jsonObject []
  | .bool _ => jsonObject []
  | .number _ => jsonObject []

def transformItems : List JsonNode → Str
  | [] => jsonObject []
  | child :: _ => transformNodeToOpenApi child

def transformMembers : List (Str × JsonNode) → List (Str × Str)
  | [] => []
  | member :: members => transformMember member :: transformMembers members

def transformMember : Str × JsonNode → Str × Str
  | (name, node) => (name, transformNodeToOpenApi node)

end

/-- `QuackapiDuckdbTransformToOpenApi`. -/
def duckdbTransformToOpenApi (bodyType : Str) : Str :=
  match Validation.parseDocument bodyType with
  | none => jsonObject []
  | some node => transformNodeToOpenApi node

def variantBodySpecs (route : QuackapiRoute) (namedParams : List Str) : List ParamSpec :=
  route.params.filter (hasVariantBodyAlternative route namedParams)

def variantBodyRequiredProps (specs : List ParamSpec) : List Str :=
  (specs.filter fun s => s.default.isNone && hasNumericParamBounds s).map ParamSpec.name

def variantBodyProperties (e : DocEngine) (specs : List ParamSpec) : List (Str × Str) :=
  specs.map fun s => (s.name, paramSchema e .variant (some s) false)

def variantBodyOverlay (e : DocEngine) (specs : List ParamSpec) : Str :=
  if specs.isEmpty then []
  else
    let required := variantBodyRequiredProps specs
    jsonObject ([("type".toList, jsonString "object".toList),
      ("properties".toList, jsonObject (variantBodyProperties e specs))] ++
      if required.isEmpty then []
      else [("required".toList, jsonArray (required.map jsonString))])

def hasDeclaredBodySchema (route : QuackapiRoute) : Bool :=
  !route.bodySchema.isEmpty || !route.bodyType.isEmpty

def allOf (schemas : List Str) : Str × Str := ("allOf".toList, jsonArray schemas)

/-- The declared type joins its own schema, which is reopened at its closing brace. -/
def typedBodySchema (bodyType : Str) : Str :=
  let schema := duckdbTransformToOpenApi bodyType
  let transform := (transformName, jsonString bodyType)
  if 1 < schema.length ∧ schema.getLast? = some '\x7d' then
    schema.dropLast ++ ',' :: (jsonMember transform ++ ['\x7d'])
  else jsonObject [transform]

def declaredBodySchema (route : QuackapiRoute) : Str :=
  if !route.bodySchema.isEmpty && !route.bodyType.isEmpty then
    jsonObject [allOf [route.bodySchema, duckdbTransformToOpenApi route.bodyType],
      (transformName, jsonString route.bodyType)]
  else if !route.bodySchema.isEmpty then route.bodySchema
  else typedBodySchema route.bodyType

def fullBodySchema (route : QuackapiRoute) (overlay : Str) : Str :=
  if !hasDeclaredBodySchema route then overlay
  else
    let schema := declaredBodySchema route
    if overlay.isEmpty then schema
    else if schema.isEmpty then overlay
    else jsonObject [allOf [schema, overlay]]

def bodyDescription (specs : List ParamSpec) : Str :=
  if specs.isEmpty then []
  else if !(variantBodyRequiredProps specs).isEmpty then
    "A JSON body is required for numeric-constrained VARIANT parameters.".toList
  else if specs.any fun s => s.default.isNone then
    ("VARIANT values may also be supplied as text parameters; at least one required value must be " ++
      "present. Text parameters take precedence when both locations provide a value.").toList
  else
    ("VARIANT values may be supplied as text parameters or JSON body values; defaults apply when " ++
      "omitted, and text parameters take precedence when both locations provide a value.").toList

def requestBody (e : DocEngine) (route : QuackapiRoute) (specs : List ParamSpec) : Str :=
  let schema := fullBodySchema route (variantBodyOverlay e specs)
  let required := hasDeclaredBodySchema route || !(variantBodyRequiredProps specs).isEmpty
  jsonObject ([("required".toList, jsonBool required)] ++ descriptionField (bodyDescription specs) ++
    [("content".toList, jsonObject
      [("application/json".toList, jsonObject [("schema".toList, schema)])])])

def requestBodyField (e : DocEngine) (route : QuackapiRoute) (prepared : Prepared) : List (Str × Str) :=
  let specs := variantBodySpecs route prepared.namedParams
  if !hasDeclaredBodySchema route && (variantBodyOverlay e specs).isEmpty then []
  else [("requestBody".toList, requestBody e route specs)]

/-- No object that the schema of a declared structure shows has two members of one name. -/
inductive DistinctMembers : JsonNode → Prop
  | leaf {node : JsonNode} (harray : ∀ children, node ≠ .array children)
      (hobject : ∀ members, node ≠ .object members) : DistinctMembers node
  | array {children : List JsonNode} (h : ∀ child ∈ children.head?, DistinctMembers child) :
      DistinctMembers (.array children)
  | object {members : List (Str × JsonNode)} (hnames : (members.map Prod.fst).Nodup)
      (h : ∀ m ∈ members, DistinctMembers m.2) : DistinctMembers (.object members)

def isOpenNode : JsonNode → Bool
  | .string scalar => decide (upper (Params.trim scalar) ∈ openNames)
  | .array _ => false
  | .object _ => false
  | .nil => true
  | .bool _ => true
  | .number _ => true

structure BodySound (e : DocEngine) (route : QuackapiRoute) (specs : List ParamSpec) : Prop where
  names : (specs.map ParamSpec.name).Nodup
  schemas : ∀ s ∈ specs, SchemaSound e .variant (some s) false
  schema : route.bodySchema ≠ [] → WellFormed route.bodySchema
  type : ∀ node, Validation.parseDocument route.bodyType = some node → DistinctMembers node
  /-- A type on its own is one whose schema says something. -/
  described : route.bodySchema = [] → route.bodyType ≠ [] →
    ∃ node, Validation.parseDocument route.bodyType = some node ∧ isOpenNode node = false

theorem transformMembers_eq (members : List (Str × JsonNode)) :
    transformMembers members = members.map fun m => (m.1, transformNodeToOpenApi m.2) := by
  induction members with
  | nil => rfl
  | cons m members ih =>
    obtain ⟨name, node⟩ := m
    rw [transformMembers, List.map_cons, ih, transformMember]

/-- The schema of a scalar: a type, a type with a format, or that of any value. -/
inductive ScalarSchema (declaredType : Str) : Str → Prop
  | type (type : String) : ScalarSchema declaredType (typeSchema type)
  | format (type format : String) : ScalarSchema declaredType (formatSchema type format)
  | any (h : upper (Params.trim declaredType) ∈ openNames) : ScalarSchema declaredType (jsonObject [])

theorem scalarSchema_ite {declaredType s t : Str} {p : Prop} [Decidable p]
    (hs : p → ScalarSchema declaredType s) (ht : ScalarSchema declaredType t) :
    ScalarSchema declaredType (if p then s else t) := by
  split
  · next h => exact hs h
  · exact ht

theorem scalarSchema_transformScalar (declaredType : Str) :
    ScalarSchema declaredType (transformScalarToOpenApi declaredType) := by
  refine scalarSchema_ite (fun _ => .type _) (scalarSchema_ite (fun _ => .format _ _) ?_)
  refine scalarSchema_ite (fun _ => .format _ _) (scalarSchema_ite (fun _ => .type _) ?_)
  refine scalarSchema_ite (fun _ => .format _ _) (scalarSchema_ite (fun _ => .type _) ?_)
  refine scalarSchema_ite (fun _ => .format _ _) (scalarSchema_ite (fun _ => .format _ _) ?_)
  exact scalarSchema_ite (fun _ => .format _ _) (scalarSchema_ite .any (.type _))

theorem isSchema_transformScalar (declaredType : Str) :
    IsSchema (transformScalarToOpenApi declaredType) := by
  have hscalar := scalarSchema_transformScalar declaredType
  generalize transformScalarToOpenApi declaredType = schema at hscalar
  cases hscalar with
  | type type => exact isSchema_typeSchema type
  | format type format => exact isSchema_formatSchema type format
  | any => exact isSchema_empty

theorem isSchema_transformNode {node : JsonNode} (h : DistinctMembers node) :
    IsSchema (transformNodeToOpenApi node) := by
  induction h with
  | @leaf node harray hobject =>
    cases node with
    | array children => exact absurd rfl (harray children)
    | object members => exact absurd rfl (hobject members)
    | string scalar =>
      rw [transformNodeToOpenApi]
      exact isSchema_transformScalar scalar
    | nil | bool _ | number _ => exact isSchema_empty
  | @array children _ ih =>
    have hitems : WellFormed (transformItems children) := by
      rcases children with _ | ⟨child, children⟩
      · exact isSchema_empty.wellFormed
      · exact (ih child rfl).wellFormed
    rw [transformNodeToOpenApi]
    exact isSchema_pair (by decide) (by decide) (wellFormed_string _) hitems
  | @object members hnames _ ih =>
    have hprops : WellFormed (jsonObject (transformMembers members)) := by
      rw [transformMembers_eq]
      refine wellFormed_object ?_ fun f hf => ?_
      · rwa [List.map_map]
      · obtain ⟨m, hm, rfl⟩ := List.mem_map.mp hf
        exact (ih m hm).wellFormed
    rw [transformNodeToOpenApi]
    exact isSchema_pair (by decide) (by decide) (wellFormed_string _) hprops

theorem transformNode_ne_empty {node : JsonNode} (h : isOpenNode node = false) :
    transformNodeToOpenApi node ≠ jsonObject [] := by
  cases node with
  | nil | bool _ | number _ => cases h
  | array children =>
    rw [transformNodeToOpenApi]
    exact jsonObject_cons_ne _ _
  | object members =>
    rw [transformNodeToOpenApi]
    exact jsonObject_cons_ne _ _
  | string scalar =>
    have hlisted : upper (Params.trim scalar) ∉ openNames := of_decide_eq_false h
    have hscalar := scalarSchema_transformScalar scalar
    rw [transformNodeToOpenApi]
    generalize transformScalarToOpenApi scalar = schema at hscalar
    cases hscalar with
    | type | format => exact jsonObject_cons_ne _ _
    | any hany => exact absurd hany hlisted

theorem isSchema_duckdbTransform {bodyType : Str}
    (h : ∀ node, Validation.parseDocument bodyType = some node → DistinctMembers node) :
    IsSchema (duckdbTransformToOpenApi bodyType) := by
  unfold duckdbTransformToOpenApi
  split
  · exact isSchema_empty
  · next node hnode => exact isSchema_transformNode (h node hnode)

theorem wellFormed_typedBodySchema {bodyType : Str}
    (htype : ∀ node, Validation.parseDocument bodyType = some node → DistinctMembers node)
    (hdescribed : ∃ node, Validation.parseDocument bodyType = some node ∧ isOpenNode node = false) :
    WellFormed (typedBodySchema bodyType) := by
  obtain ⟨node, hnode, hopen⟩ := hdescribed
  have hne : duckdbTransformToOpenApi bodyType ≠ jsonObject [] := by
    rw [duckdbTransformToOpenApi, hnode]
    exact transformNode_ne_empty hopen
  obtain ⟨fields, hschema, hkeys, hfree, hvalues⟩ := isSchema_duckdbTransform htype
  obtain ⟨f, fields, rfl⟩ := List.exists_cons_of_ne_nil (l := fields) fun hnil =>
    hne (by rw [hschema, hnil])
  have hgrown := append_openObject (f :: fields) transformName (jsonString bodyType)
  have hlength : 1 < (openObject (f :: fields)).length :=
    Nat.succ_lt_succ (List.length_pos_iff.mpr (commaed_members_ne_nil f fields))
  have htext : typedBodySchema bodyType =
      jsonObject (f :: fields ++ [(transformName, jsonString bodyType)]) := by
    have hlong : 1 < (jsonObject (f :: fields)).length := by
      rw [jsonObject, List.length_append]
      omega
    have hlast : (jsonObject (f :: fields)).getLast? = some '\x7d' := List.getLast?_concat ..
    rw [appendOasProperty, if_pos hlength] at hgrown
    unfold typedBodySchema
    rw [hschema, if_pos ⟨hlong, hlast⟩, dropLast_jsonObject, jsonObject, ← hgrown]
    simp only [List.append_assoc, List.cons_append, List.nil_append]
  have hsound : OpenFor [] (openObject (f :: fields ++ [(transformName, jsonString bodyType)])) := by
    have hfirst : OpenFor addedNames (openObject (f :: fields)) := ⟨_, rfl, hkeys, hfree, hvalues⟩
    rw [← hgrown]
    exact (hfirst.drop (addedNames.take 8)).append List.not_mem_nil (wellFormed_string _)
  rw [htext]
  exact hsound.close

section Body
variable {e : DocEngine} {route : QuackapiRoute} {specs : List ParamSpec}

theorem wellFormed_allOf {s t : Str} (hs : WellFormed s) (ht : WellFormed t) :
    WellFormed (jsonArray [s, t]) :=
  wellFormed_array (List.forall_mem_cons.mpr ⟨hs, List.forall_mem_singleton.mpr ht⟩)

theorem wellFormed_declaredBodySchema (h : BodySound e route specs)
    (hdeclared : hasDeclaredBodySchema route = true) : WellFormed (declaredBodySchema route) := by
  have hschema : route.bodySchema.isEmpty = false → WellFormed route.bodySchema := fun hne =>
    h.schema (List.isEmpty_eq_false_iff.mp hne)
  unfold declaredBodySchema
  rw [hasDeclaredBodySchema] at hdeclared
  rcases hs : route.bodySchema.isEmpty with _ | _
  · rcases ht : route.bodyType.isEmpty with _ | _
    · have hkeys : ["allOf".toList, transformName].Nodup := by decide
      refine wellFormed_object hkeys ?_
      rw [List.forall_mem_cons]
      exact ⟨wellFormed_allOf (hschema hs) (isSchema_duckdbTransform h.type).wellFormed,
        List.forall_mem_singleton.mpr (wellFormed_string _)⟩
    · exact hschema hs
  · rw [hs] at hdeclared
    have htype : route.bodyType ≠ [] := by
      intro hnil
      rw [hnil] at hdeclared
      cases hdeclared
    exact wellFormed_typedBodySchema h.type (h.described (List.isEmpty_iff.mp hs) htype)

theorem wellFormed_variantBodyOverlay (h : BodySound e route specs) (hne : specs ≠ []) :
    WellFormed (variantBodyOverlay e specs) := by
  have hprops : WellFormed (jsonObject (variantBodyProperties e specs)) := by
    refine wellFormed_object ?_ fun f hf => ?_
    · rw [variantBodyProperties, List.map_map]
      exact h.names
    · obtain ⟨s, hs, rfl⟩ := List.mem_map.mp hf
      exact wellFormed_paramSchema (h.schemas s hs)
  have hrequired : WellFormed (jsonArray ((variantBodyRequiredProps specs).map jsonString)) := by
    refine wellFormed_array fun t ht => ?_
    obtain ⟨name, _, rfl⟩ := List.mem_map.mp ht
    exact wellFormed_string name
  have hkeys : ["type".toList, "properties".toList, "required".toList].Nodup := by decide
  unfold variantBodyOverlay
  rw [if_neg (mt List.isEmpty_iff.mp hne)]
  dsimp only
  split
  · exact wellFormed_object (hkeys.sublist (List.sublist_append_left [_, _] [_]))
      (List.forall_mem_cons.mpr ⟨wellFormed_string _, List.forall_mem_singleton.mpr hprops⟩)
  · refine wellFormed_object hkeys ?_
    rw [List.forall_mem_append, List.forall_mem_cons]
    exact ⟨⟨wellFormed_string _, List.forall_mem_singleton.mpr hprops⟩,
      List.forall_mem_singleton.mpr hrequired⟩

theorem variantBodyOverlay_isEmpty (hne : specs ≠ []) :
    (variantBodyOverlay e specs).isEmpty = false := by
  unfold variantBodyOverlay
  rw [if_neg (mt List.isEmpty_iff.mp hne)]
  rfl

theorem wellFormed_fullBodySchema (h : BodySound e route specs)
    (hbody : hasDeclaredBodySchema route = true ∨ specs ≠ []) :
    WellFormed (fullBodySchema route (variantBodyOverlay e specs)) := by
  unfold fullBodySchema
  rcases hdeclared : hasDeclaredBodySchema route with _ | _
  · have hne := hbody.resolve_left (by rw [hdeclared]; exact Bool.false_ne_true)
    exact wellFormed_variantBodyOverlay h hne
  · have hschema := wellFormed_declaredBodySchema h hdeclared
    rw [if_neg (by decide)]
    dsimp only
    by_cases hne : specs = []
    · have hnone : (variantBodyOverlay e specs).isEmpty = true := by
        rw [hne]
        rfl
      rw [if_pos hnone]
      exact hschema
    · have hoverlay := wellFormed_variantBodyOverlay h hne
      rw [variantBodyOverlay_isEmpty hne, if_neg Bool.false_ne_true]
      split
      · exact hoverlay
      · exact wellFormed_single (wellFormed_allOf hschema hoverlay)

theorem wellFormed_requestBody (h : BodySound e route specs)
    (hbody : hasDeclaredBodySchema route = true ∨ specs ≠ []) :
    WellFormed (requestBody e route specs) := by
  have hkeys : ["required".toList, "description".toList, "content".toList].Nodup := by decide
  exact wellFormed_described hkeys
    (List.forall_mem_singleton.mpr (wellFormed_jsonBool _))
    (List.forall_mem_singleton.mpr (wellFormed_single (wellFormed_single (wellFormed_fullBodySchema h hbody))))

theorem wellFormed_requestBodyField {prepared : Prepared}
    (h : BodySound e route (variantBodySpecs route prepared.namedParams)) :
    ∀ f ∈ requestBodyField e route prepared, WellFormed f.2 := by
  dsimp only [requestBodyField]
  split
  · exact nofun
  · next hsome =>
    refine List.forall_mem_singleton.mpr (wellFormed_requestBody h ?_)
    by_contra hnone
    obtain ⟨hdeclared, hspecs⟩ := not_or.mp hnone
    rw [not_not] at hspecs
    refine hsome ?_
    rw [hspecs, Bool.eq_false_iff.mpr hdeclared]
    rfl

end Body

end Quackapi.Openapi
