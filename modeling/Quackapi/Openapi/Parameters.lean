import Quackapi.Http.Routes
import Quackapi.Openapi.Schema

/-! The parameters the document lists for a route: those of its pattern, then the named parameters of
its handler, each where its declaration says a request has it. -/

namespace Quackapi.Openapi
open Library
open Params (ParamSpec ParamSource Loc)
open Http (QuackapiRoute)

def listContains (list : List Str) (name : Str) : Bool := list.any fun s => lower s == lower name

def pathParamNames (pattern : Str) : List Str :=
  (Params.splitPath pattern).filterMap Params.segmentCapture

/-- `/items/:id` is `/items/{id}` to OpenAPI. -/
def oasSegment : Str → Str
  | ':' :: name => '\x7b' :: (name ++ ['\x7d'])
  | ps => ps

def oasPath (pattern : Str) : Str :=
  let out := (if pattern.head? = some '/' then [] else ['/']) ++
    (Params.splitPath pattern).flatMap fun ps => '/' :: oasSegment ps
  if out.isEmpty then ['/'] else out

def isClaimsParamName (name : Str) : Bool :=
  "claims_".toList.isPrefixOf (lower name) && decide (7 < name.length)

def isVariantParam (s : ParamSpec) : Bool := ciEquals s.typeName "VARIANT".toList

def bodyCapable (route : QuackapiRoute) : Bool :=
  decide (route.method = "POST".toList ∨ route.method = "PUT".toList ∨ route.method = "PATCH".toList)

/-- A `VARIANT` that a JSON body may bring as well. -/
def hasVariantBodyAlternative (route : QuackapiRoute) (namedParams : List Str) (s : ParamSpec) : Bool :=
  bodyCapable route && isVariantParam s && decide (s.source ≠ .header) && decide (s.source ≠ .cookie) &&
    !listContains (pathParamNames route.pattern) s.name && s.externalName.isEmpty &&
    listContains namedParams s.name

structure DocParam where
  name : Str
  loc : Loc
  required : Bool
  /-- Left out where it is empty. -/
  description : Str
  schema : Str

def jsonBool (b : Bool) : Str := (toString b).toList

def descriptionField (description : Str) : List (Str × Str) :=
  if description.isEmpty then [] else [("description".toList, jsonString description)]

def DocParam.text (p : DocParam) : Str :=
  jsonObject ([("name".toList, jsonString p.name), ("in".toList, jsonString p.loc.text),
    ("required".toList, jsonBool p.required)] ++ descriptionField p.description ++
    [("schema".toList, p.schema)])

/-- A type the planner does not tell is taken for text. -/
def documentedParamType (prepared : Prepared) (name : Str) : LogicalType :=
  (prepared.expectedTypes.find name).getD .varchar

def documentedParamSchema (e : DocEngine) (route : QuackapiRoute) (prepared : Prepared) (name : Str) :
    Str :=
  paramSchema e (documentedParamType prepared name) (Params.findParamSpec route.params name) true

def pathDocParam (e : DocEngine) (route : QuackapiRoute) (prepared : Prepared) (name : Str) :
    DocParam where
  name := name
  loc := .path
  required := true
  description := []
  schema := documentedParamSchema e route prepared name

def oasLoc : Option ParamSpec → Loc
  | none => .query
  | some s =>
    match s.source with
    | .query => .query
    | .header => .header
    | .cookie => .cookie

def oasName (spec : Option ParamSpec) (name : Str) : Str :=
  match spec with
  | none => name
  | some s =>
    if !s.externalName.isEmpty || decide (s.source ≠ .query) then Params.paramWireName s else name

def inputDescription (s : ParamSpec) : Str :=
  if hasNumericParamBounds s then
    "Text input cannot satisfy numeric VARIANT bounds; supply a JSON number in the request body.".toList
  else if s.default.isSome then
    "May be supplied as a text parameter or JSON body value; the parameter value takes precedence.".toList
  else
    ("Supply this value as a parameter or in the JSON body; at least one is required, and the " ++
      "parameter takes precedence.").toList

def namedDocParam (e : DocEngine) (route : QuackapiRoute) (prepared : Prepared) (name : Str) :
    DocParam :=
  let spec := Params.findParamSpec route.params name
  let alternative := spec.filter (hasVariantBodyAlternative route prepared.namedParams)
  { name := oasName spec name
    loc := oasLoc spec
    required := !(spec.bind ParamSpec.default).isSome && alternative.isNone
    description := (alternative.map inputDescription).getD []
    schema := documentedParamSchema e route prepared name }

/-- The named parameters listed behind those of the pattern; claims are the server's. -/
def listedNames (route : QuackapiRoute) (prepared : Prepared) : List Str :=
  prepared.namedParams.filter fun n =>
    !(isClaimsParamName n || listContains (pathParamNames route.pattern) n)

def docParams (e : DocEngine) (route : QuackapiRoute) (prepared : Prepared) : List DocParam :=
  (pathParamNames route.pattern).map (pathDocParam e route prepared) ++
    (listedNames route prepared).map (namedDocParam e route prepared)

def paramsJson (e : DocEngine) (route : QuackapiRoute) (prepared : Prepared) : Str :=
  jsonArray ((docParams e route prepared).map DocParam.text)

def ParamsSound (e : DocEngine) (route : QuackapiRoute) (prepared : Prepared) : Prop :=
  ∀ name ∈ pathParamNames route.pattern ++ listedNames route prepared,
    SchemaSound e (documentedParamType prepared name) (Params.findParamSpec route.params name) true

theorem wellFormed_jsonBool (b : Bool) : WellFormed (jsonBool b) := by
  cases b with
  | false => exact wellFormed_word (.inr (.inl rfl))
  | true => exact wellFormed_word (.inl rfl)

theorem wellFormed_described {before after : List (Str × Str)} {description : Str}
    (hkeys : (before.map Prod.fst ++ "description".toList :: after.map Prod.fst).Nodup)
    (hbefore : ∀ f ∈ before, WellFormed f.2) (hafter : ∀ f ∈ after, WellFormed f.2) :
    WellFormed (jsonObject (before ++ descriptionField description ++ after)) := by
  have hdescription : ∀ f ∈ descriptionField description, WellFormed f.2 := by
    unfold descriptionField
    split
    · exact nofun
    · exact List.forall_mem_singleton.mpr (wellFormed_string _)
  have hsub : ((before ++ descriptionField description ++ after).map Prod.fst).Sublist
      (before.map Prod.fst ++ "description".toList :: after.map Prod.fst) := by
    rw [List.append_assoc, List.map_append, List.map_append]
    refine (List.Sublist.refl _).append ?_
    unfold descriptionField
    split
    · exact List.sublist_cons_self _ _
    · exact List.Sublist.refl _
  refine wellFormed_object (hkeys.sublist hsub) fun f hf => ?_
  rcases List.mem_append.mp hf with hf | hf
  · rcases List.mem_append.mp hf with hf | hf
    · exact hbefore f hf
    · exact hdescription f hf
  · exact hafter f hf

theorem DocParam.wellFormed_text {p : DocParam} (h : WellFormed p.schema) : WellFormed p.text := by
  have hkeys : ["name".toList, "in".toList, "required".toList, "description".toList,
      "schema".toList].Nodup := by decide
  refine wellFormed_described hkeys ?_ (List.forall_mem_singleton.mpr h)
  rw [List.forall_mem_cons, List.forall_mem_cons]
  exact ⟨wellFormed_string _, wellFormed_string _,
    List.forall_mem_singleton.mpr (wellFormed_jsonBool _)⟩

theorem wellFormed_paramsJson {e : DocEngine} {route : QuackapiRoute} {prepared : Prepared}
    (h : ParamsSound e route prepared) : WellFormed (paramsJson e route prepared) := by
  refine wellFormed_array fun t ht => ?_
  obtain ⟨p, hp, rfl⟩ := List.mem_map.mp ht
  refine DocParam.wellFormed_text ?_
  rcases List.mem_append.mp hp with hp | hp
  · obtain ⟨name, hname, rfl⟩ := List.mem_map.mp hp
    exact wellFormed_paramSchema (h name (List.mem_append_left _ hname))
  · obtain ⟨name, hname, rfl⟩ := List.mem_map.mp hp
    exact wellFormed_paramSchema (h name (List.mem_append_right _ hname))

end Quackapi.Openapi
