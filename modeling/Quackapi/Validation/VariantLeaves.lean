import Quackapi.Library.FirstMatch
import Quackapi.Openapi.Text
import Quackapi.Validation.Grammar

/-! The `VARIANT` leaves of a `BODY TYPE`: declared as `JSON` for the transformation, and put back into
the type that it has. -/

namespace Quackapi.Validation
open Params Library

def isVariantName (name : Str) : Bool := upper (trim name) == "VARIANT".toList

mutual
def transformNodeHasVariant : JsonNode → Bool
  | .string scalar => isVariantName scalar
  | .array children => childrenHaveVariant children
  | .object members => membersHaveVariant members
  | _ => false

def childrenHaveVariant : List JsonNode → Bool
  | [] => false
  | child :: children => transformNodeHasVariant child || childrenHaveVariant children

def membersHaveVariant : List (Str × JsonNode) → Bool
  | [] => false
  | member :: members => memberHasVariant member || membersHaveVariant members

def memberHasVariant : Str × JsonNode → Bool
  | (_, node) => transformNodeHasVariant node
end

def findTransformMember (members : List (Str × JsonNode)) (name : Str) : Option JsonNode :=
  (members.find? fun m => ciEquals m.1 name).map Prod.snd

/-- A type of the engine; the ones without a part to restore are the engine's own. -/
inductive LogicalType (α : Type)
  | variant
  | list (child : LogicalType α)
  | array (child : LogicalType α) (size : Nat)
  | struct (names : List Str) (children : List (LogicalType α))
  | other (type : α)

section
variable {α : Type}

mutual
def restoreVariantLeaves (intermediateType : LogicalType α) (declaration : JsonNode) : LogicalType α :=
  match declaration with
  | .string scalar => if isVariantName scalar then .variant else intermediateType
  | .object members =>
    match intermediateType with
    | .struct names children => .struct names (restoreChildren members names children)
    | type => type
  | .array (first :: _) =>
    match intermediateType with
    | .list child => .list (restoreVariantLeaves child first)
    | .array child size => .array (restoreVariantLeaves child first) size
    | type => type
  | _ => intermediateType

def restoreChildren (members : List (Str × JsonNode)) :
    List Str → List (LogicalType α) → List (LogicalType α)
  | name :: names, child :: children =>
    (match findTransformMember members name with
      | some declared => restoreVariantLeaves child declared
      | none => child) :: restoreChildren members names children
  | _, children => children
end

/-- `QuackapiDuckdbTransformHasVariant`. -/
def transformHasVariant (bodyType : Str) : Bool :=
  match parseDocument bodyType with
  | some structure' => transformNodeHasVariant structure'
  | none => false

/-- `QuackapiDuckdbTransformVariantLeavesAsJson`. -/
def transformVariantLeavesAsJson (bodyType : Str) : Option Str :=
  match parseDocument bodyType with
  | some structure' =>
    if transformNodeHasVariant structure' then some (serializeTransformNode true structure') else none
  | none => none

/-- `QuackapiDuckdbTransformRestoreVariantLeaves`. -/
def transformRestoreVariantLeaves (intermediateType : LogicalType α) (bodyType : Str) :
    Option (LogicalType α) :=
  match parseDocument bodyType with
  | some structure' =>
    if transformNodeHasVariant structure' then some (restoreVariantLeaves intermediateType structure')
    else none
  | none => none

/-- What a `BODY TYPE` declares: a leaf names a type. -/
inductive Declaration
  | leaf (name : Str)
  | list (child : Declaration)
  | struct (names : List Str) (children : List Declaration)

namespace Declaration

mutual
def json : Declaration → Json
  | .leaf name => .string name
  | .list child => .array [child.json]
  | .struct names children => .object (names.zip (jsons children))

def jsons : List Declaration → List Json
  | [] => []
  | d :: ds => d.json :: jsons ds
end

mutual
/-- The type a declaration stands for, where `named` says which type has a name. -/
def type (named : Str → LogicalType α) : Declaration → LogicalType α
  | .leaf name => if isVariantName name then .variant else named name
  | .list child => .list (child.type named)
  | .struct names children => .struct names (types named children)

def types (named : Str → LogicalType α) : List Declaration → List (LogicalType α)
  | [] => []
  | d :: ds => d.type named :: types named ds
end

mutual
/-- The declaration with `JSON` for every `VARIANT`. -/
def variantsAsJson : Declaration → Declaration
  | .leaf name => .leaf (if isVariantName name then "JSON".toList else name)
  | .list child => .list child.variantsAsJson
  | .struct names children => .struct names (allVariantsAsJson children)

def allVariantsAsJson : List Declaration → List Declaration
  | [] => []
  | d :: ds => d.variantsAsJson :: allVariantsAsJson ds
end

mutual
def leaves : Declaration → List Str
  | .leaf name => [name]
  | .list child => child.leaves
  | .struct _ children => allLeaves children

def allLeaves : List Declaration → List Str
  | [] => []
  | d :: ds => d.leaves ++ allLeaves ds
end

mutual
/-- Every member has a name, and no two have one that differs only in case. -/
def WellNamed : Declaration → Prop
  | .leaf _ => True
  | .list child => child.WellNamed
  | .struct names children =>
    names.length = children.length ∧ (names.map lower).Nodup ∧ AllWellNamed children

def AllWellNamed : List Declaration → Prop
  | [] => True
  | d :: ds => d.WellNamed ∧ AllWellNamed ds
end

/-- Some leaf is `VARIANT`, in any case and with space around it. -/
def HasVariantLeaf (d : Declaration) : Prop := ∃ name ∈ d.leaves, upper (trim name) = "VARIANT".toList

end Declaration

theorem isVariantName_iff (name : Str) :
    isVariantName name = true ↔ upper (trim name) = "VARIANT".toList :=
  beq_iff_eq

namespace Declaration

theorem length_jsons (ds : List Declaration) : (jsons ds).length = ds.length := by
  induction ds with
  | nil => rfl
  | cons d ds ih => rw [jsons, List.length_cons, List.length_cons, ih]

mutual
theorem hasVariant_iff : ∀ d : Declaration, d.WellNamed →
    (transformNodeHasVariant (nodeOf d.json) = true ↔ d.HasVariantLeaf)
  | .leaf name, _ => by
    rw [json, nodeOf, transformNodeHasVariant, isVariantName_iff, HasVariantLeaf, leaves]
    simp only [List.mem_singleton, exists_eq_left]
  | .list child, h => by
    have hchild := hasVariant_iff child h
    rw [json, nodeOf, transformNodeHasVariant, nodesOf, nodesOf, childrenHaveVariant,
      childrenHaveVariant, Bool.or_false, hchild]
    rfl
  | .struct names children, ⟨hlength, _, h⟩ => by
    rw [json, nodeOf, transformNodeHasVariant, membersHaveVariant_iff children h hlength]
    rfl

theorem membersHaveVariant_iff : ∀ (ds : List Declaration) {names : List Str}, AllWellNamed ds →
    names.length = ds.length →
    (membersHaveVariant (memberNodesOf (names.zip (jsons ds))) = true ↔
      ∃ name ∈ allLeaves ds, upper (trim name) = "VARIANT".toList)
  | [], _, _, _ => by
    rw [jsons, List.zip_nil_right, memberNodesOf, membersHaveVariant]
    exact iff_of_false nofun fun ⟨_, hname, _⟩ => nomatch hname
  | d :: ds, [], _, hlength => nomatch hlength
  | d :: ds, name :: names, ⟨hd, hds⟩, hlength => by
    have hfirst := hasVariant_iff d hd
    have hrest := membersHaveVariant_iff ds hds (Nat.succ.inj hlength)
    rw [jsons, List.zip_cons_cons, memberNodesOf, membersHaveVariant, memberNodeOf, memberHasVariant,
      Bool.or_eq_true, hfirst, hrest, HasVariantLeaf, allLeaves]
    simp only [List.mem_append, or_and_right, exists_or]
end

theorem joined_eq_commaed (texts : List Str) : joined true texts = commaed texts := by
  have hfalse : ∀ t (ts : List Str), joined false (t :: ts) = ',' :: joined true (t :: ts) :=
    fun _ _ => rfl
  induction texts with
  | nil => rfl
  | cons t texts ih =>
    cases texts with
    | nil =>
      rw [commaed_singleton]
      exact List.append_nil t
    | cons u texts =>
      rw [commaed_cons_cons, ← ih, ← hfalse]
      rfl

theorem serialize_array_eq (children : List JsonNode) : serializeTransformNode true (.array children) =
    Openapi.jsonArray (children.map (serializeTransformNode true)) := by
  rw [serialize_array, joined_eq_commaed]
  rfl

theorem serialize_object_eq (members : List (Str × JsonNode)) :
    serializeTransformNode true (.object members) =
      Openapi.jsonObject (members.map fun m => (m.1, serializeTransformNode true m.2)) := by
  have hmember : serializeMember true =
      Openapi.jsonMember ∘ fun m => (m.1, serializeTransformNode true m.2) := by
    funext ⟨key, node⟩
    rfl
  rw [serialize_object, joined_eq_commaed, Openapi.jsonObject, Openapi.openObject, List.map_map,
    hmember]

theorem serialize_leaf (name : Str) : serializeTransformNode true (.string name) =
    jsonString (if isVariantName name then "JSON".toList else name) := by
  rw [serializeTransformNode, Bool.true_and, isVariantName]
  split <;> rfl

theorem memberNodes_zip (names : List Str) (js : List Json) :
    memberNodesOf (names.zip js) = names.zip (nodesOf js) := by
  have hmember : memberNodeOf = Prod.map id nodeOf := by
    funext ⟨key, j⟩
    rfl
  rw [memberNodesOf_eq_map, nodesOf_eq_map, List.zip_map_right, hmember]

mutual
theorem readsAs_serialize : ∀ d : Declaration,
    Openapi.ReadsAs (serializeTransformNode true (nodeOf d.json)) d.variantsAsJson.json
  | .leaf name => by
    rw [json, nodeOf, variantsAsJson, json, serialize_leaf]
    exact Openapi.readsAs_string _
  | .list child => by
    rw [json, nodeOf, variantsAsJson, json, serialize_array_eq]
    exact Openapi.readsAs_array_forall₂ (.cons (readsAs_serialize child) .nil)
  | .struct names children => by
    rw [json, nodeOf, variantsAsJson, json, serialize_object_eq, memberNodes_zip]
    have hmembers := Openapi.readsAs_struct names (readsAs_serializeChildren children)
    rwa [List.zip_map_right] at hmembers

theorem readsAs_serializeChildren : ∀ ds : List Declaration, List.Forall₂ Openapi.ReadsAs
    ((nodesOf (jsons ds)).map (serializeTransformNode true)) (jsons (allVariantsAsJson ds))
  | [] => .nil
  | d :: ds => .cons (readsAs_serialize d) (readsAs_serializeChildren ds)
end

theorem findTransformMember_zip {names : List Str} {nodes : List JsonNode}
    (hlength : names.length = nodes.length) (hnames : (names.map lower).Nodup) {name : Str}
    {node : JsonNode} (h : (name, node) ∈ names.zip nodes) :
    findTransformMember (names.zip nodes) name = some node := by
  have hkeys : ((names.zip nodes).map fun m : Str × JsonNode => lower m.1).Nodup := by
    have hfst : (names.zip nodes).map (fun m : Str × JsonNode => lower m.1) = names.map lower := by
      rw [show (fun m : Str × JsonNode => lower m.1) = lower ∘ Prod.fst from rfl, ← List.map_map,
        List.map_fst_zip hlength.le]
    rwa [hfst]
  have hequal : (fun m : Str × JsonNode => ciEquals m.1 name) =
      fun m => decide (lower m.1 = lower name) := by
    funext m
    rw [ciEquals, beq_eq_decide]
  have hfind := (findKey_eq_some_iff hkeys).mpr ⟨h, rfl⟩
  rw [findTransformMember, hequal]
  exact congrArg (Option.map Prod.snd) hfind

mutual
theorem restore_type (named : Str → LogicalType α) : ∀ d : Declaration, d.WellNamed →
    restoreVariantLeaves (d.variantsAsJson.type named) (nodeOf d.json) = d.type named
  | .leaf name, _ => by
    rw [json, nodeOf, restoreVariantLeaves, variantsAsJson, type, type]
    by_cases hname : isVariantName name = true
    · rw [if_pos hname, if_pos hname]
    · rw [if_neg hname, if_neg hname, if_neg hname]
  | .list child, h => by
    rw [json, nodeOf, nodesOf, variantsAsJson, type, type, restoreVariantLeaves,
      restore_type named child h]
  | .struct names children, ⟨hlength, hnames, h⟩ => by
    rw [json, nodeOf, memberNodes_zip, variantsAsJson, type, type, restoreVariantLeaves]
    have hzip : names.length = (nodesOf (jsons children)).length := by
      rw [nodesOf_eq_map, List.length_map, length_jsons, hlength]
    rw [restoreChildren_types named _ children h hlength fun p hp =>
      findTransformMember_zip hzip hnames hp]

theorem restoreChildren_types (named : Str → LogicalType α) (members : List (Str × JsonNode)) :
    ∀ (ds : List Declaration) {names : List Str}, AllWellNamed ds → names.length = ds.length →
      (∀ p ∈ names.zip (nodesOf (jsons ds)), findTransformMember members p.1 = some p.2) →
      restoreChildren members names (types named (allVariantsAsJson ds)) = types named ds
  | [], names, _, _, _ => by
    rw [allVariantsAsJson, types]
    cases names <;> rfl
  | d :: ds, [], _, hlength, _ => nomatch hlength
  | d :: ds, name :: names, ⟨hd, hds⟩, hlength, hfind => by
    rw [jsons, nodesOf, List.zip_cons_cons] at hfind
    obtain ⟨hfirst, hrest⟩ := List.forall_mem_cons.mp hfind
    rw [allVariantsAsJson, types, types, restoreChildren, hfirst]
    dsimp only
    rw [restore_type named d hd, restoreChildren_types named members ds hds (Nat.succ.inj hlength) hrest]
end

end Declaration

/-- A declaration of at most 128 levels, in any text, shows its variants and gets them back. -/
theorem variant_leaves_survive (named : Str → LogicalType α) (d : Declaration) (hnamed : d.WellNamed)
    (hlevels : Within maxNestingDepth d.json) (text : Str) (htext : Openapi.ReadsAs text d.json) :
    (transformHasVariant text = true ↔ d.HasVariantLeaf) ∧
      (d.HasVariantLeaf → ∃ normalized, transformVariantLeavesAsJson text = some normalized ∧
        (∀ j, Openapi.ReadsAs normalized j ↔ j = d.variantsAsJson.json) ∧
        transformRestoreVariantLeaves (d.variantsAsJson.type named) text = some (d.type named)) := by
  have hread := parseDocument_jsonText htext hlevels
  have hvariant := d.hasVariant_iff hnamed
  constructor
  · rw [transformHasVariant, hread]
    exact hvariant
  · intro hleaf
    have hnode := hvariant.mpr hleaf
    refine ⟨serializeTransformNode true (nodeOf d.json), ?_, ?_, ?_⟩
    · rw [transformVariantLeavesAsJson, hread]
      exact if_pos hnode
    · exact JsonText.iff_eq d.readsAs_serialize
    · rw [transformRestoreVariantLeaves, hread]
      dsimp only
      rw [if_pos hnode, Declaration.restore_type named d hnamed]

end

/-- A struct with a variant in it, after a list without one. -/
theorem variant_leaves_survive_struct :
    let d : Declaration :=
      .struct ["id".toList, "v".toList] [.list (.leaf "BIGINT".toList), .leaf " variant".toList]
    let text := "\x7b\"id\":[\"BIGINT\"],\"v\":\" variant\"\x7d".toList
    (transformHasVariant text = true ↔ d.HasVariantLeaf) ∧
      (d.HasVariantLeaf → ∃ normalized, transformVariantLeavesAsJson text = some normalized ∧
        (∀ j, Openapi.ReadsAs normalized j ↔ j = d.variantsAsJson.json) ∧
        transformRestoreVariantLeaves (d.variantsAsJson.type LogicalType.other) text =
          some (d.type LogicalType.other)) := by
  intro d text
  have htext : Openapi.ReadsAs text d.json :=
    Openapi.readsAs_struct ["id".toList, "v".toList]
      (.cons (Openapi.readsAs_array_forall₂ (.cons (Openapi.readsAs_string "BIGINT".toList) .nil))
        (.cons (Openapi.readsAs_string " variant".toList) .nil))
  have hlevels : Within maxNestingDepth d.json := by
    refine .object (List.forall_mem_cons.mpr ⟨.array ?_, List.forall_mem_singleton.mpr (.string _)⟩)
    exact List.forall_mem_singleton.mpr (.string _)
  exact variant_leaves_survive LogicalType.other d ⟨rfl, by decide, trivial, trivial, trivial⟩ hlevels
    text htext

/-- Lists within lists, and a variant in the last. -/
def nestedVariant : Nat → Declaration
  | 0 => .leaf "VARIANT".toList
  | n + 1 => .list (nestedVariant n)

def nestedText : Nat → Str
  | 0 => jsonString "VARIANT".toList
  | n + 1 => Openapi.jsonArray [nestedText n]

theorem readsAs_nestedText (n : Nat) : Openapi.ReadsAs (nestedText n) (nestedVariant n).json := by
  induction n with
  | zero => exact Openapi.readsAs_string _
  | succ n ih => exact Openapi.readsAs_array_forall₂ (.cons ih .nil)

theorem nestedText_succ_append (n : Nat) (rest : Str) :
    nestedText (n + 1) ++ rest = '[' :: (nestedText n ++ ']' :: rest) := by
  rw [nestedText, Openapi.jsonArray, commaed_singleton, List.cons_append, List.append_assoc]
  rfl

theorem parseValue_nestedText (levels : Nat) (rest : Str) :
    parseValue levels (nestedText (levels + 1) ++ rest) = none := by
  induction levels generalizing rest with
  | zero =>
    rw [nestedText_succ_append]
    exact parseValueWith_cons none (by decide) _
  | succ levels ih =>
    have hopens : nestedText (levels + 1) ++ ']' :: rest =
        '[' :: (nestedText levels ++ ']' :: ']' :: rest) := nestedText_succ_append levels _
    have hitem := ih (']' :: rest)
    rw [hopens] at hitem
    have hitems : ∀ fuel, parseItems (parseValue levels) ']' fuel
        ('[' :: (nestedText levels ++ ']' :: ']' :: rest)) = none := by
      intro fuel
      cases fuel with
      | zero => rfl
      | succ fuel => rw [parseItems, hitem]; rfl
    rw [nestedText_succ_append, parseValue, parseValueWith_cons _ (by decide), if_neg (by decide),
      if_neg (by decide), if_pos rfl, Option.bind_some, parseArray, parseSequence,
      consume_cons (by decide), hopens]
    dsimp only [Option.bind_eq_bind, Option.bind_some]
    rw [skipWhitespace_of_not (by decide)]
    dsimp only
    rw [if_neg (by decide), hitems]
    rfl

theorem leaves_nestedVariant (n : Nat) : (nestedVariant n).leaves = ["VARIANT".toList] := by
  induction n with
  | zero => rfl
  | succ n ih => exact ih

theorem wellNamed_nestedVariant (n : Nat) : (nestedVariant n).WellNamed := by
  induction n with
  | zero => trivial
  | succ n ih => exact ih

/-- Under 129 lists the variant is not seen. -/
theorem deep_variant_not_seen :
    (nestedVariant 129).WellNamed ∧ Openapi.ReadsAs (nestedText 129) (nestedVariant 129).json ∧
      (nestedVariant 129).HasVariantLeaf ∧ transformHasVariant (nestedText 129) = false := by
  refine ⟨wellNamed_nestedVariant 129, readsAs_nestedText 129, ⟨"VARIANT".toList, ?_, by decide⟩, ?_⟩
  · rw [leaves_nestedVariant]
    exact List.mem_singleton_self _
  · have hread := parseValue_nestedText maxNestingDepth []
    rw [List.append_nil] at hread
    rw [transformHasVariant, parseDocument, show nestedText 129 = nestedText (maxNestingDepth + 1) from rfl,
      hread]

end Quackapi.Validation
