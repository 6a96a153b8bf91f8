import Quackapi.Graphql.Execute

/-! The schema against the execution: what one lists, the other should let through. The two apply the
same allowlist and the same catalog, but for a caller who is known the schema asks no policy. -/

namespace Quackapi.Graphql
open Library Policy

def GraphqlCatalogObject.qualifiedName (object : GraphqlCatalogObject) : QualifiedName :=
  ⟨object.databaseName, object.schemaName, object.objectName⟩

/-- Expressions without a child: columns, `*`, a constant. -/
inductive IsLeaves : Ast (.list .expr) → Prop
  | nil : IsLeaves .nil
  | cons (label : Str) {tail : Ast (.list .expr)} (h : IsLeaves tail) :
      IsLeaves (.cons (.otherExpr label .nil) tail)

/-- A `SELECT` of columns from one table, with a limit or not. -/
inductive IsPlainSelect (name : QualifiedName) : Ast .query → Prop
  | mk {columns modifiers : Ast (.list .expr)} (hc : IsLeaves columns) (hm : IsLeaves modifiers) :
      IsPlainSelect name (.select .noCtes (.baseTable name []) columns .nil .absent .absent .absent
        modifiers)

/-- The engine parses a statement generated for the object as one that reads it. -/
def ParsesAs (env : GraphqlEnv) (sql : Str) (object : GraphqlCatalogObject) : Prop :=
  ∃ q, env.parseQuery sql = .select q ∧ IsPlainSelect object.qualifiedName q

/-- What lets a table pass where some table has a policy. -/
structure PolicyAdmits (ctx : PolicyRewriteContext) (name : QualifiedName) : Prop where
  table : ctx.engine.isCatalogView (identityFromName name ctx.engine.defaultCatalog) = some false
  rowBindings : Succeeds (findBinding ctx (identityFromName name ctx.engine.defaultCatalog)
    RowAccessBinding.tableName ctx.rapBindings)
  maskBindings : Succeeds (findBinding ctx (identityFromName name ctx.engine.defaultCatalog)
    MaskingBinding.tableName ctx.maskBindings)
  secured : isBound ctx.toPolicySnapshot (identityFromName name ctx.engine.defaultCatalog) = true →
    ctx.authenticated = true ∧ ∃ q, IsSecureSubquery ctx.toPolicySnapshot name q

/-- The caller may read the table, for all that the policies say. -/
def Readable (ctx : PolicyRewriteContext) (name : QualifiedName) : Prop :=
  (ctx.rapBindings = [] ∧ ctx.maskBindings = []) ∨ PolicyAdmits ctx name

section
variable {ctx : PolicyRewriteContext} {name : QualifiedName}

theorem isCaptured_nil : isCaptured [] name = false := by
  rw [isCaptured, List.reverse_nil, List.any_nil, Bool.and_false]

theorem securedTable_succeeds_iff :
    Succeeds (securedTable ctx name []) ↔
      Succeeds (findBinding ctx (identityFromName name ctx.engine.defaultCatalog)
        RowAccessBinding.tableName ctx.rapBindings) ∧
      Succeeds (findBinding ctx (identityFromName name ctx.engine.defaultCatalog)
        MaskingBinding.tableName ctx.maskBindings) ∧
      (isBound ctx.toPolicySnapshot (identityFromName name ctx.engine.defaultCatalog) = true →
        ctx.authenticated = true ∧ ∃ q, IsSecureSubquery ctx.toPolicySnapshot name q) := by
  constructor
  · rintro ⟨t, ht⟩
    have hsteps := ht
    simp only [securedTable, bind_eq_ok] at hsteps
    obtain ⟨rap, hrap, mask, hmask, _⟩ := hsteps
    refine ⟨⟨rap, hrap⟩, ⟨mask, hmask⟩, fun hbound => ?_⟩
    rcases securedTable_ok ht with ⟨hno, _⟩ | ⟨_, hauth, q, hq, _⟩
    · rw [hbound] at hno
      cases hno
    · exact ⟨hauth, q, hq⟩
  · rintro ⟨⟨rap, hrap⟩, ⟨mask, hmask⟩, hsecured⟩
    have hbound := isBound_eq_false_iff hrap hmask
    simp only [Succeeds, securedTable, hrap, hmask, bind_eq_ok, Except.ok.injEq, exists_eq_left']
    by_cases hnone : rap.isNone = true ∧ mask.isNone = true
    · rw [if_pos hnone]
      exact ⟨_, rfl⟩
    · have hyes : isBound ctx.toPolicySnapshot (identityFromName name ctx.engine.defaultCatalog) =
          true := by
        rw [← Bool.not_eq_false, hbound]
        exact hnone
      obtain ⟨hauth, q, rap', hrap', hq⟩ := hsecured hyes
      obtain ⟨p, authenticated⟩ := ctx
      cases hauth
      cases hrap.symm.trans hrap'
      rw [if_neg hnone]
      refine ⟨.subqueryRef q (refAlias name []), ?_⟩
      simp only [Bool.not_true, Bool.false_eq_true, if_false, hq]
      rfl

theorem rewriteBaseTable_succeeds_iff :
    Succeeds (rewriteBaseTable ctx [] name []) ↔ PolicyAdmits ctx name := by
  rw [rewriteBaseTable, isCaptured_nil, if_neg Bool.false_ne_true]
  split
  · next hview =>
    refine iff_of_false not_succeeds_throw fun h => ?_
    rw [h.table] at hview
    cases hview
  · next hview =>
    refine iff_of_false not_succeeds_throw fun h => ?_
    rw [h.table] at hview
    cases hview
  · next hview =>
    rw [securedTable_succeeds_iff]
    exact ⟨fun h => ⟨hview, h.1, h.2.1, h.2.2⟩,
      fun h => ⟨h.rowBindings, h.maskBindings, h.secured⟩⟩

theorem accepts_leaves {scope : List Str} {t : Ast (.list .expr)} (h : IsLeaves t) :
    Accepts ctx scope t := by
  induction h with
  | nil => trivial
  | cons label _ ih => exact ⟨trivial, ih⟩

theorem accepts_plain {q : Ast .query} (h : IsPlainSelect name q) :
    Accepts ctx [] q ↔ Succeeds (rewriteBaseTable ctx [] name []) := by
  obtain ⟨hcolumns, hmodifiers⟩ := h
  constructor
  · exact fun hq => hq.2.1
  · intro hname
    exact ⟨trivial, hname, accepts_leaves hcolumns, trivial, trivial, trivial, trivial,
      accepts_leaves hmodifiers⟩

theorem executable_iff {q : Ast .query} (h : IsPlainSelect name q) :
    (rewriteHandler ctx (.select q)).executable = true ↔ Readable ctx name := by
  have hadmits : Succeeds (rewritePolicy ctx [] q) ↔ PolicyAdmits ctx name := by
    rw [rewritePolicy_succeeds_iff, accepts_plain h, rewriteBaseTable_succeeds_iff]
  constructor
  · intro hexec
    rcases rewriteHandler_executable hexec with ⟨hrow, hmask, _⟩ | hok
    · exact .inl ⟨hrow, hmask⟩
    · exact .inr (hadmits.mp ⟨_, hok⟩)
  · rintro (⟨hrow, hmask⟩ | hname)
    · rw [rewriteHandler, hrow, hmask]
      rfl
    · obtain ⟨q', hq'⟩ := hadmits.mpr hname
      simp only [rewriteHandler, hq']
      split
      · rfl
      · rfl

end

/-- The tables that may be asked for, at a mount or at the built-in endpoint. -/
def MayQuery (env : GraphqlEnv) (options : GraphqlExecOptions) (table : Str) : Prop :=
  match options.allowedTables with
  | some tables => table ∈ tables
  | none => env.legacyOpen = true ∨ table ∈ env.graphqlTables

def Listed (env : GraphqlEnv) (options : GraphqlExecOptions) (table column : Str) : Prop :=
  ∃ object ∈ (buildGraphqlSchema env options).objects,
    object.objectName = table ∧ column ∈ object.columns

/-- The query of the column gets as far as its `SELECT`. -/
def PassesGates (env : GraphqlEnv) (options : GraphqlExecOptions) (table column : Str) : Prop :=
  (executeGraphqlQuery env options (oneRootQuery table column)).selects ≠ []

def GatesAgree (env : GraphqlEnv) (options : GraphqlExecOptions) (table column : Str) : Prop :=
  Listed env options table column ↔ PassesGates env options table column

/-- The schema's text is within the limit of a response. -/
def SchemaFits (env : GraphqlEnv) (options : GraphqlExecOptions) (catalog : GraphqlCatalog) : Prop :=
  Succeeds (addSchemaEntries options.maxResponseBytes (schemaHead env options) true
    (listedObjects env options catalog))

section
variable {env : GraphqlEnv} {options : GraphqlExecOptions} {catalog : GraphqlCatalog}
  {table column : Str}

theorem isListed_iff {object : GraphqlCatalogObject}
    (hparse : ParsesAs env (discoverySql object) object) :
    isListed env options object = true ↔ MayQuery env options object.objectName ∧
      (options.authenticated = true ∨ Readable ⟨env.policies, false⟩ object.qualifiedName) := by
  obtain ⟨q, hq, hplain⟩ := hparse
  have hcontains : ∀ tables : List Str, (!tables.contains object.objectName) = false ↔
      object.objectName ∈ tables := fun tables => by
    rw [Bool.not_eq_false', List.contains_iff_mem]
  have hallowed : ((options.allowedTables.isSome || !env.legacyOpen) &&
      !(allowedForSchema env options).contains object.objectName) = false ↔
        MayQuery env options object.objectName := by
    unfold MayQuery allowedForSchema
    rcases options.allowedTables with _ | tables
    · cases env.legacyOpen with
      | true => exact iff_of_true rfl (.inl rfl)
      | false =>
        rw [or_iff_right Bool.false_ne_true]
        exact hcontains env.graphqlTables
    · exact hcontains tables
  have htouches : handlerTouchesPoliciedTable env.policies (env.parseQuery (discoverySql object)) =
      false ↔ Readable ⟨env.policies, false⟩ object.qualifiedName := by
    rw [handlerTouchesPoliciedTable, hq, Bool.not_eq_false', executable_iff hplain]
  rw [← hallowed, ← htouches, isListed]
  generalize ((options.allowedTables.isSome || !env.legacyOpen) &&
    !(allowedForSchema env options).contains object.objectName) = refused
  generalize handlerTouchesPoliciedTable env.policies (env.parseQuery (discoverySql object)) =
    touches
  cases refused <;> cases options.authenticated <;> cases touches <;> decide

theorem listed_iff (hload : env.load = .ok catalog) (hdeadline : env.deadlineExpired = false)
    (hfits : SchemaFits env options catalog) :
    Listed env options table column ↔ ∃ object, catalog.find table = some object ∧
      column ∈ object.columns ∧ isListed env options object = true := by
  have hobjects : (buildGraphqlSchema env options).objects = listedObjects env options catalog := by
    obtain ⟨body, hbody⟩ := hfits
    simp only [buildGraphqlSchema, hload, hdeadline, Bool.false_eq_true, if_false, hbody]
  have hmem : ∀ object, object ∈ listedObjects env options catalog ↔
      object ∈ catalog.objects ∧ isListed env options object = true := fun object => by
    rw [listedObjects, List.mem_filter, List.mem_mergeSort]
  have hfind : ∀ object, catalog.find table = some object ↔
      object ∈ catalog.objects ∧ object.objectName = table := fun object =>
    findKey_eq_some_iff catalog.distinct
  unfold Listed
  rw [hobjects]
  constructor
  · rintro ⟨object, hin, hname, hcolumn⟩
    obtain ⟨hcat, hlisted⟩ := (hmem object).mp hin
    exact ⟨object, (hfind object).mpr ⟨hcat, hname⟩, hcolumn, hlisted⟩
  · rintro ⟨object, hobject, hcolumn, hlisted⟩
    obtain ⟨hcat, hname⟩ := (hfind object).mp hobject
    exact ⟨object, (hmem object).mpr ⟨hcat, hlisted⟩, hname, hcolumn⟩

theorem checkAllowed_succeeds_iff :
    Succeeds (checkAllowed env options table) ↔ MayQuery env options table := by
  have hensure : ∀ (p : Bool) (e : Str), Succeeds (ensure p e) ↔ p = true := fun p e =>
    ⟨fun ⟨_, h⟩ => ensure_eq_ok.mp h, fun h => ⟨(), ensure_eq_ok.mpr h⟩⟩
  unfold checkAllowed MayQuery
  rcases options.allowedTables with _ | tables
  · rw [hensure, Bool.or_eq_true, List.contains_iff_mem]
  · rw [hensure, List.contains_iff_mem]

theorem gateField_succeeds_iff {limit : Nat}
    (hparse : ∀ object, catalog.find table = some object →
      ParsesAs env (generatedSql object [column] limit) object) :
    Succeeds (gateField env options catalog limit ⟨table, [column]⟩) ↔
      MayQuery env options table ∧ ∃ object, catalog.find table = some object ∧
        column ∈ object.columns ∧
        Readable ⟨env.policies, options.authenticated⟩ object.qualifiedName := by
  have hcolumns : ∀ object : GraphqlCatalogObject,
      checkColumns object ⟨table, [column]⟩ = .ok () ↔ column ∈ object.columns := fun object => by
    rw [checkColumns, List.find?_singleton, ← List.contains_iff_mem]
    cases object.columns.contains column with
    | true => exact iff_of_true rfl rfl
    | false => exact iff_of_false nofun Bool.false_ne_true
  have hpolicies : ∀ object, catalog.find table = some object →
      (Succeeds (checkPolicies env options (generatedSql object [column] limit) [column]) ↔
        Readable ⟨env.policies, options.authenticated⟩ object.qualifiedName) := fun object hobject => by
    obtain ⟨q, hq, hplain⟩ := hparse object hobject
    rw [← executable_iff hplain, checkPolicies, hq]
    cases (rewriteHandler ⟨env.policies, options.authenticated⟩ (.select q)).executable with
    | true => exact iff_of_true ⟨_, rfl⟩ rfl
    | false => exact iff_of_false not_succeeds_throw Bool.false_ne_true
  have hfind : ∀ object, findObject catalog table = .ok object ↔
      catalog.find table = some object := fun object => by
    unfold findObject
    rcases catalog.find table with _ | found
    · exact iff_of_false nofun nofun
    · rw [Except.ok.injEq, Option.some.injEq]
  refine succeeds_seq checkAllowed_succeeds_iff fun _ => ?_
  rw [succeeds_bind]
  refine exists_congr fun object => ?_
  rw [hfind]
  refine and_congr_right fun hobject => ?_
  rw [succeeds_bind, ← hcolumns object, ← hpolicies object hobject]
  exact ⟨fun ⟨_, h⟩ => h, fun h => ⟨(), h⟩⟩

theorem selects_iff (fields : List GraphqlField) (limit : Nat) (data : Str) (first : Bool)
    (field : GraphqlField) :
    (runFields env options catalog limit data first (field :: fields)).selects ≠ [] ↔
      Succeeds (gateField env options catalog limit field) := by
  rw [runFields]
  split
  · next e herror =>
    refine iff_of_false (fun h => h rfl) ?_
    rintro ⟨select, hselect⟩
    rw [hselect] at herror
    cases herror
  · next select hselect =>
    refine iff_of_true ?_ ⟨select, hselect⟩
    split
    · exact List.cons_ne_nil _ _
    · next rows _ =>
      generalize data ++ (if first then [] else ",".toList) ++ jsonString field.name ++
        ":".toList ++ rows = text
      dsimp only
      split
      · exact List.cons_ne_nil _ _
      · exact List.cons_ne_nil _ _

/-- Where the two gates agree on a column that the caller may ask for. The schema asks the policies
for nobody only, and knows nothing of the names the parser keeps. -/
def GateCondition (env : GraphqlEnv) (options : GraphqlExecOptions) (catalog : GraphqlCatalog)
    (table column : Str) : Prop :=
  MayQuery env options table → ∀ object, catalog.find table = some object →
    column ∈ object.columns →
    if options.authenticated then
      isIntrospection table = false ∧ Readable ⟨env.policies, true⟩ object.qualifiedName
    else isIntrospection table = false ∨ ¬ Readable ⟨env.policies, false⟩ object.qualifiedName

theorem passesGates_iff (htable : isGraphqlName table = true) (hcolumn : isGraphqlName column = true)
    (hlength : (oneRootQuery table column).length ≤ graphqlMaxDocumentBytes)
    (hload : env.load = .ok catalog) (hdeadline : env.deadlineExpired = false)
    (hparse : ∀ object, catalog.find table = some object → ParsesAs env
      (generatedSql object [column] (rowLimit options [⟨table, [column]⟩])) object) :
    PassesGates env options table column ↔ isIntrospection table = false ∧
      MayQuery env options table ∧ ∃ object, catalog.find table = some object ∧
        column ∈ object.columns ∧
        Readable ⟨env.policies, options.authenticated⟩ object.qualifiedName := by
  unfold PassesGates executeGraphqlQuery
  rw [parse_oneRoot htable hcolumn hlength]
  cases isIntrospection table with
  | true => exact iff_of_false (fun h => h rfl) fun h => nomatch h.1
  | false =>
    simp only [Bool.false_eq_true, if_false, hload, hdeadline, true_and]
    rw [selects_iff, gateField_succeeds_iff hparse]

/-- The schema lists what the execution lets through exactly under the condition. -/
theorem gates_agree_iff (htable : isGraphqlName table = true)
    (hcolumn : isGraphqlName column = true)
    (hlength : (oneRootQuery table column).length ≤ graphqlMaxDocumentBytes)
    (hload : env.load = .ok catalog) (hdeadline : env.deadlineExpired = false)
    (hfits : SchemaFits env options catalog)
    (hdiscovery : ∀ object, catalog.find table = some object →
      ParsesAs env (discoverySql object) object)
    (hgenerated : ∀ object, catalog.find table = some object → ParsesAs env
      (generatedSql object [column] (rowLimit options [⟨table, [column]⟩])) object) :
    GatesAgree env options table column ↔ GateCondition env options catalog table column := by
  rw [GatesAgree, listed_iff hload hdeadline hfits,
    passesGates_iff htable hcolumn hlength hload hdeadline hgenerated, GateCondition]
  rcases hfind : catalog.find table with _ | object
  · refine iff_of_true (iff_of_false ?_ ?_) fun _ => nofun
    · rintro ⟨_, h, _⟩
      cases h
    · rintro ⟨_, _, _, h, _⟩
      cases h
  have hname : object.objectName = table := (findKey_eq_some hfind).2
  have hlisted : isListed env options object = true ↔
      MayQuery env options object.objectName ∧
        (options.authenticated = true ∨ Readable ⟨env.policies, false⟩ object.qualifiedName) :=
    isListed_iff (hdiscovery object hfind)
  rw [hname] at hlisted
  simp only [Option.some.injEq, exists_eq_left', forall_eq', hlisted]
  by_cases hmay : MayQuery env options table
  · by_cases hin : column ∈ object.columns
    · -- the allowlist and the catalog agree: what is left are the policies and the kept names
      cases hauth : options.authenticated with
      | true =>
        simp only [hmay, hin, true_and, true_or, if_true, forall_const, true_iff]
      | false =>
        simp only [hmay, hin, true_and, Bool.false_eq_true, false_or, if_false, forall_const]
        rw [iff_and_self]
        exact imp_iff_or_not
    · exact iff_of_true (iff_of_false (fun h => hin h.1) fun h => hin h.2.2.1) fun _ h => absurd h hin
  · exact iff_of_true (iff_of_false (fun h => hmay h.2.1) fun h => hmay h.2.1) fun h => absurd h hmay

end

def mainObject (name : String) : GraphqlCatalogObject :=
  ⟨"memory".toList, "main".toList, name.toList, ["id".toList]⟩

def mainCatalog : GraphqlCatalog where
  objects := [mainObject "items", mainObject "listing"]
  distinct := by decide
  named := by decide

/-- The statement that reads the column `id` of an object, or every column. -/
def readsObject (object : GraphqlCatalogObject) (column : String) (modifiers : Ast (.list .expr)) :
    Ast .query :=
  .select .noCtes (.baseTable object.qualifiedName []) (.cons (.otherExpr column.toList .nil) .nil)
    .nil .absent .absent .absent modifiers

/-- The statements generated for the object, as the engine parses them. -/
def parseGenerated (object : GraphqlCatalogObject) (sql : Str) : HandlerParse :=
  if sql = discoverySql object then .select (readsObject object "*" .nil)
  else if sql = generatedSql object ["id".toList] graphqlDefaultLimit then
    .select (readsObject object "id" (.cons (.otherExpr "100".toList .nil) .nil))
  else .notOneSelect

/-- `items` is a table, `listing` a view, and the policy is on another table. -/
def mountEnv (object : GraphqlCatalogObject) : GraphqlEnv where
  load := .ok mainCatalog
  deadlineExpired := false
  legacyOpen := false
  graphqlTables := []
  policies := { secretSnapshot with
    engine := { secretSnapshot.engine with
      isCatalogView := fun identity => some (decide (identity.table = "listing".toList)) } }
  parseQuery := parseGenerated object
  selectTableJson := fun _ => .ok "[]".toList

def mountOptions : GraphqlExecOptions where
  allowedTables := some ["items".toList, "listing".toList]
  limit := graphqlDefaultLimit
  authenticated := true
  maxResponseBytes := 1024
  mode := "route".toList
  routeName := "shop".toList

theorem mount_fits (object : GraphqlCatalogObject) :
    SchemaFits (mountEnv object) mountOptions mainCatalog := by
  have hsorted : mainCatalog.objects.Pairwise fun a b =>
      decide (a.objectName ≤ b.objectName) = true := by decide
  have hlisted : listedObjects (mountEnv object) mountOptions mainCatalog =
      mainCatalog.objects.filter (isListed (mountEnv object) mountOptions) := by
    rw [listedObjects, List.mergeSort_of_pairwise hsorted]
  have hboth : mainCatalog.objects.filter (isListed (mountEnv object) mountOptions) =
      mainCatalog.objects := rfl
  have hhead : schemaHead (mountEnv object) mountOptions =
      schemaHead (mountEnv (mainObject "items")) mountOptions := rfl
  rw [SchemaFits, hlisted, hboth, hhead]
  exact succeeds_of_isOk (by decide +kernel)

theorem parseGenerated_discovery (object : GraphqlCatalogObject) :
    ParsesAs (mountEnv object) (discoverySql object) object :=
  ⟨_, if_pos rfl, ⟨.cons _ .nil, .nil⟩⟩

theorem parseGenerated_generated {object : GraphqlCatalogObject}
    (h : generatedSql object ["id".toList] graphqlDefaultLimit ≠ discoverySql object) :
    ParsesAs (mountEnv object) (generatedSql object ["id".toList] graphqlDefaultLimit) object := by
  have hparse : parseGenerated object (generatedSql object ["id".toList] graphqlDefaultLimit) =
      .select (readsObject object "id" (.cons (.otherExpr "100".toList .nil) .nil)) := by
    rw [parseGenerated, if_neg h, if_pos rfl]
  exact ⟨_, hparse, ⟨.cons "id".toList .nil, .cons "100".toList .nil⟩⟩

theorem gates_agree_items : GatesAgree (mountEnv (mainObject "items")) mountOptions "items".toList
    "id".toList := by
  have hlimit : rowLimit mountOptions [⟨"items".toList, ["id".toList]⟩] = graphqlDefaultLimit := by
    decide
  have hfind : mainCatalog.find "items".toList = some (mainObject "items") := by decide
  have hgenerated : ParsesAs (mountEnv (mainObject "items"))
      (generatedSql (mainObject "items") ["id".toList] graphqlDefaultLimit) (mainObject "items") :=
    parseGenerated_generated (by decide +kernel)
  refine (gates_agree_iff (by decide) (by decide) (by decide) rfl rfl (mount_fits _) ?_ ?_).mpr ?_
  · intro object hobject
    cases hfind.symm.trans hobject
    exact parseGenerated_discovery _
  · intro object hobject
    cases hfind.symm.trans hobject
    rw [hlimit]
    exact hgenerated
  · intro _ object hobject _
    cases hfind.symm.trans hobject
    refine ⟨by decide, .inr ⟨by decide, ?_, ?_, ?_⟩⟩
    · exact succeeds_of_isOk (by decide +kernel)
    · exact succeeds_of_isOk (by decide +kernel)
    · intro hbound
      exact absurd hbound (by decide +kernel)

/-- The view is listed, and asking for it is refused. -/
theorem view_listed_refused :
    ¬ GatesAgree (mountEnv (mainObject "listing")) mountOptions "listing".toList "id".toList := by
  have hlimit : rowLimit mountOptions [⟨"listing".toList, ["id".toList]⟩] = graphqlDefaultLimit := by
    decide
  have hfind : mainCatalog.find "listing".toList = some (mainObject "listing") := by decide
  have hgenerated : ParsesAs (mountEnv (mainObject "listing"))
      (generatedSql (mainObject "listing") ["id".toList] graphqlDefaultLimit)
      (mainObject "listing") :=
    parseGenerated_generated (by decide +kernel)
  intro hagree
  have hlisted : Listed (mountEnv (mainObject "listing")) mountOptions "listing".toList
      "id".toList :=
    (listed_iff rfl rfl (mount_fits _)).mpr ⟨_, hfind, by decide, rfl⟩
  have hpasses := (passesGates_iff (by decide) (by decide) (by decide) rfl rfl (by
    intro object hobject
    cases hfind.symm.trans hobject
    rw [hlimit]
    exact hgenerated)).mp (hagree.mp hlisted)
  obtain ⟨_, _, object, hobject, _, hreadable⟩ := hpasses
  cases hfind.symm.trans hobject
  rcases hreadable with ⟨hrow, _⟩ | hadmits
  · cases hrow
  · exact absurd hadmits.table (by decide)

end Quackapi.Graphql
