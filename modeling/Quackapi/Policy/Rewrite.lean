import Quackapi.Library.ExceptRules
import Quackapi.Policy.SecureQuery

/-! The enforcement rewrite: a walk over the handler's syntax tree that puts a secure subquery in the
place of every base table with a policy. A walk that the source ends by returning `false` is an
`Except.error` here; it carries what the context then holds. -/

namespace Quackapi.Policy
open Library

inductive Syntax
  | tableRef | query | expr | ctes | pivotColumn
  | list (s : Syntax)
  | opt (s : Syntax)
deriving DecidableEq

/-- The engine's syntax tree, by the fields the walk and its specification look at. The children of
an expression are those the engine enumerates; `label` is whatever else it prints. -/
inductive Ast : Syntax → Type
  | baseTable (name : QualifiedName) (tableAlias : Str) : Ast .tableRef
  | subqueryRef (subquery : Ast .query) (tableAlias : Str) : Ast .tableRef
  | join (left right : Ast .tableRef) (condition : Ast (.opt .expr)) : Ast .tableRef
  | pivot (source : Ast .tableRef) (aggregates : Ast (.list .expr))
      (pivots : Ast (.list .pivotColumn)) : Ast .tableRef
  | tableFunction (function : Ast .expr) : Ast .tableRef
  | cteRef : Ast .tableRef
  | emptyFrom : Ast .tableRef
  | expressionList (values : Ast (.list (.list .expr))) : Ast .tableRef
  | otherRef (children : Ast (.list .query)) : Ast .tableRef
  | select (cteMap : Ast .ctes) (fromTable : Ast .tableRef)
      (selectList groupExpressions : Ast (.list .expr))
      (whereClause having qualify : Ast (.opt .expr)) (modifiers : Ast (.list .expr)) : Ast .query
  | setOperation (cteMap : Ast .ctes) (children : Ast (.list .query))
      (modifiers : Ast (.list .expr)) : Ast .query
  | otherQuery (cteMap : Ast .ctes) (children : Ast (.list .query)) : Ast .query
  | function (name : QualifiedName) (children : Ast (.list .expr)) : Ast .expr
  | subquery (subquery : Ast .query) (children : Ast (.list .expr)) : Ast .expr
  | otherExpr (label : Str) (children : Ast (.list .expr)) : Ast .expr
  | noCtes : Ast .ctes
  | cte (name : Str) (queryNode : Ast .query) (rest : Ast .ctes) : Ast .ctes
  | pivotColumn (pivotExpressions entries : Ast (.list .expr)) (subquery : Ast (.opt .query)) :
      Ast .pivotColumn
  | nil {s : Syntax} : Ast (.list s)
  | cons {s : Syntax} (head : Ast s) (tail : Ast (.list s)) : Ast (.list s)
  | absent {s : Syntax} : Ast (.opt s)
  | present {s : Syntax} (child : Ast s) : Ast (.opt s)

/-- The names the `WITH` of a query node brings into the scope of its body. -/
def cteNames : {s : Syntax} → Ast s → List Str
  | _, .cte name _ rest => name :: cteNames rest
  | _, _ => []

/-- What the rewrite asks of the engine. A lookup that throws has no answer. -/
structure PolicyEngine where
  tryParseName : Str → Option QualifiedName
  defaultCatalog : Str
  isCatalogView : PolicyTableIdentity → Option Bool
  isScalarMacro : QualifiedName → Option Bool
  parseSecureSubquery : Str → Option (Ast .query)

/-- The bindings as the snapshot took them, and the registry that policies are looked up in. -/
structure PolicySnapshot where
  engine : PolicyEngine
  rapBindings : List RowAccessBinding
  maskBindings : List MaskingBinding
  registry : PolicyState

structure PolicyRewriteContext extends PolicySnapshot where
  authenticated : Bool

/-- `error` and `deny_unauthenticated` of the context when a walk has failed. -/
structure RewriteFailure where
  error : Str
  deny : Bool
deriving DecidableEq

abbrev Rewrite := Except RewriteFailure

/-- `Reject` in a context that a failure may already have marked; the first error stays. -/
def rejectAfter (ctx : PolicyRewriteContext) (reason : String) (f : RewriteFailure) :
    RewriteFailure where
  error := if f.error.isEmpty then reason.toList else f.error
  deny := f.deny || !ctx.authenticated

def reject (ctx : PolicyRewriteContext) (reason : String) : RewriteFailure :=
  rejectAfter ctx reason ⟨[], false⟩

def bindingIdentity (ctx : PolicyRewriteContext) (tableName : Str) : Rewrite PolicyTableIdentity :=
  match parsePolicyTableIdentity ctx.engine.tryParseName tableName ctx.engine.defaultCatalog with
  | some identity => .ok identity
  | none => .error (reject ctx "policy binding has an invalid catalog identity")

def findBinding {β : Type} (ctx : PolicyRewriteContext) (identity : PolicyTableIdentity)
    (tableName : β → Str) : List β → Rewrite (Option β)
  | [] => .ok none
  | b :: bs => do
    let bound ← bindingIdentity ctx (tableName b)
    if samePolicyTableIdentity identity bound then return some b
    else findBinding ctx identity tableName bs

/-- The filter of a row binding: its policy's expression over the bound columns. -/
def whereExpr (ctx : PolicyRewriteContext) : Option RowAccessBinding → Rewrite Str
  | none => .ok []
  | some b =>
    match getRowAccessPolicy ctx.registry b.policyName with
    | none => .error (reject ctx "row-access policy binding references a missing policy")
    | some rap => .ok (replacePolicyIdentifiers rap.expression rap.argColumns b.columns)

def maskedColumns (ctx : PolicyRewriteContext) (identity : PolicyTableIdentity) :
    List MaskingBinding → Rewrite (List (Str × Str))
  | [] => .ok []
  | b :: bs => do
    let bound ← bindingIdentity ctx b.tableName
    if samePolicyTableIdentity identity bound then
      match getMaskingPolicy ctx.registry b.policyName with
      | none => .error (reject ctx "masking policy binding references a missing policy")
      | some mask => do
        let rest ← maskedColumns ctx identity bs
        return (b.columnName, substituteValPlaceholder mask.expression
          (quoteCatalogIdentifier b.columnName)) :: rest
    else maskedColumns ctx identity bs

def secureSubquery (ctx : PolicyRewriteContext) (identity : PolicyTableIdentity)
    (rap : Option RowAccessBinding) : Rewrite (Ast .query) := do
  let filter ← whereExpr ctx rap
  let masked ← maskedColumns ctx identity ctx.maskBindings
  match ctx.engine.parseSecureSubquery
      (buildSecureSubqueryQuoted (quotePolicyTableIdentity identity) filter masked) with
  | some q => return q
  | none => throw (reject ctx "policy enforcement could not construct a secure subquery")

/-- An unqualified name that a CTE in scope takes; the innermost one is found first. -/
def isCaptured (cteScope : List Str) (name : QualifiedName) : Bool :=
  name.schema.isEmpty && name.catalog.isEmpty &&
    cteScope.reverse.any fun cte => sameCatalogIdentifier cte name.name

def refAlias (name : QualifiedName) (tableAlias : Str) : Str :=
  if tableAlias.isEmpty then name.name else tableAlias

/-- The part of the base table case that looks at policies. -/
def securedTable (ctx : PolicyRewriteContext) (name : QualifiedName) (tableAlias : Str) :
    Rewrite (Ast .tableRef) := do
  let identity := identityFromName name ctx.engine.defaultCatalog
  let rap ← findBinding ctx identity RowAccessBinding.tableName ctx.rapBindings
  let firstMask ← findBinding ctx identity MaskingBinding.tableName ctx.maskBindings
  if rap.isNone ∧ firstMask.isNone then return .baseTable name tableAlias
  else if !ctx.authenticated then throw ⟨[], true⟩
  else
    let q ← secureSubquery ctx identity rap
    return .subqueryRef q (refAlias name tableAlias)

def rewriteBaseTable (ctx : PolicyRewriteContext) (cteScope : List Str) (name : QualifiedName)
    (tableAlias : Str) : Rewrite (Ast .tableRef) :=
  if isCaptured cteScope name then .ok (.baseTable name tableAlias)
  else
    match ctx.engine.isCatalogView (identityFromName name ctx.engine.defaultCatalog) with
    | none => .error (reject ctx "policy enforcement could not resolve catalog object identity")
    | some true => .error (reject ctx "policy enforcement rejects indirect view reads")
    | some false => securedTable ctx name tableAlias

/-- The check of a function name before its arguments are walked. -/
def checkFunction (ctx : PolicyRewriteContext) (name : QualifiedName) : Rewrite Unit :=
  match ctx.engine.isScalarMacro name with
  | none => .error (reject ctx "policy enforcement could not inspect a nested expression")
  | some true => .error (reject ctx "policy enforcement rejects scalar macro dependencies")
  | some false => .ok ()

/-- A nested subquery that failed without an error gets one. -/
def nestedFailure (ctx : PolicyRewriteContext) (f : RewriteFailure) : RewriteFailure :=
  if f.error.isEmpty then rejectAfter ctx "policy enforcement could not inspect a nested subquery" f
  else f

/-- `RewritePolicyTableRef`, `RewritePolicyQueryNode`, `RewritePolicyExpression` and their loops:
the case is that of the node. -/
def rewritePolicy (ctx : PolicyRewriteContext) : {s : Syntax} → List Str → Ast s → Rewrite (Ast s)
  | _, scope, .baseTable name tableAlias => rewriteBaseTable ctx scope name tableAlias
  | _, scope, .subqueryRef q tableAlias => do
    let q ← rewritePolicy ctx scope q
    return .subqueryRef q tableAlias
  | _, scope, .join left right condition => do
    let left ← rewritePolicy ctx scope left
    let right ← rewritePolicy ctx scope right
    let condition ← rewritePolicy ctx scope condition
    return .join left right condition
  | _, scope, .pivot source aggregates pivots => do
    let source ← rewritePolicy ctx scope source
    let aggregates ← rewritePolicy ctx scope aggregates
    -- the source goes on to the next relation here: the pivot columns are not walked
    return .pivot source aggregates pivots
  | _, _, .tableFunction _ =>
    throw (reject ctx "policy enforcement rejects table functions and table macros")
  | _, _, .cteRef => return .cteRef
  | _, _, .emptyFrom => return .emptyFrom
  | _, scope, .expressionList values => do
    let values ← rewritePolicy ctx scope values
    return .expressionList values
  | _, _, .otherRef _ =>
    throw (reject ctx "policy enforcement rejects an unsupported relation source")
  | _, scope, .select ctes fromTable selectList groups whereClause having qualify modifiers => do
    let ctes' ← rewritePolicy ctx scope ctes
    let body := scope ++ cteNames ctes
    let fromTable ← rewritePolicy ctx body fromTable
    let selectList ← rewritePolicy ctx body selectList
    let groups ← rewritePolicy ctx body groups
    let whereClause ← rewritePolicy ctx body whereClause
    let having ← rewritePolicy ctx body having
    let qualify ← rewritePolicy ctx body qualify
    let modifiers ← rewritePolicy ctx body modifiers
    return .select ctes' fromTable selectList groups whereClause having qualify modifiers
  | _, scope, .setOperation ctes children modifiers => do
    let ctes' ← rewritePolicy ctx scope ctes
    let body := scope ++ cteNames ctes
    let children ← rewritePolicy ctx body children
    let modifiers ← rewritePolicy ctx body modifiers
    return .setOperation ctes' children modifiers
  | _, scope, .otherQuery ctes _ => do
    let _ ← rewritePolicy ctx scope ctes
    throw (reject ctx "policy enforcement rejects an unsupported query form")
  | _, scope, .function name children => do
    checkFunction ctx name
    let children ← rewritePolicy ctx scope children
    return .function name children
  | _, scope, .subquery q children => do
    let q ← onError (nestedFailure ctx) (rewritePolicy ctx scope q)
    let children ← rewritePolicy ctx scope children
    return .subquery q children
  | _, scope, .otherExpr label children => do
    let children ← rewritePolicy ctx scope children
    return .otherExpr label children
  | _, _, .noCtes => return .noCtes
  | _, scope, .cte name q rest => do
    let q ← onError (rejectAfter ctx "policy enforcement could not inspect a common table expression")
      (rewritePolicy ctx scope q)
    let rest ← rewritePolicy ctx (scope ++ [name]) rest
    return .cte name q rest
  -- no case above descends into a pivot column
  | _, _, .pivotColumn pivotExpressions entries q => return .pivotColumn pivotExpressions entries q
  | _, _, .nil => return .nil
  | _, scope, .cons head tail => do
    let head ← rewritePolicy ctx scope head
    let tail ← rewritePolicy ctx scope tail
    return .cons head tail
  | _, _, .absent => return .absent
  | _, scope, .present child => do
    let child ← rewritePolicy ctx scope child
    return .present child

inductive HandlerParse
  | threw
  | notOneSelect
  | select (q : Ast .query)

/-- The SQL that runs: the handler's own text, or the rewritten tree printed. -/
inductive HandlerSql
  | original
  | printed (q : Ast .query)

structure HandlerRewrite where
  deny : Bool
  error : Str
  sql : HandlerSql

def HandlerRewrite.executable (r : HandlerRewrite) : Bool := !r.deny && r.error.isEmpty

def failedRewrite (ctx : PolicyRewriteContext) (f : RewriteFailure) : HandlerRewrite where
  deny := f.deny || (!f.error.isEmpty && !ctx.authenticated)
  error := f.error
  sql := .original

/-- `RewriteHandlerWithPoliciesAst`. -/
def rewriteHandler (ctx : PolicyRewriteContext) (handler : HandlerParse) : HandlerRewrite :=
  if ctx.rapBindings.isEmpty && ctx.maskBindings.isEmpty then ⟨false, [], .original⟩
  else
    match handler with
    | .threw => failedRewrite ctx (reject ctx "policy enforcement could not parse handler SQL")
    | .notOneSelect =>
      failedRewrite ctx (reject ctx "policy enforcement supports one SELECT statement per handler")
    | .select q =>
      match rewritePolicy ctx [] q with
      | .ok q => ⟨false, [], .printed q⟩
      | .error f => failedRewrite ctx f

end Quackapi.Policy
