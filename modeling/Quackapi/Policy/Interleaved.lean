import Quackapi.Library.ReadProgram
import Quackapi.Policy.Enforcement

/-! The rewrite as it runs beside policy DDL. The two binding lists are snapshots, and every policy is
looked up when the walk comes to it, so operations of others may take effect between any two reads. -/

namespace Quackapi.Policy
open Library

inductive PolicyRead
  | rowAccessPolicy (name : Str)
  | maskingPolicy (name : Str)

abbrev PolicyRead.Answer : PolicyRead → Type
  | .rowAccessPolicy _ => Option RowAccessPolicy
  | .maskingPolicy _ => Option MaskingPolicy

def policyAnswer (s : PolicyState) : (q : PolicyRead) → q.Answer
  | .rowAccessPolicy name => getRowAccessPolicy s name
  | .maskingPolicy name => getMaskingPolicy s name

abbrev PolicyReads := ReadProgram PolicyRead PolicyRead.Answer

abbrev ReadingRewrite := ExceptT RewriteFailure PolicyReads

def lookUpRowAccessPolicy (name : Str) : ReadingRewrite (Option RowAccessPolicy) :=
  ReadProgram.ask (PolicyRead.rowAccessPolicy name)

def lookUpMaskingPolicy (name : Str) : ReadingRewrite (Option MaskingPolicy) :=
  ReadProgram.ask (PolicyRead.maskingPolicy name)

/-- The context has the snapshots; its registry is not looked at. -/
def readWhereExpr (ctx : PolicyRewriteContext) : Option RowAccessBinding → ReadingRewrite Str
  | none => pure []
  | some b => do
    match ← lookUpRowAccessPolicy b.policyName with
    | none => throw (reject ctx "row-access policy binding references a missing policy")
    | some rap => return replacePolicyIdentifiers rap.expression rap.argColumns b.columns

def readMaskedColumns (ctx : PolicyRewriteContext) (identity : PolicyTableIdentity) :
    List MaskingBinding → ReadingRewrite (List (Str × Str))
  | [] => pure []
  | b :: bs => do
    let bound ← ReadProgram.ofExcept (bindingIdentity ctx b.tableName)
    if samePolicyTableIdentity identity bound then
      match ← lookUpMaskingPolicy b.policyName with
      | none => throw (reject ctx "masking policy binding references a missing policy")
      | some mask => do
        let rest ← readMaskedColumns ctx identity bs
        return (b.columnName, substituteValPlaceholder mask.expression
          (quoteCatalogIdentifier b.columnName)) :: rest
    else readMaskedColumns ctx identity bs

def readSecureSubquery (ctx : PolicyRewriteContext) (identity : PolicyTableIdentity)
    (rap : Option RowAccessBinding) : ReadingRewrite (Ast .query) := do
  let filter ← readWhereExpr ctx rap
  let masked ← readMaskedColumns ctx identity ctx.maskBindings
  match ctx.engine.parseSecureSubquery
      (buildSecureSubqueryQuoted (quotePolicyTableIdentity identity) filter masked) with
  | some q => return q
  | none => throw (reject ctx "policy enforcement could not construct a secure subquery")

def readSecuredTable (ctx : PolicyRewriteContext) (name : QualifiedName) (tableAlias : Str) :
    ReadingRewrite (Ast .tableRef) := do
  let identity := identityFromName name ctx.engine.defaultCatalog
  let rap ← ReadProgram.ofExcept (findBinding ctx identity RowAccessBinding.tableName ctx.rapBindings)
  let firstMask ← ReadProgram.ofExcept (findBinding ctx identity MaskingBinding.tableName ctx.maskBindings)
  if rap.isNone ∧ firstMask.isNone then return .baseTable name tableAlias
  else if !ctx.authenticated then throw ⟨[], true⟩
  else
    let q ← readSecureSubquery ctx identity rap
    return .subqueryRef q (refAlias name tableAlias)

def readBaseTable (ctx : PolicyRewriteContext) (cteScope : List Str) (name : QualifiedName)
    (tableAlias : Str) : ReadingRewrite (Ast .tableRef) :=
  if isCaptured cteScope name then pure (.baseTable name tableAlias)
  else
    match ctx.engine.isCatalogView (identityFromName name ctx.engine.defaultCatalog) with
    | none => throw (reject ctx "policy enforcement could not resolve catalog object identity")
    | some true => throw (reject ctx "policy enforcement rejects indirect view reads")
    | some false => readSecuredTable ctx name tableAlias

/-- `rewritePolicy` with its reads one by one. -/
def readRewritePolicy (ctx : PolicyRewriteContext) :
    {s : Syntax} → List Str → Ast s → ReadingRewrite (Ast s)
  | _, scope, .baseTable name tableAlias => readBaseTable ctx scope name tableAlias
  | _, scope, .subqueryRef q tableAlias => do
    let q ← readRewritePolicy ctx scope q
    return .subqueryRef q tableAlias
  | _, scope, .join left right condition => do
    let left ← readRewritePolicy ctx scope left
    let right ← readRewritePolicy ctx scope right
    let condition ← readRewritePolicy ctx scope condition
    return .join left right condition
  | _, scope, .pivot source aggregates pivots => do
    let source ← readRewritePolicy ctx scope source
    let aggregates ← readRewritePolicy ctx scope aggregates
    return .pivot source aggregates pivots
  | _, _, .tableFunction _ =>
    throw (reject ctx "policy enforcement rejects table functions and table macros")
  | _, _, .cteRef => return .cteRef
  | _, _, .emptyFrom => return .emptyFrom
  | _, scope, .expressionList values => do
    let values ← readRewritePolicy ctx scope values
    return .expressionList values
  | _, _, .otherRef _ =>
    throw (reject ctx "policy enforcement rejects an unsupported relation source")
  | _, scope, .select ctes fromTable selectList groups whereClause having qualify modifiers => do
    let ctes' ← readRewritePolicy ctx scope ctes
    let body := scope ++ cteNames ctes
    let fromTable ← readRewritePolicy ctx body fromTable
    let selectList ← readRewritePolicy ctx body selectList
    let groups ← readRewritePolicy ctx body groups
    let whereClause ← readRewritePolicy ctx body whereClause
    let having ← readRewritePolicy ctx body having
    let qualify ← readRewritePolicy ctx body qualify
    let modifiers ← readRewritePolicy ctx body modifiers
    return .select ctes' fromTable selectList groups whereClause having qualify modifiers
  | _, scope, .setOperation ctes children modifiers => do
    let ctes' ← readRewritePolicy ctx scope ctes
    let body := scope ++ cteNames ctes
    let children ← readRewritePolicy ctx body children
    let modifiers ← readRewritePolicy ctx body modifiers
    return .setOperation ctes' children modifiers
  | _, scope, .otherQuery ctes _ => do
    let _ ← readRewritePolicy ctx scope ctes
    throw (reject ctx "policy enforcement rejects an unsupported query form")
  | _, scope, .function name children => do
    ReadProgram.ofExcept (checkFunction ctx name)
    let children ← readRewritePolicy ctx scope children
    return .function name children
  | _, scope, .subquery q children => do
    let q ← ReadProgram.onFailure (nestedFailure ctx) (readRewritePolicy ctx scope q)
    let children ← readRewritePolicy ctx scope children
    return .subquery q children
  | _, scope, .otherExpr label children => do
    let children ← readRewritePolicy ctx scope children
    return .otherExpr label children
  | _, _, .noCtes => return .noCtes
  | _, scope, .cte name q rest => do
    let q ← ReadProgram.onFailure
      (rejectAfter ctx "policy enforcement could not inspect a common table expression")
      (readRewritePolicy ctx scope q)
    let rest ← readRewritePolicy ctx (scope ++ [name]) rest
    return .cte name q rest
  | _, _, .pivotColumn pivotExpressions entries q => return .pivotColumn pivotExpressions entries q
  | _, _, .nil => return .nil
  | _, scope, .cons head tail => do
    let head ← readRewritePolicy ctx scope head
    let tail ← readRewritePolicy ctx scope tail
    return .cons head tail
  | _, _, .absent => return .absent
  | _, scope, .present child => do
    let child ← readRewritePolicy ctx scope child
    return .present child

def readRewriteHandler (ctx : PolicyRewriteContext) (handler : HandlerParse) :
    PolicyReads HandlerRewrite :=
  if ctx.rapBindings.isEmpty && ctx.maskBindings.isEmpty then pure ⟨false, [], .original⟩
  else
    match handler with
    | .threw => pure (failedRewrite ctx (reject ctx "policy enforcement could not parse handler SQL"))
    | .notOneSelect =>
      pure (failedRewrite ctx
        (reject ctx "policy enforcement supports one SELECT statement per handler"))
    | .select q => do
      match ← (readRewritePolicy ctx [] q).run with
      | .ok q => return ⟨false, [], .printed q⟩
      | .error f => return failedRewrite ctx f

def PolicyRewriteContext.withRegistry (ctx : PolicyRewriteContext) (s : PolicyState) :
    PolicyRewriteContext :=
  ⟨⟨ctx.engine, ctx.rapBindings, ctx.maskBindings, s⟩, ctx.authenticated⟩

theorem findBinding_withRegistry {β : Type} (ctx : PolicyRewriteContext) (s : PolicyState)
    (identity : PolicyTableIdentity) (tableName : β → Str) (bs : List β) :
    findBinding (ctx.withRegistry s) identity tableName bs = findBinding ctx identity tableName bs := by
  induction bs with
  | nil => rfl
  | cons b bs ih =>
    simp only [findBinding, ih]
    rfl

@[simp] theorem eval_lookUpRowAccessPolicy (s : PolicyState) (name : Str) :
    ReadProgram.evalExcept (policyAnswer s) (lookUpRowAccessPolicy name) =
      .ok (getRowAccessPolicy s name) := rfl

@[simp] theorem eval_lookUpMaskingPolicy (s : PolicyState) (name : Str) :
    ReadProgram.evalExcept (policyAnswer s) (lookUpMaskingPolicy name) =
      .ok (getMaskingPolicy s name) := rfl

theorem eval_readWhereExpr (ctx : PolicyRewriteContext) (s : PolicyState)
    (rap : Option RowAccessBinding) :
    ReadProgram.evalExcept (policyAnswer s) (readWhereExpr ctx rap) =
      whereExpr (ctx.withRegistry s) rap := by
  rcases rap with _ | b
  · rfl
  · simp only [readWhereExpr, whereExpr, ReadProgram.evalExcept_bind, eval_lookUpRowAccessPolicy,
      PolicyRewriteContext.withRegistry]
    rcases getRowAccessPolicy s b.policyName with _ | rap
    · rfl
    · rfl

theorem eval_readMaskedColumns (ctx : PolicyRewriteContext) (s : PolicyState)
    (identity : PolicyTableIdentity) (bs : List MaskingBinding) :
    ReadProgram.evalExcept (policyAnswer s) (readMaskedColumns ctx identity bs) =
      maskedColumns (ctx.withRegistry s) identity bs := by
  induction bs with
  | nil => rfl
  | cons b bs ih =>
    have hidentity : bindingIdentity (ctx.withRegistry s) b.tableName =
      bindingIdentity ctx b.tableName := rfl
    simp only [readMaskedColumns, maskedColumns, ReadProgram.evalExcept_bind,
      ReadProgram.evalExcept_ofExcept, hidentity]
    congr 1
    funext bound
    split
    · simp only [ReadProgram.evalExcept_bind, eval_lookUpMaskingPolicy, PolicyRewriteContext.withRegistry]
      rcases getMaskingPolicy s b.policyName with _ | mask
      · rfl
      · change ReadProgram.evalExcept (policyAnswer s) (readMaskedColumns ctx identity bs >>= _) =
          maskedColumns (ctx.withRegistry s) identity bs >>= _
        rw [ReadProgram.evalExcept_bind, ih]
        rfl
    · exact ih

theorem eval_readSecureSubquery (ctx : PolicyRewriteContext) (s : PolicyState)
    (identity : PolicyTableIdentity) (rap : Option RowAccessBinding) :
    ReadProgram.evalExcept (policyAnswer s) (readSecureSubquery ctx identity rap) =
      secureSubquery (ctx.withRegistry s) identity rap := by
  simp only [readSecureSubquery, secureSubquery, ReadProgram.evalExcept_bind, eval_readWhereExpr,
    eval_readMaskedColumns]
  congr 1
  funext filter
  congr 1
  funext masked
  have hengine : (ctx.withRegistry s).engine = ctx.engine := rfl
  rw [hengine]
  rcases ctx.engine.parseSecureSubquery
      (buildSecureSubqueryQuoted (quotePolicyTableIdentity identity) filter masked) with _ | q
  · rfl
  · rfl

theorem eval_readBaseTable (ctx : PolicyRewriteContext) (s : PolicyState) (scope : List Str)
    (name : QualifiedName) (tableAlias : Str) :
    ReadProgram.evalExcept (policyAnswer s) (readBaseTable ctx scope name tableAlias) =
      rewriteBaseTable (ctx.withRegistry s) scope name tableAlias := by
  have hengine : (ctx.withRegistry s).engine = ctx.engine := rfl
  have hauth : (ctx.withRegistry s).authenticated = ctx.authenticated := rfl
  have hrap : (ctx.withRegistry s).rapBindings = ctx.rapBindings := rfl
  have hmask : (ctx.withRegistry s).maskBindings = ctx.maskBindings := rfl
  unfold readBaseTable rewriteBaseTable
  rw [hengine]
  split
  · rfl
  rcases ctx.engine.isCatalogView (identityFromName name ctx.engine.defaultCatalog) with _ | _ | _
  · rfl
  · simp only [readSecuredTable, securedTable, ReadProgram.evalExcept_bind,
      ReadProgram.evalExcept_ofExcept, findBinding_withRegistry, hengine, hauth, hrap, hmask]
    congr 1
    funext rap
    congr 1
    funext firstMask
    split
    · rfl
    split
    · rfl
    · rw [ReadProgram.evalExcept_bind, eval_readSecureSubquery]
      rfl
  · rfl

theorem eval_readRewritePolicy (ctx : PolicyRewriteContext) (r : PolicyState) {s : Syntax}
    (scope : List Str) (t : Ast s) :
    ReadProgram.evalExcept (policyAnswer r) (readRewritePolicy ctx scope t) =
      rewritePolicy (ctx.withRegistry r) scope t := by
  have hcheck : ∀ name, checkFunction (ctx.withRegistry r) name = checkFunction ctx name := fun _ => rfl
  have hnested : nestedFailure (ctx.withRegistry r) = nestedFailure ctx := rfl
  have hafter : ∀ reason, rejectAfter (ctx.withRegistry r) reason = rejectAfter ctx reason :=
    fun _ => rfl
  induction t generalizing scope with
  | baseTable name tableAlias => exact eval_readBaseTable ctx r scope name tableAlias
  | tableFunction | otherRef | pivotColumn | cteRef | emptyFrom | noCtes | nil | absent => rfl
  | subqueryRef q tableAlias ih =>
    simp only [readRewritePolicy, rewritePolicy, ReadProgram.evalExcept_bind, ih,
      ReadProgram.evalExcept_pure]
  | otherQuery ctes children ih =>
    simp only [readRewritePolicy, rewritePolicy, ReadProgram.evalExcept_bind, ih]
    rfl
  | _ =>
    simp only [readRewritePolicy, rewritePolicy, ReadProgram.evalExcept_bind, *,
      ReadProgram.evalExcept_pure, ReadProgram.evalExcept_onFailure, ReadProgram.evalExcept_ofExcept]

theorem eval_readRewriteHandler (ctx : PolicyRewriteContext) (s : PolicyState)
    (handler : HandlerParse) :
    (readRewriteHandler ctx handler).eval (policyAnswer s) =
      rewriteHandler (ctx.withRegistry s) handler := by
  unfold readRewriteHandler rewriteHandler
  have hrap : (ctx.withRegistry s).rapBindings = ctx.rapBindings := rfl
  have hmask : (ctx.withRegistry s).maskBindings = ctx.maskBindings := rfl
  rw [hrap, hmask]
  split
  · rfl
  cases handler with
  | threw => rfl
  | notOneSelect => rfl
  | select q =>
    have hwalk := eval_readRewritePolicy ctx s [] q
    unfold ReadProgram.evalExcept at hwalk
    simp only [ReadProgram.eval_bind, hwalk]
    rcases rewritePolicy (ctx.withRegistry s) [] q with f | q
    · rfl
    · rfl

/-- Where a rewrite is: before its first snapshot, between the two, or at its lookups. -/
inductive RewritePhase
  | entered
  | rowBindings (rapBindings : List RowAccessBinding)
  | lookups (rest : PolicyReads HandlerRewrite)

structure RewriteRun where
  registry : PolicyState
  phase : RewritePhase

/-- An operation of another connection, or the next read of the rewrite. -/
inductive RewriteAction
  | ddl (a : PolicyAction)
  | read

section
variable (e : PolicyEngine) (authenticated : Bool) (handler : HandlerParse)

/-- `RewriteHandlerWithPoliciesAst` and the operations beside it, an atomic step at a time. -/
def rewriting : Machine RewriteRun RewriteAction Unit where
  step t
    | .ddl a => ({ t with registry := (policyStep t.registry a).1 }, ())
    | .read =>
      match t.phase with
      | .entered => ({ t with phase := .rowBindings t.registry.rowAccessBindings }, ())
      | .rowBindings rapBindings =>
        let ctx : PolicyRewriteContext :=
          ⟨⟨e, rapBindings, t.registry.maskingBindings, emptyPolicies⟩, authenticated⟩
        ({ t with phase := .lookups (readRewriteHandler ctx handler) }, ())
      | .lookups (.read q k) => ({ t with phase := .lookups (k (policyAnswer t.registry q)) }, ())
      | .lookups (.done _) => (t, ())

/-- The operation leaves alone what the rewrite has read and has to see again: between the snapshots
the row bindings, and after them the policies that it may still look up. -/
def LeavesReads (t : RewriteRun) : RewriteAction → Prop
  | .read => True
  | .ddl a =>
    match t.phase with
    | .entered => True
    | .rowBindings _ => (policyStep t.registry a).1.rowAccessBindings = t.registry.rowAccessBindings
    | .lookups rest => ∀ q, rest.MayAsk q →
        policyAnswer t.registry q = policyAnswer (policyStep t.registry a).1 q

variable {e authenticated handler}

theorem lookups_linearizable {s : PolicyState} {rest : PolicyReads HandlerRewrite}
    {as : List RewriteAction} {result : HandlerRewrite}
    (hdone : ((rewriting e authenticated handler).run ⟨s, .lookups rest⟩ as).phase =
      .lookups (.done result))
    (halong : (rewriting e authenticated handler).Along LeavesReads ⟨s, .lookups rest⟩ as) :
    result = rest.eval (policyAnswer s) := by
  induction as generalizing s rest with
  | nil =>
    cases hdone
    rfl
  | cons a as ih =>
    obtain ⟨hleaves, halong⟩ := halong
    cases a with
    | ddl a => exact (ih hdone halong).trans (ReadProgram.eval_congr hleaves).symm
    | read =>
      cases rest with
      | done r => exact ih hdone halong
      | read q k =>
        have hrest : result = (k (policyAnswer s q)).eval (policyAnswer s) := ih hdone halong
        exact hrest

def rewriteAt (e : PolicyEngine) (authenticated : Bool) (handler : HandlerParse) (s : PolicyState) :
    HandlerRewrite :=
  rewriteHandler ⟨snapshot e s, authenticated⟩ handler

theorem rowBindings_linearizable {s : PolicyState} {as : List RewriteAction} {result : HandlerRewrite}
    (hdone : ((rewriting e authenticated handler).run ⟨s, .rowBindings s.rowAccessBindings⟩ as).phase =
      .lookups (.done result))
    (halong : (rewriting e authenticated handler).Along LeavesReads
      ⟨s, .rowBindings s.rowAccessBindings⟩ as) :
    ∃ k ≤ as.length, result = rewriteAt e authenticated handler
      ((rewriting e authenticated handler).run ⟨s, .rowBindings s.rowAccessBindings⟩
        (as.take k)).registry := by
  induction as generalizing s with
  | nil => cases hdone
  | cons a as ih =>
    obtain ⟨hleaves, halong⟩ := halong
    cases a with
    | ddl a =>
      have hsame : (policyStep s a).1.rowAccessBindings = s.rowAccessBindings := hleaves
      have hstep : ((rewriting e authenticated handler).step ⟨s, .rowBindings s.rowAccessBindings⟩
          (.ddl a)).1 = ⟨(policyStep s a).1, .rowBindings (policyStep s a).1.rowAccessBindings⟩ := by
        rw [hsame]
        rfl
      rw [Machine.run_cons, hstep] at hdone
      rw [hstep] at halong
      obtain ⟨k, hk, hresult⟩ := ih hdone halong
      refine ⟨k + 1, Nat.succ_le_succ hk, ?_⟩
      rw [List.take_succ_cons, Machine.run_cons, hstep]
      exact hresult
    | read =>
      refine ⟨0, Nat.zero_le _, ?_⟩
      have hresult := lookups_linearizable hdone halong
      rw [eval_readRewriteHandler] at hresult
      exact hresult

variable (e authenticated handler) in
/-- The rewrite is linearizable in every run whose operations leave alone what it has read. -/
theorem policy_rewrite_linearizable (s : PolicyState) (as : List RewriteAction)
    (result : HandlerRewrite)
    (hdone : ((rewriting e authenticated handler).run ⟨s, .entered⟩ as).phase =
      .lookups (.done result))
    (halong : (rewriting e authenticated handler).Along LeavesReads ⟨s, .entered⟩ as) :
    ∃ k ≤ as.length, result = rewriteAt e authenticated handler
      ((rewriting e authenticated handler).run ⟨s, .entered⟩ (as.take k)).registry := by
  induction as generalizing s with
  | nil => cases hdone
  | cons a as ih =>
    obtain ⟨-, halong⟩ := halong
    cases a with
    | ddl a =>
      obtain ⟨k, hk, hresult⟩ := ih (policyStep s a).1 hdone halong
      exact ⟨k + 1, Nat.succ_le_succ hk, hresult⟩
    | read =>
      obtain ⟨k, hk, hresult⟩ := rowBindings_linearizable hdone halong
      exact ⟨k + 1, Nat.succ_le_succ hk, hresult⟩

end

/-- An engine that knows the table `memory.main.t`, and reads a secure subquery of it with its filter. -/
def filterEngine : PolicyEngine where
  tryParseName := plainName
  defaultCatalog := "memory".toList
  isCatalogView := fun _ => some false
  isScalarMacro := fun _ => some false
  parseSecureSubquery := fun text =>
    some (.select .noCtes (.baseTable ⟨"memory".toList, "main".toList, "t".toList⟩ [])
      (.cons (.otherExpr "*".toList .nil) .nil) .nil (.present (.otherExpr (text.drop 40) .nil))
      .absent .absent .nil)

def readsTable : HandlerParse := .select (selectFrom "*" "t")

def policyOnA : RowAccessPolicy := ⟨"p".toList, ["a".toList], [[]], "a = 1".toList⟩

def bindX : RowAccessBinding := ⟨"t".toList, "p".toList, ["x".toList]⟩

def registrations : List PolicyAction := [.createRow policyOnA false, .bindRow bindX false]

def unrelatedPolicy : List RewriteAction :=
  [.read, .ddl (.createMask ⟨"m".toList, [], "val".toList⟩ false), .read, .read]

theorem policy_rewrite_linearizable_unrelated :
    ∃ k ≤ 4, rewriteAt filterEngine true readsTable (policyMachine.run emptyPolicies registrations) =
      rewriteAt filterEngine true readsTable
        ((rewriting filterEngine true readsTable).run
          ⟨policyMachine.run emptyPolicies registrations, .entered⟩ (unrelatedPolicy.take k)).registry :=
  policy_rewrite_linearizable filterEngine true readsTable _ unrelatedPolicy _ rfl
    ⟨trivial, rfl, trivial, trivial, trivial⟩

/-- After the snapshots the policy is dropped, defined over other columns and bound to one of them. -/
def redefinition : List RewriteAction :=
  [.read, .read, .ddl (.dropRow "p".toList),
    .ddl (.createRow ⟨"p".toList, ["b".toList], [[]], "b = 2".toList⟩ false),
    .ddl (.bindRow ⟨"t".toList, "p".toList, ["y".toList]⟩ false), .read]

/-- The filter of the subquery that a rewritten handler reads from. -/
def filterText (r : HandlerRewrite) : Option Str :=
  match r.sql with
  | .printed (.select _ (.subqueryRef (.select _ _ _ _ (.present (.otherExpr text _)) _ _ _) _)
      _ _ _ _ _ _) => some text
  | _ => none

/-- The old binding's column meets the new policy's body: no registry state filters so. -/
theorem redefinition_mixes :
    ∃ result, ((rewriting filterEngine true readsTable).run
        ⟨policyMachine.run emptyPolicies registrations, .entered⟩ redefinition).phase =
          .lookups (.done result) ∧
      result.executable = true ∧ filterText result = some "(\"x\" = 2)".toList ∧
      ∀ k ≤ redefinition.length, result ≠ rewriteAt filterEngine true readsTable
        ((rewriting filterEngine true readsTable).run
          ⟨policyMachine.run emptyPolicies registrations, .entered⟩ (redefinition.take k)).registry := by
  have hnone : ∀ k ≤ redefinition.length, filterText (rewriteAt filterEngine true readsTable
      ((rewriting filterEngine true readsTable).run
        ⟨policyMachine.run emptyPolicies registrations, .entered⟩ (redefinition.take k)).registry) ≠
      some "(\"x\" = 2)".toList := by decide
  refine ⟨_, rfl, rfl, by decide, fun k hk heq => ?_⟩
  apply hnone k hk
  rw [← heq]
  decide

end Quackapi.Policy
