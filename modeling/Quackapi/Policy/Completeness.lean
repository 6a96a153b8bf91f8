import Quackapi.Policy.Rewrite

/-! Completeness of the enforcement rewrite. The specification looks at every field of the tree; the
walk leaves out the columns of a pivot, so the two agree when no pivot column reads a table with
policies. -/

namespace Quackapi.Policy
open Library

/-- The name of a binding resolves to the table. -/
def bindsTable (p : PolicySnapshot) (identity : PolicyTableIdentity) (tableName : Str) :
    Bool :=
  match parsePolicyTableIdentity p.engine.tryParseName tableName p.engine.defaultCatalog with
  | some bound => samePolicyTableIdentity identity bound
  | none => false

def isBound (p : PolicySnapshot) (identity : PolicyTableIdentity) : Bool :=
  p.rapBindings.any (fun b => bindsTable p identity b.tableName) ||
    p.maskBindings.any fun b => bindsTable p identity b.tableName

/-- A reference that reads a table with policies: no CTE in scope takes its name. -/
def readsBound (p : PolicySnapshot) (scope : List Str) (name : QualifiedName) : Prop :=
  isCaptured scope name = false ∧ isBound p (identityFromName name p.engine.defaultCatalog) = true

/-- `q` is the secure subquery the rewriter builds for the table. -/
def IsSecureSubquery (p : PolicySnapshot) (name : QualifiedName) (q : Ast .query) : Prop :=
  ∃ rap, findBinding ⟨p, true⟩ (identityFromName name p.engine.defaultCatalog)
      RowAccessBinding.tableName p.rapBindings = .ok rap ∧
    secureSubquery ⟨p, true⟩ (identityFromName name p.engine.defaultCatalog) rap = .ok q

/-- Some field of the tree, whichever it is, reads a table with policies. -/
def Reads (p : PolicySnapshot) : {s : Syntax} → List Str → Ast s → Prop
  | _, scope, .baseTable name _ => readsBound p scope name
  | _, scope, .subqueryRef q _ => Reads p scope q
  | _, scope, .join left right condition =>
    Reads p scope left ∨ Reads p scope right ∨ Reads p scope condition
  | _, scope, .pivot source aggregates pivots =>
    Reads p scope source ∨ Reads p scope aggregates ∨ Reads p scope pivots
  | _, scope, .tableFunction function => Reads p scope function
  | _, _, .cteRef => False
  | _, _, .emptyFrom => False
  | _, scope, .expressionList values => Reads p scope values
  | _, scope, .otherRef children => Reads p scope children
  | _, scope, .select ctes fromTable selectList groups whereClause having qualify modifiers =>
    Reads p scope ctes ∨ Reads p (scope ++ cteNames ctes) fromTable ∨
      Reads p (scope ++ cteNames ctes) selectList ∨ Reads p (scope ++ cteNames ctes) groups ∨
      Reads p (scope ++ cteNames ctes) whereClause ∨ Reads p (scope ++ cteNames ctes) having ∨
      Reads p (scope ++ cteNames ctes) qualify ∨ Reads p (scope ++ cteNames ctes) modifiers
  | _, scope, .setOperation ctes children modifiers =>
    Reads p scope ctes ∨ Reads p (scope ++ cteNames ctes) children ∨
      Reads p (scope ++ cteNames ctes) modifiers
  | _, scope, .otherQuery ctes children =>
    Reads p scope ctes ∨ Reads p (scope ++ cteNames ctes) children
  | _, scope, .function _ children => Reads p scope children
  | _, scope, .subquery q children => Reads p scope q ∨ Reads p scope children
  | _, scope, .otherExpr _ children => Reads p scope children
  | _, _, .noCtes => False
  | _, scope, .cte name q rest => Reads p scope q ∨ Reads p (scope ++ [name]) rest
  | _, scope, .pivotColumn pivotExpressions entries q =>
    Reads p scope pivotExpressions ∨ Reads p scope entries ∨ Reads p scope q
  | _, _, .nil => False
  | _, scope, .cons head tail => Reads p scope head ∨ Reads p scope tail
  | _, _, .absent => False
  | _, scope, .present child => Reads p scope child

/-- `t'` is the tree with every read of a table with policies, in whichever field, replaced by the
secure subquery of the table, and with everything else, captured references included, as it is. -/
def Secured (p : PolicySnapshot) : {s : Syntax} → List Str → Ast s → Ast s → Prop
  | _, scope, .baseTable name tableAlias, t' =>
    (¬ readsBound p scope name ∧ t' = .baseTable name tableAlias) ∨
      (readsBound p scope name ∧
        ∃ q, IsSecureSubquery p name q ∧ t' = .subqueryRef q (refAlias name tableAlias))
  | _, scope, .subqueryRef q tableAlias, t' =>
    ∃ q', t' = .subqueryRef q' tableAlias ∧ Secured p scope q q'
  | _, scope, .join left right condition, t' =>
    ∃ left' right' condition', t' = .join left' right' condition' ∧ Secured p scope left left' ∧
      Secured p scope right right' ∧ Secured p scope condition condition'
  | _, scope, .pivot source aggregates pivots, t' =>
    ∃ source' aggregates' pivots', t' = .pivot source' aggregates' pivots' ∧
      Secured p scope source source' ∧ Secured p scope aggregates aggregates' ∧
      Secured p scope pivots pivots'
  | _, scope, .tableFunction function, t' =>
    ∃ function', t' = .tableFunction function' ∧ Secured p scope function function'
  | _, _, .cteRef, t' => t' = .cteRef
  | _, _, .emptyFrom, t' => t' = .emptyFrom
  | _, scope, .expressionList values, t' =>
    ∃ values', t' = .expressionList values' ∧ Secured p scope values values'
  | _, scope, .otherRef children, t' =>
    ∃ children', t' = .otherRef children' ∧ Secured p scope children children'
  | _, scope, .select ctes fromTable selectList groups whereClause having qualify modifiers, t' =>
    ∃ ctes' fromTable' selectList' groups' whereClause' having' qualify' modifiers',
      t' = .select ctes' fromTable' selectList' groups' whereClause' having' qualify' modifiers' ∧
      Secured p scope ctes ctes' ∧ Secured p (scope ++ cteNames ctes) fromTable fromTable' ∧
      Secured p (scope ++ cteNames ctes) selectList selectList' ∧
      Secured p (scope ++ cteNames ctes) groups groups' ∧
      Secured p (scope ++ cteNames ctes) whereClause whereClause' ∧
      Secured p (scope ++ cteNames ctes) having having' ∧
      Secured p (scope ++ cteNames ctes) qualify qualify' ∧
      Secured p (scope ++ cteNames ctes) modifiers modifiers'
  | _, scope, .setOperation ctes children modifiers, t' =>
    ∃ ctes' children' modifiers', t' = .setOperation ctes' children' modifiers' ∧
      Secured p scope ctes ctes' ∧ Secured p (scope ++ cteNames ctes) children children' ∧
      Secured p (scope ++ cteNames ctes) modifiers modifiers'
  | _, scope, .otherQuery ctes children, t' =>
    ∃ ctes' children', t' = .otherQuery ctes' children' ∧ Secured p scope ctes ctes' ∧
      Secured p (scope ++ cteNames ctes) children children'
  | _, scope, .function name children, t' =>
    ∃ children', t' = .function name children' ∧ Secured p scope children children'
  | _, scope, .subquery q children, t' =>
    ∃ q' children', t' = .subquery q' children' ∧ Secured p scope q q' ∧
      Secured p scope children children'
  | _, scope, .otherExpr label children, t' =>
    ∃ children', t' = .otherExpr label children' ∧ Secured p scope children children'
  | _, _, .noCtes, t' => t' = .noCtes
  | _, scope, .cte name q rest, t' =>
    ∃ q' rest', t' = .cte name q' rest' ∧ Secured p scope q q' ∧
      Secured p (scope ++ [name]) rest rest'
  | _, scope, .pivotColumn pivotExpressions entries q, t' =>
    ∃ pivotExpressions' entries' q', t' = .pivotColumn pivotExpressions' entries' q' ∧
      Secured p scope pivotExpressions pivotExpressions' ∧ Secured p scope entries entries' ∧
      Secured p scope q q'
  | _, _, .nil, t' => t' = .nil
  | _, scope, .cons head tail, t' =>
    ∃ head' tail', t' = .cons head' tail' ∧ Secured p scope head head' ∧
      Secured p scope tail tail'
  | _, _, .absent, t' => t' = .absent
  | _, scope, .present child, t' => ∃ child', t' = .present child' ∧ Secured p scope child child'

/-- No column of a pivot the walk passes reads a table with policies. -/
def PivotsClean (p : PolicySnapshot) : {s : Syntax} → List Str → Ast s → Prop
  | _, scope, .subqueryRef q _ => PivotsClean p scope q
  | _, scope, .join left right condition =>
    PivotsClean p scope left ∧ PivotsClean p scope right ∧ PivotsClean p scope condition
  | _, scope, .pivot source aggregates pivots =>
    PivotsClean p scope source ∧ PivotsClean p scope aggregates ∧ ¬ Reads p scope pivots
  | _, scope, .expressionList values => PivotsClean p scope values
  | _, scope, .select ctes fromTable selectList groups whereClause having qualify modifiers =>
    PivotsClean p scope ctes ∧ PivotsClean p (scope ++ cteNames ctes) fromTable ∧
      PivotsClean p (scope ++ cteNames ctes) selectList ∧
      PivotsClean p (scope ++ cteNames ctes) groups ∧
      PivotsClean p (scope ++ cteNames ctes) whereClause ∧
      PivotsClean p (scope ++ cteNames ctes) having ∧
      PivotsClean p (scope ++ cteNames ctes) qualify ∧
      PivotsClean p (scope ++ cteNames ctes) modifiers
  | _, scope, .setOperation ctes children modifiers =>
    PivotsClean p scope ctes ∧ PivotsClean p (scope ++ cteNames ctes) children ∧
      PivotsClean p (scope ++ cteNames ctes) modifiers
  | _, scope, .function _ children => PivotsClean p scope children
  | _, scope, .subquery q children => PivotsClean p scope q ∧ PivotsClean p scope children
  | _, scope, .otherExpr _ children => PivotsClean p scope children
  | _, scope, .cte name q rest => PivotsClean p scope q ∧ PivotsClean p (scope ++ [name]) rest
  | _, scope, .pivotColumn pivotExpressions entries q =>
    ¬ Reads p scope (.pivotColumn pivotExpressions entries q)
  | _, scope, .cons head tail => PivotsClean p scope head ∧ PivotsClean p scope tail
  | _, scope, .present child => PivotsClean p scope child
  | _, _, _ => True

/-- Every relation, function and query form the walk meets is one that it lets pass. -/
def Accepts (ctx : PolicyRewriteContext) : {s : Syntax} → List Str → Ast s → Prop
  | _, scope, .baseTable name tableAlias => Succeeds (rewriteBaseTable ctx scope name tableAlias)
  | _, scope, .subqueryRef q _ => Accepts ctx scope q
  | _, scope, .join left right condition =>
    Accepts ctx scope left ∧ Accepts ctx scope right ∧ Accepts ctx scope condition
  | _, scope, .pivot source aggregates _ => Accepts ctx scope source ∧ Accepts ctx scope aggregates
  | _, scope, .expressionList values => Accepts ctx scope values
  | _, scope, .select ctes fromTable selectList groups whereClause having qualify modifiers =>
    Accepts ctx scope ctes ∧ Accepts ctx (scope ++ cteNames ctes) fromTable ∧
      Accepts ctx (scope ++ cteNames ctes) selectList ∧
      Accepts ctx (scope ++ cteNames ctes) groups ∧
      Accepts ctx (scope ++ cteNames ctes) whereClause ∧
      Accepts ctx (scope ++ cteNames ctes) having ∧
      Accepts ctx (scope ++ cteNames ctes) qualify ∧
      Accepts ctx (scope ++ cteNames ctes) modifiers
  | _, scope, .setOperation ctes children modifiers =>
    Accepts ctx scope ctes ∧ Accepts ctx (scope ++ cteNames ctes) children ∧
      Accepts ctx (scope ++ cteNames ctes) modifiers
  | _, scope, .function name children =>
    ctx.engine.isScalarMacro name = some false ∧ Accepts ctx scope children
  | _, scope, .subquery q children => Accepts ctx scope q ∧ Accepts ctx scope children
  | _, scope, .otherExpr _ children => Accepts ctx scope children
  | _, scope, .cte name q rest => Accepts ctx scope q ∧ Accepts ctx (scope ++ [name]) rest
  | _, scope, .cons head tail => Accepts ctx scope head ∧ Accepts ctx scope tail
  | _, scope, .present child => Accepts ctx scope child
  | _, _, .tableFunction _ | _, _, .otherRef _ | _, _, .otherQuery _ _ => False
  | _, _, _ => True

theorem bindsTable_of_identity {ctx : PolicyRewriteContext} {identity bound : PolicyTableIdentity}
    {tableName : Str} (h : bindingIdentity ctx tableName = .ok bound) :
    bindsTable ctx.toPolicySnapshot identity tableName = samePolicyTableIdentity identity bound := by
  have hparse : parsePolicyTableIdentity ctx.engine.tryParseName tableName
      ctx.engine.defaultCatalog = some bound := by
    unfold bindingIdentity at h
    split at h
    · next hp =>
      cases h
      exact hp
    · cases h
  rw [bindsTable, hparse]

theorem findBinding_ok {β : Type} {ctx : PolicyRewriteContext} {identity : PolicyTableIdentity}
    {tableName : β → Str} {bs : List β} {r : Option β}
    (h : findBinding ctx identity tableName bs = .ok r) :
    r = bs.find? fun b => bindsTable ctx.toPolicySnapshot identity (tableName b) := by
  induction bs with
  | nil =>
    cases h
    rfl
  | cons b bs ih =>
    simp only [findBinding, bind_eq_ok] at h
    obtain ⟨bound, hb, h⟩ := h
    rw [List.find?_cons, bindsTable_of_identity hb]
    split at h
    · next hs =>
      cases h
      rw [hs]
    · next hs =>
      rw [Bool.not_eq_true] at hs
      rw [hs]
      exact ih h

theorem findBinding_isNone {β : Type} {ctx : PolicyRewriteContext} {identity : PolicyTableIdentity}
    {tableName : β → Str} {bs : List β} {r : Option β}
    (h : findBinding ctx identity tableName bs = .ok r) :
    r.isNone = true ↔ (bs.any fun b => bindsTable ctx.toPolicySnapshot identity (tableName b)) = false := by
  rw [findBinding_ok h, Option.isNone_iff_eq_none, List.find?_eq_none, List.any_eq_false]

theorem isBound_eq_false_iff {ctx : PolicyRewriteContext} {identity : PolicyTableIdentity}
    {rap : Option RowAccessBinding} {mask : Option MaskingBinding}
    (hrap : findBinding ctx identity RowAccessBinding.tableName ctx.rapBindings = .ok rap)
    (hmask : findBinding ctx identity MaskingBinding.tableName ctx.maskBindings = .ok mask) :
    isBound ctx.toPolicySnapshot identity = false ↔ rap.isNone = true ∧ mask.isNone = true := by
  rw [isBound, Bool.or_eq_false_iff, findBinding_isNone hrap, findBinding_isNone hmask]

theorem securedTable_ok {ctx : PolicyRewriteContext} {name : QualifiedName} {tableAlias : Str}
    {t' : Ast .tableRef} (h : securedTable ctx name tableAlias = .ok t') :
    (isBound ctx.toPolicySnapshot (identityFromName name ctx.engine.defaultCatalog) = false ∧
      t' = .baseTable name tableAlias) ∨
    (isBound ctx.toPolicySnapshot (identityFromName name ctx.engine.defaultCatalog) = true ∧
      ctx.authenticated = true ∧
      ∃ q, IsSecureSubquery ctx.toPolicySnapshot name q ∧ t' = .subqueryRef q (refAlias name tableAlias)) := by
  simp only [securedTable, bind_eq_ok] at h
  obtain ⟨rap, hrap, mask, hmask, h⟩ := h
  have hbound := isBound_eq_false_iff hrap hmask
  split at h
  · next hnone =>
    cases h
    exact .inl ⟨hbound.mpr hnone, rfl⟩
  next hsome =>
  refine .inr ⟨by rw [← Bool.not_eq_false, hbound]; exact hsome, ?_⟩
  split at h
  · cases h
  next hauth =>
  obtain ⟨p, authenticated⟩ := ctx
  obtain rfl : authenticated = true := by simpa using hauth
  simp only [bind_eq_ok, pure_eq_ok] at h
  obtain ⟨q, hq, rfl⟩ := h
  exact ⟨rfl, q, ⟨rap, hrap, hq⟩, rfl⟩

theorem rewriteBaseTable_ok {ctx : PolicyRewriteContext} {scope : List Str} {name : QualifiedName}
    {tableAlias : Str} {t' : Ast .tableRef}
    (h : rewriteBaseTable ctx scope name tableAlias = .ok t') :
    (¬ readsBound ctx.toPolicySnapshot scope name ∧ t' = .baseTable name tableAlias) ∨
    (readsBound ctx.toPolicySnapshot scope name ∧ ctx.authenticated = true ∧
      ∃ q, IsSecureSubquery ctx.toPolicySnapshot name q ∧ t' = .subqueryRef q (refAlias name tableAlias)) := by
  unfold rewriteBaseTable at h
  split at h
  · next hcap =>
    cases h
    refine .inl ⟨fun hread => ?_, rfl⟩
    rw [hread.1] at hcap
    cases hcap
  next hcap =>
  rw [Bool.not_eq_true] at hcap
  split at h
  · cases h
  · cases h
  rcases securedTable_ok h with ⟨hno, rfl⟩ | ⟨hyes, hauth, hq⟩
  · refine .inl ⟨fun hread => ?_, rfl⟩
    rw [hread.2] at hno
    cases hno
  · exact .inr ⟨⟨hcap, hyes⟩, hauth, hq⟩

section
variable {p : PolicySnapshot} {ctx : PolicyRewriteContext}

theorem secured_self {s : Syntax} (scope : List Str) (t : Ast s) :
    Secured p scope t t ↔ ¬ Reads p scope t := by
  induction t generalizing scope with
  | baseTable name tableAlias =>
    constructor
    · rintro (⟨hno, _⟩ | ⟨_, _, _, hne⟩)
      · exact hno
      · cases hne
    · exact fun hno => .inl ⟨hno, rfl⟩
  | cteRef | emptyFrom | noCtes | nil | absent => exact iff_of_true rfl id
  | tableFunction v ih | expressionList v ih | otherRef v ih | function _ v ih | otherExpr _ v ih
  | present v ih | subqueryRef v _ ih =>
    constructor
    · rintro ⟨_, ⟨⟩, hv⟩
      exact (ih _).mp hv
    · exact fun h => ⟨_, rfl, (ih _).mpr h⟩
  | otherQuery _ _ ihx ihy | subquery _ _ ihx ihy | cte _ _ _ ihx ihy | cons _ _ ihx ihy =>
    simp only [Reads, not_or]
    constructor
    · rintro ⟨_, _, ⟨⟩, hx, hy⟩
      exact ⟨(ihx _).mp hx, (ihy _).mp hy⟩
    · exact fun h => ⟨_, _, rfl, (ihx _).mpr h.1, (ihy _).mpr h.2⟩
  | join _ _ _ ihx ihy ihz | pivot _ _ _ ihx ihy ihz | setOperation _ _ _ ihx ihy ihz
  | pivotColumn _ _ _ ihx ihy ihz =>
    simp only [Reads, not_or]
    constructor
    · rintro ⟨_, _, _, ⟨⟩, hx, hy, hz⟩
      exact ⟨(ihx _).mp hx, (ihy _).mp hy, (ihz _).mp hz⟩
    · exact fun h => ⟨_, _, _, rfl, (ihx _).mpr h.1, (ihy _).mpr h.2.1, (ihz _).mpr h.2.2⟩
  | select _ _ _ _ _ _ _ _ ih₁ ih₂ ih₃ ih₄ ih₅ ih₆ ih₇ ih₈ =>
    simp only [Reads, not_or]
    constructor
    · rintro ⟨_, _, _, _, _, _, _, _, ⟨⟩, h₁, h₂, h₃, h₄, h₅, h₆, h₇, h₈⟩
      exact ⟨(ih₁ _).mp h₁, (ih₂ _).mp h₂, (ih₃ _).mp h₃, (ih₄ _).mp h₄, (ih₅ _).mp h₅,
        (ih₆ _).mp h₆, (ih₇ _).mp h₇, (ih₈ _).mp h₈⟩
    · rintro ⟨h₁, h₂, h₃, h₄, h₅, h₆, h₇, h₈⟩
      exact ⟨_, _, _, _, _, _, _, _, rfl, (ih₁ _).mpr h₁, (ih₂ _).mpr h₂, (ih₃ _).mpr h₃,
        (ih₄ _).mpr h₄, (ih₅ _).mpr h₅, (ih₆ _).mpr h₆, (ih₇ _).mpr h₇, (ih₈ _).mpr h₈⟩

theorem rewritePolicy_secured_iff {s : Syntax} {scope : List Str} {t t' : Ast s}
    (h : rewritePolicy ctx scope t = .ok t') :
    Secured ctx.toPolicySnapshot scope t t' ↔ PivotsClean ctx.toPolicySnapshot scope t := by
  induction t generalizing scope with
  | baseTable name tableAlias =>
    refine iff_of_true ?_ trivial
    exact (rewriteBaseTable_ok h).imp id fun ⟨hread, _, hq⟩ => ⟨hread, hq⟩
  | tableFunction | otherRef => cases h
  | otherQuery =>
    simp only [rewritePolicy, bind_eq_ok] at h
    obtain ⟨_, _, h⟩ := h
    cases h
  | pivot source aggregates pivots ihs iha =>
    simp only [rewritePolicy, bind_eq_ok, pure_eq_ok] at h
    obtain ⟨a, ha, b, hb, rfl⟩ := h
    constructor
    · rintro ⟨_, _, _, ⟨⟩, hs, hagg, hpivots⟩
      exact ⟨(ihs ha).mp hs, (iha hb).mp hagg, (secured_self _ _).mp hpivots⟩
    · rintro ⟨hs, hagg, hpivots⟩
      exact ⟨_, _, _, rfl, (ihs ha).mpr hs, (iha hb).mpr hagg, (secured_self _ _).mpr hpivots⟩
  | pivotColumn =>
    simp only [rewritePolicy, pure_eq_ok] at h
    rw [← h, secured_self, PivotsClean]
  | cteRef | emptyFrom | noCtes | nil | absent =>
    simp only [rewritePolicy, pure_eq_ok] at h
    exact iff_of_true h.symm trivial
  | expressionList v ih | otherExpr l v ih | present v ih | subqueryRef v l ih =>
    simp only [rewritePolicy, bind_eq_ok, pure_eq_ok] at h
    obtain ⟨a, ha, rfl⟩ := h
    constructor
    · rintro ⟨_, ⟨⟩, hv⟩
      exact (ih ha).mp hv
    · exact fun hv => ⟨_, rfl, (ih ha).mpr hv⟩
  | function name children ih =>
    simp only [rewritePolicy, bind_eq_ok, pure_eq_ok] at h
    obtain ⟨_, _, a, ha, rfl⟩ := h
    constructor
    · rintro ⟨_, ⟨⟩, hv⟩
      exact (ih ha).mp hv
    · exact fun hv => ⟨_, rfl, (ih ha).mpr hv⟩
  | subquery x y ihx ihy | cte _ x y ihx ihy | cons x y ihx ihy =>
    simp only [rewritePolicy, bind_eq_ok, pure_eq_ok, onError_eq_ok] at h
    obtain ⟨a, ha, b, hb, rfl⟩ := h
    constructor
    · rintro ⟨_, _, ⟨⟩, hx, hy⟩
      exact ⟨(ihx ha).mp hx, (ihy hb).mp hy⟩
    · rintro ⟨hx, hy⟩
      exact ⟨_, _, rfl, (ihx ha).mpr hx, (ihy hb).mpr hy⟩
  | join x y z ihx ihy ihz | setOperation x y z ihx ihy ihz =>
    simp only [rewritePolicy, bind_eq_ok, pure_eq_ok] at h
    obtain ⟨a, ha, b, hb, c, hc, rfl⟩ := h
    constructor
    · rintro ⟨_, _, _, ⟨⟩, hx, hy, hz⟩
      exact ⟨(ihx ha).mp hx, (ihy hb).mp hy, (ihz hc).mp hz⟩
    · rintro ⟨hx, hy, hz⟩
      exact ⟨_, _, _, rfl, (ihx ha).mpr hx, (ihy hb).mpr hy, (ihz hc).mpr hz⟩
  | select ctes fromTable selectList groups whereClause having qualify modifiers ih₁ ih₂ ih₃ ih₄ ih₅
      ih₆ ih₇ ih₈ =>
    simp only [rewritePolicy, bind_eq_ok, pure_eq_ok] at h
    obtain ⟨_, h₁, _, h₂, _, h₃, _, h₄, _, h₅, _, h₆, _, h₇, _, h₈, rfl⟩ := h
    constructor
    · rintro ⟨_, _, _, _, _, _, _, _, ⟨⟩, s₁, s₂, s₃, s₄, s₅, s₆, s₇, s₈⟩
      exact ⟨(ih₁ h₁).mp s₁, (ih₂ h₂).mp s₂, (ih₃ h₃).mp s₃, (ih₄ h₄).mp s₄, (ih₅ h₅).mp s₅,
        (ih₆ h₆).mp s₆, (ih₇ h₇).mp s₇, (ih₈ h₈).mp s₈⟩
    · rintro ⟨p₁, p₂, p₃, p₄, p₅, p₆, p₇, p₈⟩
      exact ⟨_, _, _, _, _, _, _, _, rfl, (ih₁ h₁).mpr p₁, (ih₂ h₂).mpr p₂, (ih₃ h₃).mpr p₃,
        (ih₄ h₄).mpr p₄, (ih₅ h₅).mpr p₅, (ih₆ h₆).mpr p₆, (ih₇ h₇).mpr p₇, (ih₈ h₈).mpr p₈⟩

theorem checkFunction_succeeds {name : QualifiedName} :
    Succeeds (checkFunction ctx name) ↔ ctx.engine.isScalarMacro name = some false := by
  unfold checkFunction
  split
  · next h => simp [Succeeds, h]
  · next h => simp [Succeeds, h]
  · next h => simp [Succeeds, h]

theorem rewritePolicy_succeeds_iff {s : Syntax} (scope : List Str) (t : Ast s) :
    Succeeds (rewritePolicy ctx scope t) ↔ Accepts ctx scope t := by
  induction t generalizing scope with
  | baseTable => rfl
  | tableFunction | otherRef => exact iff_of_false not_succeeds_throw id
  | otherQuery =>
    refine iff_of_false (fun h => ?_) id
    obtain ⟨_, _, h⟩ := succeeds_bind.mp h
    exact not_succeeds_throw h
  | pivotColumn | cteRef | emptyFrom | noCtes | nil | absent => exact iff_of_true ⟨_, rfl⟩ trivial
  | expressionList v ih | otherExpr l v ih | present v ih | subqueryRef v l ih =>
    exact succeeds_last (ih _)
  | function name children ih =>
    exact succeeds_seq checkFunction_succeeds fun _ => succeeds_last (ih _)
  | subquery x y ihx ihy | cte _ x y ihx ihy =>
    exact succeeds_seq (succeeds_onError.trans (ihx _)) fun _ => succeeds_last (ihy _)
  | cons x y ihx ihy | pivot x y _ ihx ihy =>
    exact succeeds_seq (ihx _) fun _ => succeeds_last (ihy _)
  | join x y z ihx ihy ihz | setOperation x y z ihx ihy ihz =>
    exact succeeds_seq (ihx _) fun _ => succeeds_seq (ihy _) fun _ => succeeds_last (ihz _)
  | select ctes fromTable selectList groups whereClause having qualify modifiers ih₁ ih₂ ih₃ ih₄ ih₅
      ih₆ ih₇ ih₈ =>
    exact succeeds_seq (ih₁ _) fun _ => succeeds_seq (ih₂ _) fun _ => succeeds_seq (ih₃ _) fun _ =>
      succeeds_seq (ih₄ _) fun _ => succeeds_seq (ih₅ _) fun _ => succeeds_seq (ih₆ _) fun _ =>
        succeeds_seq (ih₇ _) fun _ => succeeds_last (ih₈ _)

theorem not_reads_of_accepts (hauth : ctx.authenticated = false) {s : Syntax} {scope : List Str}
    {t : Ast s} (ht : Accepts ctx scope t) (hp : PivotsClean ctx.toPolicySnapshot scope t) :
    ¬ Reads ctx.toPolicySnapshot scope t := by
  induction t generalizing scope with
  | baseTable name tableAlias =>
    obtain ⟨t', ht'⟩ := ht
    rcases rewriteBaseTable_ok ht' with ⟨hno, _⟩ | ⟨_, hyes, _⟩
    · exact hno
    · rw [hauth] at hyes
      cases hyes
  | tableFunction | otherRef | otherQuery => cases ht
  | pivotColumn => exact hp
  | cteRef | emptyFrom | noCtes | nil | absent => exact id
  | expressionList v ih | otherExpr l v ih | present v ih | subqueryRef v l ih => exact ih ht hp
  | function name children ih => exact ih ht.2 hp
  | pivot x y z ihx ihy =>
    simp only [Reads, not_or]
    exact ⟨ihx ht.1 hp.1, ihy ht.2 hp.2.1, hp.2.2⟩
  | subquery x y ihx ihy | cte _ x y ihx ihy | cons x y ihx ihy =>
    simp only [Reads, not_or]
    exact ⟨ihx ht.1 hp.1, ihy ht.2 hp.2⟩
  | join x y z ihx ihy ihz | setOperation x y z ihx ihy ihz =>
    simp only [Reads, not_or]
    exact ⟨ihx ht.1 hp.1, ihy ht.2.1 hp.2.1, ihz ht.2.2 hp.2.2⟩
  | select ctes fromTable selectList groups whereClause having qualify modifiers ih₁ ih₂ ih₃ ih₄ ih₅
      ih₆ ih₇ ih₈ =>
    obtain ⟨h₁, h₂, h₃, h₄, h₅, h₆, h₇, h₈⟩ := ht
    obtain ⟨p₁, p₂, p₃, p₄, p₅, p₆, p₇, p₈⟩ := hp
    simp only [Reads, not_or]
    exact ⟨ih₁ h₁ p₁, ih₂ h₂ p₂, ih₃ h₃ p₃, ih₄ h₄ p₄, ih₅ h₅ p₅, ih₆ h₆ p₆, ih₇ h₇ p₇, ih₈ h₈ p₈⟩

theorem pivotsClean_of_not_reads {s : Syntax} {scope : List Str} {t : Ast s}
    (h : ¬ Reads p scope t) : PivotsClean p scope t := by
  induction t generalizing scope with
  | baseTable | tableFunction | otherRef | otherQuery | cteRef | emptyFrom | noCtes | nil
  | absent => trivial
  | pivotColumn => exact h
  | expressionList v ih | otherExpr _ v ih | present v ih | subqueryRef v _ ih | function _ v ih =>
    exact ih h
  | pivot _ _ _ ihx ihy =>
    simp only [Reads, not_or] at h
    exact ⟨ihx h.1, ihy h.2.1, h.2.2⟩
  | subquery _ _ ihx ihy | cte _ _ _ ihx ihy | cons _ _ ihx ihy =>
    simp only [Reads, not_or] at h
    exact ⟨ihx h.1, ihy h.2⟩
  | join _ _ _ ihx ihy ihz | setOperation _ _ _ ihx ihy ihz =>
    simp only [Reads, not_or] at h
    exact ⟨ihx h.1, ihy h.2.1, ihz h.2.2⟩
  | select _ _ _ _ _ _ _ _ ih₁ ih₂ ih₃ ih₄ ih₅ ih₆ ih₇ ih₈ =>
    simp only [Reads, not_or] at h
    obtain ⟨h₁, h₂, h₃, h₄, h₅, h₆, h₇, h₈⟩ := h
    exact ⟨ih₁ h₁, ih₂ h₂, ih₃ h₃, ih₄ h₄, ih₅ h₅, ih₆ h₆, ih₇ h₇, ih₈ h₈⟩

theorem not_reads_of_unbound (hr : p.rapBindings = []) (hm : p.maskBindings = []) {s : Syntax}
    (scope : List Str) (t : Ast s) : ¬ Reads p scope t := by
  induction t generalizing scope with
  | baseTable name tableAlias =>
    rintro ⟨_, hbound⟩
    rw [isBound, hr, hm] at hbound
    cases hbound
  | cteRef | emptyFrom | noCtes | nil | absent => exact id
  | tableFunction v ih | expressionList v ih | otherRef v ih | function _ v ih | otherExpr _ v ih
  | present v ih | subqueryRef v _ ih => exact ih _
  | otherQuery _ _ ihx ihy | subquery _ _ ihx ihy | cte _ _ _ ihx ihy | cons _ _ ihx ihy =>
    simp only [Reads, not_or]
    exact ⟨ihx _, ihy _⟩
  | join _ _ _ ihx ihy ihz | pivot _ _ _ ihx ihy ihz | setOperation _ _ _ ihx ihy ihz
  | pivotColumn _ _ _ ihx ihy ihz =>
    simp only [Reads, not_or]
    exact ⟨ihx _, ihy _, ihz _⟩
  | select _ _ _ _ _ _ _ _ ih₁ ih₂ ih₃ ih₄ ih₅ ih₆ ih₇ ih₈ =>
    simp only [Reads, not_or]
    exact ⟨ih₁ _, ih₂ _, ih₃ _, ih₄ _, ih₅ _, ih₆ _, ih₇ _, ih₈ _⟩

/-- The context of a failed walk denies the request or holds an error. -/
def RewriteFailure.Visible (f : RewriteFailure) : Prop := f.deny = true ∨ f.error ≠ []

theorem rejectAfter_visible {reason : String} (hr : reason ≠ "") (f : RewriteFailure) :
    (rejectAfter ctx reason f).Visible := by
  right
  simp only [rejectAfter]
  split
  · rwa [ne_eq, String.toList_eq_nil_iff]
  · next h =>
    intro he
    rw [he] at h
    exact h rfl

theorem failsIn_reject {α : Type} {reason : String} (hr : reason ≠ "") :
    FailsIn RewriteFailure.Visible (.error (reject ctx reason) : Rewrite α) :=
  failsIn_error (rejectAfter_visible hr _)

theorem nestedFailure_visible {f : RewriteFailure} (h : f.Visible) :
    (nestedFailure ctx f).Visible := by
  unfold nestedFailure
  split
  · exact rejectAfter_visible (by decide) f
  · exact h

theorem bindingIdentity_visible (tableName : Str) :
    FailsIn RewriteFailure.Visible (bindingIdentity ctx tableName) := by
  unfold bindingIdentity
  split
  · exact failsIn_ok
  · exact failsIn_reject (by decide)

theorem findBinding_visible {β : Type} (identity : PolicyTableIdentity) (tableName : β → Str)
    (bs : List β) : FailsIn RewriteFailure.Visible (findBinding ctx identity tableName bs) := by
  induction bs with
  | nil => exact failsIn_ok
  | cons b bs ih =>
    refine (bindingIdentity_visible _).bind fun bound => ?_
    split
    · exact failsIn_pure
    · exact ih

theorem maskedColumns_visible (identity : PolicyTableIdentity) (bs : List MaskingBinding) :
    FailsIn RewriteFailure.Visible (maskedColumns ctx identity bs) := by
  induction bs with
  | nil => exact failsIn_ok
  | cons b bs ih =>
    refine (bindingIdentity_visible _).bind fun bound => ?_
    split
    · split
      · exact failsIn_reject (by decide)
      · exact ih.bind fun _ => failsIn_pure
    · exact ih

theorem secureSubquery_visible (identity : PolicyTableIdentity) (rap : Option RowAccessBinding) :
    FailsIn RewriteFailure.Visible (secureSubquery ctx identity rap) := by
  have hwhere : FailsIn RewriteFailure.Visible (whereExpr ctx rap) := by
    unfold whereExpr
    split
    · exact failsIn_ok
    · split
      · exact failsIn_reject (by decide)
      · exact failsIn_ok
  refine hwhere.bind fun filter => (maskedColumns_visible _ _).bind fun masked => ?_
  split
  · exact failsIn_pure
  · exact failsIn_reject (by decide)

theorem rewriteBaseTable_visible (scope : List Str) (name : QualifiedName) (tableAlias : Str) :
    FailsIn RewriteFailure.Visible (rewriteBaseTable ctx scope name tableAlias) := by
  unfold rewriteBaseTable
  split
  · exact failsIn_ok
  split
  · exact failsIn_reject (by decide)
  · exact failsIn_reject (by decide)
  refine (findBinding_visible _ _ _).bind fun rap => (findBinding_visible _ _ _).bind fun mask => ?_
  split
  · exact failsIn_pure
  split
  · exact failsIn_error (.inl rfl)
  · exact (secureSubquery_visible _ _).bind fun _ => failsIn_pure

theorem checkFunction_visible (name : QualifiedName) :
    FailsIn RewriteFailure.Visible (checkFunction ctx name) := by
  unfold checkFunction
  split
  · exact failsIn_reject (by decide)
  · exact failsIn_reject (by decide)
  · exact failsIn_ok

theorem rewritePolicy_visible {s : Syntax} (scope : List Str) (t : Ast s) :
    FailsIn RewriteFailure.Visible (rewritePolicy ctx scope t) := by
  induction t generalizing scope with
  | baseTable => exact rewriteBaseTable_visible _ _ _
  | tableFunction | otherRef => exact failsIn_reject (by decide)
  | otherQuery _ _ ih => exact (ih _).bind fun _ => failsIn_reject (by decide)
  | pivotColumn | cteRef | emptyFrom | noCtes | nil | absent => exact failsIn_pure
  | expressionList v ih | otherExpr l v ih | present v ih | subqueryRef v l ih =>
    exact (ih _).bind fun _ => failsIn_pure
  | function name children ih =>
    exact (checkFunction_visible _).bind fun _ => (ih _).bind fun _ => failsIn_pure
  | subquery x y ihx ihy =>
    exact ((ihx _).onError fun _ => nestedFailure_visible).bind fun _ =>
      (ihy _).bind fun _ => failsIn_pure
  | cte name x y ihx ihy =>
    exact ((ihx _).onError fun f _ => rejectAfter_visible (by decide) f).bind fun _ =>
      (ihy _).bind fun _ => failsIn_pure
  | cons x y ihx ihy | pivot x y _ ihx ihy =>
    exact (ihx _).bind fun _ => (ihy _).bind fun _ => failsIn_pure
  | join x y z ihx ihy ihz | setOperation x y z ihx ihy ihz =>
    exact (ihx _).bind fun _ => (ihy _).bind fun _ => (ihz _).bind fun _ => failsIn_pure
  | select ctes fromTable selectList groups whereClause having qualify modifiers ih₁ ih₂ ih₃ ih₄ ih₅
      ih₆ ih₇ ih₈ =>
    exact (ih₁ _).bind fun _ => (ih₂ _).bind fun _ => (ih₃ _).bind fun _ => (ih₄ _).bind fun _ =>
      (ih₅ _).bind fun _ => (ih₆ _).bind fun _ => (ih₇ _).bind fun _ => (ih₈ _).bind fun _ =>
        failsIn_pure

theorem failedRewrite_not_executable {f : RewriteFailure} (h : f.Visible) :
    (failedRewrite ctx f).executable = false := by
  rcases h with h | h
  · simp [failedRewrite, HandlerRewrite.executable, h]
  · simp [failedRewrite, HandlerRewrite.executable, h]

end

/-- The tree whose SQL a rewrite lets run, the handler's own one where nothing was rewritten. -/
def HandlerRewrite.tree (r : HandlerRewrite) (q : Ast .query) : Ast .query :=
  match r.sql with
  | .original => q
  | .printed q' => q'

theorem rewriteHandler_executable {ctx : PolicyRewriteContext} {q : Ast .query}
    (h : (rewriteHandler ctx (.select q)).executable = true) :
    (ctx.rapBindings = [] ∧ ctx.maskBindings = [] ∧ (rewriteHandler ctx (.select q)).tree q = q) ∨
      rewritePolicy ctx [] q = .ok ((rewriteHandler ctx (.select q)).tree q) := by
  revert h
  simp only [rewriteHandler]
  split
  · next hno =>
    intro _
    simp only [Bool.and_eq_true, List.isEmpty_iff] at hno
    exact .inl ⟨hno.1, hno.2, rfl⟩
  rcases hr : rewritePolicy ctx [] q with f | q'
  · intro h
    rw [failedRewrite_not_executable (rewritePolicy_visible _ _ f hr)] at h
    cases h
  · intro _
    exact .inr rfl

/-- What the enforcement promises of a handler: whatever runs for a caller is its secured form, and
for nobody nothing runs that reads a table with policies. -/
structure PolicyEnforced (p : PolicySnapshot) (q : Ast .query) : Prop where
  secured : (rewriteHandler ⟨p, true⟩ (.select q)).executable = true →
    Secured p [] q ((rewriteHandler ⟨p, true⟩ (.select q)).tree q)
  denied : Reads p [] q → (rewriteHandler ⟨p, false⟩ (.select q)).executable = false

/-- The promise holds exactly when no pivot column of a handler that passes reads such a table. -/
theorem policy_rewrite_complete (p : PolicySnapshot) (q : Ast .query) :
    PolicyEnforced p q ↔
      ((∃ authenticated, Accepts ⟨p, authenticated⟩ [] q) → PivotsClean p [] q) := by
  constructor
  · -- the walk succeeds for the caller at hand, so what it promises shows in that caller's result
    rintro ⟨hsecured, hdenied⟩ ⟨authenticated, haccepts⟩
    obtain ⟨q', hq'⟩ := (rewritePolicy_succeeds_iff [] q).mpr haccepts
    by_cases hno : p.rapBindings = [] ∧ p.maskBindings = []
    · exact pivotsClean_of_not_reads (not_reads_of_unbound hno.1 hno.2 [] q)
    have hrun : rewriteHandler ⟨p, authenticated⟩ (.select q) = ⟨false, [], .printed q'⟩ := by
      simp only [rewriteHandler, hq']
      rw [if_neg (by simpa using hno)]
    cases authenticated with
    | true =>
      rw [hrun] at hsecured
      exact (rewritePolicy_secured_iff hq').mp (hsecured rfl)
    | false =>
      rw [hrun] at hdenied
      refine pivotsClean_of_not_reads fun hreads => ?_
      cases hdenied hreads
  · intro hclean
    constructor
    · intro hexec
      rcases rewriteHandler_executable hexec with ⟨hr, hm, htree⟩ | hq'
      · rw [htree, secured_self]
        exact not_reads_of_unbound hr hm [] q
      · have haccepts := (rewritePolicy_succeeds_iff [] q).mp ⟨_, hq'⟩
        exact (rewritePolicy_secured_iff hq').mpr (hclean ⟨true, haccepts⟩)
    · intro hreads
      by_contra hexec
      rw [Bool.not_eq_false] at hexec
      rcases rewriteHandler_executable hexec with ⟨hr, hm, _⟩ | hq'
      · exact not_reads_of_unbound hr hm [] q hreads
      · have haccepts := (rewritePolicy_succeeds_iff [] q).mp ⟨_, hq'⟩
        exact not_reads_of_accepts rfl haccepts (hclean ⟨false, haccepts⟩) hreads

/-- `SELECT <column> FROM <table>`. -/
def selectFrom (column table : String) : Ast .query :=
  .select .noCtes (.baseTable ⟨[], [], table.toList⟩ []) (.cons (.otherExpr column.toList .nil) .nil)
    .nil .absent .absent .absent .nil

/-- `SELECT * FROM sales PIVOT (sum(amount) FOR kind IN (SELECT kind FROM secret))`. -/
def pivotOverSecret : Ast .query :=
  .select .noCtes
    (.pivot (.baseTable ⟨[], [], "sales".toList⟩ [])
      (.cons (.function ⟨[], [], "sum".toList⟩ (.cons (.otherExpr "amount".toList .nil) .nil)) .nil)
      (.cons (.pivotColumn (.cons (.otherExpr "kind".toList .nil) .nil) .nil
        (.present (selectFrom "kind" "secret"))) .nil))
    (.cons (.otherExpr "*".toList .nil) .nil) .nil .absent .absent .absent .nil

/-- One row policy on the table `secret`. -/
def secretSnapshot : PolicySnapshot where
  engine :=
    { tryParseName := plainName
      defaultCatalog := "memory".toList
      isCatalogView := fun _ => some false
      isScalarMacro := fun _ => some false
      parseSecureSubquery := fun _ => some (selectFrom "*" "secret") }
  rapBindings := [⟨"secret".toList, "mine".toList, ["kind".toList]⟩]
  maskBindings := []
  registry := ⟨[⟨"mine".toList, ["k".toList], [[]], "k = $claims_sub".toList⟩], [],
    [⟨"secret".toList, "mine".toList, ["kind".toList]⟩], []⟩

theorem pivotOverSecret_runs : ¬ ∀ p q, PolicyEnforced p q := by
  intro h
  have hreads : Reads secretSnapshot [] pivotOverSecret :=
    .inr (.inl (.inr (.inr (.inl (.inr (.inr (.inr (.inl ⟨by decide, by decide⟩))))))))
  have hdenied := (h secretSnapshot pivotOverSecret).denied hreads
  have hruns : (rewriteHandler ⟨secretSnapshot, false⟩ (.select pivotOverSecret)).executable = true := by
    rfl
  rw [hruns] at hdenied
  cases hdenied

end Quackapi.Policy
