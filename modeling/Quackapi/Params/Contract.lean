import Quackapi.Params.Binding

/-! The contract of a declared parameter: a handler runs on literals of the declared type within the
declared bounds, and nothing else is refused. The names a declaration may use and the names the
binder knows come from two tables, so the contract depends on the type the binder ends up with. -/

namespace Quackapi.Params
open Library

def denotedName (name : Str) : Option LogicalType :=
  if name = "INTEGER".toList ∨ name = "INT".toList then some (.integral .integer)
  else if name = "BIGINT".toList then some (.integral .bigint)
  else if name = "SMALLINT".toList then some (.integral .smallint)
  else if name = "TINYINT".toList then some (.integral .tinyint)
  else if name = "HUGEINT".toList then some (.integral .hugeint)
  else if name = "UBIGINT".toList then some (.integral .ubigint)
  else if name = "UINTEGER".toList then some (.integral .uinteger)
  else if name = "USMALLINT".toList then some (.integral .usmallint)
  else if name = "UTINYINT".toList then some (.integral .utinyint)
  else if name = "DOUBLE".toList then some .double
  else if name = "FLOAT".toList ∨ name = "REAL".toList then some .float
  else if name = "DECIMAL".toList ∨ name = "NUMERIC".toList then some (.decimal 18 3)
  else if name = "VARCHAR".toList ∨ name = "TEXT".toList ∨ name = "STRING".toList then some .varchar
  else if name = "BOOLEAN".toList ∨ name = "BOOL".toList then some .boolean
  else none

/-- The text is a literal of the type, with this value. -/
def Literal (e : ParamEngine) (t : LogicalType) (v : Str) (x : Value) : Prop :=
  match t with
  | .integral i => ∃ n : Numeral, v = n.text ∧ (n.negative = true → i.isUnsigned = false) ∧
      i.contains n.value = true ∧ x = .number (.integer n.value)
  | .float | .double => ∃ bits, e.castFloating t v = some bits ∧ x = .number (.floating bits)
  | .decimal width scale => ∃ unscaled, castDecimal e width scale v = some unscaled ∧
      x = .number (.decimal unscaled scale)
  | .boolean => ∃ b, e.castBoolean v = some b ∧ x = .boolean b
  | .varchar => x = .text v
  | _ => False

/-- The number a literal stands for; a text stands for the numeric literal it is. -/
def mathValue (e : ParamEngine) : Value → Option Number
  | .boolean b => some (.integer (if b then 1 else 0))
  | .number n => some n
  | .text s => e.numericLiteral s
  | _ => none

structure Contract (e : ParamEngine) (t : LogicalType) (spec : ParamSpec) (v : Str) : Prop where
  literal : ∃ x, Literal e t v x ∧ ∀ b ∈ spec.bounds, ∃ n, mathValue e x = some n ∧
    compareNumbers e b.1 n b.2 = true
  length : ∃ n, codePoints v = some n ∧ spec.lengthsHold n

/-- The type reads the text, and the bound, if any, holds of what it reads. -/
def Reads (e : ParamEngine) (t : LogicalType) (bound : Option (Comparison × Number)) (v : Str) :
    Prop :=
  ∃ x, readText e t v = some x ∧ ∀ b ∈ bound, x = .null ∨
    ∃ n, constraintNumber e v false x = some n ∧ compareNumbers e b.1 n b.2 = true

theorem Reads.none {e : ParamEngine} {t : LogicalType} {bound : Option (Comparison × Number)}
    {v : Str} (h : Reads e t bound v) : Reads e t none v := by
  obtain ⟨x, hx, _⟩ := h
  exact ⟨x, hx, fun _ hb => nomatch hb⟩

/-- The checks of a text against a type and the constraints of a declaration. -/
def Passes (e : ParamEngine) (t : LogicalType) (spec : ParamSpec) (v : Str) : Prop :=
  isUtf8 v = true ∧ spec.lengthsHold (characterCount v) ∧ Reads e t none v ∧
    ∀ b ∈ spec.bounds, Reads e t (some b) v

theorem passes_iff_checks {e : ParamEngine} {t : LogicalType} {spec : ParamSpec} {v : Str} :
    Passes e t spec v ↔ isUtf8 v = true ∧ ∃ x, readText e t v = some x ∧
      checkParamConstraints e spec v x false = .ok () := by
  simp only [checkParamConstraints_ok]
  refine and_congr_right fun _ => ?_
  constructor
  · rintro ⟨hlen, ⟨x, hx, _⟩, hbounds⟩
    refine ⟨x, hx, hlen, ?_⟩
    have hone : ∀ b ∈ spec.bounds, x = .null ∨
        ∃ n, constraintNumber e v false x = some n ∧ compareNumbers e b.1 n b.2 = true := by
      intro b hb
      obtain ⟨y, hy, hall⟩ := hbounds b hb
      obtain rfl : x = y := Option.some.inj (hx.symm.trans hy)
      exact hall b rfl
    by_cases hnull : x = .null
    · exact .inr (.inl hnull)
    rcases hb : spec.bounds with _ | ⟨b, bs⟩
    · exact .inl hb
    · -- every bound was compared with the same number
      have hnum := fun b hb => (hone b hb).resolve_left hnull
      obtain ⟨n, hn, _⟩ := hnum b (by rw [hb]; exact List.mem_cons_self)
      refine .inr (.inr ⟨n, hn, fun c hc => ?_⟩)
      obtain ⟨m, hm, hcmp⟩ := hnum c hc
      obtain rfl : n = m := Option.some.inj (hn.symm.trans hm)
      exact hcmp
  · rintro ⟨x, hx, hlen, hbounds⟩
    refine ⟨hlen, ⟨x, hx, fun _ h => nomatch h⟩, fun b hb => ⟨x, hx, ?_⟩⟩
    rintro b' hb'
    cases hb'
    rcases hbounds with hnil | hnull | ⟨n, hn, hall⟩
    · rw [hnil] at hb
      cases hb
    · exact .inl hnull
    · exact .inr ⟨n, hn, hall b hb⟩

/-- Two types read every text alike: both refuse it, or the same bounds hold of both readings. A
`VARIANT` is checked in another way than any type. -/
def SameReading (e : ParamEngine) (t u : LogicalType) : Prop :=
  t ≠ .variant ∧ ∀ v, isUtf8 v = true → ∀ bound, Reads e t bound v ↔ Reads e u bound v

theorem SameReading.passes {e : ParamEngine} {t u : LogicalType} (h : SameReading e t u)
    {spec : ParamSpec} {v : Str} : Passes e t spec v ↔ Passes e u spec v := by
  refine and_congr_right fun hutf => and_congr_right fun _ => ?_
  rw [h.2 v hutf]
  refine and_congr_right fun _ => forall₂_congr fun b _ => ?_
  exact h.2 v hutf (some b)

def LogicalType.scalar : LogicalType → Bool
  | .integral _ | .float | .double | .decimal _ _ | .boolean | .varchar => true
  | _ => false

theorem readText_iff {e : ParamEngine} {t : LogicalType} (ht : t.scalar = true) {v : Str}
    {x : Value} : readText e t v = some x ↔ Literal e t v x := by
  unfold readText Literal
  cases t with
  | integral i =>
    have hstrict : isStrictIntegerString v (allowsNegative (.integral i)) = true ↔
        ∃ n : Numeral, v = n.text ∧ (n.negative = true → i.isUnsigned = false) := by
      rw [isStrictIntegerString_iff]
      simp only [allowsNegative, Bool.not_eq_true']
    constructor
    · intro h
      split at h
      · cases h
      · next hs =>
        simp only [isIntegralType, Bool.true_and, Bool.not_eq_true', Bool.not_eq_false] at hs
        obtain ⟨n, rfl, hneg⟩ := hstrict.mp hs
        simp only [tryCast, integerOf_numeral] at h
        split at h
        · next hin =>
          cases h
          exact ⟨n, rfl, hneg, hin, rfl⟩
        · cases h
    · rintro ⟨n, rfl, hneg, hin, rfl⟩
      have hs := hstrict.mpr ⟨n, rfl, hneg⟩
      rw [if_neg (by simp [hs])]
      simp only [tryCast, integerOf_numeral, hin, if_true]
  | float | double | decimal _ _ | boolean =>
    have hmap : ∀ {α : Type} {o : Option α} {f : α → Value},
        o.map f = some x ↔ ∃ a, o = some a ∧ x = f a := by
      intro α o f
      rw [Option.map_eq_some_iff]
      exact exists_congr fun a => and_congr_right fun _ => eq_comm
    simp only [isIntegralType, Bool.false_and, Bool.false_eq_true, if_false, tryCast]
    exact hmap
  | varchar =>
    simp only [isIntegralType, Bool.false_and, Bool.false_eq_true, if_false, tryCast,
      Option.some.injEq]
    exact eq_comm
  | _ => cases ht

theorem Literal.number {e : ParamEngine} {t : LogicalType} {v : Str} {x : Value}
    (h : Literal e t v x) : x ≠ .null ∧ constraintNumber e v false x = mathValue e x := by
  unfold Literal at h
  split at h
  · obtain ⟨_, _, _, _, rfl⟩ := h
    exact ⟨nofun, rfl⟩
  · obtain ⟨_, _, rfl⟩ := h
    exact ⟨nofun, rfl⟩
  · obtain ⟨_, _, rfl⟩ := h
    exact ⟨nofun, rfl⟩
  · obtain ⟨_, _, rfl⟩ := h
    exact ⟨nofun, rfl⟩
  · obtain ⟨_, _, rfl⟩ := h
    exact ⟨nofun, rfl⟩
  · obtain rfl := h
    exact ⟨nofun, rfl⟩
  · cases h

theorem passes_iff_contract {e : ParamEngine} {t : LogicalType} (ht : t.scalar = true)
    {spec : ParamSpec} {v : Str} : Passes e t spec v ↔ Contract e t spec v := by
  constructor
  · rintro ⟨hutf, hlen, ⟨x, hx, _⟩, hbounds⟩
    obtain ⟨n, hn⟩ := Option.isSome_iff_exists.mp hutf
    have hlit := (readText_iff ht).mp hx
    refine ⟨⟨x, hlit, fun b hb => ?_⟩, n, hn, by rwa [characterCount_eq hn] at hlen⟩
    obtain ⟨y, hy, hall⟩ := hbounds b hb
    obtain rfl : x = y := Option.some.inj (hx.symm.trans hy)
    rcases hall b rfl with hnull | ⟨m, hm, hc⟩
    · exact absurd hnull hlit.number.1
    · exact ⟨m, hlit.number.2 ▸ hm, hc⟩
  · rintro ⟨⟨x, hlit, hbounds⟩, n, hn, hlen⟩
    have hx := (readText_iff ht).mpr hlit
    refine ⟨Option.isSome_iff_exists.mpr ⟨n, hn⟩, by rwa [characterCount_eq hn],
      ⟨x, hx, fun _ h => nomatch h⟩, fun b hb => ⟨x, hx, ?_⟩⟩
    rintro b' hb'
    cases hb'
    obtain ⟨m, hm, hc⟩ := hbounds b hb
    exact .inr ⟨m, hlit.number.2.trans hm, hc⟩

/-- A name the binder's table lacks denotes one of these types. -/
def unlistedTypes : List LogicalType :=
  [.integral .ubigint, .integral .uinteger, .integral .usmallint, .integral .utinyint,
    .decimal 18 3]

theorem names_agree : ∀ name ∈ paramTypeNames, name ≠ "VARIANT".toList →
    storedName name ≠ [] ∧ ∃ t ∈ denotedName name, t.scalar = true ∧
      (listedType (upper (storedName name)) = some t ∨
        listedType (upper (storedName name)) = none ∧ t ∈ unlistedTypes) := by
  decide

/-- A type name of `CREATE ROUTE` other than `VARIANT`. -/
structure DeclaredType where
  tok : Str
  accepted : isParamTypeName tok = true
  notVariant : upper tok ≠ "VARIANT".toList

namespace DeclaredType

def type (d : DeclaredType) : LogicalType := (denotedName (upper d.tok)).getD .varchar

theorem spec (d : DeclaredType) :
    storedTypeName d.tok ≠ [] ∧ d.type.scalar = true ∧
      (listedType (upper (storedTypeName d.tok)) = some d.type ∨
        listedType (upper (storedTypeName d.tok)) = none ∧ d.type ∈ unlistedTypes) := by
  obtain ⟨hne, t, ht, hrest⟩ :=
    names_agree (upper d.tok) (List.elem_iff.mp d.accepted) d.notVariant
  have htype : d.type = t := by rw [type, Option.mem_def.mp ht, Option.getD_some]
  rw [htype]
  exact ⟨hne, hrest⟩

def checked (d : DeclaredType) (planner : LogicalType) : LogicalType :=
  boundType (storedTypeName d.tok) planner

def listed (d : DeclaredType) : Bool := (listedType (upper (storedTypeName d.tok))).isSome

theorem checked_cases (d : DeclaredType) (planner : LogicalType) :
    d.listed = true ∧ d.checked planner = d.type ∨
      d.listed = false ∧ d.type ∈ unlistedTypes ∧ d.checked planner = planner := by
  obtain ⟨hne, _, hlisted | ⟨hnone, hmem⟩⟩ := d.spec
  · left
    rw [listed, checked, boundType, if_neg (by simpa using hne), hlisted]
    exact ⟨rfl, rfl⟩
  · right
    rw [listed, checked, boundType, if_neg (by simpa using hne), hnone]
    exact ⟨rfl, hmem, rfl⟩

end DeclaredType

/-- A request to a route with a declared parameter, and the text it submits for it. -/
structure Submission (e : BodyEngine) (d : DeclaredType) (planner : LogicalType) where
  route : Route
  verified : Auth.AuthResult
  req : Request
  ctx : RouteContext
  st : Statement
  p : ParamEntry
  spec : ParamSpec
  loc : Loc
  text : Str
  notExec : execRouteParam route.handler.sql = none
  context : routeContext e route (routeAuth route verified).claims req = .ok ctx
  statement : route.handler.statement (authenticated route verified) = some st
  param : p ∈ st.params
  planned : p.expected = planner
  client : isClaimsParam p.name = none
  declared : findParamSpec route.params p.name = some spec
  typed : spec.typeName = storedTypeName d.tok
  submitted : lookupParam ctx (some spec) p.name = some (loc, text)

namespace Submission
variable {e : BodyEngine} {d : DeclaredType} {planner : LogicalType}

/-- The text is what is bound: the parameter is not `$body` under a `BODY TYPE` that takes the
transformed body instead, and the JSON body has no null under its name. -/
structure Plain (s : Submission e d planner) : Prop where
  notTypedBody : bindsTypedBody e s.ctx (d.checked planner) s.p.name = false
  notNull : s.ctx.sources.explicitNulls.find s.p.name = none

structure Honoured (s : Submission e d planner) : Prop where
  executed : ∀ b, bindRoute e s.route s.verified s.req = .ok b →
    Contract e.toParamEngine d.type s.spec s.text
  refused : (∀ v, ¬ Binds e s.ctx s.p v) → isUtf8 s.text = true →
    ¬ Contract e.toParamEngine d.type s.spec s.text

theorem readConstrained_ok {ctx : RouteContext} {spec : ParamSpec} {t : LogicalType} {name v : Str}
    {loc : Loc} {w : Value} (ht : t ≠ .variant) (hutf : isUtf8 v = true) :
    readConstrained e ctx (some spec) t name loc v none = .ok w ↔
      readText e.toParamEngine t v = some w ∧
        checkParamConstraints e.toParamEngine spec v w false = .ok () := by
  have hread : ∀ x y, readParam e ctx t name loc v none = .ok (x, y) ↔
      readText e.toParamEngine t v = some x ∧ x = y := by
    intro x y
    rw [readParam, if_neg ht, ← bindParamValue_ok hutf]
    rcases bindParamValue e.toParamEngine v t with _ | z
    · exact iff_of_false (fun h => nomatch h) fun h => nomatch h.1
    · simp only [Except.ok.injEq, Prod.mk.injEq]
      constructor
      · rintro ⟨rfl, rfl⟩
        exact ⟨rfl, rfl⟩
      · rintro ⟨rfl, rfl⟩
        exact ⟨rfl, rfl⟩
  simp only [readConstrained, bind_eq_ok, Prod.exists, hread, pure_eq_ok, ht, decide_false]
  constructor
  · rintro ⟨x, y, ⟨hx, rfl⟩, _, hc, rfl⟩
    exact ⟨hx, hc⟩
  · rintro ⟨hx, hc⟩
    exact ⟨w, w, ⟨hx, rfl⟩, (), hc, rfl⟩

theorem bindText_bound {ctx : RouteContext} {spec : ParamSpec} {t : LogicalType} {name v : Str}
    (loc : Loc) (hdecl : spec.typeName ≠ []) (ht : t ≠ .variant)
    (hbody : bindsTypedBody e ctx t name = false) :
    (∃ w raw, bindText e ctx (some spec) t false name loc v none = .bound w raw) ↔
      Passes e.toParamEngine t spec v := by
  rw [passes_iff_checks]
  unfold bindText
  rcases hutf : isUtf8 v with _ | _
  · refine iff_of_false ?_ fun h => nomatch h.1
    rintro ⟨_, _, h⟩
    cases h
  -- the integer check that comes first is the one that reading makes again
  rcases hstrict : isIntegralType t && !isStrictIntegerString v (allowsNegative t) with _ | _
  swap
  · refine iff_of_false ?_ ?_
    · rintro ⟨_, _, h⟩
      cases h
    · rintro ⟨_, x, hx, _⟩
      rw [readText, if_pos hstrict] at hx
      cases hx
  have hdeclared : isDeclared (some spec) = true := by
    simpa [isDeclared, List.isEmpty_iff] using hdecl
  simp only [hdeclared, hbody, Bool.not_true, Bool.not_false, Bool.and_false, Bool.false_and,
    Bool.false_eq_true, if_false, true_and]
  constructor
  · rintro ⟨w, raw, h⟩
    split at h
    · next x hx => exact ⟨x, (readConstrained_ok ht hutf).mp hx⟩
    · cases h
  · rintro ⟨x, hx⟩
    rw [(readConstrained_ok ht hutf).mpr hx]
    exact ⟨x, _, rfl⟩

theorem bindParam_eq (s : Submission e d planner)
    (hnull : s.ctx.sources.explicitNulls.find s.p.name = none) :
    bindParam e s.ctx s.p =
      bindText e s.ctx (some s.spec) (d.checked planner) false s.p.name s.loc s.text none := by
  obtain ⟨hroute, _⟩ := routeContext_ok s.context
  have hexec : isExecSql s.ctx.route s.p.name = false := by
    rw [hroute, isExecSql, s.notExec]
    rfl
  have hspec : findParamSpec s.ctx.route.params s.p.name = some s.spec := hroute ▸ s.declared
  have htype : expectedType s.ctx.route (some s.spec) s.p = d.checked planner := by
    simp only [expectedType, hexec, Bool.false_eq_true, if_false, s.typed, s.planned,
      DeclaredType.checked]
  have hres : resolveParam s.ctx (some s.spec) s.p.name = .text s.loc s.text none := by
    rw [resolveParam, s.submitted]
    simp only [hnull, Option.isSome_none, Bool.false_eq_true, if_false]
  simp only [bindParam, s.client, bindRequestParam, hspec, htype, hres, hexec]

theorem binds_iff {s : Submission e d planner} (hplain : s.Plain)
    (ht : d.checked planner ≠ .variant) :
    (∃ v, Binds e s.ctx s.p v) ↔ Passes e.toParamEngine (d.checked planner) s.spec s.text := by
  have hdecl : s.spec.typeName ≠ [] := by
    rw [s.typed]
    exact d.spec.1
  rw [← bindText_bound s.loc hdecl ht hplain.notTypedBody]
  simp only [Binds, s.bindParam_eq hplain.notNull]

theorem binds_of_executed (s : Submission e d planner) {b : Bindings}
    (h : bindRoute e s.route s.verified s.req = .ok b) : ∃ v, Binds e s.ctx s.p v := by
  obtain ⟨_, _, ctx, st, hctx, hst, hb⟩ := bindRoute_ok.mp h
  obtain rfl : ctx = s.ctx := Except.ok.inj (hctx.symm.trans s.context)
  obtain rfl : st = s.st := Option.some.inj (hst.symm.trans s.statement)
  exact binds_of_mem hb s.param

theorem honoured_of_sameReading {s : Submission e d planner} (hplain : s.Plain)
    (h : SameReading e.toParamEngine (d.checked planner) d.type) : s.Honoured := by
  -- binding is passing, and passing under either type is the contract
  have hpass : (∃ v, Binds e s.ctx s.p v) ↔ Contract e.toParamEngine d.type s.spec s.text := by
    rw [binds_iff hplain h.1, h.passes, passes_iff_contract d.spec.2.1]
  refine ⟨fun b hb => hpass.mp (s.binds_of_executed hb), fun hno _ hc => ?_⟩
  obtain ⟨v, hv⟩ := hpass.mpr hc
  exact hno v hv

end Submission

section
variable (d : DeclaredType) (planner : LogicalType) (bound : Option (Comparison × Number))

def boundOf (c : Comparison) : Option Number :=
  bound.bind fun b => if b.1 = c then some b.2 else none

def probeSpec : ParamSpec where
  name := "n".toList
  typeName := storedTypeName d.tok
  ge := boundOf bound .ge
  gt := boundOf bound .gt
  le := boundOf bound .le
  lt := boundOf bound .lt

theorem probeSpec_bounds : (probeSpec d bound).bounds = bound.toList := by
  rcases bound with _ | ⟨c, b⟩
  · rfl
  · cases c <;> rfl

theorem probeSpec_lengths (n : Nat) : (probeSpec d bound).lengthsHold n := ⟨nofun, nofun⟩

/-- `SELECT $n`, for a parameter the planner gives this type. -/
def probeStatement : Statement := ⟨[⟨"n".toList, planner⟩], List.nodup_singleton _⟩

def probeRoute : Route where
  pattern := "/x".toList
  params := [probeSpec d bound]
  requireAuth := []
  bodySchema := []
  bodyType := []
  handler := ⟨"SELECT $n".toList, ["n".toList], fun _ => true, fun _ => some (probeStatement planner)⟩

def probeRequest (v : Str) : Request where
  method := "GET".toList
  params := [("n".toList, v)]
  pathParams := []
  headers := []
  body := []
  formFields := []
  formFiles := []
  requestId := []
  traceId := []
  spanId := []

def probeContext (v : Str) : RouteContext where
  route := probeRoute d planner bound
  claims := []
  sources := ⟨providedParams (probeRoute d planner bound) (probeRequest v), .empty, .empty, none⟩
  jsonBody := false

/-- A query string with one text for the one parameter. -/
def probe (e : BodyEngine) (v : Str) : Submission e d planner where
  route := probeRoute d planner bound
  verified := Auth.authOk []
  req := probeRequest v
  ctx := probeContext d planner bound v
  st := probeStatement planner
  p := ⟨"n".toList, planner⟩
  spec := probeSpec d bound
  loc := .query
  text := v
  notExec := rfl
  context := rfl
  statement := rfl
  param := List.mem_singleton_self _
  planned := rfl
  client := rfl
  declared := rfl
  typed := rfl
  submitted := rfl

theorem probe_plain (e : BodyEngine) (v : Str) : (probe d planner bound e v).Plain := ⟨rfl, rfl⟩

theorem probe_executed {e : BodyEngine} {v : Str} {w : Value}
    (h : Binds e (probeContext d planner bound v) ⟨"n".toList, planner⟩ w) :
    bindRoute e (probeRoute d planner bound) (Auth.authOk []) (probeRequest v) =
      .ok [("n".toList, w)] :=
  bindRoute_ok.mpr ⟨rfl, rfl, probeContext d planner bound v, probeStatement planner, rfl, rfl,
    bindStatement_ok.mpr (.cons ⟨rfl, h⟩ .nil)⟩

theorem probe_honoured {e : BodyEngine} {v : Str} (hutf : isUtf8 v = true)
    (h : (probe d planner bound e v).Honoured) :
    (∃ w, Binds e (probeContext d planner bound v) ⟨"n".toList, planner⟩ w) ↔
      Contract e.toParamEngine d.type (probeSpec d bound) v := by
  constructor
  · rintro ⟨w, hw⟩
    exact h.executed _ (probe_executed d planner bound hw)
  · intro hc
    by_contra hno
    exact h.refused (fun w hw => hno ⟨w, hw⟩) hutf hc

theorem probe_passes {e : ParamEngine} {t : LogicalType} {v : Str} (hutf : isUtf8 v = true) :
    Passes e t (probeSpec d bound) v ↔ Reads e t bound v := by
  rw [Passes, probeSpec_bounds]
  constructor
  · rintro ⟨_, _, hnone, hall⟩
    rcases bound with _ | b
    · exact hnone
    · exact hall b (List.mem_singleton_self _)
  · intro h
    refine ⟨hutf, probeSpec_lengths d bound _, h.none, fun b hb => ?_⟩
    rcases bound with _ | c
    · cases hb
    · rwa [List.mem_singleton.mp hb]

end

theorem probe_variant {e : BodyEngine} {d : DeclaredType} {planner : LogicalType}
    (ht : d.checked planner = .variant) (w : Value) :
    ¬ Binds e (probeContext d planner (some (.ge, .integer 0)) "0".toList) ⟨"n".toList, planner⟩ w := by
  rintro ⟨raw, h⟩
  have heq := (probe d planner (some (.ge, .integer 0)) e "0".toList).bindParam_eq rfl
  rw [ht] at heq
  have hinvalid : bindParam e (probeContext d planner (some (.ge, .integer 0)) "0".toList)
      ⟨"n".toList, planner⟩ = .invalid ⟨.query, "n".toList,
        "Input should be a valid number".toList, "type_error".toList⟩ := heq
  rw [hinvalid] at h
  cases h

theorem unlisted_reads_zero {e : ParamEngine} {t : LogicalType} (ht : t ∈ unlistedTypes) :
    Reads e t (some (.ge, .integer 0)) "0".toList := by
  simp only [unlistedTypes, List.mem_cons, List.not_mem_nil, or_false] at ht
  rcases ht with rfl | rfl | rfl | rfl | rfl
  · exact ⟨.number (.integer 0), rfl, fun _ hb => .inr ⟨.integer 0, rfl, by cases hb; rfl⟩⟩
  · exact ⟨.number (.integer 0), rfl, fun _ hb => .inr ⟨.integer 0, rfl, by cases hb; rfl⟩⟩
  · exact ⟨.number (.integer 0), rfl, fun _ hb => .inr ⟨.integer 0, rfl, by cases hb; rfl⟩⟩
  · exact ⟨.number (.integer 0), rfl, fun _ hb => .inr ⟨.integer 0, rfl, by cases hb; rfl⟩⟩
  · exact ⟨.number (.decimal 0 3), rfl, fun _ hb => .inr ⟨.decimal 0 3, rfl, by cases hb; rfl⟩⟩

/-- Where the contract of a declared type is honoured on every plain submission, the type checked
against reads as the declared one does. -/
theorem sameReading_of_honoured {e : BodyEngine} {d : DeclaredType} {planner : LogicalType}
    (h : ∀ s : Submission e d planner, s.Plain → s.Honoured) :
    SameReading e.toParamEngine (d.checked planner) d.type := by
  have hscalar := d.spec.2.1
  have hne : d.checked planner ≠ .variant := by
    intro ht
    have hunlisted : d.type ∈ unlistedTypes := by
      rcases d.checked_cases planner with ⟨_, heq⟩ | ⟨_, hmem, _⟩
      · rw [← heq, ht] at hscalar
        cases hscalar
      · exact hmem
    -- every such type reads `0` as zero, which a `VARIANT` with a bound does not
    have hutf : isUtf8 "0".toList = true := rfl
    have hpasses : Passes e.toParamEngine d.type (probeSpec d (some (.ge, .integer 0)))
        "0".toList := (probe_passes d _ hutf).mpr (unlisted_reads_zero hunlisted)
    have hcontract : Contract e.toParamEngine d.type (probeSpec d (some (.ge, .integer 0)))
        "0".toList := (passes_iff_contract hscalar).mp hpasses
    have hhonoured : (probe d planner (some (.ge, .integer 0)) e "0".toList).Honoured :=
      h _ (probe_plain d planner _ e _)
    obtain ⟨w, hw⟩ := (probe_honoured d planner _ hutf hhonoured).mpr hcontract
    exact probe_variant ht w hw
  -- each text and bound is probed by a route that declares just that bound
  refine ⟨hne, fun v hutf bound => ?_⟩
  rw [← probe_passes d bound hutf, ← probe_passes d bound hutf, passes_iff_contract hscalar,
    ← probe_honoured d planner bound hutf (h _ (probe_plain d planner bound e v))]
  exact (Submission.binds_iff (probe_plain d planner bound e v) hne).symm

theorem sameReading_checked {e : ParamEngine} {d : DeclaredType} {planner : LogicalType} :
    SameReading e (d.checked planner) d.type ↔
      d.listed = true ∨ SameReading e planner d.type := by
  rcases d.checked_cases planner with ⟨hlisted, hchecked⟩ | ⟨hlisted, _, hchecked⟩
  · have hne : d.type ≠ .variant := by
      intro ht
      have hscalar := d.spec.2.1
      rw [ht] at hscalar
      cases hscalar
    rw [hchecked]
    exact iff_of_true ⟨hne, fun _ _ _ => Iff.rfl⟩ (.inl hlisted)
  · rw [hchecked, hlisted]
    exact ⟨.inr, fun h => h.resolve_left nofun⟩

/-- Whatever a route declares and a request submits, the contract of a declared type is honoured
exactly when the binder's table lists its name, or the planner's type reads every text as it does. -/
theorem declared_contract (e : BodyEngine) (d : DeclaredType) (planner : LogicalType) :
    (∀ s : Submission e d planner, s.Plain → s.Honoured) ↔
      d.listed = true ∨ SameReading e.toParamEngine planner d.type := by
  rw [← sameReading_checked]
  exact ⟨sameReading_of_honoured,
    fun h _ hplain => Submission.honoured_of_sameReading hplain h⟩

def utinyint : DeclaredType := ⟨"UTINYINT".toList, by decide, by decide⟩

/-- `PARAM n UTINYINT` lets a handler that takes any type run on the text `abc`. -/
theorem utinyint_unchecked : ¬ ∀ s : Submission textEngine utinyint .unknown,
    s.Plain → s.Honoured := by
  intro h
  have hutf : isUtf8 "abc".toList = true := by decide
  have hbinds : Binds textEngine (probeContext utinyint .unknown none "abc".toList)
      ⟨"n".toList, .unknown⟩ (.text "abc".toList) := ⟨some (.query, "abc".toList), rfl⟩
  have hcontract := (probe_honoured utinyint .unknown none hutf
    (h _ (probe_plain utinyint .unknown none textEngine _))).mp ⟨_, hbinds⟩
  obtain ⟨x, hlit, _⟩ := hcontract.literal
  have hread := (readText_iff rfl).mpr hlit
  -- `abc` is no integer text
  cases hread

end Quackapi.Params
