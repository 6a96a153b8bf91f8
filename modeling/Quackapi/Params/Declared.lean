import Quackapi.Library.ExceptRules
import Quackapi.Params.Values

/-! Declared parameters: the type names `CREATE ROUTE` takes, the table by which the binder reads
them, and the constraints. -/

namespace Quackapi.Params
open Library

inductive ParamSource
  | query | header | cookie
deriving DecidableEq, Repr

inductive ParamDefault
  | null
  /-- The literal's text, and its value for a `VARIANT` parameter. -/
  | literal (raw : Str) (value : Value)
deriving DecidableEq

structure ParamSpec where
  name : Str
  /-- Empty when the handler's SQL decides. -/
  typeName : Str := []
  source : ParamSource := .query
  externalName : Str := []
  default : Option ParamDefault := none
  ge : Option Number := none
  gt : Option Number := none
  le : Option Number := none
  lt : Option Number := none
  minLength : Option Nat := none
  maxLength : Option Nat := none
deriving DecidableEq

def findParamSpec (specs : List ParamSpec) (name : Str) : Option ParamSpec :=
  specs.find? fun s => lower s.name = lower name

def upper (s : Str) : Str := s.map Char.toUpper

def paramTypeNames : List Str :=
  ["INTEGER", "INT", "BIGINT", "SMALLINT", "TINYINT", "HUGEINT", "UBIGINT", "UINTEGER", "USMALLINT",
    "UTINYINT", "DOUBLE", "FLOAT", "REAL", "DECIMAL", "NUMERIC", "VARCHAR", "TEXT", "STRING",
    "BOOLEAN", "BOOL", "VARIANT"].map String.toList

def isParamTypeName (tok : Str) : Bool := paramTypeNames.contains (upper tok)

/-- The name a `PARAM` clause keeps of a type name in capitals. -/
def storedName (name : Str) : Str :=
  if name = "INT".toList then "INTEGER".toList
  else if name = "BOOL".toList then "BOOLEAN".toList
  else if name = "TEXT".toList ∨ name = "STRING".toList then "VARCHAR".toList
  else if name = "REAL".toList then "FLOAT".toList
  else name

def storedTypeName (tok : Str) : Str := storedName (upper tok)

def listedType (tn : Str) : Option LogicalType :=
  if tn = "INTEGER".toList ∨ tn = "INT".toList then some (.integral .integer)
  else if tn = "BIGINT".toList then some (.integral .bigint)
  else if tn = "SMALLINT".toList then some (.integral .smallint)
  else if tn = "TINYINT".toList then some (.integral .tinyint)
  else if tn = "HUGEINT".toList then some (.integral .hugeint)
  else if tn = "DOUBLE".toList then some .double
  else if tn = "FLOAT".toList ∨ tn = "REAL".toList then some .float
  else if tn = "BOOLEAN".toList ∨ tn = "BOOL".toList then some .boolean
  else if tn = "VARCHAR".toList ∨ tn = "TEXT".toList ∨ tn = "STRING".toList then some .varchar
  else if tn = "VARIANT".toList then some .variant
  else none

/-- The type the binder checks against: that of the declared name where its table has the name, and
the planner's where it has not. -/
def boundType (typeName : Str) (planner : LogicalType) : LogicalType :=
  if typeName.isEmpty then planner else (listedType (upper typeName)).getD planner

/-- What a violated constraint reports: the message and its kind. -/
abbrev Violation := Str × Str

def Comparison.message : Comparison → Str
  | .ge => "Input should be greater than or equal to ".toList
  | .gt => "Input should be greater than ".toList
  | .le => "Input should be less than or equal to ".toList
  | .lt => "Input should be less than ".toList

def Comparison.errorType : Comparison → Str
  | .ge => "greater_than_equal".toList
  | .gt => "greater_than".toList
  | .le => "less_than_equal".toList
  | .lt => "less_than".toList

def checkBound (e : ParamEngine) (x : Number) (c : Comparison) (bound : Option Number) :
    Except Violation Unit :=
  match bound with
  | none => .ok ()
  | some b => ensure (compareNumbers e c x b) (c.message ++ e.numberText b, c.errorType)

/-- The number a bound is compared with. A value of another type stands for the literal its text
is, unless it comes out of a `VARIANT`. -/
def constraintNumber (e : ParamEngine) (raw : Str) (nativeVariant : Bool) : Value → Option Number
  | .boolean b => some (.integer (if b then 1 else 0))
  | .number n => some n
  | _ => if nativeVariant then none else e.numericLiteral raw

def Value.isText : Value → Bool
  | .null | .text _ => true
  | _ => false

def checkLengths (spec : ParamSpec) (raw : Str) (bound : Value) (nativeVariant : Bool) :
    Except Violation Unit := do
  ensure (!((spec.minLength.isSome || spec.maxLength.isSome) && nativeVariant && !bound.isText))
    ("Input should be a valid string".toList, "type_error".toList)
  ensure (spec.minLength.all fun m => decide (m ≤ characterCount raw))
    ("String should have at least ".toList ++ digitsOf (spec.minLength.getD 0) ++
      " characters".toList, "string_too_short".toList)
  ensure (spec.maxLength.all fun m => decide (characterCount raw ≤ m))
    ("String should have at most ".toList ++ digitsOf (spec.maxLength.getD 0) ++
      " characters".toList, "string_too_long".toList)

def checkParamConstraints (e : ParamEngine) (spec : ParamSpec) (raw : Str) (bound : Value)
    (nativeVariant : Bool) : Except Violation Unit := do
  checkLengths spec raw bound nativeVariant
  if spec.ge.isNone && spec.gt.isNone && spec.le.isNone && spec.lt.isNone then return ()
  else if bound = .null then return ()
  else
    match constraintNumber e raw nativeVariant bound with
    | none => throw ("Input should be a valid number".toList, "type_error".toList)
    | some x =>
      checkBound e x .ge spec.ge
      checkBound e x .gt spec.gt
      checkBound e x .le spec.le
      checkBound e x .lt spec.lt

def ParamSpec.bounds (spec : ParamSpec) : List (Comparison × Number) :=
  (spec.ge.map (.ge, ·)).toList ++ (spec.gt.map (.gt, ·)).toList ++
    (spec.le.map (.le, ·)).toList ++ (spec.lt.map (.lt, ·)).toList

def ParamSpec.lengthsHold (spec : ParamSpec) (n : Nat) : Prop :=
  (∀ m ∈ spec.minLength, m ≤ n) ∧ ∀ m ∈ spec.maxLength, n ≤ m

theorem checkBound_ok {e : ParamEngine} {x : Number} {c : Comparison} {bound : Option Number} :
    checkBound e x c bound = .ok () ↔ ∀ b ∈ bound, compareNumbers e c x b = true := by
  rcases bound with _ | b
  · exact iff_of_true rfl fun _ h => nomatch h
  · simp only [checkBound, ensure_eq_ok, Option.mem_some_iff, forall_eq']

theorem checkLengths_ok {spec : ParamSpec} {raw : Str} {v : Value} :
    checkLengths spec raw v false = .ok () ↔ spec.lengthsHold (characterCount raw) := by
  unfold checkLengths
  rw [check_bind_ok, check_bind_ok]
  simp only [ensure_eq_ok, Bool.and_false, Bool.false_and, Bool.not_false, true_and,
    Option.all_eq_true, decide_eq_true_eq, ParamSpec.lengthsHold]
  rfl

theorem mem_bounds {spec : ParamSpec} {p : Comparison × Number → Prop} :
    (∀ b ∈ spec.bounds, p b) ↔
      (∀ b ∈ spec.ge, p (.ge, b)) ∧ (∀ b ∈ spec.gt, p (.gt, b)) ∧
        (∀ b ∈ spec.le, p (.le, b)) ∧ ∀ b ∈ spec.lt, p (.lt, b) := by
  have hone : ∀ (c : Comparison) (o : Option Number),
      (∀ b ∈ (o.map (c, ·)).toList, p b) ↔ ∀ b ∈ o, p (c, b) := by
    intro c o
    rcases o with _ | b
    · exact iff_of_true (fun _ h => nomatch h) (fun _ h => nomatch h)
    · simp only [Option.map_some, Option.toList_some, List.mem_singleton, forall_eq,
        Option.mem_some_iff, forall_eq']
  simp only [ParamSpec.bounds, List.forall_mem_append, hone, and_assoc]

/-- The bounds hold of a value: there are none, the value is null, or its number satisfies each. -/
def BoundsHold (e : ParamEngine) (spec : ParamSpec) (raw : Str) (nativeVariant : Bool)
    (v : Value) : Prop :=
  spec.bounds = [] ∨ v = .null ∨
    ∃ x, constraintNumber e raw nativeVariant v = some x ∧
      ∀ b ∈ spec.bounds, compareNumbers e b.1 x b.2 = true

theorem bounds_eq_nil {spec : ParamSpec} :
    spec.bounds = [] ↔
      (spec.ge.isNone && spec.gt.isNone && spec.le.isNone && spec.lt.isNone) = true := by
  rcases hge : spec.ge with _ | a <;> rcases hgt : spec.gt with _ | b <;>
    rcases hle : spec.le with _ | c <;> rcases hlt : spec.lt with _ | d <;>
    simp [ParamSpec.bounds, hge, hgt, hle, hlt]

theorem checkParamConstraints_ok {e : ParamEngine} {spec : ParamSpec} {raw : Str} {v : Value} :
    checkParamConstraints e spec raw v false = .ok () ↔
      spec.lengthsHold (characterCount raw) ∧ BoundsHold e spec raw false v := by
  unfold checkParamConstraints
  rw [check_bind_ok, checkLengths_ok]
  refine and_congr_right fun _ => ?_
  unfold BoundsHold
  split
  · next h => exact iff_of_true rfl (.inl (bounds_eq_nil.mpr h))
  next hne =>
  rw [← bounds_eq_nil] at hne
  split
  · next h => exact iff_of_true rfl (.inr (.inl h))
  next hnull =>
  simp only [hne, hnull, false_or]
  rcases constraintNumber e raw false v with _ | x
  · exact iff_of_false (fun h => nomatch h) (by simp)
  · rw [check_bind_ok, check_bind_ok, check_bind_ok]
    simp only [checkBound_ok, Option.some.injEq, exists_eq_left', mem_bounds]

end Quackapi.Params
