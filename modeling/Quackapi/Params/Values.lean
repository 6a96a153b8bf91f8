import Quackapi.Util.Numeral
import Quackapi.Util.Utf8
import Mathlib.Algebra.Group.Int.Defs
import Mathlib.Algebra.Group.Nat.Defs

/-! The engine's types and values as far as parameters need them, and the binding of one text to
one type. Casts and comparisons between integers and decimals are exact; what the engine does with
floating point, with literals and with its other types is given. -/

namespace Quackapi.Params

inductive IntegralType
  | tinyint | smallint | integer | bigint | hugeint
  | utinyint | usmallint | uinteger | ubigint
deriving DecidableEq, Repr

/-- `IsUnsignedIntegralType`. -/
def IntegralType.isUnsigned : IntegralType → Bool
  | .utinyint | .usmallint | .uinteger | .ubigint => true
  | _ => false

def IntegralType.bits : IntegralType → Nat
  | .tinyint | .utinyint => 8
  | .smallint | .usmallint => 16
  | .integer | .uinteger => 32
  | .bigint | .ubigint => 64
  | .hugeint => 128

def IntegralType.contains (t : IntegralType) (n : Int) : Bool :=
  if t.isUnsigned then decide (0 ≤ n) && decide (n < 2 ^ t.bits)
  else decide (-2 ^ (t.bits - 1) ≤ n) && decide (n < 2 ^ (t.bits - 1))

inductive LogicalType
  | integral (t : IntegralType)
  | float
  | double
  | decimal (width scale : Nat)
  | boolean
  | varchar
  /-- What the planner reports of a parameter whose type nothing decides. -/
  | unknown
  | variant
  /-- A `STRUCT`, `LIST` or `MAP`. -/
  | nested (name : Str)
  | other (name : Str)
deriving DecidableEq, Repr

def IntegralType.text : IntegralType → Str
  | .tinyint => "TINYINT".toList
  | .smallint => "SMALLINT".toList
  | .integer => "INTEGER".toList
  | .bigint => "BIGINT".toList
  | .hugeint => "HUGEINT".toList
  | .utinyint => "UTINYINT".toList
  | .usmallint => "USMALLINT".toList
  | .uinteger => "UINTEGER".toList
  | .ubigint => "UBIGINT".toList

def digitsOf (n : Nat) : Str := (toString n).toList

def LogicalType.text : LogicalType → Str
  | .integral t => t.text
  | .float => "FLOAT".toList
  | .double => "DOUBLE".toList
  | .decimal width scale =>
    "DECIMAL(".toList ++ digitsOf width ++ ",".toList ++ digitsOf scale ++ ")".toList
  | .boolean => "BOOLEAN".toList
  | .varchar => "VARCHAR".toList
  | .unknown => "UNKNOWN".toList
  | .variant => "VARIANT".toList
  | .nested name | .other name => name

inductive Number
  | integer (n : Int)
  | decimal (unscaled : Int) (scale : Nat)
  | floating (bits : UInt64)
deriving DecidableEq

def Number.exact : Number → Option Rat
  | .integer n => some n
  | .decimal unscaled scale => some (mkRat unscaled (10 ^ scale))
  | .floating _ => none

inductive Value
  | null
  | boolean (b : Bool)
  | number (n : Number)
  | text (s : Str)
  | variant (v : Value)
  | other (s : Str)
deriving DecidableEq

inductive Comparison
  | ge | gt | le | lt
deriving DecidableEq, Repr

def Comparison.holds : Comparison → Rat → Rat → Bool
  | .ge, p, q => decide (q ≤ p)
  | .gt, p, q => decide (q < p)
  | .le, p, q => decide (p ≤ q)
  | .lt, p, q => decide (p < q)

structure ParamEngine where
  /-- A text cast to `FLOAT` or `DOUBLE`. -/
  castFloating : LogicalType → Str → Option UInt64
  /-- A text that is no integer cast to a decimal type: its unscaled value. -/
  castDecimal : Nat → Nat → Str → Option Int
  castBoolean : Str → Option Bool
  castOther : LogicalType → Str → Option Str
  /-- The cast to `INTEGER` rounds fractions and reads exponents. -/
  castsToInteger : Str → Bool
  jsonVariant : Str → Option Value
  castVariant : Value → LogicalType → Option Value
  /-- The text is one numeric constant to the engine's parser. -/
  numericLiteral : Str → Option Number
  compareFloating : Comparison → Number → Number → Bool
  numberText : Number → Str

/-- `ValueOperations`: integers and decimals are compared as the numbers they are. -/
def compareNumbers (e : ParamEngine) (c : Comparison) (x y : Number) : Bool :=
  match x.exact, y.exact with
  | some p, some q => c.holds p q
  | _, _ => e.compareFloating c x y

def isIntegralType : LogicalType → Bool
  | .integral _ => true
  | _ => false

/-- A sign is for the types that have one; `IsUnsignedIntegralType` is false of every other type. -/
def allowsNegative : LogicalType → Bool
  | .integral t => !t.isUnsigned
  | _ => true

def isStrictIntegerString (s : Str) (allowNegative : Bool) : Bool :=
  match s with
  | [] => false
  | '-' :: digits => allowNegative && !digits.isEmpty && digits.all Char.isDigit
  | digits => digits.all Char.isDigit

def integerOf : Str → Int
  | '-' :: digits => -decimalValue digits
  | digits => decimalValue digits

theorem isStrictIntegerString_iff {s : Str} {allowNegative : Bool} :
    isStrictIntegerString s allowNegative = true ↔
      ∃ n : Numeral, s = n.text ∧ (n.negative = true → allowNegative = true) := by
  constructor
  · intro h
    unfold isStrictIntegerString at h
    split at h
    · cases h
    · next digits =>
      simp only [Bool.and_eq_true, Bool.not_eq_true', List.isEmpty_eq_false_iff,
        List.all_eq_true] at h
      exact ⟨⟨true, digits, h.1.2, h.2⟩, rfl, fun _ => h.1.1⟩
    · next hne _ =>
      exact ⟨⟨false, s, hne, List.all_eq_true.mp h⟩, rfl, fun hf => nomatch hf⟩
  · rintro ⟨⟨negative, digits, hne, hdec⟩, rfl, hneg⟩
    have hall : digits.all Char.isDigit = true := List.all_eq_true.mpr hdec
    cases negative with
    | true =>
      have hempty : digits.isEmpty = false := by simpa using hne
      simp only [Numeral.text, if_true, isStrictIntegerString, hneg rfl, hempty, hall,
        Bool.not_false, Bool.and_self]
    | false =>
      simp only [Numeral.text, Bool.false_eq_true, if_false]
      unfold isStrictIntegerString
      split
      · exact absurd rfl hne
      · next rest => exact absurd (hdec '-' List.mem_cons_self) (by decide)
      · exact hall

theorem integerOf_numeral (n : Numeral) : integerOf n.text = n.value := by
  obtain ⟨negative, digits, hne, hdec⟩ := n
  cases negative with
  | true => rfl
  | false =>
    simp only [Numeral.text, Numeral.value, signed, Bool.false_eq_true, if_false]
    unfold integerOf
    split
    · next rest => exact absurd (hdec '-' List.mem_cons_self) (by decide)
    · rfl

/-- An integer fits a decimal type that has the digits for it. -/
def castDecimal (e : ParamEngine) (width scale : Nat) (raw : Str) : Option Int :=
  if isStrictIntegerString raw true then
    let unscaled := integerOf raw * 10 ^ scale
    if unscaled.natAbs < 10 ^ width then some unscaled else none
  else e.castDecimal width scale raw

/-- `QuackapiTryCast` of a text; integer types are cast to after the strict check only. A text cast
to `VARIANT` is that text. -/
def tryCast (e : ParamEngine) (t : LogicalType) (raw : Str) : Option Value :=
  match t with
  | .integral i =>
    if i.contains (integerOf raw) then some (.number (.integer (integerOf raw))) else none
  | .float | .double => (e.castFloating t raw).map fun bits => .number (.floating bits)
  | .decimal width scale =>
    (castDecimal e width scale raw).map fun unscaled => .number (.decimal unscaled scale)
  | .boolean => (e.castBoolean raw).map .boolean
  | .varchar | .unknown => some (.text raw)
  | .variant => some (.variant (.text raw))
  | .nested _ | .other _ => (e.castOther t raw).map .other

inductive BindFailure
  | invalid (msg type : Str)
  /-- A string that is no UTF-8 makes the engine's value throw. -/
  | threw
deriving DecidableEq

def bindParamValue (e : ParamEngine) (raw : Str) (expected : LogicalType) :
    Except BindFailure Value :=
  if isIntegralType expected && !isStrictIntegerString raw (allowsNegative expected) then
    .error (.invalid "Input should be a valid integer".toList "type_error".toList)
  else if !isUtf8 raw then .error .threw
  else
    match tryCast e expected raw with
    | none =>
      .error (.invalid ("Input should be a valid ".toList ++ expected.text) "type_error".toList)
    | some v => .ok v

/-- A type reads a text as a value, or refuses it. -/
def readText (e : ParamEngine) (t : LogicalType) (raw : Str) : Option Value :=
  if isIntegralType t && !isStrictIntegerString raw (allowsNegative t) then none
  else tryCast e t raw

theorem bindParamValue_ok {e : ParamEngine} {raw : Str} {t : LogicalType} {v : Value}
    (hutf : isUtf8 raw = true) :
    bindParamValue e raw t = .ok v ↔ readText e t raw = some v := by
  unfold bindParamValue readText
  split
  · exact iff_of_false (fun h => nomatch h) (fun h => nomatch h)
  · rw [if_neg (by simp [hutf])]
    rcases tryCast e t raw with _ | x
    · exact iff_of_false (fun h => nomatch h) (fun h => nomatch h)
    · simp only [Except.ok.injEq, Option.some.injEq]

end Quackapi.Params
