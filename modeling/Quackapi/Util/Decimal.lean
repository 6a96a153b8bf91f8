import Quackapi.Util.Numeral
import Quackapi.Library.QualityList

/-! Decimal fractions at the front of a string, as the standard library reads them. -/

namespace Quackapi
open Library

/-- `m` times the `e`-th power of ten. -/
def scaled (m e : Int) : ℚ :=
  if 0 ≤ e then ((m * 10 ^ e.toNat : Int) : ℚ) else mkRat m (10 ^ (-e).toNat)

/-- An exponent counts only if it has a digit. -/
def exponent (s : Str) : Int :=
  match s with
  | c :: t =>
    if c = 'e' ∨ c = 'E' then signed (takeSign t).1 (decimalValue ((takeSign t).2.takeWhile Char.isDigit))
    else 0
  | [] => 0

/-- The decimals behind a point, and what follows them. -/
def takeFraction (s : Str) : Str × Str :=
  match s with
  | '.' :: t => (t.takeWhile Char.isDigit, t.dropWhile Char.isDigit)
  | _ => ([], s)

/-- `strtod` on decimal text: the rational its number stands for, unless there is none. -/
def strtod (s : Str) : Option ℚ :=
  let (negative, rest) := takeSign (s.dropWhile isSpace)
  let whole := rest.takeWhile Char.isDigit
  let (fraction, rest) := takeFraction (rest.dropWhile Char.isDigit)
  if whole.isEmpty && fraction.isEmpty then none
  else some (scaled (signed negative (decimalValue (whole ++ fraction)))
    (exponent rest - fraction.length))

/-- `atof`. -/
def atof (s : Str) : ℚ := (strtod s).getD 0

theorem scaled_neg (m : Int) (n : Nat) : scaled m (0 - n) = mkRat m (10 ^ n) := by
  rcases Nat.eq_zero_or_pos n with rfl | hpos
  · have hpow : m * 10 ^ (0 : Int).toNat = m := Int.mul_one m
    rw [scaled, if_pos (by decide), Nat.pow_zero]
    exact (congrArg _ hpow).trans (Rat.mkRat_one m).symm
  · rw [scaled, if_neg (by omega)]
    have hn : (-(0 - (n : Int))).toNat = n := by omega
    rw [hn]

theorem foldl_digits_eq {digits : Str} (h : ∀ c ∈ digits, c.isDigit = true) (n : Nat) :
    digits.foldl (fun n c => 10 * n + (c.toNat - 48 : Int)) (n : Int) =
      (digits.foldl (fun n c => 10 * n + (c.toNat - '0'.toNat)) n : Nat) := by
  induction digits generalizing n with
  | nil => rfl
  | cons c digits ih =>
    obtain ⟨hc, hdigits⟩ := List.forall_mem_cons.mp h
    have hge : 48 ≤ c.toNat := by
      simp only [Char.isDigit, Bool.and_eq_true, decide_eq_true_eq] at hc
      exact hc.1
    have hstep : 10 * (n : Int) + (c.toNat - 48 : Int) = (10 * n + (c.toNat - '0'.toNat) : Nat) := by
      have h48 : '0'.toNat = 48 := rfl
      omega
    rw [List.foldl_cons, List.foldl_cons, hstep]
    exact ih hdigits _

theorem decimalValue_eq_digitsNat {digits : Str} (h : ∀ c ∈ digits, c.isDigit = true) :
    decimalValue digits = digitsNat digits :=
  foldl_digits_eq h 0

theorem digitsNat_one_zeros {zeros : Str} (h : ∀ c ∈ zeros, c = '0') :
    digitsNat ('1' :: zeros) = 10 ^ zeros.length := by
  have hfold : ∀ (zeros : Str) (n : Nat), (∀ c ∈ zeros, c = '0') →
      zeros.foldl (fun n c => 10 * n + (c.toNat - '0'.toNat)) n = n * 10 ^ zeros.length := by
    intro zeros
    induction zeros with
    | nil => simp
    | cons c zeros ih =>
      intro n h
      obtain ⟨rfl, hzeros⟩ := List.forall_mem_cons.mp h
      rw [List.foldl_cons, ih _ hzeros, List.length_cons, Nat.pow_succ, Nat.mul_comm _ 10, ← Nat.mul_assoc,
        Nat.mul_comm n 10]
      rfl
  exact (hfold zeros 1 h).trans (Nat.one_mul _)

theorem strtod_point {d : Char} {digits : Str} (hd : d.isDigit = true)
    (h : ∀ c ∈ digits, c.isDigit = true) :
    strtod (d :: '.' :: digits) = some (mkRat (digitsNat (d :: digits)) (10 ^ digits.length)) := by
  have hall : ∀ c ∈ d :: digits, c.isDigit = true := List.forall_mem_cons.mpr ⟨hd, h⟩
  have hspace : (d :: '.' :: digits).dropWhile isSpace = d :: '.' :: digits :=
    List.dropWhile_cons_of_neg (by simp [isDigit_not_isSpace hd])
  have hsign : takeSign (d :: '.' :: digits) = (false, d :: '.' :: digits) :=
    takeSign_digits (List.cons_ne_nil d []) (by simpa using hd) ('.' :: digits)
  have hwhole : (d :: '.' :: digits).takeWhile Char.isDigit = [d] := by
    rw [List.takeWhile_cons_of_pos hd, List.takeWhile_cons_of_neg (by decide)]
  have hrest : (d :: '.' :: digits).dropWhile Char.isDigit = '.' :: digits := by
    rw [List.dropWhile_cons_of_pos hd, List.dropWhile_cons_of_neg (by decide)]
  have hfraction : takeFraction ('.' :: digits) = (digits, []) := by
    rw [takeFraction, List.takeWhile_eq_self_iff.mpr h, List.dropWhile_eq_nil_iff.mpr h]
  rw [← decimalValue_eq_digitsNat hall, ← scaled_neg]
  simp only [strtod, hspace, hsign, hwhole, hrest, hfraction]
  rfl

theorem strtod_qvalue {v : Str} {q : ℚ} (h : QValue v q) : strtod v = some q := by
  cases h with
  | zero => rfl
  | below hlen hdigits => exact strtod_point (by decide) hdigits
  | one => rfl
  | @whole zeros hlen hzeros =>
    have hdigits : ∀ c ∈ zeros, c.isDigit = true := by
      intro c hc
      rw [hzeros c hc]
      decide
    have hpow : ((10 ^ zeros.length : Nat) : Int) ≠ 0 := by
      have hpos := Nat.pow_pos (n := zeros.length) (show 0 < 10 by decide)
      omega
    rw [strtod_point (by decide) hdigits, digitsNat_one_zeros hzeros, ← Rat.divInt_ofNat,
      Rat.divInt_self' hpow]

end Quackapi
