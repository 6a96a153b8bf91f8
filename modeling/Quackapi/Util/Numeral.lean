import Quackapi.Util.Str
import Mathlib.Data.List.TakeWhile

/-! Decimal numerals, and the standard library's reading of one at the front of a string. -/

namespace Quackapi

def decimalValue (digits : Str) : Int := digits.foldl (fun n c => 10 * n + (c.toNat - 48 : Int)) 0

/-- An integer literal: a sign and at least one digit. -/
structure Numeral where
  negative : Bool
  digits : Str
  nonempty : digits ≠ []
  decimal : ∀ c ∈ digits, c.isDigit = true

def signed (negative : Bool) (n : Int) : Int := if negative then -n else n

def Numeral.value (n : Numeral) : Int := signed n.negative (decimalValue n.digits)

def Numeral.text (n : Numeral) : Str := if n.negative then '-' :: n.digits else n.digits

def int64Min : Int := -9223372036854775808

def int64Max : Int := 9223372036854775807

def inInt64 (v : Int) : Bool := decide (int64Min ≤ v) && decide (v ≤ int64Max)

/-- `isspace` in the C locale. -/
def isSpace (c : Char) : Bool := c.toNat = 32 || (decide (9 ≤ c.toNat) && decide (c.toNat ≤ 13))

def takeSign : Str → Bool × Str
  | '-' :: s => (true, s)
  | '+' :: s => (false, s)
  | s => (false, s)

/-- `std::stoll`: the value and what it did not consume, or nothing where it throws. -/
def stoll (s : Str) : Option (Int × Str) :=
  let (negative, rest) := takeSign (s.dropWhile isSpace)
  let digits := rest.takeWhile Char.isDigit
  let value := signed negative (decimalValue digits)
  if digits.isEmpty then none
  else if inInt64 value then some (value, rest.dropWhile Char.isDigit)
  else none

theorem isDigit_not_isSpace {c : Char} (h : c.isDigit = true) : isSpace c = false := by
  simp only [Char.isDigit, Bool.and_eq_true, decide_eq_true_eq, isSpace, Bool.or_eq_false_iff,
    Bool.and_eq_false_iff, decide_eq_false_iff_not] at h ⊢
  have h48 : 48 ≤ c.toNat := h.1
  omega

theorem isDigit_not_sign {c : Char} (h : c.isDigit = true) : c ≠ '-' ∧ c ≠ '+' := by
  constructor
  · rintro rfl
    cases h
  · rintro rfl
    cases h

theorem takeSign_digits {s : Str} (hne : s ≠ []) (h : ∀ c ∈ s, c.isDigit = true) (t : Str) :
    takeSign (s ++ t) = (false, s ++ t) := by
  obtain ⟨c, s, rfl⟩ := List.exists_cons_of_ne_nil hne
  obtain ⟨hm, hp⟩ := isDigit_not_sign (h c List.mem_cons_self)
  unfold takeSign
  split
  · next heq =>
    cases heq
    exact absurd rfl hm
  · next heq =>
    cases heq
    exact absurd rfl hp
  · rfl

theorem stoll_numeral (n : Numeral) {t : Str} (ht : ∀ c ∈ t.head?, c.isDigit = false) :
    stoll (n.text ++ t) = if inInt64 n.value then some (n.value, t) else none := by
  obtain ⟨negative, digits, hne, hdec⟩ := n
  have htake : (digits ++ t).takeWhile Char.isDigit = digits := by
    rw [List.takeWhile_append_of_pos hdec]
    rcases t with _ | ⟨c, t⟩
    · rw [List.takeWhile_nil, List.append_nil]
    · rw [List.takeWhile_cons_of_neg (by simp [ht c rfl]), List.append_nil]
  have hdrop : (digits ++ t).dropWhile Char.isDigit = t := by
    rw [List.dropWhile_append_of_pos hdec]
    rcases t with _ | ⟨c, t⟩
    · rfl
    · rw [List.dropWhile_cons_of_neg (by simp [ht c rfl])]
  have hempty : digits.isEmpty = false := by simpa using hne
  have hsign : takeSign ((Numeral.text ⟨negative, digits, hne, hdec⟩ ++ t).dropWhile isSpace) =
      (negative, digits ++ t) := by
    cases negative with
    | true => rfl
    | false =>
      obtain ⟨c, s, rfl⟩ := List.exists_cons_of_ne_nil hne
      have hspace : isSpace c = false := isDigit_not_isSpace (hdec c List.mem_cons_self)
      have htext : (Numeral.text ⟨false, c :: s, hne, hdec⟩ ++ t).dropWhile isSpace =
          (c :: s) ++ t := by
        simp only [Numeral.text, Bool.false_eq_true, if_false, List.cons_append]
        rw [List.dropWhile_cons_of_neg (by simp [hspace])]
      rw [htext, takeSign_digits hne hdec]
  simp only [stoll, hsign, htake, hdrop, hempty, Bool.false_eq_true, if_false]
  rfl

theorem stoll_of_head {c : Char} {s : Str} (hspace : isSpace c = false) (hdigit : c.isDigit = false)
    (hminus : c ≠ '-') (hplus : c ≠ '+') : stoll (c :: s) = none := by
  have hsign : takeSign ((c :: s).dropWhile isSpace) = (false, c :: s) := by
    rw [List.dropWhile_cons_of_neg (by simp [hspace])]
    unfold takeSign
    split
    · next heq =>
      cases heq
      exact absurd rfl hminus
    · next heq =>
      cases heq
      exact absurd rfl hplus
    · rfl
  simp [stoll, hsign, List.takeWhile_cons_of_neg, hdigit]

end Quackapi
