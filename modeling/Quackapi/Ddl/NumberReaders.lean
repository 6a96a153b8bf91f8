import Quackapi.Ddl.RouteParse
import Quackapi.Library.JsonText

/-! The numbers of the statements: durations with a unit, and the numbers of the clauses that leave
reading to the C library. -/

namespace Quackapi.Ddl
open Library (IsDigits)
open Params Http

def wrapTo (bits : Nat) (n : Int) : Int := n.bmod (2 ^ bits)

/-- The number so far, and what follows its digits, unless the number passes the limit. -/
def readDigits (limit : Int) : Int → Str → Option (Int × Str)
  | num, [] => some (num, [])
  | num, c :: s =>
    if c.isDigit then
      let num := wrapTo 64 (wrapTo 64 (num * 10) + (c.toNat - 48 : Int))
      if limit < num then none else readDigits limit num s
    else some (num, c :: s)

def unitMillis (unit : Str) : Option Int :=
  if unit ∈ ["ms".toList, "msec".toList, "millis".toList, "millisecond".toList,
      "milliseconds".toList] then
    some 1
  else if unit ∈ ["s".toList, "sec".toList, "secs".toList, "second".toList, "seconds".toList] then
    some 1000
  else if unit ∈ ["m".toList, "min".toList, "mins".toList, "minute".toList, "minutes".toList] then
    some (60 * 1000)
  else if unit ∈ ["h".toList, "hr".toList, "hrs".toList, "hour".toList, "hours".toList] then
    some (3600 * 1000)
  else none

def startsAsWord (u : Str) : Bool := u.head?.any fun c => !c.isDigit

/-- What a reader of durations calls its number, how far it reads, its units and its bounds. -/
structure DurationKind where
  noun : Str
  /-- What it says of a minus in front, unless that is a sign. -/
  minus : Option Str
  limit : Int
  unit : Str → Option Int
  units : Str
  /-- The unit of a number without one. -/
  bare : Int
  least : Option (Int × Str)
  most : Int × Str
  width : Nat
  limit_fits : 0 ≤ limit ∧ limit * 10 + 9 < 2 ^ 63
  bare_fits : 1 ≤ bare ∧ limit * bare < 2 ^ 63
  unit_fits : ∀ u m, unit u = some m → 1 ≤ m ∧ limit * m < 2 ^ 63
  unit_word : ∀ u m, unit u = some m → startsAsWord u = true
  most_fits : most.1 ≤ limit ∧ most.1 < 2 ^ (width - 1) ∧ 0 < width
  signed_least : minus = none → ∃ e ∈ least, 0 ≤ e.1

namespace DurationKind
variable (k : DurationKind)

def unitOf (rest : Str) : Option Int := if rest.isEmpty then some k.bare else k.unit (lower rest)

def checkRange (n : Int) : Except Str Int :=
  match k.least.filter (fun e => n < e.1) with
  | some e => .error e.2
  | none => if k.most.1 < n then .error k.most.2 else .ok (wrapTo k.width n)

def readMagnitude (neg : Bool) (s : Str) : Except Str Int :=
  if !s.head?.any Char.isDigit then .error (k.noun ++ " must start with a number".toList)
  else
    match readDigits k.limit 0 s with
    | none => .error (k.noun ++ " too large".toList)
    | some (num, rest) =>
      match k.unitOf rest with
      | none =>
        .error ("unknown ".toList ++ k.noun ++ " unit \"".toList ++ lower rest ++ "\" — use ".toList ++
          k.units)
      | some mult =>
        let n := wrapTo 64 (num * mult)
        k.checkRange (if neg then wrapTo 64 (-n) else n)

def read (raw : Str) : Except Str Int :=
  let s := unquoted (quackapiTrim raw)
  if (quackapiTrim raw).isEmpty || s.isEmpty then .error ("empty ".toList ++ k.noun)
  else if s.head? = some '-' then
    match k.minus with
    | some e => .error e
    | none => k.readMagnitude true s.tail
  else k.readMagnitude false s

end DurationKind

theorem startsAsWord_of_mem {words : List Str} (h : words.all startsAsWord = true) {u : Str}
    (hu : u ∈ words) : startsAsWord u = true := List.all_eq_true.mp h u hu

theorem unitSeconds_spec {u : Str} {m : Int} (h : unitSeconds u = some m) :
    (1 ≤ m ∧ m ≤ 3600) ∧ startsAsWord u = true := by
  rw [unitSeconds] at h
  split_ifs at h with hs hm hh <;> cases h
  · exact ⟨by decide, startsAsWord_of_mem rfl hs⟩
  · exact ⟨by decide, startsAsWord_of_mem rfl hm⟩
  · exact ⟨by decide, startsAsWord_of_mem rfl hh⟩

theorem unitMillis_spec {u : Str} {m : Int} (h : unitMillis u = some m) :
    (1 ≤ m ∧ m ≤ 3600000) ∧ startsAsWord u = true := by
  rw [unitMillis] at h
  split_ifs at h with hms hs hm hh <;> cases h
  · exact ⟨by decide, startsAsWord_of_mem rfl hms⟩
  · exact ⟨by decide, startsAsWord_of_mem rfl hs⟩
  · exact ⟨by decide, startsAsWord_of_mem rfl hm⟩
  · exact ⟨by decide, startsAsWord_of_mem rfl hh⟩

theorem unit_fits_of_le {limit m most : Int} (h : 1 ≤ m ∧ m ≤ most) (hlimit : 0 ≤ limit)
    (hmost : limit * most < 2 ^ 63) : 1 ≤ m ∧ limit * m < 2 ^ 63 :=
  ⟨h.1, Int.lt_of_le_of_lt (Int.mul_le_mul_of_nonneg_left h.2 hlimit) hmost⟩

def queueDuration : DurationKind where
  noun := "duration".toList
  minus := none
  limit := 86400 * 365
  unit := unitSeconds
  units := "s, m, or h".toList
  bare := 1
  least := some (0, "duration must be non-negative".toList)
  most := (86400 * 7, "visibility_timeout max is 7 days".toList)
  width := 32
  limit_fits := by decide
  bare_fits := by decide
  unit_fits _ _ h := unit_fits_of_le (unitSeconds_spec h).1 (by decide) (by decide)
  unit_word _ _ h := (unitSeconds_spec h).2
  most_fits := by decide
  signed_least _ := ⟨_, rfl, by decide⟩

def routeTimeout : DurationKind where
  noun := "timeout".toList
  minus := some "timeout must be positive".toList
  limit := 86400
  unit := unitSeconds
  units := "s, m, or h".toList
  bare := 1
  least := some (1, "timeout must be a positive number of seconds".toList)
  most := (86400, "timeout max is 24 hours".toList)
  width := 32
  limit_fits := by decide
  bare_fits := by decide
  unit_fits _ _ h := unit_fits_of_le (unitSeconds_spec h).1 (by decide) (by decide)
  unit_word _ _ h := (unitSeconds_spec h).2
  most_fits := by decide
  signed_least h := absurd h (by decide)

def streamInterval : DurationKind where
  noun := "interval".toList
  minus := some "interval must be non-negative".toList
  limit := 86400 * 1000
  unit := unitMillis
  units := "ms, s, m, or h".toList
  bare := 1000
  least := none
  most := (86400 * 1000, "interval max is 24 hours".toList)
  width := 64
  limit_fits := by decide
  bare_fits := by decide
  unit_fits _ _ h := unit_fits_of_le (unitMillis_spec h).1 (by decide) (by decide)
  unit_word _ _ h := (unitMillis_spec h).2
  most_fits := by decide
  signed_least h := absurd h (by decide)

def parseDurationSeconds (raw : Str) : Except Str Int := queueDuration.read raw

def parseIntervalMs (raw : Str) : Except Str Int := streamInterval.read raw

/-- A decimal number with one of the signs in front, and what it is worth. -/
def IsDecimal (signs : List Str) (token : Str) (n : Int) : Prop :=
  ∃ sign ∈ signs, ∃ digits, token = sign ++ digits ∧ IsDigits digits ∧
    n = signed (sign == ['-']) (decimalValue digits)

/-- A number and one of the units, or none, and what they are worth together. -/
def IsDuration (signs : List Str) (unit : Str → Option Int) (bare : Int) (token : Str) (v : Int) :
    Prop :=
  ∃ number suffix n mult, token = number ++ suffix ∧ IsDecimal signs number n ∧
    (suffix = [] ∧ mult = bare ∨ unit (lower suffix) = some mult) ∧ v = n * mult

theorem wrapTo_eq {bits : Nat} (hbits : 0 < bits) {n : Int} (hlow : -2 ^ (bits - 1) ≤ n)
    (hhigh : n < 2 ^ (bits - 1)) : wrapTo bits n = n := by
  obtain ⟨b, rfl⟩ := Nat.exists_eq_add_one_of_ne_zero hbits.ne'
  rw [Nat.add_sub_cancel] at hlow hhigh
  have hpow : ((2 ^ (b + 1) : Nat) : Int) = 2 * 2 ^ b := by
    rw [Nat.pow_succ]
    push_cast
    exact Int.mul_comm _ _
  rw [wrapTo]
  apply Int.bmod_eq_of_le
  · rw [hpow]
    omega
  · rw [hpow]
    omega

theorem wrapTo_of_nonneg {n : Int} (hlow : 0 ≤ n) (hhigh : n < 2 ^ 63) : wrapTo 64 n = n :=
  wrapTo_eq (by decide) (Int.le_trans (by decide) hlow) hhigh

theorem digit_bounds {c : Char} (h : c.isDigit = true) :
    (0 : Int) ≤ c.toNat - 48 ∧ (c.toNat : Int) - 48 ≤ 9 := by
  rw [Char.isDigit, Bool.and_eq_true, decide_eq_true_iff, decide_eq_true_iff] at h
  have hlow : 48 ≤ c.toNat := h.1
  have hhigh : c.toNat ≤ 57 := h.2
  omega

def extend (num : Int) (digits : Str) : Int :=
  digits.foldl (fun n c => 10 * n + (c.toNat - 48 : Int)) num

theorem le_extend {num : Int} (hnum : 0 ≤ num) {digits : Str}
    (hdigits : ∀ c ∈ digits, c.isDigit = true) : num ≤ extend num digits := by
  induction digits generalizing num with
  | nil => exact Int.le_refl num
  | cons c digits ih =>
    obtain ⟨hc, hdigits⟩ := List.forall_mem_cons.mp hdigits
    have hbounds := digit_bounds hc
    have hstep : num ≤ 10 * num + (c.toNat - 48 : Int) := by omega
    exact Int.le_trans hstep (ih (Int.le_trans hnum hstep) hdigits)

theorem readDigits_eq {limit : Int} (hfits : limit * 10 + 9 < 2 ^ 63) {rest : Str}
    (hrest : ∀ c ∈ rest.head?, c.isDigit = false) {digits : Str}
    (hdigits : ∀ c ∈ digits, c.isDigit = true) {num : Int} (hnum : 0 ≤ num) (hle : num ≤ limit) :
    readDigits limit num (digits ++ rest) =
      if limit < extend num digits then none else some (extend num digits, rest) := by
  induction digits generalizing num with
  | nil =>
    have hstop : readDigits limit num rest = some (num, rest) := by
      cases rest with
      | nil => rfl
      | cons c rest =>
        rw [readDigits, hrest c rfl]
        rfl
    exact hstop.trans (if_neg (Int.not_lt.mpr hle)).symm
  | cons c digits ih =>
    obtain ⟨hc, hdigits⟩ := List.forall_mem_cons.mp hdigits
    have hbounds := digit_bounds hc
    have hmul : wrapTo 64 (num * 10) = num * 10 := wrapTo_of_nonneg (by omega) (by omega)
    have hstep :
        wrapTo 64 (wrapTo 64 (num * 10) + (c.toNat - 48 : Int)) = 10 * num + (c.toNat - 48 : Int) := by
      rw [hmul, wrapTo_of_nonneg (by omega) (by omega), Int.mul_comm]
    rw [List.cons_append, readDigits, if_pos hc, hstep]
    by_cases hover : limit < 10 * num + (c.toNat - 48 : Int)
    · have hlarge : limit < extend num (c :: digits) :=
        Int.lt_of_lt_of_le hover (le_extend (by omega) hdigits)
      rw [if_pos hlarge]
      exact if_pos hover
    · rw [extend, List.foldl_cons]
      exact (if_neg hover).trans (ih hdigits (by omega) (Int.not_lt.mp hover))

theorem decimalValue_nonneg {digits : Str} (h : IsDigits digits) : 0 ≤ decimalValue digits :=
  le_extend (Int.le_refl 0) h.2

theorem head_digits {digits : Str} (h : IsDigits digits) (suffix : Str) :
    (digits ++ suffix).head? ≠ some '-' := by
  obtain ⟨c, s, rfl⟩ := List.exists_cons_of_ne_nil h.1
  intro hhead
  have hc : c = '-' := Option.some.inj hhead
  exact absurd (h.2 c List.mem_cons_self) (hc ▸ by decide)

theorem cut_digits {s : Str} (h : s.head?.any Char.isDigit = true) :
    IsDigits (s.takeWhile Char.isDigit) ∧
      ∀ c ∈ (s.dropWhile Char.isDigit).head?, c.isDigit = false := by
  refine ⟨⟨?_, fun c hc => List.mem_takeWhile_imp hc⟩, ?_⟩
  · cases s with
    | nil => cases h
    | cons c s =>
      have hc : c.isDigit = true := h
      rw [List.takeWhile_cons_of_pos hc]
      exact List.cons_ne_nil _ _
  · intro c hc
    have hnot := List.head?_dropWhile_not Char.isDigit s
    rw [Option.mem_def.mp hc] at hnot
    simpa using hnot

theorem toLower_digit {c : Char} (hc : c.isDigit = true) : c.toLower = c := by
  have hbounds := digit_bounds hc
  unfold Char.toLower
  refine dif_neg fun hand => ?_
  have h65 : 65 ≤ c.toNat := hand.1
  omega

theorem head_lower {s : Str} {c : Char} (hc : c.isDigit = true) (h : s.head? = some c) :
    (lower s).head? = some c := by
  rw [lower, List.head?_map, h]
  exact congrArg some (toLower_digit hc)

namespace DurationKind
variable (k : DurationKind)

theorem unitOf_eq_some_iff (suffix : Str) (mult : Int) :
    k.unitOf suffix = some mult ↔
      suffix = [] ∧ mult = k.bare ∨ k.unit (lower suffix) = some mult := by
  cases suffix with
  | nil =>
    have hnone : ∀ m, k.unit (lower []) ≠ some m := fun m h =>
      absurd (k.unit_word _ m h) (by decide)
    simp [unitOf, hnone, eq_comm]
  | cons c s => simp [unitOf]

theorem unitOf_fits {suffix : Str} {mult : Int} (h : k.unitOf suffix = some mult) :
    1 ≤ mult ∧ k.limit * mult < 2 ^ 63 := by
  rcases (k.unitOf_eq_some_iff suffix mult).mp h with ⟨_, rfl⟩ | hunit
  · exact k.bare_fits
  · exact k.unit_fits _ mult hunit

theorem head_of_unitOf {suffix : Str} {mult : Int} (h : k.unitOf suffix = some mult) :
    ∀ c ∈ suffix.head?, c.isDigit = false := by
  intro c hc
  rcases (k.unitOf_eq_some_iff suffix mult).mp h with ⟨rfl, _⟩ | hunit
  · cases hc
  · by_contra hdigit
    have hword := k.unit_word _ mult hunit
    rw [startsAsWord, head_lower (by simpa using hdigit) hc] at hword
    simp_all

theorem checkRange_ok_iff {n : Int} (hn : (∀ e ∈ k.least, e.1 ≤ n) → 0 ≤ n) (v : Int) :
    k.checkRange n = .ok v ↔ v = n ∧ (∀ e ∈ k.least, e.1 ≤ n) ∧ n ≤ k.most.1 := by
  obtain ⟨_, hwidth, hpos⟩ := k.most_fits
  have hleast : k.least.filter (fun e => n < e.1) = none ↔ ∀ e ∈ k.least, e.1 ≤ n := by
    simp [Option.filter_eq_none_iff]
  rw [checkRange]
  split
  · next e he =>
    have hnot : ¬ ∀ e ∈ k.least, e.1 ≤ n := fun h => by simp [hleast.mpr h] at he
    exact iff_of_false (by simp) fun h => hnot h.2.1
  · next hnone =>
    have hleast' := hleast.mp hnone
    split_ifs with hmost
    · exact iff_of_false (by simp) fun h => absurd h.2.2 (Int.not_le.mpr hmost)
    · have hmost' := Int.not_lt.mp hmost
      have hpow : (0 : Int) < 2 ^ (k.width - 1) := Int.pow_pos (by decide)
      have hlow : -2 ^ (k.width - 1) ≤ n := Int.le_trans (by omega) (hn hleast')
      rw [wrapTo_eq hpos hlow (Int.lt_of_le_of_lt hmost' hwidth)]
      exact ⟨fun h => ⟨(Except.ok.inj h).symm, hleast', hmost'⟩, fun h => congrArg _ h.1.symm⟩

def unknownUnit (suffix : Str) : Str :=
  "unknown ".toList ++ k.noun ++ " unit \"".toList ++ lower suffix ++ "\" — use ".toList ++ k.units

theorem readMagnitude_append {digits : Str} (hdigits : IsDigits digits) {suffix : Str}
    (hsuffix : ∀ c ∈ suffix.head?, c.isDigit = false) (neg : Bool) :
    k.readMagnitude neg (digits ++ suffix) =
      if k.limit < decimalValue digits then .error (k.noun ++ " too large".toList)
      else (k.unitOf suffix).elim (.error (k.unknownUnit suffix)) fun mult =>
        k.checkRange (signed neg (decimalValue digits * mult)) := by
  have hnonneg := decimalValue_nonneg hdigits
  have hhead : (digits ++ suffix).head?.any Char.isDigit = true := by
    obtain ⟨c, s, rfl⟩ := List.exists_cons_of_ne_nil hdigits.1
    exact hdigits.2 c List.mem_cons_self
  have hread := readDigits_eq k.limit_fits.2 hsuffix hdigits.2 (Int.le_refl 0) k.limit_fits.1
  rw [show extend 0 digits = decimalValue digits from rfl] at hread
  rw [readMagnitude, hhead, hread]
  by_cases hover : k.limit < decimalValue digits
  · rw [if_pos hover, if_pos hover]
    rfl
  · have hlimit := Int.not_lt.mp hover
    rw [if_neg hover, if_neg hover]
    rcases hunit : k.unitOf suffix with _ | mult
    · simp only [hunit]
      rfl
    · obtain ⟨hone, hfits⟩ := k.unitOf_fits hunit
      have hproduct : decimalValue digits * mult < 2 ^ 63 :=
        Int.lt_of_le_of_lt (Int.mul_le_mul_of_nonneg_right hlimit (by omega)) hfits
      have hproduct0 : 0 ≤ decimalValue digits * mult := Int.mul_nonneg hnonneg (by omega)
      have hneg : wrapTo 64 (-(decimalValue digits * mult)) = -(decimalValue digits * mult) :=
        wrapTo_eq (by decide) (by omega) (by omega)
      simp only [hunit, wrapTo_of_nonneg hproduct0 hproduct, hneg]
      rfl

theorem readMagnitude_append_ok_iff {digits : Str} (hdigits : IsDigits digits) {suffix : Str}
    (hsuffix : ∀ c ∈ suffix.head?, c.isDigit = false) (neg : Bool) (v : Int) :
    k.readMagnitude neg (digits ++ suffix) = .ok v ↔
      decimalValue digits ≤ k.limit ∧ ∃ mult, k.unitOf suffix = some mult ∧
        k.checkRange (signed neg (decimalValue digits * mult)) = .ok v := by
  rw [k.readMagnitude_append hdigits hsuffix]
  by_cases hover : k.limit < decimalValue digits
  · rw [if_pos hover]
    exact iff_of_false (by simp) fun h => absurd h.1 (Int.not_le.mpr hover)
  · rw [if_neg hover]
    rcases k.unitOf suffix with _ | mult
    · simp
    · simp [Int.not_lt.mp hover]

theorem decimalValue_le_limit {digits : Str} (hdigits : IsDigits digits) {neg : Bool}
    (hneg : neg = true → k.minus = none) {mult : Int} (hmult : 1 ≤ mult)
    (hleast : ∀ e ∈ k.least, e.1 ≤ signed neg (decimalValue digits * mult))
    (hmost : signed neg (decimalValue digits * mult) ≤ k.most.1) : decimalValue digits ≤ k.limit := by
  have hnonneg := decimalValue_nonneg hdigits
  have hproduct : decimalValue digits ≤ decimalValue digits * mult := by
    have hmul := Int.mul_le_mul_of_nonneg_left hmult hnonneg
    rwa [Int.mul_one] at hmul
  cases neg with
  | false => exact Int.le_trans hproduct (Int.le_trans hmost k.most_fits.1)
  | true =>
    obtain ⟨e, he, hzero⟩ := k.signed_least (hneg rfl)
    have hlow : 0 ≤ -(decimalValue digits * mult) := Int.le_trans hzero (hleast e he)
    have hlimit := k.limit_fits.1
    omega

theorem readMagnitude_ok_iff (neg : Bool) (hneg : neg = true → k.minus = none) (s : Str) (v : Int) :
    k.readMagnitude neg s = .ok v ↔ ∃ digits suffix mult, s = digits ++ suffix ∧ IsDigits digits ∧
      k.unitOf suffix = some mult ∧ v = signed neg (decimalValue digits * mult) ∧
      (∀ e ∈ k.least, e.1 ≤ v) ∧ v ≤ k.most.1 := by
  -- Whatever is read is not negative: what a minus gives is below the least, unless it is zero.
  have hrange : ∀ {digits : Str} {mult : Int}, IsDigits digits → 1 ≤ mult →
      (∀ e ∈ k.least, e.1 ≤ signed neg (decimalValue digits * mult)) →
      0 ≤ signed neg (decimalValue digits * mult) := by
    intro digits mult hdigits hmult hleast
    cases neg with
    | false => exact Int.mul_nonneg (decimalValue_nonneg hdigits) (by omega)
    | true =>
      obtain ⟨e, he, hzero⟩ := k.signed_least (hneg rfl)
      exact Int.le_trans hzero (hleast e he)
  constructor
  · intro h
    have hhead : s.head?.any Char.isDigit = true := by
      by_contra hnot
      rw [readMagnitude, Bool.eq_false_iff.mpr hnot] at h
      cases h
    obtain ⟨hdigits, hsuffix⟩ := cut_digits hhead
    have hcut : s.takeWhile Char.isDigit ++ s.dropWhile Char.isDigit = s :=
      List.takeWhile_append_dropWhile
    rw [← hcut, k.readMagnitude_append_ok_iff hdigits hsuffix] at h
    obtain ⟨_, mult, hunit, hcheck⟩ := h
    have hmult := (k.unitOf_fits hunit).1
    obtain ⟨rfl, hleast, hmost⟩ := (k.checkRange_ok_iff (hrange hdigits hmult) v).mp hcheck
    exact ⟨_, _, mult, hcut.symm, hdigits, hunit, rfl, hleast, hmost⟩
  · rintro ⟨digits, suffix, mult, rfl, hdigits, hunit, rfl, hleast, hmost⟩
    have hmult := (k.unitOf_fits hunit).1
    rw [k.readMagnitude_append_ok_iff hdigits (k.head_of_unitOf hunit)]
    refine ⟨k.decimalValue_le_limit hdigits hneg hmult hleast hmost, mult, hunit, ?_⟩
    exact (k.checkRange_ok_iff (hrange hdigits hmult) _).mpr ⟨rfl, hleast, hmost⟩

def signs : List Str := if k.minus = none then [[], ['-']] else [[]]

theorem isDuration_iff (token : Str) (v : Int) :
    IsDuration k.signs k.unit k.bare token v ↔ ∃ sign ∈ k.signs, ∃ digits suffix mult,
      token = sign ++ (digits ++ suffix) ∧ IsDigits digits ∧ k.unitOf suffix = some mult ∧
        v = signed (sign == ['-']) (decimalValue digits * mult) := by
  have hsigned : ∀ (neg : Bool) (n mult : Int), signed neg n * mult = signed neg (n * mult) := by
    intro neg n mult
    cases neg
    · rfl
    · exact Int.neg_mul n mult
  constructor
  · rintro ⟨_, suffix, _, mult, rfl, ⟨sign, hsign, digits, rfl, hdigits, rfl⟩, hunit, rfl⟩
    exact ⟨sign, hsign, digits, suffix, mult, List.append_assoc _ _ _, hdigits,
      (k.unitOf_eq_some_iff suffix mult).mpr hunit, hsigned _ _ _⟩
  · rintro ⟨sign, hsign, digits, suffix, mult, rfl, hdigits, hunit, rfl⟩
    exact ⟨sign ++ digits, suffix, _, mult, (List.append_assoc _ _ _).symm,
      ⟨sign, hsign, digits, rfl, hdigits, rfl⟩, (k.unitOf_eq_some_iff suffix mult).mp hunit,
      (hsigned _ _ _).symm⟩

theorem read_ok_iff (raw : Str) (v : Int) :
    k.read raw = .ok v ↔ IsDuration k.signs k.unit k.bare (unquoted (quackapiTrim raw)) v ∧
      (∀ e ∈ k.least, e.1 ≤ v) ∧ v ≤ k.most.1 := by
  rw [k.isDuration_iff, read]
  have hempty : (quackapiTrim raw).isEmpty = true → (unquoted (quackapiTrim raw)).isEmpty = true := by
    intro h
    rw [List.isEmpty_iff.mp h]
    rfl
  generalize quackapiTrim raw = text at *
  generalize unquoted text = s at *
  have hsigns : [] ∈ k.signs := by
    rw [signs]
    split_ifs <;> exact List.mem_cons_self
  by_cases hs : (text.isEmpty || s.isEmpty) = true
  · have hnil : s = [] := by
      rw [Bool.or_eq_true] at hs
      exact List.isEmpty_iff.mp (hs.elim hempty id)
    rw [if_pos hs, hnil]
    refine iff_of_false (by simp) ?_
    rintro ⟨⟨sign, _, digits, suffix, _, heq, hdigits, _⟩, _⟩
    exact hdigits.1 (List.append_eq_nil_iff.mp (List.append_eq_nil_iff.mp heq.symm).2).1
  · rw [if_neg hs]
    by_cases hminus : s.head? = some '-'
    · rw [if_pos hminus]
      obtain ⟨t, rfl⟩ := List.head?_eq_some_iff.mp hminus
      have hplain : ∀ {digits suffix : Str}, IsDigits digits →
          '-' :: t ≠ [] ++ (digits ++ suffix) := by
        intro digits suffix hdigits heq
        exact head_digits hdigits suffix (congrArg List.head? heq).symm
      rcases hkind : k.minus with _ | e
      · have hread := k.readMagnitude_ok_iff true (fun _ => hkind) t v
        rw [signs, if_pos hkind, List.tail_cons, hread]
        constructor
        · rintro ⟨digits, suffix, mult, rfl, hdigits, hunit, hv, hrange⟩
          exact ⟨⟨['-'], by simp, digits, suffix, mult, rfl, hdigits, hunit, hv⟩, hrange⟩
        · rintro ⟨⟨sign, hsign, digits, suffix, mult, heq, hdigits, hunit, hv⟩, hrange⟩
          rcases List.mem_cons.mp hsign with rfl | hsign
          · exact absurd heq (hplain hdigits)
          · rw [List.mem_singleton.mp hsign] at heq hv
            exact ⟨digits, suffix, mult, (List.cons.inj heq).2, hdigits, hunit, hv, hrange⟩
      · rw [signs, if_neg (by simp [hkind])]
        refine iff_of_false (by simp) ?_
        rintro ⟨⟨sign, hsign, digits, suffix, _, heq, hdigits, _⟩, _⟩
        rw [List.mem_singleton.mp hsign] at heq
        exact hplain hdigits heq
    · have hread := k.readMagnitude_ok_iff false (fun h => by cases h) s v
      rw [if_neg hminus, hread]
      constructor
      · rintro ⟨digits, suffix, mult, rfl, hdigits, hunit, hv, hrange⟩
        exact ⟨⟨[], hsigns, digits, suffix, mult, rfl, hdigits, hunit, hv⟩, hrange⟩
      · rintro ⟨⟨sign, hsign, digits, suffix, mult, rfl, hdigits, hunit, hv⟩, hrange⟩
        have hsign : sign = [] := by
          by_contra hne
          rw [signs] at hsign
          split_ifs at hsign
          · rcases List.mem_cons.mp hsign with rfl | hsign
            · exact hne rfl
            · rw [List.mem_singleton.mp hsign] at hminus
              exact hminus rfl
          · exact hne (List.mem_singleton.mp hsign)
        subst hsign
        exact ⟨digits, suffix, mult, rfl, hdigits, hunit, hv, hrange⟩

end DurationKind

theorem checkRange_routeTimeout {n : Int} (hn : 0 ≤ n) :
    routeTimeout.checkRange n =
      if n ≤ 0 then .error "timeout must be a positive number of seconds".toList
      else if 86400 < n then .error "timeout max is 24 hours".toList else .ok n := by
  have hfilter : routeTimeout.least.filter (fun e => n < e.1) =
      if n < 1 then some (1, "timeout must be a positive number of seconds".toList) else none := by
    rw [show routeTimeout.least =
      some (1, "timeout must be a positive number of seconds".toList) from rfl, Option.filter_some]
    simp only [decide_eq_true_eq]
  rw [DurationKind.checkRange, hfilter]
  by_cases hzero : n ≤ 0
  · have hlow : n < 1 := by omega
    rw [if_pos hzero, if_pos hlow]
  · have hlow : ¬ n < 1 := by omega
    rw [if_neg hzero, if_neg hlow]
    by_cases hmost : 86400 < n
    · rw [if_pos hmost]
      exact if_pos hmost
    · have hwrap : wrapTo 32 n = n := wrapTo_eq (by decide) (by omega) (by omega)
      rw [if_neg hmost]
      exact (if_neg hmost).trans (congrArg Except.ok hwrap)

theorem unknownUnit_routeTimeout (suffix : Str) :
    routeTimeout.unknownUnit suffix =
      "unknown timeout unit \"".toList ++ lower suffix ++ "\" — use s, m, or h".toList := by
  have hfront : "unknown ".toList ++ "timeout".toList ++ " unit \"".toList =
      "unknown timeout unit \"".toList := by decide
  have hback : "\" — use ".toList ++ "s, m, or h".toList = "\" — use s, m, or h".toList := by decide
  rw [← hfront, ← hback, ← List.append_assoc]
  rfl

theorem parseRouteTimeoutSec_eq (raw : Str) : parseRouteTimeoutSec raw = routeTimeout.read raw := by
  rw [parseRouteTimeoutSec, DurationKind.read]
  generalize quackapiTrim raw = text
  generalize unquoted text = s
  by_cases hs : (text.isEmpty || s.isEmpty) = true
  · rw [if_pos hs, if_pos hs]
    rfl
  · rw [if_neg hs, if_neg hs]
    by_cases hminus : s.head? = some '-'
    · rw [if_pos hminus, if_pos hminus]
      rfl
    · rw [if_neg hminus, if_neg hminus]
      by_cases hhead : s.head?.any Char.isDigit = true
      · obtain ⟨hdigits, hsuffix⟩ := cut_digits hhead
        have hread := routeTimeout.readMagnitude_append hdigits hsuffix false
        have hne : (s.takeWhile Char.isDigit).isEmpty = false := by
          rw [List.isEmpty_eq_false_iff]
          exact hdigits.1
        have hnonneg := decimalValue_nonneg hdigits
        rw [List.takeWhile_append_dropWhile] at hread
        rw [hread, hne, if_neg (by decide)]
        generalize s.takeWhile Char.isDigit = digits at *
        generalize s.dropWhile Char.isDigit = suffix at *
        have hunit : (if (lower suffix).isEmpty then some 1 else unitSeconds (lower suffix)) =
            routeTimeout.unitOf suffix := by
          cases suffix <;> rfl
        rw [hunit]
        rcases hu : routeTimeout.unitOf suffix with _ | mult
        · rw [Option.elim_none, unknownUnit_routeTimeout]
          rfl
        · have hmult : 0 ≤ mult := Int.le_trans (by decide) (routeTimeout.unitOf_fits hu).1
          have hproduct : 0 ≤ decimalValue digits * mult := Int.mul_nonneg hnonneg hmult
          rw [Option.elim_some, show signed false (decimalValue digits * mult) =
            decimalValue digits * mult from rfl, checkRange_routeTimeout hproduct]
          rfl
      · have hnone : (s.takeWhile Char.isDigit).isEmpty = true := by
          cases s with
          | nil => rfl
          | cons c s =>
            have hc : ¬ c.isDigit = true := hhead
            rw [List.takeWhile_cons_of_neg hc]
            rfl
        rw [if_pos hnone, DurationKind.readMagnitude, Bool.eq_false_iff.mpr hhead]
        rfl

end Quackapi.Ddl
