import Quackapi.Ddl.NumberReaders

/-! The numbers of `STATUS`, `EMPTY STATUS` and `RATE LIMIT`, which `atoi` reads: it stops at the first
character that is no digit and keeps the low 32 bits. -/

namespace Quackapi.Ddl
open Library (IsDigits)
open Params Http

theorem parseRouteRequestBytes_ok_iff (raw : Str) (v : Int) :
    parseRouteRequestBytes raw = .ok v ↔ IsDecimal [[]] raw v ∧ 0 < v ∧ v ≤ int64Max := by
  have hdecimal : IsDecimal [[]] raw v ↔ IsDigits raw ∧ v = decimalValue raw := by
    constructor
    · rintro ⟨sign, hsign, digits, rfl, hdigits, rfl⟩
      rw [List.mem_singleton.mp hsign]
      exact ⟨hdigits, rfl⟩
    · rintro ⟨hdigits, rfl⟩
      exact ⟨[], List.mem_singleton_self _, raw, rfl, hdigits, rfl⟩
  rw [hdecimal, parseRouteRequestBytes]
  by_cases hraw : IsDigits raw
  · have hread := stoll_numeral ⟨false, raw, hraw.1, hraw.2⟩ (t := []) nofun
    rw [List.append_nil] at hread
    have hreads : stoll raw =
        if inInt64 (decimalValue raw) then some (decimalValue raw, []) else none := hread
    have hplain : (raw.isEmpty || raw.any fun c => !c.isDigit) = false := by
      rw [Bool.or_eq_false_iff, List.isEmpty_eq_false_iff, List.any_eq_false]
      exact ⟨hraw.1, fun c hc => by simp [hraw.2 c hc]⟩
    have hnonneg := decimalValue_nonneg hraw
    rw [hplain, hreads]
    by_cases hfits : inInt64 (decimalValue raw) = true
    · rw [if_pos hfits]
      have hmax : decimalValue raw ≤ int64Max := by
        rw [inInt64, Bool.and_eq_true, decide_eq_true_iff, decide_eq_true_iff] at hfits
        exact hfits.2
      by_cases hpos : decimalValue raw ≤ 0
      · refine iff_of_false (by simp [hpos]) ?_
        rintro ⟨⟨_, rfl⟩, hlow, _⟩
        omega
      · simp only [Bool.false_eq_true, if_false, ne_eq, not_true_eq_false, hpos, or_self,
          Except.ok.injEq]
        constructor
        · rintro rfl
          exact ⟨⟨hraw, rfl⟩, by omega, hmax⟩
        · rintro ⟨⟨_, rfl⟩, _⟩
          rfl
    · rw [if_neg hfits]
      refine iff_of_false (by simp) ?_
      rintro ⟨⟨_, rfl⟩, hlow, hhigh⟩
      refine hfits ?_
      rw [inInt64, Bool.and_eq_true, decide_eq_true_iff, decide_eq_true_iff]
      exact ⟨Int.le_trans (by decide) hnonneg, hhigh⟩
  · have hbad : (raw.isEmpty || raw.any fun c => !c.isDigit) = true := by
      by_contra hgood
      rw [Bool.not_eq_true, Bool.or_eq_false_iff, List.isEmpty_eq_false_iff, List.any_eq_false] at hgood
      exact hraw ⟨hgood.1, fun c hc => by simpa using hgood.2 c hc⟩
    rw [if_pos hbad]
    exact iff_of_false (by simp) fun h => hraw h.1.1

def anySign : List Str := [[], ['+'], ['-']]

/-- The number at the front of the token, as far as its digits go. -/
def frontNumber (token : Str) : Int :=
  signed (takeSign token).1 (decimalValue ((takeSign token).2.takeWhile Char.isDigit))

/-- The token is a decimal number, with or without a sign, that is one of these. -/
def InBounds (bounds : Int → Prop) (token : Str) : Prop := ∃ n, IsDecimal anySign token n ∧ bounds n

/-- No number in the bounds is the front number cut to 64 bits, up to multiples of `2 ^ 32`. -/
def MissesBounds (bounds : Int → Prop) (token : Str) : Prop :=
  ∀ n, bounds n → ¬ (2 ^ 32 : Int) ∣ max int64Min (min int64Max (frontNumber token)) - n

theorem frontNumber_decimal {token : Str} {n : Int} (h : IsDecimal anySign token n) :
    frontNumber token = n := by
  obtain ⟨sign, hsign, digits, rfl, hdigits, rfl⟩ := h
  have htake : digits.takeWhile Char.isDigit = digits := List.takeWhile_eq_self_iff.mpr hdigits.2
  have hplain := takeSign_digits hdigits.1 hdigits.2 []
  rw [List.append_nil] at hplain
  rw [frontNumber]
  rcases List.mem_cons.mp hsign with rfl | hsign
  · rw [List.nil_append, hplain, htake]
    rfl
  · rcases List.mem_cons.mp hsign with rfl | hsign
    · rw [show takeSign (['+'] ++ digits) = (false, digits) from rfl, htake]
      rfl
    · rw [List.mem_singleton.mp hsign, show takeSign (['-'] ++ digits) = (true, digits) from rfl, htake]
      rfl

theorem atoi_nextToken (text : Str) :
    atoi (nextToken text) =
      (max int64Min (min int64Max (frontNumber (nextToken text))) + 2 ^ 31) % 2 ^ 32 - 2 ^ 31 := by
  have hspace : (nextToken text).dropWhile isSpace = nextToken text := by
    rcases hcut : nextToken text with _ | ⟨c, token⟩
    · rfl
    · have hmem : c ∈ nextToken text := hcut ▸ List.mem_cons_self
      have hc := List.mem_takeWhile_imp hmem
      exact List.dropWhile_cons_of_neg (by simpa using hc)
  rw [atoi, hspace]
  rfl

section Bounds
variable {bounds : Int → Prop} (hbounds : ∀ n, bounds n → -2 ^ 31 ≤ n ∧ n < 2 ^ 31)
include hbounds

theorem atoi_inBounds {text : Str} {n : Int} (h : IsDecimal anySign (nextToken text) n) (hn : bounds n) :
    atoi (nextToken text) = n := by
  have hwide := hbounds n hn
  rw [atoi_nextToken, frontNumber_decimal h, int64Min, int64Max]
  omega

theorem bounds_atoi_iff (text : Str) :
    bounds (atoi (nextToken text)) ↔ ¬ MissesBounds bounds (nextToken text) := by
  simp only [MissesBounds, not_forall, not_not, exists_prop]
  constructor
  · intro h
    refine ⟨_, h, ?_⟩
    rw [atoi_nextToken]
    omega
  · rintro ⟨n, hn, hdvd⟩
    have hwide := hbounds n hn
    have heq : atoi (nextToken text) = n := by
      rw [atoi_nextToken]
      omega
    rwa [heq]

theorem token_exact_iff (text : Str) :
    (bounds (atoi (nextToken text)) →
        IsDecimal anySign (nextToken text) (atoi (nextToken text)) ∧ bounds (atoi (nextToken text))) ↔
      MissesBounds bounds (nextToken text) ∨ InBounds bounds (nextToken text) := by
  rw [bounds_atoi_iff hbounds]
  constructor
  · intro h
    by_cases hmisses : MissesBounds bounds (nextToken text)
    · exact .inl hmisses
    · exact .inr ⟨_, (h hmisses).1, (bounds_atoi_iff hbounds text).mpr hmisses⟩
  · rintro (hmisses | ⟨n, hn, hin⟩) hnot
    · exact absurd hmisses hnot
    · rw [← bounds_atoi_iff hbounds, atoi_inBounds hbounds hn hin]
      exact ⟨hn, hin⟩

end Bounds

def IsStatus (n : Int) : Prop := isStatus n = true

def IsCount (n : Int) : Prop := 0 < n ∧ n < 2 ^ 31

theorem isStatus_fits (n : Int) (h : IsStatus n) : -2 ^ 31 ≤ n ∧ n < 2 ^ 31 := by
  rw [IsStatus, isStatus, Bool.and_eq_true, decide_eq_true_iff, decide_eq_true_iff] at h
  omega

theorem isCount_fits (n : Int) (h : IsCount n) : -2 ^ 31 ≤ n ∧ n < 2 ^ 31 := by
  obtain ⟨hpos, hlt⟩ := h
  omega

theorem isCount_atoi_iff (s : Str) : IsCount (atoi s) ↔ ¬ atoi s ≤ 0 := by
  have hlt : atoi s < 2 ^ 31 := by
    rw [atoi]
    rcases takeSign (s.dropWhile isSpace) with ⟨negative, digits⟩
    dsimp only
    omega
  rw [IsCount, Int.not_le]
  exact and_iff_left hlt

theorem IsStatus.isEmpty {token : Str} (h : IsStatus (atoi token)) : token.isEmpty = false := by
  have hnone : isStatus (atoi []) = false := by decide
  cases token with
  | nil =>
    rw [IsStatus, hnone] at h
    cases h
  | cons c token => rfl

theorem IsCount.isEmpty {token : Str} (h : IsCount (atoi token)) : token.isEmpty = false := by
  have hnone : atoi [] = 0 := by decide
  cases token with
  | nil =>
    rw [IsCount, hnone] at h
    exact absurd h.1 (by decide)
  | cons c token => rfl

def statusToken (rest : Str) : Str := nextToken (afterKeyword "STATUS".toList rest)

/-- Whatever status the clause takes is all of its token, and a status. -/
def StatusExact (st : HeadState) (rest : Str) : Prop :=
  ∀ r, statusClause st rest = .ok r →
    IsDecimal anySign (statusToken rest) r.1.status ∧ IsStatus r.1.status

theorem statusClause_ok_iff (st : HeadState) (rest : Str) (r : HeadState × Str) :
    statusClause st rest = .ok r ↔ IsStatus (atoi (statusToken rest)) ∧
      r = ({ st with status := atoi (statusToken rest) },
        afterToken (afterKeyword "STATUS".toList rest)) := by
  rw [statusClause, statusToken]
  by_cases hstatus : IsStatus (atoi (nextToken (afterKeyword "STATUS".toList rest)))
  · have hnumber : isStatus (atoi (nextToken (afterKeyword "STATUS".toList rest))) = true := hstatus
    rw [hstatus.isEmpty, hnumber, if_neg (by decide), if_neg (by decide)]
    exact ⟨fun h => ⟨hstatus, (Except.ok.inj h).symm⟩, fun h => congrArg _ h.2.symm⟩
  · refine iff_of_false (fun h => ?_) fun h => hstatus h.1
    split_ifs at h with htoken hnumber
    · cases h
    · cases h
    · rw [Bool.not_eq_true', Bool.not_eq_false] at hnumber
      exact hstatus hnumber

theorem statusExact_iff (st : HeadState) (rest : Str) :
    StatusExact st rest ↔
      MissesBounds IsStatus (statusToken rest) ∨ InBounds IsStatus (statusToken rest) := by
  rw [statusToken, ← token_exact_iff isStatus_fits, ← statusToken]
  constructor
  · exact fun h hin => h _ ((statusClause_ok_iff st rest _).mpr ⟨hin, rfl⟩)
  · rintro h r hr
    obtain ⟨hin, rfl⟩ := (statusClause_ok_iff st rest r).mp hr
    exact h hin

/-- The text behind an `EMPTY`, from its `STATUS` on. -/
def emptyNumber (rest : Str) : Str :=
  afterKeyword "STATUS".toList (afterKeyword "EMPTY".toList rest)

/-- A `BODY` in front of the text has a literal. -/
def BodyRead (text : Str) : Prop :=
  atKeywordBlank "BODY".toList text = true →
    ∃ t r, afterKeyword "BODY".toList text = '\'' :: t ∧ takeLiteral t = some r

/-- Apart from its number, the clause is well formed. -/
def EmptyShape (rest : Str) : Prop :=
  atKeyword "STATUS".toList (afterKeyword "EMPTY".toList rest) = true ∧
    BodyRead (afterToken (emptyNumber rest))

def EmptyExact (st : HeadState) (rest : Str) : Prop :=
  ∀ r, emptyClause st rest = .ok r →
    IsDecimal anySign (nextToken (emptyNumber rest)) r.1.emptyStatus ∧ IsStatus r.1.emptyStatus

theorem emptyBodyPart_ok {st : HeadState} {text : Str} {r : HeadState × Str}
    (h : emptyBodyPart st text = .ok r) : BodyRead text ∧ r.1.emptyStatus = st.emptyStatus := by
  rw [emptyBodyPart] at h
  dsimp only at h
  split_ifs at h with hbody hschema
  · cases h
  · rcases htext : afterKeyword "BODY".toList text with _ | ⟨c, t⟩
    · rw [htext] at h
      cases h
    · rw [htext] at h
      split at h
      · next heq =>
        split at h
        · cases h
        · next hread =>
          cases h
          exact ⟨fun _ => ⟨_, _, htext.trans heq, hread⟩, rfl⟩
      · cases h
  · cases h
    exact ⟨fun hyes => absurd hyes hbody, rfl⟩

theorem emptyBodyPart_of_bodyRead (st : HeadState) {text : Str} (h : BodyRead text) :
    ∃ r, emptyBodyPart st text = .ok r := by
  rw [emptyBodyPart]
  dsimp only
  split_ifs with hbody hschema
  · obtain ⟨t, r, htext, _⟩ := h hbody
    rw [htext] at hschema
    cases hschema
  · obtain ⟨t, r, htext, hread⟩ := h hbody
    rw [htext]
    simp only [hread]
    exact ⟨_, rfl⟩
  · exact ⟨_, rfl⟩

theorem emptyClause_ok {st : HeadState} {rest : Str} {r : HeadState × Str}
    (h : emptyClause st rest = .ok r) :
    EmptyShape rest ∧ IsStatus (atoi (nextToken (emptyNumber rest))) ∧
      r.1.emptyStatus = atoi (nextToken (emptyNumber rest)) := by
  rw [emptyClause] at h
  dsimp only at h
  split_ifs at h with hkeyword htoken hstatus
  · cases h
  · cases h
  · cases h
  · obtain ⟨hread, hnumber⟩ := emptyBodyPart_ok h
    rw [Bool.not_eq_true', Bool.not_eq_false] at hkeyword hstatus
    exact ⟨⟨hkeyword, hread⟩, hstatus, hnumber⟩

theorem emptyClause_of_shape {st : HeadState} {rest : Str} (h : EmptyShape rest)
    (hstatus : IsStatus (atoi (nextToken (emptyNumber rest)))) :
    ∃ r, emptyClause st rest = .ok r := by
  obtain ⟨hkeyword, hbody⟩ := h
  have htoken := hstatus.isEmpty
  rw [IsStatus] at hstatus
  obtain ⟨r, hr⟩ := emptyBodyPart_of_bodyRead
    { st with emptyStatus := atoi (nextToken (emptyNumber rest)) } hbody
  rw [emptyNumber] at htoken hstatus hr
  refine ⟨r, ?_⟩
  rw [emptyClause]
  dsimp only
  rw [hkeyword, htoken, hstatus, if_neg (by decide), if_neg (by decide), if_neg (by decide), hr]

theorem emptyExact_iff (st : HeadState) (rest : Str) :
    EmptyExact st rest ↔ ¬ EmptyShape rest ∨
      MissesBounds IsStatus (nextToken (emptyNumber rest)) ∨
      InBounds IsStatus (nextToken (emptyNumber rest)) := by
  rw [← token_exact_iff isStatus_fits]
  constructor
  · intro h
    by_cases hshape : EmptyShape rest
    · refine .inr fun hin => ?_
      obtain ⟨r, hr⟩ := emptyClause_of_shape hshape hin
      have hexact := h r hr
      rwa [(emptyClause_ok hr).2.2] at hexact
    · exact .inl hshape
  · intro h r hr
    obtain ⟨hshape, hin, hnumber⟩ := emptyClause_ok hr
    rw [hnumber]
    exact h.resolve_left (not_not_intro hshape) hin

/-- The text behind `RATE LIMIT`. -/
def rateNumber (rest : Str) : Str := afterKeyword "LIMIT".toList (afterKeyword "RATE".toList rest)

/-- The text behind its `PER`. -/
def rateWindow (rest : Str) : Str := afterKeyword "PER".toList (afterToken (rateNumber rest))

/-- A `BY` in front of the text has a key that is known. -/
def ByRead (text : Str) : Prop :=
  atKeyword "BY".toList text = true →
    lower (nextToken (afterKeyword "BY".toList text)) ∈ ["ip".toList, "token".toList, "key".toList]

/-- Apart from its numbers, the clause is well formed. -/
def RateShape (rest : Str) : Prop :=
  atKeyword "LIMIT".toList (afterKeyword "RATE".toList rest) = true ∧
    atKeyword "PER".toList (afterToken (rateNumber rest)) = true ∧ ByRead (afterToken (rateWindow rest))

def RateExact (st : HeadState) (rest : Str) : Prop :=
  ∀ r, rateClause st rest = .ok r →
    (IsDecimal anySign (nextToken (rateNumber rest)) r.1.rateLimitN ∧ IsCount r.1.rateLimitN) ∧
      IsDecimal anySign (nextToken (rateWindow rest)) r.1.rateLimitPerSec ∧ IsCount r.1.rateLimitPerSec

theorem rateLimitBy_ok {st : HeadState} {text : Str} {r : HeadState × Str}
    (h : rateLimitBy st text = .ok r) :
    ByRead text ∧ r.1.rateLimitN = st.rateLimitN ∧ r.1.rateLimitPerSec = st.rateLimitPerSec := by
  rw [rateLimitBy] at h
  dsimp only at h
  split_ifs at h with hby hempty hkey halias
  · cases h
  · cases h
  · cases h
    refine ⟨fun _ => ?_, rfl, rfl⟩
    rw [halias]
    decide
  · cases h
    refine ⟨fun _ => ?_, rfl, rfl⟩
    simp only [List.mem_cons, List.not_mem_nil, or_false]
    tauto
  · cases h
    exact ⟨fun hyes => absurd hyes hby, rfl, rfl⟩

theorem rateLimitBy_of_byRead (st : HeadState) {text : Str} (h : ByRead text) :
    ∃ r, rateLimitBy st text = .ok r := by
  rw [rateLimitBy]
  dsimp only
  by_cases hby : atKeyword "BY".toList text = true
  · have hmem := h hby
    have hkey : ¬ (lower (nextToken (afterKeyword "BY".toList text)) ≠ "ip".toList ∧
        lower (nextToken (afterKeyword "BY".toList text)) ≠ "token".toList ∧
        lower (nextToken (afterKeyword "BY".toList text)) ≠ "key".toList) := by
      simp only [List.mem_cons, List.not_mem_nil, or_false] at hmem
      tauto
    have htoken : (nextToken (afterKeyword "BY".toList text)).isEmpty = false := by
      rcases htext : nextToken (afterKeyword "BY".toList text) with _ | ⟨c, token⟩
      · rw [htext] at hmem
        exact absurd hmem (by decide)
      · rfl
    rw [if_pos hby, htoken, if_neg (by decide), if_neg hkey]
    exact ⟨_, rfl⟩
  · rw [if_neg hby]
    exact ⟨_, rfl⟩

theorem rateClause_ok {st : HeadState} {rest : Str} {r : HeadState × Str}
    (h : rateClause st rest = .ok r) :
    RateShape rest ∧
      (IsCount (atoi (nextToken (rateNumber rest))) ∧
        r.1.rateLimitN = atoi (nextToken (rateNumber rest))) ∧
      IsCount (atoi (nextToken (rateWindow rest))) ∧
        r.1.rateLimitPerSec = atoi (nextToken (rateWindow rest)) := by
  rw [rateClause] at h
  dsimp only at h
  split_ifs at h with hlimit hempty hcount
  · cases h
  · cases h
  · cases h
  · rw [rateLimitPer] at h
    dsimp only at h
    split_ifs at h with hper hempty' hwindow
    · cases h
    · cases h
    · cases h
    · obtain ⟨hby, hn, hsec⟩ := rateLimitBy_ok h
      rw [Bool.not_eq_true', Bool.not_eq_false] at hlimit hper
      rw [← isCount_atoi_iff] at hcount hwindow
      refine ⟨⟨hlimit, hper, hby⟩, ?_⟩
      rw [rateWindow, rateNumber]
      exact ⟨⟨hcount, hn⟩, hwindow, hsec⟩

theorem rateClause_of_shape {st : HeadState} {rest : Str} (h : RateShape rest)
    (hcount : IsCount (atoi (nextToken (rateNumber rest))))
    (hwindow : IsCount (atoi (nextToken (rateWindow rest)))) : ∃ r, rateClause st rest = .ok r := by
  obtain ⟨hlimit, hper, hby⟩ := h
  obtain ⟨r, hr⟩ := rateLimitBy_of_byRead
    { st with
      rateLimitN := atoi (nextToken (rateNumber rest))
      rateLimitPerSec := atoi (nextToken (rateWindow rest)) } hby
  have hempty := hcount.isEmpty
  have hempty' := hwindow.isEmpty
  rw [isCount_atoi_iff] at hcount hwindow
  rw [rateWindow, rateNumber] at hempty' hwindow hr
  rw [rateNumber] at hempty hcount hper
  refine ⟨r, ?_⟩
  rw [rateClause]
  dsimp only
  rw [hlimit, hempty, if_neg (by decide), if_neg (by decide), if_neg hcount, rateLimitPer]
  dsimp only
  rw [hper, hempty', if_neg (by decide), if_neg (by decide), if_neg hwindow]
  exact hr

theorem rateExact_iff (st : HeadState) (rest : Str) :
    RateExact st rest ↔ ¬ RateShape rest ∨
      MissesBounds IsCount (nextToken (rateNumber rest)) ∨
      MissesBounds IsCount (nextToken (rateWindow rest)) ∨
      InBounds IsCount (nextToken (rateNumber rest)) ∧
        InBounds IsCount (nextToken (rateWindow rest)) := by
  have hcount := token_exact_iff isCount_fits (rateNumber rest)
  have hwindow := token_exact_iff isCount_fits (rateWindow rest)
  have hmisses := bounds_atoi_iff isCount_fits
  constructor
  · intro h
    by_cases hshape : RateShape rest
    · by_cases hn : MissesBounds IsCount (nextToken (rateNumber rest))
      · exact .inr (.inl hn)
      · by_cases hs : MissesBounds IsCount (nextToken (rateWindow rest))
        · exact .inr (.inr (.inl hs))
        · obtain ⟨r, hr⟩ := rateClause_of_shape hshape ((hmisses _).mpr hn) ((hmisses _).mpr hs)
          obtain ⟨hexact, hexact'⟩ := h r hr
          obtain ⟨_, ⟨_, hnumber⟩, _, hseconds⟩ := rateClause_ok hr
          rw [hnumber] at hexact
          rw [hseconds] at hexact'
          exact .inr (.inr (.inr ⟨⟨_, hexact⟩, ⟨_, hexact'⟩⟩))
    · exact .inl hshape
  · intro h r hr
    obtain ⟨hshape, ⟨hn, hnumber⟩, hs, hseconds⟩ := rateClause_ok hr
    rw [hnumber, hseconds]
    have hin : InBounds IsCount (nextToken (rateNumber rest)) ∧
        InBounds IsCount (nextToken (rateWindow rest)) := by
      rcases h with h | h | h | h
      · exact absurd hshape h
      · exact absurd h ((hmisses _).mp hn)
      · exact absurd h ((hmisses _).mp hs)
      · exact h
    exact ⟨hcount.mpr (.inr hin.1) hn, hwindow.mpr (.inr hin.2) hs⟩

theorem isDuration_nonneg {unit : Str → Option Int} {bare : Nat} {token : Str} {v : Int}
    (hunit : ∀ u m, unit u = some m → 1 ≤ m) (h : IsDuration [[]] unit bare token v) : 0 ≤ v := by
  obtain ⟨_, suffix, _, mult, _, ⟨sign, hsign, digits, _, hdigits, rfl⟩, hmult, rfl⟩ := h
  have hmult0 : 0 ≤ mult := by
    rcases hmult with ⟨_, rfl⟩ | hmult
    · exact Int.natCast_nonneg bare
    · exact Int.le_trans (by decide) (hunit _ _ hmult)
  rw [List.mem_singleton.mp hsign]
  exact Int.mul_nonneg (decimalValue_nonneg hdigits) hmult0

/-- A duration, a timeout, a size or an interval is read for exactly what its token says. A clause reads
its numbers exactly but where `atoi` finds a number in the bounds in a token that is none. -/
theorem numbers_exact_iff (raw : Str) (v : Int) (st : HeadState) (rest : Str) :
    ((parseDurationSeconds raw = .ok v ↔
        IsDuration [[], ['-']] unitSeconds 1 (unquoted (quackapiTrim raw)) v ∧
          0 ≤ v ∧ v ≤ 86400 * 7) ∧
      parseRouteTimeoutSec raw = routeTimeout.read raw ∧
      (routeTimeout.read raw = .ok v ↔
        IsDuration [[]] unitSeconds 1 (unquoted (quackapiTrim raw)) v ∧ 1 ≤ v ∧ v ≤ 86400) ∧
      (parseRouteRequestBytes raw = .ok v ↔ IsDecimal [[]] raw v ∧ 0 < v ∧ v ≤ int64Max) ∧
      (parseIntervalMs raw = .ok v ↔
        IsDuration [[]] unitMillis 1000 (unquoted (quackapiTrim raw)) v ∧
          0 ≤ v ∧ v ≤ 86400 * 1000)) ∧
    (StatusExact st rest ↔
      MissesBounds IsStatus (statusToken rest) ∨ InBounds IsStatus (statusToken rest)) ∧
    (EmptyExact st rest ↔ ¬ EmptyShape rest ∨
      MissesBounds IsStatus (nextToken (emptyNumber rest)) ∨
      InBounds IsStatus (nextToken (emptyNumber rest))) ∧
    (RateExact st rest ↔ ¬ RateShape rest ∨
      MissesBounds IsCount (nextToken (rateNumber rest)) ∨
      MissesBounds IsCount (nextToken (rateWindow rest)) ∨
      InBounds IsCount (nextToken (rateNumber rest)) ∧
        InBounds IsCount (nextToken (rateWindow rest))) := by
  refine ⟨⟨?_, parseRouteTimeoutSec_eq raw, ?_, parseRouteRequestBytes_ok_iff raw v, ?_⟩,
    statusExact_iff st rest, emptyExact_iff st rest, rateExact_iff st rest⟩
  · have hread := queueDuration.read_ok_iff raw v
    have hleast : (∀ e ∈ queueDuration.least, e.1 ≤ v) ↔ 0 ≤ v :=
      ⟨fun h => h _ rfl, fun h e he => Option.some.inj he ▸ h⟩
    rw [hleast] at hread
    exact hread
  · have hread := routeTimeout.read_ok_iff raw v
    have hleast : (∀ e ∈ routeTimeout.least, e.1 ≤ v) ↔ 1 ≤ v :=
      ⟨fun h => h _ rfl, fun h e he => Option.some.inj he ▸ h⟩
    rw [hleast] at hread
    exact hread
  · have hread := streamInterval.read_ok_iff raw v
    have hleast : (∀ e ∈ streamInterval.least, e.1 ≤ v) ↔ True :=
      iff_of_true (fun e he => nomatch he) trivial
    rw [hleast, true_and] at hread
    refine hread.trans (and_congr_right fun hduration => ?_)
    exact (and_iff_right (isDuration_nonneg (fun u m hu => (unitMillis_spec hu).1.1) hduration)).symm

theorem isDecimal_chars {token : Str} {n : Int} (h : IsDecimal anySign token n) :
    ∀ c ∈ token, c.isDigit = true ∨ c = '+' ∨ c = '-' := by
  obtain ⟨sign, hsign, digits, rfl, hdigits, _⟩ := h
  intro c hc
  rcases List.mem_append.mp hc with hc | hc
  · simp only [anySign, List.mem_cons, List.not_mem_nil, or_false] at hsign
    rcases hsign with rfl | rfl | rfl
    · cases hc
    · exact .inr (.inl (List.mem_singleton.mp hc))
    · exact .inr (.inr (List.mem_singleton.mp hc))
  · exact .inl (hdigits.2 c hc)

/-- `200ok` is taken for 200, and 4294967297 requests for one. -/
theorem atoi_takes_prefix :
    ¬ StatusExact {} "STATUS 200ok".toList ∧ ¬ RateExact {} "RATE LIMIT 4294967297 PER 60".toList := by
  constructor
  · intro h
    have hrun : statusClause {} "STATUS 200ok".toList = .ok ({ status := 200 }, []) := by decide +kernel
    have hexact := (h _ hrun).1
    have hchar := isDecimal_chars hexact 'o' (by decide)
    exact absurd hchar (by decide)
  · intro h
    have hrun : rateClause {} "RATE LIMIT 4294967297 PER 60".toList =
        .ok ({ rateLimitN := 1, rateLimitPerSec := 60, rateLimitBy := "ip".toList }, []) := by
      decide +kernel
    have hexact := (h _ hrun).1.1
    exact absurd (frontNumber_decimal hexact) (by decide)

end Quackapi.Ddl
