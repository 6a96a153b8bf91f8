import Quackapi.Util.Numeral
import Mathlib.Algebra.Group.Nat.Defs

/-! Deadlines, as points of the steady clock, which counts signed 64-bit nanoseconds. Three stores hold
one: the thread, the connection, and the engine for the query that runs. -/

namespace Quackapi.Limits

/-- `time_point::max()`. -/
def clockMax : Int := int64Max

/-- Sums and products of the clock's counter wrap around. -/
def wrap (n : Int) : Int := n.bmod (2 ^ 64)

def nanosPerMilli : Int := 1000000

/-- `std::chrono::milliseconds`, as the clock's duration. -/
def milliseconds (ms : Int) : Int := wrap (ms * nanosPerMilli)

/-- `now + std::chrono::milliseconds(ms)` -/
def after (now ms : Int) : Int := wrap (now + milliseconds ms)

/-- `duration_cast` to milliseconds, which cuts towards zero. -/
def toMillis (deadline : Int) : Int := deadline.tdiv nanosPerMilli

structure Stores where
  /-- `current_deadline` of the thread. -/
  current : Int := clockMax
  /-- `QuackapiContextBudget` of the connection; a connection without one has no end. -/
  budget : Int := clockMax
  /-- `query_deadline` of the query that runs, in milliseconds. -/
  native : Option Nat := none
deriving DecidableEq

/-- `QuackapiContextDeadline` -/
def contextDeadline (s : Stores) : Int :=
  let deadline := min s.current s.budget
  match s.native with
  | none => deadline
  | some ms =>
    if 0 ≤ toMillis deadline ∧ (ms : Int) ≤ toMillis deadline then ms * nanosPerMilli else deadline

/-- `QuackapiContextBudget::QueryBegin`, after the engine has installed `max_execution_time`. -/
def queryBegin (s : Stores) (native : Option Nat) : Stores :=
  if s.budget = clockMax then { s with native }
  else
    let nativeDeadline := (max 0 (toMillis s.budget + 1)).toNat
    if native.all (fun n => decide (nativeDeadline < n)) then { s with native := some nativeDeadline }
    else { s with native }

def queryEnd (s : Stores) : Stores := { s with native := none }

inductive DeadlineStop
  | invalidInput (message : Str)
deriving DecidableEq

/-- The named argument of `quackapi_post`, 0 where it is missing. -/
def postTimeout (timeoutMs : Option Int) : Except DeadlineStop Int :=
  match timeoutMs with
  | none => .ok 0
  | some ms => if ms ≤ 0 then .error (.invalidInput "timeout_ms must be > 0".toList) else .ok ms

/-- `OutboundDeadline`, with the value of `quackapi_http_timeout_ms` where it is set. -/
def outboundDeadline (s : Stores) (setting : Option Int) (now callTimeoutMs : Int) :
    Except DeadlineStop Int :=
  let deadline := contextDeadline s
  match if 0 < callTimeoutMs then some callTimeoutMs else setting with
  | none => .ok deadline
  | some timeoutMs =>
    if timeoutMs ≤ 0 then .error (.invalidInput "quackapi_http_timeout_ms must be > 0".toList)
    else .ok (min deadline (after now timeoutMs))

/-- `PositiveSetting` -/
def positiveSetting (name : Str) (setting : Option Int) (fallback : Int) : Except DeadlineStop Int :=
  match setting with
  | none => .ok fallback
  | some value =>
    if value ≤ 0 then .error (.invalidInput (name ++ " must be > 0".toList)) else .ok value

/-- `QuackapiGetServingBudget`: the server's own timeout, inside a served request. -/
def servingTimeout (queryTimeoutMs : Int) : Option Int := if queryTimeoutMs ≤ 0 then none else some queryTimeoutMs

/-- The timeout of `NewExecCall`: the request's own, or that of the session. -/
def execTimeout (servingTimeoutMs : Int) (setting : Option Int) : Except DeadlineStop Int :=
  match servingTimeout servingTimeoutMs with
  | some timeoutMs => .ok timeoutMs
  | none => positiveSetting "quackapi_query_timeout_ms".toList setting 30000

/-- The deadline of `NewExecCall`. -/
def execDeadline (s : Stores) (servingTimeoutMs : Int) (setting : Option Int) (now : Int) :
    Except DeadlineStop Int :=
  (execTimeout servingTimeoutMs setting).map fun timeoutMs => min (contextDeadline s) (after now timeoutMs)

/-- The deadline of `WaitExec`. -/
def waitDeadline (now timeoutMs : Int) : Int := if timeoutMs < 0 then clockMax else after now timeoutMs

theorem after_eq (now ms : Int) : after now ms = wrap (now + ms * nanosPerMilli) := by
  rw [after, milliseconds, wrap, wrap, wrap, Int.add_bmod_bmod]

theorem wrap_of_le {n : Int} (hlow : -9223372036854775808 ≤ n) (hhigh : n ≤ clockMax) : wrap n = n := by
  rw [clockMax, int64Max] at hhigh
  exact Int.bmod_eq_of_le (by omega) (by omega)

theorem wrap_le (n : Int) : wrap n ≤ clockMax := by
  have hlt : wrap n < ((2 ^ 64 : Nat) + 1 : Int) / 2 := Int.bmod_lt (by decide)
  rw [clockMax, int64Max]
  omega

def Stores.stored (s : Stores) : Int := min s.current s.budget

theorem toMillis_nonpos {d : Int} (h : d < 0) : toMillis d ≤ 0 := by
  have hneg : toMillis d = -((-d).tdiv nanosPerMilli) := by rw [Int.neg_tdiv, Int.neg_neg, toMillis]
  have hpos : 0 ≤ (-d).tdiv nanosPerMilli := Int.tdiv_nonneg (by omega) (by decide)
  omega

theorem toMillis_mul_le {d : Int} (h : 0 ≤ d) : toMillis d * nanosPerMilli ≤ d := by
  rw [toMillis, Int.tdiv_eq_ediv_of_nonneg h]
  exact Int.ediv_mul_le d (by decide)

theorem lt_toMillis_add_one {d : Int} (h : 0 ≤ d) : d < (toMillis d + 1) * nanosPerMilli := by
  rw [toMillis, Int.tdiv_eq_ediv_of_nonneg h]
  exact Int.lt_ediv_add_one_mul_self d (by decide)

theorem contextDeadline_eq (s : Stores) :
    contextDeadline s = s.stored ∨
      ∃ ms : Nat, s.native = some ms ∧ contextDeadline s = ms * nanosPerMilli ∧
        0 ≤ toMillis s.stored ∧ (ms : Int) ≤ toMillis s.stored := by
  rw [contextDeadline]
  cases hnative : s.native with
  | none => exact .inl rfl
  | some ms =>
    by_cases h : 0 ≤ toMillis s.stored ∧ (ms : Int) ≤ toMillis s.stored
    · exact .inr ⟨ms, rfl, if_pos h, h⟩
    · exact .inl (if_neg h)

theorem contextDeadline_le_clockMax {s : Stores} (h : s.stored ≤ clockMax) :
    contextDeadline s ≤ clockMax := by
  obtain heq | ⟨ms, -, heq, -, hms⟩ := contextDeadline_eq s
  · rw [heq]
    exact h
  · rw [heq]
    rcases Int.lt_or_le s.stored 0 with hneg | hpos
    · have hzero : toMillis s.stored ≤ 0 := toMillis_nonpos hneg
      have hms0 : (ms : Int) = 0 := by omega
      rw [hms0, Int.zero_mul]
      decide
    · calc (ms : Int) * nanosPerMilli
          ≤ toMillis s.stored * nanosPerMilli := Int.mul_le_mul_of_nonneg_right hms (by decide)
        _ ≤ s.stored := toMillis_mul_le hpos
        _ ≤ clockMax := h

/-- The exact deadline of a timeout inside another deadline; the clock has no later point than its last. -/
def exactDeadline (enclosing now timeoutMs : Int) : Int :=
  min enclosing (min clockMax (now + timeoutMs * nanosPerMilli))

/-- What is expected of a deadline: it is the exact one, and none of the past where the enclosing one
is not. -/
def Exact (enclosing now timeoutMs deadline : Int) : Prop :=
  deadline = exactDeadline enclosing now timeoutMs ∧ (now ≤ enclosing → now ≤ deadline)

/-- The clock reaches the deadline, or the sum wraps around to a point behind the enclosing deadline. -/
def Reaches (enclosing now timeoutMs : Int) : Prop :=
  now + timeoutMs * nanosPerMilli ≤ clockMax ∨ enclosing ≤ wrap (now + timeoutMs * nanosPerMilli)

theorem le_exactDeadline {enclosing now timeoutMs : Int} (hnow : now ≤ clockMax) (htimeout : 0 < timeoutMs)
    (h : now ≤ enclosing) : now ≤ exactDeadline enclosing now timeoutMs := by
  have hlater : now ≤ now + timeoutMs * nanosPerMilli :=
    Int.le_add_of_nonneg_right (Int.mul_nonneg (Int.le_of_lt htimeout) (by decide))
  exact Int.le_min.mpr ⟨h, Int.le_min.mpr ⟨hnow, hlater⟩⟩

theorem exact_min_iff {enclosing now timeoutMs : Int} (henclosing : enclosing ≤ clockMax)
    (hnow : inInt64 now = true) (htimeout : 0 < timeoutMs) :
    Exact enclosing now timeoutMs (min enclosing (after now timeoutMs)) ↔
      Reaches enclosing now timeoutMs := by
  have hrange : -2 ^ 63 ≤ now ∧ now ≤ clockMax := by
    rw [inInt64, Bool.and_eq_true, decide_eq_true_eq, decide_eq_true_eq, int64Min] at hnow
    exact ⟨by omega, hnow.2⟩
  have hlater : now ≤ now + timeoutMs * nanosPerMilli :=
    Int.le_add_of_nonneg_right (Int.mul_nonneg (Int.le_of_lt htimeout) (by decide))
  have hexact : Exact enclosing now timeoutMs (min enclosing (after now timeoutMs)) ↔
      min enclosing (after now timeoutMs) = exactDeadline enclosing now timeoutMs := by
    refine ⟨And.left, fun heq => ⟨heq, fun hle => ?_⟩⟩
    rw [heq]
    exact le_exactDeadline hrange.2 htimeout hle
  rw [hexact, after_eq, Reaches, exactDeadline]
  by_cases hreach : now + timeoutMs * nanosPerMilli ≤ clockMax
  · rw [wrap_of_le (by omega) hreach, Int.min_eq_right hreach]
    exact iff_of_true rfl (.inl hreach)
  · rw [Int.min_eq_left (by omega : clockMax ≤ _), Int.min_eq_left henclosing]
    constructor
    · intro heq
      exact .inr (heq ▸ Int.min_le_right _ _)
    · rintro (h | h)
      · exact absurd h hreach
      · exact Int.min_eq_left h

theorem outboundDeadline_call {timeoutMs : Int} (s : Stores) (setting : Option Int) (now : Int)
    (h : 0 < timeoutMs) :
    (postTimeout (some timeoutMs)).bind (outboundDeadline s setting now) =
      .ok (min (contextDeadline s) (after now timeoutMs)) := by
  have hpost : postTimeout (some timeoutMs) = .ok timeoutMs := if_neg (by omega)
  rw [hpost]
  change outboundDeadline s setting now timeoutMs = _
  simp only [outboundDeadline, if_pos h]
  exact if_neg (by omega)

theorem outboundDeadline_setting {timeoutMs : Int} (s : Stores) (now : Int) (h : 0 < timeoutMs) :
    outboundDeadline s (some timeoutMs) now 0 = .ok (min (contextDeadline s) (after now timeoutMs)) :=
  if_neg (by omega)

theorem execDeadline_serving {timeoutMs : Int} (s : Stores) (setting : Option Int) (now : Int)
    (h : 0 < timeoutMs) :
    execDeadline s timeoutMs setting now = .ok (min (contextDeadline s) (after now timeoutMs)) := by
  have hserving : servingTimeout timeoutMs = some timeoutMs := if_neg (by omega)
  rw [execDeadline, execTimeout, hserving]
  rfl

theorem execDeadline_setting {timeoutMs : Int} (s : Stores) (now : Int) (h : 0 < timeoutMs) :
    execDeadline s 0 (some timeoutMs) now = .ok (min (contextDeadline s) (after now timeoutMs)) := by
  have hsetting : execTimeout 0 (some timeoutMs) = .ok timeoutMs := if_neg (by omega)
  rw [execDeadline, hsetting]
  rfl

theorem waitDeadline_eq {timeoutMs now : Int} (h : 0 < timeoutMs) :
    waitDeadline now timeoutMs = min clockMax (after now timeoutMs) := by
  have hle : after now timeoutMs ≤ clockMax := wrap_le _
  rw [waitDeadline, if_neg (by omega), Int.min_eq_right hle]

theorem outboundDeadline_le {s : Stores} {setting : Option Int} {now callTimeoutMs deadline : Int}
    (h : outboundDeadline s setting now callTimeoutMs = .ok deadline) : deadline ≤ contextDeadline s := by
  simp only [outboundDeadline] at h
  generalize (if 0 < callTimeoutMs then some callTimeoutMs else setting) = timeout at h
  cases timeout with
  | none => exact Int.le_of_eq (Except.ok.inj h).symm
  | some timeoutMs =>
    by_cases hpos : timeoutMs ≤ 0
    · simp only [if_pos hpos] at h
      cases h
    · simp only [if_neg hpos] at h
      rw [← Except.ok.inj h]
      exact Int.min_le_left _ _

theorem execDeadline_le {s : Stores} {setting : Option Int} {now servingTimeoutMs deadline : Int}
    (h : execDeadline s servingTimeoutMs setting now = .ok deadline) : deadline ≤ contextDeadline s := by
  rw [execDeadline] at h
  cases htimeout : execTimeout servingTimeoutMs setting with
  | error e =>
    rw [htimeout] at h
    cases h
  | ok timeoutMs =>
    rw [htimeout] at h
    rw [← Except.ok.inj h]
    exact Int.min_le_left _ _

/-- The deadlines of a positive timeout: of `quackapi_post` and of the session in `OutboundDeadline`, of a
served request and of the session in `NewExecCall`, and of `WaitExec`. -/
theorem timeout_deadlines_exact_iff {s : Stores} {now timeoutMs : Int} (hs : s.stored ≤ clockMax)
    (hnow : inInt64 now = true) (htimeout : 0 < timeoutMs) :
    (∀ setting, ∃ deadline,
      (postTimeout (some timeoutMs)).bind (outboundDeadline s setting now) = .ok deadline ∧
      (Exact (contextDeadline s) now timeoutMs deadline ↔ Reaches (contextDeadline s) now timeoutMs)) ∧
    (∃ deadline, outboundDeadline s (some timeoutMs) now 0 = .ok deadline ∧
      (Exact (contextDeadline s) now timeoutMs deadline ↔ Reaches (contextDeadline s) now timeoutMs)) ∧
    (∀ setting, ∃ deadline, execDeadline s timeoutMs setting now = .ok deadline ∧
      (Exact (contextDeadline s) now timeoutMs deadline ↔ Reaches (contextDeadline s) now timeoutMs)) ∧
    (∃ deadline, execDeadline s 0 (some timeoutMs) now = .ok deadline ∧
      (Exact (contextDeadline s) now timeoutMs deadline ↔ Reaches (contextDeadline s) now timeoutMs)) ∧
    (Exact clockMax now timeoutMs (waitDeadline now timeoutMs) ↔ Reaches clockMax now timeoutMs) := by
  have hexact := exact_min_iff (contextDeadline_le_clockMax hs) hnow htimeout
  refine ⟨fun setting => ⟨_, outboundDeadline_call s setting now htimeout, hexact⟩,
    ⟨_, outboundDeadline_setting s now htimeout, hexact⟩,
    fun setting => ⟨_, execDeadline_serving s setting now htimeout, hexact⟩,
    ⟨_, execDeadline_setting s now htimeout, hexact⟩, ?_⟩
  rw [waitDeadline_eq htimeout]
  exact exact_min_iff (Int.le_refl _) hnow htimeout

/-- Half a minute, an hour after the clock started. -/
theorem timeout_deadlines_half_minute :
    Exact (contextDeadline {}) 3600000000000 30000 3630000000000 := by
  obtain ⟨deadline, hdeadline, hexact⟩ := (timeout_deadlines_exact_iff (by decide : ({} : Stores).stored ≤ clockMax)
    (by decide : inInt64 3600000000000 = true) (by decide : (0 : Int) < 30000)).2.1
  have hvalue : outboundDeadline {} (some 30000) 3600000000000 0 = .ok 3630000000000 := by decide
  obtain rfl := Except.ok.inj (hvalue.symm.trans hdeadline)
  exact hexact.mpr (.inl (by decide))

/-- The longest timeout that is accepted: the deadline is a millisecond before now. -/
theorem longest_timeout_wraps :
    (postTimeout (some int64Max)).bind (outboundDeadline {} none 3600000000000) = .ok 3599999000000 ∧
      ¬ Exact (contextDeadline {}) 3600000000000 int64Max 3599999000000 := by
  refine ⟨by decide, fun h => ?_⟩
  have hlater : (3600000000000 : Int) ≤ 3599999000000 := h.2 (by decide)
  omega

end Quackapi.Limits
