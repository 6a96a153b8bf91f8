import Quackapi.Outbound.FanOut
import Mathlib.Algebra.Ring.Nat

/-! Every row that is not skipped is requested once, by one thread, whatever the interleaving; a call
that returns has the result of each of them; and no call goes on for ever. -/

namespace Quackapi.Outbound
open Library

section
variable {R : Type} {cfg : FanOutConfig R} {s s' : FanOutState R} {a : FanOutAction R}

/-- What a step does to the rows: nothing, it passes one, begins one or ends one. -/
inductive RowsMove (cfg : FanOutConfig R) (s s' : FanOutState R) : Prop
  | quiet (hcursor : s'.cursor = s.cursor) (hperformed : s'.performed = s.performed)
      (hout : s'.out = s.out) (hflight : (rowsInFlight s').Perm (rowsInFlight s))
  | passed (hrow : cfg.skip[s.cursor]? ≠ some false) (hcursor : s'.cursor = s.cursor + 1)
      (hperformed : s'.performed = s.performed) (hout : s'.out = s.out)
      (hflight : (rowsInFlight s').Perm (rowsInFlight s))
  | begun (hrow : cfg.skip[s.cursor]? = some false) (hcursor : s'.cursor = s.cursor + 1)
      (hperformed : s'.performed = s.performed ++ [s.cursor]) (hout : s'.out = s.out)
      (hflight : (rowsInFlight s').Perm (s.cursor :: rowsInFlight s))
  | ended (row : Nat) (r : R) (hcursor : s'.cursor = s.cursor)
      (hperformed : s'.performed = s.performed) (hout : s'.out = s.out ++ [(row, r)])
      (hflight : (rowsInFlight s).Perm (row :: rowsInFlight s'))

theorem rowsInFlight_setTask {t : Nat} {old : FanOutPoint} (h : s.tasks[t]? = some old) :
    ∃ rest, (rowsInFlight s).Perm (old.row.toList ++ rest) ∧
      ∀ point, (rowsInFlight (setTask s t point)).Perm (point.row.toList ++ rest) := by
  obtain ⟨rest, hold, hnew⟩ := exists_perm_filterMap_set FanOutPoint.row h
  refine ⟨s.phase.rows ++ rest, ?_, fun point => ?_⟩
  · exact (hold.append_left _).trans (List.perm_append_comm_assoc _ _ _)
  · exact ((hnew point).append_left _).trans (List.perm_append_comm_assoc _ _ _)

theorem rowsInFlight_setTask_idle {t : Nat} {old point : FanOutPoint} (h : s.tasks[t]? = some old)
    (hold : old.row = none) (hpoint : point.row = none) :
    (rowsInFlight (setTask s t point)).Perm (rowsInFlight s) := by
  obtain ⟨rest, hs, hset⟩ := rowsInFlight_setTask h
  have hset' := hset point
  rw [hold] at hs
  rw [hpoint] at hset'
  exact hset'.trans hs.symm

/-- Every step of a call, with what it needs and what it leaves. -/
inductive FanOutSteps (cfg : FanOutConfig R) (s : FanOutState R) : FanOutState R → Prop
  | interrupted (h : s.phase = .entered ∨ s.phase = .ending) :
      FanOutSteps cfg s { s with phase := .threw }
  | noRows (h : s.phase = .entered) (hactive : activeRows cfg = 0) :
      FanOutSteps cfg s { s with phase := .returned }
  | inline (h : s.phase = .entered) (hactive : activeRows cfg = 1) :
      FanOutSteps cfg s { s with phase := .inline }
  | schedules (h : s.phase = .entered) (hactive : 2 ≤ activeRows cfg) :
      FanOutSteps cfg s { s with phase := .scheduling }
  | inlineOver (h : s.phase = .inline) (hrow : cfg.skip[s.cursor]? = none) :
      FanOutSteps cfg s { s with phase := .ending }
  | inlinePassed (h : s.phase = .inline) (hrow : cfg.skip[s.cursor]? = some true) :
      FanOutSteps cfg s { s with cursor := s.cursor + 1 }
  | inlineBegun (h : s.phase = .inline) (hrow : cfg.skip[s.cursor]? = some false) :
      FanOutSteps cfg s { s with
        phase := .inlinePerforming s.cursor
        cursor := s.cursor + 1
        performed := s.performed ++ [s.cursor] }
  | inlineEnded {row : Nat} (h : s.phase = .inlinePerforming row) (r : R) :
      FanOutSteps cfg s { s with phase := .inline, out := s.out ++ [(row, r)] }
  | scheduled (h : s.phase = .scheduling) (hroom : s.tasks.length < nTasks cfg) :
      FanOutSteps cfg s { s with tasks := s.tasks ++ [.scheduled] }
  | works (h : s.phase = .scheduling) (hfull : nTasks cfg ≤ s.tasks.length) :
      FanOutSteps cfg s { s with phase := .working }
  | drained (h : s.phase = .working) (hall : ∀ point ∈ s.tasks, point = .settled)
      (herror : s.hasError = false) : FanOutSteps cfg s { s with phase := .ending }
  | failed (h : s.phase = .working) (hall : ∀ point ∈ s.tasks, point = .settled)
      (herror : s.hasError = true) : FanOutSteps cfg s { s with phase := .threw }
  | returns (h : s.phase = .ending) : FanOutSteps cfg s { s with phase := .returned }
  | starts {t : Nat} (h : s.tasks[t]? = some .scheduled) :
      FanOutSteps cfg s (setTask s t .checking)
  | dropped {t : Nat} (h : s.tasks[t]? = some .scheduled) (herror : s.hasError = true) :
      FanOutSteps cfg s (setTask s t .settled)
  | checked {t : Nat} (h : s.tasks[t]? = some .checking) :
      FanOutSteps cfg s (setTask s t .claiming)
  | throws {t : Nat} (h : s.tasks[t]? = some .checking) :
      FanOutSteps cfg s { setTask s t .settled with hasError := true }
  | exhausted {t : Nat} (h : s.tasks[t]? = some .claiming) (hrow : cfg.skip[s.cursor]? = none) :
      FanOutSteps cfg s { setTask s t .settled with cursor := s.cursor + 1 }
  | passed {t : Nat} (h : s.tasks[t]? = some .claiming) (hrow : cfg.skip[s.cursor]? = some true) :
      FanOutSteps cfg s { setTask s t .checking with cursor := s.cursor + 1 }
  | begun {t : Nat} (h : s.tasks[t]? = some .claiming) (hrow : cfg.skip[s.cursor]? = some false) :
      FanOutSteps cfg s { setTask s t (.performing s.cursor) with
        cursor := s.cursor + 1
        performed := s.performed ++ [s.cursor] }
  | ended {t row : Nat} (h : s.tasks[t]? = some (.performing row)) (r : R) :
      FanOutSteps cfg s { setTask s t .checking with out := s.out ++ [(row, r)] }

theorem enterFanOut_steps (h : s.phase = .entered) (interrupted : Bool) :
    FanOutSteps cfg s (enterFanOut cfg s interrupted) := by
  unfold enterFanOut
  refine iteInduction (fun _ => .interrupted (.inl h)) fun _ => ?_
  refine iteInduction (fun h0 => .noRows h h0) fun h0 => ?_
  exact iteInduction (fun h1 => .inline h h1) fun h1 => .schedules h (by omega)

theorem nextInline_steps (h : s.phase = .inline) : FanOutSteps cfg s (nextInline cfg s) := by
  unfold nextInline
  rcases hrow : cfg.skip[s.cursor]? with _ | skipped
  · exact .inlineOver h hrow
  · cases skipped with
    | true => exact .inlinePassed h hrow
    | false => exact .inlineBegun h hrow

theorem claimNext_steps {t : Nat} (h : s.tasks[t]? = some .claiming) :
    FanOutSteps cfg s (claimNext cfg s t) := by
  unfold claimNext
  rcases hrow : cfg.skip[s.cursor]? with _ | skipped
  · exact .exhausted h hrow
  · cases skipped with
    | true => exact .passed h hrow
    | false => exact .begun h hrow

theorem steps_of_fanOutStep (h : fanOutStep cfg s a = some s') : FanOutSteps cfg s s' := by
  cases a with
  | enter interrupted =>
    obtain ⟨hp, hs⟩ := Option.ite_none_right_eq_some.mp h
    cases hs
    exact enterFanOut_steps hp interrupted
  | next =>
    obtain ⟨hp, hs⟩ := Option.ite_none_right_eq_some.mp h
    cases hs
    exact nextInline_steps hp
  | nextDone p =>
    rw [fanOutStep] at h
    split at h
    · next row hp =>
      cases h
      exact .inlineEnded hp _
    · cases h
  | schedule =>
    obtain ⟨hp, hs⟩ := Option.ite_none_right_eq_some.mp h
    cases hs
    exact iteInduction (fun hroom => .scheduled hp hroom) fun hfull => .works hp (by omega)
  | drained =>
    obtain ⟨⟨hp, hall⟩, hs⟩ := Option.ite_none_right_eq_some.mp h
    cases hs
    by_cases herror : s.hasError = true
    · rw [if_pos herror]
      exact .failed hp hall herror
    · rw [if_neg herror]
      exact .drained hp hall (by simpa using herror)
  | finish interrupted =>
    obtain ⟨hp, hs⟩ := Option.ite_none_right_eq_some.mp h
    cases hs
    cases interrupted with
    | true => exact .interrupted (.inr hp)
    | false => exact .returns hp
  | start t =>
    obtain ⟨ht, hs⟩ := Option.ite_none_right_eq_some.mp h
    cases hs
    cases herror : s.hasError with
    | true => exact .dropped ht herror
    | false => exact .starts ht
  | check t interrupted =>
    obtain ⟨ht, hs⟩ := Option.ite_none_right_eq_some.mp h
    cases interrupted with
    | true =>
      cases hs
      exact .throws ht
    | false =>
      cases hs
      exact .checked ht
  | claim t =>
    obtain ⟨ht, hs⟩ := Option.ite_none_right_eq_some.mp h
    cases hs
    exact claimNext_steps ht
  | performDone t p =>
    rw [fanOutStep] at h
    split at h
    · next row ht =>
      cases h
      exact .ended ht _
    · cases h

theorem FanOutSteps.moves (h : FanOutSteps cfg s s') : RowsMove cfg s s' := by
  -- a step that only changes where the caller is, from and to a place without a row
  have hcaller : ∀ phase : FanOutPhase, s.phase.rows = [] → phase.rows = [] →
      RowsMove cfg s { s with phase } := by
    intro phase hold hnew
    exact .quiet rfl rfl rfl (by simp [rowsInFlight, hold, hnew])
  cases h with
  | interrupted h =>
    have hrows : s.phase.rows = [] := by rcases h with h | h <;> simp [h, FanOutPhase.rows]
    exact hcaller _ hrows rfl
  | noRows h => exact hcaller _ (by simp [h, FanOutPhase.rows]) rfl
  | inline h => exact hcaller _ (by simp [h, FanOutPhase.rows]) rfl
  | schedules h => exact hcaller _ (by simp [h, FanOutPhase.rows]) rfl
  | inlineOver h => exact hcaller _ (by simp [h, FanOutPhase.rows]) rfl
  | inlinePassed _ hrow => exact .passed (by simp [hrow]) rfl rfl rfl (.refl _)
  | inlineBegun h hrow =>
    exact .begun hrow rfl rfl rfl (by simp [rowsInFlight, h, FanOutPhase.rows])
  | @inlineEnded row h r =>
    exact .ended row r rfl rfl rfl (by simp [rowsInFlight, h, FanOutPhase.rows])
  | scheduled => exact .quiet rfl rfl rfl (by simp [rowsInFlight, List.filterMap_cons, FanOutPoint.row])
  | works h => exact hcaller _ (by simp [h, FanOutPhase.rows]) rfl
  | drained h => exact hcaller _ (by simp [h, FanOutPhase.rows]) rfl
  | failed h => exact hcaller _ (by simp [h, FanOutPhase.rows]) rfl
  | returns h => exact hcaller _ (by simp [h, FanOutPhase.rows]) rfl
  | starts h => exact .quiet rfl rfl rfl (rowsInFlight_setTask_idle h rfl rfl)
  | dropped h => exact .quiet rfl rfl rfl (rowsInFlight_setTask_idle h rfl rfl)
  | checked h => exact .quiet rfl rfl rfl (rowsInFlight_setTask_idle h rfl rfl)
  | throws h => exact .quiet rfl rfl rfl (rowsInFlight_setTask_idle h rfl rfl)
  | exhausted h hrow => exact .passed (by simp [hrow]) rfl rfl rfl (rowsInFlight_setTask_idle h rfl rfl)
  | passed h hrow => exact .passed (by simp [hrow]) rfl rfl rfl (rowsInFlight_setTask_idle h rfl rfl)
  | begun h hrow =>
    obtain ⟨rest, hs, hset⟩ := rowsInFlight_setTask h
    exact .begun hrow rfl rfl rfl ((hset (.performing s.cursor)).trans (hs.symm.cons _))
  | @ended t row h r =>
    obtain ⟨rest, hs, hset⟩ := rowsInFlight_setTask h
    exact .ended row r rfl rfl rfl (hs.trans ((hset .checking).symm.cons _))

/-- The rows before the cursor that are not skipped are requested, each once, and each is answered
or with one thread. -/
structure RowsOnce (cfg : FanOutConfig R) (s : FanOutState R) : Prop where
  claimed : ∀ i, i ∈ s.performed ↔ i < s.cursor ∧ cfg.skip[i]? = some false
  once : s.performed.Nodup
  held : s.performed.Perm (rowsDone s ++ rowsInFlight s)

theorem newFanOut_rows : RowsOnce cfg (newFanOut : FanOutState R) where
  claimed i := by simp [newFanOut]
  once := List.nodup_nil
  held := .refl _

theorem RowsOnce.move (h : RowsOnce cfg s) (hmove : RowsMove cfg s s') : RowsOnce cfg s' := by
  obtain ⟨hclaimed, honce, hheld⟩ := h
  cases hmove with
  | quiet hcursor hperformed hout hflight =>
    have hdone : rowsDone s' = rowsDone s := congrArg (List.map Prod.fst) hout
    constructor
    · simpa only [hperformed, hcursor] using hclaimed
    · rwa [hperformed]
    · rw [hperformed, hdone]
      exact hheld.trans (hflight.symm.append_left _)
  | passed hrow hcursor hperformed hout hflight =>
    have hdone : rowsDone s' = rowsDone s := congrArg (List.map Prod.fst) hout
    constructor
    · intro i
      rw [hperformed, hcursor, hclaimed i]
      refine and_congr_left fun hi => ?_
      have hne : i ≠ s.cursor := fun heq => hrow (heq ▸ hi)
      omega
    · rwa [hperformed]
    · rw [hperformed, hdone]
      exact hheld.trans (hflight.symm.append_left _)
  | begun hrow hcursor hperformed hout hflight =>
    have hdone : rowsDone s' = rowsDone s := congrArg (List.map Prod.fst) hout
    constructor
    · intro i
      rw [hperformed, hcursor, List.mem_append, List.mem_singleton, hclaimed i]
      constructor
      · rintro (⟨hlt, hi⟩ | rfl)
        · exact ⟨by omega, hi⟩
        · exact ⟨by omega, hrow⟩
      · rintro ⟨hlt, hi⟩
        rcases Nat.lt_succ_iff_lt_or_eq.mp hlt with hlt | heq
        · exact .inl ⟨hlt, hi⟩
        · exact .inr heq
    · rw [hperformed]
      refine nodup_append_singleton honce fun hmem => ?_
      have hlt := ((hclaimed s.cursor).mp hmem).1
      omega
    · rw [hperformed, hdone]
      have hlast : (s.performed ++ [s.cursor]).Perm (s.cursor :: s.performed) :=
        List.perm_append_singleton _ _
      have hnew : (rowsDone s ++ rowsInFlight s').Perm (s.cursor :: (rowsDone s ++ rowsInFlight s)) :=
        (hflight.append_left _).trans List.perm_middle
      exact hlast.trans ((hheld.cons _).trans hnew.symm)
  | ended row r hcursor hperformed hout hflight =>
    have hdone : rowsDone s' = rowsDone s ++ [row] := by simp [rowsDone, hout]
    constructor
    · simpa only [hperformed, hcursor] using hclaimed
    · rwa [hperformed]
    · rw [hperformed, hdone, List.append_assoc, List.singleton_append]
      exact hheld.trans (hflight.append_left _)

theorem fanOutMachine_step {P : FanOutState R → Prop} (h : P s)
    (hstep : ∀ s', FanOutSteps cfg s s' → P s') : P ((fanOutMachine cfg).step s a).1 := by
  show P ((fanOutStep cfg s a).getD s)
  rcases hs : fanOutStep cfg s a with _ | s'
  · exact h
  · exact hstep s' (steps_of_fanOutStep hs)

/-- What the caller's place and the tasks' say about each other and about the cursor. -/
structure ThreadsKept (cfg : FanOutConfig R) (s : FanOutState R) : Prop where
  idle : s.phase ≠ .scheduling → s.phase ≠ .working → ∀ point ∈ s.tasks, point = .settled
  exhausted : .settled ∈ s.tasks → s.hasError = true ∨ cfg.skip.length ≤ s.cursor
  few : s.tasks.length ≤ nTasks cfg
  several : s.phase = .scheduling ∨ s.phase = .working → 2 ≤ nTasks cfg
  allScheduled : s.phase = .working → s.tasks.length = nTasks cfg
  alone : s.phase.rows ≠ [] ∨ s.phase = .inline → 1 ≤ nTasks cfg
  atEnd : s.phase = .ending ∨ s.phase = .returned →
    cfg.skip.length ≤ s.cursor ∨ activeRows cfg = 0

theorem newFanOut_threads : ThreadsKept cfg (newFanOut : FanOutState R) := by
  constructor <;> simp [newFanOut, FanOutPhase.rows]

theorem ThreadsKept.task {t : Nat} {old point : FanOutPoint} (h : ThreadsKept cfg s)
    (hget : s.tasks[t]? = some old) (hold : old ≠ .settled)
    (htasks : s'.tasks = s.tasks.set t point) (hphase : s'.phase = s.phase)
    (hcursor : s.cursor ≤ s'.cursor) (herror : s.hasError = true → s'.hasError = true)
    (hsettled : point = .settled → s'.hasError = true ∨ cfg.skip.length ≤ s'.cursor) :
    ThreadsKept cfg s' := by
  have hlate : s.phase = .scheduling ∨ s.phase = .working := by
    by_contra hno
    rw [not_or] at hno
    exact hold (h.idle hno.1 hno.2 old (List.mem_of_getElem? hget))
  have hlength : s'.tasks.length = s.tasks.length := by rw [htasks, List.length_set]
  constructor
  · intro hscheduling hworking
    rw [hphase] at hscheduling hworking
    exact absurd hlate (by simp [hscheduling, hworking])
  · intro hmem
    rw [htasks] at hmem
    rcases List.mem_or_eq_of_mem_set hmem with hmem | heq
    · exact (h.exhausted hmem).imp herror fun hle => Nat.le_trans hle hcursor
    · exact hsettled heq.symm
  · rw [hlength]
    exact h.few
  · rw [hphase]
    exact h.several
  · rw [hphase, hlength]
    exact h.allScheduled
  · rw [hphase]
    exact h.alone
  · intro hover
    rw [hphase] at hover
    rcases hlate with hp | hp <;> simp [hp] at hover

theorem ThreadsKept.moves {phase : FanOutPhase} (h : ThreadsKept cfg s)
    (hidle : ∀ point ∈ s.tasks, point = .settled) (hscheduling : phase ≠ .scheduling)
    (hworking : phase ≠ .working) (halone : phase.rows ≠ [] ∨ phase = .inline → 1 ≤ nTasks cfg)
    (hover : phase = .ending ∨ phase = .returned →
      cfg.skip.length ≤ s.cursor ∨ activeRows cfg = 0) :
    ThreadsKept cfg { s with phase } :=
  ⟨fun _ _ => hidle, h.exhausted, h.few, fun hp => absurd hp (by simp [hscheduling, hworking]),
    fun hp => absurd hp hworking, halone, hover⟩

theorem ThreadsKept.drained (h : ThreadsKept cfg s) (hp : s.phase = .working)
    (hall : ∀ point ∈ s.tasks, point = .settled) (herror : s.hasError = false) :
    cfg.skip.length ≤ s.cursor := by
  have hlength : 2 ≤ s.tasks.length := h.allScheduled hp ▸ h.several (.inr hp)
  have hmem : s.tasks[0] ∈ s.tasks := List.getElem_mem (by omega)
  rw [hall _ hmem] at hmem
  rcases h.exhausted hmem with htrue | hle
  · simp [herror] at htrue
  · exact hle

theorem two_le_nTasks (h : 2 ≤ activeRows cfg) : 2 ≤ nTasks cfg := by
  unfold nTasks
  exact iteInduction (fun _ => h) fun _ => by decide

theorem threads_step (h : ThreadsKept cfg s) (hstep : FanOutSteps cfg s s') : ThreadsKept cfg s' := by
  cases hstep with
  | interrupted hp =>
    have hidle : ∀ point ∈ s.tasks, point = .settled := by
      rcases hp with hp | hp <;> exact h.idle (by simp [hp]) (by simp [hp])
    exact h.moves hidle (by simp) (by simp) (by simp [FanOutPhase.rows]) (by simp)
  | noRows hp hactive =>
    exact h.moves (h.idle (by simp [hp]) (by simp [hp])) (by simp) (by simp)
      (by simp [FanOutPhase.rows]) fun _ => .inr hactive
  | inline hp hactive =>
    have hone : 1 ≤ nTasks cfg := by
      rw [nTasks, hactive]
      decide
    exact h.moves (h.idle (by simp [hp]) (by simp [hp])) (by simp) (by simp) (fun _ => hone) (by simp)
  | schedules hp hactive =>
    have htwo := two_le_nTasks hactive
    have hidle := h.idle (by simp [hp]) (by simp [hp])
    exact ⟨by simp, h.exhausted, h.few, fun _ => htwo, by simp, by simp [FanOutPhase.rows], by simp⟩
  | inlineOver hp hrow =>
    have hend : cfg.skip.length ≤ s.cursor := List.getElem?_eq_none_iff.mp hrow
    exact h.moves (h.idle (by simp [hp]) (by simp [hp])) (by simp) (by simp)
      (fun _ => h.alone (.inr hp)) fun _ => .inl hend
  | inlinePassed hp hrow =>
    have hidle := h.idle (by simp [hp]) (by simp [hp])
    refine ⟨fun _ _ => hidle, fun hmem => (h.exhausted hmem).imp_right Nat.le_succ_of_le, h.few, h.several, h.allScheduled,
      h.alone, fun hover => ?_⟩
    simp [hp] at hover
  | inlineBegun hp hrow =>
    have hidle := h.idle (by simp [hp]) (by simp [hp])
    exact ⟨fun _ _ => hidle, fun hmem => (h.exhausted hmem).imp_right Nat.le_succ_of_le, h.few, by simp,
      by simp, fun _ => h.alone (.inr hp), by simp⟩
  | inlineEnded hp r =>
    have hidle := h.idle (by simp [hp]) (by simp [hp])
    exact ⟨fun _ _ => hidle, h.exhausted, h.few, by simp, by simp,
      fun _ => h.alone (.inl (by simp [hp, FanOutPhase.rows])), by simp⟩
  | scheduled hp hroom =>
    refine ⟨fun hne => absurd hp hne, fun hmem => h.exhausted (by simpa using hmem), ?_, h.several,
      fun hworking => ?_, h.alone, fun hover => ?_⟩
    · rw [List.length_append]
      exact hroom
    · simp [hp] at hworking
    · simp [hp] at hover
  | works hp hfull =>
    exact ⟨by simp, h.exhausted, h.few, fun _ => h.several (.inl hp), fun _ => Nat.le_antisymm h.few hfull,
      by simp [FanOutPhase.rows], by simp⟩
  | drained hp hall herror =>
    exact h.moves hall (by simp) (by simp) (by simp [FanOutPhase.rows])
      fun _ => .inl (h.drained hp hall herror)
  | failed hp hall herror =>
    exact h.moves hall (by simp) (by simp) (by simp [FanOutPhase.rows]) (by simp)
  | returns hp =>
    exact h.moves (h.idle (by simp [hp]) (by simp [hp])) (by simp) (by simp) (by simp [FanOutPhase.rows])
      fun _ => h.atEnd (.inl hp)
  | starts hget => exact h.task hget (by simp) rfl rfl (Nat.le_refl _) id (by simp)
  | dropped hget herror => exact h.task hget (by simp) rfl rfl (Nat.le_refl _) id fun _ => .inl herror
  | checked hget => exact h.task hget (by simp) rfl rfl (Nat.le_refl _) id (by simp)
  | throws hget => exact h.task hget (by simp) rfl rfl (Nat.le_refl _) (fun _ => rfl) fun _ => .inl rfl
  | exhausted hget hrow =>
    have hend : cfg.skip.length ≤ s.cursor := List.getElem?_eq_none_iff.mp hrow
    exact h.task hget (by simp) rfl rfl (Nat.le_succ _) id fun _ => .inr (Nat.le_succ_of_le hend)
  | passed hget => exact h.task hget (by simp) rfl rfl (Nat.le_succ _) id (by simp)
  | begun hget => exact h.task hget (by simp) rfl rfl (Nat.le_succ _) id (by simp)
  | ended hget r => exact h.task hget (by simp) rfl rfl (Nat.le_refl _) id (by simp)

/-- What a call promises in each of its states. -/
structure FanOutSafe (cfg : FanOutConfig R) (s : FanOutState R) : Prop where
  requestedOnce : s.performed.Nodup
  requestedRows : ∀ i ∈ s.performed, cfg.skip[i]? = some false
  answeredOnce : (rowsDone s).Nodup
  /-- What is requested is answered or under way, with one thread. -/
  underWay : (rowsInFlight s).Nodup ∧
    ∀ i ∈ s.performed, (i ∈ rowsDone s ∧ i ∉ rowsInFlight s) ∨ (i ∉ rowsDone s ∧ i ∈ rowsInFlight s)
  bounded : (rowsInFlight s).length ≤ min (activeRows cfg) maxOutboundFanout
  complete : s.phase = .returned → ∀ i, i ∈ rowsDone s ↔ cfg.skip[i]? = some false
  cells : s.phase = .returned → (postCells cfg s).length = cfg.skip.length ∧
    (∀ i : Nat, cfg.skip[i]? = some true → (postCells cfg s)[i]? = some none) ∧
    ∀ i : Nat, cfg.skip[i]? = some false →
      ∃ r, (i, r) ∈ s.out ∧ (postCells cfg s)[i]? = some (some r)

theorem nTasks_eq_min (cfg : FanOutConfig R) : nTasks cfg = min (activeRows cfg) maxOutboundFanout := by
  unfold nTasks
  split <;> omega

theorem filterMap_settled {l : List FanOutPoint} (h : ∀ point ∈ l, point = .settled) :
    l.filterMap FanOutPoint.row = [] := by
  apply List.filterMap_eq_nil_iff.mpr
  intro point hmem
  rw [h point hmem]
  rfl

theorem rowsInFlight_length_le (h : ThreadsKept cfg s) : (rowsInFlight s).length ≤ nTasks cfg := by
  rw [rowsInFlight, List.length_append]
  by_cases hrows : s.phase.rows = []
  · have hle : (s.tasks.filterMap FanOutPoint.row).length ≤ s.tasks.length :=
      List.length_filterMap_le _ _
    have hfew := h.few
    simp only [hrows, List.length_nil]
    omega
  · have hone : s.phase.rows.length ≤ 1 := by cases s.phase <;> simp [FanOutPhase.rows]
    have hidle : ∀ point ∈ s.tasks, point = .settled := by
      apply h.idle
      · intro hp
        simp [hp, FanOutPhase.rows] at hrows
      · intro hp
        simp [hp, FanOutPhase.rows] at hrows
    have halone := h.alone (.inl hrows)
    rw [filterMap_settled hidle, List.length_nil]
    omega

theorem activeRows_eq_zero (h : activeRows cfg = 0) (i : Nat) : cfg.skip[i]? ≠ some false := by
  intro hi
  have hnone := List.countP_eq_zero.mp h false (List.mem_of_getElem? hi)
  simp at hnone

theorem rowsDone_of_returned (hrows : RowsOnce cfg s) (hthreads : ThreadsKept cfg s)
    (hp : s.phase = .returned) (i : Nat) : i ∈ rowsDone s ↔ cfg.skip[i]? = some false := by
  have hflight : rowsInFlight s = [] := by
    rw [rowsInFlight, filterMap_settled (hthreads.idle (by simp [hp]) (by simp [hp])), hp]
    rfl
  have hheld := hrows.held
  rw [hflight, List.append_nil] at hheld
  rw [← hheld.mem_iff, hrows.claimed i]
  refine ⟨fun h => h.2, fun hi => ⟨?_, hi⟩⟩
  rcases hthreads.atEnd (.inr hp) with hle | hnone
  · have hlt := lt_of_getElem? hi
    omega
  · exact absurd hi (activeRows_eq_zero hnone i)

theorem postCells_getElem? (cfg : FanOutConfig R) (s : FanOutState R) (i : Nat) :
    (postCells cfg s)[i]? = cfg.skip[i]?.map fun skipped =>
      if skipped then none
      else some (((s.out.find? fun p => p.1 = i).map Prod.snd).getD (cfg.failed [])) := by
  rw [postCells, List.getElem?_mapIdx]

theorem find_of_mem_rowsDone {i : Nat} (h : i ∈ rowsDone s) :
    ∃ r, (i, r) ∈ s.out ∧ (s.out.find? fun p => p.1 = i).map Prod.snd = some r := by
  obtain ⟨p, hp, rfl⟩ := List.mem_map.mp h
  have hsome : (s.out.find? fun q => q.1 = p.1).isSome = true :=
    List.find?_isSome.mpr ⟨p, hp, by simp⟩
  obtain ⟨q, hq⟩ := Option.isSome_iff_exists.mp hsome
  have hqi : q.1 = p.1 := by simpa using List.find?_some hq
  refine ⟨q.2, ?_, by rw [hq]; rfl⟩
  rw [← hqi]
  exact List.mem_of_find?_eq_some hq

theorem fanOut_kept (cfg : FanOutConfig R) (as : List (FanOutAction R)) :
    RowsOnce cfg ((fanOutMachine cfg).run newFanOut as) ∧
      ThreadsKept cfg ((fanOutMachine cfg).run newFanOut as) := by
  refine (fanOutMachine cfg).run_invariant (P := fun s => RowsOnce cfg s ∧ ThreadsKept cfg s)
    (fun s a h => ?_) ⟨newFanOut_rows, newFanOut_threads⟩ as
  refine fanOutMachine_step (P := fun s => RowsOnce cfg s ∧ ThreadsKept cfg s) h fun s' hstep => ?_
  exact ⟨h.1.move hstep.moves, threads_step h.2 hstep⟩

/-- In every state of every run, each row that is not skipped is requested at most once and by one
thread; a call that returns has each of them answered with its own result. -/
theorem fanOut_safe (cfg : FanOutConfig R) (as : List (FanOutAction R)) :
    FanOutSafe cfg ((fanOutMachine cfg).run newFanOut as) := by
  obtain ⟨hrows, hthreads⟩ := fanOut_kept cfg as
  generalize (fanOutMachine cfg).run newFanOut as = s at hrows hthreads
  have hnodup : (rowsDone s ++ rowsInFlight s).Nodup := hrows.held.nodup_iff.mp hrows.once
  obtain ⟨hdone, hflight, happart⟩ := List.nodup_append.mp hnodup
  have hreturned := rowsDone_of_returned hrows hthreads
  constructor
  · exact hrows.once
  · exact fun i hi => ((hrows.claimed i).mp hi).2
  · exact hdone
  · refine ⟨hflight, fun i hi => ?_⟩
    rcases List.mem_append.mp (hrows.held.mem_iff.mp hi) with hmem | hmem
    · exact .inl ⟨hmem, fun hother => happart i hmem i hother rfl⟩
    · exact .inr ⟨fun hother => happart i hother i hmem rfl, hmem⟩
  · rw [← nTasks_eq_min]
    exact rowsInFlight_length_le hthreads
  · exact hreturned
  · intro hp
    refine ⟨List.length_mapIdx, fun i hi => ?_, fun i hi => ?_⟩
    · rw [postCells_getElem?, hi]
      rfl
    · obtain ⟨r, hr, hfind⟩ := find_of_mem_rowsDone ((hreturned hp i).mpr hi)
      refine ⟨r, hr, ?_⟩
      rw [postCells_getElem?, hi, hfind]
      rfl

/-- The steps a task has still to take before it looks for a row again, or ends. -/
def FanOutPoint.work : FanOutPoint → Nat
  | .scheduled => 3
  | .checking => 2
  | .claiming => 1
  | .performing _ => 3
  | .settled => 0

def FanOutPhase.work : FanOutPhase → Nat
  | .entered => 5
  | .inline => 3
  | .inlinePerforming _ => 4
  | .scheduling => 4
  | .working => 3
  | .ending => 2
  | .returned => 0
  | .threw => 0

def tasksWork (s : FanOutState R) : Nat := (s.tasks.map FanOutPoint.work).sum

def workLeft (cfg : FanOutConfig R) (s : FanOutState R) : Nat :=
  3 * (cfg.skip.length - s.cursor) + 4 * (nTasks cfg - s.tasks.length) + tasksWork s + s.phase.work

theorem tasksWork_setTask {t : Nat} {old : FanOutPoint} (h : s.tasks[t]? = some old)
    (point : FanOutPoint) : tasksWork (setTask s t point) + old.work = tasksWork s + point.work := by
  obtain ⟨hi, rfl⟩ := List.getElem?_eq_some_iff.mp h
  have hsplit : s.tasks.take t ++ s.tasks[t] :: s.tasks.drop (t + 1) = s.tasks := by
    rw [← List.drop_eq_getElem_cons hi, List.take_append_drop]
  have hwork : tasksWork s = ((s.tasks.take t).map FanOutPoint.work).sum +
      (s.tasks[t].work + ((s.tasks.drop (t + 1)).map FanOutPoint.work).sum) := by
    rw [tasksWork, ← List.sum_cons, ← List.sum_append, ← List.map_cons, ← List.map_append, hsplit]
  rw [hwork, tasksWork, setTask, List.set_eq_take_append_cons_drop, if_pos hi, List.map_append,
    List.map_cons, List.sum_append, List.sum_cons]
  omega

theorem workLeft_setTask {t : Nat} {old point : FanOutPoint} (h : s.tasks[t]? = some old)
    (htasks : s'.tasks = (setTask s t point).tasks) (hphase : s'.phase = s.phase)
    (hwork : 3 * (cfg.skip.length - s'.cursor) + point.work <
      3 * (cfg.skip.length - s.cursor) + old.work) : workLeft cfg s' < workLeft cfg s := by
  have hset := tasksWork_setTask h point
  have htasks' : tasksWork s' = tasksWork (setTask s t point) := by rw [tasksWork, tasksWork, htasks]
  have hlength : s'.tasks.length = s.tasks.length := by rw [htasks, setTask, List.length_set]
  rw [workLeft, workLeft, htasks', hlength, hphase]
  omega

theorem FanOutSteps.workLeft_lt (h : FanOutSteps cfg s s') : workLeft cfg s' < workLeft cfg s := by
  -- a step that only changes where the caller is
  have hcaller : ∀ phase : FanOutPhase, phase.work < s.phase.work →
      workLeft cfg { s with phase } < workLeft cfg s := fun phase hlt => Nat.add_lt_add_left hlt _
  cases h with
  | interrupted h =>
    apply hcaller
    rcases h with h | h <;> simp [h, FanOutPhase.work]
  | noRows h => exact hcaller _ (by simp [h, FanOutPhase.work])
  | inline h => exact hcaller _ (by simp [h, FanOutPhase.work])
  | schedules h => exact hcaller _ (by simp [h, FanOutPhase.work])
  | inlineOver h => exact hcaller _ (by simp [h, FanOutPhase.work])
  | inlinePassed h hrow =>
    have hlt := lt_of_getElem? hrow
    simp only [workLeft, tasksWork]
    omega
  | inlineBegun h hrow =>
    have hlt := lt_of_getElem? hrow
    simp only [workLeft, tasksWork, h, FanOutPhase.work]
    omega
  | inlineEnded h r =>
    simp only [workLeft, tasksWork, h, FanOutPhase.work]
    omega
  | scheduled h hroom =>
    simp only [workLeft, tasksWork, List.length_append, List.length_singleton, List.map_append,
      List.map_singleton, List.sum_append, List.sum_singleton, FanOutPoint.work]
    omega
  | works h => exact hcaller _ (by simp [h, FanOutPhase.work])
  | drained h => exact hcaller _ (by simp [h, FanOutPhase.work])
  | failed h => exact hcaller _ (by simp [h, FanOutPhase.work])
  | returns h => exact hcaller _ (by simp [h, FanOutPhase.work])
  | starts h => exact workLeft_setTask h rfl rfl (by simp [setTask, FanOutPoint.work])
  | dropped h => exact workLeft_setTask h rfl rfl (by simp [setTask, FanOutPoint.work])
  | checked h => exact workLeft_setTask h rfl rfl (by simp [setTask, FanOutPoint.work])
  | throws h => exact workLeft_setTask h rfl rfl (by simp [setTask, FanOutPoint.work])
  | exhausted h hrow =>
    refine workLeft_setTask h rfl rfl ?_
    simp only [FanOutPoint.work]
    omega
  | passed h hrow =>
    have hlt := lt_of_getElem? hrow
    refine workLeft_setTask h rfl rfl ?_
    simp only [FanOutPoint.work]
    omega
  | begun h hrow =>
    have hlt := lt_of_getElem? hrow
    refine workLeft_setTask h rfl rfl ?_
    simp only [FanOutPoint.work]
    omega
  | ended h r => exact workLeft_setTask h rfl rfl (by simp [setTask, FanOutPoint.work])

def FanOutState.isOver (s : FanOutState R) : Prop := s.phase = .returned ∨ s.phase = .threw

theorem task_can_step {point : FanOutPoint} (hmem : point ∈ s.tasks) (hpoint : point ≠ .settled) :
    ∃ a, (fanOutStep cfg s a).isSome = true := by
  obtain ⟨t, ht⟩ := List.mem_iff_getElem?.mp hmem
  cases point with
  | scheduled => exact ⟨.start t, by simp [fanOutStep, ht]⟩
  | checking => exact ⟨.check t false, by simp [fanOutStep, ht]⟩
  | claiming => exact ⟨.claim t, by simp [fanOutStep, ht]⟩
  | performing row => exact ⟨.performDone t .unknownException, by simp [fanOutStep, ht]⟩
  | settled => exact absurd rfl hpoint

theorem can_step (cfg : FanOutConfig R) (h : ¬ s.isOver) : ∃ a, (fanOutStep cfg s a).isSome = true := by
  rw [FanOutState.isOver, not_or] at h
  cases hp : s.phase with
  | entered => exact ⟨.enter false, by simp [fanOutStep, hp]⟩
  | inline => exact ⟨.next, by simp [fanOutStep, hp]⟩
  | inlinePerforming row => exact ⟨.nextDone .unknownException, by simp [fanOutStep, hp]⟩
  | scheduling => exact ⟨.schedule, by simp [fanOutStep, hp]⟩
  | working =>
    by_cases hall : ∀ point ∈ s.tasks, point = .settled
    · exact ⟨.drained, by rw [fanOutStep, if_pos ⟨hp, hall⟩]; rfl⟩
    · push Not at hall
      obtain ⟨point, hmem, hpoint⟩ := hall
      exact task_can_step hmem hpoint
  | ending => exact ⟨.finish false, by simp [fanOutStep, hp]⟩
  | returned => exact absurd hp h.1
  | threw => exact absurd hp h.2

def FanOutAction.interrupts : FanOutAction R → Bool
  | .enter interrupted | .finish interrupted | .check _ interrupted => interrupted
  | .next | .nextDone _ | .schedule | .drained | .start _ | .claim _ | .performDone _ _ => false

def Unbroken (s : FanOutState R) : Prop := s.phase ≠ .threw ∧ s.hasError = false

theorem claimNext_unbroken {t : Nat} (h : Unbroken s) : Unbroken (claimNext cfg s t) := by
  unfold claimNext
  split <;> exact h

theorem nextInline_unbroken (h : Unbroken s) : Unbroken (nextInline cfg s) := by
  unfold nextInline
  split
  · exact ⟨by simp, h.2⟩
  · exact h
  · exact ⟨by simp, h.2⟩

theorem unbroken_step (h : Unbroken s) (ha : a.interrupts = false)
    (hstep : fanOutStep cfg s a = some s') : Unbroken s' := by
  cases a with
  | enter interrupted =>
    obtain ⟨hp, hs⟩ := Option.ite_none_right_eq_some.mp hstep
    cases hs
    simp only [FanOutAction.interrupts] at ha
    simp only [enterFanOut, ha]
    split
    · exact absurd ‹_› (by simp)
    · split
      · exact ⟨by simp, h.2⟩
      · split <;> exact ⟨by simp, h.2⟩
  | next =>
    obtain ⟨hp, hs⟩ := Option.ite_none_right_eq_some.mp hstep
    cases hs
    exact nextInline_unbroken h
  | nextDone p =>
    rw [fanOutStep] at hstep
    split at hstep
    · cases hstep
      exact ⟨by simp, h.2⟩
    · cases hstep
  | schedule =>
    obtain ⟨hp, hs⟩ := Option.ite_none_right_eq_some.mp hstep
    cases hs
    exact iteInduction (fun _ => h) fun _ => ⟨by simp, h.2⟩
  | drained =>
    obtain ⟨hp, hs⟩ := Option.ite_none_right_eq_some.mp hstep
    cases hs
    exact ⟨by simp [h.2], h.2⟩
  | finish interrupted =>
    obtain ⟨hp, hs⟩ := Option.ite_none_right_eq_some.mp hstep
    cases hs
    simp only [FanOutAction.interrupts] at ha
    exact ⟨by simp [ha], h.2⟩
  | start t =>
    obtain ⟨ht, hs⟩ := Option.ite_none_right_eq_some.mp hstep
    cases hs
    exact h
  | check t interrupted =>
    obtain ⟨ht, hs⟩ := Option.ite_none_right_eq_some.mp hstep
    simp only [FanOutAction.interrupts] at ha
    rw [ha] at hs
    cases hs
    exact h
  | claim t =>
    obtain ⟨ht, hs⟩ := Option.ite_none_right_eq_some.mp hstep
    cases hs
    exact claimNext_unbroken h
  | performDone t p =>
    rw [fanOutStep] at hstep
    split at hstep
    · cases hstep
      exact h
    · cases hstep

theorem unbroken_run (cfg : FanOutConfig R) {as : List (FanOutAction R)}
    (h : ∀ a ∈ as, a.interrupts = false) : Unbroken ((fanOutMachine cfg).run newFanOut as) := by
  refine (fanOutMachine cfg).run_invariant_along (C := fun _ a => a.interrupts = false)
    (fun s a hs ha => ?_) ⟨by simp [newFanOut], rfl⟩ ?_
  · show Unbroken ((fanOutStep cfg s a).getD s)
    rcases hstep : fanOutStep cfg s a with _ | s'
    · exact hs
    · exact unbroken_step hs ha hstep
  · exact (fanOutMachine cfg).along_iff_forall.mpr fun pre a post heq => h a (by simp [heq])

/-- No interleaving goes on for ever: only so many of a run's actions are steps that a thread can
take, and as long as the call is not over there is one more. It throws only when it is interrupted. -/
theorem fanOut_ends (cfg : FanOutConfig R) (as : List (FanOutAction R)) :
    ((fanOutMachine cfg).history newFanOut as).countP Prod.snd ≤
        3 * cfg.skip.length + 4 * nTasks cfg + 5 ∧
      (((fanOutMachine cfg).run newFanOut as).isOver ∨
        ∃ a, (fanOutStep cfg ((fanOutMachine cfg).run newFanOut as) a).isSome = true) ∧
      (((fanOutMachine cfg).run newFanOut as).phase = .threw →
        ∃ a ∈ as, FanOutAction.interrupts a = true) := by
  have hcount : ((fanOutMachine cfg).history newFanOut as).countP Prod.snd +
      workLeft cfg ((fanOutMachine cfg).run newFanOut as) ≤ workLeft cfg (newFanOut : FanOutState R) := by
    refine (fanOutMachine cfg).history_invariant
      (I := fun h s => h.countP Prod.snd + workLeft cfg s ≤ workLeft cfg (newFanOut : FanOutState R))
      ?_ (fun h s a hle => ?_) as
    · simp
    · rw [List.countP_append, List.countP_singleton]
      show _ + _ + workLeft cfg ((fanOutStep cfg s a).getD s) ≤ _
      rcases hs : fanOutStep cfg s a with _ | s'
      · simpa [fanOutMachine, hs] using hle
      · have hlt := (steps_of_fanOutStep hs).workLeft_lt
        simp only [fanOutMachine, hs, Option.isSome_some, if_true, Option.getD_some]
        omega
  refine ⟨?_, ?_, fun hthrew => ?_⟩
  · have hstart : workLeft cfg (newFanOut : FanOutState R) =
        3 * cfg.skip.length + 4 * nTasks cfg + 5 := by
      simp [workLeft, newFanOut, tasksWork, FanOutPhase.work]
    omega
  · by_cases hover : ((fanOutMachine cfg).run newFanOut as).isOver
    · exact .inl hover
    · exact .inr (can_step cfg hover)
  · by_contra hno
    push Not at hno
    exact (unbroken_run cfg fun a ha => by simpa using hno a ha).1 hthrew

end

def threeRows : FanOutConfig Str := ⟨[false, true, false], id⟩

/-- The two tasks run the two requests side by side, and one of them fails. -/
example : postCells threeRows ((fanOutMachine threeRows).run newFanOut
    [.enter false, .schedule, .schedule, .schedule, .start 0, .start 1, .check 0 false, .check 1 false,
      .claim 1, .claim 0, .check 0 false, .claim 0, .performDone 0 (.exception "refused".toList),
      .performDone 1 (.response "ok".toList), .check 0 false, .claim 0, .check 1 false, .claim 1, .drained,
      .finish false]) = [some "ok".toList, none, some "refused".toList] := by decide

end Quackapi.Outbound
