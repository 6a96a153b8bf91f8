import Quackapi.Exec.Call
import Quackapi.Library.Slots

/-! What a step of a call can do, and what that means for the counter it shares. -/

namespace Quackapi.Exec
open Library

section
variable {R : Type} {cfg : ExecConfig R} {s : ExecState R}

/-- The task is there, is not settled, and a thread is in its step or none is. -/
structure Live (s : ExecState R) (t : Nat) (stepping : Bool) (task : ExecTask) : Prop where
  get : s.tasks[t]? = some task
  settled : task.settled = false
  stepping : task.stepping = stepping

theorem liveTask_eq_some_iff {t : Nat} {stepping : Bool} {task : ExecTask} :
    liveTask s t stepping = some task ↔ Live s t stepping task := by
  rw [liveTask, Option.filter_eq_some_iff, Bool.and_eq_true, Bool.not_eq_true', beq_iff_eq]
  exact ⟨fun h => ⟨h.1, h.2.1, h.2.2⟩, fun h => ⟨h.get, h.settled, h.stepping⟩⟩

def doneRows (s : ExecState R) : List Nat := s.out.map Prod.fst

theorem doneRow_isSome {i : Nat} : (doneRow s i).isSome = true ↔ i ∈ doneRows s := by
  rw [doneRow, Option.isSome_map, List.find?_isSome, doneRows, List.mem_map]
  simp only [decide_eq_true_eq]

/-- Every step of a call, with what it needs and what it leaves. -/
inductive Steps (cfg : ExecConfig R) (s : ExecState R) : ExecAction R → ExecState R → Prop
  | deny (h : s.phase = .entered) (hbound : cfg.policiesBound = true) :
      Steps cfg s .deny (denyAll cfg s)
  | inLine (h : s.phase = .entered) : Steps cfg s .reserve { s with phase := .rows true 0 }
  | reserve {n : Nat} (h : s.phase = .entered) (hn : 0 < n)
      (hroom : s.execTasksRunning + n ≤ cfg.cap) :
      Steps cfg s .reserve { s with
        phase := .reserved, reserved := n, execTasksRunning := s.execTasksRunning + n }
  | executor (h : s.phase = .reserved) : Steps cfg s .executor { s with phase := .scheduling }
  | executorFails (h : s.phase = .reserved) : Steps cfg s .executorFails { s with
      phase := .threw, execTasksRunning := s.execTasksRunning - s.reserved }
  | schedule (h : s.phase = .scheduling) : Steps cfg s .schedule (schedule s)
  | taskFails (h : s.phase = .scheduling) : Steps cfg s .taskFails (taskFails s)
  | scheduleFails (h : s.phase = .scheduling) : Steps cfg s .scheduleFails (scheduleFails s)
  | interrupted (h : s.phase = .ending ∨ ∃ i, s.phase = .rows true i) :
      Steps cfg s .interrupted { s with phase := .threw }
  | abandoned (h : s.phase = .waiting) :
      Steps cfg s .interrupted { s with phase := .threw, cancelled := true }
  | deadline (h : s.phase = .waiting) :
      Steps cfg s .deadline { s with phase := .ending, cancelled := true }
  | woken (h : s.phase = .waiting) (hdone : s.tasks.length ≤ s.tasksDone) :
      Steps cfg s .woken { s with phase := .rows false 0 }
  | rowsEnd {noTask : Bool} {i : Nat} (h : s.phase = .rows noTask i) (hi : cfg.skip[i]? = none) :
      Steps cfg s .row { s with phase := .ending }
  | rowPassed {noTask : Bool} {i : Nat} (h : s.phase = .rows noTask i) :
      Steps cfg s .row { s with phase := .rows noTask (i + 1) }
  | rowStarts {noTask : Bool} {i : Nat} (h : s.phase = .rows noTask i)
      (hi : cfg.skip[i]? = some false) (hnew : noTask = false → i ∉ doneRows s) :
      Steps cfg s .row { s with phase := .rowRunning noTask i, started := s.started ++ [i] }
  | rowEnds {noTask : Bool} {i : Nat} (h : s.phase = .rowRunning noTask i) (receipt : R) :
      Steps cfg s (.rowEnds receipt)
        { s with phase := .rows noTask (i + 1), out := s.out ++ [(i, receipt)] }
  | finish (h : s.phase = .ending) :
      Steps cfg s .finish { s with phase := .returned (resultCells cfg s) }
  | dropped {t : Nat} {task : ExecTask} (h : Live s t false task) (hc : s.cancelled = true) :
      Steps cfg s (.enter t) (settle s t { task with operation := none })
  | entered {t : Nat} {task : ExecTask} (h : Live s t false task) :
      Steps cfg s (.enter t) { s with tasks := s.tasks.set t { task with stepping := true } }
  | exhausted {t : Nat} {task : ExecTask} (h : Live s t true task) (hop : task.operation = none) :
      Steps cfg s (.claim t) (settle { s with cursor := s.cursor + 1 } t task)
  | passed {t : Nat} {task : ExecTask} (h : Live s t true task) :
      Steps cfg s (.claim t) { s with cursor := s.cursor + 1 }
  | claimed {t : Nat} {task : ExecTask} (h : Live s t true task) (hop : task.operation = none)
      (hi : cfg.skip[s.cursor]? = some false) :
      Steps cfg s (.claim t) { s with
        cursor := s.cursor + 1
        tasks := s.tasks.set t { task with operation := some ⟨s.cursor, false⟩ } }
  | operated {t : Nat} {task : ExecTask} {operation : RowOperation} (h : Live s t true task)
      (hop : task.operation = some operation) (o : Operated R) :
      Steps cfg s (.operate t o) (operateRow cfg s t operation o)
  | cancel {t : Nat} {task : ExecTask} (h : Live s t false task) :
      Steps cfg s (.cancel t) (settle s t task)
  | others {running : Int} (h : s.execTasksRunning - s.others + running ≤ cfg.cap) :
      Steps cfg s (.others running) { s with
        others := running, execTasksRunning := s.execTasksRunning - s.others + running }

theorem reserve_steps (h : s.phase = .entered) : Steps cfg s .reserve (reserve cfg s) := by
  unfold reserve
  dsimp only
  split
  · exact .inLine h
  · next hn =>
    refine .reserve h (Nat.pos_of_ne_zero hn) ?_
    -- what is taken is at most what is left below the cap
    have hroom : (reservedTasks cfg s.execTasksRunning : Int) ≤ cfg.cap - s.execTasksRunning := by
      unfold reservedTasks reserveExecTasks at hn ⊢
      split at hn
      · exact absurd rfl hn
      · split at hn
        · exact absurd rfl hn
        · next hwanted hleft =>
          rw [if_neg hwanted, if_neg hleft]
          omega
    omega

theorem nextRow_steps {noTask : Bool} {i : Nat} (h : s.phase = .rows noTask i) :
    Steps cfg s .row (nextRow cfg s noTask i) := by
  unfold nextRow
  split
  · next hi => exact .rowsEnd h hi
  · next skipped hi =>
    split
    · exact .rowPassed h
    · next hpass =>
      rw [Bool.or_eq_true, Bool.and_eq_true, Bool.not_eq_true', doneRow_isSome, not_or, not_and,
        Bool.not_eq_true] at hpass
      rw [hpass.1] at hi
      exact .rowStarts h hi hpass.2

theorem claimRow_steps {t : Nat} {task : ExecTask} (h : Live s t true task)
    (hop : task.operation = none) : Steps cfg s (.claim t) (claimRow cfg s t task) := by
  unfold claimRow
  dsimp only
  split
  · exact .exhausted h hop
  · exact .passed h
  · next hi => exact .claimed h hop hi

theorem interrupted_steps {s' : ExecState R} (h : interrupted s = some s') :
    Steps cfg s .interrupted s' := by
  unfold interrupted at h
  split at h
  · next i hp =>
    cases h
    exact .interrupted (.inr ⟨i, hp⟩)
  · next hp =>
    cases h
    exact .interrupted (.inl hp)
  · next hp =>
    cases h
    exact .abandoned hp
  · cases h

theorem enterTask_steps {t : Nat} {task : ExecTask} (h : Live s t false task) :
    Steps cfg s (.enter t) (enterTask s t task) := by
  unfold enterTask
  split
  · next hc => exact .dropped h hc
  · exact .entered h

theorem steps_of_execStep {a : ExecAction R} {s' : ExecState R} (h : execStep cfg s a = some s') :
    Steps cfg s a s' := by
  cases a with
  | deny =>
    obtain ⟨⟨hphase, hbound⟩, hs⟩ := Option.ite_none_right_eq_some.mp h
    cases hs
    split at hphase
    · next hp => exact .deny hp hbound
    · cases hphase
  | reserve =>
    obtain ⟨⟨hphase, _⟩, hs⟩ := Option.ite_none_right_eq_some.mp h
    cases hs
    split at hphase
    · next hp => exact reserve_steps hp
    · cases hphase
  | executor =>
    obtain ⟨hphase, hs⟩ := Option.ite_none_right_eq_some.mp h
    cases hs
    split at hphase
    · next hp => exact .executor hp
    · cases hphase
  | executorFails =>
    obtain ⟨hphase, hs⟩ := Option.ite_none_right_eq_some.mp h
    cases hs
    split at hphase
    · next hp => exact .executorFails hp
    · cases hphase
  | schedule =>
    obtain ⟨hphase, hs⟩ := Option.ite_none_right_eq_some.mp h
    cases hs
    split at hphase
    · next hp => exact .schedule hp
    · cases hphase
  | taskFails =>
    obtain ⟨hphase, hs⟩ := Option.ite_none_right_eq_some.mp h
    cases hs
    split at hphase
    · next hp => exact .taskFails hp
    · cases hphase
  | scheduleFails =>
    obtain ⟨hphase, hs⟩ := Option.ite_none_right_eq_some.mp h
    cases hs
    split at hphase
    · next hp => exact .scheduleFails hp
    · cases hphase
  | interrupted => exact interrupted_steps h
  | deadline =>
    obtain ⟨hphase, hs⟩ := Option.ite_none_right_eq_some.mp h
    cases hs
    split at hphase
    · next hp => exact .deadline hp
    · cases hphase
  | woken =>
    obtain ⟨⟨hphase, hdone⟩, hs⟩ := Option.ite_none_right_eq_some.mp h
    cases hs
    split at hphase
    · next hp => exact .woken hp hdone
    · cases hphase
  | row =>
    simp only [execStep] at h
    split at h
    · next hphase =>
      cases h
      exact nextRow_steps hphase
    · cases h
  | rowEnds receipt =>
    simp only [execStep] at h
    split at h
    · next hphase =>
      cases h
      exact .rowEnds hphase receipt
    · cases h
  | finish =>
    obtain ⟨hphase, hs⟩ := Option.ite_none_right_eq_some.mp h
    cases hs
    split at hphase
    · next hp => exact .finish hp
    · cases hphase
  | enter t =>
    obtain ⟨task, htask, rfl⟩ := Option.map_eq_some_iff.mp h
    exact enterTask_steps (liveTask_eq_some_iff.mp htask)
  | claim t =>
    simp only [execStep] at h
    split at h
    · next task htask =>
      obtain ⟨hop, hs⟩ := Option.ite_none_right_eq_some.mp h
      cases hs
      exact claimRow_steps (liveTask_eq_some_iff.mp htask) (Option.isNone_iff_eq_none.mp hop)
    · cases h
  | operate t o =>
    simp only [execStep] at h
    split at h
    · next operation hoperation =>
      obtain ⟨task, htask, hop⟩ := Option.bind_eq_some_iff.mp hoperation
      cases h
      exact .operated (liveTask_eq_some_iff.mp htask) hop o
    · cases h
  | cancel t =>
    obtain ⟨task, htask, rfl⟩ := Option.map_eq_some_iff.mp h
    exact .cancel (liveTask_eq_some_iff.mp htask)
  | others running =>
    obtain ⟨hroom, hs⟩ := Option.ite_none_right_eq_some.mp h
    cases hs
    exact .others hroom

theorem execMachine_step {P : ExecState R → Prop} {a : ExecAction R} (h : P s)
    (hstep : ∀ s', Steps cfg s a s' → P s') : P ((execMachine cfg).step s a).1 := by
  show P ((execStep cfg s a).getD s)
  rcases hs : execStep cfg s a with _ | s'
  · exact h
  · exact hstep s' (steps_of_execStep hs)

def settledTasks (s : ExecState R) : Nat := s.tasks.countP ExecTask.settled

def liveTasks (s : ExecState R) : Nat := s.tasks.countP fun task => !task.settled

/-- The slots that are reserved and have no task yet. -/
def idleSlots (s : ExecState R) : Int :=
  match s.phase with
  | .reserved | .scheduling => s.reserved - s.tasks.length
  | _ => 0

/-- The counter holds what other calls hold, one slot for each live task and the idle ones. -/
structure SlotsHeld (cfg : ExecConfig R) (s : ExecState R) : Prop where
  tasksDone : s.tasksDone = settledTasks s
  held : s.execTasksRunning = s.others + liveTasks s + idleSlots s
  bounded : s.execTasksRunning ≤ cfg.cap
  noTasks : s.phase = .entered ∨ s.phase = .reserved → s.tasks = []
  slots : s.phase = .reserved → 0 < s.reserved
  room : s.phase = .scheduling → s.tasks.length < s.reserved

theorem idleSlots_of_phase (hr : s.phase ≠ .reserved) (hs : s.phase ≠ .scheduling) :
    idleSlots s = 0 := by
  unfold idleSlots
  split
  · next h => exact absurd h hr
  · next h => exact absurd h hs
  · rfl

theorem SlotsHeld.caller {s' : ExecState R} (h : SlotsHeld cfg s) (htasks : s'.tasks = s.tasks)
    (hdone : s'.tasksDone = s.tasksDone) (hothers : s'.others = s.others)
    (hheld : s'.execTasksRunning - s.execTasksRunning = idleSlots s' - idleSlots s)
    (hbounded : s'.execTasksRunning ≤ cfg.cap) (hnoTasks : s'.phase = .reserved → s.tasks = [])
    (hslots : s'.phase = .reserved ∨ s'.phase = .scheduling → s.tasks.length < s'.reserved)
    (hentered : s'.phase ≠ .entered) : SlotsHeld cfg s' where
  tasksDone := by rw [hdone, h.tasksDone, settledTasks, settledTasks, htasks]
  held := by
    have hold := h.held
    rw [hothers, liveTasks, htasks, ← liveTasks]
    omega
  bounded := hbounded
  noTasks := by
    rw [htasks]
    exact fun hp => hnoTasks (hp.resolve_left hentered)
  slots := fun hp => Nat.lt_of_le_of_lt (Nat.zero_le _) (hslots (.inl hp))
  room := by
    rw [htasks]
    exact fun hp => hslots (.inr hp)

theorem SlotsHeld.phase {s' : ExecState R} (h : SlotsHeld cfg s) (htasks : s'.tasks = s.tasks)
    (hdone : s'.tasksDone = s.tasksDone) (hrunning : s'.execTasksRunning = s.execTasksRunning)
    (hothers : s'.others = s.others) (hidle : idleSlots s = 0)
    (hlate : s'.phase ≠ .entered ∧ s'.phase ≠ .reserved ∧ s'.phase ≠ .scheduling) :
    SlotsHeld cfg s' := by
  refine h.caller htasks hdone hothers ?_ ?_ (absurd · hlate.2.1) ?_ hlate.1
  · rw [hrunning, hidle, idleSlots_of_phase hlate.2.1 hlate.2.2, Int.sub_self, Int.sub_zero]
  · rw [hrunning]
    exact h.bounded
  · exact fun hp => absurd hp (not_or.mpr hlate.2)

theorem SlotsHeld.set {s' : ExecState R} {t : Nat} {task task' : ExecTask} (h : SlotsHeld cfg s)
    (hget : s.tasks[t]? = some task) (htasks : s'.tasks = s.tasks.set t task')
    (hsettled : task'.settled = task.settled) (hphase : s'.phase = s.phase)
    (hreserved : s'.reserved = s.reserved) (hdone : s'.tasksDone = s.tasksDone)
    (hrunning : s'.execTasksRunning = s.execTasksRunning) (hothers : s'.others = s.others) :
    SlotsHeld cfg s' := by
  have hlength : s'.tasks.length = s.tasks.length := by rw [htasks, List.length_set]
  have hsettledTasks : settledTasks s' = settledTasks s := by
    rw [settledTasks, htasks]
    exact countP_set_of_eq hget hsettled
  have hlive : liveTasks s' = liveTasks s := by
    rw [liveTasks, htasks]
    exact countP_set_of_eq hget (congrArg _ hsettled)
  have hidle : idleSlots s' = idleSlots s := by rw [idleSlots, idleSlots, hphase, hreserved, hlength]
  constructor
  · rw [hdone, h.tasksDone, hsettledTasks]
  · rw [hrunning, h.held, hothers, hlive, hidle]
  · rw [hrunning]
    exact h.bounded
  · intro hp
    rw [hphase] at hp
    rw [← List.length_eq_zero_iff, hlength, List.length_eq_zero_iff]
    exact h.noTasks hp
  · rw [hphase, hreserved]
    exact h.slots
  · rw [hphase, hreserved, hlength]
    exact h.room

theorem SlotsHeld.settle {t : Nat} {task : ExecTask} (h : SlotsHeld cfg s)
    (hget : s.tasks[t]? = some task) (hlive : task.settled = false) (task' : ExecTask) :
    SlotsHeld cfg (settle s t task') := by
  have hlength : (Exec.settle s t task').tasks.length = s.tasks.length := List.length_set
  have hsettledTasks : settledTasks (Exec.settle s t task') = settledTasks s + 1 :=
    countP_set_of_false hget hlive rfl
  have hliveTasks : liveTasks (Exec.settle s t task') + 1 = liveTasks s :=
    countP_set_of_true hget (by rw [hlive]; rfl) rfl
  have hidle : idleSlots (Exec.settle s t task') = idleSlots s := by
    unfold idleSlots
    rw [hlength]
    rfl
  have hheld := h.held
  have hbounded := h.bounded
  constructor
  · rw [hsettledTasks, ← h.tasksDone]
    rfl
  · show s.execTasksRunning - 1 = s.others + liveTasks (Exec.settle s t task') + _
    rw [hidle]
    omega
  · show s.execTasksRunning - 1 ≤ cfg.cap
    omega
  · intro hp
    rw [← List.length_eq_zero_iff, hlength, List.length_eq_zero_iff]
    exact h.noTasks hp
  · exact h.slots
  · intro hp
    rw [hlength]
    exact h.room hp

theorem SlotsHeld.cursor (h : SlotsHeld cfg s) (cursor : Nat) : SlotsHeld cfg { s with cursor } :=
  ⟨h.tasksDone, h.held, h.bounded, h.noTasks, h.slots, h.room⟩

theorem newCall_slots {running : Int} (h : running ≤ cfg.cap) : SlotsHeld cfg (newCall running) where
  tasksDone := rfl
  held := (Int.add_zero _).symm.trans (congrArg (· + 0) (Int.add_zero running).symm)
  bounded := h
  noTasks := fun _ => rfl
  slots := nofun
  room := nofun

theorem idleSlots_scheduling (hp : s.phase = .scheduling) :
    idleSlots s = s.reserved - s.tasks.length := by rw [idleSlots, hp]

theorem SlotsHeld.schedule (h : SlotsHeld cfg s) (hp : s.phase = .scheduling) :
    SlotsHeld cfg (schedule s) := by
  have hroom : s.tasks.length < s.reserved := h.room hp
  have hidle : idleSlots s = s.reserved - s.tasks.length := idleSlots_scheduling hp
  have hheld := h.held
  have hlive : liveTasks (Exec.schedule s) = liveTasks s + 1 := List.countP_append
  have hdone : settledTasks (Exec.schedule s) = settledTasks s := List.countP_append
  have hlength : (Exec.schedule s).tasks.length = s.tasks.length + 1 := List.length_append
  have hphase : (Exec.schedule s).phase =
      if s.tasks.length + 1 < s.reserved then .scheduling else .waiting := rfl
  have hidle' : idleSlots (Exec.schedule s) = s.reserved - (s.tasks.length + 1) := by
    by_cases hmore : s.tasks.length + 1 < s.reserved
    · rw [idleSlots_scheduling (if_pos hmore), hlength]
      rfl
    · have hlast : (Exec.schedule s).phase = .waiting := if_neg hmore
      rw [idleSlots, hlast]
      show (0 : Int) = s.reserved - (s.tasks.length + 1)
      omega
  refine ⟨h.tasksDone.trans hdone.symm, ?_, h.bounded, ?_, ?_, ?_⟩
  · show s.execTasksRunning = s.others + liveTasks (Exec.schedule s) + idleSlots (Exec.schedule s)
    omega
  · rw [hphase]
    split
    · exact fun hp => hp.elim nofun nofun
    · exact fun hp => hp.elim nofun nofun
  · rw [hphase]
    split
    · exact nofun
    · exact nofun
  · rw [hphase, hlength]
    split
    · next hmore => exact fun _ => hmore
    · exact nofun

theorem SlotsHeld.taskFails (h : SlotsHeld cfg s) (hp : s.phase = .scheduling) :
    SlotsHeld cfg (taskFails s) := by
  have hroom : s.tasks.length < s.reserved := h.room hp
  have hidle : idleSlots s = s.reserved - s.tasks.length := idleSlots_scheduling hp
  have hbounded := h.bounded
  have hphase : (Exec.taskFails s).phase ≠ .entered ∧ (Exec.taskFails s).phase ≠ .reserved ∧
      (Exec.taskFails s).phase ≠ .scheduling := by
    unfold Exec.taskFails
    dsimp only
    split
    · exact ⟨nofun, nofun, nofun⟩
    · exact ⟨nofun, nofun, nofun⟩
  have hidle' : idleSlots (Exec.taskFails s) = 0 := idleSlots_of_phase hphase.2.1 hphase.2.2
  refine h.caller rfl rfl rfl ?_ ?_ (absurd · hphase.2.1) ?_ hphase.1
  · show s.execTasksRunning - (s.reserved - s.tasks.length) - s.execTasksRunning = _
    omega
  · show s.execTasksRunning - (s.reserved - s.tasks.length) ≤ cfg.cap
    omega
  · exact fun hp => absurd hp (not_or.mpr hphase.2)

theorem SlotsHeld.scheduleFails (h : SlotsHeld cfg s) (hp : s.phase = .scheduling) :
    SlotsHeld cfg (scheduleFails s) := by
  have hroom : s.tasks.length < s.reserved := h.room hp
  have hidle : idleSlots s = s.reserved - s.tasks.length := idleSlots_scheduling hp
  have hheld := h.held
  have hbounded := h.bounded
  have hlive : liveTasks (Exec.scheduleFails s) = liveTasks s := List.countP_append
  have hdone : settledTasks (Exec.scheduleFails s) = settledTasks s + 1 := List.countP_append
  refine ⟨?_, ?_, ?_, fun hp => hp.elim nofun nofun, nofun, nofun⟩
  · rw [hdone, ← h.tasksDone]
    rfl
  · show s.execTasksRunning - 1 - (s.reserved - (s.tasks.length + 1)) =
      s.others + liveTasks (Exec.scheduleFails s) + 0
    omega
  · show s.execTasksRunning - 1 - (s.reserved - (s.tasks.length + 1)) ≤ cfg.cap
    omega

theorem slots_step {a : ExecAction R} {s' : ExecState R} (h : SlotsHeld cfg s)
    (hstep : Steps cfg s a s') : SlotsHeld cfg s' := by
  have hheld := h.held
  have hbounded := h.bounded
  have hdone := h.tasksDone
  have hlate : ∀ p : ExecPhase R, s.phase = p → p ≠ .reserved → p ≠ .scheduling →
      idleSlots s = 0 := fun p hp hr hs => idleSlots_of_phase (hp ▸ hr) (hp ▸ hs)
  cases hstep with
  | deny hp _ => exact h.phase rfl rfl rfl rfl (hlate _ hp nofun nofun) ⟨nofun, nofun, nofun⟩
  | inLine hp => exact h.phase rfl rfl rfl rfl (hlate _ hp nofun nofun) ⟨nofun, nofun, nofun⟩
  | interrupted hp =>
    refine h.phase rfl rfl rfl rfl ?_ ⟨nofun, nofun, nofun⟩
    rcases hp with hp | ⟨i, hp⟩
    · exact hlate _ hp nofun nofun
    · exact hlate _ hp nofun nofun
  | abandoned hp => exact h.phase rfl rfl rfl rfl (hlate _ hp nofun nofun) ⟨nofun, nofun, nofun⟩
  | deadline hp => exact h.phase rfl rfl rfl rfl (hlate _ hp nofun nofun) ⟨nofun, nofun, nofun⟩
  | woken hp _ => exact h.phase rfl rfl rfl rfl (hlate _ hp nofun nofun) ⟨nofun, nofun, nofun⟩
  | rowsEnd hp _ => exact h.phase rfl rfl rfl rfl (hlate _ hp nofun nofun) ⟨nofun, nofun, nofun⟩
  | rowPassed hp => exact h.phase rfl rfl rfl rfl (hlate _ hp nofun nofun) ⟨nofun, nofun, nofun⟩
  | rowStarts hp _ _ =>
    exact h.phase rfl rfl rfl rfl (hlate _ hp nofun nofun) ⟨nofun, nofun, nofun⟩
  | rowEnds hp _ => exact h.phase rfl rfl rfl rfl (hlate _ hp nofun nofun) ⟨nofun, nofun, nofun⟩
  | finish hp => exact h.phase rfl rfl rfl rfl (hlate _ hp nofun nofun) ⟨nofun, nofun, nofun⟩
  | @reserve n hp hn hroom =>
    have hempty : s.tasks = [] := h.noTasks (.inl hp)
    have hidle : idleSlots s = 0 := hlate _ hp nofun nofun
    refine h.caller rfl rfl rfl ?_ hroom (fun _ => hempty) (fun _ => ?_) nofun
    · show s.execTasksRunning + n - s.execTasksRunning = n - (s.tasks.length : Int) - idleSlots s
      rw [hempty, hidle, List.length_nil]
      omega
    · rwa [hempty]
  | executor hp =>
    have hempty : s.tasks = [] := h.noTasks (.inr hp)
    have hidle : idleSlots s = s.reserved - s.tasks.length := by rw [idleSlots, hp]
    refine h.caller rfl rfl rfl ?_ hbounded nofun (fun _ => ?_) nofun
    · show s.execTasksRunning - s.execTasksRunning = s.reserved - (s.tasks.length : Int) - idleSlots s
      rw [hidle]
      omega
    · rw [hempty]
      exact h.slots hp
  | executorFails hp =>
    have hempty : s.tasks = [] := h.noTasks (.inr hp)
    have hidle : idleSlots s = s.reserved - s.tasks.length := by rw [idleSlots, hp]
    refine h.caller rfl rfl rfl ?_ ?_ nofun (fun hp' => hp'.elim nofun nofun) nofun
    · show s.execTasksRunning - s.reserved - s.execTasksRunning = 0 - idleSlots s
      rw [hidle, hempty, List.length_nil]
      omega
    · show s.execTasksRunning - s.reserved ≤ cfg.cap
      omega
  | schedule hp => exact h.schedule hp
  | taskFails hp => exact h.taskFails hp
  | scheduleFails hp => exact h.scheduleFails hp
  | dropped hl _ => exact h.settle hl.get hl.settled _
  | entered hl => exact h.set hl.get rfl rfl rfl rfl rfl rfl rfl
  | exhausted hl _ => exact (h.cursor (s.cursor + 1)).settle hl.get hl.settled _
  | passed _ => exact h.cursor _
  | claimed hl _ _ => exact h.set hl.get rfl rfl rfl rfl rfl rfl rfl
  | operated hl _ o =>
    cases o with
    | stopped => exact h.set hl.get rfl hl.settled.symm rfl rfl rfl rfl rfl
    | suspended => exact h.set hl.get rfl hl.settled.symm rfl rfl rfl rfl rfl
    | finished receipt => exact h.set hl.get rfl hl.settled.symm rfl rfl rfl rfl rfl
  | cancel hl => exact h.settle hl.get hl.settled _
  | @others running hroom =>
    refine ⟨hdone, ?_, hroom, h.noTasks, h.slots, h.room⟩
    show s.execTasksRunning - s.others + running = running + liveTasks s + idleSlots s
    omega

end

end Quackapi.Exec
