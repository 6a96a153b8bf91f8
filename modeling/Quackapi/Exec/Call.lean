import Quackapi.Library.Machine

/-! One call of `quackapi_selfdispatch`: the calling thread, the tasks it has scheduled, and the counter
it shares with other calls. Each action is one atomic step of one of them, so a run is an interleaving.
The caller's `WorkOnTasks` is one more thread that takes the steps of tasks. -/

namespace Quackapi.Exec
open Library

/-- A call's input and settings, with the receipts that are no row's own. -/
structure ExecConfig (R : Type) where
  /-- The rows; the input of a skipped one is NULL. -/
  skip : List Bool
  cap : Int
  policiesBound : Bool
  inNativeExecTask : Bool
  numberOfThreads : Nat
  policyDenied : R
  timeout : R

def maxOutboundFanout : Nat := 32

/-- A row that a task holds; `opened` once its batch has been started. -/
structure RowOperation where
  row : Nat
  opened : Bool
deriving DecidableEq, Repr

structure ExecTask where
  /-- A thread is inside `ExecuteTaskStep`, past its look at `cancelled`. -/
  stepping : Bool
  operation : Option RowOperation
  settled : Bool
deriving DecidableEq, Repr

/-- Where the calling thread is. Its own rows it runs one by one, with or without tasks before. -/
inductive ExecPhase (R : Type)
  | entered | reserved | scheduling | waiting
  | rows (noTask : Bool) (row : Nat)
  | rowRunning (noTask : Bool) (row : Nat)
  | ending
  | returned (cells : List (Option R))
  | threw
deriving DecidableEq

structure ExecState (R : Type) where
  phase : ExecPhase R
  reserved : Nat
  tasks : List ExecTask
  cursor : Nat
  cancelled : Bool
  tasksDone : Nat
  execTasksRunning : Int
  /-- What other calls hold of the counter. -/
  others : Int
  /-- The rows whose batch was started, oldest first. -/
  started : List Nat
  out : List (Nat × R)
deriving DecidableEq

section
variable {R : Type}

/-- A call begins while other calls hold `running` slots. -/
def newCall (running : Int) : ExecState R where
  phase := .entered
  reserved := 0
  tasks := []
  cursor := 0
  cancelled := false
  tasksDone := 0
  execTasksRunning := running
  others := running
  started := []
  out := []

inductive Operated (R : Type)
  | stopped
  | suspended
  | finished (receipt : R)
deriving DecidableEq

inductive ExecAction (R : Type)
  -- the calling thread
  | deny | reserve | executor | executorFails | schedule | taskFails | scheduleFails
  | interrupted | deadline | woken | row | rowEnds (receipt : R) | finish
  -- a thread of the executor, at a task
  | enter (task : Nat) | claim (task : Nat) | operate (task : Nat) (o : Operated R)
  | cancel (task : Nat)
  -- other calls
  | others (running : Int)
deriving DecidableEq

def reserveExecTasks (wanted : Nat) (cap running : Int) : Nat :=
  if cap - running ≤ 0 then 0 else min (cap - running).toNat wanted

def wantedTasks (cfg : ExecConfig R) : Nat :=
  min (cfg.skip.countP fun skipped => !skipped) maxOutboundFanout

def reservedTasks (cfg : ExecConfig R) (running : Int) : Nat :=
  if wantedTasks cfg = 0 ∨ cfg.inNativeExecTask = true ∨ cfg.numberOfThreads ≤ 1 then 0
  else reserveExecTasks (wantedTasks cfg) cfg.cap running

/-- `Settle`, with the task as it is left. -/
def settle (s : ExecState R) (t : Nat) (task : ExecTask) : ExecState R :=
  { s with
    tasks := s.tasks.set t { task with stepping := false, settled := true }
    execTasksRunning := s.execTasksRunning - 1
    tasksDone := s.tasksDone + 1 }

/-- `call.out` is set by then; the last entry is the only one of its row. -/
def doneRow (s : ExecState R) (i : Nat) : Option R := (s.out.find? fun p => p.1 = i).map Prod.snd

/-- Every row is answered with the receipt of its own, and with the deadline's where it has none. -/
def resultCells (cfg : ExecConfig R) (s : ExecState R) : List (Option R) :=
  cfg.skip.mapIdx fun i skipped => if skipped then none else some ((doneRow s i).getD cfg.timeout)

def denyAll (cfg : ExecConfig R) (s : ExecState R) : ExecState R :=
  { s with phase := .returned (cfg.skip.map fun skipped =>
      if skipped then none else some cfg.policyDenied) }

def reserve (cfg : ExecConfig R) (s : ExecState R) : ExecState R :=
  let reserved := reservedTasks cfg s.execTasksRunning
  if reserved = 0 then { s with phase := .rows true 0 }
  else { s with
    phase := .reserved, reserved, execTasksRunning := s.execTasksRunning + reserved }

/-- The loop ends once every slot has its task. -/
def schedule (s : ExecState R) : ExecState R :=
  { s with
    tasks := s.tasks ++ [⟨false, none, false⟩]
    phase := if s.tasks.length + 1 < s.reserved then .scheduling else .waiting }

/-- No task could be made; the slots that have none are given back. -/
def taskFails (s : ExecState R) : ExecState R :=
  { s with
    execTasksRunning := s.execTasksRunning - (s.reserved - s.tasks.length)
    phase := if s.tasks.isEmpty then .rows true 0 else .waiting }

/-- The executor did not take the task, which settles when it is destroyed. -/
def scheduleFails (s : ExecState R) : ExecState R :=
  { s with
    tasks := s.tasks ++ [⟨false, none, true⟩]
    tasksDone := s.tasksDone + 1
    execTasksRunning := s.execTasksRunning - 1 - (s.reserved - (s.tasks.length + 1))
    phase := .waiting }

/-- An interrupt is seen where the caller looks: before a row of its own, while it waits, at the end. -/
def interrupted (s : ExecState R) : Option (ExecState R) :=
  match s.phase with
  | .rows true _ | .ending => some { s with phase := .threw }
  | .waiting => some { s with phase := .threw, cancelled := true }
  | _ => none

/-- The next row of the caller's own loop, or what follows it. -/
def nextRow (cfg : ExecConfig R) (s : ExecState R) (noTask : Bool) (i : Nat) : ExecState R :=
  match cfg.skip[i]? with
  | none => { s with phase := .ending }
  | some skipped =>
    if skipped || (!noTask && (doneRow s i).isSome) then { s with phase := .rows noTask (i + 1) }
    else { s with phase := .rowRunning noTask i, started := s.started ++ [i] }

/-- A task of the executor that can be stepped: the executor drops it once it is settled. -/
def liveTask (s : ExecState R) (t : Nat) (stepping : Bool) : Option ExecTask :=
  s.tasks[t]?.filter fun task => !task.settled && task.stepping == stepping

/-- The start of a step: a cancelled call's task drops its row and settles. -/
def enterTask (s : ExecState R) (t : Nat) (task : ExecTask) : ExecState R :=
  if s.cancelled then settle s t { task with operation := none }
  else { s with tasks := s.tasks.set t { task with stepping := true } }

/-- One turn of the loop that fetches a row. -/
def claimRow (cfg : ExecConfig R) (s : ExecState R) (t : Nat) (task : ExecTask) : ExecState R :=
  let s' := { s with cursor := s.cursor + 1 }
  match cfg.skip[s.cursor]? with
  | none => settle s' t task
  | some true => s'
  | some false => { s' with tasks := s.tasks.set t { task with operation := some ⟨s.cursor, false⟩ } }

/-- One step of the operation, at the end of the task's step. A batch starts with the first. -/
def operateRow (cfg : ExecConfig R) (s : ExecState R) (t : Nat) (operation : RowOperation) :
    Operated R → ExecState R
  | .stopped => { s with
      tasks := s.tasks.set t ⟨false, none, false⟩
      out := s.out ++ [(operation.row, cfg.timeout)] }
  | .suspended => { s with
      tasks := s.tasks.set t ⟨false, some ⟨operation.row, true⟩, false⟩
      started := if operation.opened then s.started else s.started ++ [operation.row] }
  | .finished receipt => { s with
      tasks := s.tasks.set t ⟨false, none, false⟩
      started := if operation.opened then s.started else s.started ++ [operation.row]
      out := s.out ++ [(operation.row, receipt)] }

/-- The step an action takes where it can be taken. -/
def execStep (cfg : ExecConfig R) (s : ExecState R) : ExecAction R → Option (ExecState R)
  | .deny =>
    if s.phase matches .entered ∧ cfg.policiesBound then some (denyAll cfg s) else none
  | .reserve =>
    if s.phase matches .entered ∧ !cfg.policiesBound then some (reserve cfg s) else none
  | .executor =>
    if s.phase matches .reserved then some { s with phase := .scheduling } else none
  | .executorFails =>
    if s.phase matches .reserved then
      some { s with phase := .threw, execTasksRunning := s.execTasksRunning - s.reserved }
    else none
  | .schedule => if s.phase matches .scheduling then some (schedule s) else none
  | .taskFails => if s.phase matches .scheduling then some (taskFails s) else none
  | .scheduleFails => if s.phase matches .scheduling then some (scheduleFails s) else none
  | .interrupted => interrupted s
  | .deadline =>
    if s.phase matches .waiting then some { s with phase := .ending, cancelled := true } else none
  | .woken =>
    if s.phase matches .waiting ∧ s.tasks.length ≤ s.tasksDone then
      some { s with phase := .rows false 0 }
    else none
  | .row =>
    match s.phase with
    | .rows noTask i => some (nextRow cfg s noTask i)
    | _ => none
  | .rowEnds receipt =>
    match s.phase with
    | .rowRunning noTask i =>
      some { s with phase := .rows noTask (i + 1), out := s.out ++ [(i, receipt)] }
    | _ => none
  | .finish =>
    if s.phase matches .ending then some { s with phase := .returned (resultCells cfg s) } else none
  | .enter t => (liveTask s t false).map (enterTask s t)
  | .claim t =>
    match liveTask s t true with
    | some task => if task.operation.isNone then some (claimRow cfg s t task) else none
    | none => none
  | .operate t o =>
    match (liveTask s t true).bind ExecTask.operation with
    | some operation => some (operateRow cfg s t operation o)
    | none => none
  | .cancel t => (liveTask s t false).map (settle s t)
  | .others running =>
    if s.execTasksRunning - s.others + running ≤ cfg.cap then
      some { s with
        others := running, execTasksRunning := s.execTasksRunning - s.others + running }
    else none

def execMachine (cfg : ExecConfig R) : Machine (ExecState R) (ExecAction R) Unit :=
  ⟨fun s a => ((execStep cfg s a).getD s, ())⟩

end

end Quackapi.Exec
