import Quackapi.Library.Machine
import Quackapi.Library.Slots
import Quackapi.Util.Str

/-! One request for each row of a chunk, several at a time: the calling thread, the tasks it has
scheduled on the engine's executor, and the cursor they share. Each action is one atomic step of one
of them, so a run is an interleaving. -/

namespace Quackapi.Outbound
open Library

def maxOutboundFanout : Nat := 32

/-- How `perform(i)` ends. -/
inductive Performed (R : Type)
  | response (r : R)
  | exception (what : Str)
  | unknownException
deriving DecidableEq

structure FanOutConfig (R : Type) where
  skip : List Bool
  /-- A fresh result with this `request_error`. -/
  failed : Str → R

inductive FanOutPoint
  | scheduled
  /-- Before `BlockingInterruptCheck`. -/
  | checking
  | claiming
  | performing (row : Nat)
  | settled
deriving DecidableEq, Repr

inductive FanOutPhase
  | entered
  /-- The only row that has a request is looked for. -/
  | inline
  | inlinePerforming (row : Nat)
  | scheduling
  | working
  | ending
  | returned
  | threw
deriving DecidableEq, Repr

structure FanOutState (R : Type) where
  phase : FanOutPhase
  tasks : List FanOutPoint
  /-- The next row: the shared `cursor`, or the index of the loop that needs no task. -/
  cursor : Nat
  /-- A task has thrown, and the executor keeps its error. -/
  hasError : Bool
  /-- The rows whose request was begun, oldest first. -/
  performed : List Nat
  out : List (Nat × R)
deriving DecidableEq

section
variable {R : Type}

inductive FanOutAction (R : Type)
  -- the calling thread
  | enter (interrupted : Bool) | next | nextDone (p : Performed R) | schedule
  | drained | finish (interrupted : Bool)
  -- a thread of the executor, at a task
  | start (task : Nat) | check (task : Nat) (interrupted : Bool) | claim (task : Nat)
  | performDone (task : Nat) (p : Performed R)
deriving DecidableEq

def newFanOut : FanOutState R := ⟨.entered, [], 0, false, [], []⟩

/-- What `run_one` leaves in `out[i]`. -/
def runOne (cfg : FanOutConfig R) : Performed R → R
  | .response r => r
  | .exception what => cfg.failed what
  | .unknownException => cfg.failed "unknown error during outbound HTTP request".toList

def activeRows (cfg : FanOutConfig R) : Nat := cfg.skip.countP fun skipped => !skipped

def nTasks (cfg : FanOutConfig R) : Nat :=
  if activeRows cfg < maxOutboundFanout then activeRows cfg else maxOutboundFanout

def enterFanOut (cfg : FanOutConfig R) (s : FanOutState R) (interrupted : Bool) : FanOutState R :=
  if interrupted then { s with phase := .threw }
  else if activeRows cfg = 0 then { s with phase := .returned }
  else if activeRows cfg = 1 then { s with phase := .inline }
  else { s with phase := .scheduling }

/-- The loop's next row, when no task is needed. -/
def nextInline (cfg : FanOutConfig R) (s : FanOutState R) : FanOutState R :=
  match cfg.skip[s.cursor]? with
  | none => { s with phase := .ending }
  | some true => { s with cursor := s.cursor + 1 }
  | some false =>
    { s with
      phase := .inlinePerforming s.cursor
      cursor := s.cursor + 1
      performed := s.performed ++ [s.cursor] }

def scheduleTask (cfg : FanOutConfig R) (s : FanOutState R) : FanOutState R :=
  if s.tasks.length < nTasks cfg then { s with tasks := s.tasks ++ [.scheduled] }
  else { s with phase := .working }

def setTask (s : FanOutState R) (t : Nat) (point : FanOutPoint) : FanOutState R :=
  { s with tasks := s.tasks.set t point }

/-- `fetch_add`, and what the task does with the row it returns. -/
def claimNext (cfg : FanOutConfig R) (s : FanOutState R) (t : Nat) : FanOutState R :=
  match cfg.skip[s.cursor]? with
  | none => { setTask s t .settled with cursor := s.cursor + 1 }
  | some true => { setTask s t .checking with cursor := s.cursor + 1 }
  | some false =>
    { setTask s t (.performing s.cursor) with
      cursor := s.cursor + 1
      performed := s.performed ++ [s.cursor] }

/-- The step that is taken, where the thread that takes it has come so far. -/
def fanOutStep (cfg : FanOutConfig R) (s : FanOutState R) : FanOutAction R → Option (FanOutState R)
  | .enter interrupted =>
    if s.phase = .entered then some (enterFanOut cfg s interrupted) else none
  | .next => if s.phase = .inline then some (nextInline cfg s) else none
  | .nextDone p =>
    match s.phase with
    | .inlinePerforming row =>
      some { s with phase := .inline, out := s.out ++ [(row, runOne cfg p)] }
    | _ => none
  | .schedule => if s.phase = .scheduling then some (scheduleTask cfg s) else none
  -- `WorkOnTasks` returns when every task is over, and throws the error of one
  | .drained =>
    if s.phase = .working ∧ ∀ point ∈ s.tasks, point = .settled then
      some { s with phase := if s.hasError then .threw else .ending }
    else none
  | .finish interrupted =>
    if s.phase = .ending then some { s with phase := if interrupted then .threw else .returned }
    else none
  -- after another task's error the executor ends a task without running it
  | .start t =>
    if s.tasks[t]? = some .scheduled then
      some (setTask s t (if s.hasError then .settled else .checking))
    else none
  | .check t interrupted =>
    if s.tasks[t]? = some .checking then
      if interrupted then some { setTask s t .settled with hasError := true }
      else some (setTask s t .claiming)
    else none
  | .claim t => if s.tasks[t]? = some .claiming then some (claimNext cfg s t) else none
  | .performDone t p =>
    match s.tasks[t]? with
    | some (.performing row) =>
      some { setTask s t .checking with out := s.out ++ [(row, runOne cfg p)] }
    | _ => none

/-- Each action with whether it was one the threads could take. -/
def fanOutMachine (cfg : FanOutConfig R) : Machine (FanOutState R) (FanOutAction R) Bool :=
  ⟨fun s a => ((fanOutStep cfg s a).getD s, (fanOutStep cfg s a).isSome)⟩

/-- `PostScalar`'s cells: NULL for a skipped row, `out[i]` for another. -/
def postCells (cfg : FanOutConfig R) (s : FanOutState R) : List (Option R) :=
  cfg.skip.mapIdx fun i skipped =>
    if skipped then none
    else some (((s.out.find? fun p => p.1 = i).map Prod.snd).getD (cfg.failed []))

def FanOutPoint.row : FanOutPoint → Option Nat
  | .performing row => some row
  | _ => none

def FanOutPhase.rows : FanOutPhase → List Nat
  | .inlinePerforming row => [row]
  | _ => []

def rowsInFlight (s : FanOutState R) : List Nat := s.phase.rows ++ s.tasks.filterMap FanOutPoint.row

def rowsDone (s : FanOutState R) : List Nat := s.out.map Prod.fst

end

end Quackapi.Outbound
