import Quackapi.Library.FirstMatch
import Quackapi.Library.KeyedTable
import Quackapi.Library.Machine
import Quackapi.Util.Str
import Mathlib.Algebra.Group.Int.Defs
import Mathlib.Data.List.Sort

/-! The durable job queue: the `quackapi_jobs` table, the registered queues and the six operations
on them. An operation reads its queue first and without a lock; what it does to the table with that
reading is one step, since a dequeue, ack, nack or renewal does it under the claim mutex and an
enqueue is one statement. Each SQL statement runs in its own transaction and reads `now()` for
itself; the readings are part of the action. `queueMachine` takes both parts of an operation at once. -/

namespace Quackapi.Queue
open Library

abbrev Timestamp := Int

inductive JobStatus
  | pending | running | done | dead
deriving DecidableEq, Repr

/-- A row of `quackapi_jobs`. -/
structure Job where
  id : Int
  queue : Str
  payload : Str
  status : JobStatus
  attempts : Int
  maxAttempts : Int
  visibleAt : Timestamp
  createdAt : Timestamp
  updatedAt : Timestamp
  lastError : Option Str
  deliveryGeneration : Int
  workerId : Option Str
deriving DecidableEq, Repr

/-- `id BIGINT PRIMARY KEY`. -/
abbrev JobsTable := KeyedTable Job.id

structure QuackapiQueue where
  name : Str
  maxAttempts : Int := 3
  visibilityTimeoutSec : Int := 30
  backoffBaseSec : Int := 2
deriving DecidableEq, Repr

/-- The registered queues, the jobs table and the next value of `quackapi_job_seq`. -/
structure QueueState where
  queues : List QuackapiQueue
  jobs : JobsTable
  jobSeq : Int

def initialState : QueueState := ⟨[], .empty, 1⟩

inductive QueueError
  | invalidInput (message : Str)
  /-- `CheckQuery`: the engine refused the statement of this context. -/
  | sqlFailed (context : Str)
deriving DecidableEq, Repr

def toSeconds (n : Int) : Timestamp := n * 1000000

def bigintMax : Int := 9223372036854775807

def getQueue (queues : List QuackapiQueue) (name : Str) : Option QuackapiQueue :=
  findKey QuackapiQueue.name name queues

def requireQueue (queues : List QuackapiQueue) (name : Str) : Except QueueError QuackapiQueue :=
  match getQueue queues name with
  | some q => .ok q
  | none => .error (.invalidInput ("Queue \"".toList ++ name ++
      "\" does not exist — CREATE QUEUE first".toList))

def addQueue (queues : List QuackapiQueue) (queue : QuackapiQueue) (orReplace : Bool) :
    Except QueueError (List QuackapiQueue) :=
  match getQueue queues queue.name with
  | some _ =>
    if orReplace then .ok (replaceKey QuackapiQueue.name queue queues)
    else .error (.invalidInput ("Queue \"".toList ++ queue.name ++
      "\" already exists — use CREATE OR REPLACE QUEUE".toList))
  | none => .ok (queues ++ [queue])

def dropQueue (queues : List QuackapiQueue) (name : Str) :
    Except QueueError (List QuackapiQueue) :=
  match getQueue queues name with
  | some _ => .ok (eraseKey QuackapiQueue.name name queues)
  | none => .error (.invalidInput ("Queue \"".toList ++ name ++ "\" does not exist".toList))

def newJob (id : Int) (queue payload : Str) (maxAttempts : Int) (now : Timestamp) : Job where
  id := id
  queue := queue
  payload := payload
  status := .pending
  attempts := 0
  maxAttempts := maxAttempts
  visibleAt := now
  createdAt := now
  updatedAt := now
  lastError := none
  deliveryGeneration := 0
  workerId := none

def insertJob (s : QueueState) (q : QuackapiQueue) (queue payload : Str)
    (maxAttemptsOverride : Int) (now : Timestamp) : QueueState × Except QueueError Int :=
  let maxAtt := if maxAttemptsOverride > 0 then maxAttemptsOverride else q.maxAttempts
  if maxAtt < 1 then
    (s, .error (.invalidInput "quackapi_enqueue: max_attempts must be >= 1".toList))
  else
    -- nextval is not rolled back, also when the INSERT is refused
    match s.jobs.insert (newJob s.jobSeq queue payload maxAtt now) with
    | none => ({ s with jobSeq := s.jobSeq + 1 }, .error (.sqlFailed "enqueue".toList))
    | some jobs => ({ s with jobs := jobs, jobSeq := s.jobSeq + 1 }, .ok s.jobSeq)

def enqueueJob (s : QueueState) (queue payload : Str) (maxAttemptsOverride : Int)
    (now : Timestamp) : QueueState × Except QueueError Int :=
  match requireQueue s.queues queue with
  | .error e => (s, .error e)
  | .ok q => insertJob s q queue payload maxAttemptsOverride now

/-- The `now()` of the four statements of one dequeue, in execution order. -/
structure DequeueClock where
  called : Timestamp
  exhaustedPending : Timestamp
  exhaustedRunning : Timestamp
  retry : Timestamp
  claim : Timestamp
  called_le : called ≤ exhaustedPending
  pending_le : exhaustedPending ≤ exhaustedRunning
  running_le : exhaustedRunning ≤ retry
  retry_le : retry ≤ claim

/-- A pending row that used up its attempts; only a legacy database contains one. -/
def isExhaustedPending (queue : Str) (j : Job) : Bool :=
  j.queue == queue && j.status == .pending && decide (j.maxAttempts ≤ j.attempts)

def exhaustedPendingRow (now : Timestamp) (j : Job) : Job :=
  { j with
    status := .dead, visibleAt := now, updatedAt := now, workerId := none,
    lastError := some (j.lastError.getD "attempt limit reached before delivery".toList) }

@[simp] theorem exhaustedPendingRow_id (now : Timestamp) (j : Job) :
    (exhaustedPendingRow now j).id = j.id := rfl

def isExpired (queue : Str) (now : Timestamp) (j : Job) : Bool :=
  j.queue == queue && j.status == .running && decide (j.visibleAt ≤ now)

def exhaustedRunningRow (now : Timestamp) (j : Job) : Job :=
  { j with
    status := .dead, visibleAt := now, updatedAt := now, workerId := none,
    lastError := some "visibility lease expired after maximum attempts".toList }

@[simp] theorem exhaustedRunningRow_id (now : Timestamp) (j : Job) :
    (exhaustedRunningRow now j).id = j.id := rfl

def retryRow (now : Timestamp) (j : Job) : Job :=
  { j with status := .pending, visibleAt := now, updatedAt := now, workerId := none }

@[simp] theorem retryRow_id (now : Timestamp) (j : Job) :
    (retryRow now j).id = j.id := rfl

def recoverExpiredJobs (queue : Str) (clock : DequeueClock) (jobs : JobsTable) : JobsTable :=
  ((jobs.update (isExhaustedPending queue) (exhaustedPendingRow clock.exhaustedPending)
      (exhaustedPendingRow_id _)).update
    (fun j => isExpired queue clock.exhaustedRunning j && decide (j.maxAttempts ≤ j.attempts))
      (exhaustedRunningRow clock.exhaustedRunning) (exhaustedRunningRow_id _)).update
    (fun j => isExpired queue clock.retry j && decide (j.attempts < j.maxAttempts))
      (retryRow clock.retry) (retryRow_id _)

def isClaimable (queue : Str) (now : Timestamp) (j : Job) : Bool :=
  j.queue == queue && j.status == .pending && decide (j.attempts < j.maxAttempts) &&
    decide (j.visibleAt ≤ now)

def claimRow (visibilityTimeoutSec : Int) (now : Timestamp) (j : Job) : Job :=
  { j with
    status := .running, attempts := j.attempts + 1,
    deliveryGeneration := j.deliveryGeneration + 1,
    visibleAt := now + toSeconds visibilityTimeoutSec, updatedAt := now, workerId := none }

@[simp] theorem claimRow_id (vt : Int) (now : Timestamp) (j : Job) :
    (claimRow vt now j).id = j.id := rfl

/-- `SELECT id … ORDER BY id LIMIT n`. -/
def claimIds (queue : Str) (n : Int) (now : Timestamp) (jobs : JobsTable) : List Int :=
  (((jobs.rows.filter (isClaimable queue now)).map Job.id).mergeSort (· ≤ ·)).take n.toNat

def isClaimed (queue : Str) (n : Int) (now : Timestamp) (jobs : JobsTable) (j : Job) : Bool :=
  (claimIds queue n now jobs).contains j.id && j.status == .pending

/-- The generation is a `BIGINT`: a claim that would leave its range fails as a whole. Under the
claim mutex no other statement conflicts, so the retry loop runs once. -/
def claimPendingJobs (queue : Str) (visibilityTimeoutSec n : Int) (now : Timestamp)
    (jobs : JobsTable) : Except QueueError (JobsTable × List Job) :=
  let claimed := isClaimed queue n now jobs
  if jobs.rows.any fun j => claimed j && decide (j.deliveryGeneration = bigintMax) then
    .error (.sqlFailed "dequeue".toList)
  else
    .ok (jobs.update claimed (claimRow visibilityTimeoutSec now) (claimRow_id _ _),
      jobs.returning claimed (claimRow visibilityTimeoutSec now))

def sortById (rows : List Job) : List Job := rows.mergeSort fun a b => decide (a.id ≤ b.id)

/-- What a dequeue does under the claim mutex. A claim that fails leaves the recovery in place. -/
def claimUnderMutex (s : QueueState) (q : QuackapiQueue) (queue : Str) (n : Int)
    (clock : DequeueClock) : QueueState × Except QueueError (List Job) :=
  let recovered := recoverExpiredJobs queue clock s.jobs
  match claimPendingJobs queue q.visibilityTimeoutSec n clock.claim recovered with
  | .error e => ({ s with jobs := recovered }, .error e)
  | .ok (jobs, rows) =>
    ({ s with jobs := jobs }, .ok (sortById rows))

/-- `DequeueBind` and `DequeueInit`. -/
def dequeueInit (s : QueueState) (queue : Str) (n : Int) (clock : DequeueClock) :
    QueueState × Except QueueError (List Job) :=
  if n < 1 then (s, .error (.invalidInput "quackapi_dequeue: n must be >= 1".toList))
  else if n > 1000 then (s, .error (.invalidInput "quackapi_dequeue: n max is 1000".toList))
  else
    match requireQueue s.queues queue with
    | .error e => (s, .error e)
    | .ok q => claimUnderMutex s q queue n clock

/-- The fence every delivery transition repeats in its `WHERE` clause. -/
def isHeld (queue : Str) (id generation : Int) (now : Timestamp) (j : Job) : Bool :=
  decide (j.id = id) && j.queue == queue && j.status == .running &&
    decide (j.deliveryGeneration = generation) && decide (now < j.visibleAt)

def ackRow (now : Timestamp) (j : Job) : Job :=
  { j with status := .done, updatedAt := now, workerId := none }

@[simp] theorem ackRow_id (now : Timestamp) (j : Job) :
    (ackRow now j).id = j.id := rfl

def ackHeld (s : QueueState) (queue : Str) (id generation : Int) (now : Timestamp) :
    QueueState × Except QueueError Bool :=
  let held := isHeld queue id generation now
  ({ s with jobs := s.jobs.update held (ackRow now) (ackRow_id _) },
    .ok (decide (0 < (s.jobs.returning held (ackRow now)).length)))

def ackJob (s : QueueState) (queue : Str) (id generation : Int) (now : Timestamp) :
    QueueState × Except QueueError Bool :=
  match requireQueue s.queues queue with
  | .error e => (s, .error e)
  | .ok _ => ackHeld s queue id generation now

/-- `base^min(attempts, 6)`, at most an hour; 0 means an immediate retry. -/
def nackBackoff (backoffBaseSec attempts : Int) : Int :=
  if backoffBaseSec > 0 then min 3600 (backoffBaseSec ^ (max 0 (min attempts 6)).toNat) else 0

inductive NackResult
  | stale
  | status (s : JobStatus)
deriving DecidableEq, Repr

structure NackClock where
  read : Timestamp
  update : Timestamp
  read_le : read ≤ update

def nackError (error : Str) : Str := if error.isEmpty then "nack".toList else error

def nackDeadRow (error : Str) (now : Timestamp) (j : Job) : Job :=
  { j with
    status := .dead, visibleAt := now, lastError := some (nackError error), updatedAt := now,
    workerId := none }

def nackPendingRow (backoff : Int) (error : Str) (now : Timestamp) (j : Job) : Job :=
  { j with
    status := .pending, visibleAt := now + toSeconds backoff,
    lastError := some (nackError error), updatedAt := now, workerId := none }

/-- The row change of a nack whose read saw `attempts` of `maxAttempts`. -/
def nackRow (q : QuackapiQueue) (requeue : Bool) (error : Str) (attempts maxAttempts : Int)
    (now : Timestamp) : Job → Job :=
  if !requeue || decide (maxAttempts ≤ attempts) then nackDeadRow error now
  else nackPendingRow (nackBackoff q.backoffBaseSec attempts) error now

theorem nackRow_id (q : QuackapiQueue) (requeue : Bool) (error : Str)
    (attempts maxAttempts : Int) (now : Timestamp) (j : Job) :
    (nackRow q requeue error attempts maxAttempts now j).id = j.id := by
  unfold nackRow
  split <;> rfl

def nackHeld (s : QueueState) (q : QuackapiQueue) (queue : Str) (id generation : Int)
    (requeue : Bool) (error : Str) (clock : NackClock) :
    QueueState × Except QueueError NackResult :=
  match s.jobs.rows.filter (isHeld queue id generation clock.read) with
  | [] => (s, .ok .stale)
  | r :: _ =>
    let held := isHeld queue id generation clock.update
    let row := nackRow q requeue error r.attempts r.maxAttempts clock.update
    ({ s with jobs := s.jobs.update held row (nackRow_id _ _ _ _ _ _) },
      match s.jobs.returning held row with
      | [] => .ok .stale
      | j :: _ => .ok (.status j.status))

def nackJob (s : QueueState) (queue : Str) (id generation : Int) (requeue : Bool) (error : Str)
    (clock : NackClock) : QueueState × Except QueueError NackResult :=
  match requireQueue s.queues queue with
  | .error e => (s, .error e)
  | .ok q => nackHeld s q queue id generation requeue error clock

def renewRow (visibilityTimeoutSec : Int) (now : Timestamp) (j : Job) : Job :=
  { j with visibleAt := now + toSeconds visibilityTimeoutSec, updatedAt := now }

@[simp] theorem renewRow_id (vt : Int) (now : Timestamp) (j : Job) :
    (renewRow vt now j).id = j.id := rfl

/-- The lease is renewed with the timeout the caller has read, whatever the queue has by now. -/
def renewHeld (s : QueueState) (q : QuackapiQueue) (queue : Str) (id generation : Int)
    (now : Timestamp) : QueueState × Except QueueError Bool :=
  let held := isHeld queue id generation now
  ({ s with
      jobs := s.jobs.update held (renewRow q.visibilityTimeoutSec now) (renewRow_id _ _) },
    .ok (decide (0 < (s.jobs.returning held (renewRow q.visibilityTimeoutSec now)).length)))

def renewJob (s : QueueState) (queue : Str) (id generation : Int) (now : Timestamp) :
    QueueState × Except QueueError Bool :=
  match requireQueue s.queues queue with
  | .error e => (s, .error e)
  | .ok q => renewHeld s q queue id generation now

inductive QueueAction
  | createQueue (queue : QuackapiQueue) (orReplace : Bool)
  | dropQueue (name : Str)
  | enqueue (queue payload : Str) (maxAttemptsOverride : Int) (now : Timestamp)
  | dequeue (queue : Str) (n : Int) (clock : DequeueClock)
  | ack (queue : Str) (id generation : Int) (now : Timestamp)
  | nack (queue : Str) (id generation : Int) (requeue : Bool) (error : Str) (clock : NackClock)
  | renew (queue : Str) (id generation : Int) (now : Timestamp)

inductive QueueReply
  | applied
  | enqueued (id : Int)
  | delivered (rows : List Job)
  | reported (ok : Bool)
  | nacked (result : NackResult)
  | failed (error : QueueError)
deriving DecidableEq

def reply {α : Type} (f : α → QueueReply) : Except QueueError α → QueueReply
  | .ok a => f a
  | .error e => .failed e

def applyQueues (s : QueueState) (queues : Except QueueError (List QuackapiQueue)) :
    QueueState × QueueReply :=
  match queues with
  | .ok qs => ({ s with queues := qs }, .applied)
  | .error e => (s, .failed e)

def queueStep (s : QueueState) : QueueAction → QueueState × QueueReply
  | .createQueue q orReplace => applyQueues s (addQueue s.queues q orReplace)
  | .dropQueue name => applyQueues s (dropQueue s.queues name)
  | .enqueue queue payload maxAtt now =>
    (enqueueJob s queue payload maxAtt now).map id (reply .enqueued)
  | .dequeue queue n clock => (dequeueInit s queue n clock).map id (reply .delivered)
  | .ack queue id' gen now => (ackJob s queue id' gen now).map id (reply .reported)
  | .nack queue id' gen requeue error clock =>
    (nackJob s queue id' gen requeue error clock).map id (reply .nacked)
  | .renew queue id' gen now => (renewJob s queue id' gen now).map id (reply .reported)

def queueMachine : Machine QueueState QueueAction QueueReply := ⟨queueStep⟩

end Quackapi.Queue
