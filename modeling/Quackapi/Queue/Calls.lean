import Quackapi.Queue.Steps

/-! A caller's operation in the two parts it has: its `RequireQueue`, which takes no lock, and, over
what that returned, the rest. Registry statements and the operations of other callers may come
between the two. On the table the second part is the whole operation where the registry is what the
caller has read, so `Fate` says what it does to a row. -/

namespace Quackapi.Queue
open Library

structure CallState extends QueueState where
  /-- What the callers that are between the two parts have read. -/
  read : Nat → Option QuackapiQueue

def initialCalls : CallState := ⟨initialState, fun _ => none⟩

inductive CallAction
  | createQueue (queue : QuackapiQueue) (orReplace : Bool)
  | dropQueue (name : Str)
  | requireQueue (caller : Nat) (queue : Str)
  | enqueue (caller : Nat) (payload : Str) (maxAttemptsOverride : Int) (now : Timestamp)
  | dequeue (caller : Nat) (n : Int) (clock : DequeueClock)
  | ack (caller : Nat) (id generation : Int) (now : Timestamp)
  | nack (caller : Nat) (id generation : Int) (requeue : Bool) (error : Str) (clock : NackClock)
  | renew (caller : Nat) (id generation : Int) (now : Timestamp)

/-- The second part of the operation of `caller`; nothing where it is at none. The queue it names is
the one it has read. -/
def CallState.proceed {α : Type} (s : CallState) (caller : Nat) (f : α → QueueReply)
    (rest : QuackapiQueue → QueueState × Except QueueError α) : CallState × QueueReply :=
  match s.read caller with
  | none => (s, .applied)
  | some q =>
    (⟨(rest q).1, Function.update s.read caller none⟩, reply f (rest q).2)

def callStep (s : CallState) : CallAction → CallState × QueueReply
  | .createQueue q orReplace =>
    (applyQueues s.toQueueState (addQueue s.queues q orReplace)).map (⟨·, s.read⟩) id
  | .dropQueue name =>
    (applyQueues s.toQueueState (dropQueue s.queues name)).map (⟨·, s.read⟩) id
  | .requireQueue caller queue =>
    match requireQueue s.queues queue with
    | .ok q => ({ s with read := Function.update s.read caller (some q) }, .applied)
    | .error e => (s, .failed e)
  | .enqueue caller payload maxAtt now => s.proceed caller .enqueued fun q =>
    insertJob s.toQueueState q q.name payload maxAtt now
  | .dequeue caller n clock => s.proceed caller .delivered fun q =>
    -- `DequeueBind` has refused such an `n` before the read; either way nothing is changed
    if n < 1 then
      (s.toQueueState, .error (.invalidInput "quackapi_dequeue: n must be >= 1".toList))
    else if n > 1000 then
      (s.toQueueState, .error (.invalidInput "quackapi_dequeue: n max is 1000".toList))
    else claimUnderMutex s.toQueueState q q.name n clock
  | .ack caller id' gen now => s.proceed caller .reported fun q =>
    ackHeld s.toQueueState q.name id' gen now
  | .nack caller id' gen requeue error clock => s.proceed caller .nacked fun q =>
    nackHeld s.toQueueState q q.name id' gen requeue error clock
  | .renew caller id' gen now => s.proceed caller .reported fun q =>
    renewHeld s.toQueueState q q.name id' gen now

def callMachine : Machine CallState CallAction QueueReply := ⟨callStep⟩

def CallState.asRead (s : CallState) (q : QuackapiQueue) : QueueState :=
  { s.toQueueState with queues := [q] }

/-- The caller of a second part, and the operation it is part of. -/
def CallAction.operation (queue : Str) : CallAction → Option (Nat × QueueAction)
  | .createQueue .. | .dropQueue _ | .requireQueue .. => none
  | .enqueue caller payload maxAtt now => some (caller, .enqueue queue payload maxAtt now)
  | .dequeue caller n clock => some (caller, .dequeue queue n clock)
  | .ack caller id gen now => some (caller, .ack queue id gen now)
  | .nack caller id gen requeue error clock =>
    some (caller, .nack queue id gen requeue error clock)
  | .renew caller id gen now => some (caller, .renew queue id gen now)

theorem getQueue_singleton (q : QuackapiQueue) : getQueue [q] q.name = some q := by
  simp [getQueue, findKey]

theorem requireQueue_singleton (q : QuackapiQueue) : requireQueue [q] q.name = .ok q := by
  rw [requireQueue, getQueue_singleton]

theorem CallState.proceed_some {α : Type} {s : CallState} {caller : Nat} {q : QuackapiQueue}
    (h : s.read caller = some q) (f : α → QueueReply)
    (rest : QuackapiQueue → QueueState × Except QueueError α) :
    s.proceed caller f rest =
      (⟨(rest q).1, Function.update s.read caller none⟩, reply f (rest q).2) := by
  rw [CallState.proceed, h]

theorem CallState.proceed_none {α : Type} {s : CallState} {caller : Nat}
    (h : s.read caller = none) (f : α → QueueReply)
    (rest : QuackapiQueue → QueueState × Except QueueError α) :
    s.proceed caller f rest = (s, .applied) := by
  rw [CallState.proceed, h]

section
variable (s : CallState) (q : QuackapiQueue)

theorem insertJob_asRead (queue payload : Str) (maxAtt : Int) (now : Timestamp) :
    (insertJob s.toQueueState q queue payload maxAtt now).1.jobs =
        (insertJob (s.asRead q) q queue payload maxAtt now).1.jobs ∧
      (insertJob s.toQueueState q queue payload maxAtt now).2 =
        (insertJob (s.asRead q) q queue payload maxAtt now).2 := by
  simp only [insertJob, CallState.asRead]
  generalize (if maxAtt > 0 then maxAtt else q.maxAttempts) = m
  by_cases hmax : m < 1
  · simp only [if_pos hmax, and_self]
  · simp only [if_neg hmax]
    split <;> exact ⟨rfl, rfl⟩

theorem claimUnderMutex_asRead (queue : Str) (n : Int) (clock : DequeueClock) :
    (claimUnderMutex s.toQueueState q queue n clock).1.jobs =
        (claimUnderMutex (s.asRead q) q queue n clock).1.jobs ∧
      (claimUnderMutex s.toQueueState q queue n clock).2 =
        (claimUnderMutex (s.asRead q) q queue n clock).2 := by
  simp only [claimUnderMutex, CallState.asRead]
  split <;> exact ⟨rfl, rfl⟩

theorem nackHeld_asRead (queue : Str) (id generation : Int) (requeue : Bool) (error : Str)
    (clock : NackClock) :
    (nackHeld s.toQueueState q queue id generation requeue error clock).1.jobs =
        (nackHeld (s.asRead q) q queue id generation requeue error clock).1.jobs ∧
      (nackHeld s.toQueueState q queue id generation requeue error clock).2 =
        (nackHeld (s.asRead q) q queue id generation requeue error clock).2 := by
  simp only [nackHeld, CallState.asRead]
  split <;> exact ⟨rfl, rfl⟩

end

/-- A second part does to the table, and answers, what its operation does where the registry is what
the caller has read. -/
theorem callStep_operation {s : CallState} {a : CallAction} {caller : Nat} {q : QuackapiQueue}
    {b : QueueAction} (hread : s.read caller = some q)
    (hb : a.operation q.name = some (caller, b)) :
    (callStep s a).1.jobs = (queueStep (s.asRead q) b).1.jobs ∧
      (callStep s a).2 = (queueStep (s.asRead q) b).2 := by
  have hreq : requireQueue (s.asRead q).queues q.name = .ok q := requireQueue_singleton q
  cases a with
  | createQueue | dropQueue | requireQueue => cases hb
  | enqueue _ payload maxAtt now =>
    cases hb
    simp only [callStep, CallState.proceed_some hread, queueStep, enqueueJob, hreq]
    exact (insertJob_asRead s q q.name payload maxAtt now).imp id (congrArg (reply .enqueued))
  | dequeue _ n clock =>
    cases hb
    simp only [callStep, CallState.proceed_some hread, queueStep, dequeueInit, hreq]
    split_ifs
    · exact ⟨rfl, rfl⟩
    · exact ⟨rfl, rfl⟩
    · exact (claimUnderMutex_asRead s q q.name n clock).imp id (congrArg (reply .delivered))
  | ack _ id' gen now =>
    cases hb
    simp only [callStep, CallState.proceed_some hread, queueStep, ackJob, hreq]
    exact ⟨rfl, rfl⟩
  | nack _ id' gen requeue error clock =>
    cases hb
    simp only [callStep, CallState.proceed_some hread, queueStep, nackJob, hreq]
    exact (nackHeld_asRead s q q.name id' gen requeue error clock).imp id
      (congrArg (reply .nacked))
  | renew _ id' gen now =>
    cases hb
    simp only [callStep, CallState.proceed_some hread, queueStep, renewJob, hreq]
    exact ⟨rfl, rfl⟩

theorem callStep_cases (s : CallState) (a : CallAction) :
    ((callStep s a).1.jobs = s.jobs ∧ delivered (callStep s a).2 = []) ∨
      ∃ caller q b, s.read caller = some q ∧ a.operation q.name = some (caller, b) := by
  have hsecond : ∀ {α : Type} (caller : Nat) (f : α → QueueReply)
      (rest : QuackapiQueue → QueueState × Except QueueError α),
      callStep s a = s.proceed caller f rest →
        (∀ queue, ∃ b, a.operation queue = some (caller, b)) →
        ((callStep s a).1.jobs = s.jobs ∧ delivered (callStep s a).2 = []) ∨
          ∃ caller q b, s.read caller = some q ∧ a.operation q.name = some (caller, b) := by
    intro α caller f rest hstep hop
    rcases hread : s.read caller with _ | q
    · rw [hstep, CallState.proceed_none hread]
      exact .inl ⟨rfl, rfl⟩
    · obtain ⟨b, hb⟩ := hop q.name
      exact .inr ⟨caller, q, b, hread, hb⟩
  cases a with
  | createQueue q orReplace =>
    left
    simp only [callStep, Prod.map_fst, Prod.map_snd, id_eq]
    rcases addQueue s.queues q orReplace with e | qs
    · exact ⟨rfl, rfl⟩
    · exact ⟨rfl, rfl⟩
  | dropQueue name =>
    left
    simp only [callStep, Prod.map_fst, Prod.map_snd, id_eq]
    rcases dropQueue s.queues name with e | qs
    · exact ⟨rfl, rfl⟩
    · exact ⟨rfl, rfl⟩
  | requireQueue caller queue =>
    left
    simp only [callStep]
    rcases requireQueue s.queues queue with e | q
    · exact ⟨rfl, rfl⟩
    · exact ⟨rfl, rfl⟩
  | enqueue => exact hsecond _ _ _ rfl fun _ => ⟨_, rfl⟩
  | dequeue => exact hsecond _ _ _ rfl fun _ => ⟨_, rfl⟩
  | ack => exact hsecond _ _ _ rfl fun _ => ⟨_, rfl⟩
  | nack => exact hsecond _ _ _ rfl fun _ => ⟨_, rfl⟩
  | renew => exact hsecond _ _ _ rfl fun _ => ⟨_, rfl⟩

end Quackapi.Queue
