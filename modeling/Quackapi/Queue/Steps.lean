import Quackapi.Queue.Jobs

/-! What one step of the queue can do to one row. Every later invariant is read off `Fate`: a row
is kept, recovered, claimed, acknowledged, returned or renewed, each under the guard of its SQL. -/

namespace Quackapi.Queue
open Library

def sweepRunning (queue : Str) (now : Timestamp) (j : Job) : Job :=
  if isExpired queue now j && decide (j.maxAttempts ≤ j.attempts) then exhaustedRunningRow now j
  else j

def sweepRetry (queue : Str) (now : Timestamp) (j : Job) : Job :=
  if isExpired queue now j && decide (j.attempts < j.maxAttempts) then retryRow now j else j

/-- The three recovery sweeps as they act on one row. -/
def recoverRow (queue : Str) (clock : DequeueClock) (j : Job) : Job :=
  sweepRetry queue clock.retry (sweepRunning queue clock.exhaustedRunning
    (if isExhaustedPending queue j then exhaustedPendingRow clock.exhaustedPending j else j))

theorem recoverExpiredJobs_rows (queue : Str) (clock : DequeueClock) (jobs : JobsTable) :
    (recoverExpiredJobs queue clock jobs).rows = jobs.rows.map (recoverRow queue clock) := by
  simp only [recoverExpiredJobs, KeyedTable.update_rows, List.map_map]
  rfl

theorem sweeps_dead (queue : Str) (now now' : Timestamp) {j : Job} (h : j.status = .dead) :
    sweepRetry queue now' (sweepRunning queue now j) = j := by
  have hexp : ∀ t, isExpired queue t j = false := fun t => by simp [isExpired, h]
  simp [sweepRunning, sweepRetry, hexp]

inductive Recovery (queue : Str) (clock : DequeueClock) (j : Job) : Job → Prop
  | kept (pending : isExhaustedPending queue j = false)
      (running : isExpired queue clock.exhaustedRunning j = true → j.attempts < j.maxAttempts)
      (retry : isExpired queue clock.retry j = true → j.maxAttempts ≤ j.attempts) :
      Recovery queue clock j j
  | exhaustedPending (h : isExhaustedPending queue j = true) :
      Recovery queue clock j (exhaustedPendingRow clock.exhaustedPending j)
  | exhaustedRunning (h : isExpired queue clock.exhaustedRunning j = true)
      (hmax : j.maxAttempts ≤ j.attempts) :
      Recovery queue clock j (exhaustedRunningRow clock.exhaustedRunning j)
  | retried (h : isExpired queue clock.retry j = true) (hmax : j.attempts < j.maxAttempts) :
      Recovery queue clock j (retryRow clock.retry j)

theorem recoverRow_recovery (queue : Str) (clock : DequeueClock) (j : Job) :
    Recovery queue clock j (recoverRow queue clock j) := by
  -- the sweeps in their order; a row that one of them takes is left alone by those behind it
  by_cases hp : isExhaustedPending queue j = true
  · have he : recoverRow queue clock j = exhaustedPendingRow clock.exhaustedPending j := by
      rw [recoverRow, if_pos hp, sweeps_dead]
      rfl
    rw [he]
    exact .exhaustedPending hp
  rw [recoverRow, if_neg hp]
  by_cases hr : isExpired queue clock.exhaustedRunning j = true ∧ j.maxAttempts ≤ j.attempts
  · have he : sweepRunning queue clock.exhaustedRunning j =
        exhaustedRunningRow clock.exhaustedRunning j := by
      simp only [sweepRunning, hr.1, hr.2, decide_true, Bool.and_self, if_true]
    have hd' : sweepRetry queue clock.retry (exhaustedRunningRow clock.exhaustedRunning j) =
        exhaustedRunningRow clock.exhaustedRunning j := by
      simp [sweepRetry, isExpired, exhaustedRunningRow]
    rw [he, hd']
    exact .exhaustedRunning hr.1 hr.2
  have hkeep : sweepRunning queue clock.exhaustedRunning j = j := by
    rw [sweepRunning, if_neg (by simpa using hr)]
  rw [hkeep]
  by_cases ht : isExpired queue clock.retry j = true ∧ j.attempts < j.maxAttempts
  · have he : sweepRetry queue clock.retry j = retryRow clock.retry j := by
      simp only [sweepRetry, ht.1, ht.2, decide_true, Bool.and_self, if_true]
    rw [he]
    exact .retried ht.1 ht.2
  · have he : sweepRetry queue clock.retry j = j := by
      rw [sweepRetry, if_neg (by simpa using ht)]
    rw [he]
    refine .kept (by simpa using hp) (fun h => ?_) (fun h => ?_)
    · exact lt_of_not_ge fun hge => hr ⟨h, hge⟩
    · exact le_of_not_gt fun hlt => ht ⟨h, hlt⟩

/-- What an `UPDATE` of this module never touches. -/
structure SameJob (j j' : Job) : Prop where
  id : j'.id = j.id
  queue : j'.queue = j.queue
  payload : j'.payload = j.payload
  maxAttempts : j'.maxAttempts = j.maxAttempts
  createdAt : j'.createdAt = j.createdAt

theorem SameJob.refl (j : Job) : SameJob j j := ⟨rfl, rfl, rfl, rfl, rfl⟩

theorem SameJob.trans {a b c : Job} (h : SameJob a b) (h' : SameJob b c) : SameJob a c :=
  ⟨h'.id.trans h.id, h'.queue.trans h.queue, h'.payload.trans h.payload,
    h'.maxAttempts.trans h.maxAttempts, h'.createdAt.trans h.createdAt⟩

theorem Recovery.same {queue : Str} {clock : DequeueClock} {j j' : Job}
    (h : Recovery queue clock j j') : SameJob j j' := by
  cases h <;> exact ⟨rfl, rfl, rfl, rfl, rfl⟩

theorem Recovery.attempts {queue : Str} {clock : DequeueClock} {j j' : Job}
    (h : Recovery queue clock j j') : j'.attempts = j.attempts := by
  cases h <;> rfl

theorem Recovery.generation {queue : Str} {clock : DequeueClock} {j j' : Job}
    (h : Recovery queue clock j j') : j'.deliveryGeneration = j.deliveryGeneration := by
  cases h <;> rfl

/-- One step's effect on the row `j`; the last argument tells whether the step delivered it. -/
inductive Fate : QueueAction → Job → Job → Bool → Prop
  | kept (a : QueueAction) (j : Job) (h : ∀ queue n clock, a ≠ .dequeue queue n clock) :
      Fate a j j false
  | refused (queue : Str) (n : Int) (clock : DequeueClock) (j : Job) :
      Fate (.dequeue queue n clock) j j false
  | recovered {queue : Str} {n : Int} {clock : DequeueClock} {j j' : Job}
      (h : Recovery queue clock j j') : Fate (.dequeue queue n clock) j j' false
  | claimed {queue : Str} {n : Int} {clock : DequeueClock} {j j' : Job} (vt : Int)
      (h : Recovery queue clock j j') (hc : isClaimable queue clock.claim j' = true) :
      Fate (.dequeue queue n clock) j (claimRow vt clock.claim j') true
  | acked {queue : Str} {id gen : Int} {now : Timestamp} {j : Job}
      (h : isHeld queue id gen now j = true) : Fate (.ack queue id gen now) j (ackRow now j) false
  | nacked {queue : Str} {id gen : Int} {requeue : Bool} {error : Str} {clock : NackClock}
      {j : Job} (q : QuackapiQueue) (h : isHeld queue id gen clock.update j = true) :
      Fate (.nack queue id gen requeue error clock) j
        (nackRow q requeue error j.attempts j.maxAttempts clock.update j) false
  | renewed {queue : Str} {id gen : Int} {now : Timestamp} {j : Job} (vt : Int)
      (h : isHeld queue id gen now j = true) :
      Fate (.renew queue id gen now) j (renewRow vt now j) false

theorem nackRow_same (q : QuackapiQueue) (requeue : Bool) (error : Str)
    (attempts maxAttempts : Int) (now : Timestamp) (j : Job) :
    SameJob j (nackRow q requeue error attempts maxAttempts now j) := by
  unfold nackRow
  split <;> exact ⟨rfl, rfl, rfl, rfl, rfl⟩

theorem nackRow_attempts (q : QuackapiQueue) (requeue : Bool) (error : Str)
    (attempts maxAttempts : Int) (now : Timestamp) (j : Job) :
    (nackRow q requeue error attempts maxAttempts now j).attempts = j.attempts := by
  unfold nackRow
  split <;> rfl

theorem nackRow_generation (q : QuackapiQueue) (requeue : Bool) (error : Str)
    (attempts maxAttempts : Int) (now : Timestamp) (j : Job) :
    (nackRow q requeue error attempts maxAttempts now j).deliveryGeneration =
      j.deliveryGeneration := by
  unfold nackRow
  split <;> rfl

theorem Fate.same {a : QueueAction} {j j' : Job} {d : Bool} (h : Fate a j j' d) :
    SameJob j j' := by
  cases h with
  | kept | refused => exact .refl j
  | recovered h => exact h.same
  | claimed _ h _ => exact h.same.trans ⟨rfl, rfl, rfl, rfl, rfl⟩
  | acked => exact ⟨rfl, rfl, rfl, rfl, rfl⟩
  | nacked => exact nackRow_same ..
  | renewed => exact ⟨rfl, rfl, rfl, rfl, rfl⟩

theorem Fate.attempts {a : QueueAction} {j j' : Job} {d : Bool} (h : Fate a j j' d) :
    j'.attempts = j.attempts + d.toNat := by
  cases h with
  | kept | refused | acked | renewed => exact (Int.add_zero _).symm
  | recovered h => rw [h.attempts]; exact (Int.add_zero _).symm
  | claimed _ h _ => exact congrArg (· + 1) h.attempts
  | nacked => rw [nackRow_attempts]; exact (Int.add_zero _).symm

theorem Fate.generation {a : QueueAction} {j j' : Job} {d : Bool} (h : Fate a j j' d) :
    j'.deliveryGeneration = j.deliveryGeneration + d.toNat := by
  cases h with
  | kept | refused | acked | renewed => exact (Int.add_zero _).symm
  | recovered h => rw [h.generation]; exact (Int.add_zero _).symm
  | claimed _ h _ => exact congrArg (· + 1) h.generation
  | nacked => rw [nackRow_generation]; exact (Int.add_zero _).symm

theorem Fate.newGeneration {a : QueueAction} {j j' : Job} (h : Fate a j j' true) :
    j'.deliveryGeneration = j.deliveryGeneration + 1 :=
  h.generation

def delivered : QueueReply → List Job
  | .delivered rows => rows
  | _ => []

def deliveredIds (r : QueueReply) : List Int := (delivered r).map Job.id

def enqueuedIds : QueueReply → List Int
  | .enqueued id => [id]
  | _ => []

theorem isClaimed_claimable {queue : Str} {n : Int} {now : Timestamp} {jobs : JobsTable} {j : Job}
    (hj : j ∈ jobs.rows) (h : isClaimed queue n now jobs j = true) :
    isClaimable queue now j = true := by
  simp only [isClaimed, claimIds, Bool.and_eq_true, List.contains_iff_mem] at h
  have hid : j.id ∈ (jobs.rows.filter (isClaimable queue now)).map Job.id :=
    List.mem_mergeSort.mp (List.mem_of_mem_take h.1)
  obtain ⟨r, hr, he⟩ := List.mem_map.mp hid
  obtain ⟨hmem, hclaim⟩ := List.mem_filter.mp hr
  rwa [← jobs.eq_of_key hmem hj he]

def dequeueRow (vt : Int) (queue : Str) (clock : DequeueClock) (claimed : Job → Bool)
    (j : Job) : Job :=
  let r := recoverRow queue clock j
  if claimed r then claimRow vt clock.claim r else r

theorem claimPendingJobs_cases (queue : Str) (vt n : Int) (now : Timestamp) (jobs : JobsTable) :
    claimPendingJobs queue vt n now jobs = .error (.sqlFailed "dequeue".toList) ∨
    claimPendingJobs queue vt n now jobs =
      .ok (jobs.update (isClaimed queue n now jobs) (claimRow vt now) (claimRow_id _ _),
        jobs.returning (isClaimed queue n now jobs) (claimRow vt now)) := by
  simp only [claimPendingJobs]
  split
  · exact .inl rfl
  · exact .inr rfl

theorem dequeueInit_cases (s : QueueState) (queue : Str) (n : Int) (clock : DequeueClock) :
    ((n < 1 ∨ 1000 < n ∨ getQueue s.queues queue = none) ∧
      ∃ e, dequeueInit s queue n clock = (s, .error e)) ∨
    (∃ e, dequeueInit s queue n clock =
      ({ s with jobs := recoverExpiredJobs queue clock s.jobs }, .error e)) ∨
    ∃ q t rows, getQueue s.queues queue = some q ∧
      dequeueInit s queue n clock = ({ s with jobs := t }, .ok rows) ∧
      t.rows = s.jobs.rows.map (dequeueRow q.visibilityTimeoutSec queue clock
        (isClaimed queue n clock.claim (recoverExpiredJobs queue clock s.jobs))) ∧
      rows.Perm ((recoverExpiredJobs queue clock s.jobs).returning
        (isClaimed queue n clock.claim (recoverExpiredJobs queue clock s.jobs))
        (claimRow q.visibilityTimeoutSec clock.claim)) := by
  unfold dequeueInit
  by_cases hlo : n < 1
  · rw [if_pos hlo]
    exact .inl ⟨.inl hlo, _, rfl⟩
  by_cases hhi : n > 1000
  · rw [if_neg hlo, if_pos hhi]
    exact .inl ⟨.inr (.inl hhi), _, rfl⟩
  rw [if_neg hlo, if_neg hhi]
  unfold requireQueue claimUnderMutex
  rcases hq : getQueue s.queues queue with _ | q
  · exact .inl ⟨.inr (.inr rfl), _, rfl⟩
  rcases claimPendingJobs_cases queue q.visibilityTimeoutSec n clock.claim
    (recoverExpiredJobs queue clock s.jobs) with hc | hc
  · refine .inr (.inl ⟨.sqlFailed "dequeue".toList, ?_⟩)
    simp only [hc]
  · refine .inr (.inr ⟨q, _, sortById _, rfl, by simp only [hc]; rfl, ?_,
      List.mergeSort_perm _ _⟩)
    rw [KeyedTable.update_rows, recoverExpiredJobs_rows, List.map_map]
    rfl

/-- A job as `enqueueJob` writes it. -/
structure Fresh (queues : List QuackapiQueue) (j : Job) : Prop where
  registered : ∃ q, getQueue queues j.queue = some q
  status : j.status = .pending
  attempts : j.attempts = 0
  generation : j.deliveryGeneration = 0
  maxAttempts : 1 ≤ j.maxAttempts

/-- The effect of a step on the table: the old rows change by `g`, `new` is appended, and the
reply delivers exactly the rows it says. -/
structure RowEffect (s : QueueState) (a : QueueAction) (t : QueueState) (r : QueueReply)
    (g : Job → Job) (new : List Job) : Prop where
  rows : t.jobs.rows = s.jobs.rows.map g ++ new
  fate : ∀ j ∈ s.jobs.rows, Fate a j (g j) (decide (j.id ∈ deliveredIds r))
  handed : ∀ x ∈ delivered r, ∃ j ∈ s.jobs.rows, x = g j
  nodup : (deliveredIds r).Nodup
  created : new.map Job.id = enqueuedIds r
  fresh : ∀ j ∈ new, Fresh s.queues j

theorem rowEffect_of_update {s t : QueueState} {a : QueueAction} {r : QueueReply} {g : Job → Job}
    (hrows : t.jobs.rows = s.jobs.rows.map g) (hd : delivered r = []) (hn : enqueuedIds r = [])
    (hfate : ∀ j ∈ s.jobs.rows, Fate a j (g j) false) :
    RowEffect s a t r g [] where
  rows := by rw [hrows, List.append_nil]
  fate := fun j hj => by
    rw [deliveredIds, hd]
    exact hfate j hj
  handed := fun x hx => by simp [hd] at hx
  nodup := by rw [deliveredIds, hd]; exact List.nodup_nil
  created := hn.symm
  fresh := fun j hj => by cases hj

theorem rowEffect_of_same {s t : QueueState} {a : QueueAction} {r : QueueReply}
    (hjobs : t.jobs = s.jobs) (hd : delivered r = []) (hn : enqueuedIds r = [])
    (hfate : ∀ j ∈ s.jobs.rows, Fate a j j false) : RowEffect s a t r id [] :=
  rowEffect_of_update (by rw [hjobs, List.map_id]) hd hn hfate

theorem rowEffect_of_guarded {s t : QueueState} {a : QueueAction} {r : QueueReply}
    {guard : Job → Bool} {row : Job → Job} (hid : ∀ j, (row j).id = j.id)
    (hjobs : t.jobs = s.jobs.update guard row hid) (hd : delivered r = []) (hn : enqueuedIds r = [])
    (ha : ∀ queue n clock, a ≠ .dequeue queue n clock)
    (hfate : ∀ j ∈ s.jobs.rows, guard j = true → Fate a j (row j) false) :
    ∃ g new, RowEffect s a t r g new := by
  have hrows : t.jobs.rows = s.jobs.rows.map fun j => if guard j then row j else j := by
    rw [hjobs, KeyedTable.update_rows]
  refine ⟨_, _, rowEffect_of_update hrows hd hn fun j hj => ?_⟩
  by_cases hg : guard j = true
  · rw [if_pos hg]
    exact hfate j hj hg
  · rw [if_neg hg]
    exact .kept a j ha

theorem requireQueue_cases (queues : List QuackapiQueue) (name : Str) :
    (getQueue queues name = none ∧ ∃ e, requireQueue queues name = .error e) ∨
      ∃ q, getQueue queues name = some q ∧ requireQueue queues name = .ok q := by
  unfold requireQueue
  rcases getQueue queues name with _ | q
  · exact .inl ⟨rfl, _, rfl⟩
  · exact .inr ⟨q, rfl, rfl⟩

theorem enqueue_effect (s : QueueState) (queue payload : Str) (maxAtt : Int) (now : Timestamp) :
    ∃ g new, RowEffect s (.enqueue queue payload maxAtt now)
      (queueStep s (.enqueue queue payload maxAtt now)).1
      (queueStep s (.enqueue queue payload maxAtt now)).2 g new := by
  have hsame : ∀ (t : QueueState) (e : QueueError), t.jobs = s.jobs →
      RowEffect s (.enqueue queue payload maxAtt now) t (.failed e) id [] := fun t e ht =>
    rowEffect_of_same ht rfl rfl fun j _ => .kept _ j fun _ _ _ h => by cases h
  simp only [queueStep, enqueueJob]
  rcases requireQueue_cases s.queues queue with ⟨_, e, he⟩ | ⟨q, hreg, hq⟩
  · simp only [he]
    exact ⟨_, _, hsame s e rfl⟩
  simp only [hq, insertJob]
  generalize (if maxAtt > 0 then maxAtt else q.maxAttempts) = m
  by_cases hmax : m < 1
  · simp only [if_pos hmax]
    exact ⟨_, _, hsame s _ rfl⟩
  simp only [if_neg hmax]
  rcases hi : s.jobs.insert (newJob s.jobSeq queue payload m now) with _ | t
  · exact ⟨_, _, hsame _ _ rfl⟩
  · refine ⟨id, [newJob s.jobSeq queue payload m now], ?_⟩
    exact {
      rows := by rw [List.map_id]; exact (KeyedTable.insert_eq_some hi).1
      fate := fun j _ => .kept _ j fun _ _ _ h => by cases h
      handed := fun x hx => by cases hx
      nodup := List.nodup_nil
      created := rfl
      fresh := fun j hj => by
        rw [List.mem_singleton.mp hj]
        exact ⟨⟨q, hreg⟩, rfl, rfl, rfl, not_lt.mp hmax⟩ }

theorem ack_effect (s : QueueState) (queue : Str) (id' gen : Int) (now : Timestamp) :
    ∃ g new, RowEffect s (.ack queue id' gen now) (queueStep s (.ack queue id' gen now)).1
      (queueStep s (.ack queue id' gen now)).2 g new := by
  have ha : ∀ q n clock, QueueAction.ack queue id' gen now ≠ .dequeue q n clock := fun _ _ _ => nofun
  simp only [queueStep, ackJob]
  rcases requireQueue_cases s.queues queue with ⟨_, e, he⟩ | ⟨q, _, hq⟩
  · simp only [he]
    exact ⟨_, _, rowEffect_of_same rfl rfl rfl fun j _ => .kept _ j ha⟩
  · simp only [hq, ackHeld]
    exact rowEffect_of_guarded (ackRow_id _) rfl rfl rfl ha fun j _ hh => .acked hh

theorem renew_effect (s : QueueState) (queue : Str) (id' gen : Int) (now : Timestamp) :
    ∃ g new, RowEffect s (.renew queue id' gen now) (queueStep s (.renew queue id' gen now)).1
      (queueStep s (.renew queue id' gen now)).2 g new := by
  have ha : ∀ q n clock, QueueAction.renew queue id' gen now ≠ .dequeue q n clock :=
    fun _ _ _ => nofun
  simp only [queueStep, renewJob]
  rcases requireQueue_cases s.queues queue with ⟨_, e, he⟩ | ⟨q, _, hq⟩
  · simp only [he]
    exact ⟨_, _, rowEffect_of_same rfl rfl rfl fun j _ => .kept _ j ha⟩
  · simp only [hq, renewHeld]
    exact rowEffect_of_guarded (renewRow_id _ _) rfl rfl rfl ha fun j _ hh => .renewed _ hh

theorem eq_of_isHeld {s : QueueState} {queue : Str} {id' gen : Int} {now now' : Timestamp}
    {j j' : Job} (hj : j ∈ s.jobs.rows) (hj' : j' ∈ s.jobs.rows)
    (h : isHeld queue id' gen now j = true) (h' : isHeld queue id' gen now' j' = true) : j = j' := by
  simp only [isHeld, Bool.and_eq_true, decide_eq_true_eq] at h h'
  exact s.jobs.eq_of_key hj hj' (h.1.1.1.1.trans h'.1.1.1.1.symm)

theorem nack_effect (s : QueueState) (queue : Str) (id' gen : Int) (requeue : Bool) (error : Str)
    (clock : NackClock) :
    ∃ g new, RowEffect s (.nack queue id' gen requeue error clock)
      (queueStep s (.nack queue id' gen requeue error clock)).1
      (queueStep s (.nack queue id' gen requeue error clock)).2 g new := by
  have ha : ∀ q n c, QueueAction.nack queue id' gen requeue error clock ≠ .dequeue q n c :=
    fun _ _ _ => nofun
  simp only [queueStep, nackJob]
  rcases requireQueue_cases s.queues queue with ⟨_, e, he⟩ | ⟨q, _, hq⟩
  · simp only [he]
    exact ⟨_, _, rowEffect_of_same rfl rfl rfl fun j _ => .kept _ j ha⟩
  simp only [hq, nackHeld]
  rcases hread : s.jobs.rows.filter (isHeld queue id' gen clock.read) with _ | ⟨r, rest⟩
  · exact ⟨_, _, rowEffect_of_same rfl rfl rfl fun j _ => .kept _ j ha⟩
  · have hr : r ∈ s.jobs.rows ∧ isHeld queue id' gen clock.read r = true :=
      List.mem_filter.mp (hread ▸ List.mem_cons_self)
    refine rowEffect_of_guarded (nackRow_id _ _ _ _ _ _) rfl ?_ ?_ ha fun j hj hh => ?_
    · simp only [Prod.map_snd]
      split <;> rfl
    · simp only [Prod.map_snd]
      split <;> rfl
    · -- the row the update changes is the one the read saw, so the attempts are its own
      rw [eq_of_isHeld hr.1 hj hr.2 hh]
      exact .nacked q hh

theorem dequeue_effect (s : QueueState) (queue : Str) (n : Int) (clock : DequeueClock) :
    ∃ g new, RowEffect s (.dequeue queue n clock) (queueStep s (.dequeue queue n clock)).1
      (queueStep s (.dequeue queue n clock)).2 g new := by
  simp only [queueStep]
  rcases dequeueInit_cases s queue n clock with ⟨_, e, he⟩ | ⟨e, he⟩ | ⟨q, t, out, _, he, ht, hout⟩
  · rw [he]
    exact ⟨_, _, rowEffect_of_same rfl rfl rfl fun j _ => .refused ..⟩
  · rw [he]
    exact ⟨_, _, rowEffect_of_update (recoverExpiredJobs_rows ..) rfl rfl
      fun j _ => .recovered (recoverRow_recovery ..)⟩
  rw [he]
  set recovered := recoverExpiredJobs queue clock s.jobs with hrec
  set claimed := isClaimed queue n clock.claim recovered with hclaimed
  have hmem : ∀ j ∈ s.jobs.rows, recoverRow queue clock j ∈ recovered.rows := fun j hj => by
    rw [hrec, recoverExpiredJobs_rows]
    exact List.mem_map_of_mem hj
  have hids : (out.map Job.id).Perm ((recovered.rows.filter claimed).map Job.id) := by
    have h := hout.map Job.id
    rwa [KeyedTable.returning, List.map_map] at h
  -- recovery keeps ids, so a row is delivered when its recovered form is claimed
  have hdel : ∀ j ∈ s.jobs.rows,
      (j.id ∈ out.map Job.id ↔ claimed (recoverRow queue clock j) = true) := by
    intro j hj
    rw [hids.mem_iff]
    constructor
    · intro h
      obtain ⟨r, hr, hid⟩ := List.mem_map.mp h
      obtain ⟨hrm, hrc⟩ := List.mem_filter.mp hr
      have hsame : r = recoverRow queue clock j := recovered.eq_of_key hrm (hmem j hj)
        (hid.trans (recoverRow_recovery queue clock j).same.id.symm)
      rwa [← hsame]
    · intro h
      exact List.mem_map.mpr ⟨_, List.mem_filter.mpr ⟨hmem j hj, h⟩,
        (recoverRow_recovery queue clock j).same.id⟩
  refine ⟨dequeueRow q.visibilityTimeoutSec queue clock claimed, [], ?_⟩
  exact {
    rows := by rw [List.append_nil]; exact ht
    fate := fun j hj => by
      have hrecov := recoverRow_recovery queue clock j
      simp only [Prod.map_snd, reply, deliveredIds, delivered, hdel j hj, dequeueRow]
      by_cases hc : claimed (recoverRow queue clock j) = true
      · rw [if_pos hc, decide_eq_true hc]
        exact .claimed _ hrecov (isClaimed_claimable (hmem j hj) hc)
      · rw [if_neg hc, decide_eq_false hc]
        exact .recovered hrecov
    handed := fun x hx => by
      obtain ⟨r, hr, hc, rfl⟩ := KeyedTable.mem_returning.mp (hout.mem_iff.mp hx)
      rw [hrec, recoverExpiredJobs_rows] at hr
      obtain ⟨j, hj, rfl⟩ := List.mem_map.mp hr
      exact ⟨j, hj, by simp only [dequeueRow, if_pos hc]⟩
    nodup := hids.nodup_iff.mpr (recovered.primaryKey.sublist (List.filter_sublist.map _))
    created := rfl
    fresh := fun j hj => by cases hj }

theorem registry_effect (s : QueueState) (a : QueueAction) (qs : Except QueueError _)
    (ha : ∀ queue n clock, a ≠ .dequeue queue n clock) :
    ∃ g new, RowEffect s a (applyQueues s qs).1 (applyQueues s qs).2 g new := by
  have hfate : ∀ j ∈ s.jobs.rows, Fate a j j false := fun j _ => .kept a j ha
  rcases qs with e | qs
  · exact ⟨_, _, rowEffect_of_same rfl rfl rfl hfate⟩
  · exact ⟨_, _, rowEffect_of_same rfl rfl rfl hfate⟩

theorem queueStep_effect (s : QueueState) (a : QueueAction) :
    ∃ g new, RowEffect s a (queueStep s a).1 (queueStep s a).2 g new := by
  cases a with
  | createQueue q orReplace => exact registry_effect _ _ _ fun _ _ _ h => by cases h
  | dropQueue name => exact registry_effect _ _ _ fun _ _ _ h => by cases h
  | enqueue queue payload maxAtt now => exact enqueue_effect ..
  | dequeue queue n clock => exact dequeue_effect ..
  | ack queue id' gen now => exact ack_effect ..
  | nack queue id' gen requeue error clock => exact nack_effect ..
  | renew queue id' gen now => exact renew_effect ..

theorem step_fate {s : QueueState} {j : Job} (a : QueueAction) (hj : j ∈ s.jobs.rows) :
    ∃ j' ∈ (queueStep s a).1.jobs.rows,
      Fate a j j' (decide (j.id ∈ deliveredIds (queueStep s a).2)) := by
  obtain ⟨g, new, h⟩ := queueStep_effect s a
  refine ⟨g j, ?_, h.fate j hj⟩
  rw [h.rows]
  exact List.mem_append_left _ (List.mem_map_of_mem hj)

theorem step_origin {s : QueueState} {a : QueueAction} {j' : Job}
    (hj' : j' ∈ (queueStep s a).1.jobs.rows) :
    (∃ j ∈ s.jobs.rows, Fate a j j' (decide (j.id ∈ deliveredIds (queueStep s a).2))) ∨
      (j'.id ∈ enqueuedIds (queueStep s a).2 ∧ Fresh s.queues j') := by
  obtain ⟨g, new, h⟩ := queueStep_effect s a
  rw [h.rows] at hj'
  rcases List.mem_append.mp hj' with hm | hn
  · obtain ⟨j, hj, rfl⟩ := List.mem_map.mp hm
    exact .inl ⟨j, hj, h.fate j hj⟩
  · refine .inr ⟨?_, h.fresh j' hn⟩
    rw [← h.created]
    exact List.mem_map_of_mem hn

theorem step_delivered {s : QueueState} {a : QueueAction} {x : Job}
    (hx : x ∈ delivered (queueStep s a).2) :
    x ∈ (queueStep s a).1.jobs.rows ∧ ∃ j ∈ s.jobs.rows, j.id = x.id ∧ Fate a j x true := by
  obtain ⟨g, new, h⟩ := queueStep_effect s a
  obtain ⟨j, hj, rfl⟩ := h.handed x hx
  have hf := h.fate j hj
  have hid : j.id ∈ deliveredIds (queueStep s a).2 := by
    rw [← hf.same.id]
    exact List.mem_map_of_mem hx
  rw [decide_eq_true hid] at hf
  refine ⟨?_, j, hj, hf.same.id.symm, hf⟩
  rw [h.rows]
  exact List.mem_append_left _ (List.mem_map_of_mem hj)

theorem deliveredIds_nodup (s : QueueState) (a : QueueAction) :
    (deliveredIds (queueStep s a).2).Nodup := by
  obtain ⟨g, new, h⟩ := queueStep_effect s a
  exact h.nodup

theorem step_ids (s : QueueState) (a : QueueAction) :
    (queueStep s a).1.jobs.rows.map Job.id =
      s.jobs.rows.map Job.id ++ enqueuedIds (queueStep s a).2 := by
  obtain ⟨g, new, h⟩ := queueStep_effect s a
  have hold : s.jobs.rows.map (Job.id ∘ g) = s.jobs.rows.map Job.id :=
    List.map_congr_left fun j hj => (h.fate j hj).same.id
  rw [h.rows, List.map_append, List.map_map, hold, h.created]

end Quackapi.Queue
