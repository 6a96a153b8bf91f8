import Quackapi.Queue.Fencing

/-! The life of a job, from its enqueue to `done` or `dead`: attempts count the deliveries and never
pass the bound, an exhausted job is buried by its nack or by the next dequeue, and a terminal row
is final. -/

namespace Quackapi.Queue
open Library

/-- What a row satisfies in every reachable state. A pending row still has an attempt left, so an
exhausted one is running or terminal. -/
structure Sound (j : Job) : Prop where
  nonneg : 0 ≤ j.attempts
  bounded : j.attempts ≤ j.maxAttempts
  pending : j.status = .pending → j.attempts < j.maxAttempts

theorem Fresh.sound {queues : List QuackapiQueue} {j : Job} (h : Fresh queues j) : Sound j := by
  have hmax := h.maxAttempts
  constructor
  · rw [h.attempts]
  · rw [h.attempts]
    omega
  · intro _
    rw [h.attempts]
    omega

theorem Sound.of_same {j j' : Job} (h : Sound j) (hs : SameJob j j')
    (ha : j'.attempts = j.attempts) (hp : j'.status = .pending → j.attempts < j.maxAttempts) :
    Sound j' := by
  constructor
  · rw [ha]
    exact h.nonneg
  · rw [ha, hs.maxAttempts]
    exact h.bounded
  · intro hst
    rw [ha, hs.maxAttempts]
    exact hp hst

theorem Recovery.sound {queue : Str} {clock : DequeueClock} {j j' : Job}
    (hr : Recovery queue clock j j') (h : Sound j) : Sound j' := by
  refine h.of_same hr.same hr.attempts fun hst => ?_
  cases hr with
  | kept => exact h.pending hst
  | exhaustedPending | exhaustedRunning => cases hst
  | retried _ hmax => exact hmax

theorem Fate.sound {a : QueueAction} {j j' : Job} {d : Bool} (hf : Fate a j j' d) (h : Sound j) :
    Sound j' := by
  cases hf with
  | kept | refused => exact h
  | recovered hr => exact hr.sound h
  | claimed vt hr hc =>
    have hs := hr.sound h
    simp only [isClaimable, Bool.and_eq_true, decide_eq_true_eq] at hc
    have hlt := hc.1.2
    constructor
    · exact Int.add_nonneg hs.nonneg (by decide)
    · exact hlt
    · intro hst
      cases hst
  | acked => exact h.of_same ⟨rfl, rfl, rfl, rfl, rfl⟩ rfl fun hst => by cases hst
  | renewed vt hh =>
    refine h.of_same ⟨rfl, rfl, rfl, rfl, rfl⟩ rfl fun hst => ?_
    have hrun : j.status = .pending := hst
    rw [(isHeld_iff.mp hh).status] at hrun
    cases hrun
  | nacked q hh =>
    refine h.of_same (nackRow_same ..) (nackRow_attempts ..) fun hst => ?_
    unfold nackRow at hst
    split at hst
    · cases hst
    · next hc =>
      simp only [Bool.or_eq_true, decide_eq_true_eq, not_or, not_le] at hc
      exact hc.2

theorem run_sound (as : List QueueAction) :
    ∀ j ∈ (queueMachine.run initialState as).jobs.rows, Sound j := by
  refine queueMachine.run_invariant (P := fun s => ∀ j ∈ s.jobs.rows, Sound j) ?_ ?_ as
  · intro s a h j' hj'
    rcases step_origin hj' with ⟨j, hj, hf⟩ | ⟨_, hfresh⟩
    · exact hf.sound (h j hj)
    · exact hfresh.sound
  · intro j hj
    cases hj

/-- The ids a history created, and those it delivered, each as often as it happened. -/
def created (h : List (QueueAction × QueueReply)) : List Int := h.flatMap fun e => enqueuedIds e.2

def deliveries (h : List (QueueAction × QueueReply)) : List Int :=
  h.flatMap fun e => deliveredIds e.2

theorem run_ids (s : QueueState) (as : List QueueAction) :
    (queueMachine.run s as).jobs.rows.map Job.id =
      s.jobs.rows.map Job.id ++ created (queueMachine.history s as) := by
  induction as generalizing s with
  | nil => simp only [created, Machine.run_nil, Machine.history_nil, List.flatMap_nil,
      List.append_nil]
  | cons a as ih =>
    have hstep : (queueMachine.step s a).1.jobs.rows.map Job.id =
        s.jobs.rows.map Job.id ++ enqueuedIds (queueMachine.step s a).2 := step_ids s a
    rw [Machine.run_cons, ih, hstep, Machine.history_cons, List.append_assoc]
    rfl

theorem count_deliveredIds (s : QueueState) (a : QueueAction) (id : Int) :
    (deliveredIds (queueStep s a).2).count id =
      (decide (id ∈ deliveredIds (queueStep s a).2)).toNat := by
  rw [(deliveredIds_nodup s a).count]
  by_cases h : id ∈ deliveredIds (queueStep s a).2
  · rw [if_pos h, decide_eq_true h]
    rfl
  · rw [if_neg h, decide_eq_false h]
    rfl

theorem step_attempts {s : QueueState} {j : Job} (a : QueueAction) (hj : j ∈ s.jobs.rows) :
    ∃ j' ∈ (queueStep s a).1.jobs.rows, SameJob j j' ∧
      j'.attempts = j.attempts + (deliveredIds (queueStep s a).2).count j.id := by
  obtain ⟨j', hj', hf⟩ := step_fate a hj
  refine ⟨j', hj', hf.same, ?_⟩
  rw [count_deliveredIds]
  exact hf.attempts

theorem run_attempts {s : QueueState} {j : Job} (as : List QueueAction) (hj : j ∈ s.jobs.rows) :
    ∃ j' ∈ (queueMachine.run s as).jobs.rows, SameJob j j' ∧
      j'.attempts = j.attempts + (deliveries (queueMachine.history s as)).count j.id := by
  induction as generalizing s j with
  | nil => exact ⟨j, hj, .refl j, (Int.add_zero _).symm⟩
  | cons a as ih =>
    obtain ⟨j', hj', hsame, hstep⟩ := step_attempts a hj
    obtain ⟨j'', hj'', hsame', hrun⟩ := ih hj'
    refine ⟨j'', hj'', hsame.trans hsame', ?_⟩
    have hcount : (deliveries (queueMachine.history s (a :: as))).count j.id =
        (deliveredIds (queueStep s a).2).count j.id +
          (deliveries (queueMachine.history (queueStep s a).1 as)).count j.id :=
      List.count_append
    rw [hrun, hstep, hsame.id, hcount, Int.natCast_add, Int.add_assoc]

/-- The deliveries of every row, counted from the beginning, are its attempts. -/
def Counted (h : List (QueueAction × QueueReply)) (s : QueueState) : Prop :=
  (∀ id ∈ deliveries h, id ∈ s.jobs.rows.map Job.id) ∧
    ∀ j ∈ s.jobs.rows, j.attempts = (deliveries h).count j.id

theorem counted_step {h : List (QueueAction × QueueReply)} {s : QueueState} (hc : Counted h s)
    (a : QueueAction) : Counted (h ++ [(a, (queueStep s a).2)]) (queueStep s a).1 := by
  have hdel : deliveries (h ++ [(a, (queueStep s a).2)]) =
      deliveries h ++ deliveredIds (queueStep s a).2 := by
    simp only [deliveries, List.flatMap_append, List.flatMap_cons, List.flatMap_nil,
      List.append_nil]
  have hknown : ∀ id ∈ deliveredIds (queueStep s a).2, id ∈ s.jobs.rows.map Job.id := by
    intro id hid
    obtain ⟨x, hx, rfl⟩ := List.mem_map.mp hid
    obtain ⟨_, j, hj, hjid, _⟩ := step_delivered hx
    exact List.mem_map.mpr ⟨j, hj, hjid⟩
  constructor
  · intro id hid
    rw [step_ids]
    refine List.mem_append_left _ ?_
    rw [hdel] at hid
    rcases List.mem_append.mp hid with hold | hnew
    · exact hc.1 id hold
    · exact hknown id hnew
  · intro j' hj'
    rw [hdel, List.count_append]
    rcases step_origin hj' with ⟨j, hj, hf⟩ | ⟨hnew, hfresh⟩
    · rw [hf.same.id, hf.attempts, hc.2 j hj, count_deliveredIds, Int.natCast_add]
    · -- a new row has an id no earlier delivery can have named
      have hfree : j'.id ∉ s.jobs.rows.map Job.id := by
        have hnd := (queueStep s a).1.jobs.primaryKey
        rw [step_ids] at hnd
        exact fun hin => (List.nodup_append.mp hnd).2.2 _ hin _ hnew rfl
      have hold : j'.id ∉ deliveries h := fun hin => hfree (hc.1 _ hin)
      have hnow : j'.id ∉ deliveredIds (queueStep s a).2 := fun hin => hfree (hknown _ hin)
      rw [hfresh.attempts, List.count_eq_zero_of_not_mem hold, List.count_eq_zero_of_not_mem hnow]
      rfl

theorem run_counted (as : List QueueAction) :
    Counted (queueMachine.history initialState as) (queueMachine.run initialState as) := by
  have hnil : Counted [] initialState := ⟨(fun _ h => by cases h), (fun _ h => by cases h)⟩
  exact queueMachine.history_invariant hnil (fun _ _ a hc => counted_step hc a) as

theorem deliveries_bounded (as later : List QueueAction) {j : Job}
    (hj : j ∈ (queueMachine.run initialState as).jobs.rows) :
    j.attempts +
      (deliveries (queueMachine.history (queueMachine.run initialState as) later)).count j.id ≤
        j.maxAttempts := by
  obtain ⟨j', hj', hsame, hatt⟩ := run_attempts later hj
  rw [← Machine.run_append] at hj'
  have hb := (run_sound (as ++ later) j' hj').bounded
  rw [hsame.maxAttempts] at hb
  omega

theorem exhausted_not_delivered (as later : List QueueAction) {j : Job}
    (hj : j ∈ (queueMachine.run initialState as).jobs.rows) (hmax : j.maxAttempts ≤ j.attempts) :
    j.id ∉ deliveries (queueMachine.history (queueMachine.run initialState as) later) := by
  have hb := deliveries_bounded as later hj
  intro hin
  have hpos := List.count_pos_iff.mpr hin
  omega

theorem nack_buries {s : QueueState} {queue : Str} {id generation : Int} {requeue : Bool}
    {error : Str} {clock : NackClock} {j : Job} {q : QuackapiQueue}
    (hq : getQueue s.queues queue = some q) (hj : j ∈ s.jobs.rows)
    (hh : Held ⟨queue, id, generation, clock.update⟩ j) (hmax : j.maxAttempts ≤ j.attempts) :
    (queueStep s (.nack queue id generation requeue error clock)).2 = .nacked (.status .dead) ∧
      nackDeadRow error clock.update j ∈
        (queueStep s (.nack queue id generation requeue error clock)).1.jobs.rows := by
  have hupd := isHeld_iff.mpr hh
  -- the read came first, so the lease held then too
  have hread : isHeld queue id generation clock.read j = true :=
    isHeld_iff.mpr ⟨hh.id, hh.queue, hh.status, hh.generation, clock.read_le.trans_lt hh.lease⟩
  have hmem : j ∈ s.jobs.rows.filter (isHeld queue id generation clock.read) :=
    List.mem_filter.mpr ⟨hj, hread⟩
  simp only [queueStep, nackJob, nackHeld, requireQueue, hq]
  rcases hf : s.jobs.rows.filter (isHeld queue id generation clock.read) with _ | ⟨r, rest⟩
  · rw [hf] at hmem
    cases hmem
  have hr : r ∈ s.jobs.rows ∧ isHeld queue id generation clock.read r = true :=
    List.mem_filter.mp (hf ▸ List.mem_cons_self)
  have hrj : r = j := eq_of_isHeld hr.1 hj hr.2 hupd
  have hrow : nackRow q requeue error r.attempts r.maxAttempts clock.update =
      nackDeadRow error clock.update := by
    rw [nackRow, if_pos]
    rw [hrj, decide_eq_true hmax, Bool.or_true]
  have hret : nackDeadRow error clock.update j ∈
      s.jobs.returning (isHeld queue id generation clock.update) (nackDeadRow error clock.update) :=
    KeyedTable.mem_returning.mpr ⟨j, hj, hupd, rfl⟩
  simp only [hrow, Prod.map_fst, Prod.map_snd, id_eq, KeyedTable.update_rows]
  constructor
  · rcases hret' : s.jobs.returning (isHeld queue id generation clock.update)
      (nackDeadRow error clock.update) with _ | ⟨x, rest'⟩
    · rw [hret'] at hret
      cases hret
    · obtain ⟨i, _, _, rfl⟩ := KeyedTable.mem_returning.mp (hret' ▸ List.mem_cons_self)
      rfl
  · exact List.mem_map.mpr ⟨j, hj, if_pos hupd⟩

theorem dequeue_buries {s : QueueState} {queue : Str} {n : Int} {clock : DequeueClock} {j : Job}
    {q : QuackapiQueue} (hq : getQueue s.queues queue = some q) (hn : 1 ≤ n) (hn' : n ≤ 1000)
    (hj : j ∈ s.jobs.rows) (hqueue : j.queue = queue) (hst : j.status = .running)
    (hmax : j.maxAttempts ≤ j.attempts) (hlease : j.visibleAt ≤ clock.called) :
    exhaustedRunningRow clock.exhaustedRunning j ∈
      (queueStep s (.dequeue queue n clock)).1.jobs.rows := by
  have hexp : isExpired queue clock.exhaustedRunning j = true := by
    have hle := hlease.trans (clock.called_le.trans clock.pending_le)
    simp only [isExpired, hqueue, hst, hle, beq_self_eq_true, decide_true, Bool.and_self]
  have hrow : recoverRow queue clock j = exhaustedRunningRow clock.exhaustedRunning j := by
    have hrec := recoverRow_recovery queue clock j
    revert hrec
    generalize recoverRow queue clock j = r
    intro hrec
    cases hrec with
    | kept _ hr _ => exact absurd (hr hexp) (not_lt.mpr hmax)
    | exhaustedPending h => simp [isExhaustedPending, hst] at h
    | exhaustedRunning => rfl
    | retried _ h => exact absurd h (not_lt.mpr hmax)
  simp only [queueStep]
  -- whether the claim fails or not, what the recovery did stays
  rcases dequeueInit_cases s queue n clock with ⟨hbad, _⟩ | ⟨e, he⟩ | ⟨q', t, out, _, he, ht, _⟩
  · rw [hq] at hbad
    rcases hbad with h | h | h
    · omega
    · omega
    · cases h
  · rw [he]
    simp only [Prod.map_fst, id_eq, recoverExpiredJobs_rows]
    exact List.mem_map.mpr ⟨j, hj, hrow⟩
  · rw [he]
    simp only [Prod.map_fst, id_eq, ht]
    refine List.mem_map.mpr ⟨j, hj, ?_⟩
    have hdead : ∀ m t, isClaimed queue m clock.claim t
        (exhaustedRunningRow clock.exhaustedRunning j) = false := by
      intro m t
      simp [isClaimed, exhaustedRunningRow]
    simp only [dequeueRow, hrow, hdead, Bool.false_eq_true, if_false]

theorem run_terminal {s : QueueState} {j : Job} (later : List QueueAction) (hj : j ∈ s.jobs.rows)
    (h : j.status = .done ∨ j.status = .dead) : j ∈ (queueMachine.run s later).jobs.rows := by
  refine queueMachine.run_invariant (P := fun t => j ∈ t.jobs.rows) ?_ hj later
  intro t a ht
  obtain ⟨j', hj', hf⟩ := step_fate a ht
  rwa [(hf.terminal h).1] at hj'

theorem getQueue_isSome {queues : List QuackapiQueue} {name : Str} :
    (∃ q, getQueue queues name = some q) ↔ name ∈ queues.map QuackapiQueue.name := by
  rw [← not_iff_not, ← findKey_eq_none, ← Option.isSome_iff_exists, Option.not_isSome_iff_eq_none]
  rfl

theorem addQueue_names {queues qs : List QuackapiQueue} {q : QuackapiQueue} {orReplace : Bool}
    (h : addQueue queues q orReplace = .ok qs) {name : Str}
    (hn : name ∈ queues.map QuackapiQueue.name) : name ∈ qs.map QuackapiQueue.name := by
  unfold addQueue at h
  split at h
  · split at h
    · cases h
      rwa [map_key_replaceKey]
    · cases h
  · cases h
    rw [List.map_append]
    exact List.mem_append_left _ hn

theorem step_names {s : QueueState} {a : QueueAction} (ha : ∀ name, a ≠ .dropQueue name)
    {name : Str} (hn : name ∈ s.queues.map QuackapiQueue.name) :
    name ∈ (queueStep s a).1.queues.map QuackapiQueue.name := by
  have hkeep : ∀ {β : Type} {t : QueueState × β}, t.1.queues = s.queues →
      name ∈ t.1.queues.map QuackapiQueue.name := fun h => by rwa [h]
  cases a with
  | dropQueue name => exact absurd rfl (ha name)
  | createQueue q orReplace =>
    simp only [queueStep, applyQueues]
    split
    · next hq => exact addQueue_names hq hn
    · exact hn
  | enqueue | dequeue | ack | nack | renew =>
    apply hkeep
    simp only [queueStep, enqueueJob, insertJob, dequeueInit, claimUnderMutex, ackJob, ackHeld, nackJob,
      nackHeld, renewJob, renewHeld, Prod.map_fst, id_eq]
    repeat' split
    all_goals rfl

theorem step_registered {s : QueueState} {a : QueueAction} (ha : ∀ name, a ≠ .dropQueue name)
    (h : ∀ j ∈ s.jobs.rows, j.queue ∈ s.queues.map QuackapiQueue.name) :
    ∀ j ∈ (queueStep s a).1.jobs.rows,
      j.queue ∈ (queueStep s a).1.queues.map QuackapiQueue.name := by
  intro j' hj'
  apply step_names ha
  rcases step_origin hj' with ⟨j, hj, hf⟩ | ⟨_, hfresh⟩
  · rw [hf.same.queue]
    exact h j hj
  · exact getQueue_isSome.mp hfresh.registered

theorem run_registered {as : List QueueAction}
    (has : queueMachine.Along (fun _ a => ∀ name, a ≠ .dropQueue name) initialState as) :
    ∀ j ∈ (queueMachine.run initialState as).jobs.rows,
      ∃ q, getQueue (queueMachine.run initialState as).queues j.queue = some q := by
  have hnames := queueMachine.run_invariant_along
    (P := fun s => ∀ j ∈ s.jobs.rows, j.queue ∈ s.queues.map QuackapiQueue.name)
    (fun s a h ha => step_registered ha h) (s := initialState) (fun j hj => by cases hj) has
  exact fun j hj => getQueue_isSome.mpr (hnames j hj)

/-- The lifecycle of every job in every state reached from an empty table: one row an id, attempts
that count deliveries and stay within their bound, and a last delivery that ends in `done` or
`dead`. -/
theorem queue_lifecycle (as : List QueueAction) :
    let s := queueMachine.run initialState as
    let h := queueMachine.history initialState as
    (s.jobs.rows.map Job.id = created h ∧ (created h).Nodup) ∧
    (∀ j ∈ s.jobs.rows, 0 ≤ j.attempts ∧ j.attempts ≤ j.maxAttempts ∧
      j.attempts = (deliveries h).count j.id) ∧
    (∀ a, ∀ j ∈ s.jobs.rows, ∃ j' ∈ (queueStep s a).1.jobs.rows, SameJob j j' ∧
      j'.attempts = j.attempts + (decide (j.id ∈ deliveredIds (queueStep s a).2)).toNat) ∧
    (∀ later, ∀ j ∈ s.jobs.rows, j.maxAttempts ≤ j.attempts →
      j.id ∉ deliveries (queueMachine.history s later)) ∧
    (∀ j ∈ s.jobs.rows, ∀ q, getQueue s.queues j.queue = some q → j.maxAttempts ≤ j.attempts →
      (∀ id generation requeue error clock,
        Held ⟨j.queue, id, generation, clock.update⟩ j →
        (queueStep s (.nack j.queue id generation requeue error clock)).2 =
            .nacked (.status .dead) ∧
          ∃ j' ∈ (queueStep s (.nack j.queue id generation requeue error clock)).1.jobs.rows,
            j'.id = j.id ∧ j'.status = .dead) ∧
      (∀ n clock, 1 ≤ n → n ≤ 1000 → j.status = .running → j.visibleAt ≤ clock.called →
        ∃ j' ∈ (queueStep s (.dequeue j.queue n clock)).1.jobs.rows,
          j'.id = j.id ∧ j'.status = .dead)) ∧
    (∀ later, ∀ j ∈ s.jobs.rows, j.status = .done ∨ j.status = .dead →
      j ∈ (queueMachine.run s later).jobs.rows) ∧
    (queueMachine.Along (fun _ a => ∀ name, a ≠ .dropQueue name) initialState as →
      ∀ j ∈ s.jobs.rows, ∃ q, getQueue s.queues j.queue = some q) := by
  intro s h
  have hids : s.jobs.rows.map Job.id = created h := run_ids initialState as
  refine ⟨⟨hids, hids ▸ s.jobs.primaryKey⟩, ?_, ?_, ?_, ?_, ?_, run_registered⟩
  · intro j hj
    have hsound := run_sound as j hj
    exact ⟨hsound.nonneg, hsound.bounded, (run_counted as).2 j hj⟩
  · intro a j hj
    obtain ⟨j', hj', hf⟩ := step_fate a hj
    exact ⟨j', hj', hf.same, hf.attempts⟩
  · intro later j hj hmax
    exact exhausted_not_delivered as later hj hmax
  · intro j hj q hq hmax
    constructor
    · intro id generation requeue error clock hh
      obtain ⟨hreply, hrow⟩ := nack_buries hq hj hh hmax
      exact ⟨hreply, _, hrow, rfl, rfl⟩
    · intro n clock hn hn' hst hlease
      exact ⟨_, dequeue_buries hq hn hn' hj rfl hst hmax hlease, rfl, rfl⟩
  · intro later j hj hst
    exact run_terminal later hj hst

end Quackapi.Queue
