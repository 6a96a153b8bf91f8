import Quackapi.Queue.Steps

/-! Fencing: a delivery hands out the pair of job id and generation, and only the newest pair of a
job opens it. The run-level facts come from one invariant that ties every pair ever handed out to
the generation its row has reached. -/

namespace Quackapi.Queue
open Library

/-- What an operation presents, and the `now()` its guarded write reads. -/
structure Receipt where
  queue : Str
  id : Int
  generation : Int
  now : Timestamp

def presented : QueueAction → Option Receipt
  | .ack queue id generation now => some ⟨queue, id, generation, now⟩
  | .nack queue id generation _ _ clock => some ⟨queue, id, generation, clock.update⟩
  | .renew queue id generation now => some ⟨queue, id, generation, now⟩
  | _ => none

/-- The receipt opens the row: it is running, under this generation, and the lease lasts. -/
structure Held (c : Receipt) (j : Job) : Prop where
  id : j.id = c.id
  queue : j.queue = c.queue
  status : j.status = .running
  generation : j.deliveryGeneration = c.generation
  lease : c.now < j.visibleAt

theorem isHeld_iff {queue : Str} {id generation : Int} {now : Timestamp} {j : Job} :
    isHeld queue id generation now j = true ↔ Held ⟨queue, id, generation, now⟩ j := by
  simp only [isHeld, Bool.and_eq_true, decide_eq_true_eq, beq_iff_eq]
  constructor
  · rintro ⟨⟨⟨⟨hid, hq⟩, hst⟩, hg⟩, hl⟩
    exact ⟨hid, hq, hst, hg, hl⟩
  · intro h
    exact ⟨⟨⟨⟨h.id, h.queue⟩, h.status⟩, h.generation⟩, h.lease⟩

def refusal : QueueAction → QueueReply
  | .nack .. => .nacked .stale
  | _ => .reported false

def refusalIn (s : QueueState) (a : QueueAction) (queue : Str) : QueueReply :=
  match requireQueue s.queues queue with
  | .ok _ => refusal a
  | .error e => .failed e

theorem not_isHeld {s : QueueState} {queue : Str} {id generation : Int} {now : Timestamp}
    (h : ∀ j ∈ s.jobs.rows, ¬ Held ⟨queue, id, generation, now⟩ j) :
    ∀ j ∈ s.jobs.rows, isHeld queue id generation now j = false := by
  intro j hj
  rw [Bool.eq_false_iff]
  exact fun he => h j hj (isHeld_iff.mp he)

theorem unheld_refused {s : QueueState} {a : QueueAction} {c : Receipt}
    (hc : presented a = some c) (h : ∀ j ∈ s.jobs.rows, ¬ Held c j) :
    queueStep s a = (s, refusalIn s a c.queue) := by
  cases a with
  | createQueue | dropQueue | enqueue | dequeue => cases hc
  | ack queue id' gen now =>
    obtain rfl : ⟨queue, id', gen, now⟩ = c := Option.some.inj hc
    have hno := not_isHeld h
    simp only [queueStep, ackJob, ackHeld, refusalIn]
    rcases requireQueue s.queues queue with e | q
    · rfl
    · simp only [KeyedTable.update_eq_self hno, KeyedTable.returning_eq_nil.mpr hno]
      rfl
  | renew queue id' gen now =>
    obtain rfl : ⟨queue, id', gen, now⟩ = c := Option.some.inj hc
    have hno := not_isHeld h
    simp only [queueStep, renewJob, renewHeld, refusalIn]
    rcases requireQueue s.queues queue with e | q
    · rfl
    · simp only [KeyedTable.update_eq_self hno, KeyedTable.returning_eq_nil.mpr hno]
      rfl
  | nack queue id' gen requeue error clock =>
    obtain rfl : ⟨queue, id', gen, clock.update⟩ = c := Option.some.inj hc
    have hno := not_isHeld h
    simp only [queueStep, nackJob, nackHeld, refusalIn]
    rcases requireQueue s.queues queue with e | q
    · rfl
    -- the read can find a row whose lease runs out before the update
    rcases s.jobs.rows.filter (isHeld queue id' gen clock.read) with _ | ⟨r, rest⟩
    · rfl
    · simp only [KeyedTable.update_eq_self hno, KeyedTable.returning_eq_nil.mpr hno]
      rfl

theorem Fate.held {a : QueueAction} {c : Receipt} {j j' : Job} {d : Bool} (hf : Fate a j j' d)
    (hc : presented a = some c) (hne : j' ≠ j) : Held c j := by
  cases hf with
  | kept => exact absurd rfl hne
  | refused | recovered | claimed => cases hc
  | acked hh | nacked _ hh | renewed _ hh =>
    cases hc
    exact isHeld_iff.mp hh

theorem changed_held {s : QueueState} {a : QueueAction} {c : Receipt} {j j' : Job}
    (hc : presented a = some c) (hj : j ∈ s.jobs.rows)
    (hj' : j' ∈ (queueStep s a).1.jobs.rows) (hid : j'.id = j.id) (hne : j' ≠ j) : Held c j := by
  obtain ⟨i, hi, hf⟩ := step_fate a hj
  have hsame : i = j' := (queueStep s a).1.jobs.eq_of_key hi hj' (hf.same.id.trans hid.symm)
  rw [hsame] at hf
  exact hf.held hc hne

/-- Every row is still there, as the same job, and has not gone back a generation. -/
def Advances (s t : QueueState) : Prop :=
  ∀ j ∈ s.jobs.rows, ∃ j' ∈ t.jobs.rows,
    SameJob j j' ∧ j.deliveryGeneration ≤ j'.deliveryGeneration

theorem step_advances (s : QueueState) (a : QueueAction) : Advances s (queueStep s a).1 := by
  intro j hj
  obtain ⟨j', hj', hf⟩ := step_fate a hj
  refine ⟨j', hj', hf.same, ?_⟩
  rw [hf.generation]
  omega

theorem Advances.trans {s t u : QueueState} (h : Advances s t) (h' : Advances t u) :
    Advances s u := by
  intro j hj
  obtain ⟨j', hj', hsame, hle⟩ := h j hj
  obtain ⟨j'', hj'', hsame', hle'⟩ := h' j' hj'
  exact ⟨j'', hj'', hsame.trans hsame', hle.trans hle'⟩

theorem run_advances (s : QueueState) (as : List QueueAction) :
    Advances s (queueMachine.run s as) := by
  have hrefl : ∀ t, Advances t t := fun _ j hj => ⟨j, hj, .refl j, le_refl _⟩
  exact queueMachine.run_rel hrefl Advances.trans step_advances s as

/-- The pairs of id and generation that a history handed out. -/
def receipts (h : List (QueueAction × QueueReply)) : List (Int × Int) :=
  h.flatMap fun e => (delivered e.2).map fun j => (j.id, j.deliveryGeneration)

theorem receipts_concat (h : List (QueueAction × QueueReply)) (e : QueueAction × QueueReply) :
    receipts (h ++ [e]) =
      receipts h ++ (delivered e.2).map fun j => (j.id, j.deliveryGeneration) := by
  simp only [receipts, List.flatMap_append, List.flatMap_cons, List.flatMap_nil, List.append_nil]

/-- The invariant: no pair twice, and no pair ahead of its row. -/
structure Issued (h : List (QueueAction × QueueReply)) (s : QueueState) : Prop where
  nodup : (receipts h).Nodup
  reached : ∀ p ∈ receipts h, ∃ j ∈ s.jobs.rows, j.id = p.1 ∧ p.2 ≤ j.deliveryGeneration

theorem issued_step {h : List (QueueAction × QueueReply)} {s : QueueState} (hi : Issued h s)
    (a : QueueAction) : Issued (h ++ [(a, (queueStep s a).2)]) (queueStep s a).1 := by
  constructor
  · rw [receipts_concat]
    have hnew : ((delivered (queueStep s a).2).map fun j => (j.id, j.deliveryGeneration)).Nodup := by
      have hids := deliveredIds_nodup s a
      refine List.Nodup.of_map Prod.fst ?_
      rwa [List.map_map]
    refine hi.nodup.append hnew ?_
    -- an old pair is at most its row's generation, and a delivery goes one beyond that
    intro p hp hp'
    obtain ⟨x, hx, rfl⟩ := List.mem_map.mp hp'
    obtain ⟨_, j, hj, hid, hf⟩ := step_delivered hx
    obtain ⟨i, hi', hid', hle⟩ := hi.reached _ hp
    have hsame : i = j := s.jobs.eq_of_key hi' hj (hid'.trans hid.symm)
    rw [hsame] at hle
    have hlt := hf.newGeneration
    simp only at hle
    omega
  · intro p hp
    rw [receipts_concat] at hp
    rcases List.mem_append.mp hp with hold | hnew
    · obtain ⟨j, hj, hid, hle⟩ := hi.reached p hold
      obtain ⟨j', hj', hsame, hle'⟩ := step_advances s a j hj
      exact ⟨j', hj', hsame.id.trans hid, hle.trans hle'⟩
    · obtain ⟨x, hx, rfl⟩ := List.mem_map.mp hnew
      exact ⟨x, (step_delivered hx).1, rfl, le_refl _⟩

theorem run_issued (s : QueueState) (as : List QueueAction) :
    Issued (queueMachine.history s as) (queueMachine.run s as) := by
  have hnil : Issued [] s := ⟨List.nodup_nil, fun p hp => by cases hp⟩
  exact queueMachine.history_invariant hnil (fun _ _ a hi => issued_step hi a) as

theorem behind_of_redelivered {s : QueueState} {as later : List QueueAction} {id generation : Int}
    (hold : (id, generation) ∈ receipts (queueMachine.history s as))
    (hnew : id ∈ (receipts (queueMachine.history (queueMachine.run s as) later)).map Prod.fst) :
    ∀ j ∈ (queueMachine.run s (as ++ later)).jobs.rows, j.id = id →
      generation < j.deliveryGeneration := by
  obtain ⟨i, hi, hid, hle⟩ := (run_issued s as).reached _ hold
  obtain ⟨p, hp, rfl⟩ := List.mem_map.mp hnew
  obtain ⟨⟨a, r⟩, he, hout⟩ := List.mem_flatMap.mp hp
  obtain ⟨x, hx, rfl⟩ := List.mem_map.mp hout
  obtain ⟨pre, post, rfl, rfl⟩ := queueMachine.mem_history he
  obtain ⟨hmem, j₀, hj₀, hid₀, hf⟩ := step_delivered hx
  obtain ⟨j₁, hj₁, hsame₁, hle₁⟩ := run_advances (queueMachine.run s as) pre i hi
  have hj₁₀ : j₁ = j₀ := KeyedTable.eq_of_key _ hj₁ hj₀
    ((hsame₁.id.trans hid).trans hid₀.symm)
  have hlt := hf.newGeneration
  -- the redelivery raised the generation, and the rest of the run does not take it back
  obtain ⟨j₂, hj₂, hsame₂, hle₂⟩ := run_advances _ post x hmem
  intro j hj hjid
  have hrun : queueMachine.run s (as ++ (pre ++ a :: post)) =
      queueMachine.run (queueStep (queueMachine.run (queueMachine.run s as) pre) a).1 post := by
    rw [Machine.run_append, Machine.run_append, Machine.run_cons]
    rfl
  rw [hrun] at hj
  have hj₂j : j₂ = j := KeyedTable.eq_of_key _ hj₂ hj (hsame₂.id.trans hjid.symm)
  rw [hj₁₀] at hle₁
  rw [hj₂j] at hle₂
  simp only at hle
  omega

theorem Fate.terminal {a : QueueAction} {j j' : Job} {d : Bool} (hf : Fate a j j' d)
    (h : j.status = .done ∨ j.status = .dead) : j' = j ∧ d = false := by
  have hrec : ∀ {queue clock r}, Recovery queue clock j r → r = j := by
    intro queue clock r hr
    cases hr with
    | kept => rfl
    | exhaustedPending he => rcases h with h | h <;> simp [isExhaustedPending, h] at he
    | exhaustedRunning he | retried he => rcases h with h | h <;> simp [isExpired, h] at he
  cases hf with
  | kept | refused => exact ⟨rfl, rfl⟩
  | recovered hr => exact ⟨hrec hr, rfl⟩
  | claimed vt hr hcl =>
    rw [hrec hr] at hcl
    rcases h with h | h <;> simp [isClaimable, h] at hcl
  | acked hh | nacked _ hh | renewed _ hh =>
    have hrun := (isHeld_iff.mp hh).status
    rcases h with h | h <;> rw [hrun] at h <;> cases h

def acknowledges (id : Int) : QueueAction × QueueReply → Bool
  | (.ack _ id' _ _, .reported true) => decide (id' = id)
  | _ => false

theorem acknowledges_iff {id : Int} {a : QueueAction} {r : QueueReply} :
    acknowledges id (a, r) = true ↔
      ∃ queue generation now, a = .ack queue id generation now ∧ r = .reported true := by
  constructor
  · intro h
    unfold acknowledges at h
    split at h
    · next queue id' gen now heq =>
      obtain ⟨rfl, rfl⟩ := Prod.mk.inj heq
      exact ⟨queue, gen, now, by rw [of_decide_eq_true h], rfl⟩
    · cases h
  · rintro ⟨queue, generation, now, rfl, rfl⟩
    exact decide_eq_true rfl

theorem ack_succeeds {s : QueueState} {queue : Str} {id generation : Int} {now : Timestamp}
    (h : (queueStep s (.ack queue id generation now)).2 = .reported true) :
    ∃ j ∈ s.jobs.rows, Held ⟨queue, id, generation, now⟩ j ∧
      ackRow now j ∈ (queueStep s (.ack queue id generation now)).1.jobs.rows := by
  by_cases hn : ∀ j ∈ s.jobs.rows, ¬ Held ⟨queue, id, generation, now⟩ j
  · rw [unheld_refused rfl hn, refusalIn] at h
    split at h <;> cases h
  push Not at hn
  obtain ⟨j, hj, hh⟩ := hn
  refine ⟨j, hj, hh, ?_⟩
  have hheld := isHeld_iff.mpr hh
  revert h
  simp only [queueStep, ackJob, ackHeld]
  rcases requireQueue s.queues queue with e | q
  · intro h
    cases h
  · intro _
    simp only [Prod.map_fst, id_eq, KeyedTable.update_rows]
    exact List.mem_map.mpr ⟨j, hj, if_pos hheld⟩

structure Acknowledged (h : List (QueueAction × QueueReply)) (s : QueueState) : Prop where
  once : ∀ id, h.countP (acknowledges id) ≤ 1
  done : ∀ id, 0 < h.countP (acknowledges id) → ∃ j ∈ s.jobs.rows, j.id = id ∧ j.status = .done

theorem acknowledged_step {h : List (QueueAction × QueueReply)} {s : QueueState}
    (ha : Acknowledged h s) (a : QueueAction) :
    Acknowledged (h ++ [(a, (queueStep s a).2)]) (queueStep s a).1 := by
  have hkeep : ∀ id, 0 < h.countP (acknowledges id) →
      ∃ j ∈ (queueStep s a).1.jobs.rows, j.id = id ∧ j.status = .done := by
    intro id hpos
    obtain ⟨j, hj, hid, hst⟩ := ha.done id hpos
    obtain ⟨j', hj', hf⟩ := step_fate a hj
    obtain ⟨rfl, _⟩ := hf.terminal (.inl hst)
    exact ⟨_, hj', hid, hst⟩
  -- an id acknowledged now was held running, so no earlier acknowledgement left it done
  have hfirst : ∀ id, acknowledges id (a, (queueStep s a).2) = true →
      h.countP (acknowledges id) = 0 ∧
        ∃ j ∈ (queueStep s a).1.jobs.rows, j.id = id ∧ j.status = .done := by
    intro id hack
    obtain ⟨queue, gen, now, rfl, hr⟩ := acknowledges_iff.mp hack
    obtain ⟨j, hj, hh, hdone⟩ := ack_succeeds hr
    refine ⟨?_, _, hdone, hh.id, rfl⟩
    by_contra hne
    obtain ⟨i, hi, hid, hst⟩ := ha.done id (Nat.pos_of_ne_zero hne)
    have hij : i = j := s.jobs.eq_of_key hi hj (hid.trans hh.id.symm)
    rw [hij, hh.status] at hst
    cases hst
  constructor
  · intro id
    rw [List.countP_append, List.countP_singleton]
    split
    · next hack => rw [(hfirst id hack).1]
    · exact ha.once id
  · intro id hpos
    rw [List.countP_append, List.countP_singleton] at hpos
    split at hpos
    · next hack => exact (hfirst id hack).2
    · exact hkeep id hpos

theorem run_acknowledged (s : QueueState) (as : List QueueAction) :
    Acknowledged (queueMachine.history s as) (queueMachine.run s as) := by
  have hnil : Acknowledged [] s := ⟨fun _ => Nat.zero_le _, fun _ h => absurd h (Nat.lt_irrefl 0)⟩
  exact queueMachine.history_invariant hnil (fun _ _ a ha => acknowledged_step ha a) as

/-- Fencing, in whatever state a run has reached: generations only grow and grow at a claim, no
receipt is handed out twice, an operation changes only the row its receipt opens and is refused
otherwise, an id is acknowledged once, and a redelivery closes every earlier receipt. -/
theorem queue_fencing (s : QueueState) (as : List QueueAction) :
    (∀ a, ∀ j ∈ (queueMachine.run s as).jobs.rows,
      ∃ j' ∈ (queueStep (queueMachine.run s as) a).1.jobs.rows, j'.id = j.id ∧
        j.deliveryGeneration ≤ j'.deliveryGeneration ∧
        (j.id ∈ deliveredIds (queueStep (queueMachine.run s as) a).2 →
          j.deliveryGeneration < j'.deliveryGeneration)) ∧
    (receipts (queueMachine.history s as)).Nodup ∧
    (∀ a c, presented a = some c →
      (∀ j ∈ (queueMachine.run s as).jobs.rows,
        ∀ j' ∈ (queueStep (queueMachine.run s as) a).1.jobs.rows,
          j'.id = j.id → j' ≠ j → Held c j) ∧
      ((∀ j ∈ (queueMachine.run s as).jobs.rows, ¬ Held c j) →
        queueStep (queueMachine.run s as) a =
          (queueMachine.run s as, refusalIn (queueMachine.run s as) a c.queue))) ∧
    (∀ id, (queueMachine.history s as).countP (acknowledges id) ≤ 1) ∧
    (∀ later a c, (c.id, c.generation) ∈ receipts (queueMachine.history s as) →
      c.id ∈ (receipts (queueMachine.history (queueMachine.run s as) later)).map Prod.fst →
      presented a = some c →
      (queueStep (queueMachine.run s (as ++ later)) a).1 = queueMachine.run s (as ++ later)) := by
  refine ⟨?_, (run_issued s as).nodup, ?_, (run_acknowledged s as).once, ?_⟩
  · intro a j hj
    obtain ⟨j', hj', hf⟩ := step_fate a hj
    have hgen := hf.generation
    refine ⟨j', hj', hf.same.id, by omega, fun hdel => ?_⟩
    rw [decide_eq_true hdel] at hf
    have hlt := hf.newGeneration
    omega
  · intro a c hc
    exact ⟨fun j hj j' hj' hid hne => changed_held hc hj hj' hid hne, unheld_refused hc⟩
  · intro later a c hold hnew hc
    rw [unheld_refused hc]
    intro j hj hh
    have hlt := behind_of_redelivered hold hnew j hj hh.id
    rw [hh.generation] at hlt
    exact lt_irrefl _ hlt

/-- The refusal is an answer only while the queue is registered: after a drop it is an error. -/
theorem dropped_queue_raises :
    ¬ ∀ (as : List QueueAction) (queue : Str) (id generation : Int) (now : Timestamp),
      (∀ j ∈ (queueMachine.run initialState as).jobs.rows, ¬ Held ⟨queue, id, generation, now⟩ j) →
      (queueStep (queueMachine.run initialState as) (.ack queue id generation now)).2 =
        .reported false := by
  intro h
  have he := h [.createQueue ⟨"mail".toList, 3, 30, 2⟩ false, .dropQueue "mail".toList]
    "mail".toList 1 1 0 (fun j hj => by cases hj)
  revert he
  decide

end Quackapi.Queue
