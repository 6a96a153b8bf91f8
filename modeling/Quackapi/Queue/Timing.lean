import Quackapi.Queue.Calls
import Quackapi.Queue.Lifecycle
import Quackapi.Queue.Selection
import Mathlib.Algebra.Order.GroupWithZero.Basic
import Mathlib.Algebra.Order.Ring.Int
import Mathlib.Tactic.NormNum

/-! When a lease ends after a renewal, and when a job that was given back can be claimed again, in
every order of the callers' reads of their queues and of what they then do to the table. -/

namespace Quackapi.Queue
open Library

/-- `std::pow` at a whole base and exponent: exact where doubles hold every whole number, and
beyond that no smaller. -/
structure DoublePow where
  pow : Int → Nat → Int
  exact : ∀ b e, 0 < b → b ^ e ≤ 2 ^ 53 → pow b e = b ^ e
  large : ∀ b e, 0 < b → 2 ^ 53 < b ^ e → 2 ^ 53 ≤ pow b e

instance : Inhabited DoublePow :=
  ⟨fun b e => b ^ e, fun _ _ _ _ => rfl, fun _ _ _ h => h.le⟩

def backoffExponent (attempts : Int) : Nat := (max 0 (min attempts 6)).toNat

/-- The delay as `NackJob` computes it, clamped before the cast to `int32_t`. -/
def DoublePow.backoff (p : DoublePow) (backoffBaseSec attempts : Int) : Int :=
  if backoffBaseSec > 0 then
    let secs := p.pow backoffBaseSec (backoffExponent attempts)
    if secs > 3600 then 3600 else secs
  else 0

theorem DoublePow.backoff_eq (p : DoublePow) (base attempts : Int) :
    p.backoff base attempts = nackBackoff base attempts := by
  rw [DoublePow.backoff, nackBackoff]
  by_cases hbase : base > 0
  · rw [if_pos hbase, if_pos hbase, ← backoffExponent]
    show (if p.pow base (backoffExponent attempts) > 3600 then 3600
      else p.pow base (backoffExponent attempts)) = min 3600 (base ^ backoffExponent attempts)
    rcases le_or_gt (base ^ backoffExponent attempts) (2 ^ 53) with hsmall | hbig
    · rw [p.exact _ _ hbase hsmall]
      omega
    · have hpow := p.large _ _ hbase hbig
      omega
  · rw [if_neg hbase, if_neg hbase]

theorem backoffExponent_mono {a b : Int} (h : a ≤ b) : backoffExponent a ≤ backoffExponent b := by
  unfold backoffExponent
  omega

theorem backoffExponent_le (attempts : Int) : backoffExponent attempts ≤ 6 := by
  unfold backoffExponent
  omega

theorem nackBackoff_mono (base : Int) {a b : Int} (h : a ≤ b) :
    nackBackoff base a ≤ nackBackoff base b := by
  rw [nackBackoff, nackBackoff]
  split
  · case isTrue hbase =>
    exact min_le_min_left 3600 (pow_le_pow_right₀ hbase (backoffExponent_mono h))
  · case isFalse => exact le_refl 0

theorem nackBackoff_nonneg (base attempts : Int) : 0 ≤ nackBackoff base attempts := by
  rw [nackBackoff]
  split
  · case isTrue hbase => exact le_min (by decide) (pow_nonneg hbase.le _)
  · case isFalse => exact le_refl 0

theorem nackBackoff_le (base attempts : Int) : nackBackoff base attempts ≤ 3600 := by
  rw [nackBackoff]
  split
  · exact min_le_left _ _
  · decide

/-- What the delay of a nack is, however doubles round: for a base of 32 bits the power is far
within their range, and the delay is back within 32 bits before it is cast. -/
structure BackoffExact (base attempts : Int) : Prop where
  computed : ∀ p : DoublePow, p.backoff base attempts = nackBackoff base attempts
  value : 0 ≤ attempts → 0 < base →
    nackBackoff base attempts = min 3600 (base ^ (min attempts 6).toNat)
  zero : nackBackoff 0 attempts = 0
  finite : 0 ≤ base → base < 2 ^ 31 → base ^ backoffExponent attempts ≤ 2 ^ 186
  seconds : 0 ≤ nackBackoff base attempts ∧ nackBackoff base attempts ≤ 3600
  mono : ∀ more, attempts ≤ more → nackBackoff base attempts ≤ nackBackoff base more

theorem backoffExact (base attempts : Int) : BackoffExact base attempts where
  computed p := p.backoff_eq base attempts
  value hattempts hbase := by
    rw [nackBackoff, if_pos hbase, max_eq_right (le_min hattempts (by decide))]
  zero := rfl
  finite hnonneg hbase := by
    have hsix : base ^ backoffExponent attempts ≤ (2 ^ 31) ^ 6 := by
      have hleft : base ^ backoffExponent attempts ≤ (2 ^ 31) ^ backoffExponent attempts :=
        pow_le_pow_left₀ hnonneg hbase.le _
      exact hleft.trans (pow_le_pow_right₀ (by norm_num) (backoffExponent_le attempts))
    exact hsix.trans (by norm_num)
  seconds := ⟨nackBackoff_nonneg base attempts, nackBackoff_le base attempts⟩
  mono _ h := nackBackoff_mono base h

/-- Out of reach of every claim before `due`. -/
def Postponed (due : Timestamp) (j : Job) : Prop :=
  j.status = .dead ∨ (j.status = .pending ∧ due ≤ j.visibleAt)

/-- A dequeue claims before `due`. -/
def ClaimsBefore (due : Timestamp) (a : CallAction) : Prop :=
  ∀ caller n clock, a = .dequeue caller n clock → clock.claim < due

theorem Postponed.not_claimable {due now : Timestamp} {j : Job} (h : Postponed due j)
    (hnow : now < due) (queue : Str) : isClaimable queue now j = false := by
  rcases h with hst | ⟨_, hle⟩
  · simp [isClaimable, hst]
  · have hlate : ¬ j.visibleAt ≤ now := not_le.mpr (hnow.trans_le hle)
    simp [isClaimable, hlate]

theorem Postponed.not_held {due : Timestamp} {j : Job} (h : Postponed due j) (queue : Str)
    (id generation : Int) (now : Timestamp) : isHeld queue id generation now j = false := by
  rcases h with hst | ⟨hst, _⟩
  · simp [isHeld, hst]
  · simp [isHeld, hst]

theorem Recovery.postponed {queue : Str} {clock : DequeueClock} {due : Timestamp} {j j' : Job}
    (hr : Recovery queue clock j j') (h : Postponed due j) : Postponed due j' := by
  have hexp : ∀ now, isExpired queue now j = false := by
    intro now
    rcases h with hst | ⟨hst, _⟩
    · simp [isExpired, hst]
    · simp [isExpired, hst]
  cases hr with
  | kept => exact h
  | exhaustedPending => exact .inl rfl
  | exhaustedRunning he | retried he => exact absurd he (by simp [hexp])

theorem Fate.postponed {a : QueueAction} {due : Timestamp} {j j' : Job} {d : Bool}
    (hf : Fate a j j' d) (h : Postponed due j)
    (ha : ∀ queue n clock, a = .dequeue queue n clock → clock.claim < due) :
    Postponed due j' ∧ d = false := by
  cases hf with
  | kept | refused => exact ⟨h, rfl⟩
  | recovered hr => exact ⟨hr.postponed h, rfl⟩
  | claimed vt hr hclaim =>
    have hno := (hr.postponed h).not_claimable (ha _ _ _ rfl)
    rw [hno] at hclaim
    cases hclaim
  | acked hh | nacked _ hh | renewed _ hh =>
    rw [h.not_held] at hh
    cases hh

theorem ClaimsBefore.operation {due : Timestamp} {a : CallAction} (ha : ClaimsBefore due a)
    {name : Str} {caller : Nat} {b : QueueAction} (hb : a.operation name = some (caller, b))
    {queue : Str} {n : Int} {clock : DequeueClock} (hdequeue : b = .dequeue queue n clock) :
    clock.claim < due := by
  subst hdequeue
  cases a with
  | dequeue caller' n' clock' =>
    cases hb
    exact ha _ _ _ rfl
  | createQueue | dropQueue | requireQueue | enqueue | ack | nack | renew => cases hb

theorem callStep_postponed {s : CallState} {a : CallAction} {due : Timestamp} {j : Job}
    (hj : j ∈ s.jobs.rows) (h : Postponed due j) (ha : ClaimsBefore due a) :
    (∃ j' ∈ (callStep s a).1.jobs.rows, j'.id = j.id ∧ Postponed due j') ∧
      j.id ∉ deliveredIds (callStep s a).2 := by
  rcases callStep_cases s a with ⟨hjobs, hnone⟩ | ⟨caller, q, b, hread, hb⟩
  · refine ⟨⟨j, by rwa [hjobs], rfl, h⟩, ?_⟩
    rw [deliveredIds, hnone]
    exact List.not_mem_nil
  · obtain ⟨hjobs, hreply⟩ := callStep_operation hread hb
    have hmem : j ∈ (s.asRead q).jobs.rows := hj
    obtain ⟨j', hj', hf⟩ := step_fate b hmem
    obtain ⟨hpost, hd⟩ := hf.postponed h fun _ _ _ hdequeue => ha.operation hb hdequeue
    rw [hjobs, hreply]
    exact ⟨⟨j', hj', hf.same.id, hpost⟩, of_decide_eq_false hd⟩

theorem run_postponed {s : CallState} {due : Timestamp} {j : Job} (hj : j ∈ s.jobs.rows)
    (h : Postponed due j) {later : List CallAction} (ha : ∀ a ∈ later, ClaimsBefore due a) :
    ∀ e ∈ callMachine.history s later, j.id ∉ deliveredIds e.2 := by
  induction later generalizing s j with
  | nil => exact fun e he => by cases he
  | cons a later ih =>
    obtain ⟨hfirst, hrest⟩ := List.forall_mem_cons.mp ha
    obtain ⟨⟨j', hj', hid, hpost⟩, hnow⟩ := callStep_postponed hj h hfirst
    have hlater := ih hj' hpost hrest
    rw [hid] at hlater
    rw [Machine.history_cons]
    exact List.forall_mem_cons.mpr ⟨hnow, hlater⟩

theorem nack_requeues {s : CallState} {caller : Nat} {id generation : Int} {requeue : Bool}
    {error : Str} {clock : NackClock}
    (h : (callStep s (.nack caller id generation requeue error clock)).2 =
      .nacked (.status .pending)) :
    ∃ q j, s.read caller = some q ∧ j ∈ s.jobs.rows ∧
      Held ⟨q.name, id, generation, clock.update⟩ j ∧
      nackPendingRow (nackBackoff q.backoffBaseSec j.attempts) error clock.update j ∈
        (callStep s (.nack caller id generation requeue error clock)).1.jobs.rows := by
  revert h
  simp only [callStep]
  rcases hread : s.read caller with _ | q
  · rw [CallState.proceed_none hread]
    intro h
    cases h
  rw [CallState.proceed_some hread]
  simp only [nackHeld]
  rcases hfilter : s.jobs.rows.filter (isHeld q.name id generation clock.read) with _ | ⟨r, rest⟩
  · intro h
    cases h
  have hr : r ∈ s.jobs.rows ∧ isHeld q.name id generation clock.read r = true :=
    List.mem_filter.mp (hfilter ▸ List.mem_cons_self)
  simp only [KeyedTable.update_rows]
  rcases hret : s.jobs.returning (isHeld q.name id generation clock.update)
    (nackRow q requeue error r.attempts r.maxAttempts clock.update) with _ | ⟨x, rest'⟩
  · intro h
    cases h
  intro h
  obtain ⟨j, hj, hheld, hx⟩ := KeyedTable.mem_returning.mp (hret ▸ List.mem_cons_self)
  have hrj : r = j := eq_of_isHeld hr.1 hj hr.2 hheld
  have hpending : x.status = .pending := by
    simpa [reply] using h
  have hrow : nackRow q requeue error r.attempts r.maxAttempts clock.update j =
      nackPendingRow (nackBackoff q.backoffBaseSec j.attempts) error clock.update j := by
    rw [← hx] at hpending
    rw [hrj] at hpending ⊢
    unfold nackRow at hpending ⊢
    split at hpending
    · cases hpending
    · case isFalse hdead => rw [if_neg hdead]
  refine ⟨q, j, rfl, hj, isHeld_iff.mp hheld, ?_⟩
  rw [← hrow]
  exact List.mem_map.mpr ⟨j, hj, if_pos hheld⟩

/-- A renewal that succeeds leaves the lease's end where it was, or later. -/
def RenewExtends (s : CallState) (caller : Nat) (id generation : Int) (now : Timestamp) : Prop :=
  (callStep s (.renew caller id generation now)).2 = .reported true →
    ∀ j ∈ s.jobs.rows, j.id = id →
      ∀ j' ∈ (callStep s (.renew caller id generation now)).1.jobs.rows, j'.id = id →
        j.visibleAt ≤ j'.visibleAt

theorem renew_rows {s : CallState} {caller : Nat} {q : QuackapiQueue} (id generation : Int)
    (now : Timestamp) (hq : s.read caller = some q) :
    (callStep s (.renew caller id generation now)).1.jobs.rows =
      s.jobs.rows.map fun j => if isHeld q.name id generation now j then
        renewRow q.visibilityTimeoutSec now j else j := by
  simp only [callStep, CallState.proceed_some hq, renewHeld, KeyedTable.update_rows]

theorem renew_read {s : CallState} {caller : Nat} {id generation : Int} {now : Timestamp}
    (h : (callStep s (.renew caller id generation now)).2 = .reported true) :
    ∃ q, s.read caller = some q := by
  rcases hread : s.read caller with _ | q
  · rw [callStep, CallState.proceed_none hread] at h
    cases h
  · exact ⟨q, rfl⟩

/-- The configuration as registered, or as a caller that is under way has read it. -/
def CallState.InPlay (s : CallState) (q : QuackapiQueue) : Prop :=
  q ∈ s.queues ∨ ∃ caller, s.read caller = some q

/-- No running delivery was given longer than a timeout that is in play for its queue. -/
def Leased (s : CallState) : Prop :=
  ∀ q, s.InPlay q → ∀ j ∈ s.jobs.rows, j.queue = q.name → j.status = .running →
    j.visibleAt ≤ j.updatedAt + toSeconds q.visibilityTimeoutSec

/-- The caller gives no longer than any timeout in play for the queue it has read. -/
def GrantsLeast (s : CallState) (caller : Nat) : Prop :=
  ∀ c, s.read caller = some c → ∀ q, s.InPlay q → q.name = c.name →
    c.visibilityTimeoutSec ≤ q.visibilityTimeoutSec

/-- A queue is not created anew with less time than a running delivery of it was given, and no lease is
given or renewed for longer than a caller under way, or the next one, would renew it. -/
def KeepsLeases (s : CallState) : CallAction → Prop
  | .createQueue q _ => ∀ j ∈ s.jobs.rows, j.queue = q.name → j.status = .running →
      j.visibleAt ≤ j.updatedAt + toSeconds q.visibilityTimeoutSec
  | .dequeue caller _ _ | .renew caller _ _ _ => GrantsLeast s caller
  | _ => True

/-- The clock is not below the last update of the delivery. -/
def ClockAhead (s : CallState) (caller : Nat) (id generation : Int) (now : Timestamp) : Prop :=
  ∀ q, s.read caller = some q → ∀ j ∈ s.jobs.rows, isHeld q.name id generation now j = true →
    j.updatedAt ≤ now

/-- An opened database: nothing is registered and no call is under way, over whatever the table
holds. -/
def CallState.Opened (s : CallState) : Prop := s.queues = [] ∧ ∀ caller, s.read caller = none

theorem CallState.Opened.leased {s : CallState} (h : s.Opened) : Leased s := by
  rintro q (hq | ⟨caller, hread⟩)
  · rw [h.1] at hq
    cases hq
  · rw [h.2] at hread
    cases hread

theorem Leased.renewExtends {s : CallState} (hs : Leased s) {caller : Nat} {id generation : Int}
    {now : Timestamp} (hnow : ClockAhead s caller id generation now) :
    RenewExtends s caller id generation now := by
  intro hreply j hj hid j' hj' hid'
  obtain ⟨q, hq⟩ := renew_read hreply
  rw [renew_rows id generation now hq] at hj'
  obtain ⟨r, hr, rfl⟩ := List.mem_map.mp hj'
  by_cases hheld : isHeld q.name id generation now r = true
  · rw [if_pos hheld] at hid' ⊢
    have hsame : r = j := s.jobs.eq_of_key hr hj (hid'.trans hid.symm)
    rw [hsame] at hheld ⊢
    have hh := isHeld_iff.mp hheld
    have hgiven := hs q (.inr ⟨caller, hq⟩) j hj hh.queue hh.status
    exact hgiven.trans (Int.add_le_add_right (hnow q hq j hj hheld) _)
  · rw [if_neg hheld] at hid' ⊢
    rw [s.jobs.eq_of_key hr hj (hid'.trans hid.symm)]

theorem Recovery.eq_of_running {queue : Str} {clock : DequeueClock} {j j' : Job}
    (h : Recovery queue clock j j') (hrun : j'.status = .running) : j' = j := by
  cases h with
  | kept => rfl
  | exhaustedPending | exhaustedRunning | retried => cases hrun

theorem nackRow_not_running (q : QuackapiQueue) (requeue : Bool) (error : Str)
    (attempts maxAttempts : Int) (now : Timestamp) (j : Job) :
    (nackRow q requeue error attempts maxAttempts now j).status ≠ .running := by
  unfold nackRow
  split <;> exact nofun

theorem Fate.eq_of_running {a : QueueAction} {j j' : Job} {d : Bool} (hf : Fate a j j' d)
    (hrun : j'.status = .running) (hdequeue : ∀ queue n clock, a ≠ .dequeue queue n clock)
    (hrenew : ∀ queue id generation now, a ≠ .renew queue id generation now) : j' = j := by
  cases hf with
  | kept | refused => rfl
  | recovered | claimed => exact absurd rfl (hdequeue _ _ _)
  | acked => cases hrun
  | nacked => exact absurd hrun (nackRow_not_running _ _ _ _ _ _ _)
  | renewed => exact absurd rfl (hrenew _ _ _ _)

/-- A running row is an old one, or the caller has just given it the timeout it had read. -/
def Granted (s : CallState) (caller : Nat) (j' : Job) : Prop :=
  j' ∈ s.jobs.rows ∨ ∃ q, s.read caller = some q ∧ j'.queue = q.name ∧
    j'.visibleAt = j'.updatedAt + toSeconds q.visibilityTimeoutSec

theorem dequeue_granted {s : CallState} {caller : Nat} {n : Int} {clock : DequeueClock} {j' : Job}
    (hj' : j' ∈ (callStep s (.dequeue caller n clock)).1.jobs.rows) (hrun : j'.status = .running) :
    Granted s caller j' := by
  rcases hread : s.read caller with _ | c
  · rw [callStep, CallState.proceed_none hread] at hj'
    exact .inl hj'
  rw [(callStep_operation hread rfl).1] at hj'
  simp only [queueStep, Prod.map_fst, id_eq] at hj'
  rcases dequeueInit_cases (s.asRead c) c.name n clock with
    ⟨_, e, he⟩ | ⟨e, he⟩ | ⟨q, t, out, hq, he, ht, _⟩
  · rw [he] at hj'
    exact .inl hj'
  · rw [he, recoverExpiredJobs_rows] at hj'
    obtain ⟨j, hj, rfl⟩ := List.mem_map.mp hj'
    have hkept := (recoverRow_recovery c.name clock j).eq_of_running hrun
    rw [hkept]
    exact .inl hj
  · have hqc : c = q := Option.some.inj ((getQueue_singleton c).symm.trans hq)
    simp only [he, ht] at hj'
    obtain ⟨j, hj, rfl⟩ := List.mem_map.mp hj'
    have hrecov := recoverRow_recovery c.name clock j
    have hmem : recoverRow c.name clock j ∈
        (recoverExpiredJobs c.name clock (s.asRead c).jobs).rows := by
      rw [recoverExpiredJobs_rows]
      exact List.mem_map_of_mem hj
    simp only [dequeueRow] at hrun ⊢
    split
    · case isTrue hclaimed =>
      have hclaim := isClaimed_claimable hmem hclaimed
      simp only [isClaimable, Bool.and_eq_true, beq_iff_eq] at hclaim
      exact .inr ⟨q, hqc ▸ hread, hqc ▸ hclaim.1.1.1, rfl⟩
    · case isFalse hclaimed =>
      rw [if_neg hclaimed] at hrun
      rw [hrecov.eq_of_running hrun]
      exact .inl hj

theorem renew_granted {s : CallState} {caller : Nat} {id' generation : Int} {now : Timestamp}
    {j' : Job} (hj' : j' ∈ (callStep s (.renew caller id' generation now)).1.jobs.rows) :
    Granted s caller j' := by
  rcases hread : s.read caller with _ | q
  · rw [callStep, CallState.proceed_none hread] at hj'
    exact .inl hj'
  · rw [renew_rows id' generation now hread] at hj'
    obtain ⟨j, hj, rfl⟩ := List.mem_map.mp hj'
    split
    · case isTrue hheld => exact .inr ⟨q, hread, (isHeld_iff.mp hheld).queue, rfl⟩
    · exact .inl hj

theorem old_of_running {s : CallState} {a : CallAction}
    (hdequeue : ∀ caller n clock, a ≠ .dequeue caller n clock)
    (hrenew : ∀ caller id generation now, a ≠ .renew caller id generation now) {j' : Job}
    (hj' : j' ∈ (callStep s a).1.jobs.rows) (hrun : j'.status = .running) : j' ∈ s.jobs.rows := by
  rcases callStep_cases s a with ⟨hjobs, _⟩ | ⟨caller, q, b, hread, hb⟩
  · rwa [hjobs] at hj'
  rw [(callStep_operation hread hb).1] at hj'
  rcases step_origin hj' with ⟨j, hj, hf⟩ | ⟨_, hfresh⟩
  · have hsame : j' = j := by
      refine hf.eq_of_running hrun ?_ ?_
      · rintro queue n clock rfl
        cases a <;> cases hb
        exact hdequeue _ _ _ rfl
      · rintro queue id generation now rfl
        cases a <;> cases hb
        exact hrenew _ _ _ _ rfl
    rw [hsame]
    exact hj
  · rw [hfresh.status] at hrun
    cases hrun

theorem addQueue_mem {queues qs : List QuackapiQueue} {q c : QuackapiQueue} {orReplace : Bool}
    (h : addQueue queues c orReplace = .ok qs) (hq : q ∈ qs) : q ∈ queues ∨ q = c := by
  unfold addQueue at h
  split at h
  · split at h
    · cases h
      exact (mem_of_mem_replaceKey hq).symm
    · cases h
  · cases h
    exact (List.mem_append.mp hq).imp id List.mem_singleton.mp

theorem dropQueue_mem {queues qs : List QuackapiQueue} {name : Str} {q : QuackapiQueue}
    (h : dropQueue queues name = .ok qs) (hq : q ∈ qs) : q ∈ queues := by
  unfold dropQueue at h
  split at h
  · cases h
    exact mem_of_mem_eraseKey hq
  · cases h

theorem applyQueues_mem {s : QueueState} {r : Except QueueError (List QuackapiQueue)}
    {q : QuackapiQueue} (hq : q ∈ (applyQueues s r).1.queues) :
    q ∈ s.queues ∨ ∃ qs, r = .ok qs ∧ q ∈ qs := by
  cases r with
  | error e => exact .inl hq
  | ok qs => exact .inr ⟨qs, rfl, hq⟩

theorem inPlay_of_proceed {α : Type} {s : CallState} {caller : Nat} {f : α → QueueReply}
    {rest : QuackapiQueue → QueueState × Except QueueError α} {q : QuackapiQueue}
    (hrest : ∀ c, (rest c).1.queues = s.queues) (h : (s.proceed caller f rest).1.InPlay q) :
    s.InPlay q := by
  rcases hread : s.read caller with _ | c
  · rwa [CallState.proceed_none hread] at h
  rw [CallState.proceed_some hread] at h
  rcases h with hq | ⟨other, hother⟩
  · exact .inl (hrest c ▸ hq)
  · by_cases hsame : other = caller
    · subst hsame
      simp at hother
    · exact .inr ⟨other, by simpa [hsame] using hother⟩

theorem inPlay_of_require {s : CallState} {caller : Nat} {queue : Str} {q : QuackapiQueue}
    (h : (callStep s (.requireQueue caller queue)).1.InPlay q) : s.InPlay q := by
  simp only [callStep] at h
  rcases requireQueue_cases s.queues queue with ⟨_, e, he⟩ | ⟨c, hc, hreq⟩
  · rwa [he] at h
  rw [hreq] at h
  rcases h with hq | ⟨other, hother⟩
  · exact .inl hq
  · by_cases hsame : other = caller
    · subst hsame
      have hqc : c = q := by simpa using hother
      exact .inl (hqc ▸ (findKey_eq_some hc).1)
    · exact .inr ⟨other, by simpa [hsame] using hother⟩

theorem inPlay_of_callStep {s : CallState} {a : CallAction} {q : QuackapiQueue}
    (h : (callStep s a).1.InPlay q) : s.InPlay q ∨ ∃ orReplace, a = .createQueue q orReplace := by
  cases a with
  | createQueue c orReplace =>
    rcases h with hq | hread
    · rcases applyQueues_mem hq with hold | ⟨qs, hqs, hmem⟩
      · exact .inl (.inl hold)
      · rcases addQueue_mem hqs hmem with hold | rfl
        · exact .inl (.inl hold)
        · exact .inr ⟨orReplace, rfl⟩
    · exact .inl (.inr hread)
  | dropQueue name =>
    rcases h with hq | hread
    · rcases applyQueues_mem hq with hold | ⟨qs, hqs, hmem⟩
      · exact .inl (.inl hold)
      · exact .inl (.inl (dropQueue_mem hqs hmem))
    · exact .inl (.inr hread)
  | requireQueue caller queue => exact .inl (inPlay_of_require h)
  | enqueue caller payload maxAtt now =>
    refine .inl (inPlay_of_proceed (fun c => ?_) h)
    simp only [insertJob]
    repeat' split
    all_goals rfl
  | dequeue caller n clock =>
    refine .inl (inPlay_of_proceed (fun c => ?_) h)
    simp only [claimUnderMutex]
    repeat' split
    all_goals rfl
  | ack caller id generation now => exact .inl (inPlay_of_proceed (fun _ => rfl) h)
  | nack caller id generation requeue error clock =>
    refine .inl (inPlay_of_proceed (fun c => ?_) h)
    simp only [nackHeld]
    split <;> rfl
  | renew caller id generation now => exact .inl (inPlay_of_proceed (fun _ => rfl) h)

theorem created_of_inPlay {s : CallState} (hs : s.Opened) {as : List CallAction}
    {q : QuackapiQueue} (h : (callMachine.run s as).InPlay q) :
    ∃ orReplace, CallAction.createQueue q orReplace ∈ as := by
  induction as using List.reverseRecOn with
  | nil =>
    rcases h with hq | ⟨caller, hread⟩
    · rw [Machine.run_nil, hs.1] at hq
      cases hq
    · rw [Machine.run_nil, hs.2] at hread
      cases hread
  | append_singleton as a ih =>
    rw [Machine.run_concat] at h
    rcases inPlay_of_callStep h with hbefore | ⟨orReplace, rfl⟩
    · obtain ⟨orReplace, hmem⟩ := ih hbefore
      exact ⟨orReplace, List.mem_append_left _ hmem⟩
    · exact ⟨orReplace, by simp⟩

theorem GrantsLeast.within {s : CallState} {caller : Nat} (h : GrantsLeast s caller)
    (hs : Leased s) {j' : Job} (hgranted : Granted s caller j') (hrun : j'.status = .running)
    {q : QuackapiQueue} (hq : s.InPlay q) (hqueue : j'.queue = q.name) :
    j'.visibleAt ≤ j'.updatedAt + toSeconds q.visibilityTimeoutSec := by
  rcases hgranted with hold | ⟨c, hread, hname, hgiven⟩
  · exact hs q hq j' hold hqueue hrun
  · have hle := h c hread q hq (hqueue.symm.trans hname)
    have hseconds : toSeconds c.visibilityTimeoutSec ≤ toSeconds q.visibilityTimeoutSec :=
      Int.mul_le_mul_of_nonneg_right hle (by decide)
    rw [hgiven]
    exact Int.add_le_add_left hseconds _

theorem step_leased {s : CallState} {a : CallAction} (hs : Leased s) (ha : KeepsLeases s a) :
    Leased (callStep s a).1 := by
  intro q hq j' hj' hqueue hrun
  by_cases hdequeue : ∃ caller n clock, a = .dequeue caller n clock
  · obtain ⟨caller, n, clock, rfl⟩ := hdequeue
    have hplay := (inPlay_of_callStep hq).resolve_right (by simp)
    exact GrantsLeast.within ha hs (dequeue_granted hj' hrun) hrun hplay hqueue
  by_cases hrenew : ∃ caller id generation now, a = .renew caller id generation now
  · obtain ⟨caller, id, generation, now, rfl⟩ := hrenew
    have hplay := (inPlay_of_callStep hq).resolve_right (by simp)
    exact GrantsLeast.within ha hs (renew_granted hj') hrun hplay hqueue
  push Not at hdequeue hrenew
  have hold := old_of_running hdequeue hrenew hj' hrun
  rcases inPlay_of_callStep hq with hplay | ⟨orReplace, rfl⟩
  · exact hs q hplay j' hold hqueue hrun
  · exact ha j' hold hqueue hrun

/-- Leases and delays after any run from an opened database, in every order of the callers' reads and
writes. Where no queue is created anew below what its running deliveries were given and no lease is
given beyond a timeout in play, a renewal whose clock does not go back moves no end of a lease
earlier. A job given back waits for the whole of its delay. -/
theorem lease_timing (s : CallState) (as : List CallAction) (caller : Nat) (id generation : Int) :
    let t := callMachine.run s as
    (s.Opened → callMachine.Along KeepsLeases s as → ∀ now, ClockAhead t caller id generation now →
      RenewExtends t caller id generation now) ∧
    (∀ base attempts, BackoffExact base attempts) ∧
    ∀ requeue error clock,
      let a := CallAction.nack caller id generation requeue error clock
      (callStep t a).2 = .nacked (.status .pending) →
        ∃ q j, t.read caller = some q ∧ j ∈ t.jobs.rows ∧
          Held ⟨q.name, id, generation, clock.update⟩ j ∧
          let due := clock.update + toSeconds (nackBackoff q.backoffBaseSec j.attempts)
          (∃ j' ∈ (callStep t a).1.jobs.rows,
            j'.id = id ∧ j'.status = .pending ∧ j'.visibleAt = due) ∧
          ∀ later, (∀ b ∈ later, ClaimsBefore due b) →
            ∀ e ∈ callMachine.history (callStep t a).1 later, id ∉ deliveredIds e.2 := by
  refine ⟨fun hs halong now hnow => ?_, backoffExact, fun requeue error clock h => ?_⟩
  · have hleased : Leased (callMachine.run s as) :=
      callMachine.run_invariant_along (fun _ _ h ha => step_leased h ha) hs.leased halong
    exact hleased.renewExtends hnow
  · obtain ⟨q, j, hq, hj, hheld, hrow⟩ := nack_requeues h
    refine ⟨q, j, hq, hj, hheld, ⟨_, hrow, hheld.id, rfl, rfl⟩, fun later hlater => ?_⟩
    have hpost := run_postponed hrow (.inr ⟨rfl, le_refl _⟩) hlater
    have hid : (nackPendingRow (nackBackoff q.backoffBaseSec j.attempts) error clock.update j).id =
      id := hheld.id
    rwa [hid] at hpost

theorem initialCalls_opened : initialCalls.Opened := ⟨rfl, fun _ => rfl⟩

def mailQueue (visibilityTimeoutSec : Int) : QuackapiQueue :=
  ⟨"mail".toList, 3, visibilityTimeoutSec, 2⟩

/-- A job is taken from a queue with leases of so many seconds. -/
def taken (visibilityTimeoutSec : Int) : List CallAction :=
  [.createQueue (mailQueue visibilityTimeoutSec) false, .requireQueue 1 "mail".toList,
    .enqueue 1 "1".toList 0 0, .requireQueue 1 "mail".toList, .dequeue 1 1 (.waited 0 0)]

/-- Two callers read the queue before its leases are made longer. -/
def lengthened : List CallAction :=
  taken 60 ++ [.requireQueue 1 "mail".toList, .requireQueue 2 "mail".toList,
    .createQueue (mailQueue 120) true]

/-- The queue is created anew, with leases of a second, while the job is out. -/
def shortened : List CallAction :=
  taken 60 ++ [.createQueue (mailQueue 1) true, .requireQueue 1 "mail".toList]

/-- Caller 1 has read leases of a second; a renewal for a minute gets in before its own. -/
def overtaken : List CallAction :=
  taken 1 ++ [.requireQueue 1 "mail".toList, .createQueue (mailQueue 60) true,
    .requireQueue 2 "mail".toList, .renew 2 1 1 500000]

def takenRow (visibilityTimeoutSec : Int) : Job :=
  claimRow visibilityTimeoutSec 0 (newJob 1 "mail".toList "1".toList 3 0)

theorem lengthened_keepsLeases : callMachine.Along KeepsLeases initialCalls lengthened := by
  have hrows : (callMachine.run initialCalls (taken 60 ++
      [.requireQueue 1 "mail".toList, .requireQueue 2 "mail".toList])).jobs.rows =
        [takenRow 60] := by decide +kernel
  have hcreate : KeepsLeases initialCalls (.createQueue (mailQueue 60) false) :=
    fun j hj => by cases hj
  have hdequeue : GrantsLeast (callMachine.run initialCalls ((taken 60).take 4)) 1 := by
    -- only one configuration has been created by then
    have honly : ∀ q, (callMachine.run initialCalls ((taken 60).take 4)).InPlay q →
        q = mailQueue 60 := by
      intro q hq
      obtain ⟨orReplace, hmem⟩ := created_of_inPlay initialCalls_opened hq
      have hone : q = mailQueue 60 ∧ orReplace = false := by simpa [taken] using hmem
      exact hone.1
    intro c hread q hq _
    rw [honly c (.inr ⟨1, hread⟩), honly q hq]
  have hreplace : KeepsLeases (callMachine.run initialCalls (taken 60 ++
      [.requireQueue 1 "mail".toList, .requireQueue 2 "mail".toList]))
      (.createQueue (mailQueue 120) true) := by
    intro j hj _ _
    rw [hrows, List.mem_singleton] at hj
    rw [hj]
    decide
  exact ⟨hcreate, trivial, trivial, trivial, hdequeue, trivial, trivial, hreplace, trivial⟩

theorem lease_timing_lengthened :
    RenewExtends (callMachine.run initialCalls lengthened) 1 1 1 1000000 ∧
      let a := CallAction.nack 2 1 1 true [] ⟨1000000, 1000000, Int.le_refl _⟩
      ∀ e ∈ callMachine.history (callStep (callMachine.run initialCalls lengthened) a).1
        [.requireQueue 3 "mail".toList, .dequeue 3 1 (.waited 2999999 0)],
        1 ∉ deliveredIds e.2 := by
  have hrows : (callMachine.run initialCalls lengthened).jobs.rows = [takenRow 60] := by
    decide +kernel
  have hclock : ClockAhead (callMachine.run initialCalls lengthened) 1 1 1 1000000 := by
    intro q _ j hj _
    rw [hrows, List.mem_singleton] at hj
    rw [hj]
    decide
  have hread : (callMachine.run initialCalls lengthened).read 2 = some (mailQueue 60) := by
    decide +kernel
  have hnack : (callStep (callMachine.run initialCalls lengthened)
      (.nack 2 1 1 true [] ⟨1000000, 1000000, Int.le_refl _⟩)).2 = .nacked (.status .pending) := by
    decide +kernel
  refine ⟨(lease_timing initialCalls lengthened 1 1 1).1 initialCalls_opened lengthened_keepsLeases
    1000000 hclock, ?_⟩
  obtain ⟨q, j, hq, hj, -, -, hlater⟩ :=
    (lease_timing initialCalls lengthened 2 1 1).2.2 true [] ⟨1000000, 1000000, Int.le_refl _⟩ hnack
  rw [hread] at hq
  rw [hrows, List.mem_singleton] at hj
  obtain rfl := Option.some.inj hq
  subst hj
  refine hlater _ fun b hb => ?_
  rintro caller n clock rfl
  simp only [List.mem_cons, reduceCtorEq, List.not_mem_nil, or_false, false_or] at hb
  cases hb
  decide

theorem shortened_lease_ends_earlier :
    ¬ RenewExtends (callMachine.run initialCalls shortened) 1 1 1 1000000 ∧
      ¬ RenewExtends (callMachine.run initialCalls overtaken) 1 1 1 600000 := by
  constructor
  · intro h
    have hrows : (callMachine.run initialCalls shortened).jobs.rows = [takenRow 60] := by
      decide +kernel
    have hreply : (callStep (callMachine.run initialCalls shortened) (.renew 1 1 1 1000000)).2 =
        .reported true := by decide +kernel
    have hafter : renewRow 1 1000000 (takenRow 60) ∈
        (callStep (callMachine.run initialCalls shortened) (.renew 1 1 1 1000000)).1.jobs.rows := by
      decide +kernel
    have hle := h hreply (takenRow 60) (hrows ▸ List.mem_singleton_self _) rfl _ hafter rfl
    exact absurd hle (by decide)
  · intro h
    have hrows : (callMachine.run initialCalls overtaken).jobs.rows =
        [renewRow 60 500000 (takenRow 1)] := by decide +kernel
    have hreply : (callStep (callMachine.run initialCalls overtaken) (.renew 1 1 1 600000)).2 =
        .reported true := by decide +kernel
    have hafter : renewRow 1 600000 (renewRow 60 500000 (takenRow 1)) ∈
        (callStep (callMachine.run initialCalls overtaken) (.renew 1 1 1 600000)).1.jobs.rows := by
      decide +kernel
    have hle := h hreply _ (hrows ▸ List.mem_singleton_self _) rfl _ hafter rfl
    exact absurd hle (by decide)

end Quackapi.Queue
