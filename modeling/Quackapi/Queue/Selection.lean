import Quackapi.Queue.Steps

/-! Which jobs a dequeue delivers: of those that are claimable once the leases that ended are
recovered, the ones with the smallest ids. -/

namespace Quackapi.Queue
open Library

theorem pairwise_mergeSort_lt {l : List Int} (hl : l.Nodup) :
    (l.mergeSort (· ≤ ·)).Pairwise (· < ·) := by
  have hsorted : (l.mergeSort (· ≤ ·)).Pairwise (· ≤ ·) := List.pairwise_mergeSort' (· ≤ ·) l
  have hnodup : (l.mergeSort (· ≤ ·)).Nodup := (List.mergeSort_perm l _).nodup_iff.mpr hl
  refine (hsorted.and hnodup).imp fun h => ?_
  omega

theorem smaller_of_not_mem_take {l : List Int} (hl : l.Pairwise (· < ·)) {n : Nat} {b : Int}
    (hb : b ∈ l) (hnot : b ∉ l.take n) : (l.take n).length = n ∧ ∀ a ∈ l.take n, a < b := by
  have hcut : l.take n ++ l.drop n = l := List.take_append_drop n l
  have hdrop : b ∈ l.drop n := by
    rw [← hcut] at hb
    exact (List.mem_append.mp hb).resolve_left hnot
  constructor
  · have hlong : n < l.length := by
      by_contra hshort
      rw [List.drop_eq_nil_of_le (not_lt.mp hshort)] at hdrop
      cases hdrop
    rw [List.length_take, Nat.min_eq_left hlong.le]
  · intro a ha
    rw [← hcut] at hl
    exact (List.pairwise_append.mp hl).2.2 a ha b hdrop

section Claim
variable {queue : Str} {n : Int} {now : Timestamp} {jobs : JobsTable}

theorem claimIds_lt : (claimIds queue n now jobs).Pairwise (· < ·) := by
  have hnodup : ((jobs.rows.filter (isClaimable queue now)).map Job.id).Nodup :=
    jobs.primaryKey.sublist (List.filter_sublist.map Job.id)
  exact (pairwise_mergeSort_lt hnodup).sublist (List.take_sublist _ _)

theorem length_claimIds_le : (claimIds queue n now jobs).length ≤ n.toNat := List.length_take_le _ _

theorem claimIds_smallest {j : Job} (hj : j ∈ jobs.rows) (hclaim : isClaimable queue now j = true)
    (hnot : j.id ∉ claimIds queue n now jobs) :
    (claimIds queue n now jobs).length = n.toNat ∧ ∀ i ∈ claimIds queue n now jobs, i < j.id := by
  have hnodup : ((jobs.rows.filter (isClaimable queue now)).map Job.id).Nodup :=
    jobs.primaryKey.sublist (List.filter_sublist.map Job.id)
  refine smaller_of_not_mem_take (pairwise_mergeSort_lt hnodup) ?_ hnot
  exact List.mem_mergeSort.mpr (List.mem_map_of_mem (List.mem_filter.mpr ⟨hj, hclaim⟩))

theorem mem_claimIds {i : Int} (hi : i ∈ claimIds queue n now jobs) :
    ∃ j ∈ jobs.rows, isClaimable queue now j = true ∧ j.id = i := by
  obtain ⟨j, hj, rfl⟩ := List.mem_map.mp (List.mem_mergeSort.mp (List.mem_of_mem_take hi))
  exact ⟨j, (List.mem_filter.mp hj).1, (List.mem_filter.mp hj).2, rfl⟩

theorem isClaimed_iff {j : Job} (hj : j ∈ jobs.rows) :
    isClaimed queue n now jobs j = true ↔ j.id ∈ claimIds queue n now jobs := by
  simp only [isClaimed, Bool.and_eq_true, List.contains_iff_mem, beq_iff_eq]
  constructor
  · exact fun h => h.1
  · intro h
    obtain ⟨i, hi, hclaim, hid⟩ := mem_claimIds h
    rw [jobs.eq_of_key hi hj hid] at hclaim
    simp only [isClaimable, Bool.and_eq_true, beq_iff_eq] at hclaim
    exact ⟨h, hclaim.1.1.2⟩

theorem ids_returning (vt : Int) :
    (sortById (jobs.returning (isClaimed queue n now jobs) (claimRow vt now))).map Job.id =
      claimIds queue n now jobs := by
  set returned := jobs.returning (isClaimed queue n now jobs) (claimRow vt now) with hreturned
  have hids : returned.map Job.id = (jobs.rows.filter (isClaimed queue n now jobs)).map Job.id := by
    rw [hreturned, KeyedTable.returning, List.map_map]
    rfl
  have hnodup : (returned.map Job.id).Nodup := by
    rw [hids]
    exact jobs.primaryKey.sublist (List.filter_sublist.map Job.id)
  have hperm : ((sortById returned).map Job.id).Perm (claimIds queue n now jobs) := by
    refine ((List.mergeSort_perm _ _).map Job.id).trans ?_
    refine (List.perm_ext_iff_of_nodup hnodup claimIds_lt.nodup).mpr fun i => ?_
    rw [hids]
    constructor
    · intro hi
      obtain ⟨j, hj, rfl⟩ := List.mem_map.mp hi
      obtain ⟨hmem, hclaimed⟩ := List.mem_filter.mp hj
      exact (isClaimed_iff hmem).mp hclaimed
    · intro hi
      obtain ⟨j, hj, _, rfl⟩ := mem_claimIds hi
      exact List.mem_map_of_mem (List.mem_filter.mpr ⟨hj, (isClaimed_iff hj).mpr hi⟩)
  have hsorted : ((sortById returned).map Job.id).Pairwise (· ≤ ·) := by
    rw [List.pairwise_map]
    have h := @List.pairwise_mergeSort _ (fun a b : Job => decide (a.id ≤ b.id))
      (by intro a b c; simp only [decide_eq_true_eq]; omega)
      (by intro a b; simp only [Bool.or_eq_true, decide_eq_true_eq]; omega) returned
    exact h.imp fun hle => of_decide_eq_true hle
  exact hperm.eq_of_pairwise' hsorted (claimIds_lt.imp Int.le_of_lt)

end Claim

theorem dequeueInit_ok {s t : QueueState} {queue : Str} {n : Int} {clock : DequeueClock}
    {rows : List Job} (h : dequeueInit s queue n clock = (t, .ok rows)) :
    ∃ q, getQueue s.queues queue = some q ∧ t.queues = s.queues ∧
      t.jobs = (recoverExpiredJobs queue clock s.jobs).update
        (isClaimed queue n clock.claim (recoverExpiredJobs queue clock s.jobs))
        (claimRow q.visibilityTimeoutSec clock.claim) (claimRow_id _ _) ∧
      rows = sortById ((recoverExpiredJobs queue clock s.jobs).returning
        (isClaimed queue n clock.claim (recoverExpiredJobs queue clock s.jobs))
        (claimRow q.visibilityTimeoutSec clock.claim)) := by
  rw [dequeueInit] at h
  split_ifs at h with hlow hhigh
  · cases h
  · cases h
  · rcases requireQueue_cases s.queues queue with ⟨_, e, he⟩ | ⟨q, hq, hrequire⟩
    · rw [he] at h
      cases h
    · simp only [hrequire, claimUnderMutex] at h
      rcases claimPendingJobs_cases queue q.visibilityTimeoutSec n clock.claim
        (recoverExpiredJobs queue clock s.jobs) with hclaim | hclaim
      · simp only [hclaim] at h
        cases h
      · simp only [hclaim] at h
        cases h
        exact ⟨q, hq, rfl, rfl, rfl⟩

/-- A dequeue of a registered queue that asks for a number it may ask for is refused only where a chosen
job has no generation left. -/
theorem dequeueInit_answers {s : QueueState} {queue : Str} {n : Int} (clock : DequeueClock)
    {q : QuackapiQueue} (hq : getQueue s.queues queue = some q) (hlow : 1 ≤ n) (hhigh : n ≤ 1000)
    (hgenerations : ∀ j ∈ s.jobs.rows, j.deliveryGeneration < bigintMax) :
    ∃ t rows, dequeueInit s queue n clock = (t, .ok rows) := by
  have hfree : ((recoverExpiredJobs queue clock s.jobs).rows.any fun j =>
      isClaimed queue n clock.claim (recoverExpiredJobs queue clock s.jobs) j &&
        decide (j.deliveryGeneration = bigintMax)) = false := by
    rw [List.any_eq_false]
    intro r hr
    rw [recoverExpiredJobs_rows] at hr
    obtain ⟨j, hj, rfl⟩ := List.mem_map.mp hr
    have hgeneration := (recoverRow_recovery queue clock j).generation
    have hlt := hgenerations j hj
    have hne : (recoverRow queue clock j).deliveryGeneration ≠ bigintMax := by omega
    simp [hne]
  rw [dequeueInit, if_neg (by omega), if_neg (by omega), requireQueue, hq]
  dsimp only [claimUnderMutex]
  rw [claimPendingJobs, hfree]
  exact ⟨_, _, rfl⟩

structure Selected (s : QueueState) (queue : Str) (n : Int) (clock : DequeueClock) (q : QuackapiQueue)
    (t : QueueState) (rows : List Job) : Prop where
  atMost : rows.length ≤ n.toNat
  ascending : (rows.map Job.id).Pairwise (· < ·)
  /-- Each row is that of a claimable job, under its next generation and a lease of its own. -/
  claimed : ∀ x ∈ rows, ∃ j ∈ (recoverExpiredJobs queue clock s.jobs).rows,
    isClaimable queue clock.claim j = true ∧ x = { j with
      status := .running
      attempts := j.attempts + 1
      deliveryGeneration := j.deliveryGeneration + 1
      visibleAt := clock.claim + toSeconds q.visibilityTimeoutSec
      updatedAt := clock.claim
      workerId := none }
  /-- A claimable job that is left has an id larger than those of `n` delivered ones. -/
  smallest : ∀ j ∈ (recoverExpiredJobs queue clock s.jobs).rows,
    isClaimable queue clock.claim j = true → j.id ∉ rows.map Job.id →
      rows.length = n.toNat ∧ ∀ x ∈ rows, x.id < j.id
  stored : ∀ x ∈ rows, x ∈ t.jobs.rows
  elsewhere : ∀ j ∈ s.jobs.rows, j.queue ≠ queue → j ∈ t.jobs.rows
  /-- A job that is not delivered is at most recovered. -/
  left : ∀ j ∈ s.jobs.rows, j.id ∉ rows.map Job.id →
    ∃ j' ∈ t.jobs.rows, Recovery queue clock j j'
  ids : t.jobs.rows.map Job.id = s.jobs.rows.map Job.id

theorem Recovery.elsewhere {queue : Str} {clock : DequeueClock} {j j' : Job}
    (h : Recovery queue clock j j') (hqueue : j.queue ≠ queue) : j' = j := by
  have hbeq : (j.queue == queue) = false := by simpa using hqueue
  cases h with
  | kept => rfl
  | exhaustedPending h => simp [isExhaustedPending, hbeq] at h
  | exhaustedRunning h => simp [isExpired, hbeq] at h
  | retried h => simp [isExpired, hbeq] at h

theorem dequeueInit_ids {s t : QueueState} {queue : Str} {n : Int} {clock : DequeueClock}
    {rows : List Job} (h : dequeueInit s queue n clock = (t, .ok rows)) :
    rows.map Job.id = claimIds queue n clock.claim (recoverExpiredJobs queue clock s.jobs) := by
  obtain ⟨q, _, _, _, hrows⟩ := dequeueInit_ok h
  rw [hrows]
  exact ids_returning q.visibilityTimeoutSec

theorem dequeueInit_selected {s t : QueueState} {queue : Str} {n : Int} {clock : DequeueClock}
    {rows : List Job} (h : dequeueInit s queue n clock = (t, .ok rows)) :
    ∃ q, getQueue s.queues queue = some q ∧ Selected s queue n clock q t rows := by
  obtain ⟨q, hq, _, hjobs, hrows⟩ := dequeueInit_ok h
  refine ⟨q, hq, ?_⟩
  set recovered := recoverExpiredJobs queue clock s.jobs with hrecovered
  have hids : rows.map Job.id = claimIds queue n clock.claim recovered := dequeueInit_ids h
  have hlength : rows.length = (claimIds queue n clock.claim recovered).length := by
    rw [← hids, List.length_map]
  have hmem : ∀ x, x ∈ rows ↔ ∃ j ∈ recovered.rows,
      isClaimed queue n clock.claim recovered j = true ∧
        claimRow q.visibilityTimeoutSec clock.claim j = x := by
    intro x
    rw [hrows, sortById, List.mem_mergeSort, KeyedTable.mem_returning]
  have hstored : t.jobs.rows = recovered.rows.map fun j =>
      if isClaimed queue n clock.claim recovered j then claimRow q.visibilityTimeoutSec clock.claim j
      else j := by
    rw [hjobs, KeyedTable.update_rows]
  have hrecover : ∀ j ∈ s.jobs.rows, recoverRow queue clock j ∈ recovered.rows := by
    intro j hj
    rw [hrecovered, recoverExpiredJobs_rows]
    exact List.mem_map_of_mem hj
  -- the row of a job that is not delivered is the one recovery leaves
  have hleft : ∀ j ∈ s.jobs.rows, j.id ∉ rows.map Job.id →
      recoverRow queue clock j ∈ t.jobs.rows := by
    intro j hj hnot
    have hid := (recoverRow_recovery queue clock j).same.id
    rw [hstored]
    refine List.mem_map.mpr ⟨_, hrecover j hj, if_neg fun hclaimed => hnot ?_⟩
    rw [hids, ← hid]
    exact (isClaimed_iff (hrecover j hj)).mp hclaimed
  exact {
    atMost := by rw [hlength]; exact length_claimIds_le
    ascending := by rw [hids]; exact claimIds_lt
    claimed := fun x hx => by
      obtain ⟨j, hj, hclaimed, rfl⟩ := (hmem x).mp hx
      exact ⟨j, hj, isClaimed_claimable hj hclaimed, rfl⟩
    smallest := fun j hj hclaim hnot => by
      rw [hids] at hnot
      obtain ⟨hfull, hless⟩ := claimIds_smallest hj hclaim hnot
      refine ⟨hlength.trans hfull, fun x hx => hless x.id ?_⟩
      rw [← hids]
      exact List.mem_map_of_mem hx
    stored := fun x hx => by
      obtain ⟨j, hj, hclaimed, rfl⟩ := (hmem x).mp hx
      rw [hstored]
      exact List.mem_map.mpr ⟨j, hj, if_pos hclaimed⟩
    elsewhere := fun j hj hqueue => by
      have hsame := (recoverRow_recovery queue clock j).elsewhere hqueue
      have hnot : j.id ∉ rows.map Job.id := by
        rw [hids]
        intro hid
        obtain ⟨i, hi, hclaim, hij⟩ := mem_claimIds hid
        have hrow : i = j := recovered.eq_of_key hi (hsame ▸ hrecover j hj) hij
        simp only [isClaimable, Bool.and_eq_true, beq_iff_eq] at hclaim
        exact hqueue (hrow ▸ hclaim.1.1.1)
      rw [← hsame]
      exact hleft j hj hnot
    left := fun j hj hnot => ⟨_, hleft j hj hnot, recoverRow_recovery queue clock j⟩
    ids := by
      have hclaim : ∀ j, (if isClaimed queue n clock.claim recovered j then
          claimRow q.visibilityTimeoutSec clock.claim j else j).id = j.id := by
        intro j
        split_ifs <;> rfl
      rw [hstored, hrecovered, recoverExpiredJobs_rows, List.map_map, List.map_map]
      refine List.map_congr_left fun j _ => ?_
      exact (hclaim _).trans (recoverRow_recovery queue clock j).same.id }

theorem Recovery.expired {queue : Str} {clock : DequeueClock} {j j' : Job}
    (h : Recovery queue clock j j') (hrunning : j.status = .running)
    (hclaim : isClaimable queue clock.claim j' = true) :
    j.queue = queue ∧ j.visibleAt ≤ clock.retry := by
  have hpending : j'.status = .pending := by
    simp only [isClaimable, Bool.and_eq_true, beq_iff_eq] at hclaim
    exact hclaim.1.1.2
  cases h with
  | kept =>
    rw [hrunning] at hpending
    cases hpending
  | exhaustedPending => cases hpending
  | exhaustedRunning => cases hpending
  | retried hexpired =>
    simp only [isExpired, Bool.and_eq_true, beq_iff_eq, decide_eq_true_eq] at hexpired
    exact ⟨hexpired.1.1, hexpired.2⟩

theorem delivered_again {s t t' : QueueState} {queue queue' : Str} {n n' : Int}
    {clock clock' : DequeueClock} {rows rows' : List Job}
    (h : dequeueInit s queue n clock = (t, .ok rows))
    (h' : dequeueInit t queue' n' clock' = (t', .ok rows')) {x y : Job} (hx : x ∈ rows)
    (hy : y ∈ rows') (hid : y.id = x.id) :
    queue' = queue ∧ x.visibleAt ≤ clock'.retry ∧
      y.deliveryGeneration = x.deliveryGeneration + 1 := by
  obtain ⟨q, _, hselected⟩ := dequeueInit_selected h
  obtain ⟨q', _, hselected'⟩ := dequeueInit_selected h'
  have hstored := hselected.stored x hx
  obtain ⟨j, _, hclaim, hxj⟩ := hselected.claimed x hx
  obtain ⟨j', hj', hclaim', hyj'⟩ := hselected'.claimed y hy
  rw [recoverExpiredJobs_rows] at hj'
  obtain ⟨i, hi, rfl⟩ := List.mem_map.mp hj'
  have hrecovery := recoverRow_recovery queue' clock' i
  -- the recovered row is that of the job the first dequeue handed out
  have hix : i = x := by
    refine t.jobs.eq_of_key hi hstored ?_
    rw [← hid, hyj']
    exact hrecovery.same.id.symm
  rw [hix] at hrecovery hclaim' hyj'
  have hrunning : x.status = .running := by rw [hxj]
  have hxqueue : x.queue = queue := by
    simp only [isClaimable, Bool.and_eq_true, beq_iff_eq] at hclaim
    rw [hxj]
    exact hclaim.1.1.1
  obtain ⟨hqueue, hexpired⟩ := hrecovery.expired hrunning hclaim'
  refine ⟨hqueue.symm.trans hxqueue, hexpired, ?_⟩
  rw [hyj', ← hrecovery.generation]

/-- A dequeue delivers the claimable jobs with the smallest ids, and a second one none of them again
before its lease has ended. -/
theorem dequeue_selection (s : QueueState) (queue : Str) (n : Int) (clock : DequeueClock) :
    (∀ q, getQueue s.queues queue = some q → 1 ≤ n → n ≤ 1000 →
      (∀ j ∈ s.jobs.rows, j.deliveryGeneration < bigintMax) →
        ∃ t rows, dequeueInit s queue n clock = (t, .ok rows)) ∧
    ∀ t rows, dequeueInit s queue n clock = (t, .ok rows) →
      (∃ q, getQueue s.queues queue = some q ∧ Selected s queue n clock q t rows) ∧
      ∀ queue' n' clock' t' rows', dequeueInit t queue' n' clock' = (t', .ok rows') →
        ∀ x ∈ rows, ∀ y ∈ rows', y.id = x.id →
          queue' = queue ∧ x.visibleAt ≤ clock'.retry ∧
            y.deliveryGeneration = x.deliveryGeneration + 1 :=
  ⟨fun _ hq hlow hhigh hgenerations => dequeueInit_answers clock hq hlow hhigh hgenerations,
    fun _ _ h => ⟨dequeueInit_selected h, fun _ _ _ _ _ h' _ hx _ hy hid =>
      delivered_again h h' hx hy hid⟩⟩

/-- The readings of a dequeue that waits so long for the claim mutex. -/
def DequeueClock.waited (called : Timestamp) (wait : Nat) : DequeueClock :=
  ⟨called, called + wait, called + wait, called + wait, called + wait,
    Int.le_add_of_nonneg_right (Int.natCast_nonneg wait), le_refl _, le_refl _, le_refl _⟩

/-- A queue with leases of a second, and one job. -/
def oneJob : QueueState where
  queues := [⟨"mail".toList, 3, 1, 2⟩]
  jobs := ⟨[newJob 1 "mail".toList "1".toList 3 0], List.nodup_singleton 1⟩
  jobSeq := 2

def fourRows : List Job :=
  [newJob 4 "mail".toList "4".toList 3 0, newJob 1 "mail".toList "1".toList 3 0,
    newJob 2 "sms".toList "2".toList 3 0, newJob 3 "mail".toList "3".toList 3 0]

theorem fourRows_nodup : (fourRows.map Job.id).Nodup := by decide

/-- Two queues with leases of a second, and three jobs of the first beside one of the second. -/
def fourJobs : QueueState where
  queues := [⟨"mail".toList, 3, 1, 2⟩, ⟨"sms".toList, 3, 1, 2⟩]
  jobs := ⟨fourRows, fourRows_nodup⟩
  jobSeq := 5

theorem claimIds_fourJobs (clock : DequeueClock) (hclock : clock.claim = 0) :
    claimIds "mail".toList 2 clock.claim
      (recoverExpiredJobs "mail".toList clock fourJobs.jobs) = [1, 3] := by
  have hrecover : (recoverExpiredJobs "mail".toList clock fourJobs.jobs).rows = fourRows := by
    rw [recoverExpiredJobs_rows]
    rfl
  have hclaimable : (fourRows.filter (isClaimable "mail".toList 0)).map Job.id = [4, 1, 3] := by
    decide
  rw [claimIds, hrecover, hclock, hclaimable]
  simp [List.mergeSort, List.MergeSort.Internal.splitInTwo]

/-- Two of the three are taken, and again when their lease has ended. -/
theorem dequeue_selection_two_queues :
    ∃ t rows t' rows', dequeueInit fourJobs "mail".toList 2 (.waited 0 0) = (t, .ok rows) ∧
      dequeueInit t "mail".toList 2 (.waited 2000000 0) = (t', .ok rows') ∧
      rows.map Job.id = [1, 3] ∧ rows'.map Job.id = [1, 3] ∧
      (∃ q, Selected fourJobs "mail".toList 2 (.waited 0 0) q t rows) ∧
      ∀ x ∈ rows, ∀ y ∈ rows', y.id = x.id →
        x.visibleAt ≤ 2000000 ∧ y.deliveryGeneration = x.deliveryGeneration + 1 := by
  obtain ⟨hanswers, hselects⟩ := dequeue_selection fourJobs "mail".toList 2 (.waited 0 0)
  obtain ⟨t, rows, h⟩ := hanswers ⟨"mail".toList, 3, 1, 2⟩ (by decide) (by decide) (by decide)
    (by decide)
  obtain ⟨⟨q, _, hselected⟩, hagain⟩ := hselects t rows h
  have hids : rows.map Job.id = [1, 3] := by
    rw [dequeueInit_ids h, claimIds_fourJobs _ rfl]
  obtain ⟨q', hq', hqueues, hjobs, -⟩ := dequeueInit_ok h
  obtain rfl : ⟨"mail".toList, 3, 1, 2⟩ = q' := Option.some.inj (Eq.trans (by decide) hq')
  -- the table between the two dequeues
  have hrows : t.jobs.rows = fourRows.map fun j =>
      if [1, 3].contains j.id && j.status == .pending then claimRow 1 0 j else j := by
    rw [hjobs, KeyedTable.update_rows]
    simp only [isClaimed, claimIds_fourJobs (.waited 0 0) rfl]
    rfl
  obtain ⟨t', rows', h'⟩ := (dequeue_selection t "mail".toList 2 (.waited 2000000 0)).1
    ⟨"mail".toList, 3, 1, 2⟩ (by rw [hqueues]; decide) (by decide) (by decide)
    (by rw [hrows]; decide)
  have hids' : rows'.map Job.id = [1, 3] := by
    have hclaimable : (((recoverExpiredJobs "mail".toList (.waited 2000000 0) t.jobs).rows.filter
        (isClaimable "mail".toList 2000000)).map Job.id) = [4, 1, 3] := by
      rw [recoverExpiredJobs_rows, hrows]
      decide
    rw [dequeueInit_ids h', claimIds]
    show ((((recoverExpiredJobs "mail".toList (.waited 2000000 0) t.jobs).rows.filter
      (isClaimable "mail".toList 2000000)).map Job.id).mergeSort _).take 2 = [1, 3]
    rw [hclaimable]
    simp [List.mergeSort, List.MergeSort.Internal.splitInTwo]
  refine ⟨t, rows, t', rows', h, h', hids, hids', ⟨q, hselected⟩, ?_⟩
  intro x hx y hy hid
  obtain ⟨-, hended, hnext⟩ := hagain _ _ _ _ _ h' x hx y hy hid
  exact ⟨hended, hnext⟩

theorem exists_rows {r : QueueState × Except QueueError (List Job)} {ids : List Int}
    (h : r.2.toOption.map (List.map Job.id) = some ids) :
    ∃ t rows, r = (t, .ok rows) ∧ rows.map Job.id = ids := by
  obtain ⟨t, e | rows⟩ := r
  · cases h
  · exact ⟨t, rows, rfl, Option.some.inj h⟩

/-- Both dequeues are called at once, but the second gets the mutex when the lease has ended. -/
theorem concurrent_dequeues_redeliver :
    ¬ ∀ (s t t' : QueueState) (queue : Str) (n : Int) (clock clock' : DequeueClock)
      (rows rows' : List Job),
      clock'.called = clock.called → clock.claim ≤ clock'.exhaustedPending →
      dequeueInit s queue n clock = (t, .ok rows) → dequeueInit t queue n clock' = (t', .ok rows') →
        ∀ x ∈ rows, ∀ y ∈ rows', y.id ≠ x.id := by
  intro h
  have hfirst : (dequeueInit oneJob "mail".toList 1 (.waited 0 0)).2.toOption.map
      (List.map Job.id) = some [1] := by decide +kernel
  have hsecond : (dequeueInit (dequeueInit oneJob "mail".toList 1 (.waited 0 0)).1 "mail".toList 1
      (.waited 0 2000000)).2.toOption.map (List.map Job.id) = some [1] := by decide +kernel
  obtain ⟨t, rows, hrows, hids⟩ := exists_rows hfirst
  rw [hrows] at hsecond
  obtain ⟨t', rows', hrows', hids'⟩ := exists_rows hsecond
  obtain ⟨x, hx, hxid⟩ : ∃ x ∈ rows, x.id = 1 := List.mem_map.mp (hids ▸ List.mem_cons_self)
  obtain ⟨y, hy, hyid⟩ : ∃ y ∈ rows', y.id = 1 := List.mem_map.mp (hids' ▸ List.mem_cons_self)
  exact h _ _ _ _ _ (.waited 0 0) (.waited 0 2000000) rows rows' rfl (by decide) hrows hrows' x hx y hy
    (hyid.trans hxid.symm)

end Quackapi.Queue
