import Quackapi.Library.Machine
import Quackapi.Library.Slots
import Quackapi.Params.Handlers

/-! The open-session count that SSE and WebSocket streams share. The worker threads of the pool are
the parties, and each action is one atomic step of one of them, so a run is an interleaving. -/

namespace Quackapi.Http
open Library
open Params (StreamTransport)

/-- What `std::atomic<idx_t>` holds after `fetch_add(1)`. -/
def fetchAdd (counter : Nat) : Nat := (counter + 1) % 2 ^ 64

def fetchSub (counter : Nat) : Nat := (counter + (2 ^ 64 - 1)) % 2 ^ 64

def defaultWorkerThreads : Nat := 32

/-- The size of the thread pool, from the option's `int32_t`. -/
def workers (workerThreads : Int32) : Nat :=
  if 0 < workerThreads then workerThreads.toNatClampNeg else defaultWorkerThreads

def websocketSessionLimit (workerThreads : Int32) : Nat := max 1 (workers workerThreads / 2)

/-- How far a worker is with a stream's request. -/
inductive SessionPoint
  | free
  /-- A stream is matched; its slot is not asked for yet. -/
  | matched
  /-- `fetch_add` has returned `before`, which is not compared yet. -/
  | counted (before : Nat)
  /-- The comparison found no slot; `fetch_sub` is still to come. -/
  | refused
  | answering
  | settingUp
  /-- `quackapi_pending_ws` holds the stream until the upgrade. -/
  | handshake
  | running
deriving DecidableEq

/-- A worker with its `QuackapiPendingWebSocket` or `SseProviderState`. -/
structure SessionWorker where
  transport : StreamTransport
  point : SessionPoint
  /-- `session_count` points at the server's counter. -/
  sessionCount : Bool
deriving DecidableEq

structure SessionState where
  websocketSessions : Nat
  workers : List SessionWorker
deriving DecidableEq

inductive SessionAction
  | arrives (t : StreamTransport)
  | fetchAdd
  | compare
  | giveBack
  | setUp
  | upgrade
  /-- The request is over, answered or failed, and the worker's object is destroyed. -/
  | leaves
deriving DecidableEq

inductive SlotEffect
  | quiet
  | took (before : Nat)
  | gaveBack
deriving DecidableEq

def SessionWorker.destroy (worker : SessionWorker) (counter : Nat) :
    SessionWorker × Nat × SlotEffect :=
  let worker' := { worker with point := .free, sessionCount := false }
  if worker.sessionCount then (worker', fetchSub counter, .gaveBack) else (worker', counter, .quiet)

def workerStep (limit counter : Nat) (worker : SessionWorker) :
    SessionAction → Option (SessionWorker × Nat × SlotEffect)
  | .arrives t =>
    if worker.point = .free then some (⟨t, .matched, false⟩, counter, .quiet) else none
  | .fetchAdd =>
    if worker.point = .matched then
      some ({ worker with point := .counted counter }, fetchAdd counter, .took counter)
    else none
  | .compare =>
    match worker.point with
    | .counted before =>
      if limit ≤ before then some ({ worker with point := .refused }, counter, .quiet)
      else some ({ worker with point := .settingUp, sessionCount := true }, counter, .quiet)
    | _ => none
  | .giveBack =>
    if worker.point = .refused then
      some ({ worker with point := .answering }, fetchSub counter, .gaveBack)
    else none
  -- policies, statement and parameters; a provider runs at once, a socket after its upgrade
  | .setUp =>
    if worker.point = .settingUp then
      let point := match worker.transport with
        | .sse => .running
        | .ws => .handshake
      some ({ worker with point }, counter, .quiet)
    else none
  | .upgrade =>
    if worker.point = .handshake then some ({ worker with point := .running }, counter, .quiet)
    else none
  -- nothing between `fetch_add` and the end of its `if` can fail
  | .leaves =>
    match worker.point with
    | .matched | .answering | .settingUp | .handshake | .running => some (worker.destroy counter)
    | .free | .counted _ | .refused => none

def sessionServer (limit : Nat) : Machine SessionState (Nat × SessionAction) SlotEffect where
  step s a :=
    match s.workers[a.1]? with
    | none => (s, .quiet)
    | some worker =>
      match workerStep limit s.websocketSessions worker a.2 with
      | none => (s, .quiet)
      | some (worker', counter, effect) =>
        (⟨counter, s.workers.set a.1 worker'⟩, effect)

/-- A server as `Start` leaves it. -/
def startedServer (workerThreads : Int32) : SessionState where
  websocketSessions := 0
  workers := List.replicate (workers workerThreads) ⟨.sse, .free, false⟩

/-- The slot is a session's: it is admitted, or what `fetch_add` returned lets it be. -/
def SessionWorker.isOpen (limit : Nat) (worker : SessionWorker) : Bool :=
  match worker.point with
  | .counted before => decide (before < limit)
  | _ => worker.sessionCount

/-- The slot is that of an admission that is rejected. -/
def SessionWorker.isRejecting (limit : Nat) (worker : SessionWorker) : Bool :=
  match worker.point with
  | .counted before => decide (limit ≤ before)
  | .refused => true
  | _ => false

def SessionWorker.holdsSlot (worker : SessionWorker) : Bool :=
  match worker.point with
  | .counted _ | .refused => true
  | _ => worker.sessionCount

def SessionWorker.isAdmitting (worker : SessionWorker) : Bool :=
  match worker.point with
  | .counted _ | .refused => true
  | _ => false

def SessionWorker.isRunning (worker : SessionWorker) : Bool := worker.point = .running

def SessionState.openSessions (limit : Nat) (s : SessionState) : Nat :=
  s.workers.countP (·.isOpen limit)

def SessionState.rejectingSlots (limit : Nat) (s : SessionState) : Nat :=
  s.workers.countP (·.isRejecting limit)

def SessionState.runningSessions (s : SessionState) : Nat := s.workers.countP (·.isRunning)

def SessionState.holds (s : SessionState) (w : Nat) : Bool := s.workers[w]?.any (·.holdsSlot)

/-- The pointer is set exactly from the admission to the end. -/
def SessionWorker.WellFormed (worker : SessionWorker) : Prop :=
  match worker.point with
  | .settingUp | .handshake | .running => worker.sessionCount = true
  | _ => worker.sessionCount = false

theorem isOpen_of_holdsSlot_false {worker : SessionWorker} (limit : Nat)
    (h : worker.holdsSlot = false) : worker.isOpen limit = false := by
  obtain ⟨transport, point, sessionCount⟩ := worker
  cases point <;> simp_all [SessionWorker.holdsSlot, SessionWorker.isOpen]

theorem holdsSlot_of_not_admitting {worker : SessionWorker} (h : worker.isAdmitting = false) :
    worker.holdsSlot = worker.sessionCount := by
  obtain ⟨transport, point, sessionCount⟩ := worker
  cases point <;> simp_all [SessionWorker.isAdmitting, SessionWorker.holdsSlot]

theorem holdsSlot_count {worker : SessionWorker} (hwf : worker.WellFormed) (limit : Nat) :
    worker.holdsSlot.toNat = (worker.isOpen limit).toNat + (worker.isRejecting limit).toNat := by
  obtain ⟨transport, point, sessionCount⟩ := worker
  cases point with
  | counted before =>
    by_cases hb : limit ≤ before
    · simp [SessionWorker.holdsSlot, SessionWorker.isOpen, SessionWorker.isRejecting, hb]
    · have hlt : before < limit := Nat.lt_of_not_le hb
      simp [SessionWorker.holdsSlot, SessionWorker.isOpen, SessionWorker.isRejecting, hb, hlt]
  | _ => simp_all [SessionWorker.WellFormed, SessionWorker.holdsSlot, SessionWorker.isOpen,
      SessionWorker.isRejecting]

theorem isOpen_of_isRunning {worker : SessionWorker} (hwf : worker.WellFormed) (limit : Nat)
    (h : worker.isRunning = true) : worker.isOpen limit = true := by
  obtain ⟨transport, point, sessionCount⟩ := worker
  have hpoint : point = .running := of_decide_eq_true h
  subst hpoint
  exact hwf

/-- All that a step can do: leave the slots alone, take one or give one back. -/
inductive StepCases (limit counter : Nat) (worker worker' : SessionWorker) :
    SessionAction → Nat → SlotEffect → Prop
  | quiet (a : SessionAction) (hholds : worker'.holdsSlot = worker.holdsSlot)
      (hopen : worker'.isOpen limit = worker.isOpen limit) :
      StepCases limit counter worker worker' a counter .quiet
  | took (hpoint : worker.point = .matched) (hbefore : worker.holdsSlot = false)
      (hholds : worker'.holdsSlot = true) (hopen : worker'.isOpen limit = decide (counter < limit)) :
      StepCases limit counter worker worker' .fetchAdd (fetchAdd counter) (.took counter)
  | gaveBack (a : SessionAction) (hbefore : worker.holdsSlot = true)
      (hrejecting : worker.isRejecting limit = true → a = .giveBack)
      (hholds : worker'.holdsSlot = false) :
      StepCases limit counter worker worker' a (fetchSub counter) .gaveBack

theorem destroy_cases {limit counter : Nat} {worker : SessionWorker} (hwf : worker.WellFormed)
    (hadmitting : worker.isAdmitting = false) :
    (worker.destroy counter).1.WellFormed ∧
      StepCases limit counter worker (worker.destroy counter).1 .leaves (worker.destroy counter).2.1
        (worker.destroy counter).2.2 := by
  have hpoints : worker.holdsSlot = worker.sessionCount ∧
      worker.isOpen limit = worker.sessionCount ∧ worker.isRejecting limit = false := by
    obtain ⟨transport, point, sessionCount⟩ := worker
    cases point <;>
      simp_all [SessionWorker.isAdmitting, SessionWorker.holdsSlot, SessionWorker.isOpen,
        SessionWorker.isRejecting]
  obtain ⟨hholds, hopen, hrejecting⟩ := hpoints
  unfold SessionWorker.destroy
  cases hcount : worker.sessionCount with
  | true =>
    refine ⟨rfl, .gaveBack _ (hholds.trans hcount) (fun h => ?_) rfl⟩
    rw [hrejecting] at h
    cases h
  | false => exact ⟨rfl, .quiet _ (hholds.trans hcount).symm (hopen.trans hcount).symm⟩

theorem workerStep_cases {limit counter : Nat} {worker : SessionWorker} {a : SessionAction}
    {r : SessionWorker × Nat × SlotEffect} (hwf : worker.WellFormed)
    (h : workerStep limit counter worker a = some r) :
    r.1.WellFormed ∧ StepCases limit counter worker r.1 a r.2.1 r.2.2 := by
  obtain ⟨transport, point, sessionCount⟩ := worker
  cases a with
  | arrives t =>
    simp only [workerStep] at h
    split at h
    · next hpoint =>
      cases h
      subst hpoint
      have hnull : sessionCount = false := hwf
      exact ⟨rfl, .quiet _ hnull.symm hnull.symm⟩
    · cases h
  | fetchAdd =>
    simp only [workerStep] at h
    split at h
    · next hpoint =>
      cases h
      subst hpoint
      exact ⟨hwf, .took rfl hwf rfl rfl⟩
    · cases h
  | compare =>
    simp only [workerStep] at h
    split at h
    · next before =>
      split at h
      · next hfull =>
        cases h
        have hopen : (SessionWorker.mk transport (.counted before) sessionCount).isOpen limit = false :=
          decide_eq_false (Nat.not_lt.mpr hfull)
        have hnull : sessionCount = false := hwf
        exact ⟨hwf, .quiet _ rfl (hnull.trans hopen.symm)⟩
      · next hfree =>
        cases h
        have hopen : (SessionWorker.mk transport (.counted before) sessionCount).isOpen limit = true :=
          decide_eq_true (Nat.lt_of_not_le hfree)
        exact ⟨rfl, .quiet _ rfl hopen.symm⟩
    · cases h
  | giveBack =>
    simp only [workerStep] at h
    split at h
    · next hpoint =>
      cases h
      subst hpoint
      exact ⟨hwf, .gaveBack _ rfl (fun _ => rfl) hwf⟩
    · cases h
  | setUp =>
    simp only [workerStep] at h
    split at h
    · next hpoint =>
      cases h
      subst hpoint
      cases transport
      · exact ⟨hwf, .quiet _ rfl rfl⟩
      · exact ⟨hwf, .quiet _ rfl rfl⟩
    · cases h
  | upgrade =>
    simp only [workerStep] at h
    split at h
    · next hpoint =>
      cases h
      subst hpoint
      exact ⟨hwf, .quiet _ rfl rfl⟩
    · cases h
  | leaves => cases point <;> cases h <;> exact destroy_cases hwf rfl

structure SlotsCounted (limit n : Nat) (s : SessionState) : Prop where
  size : s.workers.length = n
  wellFormed : ∀ worker ∈ s.workers, worker.WellFormed
  counter : s.websocketSessions = s.workers.countP (·.holdsSlot)
  bounded : s.openSessions limit ≤ limit

theorem sessionServer_step {limit n : Nat} {s : SessionState} (hs : SlotsCounted limit n s)
    (a : Nat × SessionAction) :
    (sessionServer limit).step s a = (s, .quiet) ∨
      ∃ worker worker', s.workers[a.1]? = some worker ∧ worker'.WellFormed ∧
        ((sessionServer limit).step s a).1.workers = s.workers.set a.1 worker' ∧
        StepCases limit s.websocketSessions worker worker' a.2
          ((sessionServer limit).step s a).1.websocketSessions ((sessionServer limit).step s a).2 := by
  simp only [sessionServer]
  cases hworker : s.workers[a.1]? with
  | none => exact .inl rfl
  | some worker =>
    cases hstep : workerStep limit s.websocketSessions worker a.2 with
    | none => exact .inl (by simp only [hstep])
    | some r =>
      simp only [hstep]
      obtain ⟨hwf, hcases⟩ := workerStep_cases (hs.wellFormed worker (List.mem_of_getElem? hworker)) hstep
      exact .inr ⟨worker, r.1, rfl, hwf, rfl, hcases⟩

theorem countP_holdsSlot {workers : List SessionWorker} (limit : Nat)
    (hwf : ∀ worker ∈ workers, worker.WellFormed) :
    workers.countP (·.holdsSlot) =
      workers.countP (·.isOpen limit) + workers.countP (·.isRejecting limit) := by
  induction workers with
  | nil => rfl
  | cons worker workers ih =>
    have hhead := holdsSlot_count (hwf worker (List.mem_cons_self ..)) limit
    have htail := ih fun w hw => hwf w (List.mem_cons_of_mem _ hw)
    simp only [List.countP_cons, htail]
    cases hh : worker.holdsSlot <;> cases ho : worker.isOpen limit <;>
      cases hr : worker.isRejecting limit <;> simp [hh, ho, hr] at hhead ⊢ <;> omega

theorem SlotsCounted.counter_eq {limit n : Nat} {s : SessionState} (hs : SlotsCounted limit n s) :
    s.websocketSessions = s.openSessions limit + s.rejectingSlots limit :=
  hs.counter.trans (countP_holdsSlot limit hs.wellFormed)

theorem StepCases.openSessions {limit w : Nat} {s : SessionState} {worker worker' : SessionWorker}
    (hworker : s.workers[w]? = some worker) {a : SessionAction} {counter : Nat} {effect : SlotEffect}
    (h : StepCases limit s.websocketSessions worker worker' a counter effect) :
    (s.workers.set w worker').countP (·.isOpen limit) ≤ s.openSessions limit ∨
      (s.workers.set w worker').countP (·.isOpen limit) = s.openSessions limit + 1 ∧
        s.websocketSessions < limit := by
  cases h with
  | quiet _ hholds hopen => exact .inl (Nat.le_of_eq (countP_set_of_eq hworker hopen))
  | took _ hbefore hholds hopen =>
    have hclosed := isOpen_of_holdsSlot_false limit hbefore
    by_cases hfree : s.websocketSessions < limit
    · exact .inr ⟨countP_set_of_false (p := (·.isOpen limit)) hworker hclosed
        (hopen.trans (decide_eq_true hfree)), hfree⟩
    · have hsame := hopen.trans ((decide_eq_false hfree).trans hclosed.symm)
      exact .inl (Nat.le_of_eq (countP_set_of_eq hworker hsame))
  | gaveBack _ hbefore _ hholds =>
    have hclosed := isOpen_of_holdsSlot_false limit hholds
    cases hopen : worker.isOpen limit with
    | true =>
      have hcount := countP_set_of_true (p := (·.isOpen limit)) hworker hopen hclosed
      exact .inl (Nat.le_of_lt (Nat.lt_of_succ_le (Nat.le_of_eq hcount)))
    | false => exact .inl (Nat.le_of_eq (countP_set_of_eq hworker (hclosed.trans hopen.symm)))

theorem StepCases.counter {limit n w : Nat} (hn : n < 2 ^ 64) {s : SessionState}
    (hs : SlotsCounted limit n s) {worker worker' : SessionWorker}
    (hworker : s.workers[w]? = some worker) {a : SessionAction} {counter : Nat} {effect : SlotEffect}
    (h : StepCases limit s.websocketSessions worker worker' a counter effect) :
    counter = (s.workers.set w worker').countP (·.holdsSlot) := by
  have hcounter := hs.counter
  have hsize : ∀ workers : List SessionWorker, workers.length = n →
      workers.countP (·.holdsSlot) ≤ n := by
    rintro workers rfl
    exact List.countP_le_length
  have hold := hsize _ hs.size
  have hnew := hsize (s.workers.set w worker') (List.length_set.trans hs.size)
  cases h with
  | quiet _ hholds hopen => rw [hcounter, countP_set_of_eq hworker hholds]
  | took _ hbefore hholds hopen =>
    have hcount := countP_set_of_false (p := (·.holdsSlot)) hworker hbefore hholds
    unfold fetchAdd
    omega
  | gaveBack _ hbefore _ hholds =>
    have hcount := countP_set_of_true (p := (·.holdsSlot)) hworker hbefore hholds
    unfold fetchSub
    omega

theorem SlotsCounted.step {limit n : Nat} (hn : n < 2 ^ 64) {s : SessionState} (hs : SlotsCounted limit n s)
    (a : Nat × SessionAction) : SlotsCounted limit n ((sessionServer limit).step s a).1 := by
  rcases sessionServer_step hs a with hquiet | ⟨worker, worker', hworker, hwf, hworkers, hcases⟩
  · rw [hquiet]
    exact hs
  refine ⟨?_, ?_, ?_, ?_⟩
  · rw [hworkers, List.length_set, hs.size]
  · rw [hworkers]
    exact forall_mem_set hs.wellFormed hwf
  · rw [hworkers]
    exact hcases.counter hn hs hworker
  · have hcounter := hs.counter_eq
    have hbounded := hs.bounded
    unfold SessionState.openSessions
    rw [hworkers]
    rcases hcases.openSessions hworker with hle | ⟨heq, hfree⟩
    · exact Nat.le_trans hle hbounded
    · omega

theorem workers_lt (workerThreads : Int32) : workers workerThreads < 2 ^ 64 := by
  unfold workers
  split
  · have hlt := workerThreads.toNatClampNeg_lt
    omega
  · decide

theorem slotsCounted_startedServer (workerThreads : Int32) :
    SlotsCounted (websocketSessionLimit workerThreads) (workers workerThreads) (startedServer workerThreads) := by
  have hnone : ∀ p : SessionWorker → Bool, p ⟨.sse, .free, false⟩ = false →
      (startedServer workerThreads).workers.countP p = 0 := by
    intro p hp
    refine List.countP_eq_zero.mpr fun worker hworker => ?_
    rw [List.eq_of_mem_replicate hworker, hp]
    exact Bool.false_ne_true
  refine ⟨List.length_replicate, ?_, (hnone _ rfl).symm, ?_⟩
  · intro worker hworker
    rw [List.eq_of_mem_replicate hworker]
    rfl
  · unfold SessionState.openSessions
    rw [hnone _ rfl]
    exact Nat.zero_le _

theorem slotsCounted_run (workerThreads : Int32) (as : List (Nat × SessionAction)) :
    SlotsCounted (websocketSessionLimit workerThreads) (workers workerThreads)
      ((sessionServer (websocketSessionLimit workerThreads)).run (startedServer workerThreads) as) :=
  Machine.run_invariant _ (fun _ a hs => hs.step (workers_lt workerThreads) a)
    (slotsCounted_startedServer workerThreads) as

def slotsTaken (w : Nat) (history : List ((Nat × SessionAction) × SlotEffect)) : Nat :=
  history.countP fun e => decide (e.1.1 = w) &&
    match e.2 with
    | .took _ => true
    | _ => false

def slotsGivenBack (w : Nat) (history : List ((Nat × SessionAction) × SlotEffect)) : Nat :=
  history.countP fun e => decide (e.1.1 = w) && decide (e.2 = .gaveBack)

theorem slots_step {limit n : Nat} {s : SessionState} (hs : SlotsCounted limit n s)
    (history : List ((Nat × SessionAction) × SlotEffect)) (a : Nat × SessionAction) {w : Nat}
    (h : slotsTaken w history = slotsGivenBack w history + (s.holds w).toNat) :
    slotsTaken w (history ++ [(a, ((sessionServer limit).step s a).2)]) =
      slotsGivenBack w (history ++ [(a, ((sessionServer limit).step s a).2)]) +
        (((sessionServer limit).step s a).1.holds w).toNat := by
  obtain ⟨v, act⟩ := a
  unfold slotsTaken slotsGivenBack at h ⊢
  simp only [List.countP_append, List.countP_singleton]
  rcases sessionServer_step hs (v, act) with hquiet | ⟨worker, worker', hworker, _, hworkers, hcases⟩
  · rw [hquiet]
    simpa using h
  unfold SessionState.holds at h ⊢
  rw [hworkers]
  dsimp only at hworker hcases
  by_cases hv : v = w
  · subst hv
    rw [hworker] at h
    rw [List.getElem?_set_self (lt_of_getElem? hworker)]
    generalize ((sessionServer limit).step s (v, act)).1.websocketSessions = counter at hcases
    generalize ((sessionServer limit).step s (v, act)).2 = effect at hcases ⊢
    cases hcases with
    | quiet _ hholds hopen =>
      simpa [hholds] using h
    | took _ hbefore hholds hopen =>
      simpa [hholds, hbefore] using h
    | gaveBack _ hbefore _ hholds =>
      simpa [hholds, hbefore] using h
  · rw [List.getElem?_set_ne hv]
    simpa [hv] using h

theorem slots_run (workerThreads : Int32) (as : List (Nat × SessionAction)) (w : Nat) :
    slotsTaken w ((sessionServer (websocketSessionLimit workerThreads)).history
        (startedServer workerThreads) as) =
      slotsGivenBack w ((sessionServer (websocketSessionLimit workerThreads)).history
        (startedServer workerThreads) as) +
        (((sessionServer (websocketSessionLimit workerThreads)).run
          (startedServer workerThreads) as).holds w).toNat := by
  have hstart : (startedServer workerThreads).holds w = false := by
    unfold SessionState.holds startedServer
    simp only [List.getElem?_replicate]
    split <;> rfl
  refine (Machine.history_invariant (sessionServer (websocketSessionLimit workerThreads))
    (I := fun history s => SlotsCounted (websocketSessionLimit workerThreads) (workers workerThreads) s ∧
      slotsTaken w history = slotsGivenBack w history + (s.holds w).toNat) ?_ ?_ as).2
  · refine ⟨slotsCounted_startedServer workerThreads, ?_⟩
    rw [hstart]
    rfl
  · rintro history s a ⟨hs, h⟩
    exact ⟨hs.step (workers_lt workerThreads) a, slots_step hs history a h⟩

/-- While an admission is rejected, from its `fetch_add` until it gives the
slot back, there is a moment at which the limit's number of sessions is open. -/
def RejectedOnlyWhenFull (limit : Nat) (s : SessionState) (as : List (Nat × SessionAction)) : Prop :=
  ∀ before w rest c, as = before ++ (w, .fetchAdd) :: rest →
    ((sessionServer limit).step ((sessionServer limit).run s before) (w, .fetchAdd)).2 = .took c →
    limit ≤ c →
    limit ≤ ((sessionServer limit).run s before).openSessions limit ∨
      ∃ during, during <+: rest ∧ (w, .giveBack) ∉ during ∧
        limit ≤ ((sessionServer limit).run s (before ++ (w, .fetchAdd) :: during)).openSessions limit

/-- A slot is not asked for while only those of rejected admissions keep the counter at the limit. -/
def NoRacingRejection (limit : Nat) (s : SessionState) (a : Nat × SessionAction) : Prop :=
  a.2 = .fetchAdd → s.workers[a.1]?.map (·.point) = some .matched →
    s.openSessions limit < limit → s.openSessions limit + s.rejectingSlots limit < limit

theorem fetchAdd_took {limit w : Nat} {s : SessionState} {c : Nat}
    (h : ((sessionServer limit).step s (w, .fetchAdd)).2 = .took c) :
    s.workers[w]?.map (·.point) = some .matched ∧ c = s.websocketSessions := by
  simp only [sessionServer, workerStep] at h
  rcases hworker : s.workers[w]? with _ | worker
  · rw [hworker] at h
    cases h
  · rw [hworker] at h
    by_cases hpoint : worker.point = .matched
    · simp only [hpoint, if_true] at h
      exact ⟨congrArg some hpoint, (SlotEffect.took.inj h).symm⟩
    · simp only [hpoint, if_false] at h
      cases h

theorem fetchAdd_of_matched {limit w : Nat} {s : SessionState} {worker : SessionWorker}
    (hworker : s.workers[w]? = some worker) (hpoint : worker.point = .matched) :
    (sessionServer limit).step s (w, .fetchAdd) =
      (⟨fetchAdd s.websocketSessions,
        s.workers.set w { worker with point := .counted s.websocketSessions }⟩,
        .took s.websocketSessions) := by
  simp only [sessionServer, workerStep, hworker, hpoint, if_true]

/-- A worker's rejected admission stands with fewer sessions open than the limit. -/
def RejectedBelow (limit w : Nat) (s : SessionState) : Prop :=
  (∃ worker, s.workers[w]? = some worker ∧ worker.isRejecting limit = true) ∧
    s.openSessions limit < limit

theorem StepCases.isRejecting {limit counter counter' : Nat} {worker worker' : SessionWorker}
    {a : SessionAction} {effect : SlotEffect} (hwf : worker.WellFormed) (hwf' : worker'.WellFormed)
    (h : StepCases limit counter worker worker' a counter' effect) (ha : a ≠ .giveBack)
    (hrejecting : worker.isRejecting limit = true) : worker'.isRejecting limit = true := by
  have hsum := holdsSlot_count hwf limit
  have hsum' := holdsSlot_count hwf' limit
  cases h with
  | quiet _ hholds hopen =>
    rw [hholds, hopen, hsum] at hsum'
    have hsame : (worker'.isRejecting limit).toNat = (worker.isRejecting limit).toNat := by omega
    rw [hrejecting] at hsame
    exact Bool.toNat_eq_one.mp hsame
  | took _ hbefore hholds hopen =>
    rw [hrejecting, hbefore] at hsum
    simp at hsum
  | gaveBack _ hbefore hgives hholds => exact absurd (hgives hrejecting) ha

theorem rejectedBelow_step {limit n w : Nat} {s : SessionState} (hs : SlotsCounted limit n s)
    (h : RejectedBelow limit w s) {a : Nat × SessionAction} (ha : a ≠ (w, .giveBack)) :
    RejectedBelow limit w ((sessionServer limit).step s a).1 := by
  obtain ⟨v, act⟩ := a
  obtain ⟨⟨rejected, hrejected, hrejecting⟩, hbelow⟩ := h
  have hpos : 0 < s.rejectingSlots limit :=
    List.countP_pos_iff.mpr ⟨rejected, List.mem_of_getElem? hrejected, hrejecting⟩
  rcases sessionServer_step hs (v, act) with hquiet | ⟨worker, worker', hworker, hwf, hworkers, hcases⟩
  · rw [hquiet]
    exact ⟨⟨rejected, hrejected, hrejecting⟩, hbelow⟩
  unfold RejectedBelow SessionState.openSessions
  rw [hworkers]
  constructor
  · by_cases hv : v = w
    · subst hv
      obtain rfl : worker = rejected := Option.some.inj (hworker.symm.trans hrejected)
      have hact : act ≠ .giveBack := fun heq => ha (congrArg (Prod.mk v) heq)
      exact ⟨worker', List.getElem?_set_self (lt_of_getElem? hworker),
        hcases.isRejecting (hs.wellFormed _ (List.mem_of_getElem? hworker)) hwf hact hrejecting⟩
    · exact ⟨rejected, (List.getElem?_set_ne hv).trans hrejected, hrejecting⟩
  · have hcounter := hs.counter_eq
    rcases hcases.openSessions hworker with hle | ⟨heq, hfree⟩
    · exact Nat.lt_of_le_of_lt hle hbelow
    · omega

theorem rejectedBelow_fetchAdd {limit w : Nat} {s : SessionState} {worker : SessionWorker}
    (hwf : worker.WellFormed) (hworker : s.workers[w]? = some worker) (hpoint : worker.point = .matched)
    (hbelow : s.openSessions limit < limit) (hfull : limit ≤ s.websocketSessions) :
    RejectedBelow limit w ((sessionServer limit).step s (w, .fetchAdd)).1 := by
  rw [fetchAdd_of_matched hworker hpoint]
  refine ⟨⟨_, List.getElem?_set_self (lt_of_getElem? hworker), decide_eq_true hfull⟩, ?_⟩
  have hclosed : worker.isOpen limit = false := by
    unfold SessionWorker.WellFormed at hwf
    unfold SessionWorker.isOpen
    rw [hpoint] at hwf ⊢
    exact hwf
  have hsame : (s.workers.set w { worker with point := .counted s.websocketSessions }).countP
      (·.isOpen limit) = s.openSessions limit :=
    countP_set_of_eq hworker ((decide_eq_false (Nat.not_lt.mpr hfull)).trans hclosed.symm)
  unfold SessionState.openSessions
  rw [hsame]
  exact hbelow

theorem rejectedOnlyWhenFull_iff {limit n : Nat} (hn : n < 2 ^ 64) {s : SessionState}
    (hs : SlotsCounted limit n s) (as : List (Nat × SessionAction)) :
    RejectedOnlyWhenFull limit s as ↔ (sessionServer limit).Along (NoRacingRejection limit) s as := by
  rw [Machine.along_iff_forall]
  have hreached : ∀ before, SlotsCounted limit n ((sessionServer limit).run s before) :=
    Machine.run_invariant _ (fun _ a ht => ht.step hn a) hs
  constructor
  · rintro h before ⟨w, act⟩ rest heq rfl hmatched hbelow
    obtain ⟨worker, hworker, hpoint⟩ := Option.map_eq_some_iff.mp hmatched
    have hthere := hreached before
    by_contra hrace
    have hfull : limit ≤ ((sessionServer limit).run s before).websocketSessions := by
      rw [hthere.counter_eq]
      exact Nat.not_lt.mp hrace
    have htook : ((sessionServer limit).step _ _).2 = _ :=
      congrArg Prod.snd (fetchAdd_of_matched hworker hpoint)
    rcases h before w rest _ heq htook hfull with hnow | ⟨during, -, hnone, hlater⟩
    · exact Nat.not_lt.mpr hnow hbelow
    · have hstart := rejectedBelow_fetchAdd (hthere.wellFormed _ (List.mem_of_getElem? hworker))
        hworker hpoint hbelow hfull
      have halong : (sessionServer limit).Along (fun _ a => a ≠ (w, .giveBack))
          ((sessionServer limit).step ((sessionServer limit).run s before) (w, .fetchAdd)).1 during := by
        rw [Machine.along_iff_forall]
        rintro pre a post rfl ha
        exact hnone (ha ▸ List.mem_append_right pre (List.mem_cons_self ..))
      have hend := Machine.run_invariant_along (sessionServer limit)
        (P := fun t => SlotsCounted limit n t ∧ RejectedBelow limit w t)
        (fun t a ht ha => ⟨ht.1.step hn a, rejectedBelow_step ht.1 ht.2 ha⟩)
        ⟨hthere.step hn _, hstart⟩ halong
      rw [Machine.run_append, Machine.run_cons] at hlater
      exact Nat.not_lt.mpr hlater hend.2.2
  · rintro h before w rest c heq htook hfull
    obtain ⟨hmatched, rfl⟩ := fetchAdd_took htook
    rw [(hreached before).counter_eq] at hfull
    refine .inl (Nat.le_of_not_lt fun hbelow => ?_)
    exact Nat.not_lt.mpr hfull (h before _ rest heq rfl hmatched hbelow)

/-- Of the server's runs: sessions never outnumber the limit, every slot taken is given back once, the
counter counts the open sessions outside admissions; and admissions are rejected only at the limit
exactly in the runs in which none asks for a slot that a rejected one has still to give back. -/
theorem session_slots (workerThreads : Int32) (as : List (Nat × SessionAction)) :
    let limit := websocketSessionLimit workerThreads
    let s := (sessionServer limit).run (startedServer workerThreads) as
    let history := (sessionServer limit).history (startedServer workerThreads) as
    s.runningSessions ≤ limit ∧
    (∀ w, slotsTaken w history = slotsGivenBack w history + (s.holds w).toNat) ∧
    ((∀ worker ∈ s.workers, worker.isAdmitting = false) →
      s.websocketSessions = s.workers.countP (·.sessionCount)) ∧
    (RejectedOnlyWhenFull limit (startedServer workerThreads) as ↔
      (sessionServer limit).Along (NoRacingRejection limit) (startedServer workerThreads) as) := by
  intro limit s history
  have hs := slotsCounted_run workerThreads as
  refine ⟨?_, slots_run workerThreads as, ?_,
    rejectedOnlyWhenFull_iff (workers_lt workerThreads) (slotsCounted_startedServer workerThreads) as⟩
  · have hle : s.runningSessions ≤ s.openSessions limit :=
      List.countP_mono_left fun worker hworker => isOpen_of_isRunning (hs.wellFormed worker hworker) limit
    exact Nat.le_trans hle hs.bounded
  · intro hquiet
    refine hs.counter.trans (List.countP_congr fun worker hworker => ?_)
    rw [holdsSlot_of_not_admitting (hquiet worker hworker)]

/-- One session runs, a second is rejected, and before its slot is back the first ends: the next
admission is rejected with no session open. -/
def racingAdmissions : List (Nat × SessionAction) :=
  [(0, .arrives .ws), (0, .fetchAdd), (0, .compare), (0, .setUp), (0, .upgrade),
    (1, .arrives .ws), (1, .fetchAdd), (1, .compare), (0, .leaves),
    (0, .arrives .ws), (0, .fetchAdd), (0, .compare), (0, .giveBack), (0, .leaves),
    (1, .giveBack), (1, .leaves)]

theorem racingAdmissions_rejected :
    websocketSessionLimit 2 = 1 ∧
    ((sessionServer 1).run (startedServer 2) (racingAdmissions.take 12)).workers.map (·.point) =
      [.refused, .refused] ∧
    (∀ k ∈ List.range' 9 8,
      ((sessionServer 1).run (startedServer 2) (racingAdmissions.take k)).openSessions 1 = 0) ∧
    ¬ RejectedOnlyWhenFull 1 (startedServer 2) racingAdmissions := by
  refine ⟨by decide, by decide, by decide, ?_⟩
  have hcounted : SlotsCounted 1 2 (startedServer 2) := slotsCounted_startedServer 2
  rw [rejectedOnlyWhenFull_iff (by decide) hcounted, Machine.along_iff_forall]
  intro h
  have hrace := h (racingAdmissions.take 10) (0, .fetchAdd) (racingAdmissions.drop 11) rfl rfl (by decide)
  exact absurd (hrace (by decide)) (by decide)

end Quackapi.Http
