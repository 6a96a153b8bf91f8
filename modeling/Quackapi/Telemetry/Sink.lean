import Mathlib.Data.List.Nodup
import Mathlib.Data.List.Range
import Quackapi.Library.Machine
import Quackapi.Util.Str

/-! The access log's table sink: requests that enqueue records, one worker that writes them in
batches, and callers that wait for it to have written theirs. Each critical section is one step, and
so is each call that may fail. `log`, `table`, `stderr` and the positions are there to speak of. -/

namespace Quackapi.Telemetry
open Library

/-- `QUACKAPI_ACCESS_LOG_QUEUE_CAPACITY`. -/
def queueCapacity : Nat := 10000

def nanosPerSecond : Nat := 1000000000

/-- A record with its position among all that were enqueued. -/
structure Queued (ρ : Type) where
  seq : Nat
  record : ρ
deriving DecidableEq, Repr

inductive Diversion
  | overflow
  | backoff
  | failedBatch
deriving DecidableEq, Repr

/-- Where the worker is; the batch it has taken goes with it. -/
inductive Worker (ρ : Type)
  | starting
  | waiting
  | taken (batch : List (Queued ρ))
  | writing (batch : List (Queued ρ))
  | written (count : Nat)
  | exported
  | failing (batch : List (Queued ρ)) (reason : Str)
  | diverting (batch : List (Queued ρ))
  | stopped
deriving DecidableEq, Repr

structure SinkState (ρ : Type) where
  pending : List (Queued ρ)
  stopping : Bool
  flushRequested : Bool
  flushing : Bool
  failed : Bool
  retryAt : Nat
  retryDelaySeconds : Nat
  overflowCount : Nat
  overflowWarningEmitted : Bool
  exportedTotal : Nat
  lastError : Str
  lastExport : Option Nat
  worker : Worker ρ
  /-- The rows of the table. -/
  table : List (Queued ρ)
  stderr : List (Queued ρ × Diversion)
  /-- Every record that was enqueued. -/
  log : List (Queued ρ)
  /-- The callers of `FlushPending` that wait, each with the number of records enqueued before it. -/
  callers : List (Nat × Nat)

/-- Clock readings are nanoseconds; what the engine throws is the outcome of the worker's step. -/
inductive SinkAction (ρ : Type)
  | enqueue (entry : ρ) (now : Nat)
  | flushPending (caller : Nat)
  | wake (caller : Nat)
  | shutdown
  | work (now : Nat) (thrown : Option Str)

inductive SinkAnswer
  | done
  | returned (caller before : Nat)
  | notRunning
deriving DecidableEq, Repr

section
variable {ρ : Type}

def emptySink : SinkState ρ where
  pending := []
  stopping := false
  flushRequested := false
  flushing := false
  failed := false
  retryAt := 0
  retryDelaySeconds := 1
  overflowCount := 0
  overflowWarningEmitted := false
  exportedTotal := 0
  lastError := []
  lastExport := none
  worker := .starting
  table := []
  stderr := []
  log := []
  callers := []

def emitStderr (s : SinkState ρ) (entry : Queued ρ) (why : Diversion) : SinkState ρ :=
  { s with stderr := s.stderr ++ [(entry, why)] }

def nextEntry (log : List (Queued ρ)) (record : ρ) : Queued ρ := ⟨log.length, record⟩

def accept (s : SinkState ρ) (entry : Queued ρ) : SinkState ρ := { s with log := s.log ++ [entry] }

def enqueue (s : SinkState ρ) (record : ρ) (now : Nat) : SinkState ρ :=
  let entry := nextEntry s.log record
  if s.failed && decide (now < s.retryAt) then emitStderr (accept s entry) entry .backoff
  else if queueCapacity ≤ s.pending.length then
    emitStderr (accept { s with
      overflowCount := s.overflowCount + 1
      overflowWarningEmitted := true } entry) entry .overflow
  else accept { s with pending := s.pending ++ [entry] } entry

def flushPending (s : SinkState ρ) (caller : Nat) : SinkState ρ × SinkAnswer :=
  if s.stopping then (s, .notRunning)
  else if s.pending.isEmpty && !s.flushing then (s, .returned caller s.log.length)
  else ({ s with
    flushRequested := true
    callers := s.callers ++ [(caller, s.log.length)] }, .done)

/-- A caller looks at its condition whenever it is woken. -/
def wake (s : SinkState ρ) (caller : Nat) : SinkState ρ × SinkAnswer :=
  match s.callers.find? (·.1 = caller) with
  | none => (s, .done)
  | some call =>
    if !s.flushRequested && !s.flushing then
      ({ s with callers := s.callers.eraseP (·.1 = caller) }, .returned caller call.2)
    else (s, .done)

def markExported (s : SinkState ρ) (count now : Nat) : SinkState ρ :=
  { s with exportedTotal := s.exportedTotal + count, lastExport := some now }

def markFailed (s : SinkState ρ) (reason : Str) (now : Nat) : SinkState ρ :=
  { s with
    lastError := reason
    failed := true
    retryAt := now + s.retryDelaySeconds * nanosPerSecond
    retryDelaySeconds := min (s.retryDelaySeconds * 2) 60 }

def markRecovered (s : SinkState ρ) : SinkState ρ :=
  if s.failed then { s with failed := false, retryDelaySeconds := 1 } else s

/-- The first critical section of a round: the worker takes all that is pending. -/
def takeBatch (s : SinkState ρ) : SinkState ρ :=
  if s.pending.isEmpty then
    { s with flushRequested := false, worker := if s.stopping then .stopped else .waiting }
  else { s with pending := [], flushing := true, worker := .taken s.pending }

def endRound (s : SinkState ρ) : SinkState ρ :=
  { s with
    flushing := false
    flushRequested := s.flushRequested && !s.pending.isEmpty
    worker := .waiting }

/-- One step of `Run`. -/
def work (s : SinkState ρ) (now : Nat) (thrown : Option Str) : SinkState ρ :=
  match s.worker with
  | .starting =>
    match thrown with
    | none => { s with worker := .waiting }
    | some reason => { markFailed s reason now with worker := .waiting }
  | .waiting => takeBatch s
  | .taken batch =>
    if s.failed && decide (now < s.retryAt) then { s with worker := .diverting batch }
    else { s with worker := .writing batch }
  | .writing batch =>
    match thrown with
    | none => { s with table := s.table ++ batch, worker := .written batch.length }
    | some reason => { s with worker := .failing batch reason }
  | .written count => { markExported s count now with worker := .exported }
  | .exported => { markRecovered s with worker := .diverting [] }
  | .failing batch reason => { markFailed s reason now with worker := .diverting batch }
  | .diverting (entry :: batch) =>
    { emitStderr s entry .failedBatch with worker := .diverting batch }
  | .diverting [] => endRound s
  | .stopped => s

def sink : Machine (SinkState ρ) (SinkAction ρ) SinkAnswer where
  step s
    | .enqueue entry now => (enqueue s entry now, .done)
    | .flushPending caller => flushPending s caller
    | .wake caller => wake s caller
    | .shutdown => ({ s with stopping := true }, .done)
    | .work now thrown => (work s now thrown, .done)

/-- The batch being written; once it is in the table there is none. -/
def batchOf : Worker ρ → List (Queued ρ)
  | .taken batch => batch
  | .writing batch => batch
  | .failing batch _ => batch
  | .diverting batch => batch
  | _ => []

def inFlight : Worker ρ → Bool
  | .starting => false
  | .waiting => false
  | .stopped => false
  | _ => true

def diverted (s : SinkState ρ) : List (Queued ρ) := s.stderr.map Prod.fst

/-- All places a record can be in, in the order in which it passes through them. -/
def places (s : SinkState ρ) : List (Queued ρ) :=
  s.table ++ batchOf s.worker ++ s.pending ++ diverted s

structure SinkInv (s : SinkState ρ) : Prop where
  partition : (places s).Perm s.log
  positions : s.log.map Queued.seq = List.range s.log.length
  order : (s.table ++ batchOf s.worker ++ s.pending).Sublist s.log
  bound : s.pending.length ≤ queueCapacity
  counted : s.overflowCount = (s.stderr.filter (·.2 = .overflow)).length
  inFlight : s.flushing = inFlight s.worker
  /-- A caller that no flush is due for has nothing left to wait for. -/
  callers : ∀ call ∈ s.callers, call.2 ≤ s.log.length ∧
    (s.flushRequested = true ∨ ∀ x ∈ batchOf s.worker ++ s.pending, call.2 ≤ x.seq)

theorem sinkInv_emptySink : SinkInv (emptySink : SinkState ρ) where
  partition := List.Perm.nil
  positions := rfl
  order := List.Sublist.slnil
  bound := Nat.zero_le _
  counted := rfl
  inFlight := rfl
  callers := fun _ h => by cases h

theorem positions_accept {log : List (Queued ρ)} (h : log.map Queued.seq = List.range log.length)
    (record : ρ) :
    (log ++ [nextEntry log record]).map Queued.seq =
      List.range (log ++ [nextEntry log record]).length := by
  rw [List.map_append, h, List.length_append, List.length_singleton, List.range_succ]
  rfl

theorem sinkInv_diverted {s s' : SinkState ρ} (h : SinkInv s) (record : ρ) (why : Diversion)
    (hcount : s'.overflowCount = s.overflowCount + if why = .overflow then 1 else 0)
    (hs : s' = { emitStderr (accept s (nextEntry s.log record)) (nextEntry s.log record) why with
      overflowCount := s'.overflowCount
      overflowWarningEmitted := s'.overflowWarningEmitted }) : SinkInv s' := by
  obtain ⟨hpartition, hpositions, horder, hbound, hcounted, hflight, hcallers⟩ := h
  rw [hs]
  refine ⟨?_, positions_accept hpositions record, ?_, hbound, ?_, hflight, ?_⟩
  · have hstep := hpartition.append_right [nextEntry s.log record]
    simpa [places, diverted, emitStderr, accept] using hstep
  · exact horder.trans (List.sublist_append_left _ _)
  · rw [hcount, hcounted]
    cases why <;> simp [emitStderr, accept]
  · intro call hcall
    obtain ⟨hle, hdue⟩ := hcallers call hcall
    refine ⟨?_, hdue⟩
    simp only [emitStderr, accept, List.length_append]
    omega

theorem sinkInv_enqueue {s : SinkState ρ} (h : SinkInv s) (record : ρ) (now : Nat) :
    SinkInv (enqueue s record now) := by
  unfold enqueue
  by_cases hbackoff : (s.failed && decide (now < s.retryAt)) = true
  · simp only [if_pos hbackoff]
    exact sinkInv_diverted h record .backoff rfl rfl
  · simp only [if_neg hbackoff]
    by_cases hfull : queueCapacity ≤ s.pending.length
    · simp only [if_pos hfull]
      exact sinkInv_diverted h record .overflow rfl rfl
    · simp only [if_neg hfull]
      obtain ⟨hpartition, hpositions, horder, hbound, hcounted, hflight, hcallers⟩ := h
      refine ⟨?_, positions_accept hpositions record, ?_, ?_, hcounted, hflight, ?_⟩
      · -- the new record goes in before those on stderr
        refine List.Perm.trans ?_ (hpartition.append_right [nextEntry s.log record])
        simp only [places, accept, diverted, List.append_assoc]
        refine List.Perm.append_left _ (List.Perm.append_left _ (List.Perm.append_left _ ?_))
        exact List.perm_append_comm
      · have happend := horder.append (List.Sublist.refl [nextEntry s.log record])
        simpa [accept] using happend
      · simp only [accept, List.length_append, List.length_singleton]
        omega
      · intro call hcall
        obtain ⟨hle, hdue⟩ := hcallers call hcall
        refine ⟨by simp only [accept, List.length_append]; omega, hdue.imp_right fun hx x hmem => ?_⟩
        simp only [accept, ← List.append_assoc] at hmem
        rcases List.mem_append.mp hmem with hold | hnew
        · exact hx x hold
        · rw [List.mem_singleton.mp hnew]
          exact hle

theorem sinkInv_flushPending {s : SinkState ρ} (h : SinkInv s) (caller : Nat) :
    SinkInv (flushPending s caller).1 := by
  unfold flushPending
  by_cases hstop : s.stopping = true
  · rw [if_pos hstop]
    exact h
  · rw [if_neg hstop]
    by_cases hnothing : (s.pending.isEmpty && !s.flushing) = true
    · rw [if_pos hnothing]
      exact h
    · rw [if_neg hnothing]
      obtain ⟨hpartition, hpositions, horder, hbound, hcounted, hflight, hcallers⟩ := h
      refine ⟨hpartition, hpositions, horder, hbound, hcounted, hflight, fun call hcall => ?_⟩
      rcases List.mem_append.mp hcall with hold | hnew
      · exact ⟨(hcallers call hold).1, .inl rfl⟩
      · rw [List.mem_singleton.mp hnew]
        exact ⟨Nat.le_refl _, .inl rfl⟩

theorem sinkInv_wake {s : SinkState ρ} (h : SinkInv s) (caller : Nat) : SinkInv (wake s caller).1 := by
  unfold wake
  split
  · exact h
  · split
    · obtain ⟨hpartition, hpositions, horder, hbound, hcounted, hflight, hcallers⟩ := h
      exact ⟨hpartition, hpositions, horder, hbound, hcounted, hflight,
        fun call hcall => hcallers call (List.mem_of_mem_eraseP hcall)⟩
    · exact h

structure View (ρ : Type) where
  table : List (Queued ρ)
  batch : List (Queued ρ)
  pending : List (Queued ρ)
  stderr : List (Queued ρ × Diversion)
  log : List (Queued ρ)
  overflowCount : Nat
  flushing : Bool
  inFlight : Bool
  flushRequested : Bool
  callers : List (Nat × Nat)

def view (s : SinkState ρ) : View ρ :=
  ⟨s.table, batchOf s.worker, s.pending, s.stderr, s.log, s.overflowCount, s.flushing,
    inFlight s.worker, s.flushRequested, s.callers⟩

theorem sinkInv_of_view {s s' : SinkState ρ} (hview : view s' = view s) (h : SinkInv s) :
    SinkInv s' := by
  obtain ⟨hpartition, hpositions, horder, hbound, hcounted, hflight, hcallers⟩ := h
  simp only [view, View.mk.injEq] at hview
  obtain ⟨htable, hbatch, hpending, hstderr, hlog, hcount, hflushing, hin, hrequested, hcalls⟩ := hview
  refine ⟨?_, ?_, ?_, ?_, ?_, ?_, ?_⟩
  · rw [places, diverted, htable, hbatch, hpending, hstderr, hlog]
    exact hpartition
  · rw [hlog]
    exact hpositions
  · rw [htable, hbatch, hpending, hlog]
    exact horder
  · rw [hpending]
    exact hbound
  · rw [hcount, hstderr]
    exact hcounted
  · rw [hflushing, hin]
    exact hflight
  · rw [hcalls, hlog, hrequested, hbatch, hpending]
    exact hcallers

theorem sinkInv_takeBatch {s : SinkState ρ} (h : SinkInv s) (hworker : s.worker = .waiting) :
    SinkInv (takeBatch s) := by
  obtain ⟨hpartition, hpositions, horder, hbound, hcounted, hflight, hcallers⟩ := h
  rw [places, hworker] at hpartition
  rw [hworker] at horder hflight
  unfold takeBatch
  by_cases hnone : s.pending.isEmpty = true
  · rw [if_pos hnone]
    have hpending : s.pending = [] := List.isEmpty_iff.mp hnone
    have hbatch : batchOf (if s.stopping then .stopped else .waiting : Worker ρ) = [] := by
      split <;> rfl
    have hidle : inFlight (if s.stopping then .stopped else .waiting : Worker ρ) = false := by
      split <;> rfl
    refine ⟨?_, hpositions, ?_, hbound, hcounted, hflight.trans hidle.symm, fun call hcall => ?_⟩
    · rw [places, hbatch]
      exact hpartition
    · rw [hbatch]
      exact horder
    · -- nothing is left, so whoever waits need not wait
      refine ⟨(hcallers call hcall).1, .inr fun x hx => ?_⟩
      rw [hbatch, hpending] at hx
      cases hx
  · rw [if_neg hnone]
    have hmove : ∀ rest : List (Queued ρ),
        s.table ++ s.pending ++ [] ++ rest = s.table ++ [] ++ s.pending ++ rest := by simp
    refine ⟨?_, hpositions, ?_, Nat.zero_le _, hcounted, rfl, fun call hcall => ?_⟩
    · exact (List.Perm.of_eq (hmove (diverted s))).trans hpartition
    · have heq : s.table ++ s.pending ++ [] = s.table ++ [] ++ s.pending := by simp
      change (s.table ++ s.pending ++ []).Sublist s.log
      rw [heq]
      exact horder
    · obtain ⟨hle, hdue⟩ := hcallers call hcall
      refine ⟨hle, hdue.imp_right fun hx x hmem => hx x ?_⟩
      rw [hworker]
      exact (List.append_nil s.pending ▸ hmem)

theorem sinkInv_endRound {s : SinkState ρ} (h : SinkInv s) (hworker : s.worker = .diverting []) :
    SinkInv (endRound s) := by
  obtain ⟨hpartition, hpositions, horder, hbound, hcounted, hflight, hcallers⟩ := h
  rw [places, hworker] at hpartition
  rw [hworker] at horder
  refine ⟨hpartition, hpositions, horder, hbound, hcounted, rfl, fun call hcall => ?_⟩
  obtain ⟨hle, hdue⟩ := hcallers call hcall
  refine ⟨hle, ?_⟩
  rw [hworker] at hdue
  rcases hdue with hrequested | hx
  · by_cases hnone : s.pending = []
    · exact .inr fun x hx => by simp [endRound, batchOf, hnone] at hx
    · exact .inl (by simp [endRound, hrequested, hnone])
  · exact .inr hx

theorem sinkInv_written {s : SinkState ρ} {batch : List (Queued ρ)} (h : SinkInv s)
    (hworker : s.worker = .writing batch) :
    SinkInv { s with table := s.table ++ batch, worker := .written batch.length } := by
  obtain ⟨hpartition, hpositions, horder, hbound, hcounted, hflight, hcallers⟩ := h
  rw [places, hworker] at hpartition
  rw [hworker] at horder hflight
  refine ⟨?_, hpositions, ?_, hbound, hcounted, hflight, fun call hcall => ?_⟩
  · simpa [places, batchOf, diverted] using hpartition
  · simpa [batchOf] using horder
  · obtain ⟨hle, hdue⟩ := hcallers call hcall
    refine ⟨hle, hdue.imp_right fun hx x hmem => hx x ?_⟩
    rw [hworker]
    exact List.mem_append_right batch hmem

theorem sinkInv_divertOne {s : SinkState ρ} {entry : Queued ρ} {batch : List (Queued ρ)}
    (h : SinkInv s) (hworker : s.worker = .diverting (entry :: batch)) :
    SinkInv { emitStderr s entry .failedBatch with worker := .diverting batch } := by
  obtain ⟨hpartition, hpositions, horder, hbound, hcounted, hflight, hcallers⟩ := h
  rw [places, hworker] at hpartition
  rw [hworker] at horder hflight
  refine ⟨?_, hpositions, ?_, hbound, ?_, hflight, fun call hcall => ?_⟩
  · refine List.Perm.trans ?_ hpartition
    simp only [places, batchOf, diverted, emitStderr, List.map_append, List.append_assoc,
      List.cons_append]
    refine List.Perm.append_left _ ?_
    have hlast : ∀ rest : List (Queued ρ), (rest ++ [entry]).Perm (entry :: rest) := fun rest =>
      List.perm_append_comm
    simpa [List.append_assoc] using hlast (batch ++ (s.pending ++ s.stderr.map Prod.fst))
  · refine List.Sublist.trans ?_ horder
    refine List.Sublist.append_right ?_ _
    exact List.Sublist.append_left (List.sublist_cons_self entry batch) _
  · simpa [emitStderr] using hcounted
  · obtain ⟨hle, hdue⟩ := hcallers call hcall
    refine ⟨hle, hdue.imp_right fun hx x hmem => hx x ?_⟩
    rw [hworker]
    exact List.mem_cons_of_mem entry hmem

theorem view_markRecovered (s : SinkState ρ) (worker : Worker ρ) :
    view { markRecovered s with worker } = view { s with worker } := by
  unfold markRecovered
  cases s.failed <;> rfl

theorem sinkInv_work {s : SinkState ρ} (h : SinkInv s) (now : Nat) (thrown : Option Str) :
    SinkInv (work s now thrown) := by
  unfold work
  cases hworker : s.worker with
  | starting =>
    cases thrown with
    | none => exact sinkInv_of_view (by simp [view, hworker, batchOf, inFlight]) h
    | some reason => exact sinkInv_of_view (by simp [view, markFailed, hworker, batchOf, inFlight]) h
  | waiting => exact sinkInv_takeBatch h hworker
  | taken batch =>
    simp only
    split
    · exact sinkInv_of_view (by simp [view, hworker, batchOf, inFlight]) h
    · exact sinkInv_of_view (by simp [view, hworker, batchOf, inFlight]) h
  | writing batch =>
    cases thrown with
    | none => exact sinkInv_written h hworker
    | some reason => exact sinkInv_of_view (by simp [view, hworker, batchOf, inFlight]) h
  | written count =>
    exact sinkInv_of_view (by simp [view, markExported, hworker, batchOf, inFlight]) h
  | exported =>
    refine sinkInv_of_view ((view_markRecovered s _).trans ?_) h
    simp [view, hworker, batchOf, inFlight]
  | failing batch reason =>
    exact sinkInv_of_view (by simp [view, markFailed, hworker, batchOf, inFlight]) h
  | diverting batch =>
    cases batch with
    | nil => exact sinkInv_endRound h hworker
    | cons entry batch => exact sinkInv_divertOne h hworker
  | stopped => exact h

theorem sinkInv_step {s : SinkState ρ} (a : SinkAction ρ) (h : SinkInv s) :
    SinkInv (sink.step s a).1 := by
  cases a with
  | enqueue entry now => exact sinkInv_enqueue h entry now
  | flushPending caller => exact sinkInv_flushPending h caller
  | wake caller => exact sinkInv_wake h caller
  | shutdown =>
    have hview : view (sink.step s .shutdown).1 = view s := rfl
    exact sinkInv_of_view hview h
  | work now thrown => exact sinkInv_work h now thrown

theorem sinkInv_run (as : List (SinkAction ρ)) : SinkInv (sink.run emptySink as) :=
  sink.run_invariant (fun _ a h => sinkInv_step a h) sinkInv_emptySink as

def enqueued : SinkAction ρ → Option ρ
  | .enqueue entry _ => some entry
  | _ => none

theorem log_enqueue (s : SinkState ρ) (record : ρ) (now : Nat) :
    (enqueue s record now).log = s.log ++ [nextEntry s.log record] := by
  unfold enqueue
  simp only
  split
  · rfl
  · split <;> rfl

theorem log_work (s : SinkState ρ) (now : Nat) (thrown : Option Str) :
    (work s now thrown).log = s.log := by
  unfold work
  cases s.worker with
  | starting => cases thrown <;> rfl
  | waiting =>
    simp only [takeBatch]
    split <;> rfl
  | taken batch =>
    simp only
    split <;> rfl
  | writing batch => cases thrown <;> rfl
  | written count => rfl
  | exported => exact congrArg View.log (view_markRecovered s (.diverting []))
  | failing batch reason => rfl
  | diverting batch => cases batch <;> rfl
  | stopped => rfl

theorem callers_work (s : SinkState ρ) (now : Nat) (thrown : Option Str) :
    (work s now thrown).callers = s.callers := by
  unfold work
  cases s.worker with
  | starting => cases thrown <;> rfl
  | waiting =>
    simp only [takeBatch]
    split <;> rfl
  | taken batch =>
    simp only
    split <;> rfl
  | writing batch => cases thrown <;> rfl
  | written count => rfl
  | exported => exact congrArg View.callers (view_markRecovered s (.diverting []))
  | failing batch reason => rfl
  | diverting batch => cases batch <;> rfl
  | stopped => rfl

theorem log_step (s : SinkState ρ) (a : SinkAction ρ) :
    (sink.step s a).1.log.map Queued.record = s.log.map Queued.record ++ (enqueued a).toList := by
  cases a with
  | enqueue entry now =>
    change (enqueue s entry now).log.map Queued.record = _
    rw [log_enqueue, List.map_append]
    rfl
  | flushPending caller =>
    refine Eq.trans ?_ (List.append_nil _).symm
    simp only [sink, flushPending]
    split_ifs <;> rfl
  | wake caller =>
    refine Eq.trans ?_ (List.append_nil _).symm
    simp only [sink, wake]
    split
    · rfl
    · split_ifs <;> rfl
  | shutdown => exact (List.append_nil _).symm
  | work now thrown =>
    refine Eq.trans ?_ (List.append_nil _).symm
    exact congrArg (List.map Queued.record) (log_work s now thrown)

theorem log_run (as : List (SinkAction ρ)) :
    (sink.run emptySink as).log.map Queued.record = as.filterMap enqueued := by
  induction as using List.reverseRecOn with
  | nil => rfl
  | append_singleton as a ih =>
    rw [sink.run_concat, log_step, ih, List.filterMap_append]
    cases ha : enqueued a <;> simp [ha]

/-- The call that a waiting caller made, and when. -/
def CalledAt (as : List (SinkAction ρ)) (caller before : Nat) : Prop :=
  ∃ pre post, as = pre ++ .flushPending caller :: post ∧
    before = (sink.run emptySink pre).log.length

theorem CalledAt.concat {as : List (SinkAction ρ)} {caller before : Nat}
    (h : CalledAt as caller before) (a : SinkAction ρ) : CalledAt (as ++ [a]) caller before := by
  obtain ⟨pre, post, rfl, hbefore⟩ := h
  exact ⟨pre, post ++ [a], by simp, hbefore⟩

theorem callers_step {s : SinkState ρ} {a : SinkAction ρ} {call : Nat × Nat}
    (h : call ∈ (sink.step s a).1.callers) :
    call ∈ s.callers ∨ a = .flushPending call.1 ∧ call.2 = s.log.length := by
  cases a with
  | enqueue entry now =>
    left
    simp only [sink, enqueue] at h
    split_ifs at h <;> exact h
  | flushPending caller =>
    simp only [sink, flushPending] at h
    split_ifs at h
    · exact .inl h
    · exact .inl h
    · rcases List.mem_append.mp h with hold | hnew
      · exact .inl hold
      · rw [List.mem_singleton.mp hnew]
        exact .inr ⟨rfl, rfl⟩
  | wake caller =>
    left
    simp only [sink, wake] at h
    split at h
    · exact h
    · split_ifs at h
      · exact List.mem_of_mem_eraseP h
      · exact h
  | shutdown => exact .inl h
  | work now thrown =>
    left
    rw [← callers_work s now thrown]
    exact h

theorem callers_run (as : List (SinkAction ρ)) :
    ∀ call ∈ (sink.run emptySink as).callers, CalledAt as call.1 call.2 := by
  induction as using List.reverseRecOn with
  | nil =>
    intro call h
    cases h
  | append_singleton as a ih =>
    intro call h
    rw [sink.run_concat] at h
    rcases callers_step h with hold | ⟨rfl, hbefore⟩
    · exact (ih call hold).concat a
    · exact ⟨as, [], rfl, hbefore⟩

theorem returned_step {s : SinkState ρ} (h : SinkInv s) {a : SinkAction ρ} {caller before : Nat}
    (ha : (sink.step s a).2 = .returned caller before) :
    (a = .flushPending caller ∧ before = s.log.length ∨ (caller, before) ∈ s.callers) ∧
      ∀ x ∈ batchOf (sink.step s a).1.worker ++ (sink.step s a).1.pending, before ≤ x.seq := by
  cases a with
  | enqueue entry now => cases ha
  | flushPending called =>
    simp only [sink, flushPending] at ha ⊢
    split_ifs at ha ⊢ with hstop hnothing
    · obtain ⟨rfl, rfl⟩ : called = caller ∧ s.log.length = before := by simpa using ha
      refine ⟨.inl ⟨rfl, rfl⟩, fun x hx => ?_⟩
      -- neither a record pending nor a batch in flight
      simp only [Bool.and_eq_true, Bool.not_eq_true', List.isEmpty_iff] at hnothing
      have hidle : batchOf s.worker = [] := by
        have hflight := h.inFlight.symm.trans hnothing.2
        cases hworker : s.worker <;> simp [hworker, inFlight] at hflight <;> rfl
      rw [hidle, hnothing.1] at hx
      cases hx
  | wake called =>
    simp only [sink, wake] at ha ⊢
    split at ha
    · cases ha
    · next call hcall =>
      split_ifs at ha with hready
      · obtain ⟨rfl, rfl⟩ : called = caller ∧ call.2 = before := by simpa using ha
        have hmem : call ∈ s.callers := List.mem_of_find?_eq_some hcall
        have hname : call.1 = called := by simpa using List.find?_some hcall
        simp only [Bool.and_eq_true, Bool.not_eq_true'] at hready
        refine ⟨.inr (by rw [← hname]; exact hmem), ?_⟩
        rw [if_pos (by simp [hready])]
        refine (h.callers call hmem).2.resolve_left ?_
        rw [hready.1]
        decide
  | shutdown => cases ha
  | work now thrown => cases ha

/-- What holds of the sink at every moment of a run. -/
structure KeepsRecords (as : List (SinkAction ρ)) (s : SinkState ρ) : Prop where
  /-- Each enqueued record is in exactly one place. -/
  enqueued : s.log.map Queued.record = as.filterMap enqueued
  positions : s.log.map Queued.seq = List.range s.log.length
  partition : (places s).Perm s.log
  once : (places s).Nodup
  bound : s.pending.length ≤ queueCapacity
  order : s.table.Sublist s.log
  counted : s.overflowCount = (s.stderr.filter (·.2 = .overflow)).length
  /-- No record from before the call is left when `FlushPending` returns. -/
  flushed : ∀ a caller before, (sink.step s a).2 = .returned caller before →
    CalledAt (as ++ [a]) caller before ∧
      ∀ x ∈ batchOf (sink.step s a).1.worker ++ (sink.step s a).1.pending, before ≤ x.seq

theorem telemetry_sink_keeps_records (as : List (SinkAction ρ)) :
    KeepsRecords as (sink.run emptySink as) := by
  have hinv := sinkInv_run as
  have hnodup : (sink.run emptySink as).log.Nodup := by
    refine List.Nodup.of_map Queued.seq ?_
    rw [hinv.positions]
    exact List.nodup_range
  refine {
    enqueued := log_run as
    positions := hinv.positions
    partition := hinv.partition
    once := hinv.partition.nodup_iff.mpr hnodup
    bound := hinv.bound
    order := ?_
    counted := hinv.counted
    flushed := fun a caller before ha => ?_ }
  · refine List.Sublist.trans ?_ hinv.order
    rw [List.append_assoc]
    exact List.sublist_append_left _ _
  · obtain ⟨hcall, hgone⟩ := returned_step hinv ha
    refine ⟨?_, hgone⟩
    rcases hcall with ⟨rfl, hbefore⟩ | hmem
    · exact ⟨as, [], rfl, hbefore⟩
    · exact (callers_run as _ hmem).concat a

end

/-- A batch that fails goes to stderr, and nothing counts it. -/
theorem failed_batch_not_counted :
    let s := sink.run emptySink [.work 0 none, .enqueue "r".toList 0, .work 0 none, .work 0 none,
      .work 0 (some "no table".toList), .work 0 none, .work 0 none]
    s.stderr.length = 1 ∧ s.overflowCount = 0 := by
  decide

end Quackapi.Telemetry
