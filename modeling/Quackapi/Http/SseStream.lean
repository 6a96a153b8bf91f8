import Mathlib.Data.List.Infix
import Quackapi.Http.RowEvents
import Quackapi.Library.Chunked
import Quackapi.Library.Machine

/-! A stream of Server-Sent Events while it is open: the content provider, the loop of the HTTP
library that calls it, and the server, which may stop. -/

namespace Quackapi.Http
open Library

structure SseConfig where
  intervalMs : Int
  maxBytes : Nat

inductive SsePoint
  /-- At the head of the loop that calls the provider. -/
  | looping
  | entered
  | executing
  /-- A result is there, with the names of its columns. -/
  | fetching
  | sleeping (remaining : Int)
  /-- The loop is left; the releaser is to be called. -/
  | leaving
  | released
deriving DecidableEq

structure SseState where
  point : SsePoint
  /-- The names of the columns of `state->result`. -/
  names : List Str
  needExecute : Bool
  closed : Bool
  sentBytes : Nat
  rowsSent : Nat
  /-- `data_available`. -/
  dataAvailable : Bool
  isRunning : Bool
deriving DecidableEq

inductive SseAction
  /-- The loop looks at the library's shutdown and at the connection. -/
  | turn (shuttingDown writable : Bool)
  | enter (sent : Bool)
  /-- `Execute` returns; no names stand for an error. -/
  | execute (names : Option (List Str))
  /-- `Fetch` returns a chunk; one without rows ends the result. -/
  | fetch (rows : List (List Value)) (sent : Bool)
  /-- A part of the interval has passed. -/
  | slept (writable : Bool)
  | throws
  | release
  | stop

/-- A chunk of a result, with the names of its columns. -/
structure FetchedRows where
  names : List Str
  rows : List (List Value)

inductive SseEffect
  /-- `Execute` returns. -/
  | executed
  /-- A chunk is too much for the limit. -/
  | refused (rows : FetchedRows)
  /-- The events of a chunk are handed to the connection. -/
  | chunk (rows : FetchedRows) (data : Str) (sent : Bool)
  /-- The end of the body is handed to the connection. -/
  | done (sent : Bool)
  /-- The whole interval has passed. -/
  | rested
  | logged (bytes rows : Nat)

/-- The first result is there when the provider is installed. -/
def newSse (names : List Str) : SseState := ⟨.looping, names, false, false, 0, 0, true, true⟩

/-- The provider returns `false`. -/
def cancelSse (s : SseState) : SseState × List SseEffect :=
  ({ s with point := .leaving, closed := true }, [])

/-- `sink.done()`; what it could not write ends the loop too. -/
def sinkDone (s : SseState) (sent : Bool) : SseState × List SseEffect :=
  ({ s with point := if sent then .looping else .leaving, dataAvailable := false }, [.done sent])

def turnSse (s : SseState) (shuttingDown writable : Bool) : SseState :=
  if s.dataAvailable && !shuttingDown && writable then { s with point := .entered }
  else { s with point := .leaving }

def enterSse (s : SseState) (sent : Bool) : SseState × List SseEffect :=
  if s.closed || !s.isRunning then sinkDone s sent
  else ({ s with point := if s.needExecute then .executing else .fetching }, [])

def fetchSse (cfg : SseConfig) (s : SseState) (rows : List (List Value)) (sent : Bool) :
    SseState × List SseEffect :=
  if rows = [] then
    if cfg.intervalMs ≤ 0 then sinkDone { s with closed := true } sent
    else ({ s with point := .sleeping cfg.intervalMs }, [])
  else
    match emitRows cfg.maxBytes s.sentBytes s.names rows [] with
    | none => ({ s with point := .leaving, closed := true }, [.refused ⟨s.names, rows⟩])
    | some buf =>
      ({ s with
          point := if sent then .looping else .leaving
          closed := !sent
          sentBytes := s.sentBytes + buf.length
          rowsSent := s.rowsSent + rows.length },
        [.chunk ⟨s.names, rows⟩ buf sent])

def sleepPart (remaining : Int) : Int := if 100 < remaining then 100 else remaining

def sleepSse (s : SseState) (remaining : Int) (writable : Bool) : SseState × List SseEffect :=
  let left := remaining - sleepPart remaining
  if !s.isRunning || !writable then cancelSse s
  else if 0 < left then ({ s with point := .sleeping left }, [])
  else ({ s with point := .looping, needExecute := true }, [.rested])

/-- A step that its thread has not come to changes nothing. -/
def sseStep (cfg : SseConfig) (s : SseState) : SseAction → SseState × List SseEffect
  | .turn shuttingDown writable =>
    if s.point = .looping then (turnSse s shuttingDown writable, []) else (s, [])
  | .enter sent => if s.point = .entered then enterSse s sent else (s, [])
  | .execute names =>
    if s.point = .executing then
      match names with
      | none => ({ s with point := .leaving, closed := true }, [.executed])
      | some names => ({ s with point := .fetching, names, needExecute := false }, [.executed])
    else (s, [])
  | .fetch rows sent => if s.point = .fetching then fetchSse cfg s rows sent else (s, [])
  | .slept writable =>
    match s.point with
    | .sleeping remaining => sleepSse s remaining writable
    | _ => (s, [])
  | .throws =>
    if s.point = .executing ∨ s.point = .fetching then cancelSse s else (s, [])
  | .release =>
    if s.point = .leaving then
      ({ s with point := .released, closed := true }, [.logged s.sentBytes s.rowsSent])
    else (s, [])
  | .stop => ({ s with isRunning := false }, [])

def sseMachine (cfg : SseConfig) : Machine SseState SseAction (List SseEffect) := ⟨sseStep cfg⟩

def SseState.isOpen (s : SseState) : Bool :=
  s.dataAvailable && s.point != .leaving && s.point != .released

def SsePlace (cfg : SseConfig) (s : SseState) : Prop :=
  match s.point with
  | .executing => s.needExecute = true ∧ s.isOpen = true
  | .fetching => s.needExecute = false ∧ s.isOpen = true
  | .sleeping _ => s.needExecute = false ∧ s.isOpen = true ∧ 0 < cfg.intervalMs
  | .entered => s.isOpen = true
  | _ => True

structure SseQuiet (cfg : SseConfig) (s s' : SseState) : Prop where
  bytes : s'.sentBytes = s.sentBytes ∧ s'.rowsSent = s.rowsSent
  need : s'.needExecute = s.needExecute
  isOpen : s'.isOpen = true → s.isOpen = true
  released : s'.point = .released ↔ s.point = .released
  place : SsePlace cfg s → SsePlace cfg s'

/-- Every step of a stream, with what it needs and what it leaves. -/
inductive SseSteps (cfg : SseConfig) (s : SseState) : SseState → List SseEffect → Prop
  | quiet {s' : SseState} (h : SseQuiet cfg s s') : SseSteps cfg s s' []
  | ends (h : s.point = .entered ∨ s.point = .fetching) (closed sent : Bool) :
      SseSteps cfg s
        { s with point := if sent then .looping else .leaving, closed, dataAvailable := false }
        [.done sent]
  | fails (h : s.point = .executing) :
      SseSteps cfg s { s with point := .leaving, closed := true } [.executed]
  | executes (h : s.point = .executing) (names : List Str) :
      SseSteps cfg s { s with point := .fetching, names, needExecute := false } [.executed]
  | refuses (h : s.point = .fetching) (rows : List (List Value)) :
      SseSteps cfg s { s with point := .leaving, closed := true } [.refused ⟨s.names, rows⟩]
  | sends (h : s.point = .fetching) {rows : List (List Value)} {buf : Str} (hrows : rows ≠ [])
      (hemit : emitRows cfg.maxBytes s.sentBytes s.names rows [] = some buf) (sent : Bool) :
      SseSteps cfg s
        { s with
          point := if sent then .looping else .leaving
          closed := !sent
          sentBytes := s.sentBytes + buf.length
          rowsSent := s.rowsSent + rows.length }
        [.chunk ⟨s.names, rows⟩ buf sent]
  | rests {remaining : Int} (h : s.point = .sleeping remaining) :
      SseSteps cfg s { s with point := .looping, needExecute := true } [.rested]
  | releases (h : s.point = .leaving) :
      SseSteps cfg s { s with point := .released, closed := true }
        [.logged s.sentBytes s.rowsSent]

variable {cfg : SseConfig} {s s' : SseState} {es old : List SseEffect}

theorem SseQuiet.refl (cfg : SseConfig) (s : SseState) : SseQuiet cfg s s :=
  ⟨⟨rfl, rfl⟩, rfl, id, Iff.rfl, id⟩

theorem sseQuiet_point {p : SsePoint} (hs : s.point ≠ .released) (hp : p ≠ .released) (closed : Bool)
    (hopen : ({ s with point := p, closed } : SseState).isOpen = true → s.isOpen = true)
    (hplace : SsePlace cfg s → SsePlace cfg { s with point := p, closed }) :
    SseQuiet cfg s { s with point := p, closed } :=
  ⟨⟨rfl, rfl⟩, rfl, hopen, iff_of_false hp hs, hplace⟩

theorem sseQuiet_leaving (hs : s.point ≠ .released) (closed : Bool) :
    SseQuiet cfg s { s with point := .leaving, closed } := by
  refine sseQuiet_point hs (by simp) closed (fun h => ?_) fun _ => trivial
  simp [SseState.isOpen] at h

theorem turnSse_steps (h : s.point = .looping) (shuttingDown writable : Bool) :
    SseSteps cfg s (turnSse s shuttingDown writable) [] := by
  have hs : s.point ≠ .released := by simp [h]
  unfold turnSse
  by_cases hgo : (s.dataAvailable && !shuttingDown && writable) = true
  · rw [if_pos hgo]
    have hdata : s.dataAvailable = true := by
      simp only [Bool.and_eq_true] at hgo
      exact hgo.1.1
    have hopen : s.isOpen = true := by simp [SseState.isOpen, h, hdata]
    refine .quiet (sseQuiet_point hs (by simp) s.closed (fun _ => hopen) fun _ => ?_)
    simp [SsePlace, SseState.isOpen, hdata]
  · rw [if_neg hgo]
    exact .quiet (sseQuiet_leaving hs s.closed)

theorem enterSse_steps (h : s.point = .entered) (sent : Bool) :
    SseSteps cfg s (enterSse s sent).1 (enterSse s sent).2 := by
  have hs : s.point ≠ .released := by simp [h]
  unfold enterSse
  by_cases hend : (s.closed || !s.isRunning) = true
  · rw [if_pos hend]
    exact .ends (.inl h) s.closed sent
  · rw [if_neg hend]
    have hopen : SsePlace cfg s → s.dataAvailable = true := by
      intro hplace
      simp only [SsePlace, h, SseState.isOpen, Bool.and_eq_true] at hplace
      exact hplace.1.1
    refine .quiet ?_
    cases hneed : s.needExecute with
    | true =>
      refine ⟨⟨rfl, rfl⟩, hneed.symm, fun ho => ?_, iff_of_false (by simp) hs, fun hplace => ?_⟩
      · simpa [SseState.isOpen, h] using ho
      · simp [SsePlace, SseState.isOpen, hopen hplace]
    | false =>
      refine ⟨⟨rfl, rfl⟩, hneed.symm, fun ho => ?_, iff_of_false (by simp) hs, fun hplace => ?_⟩
      · simpa [SseState.isOpen, h] using ho
      · simp [SsePlace, SseState.isOpen, hopen hplace]

theorem fetchSse_steps (h : s.point = .fetching) (rows : List (List Value)) (sent : Bool) :
    SseSteps cfg s (fetchSse cfg s rows sent).1 (fetchSse cfg s rows sent).2 := by
  have hs : s.point ≠ .released := by simp [h]
  unfold fetchSse
  by_cases hrows : rows = []
  · rw [if_pos hrows]
    by_cases hinterval : cfg.intervalMs ≤ 0
    · rw [if_pos hinterval]
      exact .ends (.inr h) true sent
    · rw [if_neg hinterval]
      -- with an interval the thread sleeps, and the body stays open
      refine .quiet (sseQuiet_point hs (by simp) s.closed (fun ho => ?_) fun hplace => ?_)
      · simpa [SseState.isOpen, h] using ho
      · simp only [SsePlace, h, SseState.isOpen, Bool.and_eq_true] at hplace
        refine ⟨hplace.1, ?_, by omega⟩
        simp [SseState.isOpen, hplace.2.1.1]
  · rw [if_neg hrows]
    cases hemit : emitRows cfg.maxBytes s.sentBytes s.names rows [] with
    | none => exact .refuses h rows
    | some buf => exact .sends h hrows hemit sent

theorem sleepSse_steps {remaining : Int} (h : s.point = .sleeping remaining) (writable : Bool) :
    SseSteps cfg s (sleepSse s remaining writable).1 (sleepSse s remaining writable).2 := by
  have hs : s.point ≠ .released := by simp [h]
  unfold sleepSse
  dsimp only
  split
  · exact .quiet (sseQuiet_leaving hs true)
  · split
    · refine .quiet (sseQuiet_point hs (by simp) s.closed (fun ho => ?_) fun hplace => ?_)
      · simpa [SseState.isOpen, h] using ho
      · simp only [SsePlace, h, SseState.isOpen, Bool.and_eq_true] at hplace
        refine ⟨hplace.1, ?_, hplace.2.2⟩
        simp [SseState.isOpen, hplace.2.1.1.1]
    · exact .rests h

theorem sseStep_steps (cfg : SseConfig) (s : SseState) (a : SseAction) :
    SseSteps cfg s (sseStep cfg s a).1 (sseStep cfg s a).2 := by
  have hidle : SseSteps cfg s s [] := .quiet (SseQuiet.refl cfg s)
  cases a with
  | turn shuttingDown writable =>
    unfold sseStep
    dsimp only
    by_cases h : s.point = .looping
    · rw [if_pos h]
      exact turnSse_steps h shuttingDown writable
    · rwa [if_neg h]
  | enter sent =>
    unfold sseStep
    dsimp only
    by_cases h : s.point = .entered
    · rw [if_pos h]
      exact enterSse_steps h sent
    · rwa [if_neg h]
  | execute names =>
    unfold sseStep
    dsimp only
    by_cases h : s.point = .executing
    · rw [if_pos h]
      cases names with
      | none => exact .fails h
      | some names => exact .executes h names
    · rwa [if_neg h]
  | fetch rows sent =>
    unfold sseStep
    dsimp only
    by_cases h : s.point = .fetching
    · rw [if_pos h]
      exact fetchSse_steps h rows sent
    · rwa [if_neg h]
  | slept writable =>
    unfold sseStep
    dsimp only
    split
    · next remaining h => exact sleepSse_steps h writable
    · exact hidle
  | throws =>
    unfold sseStep
    dsimp only
    by_cases h : s.point = .executing ∨ s.point = .fetching
    · rw [if_pos h]
      refine .quiet (sseQuiet_leaving ?_ true)
      rcases h with h | h <;> simp [h]
    · rwa [if_neg h]
  | release =>
    unfold sseStep
    dsimp only
    by_cases h : s.point = .leaving
    · rw [if_pos h]
      exact .releases h
    · rwa [if_neg h]
  | stop => exact .quiet ⟨⟨rfl, rfl⟩, rfl, id, Iff.rfl, id⟩

def rowEvents (names : List Str) (rows : List (List Value)) : Str := rows.flatMap (formatSseEvent names)

namespace SseEffect

def rowsHanded : SseEffect → Option FetchedRows
  | .chunk rows _ _ => some rows
  | _ => none

def dataHanded : SseEffect → Option Str
  | .chunk _ data _ => some data
  | _ => none

def text : SseEffect → Option Str
  | .chunk _ data _ => some (chunkText data)
  | .done _ => some (chunkText [])
  | _ => none

def sent : SseEffect → Bool
  | .chunk _ _ sent => sent
  | .done sent => sent
  | _ => true

def goesOn : SseEffect → Bool
  | .chunk _ _ sent => sent
  | _ => false

def onWire : SseEffect → Bool
  | .chunk _ _ _ | .refused _ | .done _ => true
  | _ => false

def isExecuted : SseEffect → Bool
  | .executed => true
  | _ => false

def isRested : SseEffect → Bool
  | .rested => true
  | _ => false

def logRow : SseEffect → Option (Nat × Nat)
  | .logged bytes rows => some (bytes, rows)
  | _ => none

end SseEffect
open SseEffect

/-- The counters, and the events of the chunks that are handed to the connection. -/
structure SseRowsKept (cfg : SseConfig) (es : List SseEffect) (s : SseState) : Prop where
  bytes : (es.filterMap dataHanded).flatten.length = s.sentBytes
  rows : ((es.filterMap rowsHanded).flatMap FetchedRows.rows).length = s.rowsSent
  limit : s.sentBytes ≤ cfg.maxBytes
  events : ∀ rows data sent, SseEffect.chunk rows data sent ∈ es →
    data = rowEvents rows.names rows.rows ∧ data ≠ []

theorem SseRowsKept.unseen (h : SseRowsKept cfg old s) (hdata : es.filterMap dataHanded = [])
    (hrows : es.filterMap rowsHanded = []) (hbytes : s'.sentBytes = s.sentBytes ∧ s'.rowsSent = s.rowsSent)
    (hchunk : ∀ rows data sent, SseEffect.chunk rows data sent ∉ es) :
    SseRowsKept cfg (old ++ es) s' := by
  refine ⟨?_, ?_, ?_, fun rows data sent hmem => ?_⟩
  · rw [List.filterMap_append, hdata, List.append_nil, hbytes.1]
    exact h.bytes
  · rw [List.filterMap_append, hrows, List.append_nil, hbytes.2]
    exact h.rows
  · rw [hbytes.1]
    exact h.limit
  · rcases List.mem_append.mp hmem with hmem | hmem
    · exact h.events rows data sent hmem
    · exact absurd hmem (hchunk rows data sent)

theorem formatSseEvent_ne_nil (names : List Str) (cols : List Value) : formatSseEvent names cols ≠ [] := by
  unfold formatSseEvent
  simp

theorem emitRows_eq_some {maxBytes sent : Nat} {names : List Str} {rows : List (List Value)}
    {buf out : Str} (h : emitRows maxBytes sent names rows buf = some out)
    (hbuf : sent + buf.length ≤ maxBytes) :
    out = buf ++ rowEvents names rows ∧ sent + out.length ≤ maxBytes := by
  induction rows generalizing buf with
  | nil =>
    cases h
    exact ⟨(List.append_nil _).symm, hbuf⟩
  | cons cols rows ih =>
    rw [emitRows] at h
    obtain ⟨hfits, h⟩ := Option.ite_none_left_eq_some.mp h
    obtain ⟨hout, hle⟩ := ih h (by rw [List.length_append]; omega)
    refine ⟨?_, hle⟩
    rw [hout, rowEvents, rowEvents, List.flatMap_cons, List.append_assoc]

theorem SseRowsKept.step (h : SseRowsKept cfg old s) (hstep : SseSteps cfg s s' es) :
    SseRowsKept cfg (old ++ es) s' := by
  cases hstep with
  | quiet hq => exact h.unseen rfl rfl hq.bytes (by simp)
  | ends => exact h.unseen rfl rfl ⟨rfl, rfl⟩ (by simp)
  | fails => exact h.unseen rfl rfl ⟨rfl, rfl⟩ (by simp)
  | executes => exact h.unseen rfl rfl ⟨rfl, rfl⟩ (by simp)
  | refuses => exact h.unseen rfl rfl ⟨rfl, rfl⟩ (by simp)
  | rests => exact h.unseen rfl rfl ⟨rfl, rfl⟩ (by simp)
  | releases => exact h.unseen rfl rfl ⟨rfl, rfl⟩ (by simp)
  | @sends hp rows buf hrows hemit sent =>
    obtain ⟨hbuf, hle⟩ := emitRows_eq_some hemit (by simpa using h.limit)
    rw [List.nil_append] at hbuf
    refine ⟨?_, ?_, hle, fun rows' data sent' hmem => ?_⟩
    · rw [List.filterMap_append, List.flatten_append, List.length_append, h.bytes]
      simp [dataHanded]
    · rw [List.filterMap_append, List.flatMap_append, List.length_append, h.rows]
      simp [rowsHanded]
    · rcases List.mem_append.mp hmem with hmem | hmem
      · exact h.events rows' data sent' hmem
      · cases List.mem_singleton.mp hmem
        refine ⟨hbuf, ?_⟩
        -- a chunk of rows is never the empty one that ends the body
        obtain ⟨cols, rest, rfl⟩ := List.exists_cons_of_ne_nil hrows
        rw [hbuf, rowEvents, List.flatMap_cons]
        simp [formatSseEvent_ne_nil]

/-- On the connection only the last thing may be one after which nothing goes on. -/
def SseWireKept (es : List SseEffect) (s : SseState) : Prop :=
  ∃ (going : List SseEffect) (last : Option SseEffect), es.filter onWire = going ++ last.toList ∧
    (∀ e ∈ going, e.goesOn = true) ∧ (∀ e ∈ last, e.goesOn = false) ∧
    (s.isOpen = true → last = none)

theorem SseWireKept.unseen (h : SseWireKept old s) (hes : es.filter onWire = [])
    (hopen : s'.isOpen = true → s.isOpen = true) : SseWireKept (old ++ es) s' := by
  obtain ⟨going, last, hold, hgoing, hlast, hnone⟩ := h
  refine ⟨going, last, ?_, hgoing, hlast, fun ho => hnone (hopen ho)⟩
  rw [List.filter_append, hes, List.append_nil, hold]

theorem SseWireKept.seen (h : SseWireKept old s) (hs : s.isOpen = true) {e : SseEffect}
    (he : e.onWire = true) (hgo : s'.isOpen = e.goesOn) : SseWireKept (old ++ [e]) s' := by
  obtain ⟨going, last, hold, hgoing, -, hnone⟩ := h
  rw [hnone hs, Option.toList_none, List.append_nil] at hold
  have hall : (old ++ [e]).filter onWire = going ++ [e] := by
    rw [List.filter_append, hold, List.filter_cons_of_pos he, List.filter_nil]
  cases hopen : e.goesOn with
  | true =>
    refine ⟨going ++ [e], none, by rw [hall]; simp, fun d hd => ?_, by simp, fun _ => rfl⟩
    rcases List.mem_append.mp hd with hd | hd
    · exact hgoing d hd
    · rwa [List.mem_singleton.mp hd]
  | false =>
    refine ⟨going, some e, hall, hgoing, fun d hd => ?_, fun ho => ?_⟩
    · rwa [← Option.some.inj hd]
    · rw [hgo, hopen] at ho
      cases ho

theorem SseWireKept.step (h : SseWireKept old s) (hplace : SsePlace cfg s)
    (hstep : SseSteps cfg s s' es) : SseWireKept (old ++ es) s' := by
  -- where something is sent the body is still open
  have hat : ∀ p, s.point = p → p = .entered ∨ p = .executing ∨ p = .fetching → s.isOpen = true := by
    rintro p hp (rfl | rfl | rfl)
    · simpa only [SsePlace, hp] using hplace
    · simp only [SsePlace, hp] at hplace
      exact hplace.2
    · simp only [SsePlace, hp] at hplace
      exact hplace.2
  cases hstep with
  | quiet hq => exact h.unseen rfl hq.isOpen
  | ends hp closed sent =>
    refine h.seen ?_ rfl ?_
    · rcases hp with hp | hp
      · exact hat _ hp (.inl rfl)
      · exact hat _ hp (.inr (.inr rfl))
    · simp [SseState.isOpen, goesOn]
  | fails hp => exact h.unseen rfl fun ho => by simp [SseState.isOpen] at ho
  | executes hp names => exact h.unseen rfl fun _ => hat _ hp (.inr (.inl rfl))
  | refuses hp rows =>
    refine h.seen (hat _ hp (.inr (.inr rfl))) rfl ?_
    simp [SseState.isOpen, goesOn]
  | sends hp hrows hemit sent =>
    have hopen := hat _ hp (.inr (.inr rfl))
    have hdata : s.dataAvailable = true := by
      simp only [SseState.isOpen, Bool.and_eq_true] at hopen
      exact hopen.1.1
    refine h.seen hopen rfl ?_
    cases sent <;> simp [SseState.isOpen, goesOn, hdata]
  | @rests remaining hp =>
    refine h.unseen rfl fun _ => ?_
    simp only [SsePlace, hp] at hplace
    exact hplace.2.1
  | releases hp => exact h.unseen rfl fun ho => by simp [SseState.isOpen] at ho

/-- The SELECT runs again once for each interval that has passed, and only then. -/
structure SseRunsKept (cfg : SseConfig) (es : List SseEffect) (s : SseState) : Prop where
  runs : es.countP isExecuted ≤ es.countP isRested
  pending : s.needExecute = true → s.isOpen = true →
    es.countP isExecuted + 1 = es.countP isRested
  settled : s.needExecute = false → es.countP isExecuted = es.countP isRested
  interval : cfg.intervalMs ≤ 0 → es.countP isRested = 0

theorem SseRunsKept.unseen (h : SseRunsKept cfg old s) (hrun : es.countP isExecuted = 0)
    (hrest : es.countP isRested = 0) (hneed : s'.needExecute = s.needExecute)
    (hopen : s'.isOpen = true → s.isOpen = true) : SseRunsKept cfg (old ++ es) s' := by
  have hruns : (old ++ es).countP isExecuted = old.countP isExecuted := by
    rw [List.countP_append, hrun, Nat.add_zero]
  have hrests : (old ++ es).countP isRested = old.countP isRested := by
    rw [List.countP_append, hrest, Nat.add_zero]
  refine ⟨?_, fun hn ho => ?_, fun hn => ?_, fun hi => ?_⟩
  · rw [hruns, hrests]
    exact h.runs
  · rw [hruns, hrests]
    exact h.pending (hneed ▸ hn) (hopen ho)
  · rw [hruns, hrests]
    exact h.settled (hneed ▸ hn)
  · rw [hrests]
    exact h.interval hi

theorem SseRunsKept.step (h : SseRunsKept cfg old s) (hplace : SsePlace cfg s)
    (hstep : SseSteps cfg s s' es) : SseRunsKept cfg (old ++ es) s' := by
  have hexecuting : s.point = .executing → s.needExecute = true ∧ s.isOpen = true := by
    intro hp
    simpa only [SsePlace, hp] using hplace
  have hone : (old ++ [SseEffect.executed]).countP isExecuted = old.countP isExecuted + 1 := by
    simp [isExecuted]
  have hsame : (old ++ [SseEffect.executed]).countP isRested = old.countP isRested := by
    simp [isRested]
  cases hstep with
  | quiet hq => exact h.unseen rfl rfl hq.need hq.isOpen
  | ends hp closed sent => exact h.unseen rfl rfl rfl fun ho => by simp [SseState.isOpen] at ho
  | refuses hp rows => exact h.unseen rfl rfl rfl fun ho => by simp [SseState.isOpen] at ho
  | releases hp => exact h.unseen rfl rfl rfl fun ho => by simp [SseState.isOpen] at ho
  | sends hp hrows hemit sent =>
    refine h.unseen rfl rfl rfl fun _ => ?_
    simp only [SsePlace, hp] at hplace
    exact hplace.2
  | fails hp =>
    obtain ⟨hneed, hopen⟩ := hexecuting hp
    have hpending := h.pending hneed hopen
    refine ⟨?_, fun _ ho => ?_, fun hn => ?_, fun hi => ?_⟩
    · rw [hone, hsame]
      exact Nat.le_of_eq hpending
    · simp [SseState.isOpen] at ho
    · have hn' : s.needExecute = false := hn
      rw [hneed] at hn'
      cases hn'
    · rw [hsame]
      exact h.interval hi
  | executes hp names =>
    -- this run makes up for the interval that has passed
    obtain ⟨hneed, hopen⟩ := hexecuting hp
    have hpending := h.pending hneed hopen
    refine ⟨?_, fun hn => ?_, fun _ => ?_, fun hi => ?_⟩
    · rw [hone, hsame]
      exact Nat.le_of_eq hpending
    · cases hn
    · rw [hone, hsame, hpending]
    · rw [hsame]
      exact h.interval hi
  | @rests remaining hp =>
    simp only [SsePlace, hp] at hplace
    have hsettled := h.settled hplace.1
    have hrun : (old ++ [SseEffect.rested]).countP isExecuted = old.countP isExecuted := by
      simp [isExecuted]
    have hrest : (old ++ [SseEffect.rested]).countP isRested = old.countP isRested + 1 := by
      simp [isRested]
    refine ⟨?_, fun _ _ => ?_, fun hn => ?_, fun hi => ?_⟩
    · rw [hrun, hrest]
      omega
    · rw [hrun, hrest]
      omega
    · cases hn
    · omega

/-- One row of the access log when the releaser has been called, with what was counted. -/
def SseLogKept (es : List SseEffect) (s : SseState) : Prop :=
  es.filterMap logRow = if s.point = .released then [(s.sentBytes, s.rowsSent)] else []

theorem SseLogKept.unseen (h : SseLogKept old s) (hes : es.filterMap logRow = [])
    (hsame : (s'.point = .released ↔ s.point = .released) ∧
      (s'.sentBytes = s.sentBytes ∧ s'.rowsSent = s.rowsSent ∨ s.point ≠ .released)) :
    SseLogKept (old ++ es) s' := by
  unfold SseLogKept
  rw [List.filterMap_append, hes, List.append_nil, h]
  by_cases hp : s.point = .released
  · rcases hsame.2 with hcounts | hne
    · rw [if_pos hp, if_pos (hsame.1.mpr hp), hcounts.1, hcounts.2]
    · exact absurd hp hne
  · rw [if_neg hp, if_neg fun hp' => hp (hsame.1.mp hp')]

theorem SseLogKept.step (h : SseLogKept old s) (hstep : SseSteps cfg s s' es) :
    SseLogKept (old ++ es) s' := by
  -- a step of the thread, before the releaser is called
  have hfrom : ∀ {p : SsePoint} {s' : SseState}, s.point = p → p ≠ .released →
      s'.point ≠ .released →
      (s'.point = .released ↔ s.point = .released) ∧
        (s'.sentBytes = s.sentBytes ∧ s'.rowsSent = s.rowsSent ∨ s.point ≠ .released) := by
    intro p s' hp hne hne'
    exact ⟨iff_of_false hne' (hp ▸ hne), .inr (hp ▸ hne)⟩
  cases hstep with
  | quiet hq => exact h.unseen rfl ⟨hq.released, .inl hq.bytes⟩
  | ends hp closed sent =>
    rcases hp with hp | hp <;> refine h.unseen rfl (hfrom hp (by simp) ?_) <;> cases sent <;> simp
  | fails hp => exact h.unseen rfl (hfrom hp (by simp) (by simp))
  | executes hp names => exact h.unseen rfl (hfrom hp (by simp) (by simp))
  | refuses hp rows => exact h.unseen rfl (hfrom hp (by simp) (by simp))
  | sends hp hrows hemit sent =>
    refine h.unseen rfl (hfrom hp (by simp) ?_)
    cases sent <;> simp
  | rests hp => exact h.unseen rfl (hfrom hp (by simp) (by simp))
  | releases hp =>
    have hold := h
    unfold SseLogKept at hold ⊢
    rw [if_neg (by simp [hp])] at hold
    rw [List.filterMap_append, hold, if_pos rfl]
    rfl

theorem ssePlace_step (h : SsePlace cfg s) (hstep : SseSteps cfg s s' es) : SsePlace cfg s' := by
  cases hstep with
  | quiet hq => exact hq.place h
  | ends hp closed sent => cases sent <;> trivial
  | fails hp => trivial
  | executes hp names =>
    simp only [SsePlace, hp, SseState.isOpen, Bool.and_eq_true] at h
    simp [SsePlace, SseState.isOpen, h.2.1.1]
  | refuses hp rows => trivial
  | sends hp hrows hemit sent => cases sent <;> trivial
  | rests hp => trivial
  | releases hp => trivial

structure SseSafe (cfg : SseConfig) (es : List SseEffect) (s : SseState) : Prop where
  rows : SseRowsKept cfg es s
  wire : SseWireKept es s
  runs : SseRunsKept cfg es s
  log : SseLogKept es s
  place : SsePlace cfg s

theorem newSse_safe (cfg : SseConfig) (names : List Str) : SseSafe cfg [] (newSse names) := by
  refine ⟨⟨rfl, rfl, Nat.zero_le _, by simp⟩, ⟨[], none, rfl, by simp, by simp, fun _ => rfl⟩, ?_,
    rfl, trivial⟩
  refine ⟨Nat.le_refl _, fun hn => ?_, fun _ => rfl, fun _ => rfl⟩
  cases hn

theorem sseSafe_step (cfg : SseConfig) (old : List SseEffect) (s : SseState) (a : SseAction)
    (h : SseSafe cfg old s) :
    SseSafe cfg (old ++ ((sseMachine cfg).step s a).2) ((sseMachine cfg).step s a).1 := by
  have hstep := sseStep_steps cfg s a
  exact ⟨h.rows.step hstep, h.wire.step h.place hstep, h.runs.step h.place hstep, h.log.step hstep,
    ssePlace_step h.place hstep⟩

theorem sse_safe (cfg : SseConfig) (names : List Str) (as : List SseAction) :
    SseSafe cfg ((sseMachine cfg).emitted (newSse names) as) ((sseMachine cfg).run (newSse names) as) :=
  (sseMachine cfg).emitted_invariant (newSse_safe cfg names) (sseSafe_step cfg) as

def FetchedRows.text (f : FetchedRows) : Str := rowEvents f.names f.rows

def FetchedRows.events (f : FetchedRows) : List StreamEvent := f.rows.map (rowEvent f.names)

def FetchedRows.Plain (f : FetchedRows) : Prop :=
  ∀ cols ∈ f.rows, ∀ text, rowId f.names cols = some text → Unbroken text

/-- What a step leaves on the connection. A failed write leaves a part of its text; the line end after the
last chunk is tried also when the chunk's own has failed. -/
inductive SseEffect.Leaves : SseEffect → Str → Prop
  | silent {e : SseEffect} (h : e.text = none) : Leaves e []
  | whole {e : SseEffect} {text : Str} (h : e.text = some text) (hsent : e.sent = true) : Leaves e text
  | chunkPart {rows : FetchedRows} {data part more : Str} (h : part ++ more = chunkText data)
      (hmore : more ≠ []) : Leaves (.chunk rows data false) part
  | donePart {marker line : Str} (hmarker : marker <+: '0' :: crlf) (hline : line <+: crlf)
      (hcut : marker ++ line ≠ chunkText []) : Leaves (.done false) (marker ++ line)

def oneRow : FetchedRows := ⟨["b".toList], [[.boolean true]]⟩

end Quackapi.Http
