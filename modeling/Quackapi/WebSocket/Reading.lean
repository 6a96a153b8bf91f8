import Quackapi.WebSocket.Frame
import Quackapi.WebSocket.Utf8

/-! How `WebSocket::read` makes messages of frames. A message may come in fragments, with control
frames between them; a ping is answered at once. -/

namespace Quackapi.WebSocket
open Library

def maxPayloadLength : Nat := 16777216

inductive CloseStatus
  | normal | goingAway | invalidPayload | messageTooBig | internalError
deriving DecidableEq, Repr

def CloseStatus.code : CloseStatus → Nat
  | .normal => 1000
  | .goingAway => 1001
  | .invalidPayload => 1007
  | .messageTooBig => 1009
  | .internalError => 1011

/-- The frame that `close` sends. -/
def closeFrame (status : CloseStatus) (reason : Bytes) : Frame :=
  ⟨true, .close, bigEndian 2 status.code ++ reason.take 123⟩

inductive Arrival
  /-- The poll interval passes without a byte. -/
  | quiet
  | frame (f : Frame)
  /-- The stream ends, or what it holds is no frame. -/
  | broken
deriving DecidableEq

inductive ReadResult
  | fail
  | timeout
  | message (isText : Bool) (msg : Bytes)
deriving DecidableEq

/-- Where `read` is: before a message, or with the first fragments of one. -/
inductive ReadPoint
  | outer
  | inner (isText : Bool) (msg : Bytes)
deriving DecidableEq

/-- `read` goes on, or it returns. -/
inductive Reads
  | waits (point : ReadPoint)
  | returns (result : ReadResult)
deriving DecidableEq

/-- One round of `read`: what it writes, `closed_` after it, and how it goes on. -/
structure ReadStep where
  wrote : List Frame
  closed : Bool
  reads : Reads
deriving DecidableEq

def failed : ReadStep := ⟨[], true, .returns .fail⟩

def pongFrame (payload : Bytes) : Frame := ⟨true, .pong, payload⟩

/-- The peer's Close is sent back, if no Close was sent before. -/
def echoClose (closed : Bool) (payload : Bytes) : ReadStep :=
  ⟨if closed then [] else [⟨true, .close, payload⟩], true, .returns .fail⟩

def deliver (closed : Bool) (isText : Bool) (msg : Bytes) : ReadStep :=
  if isText && !isValidUtf8 msg then
    ⟨if closed then [] else [closeFrame .invalidPayload (bytesOf "invalid UTF-8".toList)], true,
      .returns .fail⟩
  else ⟨[], closed, .returns (.message isText msg)⟩

def readOuter (closed : Bool) (f : Frame) : ReadStep :=
  if f.opcode = .ping then ⟨[pongFrame f.payload], closed, .waits .outer⟩
  else if f.opcode = .pong then ⟨[], closed, .waits .outer⟩
  else if f.opcode = .close then echoClose closed f.payload
  else if f.opcode = .text ∨ f.opcode = .binary then
    let isText := decide (f.opcode = .text)
    if f.fin then deliver closed isText f.payload
    else ⟨[], closed, .waits (.inner isText f.payload)⟩
  else failed

def readInner (closed : Bool) (isText : Bool) (msg : Bytes) (f : Frame) : ReadStep :=
  if f.opcode = .ping then ⟨[pongFrame f.payload], closed, .waits (.inner isText msg)⟩
  else if f.opcode = .pong then ⟨[], closed, .waits (.inner isText msg)⟩
  else if f.opcode = .close then echoClose closed f.payload
  else if f.opcode ≠ .continuation then failed
  else if maxPayloadLength < (msg ++ f.payload).length then failed
  else if f.fin then deliver closed isText (msg ++ f.payload)
  else ⟨[], closed, .waits (.inner isText (msg ++ f.payload))⟩

/-- The rest of a message that has begun is waited for; before one, the poll ends the wait. -/
def readStep (closed : Bool) : ReadPoint → Arrival → ReadStep
  | .outer, .quiet => ⟨[], closed, .returns .timeout⟩
  | .outer, .frame f => readOuter closed f
  | .outer, .broken => failed
  | .inner isText msg, .quiet => ⟨[], closed, .waits (.inner isText msg)⟩
  | .inner isText msg, .frame f => readInner closed isText msg f
  | .inner _ _, .broken => failed

/-- A `read` that no other thread disturbs. -/
structure ReadRun where
  wrote : List Frame
  closed : Bool
  result : ReadResult
  rest : List Arrival
deriving DecidableEq

def runRead (closed : Bool) : ReadPoint → List Arrival → ReadRun
  | _, [] => ⟨[], true, .fail, []⟩
  | point, a :: arrivals =>
    let step := readStep closed point a
    match step.reads with
    | .returns result => ⟨step.wrote, step.closed, result, arrivals⟩
    | .waits point =>
      let run := runRead step.closed point arrivals
      { run with wrote := step.wrote ++ run.wrote }

def readMessage (arrivals : List Arrival) : ReadRun := runRead false .outer arrivals

def dataOpcode (isText : Bool) : Opcode := if isText then .text else .binary

/-- A message cut into parts: the first frame says what it is, the last that it is whole. -/
def fragments : Opcode → List Bytes → List Frame
  | _, [] => []
  | opcode, [part] => [⟨true, opcode, part⟩]
  | opcode, part :: next :: parts => ⟨false, opcode, part⟩ :: fragments .continuation (next :: parts)

def isHeartbeat (f : Frame) : Bool := f.opcode == .ping || f.opcode == .pong

def isData (f : Frame) : Bool := !isHeartbeat f && f.opcode != .close

/-- The data frames among what arrives, up to the last of them. Before the first the peer is not
silent for a whole interval. -/
inductive Interleaved : Bool → List Arrival → List Frame → Prop
  | last {started : Bool} {f : Frame} (hf : isData f = true) : Interleaved started [.frame f] [f]
  | data {started : Bool} {f : Frame} {arrivals : List Arrival} {fs : List Frame}
      (hf : isData f = true) (h : Interleaved true arrivals fs) :
      Interleaved started (.frame f :: arrivals) (f :: fs)
  | heartbeat {started : Bool} {f : Frame} {arrivals : List Arrival} {fs : List Frame}
      (hf : isHeartbeat f = true) (h : Interleaved started arrivals fs) :
      Interleaved started (.frame f :: arrivals) fs
  | quiet {arrivals : List Arrival} {fs : List Frame} (h : Interleaved true arrivals fs) :
      Interleaved true (.quiet :: arrivals) fs

def pongOf : Arrival → Option Frame
  | .frame f => if f.opcode = .ping then some (pongFrame f.payload) else none
  | _ => none

def pongs (arrivals : List Arrival) : List Frame := arrivals.filterMap pongOf

/-- The limit is checked when a fragment is added. -/
def WithinLimit (parts : List Bytes) : Prop :=
  parts.length = 1 ∨ parts.flatten.length ≤ maxPayloadLength

theorem Interleaved.ne_nil {started : Bool} {arrivals : List Arrival} {fs : List Frame}
    (h : Interleaved started arrivals fs) : fs ≠ [] := by
  induction h with
  | last hf => simp
  | data hf h ih => simp
  | heartbeat hf h ih => exact ih
  | quiet h ih => exact ih

variable {closed isText : Bool} {msg : Bytes} {f : Frame}

theorem heartbeat_cases (hf : isHeartbeat f = true) : f.opcode = .ping ∨ f.opcode = .pong := by
  simpa [isHeartbeat] using hf

theorem readStep_heartbeat (point : ReadPoint) (hf : isHeartbeat f = true) :
    readStep closed point (.frame f) = ⟨(pongOf (.frame f)).toList, closed, .waits point⟩ := by
  have hne : Opcode.pong ≠ Opcode.ping := by decide
  rcases heartbeat_cases hf with hop | hop
  · cases point <;> simp [readStep, readOuter, readInner, pongOf, hop]
  · cases point <;> simp [readStep, readOuter, readInner, pongOf, hop, hne]

theorem readStep_close (point : ReadPoint) (hf : f.opcode = .close) :
    readStep closed point (.frame f) = echoClose closed f.payload := by
  have hping : Opcode.close ≠ Opcode.ping := by decide
  have hpong : Opcode.close ≠ Opcode.pong := by decide
  cases point <;> simp [readStep, readOuter, readInner, hf, hping, hpong]

theorem readInner_continuation (fin : Bool) (payload : Bytes)
    (hle : (msg ++ payload).length ≤ maxPayloadLength) :
    readInner closed isText msg ⟨fin, .continuation, payload⟩ =
      if fin then deliver closed isText (msg ++ payload)
      else ⟨[], closed, .waits (.inner isText (msg ++ payload))⟩ := by
  have hping : Opcode.continuation ≠ Opcode.ping := by decide
  have hpong : Opcode.continuation ≠ Opcode.pong := by decide
  have hclose : Opcode.continuation ≠ Opcode.close := by decide
  have hfits : ¬ maxPayloadLength < (msg ++ payload).length := Nat.not_lt.mpr hle
  rw [readInner]
  dsimp only
  rw [if_neg hping, if_neg hpong, if_neg hclose, if_neg (not_not.mpr rfl), if_neg hfits]

theorem readOuter_data (fin : Bool) (payload : Bytes) :
    readOuter closed ⟨fin, dataOpcode isText, payload⟩ =
      if fin then deliver closed isText payload
      else ⟨[], closed, .waits (.inner isText payload)⟩ := by
  have hops : dataOpcode isText ≠ .ping ∧ dataOpcode isText ≠ .pong ∧ dataOpcode isText ≠ .close ∧
      (dataOpcode isText = .text ∨ dataOpcode isText = .binary) ∧
      decide (dataOpcode isText = .text) = isText := by
    cases isText <;> decide
  obtain ⟨hping, hpong, hclose, hdata, htext⟩ := hops
  rw [readOuter]
  dsimp only
  rw [if_neg hping, if_neg hpong, if_neg hclose, if_pos hdata, htext]

theorem deliver_message (hutf : isText = true → isValidUtf8 msg = true) :
    deliver closed isText msg = ⟨[], closed, .returns (.message isText msg)⟩ := by
  have hvalid : ¬ (isText && !isValidUtf8 msg) = true := by
    rw [Bool.and_eq_true, Bool.not_eq_true']
    rintro ⟨ht, hbad⟩
    simp [hutf ht] at hbad
  rw [deliver, if_neg hvalid]

theorem runRead_cons (point : ReadPoint) (a : Arrival) (arrivals : List Arrival) :
    runRead closed point (a :: arrivals) =
      match (readStep closed point a).reads with
      | .returns result =>
        ⟨(readStep closed point a).wrote, (readStep closed point a).closed, result, arrivals⟩
      | .waits next =>
        { runRead (readStep closed point a).closed next arrivals with
          wrote := (readStep closed point a).wrote ++
            (runRead (readStep closed point a).closed next arrivals).wrote } := rfl

theorem runRead_returns {point : ReadPoint} {a : Arrival} {arrivals : List Arrival} {step : ReadStep}
    {result : ReadResult} (h : readStep closed point a = step) (hr : step.reads = .returns result) :
    runRead closed point (a :: arrivals) = ⟨step.wrote, step.closed, result, arrivals⟩ := by
  rw [runRead_cons, h, hr]

theorem runRead_waits {point next : ReadPoint} {a : Arrival} {arrivals : List Arrival}
    {step : ReadStep} (h : readStep closed point a = step) (hr : step.reads = .waits next) :
    runRead closed point (a :: arrivals) =
      { runRead step.closed next arrivals with
        wrote := step.wrote ++ (runRead step.closed next arrivals).wrote } := by
  rw [runRead_cons, h, hr]

theorem pongs_cons (a : Arrival) (arrivals : List Arrival) :
    pongs (a :: arrivals) = (pongOf a).toList ++ pongs arrivals := by
  rw [pongs, List.filterMap_cons]
  cases pongOf a <;> rfl

theorem pongOf_data (hf : isData f = true) : pongOf (.frame f) = none := by
  refine if_neg fun hop => ?_
  simp [isData, isHeartbeat, hop] at hf

theorem runRead_inner {used rest : List Arrival} {parts : List Bytes}
    (h : Interleaved true used (fragments .continuation parts))
    (hle : (msg ++ parts.flatten).length ≤ maxPayloadLength)
    (hutf : isText = true → isValidUtf8 (msg ++ parts.flatten) = true) :
    runRead false (.inner isText msg) (used ++ rest) =
      ⟨pongs used, false, .message isText (msg ++ parts.flatten), rest⟩ := by
  generalize hfs : fragments .continuation parts = fs at h
  generalize hstarted : true = started at h
  induction h generalizing parts msg with
  | @last started f hf =>
    obtain _ | ⟨part, _ | ⟨next, parts⟩⟩ := parts
    · simp [fragments] at hfs
    · simp only [fragments, List.cons.injEq, and_true] at hfs
      subst hfs
      simp only [List.flatten_cons, List.flatten_nil, List.append_nil] at hle hutf ⊢
      have hstep : readStep false (.inner isText msg) (.frame ⟨true, .continuation, part⟩) =
          ⟨[], false, .returns (.message isText (msg ++ part))⟩ :=
        (readInner_continuation true part hle).trans (deliver_message hutf)
      rw [List.singleton_append, runRead_returns hstep rfl, pongs_cons, pongOf_data hf]
      rfl
    · obtain _ | ⟨last, parts⟩ := parts <;> simp [fragments] at hfs
  | @data started f arrivals fs hf h ih =>
    obtain _ | ⟨part, _ | ⟨next, parts⟩⟩ := parts
    · simp [fragments] at hfs
    · simp only [fragments, List.cons.injEq] at hfs
      exact absurd hfs.2.symm h.ne_nil
    · simp only [fragments, List.cons.injEq] at hfs
      obtain ⟨rfl, hfs⟩ := hfs
      rw [List.flatten_cons, ← List.append_assoc] at hle hutf ⊢
      have hpart : (msg ++ part).length ≤ maxPayloadLength := by
        rw [List.length_append] at hle
        omega
      have hstep : readStep false (.inner isText msg) (.frame ⟨false, .continuation, part⟩) =
          ⟨[], false, .waits (.inner isText (msg ++ part))⟩ :=
        readInner_continuation false part hpart
      rw [List.cons_append, runRead_waits hstep rfl, ih hle hutf hfs rfl, pongs_cons, pongOf_data hf]
      rfl
  | @heartbeat started f arrivals fs hf h ih =>
    rw [List.cons_append, runRead_waits (readStep_heartbeat _ hf) rfl, ih hle hutf hfs hstarted,
      pongs_cons]
  | @quiet arrivals fs h ih =>
    have hstep : readStep false (.inner isText msg) .quiet = ⟨[], false, .waits (.inner isText msg)⟩ :=
      rfl
    rw [List.cons_append, runRead_waits hstep rfl, ih hle hutf hfs rfl, pongs_cons]
    rfl

theorem runRead_outer {started : Bool} {used rest : List Arrival} {fs : List Frame}
    {parts : List Bytes} (h : Interleaved started used fs) (hstarted : started = false)
    (hfs : fragments (dataOpcode isText) parts = fs) (hlimit : WithinLimit parts)
    (hutf : isText = true → isValidUtf8 parts.flatten = true) :
    runRead false .outer (used ++ rest) =
      ⟨pongs used, false, .message isText parts.flatten, rest⟩ := by
  induction h with
  | @last started f hf =>
    obtain _ | ⟨part, _ | ⟨next, parts⟩⟩ := parts
    · simp [fragments] at hfs
    · simp only [fragments, List.cons.injEq, and_true] at hfs
      subst hfs
      simp only [List.flatten_cons, List.flatten_nil, List.append_nil] at hutf ⊢
      have hstep : readStep false .outer (.frame ⟨true, dataOpcode isText, part⟩) =
          ⟨[], false, .returns (.message isText part)⟩ :=
        (readOuter_data true part).trans (deliver_message hutf)
      rw [List.singleton_append, runRead_returns hstep rfl, pongs_cons, pongOf_data hf]
      rfl
    · obtain _ | ⟨last, parts⟩ := parts <;> simp [fragments] at hfs
  | @data started f arrivals fs hf h ih =>
    obtain _ | ⟨part, _ | ⟨next, parts⟩⟩ := parts
    · simp [fragments] at hfs
    · simp only [fragments, List.cons.injEq] at hfs
      exact absurd hfs.2.symm h.ne_nil
    · simp only [fragments, List.cons.injEq] at hfs
      obtain ⟨rfl, rfl⟩ := hfs
      have hle : (part ++ (next :: parts).flatten).length ≤ maxPayloadLength := by
        rcases hlimit with hone | hle
        · simp at hone
        · exact hle
      have hstep : readStep false .outer (.frame ⟨false, dataOpcode isText, part⟩) =
          ⟨[], false, .waits (.inner isText part)⟩ := readOuter_data false part
      rw [List.cons_append, runRead_waits hstep rfl, runRead_inner h hle hutf, pongs_cons,
        pongOf_data hf]
      rfl
  | @heartbeat started f arrivals fs hf h ih =>
    rw [List.cons_append, runRead_waits (readStep_heartbeat _ hf) rfl, ih hstarted hfs, pongs_cons]
  | quiet => cases hstarted

theorem runRead_waits_eq {point next : ReadPoint} {a : Arrival} {arrivals : List Arrival}
    {step : ReadStep} {run : ReadRun} (h : readStep closed point a = step)
    (hr : step.reads = .waits next) (hrun : runRead closed point (a :: arrivals) = run) :
    ∃ wrote, run.wrote = step.wrote ++ wrote ∧
      runRead step.closed next arrivals = { run with wrote } := by
  rw [runRead_waits h hr] at hrun
  subst hrun
  exact ⟨_, rfl, rfl⟩

theorem deliver_returns {result : ReadResult} {t : Bool} {m : Bytes}
    (h : (deliver closed isText msg).reads = .returns result) (hr : result = .message t m) :
    deliver closed isText msg = ⟨[], closed, .returns (.message isText msg)⟩ ∧ t = isText ∧ m = msg ∧
      (isText = true → isValidUtf8 msg = true) := by
  unfold deliver at h ⊢
  by_cases hbad : (isText && !isValidUtf8 msg) = true
  · rw [if_pos hbad] at h
    cases h
    cases hr
  · rw [if_neg hbad] at h
    cases h
    cases hr
    refine ⟨if_neg hbad, rfl, rfl, fun ht => ?_⟩
    simpa [ht] using hbad

theorem deliver_run {point : ReadPoint} {a : Arrival} {arrivals rest : List Arrival}
    {wrote : List Frame} {t : Bool} {m : Bytes}
    (hstep : readStep false point a = deliver false isText msg)
    (h : runRead false point (a :: arrivals) = ⟨wrote, false, .message t m, rest⟩) :
    t = isText ∧ m = msg ∧ rest = arrivals ∧ wrote = [] ∧
      (isText = true → isValidUtf8 msg = true) := by
  obtain ⟨result, hresult⟩ : ∃ result, (deliver false isText msg).reads = .returns result := by
    unfold deliver
    split <;> exact ⟨_, rfl⟩
  rw [runRead_returns hstep hresult] at h
  have hmessage : result = .message t m := congrArg ReadRun.result h
  obtain ⟨hdeliver, rfl, rfl, hutf⟩ := deliver_returns hresult hmessage
  rw [hdeliver] at h
  cases h
  exact ⟨rfl, rfl, rfl, rfl, hutf⟩

theorem not_message_of_failed {point : ReadPoint} {a : Arrival} {arrivals rest : List Arrival}
    {wrote : List Frame} {t : Bool} {m : Bytes} (hstep : readStep false point a = failed)
    (h : runRead false point (a :: arrivals) = ⟨wrote, false, .message t m, rest⟩) : False := by
  rw [runRead_returns hstep rfl] at h
  cases h

theorem frame_cases (f : Frame) : isHeartbeat f = true ∨ f.opcode = .close ∨ isData f = true := by
  by_cases hbeat : isHeartbeat f = true
  · exact .inl hbeat
  · by_cases hclose : f.opcode = .close
    · exact .inr (.inl hclose)
    · exact .inr (.inr (by simp [isData, hbeat, hclose]))

theorem fragments_ne_nil {started : Bool} {opcode : Opcode} {arrivals : List Arrival}
    {parts : List Bytes} (h : Interleaved started arrivals (fragments opcode parts)) :
    ∃ part tail, parts = part :: tail := by
  obtain _ | ⟨part, tail⟩ := parts
  · exact absurd rfl h.ne_nil
  · exact ⟨part, tail, rfl⟩

theorem readInner_data (hf : isData f = true) :
    readInner closed isText msg f =
      if f.opcode ≠ .continuation then failed
      else if maxPayloadLength < (msg ++ f.payload).length then failed
      else if f.fin then deliver closed isText (msg ++ f.payload)
      else ⟨[], closed, .waits (.inner isText (msg ++ f.payload))⟩ := by
  simp only [isData, isHeartbeat, Bool.and_eq_true, Bool.not_eq_true', Bool.or_eq_false_iff, bne_iff_ne,
    beq_eq_false_iff_ne] at hf
  rw [readInner, if_neg hf.1.1, if_neg hf.1.2, if_neg hf.2]

theorem readOuter_of_data (hf : isData f = true) :
    readOuter closed f =
      if f.opcode = .text ∨ f.opcode = .binary then
        if f.fin then deliver closed (decide (f.opcode = .text)) f.payload
        else ⟨[], closed, .waits (.inner (decide (f.opcode = .text)) f.payload)⟩
      else failed := by
  simp only [isData, isHeartbeat, Bool.and_eq_true, Bool.not_eq_true', Bool.or_eq_false_iff, bne_iff_ne,
    beq_eq_false_iff_ne] at hf
  rw [readOuter, if_neg hf.1.1, if_neg hf.1.2, if_neg hf.2]

theorem frame_eq {opcode : Opcode} (h : f.opcode = opcode) : f = ⟨f.fin, opcode, f.payload⟩ := by
  rw [← h]

theorem of_runRead_inner {arrivals rest : List Arrival} {wrote : List Frame} {t : Bool} {m : Bytes}
    (h : runRead false (.inner isText msg) arrivals = ⟨wrote, false, .message t m, rest⟩) :
    t = isText ∧ ∃ used parts, arrivals = used ++ rest ∧
      Interleaved true used (fragments .continuation parts) ∧ wrote = pongs used ∧
      m = msg ++ parts.flatten ∧ m.length ≤ maxPayloadLength ∧
      (isText = true → isValidUtf8 m = true) := by
  induction arrivals generalizing msg wrote with
  | nil => cases h
  | cons a arrivals ih =>
    -- a round that goes on with the same message
    have hsame : ∀ reply,
        readStep false (.inner isText msg) a = ⟨reply, false, .waits (.inner isText msg)⟩ →
        reply = (pongOf a).toList →
        (∀ used fs, Interleaved true used fs → Interleaved true (a :: used) fs) →
        t = isText ∧ ∃ used parts, a :: arrivals = used ++ rest ∧
          Interleaved true used (fragments .continuation parts) ∧ wrote = pongs used ∧
          m = msg ++ parts.flatten ∧ m.length ≤ maxPayloadLength ∧
          (isText = true → isValidUtf8 m = true) := by
      intro reply hstep hreply hgrows
      obtain ⟨wrote', hwrote, hrest⟩ := runRead_waits_eq hstep rfl h
      obtain ⟨ht, used, parts, rfl, hinter, rfl, hm, hle, hutf⟩ := ih hrest
      refine ⟨ht, a :: used, parts, rfl, hgrows _ _ hinter, ?_, hm, hle, hutf⟩
      rw [pongs_cons, ← hreply]
      exact hwrote
    cases a with
    | quiet => exact hsame [] rfl rfl fun _ _ hinter => .quiet hinter
    | broken =>
      have hstep : readStep false (.inner isText msg) .broken = failed := rfl
      exact (not_message_of_failed hstep h).elim
    | frame f =>
      rcases frame_cases f with hbeat | hclose | hdata
      · exact hsame _ (readStep_heartbeat _ hbeat) rfl fun _ _ hinter => .heartbeat hbeat hinter
      · rw [runRead_returns (readStep_close _ hclose) rfl] at h
        cases h
      · have hread := @readInner_data false isText msg f hdata
        by_cases hop : f.opcode = .continuation
        · by_cases hle : maxPayloadLength < (msg ++ f.payload).length
          · have hstep : readStep false (.inner isText msg) (.frame f) = failed := by
              rw [readStep, hread, if_neg (not_not.mpr hop), if_pos hle]
            exact (not_message_of_failed hstep h).elim
          · rw [if_neg (not_not.mpr hop), if_neg hle] at hread
            have hframe := frame_eq hop
            by_cases hfin : f.fin = true
            · have hstep : readStep false (.inner isText msg) (.frame f) =
                  deliver false isText (msg ++ f.payload) := by
                rw [readStep, hread, if_pos hfin]
              obtain ⟨rfl, rfl, rfl, hwrote, hutf⟩ := deliver_run hstep h
              rw [hfin] at hframe
              refine ⟨rfl, [.frame f], [f.payload], rfl, ?_, ?_, by simp, Nat.le_of_not_lt hle, hutf⟩
              · rw [fragments, ← hframe]
                exact .last hdata
              · rw [hwrote, pongs_cons, pongOf_data hdata]
                rfl
            · have hstep : readStep false (.inner isText msg) (.frame f) =
                  ⟨[], false, .waits (.inner isText (msg ++ f.payload))⟩ := by
                rw [readStep, hread, if_neg hfin]
              obtain ⟨wrote', hwrote, hrest⟩ := runRead_waits_eq hstep rfl h
              obtain ⟨ht, used, parts, rfl, hinter, rfl, hm, hmax, hutf⟩ := ih hrest
              rw [Bool.eq_false_iff.mpr hfin] at hframe
              refine ⟨ht, .frame f :: used, f.payload :: parts, rfl, ?_, ?_, ?_, hmax, hutf⟩
              · obtain ⟨next, tail, rfl⟩ := fragments_ne_nil hinter
                rw [fragments, ← hframe]
                exact .data hdata hinter
              · rw [pongs_cons, pongOf_data hdata]
                exact hwrote
              · rw [hm, List.flatten_cons, List.append_assoc]
        · have hstep : readStep false (.inner isText msg) (.frame f) = failed := by
            rw [readStep, hread, if_pos hop]
          exact (not_message_of_failed hstep h).elim

/-- A message in parts, as it comes over the wire: `used` is what arrives until it is whole. -/
structure Carries (used : List Arrival) (isText : Bool) (msg : Bytes) : Prop where
  parts : ∃ parts, Interleaved false used (fragments (dataOpcode isText) parts) ∧
    msg = parts.flatten ∧ WithinLimit parts
  utf8 : isText = true → isUtf8 (textOf msg) = true

theorem dataOpcode_of {opcode : Opcode} (h : opcode = .text ∨ opcode = .binary) :
    opcode = dataOpcode (decide (opcode = .text)) := by
  rcases h with rfl | rfl <;> decide

theorem of_runRead_outer {arrivals rest : List Arrival} {wrote : List Frame} {t : Bool} {m : Bytes}
    (h : runRead false .outer arrivals = ⟨wrote, false, .message t m, rest⟩) :
    ∃ used, arrivals = used ++ rest ∧ Carries used t m ∧ wrote = pongs used := by
  induction arrivals generalizing wrote with
  | nil => cases h
  | cons a arrivals ih =>
    cases a with
    | quiet =>
      have hstep : readStep false .outer .quiet = ⟨[], false, .returns .timeout⟩ := rfl
      rw [runRead_returns hstep rfl] at h
      cases h
    | broken =>
      have hstep : readStep false .outer .broken = failed := rfl
      exact (not_message_of_failed hstep h).elim
    | frame f =>
      rcases frame_cases f with hbeat | hclose | hdata
      · obtain ⟨wrote', hwrote, hrest⟩ := runRead_waits_eq (readStep_heartbeat _ hbeat) rfl h
        obtain ⟨used, rfl, ⟨⟨parts, hinter, hm, hlimit⟩, hutf⟩, rfl⟩ := ih hrest
        refine ⟨.frame f :: used, rfl, ⟨⟨parts, .heartbeat hbeat hinter, hm, hlimit⟩, hutf⟩, ?_⟩
        rw [pongs_cons]
        exact hwrote
      · rw [runRead_returns (readStep_close _ hclose) rfl] at h
        cases h
      · have hread := @readOuter_of_data false f hdata
        by_cases hop : f.opcode = .text ∨ f.opcode = .binary
        · rw [if_pos hop] at hread
          have hframe := frame_eq (dataOpcode_of hop)
          by_cases hfin : f.fin = true
          · have hstep : readStep false .outer (.frame f) =
                deliver false (decide (f.opcode = .text)) f.payload := by
              rw [readStep, hread, if_pos hfin]
            obtain ⟨rfl, rfl, rfl, rfl, hutf⟩ := deliver_run hstep h
            rw [hfin] at hframe
            refine ⟨[.frame f], rfl, ⟨⟨[f.payload], ?_, by simp, .inl rfl⟩, ?_⟩, ?_⟩
            · rw [fragments, ← hframe]
              exact .last hdata
            · rwa [← isValidUtf8_eq_isUtf8]
            · rw [pongs_cons, pongOf_data hdata]
              rfl
          · have hstep : readStep false .outer (.frame f) =
                ⟨[], false, .waits (.inner (decide (f.opcode = .text)) f.payload)⟩ := by
              rw [readStep, hread, if_neg hfin]
            obtain ⟨wrote', hwrote, hrest⟩ := runRead_waits_eq hstep rfl h
            obtain ⟨rfl, used, parts, rfl, hinter, rfl, hm, hmax, hutf⟩ := of_runRead_inner hrest
            rw [Bool.eq_false_iff.mpr hfin] at hframe
            refine ⟨.frame f :: used, rfl, ⟨⟨f.payload :: parts, ?_, ?_, .inr ?_⟩, ?_⟩, ?_⟩
            · obtain ⟨next, tail, rfl⟩ := fragments_ne_nil hinter
              rw [fragments, ← hframe]
              exact .data hdata hinter
            · rw [List.flatten_cons, hm]
            · rw [List.flatten_cons, ← hm]
              exact hmax
            · rwa [← isValidUtf8_eq_isUtf8]
            · rw [pongs_cons, pongOf_data hdata]
              exact hwrote
        · have hstep : readStep false .outer (.frame f) = failed := by
            rw [readStep, hread, if_neg hop]
          exact (not_message_of_failed hstep h).elim

theorem Interleaved.mem {started : Bool} {arrivals : List Arrival} {fs : List Frame}
    (h : Interleaved started arrivals fs) : ∀ f ∈ fs, Arrival.frame f ∈ arrivals := by
  induction h with
  | last hf => simp
  | data hf h ih =>
    intro g hg
    rcases List.mem_cons.mp hg with rfl | hg
    · exact List.mem_cons_self
    · exact List.mem_cons_of_mem _ (ih g hg)
  | heartbeat hf h ih => exact fun g hg => List.mem_cons_of_mem _ (ih g hg)
  | quiet h ih => exact fun g hg => List.mem_cons_of_mem _ (ih g hg)

theorem Carries.within {used : List Arrival} {isText : Bool} {msg : Bytes} (h : Carries used isText msg)
    (hframes : ∀ f, Arrival.frame f ∈ used → f.payload.length ≤ maxPayloadLength) :
    msg.length ≤ maxPayloadLength := by
  obtain ⟨parts, hinter, rfl, hone | hlimit⟩ := h.parts
  · obtain ⟨part, rfl⟩ := List.length_eq_one_iff.mp hone
    have hpart := hframes _ (hinter.mem _ List.mem_cons_self)
    rwa [List.flatten_cons, List.flatten_nil, List.append_nil]
  · exact hlimit

/-- `read` returns a message exactly where what arrives carries one, in any number of fragments with
any pings and pongs among them. It takes just what carries it, and answers just its pings; with frames
within the limit the message is within it too. -/
theorem readMessage_message_iff {arrivals rest : List Arrival} {wrote : List Frame} {isText : Bool}
    {msg : Bytes} :
    (readMessage arrivals = ⟨wrote, false, .message isText msg, rest⟩ ↔
      ∃ used, arrivals = used ++ rest ∧ Carries used isText msg ∧ wrote = pongs used) ∧
    (readMessage arrivals = ⟨wrote, false, .message isText msg, rest⟩ →
      (∀ f, Arrival.frame f ∈ arrivals → f.payload.length ≤ maxPayloadLength) →
        msg.length ≤ maxPayloadLength) := by
  refine ⟨⟨of_runRead_outer, ?_⟩, fun h hframes => ?_⟩
  · rintro ⟨used, rfl, ⟨⟨parts, hinter, rfl, hlimit⟩, hutf⟩, rfl⟩
    rw [← isValidUtf8_eq_isUtf8] at hutf
    exact runRead_outer hinter rfl rfl hlimit hutf
  · obtain ⟨used, rfl, hcarries, -⟩ := of_runRead_outer h
    exact hcarries.within fun f hf => hframes f (List.mem_append_left rest hf)

end Quackapi.WebSocket
