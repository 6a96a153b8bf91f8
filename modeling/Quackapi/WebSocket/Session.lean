import Quackapi.Http.RowEvents
import Quackapi.Library.Machine
import Quackapi.WebSocket.Reading

/-! A WebSocket session of a stream. Its thread reads and sends, the heartbeat pings, and the server
may stop: each action is one atomic step of one of them, so a run is an interleaving. -/

namespace Quackapi.WebSocket
open Library
open Http (Value rowJsonObject)

/-- The last place up to `end` where a character starts. -/
def characterStart (message : Bytes) : Nat → Nat
  | 0 => 0
  | n + 1 => if (message[n + 1]?).any isTail then characterStart message n else n + 1

def webSocketCloseReason (message : Bytes) : Bytes :=
  message.take (characterStart message (min message.length 123))

/-- The stream a session is for; `B` is what a message is bound to. -/
structure SessionConfig (B : Type) where
  takesMessage : Bool
  intervalMs : Int
  maxResponseBytes : Nat
  /-- The binding of `$message`, or the body of the error. -/
  bindMessage : Bytes → Except Bytes B

inductive SessionPoint
  /-- At the head of the loop for messages. -/
  | listening
  /-- At the head of `read`'s loop. -/
  | checking
  | reading (point : ReadPoint)
  | received (msg : Bytes)
  /-- The SELECT is to be run. -/
  | executing
  | sending (names : List Str)
  /-- All rows are sent, and no message is asked for. -/
  | pushed
  /-- The next run is waited for. -/
  | waiting
  | ending
  | ended
deriving DecidableEq

structure SessionState (B : Type) where
  point : SessionPoint
  /-- `named_values["message"]`. -/
  message : Option B
  /-- `closed_`. -/
  closed : Bool
  isRunning : Bool
  bytesSent : Nat
  rowsSent : Nat
deriving DecidableEq

inductive SessionAction
  -- the session's thread
  | next
  | receive (a : Arrival)
  /-- `Execute` returns, with an error or the names of the columns. -/
  | execute (result : Except Bytes (List Str))
  | row (cols : List Value) (sent : Bool)
  | rowsEnd
  | throws (what : Option Bytes)
  | clock (due : Bool)
  -- the heartbeat's thread
  | ping (sent : Bool)
  -- the server
  | stop

/-- What a step does that can be seen from outside. -/
inductive SessionEffect (B : Type)
  /-- A frame of `read` or the heartbeat, or a Close. -/
  | control (f : Frame)
  | row (data : Bytes) (sent : Bool)
  | reply (data : Bytes)
  | handled (msg : Bytes)
  /-- `Execute` has returned. -/
  | ran (message : Option B)
  /-- The access log's row, of status 101. -/
  | logged (bytes rows : Nat)
deriving DecidableEq

section
variable {B : Type}

def textFrame (data : Bytes) : Frame := ⟨true, .text, data⟩

def pingFrame : Frame := ⟨true, .ping, []⟩

def SessionEffect.frame : SessionEffect B → Option Frame
  | .control f => some f
  | .row data _ => some (textFrame data)
  | .reply data => some (textFrame data)
  | _ => none

def newSession (cfg : SessionConfig B) : SessionState B :=
  ⟨if cfg.takesMessage then .listening else .executing, none, false, true, 0, 0⟩

/-- `close`, after which the thread goes on to the end. -/
def closeSession (s : SessionState B) (status : CloseStatus) (reason : Bytes) :
    SessionState B × List (SessionEffect B) :=
  ({ s with point := .ending, closed := true },
    if s.closed then [] else [.control (closeFrame status reason)])

/-- Where a push or a reply goes on when `read` has returned. -/
def afterRead (cfg : SessionConfig B) : ReadResult → SessionPoint
  | .fail => .ending
  | .timeout => if cfg.takesMessage then .listening else .waiting
  | .message _ msg => if cfg.takesMessage then .received msg else .waiting

def nextPoint (cfg : SessionConfig B) : Reads → SessionPoint
  | .waits .outer => .checking
  | .waits (.inner isText msg) => .reading (.inner isText msg)
  | .returns result => afterRead cfg result

def receiveStep (cfg : SessionConfig B) (s : SessionState B) (point : ReadPoint) (a : Arrival) :
    SessionState B × List (SessionEffect B) :=
  let step := readStep s.closed point a
  ({ s with point := nextPoint cfg step.reads, closed := step.closed }, step.wrote.map .control)

/-- A message that does not bind is answered, and the next one is read. -/
def handleMessage (cfg : SessionConfig B) (s : SessionState B) (msg : Bytes) :
    SessionState B × List (SessionEffect B) :=
  match cfg.bindMessage msg with
  | .ok b => ({ s with point := .executing, message := some b }, [.handled msg])
  | .error body =>
    ({ s with point := .listening }, .handled msg :: if s.closed then [] else [.reply body])

def sendRow (cfg : SessionConfig B) (s : SessionState B) (data : Bytes) (sent : Bool) :
    SessionState B × List (SessionEffect B) :=
  if cfg.maxResponseBytes < s.bytesSent + data.length then
    closeSession s .messageTooBig (bytesOf "Response exceeds configured byte limit".toList)
  else if s.closed then ({ s with point := .ending }, [])
  else if sent then
    ({ s with bytesSent := s.bytesSent + data.length, rowsSent := s.rowsSent + 1 }, [.row data true])
  else ({ s with point := .ending }, [.row data false])

def finishSession (s : SessionState B) : SessionState B × List (SessionEffect B) :=
  let closing := closeSession s (if s.isRunning then .normal else .goingAway) []
  ({ closing.1 with point := .ended }, closing.2 ++ [.logged s.bytesSent s.rowsSent])

/-- The steps that nothing outside has a part in. -/
def nextStep (cfg : SessionConfig B) (s : SessionState B) :
    SessionState B × List (SessionEffect B) :=
  match s.point with
  | .listening => ({ s with point := if s.isRunning then .checking else .ending }, [])
  | .checking =>
    ({ s with point := if s.closed then .ending else .reading .outer }, [])
  | .received msg =>
    if s.isRunning then handleMessage cfg s msg else ({ s with point := .listening }, [])
  | .pushed =>
    ({ s with point := if 0 < cfg.intervalMs ∧ s.isRunning then .waiting else .ending }, [])
  | .ending => finishSession s
  | _ => (s, [])

/-- The wait for the next run is over when it is due; a stopped server runs no more. -/
def clockStep (s : SessionState B) (due : Bool) : SessionPoint :=
  if !s.isRunning then .ending else if due then .executing else .checking

def caughtReason : Option Bytes → Bytes
  | some what => webSocketCloseReason what
  | none => bytesOf "unknown exception".toList

/-- A step that its thread has not come to changes nothing. -/
def sessionStep (cfg : SessionConfig B) (s : SessionState B) :
    SessionAction → SessionState B × List (SessionEffect B)
  | .next => nextStep cfg s
  | .receive a =>
    match s.point with
    | .reading point => receiveStep cfg s point a
    | _ => (s, [])
  | .execute result =>
    if s.point = .executing then
      match result with
      | .error what =>
        let closing := closeSession s .internalError (webSocketCloseReason what)
        (closing.1, .ran s.message :: closing.2)
      | .ok names => ({ s with point := .sending names }, [.ran s.message])
    else (s, [])
  | .row cols sent =>
    match s.point with
    | .sending names => sendRow cfg s (bytesOf (rowJsonObject names cols)) sent
    | _ => (s, [])
  | .rowsEnd =>
    match s.point with
    | .sending _ => ({ s with point := if cfg.takesMessage then .listening else .pushed }, [])
    | _ => (s, [])
  | .throws what =>
    match s.point with
    | .ending | .ended => (s, [])
    | _ => closeSession s .internalError (caughtReason what)
  | .clock due =>
    match s.point with
    | .waiting => ({ s with point := clockStep s due }, [])
    | _ => (s, [])
  -- the thread ends with `closed_`, and nothing asks how many pings were missed
  | .ping sent =>
    if s.closed then (s, []) else ({ s with closed := !sent }, [.control pingFrame])
  | .stop => ({ s with isRunning := false }, [])

def sessionMachine (cfg : SessionConfig B) :
    Machine (SessionState B) SessionAction (List (SessionEffect B)) :=
  ⟨sessionStep cfg⟩

def framesSent (es : List (SessionEffect B)) : List Frame := es.filterMap SessionEffect.frame

end
end Quackapi.WebSocket
