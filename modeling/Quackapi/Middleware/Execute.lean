import Mathlib.Logic.Function.Basic
import Quackapi.Library.Until
import Quackapi.Middleware.Registry
import Quackapi.Params.Handlers

/-! The run of the middleware around a route: what one definition's result decides, and the chain. The
database is a parameter; its state goes from one definition to the next. -/

namespace Quackapi.Middleware
open Library
open Params (Value LogicalType Bindings Handler MiddlewareContext bindMiddleware)

inductive ControlSlot
  | allow | status | body | headerName | headerValue
deriving DecidableEq

def controlSlot (name : Str) : Option ControlSlot :=
  let lowered := lower name
  if lowered = "allow".toList then some .allow
  else if lowered = "status".toList then some .status
  else if lowered = "body".toList then some .body
  else if lowered = "header_name".toList then some .headerName
  else if lowered = "header_value".toList then some .headerValue
  else none

abbrev ControlColumns := ControlSlot → Option Nat

/-- The loop over the column names from column `col` on; a second column for a slot fails it. -/
def scanColumns : List Str → Nat → ControlColumns → Option ControlColumns
  | [], _, columns => some columns
  | name :: names, col, columns =>
    match controlSlot name with
    | none => scanColumns names (col + 1) columns
    | some slot =>
      if (columns slot).isSome then none
      else scanColumns names (col + 1) (Function.update columns slot (some col))

def slotType : ControlSlot → LogicalType
  | .allow => .boolean
  | .status => .integral .integer
  | .body | .headerName | .headerValue => .varchar

def isTyped (types : List LogicalType) (columns : ControlColumns) (slot : ControlSlot) : Bool :=
  match columns slot with
  | none => true
  | some col => decide (types[col]? = some (slotType slot))

def getMiddlewareResultColumns (names : List Str) (types : List LogicalType) : Option ControlColumns :=
  match scanColumns names 0 fun _ => none with
  | none => none
  | some columns =>
    if (columns .allow).isSome && isTyped types columns .allow && isTyped types columns .status &&
        isTyped types columns .body && isTyped types columns .headerName &&
        isTyped types columns .headerValue &&
        (columns .headerName).isNone == (columns .headerValue).isNone then
      some columns
    else none

def maxResultRows : Nat := 64

def maxHeaderBytes : Nat := 8 * 1024

def maxBodyBytes : Nat := 1024 * 1024

def isValidHttpStatus (status : Int) : Bool := decide (100 ≤ status) && decide (status ≤ 599)

def isHttpTokenChar (c : Char) : Bool :=
  (decide ('a' ≤ c) && decide (c ≤ 'z')) || (decide ('A' ≤ c) && decide (c ≤ 'Z')) ||
    (decide ('0' ≤ c) && decide (c ≤ '9')) || "!#$%&'*+-.^_`|~".toList.contains c

def isForbiddenResponseHeader (name : Str) : Bool :=
  ["connection".toList, "content-length".toList, "keep-alive".toList, "proxy-authenticate".toList,
    "proxy-authorization".toList, "te".toList, "trailer".toList, "transfer-encoding".toList,
    "upgrade".toList].contains (lower name)

def isSafeResponseHeader (name value : Str) : Bool :=
  !name.isEmpty && decide (name.length ≤ 256) && decide (value.length ≤ maxHeaderBytes) &&
    decide (name.length + value.length ≤ maxHeaderBytes) && !isForbiddenResponseHeader name &&
    name.all isHttpTokenChar && !value.contains '\r' && !value.contains '\n'

def cell (columns : ControlColumns) (row : List Value) (slot : ControlSlot) : Value :=
  match columns slot with
  | none => .null
  | some col => row.getD col .null

/-- `GetValue<bool>` of a `BOOLEAN`; the column's type leaves no other case. -/
def getBool : Value → Bool
  | .boolean b => b
  | _ => false

def getInt : Value → Int
  | .number (.integer n) => n
  | _ => 0

def getText : Value → Str
  | .text s => s
  | _ => []

def rejectedBody : Str := "\x7b\"detail\":\"Request rejected by middleware\"\x7d".toList

structure RowState where
  rowCount : Nat
  blocked : Option (Int × Str)
  headers : List (Str × Str)

/-- The header of a row, if it has one; `none` where the pair is not to be sent. -/
def rowHeader (columns : ControlColumns) (row : List Value) : Option (Option (Str × Str)) :=
  let name := cell columns row .headerName
  let value := cell columns row .headerValue
  if decide (name = .null) != decide (value = .null) then none
  else if name = .null then some none
  else if isSafeResponseHeader (getText name) (getText value) then
    some (some (getText name, getText value))
  else none

/-- What a row that does not allow answers; `none` where it may not. -/
def rowBlock (columns : ControlColumns) (row : List Value) : Option (Int × Str) :=
  let status := cell columns row .status
  let body := cell columns row .body
  let statusValue := if status = .null then 403 else getInt status
  let bodyValue := if body = .null then rejectedBody else getText body
  if !isValidHttpStatus statusValue then none
  else if maxBodyBytes < bodyValue.length then none
  else some (statusValue, bodyValue)

/-- One turn of the loop over the rows; `none` is a failure. -/
def visitRow (columns : ControlColumns) (st : RowState) (row : List Value) : Option RowState :=
  if maxResultRows < st.rowCount + 1 then none
  else
    let allow := cell columns row .allow
    if allow = .null then none
    else if getBool allow &&
        (decide (cell columns row .status ≠ .null) || decide (cell columns row .body ≠ .null)) then none
    else
      match rowHeader columns row with
      | none => none
      | some header =>
        let next : RowState := ⟨st.rowCount + 1, st.blocked, st.headers ++ header.toList⟩
        if getBool allow then some next
        else
          match rowBlock columns row with
          | none => none
          | some block =>
            if st.blocked.any (· != block) then none else some { next with blocked := some block }

/-- What executing a prepared statement gives. `Fetch` hands the chunks out in turn, and may throw. -/
inductive Execution
  | error
  | result (names : List Str) (types : List LogicalType) (chunks : List (List (List Value)))
      (fetchThrows : Bool)

/-- The loop over the chunks. The columns are checked once there is a row. -/
def fetchChunks (names : List Str) (types : List LogicalType) (fetchThrows : Bool) :
    List (List (List Value)) → Option ControlColumns → RowState → Option RowState
  | [], _, st => if fetchThrows then none else some st
  | chunk :: chunks, checked, st =>
    if chunk.isEmpty then some st
    else
      match checked.or (getMiddlewareResultColumns names types) with
      | none => none
      | some columns =>
        match chunk.foldlM (visitRow columns) st with
        | none => none
        | some st' => fetchChunks names types fetchThrows chunks (some columns) st'

/-- The database behind the connection: what policies and planner make of a handler, and its runs. -/
structure MiddlewareEngine (σ : Type) where
  handler : σ → Str → Handler
  execute : σ → Str → Bindings → σ × Execution

inductive MiddlewareStop
  | notAuthenticated
  | failed
deriving DecidableEq

/-- What a middleware that did not fail says of the request. -/
structure Decision where
  headers : List (Str × Str)
  blocked : Option (Int × Str)

section
variable {σ : Type} (e : MiddlewareEngine σ) (c : MiddlewareContext) (authenticated : Bool)
  (claims : List (Str × Str))

def runMiddleware (s : σ) (middleware : QuackapiMiddleware) : σ × Except MiddlewareStop Decision :=
  match bindMiddleware (e.handler s middleware.handlerSql) c authenticated claims with
  | .error .notAuthenticated => (s, .error .notAuthenticated)
  | .error _ => (s, .error .failed)
  | .ok values =>
    match e.execute s middleware.handlerSql values with
    | (s', .error) => (s', .error .failed)
    | (s', .result names types chunks fetchThrows) =>
      match fetchChunks names types fetchThrows chunks none ⟨0, none, []⟩ with
      | none => (s', .error .failed)
      | some st => (s', .ok ⟨st.headers, st.blocked⟩)

def middlewareMachine : Machine σ QuackapiMiddleware (Except MiddlewareStop Decision) :=
  ⟨runMiddleware e c authenticated claims⟩

/-- The fields of the context that the caller applies. -/
structure MiddlewareReply where
  status : Int
  responseBody : Str
  responseHeaders : List (Str × Str)
  middlewareFailed : Bool

def setMiddlewareFailure (reply : MiddlewareReply) : MiddlewareReply :=
  { reply with
    status := 500
    responseBody := "\x7b\"detail\":\"Middleware execution failed\"\x7d".toList
    middlewareFailed := true }

def executeChain : σ → List QuackapiMiddleware → MiddlewareReply → σ × MiddlewareReply × Bool
  | s, [], reply => (s, reply, true)
  | s, middleware :: rest, reply =>
    match runMiddleware e c authenticated claims s middleware with
    | (s', .error .notAuthenticated) =>
      (s', { reply with
        status := 401
        responseBody := "\x7b\"detail\":\"Not authenticated\"\x7d".toList }, false)
    | (s', .error .failed) => (s', setMiddlewareFailure reply, false)
    | (s', .ok decision) =>
      let reply' := { reply with responseHeaders := reply.responseHeaders ++ decision.headers }
      match decision.blocked with
      | some (status, body) => (s', { reply' with status, responseBody := body }, false)
      | none => executeChain s' rest reply'

def executeQuackapiMiddleware (r : MiddlewareRegistry) (phase : MiddlewarePhase) (groupName : Str)
    (s : σ) (reply : MiddlewareReply) : σ × MiddlewareReply × Bool :=
  executeChain e c authenticated claims s (snapshot r phase groupName) reply

end
end Quackapi.Middleware
