import Quackapi.Util.Json
import Mathlib.Algebra.Group.Nat.Defs

/-! The response made of the result of a batch's last statement. The values are the engine's; what is
asked of them are their texts and the sizes of their native serialization. -/

namespace Quackapi.Exec

structure NativeCodec (V : Type) where
  isNull : V → Bool
  toText : V → Str
  toJson : V → Str
  /-- The serialized size of a list of rows. -/
  rowsBytes : List (List V) → Nat
  /-- The serialized size of a schema with its rows. -/
  resultBytes : List Str → List (List V) → Nat
  countBytes : Nat → Nat
  deduplicateColumns : List Str → List Str

/-- The result of a statement; a result that has an error is an `Except.error` elsewhere. -/
structure QueryResult (V : Type) where
  names : List Str
  rows : List (List V)

structure TypedResult (V : Type) where
  columns : List Str
  rows : List (List V)

structure QuackapiExecResponse (V : Type) where
  status : Nat
  body : Str
  headers : List (Str × Str)
  rows : Nat
  typedResult : Option (TypedResult V)

section
variable {V : Type}

def execJsonResponse (status : Nat) (body : Str) : QuackapiExecResponse V :=
  ⟨status, body, [("Content-Type".toList, "application/json".toList)], 0, none⟩

def detailJson (detail : Str) : Str := "\x7b\"detail\":\"".toList ++ detail ++ "\"\x7d".toList

def validationErrorJson (locKind paramName msg type : Str) : Str :=
  "\x7b\"detail\":[\x7b\"loc\":[".toList ++ jsonString locKind ++ ",".toList ++
    jsonString paramName ++ "],\"msg\":".toList ++ jsonString msg ++ ",\"type\":".toList ++
    jsonString type ++ "\x7d]\x7d".toList

def execTimeoutResponse : QuackapiExecResponse V :=
  execJsonResponse 504 (detailJson "Query execution deadline exceeded".toList)

def validationResponse (loc param error : Str) : QuackapiExecResponse V :=
  execJsonResponse 422 (validationErrorJson loc param error "value_error".toList)

def execErrorResponse (error : Str) : QuackapiExecResponse V :=
  validationResponse "body".toList "sql".toList error

def overLimitResponse : QuackapiExecResponse V :=
  execJsonResponse 507 (detailJson "Response exceeds configured byte limit".toList)

def typedTooLargeResponse : QuackapiExecResponse V :=
  execJsonResponse 507 (detailJson "Native typed rows exceed configured byte limit".toList)

def internalResponse (what : Str) : QuackapiExecResponse V :=
  execJsonResponse 500 (detailJson (jsonEscape what))

/-- What ends the collection of a result before its last row. -/
inductive ExecStop
  | overLimit
  | typedTooLarge
  | internal (what : Str)

def idxMax : Nat := 2 ^ 64 - 1

def saturatingAdd (lhs rhs : Nat) : Nat := if idxMax - lhs < rhs then idxMax else lhs + rhs

structure TypedCollector (V : Type) where
  columns : List Str
  rows : List (List V)
  rowPayloadBytes : Nat

def newCollector (codec : NativeCodec V) (names : List Str) : TypedCollector V :=
  ⟨codec.deduplicateColumns names, [], 0⟩

def appendRow (codec : NativeCodec V) (maxBytes : Nat) (t : TypedCollector V) (row : List V) :
    Except ExecStop (TypedCollector V) :=
  if row.length ≠ t.columns.length then
    .error (.internal ("typed row has ".toList ++ Nat.toDigits 10 row.length ++ " values for ".toList ++
      Nat.toDigits 10 t.columns.length ++ " columns".toList))
  else if codec.rowsBytes [row] < codec.rowsBytes [] then
    .error (.internal "native typed row serialization produced a negative row size".toList)
  else if codec.countBytes (t.rows.length + 1) < codec.countBytes 0 then
    .error (.internal "native typed list count serialization decreased in size".toList)
  else
    let rowDelta := codec.rowsBytes [row] - codec.rowsBytes []
    let countDelta := codec.countBytes (t.rows.length + 1) - codec.countBytes 0
    let predicted := saturatingAdd (saturatingAdd
      (saturatingAdd (codec.resultBytes t.columns []) t.rowPayloadBytes) rowDelta) countDelta
    if maxBytes < predicted then .error .typedTooLarge
    else .ok { t with
      rows := t.rows ++ [row], rowPayloadBytes := saturatingAdd t.rowPayloadBytes rowDelta }

def finishRows (codec : NativeCodec V) (maxBytes : Nat) (t : TypedCollector V) :
    Except ExecStop (TypedResult V) :=
  if maxBytes < codec.resultBytes t.columns t.rows then .error .typedTooLarge
  else .ok ⟨t.columns, t.rows⟩

inductive ResponseMode
  | json | html | text
deriving DecidableEq, Repr

def responseModeFor : List Str → ResponseMode
  | [name] =>
    if lower name = "html".toList then .html
    else if lower name = "text".toList then .text
    else .json
  | _ => .json

def isLocation (name : Str) : Bool := decide (lower name = "location".toList)

def isSetCookie (name : Str) : Bool :=
  decide (lower name = "set_cookie".toList) || decide (lower name = "set-cookie".toList)

def columnsWhere (p : Str → Bool) (names : List Str) : List Nat :=
  (List.range names.length).filter fun i => p (names.getD i [])

def dataCols (names : List Str) : List Nat :=
  columnsWhere (fun name => !isLocation name && !isSetCookie name) names

/-- The value of a column, if the row has it and it is not null. -/
def cell (codec : NativeCodec V) (row : List V) (col : Option Nat) : Option Str :=
  match col.bind (row[·]?) with
  | some v => if codec.isNull v then none else some (codec.toText v)
  | none => none

def serializeRowJsonObject (codec : NativeCodec V) (names : List Str) (cols : List Nat)
    (row : List V) : Str :=
  "\x7b".toList ++ ",".toList.intercalate (cols.map fun i => jsonString (names.getD i []) ++
    ":".toList ++ ((row[i]?).map codec.toJson).getD []) ++ "\x7d".toList

structure ResultState (V : Type) where
  body : Str
  headers : List (Str × Str)
  rows : Nat
  location : Str
  typedRows : Option (TypedCollector V)

def isJsonResult (names : List Str) : Bool :=
  decide (responseModeFor ((dataCols names).map (names.getD · [])) = .json) &&
    !(dataCols names).isEmpty

def startResult (codec : NativeCodec V) (collectTypedRows : Bool) (names : List Str) :
    ResultState V where
  body := if isJsonResult names then "[".toList else []
  headers :=
    if isJsonResult names then [("Content-Type".toList, "application/json".toList)]
    else if (dataCols names).isEmpty then []
    else if responseModeFor ((dataCols names).map (names.getD · [])) = .html then
      [("Content-Type".toList, "text/html; charset=utf-8".toList)]
    else [("Content-Type".toList, "text/plain; charset=utf-8".toList)]
  rows := 0
  location := []
  typedRows := if collectTypedRows then some (newCollector codec names) else none

/-- The text a row adds to the body; a JSON row counts the bracket that will follow. -/
def rowBody (codec : NativeCodec V) (maxBytes : Nat) (names : List Str) (out : ResultState V)
    (row : List V) : Except ExecStop Str :=
  if isJsonResult names then
    let encoded := serializeRowJsonObject codec names (dataCols names) row
    let separator := if out.rows = 0 then [] else ",".toList
    if maxBytes < out.body.length + encoded.length + separator.length + 1 then .error .overLimit
    else .ok (out.body ++ separator ++ encoded)
  else .ok (out.body ++ (cell codec row (dataCols names).head?).getD [])

def addResultRow (codec : NativeCodec V) (maxBytes : Nat) (names : List Str) (out : ResultState V)
    (row : List V) : Except ExecStop (ResultState V) := do
  let typedRows ←
    match out.typedRows with
    | none => pure none
    | some t => do
      let t ← appendRow codec maxBytes t row
      pure (some t)
  let body ← rowBody codec maxBytes names out row
  if maxBytes < body.length then throw .overLimit
  return {
    body
    headers := out.headers ++
      ((cell codec row (columnsWhere isSetCookie names).getLast?).map ("Set-Cookie".toList, ·)).toList
    rows := out.rows + 1
    location :=
      if out.location.isEmpty then
        (cell codec row (columnsWhere isLocation names).getLast?).getD []
      else out.location
    typedRows }

def addResultRows (codec : NativeCodec V) (maxBytes : Nat) (names : List Str) :
    ResultState V → List (List V) → Except ExecStop (ResultState V)
  | out, [] => .ok out
  | out, row :: rows => do
    let out ← addResultRow codec maxBytes names out row
    addResultRows codec maxBytes names out rows

def endResult (codec : NativeCodec V) (maxBytes : Nat) (names : List Str) (out : ResultState V) :
    Except ExecStop (QuackapiExecResponse V) := do
  let response : QuackapiExecResponse V :=
    if isJsonResult names then ⟨200, out.body ++ "]".toList, out.headers, out.rows, none⟩
    else if names.isEmpty then execJsonResponse 200 "[]".toList
    else ⟨200, out.body, out.headers, out.rows, none⟩
  let typedResult ←
    match out.typedRows with
    | none => pure none
    | some t => do
      let t ← finishRows codec maxBytes t
      pure (some t)
  return { response with
    headers := response.headers ++
      (if out.location.isEmpty then [] else [("Location".toList, out.location)])
    typedResult }

def collectResult (codec : NativeCodec V) (maxBytes : Nat) (collectTypedRows : Bool)
    (result : QueryResult V) : Except ExecStop (QuackapiExecResponse V) := do
  let out ← addResultRows codec maxBytes result.names
    (startResult codec collectTypedRows result.names) result.rows
  endResult codec maxBytes result.names out

def capResponse (maxBytes : Nat) (out : QuackapiExecResponse V) : QuackapiExecResponse V :=
  if maxBytes < out.body.length then overLimitResponse else out

/-- `QuackapiExecResult`: the answer about the typed rows leaves before the last check. -/
def quackapiExecResult (codec : NativeCodec V) (maxBytes : Nat) (collectTypedRows : Bool)
    (result : QueryResult V) : QuackapiExecResponse V :=
  match collectResult codec maxBytes collectTypedRows result with
  | .ok out => capResponse maxBytes out
  | .error .overLimit => overLimitResponse
  | .error .typedTooLarge => typedTooLargeResponse
  | .error (.internal what) => capResponse maxBytes (internalResponse what)

end

end Quackapi.Exec
