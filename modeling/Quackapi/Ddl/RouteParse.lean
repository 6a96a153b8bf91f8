import Quackapi.Http.Routes

/-! The scanner behind `CREATE ROUTE`. It works on the text that is left, trimmed, and takes one clause
after the other from its front. -/

namespace Quackapi.Ddl
open Params Http

/-- Why there is no route: what the parser answers, or what it throws. -/
inductive DdlStop
  | answered (message : Str)
  | thrown (message : Str)
deriving DecidableEq

abbrev Scan (α : Type) := Except DdlStop α

def fail {α : Type} (message : Str) : Scan α := .error (.answered message)

structure DdlEngine where
  /-- `Parser::Tokenize`: where the tokens of a text start. -/
  tokenStarts : Str → List Nat
  /-- `ParseSingleExpression`, unless it throws: the text and the value of a constant. -/
  parseExpression : Str → Option (Option (Str × Params.Value))
  /-- The text is one numeric constant, without an alias. -/
  numericLiteral : Str → Option Number

def nextToken (s : Str) : Str := s.takeWhile fun c => !isSpace c

def afterToken (s : Str) : Str := quackapiTrim (s.dropWhile fun c => !isSpace c)

/-- The text starts with the keyword, and a blank or nothing follows it. -/
def atKeyword (keyword rest : Str) : Bool :=
  keyword.isPrefixOf (upper rest) && (rest.drop keyword.length).head?.all isSpace

/-- The text starts with the keyword, and a blank follows it. -/
def atKeywordBlank (keyword rest : Str) : Bool :=
  keyword.isPrefixOf (upper rest) && (rest.drop keyword.length).head?.any isSpace

def afterKeyword (keyword rest : Str) : Str := quackapiTrim (rest.drop keyword.length)

/-- A literal behind its opening quote: its content, a quote in it being doubled, and what follows. -/
def takeLiteral : Str → Option (Str × Str)
  | [] => none
  | '\'' :: '\'' :: s => (takeLiteral s).map fun r => ('\'' :: r.1, r.2)
  | '\'' :: s => some ([], s)
  | c :: s => (takeLiteral s).map fun r => (c :: r.1, r.2)

/-- The text up to the next quote, and what follows it. -/
def takeToQuote (s : Str) : Option (Str × Str) :=
  match s.dropWhile (· ≠ '\'') with
  | [] => none
  | _ :: t => some (s.takeWhile (· ≠ '\''), t)

/-- `atoi`, as the C library has it: a `long`, of which the low 32 bits are kept. -/
def atoi (s : Str) : Int :=
  let (negative, rest) := takeSign (s.dropWhile isSpace)
  let value := signed negative (decimalValue (rest.takeWhile Char.isDigit))
  (max int64Min (min int64Max value) + 2 ^ 31) % 2 ^ 32 - 2 ^ 31

def unitSeconds (unit : Str) : Option Int :=
  if unit ∈ ["s".toList, "sec".toList, "secs".toList, "second".toList, "seconds".toList] then some 1
  else if unit ∈ ["m".toList, "min".toList, "mins".toList, "minute".toList, "minutes".toList] then some 60
  else if unit ∈ ["h".toList, "hr".toList, "hrs".toList, "hour".toList, "hours".toList] then some 3600
  else none

def unquoted (s : Str) : Str :=
  match s with
  | '\'' :: t => if t.getLast? = some '\'' then t.dropLast else s
  | _ => s

def parseRouteTimeoutSec (raw : Str) : Except Str Int :=
  let s := unquoted (quackapiTrim raw)
  let digits := s.takeWhile Char.isDigit
  let unit := lower (s.dropWhile Char.isDigit)
  let num := decimalValue digits
  if (quackapiTrim raw).isEmpty || s.isEmpty then .error "empty timeout".toList
  else if s.head? = some '-' then .error "timeout must be positive".toList
  else if digits.isEmpty then .error "timeout must start with a number".toList
  else if 86400 < num then .error "timeout too large".toList
  else
    match if unit.isEmpty then some 1 else unitSeconds unit with
    | none => .error ("unknown timeout unit \"".toList ++ unit ++ "\" — use s, m, or h".toList)
    | some mult =>
      if num * mult ≤ 0 then .error "timeout must be a positive number of seconds".toList
      else if 86400 < num * mult then .error "timeout max is 24 hours".toList
      else .ok (num * mult)

def parseRouteRequestBytes (raw : Str) : Except Str Int :=
  if raw.isEmpty || raw.any (fun c => !c.isDigit) then .error "must be a positive integer byte count".toList
  else
    match stoll raw with
    | none => .error "must be a positive integer byte count no larger than 9223372036854775807".toList
    | some (parsed, rest) =>
      if rest ≠ [] ∨ parsed ≤ 0 then .error "must be a positive integer byte count".toList else .ok parsed

def fields (s : Str) : List Str := (s.splitOnP isSpace).filter fun f => !f.isEmpty

def validateRouteSchedule (schedule : Str) : Except Str Unit :=
  if (fields schedule).length = 6 then .ok ()
  else .error
    "SCHEDULE must contain exactly 6 whitespace-separated cron fields (seconds first)".toList

structure HeadState where
  status : Int := 200
  requireAuth : Str := []
  groupName : Str := []
  rateLimitN : Int := 0
  rateLimitPerSec : Int := 0
  rateLimitBy : Str := []
  responseFormat : Str := "json".toList
  responseEnvelope : Str := "array".toList
  emptyStatus : Int := 0
  emptyBody : Str := []
  timeoutSec : Int := 0
  schedule : Str := []
  scheduleSeen : Bool := false
deriving DecidableEq

/-- What a clause makes of the state, and the text behind it. -/
abbrev Clause := HeadState → Str → Scan (HeadState × Str)

def scheduleClause : Clause := fun st rest =>
  if st.scheduleSeen then fail "SCHEDULE specified more than once".toList
  else
    match afterKeyword "SCHEDULE".toList rest with
    | '\'' :: t =>
      match takeLiteral t with
      | none => fail "Unterminated SCHEDULE string".toList
      | some (value, after) =>
        match validateRouteSchedule value with
        | .error e => fail e
        | .ok () => .ok ({ st with schedule := value, scheduleSeen := true }, quackapiTrim after)
    | _ => fail "SCHEDULE expects a quoted 6-field cron expression (seconds first)".toList

def isStatus (n : Int) : Bool := decide (100 ≤ n) && decide (n ≤ 599)

def statusClause : Clause := fun st rest =>
  let rest := afterKeyword "STATUS".toList rest
  if (nextToken rest).isEmpty then fail "Expected AS <select> after STATUS <n>".toList
  else if !isStatus (atoi (nextToken rest)) then fail "STATUS must be a valid HTTP status code".toList
  else .ok ({ st with status := atoi (nextToken rest) }, afterToken rest)

/-- The optional end of a `RATE LIMIT` clause: whom the limit is counted by. -/
def rateLimitBy (st : HeadState) (rest : Str) : Scan (HeadState × Str) :=
  if atKeyword "BY".toList rest then
    let rest := afterKeyword "BY".toList rest
    let key := lower (nextToken rest)
    if (nextToken rest).isEmpty then fail "RATE LIMIT BY expects ip, token, or key".toList
    else if key ≠ "ip".toList ∧ key ≠ "token".toList ∧ key ≠ "key".toList then
      fail "RATE LIMIT BY must be ip, token, or key".toList
    else
      .ok ({ st with rateLimitBy := if key = "key".toList then "token".toList else key }, afterToken rest)
  else .ok ({ st with rateLimitBy := "ip".toList }, rest)

def rateLimitPer (st : HeadState) (rest : Str) : Scan (HeadState × Str) :=
  if !atKeyword "PER".toList rest then fail "Expected PER <seconds> after RATE LIMIT <n>".toList
  else
    let rest := afterKeyword "PER".toList rest
    if (nextToken rest).isEmpty then fail "RATE LIMIT PER expects a positive seconds window".toList
    else if atoi (nextToken rest) ≤ 0 then fail "RATE LIMIT window (PER seconds) must be positive".toList
    else rateLimitBy { st with rateLimitPerSec := atoi (nextToken rest) } (afterToken rest)

def rateClause : Clause := fun st rest =>
  let rest := afterKeyword "RATE".toList rest
  if !atKeyword "LIMIT".toList rest then fail "Expected RATE LIMIT <n> PER <seconds>".toList
  else
    let rest := afterKeyword "LIMIT".toList rest
    if (nextToken rest).isEmpty then fail "RATE LIMIT expects a positive integer count".toList
    else if atoi (nextToken rest) ≤ 0 then fail "RATE LIMIT count must be a positive integer".toList
    else rateLimitPer { st with rateLimitN := atoi (nextToken rest) } (afterToken rest)

def requireClause : Clause := fun st rest =>
  let rest := afterKeyword "REQUIRE".toList rest
  if (nextToken rest).isEmpty then fail "Expected AS <select> after REQUIRE <auth>".toList
  else .ok ({ st with requireAuth := nextToken rest }, afterToken rest)

/-- `arrows` is an alias. -/
def formatName (token : Str) : Str :=
  if lower token = "arrows".toList then "arrow".toList else lower token

def formatNames : List Str :=
  ["json".toList, "ndjson".toList, "csv".toList, "parquet".toList, "arrow".toList, "binary".toList]

def formatClause : Clause := fun st rest =>
  let rest := afterKeyword "FORMAT".toList rest
  if (nextToken rest).isEmpty then
    fail "FORMAT expects json, ndjson, csv, parquet, arrow, or binary".toList
  else if formatName (nextToken rest) ∉ formatNames then
    fail "FORMAT must be json, ndjson, csv, parquet, arrow, or binary".toList
  else .ok ({ st with responseFormat := formatName (nextToken rest) }, afterToken rest)

def envelopeNames : List Str := ["array".toList, "object".toList]

def envelopeClause : Clause := fun st rest =>
  let rest := afterKeyword "ENVELOPE".toList rest
  if (nextToken rest).isEmpty then fail "ENVELOPE expects array or object".toList
  else if lower (nextToken rest) ∉ envelopeNames then fail "ENVELOPE must be array or object".toList
  else .ok ({ st with responseEnvelope := lower (nextToken rest) }, afterToken rest)

/-- The optional end of an `EMPTY STATUS` clause. Any `BODY` behind the number is taken for it. -/
def emptyBodyPart (st : HeadState) (rest : Str) : Scan (HeadState × Str) :=
  if atKeywordBlank "BODY".toList rest then
    let rest := afterKeyword "BODY".toList rest
    if "SCHEMA".toList.isPrefixOf (upper rest) then
      fail "EMPTY STATUS BODY expects a quoted string, not BODY SCHEMA".toList
    else
      match rest with
      | '\'' :: t =>
        match takeLiteral t with
        | none => fail "Unterminated EMPTY STATUS BODY string".toList
        | some (value, after) => .ok ({ st with emptyBody := value }, quackapiTrim after)
      | _ => fail "EMPTY STATUS BODY expects a quoted string".toList
  else .ok (st, rest)

def emptyClause : Clause := fun st rest =>
  let rest := afterKeyword "EMPTY".toList rest
  if !atKeyword "STATUS".toList rest then fail "Expected EMPTY STATUS <n> [BODY '<json>']".toList
  else
    let rest := afterKeyword "STATUS".toList rest
    if (nextToken rest).isEmpty then fail "EMPTY STATUS expects a valid HTTP status code".toList
    else if !isStatus (atoi (nextToken rest)) then
      fail "EMPTY STATUS must be a valid HTTP status code".toList
    else emptyBodyPart { st with emptyStatus := atoi (nextToken rest) } (afterToken rest)

/-- The duration behind `TIMEOUT`: up to the next quote where it is quoted. -/
def takeDuration (rest : Str) : Scan (Str × Str) :=
  match rest with
  | [] => fail "TIMEOUT expects a duration (e.g. 180, '3m', '30s')".toList
  | '\'' :: t =>
    match takeToQuote t with
    | none => fail "Unterminated TIMEOUT string".toList
    | some (value, after) => .ok ('\'' :: value ++ ['\''], quackapiTrim after)
  | rest => .ok (nextToken rest, afterToken rest)

def timeoutClause : Clause := fun st rest =>
  match takeDuration (afterKeyword "TIMEOUT".toList rest) with
  | .error e => .error e
  | .ok (tok, after) =>
    match parseRouteTimeoutSec tok with
    | .error e => fail ("TIMEOUT: ".toList ++ e)
    | .ok sec =>
      if 0 < st.timeoutSec then fail "TIMEOUT specified more than once".toList
      else .ok ({ st with timeoutSec := sec }, after)

def groupOperand (missing : Str) : Clause := fun st rest =>
  if (nextToken rest).isEmpty then fail missing
  else if !st.groupName.isEmpty then fail "GROUP specified more than once".toList
  else .ok ({ st with groupName := nextToken rest }, afterToken rest)

def groupClause : Clause := fun st rest =>
  groupOperand "GROUP expects a group name".toList st (afterKeyword "GROUP".toList rest)

def inGroupClause : Clause := fun st rest =>
  groupOperand "IN GROUP expects a group name".toList st
    (afterKeyword "GROUP".toList (afterKeyword "IN".toList rest))

/-- The clause the text starts with, in the order the loop looks for them. -/
def headClauseAt (rest : Str) : Option Clause :=
  if atKeyword "SCHEDULE".toList rest then some scheduleClause
  else if atKeyword "STATUS".toList rest then some statusClause
  else if atKeywordBlank "RATE".toList rest then some rateClause
  else if atKeyword "REQUIRE".toList rest then some requireClause
  else if atKeyword "FORMAT".toList rest then some formatClause
  else if atKeyword "ENVELOPE".toList rest then some envelopeClause
  else if atKeyword "EMPTY".toList rest then some emptyClause
  else if atKeyword "TIMEOUT".toList rest then some timeoutClause
  else if atKeywordBlank "IN".toList rest &&
      atKeyword "GROUP".toList (afterKeyword "IN".toList rest) then some inGroupClause
  else if atKeyword "GROUP".toList rest then some groupClause
  else none

/-- At most so many clauses, and then whatever is left. -/
def headClauses : Nat → HeadState → Str → Scan (HeadState × Str)
  | 0, st, rest => .ok (st, rest)
  | rounds + 1, st, rest =>
    match headClauseAt rest with
    | none => .ok (st, rest)
    | some clause =>
      match clause st rest with
      | .error e => .error e
      | .ok (st, rest) => headClauses rounds st rest

def clauseRounds : Nat := 18

inductive BodyKind
  | schema | type
deriving DecidableEq

def BodyKind.keyword : BodyKind → Str
  | .schema => "SCHEMA".toList
  | .type => "TYPE".toList

def BodyKind.clauseName (k : BodyKind) : Str := "BODY ".toList ++ k.keyword

structure BodyState where
  bodySchema : Str := []
  bodyType : Str := []
deriving DecidableEq

def BodyState.set (st : BodyState) (k : BodyKind) (value : Str) : BodyState :=
  match k with
  | .schema => { st with bodySchema := value }
  | .type => { st with bodyType := value }

def bodyKindAt (rest : Str) : Option BodyKind :=
  if BodyKind.schema.keyword.isPrefixOf (upper rest) then some .schema
  else if BodyKind.type.keyword.isPrefixOf (upper rest) then some .type
  else none

/-- The literal of a body clause, behind its two keywords. -/
def bodyLiteral (k : BodyKind) (rest : Str) : Scan (Str × Str) :=
  match rest with
  | '\'' :: t =>
    match takeLiteral t with
    | none => fail ("Unterminated ".toList ++ k.clauseName ++ " string".toList)
    | some (value, after) => .ok (value, quackapiTrim after)
  | _ => fail (k.clauseName ++ " expects a quoted JSON string".toList)

def tryConsumeBodySchema (st : BodyState) (rest : Str) : Scan (BodyState × Str) :=
  if !atKeywordBlank "BODY".toList rest then .ok (st, rest)
  else
    let rest := afterKeyword "BODY".toList rest
    match bodyKindAt rest with
    | none =>
      fail "Expected BODY SCHEMA '<json-schema>' or BODY TYPE '<duckdb-json-structure>'".toList
    | some k =>
      match rest.drop k.keyword.length with
      | [] => fail (k.clauseName ++ " expects a quoted JSON string".toList)
      | c :: t =>
        if !isSpace c && c ≠ '\'' then fail ("Expected ".toList ++ k.clauseName ++ " '<json>'".toList)
        else
          match bodyLiteral k (if isSpace c then quackapiTrim (c :: t) else c :: t) with
          | .error e => .error e
          | .ok (value, rest) => .ok (st.set k value, rest)

def sourceOf (key : Str) : Option ParamSource :=
  if key = "HEADER".toList then some .header
  else if key = "COOKIE".toList then some .cookie
  else if key = "QUERY".toList then some .query
  else none

def optionWords : List Str :=
  ["DEFAULT".toList, "GE".toList, "GT".toList, "LE".toList, "LT".toList, "MIN_LENGTH".toList,
    "MAX_LENGTH".toList, "PARAM".toList, "BODY".toList, "AS".toList, "HEADER".toList, "COOKIE".toList,
    "QUERY".toList, "SCHEDULE".toList]

/-- The wire name behind a source. A quote that is not closed is left to what follows. -/
def takeWireName (spec : ParamSpec) (rest : Str) : ParamSpec × Str :=
  match rest with
  | [] => (spec, [])
  | '\'' :: t =>
    match takeToQuote t with
    | none => (spec, rest)
    | some (value, after) => ({ spec with externalName := value }, quackapiTrim after)
  | _ =>
    if upper (nextToken rest) ∉ optionWords ∧ isParamTypeName (nextToken rest) = false then
      ({ spec with externalName := nextToken rest }, afterToken rest)
    else (spec, rest)

def tryConsumeSource (spec : ParamSpec) (rest : Str) : Option (ParamSpec × Str) :=
  (sourceOf (upper (nextToken rest))).map fun source =>
    takeWireName { spec with source } (afterToken rest)

variable (engine : DdlEngine)

/-- The end of the engine's `n`-th token, which is where the next one starts. -/
def tokenEnd (n : Nat) (s : Str) : Nat := ((engine.tokenStarts s)[n]?).getD s.length

def quotedDefault (spec : ParamSpec) (rest : Str) : Scan (ParamSpec × Str) :=
  match engine.parseExpression (rest.take (tokenEnd engine 1 rest)) with
  | some (some (raw, value)) =>
    .ok ({ spec with default := some (.literal raw value) },
      quackapiTrim (rest.drop (tokenEnd engine 1 rest)))
  | _ => .error (.thrown "DEFAULT".toList)

def bareDefault (lit : Str) : Scan ParamDefault :=
  if upper lit = "NULL".toList then .ok .null
  else
    match engine.parseExpression lit with
    | none => .error (.thrown "DEFAULT".toList)
    | some (some (_, value)) => .ok (.literal lit value)
    | some none => .ok (.literal lit (.text lit))

def defaultOption (spec : ParamSpec) (rest : Str) : Scan (ParamSpec × Str) :=
  match rest with
  | [] => fail "PARAM DEFAULT expects a literal or NULL".toList
  | '\'' :: _ => quotedDefault engine spec rest
  | _ =>
    match bareDefault engine (nextToken rest) with
    | .error e => .error e
    | .ok d => .ok ({ spec with default := some d }, afterToken rest)

def parseNumericParamBound (literal : Str) : Scan Number :=
  match engine.numericLiteral literal with
  | some n => .ok n
  | none => .error (.thrown "PARAM numeric bounds must be numeric literals".toList)

def parseLengthParamBound (literal : Str) : Scan Nat :=
  match parseNumericParamBound engine literal with
  | .error e => .error e
  | .ok (.integer n) =>
    if 0 ≤ n ∧ n < 2 ^ 64 then .ok n.toNat
    else .error (.thrown "PARAM MIN_LENGTH/MAX_LENGTH must be non-negative integers".toList)
  | .ok _ => .error (.thrown "PARAM MIN_LENGTH/MAX_LENGTH must be non-negative integers".toList)

inductive BoundKey
  | ge | gt | le | lt | minLength | maxLength
deriving DecidableEq

def boundKeyOf (key : Str) : Option BoundKey :=
  if key = "GE".toList then some .ge
  else if key = "GT".toList then some .gt
  else if key = "LE".toList then some .le
  else if key = "LT".toList then some .lt
  else if key = "MIN_LENGTH".toList then some .minLength
  else if key = "MAX_LENGTH".toList then some .maxLength
  else none

def setBound (spec : ParamSpec) (k : BoundKey) (num : Str) : Scan ParamSpec :=
  match k with
  | .ge => (parseNumericParamBound engine num).map fun n => { spec with ge := some n }
  | .gt => (parseNumericParamBound engine num).map fun n => { spec with gt := some n }
  | .le => (parseNumericParamBound engine num).map fun n => { spec with le := some n }
  | .lt => (parseNumericParamBound engine num).map fun n => { spec with lt := some n }
  | .minLength => (parseLengthParamBound engine num).map fun n => { spec with minLength := some n }
  | .maxLength => (parseLengthParamBound engine num).map fun n => { spec with maxLength := some n }

/-- A sign that stands alone belongs to the token behind it. -/
def numberEnd (rest : Str) : Nat :=
  if nextToken rest = ['-'] ∨ nextToken rest = ['+'] then tokenEnd engine 2 rest
  else (nextToken rest).length

def boundOption (key : Str) (k : BoundKey) (spec : ParamSpec) (rest : Str) : Scan (ParamSpec × Str) :=
  if rest.isEmpty then fail ("PARAM ".toList ++ key ++ " expects a number".toList)
  else
    match setBound engine spec k (rest.take (numberEnd engine rest)) with
    | .error e => .error e
    | .ok spec => .ok (spec, quackapiTrim (rest.drop (numberEnd engine rest)))

def endsOptions (rest : Str) : Bool :=
  atKeyword "PARAM".toList rest || atKeywordBlank "BODY".toList rest || atKeywordBlank "AS".toList rest ||
    atKeyword "WITH".toList rest || "WITH(".toList.isPrefixOf (upper rest) ||
    atKeyword "TIMEOUT".toList rest || atKeyword "SCHEDULE".toList rest

def unknownOption (key : Str) : Str :=
  "Unknown PARAM option \"".toList ++ key ++
    "\" — expected HEADER, COOKIE, DEFAULT, GE, GT, LE, LT, MIN_LENGTH, MAX_LENGTH".toList

def paramOption (spec : ParamSpec) (rest : Str) : Scan (ParamSpec × Str) :=
  match tryConsumeSource spec rest with
  | some r => .ok r
  | none =>
    let key := upper (nextToken rest)
    if key = "DEFAULT".toList then defaultOption engine spec (afterToken rest)
    else
      match boundKeyOf key with
      | some k => boundOption engine key k spec (afterToken rest)
      | none => fail (unknownOption key)

/-- One option after the other. Each takes a token, so that the text's length is fuel enough. -/
def paramOptions : Nat → ParamSpec → Str → Scan (ParamSpec × Str)
  | 0, spec, rest => .ok (spec, rest)
  | fuel + 1, spec, rest =>
    if rest.isEmpty || endsOptions rest then .ok (spec, rest)
    else
      match paramOption engine spec rest with
      | .error e => .error e
      | .ok (spec, rest) => paramOptions fuel spec rest

def takeType (spec : ParamSpec) (rest : Str) : ParamSpec × Str :=
  if !rest.isEmpty && isParamTypeName (nextToken rest) then
    ({ spec with typeName := storedTypeName (nextToken rest) }, afterToken rest)
  else (spec, rest)

def paramClause (rest : Str) : Scan (ParamSpec × Str) :=
  let rest := afterKeyword "PARAM".toList rest
  if rest.isEmpty then fail "PARAM expects a parameter name".toList
  else
    let (spec, rest) := takeType { name := nextToken rest } (afterToken rest)
    let (spec, rest) := (tryConsumeSource spec rest).getD (spec, rest)
    paramOptions engine rest.length spec rest

def paramClauses : Nat → List ParamSpec → Str → Scan (List ParamSpec × Str)
  | 0, params, rest => .ok (params, rest)
  | fuel + 1, params, rest =>
    if !atKeyword "PARAM".toList rest then .ok (params, rest)
    else
      match paramClause engine rest with
      | .error e => .error e
      | .ok (spec, rest) => paramClauses fuel (params ++ [spec]) rest

structure Limits where
  timeoutSec : Int
  maxRequestBytes : Int
deriving DecidableEq

/-- The text in front of the first separator, and behind it. -/
def cutAt (separator : Str) : Str → Option (Str × Str)
  | [] => none
  | c :: s =>
    if separator.isPrefixOf (c :: s) then some ([], (c :: s).drop separator.length)
    else (cutAt separator s).map fun r => (c :: r.1, r.2)

/-- The key and the value of an option, at `:=` or else at `=`. -/
def splitOption (part : Str) : Option (Str × Str) := (cutAt ":=".toList part).or (cutAt "=".toList part)

def withTimeout (limits : Limits) (value : Str) : Scan Limits :=
  match parseRouteTimeoutSec value with
  | .error e => fail ("timeout_sec: ".toList ++ e)
  | .ok sec =>
    if 0 < limits.timeoutSec then fail "TIMEOUT / timeout_sec specified more than once".toList
    else .ok { limits with timeoutSec := sec }

def withRequestBytes (limits : Limits) (value : Str) : Scan Limits :=
  match parseRouteRequestBytes value with
  | .error e => fail ("max_request_bytes: ".toList ++ e)
  | .ok bytes =>
    if 0 < limits.maxRequestBytes then fail "max_request_bytes specified more than once".toList
    else .ok { limits with maxRequestBytes := bytes }

/-- One part between commas, trimmed. It may be empty. -/
def withOption (limits : Limits) (part : Str) : Scan Limits :=
  if part.isEmpty then .ok limits
  else
    match splitOption part with
    | none =>
      fail ("WITH option must be timeout_sec or max_request_bytes — got \"".toList ++ part ++ "\"".toList)
    | some (k, v) =>
      let key := lower (quackapiTrim k)
      if key = "timeout_sec".toList ∨ key = "timeout".toList then withTimeout limits (quackapiTrim v)
      else if key = "max_request_bytes".toList then withRequestBytes limits (quackapiTrim v)
      else
        fail ("Unknown WITH option \"".toList ++ key ++
          "\" — expected timeout_sec or max_request_bytes".toList)

def withOptions (limits : Limits) (inner : Str) : Scan Limits :=
  (inner.splitOn ',').foldlM (fun limits part => withOption limits (quackapiTrim part)) limits

/-- The text behind an opening parenthesis up to the next closing one, and what follows. -/
def takeParenthesis (s : Str) : Option (Str × Str) :=
  match s.dropWhile (· ≠ ')') with
  | [] => none
  | _ :: t => some (s.takeWhile (· ≠ ')'), t)

def withClause (limits : Limits) (rest : Str) : Scan (Limits × Str) :=
  if !(atKeyword "WITH".toList rest || "WITH(".toList.isPrefixOf (upper rest)) then .ok (limits, rest)
  else
    match afterKeyword "WITH".toList rest with
    | '(' :: t =>
      match takeParenthesis t with
      | none => fail "Unterminated WITH (...) options".toList
      | some (inner, after) =>
        if (quackapiTrim inner).isEmpty then
          fail "WITH (...) is empty — expected timeout_sec or max_request_bytes".toList
        else
          match withOptions limits (quackapiTrim inner) with
          | .error e => .error e
          | .ok limits => .ok (limits, quackapiTrim after)
    | _ => fail "Expected WITH (timeout_sec := <n>)".toList

structure RouteDdl where
  orReplace : Bool
  name : Str
  method : Str
  pattern : Str
  handlerSql : Str
  status : Int
  requireAuth : Str
  params : List ParamSpec
  bodySchema : Str
  bodyType : Str
  groupName : Str
  rateLimitN : Int
  rateLimitPerSec : Int
  rateLimitBy : Str
  responseFormat : Str
  responseEnvelope : Str
  emptyStatus : Int
  emptyBody : Str
  timeoutSec : Int
  maxRequestBytes : Int
  schedule : Str
deriving DecidableEq

structure RouteHead where
  orReplace : Bool
  name : Str
  method : Str
  pattern : Str
deriving DecidableEq

/-- A name and a method up to a space each, and a pattern up to the next quote. -/
def routeHead (orReplace : Bool) (text : Str) : Scan (RouteHead × Str) :=
  if ' ' ∉ text then fail "CREATE ROUTE <name> <METHOD> '<pattern>' AS <select>".toList
  else
    let name := text.takeWhile (· ≠ ' ')
    let text := quackapiTrim (text.dropWhile (· ≠ ' '))
    if ' ' ∉ text then fail "Expected <METHOD> '<pattern>' after route name".toList
    else
      let method := upper (text.takeWhile (· ≠ ' '))
      if !IsHttpMethod method then
        fail ("Unknown HTTP method \"".toList ++ method ++
          "\" — expected GET, POST, PUT, DELETE, PATCH or HEAD".toList)
      else
        match quackapiTrim (text.dropWhile (· ≠ ' ')) with
        | '\'' :: t =>
          match takeToQuote t with
          | none => fail "Unterminated route pattern".toList
          | some (pattern, after) =>
            if pattern.isEmpty then fail "Route pattern must not be empty".toList
            else .ok (⟨orReplace, name, method, pattern⟩, quackapiTrim after)
        | _ => fail "Expected quoted '<pattern>' after method".toList

/-- `SCHEDULE` and `TIMEOUT` may also stand behind the parameters. -/
def lateClauses (st : HeadState) (rest : Str) : Scan (HeadState × Str) := do
  let (st, rest) ← if atKeyword "SCHEDULE".toList rest then scheduleClause st rest else .ok (st, rest)
  if atKeyword "TIMEOUT".toList rest then timeoutClause st rest else .ok (st, rest)

def handlerClause (rest : Str) : Scan Str :=
  if !atKeywordBlank "AS".toList rest then fail "Expected AS <select> in CREATE ROUTE".toList
  else if (afterKeyword "AS".toList rest).isEmpty then fail "Empty handler after AS".toList
  else .ok (afterKeyword "AS".toList rest)

def routeOf (head : RouteHead) (st : HeadState) (body : BodyState) (params : List ParamSpec)
    (limits : Limits) (handler : Str) : RouteDdl where
  orReplace := head.orReplace
  name := head.name
  method := head.method
  pattern := head.pattern
  handlerSql := handler
  status := st.status
  requireAuth := st.requireAuth
  params := params
  bodySchema := body.bodySchema
  bodyType := body.bodyType
  groupName := st.groupName
  rateLimitN := st.rateLimitN
  rateLimitPerSec := st.rateLimitPerSec
  rateLimitBy := if st.rateLimitBy.isEmpty ∧ 0 < st.rateLimitN then "ip".toList else st.rateLimitBy
  responseFormat := st.responseFormat
  responseEnvelope := st.responseEnvelope
  emptyStatus := st.emptyStatus
  emptyBody := st.emptyBody
  timeoutSec := limits.timeoutSec
  maxRequestBytes := limits.maxRequestBytes
  schedule := st.schedule

def checkHead (head : RouteHead) (st : HeadState) : Scan Unit :=
  if st.responseEnvelope = "object".toList ∧ st.responseFormat ≠ "json".toList then
    fail "ENVELOPE object requires FORMAT json (default)".toList
  else if st.groupName.isEmpty ∧ head.pattern.head? ≠ some '/' then
    fail "Route pattern must start with '/'".toList
  else .ok ()

/-- The second place of a body clause is not looked at if both kinds are set. -/
def lateBody (body : BodyState) (rest : Str) : Scan (BodyState × Str) :=
  if body.bodySchema.isEmpty ∨ body.bodyType.isEmpty then tryConsumeBodySchema body rest
  else .ok (body, rest)

def routeTail (head : RouteHead) (st : HeadState) (rest : Str) : Scan RouteDdl := do
  let (body, rest) ← tryConsumeBodySchema {} rest
  let (params, rest) ← paramClauses engine rest.length [] rest
  let (body, rest) ← lateBody body rest
  let (st, rest) ← lateClauses st rest
  let (limits, rest) ← withClause ⟨st.timeoutSec, 0⟩ rest
  let handler ← handlerClause rest
  return routeOf head st body params limits handler

def createRoute (orReplace : Bool) (text : Str) : Scan RouteDdl := do
  let (head, rest) ← routeHead orReplace text
  let (st, rest) ← headClauses clauseRounds {} rest
  checkHead head st
  routeTail engine head st rest

inductive RouteStatement
  | create (route : RouteDdl)
  | drop (name : Str)
deriving DecidableEq

def dropRouteStatement (text : Str) : Scan RouteStatement :=
  let name := quackapiTrim text
  if name.isEmpty ∨ ' ' ∈ name then fail "DROP ROUTE expects a single route name".toList
  else .ok (.drop name)

def routeDdlParse (query : Str) : Option (Scan RouteStatement) :=
  let q := quackapiTrim query
  if "CREATE ROUTE ".toList.isPrefixOf (upper q) then
    some ((createRoute engine false (quackapiTrim (q.drop 13))).map .create)
  else if "CREATE OR REPLACE ROUTE ".toList.isPrefixOf (upper q) then
    some ((createRoute engine true (quackapiTrim (q.drop 24))).map .create)
  else if "DROP ROUTE ".toList.isPrefixOf (upper q) then some (dropRouteStatement (q.drop 11))
  else none

end Quackapi.Ddl
