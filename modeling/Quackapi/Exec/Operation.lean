import Quackapi.Exec.Result

/-! The two executors of a batch: one runs every statement in line, one is resumed again and again and
suspends in the middle of a statement. -/

namespace Quackapi.Exec

/-- What a statement ends with: its result, or the text of its error. -/
abbrev StatementResult (V : Type) := Except Str (QueryResult V)

/-- A database in states `σ`. A pending query is stepped with whatever else its workers do. -/
structure ExecEngine (σ Statement Pending Work V : Type) where
  codec : NativeCodec V
  extractStatements : Str → Except Str (List Statement)
  query : σ → Statement → σ × StatementResult V
  submit : σ → Statement → Pending
  /-- `Poll`, and `ExecuteTask` where that is not the end. -/
  executeTask : Work → Pending → Pending
  /-- The database and the result once the query has come to its end. -/
  complete : Pending → Option (σ × StatementResult V)

section
variable {σ Statement Pending Work V : Type}

/-- The states that a pending query of the statement goes through. -/
inductive PendingOf (engine : ExecEngine σ Statement Pending Work V) (db : σ)
    (statement : Statement) : Pending → Prop
  | submit : PendingOf engine db statement (engine.submit db statement)
  | executeTask (work : Work) {p : Pending} (h : PendingOf engine db statement p) :
      PendingOf engine db statement (engine.executeTask work p)

/-- A pending query that comes to its end has done what `Query` does. -/
def CompletesAsQuery (engine : ExecEngine σ Statement Pending Work V) : Prop :=
  ∀ db statement p, PendingOf engine db statement p →
    ∀ end_, engine.complete p = some end_ → end_ = engine.query db statement

/-- Where the deadline or a cancellation is looked at. -/
structure ExecClock where
  stop : Nat → Bool
  expiredAfterError : Bool
  expiredAtEnd : Bool

def ExecClock.quiet : ExecClock := ⟨fun _ => false, false, false⟩

/-- The database, the statements that ran, and what came of them. -/
structure ExecRun (σ Statement R : Type) where
  db : σ
  executed : List Statement
  outcome : R

def statementLabel (i count : Nat) : Str :=
  "Statement ".toList ++ Nat.toDigits 10 i ++ " of ".toList ++ Nat.toDigits 10 count

def notRunMessage (i count : Nat) : Str :=
  statementLabel i count ++ " not run: the call was cancelled".toList

def failedMessage (i count : Nat) (error : Str) : Str :=
  if 1 < count then statementLabel i count ++ " failed: ".toList ++ error else error

/-- The statements from the one at `i` on, as long as none fails. -/
def runStatements (engine : ExecEngine σ Statement Pending Work V) (clock : ExecClock)
    (count : Nat) : Nat → σ → Statement → List Statement → ExecRun σ Statement (StatementResult V)
  | i, db, statement, rest =>
    if clock.stop i then ⟨db, [], .error (notRunMessage (i + 1) count)⟩
    else
      let r := engine.query db statement
      match r.2, rest with
      | .error e, _ => ⟨r.1, [statement], .error (failedMessage (i + 1) count e)⟩
      | .ok result, [] => ⟨r.1, [statement], .ok result⟩
      | .ok _, next :: rest =>
        let run := runStatements engine clock count (i + 1) r.1 next rest
        { run with executed := statement :: run.executed }

def executeRequestSql (engine : ExecEngine σ Statement Pending Work V) (clock : ExecClock) (db : σ)
    (sql : Str) : ExecRun σ Statement (StatementResult V) :=
  if sql.contains '\x00' then ⟨db, [], .error "SQL text must not contain null bytes".toList⟩
  else
    match engine.extractStatements sql with
    | .error e => ⟨db, [], .error e⟩
    | .ok [] => ⟨db, [], .error "No statement to execute".toList⟩
    | .ok (statement :: rest) =>
      runStatements engine clock (rest.length + 1) 0 db statement rest

def execSqlResponse (engine : ExecEngine σ Statement Pending Work V) (clock : ExecClock) (db : σ)
    (sql : Str) (maxBytes : Nat) (loc param : Str) (collectTypedRows : Bool) :
    ExecRun σ Statement (QuackapiExecResponse V) :=
  let run := executeRequestSql engine clock db sql
  ⟨run.db, run.executed,
    match run.outcome with
    | .error e =>
      if clock.expiredAfterError then execTimeoutResponse else validationResponse loc param e
    | .ok result => quackapiExecResult engine.codec maxBytes collectTypedRows result⟩

def quackapiExecSql (engine : ExecEngine σ Statement Pending Work V) (clock : ExecClock) (db : σ)
    (sql : Str) (maxBytes : Nat) (loc param : Str) (collectTypedRows : Bool) :
    ExecRun σ Statement (QuackapiExecResponse V) :=
  let run := execSqlResponse engine clock db sql maxBytes loc param collectTypedRows
  { run with
    outcome := if clock.expiredAtEnd then execTimeoutResponse else capResponse maxBytes run.outcome }

/-- The row as `RunExecRow` runs it. -/
def runExecRow (engine : ExecEngine σ Statement Pending Work V) (clock : ExecClock) (db : σ)
    (sql : Str) (maxBytes : Nat) : ExecRun σ Statement (QuackapiExecResponse V) :=
  quackapiExecSql engine clock db sql maxBytes "body".toList "sql".toList true

/-- What a step meets: a cancellation or the deadline at its start, the deadline later in it, and the
work done on its query. -/
structure ExecStep (Work : Type) where
  stopped : Bool
  expired : Bool
  work : Work

def ExecStep.IsQuiet (step : ExecStep Work) : Prop := step.stopped = false ∧ step.expired = false

/-- The operation with the database it works on and the statements it has submitted. -/
structure ExecOperation (σ Statement Pending V : Type) where
  db : σ
  submitted : List Statement
  connected : Bool
  statements : List Statement
  result : Option Pending
  statement : Nat
  finished : Option (QuackapiExecResponse V)

def newOperation (db : σ) : ExecOperation σ Statement Pending V :=
  ⟨db, [], false, [], none, 0, none⟩

def ExecOperation.finish (o : ExecOperation σ Statement Pending V)
    (response : QuackapiExecResponse V) : ExecOperation σ Statement Pending V :=
  { o with finished := some response }

/-- The first step opens the connection and takes the text apart. -/
def ExecOperation.connect (engine : ExecEngine σ Statement Pending Work V) (sql : Str)
    (step : ExecStep Work) (o : ExecOperation σ Statement Pending V) :
    ExecOperation σ Statement Pending V :=
  if o.connected then o
  else if sql.contains '\x00' then
    o.finish (execErrorResponse "SQL text must not contain null bytes".toList)
  else
    match engine.extractStatements sql with
    | .error e => o.finish (if step.expired then execTimeoutResponse else execErrorResponse e)
    | .ok [] => o.finish (execErrorResponse "No statement to execute".toList)
    | .ok statements => { o with connected := true, statements }

/-- One task of the statement's query, which is submitted where there is none. -/
def ExecOperation.work (engine : ExecEngine σ Statement Pending Work V) (maxBytes : Nat)
    (step : ExecStep Work) (o : ExecOperation σ Statement Pending V) :
    ExecOperation σ Statement Pending V :=
  match o.statements[o.statement]? with
  | none => o
  | some statement =>
    let submitted := if o.result.isSome then o.submitted else o.submitted ++ [statement]
    let pending := engine.executeTask step.work (o.result.getD (engine.submit o.db statement))
    match engine.complete pending with
    | none => { o with submitted, result := some pending }
    | some (db, .error e) =>
      { o with db, submitted, result := some pending }.finish
        (if step.expired then execTimeoutResponse
        else execErrorResponse (failedMessage (o.statement + 1) o.statements.length e))
    | some (db, .ok result) =>
      if o.statement + 1 < o.statements.length then
        { o with db, submitted, result := none, statement := o.statement + 1 }
      else
        { o with db, submitted, result := some pending, statement := o.statement + 1 }.finish
          (if step.expired then execTimeoutResponse
          else quackapiExecResult engine.codec maxBytes true result)

def ExecOperation.step (engine : ExecEngine σ Statement Pending Work V) (sql : Str)
    (maxBytes : Nat) (o : ExecOperation σ Statement Pending V) (step : ExecStep Work) :
    ExecOperation σ Statement Pending V :=
  if o.finished.isSome then o
  else if step.stopped then o.finish execTimeoutResponse
  else
    let o := o.connect engine sql step
    if o.finished.isSome then o else o.work engine maxBytes step

def runOperation (engine : ExecEngine σ Statement Pending Work V) (sql : Str) (maxBytes : Nat)
    (o : ExecOperation σ Statement Pending V) (schedule : List (ExecStep Work)) :
    ExecOperation σ Statement Pending V :=
  schedule.foldl (ExecOperation.step engine sql maxBytes) o

end

end Quackapi.Exec
