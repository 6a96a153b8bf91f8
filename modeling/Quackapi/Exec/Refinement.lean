import Quackapi.Exec.Operation

/-! The resumed executor against the one in line. Both run a batch as its semantics says; they differ
in the last check of the response, which the resumed one leaves out. -/

namespace Quackapi.Exec

section
variable {σ Statement Pending Work V : Type} (engine : ExecEngine σ Statement Pending Work V)

/-- The statements from the one at `i` of `count` on run one after another, up to the first that
fails. -/
inductive StatementsRun (count : Nat) : Nat → σ → List Statement →
    ExecRun σ Statement (StatementResult V) → Prop
  | failed {i : Nat} {db db' : σ} {statement : Statement} {e : Str} (rest : List Statement)
      (h : engine.query db statement = (db', .error e)) :
      StatementsRun count i db (statement :: rest)
        ⟨db', [statement], .error (failedMessage (i + 1) count e)⟩
  | last {i : Nat} {db db' : σ} {statement : Statement} {result : QueryResult V}
      (h : engine.query db statement = (db', .ok result)) :
      StatementsRun count i db [statement] ⟨db', [statement], .ok result⟩
  | next {i : Nat} {db db' : σ} {statement next : Statement} {rest : List Statement}
      {result : QueryResult V} {run : ExecRun σ Statement (StatementResult V)}
      (h : engine.query db statement = (db', .ok result))
      (hrun : StatementsRun count (i + 1) db' (next :: rest) run) :
      StatementsRun count i db (statement :: next :: rest)
        ⟨run.db, statement :: run.executed, run.outcome⟩

/-- A batch that cannot be taken apart runs nothing. -/
inductive BatchRuns (db : σ) (sql : Str) : ExecRun σ Statement (StatementResult V) → Prop
  | nulByte (h : '\x00' ∈ sql) :
      BatchRuns db sql ⟨db, [], .error "SQL text must not contain null bytes".toList⟩
  | unparsed {e : Str} (hnul : '\x00' ∉ sql) (h : engine.extractStatements sql = .error e) :
      BatchRuns db sql ⟨db, [], .error e⟩
  | empty (hnul : '\x00' ∉ sql) (h : engine.extractStatements sql = .ok []) :
      BatchRuns db sql ⟨db, [], .error "No statement to execute".toList⟩
  | statements {statements : List Statement} {run : ExecRun σ Statement (StatementResult V)}
      (hnul : '\x00' ∉ sql) (h : engine.extractStatements sql = .ok statements)
      (hrun : StatementsRun engine statements.length 0 db statements run) : BatchRuns db sql run

variable {engine}

section
variable {count i : Nat} {db db' : σ} {statement : Statement}

theorem runStatements_failed {e : Str} (h : engine.query db statement = (db', .error e))
    (rest : List Statement) :
    runStatements engine .quiet count i db statement rest =
      ⟨db', [statement], .error (failedMessage (i + 1) count e)⟩ := by
  rw [runStatements, h]
  rfl

theorem runStatements_last {result : QueryResult V}
    (h : engine.query db statement = (db', .ok result)) :
    runStatements engine .quiet count i db statement [] = ⟨db', [statement], .ok result⟩ := by
  rw [runStatements, h]
  rfl

theorem runStatements_next {result : QueryResult V}
    (h : engine.query db statement = (db', .ok result)) (next : Statement)
    (rest : List Statement) :
    runStatements engine .quiet count i db statement (next :: rest) =
      ⟨(runStatements engine .quiet count (i + 1) db' next rest).db,
        statement :: (runStatements engine .quiet count (i + 1) db' next rest).executed,
        (runStatements engine .quiet count (i + 1) db' next rest).outcome⟩ := by
  rw [runStatements, h]
  rfl

end

theorem statementsRun_runStatements (count i : Nat) (db : σ) (statement : Statement)
    (rest : List Statement) :
    StatementsRun engine count i db (statement :: rest)
      (runStatements engine .quiet count i db statement rest) := by
  induction rest generalizing i db statement with
  | nil =>
    rcases hquery : engine.query db statement with ⟨db', e | result⟩
    · rw [runStatements_failed hquery]
      exact .failed [] hquery
    · rw [runStatements_last hquery]
      exact .last hquery
  | cons next rest ih =>
    rcases hquery : engine.query db statement with ⟨db', e | result⟩
    · rw [runStatements_failed hquery]
      exact .failed (next :: rest) hquery
    · rw [runStatements_next hquery]
      exact .next hquery (ih (i + 1) db' next)

theorem StatementsRun.eq_runStatements {count i : Nat} {db : σ} {statement : Statement}
    {rest : List Statement} {run : ExecRun σ Statement (StatementResult V)}
    (h : StatementsRun engine count i db (statement :: rest) run) :
    run = runStatements engine .quiet count i db statement rest := by
  generalize hall : statement :: rest = all at h
  induction h generalizing statement rest with
  | failed rest hquery =>
    cases hall
    exact (runStatements_failed hquery rest).symm
  | last hquery =>
    cases hall
    exact (runStatements_last hquery).symm
  | next hquery _ ih =>
    cases hall
    rw [runStatements_next hquery, ← ih rfl]

theorem executeRequestSql_iff {db : σ} {sql : Str}
    {run : ExecRun σ Statement (StatementResult V)} :
    BatchRuns engine db sql run ↔ run = executeRequestSql engine .quiet db sql := by
  by_cases hnul : '\x00' ∈ sql
  · have hrun : executeRequestSql engine .quiet db sql =
        ⟨db, [], .error "SQL text must not contain null bytes".toList⟩ :=
      if_pos (List.contains_iff_mem.mpr hnul)
    rw [hrun]
    constructor
    · intro h
      cases h with
      | nulByte => rfl
      | unparsed hno | empty hno | statements hno => exact absurd hnul hno
    · rintro rfl
      exact .nulByte hnul
  have hcontains : ¬ sql.contains '\x00' = true := fun h => hnul (List.contains_iff_mem.mp h)
  rw [executeRequestSql, if_neg hcontains]
  rcases hextract : engine.extractStatements sql with e | _ | ⟨statement, rest⟩
  · constructor
    · intro h
      cases h with
      | nulByte h => exact absurd h hnul
      | unparsed _ h =>
        rw [hextract] at h
        cases h
        rfl
      | empty _ h | statements _ h =>
        rw [hextract] at h
        cases h
    · rintro rfl
      exact .unparsed hnul hextract
  · constructor
    · intro h
      cases h with
      | nulByte h => exact absurd h hnul
      | unparsed _ h =>
        rw [hextract] at h
        cases h
      | empty => rfl
      | statements _ h hrun =>
        rw [hextract] at h
        cases h
        cases hrun
    · rintro rfl
      exact .empty hnul hextract
  · constructor
    · intro h
      cases h with
      | nulByte h => exact absurd h hnul
      | unparsed _ h | empty _ h =>
        rw [hextract] at h
        cases h
      | statements _ h hrun =>
        rw [hextract] at h
        cases h
        exact hrun.eq_runStatements
    · rintro rfl
      exact .statements hnul hextract (statementsRun_runStatements _ 0 db statement rest)

def respond (codec : NativeCodec V) (maxBytes : Nat) :
    StatementResult V → QuackapiExecResponse V
  | .error e => execErrorResponse e
  | .ok result => quackapiExecResult codec maxBytes true result

/-- The operation stands at a statement: what the rest of the batch does is what the whole lacks. -/
structure StandsAt (engine : ExecEngine σ Statement Pending Work V) (db₀ : σ) (sql : Str)
    (before : List Statement) (statement : Statement) (rest : List Statement)
    (o : ExecOperation σ Statement Pending V) : Prop where
  connected : o.connected = true
  finished : o.finished = none
  statements : o.statements = before ++ statement :: rest
  index : o.statement = before.length
  submitted : o.submitted = before ++ if o.result.isSome then [statement] else []
  pending : ∀ p, o.result = some p → PendingOf engine o.db statement p
  completes : ∀ run, StatementsRun engine o.statements.length before.length o.db
    (statement :: rest) run → BatchRuns engine db₀ sql ⟨run.db, before ++ run.executed, run.outcome⟩

/-- The operation has finished with what the batch comes to. -/
structure FinishedAs (engine : ExecEngine σ Statement Pending Work V) (db₀ : σ) (sql : Str)
    (maxBytes : Nat) (o : ExecOperation σ Statement Pending V) : Prop where
  finished : ∃ run, BatchRuns engine db₀ sql run ∧ o.db = run.db ∧ o.submitted = run.executed ∧
    o.finished = some (respond engine.codec maxBytes run.outcome)

inductive Follows (engine : ExecEngine σ Statement Pending Work V) (db₀ : σ) (sql : Str)
    (maxBytes : Nat) : ExecOperation σ Statement Pending V → Prop
  | fresh : Follows engine db₀ sql maxBytes (newOperation db₀)
  | standsAt {before : List Statement} {statement : Statement} {rest : List Statement}
      {o : ExecOperation σ Statement Pending V}
      (h : StandsAt engine db₀ sql before statement rest o) : Follows engine db₀ sql maxBytes o
  | finished {o : ExecOperation σ Statement Pending V}
      (h : FinishedAs engine db₀ sql maxBytes o) : Follows engine db₀ sql maxBytes o

section
variable {db₀ : σ} {sql : Str} {maxBytes : Nat} {o : ExecOperation σ Statement Pending V}
  {step : ExecStep Work}

theorem connect_follows (hstep : step.IsQuiet) :
    FinishedAs engine db₀ sql maxBytes ((newOperation db₀).connect engine sql step) ∨
      ∃ statement rest,
        StandsAt engine db₀ sql [] statement rest ((newOperation db₀).connect engine sql step) := by
  have hfresh : ¬ (newOperation db₀ : ExecOperation σ Statement Pending V).connected = true :=
    Bool.false_ne_true
  rw [ExecOperation.connect, if_neg hfresh]
  by_cases hnul : '\x00' ∈ sql
  · rw [if_pos (List.contains_iff_mem.mpr hnul)]
    exact .inl ⟨_, .nulByte hnul, rfl, rfl, rfl⟩
  rw [if_neg fun h => hnul (List.contains_iff_mem.mp h)]
  rcases hextract : engine.extractStatements sql with e | _ | ⟨statement, rest⟩
  · dsimp only
    rw [if_neg (Bool.eq_false_iff.mp hstep.2)]
    exact .inl ⟨_, .unparsed hnul hextract, rfl, rfl, rfl⟩
  · exact .inl ⟨_, .empty hnul hextract, rfl, rfl, rfl⟩
  · refine .inr ⟨statement, rest, rfl, rfl, rfl, rfl, rfl, nofun, fun run hrun => ?_⟩
    exact .statements hnul hextract hrun

theorem work_follows (hlaw : CompletesAsQuery engine) (hstep : step.IsQuiet)
    {before : List Statement} {statement : Statement} {rest : List Statement}
    (h : StandsAt engine db₀ sql before statement rest o) :
    Follows engine db₀ sql maxBytes (o.work engine maxBytes step) := by
  have hexpired : ¬ step.expired = true := Bool.eq_false_iff.mp hstep.2
  have hcurrent : o.statements[o.statement]? = some statement := by
    rw [h.statements, h.index, List.getElem?_append_right (Nat.le_refl _), Nat.sub_self]
    rfl
  have hsubmitted : (if o.result.isSome then o.submitted else o.submitted ++ [statement]) =
      before ++ [statement] := by
    rw [h.submitted]
    cases o.result with
    | none => exact congrArg (· ++ [statement]) (List.append_nil before)
    | some p => rfl
  have hpending : PendingOf engine o.db statement
      (engine.executeTask step.work (o.result.getD (engine.submit o.db statement))) := by
    apply PendingOf.executeTask
    rcases hresult : o.result with _ | p
    · exact .submit
    · exact h.pending p hresult
  rw [ExecOperation.work, hcurrent]
  dsimp only
  rw [hsubmitted]
  generalize engine.executeTask step.work (o.result.getD (engine.submit o.db statement)) = pending
    at hpending
  rcases hcomplete : engine.complete pending with _ | ⟨db', e | result⟩
  · refine Follows.standsAt (?_ : StandsAt engine db₀ sql before statement rest _)
    refine ⟨h.connected, h.finished, h.statements, h.index, rfl, fun p hp => ?_, h.completes⟩
    cases hp
    exact hpending
  · have hquery := hlaw o.db statement pending hpending _ hcomplete
    have hrun := h.completes _ (.failed rest hquery.symm)
    dsimp only
    rw [if_neg hexpired, h.index]
    exact .finished ⟨_, hrun, rfl, rfl, rfl⟩
  · have hquery := hlaw o.db statement pending hpending _ hcomplete
    have hlength : o.statements.length = before.length + (rest.length + 1) := by
      rw [h.statements, List.length_append, List.length_cons]
    dsimp only
    rcases rest with _ | ⟨next, rest⟩
    · have hrun := h.completes _ (.last hquery.symm)
      have hlast : ¬ o.statement + 1 < o.statements.length := by
        rw [h.index, hlength]
        exact Nat.lt_irrefl _
      rw [if_neg hlast, if_neg hexpired]
      exact .finished ⟨_, hrun, rfl, rfl, rfl⟩
    · have hnext : o.statement + 1 < o.statements.length := by
        rw [h.index, hlength, List.length_cons]
        omega
      rw [if_pos hnext]
      refine Follows.standsAt
        (?_ : StandsAt engine db₀ sql (before ++ [statement]) next rest _)
      refine ⟨h.connected, h.finished, ?_, ?_, ?_, nofun, fun run hrun => ?_⟩
      · rw [h.statements, List.append_assoc]
        rfl
      · rw [h.index, List.length_append]
        rfl
      · exact (List.append_nil _).symm
      · rw [List.length_append] at hrun
        have hall := h.completes _ (.next hquery.symm hrun)
        rw [List.append_assoc]
        exact hall

theorem step_of_unfinished (hstep : step.IsQuiet) (h : o.finished = none) :
    o.step engine sql maxBytes step =
      if (o.connect engine sql step).finished.isSome then o.connect engine sql step
      else (o.connect engine sql step).work engine maxBytes step := by
  have hunfinished : ¬ o.finished.isSome = true := by
    rw [h]
    exact Bool.false_ne_true
  rw [ExecOperation.step, if_neg hunfinished, if_neg (Bool.eq_false_iff.mp hstep.1)]

theorem step_follows (hlaw : CompletesAsQuery engine) (hstep : step.IsQuiet)
    (h : Follows engine db₀ sql maxBytes o) :
    Follows engine db₀ sql maxBytes (o.step engine sql maxBytes step) := by
  cases h with
  | fresh =>
    rw [step_of_unfinished hstep rfl]
    rcases connect_follows hstep with ⟨run, hbatch, hdb, hsubmitted, hdone⟩ | ⟨_, _, hstands⟩
    · rw [hdone]
      exact .finished ⟨run, hbatch, hdb, hsubmitted, hdone⟩
    · rw [hstands.finished]
      exact work_follows hlaw hstep hstands
  | standsAt hstands =>
    have hconnect : o.connect engine sql step = o := by
      rw [ExecOperation.connect, if_pos hstands.connected]
    rw [step_of_unfinished hstep hstands.finished, hconnect, hstands.finished]
    exact work_follows hlaw hstep hstands
  | finished hfinished =>
    obtain ⟨run, hbatch, hdb, hsubmitted, hdone⟩ := hfinished
    rw [ExecOperation.step, hdone]
    exact .finished ⟨run, hbatch, hdb, hsubmitted, hdone⟩

theorem run_follows (hlaw : CompletesAsQuery engine) {schedule : List (ExecStep Work)}
    (hquiet : ∀ step ∈ schedule, step.IsQuiet) (h : Follows engine db₀ sql maxBytes o) :
    Follows engine db₀ sql maxBytes (runOperation engine sql maxBytes o schedule) := by
  induction schedule generalizing o with
  | nil => exact h
  | cons step schedule ih =>
    obtain ⟨hstep, hrest⟩ := List.forall_mem_cons.mp hquiet
    exact ih hrest (step_follows hlaw hstep h)

end

/-- The limit lets the receipt pass whose length the resumed executor does not look at: that of an
error, and the one about the typed rows. -/
def ReplyFits (codec : NativeCodec V) (maxBytes : Nat) : StatementResult V → Prop
  | .error e => (execErrorResponse e : QuackapiExecResponse V).body.length ≤ maxBytes
  | .ok result => collectResult codec maxBytes true result = .error .typedTooLarge →
      (typedTooLargeResponse : QuackapiExecResponse V).body.length ≤ maxBytes

theorem capResponse_of_le {maxBytes : Nat} {out : QuackapiExecResponse V}
    (h : out.body.length ≤ maxBytes) : capResponse maxBytes out = out :=
  if_neg (Nat.not_lt.mpr h)

theorem capResponse_overLimit (maxBytes : Nat) :
    capResponse maxBytes (overLimitResponse : QuackapiExecResponse V) = overLimitResponse :=
  ite_self _

theorem capResponse_capResponse (maxBytes : Nat) (out : QuackapiExecResponse V) :
    capResponse maxBytes (capResponse maxBytes out) = capResponse maxBytes out := by
  by_cases hle : out.body.length ≤ maxBytes
  · rw [capResponse_of_le hle, capResponse_of_le hle]
  · have hcap : capResponse maxBytes out = overLimitResponse := if_pos (Nat.not_le.mp hle)
    rw [hcap, capResponse_overLimit]

theorem capResponse_eq_self_iff {maxBytes : Nat} {out : QuackapiExecResponse V}
    (h : out.body ≠ (overLimitResponse : QuackapiExecResponse V).body) :
    capResponse maxBytes out = out ↔ out.body.length ≤ maxBytes := by
  refine ⟨fun hcap => ?_, capResponse_of_le⟩
  by_contra hlong
  have hover : capResponse maxBytes out = overLimitResponse := if_pos (Nat.not_le.mp hlong)
  exact h (congrArg QuackapiExecResponse.body (hcap.symm.trans hover))

theorem capResponse_respond_iff {codec : NativeCodec V} {maxBytes : Nat} {r : StatementResult V} :
    capResponse maxBytes (respond codec maxBytes r) = respond codec maxBytes r ↔
      ReplyFits codec maxBytes r := by
  rcases r with e | result
  · refine ⟨fun hcap => ?_, capResponse_of_le⟩
    by_contra hlong
    have hover : capResponse maxBytes (execErrorResponse e : QuackapiExecResponse V) =
        overLimitResponse := if_pos (Nat.not_le.mp hlong)
    have hstatus := congrArg QuackapiExecResponse.status (hcap.symm.trans hover)
    exact absurd hstatus (show (422 : Nat) ≠ 507 by decide)
  · show capResponse maxBytes (quackapiExecResult codec maxBytes true result) =
      quackapiExecResult codec maxBytes true result ↔
        (collectResult codec maxBytes true result = .error .typedTooLarge →
          (typedTooLargeResponse : QuackapiExecResponse V).body.length ≤ maxBytes)
    unfold quackapiExecResult
    rcases collectResult codec maxBytes true result with stop | out
    · cases stop with
      | overLimit => exact iff_of_true (capResponse_overLimit maxBytes) nofun
      | internal what => exact iff_of_true (capResponse_capResponse maxBytes _) nofun
      | typedTooLarge =>
        have htext : detailJson "Native typed rows exceed configured byte limit".toList ≠
            detailJson "Response exceeds configured byte limit".toList := by decide +kernel
        have hfits : capResponse maxBytes (typedTooLargeResponse : QuackapiExecResponse V) =
            typedTooLargeResponse ↔
              (typedTooLargeResponse : QuackapiExecResponse V).body.length ≤ maxBytes :=
          capResponse_eq_self_iff htext
        exact hfits.trans ⟨fun h _ => h, fun h => h rfl⟩
    · exact iff_of_true (capResponse_capResponse maxBytes out) nofun

/-- An operation that nothing stops ends as the executor in line does exactly when the receipt of the
batch fits where the operation does not look. -/
theorem operation_refines_iff {db : σ} {sql : Str} {maxBytes : Nat}
    (hlaw : CompletesAsQuery engine) {schedule : List (ExecStep Work)}
    (hquiet : ∀ step ∈ schedule, step.IsQuiet) {response : QuackapiExecResponse V}
    (hfinished : (runOperation engine sql maxBytes (newOperation db) schedule).finished =
      some response) :
    (⟨(runOperation engine sql maxBytes (newOperation db) schedule).db,
        (runOperation engine sql maxBytes (newOperation db) schedule).submitted, response⟩ :
        ExecRun σ Statement (QuackapiExecResponse V)) = runExecRow engine .quiet db sql maxBytes ↔
      ∀ run, BatchRuns engine db sql run → ReplyFits engine.codec maxBytes run.outcome := by
  have hfollows : Follows engine db sql maxBytes
      (runOperation engine sql maxBytes (newOperation db) schedule) :=
    run_follows hlaw hquiet .fresh
  generalize runOperation engine sql maxBytes (newOperation db) schedule = o at hfinished hfollows
  have hbatch : ∀ run, BatchRuns engine db sql run ↔
      run = executeRequestSql engine .quiet db sql := fun run => executeRequestSql_iff
  have hinline : runExecRow engine .quiet db sql maxBytes =
      ⟨(executeRequestSql engine .quiet db sql).db,
        (executeRequestSql engine .quiet db sql).executed,
        capResponse maxBytes (respond engine.codec maxBytes
          (executeRequestSql engine .quiet db sql).outcome)⟩ := by
    unfold runExecRow quackapiExecSql execSqlResponse
    dsimp only
    rcases (executeRequestSql engine .quiet db sql).outcome with e | result
    · rfl
    · rfl
  cases hfollows with
  | fresh => cases hfinished
  | standsAt hstands =>
    rw [hstands.finished] at hfinished
    cases hfinished
  | finished h =>
    obtain ⟨run, hrun, hdb, hsubmitted, hdone⟩ := h
    cases hfinished.symm.trans hdone
    cases (hbatch run).mp hrun
    simp only [hinline, hdb, hsubmitted, ExecRun.mk.injEq, true_and, hbatch, forall_eq]
    rw [eq_comm, capResponse_respond_iff]

end

/-- An engine that knows one statement and answers it at once. -/
def oneStatementEngine : ExecEngine Unit Str (Unit × StatementResult Str) Unit Str where
  codec :=
    { isNull := fun _ => false
      toText := id
      toJson := id
      rowsBytes := fun rows => 8 + 4 * rows.length
      resultBytes := fun _ rows => 24 + 4 * rows.length
      countBytes := fun _ => 1
      deduplicateColumns := id }
  extractStatements := fun sql => .ok [sql]
  query := fun db statement =>
    (db, if statement = "SELECT 1".toList then .ok ⟨["1".toList], [["1".toList]]⟩
      else .error "Catalog Error: Table with name x does not exist!".toList)
  submit := fun db statement =>
    (db, if statement = "SELECT 1".toList then .ok ⟨["1".toList], [["1".toList]]⟩
      else .error "Catalog Error: Table with name x does not exist!".toList)
  executeTask := fun _ p => p
  complete := some

/-- An engine that writes down what it has run. A query is there after as many tasks as its text has
letters, and a step may do several. -/
def diaryEngine : ExecEngine (List Str) Str (Nat × List Str × StatementResult Str) Nat Str where
  codec := oneStatementEngine.codec
  extractStatements := fun sql => .ok (sql.splitOn ';')
  query := fun db statement =>
    (db ++ [statement], .ok ⟨["n".toList], [[Nat.toDigits 10 (db.length + 1)]]⟩)
  submit := fun db statement =>
    (statement.length, db ++ [statement], .ok ⟨["n".toList], [[Nat.toDigits 10 (db.length + 1)]]⟩)
  executeTask := fun tasks p => (p.1 - tasks, p.2)
  complete := fun p => if p.1 = 0 then some p.2 else none

theorem diaryEngine_completes : CompletesAsQuery diaryEngine := by
  rintro db statement p hp end_ hend
  have hkept : p.2 = diaryEngine.query db statement := by
    clear hend
    induction hp with
    | submit => rfl
    | executeTask _ _ ih => exact ih
  obtain ⟨-, hp⟩ := Option.ite_none_right_eq_some.mp hend
  rw [← Option.some_inj.mp hp, hkept]

/-- Two statements; each is suspended before it is there. -/
theorem operation_refines_suspended :
    let schedule : List (ExecStep Nat) := [⟨false, false, 1⟩, ⟨false, false, 2⟩, ⟨false, false, 0⟩,
      ⟨false, false, 2⟩, ⟨false, false, 5⟩, ⟨false, false, 9⟩, ⟨false, false, 9⟩]
    let o := runOperation diaryEngine "ADD;COUNT".toList 1024 (newOperation []) schedule
    (runOperation diaryEngine "ADD;COUNT".toList 1024 (newOperation []) (schedule.take 2)).finished = none ∧
      o.submitted = ["ADD".toList, "COUNT".toList] ∧
      ∃ response, o.finished = some response ∧
        (⟨o.db, o.submitted, response⟩ : ExecRun (List Str) Str (QuackapiExecResponse Str)) =
          runExecRow diaryEngine .quiet [] "ADD;COUNT".toList 1024 := by
  intro schedule o
  have hquiet : ∀ step ∈ schedule, step.IsQuiet := by
    intro step hstep
    simp only [schedule, List.mem_cons, List.not_mem_nil, or_false] at hstep
    rcases hstep with rfl | rfl | rfl | rfl | rfl | rfl | rfl <;> exact ⟨rfl, rfl⟩
  have hfinished : o.finished = some (quackapiExecResult diaryEngine.codec 1024 true
      ⟨["n".toList], [["2".toList]]⟩) := rfl
  refine ⟨rfl, rfl, _, hfinished,
    (operation_refines_iff diaryEngine_completes hquiet hfinished).mpr fun run hrun => ?_⟩
  have hbatch : BatchRuns diaryEngine [] "ADD;COUNT".toList
      ⟨["ADD".toList, "COUNT".toList], ["ADD".toList, "COUNT".toList], .ok ⟨["n".toList], [["2".toList]]⟩⟩ :=
    .statements (by decide) rfl (.next rfl (.last rfl))
  cases (executeRequestSql_iff.mp hrun).trans (executeRequestSql_iff.mp hbatch).symm
  intro hlarge
  have hcollected : (collectResult diaryEngine.codec 1024 true
      ⟨["n".toList], [["2".toList]]⟩).isOk = true := by decide +kernel
  rw [hlarge] at hcollected
  cases hcollected

/-- A failing statement under a limit of ten bytes: only the executor in line looks at the limit. -/
theorem error_beyond_limit :
    let o := runOperation oneStatementEngine "FROM x".toList 10 (newOperation ())
      [⟨false, false, ()⟩]
    ∃ response, o.finished = some response ∧
      (⟨o.db, o.submitted, response⟩ : ExecRun Unit Str (QuackapiExecResponse Str)) ≠
        runExecRow oneStatementEngine .quiet () "FROM x".toList 10 := by
  intro o
  have hfinished : o.finished =
      some (execErrorResponse "Catalog Error: Table with name x does not exist!".toList) := rfl
  refine ⟨_, hfinished, fun heq => ?_⟩
  have hstatus : (422 : Nat) =
      (runExecRow oneStatementEngine .quiet () "FROM x".toList 10).outcome.status :=
    congrArg (fun run => run.outcome.status) heq
  exact absurd hstatus (by decide +kernel)

end Quackapi.Exec
