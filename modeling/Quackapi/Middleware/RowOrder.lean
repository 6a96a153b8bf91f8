import Quackapi.Library.Reorder
import Quackapi.Middleware.Execute

/-! What the rows of a middleware's result decide, whatever their order. A row is read by itself; what
earlier rows leave behind it is a count, the block they agree on, and their headers. -/

namespace Quackapi.Middleware
open Library
open Params (Value LogicalType MiddlewareContext bindMiddleware)

/-- The header and the block of a row, where the row may say what it says. -/
def readRow (columns : ControlColumns) (row : List Value) :
    Option (Option (Str × Str) × Option (Int × Str)) :=
  let allow := cell columns row .allow
  if allow = .null then none
  else if getBool allow &&
      (decide (cell columns row .status ≠ .null) || decide (cell columns row .body ≠ .null)) then none
  else
    (rowHeader columns row).bind fun header =>
      if getBool allow then some (header, none)
      else (rowBlock columns row).map fun block => (header, some block)

/-- The block after a row that has one, or none; two blocks must be equal. -/
def joinBlock (blocked block : Option (Int × Str)) : Option (Option (Int × Str)) :=
  match block with
  | none => some blocked
  | some b => if blocked.any (· != b) then none else some (some b)

def addReading (st : RowState) (r : Option (Str × Str) × Option (Int × Str)) : Option RowState :=
  (joinBlock st.blocked r.2).map fun blocked => ⟨st.rowCount + 1, blocked, st.headers ++ r.1.toList⟩

section
variable {columns : ControlColumns}

theorem visitRow_eq (st : RowState) (row : List Value) :
    visitRow columns st row =
      if maxResultRows < st.rowCount + 1 then none else (readRow columns row).bind (addReading st) := by
  unfold visitRow readRow addReading joinBlock
  split
  · rfl
  dsimp only
  split
  · rfl
  split
  · rfl
  rcases rowHeader columns row with _ | header
  · rfl
  dsimp only [Option.bind_some]
  split
  · rfl
  · rcases rowBlock columns row with _ | block
    · rfl
    · dsimp only [Option.map_some, Option.bind_some]
      split <;> rfl

/-- A row that rejects: its `allow` is false. -/
def Rejects (columns : ControlColumns) (row : List Value) : Prop :=
  cell columns row .allow = .boolean false

theorem readRow_rejects {row : List Value} (h : Rejects columns row)
    {r : Option (Str × Str) × Option (Int × Str)} (hr : readRow columns row = some r) :
    r.2.isSome := by
  unfold readRow at hr
  rw [show cell columns row .allow = .boolean false from h] at hr
  have hno : getBool (.boolean false) = false := rfl
  rw [if_neg (by decide), hno, Bool.false_and, if_neg Bool.false_ne_true] at hr
  obtain ⟨header, _, hr⟩ := Option.bind_eq_some_iff.mp hr
  rw [if_neg Bool.false_ne_true] at hr
  obtain ⟨block, _, rfl⟩ := Option.map_eq_some_iff.mp hr
  rfl

/-- The same count and block; the same headers, in some order. -/
structure SameState (st st' : RowState) : Prop where
  rowCount : st.rowCount = st'.rowCount
  blocked : st.blocked = st'.blocked
  headers : st.headers.Perm st'.headers

theorem SameState.refl (st : RowState) : SameState st st := ⟨rfl, rfl, List.Perm.refl _⟩

theorem SameState.trans {s s' s'' : RowState} (h : SameState s s') (h' : SameState s' s'') :
    SameState s s'' :=
  ⟨h.rowCount.trans h'.rowCount, h.blocked.trans h'.blocked, h.headers.trans h'.headers⟩

theorem sameState_visitRow {st st' : RowState} (row : List Value) (h : SameState st st') :
    Option.Rel SameState (visitRow columns st row) (visitRow columns st' row) := by
  rw [visitRow_eq, visitRow_eq, h.rowCount]
  split
  · exact .none
  rcases readRow columns row with _ | r
  · exact .none
  rw [Option.bind_some, Option.bind_some, addReading, addReading, h.blocked]
  rcases joinBlock st'.blocked r.2 with _ | blocked
  · exact .none
  · exact .some ⟨congrArg (· + 1) h.rowCount, rfl, h.headers.append_right _⟩

theorem joinBlock_comm (x a b : Option (Int × Str)) :
    ((joinBlock x a).bind fun y => joinBlock y b) = (joinBlock x b).bind fun y => joinBlock y a := by
  rcases a with _ | a
  · rw [show joinBlock x none = some x from rfl, Option.bind_some]
    rcases joinBlock x b with _ | y
    · rfl
    · rfl
  rcases b with _ | b
  · rw [show joinBlock x none = some x from rfl, Option.bind_some]
    rcases joinBlock x (some a) with _ | y
    · rfl
    · rfl
  by_cases hab : a = b
  · rw [hab]
  · have hba : b ≠ a := fun h => hab h.symm
    have hstop : ∀ c d : Int × Str, c ≠ d →
        ((joinBlock x (some c)).bind fun y => joinBlock y (some d)) = none := by
      intro c d hcd
      have hne : (some c).any (· != d) = true := bne_iff_ne.mpr hcd
      unfold joinBlock
      dsimp only
      split
      · rfl
      · rw [Option.bind_some, if_pos hne]
    rw [hstop a b hab, hstop b a hba]

theorem sameState_swap (st : RowState) (row row' : List Value) :
    Option.Rel SameState ((visitRow columns st row).bind (visitRow columns · row'))
      ((visitRow columns st row').bind (visitRow columns · row)) := by
  have htwo : ∀ a b : List Value, (visitRow columns st a).bind (visitRow columns · b) =
      if maxResultRows < st.rowCount + 2 then none
      else (readRow columns a).bind fun r => (readRow columns b).bind fun r' =>
        ((joinBlock st.blocked r.2).bind fun x => joinBlock x r'.2).map fun blocked =>
          ⟨st.rowCount + 2, blocked, st.headers ++ r.1.toList ++ r'.1.toList⟩ := by
    intro a b
    rw [visitRow_eq]
    by_cases hone : maxResultRows < st.rowCount + 1
    · rw [if_pos hone, if_pos (by omega)]
      rfl
    rw [if_neg hone]
    rcases readRow columns a with _ | r
    · simp only [Option.bind_none, ite_self]
    simp only [Option.bind_some, addReading]
    rcases joinBlock st.blocked r.2 with _ | x
    · rcases readRow columns b with _ | r'
      · simp only [Option.map_none, Option.bind_none, ite_self]
      · simp only [Option.map_none, Option.bind_none, Option.bind_some, ite_self]
    simp only [Option.map_some, Option.bind_some, visitRow_eq]
    split
    · rfl
    · rcases readRow columns b with _ | r'
      · rfl
      · simp only [Option.bind_some, addReading]
  rw [htwo, htwo]
  split
  · exact .none
  rcases readRow columns row with _ | r
  · rcases readRow columns row' with _ | r'
    · exact .none
    · exact .none
  rcases readRow columns row' with _ | r'
  · exact .none
  rw [Option.bind_some, Option.bind_some, Option.bind_some, Option.bind_some, joinBlock_comm]
  rcases (joinBlock st.blocked r'.2).bind fun x => joinBlock x r.2 with _ | blocked
  · exact .none
  · refine .some ⟨rfl, rfl, ?_⟩
    dsimp only
    rw [List.append_assoc, List.append_assoc]
    exact List.perm_append_comm.append_left _

theorem sameState_rows {rows rows' : List (List Value)} (h : rows.Perm rows') (st : RowState) :
    Option.Rel SameState (rows.foldlM (visitRow columns) st) (rows'.foldlM (visitRow columns) st) :=
  foldlM_perm SameState.refl (fun _ _ _ => SameState.trans) (fun _ _ row => sameState_visitRow row)
    sameState_swap h st st (.refl st)

theorem blocked_visitRow {st st' : RowState} {row : List Value}
    (h : visitRow columns st row = some st') (hblocked : st.blocked.isSome ∨ Rejects columns row) :
    st'.blocked.isSome := by
  rw [visitRow_eq, Option.ite_none_left_eq_some] at h
  obtain ⟨r, hr, hst⟩ := Option.bind_eq_some_iff.mp h.2
  obtain ⟨blocked, hjoin, rfl⟩ := Option.map_eq_some_iff.mp hst
  rcases hblock : r.2 with _ | block
  · rw [hblock] at hjoin
    cases hjoin
    refine hblocked.resolve_right fun hrejects => ?_
    have hsome := readRow_rejects hrejects hr
    rw [hblock] at hsome
    cases hsome
  · rw [hblock] at hjoin
    unfold joinBlock at hjoin
    dsimp only at hjoin
    split at hjoin
    · cases hjoin
    · cases hjoin
      rfl

theorem blocked_rows {rows : List (List Value)} {st st' : RowState}
    (h : rows.foldlM (visitRow columns) st = some st')
    (hblocked : st.blocked.isSome ∨ ∃ row ∈ rows, Rejects columns row) : st'.blocked.isSome := by
  induction rows generalizing st with
  | nil =>
    cases h
    rcases hblocked with hblocked | ⟨row, hrow, _⟩
    · exact hblocked
    · cases hrow
  | cons row rows ih =>
    rw [List.foldlM_cons] at h
    obtain ⟨next, hnext, h⟩ := Option.bind_eq_some_iff.mp h
    apply ih h
    rcases hblocked with hblocked | ⟨bad, hbad, hrejects⟩
    · exact .inl (blocked_visitRow hnext (.inl hblocked))
    · rcases List.mem_cons.mp hbad with rfl | hbad
      · exact .inl (blocked_visitRow hnext (.inr hrejects))
      · exact .inr ⟨bad, hbad, hrejects⟩

end

/-- The result of a statement that ran: chunks of rows, none of them empty. -/
structure ResultSet where
  names : List Str
  types : List LogicalType
  chunks : List (List (List Value))
  fetchThrows : Bool
  filled : ∀ chunk ∈ chunks, chunk ≠ []

namespace ResultSet

def rows (r : ResultSet) : List (List Value) := r.chunks.flatten

def execution (r : ResultSet) : Execution := .result r.names r.types r.chunks r.fetchThrows

/-- The same rows, in some order and in some chunks. -/
structure Reordered (r r' : ResultSet) : Prop where
  names : r.names = r'.names
  types : r.types = r'.types
  fetchThrows : r.fetchThrows = r'.fetchThrows
  rows : r.rows.Perm r'.rows

def fetch (r : ResultSet) : Option RowState :=
  fetchChunks r.names r.types r.fetchThrows r.chunks none ⟨0, none, []⟩

end ResultSet

theorem fetchChunks_checked {names : List Str} {types : List LogicalType} {fetchThrows : Bool}
    {columns : ControlColumns} {chunks : List (List (List Value))} (hfilled : ∀ c ∈ chunks, c ≠ [])
    (st : RowState) :
    fetchChunks names types fetchThrows chunks (some columns) st =
      (chunks.flatten.foldlM (visitRow columns) st).bind fun st =>
        if fetchThrows then none else some st := by
  induction chunks generalizing st with
  | nil => rfl
  | cons chunk chunks ih =>
    have hne : chunk.isEmpty = false :=
      List.isEmpty_eq_false_iff.mpr (hfilled chunk List.mem_cons_self)
    rw [fetchChunks, hne, if_neg Bool.false_ne_true, Option.some_or, List.flatten_cons,
      List.foldlM_append]
    dsimp only
    rcases hchunk : chunk.foldlM (visitRow columns) st with _ | st'
    · rfl
    · exact ih (fun c hc => hfilled c (List.mem_cons_of_mem _ hc)) st'

theorem ResultSet.fetch_eq (r : ResultSet) :
    r.fetch =
      if r.rows = [] then if r.fetchThrows then none else some ⟨0, none, []⟩
      else (getMiddlewareResultColumns r.names r.types).bind fun columns =>
        (r.rows.foldlM (visitRow columns) ⟨0, none, []⟩).bind fun st =>
          if r.fetchThrows then none else some st := by
  obtain ⟨names, types, chunks, fetchThrows, hfilled⟩ := r
  show fetchChunks names types fetchThrows chunks none ⟨0, none, []⟩ = if chunks.flatten = [] then _ else _
  rcases chunks with _ | ⟨chunk, chunks⟩
  · rfl
  · have hne : chunk ≠ [] := hfilled chunk List.mem_cons_self
    have hrows : (chunk :: chunks).flatten ≠ [] := by
      rw [List.flatten_cons]
      exact List.append_ne_nil_of_left_ne_nil hne _
    rw [if_neg hrows, fetchChunks, List.isEmpty_eq_false_iff.mpr hne, if_neg Bool.false_ne_true,
      Option.none_or]
    rcases hcolumns : getMiddlewareResultColumns names types with _ | columns
    · rfl
    · have hchecked := @fetchChunks_checked names types fetchThrows columns _ hfilled ⟨0, none, []⟩
      rw [fetchChunks, List.isEmpty_eq_false_iff.mpr hne, if_neg Bool.false_ne_true,
        Option.some_or] at hchecked
      exact hchecked

theorem ResultSet.Reordered.fetch {r r' : ResultSet} (h : r.Reordered r') :
    Option.Rel SameState r.fetch r'.fetch := by
  have hempty : r.rows = [] ↔ r'.rows = [] := by
    rw [← List.length_eq_zero_iff, ← List.length_eq_zero_iff, h.rows.length_eq]
  rw [r.fetch_eq, r'.fetch_eq, h.names, h.types, h.fetchThrows]
  simp only [hempty]
  split
  · exact rel_refl SameState.refl _
  rcases getMiddlewareResultColumns r'.names r'.types with _ | columns
  · exact .none
  · rw [Option.bind_some, Option.bind_some]
    refine rel_bind (sameState_rows h.rows _) fun st st' hst => ?_
    split
    · exact .none
    · exact .some hst

theorem ResultSet.blocked_fetch {r : ResultSet} {columns : ControlColumns} {st : RowState}
    (hcolumns : getMiddlewareResultColumns r.names r.types = some columns)
    (hrejects : ∃ row ∈ r.rows, Rejects columns row) (h : r.fetch = some st) : st.blocked.isSome := by
  obtain ⟨row, hrow, _⟩ := id hrejects
  rw [r.fetch_eq, if_neg (List.ne_nil_of_mem hrow), hcolumns, Option.bind_some] at h
  obtain ⟨st', hrows, hthrows⟩ := Option.bind_eq_some_iff.mp h
  rw [Option.ite_none_left_eq_some] at hthrows
  rw [← Option.some.inj hthrows.2]
  exact blocked_rows hrows (.inr hrejects)

inductive Permuted : Execution → Execution → Prop
  | error : Permuted .error .error
  | result {r r' : ResultSet} (h : r.Reordered r') : Permuted r.execution r'.execution

/-- Two engines that differ in the order of the rows alone. -/
structure SameButOrder {σ : Type} (e e' : MiddlewareEngine σ) : Prop where
  handler : e.handler = e'.handler
  state : ∀ s sql values, (e.execute s sql values).1 = (e'.execute s sql values).1
  result : ∀ s sql values, Permuted (e.execute s sql values).2 (e'.execute s sql values).2

/-- Allowed, blocked with the same status and body, or failed; the same headers, in some order. -/
structure SameOutcome {σ : Type} (x x' : σ × MiddlewareReply × Bool) : Prop where
  state : x.1 = x'.1
  allowed : x.2.2 = x'.2.2
  status : x.2.1.status = x'.2.1.status
  body : x.2.1.responseBody = x'.2.1.responseBody
  failed : x.2.1.middlewareFailed = x'.2.1.middlewareFailed
  headers : x.2.1.responseHeaders.Perm x'.2.1.responseHeaders

inductive SameDecision : Except MiddlewareStop Decision → Except MiddlewareStop Decision → Prop
  | error (stop : MiddlewareStop) : SameDecision (.error stop) (.error stop)
  | ok {d d' : Decision} (hblocked : d.blocked = d'.blocked) (hheaders : d.headers.Perm d'.headers) :
      SameDecision (.ok d) (.ok d')

def decideRows : Option RowState → Except MiddlewareStop Decision
  | none => .error .failed
  | some st => .ok ⟨st.headers, st.blocked⟩

def decideExecution : Execution → Except MiddlewareStop Decision
  | .error => .error .failed
  | .result names types chunks fetchThrows =>
    decideRows (fetchChunks names types fetchThrows chunks none ⟨0, none, []⟩)

theorem decideExecution_result (r : ResultSet) : decideExecution r.execution = decideRows r.fetch := rfl

section
variable {σ : Type} {e e' : MiddlewareEngine σ} (c : MiddlewareContext) (authenticated : Bool)
  (claims : List (Str × Str))

theorem runMiddleware_bound {s : σ} {m : QuackapiMiddleware} {values : Params.Bindings}
    (hbind : bindMiddleware (e.handler s m.handlerSql) c authenticated claims = .ok values) :
    runMiddleware e c authenticated claims s m =
      ((e.execute s m.handlerSql values).1, decideExecution (e.execute s m.handlerSql values).2) := by
  unfold runMiddleware
  rw [hbind]
  dsimp only
  rcases e.execute s m.handlerSql values with ⟨s', _ | ⟨names, types, chunks, fetchThrows⟩⟩
  · rfl
  · dsimp only [decideExecution]
    rcases fetchChunks names types fetchThrows chunks none ⟨0, none, []⟩ with _ | st
    · rfl
    · rfl

theorem sameDecision_run (h : SameButOrder e e') (s : σ) (m : QuackapiMiddleware) :
    (runMiddleware e c authenticated claims s m).1 = (runMiddleware e' c authenticated claims s m).1 ∧
      SameDecision (runMiddleware e c authenticated claims s m).2
        (runMiddleware e' c authenticated claims s m).2 := by
  rcases hbind : bindMiddleware (e.handler s m.handlerSql) c authenticated claims with refusal | values
  · have hbind' := hbind
    rw [h.handler] at hbind'
    unfold runMiddleware
    rw [hbind, hbind']
    cases refusal <;> exact ⟨rfl, .error _⟩
  · have hbind' := hbind
    rw [h.handler] at hbind'
    have hresult := h.result s m.handlerSql values
    rw [runMiddleware_bound c authenticated claims hbind, runMiddleware_bound c authenticated claims hbind']
    refine ⟨h.state s m.handlerSql values, ?_⟩
    dsimp only
    generalize (e.execute s m.handlerSql values).2 = x at hresult ⊢
    generalize (e'.execute s m.handlerSql values).2 = x' at hresult ⊢
    cases hresult with
    | error => exact .error _
    | @result r r' hr =>
      have hfetch := hr.fetch
      rw [decideExecution_result, decideExecution_result]
      generalize r.fetch = o at hfetch ⊢
      generalize r'.fetch = o' at hfetch ⊢
      cases hfetch with
      | none => exact .error _
      | some hst => exact .ok hst.blocked hst.headers

theorem sameOutcome_chain (h : SameButOrder e e') (l : List QuackapiMiddleware) :
    ∀ (s : σ) (reply reply' : MiddlewareReply), reply.status = reply'.status →
      reply.responseBody = reply'.responseBody → reply.middlewareFailed = reply'.middlewareFailed →
      reply.responseHeaders.Perm reply'.responseHeaders →
        SameOutcome (executeChain e c authenticated claims s l reply)
          (executeChain e' c authenticated claims s l reply') := by
  induction l with
  | nil => exact fun s reply reply' hstatus hbody hfailed hheaders =>
      ⟨rfl, rfl, hstatus, hbody, hfailed, hheaders⟩
  | cons m l ih =>
    intro s reply reply' hstatus hbody hfailed hheaders
    obtain ⟨hstate, hdecision⟩ := sameDecision_run c authenticated claims h s m
    unfold executeChain
    generalize runMiddleware e c authenticated claims s m = x at hstate hdecision ⊢
    generalize runMiddleware e' c authenticated claims s m = x' at hstate hdecision ⊢
    obtain ⟨t, x⟩ := x
    obtain ⟨t', x'⟩ := x'
    obtain rfl : t = t' := hstate
    cases hdecision with
    | error stop =>
      cases stop with
      | notAuthenticated => exact ⟨rfl, rfl, rfl, rfl, hfailed, hheaders⟩
      | failed => exact ⟨rfl, rfl, rfl, rfl, rfl, hheaders⟩
    | @ok d d' hblocked hdheaders =>
      have happend := hheaders.append hdheaders
      dsimp only
      rw [hblocked]
      rcases d'.blocked with _ | ⟨status, body⟩
      · exact ih t _ _ hstatus hbody hfailed happend
      · exact ⟨rfl, rfl, rfl, rfl, hfailed, happend⟩

end

section
variable {σ : Type} (e : MiddlewareEngine σ) (c : MiddlewareContext) (authenticated : Bool)
  (claims : List (Str × Str))

theorem executeChain_append (pre rest : List QuackapiMiddleware) (s : σ) (reply : MiddlewareReply) :
    executeChain e c authenticated claims s (pre ++ rest) reply =
      if (executeChain e c authenticated claims s pre reply).2.2 then
        executeChain e c authenticated claims (executeChain e c authenticated claims s pre reply).1 rest
          (executeChain e c authenticated claims s pre reply).2.1
      else executeChain e c authenticated claims s pre reply := by
  induction pre generalizing s reply with
  | nil => rfl
  | cons m pre ih =>
    rw [List.cons_append, executeChain, executeChain]
    rcases runMiddleware e c authenticated claims s m with ⟨s', stop | ⟨headers, blocked⟩⟩
    · cases stop <;> rfl
    · rcases blocked with _ | ⟨status, body⟩
      · exact ih s' _
      · rfl

theorem not_allowed_of_rejects {s : σ} {m : QuackapiMiddleware} {values : Params.Bindings}
    {result : ResultSet} {columns : ControlColumns}
    (hbind : bindMiddleware (e.handler s m.handlerSql) c authenticated claims = .ok values)
    (hresult : (e.execute s m.handlerSql values).2 = result.execution)
    (hcolumns : getMiddlewareResultColumns result.names result.types = some columns)
    (hrejects : ∃ row ∈ result.rows, Rejects columns row) (rest : List QuackapiMiddleware)
    (reply : MiddlewareReply) :
    (executeChain e c authenticated claims s (m :: rest) reply).2.2 = false := by
  unfold executeChain
  rw [runMiddleware_bound c authenticated claims hbind, hresult, decideExecution_result]
  rcases hfetch : result.fetch with _ | st
  · rfl
  · have hblocked := result.blocked_fetch hcolumns hrejects hfetch
    obtain ⟨⟨status, body⟩, hblock⟩ := Option.isSome_iff_exists.mp hblocked
    dsimp only [decideRows]
    rw [hblock]

end

/-- The rows of the middlewares' results may come in any order: the request is allowed, blocked with
the same status and body, or failed alike. A row that rejects, in the result of a middleware that is
reached, keeps the request from being allowed, whatever rows are with it and whatever comes after. -/
theorem middleware_row_order_free {σ : Type} (e e' : MiddlewareEngine σ) (h : SameButOrder e e')
    (c : MiddlewareContext) (authenticated : Bool) (claims : List (Str × Str)) (r : MiddlewareRegistry)
    (phase : MiddlewarePhase) (groupName : Str) (s : σ) (reply : MiddlewareReply) :
    SameOutcome (executeQuackapiMiddleware e c authenticated claims r phase groupName s reply)
        (executeQuackapiMiddleware e' c authenticated claims r phase groupName s reply) ∧
      ∀ (pre rest : List QuackapiMiddleware) (m : QuackapiMiddleware) (values : Params.Bindings)
        (result : ResultSet) (columns : ControlColumns),
        snapshot r phase groupName = pre ++ m :: rest →
        let reached := (executeChain e c authenticated claims s pre reply).1
        bindMiddleware (e.handler reached m.handlerSql) c authenticated claims = .ok values →
        (e.execute reached m.handlerSql values).2 = result.execution →
        getMiddlewareResultColumns result.names result.types = some columns →
        (∃ row ∈ result.rows, Rejects columns row) →
          (executeQuackapiMiddleware e c authenticated claims r phase groupName s reply).2.2 =
            false := by
  constructor
  · exact sameOutcome_chain c authenticated claims h _ s reply reply rfl rfl rfl (List.Perm.refl _)
  · intro pre rest m values result columns hsnapshot reached hbind hresult hcolumns hrejects
    rw [executeQuackapiMiddleware, hsnapshot, executeChain_append]
    cases hallowed : (executeChain e c authenticated claims s pre reply).2.2 with
    | true =>
      rw [if_pos rfl]
      exact not_allowed_of_rejects e c authenticated claims hbind hresult hcolumns hrejects rest _
    | false =>
      rw [if_neg Bool.false_ne_true]
      exact hallowed

def oneChunk (rows : List (List Value)) (h : rows ≠ []) : ResultSet where
  names := ["allow".toList]
  types := [.boolean]
  chunks := [rows]
  fetchThrows := false
  filled := List.forall_mem_singleton.mpr h

def emptyContext : MiddlewareContext where
  method := "GET".toList
  path := "/items".toList
  routeName := []
  groupName := []
  requestId := []
  requestBody := []
  headersJson := []
  queryJson := []
  clientIp := []
  authSubject := []
  status := 0
  elapsedMs := 0

/-- Two gates before every route; the first has no rows to say anything with. -/
def gateRegistry : MiddlewareRegistry :=
  ⟨[⟨⟨"log".toList, .before, [], "log".toList⟩, 1⟩, ⟨⟨"gate".toList, .before, [], "gate".toList⟩, 2⟩],
    3⟩

def gatesEngine (rows : List (List Value)) : MiddlewareEngine Nat where
  handler _ _ := ⟨[], [], fun _ => true, fun _ => some ⟨[], List.nodup_nil⟩⟩
  execute n sql _ :=
    if sql = "log".toList then (n + 1, .result ["allow".toList] [.boolean] [] false)
    else (n, .result ["allow".toList] [.boolean] [rows] false)

theorem gatesEngine_reordered {rows rows' : List (List Value)} (h : rows.Perm rows')
    (hrows : rows ≠ []) : SameButOrder (gatesEngine rows) (gatesEngine rows') := by
  have hrows' : rows' ≠ [] := fun hnil => hrows (List.perm_nil.mp (hnil ▸ h))
  have hchunk : (oneChunk rows hrows).Reordered (oneChunk rows' hrows') :=
    ⟨rfl, rfl, rfl, by simpa [ResultSet.rows, oneChunk] using h⟩
  let none : ResultSet := ⟨["allow".toList], [.boolean], [], false, List.forall_mem_nil _⟩
  have hnone : Permuted none.execution none.execution := .result ⟨rfl, rfl, rfl, .refl _⟩
  refine ⟨rfl, fun n sql values => ?_, fun n sql values => ?_⟩
  · simp only [gatesEngine]
    split <;> rfl
  · simp only [gatesEngine]
    split
    · exact hnone
    · exact .result hchunk

/-- One row of the second gate allows and one rejects. -/
theorem middleware_row_order_free_two :
    SameOutcome
        (executeQuackapiMiddleware (gatesEngine [[.boolean true], [.boolean false]]) emptyContext false
          [] gateRegistry .before [] 0 ⟨200, [], [], false⟩)
        (executeQuackapiMiddleware (gatesEngine [[.boolean false], [.boolean true]]) emptyContext false
          [] gateRegistry .before [] 0 ⟨200, [], [], false⟩) ∧
      (executeQuackapiMiddleware (gatesEngine [[.boolean true], [.boolean false]]) emptyContext false
        [] gateRegistry .before [] 0 ⟨200, [], [], false⟩).2.2 = false := by
  have hengines := gatesEngine_reordered (List.Perm.swap [.boolean false] [.boolean true] [])
    (List.cons_ne_nil _ _)
  have hfree := middleware_row_order_free _ _ hengines emptyContext false [] gateRegistry .before [] 0
    ⟨200, [], [], false⟩
  refine ⟨hfree.1, ?_⟩
  refine hfree.2 [⟨⟨"log".toList, .before, [], "log".toList⟩, 1⟩] []
    ⟨⟨"gate".toList, .before, [], "gate".toList⟩, 2⟩ [] (oneChunk _ (List.cons_ne_nil _ _)) _ rfl rfl
    rfl rfl ?_
  exact ⟨_, List.mem_cons_of_mem _ List.mem_cons_self, rfl⟩

end Quackapi.Middleware
