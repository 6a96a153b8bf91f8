import Quackapi.Middleware.Execute

/-! What the chain of middleware decides: its order, when a request proceeds, where the chain stops,
and whose headers it applies. -/

namespace Quackapi.Middleware
open Library
open Params (Value LogicalType MiddlewareContext bindMiddleware)

/-- A row whose `allow` is there and false. -/
def RejectingRow (names : List Str) (row : List Value) : Prop :=
  ∃ i name, names[i]? = some name ∧ lower name = "allow".toList ∧
    row.getD i .null ≠ .null ∧ getBool (row.getD i .null) = false

def fetchedRows (chunks : List (List (List Value))) : List (List Value) :=
  (chunks.takeWhile (!·.isEmpty)).flatten

def Execution.Rejects : Execution → Prop
  | .error => False
  | .result names _ chunks _ => ∃ row ∈ fetchedRows chunks, RejectingRow names row

theorem controlSlot_allow {name : Str} : controlSlot name = some .allow ↔ lower name = "allow".toList := by
  unfold controlSlot
  constructor
  · intro h
    dsimp only at h
    split at h
    · next heq => exact heq
    · repeat' split at h
      all_goals cases h
  · intro h
    rw [if_pos h]

theorem scanColumns_slot {names : List Str} {k : Nat} {columns columns' : ControlColumns}
    (h : scanColumns names k columns = some columns') (slot : ControlSlot) (col : Nat) :
    columns' slot = some col ↔ columns slot = some col ∨
      ∃ i name, names[i]? = some name ∧ controlSlot name = some slot ∧ col = k + i := by
  induction names generalizing k columns with
  | nil =>
    cases h
    simp
  | cons name names ih =>
    -- an index into the longer list is the head's or one more than an index into the rest
    have hindex : ∀ P : Nat → Str → Prop, (∃ i n, (name :: names)[i]? = some n ∧ P i n) ↔
        P 0 name ∨ ∃ i n, names[i]? = some n ∧ P (i + 1) n := by
      intro P
      constructor
      · rintro ⟨_ | i, n, hn, hP⟩
        · cases hn
          exact .inl hP
        · exact .inr ⟨i, n, hn, hP⟩
      · rintro (hP | ⟨i, n, hn, hP⟩)
        · exact ⟨0, name, rfl, hP⟩
        · exact ⟨i + 1, n, hn, hP⟩
    rw [hindex]
    have hshift : ∀ i, k + 1 + i = k + (i + 1) := fun i => by omega
    rw [scanColumns] at h
    rcases hslot : controlSlot name with _ | found
    · simp only [hslot] at h
      rw [ih h]
      simp only [hshift]
      simp
    · simp only [hslot] at h
      split at h
      · cases h
      · next hfree =>
        rw [ih h]
        simp only [hshift, Option.some.injEq, Nat.add_zero]
        by_cases heq : slot = found
        · subst heq
          have hnone : columns slot = none := by simpa using hfree
          simp [hnone, eq_comm]
        · rw [Function.update_of_ne heq]
          simp [Ne.symm heq]

theorem allow_column {names : List Str} {types : List LogicalType} {columns : ControlColumns}
    (h : getMiddlewareResultColumns names types = some columns) :
    ∃ col, columns .allow = some col ∧
      ∀ i, (∃ name, names[i]? = some name ∧ lower name = "allow".toList) ↔ i = col := by
  unfold getMiddlewareResultColumns at h
  rcases hscan : scanColumns names 0 fun _ => none with _ | scanned
  · rw [hscan] at h
    cases h
  · simp only [hscan] at h
    split at h
    · next hvalid =>
      cases h
      simp only [Bool.and_eq_true] at hvalid
      obtain ⟨col, hcol⟩ := Option.isSome_iff_exists.mp hvalid.1.1.1.1.1.1
      refine ⟨col, hcol, fun i => ?_⟩
      have hspec := scanColumns_slot hscan .allow
      constructor
      · rintro ⟨name, hname, hlower⟩
        have hi := (hspec i).mpr
          (.inr ⟨i, name, hname, controlSlot_allow.mpr hlower, (Nat.zero_add i).symm⟩)
        exact Option.some.inj (hi.symm.trans hcol)
      · rintro rfl
        rcases (hspec i).mp hcol with hnone | ⟨j, name, hname, hslot, hj⟩
        · cases hnone
        · rw [Nat.zero_add] at hj
          exact ⟨name, hj ▸ hname, controlSlot_allow.mp hslot⟩
    · cases h

theorem rejectingRow_iff {names : List Str} {types : List LogicalType} {columns : ControlColumns}
    (h : getMiddlewareResultColumns names types = some columns) (row : List Value) :
    RejectingRow names row ↔
      cell columns row .allow ≠ .null ∧ getBool (cell columns row .allow) = false := by
  obtain ⟨col, hcol, hunique⟩ := allow_column h
  have hcell : cell columns row .allow = row.getD col .null := by
    unfold cell
    rw [hcol]
  rw [hcell]
  constructor
  · rintro ⟨i, name, hname, hlower, hrow⟩
    rw [← (hunique i).mp ⟨name, hname, hlower⟩]
    exact hrow
  · intro hrow
    obtain ⟨name, hname, hlower⟩ := (hunique col).mpr rfl
    exact ⟨col, name, hname, hlower, hrow⟩

theorem visitRow_blocked {columns : ControlColumns} {st st' : RowState} {row : List Value}
    (h : visitRow columns st row = some st') :
    cell columns row .allow ≠ .null ∧
      (st'.blocked = none ↔ st.blocked = none ∧ getBool (cell columns row .allow) = true) := by
  unfold visitRow at h
  dsimp only at h
  split at h
  · cases h
  split at h
  · cases h
  next hnull =>
  refine ⟨hnull, ?_⟩
  split at h
  · cases h
  rcases hheader : rowHeader columns row with _ | header
  · rw [hheader] at h
    cases h
  rw [hheader] at h
  dsimp only at h
  cases hallow : getBool (cell columns row .allow) with
  | true =>
    rw [hallow, if_pos rfl] at h
    cases h
    simp
  | false =>
    rw [hallow, if_neg Bool.false_ne_true] at h
    rcases hblock : rowBlock columns row with _ | block
    · rw [hblock] at h
      cases h
    · rw [hblock] at h
      dsimp only at h
      split at h
      · cases h
      · cases h
        simp

theorem visitRows_blocked {columns : ControlColumns} {rows : List (List Value)} {st st' : RowState}
    (h : rows.foldlM (visitRow columns) st = some st') :
    st'.blocked = none ↔ st.blocked = none ∧ ∀ row ∈ rows,
      ¬(cell columns row .allow ≠ .null ∧ getBool (cell columns row .allow) = false) := by
  induction rows generalizing st with
  | nil =>
    cases h
    simp
  | cons row rows ih =>
    rw [List.foldlM_cons] at h
    obtain ⟨mid, hmid, hrest⟩ := Option.bind_eq_some_iff.mp h
    obtain ⟨hnull, hblocked⟩ := visitRow_blocked hmid
    rw [ih hrest, hblocked, List.forall_mem_cons, and_assoc]
    have hrow : ¬(cell columns row .allow ≠ .null ∧ getBool (cell columns row .allow) = false) ↔
        getBool (cell columns row .allow) = true := by
      rw [not_and, Bool.not_eq_false]
      exact ⟨fun hr => hr hnull, fun hr _ => hr⟩
    rw [hrow]

theorem fetchChunks_blocked {names : List Str} {types : List LogicalType} {fetchThrows : Bool}
    {chunks : List (List (List Value))} {checked : Option ControlColumns} {st st' : RowState}
    (hchecked : ∀ columns, checked = some columns →
      getMiddlewareResultColumns names types = some columns)
    (h : fetchChunks names types fetchThrows chunks checked st = some st') :
    st'.blocked = none ↔ st.blocked = none ∧ ∀ row ∈ fetchedRows chunks, ¬ RejectingRow names row := by
  induction chunks generalizing checked st with
  | nil =>
    rw [fetchChunks] at h
    split at h
    · cases h
    · cases h
      simp [fetchedRows]
  | cons chunk chunks ih =>
    rw [fetchChunks] at h
    by_cases hempty : chunk.isEmpty
    · rw [if_pos hempty] at h
      cases h
      simp [fetchedRows, hempty]
    · rw [if_neg hempty] at h
      rcases hcolumns : checked.or (getMiddlewareResultColumns names types) with _ | columns
      · rw [hcolumns] at h
        cases h
      · have hvalid : getMiddlewareResultColumns names types = some columns := by
          rcases checked with _ | known
          · exact hcolumns
          · exact hchecked columns hcolumns
        simp only [hcolumns] at h
        rcases hrows : chunk.foldlM (visitRow columns) st with _ | mid
        · rw [hrows] at h
          cases h
        · rw [hrows] at h
          have hrest := ih (fun known hk => Option.some.inj hk ▸ hvalid) h
          have hsplit : fetchedRows (chunk :: chunks) = chunk ++ fetchedRows chunks := by
            simp [fetchedRows, hempty]
          rw [hrest, visitRows_blocked hrows, hsplit, List.forall_mem_append, and_assoc]
          simp only [rejectingRow_iff hvalid]

section
variable {σ : Type} (e : MiddlewareEngine σ) (c : MiddlewareContext) (authenticated : Bool)
  (claims : List (Str × Str))

/-- What executing the definition gives, where it comes to that. -/
def executionOf (s : σ) (middleware : QuackapiMiddleware) : Option Execution :=
  match bindMiddleware (e.handler s middleware.handlerSql) c authenticated claims with
  | .ok values => some (e.execute s middleware.handlerSql values).2
  | .error _ => none

/-- The definition returns a decision, without failing, and no row of it rejects. -/
def Allows (s : σ) (middleware : QuackapiMiddleware) : Prop :=
  (∃ decision, (runMiddleware e c authenticated claims s middleware).2 = .ok decision) ∧
    ∀ execution, executionOf e c authenticated claims s middleware = some execution →
      ¬ execution.Rejects

def passes : Except MiddlewareStop Decision → Bool
  | .ok decision => decision.blocked.isNone
  | .error _ => false

theorem allows_iff (s : σ) (middleware : QuackapiMiddleware) :
    Allows e c authenticated claims s middleware ↔
      passes (runMiddleware e c authenticated claims s middleware).2 = true := by
  unfold Allows executionOf runMiddleware
  rcases bindMiddleware (e.handler s middleware.handlerSql) c authenticated claims with refusal | values
  · cases refusal <;> simp [passes]
  · dsimp only
    rcases e.execute s middleware.handlerSql values with ⟨s', _ | ⟨names, types, chunks, fetchThrows⟩⟩
    · simp [passes]
    · dsimp only
      rcases hfetch : fetchChunks names types fetchThrows chunks none ⟨0, none, []⟩ with _ | st
      · simp [passes]
      · have hblocked := fetchChunks_blocked (fun _ hnone => by cases hnone) hfetch
        simp [passes, Execution.Rejects, hblocked]

/-- The headers of a definition that did not fail. -/
def headersOf : Except MiddlewareStop Decision → List (Str × Str)
  | .ok decision => decision.headers
  | .error _ => []

def contributed (history : List (QuackapiMiddleware × Except MiddlewareStop Decision)) :
    List (Str × Str) :=
  history.flatMap fun p => headersOf p.2

/-- The reply after a definition, with its headers and, where it ends the chain, what it answers. -/
def settle (reply : MiddlewareReply) (outcome : Except MiddlewareStop Decision) : MiddlewareReply :=
  let reply' := { reply with responseHeaders := reply.responseHeaders ++ headersOf outcome }
  match outcome with
  | .error .notAuthenticated =>
    { reply' with
      status := 401
      responseBody := "\x7b\"detail\":\"Not authenticated\"\x7d".toList }
  | .error .failed => setMiddlewareFailure reply'
  | .ok decision =>
    match decision.blocked with
    | some (status, body) => { reply' with status, responseBody := body }
    | none => reply'

def settleAll (reply : MiddlewareReply)
    (history : List (QuackapiMiddleware × Except MiddlewareStop Decision)) : MiddlewareReply :=
  history.foldl (fun reply p => settle reply p.2) reply

theorem settle_headers (reply : MiddlewareReply) (outcome : Except MiddlewareStop Decision) :
    (settle reply outcome).responseHeaders = reply.responseHeaders ++ headersOf outcome := by
  unfold settle
  rcases outcome with _ | ⟨headers, _ | _⟩
  · rename_i stop
    cases stop <;> rfl
  · rfl
  · rfl

theorem settleAll_headers (reply : MiddlewareReply)
    (history : List (QuackapiMiddleware × Except MiddlewareStop Decision)) :
    (settleAll reply history).responseHeaders = reply.responseHeaders ++ contributed history := by
  induction history generalizing reply with
  | nil => exact (List.append_nil _).symm
  | cons p history ih =>
    have hrest := ih (settle reply p.2)
    rw [settle_headers, List.append_assoc] at hrest
    exact hrest

theorem executeChain_eq (s : σ) (l : List QuackapiMiddleware) (reply : MiddlewareReply) :
    executeChain e c authenticated claims s l reply =
      let m := middlewareMachine e c authenticated claims
      let taken := m.takenUntil passes s l
      (m.run s taken.1, settleAll reply (m.history s taken.1), taken.2) := by
  induction l generalizing s reply with
  | nil => rfl
  | cons x l ih =>
    have hstep : (middlewareMachine e c authenticated claims).step s x =
        runMiddleware e c authenticated claims s x := rfl
    rcases hrun : runMiddleware e c authenticated claims s x with ⟨s', stop | ⟨headers, _ | block⟩⟩
    · cases stop <;>
        simp [executeChain, Machine.takenUntil, hstep, hrun, passes, settleAll, settle, headersOf]
    · simp only [executeChain, hrun, ih, Machine.takenUntil, hstep, passes, Option.isNone_none, if_true,
        Machine.run_cons, Machine.history_cons]
      rfl
    · simp [executeChain, Machine.takenUntil, hstep, hrun, passes, settleAll, settle, headersOf]

/-- For every history of statements the chain runs what it registers, global then group before a route
and the other way round after it. A request proceeds exactly when each definition allows it in its turn;
the first that does not ends the chain, and only headers of definitions that did not fail are applied. -/
theorem middleware_chain (ddl : List MiddlewareDdl) (phase : MiddlewarePhase) (groupName : Str) (s : σ)
    (reply : MiddlewareReply) :
    let history := registryMachine.history emptyRegistry ddl
    let r := registryMachine.run emptyRegistry ddl
    let l := snapshot r phase groupName
    let m := middlewareMachine e c authenticated claims
    let result := executeQuackapiMiddleware e c authenticated claims r phase groupName s reply
    l.map (·.toMiddlewareDefinition) = applicable phase groupName (registered history) ∧
    (result.2.2 = true ↔
      ∀ pre x post, l = pre ++ x :: post → Allows e c authenticated claims (m.run s pre) x) ∧
    ∃ ran rest, l = ran ++ rest ∧ result.1 = m.run s ran ∧
      result.2.1 = settleAll reply (m.history s ran) ∧
      result.2.1.responseHeaders = reply.responseHeaders ++ contributed (m.history s ran) ∧
      (result.2.2 = true → rest = []) ∧
      (result.2.2 = false → ∃ pre x, ran = pre ++ [x] ∧
        (∀ p ∈ m.history s pre, passes p.2 = true) ∧ ¬ Allows e c authenticated claims (m.run s pre) x) := by
  intro history r l m result
  have hresult : result = (m.run s (m.takenUntil passes s l).1,
      settleAll reply (m.history s (m.takenUntil passes s l).1), (m.takenUntil passes s l).2) :=
    executeChain_eq e c authenticated claims s l reply
  refine ⟨?_, ?_, ?_⟩
  · exact (map_snapshot r phase groupName).trans (congrArg _ (registry_history ddl).registered)
  · rw [hresult]
    simp only [allows_iff]
    exact m.takenUntil_passed passes s l
  · have hcases := m.takenUntil_cases passes s l
    generalize m.takenUntil passes s l = taken at hresult hcases
    rw [hresult]
    cases hcases with
    | passed h =>
      exact ⟨l, [], (List.append_nil l).symm, rfl, rfl, settleAll_headers _ _, fun _ => rfl,
        fun h => absurd h.symm Bool.false_ne_true⟩
    | stopped pre x post heq hpre hx =>
      refine ⟨pre ++ [x], post, ?_, rfl, rfl, settleAll_headers _ _,
        fun h => absurd h Bool.false_ne_true, fun _ => ?_⟩
      · rw [List.append_assoc]
        exact heq
      · refine ⟨pre, x, rfl, hpre, fun hallows => ?_⟩
        have hpasses := (allows_iff e c authenticated claims _ x).mp hallows
        exact Bool.false_ne_true (hx.symm.trans hpasses)

end
end Quackapi.Middleware
