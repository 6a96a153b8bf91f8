import Quackapi.Library.Machine
import Quackapi.Limits.Deadline
import Mathlib.Algebra.Order.Group.Int

/-! The guards one thread enters and leaves around the queries of one connection. A guard that ends
its scope and one that an exception unwinds leave the same way. -/

namespace Quackapi.Limits
open Library

inductive Guard
  /-- `QuackapiQueryDeadline` of a timeout, entered at `now`. -/
  | queryTimeout (now timeoutMs : Int)
  /-- `QuackapiQueryDeadline` of an absolute deadline. -/
  | query (deadline : Int) (threadAffine : Bool)
  /-- `ScopedOutboundDeadline` -/
  | outbound (deadline : Int)
deriving DecidableEq

/-- A guard that stands, with what its destructor puts back. -/
inductive Entered
  | query (deadline previous budgetPrevious : Int) (threadAffine : Bool)
  | outbound (deadline previous : Int)
deriving DecidableEq

def Entered.deadline : Entered → Int
  | .query deadline _ _ _ => deadline
  | .outbound deadline _ => deadline

/-- `QuackapiQueryDeadline::Start`, between the constructor that reads `current_deadline` and the body. -/
def start (s : Stores) (deadline : Int) (threadAffine : Bool) : Stores × Entered :=
  ({ s with budget := deadline, current := if threadAffine then deadline else s.current },
    .query deadline s.current s.budget threadAffine)

def enter (s : Stores) : Guard → Stores × Entered
  | .queryTimeout now timeoutMs => start s (min s.current (after now timeoutMs)) true
  | .query deadline threadAffine => start s deadline threadAffine
  | .outbound deadline => ({ s with current := deadline }, .outbound deadline s.current)

def leave (s : Stores) : Entered → Stores
  | .query deadline previous budgetPrevious threadAffine =>
    -- restored only if no later guard replaced the budget
    { s with budget := if s.budget = deadline then budgetPrevious else s.budget
             current := if threadAffine then previous else s.current }
  | .outbound _ previous => { s with current := previous }

structure Scope where
  stores : Stores
  /-- The guards that stand, innermost first. -/
  entered : List Entered := []
deriving DecidableEq

inductive Action
  | enter (guard : Guard)
  | leave
  /-- The engine begins a query, with the deadline of its `max_execution_time`. -/
  | queryBegin (native : Option Nat)
  | queryEnd
deriving DecidableEq

def Scope.step (t : Scope) : Action → Scope
  | .enter guard => ⟨(Limits.enter t.stores guard).1, (Limits.enter t.stores guard).2 :: t.entered⟩
  | .leave =>
    match t.entered with
    | [] => t
    | g :: gs => ⟨Limits.leave t.stores g, gs⟩
  | .queryBegin native => { t with stores := Limits.queryBegin t.stores native }
  | .queryEnd => { t with stores := Limits.queryEnd t.stores }

def scopes : Machine Scope Action Unit where
  step t a := (t.step a, ())

/-- Properly nested: a guard is left after everything entered inside it. -/
inductive Nested : List Action → Prop
  | nil : Nested []
  | guarded {guard : Guard} {body rest : List Action} (hbody : Nested body) (hrest : Nested rest) :
    Nested (.enter guard :: body ++ .leave :: rest)
  | queryBegin {native : Option Nat} {rest : List Action} (hrest : Nested rest) :
    Nested (.queryBegin native :: rest)
  | queryEnd {rest : List Action} (hrest : Nested rest) : Nested (.queryEnd :: rest)

theorem queryBegin_eq (s : Stores) (native : Option Nat) :
    ∃ native', queryBegin s native = { s with native := native' } := by
  rw [queryBegin]
  split
  · exact ⟨native, rfl⟩
  · dsimp only
    split
    · exact ⟨_, rfl⟩
    · exact ⟨native, rfl⟩

theorem leave_enter (s : Stores) (guard : Guard) : leave (enter s guard).1 (enter s guard).2 = s := by
  cases guard with
  | queryTimeout now timeoutMs => simp [enter, start, leave]
  | query deadline threadAffine => cases threadAffine <;> simp [enter, start, leave]
  | outbound deadline => rfl

theorem leave_native (s : Stores) (native : Option Nat) (g : Entered) :
    leave { s with native } g = { leave s g with native } := by
  cases g <;> rfl

def Stores.Agrees (s s' : Stores) : Prop := s'.current = s.current ∧ s'.budget = s.budget

theorem Stores.Agrees.eq {s s' : Stores} (h : s.Agrees s') : s' = { s with native := s'.native } := by
  cases s'
  obtain ⟨rfl, rfl⟩ := h
  rfl

theorem agrees_leave {s s' : Stores} (h : s.Agrees s') (g : Entered) : (leave s g).Agrees (leave s' g) := by
  rw [h.eq, leave_native]
  cases g <;> exact ⟨rfl, rfl⟩

theorem Nested.restores {as : List Action} (h : Nested as) (t : Scope) :
    t.stores.Agrees (scopes.run t as).stores ∧ (scopes.run t as).entered = t.entered := by
  induction h generalizing t with
  | nil => exact ⟨⟨rfl, rfl⟩, rfl⟩
  | @guarded guard body rest _ _ ihbody ihrest =>
    obtain ⟨hstores, hentered⟩ := ihbody (t.step (.enter guard))
    rw [Machine.run_append, Machine.run_cons, Machine.run_cons]
    have hleave : scopes.run (t.step (.enter guard)) body =
        ⟨(scopes.run (t.step (.enter guard)) body).stores, (enter t.stores guard).2 :: t.entered⟩ :=
      congrArg (Scope.mk _) hentered
    have hback := agrees_leave hstores (enter t.stores guard).2
    have hstep : (scopes.run (t.step (.enter guard)) body).step .leave =
        ⟨leave (scopes.run (t.step (.enter guard)) body).stores (enter t.stores guard).2, t.entered⟩ := by
      rw [hleave]
      rfl
    obtain ⟨hrestStores, hrestEntered⟩ := ihrest ((scopes.run (t.step (.enter guard)) body).step .leave)
    rw [hstep] at hrestStores hrestEntered
    have hsame : leave (t.step (.enter guard)).stores (enter t.stores guard).2 = t.stores :=
      leave_enter t.stores guard
    rw [hsame] at hback
    change t.stores.Agrees (scopes.run ((scopes.run (t.step (.enter guard)) body).step .leave) rest).stores ∧
      (scopes.run ((scopes.run (t.step (.enter guard)) body).step .leave) rest).entered = t.entered
    rw [hstep]
    exact ⟨⟨hrestStores.1.trans hback.1, hrestStores.2.trans hback.2⟩, hrestEntered⟩
  | @queryBegin native rest _ ih =>
    obtain ⟨native', heq⟩ := queryBegin_eq t.stores native
    obtain ⟨hstores, hentered⟩ := ih { t with stores := Limits.queryBegin t.stores native }
    refine ⟨⟨hstores.1.trans ?_, hstores.2.trans ?_⟩, hentered⟩ <;> rw [heq]
  | @queryEnd rest _ ih => exact ih { t with stores := Limits.queryEnd t.stores }

theorem contextDeadline_le_stored {s : Stores} (h : s.native ≠ some 0) : contextDeadline s ≤ s.stored := by
  obtain heq | ⟨ms, hnative, heq, hmillis, hms⟩ := contextDeadline_eq s
  · exact heq.le
  · have hpos : 0 < ms := by
      refine Nat.pos_of_ne_zero fun hzero => h ?_
      rw [hnative, hzero]
    have hstored : 0 ≤ s.stored := by
      by_contra hneg
      have hzero : toMillis s.stored ≤ 0 := toMillis_nonpos (Int.not_le.mp hneg)
      omega
    calc contextDeadline s = ms * nanosPerMilli := heq
      _ ≤ toMillis s.stored * nanosPerMilli := Int.mul_le_mul_of_nonneg_right hms (by decide)
      _ ≤ s.stored := toMillis_mul_le hstored

theorem contextDeadline_le_native {s : Stores} {ms : Nat} (h : s.native = some ms) :
    contextDeadline s ≤ ms * nanosPerMilli := by
  have hms : 0 ≤ (ms : Int) * nanosPerMilli := Int.mul_nonneg (Int.natCast_nonneg ms) (by decide)
  rw [contextDeadline, h]
  dsimp only
  split
  · exact le_rfl
  · rename_i hnot
    change s.stored ≤ _
    rcases Int.lt_or_le s.stored 0 with hneg | hpos
    · exact hneg.le.trans hms
    · have hmillis : 0 ≤ toMillis s.stored := Int.tdiv_nonneg hpos (by decide)
      have hlater : toMillis s.stored + 1 ≤ ms := by
        by_contra hle
        have hms' : (ms : Int) ≤ toMillis s.stored := by omega
        exact hnot ⟨hmillis, hms'⟩
      calc s.stored ≤ (toMillis s.stored + 1) * nanosPerMilli := (lt_toMillis_add_one hpos).le
        _ ≤ ms * nanosPerMilli := Int.mul_le_mul_of_nonneg_right hlater (by decide)

/-- A step that enters no guard behind the deadline that holds, and begins no query at the start of the
clock. -/
def Tightens (t : Scope) : Action → Prop
  | .enter (.queryTimeout now timeoutMs) =>
    t.stores.current ≤ t.stores.budget ∨ after now timeoutMs ≤ t.stores.budget
  | .enter (.query deadline true) => deadline ≤ t.stores.stored
  | .enter (.query deadline false) =>
    t.stores.current ≤ t.stores.budget ∨ deadline ≤ t.stores.budget
  | .enter (.outbound deadline) => t.stores.budget ≤ t.stores.current ∨ deadline ≤ t.stores.current
  | .leave => True
  | .queryBegin native => native ≠ some 0 ∧ -nanosPerMilli < t.stores.budget
  | .queryEnd => True

theorem stored_enter_le {t : Scope} {guard : Guard} (h : Tightens t (.enter guard)) :
    (enter t.stores guard).1.stored ≤ (enter t.stores guard).2.deadline ∧
      (enter t.stores guard).1.stored ≤ t.stores.stored := by
  cases guard with
  | queryTimeout now timeoutMs =>
    have hle : t.stores.current ≤ t.stores.budget ∨ after now timeoutMs ≤ t.stores.budget := h
    simp only [enter, start, Entered.deadline, Stores.stored, if_true]
    omega
  | query deadline threadAffine =>
    cases threadAffine with
    | true =>
      have hle : deadline ≤ t.stores.stored := h
      simp only [enter, start, Entered.deadline, Stores.stored, if_true] at hle ⊢
      omega
    | false =>
      have hle : t.stores.current ≤ t.stores.budget ∨ deadline ≤ t.stores.budget := h
      simp only [enter, start, Entered.deadline, Stores.stored, Bool.false_eq_true, if_false]
      omega
  | outbound deadline =>
    have hle : t.stores.budget ≤ t.stores.current ∨ deadline ≤ t.stores.current := h
    simp only [enter, Entered.deadline, Stores.stored]
    omega

theorem native_queryBegin {s : Stores} {native : Option Nat} (hnative : native ≠ some 0)
    (hbudget : -nanosPerMilli < s.budget) : (queryBegin s native).native ≠ some 0 := by
  have hmillis : 0 ≤ toMillis s.budget := by
    rcases Int.lt_or_le s.budget 0 with hneg | hpos
    · have hcut : (-s.budget).tdiv nanosPerMilli = 0 := Int.tdiv_eq_zero_of_lt (by omega) (by omega)
      rw [Int.neg_tdiv, neg_eq_zero] at hcut
      exact hcut.ge
    · exact Int.tdiv_nonneg hpos (by decide)
  rw [queryBegin]
  split
  · exact hnative
  · dsimp only
    split
    · rw [Ne, Option.some.injEq]
      omega
    · exact hnative

/-- Every guard that stands was entered no later than what it replaced, back to where the run began. -/
def Tightened (base : Stores) : Stores → List Entered → Prop
  | s, [] => s.stored ≤ base.stored
  | s, g :: gs => s.stored ≤ g.deadline ∧ s.stored ≤ (leave s g).stored ∧ Tightened base (leave s g) gs

theorem Tightened.native {base s : Stores} {gs : List Entered} (h : Tightened base s gs)
    (native : Option Nat) : Tightened base { s with native } gs := by
  induction gs generalizing s with
  | nil => exact h
  | cons g gs ih =>
    refine ⟨h.1, ?_, ?_⟩
    · rw [leave_native]
      exact h.2.1
    · rw [leave_native]
      exact ih h.2.2

theorem Tightened.stored_le {base s : Stores} {gs : List Entered} (h : Tightened base s gs) :
    s.stored ≤ base.stored ∧ ∀ g ∈ gs, s.stored ≤ g.deadline := by
  induction gs generalizing s with
  | nil => exact ⟨h, fun g hg => absurd hg List.not_mem_nil⟩
  | cons g gs ih =>
    obtain ⟨hg, hleave, hrest⟩ := h
    obtain ⟨hbase, hall⟩ := ih hrest
    refine ⟨hleave.trans hbase, fun g' hg' => ?_⟩
    rcases List.mem_cons.mp hg' with rfl | hmem
    · exact hg
    · exact hleave.trans (hall g' hmem)

def Kept (base : Stores) (t : Scope) : Prop :=
  Tightened base t.stores t.entered ∧ t.stores.native ≠ some 0

theorem kept_step {base : Stores} (t : Scope) (a : Action) (h : Kept base t) (ha : Tightens t a) :
    Kept base (scopes.step t a).1 := by
  obtain ⟨htight, hnative⟩ := h
  cases a with
  | enter guard =>
    obtain ⟨hown, houter⟩ := stored_enter_le ha
    have hback := leave_enter t.stores guard
    refine ⟨⟨hown, hback.symm ▸ houter, hback.symm ▸ htight⟩, ?_⟩
    cases guard <;> exact hnative
  | leave =>
    obtain ⟨s, gs⟩ := t
    cases gs with
    | nil => exact ⟨htight, hnative⟩
    | cons g gs =>
      refine ⟨htight.2.2, ?_⟩
      cases g <;> exact hnative
  | queryBegin native =>
    obtain ⟨native', heq⟩ := queryBegin_eq t.stores native
    refine ⟨?_, native_queryBegin ha.1 ha.2⟩
    change Tightened base (queryBegin t.stores native) t.entered
    rw [heq]
    exact htight.native native'
  | queryEnd => exact ⟨htight.native none, nofun⟩

theorem tightens_of_le {t : Scope} {deadline : Int} (hnative : t.stores.native ≠ some 0)
    (h : deadline ≤ contextDeadline t.stores) :
    (∀ threadAffine, Tightens t (.enter (.query deadline threadAffine))) ∧
      Tightens t (.enter (.outbound deadline)) := by
  have hstored := h.trans (contextDeadline_le_stored hnative)
  refine ⟨fun threadAffine => ?_, .inr (hstored.trans (min_le_left _ _))⟩
  cases threadAffine with
  | true => exact hstored
  | false => exact .inr (hstored.trans (min_le_right _ _))

theorem tightens_execDeadline {t : Scope} {servingTimeoutMs deadline now : Int} {setting : Option Int}
    (hnative : t.stores.native ≠ some 0)
    (h : execDeadline t.stores servingTimeoutMs setting now = .ok deadline) (threadAffine : Bool) :
    Tightens t (.enter (.query deadline threadAffine)) :=
  (tightens_of_le hnative (execDeadline_le h)).1 threadAffine

theorem tightens_outboundDeadline {t : Scope} {callTimeoutMs deadline now : Int} {setting : Option Int}
    (hnative : t.stores.native ≠ some 0)
    (h : outboundDeadline t.stores setting now callTimeoutMs = .ok deadline) :
    Tightens t (.enter (.outbound deadline)) :=
  (tightens_of_le hnative (outboundDeadline_le h)).2

/-- Code inside guards sees no later deadline than theirs, the connection's or the query's, and what a
guard is left with is what it was entered with. -/
theorem guards_tighten_and_restore {s : Stores} (hs : s.native ≠ some 0) {as : List Action}
    (h : scopes.Along Tightens ⟨s, []⟩ as) :
    (∀ t, t = scopes.run ⟨s, []⟩ as →
      (∀ g ∈ t.entered, contextDeadline t.stores ≤ g.deadline) ∧
      contextDeadline t.stores ≤ s.stored ∧
      contextDeadline t.stores ≤ t.stores.budget ∧
      ∀ ms, t.stores.native = some ms → contextDeadline t.stores ≤ ms * nanosPerMilli) ∧
    ∀ pre guard body, as = pre ++ .enter guard :: body ++ [.leave] → Nested body →
      (scopes.run ⟨s, []⟩ as).stores.current = (scopes.run ⟨s, []⟩ pre).stores.current ∧
      (scopes.run ⟨s, []⟩ as).stores.budget = (scopes.run ⟨s, []⟩ pre).stores.budget := by
  refine ⟨?_, ?_⟩
  · rintro t rfl
    obtain ⟨htight, hnative⟩ := scopes.run_invariant_along kept_step (P := Kept s) ⟨le_rfl, hs⟩ h
    obtain ⟨hbase, hall⟩ := htight.stored_le
    have hstored := contextDeadline_le_stored hnative
    refine ⟨fun g hg => hstored.trans (hall g hg), hstored.trans hbase, ?_, ?_⟩
    · exact hstored.trans (Int.min_le_right _ _)
    · exact fun ms hms => contextDeadline_le_native hms
  · rintro pre guard body rfl hbody
    have hnested : Nested (.enter guard :: body ++ .leave :: []) := .guarded hbody .nil
    have hrestores := (hnested.restores (scopes.run ⟨s, []⟩ pre)).1
    rw [List.append_assoc, Machine.run_append]
    exact hrestores

/-- A request of a second whose query calls out and ends. -/
theorem guards_tighten_request :
    contextDeadline (scopes.run ⟨{}, []⟩ [.enter (.queryTimeout 0 1000), .queryBegin none,
      .enter (.outbound 500000000)]).stores ≤ 1000000000 ∧
    (scopes.run ⟨{}, []⟩ ([.enter (.queryTimeout 0 1000), .queryBegin none] ++
      .enter (.outbound 500000000) :: [.queryEnd] ++ [.leave])).stores.current = 1000000000 := by
  have hin := (@guards_tighten_and_restore {} (by decide)
    [.enter (.queryTimeout 0 1000), .queryBegin none, .enter (.outbound 500000000)]
    ⟨.inl (by decide), ⟨by decide, by decide⟩, .inr (by decide), trivial⟩).1 _ rfl
  have hout := (@guards_tighten_and_restore {} (by decide)
    [.enter (.queryTimeout 0 1000), .queryBegin none, .enter (.outbound 500000000), .queryEnd, .leave]
    ⟨.inl (by decide), ⟨by decide, by decide⟩, .inr (by decide), trivial, trivial, trivial⟩).2
    [.enter (.queryTimeout 0 1000), .queryBegin none] (.outbound 500000000) [.queryEnd] rfl
    (.queryEnd .nil)
  refine ⟨hin.1 (.query 1000000000 clockMax clockMax true) (by decide), hout.1.trans (by decide)⟩

/-- A query guard of a timeout inside one that is not the thread's own: the inner deadline replaces the
outer one, which is earlier. -/
theorem timeout_guard_loosens :
    let t := scopes.run ⟨{}, []⟩ [.enter (.query 1000000000 false), .enter (.queryTimeout 0 30000)]
    .query 1000000000 clockMax clockMax false ∈ t.entered ∧
      contextDeadline t.stores = 30000000000 := by
  decide

end Quackapi.Limits
