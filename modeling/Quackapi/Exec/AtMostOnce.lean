import Quackapi.Exec.CallSteps

/-! No batch is started twice and every row is answered once, in every run that cancels no task in
the middle of a row the caller still waits for. -/

namespace Quackapi.Exec
open Library

section
variable {R : Type} {cfg : ExecConfig R} {s s' : ExecState R}

/-- No task can take a row any more: each is settled and no further one is made. -/
def Drained (s : ExecState R) : Prop :=
  (s.phase ≠ .entered ∧ s.phase ≠ .reserved ∧ s.phase ≠ .scheduling) ∧
    ∀ task ∈ s.tasks, task.settled = true

/-- Where `out` are the receipts of a call that returns, a row's cell is its own receipt, or the
deadline's if it has none. A call that a policy denies has none and answers with the refusal. -/
def OwnReceipt (cfg : ExecConfig R) (out : List (Nat × R)) (i : Nat) (receipt : R) : Prop :=
  (i, receipt) ∈ out ∨ i ∉ out.map Prod.fst ∧
    (receipt = cfg.timeout ∨ cfg.policiesBound = true ∧ receipt = cfg.policyDenied)

/-- Skipped rows stay NULL, the others have a receipt, of those there were at some time. -/
def Answered (cfg : ExecConfig R) (s : ExecState R) (cells : List (Option R)) : Prop :=
  cells.length = cfg.skip.length ∧
    (∀ i : Nat, cfg.skip[i]? = some true → cells[i]? = some none) ∧
    ∃ out, out <+: s.out ∧ ∀ i : Nat, cfg.skip[i]? = some false →
      ∃ receipt, cells[i]? = some (some receipt) ∧ OwnReceipt cfg out i receipt

/-- What a call promises in each of its states. -/
structure ExecSafe (cfg : ExecConfig R) (s : ExecState R) : Prop where
  startedOnce : s.started.Nodup
  startedRows : ∀ i ∈ s.started, cfg.skip[i]? = some false
  receiptOnce : (doneRows s).Nodup
  receiptRows : ∀ i ∈ doneRows s, cfg.skip[i]? = some false
  answered : ∀ cells, s.phase = .returned cells → Answered cfg s cells
  bounded : s.execTasksRunning ≤ cfg.cap
  released : Drained s → s.execTasksRunning = s.others

/-- A task is cancelled between two rows, or when the caller has given up. -/
def CancelsNoRow (s : ExecState R) : ExecAction R → Prop
  | .cancel t => ∀ task ∈ liveTask s t false, task.operation = none ∨ s.cancelled = true
  | _ => True

theorem Live.not_all_settled {t : Nat} {stepping : Bool} {task : ExecTask}
    (hl : Live s t stepping task) : ¬∀ task ∈ s.tasks, task.settled = true := by
  intro hall
  have hsettled : task.settled = true := hall task (List.mem_of_getElem? hl.get)
  rw [hl.settled] at hsettled
  cases hsettled

/-- What the phase of the caller says about the rows. Where it has run rows without any task, they
are the ones before the row it is at. -/
def CallerRows (cfg : ExecConfig R) (s : ExecState R) : Prop :=
  match s.phase with
  | .entered | .reserved => s.cancelled = false ∧ s.started = [] ∧ s.out = []
  | .scheduling => s.cancelled = false ∧ (s.tasks = [] → s.started = [] ∧ s.out = [])
  | .waiting => s.cancelled = false
  | .rows noTask i => s.cancelled = false ∧ (∀ task ∈ s.tasks, task.settled = true) ∧
      (noTask = true → ∀ j, j ∈ s.started ∨ j ∈ doneRows s → j < i)
  | .rowRunning noTask i => s.cancelled = false ∧ (∀ task ∈ s.tasks, task.settled = true) ∧
      i ∉ doneRows s ∧ cfg.skip[i]? = some false ∧
      (noTask = true → ∀ j, j ∈ s.started ∨ j ∈ doneRows s → j ≤ i)
  | .returned cells => Answered cfg s cells
  | .ending | .threw => True

theorem Answered.mono {cells : List (Option R)} (h : Answered cfg s cells)
    (hout : s.out <+: s'.out) : Answered cfg s' cells := by
  obtain ⟨hlength, hskip, out, hprefix, hrows⟩ := h
  exact ⟨hlength, hskip, out, hprefix.trans hout, hrows⟩

theorem answered_of_cells {cells : List (Option R)} {f : Nat → Bool → Option R}
    (hlength : cells.length = cfg.skip.length)
    (hcells : ∀ i : Nat, cells[i]? = cfg.skip[i]?.map (f i)) (hskip : ∀ i, f i true = none)
    (hrow : ∀ i, ∃ receipt, f i false = some receipt ∧ OwnReceipt cfg s.out i receipt) :
    Answered cfg s cells := by
  refine ⟨hlength, fun i hi => ?_, s.out, List.prefix_rfl, fun i hi => ?_⟩
  · rw [hcells, hi, Option.map_some, hskip]
  · obtain ⟨receipt, hcell, hown⟩ := hrow i
    exact ⟨receipt, by rw [hcells, hi, Option.map_some, hcell], hown⟩

theorem mem_of_doneRow {i : Nat} {receipt : R} (h : doneRow s i = some receipt) :
    (i, receipt) ∈ s.out := by
  obtain ⟨p, hp, rfl⟩ := Option.map_eq_some_iff.mp h
  have hmem : p ∈ s.out := List.mem_of_find?_eq_some hp
  have hfound := List.find?_some hp
  have hi : p.1 = i := of_decide_eq_true hfound
  rw [← hi]
  exact hmem

theorem resultCells_answered : Answered cfg s (resultCells cfg s) := by
  refine answered_of_cells List.length_mapIdx (fun _ => List.getElem?_mapIdx) (fun _ => if_pos rfl)
    fun i => ⟨_, if_neg Bool.false_ne_true, ?_⟩
  cases hdone : doneRow s i with
  | none =>
    refine .inr ⟨fun hmem => ?_, .inl rfl⟩
    have hsome : (doneRow s i).isSome = true := doneRow_isSome.mpr hmem
    rw [hdone] at hsome
    cases hsome
  | some receipt => exact .inl (mem_of_doneRow hdone)

theorem denyAll_answered (hbound : cfg.policiesBound = true) (hout : s.out = []) :
    Answered cfg s (cfg.skip.map fun skipped => if skipped then none else some cfg.policyDenied) := by
  refine answered_of_cells (f := fun _ skipped => if skipped then none else some cfg.policyDenied)
    (List.length_map _) (fun _ => List.getElem?_map) (fun _ => if_pos rfl)
    fun i => ⟨_, if_neg Bool.false_ne_true, .inr ⟨?_, .inr ⟨hbound, rfl⟩⟩⟩
  rw [hout]
  exact List.not_mem_nil

def Holds (s : ExecState R) (t : Nat) (operation : RowOperation) : Prop :=
  ∃ task, s.tasks[t]? = some task ∧ task.operation = some operation

/-- Where a row is between its start and its receipt. -/
def Unfinished (s : ExecState R) (i : Nat) : Prop :=
  (∃ t operation, Holds s t operation ∧ operation.row = i) ∨
    (∃ noTask, s.phase = .rowRunning noTask i) ∨ s.cancelled = true

/-- A row is with the cursor, with one task or with the caller, or it is done. -/
structure RowsOnce (cfg : ExecConfig R) (s : ExecState R) : Prop where
  heldRow : ∀ t operation, Holds s t operation → cfg.skip[operation.row]? = some false
  heldBehind : ∀ t operation, Holds s t operation → operation.row < s.cursor
  heldOpen : ∀ t operation, Holds s t operation → operation.row ∉ doneRows s
  heldNew : ∀ t operation, Holds s t operation → operation.opened = false →
    operation.row ∉ s.started
  heldOnce : ∀ t u o o', Holds s t o → Holds s u o' → o.row = o'.row → t = u
  settled : ∀ task ∈ s.tasks, task.settled = true → task.operation = none ∨ s.cancelled = true
  startedOnce : s.started.Nodup
  startedRows : ∀ i ∈ s.started, cfg.skip[i]? = some false
  receiptOnce : (doneRows s).Nodup
  receiptRows : ∀ i ∈ doneRows s, cfg.skip[i]? = some false
  behind : Drained s ∨ ∀ i, i ∈ s.started ∨ i ∈ doneRows s → i < s.cursor
  unfinished : ∀ i ∈ s.started, i ∈ doneRows s ∨ Unfinished s i
  caller : CallerRows cfg s

theorem RowsOnce.frame (h : RowsOnce cfg s) (hstarted : s'.started = s.started)
    (hout : s'.out = s.out) (hcursor : s.cursor ≤ s'.cursor)
    (hheld : ∀ t o, Holds s' t o → Holds s t o)
    (hsettled : ∀ task ∈ s'.tasks, task.settled = true →
      task.operation = none ∨ s'.cancelled = true)
    (hunfinished : ∀ i, Unfinished s i → Unfinished s' i) (hdrained : Drained s → Drained s')
    (hcaller : CallerRows cfg s') : RowsOnce cfg s' := by
  have hdone : doneRows s' = doneRows s := congrArg (List.map Prod.fst) hout
  constructor
  · exact fun t o ho => h.heldRow t o (hheld t o ho)
  · exact fun t o ho => Nat.lt_of_lt_of_le (h.heldBehind t o (hheld t o ho)) hcursor
  · rw [hdone]
    exact fun t o ho => h.heldOpen t o (hheld t o ho)
  · rw [hstarted]
    exact fun t o ho => h.heldNew t o (hheld t o ho)
  · exact fun t u o o' ho ho' => h.heldOnce t u o o' (hheld t o ho) (hheld u o' ho')
  · exact hsettled
  · rw [hstarted]
    exact h.startedOnce
  · rw [hstarted]
    exact h.startedRows
  · rw [hdone]
    exact h.receiptOnce
  · rw [hdone]
    exact h.receiptRows
  · rw [hstarted, hdone]
    exact h.behind.imp hdrained fun hb i hi => Nat.lt_of_lt_of_le (hb i hi) hcursor
  · rw [hstarted, hdone]
    exact fun i hi => (h.unfinished i hi).imp_right (hunfinished i)
  · exact hcaller

theorem holds_set_cases {t u : Nat} {task : ExecTask} {o : RowOperation}
    (htasks : s'.tasks = s.tasks.set t task) (h : Holds s' u o) :
    (u = t ∧ task.operation = some o) ∨ (u ≠ t ∧ Holds s u o) := by
  obtain ⟨found, hfound, ho⟩ := h
  rw [htasks] at hfound
  rcases getElem?_set_cases hfound with ⟨rfl, rfl⟩ | ⟨hne, hold⟩
  · exact .inl ⟨rfl, ho⟩
  · exact .inr ⟨hne, found, hold, ho⟩

theorem holds_set_of_ne {t u : Nat} {task : ExecTask} {o : RowOperation}
    (htasks : s'.tasks = s.tasks.set t task) (hne : u ≠ t) (h : Holds s u o) : Holds s' u o := by
  obtain ⟨found, hfound, ho⟩ := h
  exact ⟨found, by rw [htasks, List.getElem?_set_ne hne.symm, hfound], ho⟩

theorem holds_set_self {t : Nat} {task old : ExecTask} {o : RowOperation}
    (htasks : s'.tasks = s.tasks.set t task) (hget : s.tasks[t]? = some old)
    (ho : task.operation = some o) : Holds s' t o :=
  ⟨task, by rw [htasks, List.getElem?_set_self (lt_of_getElem? hget)], ho⟩

theorem holds_set_iff {t u : Nat} {task task' : ExecTask} {o : RowOperation}
    (htasks : s'.tasks = s.tasks.set t task') (hget : s.tasks[t]? = some task)
    (hsame : task'.operation = task.operation) : Holds s' u o ↔ Holds s u o := by
  constructor
  · intro h
    rcases holds_set_cases htasks h with ⟨rfl, ho⟩ | ⟨_, hold⟩
    · exact ⟨task, hget, hsame ▸ ho⟩
    · exact hold
  · intro h
    by_cases hut : u = t
    · obtain ⟨found, hfound, ho⟩ := h
      rw [hut, hget] at hfound
      cases hfound
      rw [hut]
      exact holds_set_self htasks hget (hsame.trans ho)
    · exact holds_set_of_ne htasks hut h

theorem holds_append_iff {u : Nat} {task : ExecTask} {o : RowOperation}
    (htasks : s'.tasks = s.tasks ++ [task]) (hnone : task.operation = none) :
    Holds s' u o ↔ Holds s u o := by
  constructor
  · rintro ⟨found, hfound, ho⟩
    rw [htasks, List.getElem?_append] at hfound
    split at hfound
    · exact ⟨found, hfound, ho⟩
    · have hmem : found ∈ [task] := List.mem_of_getElem? hfound
      rw [List.mem_singleton.mp hmem, hnone] at ho
      cases ho
  · rintro ⟨found, hfound, ho⟩
    exact ⟨found, by rw [htasks, List.getElem?_append_left (lt_of_getElem? hfound), hfound], ho⟩

theorem CallerRows.task {t : Nat} {stepping : Bool} {task : ExecTask} (h : CallerRows cfg s)
    (hslots : SlotsHeld cfg s) (hl : Live s t stepping task) (hphase : s'.phase = s.phase)
    (hcancelled : s'.cancelled = s.cancelled) (htasks : s'.tasks ≠ [])
    (hout : s.out <+: s'.out) : CallerRows cfg s' := by
  have hmem : task ∈ s.tasks := List.mem_of_getElem? hl.get
  have hsome : s.tasks ≠ [] := List.ne_nil_of_mem hmem
  have hlive : ¬∀ task ∈ s.tasks, task.settled = true := hl.not_all_settled
  unfold CallerRows at h ⊢
  rw [hphase]
  cases hp : s.phase with
  | entered => exact absurd (hslots.noTasks (.inl hp)) hsome
  | reserved => exact absurd (hslots.noTasks (.inr hp)) hsome
  | scheduling =>
    rw [hp] at h
    exact ⟨hcancelled.trans h.1, fun hempty => absurd hempty htasks⟩
  | waiting =>
    rw [hp] at h
    exact hcancelled.trans h
  | rows noTask i =>
    rw [hp] at h
    exact absurd h.2.1 hlive
  | rowRunning noTask i =>
    rw [hp] at h
    exact absurd h.2.1 hlive
  | ending => trivial
  | returned cells =>
    rw [hp] at h
    exact Answered.mono h hout
  | threw => trivial

theorem RowsOnce.phase (h : RowsOnce cfg s) (hstarted : s'.started = s.started)
    (hout : s'.out = s.out) (hcursor : s'.cursor = s.cursor)
    (hheld : ∀ t o, Holds s' t o ↔ Holds s t o)
    (htasks : ∀ task ∈ s'.tasks, task ∈ s.tasks ∨ task.operation = none)
    (hcancelled : s.cancelled = true → s'.cancelled = true)
    (hrunning : ∀ noTask i, s.phase ≠ .rowRunning noTask i) (hdrained : Drained s → Drained s')
    (hcaller : CallerRows cfg s') : RowsOnce cfg s' := by
  refine h.frame hstarted hout (Nat.le_of_eq hcursor.symm) (fun t o => (hheld t o).mp) ?_ ?_
    hdrained hcaller
  · intro task hmem hsettled
    rcases htasks task hmem with hold | hnone
    · exact (h.settled task hold hsettled).imp_right hcancelled
    · exact .inl hnone
  · rintro i (⟨t, o, ho, hrow⟩ | ⟨noTask, hp⟩ | hc)
    · exact .inl ⟨t, o, (hheld t o).mpr ho, hrow⟩
    · exact absurd hp (hrunning noTask i)
    · exact .inr (.inr (hcancelled hc))

theorem RowsOnce.sameTasks {p : ExecPhase R} (h : RowsOnce cfg s) (hp : s.phase = p)
    (hrunning : ∀ noTask i, p ≠ .rowRunning noTask i)
    (hdrained : (p ≠ .entered ∧ p ≠ .reserved ∧ p ≠ .scheduling) →
      s'.phase ≠ .entered ∧ s'.phase ≠ .reserved ∧ s'.phase ≠ .scheduling)
    (hstarted : s'.started = s.started) (hout : s'.out = s.out) (hcursor : s'.cursor = s.cursor)
    (htasks : s'.tasks = s.tasks) (hcancelled : s.cancelled = true → s'.cancelled = true)
    (hcaller : CallerRows cfg s') : RowsOnce cfg s' := by
  subst hp
  refine h.phase hstarted hout hcursor ?_ ?_ hcancelled hrunning ?_ hcaller
  · intro t o
    rw [Holds, Holds, htasks]
  · rw [htasks]
    exact fun task => .inl
  · rintro ⟨hp, hall⟩
    refine ⟨hdrained hp, ?_⟩
    rw [htasks]
    exact hall

theorem CallerRows.entered (h : CallerRows cfg s) (hp : s.phase = .entered ∨ s.phase = .reserved) :
    s.cancelled = false ∧ s.started = [] ∧ s.out = [] := by
  rcases hp with hp | hp
  · rw [CallerRows, hp] at h
    exact h
  · rw [CallerRows, hp] at h
    exact h

theorem CallerRows.scheduling (h : CallerRows cfg s) (hp : s.phase = .scheduling) :
    s.cancelled = false ∧ (s.tasks = [] → s.started = [] ∧ s.out = []) := by
  rw [CallerRows, hp] at h
  exact h

theorem CallerRows.waiting (h : CallerRows cfg s) (hp : s.phase = .waiting) :
    s.cancelled = false := by
  rw [CallerRows, hp] at h
  exact h

theorem CallerRows.rows {noTask : Bool} {i : Nat} (h : CallerRows cfg s)
    (hp : s.phase = .rows noTask i) :
    s.cancelled = false ∧ (∀ task ∈ s.tasks, task.settled = true) ∧
      (noTask = true → ∀ j, j ∈ s.started ∨ j ∈ doneRows s → j < i) := by
  rw [CallerRows, hp] at h
  exact h

theorem CallerRows.rowRunning {noTask : Bool} {i : Nat} (h : CallerRows cfg s)
    (hp : s.phase = .rowRunning noTask i) :
    s.cancelled = false ∧ (∀ task ∈ s.tasks, task.settled = true) ∧
      i ∉ doneRows s ∧ cfg.skip[i]? = some false ∧
      (noTask = true → ∀ j, j ∈ s.started ∨ j ∈ doneRows s → j ≤ i) := by
  rw [CallerRows, hp] at h
  exact h

theorem callerRows_inLine (hp : s'.phase = .rows true 0) (hc : s'.cancelled = false)
    (htasks : s'.tasks = []) (hstarted : s'.started = []) (hout : s'.out = []) :
    CallerRows cfg s' := by
  rw [CallerRows, hp]
  refine ⟨hc, ?_, fun _ j hj => ?_⟩
  · rw [htasks]
    exact fun _ hmem => absurd hmem List.not_mem_nil
  · rw [hstarted, doneRows, hout] at hj
    rcases hj with hj | hj
    · cases hj
    · cases hj

theorem SlotsHeld.all_settled (h : SlotsHeld cfg s) (hdone : s.tasks.length ≤ s.tasksDone) :
    ∀ task ∈ s.tasks, task.settled = true := by
  have hcount : s.tasks.countP ExecTask.settled = s.tasks.length := by
    refine Nat.le_antisymm List.countP_le_length ?_
    rw [h.tasksDone] at hdone
    exact hdone
  exact List.countP_eq_length.mp hcount

theorem RowsOnce.not_holds (h : RowsOnce cfg s) (hc : s.cancelled = false)
    (hall : ∀ task ∈ s.tasks, task.settled = true) (t : Nat) (o : RowOperation) :
    ¬Holds s t o := by
  rintro ⟨task, hget, ho⟩
  have hmem : task ∈ s.tasks := List.mem_of_getElem? hget
  rcases h.settled task hmem (hall task hmem) with hempty | hcancelled
  · rw [hempty] at ho
    cases ho
  · rw [hc] at hcancelled
    cases hcancelled

theorem RowsOnce.rowStarts {noTask : Bool} {i : Nat} (h : RowsOnce cfg s)
    (hp : s.phase = .rows noTask i) (hi : cfg.skip[i]? = some false)
    (hnew : noTask = false → i ∉ doneRows s) :
    RowsOnce cfg { s with phase := .rowRunning noTask i, started := s.started ++ [i] } := by
  obtain ⟨hc, hall, hbefore⟩ := h.caller.rows hp
  have hlate : s.phase ≠ .entered ∧ s.phase ≠ .reserved ∧ s.phase ≠ .scheduling := by
    rw [hp]
    exact ⟨nofun, nofun, nofun⟩
  have hnone : ∀ t o, ¬Holds s t o := h.not_holds hc hall
  have hdone : i ∉ doneRows s := by
    cases noTask with
    | false => exact hnew rfl
    | true => exact fun hmem => Nat.lt_irrefl i (hbefore rfl i (.inr hmem))
  have hstarted : i ∉ s.started := by
    intro hmem
    rcases h.unfinished i hmem with hmem' | ⟨t, o, ho, _⟩ | ⟨noTask', hp'⟩ | hcancelled
    · exact hdone hmem'
    · exact hnone t o ho
    · rw [hp] at hp'
      cases hp'
    · rw [hc] at hcancelled
      cases hcancelled
  constructor
  · exact h.heldRow
  · exact h.heldBehind
  · exact h.heldOpen
  · exact fun t o ho => absurd ho (hnone t o)
  · exact h.heldOnce
  · exact h.settled
  · exact nodup_append_singleton h.startedOnce hstarted
  · exact forall_mem_append_singleton h.startedRows hi
  · exact h.receiptOnce
  · exact h.receiptRows
  · exact .inl ⟨⟨nofun, nofun, nofun⟩, hall⟩
  · refine forall_mem_append_singleton (fun j hj => ?_) (.inr (.inr (.inl ⟨noTask, rfl⟩)))
    rcases h.unfinished j hj with hdone | hheld | ⟨noTask', hp'⟩ | hcancelled
    · exact .inl hdone
    · exact .inr (.inl hheld)
    · rw [hp] at hp'
      cases hp'
    · exact .inr (.inr (.inr hcancelled))
  · refine ⟨hc, hall, hdone, hi, fun hn j hj => ?_⟩
    rcases hj with hmem | hmem
    · rcases List.mem_append.mp hmem with hold | hself
      · exact Nat.le_of_lt (hbefore hn j (.inl hold))
      · exact Nat.le_of_eq (List.mem_singleton.mp hself)
    · exact Nat.le_of_lt (hbefore hn j (.inr hmem))

theorem doneRows_append {i : Nat} {receipt : R} (hout : s'.out = s.out ++ [(i, receipt)]) :
    doneRows s' = doneRows s ++ [i] := by
  rw [doneRows, hout, List.map_append]
  rfl

theorem RowsOnce.rowEnds {noTask : Bool} {i : Nat} (h : RowsOnce cfg s)
    (hp : s.phase = .rowRunning noTask i) (receipt : R) :
    RowsOnce cfg { s with phase := .rows noTask (i + 1), out := s.out ++ [(i, receipt)] } := by
  obtain ⟨hc, hall, hopen, hi, hbefore⟩ := h.caller.rowRunning hp
  have hdone : doneRows { s with
      phase := .rows noTask (i + 1), out := s.out ++ [(i, receipt)] } = doneRows s ++ [i] :=
    doneRows_append rfl
  have hnone : ∀ t o, ¬Holds s t o := h.not_holds hc hall
  constructor
  · exact h.heldRow
  · exact h.heldBehind
  · exact fun t o ho => absurd ho (hnone t o)
  · exact h.heldNew
  · exact h.heldOnce
  · exact h.settled
  · exact h.startedOnce
  · exact h.startedRows
  · rw [hdone]
    exact nodup_append_singleton h.receiptOnce hopen
  · rw [hdone]
    exact forall_mem_append_singleton h.receiptRows hi
  · exact .inl ⟨⟨nofun, nofun, nofun⟩, hall⟩
  · rw [hdone]
    intro j hj
    rcases h.unfinished j hj with hold | ⟨t, o, ho, _⟩ | ⟨noTask', hp'⟩ | hcancelled
    · exact .inl (List.mem_append_left _ hold)
    · exact absurd ho (hnone t o)
    · rw [hp] at hp'
      cases hp'
      exact .inl (List.mem_append_right _ (List.mem_singleton_self i))
    · exact .inr (.inr (.inr hcancelled))
  · rw [CallerRows]
    refine ⟨hc, hall, fun hn j hj => Nat.lt_succ_of_le ?_⟩
    rw [hdone, List.mem_append, List.mem_singleton] at hj
    rcases hj with hmem | hmem | hself
    · exact hbefore hn j (.inl hmem)
    · exact hbefore hn j (.inr hmem)
    · exact Nat.le_of_eq hself

theorem RowsOnce.behind_of_live {t : Nat} {stepping : Bool} {task : ExecTask}
    (h : RowsOnce cfg s) (hl : Live s t stepping task) :
    ∀ i, i ∈ s.started ∨ i ∈ doneRows s → i < s.cursor :=
  h.behind.resolve_left fun hd => hl.not_all_settled hd.2

theorem Unfinished.mono (hheld : ∀ t o, Holds s t o → Holds s' t o) (hphase : s'.phase = s.phase)
    (hcancelled : s'.cancelled = s.cancelled) {i : Nat} (h : Unfinished s i) : Unfinished s' i := by
  rcases h with ⟨t, o, ho, hrow⟩ | hrunning | hc
  · exact .inl ⟨t, o, hheld t o ho, hrow⟩
  · exact .inr (.inl (hphase ▸ hrunning))
  · exact .inr (.inr (hcancelled.trans hc))

/-- A task's step in which it keeps the row it has, or drops it for a call that was given up. -/
theorem RowsOnce.keeps {t : Nat} {stepping : Bool} {task task' : ExecTask} (h : RowsOnce cfg s)
    (hslots : SlotsHeld cfg s) (hl : Live s t stepping task)
    (htasks : s'.tasks = s.tasks.set t task')
    (hsame : task'.operation = task.operation ∨ task'.operation = none ∧ s.cancelled = true)
    (hsettled : task'.settled = true → task'.operation = none ∨ s.cancelled = true)
    (hphase : s'.phase = s.phase) (hcancelled : s'.cancelled = s.cancelled)
    (hstarted : s'.started = s.started) (hout : s'.out = s.out)
    (hcursor : s.cursor ≤ s'.cursor) : RowsOnce cfg s' := by
  refine h.frame hstarted hout hcursor ?_ ?_ ?_ (fun hd => absurd hd.2 hl.not_all_settled) ?_
  · intro u o ho
    rcases hsame with hkeep | ⟨hnone, _⟩
    · exact (holds_set_iff htasks hl.get hkeep).mp ho
    · rcases holds_set_cases htasks ho with ⟨_, hnew⟩ | ⟨_, hold⟩
      · rw [hnone] at hnew
        cases hnew
      · exact hold
  · rw [htasks, hcancelled]
    exact forall_mem_set h.settled hsettled
  · intro i hi
    rcases hsame with hkeep | ⟨_, hc⟩
    · exact hi.mono (fun u o => (holds_set_iff htasks hl.get hkeep).mpr) hphase hcancelled
    · exact .inr (.inr (hcancelled.trans hc))
  · refine h.caller.task hslots hl hphase hcancelled ?_ (hout ▸ List.prefix_rfl)
    rw [htasks]
    exact List.ne_nil_of_mem (mem_set_self hl.get)

theorem Live.operation {t : Nat} {stepping : Bool} {task : ExecTask} {o : RowOperation}
    (hl : Live s t stepping task) (h : Holds s t o) : task.operation = some o := by
  obtain ⟨found, hfound, ho⟩ := h
  rw [hl.get] at hfound
  cases hfound
  exact ho

theorem holds_of_idle {t : Nat} {stepping : Bool} {task task' : ExecTask}
    (htasks : s'.tasks = s.tasks.set t task') (hl : Live s t stepping task)
    (hop : task.operation = none) (u : Nat) (o : RowOperation) (h : Holds s u o) : Holds s' u o := by
  refine holds_set_of_ne htasks (fun hut => ?_) h
  have hsome := hl.operation (hut ▸ h)
  rw [hop] at hsome
  cases hsome

theorem RowsOnce.claims {t : Nat} {task : ExecTask} (h : RowsOnce cfg s)
    (hslots : SlotsHeld cfg s) (hl : Live s t true task) (hop : task.operation = none)
    (hi : cfg.skip[s.cursor]? = some false)
    (htasks : s'.tasks = s.tasks.set t { task with operation := some ⟨s.cursor, false⟩ })
    (hcursor : s'.cursor = s.cursor + 1) (hphase : s'.phase = s.phase)
    (hcancelled : s'.cancelled = s.cancelled) (hstarted : s'.started = s.started)
    (hout : s'.out = s.out) : RowsOnce cfg s' := by
  have hbehind := h.behind_of_live hl
  have hdone : doneRows s' = doneRows s := congrArg (List.map Prod.fst) hout
  have hfresh : ∀ u o, Holds s' u o → (u = t ∧ o.row = s.cursor) ∨ Holds s u o := by
    intro u o ho
    rcases holds_set_cases htasks ho with ⟨hut, hnew⟩ | ⟨_, hold⟩
    · cases hnew
      exact .inl ⟨hut, rfl⟩
    · exact .inr hold
  constructor
  · intro u o ho
    rcases hfresh u o ho with ⟨_, hrow⟩ | hold
    · rw [hrow]
      exact hi
    · exact h.heldRow u o hold
  · intro u o ho
    rw [hcursor]
    rcases hfresh u o ho with ⟨_, hrow⟩ | hold
    · exact Nat.lt_succ_of_le (Nat.le_of_eq hrow)
    · exact Nat.lt_succ_of_lt (h.heldBehind u o hold)
  · intro u o ho
    rw [hdone]
    rcases hfresh u o ho with ⟨_, hrow⟩ | hold
    · rw [hrow]
      exact fun hmem => Nat.lt_irrefl _ (hbehind _ (.inr hmem))
    · exact h.heldOpen u o hold
  · intro u o ho hclosed
    rw [hstarted]
    rcases hfresh u o ho with ⟨_, hrow⟩ | hold
    · rw [hrow]
      exact fun hmem => Nat.lt_irrefl _ (hbehind _ (.inl hmem))
    · exact h.heldNew u o hold hclosed
  · intro u v o p ho hp hrow
    rcases hfresh u o ho with ⟨hut, hnew⟩ | hold
    · rcases hfresh v p hp with ⟨hvt, _⟩ | hold'
      · exact hut.trans hvt.symm
      · have hlt := h.heldBehind v p hold'
        rw [← hrow, hnew] at hlt
        exact absurd hlt (Nat.lt_irrefl _)
    · rcases hfresh v p hp with ⟨_, hnew⟩ | hold'
      · have hlt := h.heldBehind u o hold
        rw [hrow, hnew] at hlt
        exact absurd hlt (Nat.lt_irrefl _)
      · exact h.heldOnce u v o p hold hold' hrow
  · rw [htasks, hcancelled]
    refine forall_mem_set h.settled fun hsettled => ?_
    rw [hl.settled] at hsettled
    cases hsettled
  · rw [hstarted]
    exact h.startedOnce
  · rw [hstarted]
    exact h.startedRows
  · rw [hdone]
    exact h.receiptOnce
  · rw [hdone]
    exact h.receiptRows
  · rw [hstarted, hdone, hcursor]
    exact .inr fun i hi => Nat.lt_succ_of_lt (hbehind i hi)
  · rw [hstarted, hdone]
    exact fun i hmem => (h.unfinished i hmem).imp_right
      (Unfinished.mono (holds_of_idle htasks hl hop) hphase hcancelled)
  · refine h.caller.task hslots hl hphase hcancelled ?_ (hout ▸ List.prefix_rfl)
    rw [htasks]
    exact List.ne_nil_of_mem (mem_set_self hl.get)

/-- A step starts the batch of `row`, or none. -/
def Starts (s s' : ExecState R) (row : Nat) : Prop :=
  s'.started = s.started ∨ s'.started = s.started ++ [row] ∧ row ∉ s.started

theorem Starts.nodup {row : Nat} (h : Starts s s' row) (hs : s.started.Nodup) :
    s'.started.Nodup := by
  rcases h with hsame | ⟨hnew, hrow⟩
  · rw [hsame]
    exact hs
  · rw [hnew]
    exact nodup_append_singleton hs hrow

theorem Starts.mem {row i : Nat} (h : Starts s s' row) (hi : i ∈ s'.started) :
    i ∈ s.started ∨ i = row := by
  rcases h with hsame | ⟨hnew, _⟩
  · rw [hsame] at hi
    exact .inl hi
  · rw [hnew, List.mem_append, List.mem_singleton] at hi
    exact hi

theorem Starts.forall {P : Nat → Prop} {row : Nat} (h : Starts s s' row) (hs : ∀ i ∈ s.started, P i)
    (hrow : P row) : ∀ i ∈ s'.started, P i := by
  intro i hi
  rcases h.mem hi with hold | rfl
  · exact hs i hold
  · exact hrow

theorem RowsOnce.starts {t : Nat} {o : RowOperation} (h : RowsOnce cfg s) (ho : Holds s t o)
    (hstarted : s'.started = if o.opened then s.started else s.started ++ [o.row]) :
    Starts s s' o.row := by
  cases hopened : o.opened with
  | true =>
    rw [hopened, if_pos rfl] at hstarted
    exact .inl hstarted
  | false =>
    rw [hopened, if_neg Bool.false_ne_true] at hstarted
    exact .inr ⟨hstarted, h.heldNew t o ho hopened⟩

theorem RowsOnce.others {t i : Nat} {task task' : ExecTask} {o : RowOperation}
    (h : RowsOnce cfg s) (hl : Live s t true task) (hop : task.operation = some o)
    (htasks : s'.tasks = s.tasks.set t task') (hphase : s'.phase = s.phase)
    (hcancelled : s'.cancelled = s.cancelled) (hi : i ∈ s.started) :
    i ∈ doneRows s ∨ i = o.row ∨ Unfinished s' i := by
  rcases h.unfinished i hi with hdone | ⟨u, p, hp, hrow⟩ | hrunning | hc
  · exact .inl hdone
  · by_cases hut : u = t
    · have hsome := hl.operation (hut ▸ hp)
      rw [hop] at hsome
      cases hsome
      exact .inr (.inl hrow.symm)
    · exact .inr (.inr (.inl ⟨u, p, holds_set_of_ne htasks hut hp, hrow⟩))
  · exact .inr (.inr (.inr (.inl (hphase ▸ hrunning))))
  · exact .inr (.inr (.inr (.inr (hcancelled.trans hc))))

theorem RowsOnce.ends {t : Nat} {task : ExecTask} {o : RowOperation} {receipt : R}
    (h : RowsOnce cfg s) (hslots : SlotsHeld cfg s) (hl : Live s t true task)
    (hop : task.operation = some o) (htasks : s'.tasks = s.tasks.set t ⟨false, none, false⟩)
    (hstarts : Starts s s' o.row) (hout : s'.out = s.out ++ [(o.row, receipt)])
    (hphase : s'.phase = s.phase) (hcancelled : s'.cancelled = s.cancelled)
    (hcursor : s'.cursor = s.cursor) : RowsOnce cfg s' := by
  have hself : Holds s t o := ⟨task, hl.get, hop⟩
  have hdone : doneRows s' = doneRows s ++ [o.row] := doneRows_append hout
  have hbehind := h.behind_of_live hl
  have hstarted : ∀ i ∈ s'.started, i < s.cursor :=
    hstarts.forall (fun i hi => hbehind i (.inl hi)) (h.heldBehind t o hself)
  have hold : ∀ u p, Holds s' u p → u ≠ t ∧ Holds s u p := by
    intro u p hp
    rcases holds_set_cases htasks hp with ⟨_, hnew⟩ | hold
    · cases hnew
    · exact hold
  have hother : ∀ u p, Holds s' u p → p.row ≠ o.row := by
    intro u p hp hrow
    exact (hold u p hp).1 (h.heldOnce u t p o (hold u p hp).2 hself hrow)
  constructor
  · exact fun u p hp => h.heldRow u p (hold u p hp).2
  · rw [hcursor]
    exact fun u p hp => h.heldBehind u p (hold u p hp).2
  · intro u p hp
    rw [hdone, List.mem_append, List.mem_singleton, not_or]
    exact ⟨h.heldOpen u p (hold u p hp).2, hother u p hp⟩
  · intro u p hp hclosed hmem
    exact (hstarts.mem hmem).elim (h.heldNew u p (hold u p hp).2 hclosed) (hother u p hp)
  · exact fun u v p q hp hq => h.heldOnce u v p q (hold u p hp).2 (hold v q hq).2
  · rw [htasks, hcancelled]
    exact forall_mem_set h.settled nofun
  · exact hstarts.nodup h.startedOnce
  · exact hstarts.forall h.startedRows (h.heldRow t o hself)
  · rw [hdone]
    exact nodup_append_singleton h.receiptOnce (h.heldOpen t o hself)
  · rw [hdone]
    exact forall_mem_append_singleton h.receiptRows (h.heldRow t o hself)
  · refine .inr fun i hi => ?_
    rw [hcursor]
    rw [hdone, List.mem_append, List.mem_singleton] at hi
    rcases hi with hi | hi | rfl
    · exact hstarted i hi
    · exact hbehind i (.inr hi)
    · exact h.heldBehind t o hself
  · intro i hi
    rw [hdone, List.mem_append, List.mem_singleton]
    rcases hstarts.mem hi with hstarted | hrow
    · rcases h.others hl hop htasks hphase hcancelled hstarted with hmem | hrow | hun
      · exact .inl (.inl hmem)
      · exact .inl (.inr hrow)
      · exact .inr hun
    · exact .inl (.inr hrow)
  · refine h.caller.task hslots hl hphase hcancelled ?_ ?_
    · rw [htasks]
      exact List.ne_nil_of_mem (mem_set_self hl.get)
    · rw [hout]
      exact List.prefix_append _ _

theorem RowsOnce.suspends {t : Nat} {task : ExecTask} {o : RowOperation}
    (h : RowsOnce cfg s) (hslots : SlotsHeld cfg s) (hl : Live s t true task)
    (hop : task.operation = some o)
    (htasks : s'.tasks = s.tasks.set t ⟨false, some ⟨o.row, true⟩, false⟩)
    (hstarts : Starts s s' o.row) (hout : s'.out = s.out) (hphase : s'.phase = s.phase)
    (hcancelled : s'.cancelled = s.cancelled) (hcursor : s'.cursor = s.cursor) :
    RowsOnce cfg s' := by
  have hself : Holds s t o := ⟨task, hl.get, hop⟩
  have hdone : doneRows s' = doneRows s := congrArg (List.map Prod.fst) hout
  have hbehind := h.behind_of_live hl
  have hstarted : ∀ i ∈ s'.started, i < s.cursor :=
    hstarts.forall (fun i hi => hbehind i (.inl hi)) (h.heldBehind t o hself)
  have hold : ∀ u p, Holds s' u p → ∃ q, Holds s u q ∧ q.row = p.row := by
    intro u p hp
    rcases holds_set_cases htasks hp with ⟨rfl, hnew⟩ | ⟨_, hold⟩
    · cases hnew
      exact ⟨o, hself, rfl⟩
    · exact ⟨p, hold, rfl⟩
  constructor
  · intro u p hp
    obtain ⟨q, hq, hrow⟩ := hold u p hp
    rw [← hrow]
    exact h.heldRow u q hq
  · intro u p hp
    obtain ⟨q, hq, hrow⟩ := hold u p hp
    rw [hcursor, ← hrow]
    exact h.heldBehind u q hq
  · intro u p hp
    obtain ⟨q, hq, hrow⟩ := hold u p hp
    rw [hdone, ← hrow]
    exact h.heldOpen u q hq
  · intro u p hp hclosed hmem
    rcases holds_set_cases htasks hp with ⟨_, hnew⟩ | ⟨hne, hold⟩
    · cases hnew
      cases hclosed
    · rcases hstarts.mem hmem with hstarted | hrow
      · exact h.heldNew u p hold hclosed hstarted
      · exact hne (h.heldOnce u t p o hold hself hrow)
  · intro u v p q hp hq hrow
    obtain ⟨p', hp', hrow'⟩ := hold u p hp
    obtain ⟨q', hq', hrow''⟩ := hold v q hq
    exact h.heldOnce u v p' q' hp' hq' (hrow'.trans (hrow.trans hrow''.symm))
  · rw [htasks, hcancelled]
    exact forall_mem_set h.settled nofun
  · exact hstarts.nodup h.startedOnce
  · exact hstarts.forall h.startedRows (h.heldRow t o hself)
  · rw [hdone]
    exact h.receiptOnce
  · rw [hdone]
    exact h.receiptRows
  · refine .inr fun i hi => ?_
    rw [hcursor]
    rw [hdone] at hi
    rcases hi with hi | hi
    · exact hstarted i hi
    · exact hbehind i (.inr hi)
  · intro i hi
    rw [hdone]
    have hnew : Holds s' t ⟨o.row, true⟩ := holds_set_self htasks hl.get rfl
    rcases hstarts.mem hi with hstarted | hrow
    · rcases h.others hl hop htasks hphase hcancelled hstarted with hmem | hrow | hun
      · exact .inl hmem
      · exact .inr (.inl ⟨t, _, hnew, hrow.symm⟩)
      · exact .inr hun
    · exact .inr (.inl ⟨t, _, hnew, hrow.symm⟩)
  · refine h.caller.task hslots hl hphase hcancelled ?_ (hout ▸ List.prefix_rfl)
    rw [htasks]
    exact List.ne_nil_of_mem (mem_set_self hl.get)

theorem RowsOnce.appends {task : ExecTask} (h : RowsOnce cfg s) (hp : s.phase = .scheduling)
    (htasks : s'.tasks = s.tasks ++ [task]) (hnone : task.operation = none)
    (hlate : s'.phase = .scheduling ∨ s'.phase = .waiting) (hstarted : s'.started = s.started)
    (hout : s'.out = s.out) (hcursor : s'.cursor = s.cursor)
    (hcancelled : s'.cancelled = s.cancelled) : RowsOnce cfg s' := by
  have hc : s'.cancelled = false := hcancelled.trans (h.caller.scheduling hp).1
  refine h.phase hstarted hout hcursor (fun t o => holds_append_iff htasks hnone) ?_
    hcancelled.trans ?_ (absurd hp ·.1.2.2) ?_
  · rw [htasks]
    exact forall_mem_append_singleton (fun x => .inl) (.inr hnone)
  · rw [hp]
    exact nofun
  · rcases hlate with hp' | hp'
    · have hsome : s.tasks ++ [task] ≠ [] :=
        List.append_ne_nil_of_right_ne_nil _ (List.cons_ne_nil _ _)
      rw [CallerRows, hp', htasks]
      exact ⟨hc, fun hempty => absurd hempty hsome⟩
    · rw [CallerRows, hp']
      exact hc

theorem rows_step {a : ExecAction R} (h : RowsOnce cfg s) (hslots : SlotsHeld cfg s)
    (hnoRow : CancelsNoRow s a) (hstep : Steps cfg s a s') : RowsOnce cfg s' := by
  cases hstep with
  | deny hp hbound =>
    exact h.sameTasks hp nofun (absurd rfl ·.1) rfl rfl rfl rfl id
      (denyAll_answered hbound (h.caller.entered (.inl hp)).2.2)
  | inLine hp =>
    obtain ⟨hc, hstarted, hout⟩ := h.caller.entered (.inl hp)
    have hempty : s.tasks = [] := hslots.noTasks (.inl hp)
    exact h.sameTasks hp nofun (absurd rfl ·.1) rfl rfl rfl rfl id
      (callerRows_inLine rfl hc hempty hstarted hout)
  | reserve hp _ _ =>
    exact h.sameTasks hp nofun (absurd rfl ·.1) rfl rfl rfl rfl id (h.caller.entered (.inl hp))
  | executor hp =>
    obtain ⟨hc, hempty⟩ := h.caller.entered (.inr hp)
    exact h.sameTasks hp nofun (absurd rfl ·.2.1) rfl rfl rfl rfl id ⟨hc, fun _ => hempty⟩
  | executorFails hp =>
    exact h.sameTasks hp nofun (absurd rfl ·.2.1) rfl rfl rfl rfl id trivial
  | schedule hp =>
    refine h.appends hp rfl rfl ?_ rfl rfl rfl rfl
    by_cases hmore : s.tasks.length + 1 < s.reserved
    · exact .inl (if_pos hmore)
    · exact .inr (if_neg hmore)
  | taskFails hp =>
    obtain ⟨hc, hunstarted⟩ := h.caller.scheduling hp
    refine h.sameTasks hp nofun (absurd rfl ·.2.2) rfl rfl rfl rfl id ?_
    by_cases hempty : s.tasks.isEmpty
    · obtain ⟨hstarted, hout⟩ := hunstarted (List.isEmpty_iff.mp hempty)
      exact callerRows_inLine (if_pos hempty) hc (List.isEmpty_iff.mp hempty) hstarted hout
    · have hp' : (taskFails s).phase = .waiting := if_neg hempty
      rw [CallerRows, hp']
      exact hc
  | scheduleFails hp => exact h.appends hp rfl rfl (.inr rfl) rfl rfl rfl rfl
  | interrupted hp =>
    rcases hp with hp | ⟨i, hp⟩
    · exact h.sameTasks hp nofun (fun _ => ⟨nofun, nofun, nofun⟩) rfl rfl rfl rfl id trivial
    · exact h.sameTasks hp nofun (fun _ => ⟨nofun, nofun, nofun⟩) rfl rfl rfl rfl id trivial
  | abandoned hp =>
    exact h.sameTasks hp nofun (fun _ => ⟨nofun, nofun, nofun⟩) rfl rfl rfl rfl (fun _ => rfl)
      trivial
  | deadline hp =>
    exact h.sameTasks hp nofun (fun _ => ⟨nofun, nofun, nofun⟩) rfl rfl rfl rfl (fun _ => rfl)
      trivial
  | woken hp hdone =>
    exact h.sameTasks hp nofun (fun _ => ⟨nofun, nofun, nofun⟩) rfl rfl rfl rfl id
      ⟨h.caller.waiting hp, hslots.all_settled hdone, nofun⟩
  | rowsEnd hp _ =>
    exact h.sameTasks hp nofun (fun _ => ⟨nofun, nofun, nofun⟩) rfl rfl rfl rfl id trivial
  | rowPassed hp =>
    obtain ⟨hc, hall, hbefore⟩ := h.caller.rows hp
    exact h.sameTasks hp nofun (fun _ => ⟨nofun, nofun, nofun⟩) rfl rfl rfl rfl id
      ⟨hc, hall, fun hn j hj => Nat.lt_succ_of_lt (hbefore hn j hj)⟩
  | rowStarts hp hi hnew => exact h.rowStarts hp hi hnew
  | rowEnds hp receipt => exact h.rowEnds hp receipt
  | finish hp =>
    exact h.sameTasks hp nofun (fun _ => ⟨nofun, nofun, nofun⟩) rfl rfl rfl rfl id
      resultCells_answered
  | dropped hl hc =>
    exact h.keeps hslots hl rfl (.inr ⟨rfl, hc⟩) (fun _ => .inl rfl) rfl rfl rfl rfl (Nat.le_refl _)
  | entered hl =>
    refine h.keeps hslots hl rfl (.inl rfl) (fun hsettled => ?_) rfl rfl rfl rfl (Nat.le_refl _)
    rw [hl.settled] at hsettled
    cases hsettled
  | exhausted hl hop =>
    exact h.keeps hslots hl rfl (.inl rfl) (fun _ => .inl hop) rfl rfl rfl rfl (Nat.le_succ _)
  | passed _ =>
    exact h.frame rfl rfl (Nat.le_succ _) (fun _ _ => id) h.settled (fun _ => id) id h.caller
  | claimed hl hop hi => exact h.claims hslots hl hop hi rfl rfl rfl rfl rfl rfl
  | operated hl hop o =>
    have hself : Holds s _ _ := ⟨_, hl.get, hop⟩
    cases o with
    | stopped => exact h.ends hslots hl hop rfl (.inl rfl) rfl rfl rfl rfl
    | suspended => exact h.suspends hslots hl hop rfl (h.starts hself rfl) rfl rfl rfl rfl
    | finished receipt => exact h.ends hslots hl hop rfl (h.starts hself rfl) rfl rfl rfl rfl
  | cancel hl =>
    have hidle := hnoRow _ (liveTask_eq_some_iff.mpr hl)
    exact h.keeps hslots hl rfl (.inl rfl) (fun _ => hidle) rfl rfl rfl rfl (Nat.le_refl _)
  | others _ =>
    exact h.frame rfl rfl (Nat.le_refl _) (fun _ _ => id) h.settled (fun _ => id) id h.caller

theorem newCall_rows {running : Int} : RowsOnce cfg (newCall running) where
  heldRow := fun _ _ ⟨_, hget, _⟩ => nomatch hget
  heldBehind := fun _ _ ⟨_, hget, _⟩ => nomatch hget
  heldOpen := fun _ _ ⟨_, hget, _⟩ => nomatch hget
  heldNew := fun _ _ ⟨_, hget, _⟩ => nomatch hget
  heldOnce := fun _ _ _ _ ⟨_, hget, _⟩ => nomatch hget
  settled := nofun
  startedOnce := List.nodup_nil
  startedRows := nofun
  receiptOnce := List.nodup_nil
  receiptRows := nofun
  behind := .inr fun _ hi => hi.elim nofun nofun
  unfinished := nofun
  caller := ⟨rfl, rfl, rfl⟩

theorem SlotsHeld.released (h : SlotsHeld cfg s) (hd : Drained s) :
    s.execTasksRunning = s.others := by
  have hlive : liveTasks s = 0 := by
    refine List.countP_eq_zero.mpr fun task hmem => ?_
    rw [hd.2 task hmem]
    exact Bool.false_ne_true
  rw [h.held, hlive, idleSlots_of_phase hd.1.2.1 hd.1.2.2, Int.natCast_zero, Int.add_zero,
    Int.add_zero]

theorem RowsOnce.safe (h : RowsOnce cfg s) (hslots : SlotsHeld cfg s) : ExecSafe cfg s where
  startedOnce := h.startedOnce
  startedRows := h.startedRows
  receiptOnce := h.receiptOnce
  receiptRows := h.receiptRows
  answered := by
    intro cells hp
    have hcaller := h.caller
    rw [CallerRows, hp] at hcaller
    exact hcaller
  bounded := hslots.bounded
  released := hslots.released

theorem slots_run {running : Int} (h : running ≤ cfg.cap) (as : List (ExecAction R)) :
    SlotsHeld cfg ((execMachine cfg).run (newCall running) as) :=
  (execMachine cfg).run_invariant (fun _ _ hs => execMachine_step hs fun _ => slots_step hs)
    (newCall_slots h) as

/-- A run that cancels no row keeps every promise of the call, in each of its states. -/
theorem exec_safe_of_cancelsNoRow {running : Int} (h : running ≤ cfg.cap)
    {as : List (ExecAction R)}
    (hnoRow : (execMachine cfg).Along CancelsNoRow (newCall running) as) :
    ExecSafe cfg ((execMachine cfg).run (newCall running) as) := by
  have hrun : SlotsHeld cfg ((execMachine cfg).run (newCall running) as) ∧
      RowsOnce cfg ((execMachine cfg).run (newCall running) as) := by
    refine (execMachine cfg).run_invariant_along
      (P := fun s => SlotsHeld cfg s ∧ RowsOnce cfg s) (fun s a hs hc => ?_)
      ⟨newCall_slots h, newCall_rows⟩ hnoRow
    exact execMachine_step (P := fun s => SlotsHeld cfg s ∧ RowsOnce cfg s) hs fun s' hstep =>
      ⟨slots_step hs.1 hstep, rows_step hs.2 hs.1 hc hstep⟩
  exact hrun.2.safe hrun.1

end

/-- One row, which a second thread may run; its receipts are numbers. -/
def oneRow : ExecConfig Nat where
  skip := [false]
  cap := 1
  policiesBound := false
  inNativeExecTask := false
  numberOfThreads := 2
  policyDenied := 403
  timeout := 504

/-- A task runs the row in two steps and is cancelled before it finds that none is left. -/
theorem exec_safe_oneRow :
    ExecSafe oneRow ((execMachine oneRow).run (newCall 0)
      [.reserve, .executor, .schedule, .enter 0, .claim 0, .operate 0 .suspended, .enter 0,
        .operate 0 (.finished 200), .cancel 0, .woken, .row, .row, .finish]) ∧
      ((execMachine oneRow).run (newCall 0)
        [.reserve, .executor, .schedule, .enter 0, .claim 0, .operate 0 .suspended, .enter 0,
          .operate 0 (.finished 200), .cancel 0, .woken, .row, .row, .finish]).phase =
        .returned [some 200] :=
  ⟨exec_safe_of_cancelsNoRow (by decide) ⟨trivial, trivial, trivial, trivial, trivial, trivial,
    trivial, trivial, by unfold CancelsNoRow; decide, trivial, trivial, trivial, trivial, trivial⟩,
    by decide⟩

/-- The task is cancelled between the two steps of the row: it counts as done, the row does not, and
the caller starts it again. -/
theorem cancelled_row_starts_twice :
    ((execMachine oneRow).run (newCall 0)
      [.reserve, .executor, .schedule, .enter 0, .claim 0, .operate 0 .suspended, .cancel 0, .woken,
        .row]).started = [0, 0] ∧
      ¬∀ (cfg : ExecConfig Nat) (running : Int) (as : List (ExecAction Nat)), running ≤ cfg.cap →
        ExecSafe cfg ((execMachine cfg).run (newCall running) as) := by
  refine ⟨by decide, fun hsafe => ?_⟩
  have honce := (hsafe oneRow 0 [.reserve, .executor, .schedule, .enter 0, .claim 0,
    .operate 0 .suspended, .cancel 0, .woken, .row] (by decide)).startedOnce
  exact absurd honce (by decide)

end Quackapi.Exec
