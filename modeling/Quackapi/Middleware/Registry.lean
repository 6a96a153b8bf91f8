import Mathlib.Algebra.Group.Nat.Defs
import Quackapi.Library.Machine
import Quackapi.Library.FirstMatch
import Quackapi.Util.Str

/-! The registry of SQL middleware, its DDL, and the order in which a snapshot lists what applies. -/

namespace Quackapi.Middleware
open Library

inductive MiddlewarePhase
  | before | after
deriving DecidableEq

def middlewarePhaseName : MiddlewarePhase → Str
  | .after => "AFTER".toList
  | .before => "BEFORE".toList

structure MiddlewareDefinition where
  name : Str
  phase : MiddlewarePhase
  /-- Empty for every route. -/
  groupName : Str
  handlerSql : Str
deriving DecidableEq

structure QuackapiMiddleware extends MiddlewareDefinition where
  registrationOrder : Nat
deriving DecidableEq

structure MiddlewareRegistry where
  middlewares : List QuackapiMiddleware
  nextRegistrationOrder : Nat

def emptyRegistry : MiddlewareRegistry := ⟨[], 1⟩

def maxDefinitions : Nat := 64

def maxSqlBytes : Nat := 16 * 1024

def isMiddlewareName (name : Str) : Bool :=
  !name.isEmpty && decide (name.length ≤ 128) &&
    name.all fun c => (decide ('a' ≤ c) && decide (c ≤ 'z')) || (decide ('A' ≤ c) && decide (c ≤ 'Z')) ||
      (decide ('0' ≤ c) && decide (c ≤ '9')) || c == '_' || c == '-'

def middlewareExistsMessage (name : Str) : Str :=
  "Middleware \"".toList ++ name ++ "\" already exists — use CREATE OR REPLACE MIDDLEWARE".toList

def add (r : MiddlewareRegistry) (middleware : MiddlewareDefinition) (orReplace : Bool) :
    Except Str MiddlewareRegistry :=
  match findKey (·.name) middleware.name r.middlewares with
  | some it =>
    if !orReplace then .error (middlewareExistsMessage middleware.name)
    else
      let replacement : QuackapiMiddleware := ⟨middleware, it.registrationOrder⟩
      .ok { r with middlewares := replaceKey (·.name) replacement r.middlewares }
  | none =>
    if maxDefinitions ≤ r.middlewares.length then
      .error "Middleware registry limit is 64 definitions".toList
    else
      .ok ⟨r.middlewares ++ [⟨middleware, r.nextRegistrationOrder⟩],
        (r.nextRegistrationOrder + 1) % 2 ^ 64⟩

def drop (r : MiddlewareRegistry) (name : Str) : MiddlewareRegistry × Bool :=
  if name ∈ r.middlewares.map (·.name) then
    ({ r with middlewares := eraseKey (·.name) name r.middlewares }, true)
  else (r, false)

/-- The middleware of a phase, of every route or of one group, in the registry's order. -/
def scope (r : MiddlewareRegistry) (phase : MiddlewarePhase) (groupName : Str) (everyRoute : Bool) :
    List QuackapiMiddleware :=
  r.middlewares.filter fun middleware => decide (middleware.phase = phase) &&
    if everyRoute then middleware.groupName.isEmpty else decide (middleware.groupName = groupName)

def snapshot (r : MiddlewareRegistry) (phase : MiddlewarePhase) (groupName : Str) :
    List QuackapiMiddleware :=
  let everyRoute := scope r phase groupName true
  let group := if groupName.isEmpty then [] else scope r phase groupName false
  match phase with
  | .before => everyRoute ++ group
  | .after => group ++ everyRoute

inductive MiddlewareDdl
  /-- `prepareError` is what preparing the SQL says where that fails. -/
  | create (middleware : MiddlewareDefinition) (orReplace : Bool) (prepareError : Option Str)
  | drop (name : Str)

def createdMessage (middleware : MiddlewareDefinition) : Str :=
  "Middleware ".toList ++ middleware.name ++ ": ".toList ++ middlewarePhaseName middleware.phase ++
    if middleware.groupName.isEmpty then [] else " GROUP ".toList ++ middleware.groupName

def prepareMessage (name error : Str) : Str :=
  "Invalid handler SQL for middleware \"".toList ++ name ++ "\": ".toList ++ error

/-- `ApplyMiddlewareExec`: the status it emits, or what it throws. -/
def applyMiddleware (r : MiddlewareRegistry) : MiddlewareDdl → MiddlewareRegistry × Except Str Str
  | .create middleware orReplace prepareError =>
    if !isMiddlewareName middleware.name ||
        (!middleware.groupName.isEmpty && !isMiddlewareName middleware.groupName) then
      (r, .error "Middleware names must use [A-Za-z0-9_-] and be at most 128 bytes".toList)
    else if middleware.handlerSql.isEmpty || decide (maxSqlBytes < middleware.handlerSql.length) then
      (r, .error "Middleware SQL must be between 1 byte and 16 KiB".toList)
    else
      match prepareError with
      | some error => (r, .error (prepareMessage middleware.name error))
      | none =>
        match add r middleware orReplace with
        | .error e => (r, .error e)
        | .ok r' => (r', .ok (createdMessage middleware))
  | .drop name =>
    let (r', dropped) := drop r name
    if dropped then (r', .ok ("Dropped middleware ".toList ++ name))
    else (r, .error ("Middleware \"".toList ++ name ++ "\" does not exist".toList))

def registryMachine : Machine MiddlewareRegistry MiddlewareDdl (Except Str Str) := ⟨applyMiddleware⟩

def acceptedCreate : MiddlewareDdl × Except Str Str → Option MiddlewareDefinition
  | (.create middleware _ _, .ok _) => some middleware
  | _ => none

def registerName (names : List Str) : MiddlewareDdl × Except Str Str → List Str
  | (.create middleware _ _, .ok _) =>
    if middleware.name ∈ names then names else names ++ [middleware.name]
  | (.drop name, .ok _) => names.erase name
  | (_, .error _) => names

/-- The names in registration order: a replaced name keeps its place, a dropped one gives it up. -/
def registeredNames (history : List (MiddlewareDdl × Except Str Str)) : List Str :=
  history.foldl registerName []

/-- The last definition that a name was created with. -/
def latestDefinition (history : List (MiddlewareDdl × Except Str Str)) (name : Str) :
    Option MiddlewareDefinition :=
  history.reverse.findSome? fun e => (acceptedCreate e).filter (·.name = name)

def registered (history : List (MiddlewareDdl × Except Str Str)) : List MiddlewareDefinition :=
  (registeredNames history).filterMap (latestDefinition history)

theorem registeredNames_concat (history : List (MiddlewareDdl × Except Str Str))
    (e : MiddlewareDdl × Except Str Str) :
    registeredNames (history ++ [e]) = registerName (registeredNames history) e :=
  List.foldl_concat ..

theorem latestDefinition_concat (history : List (MiddlewareDdl × Except Str Str))
    (e : MiddlewareDdl × Except Str Str) (name : Str) :
    latestDefinition (history ++ [e]) name =
      ((acceptedCreate e).filter (·.name = name)).or (latestDefinition history name) := by
  unfold latestDefinition
  rw [List.reverse_concat, List.findSome?_cons]
  cases (acceptedCreate e).filter (·.name = name) <;> rfl

theorem latestDefinition_create {history : List (MiddlewareDdl × Except Str Str)}
    (middleware : MiddlewareDefinition) (orReplace : Bool) (error : Option Str) (message name : Str) :
    latestDefinition (history ++ [(.create middleware orReplace error, .ok message)]) name =
      if middleware.name = name then some middleware else latestDefinition history name := by
  rw [latestDefinition_concat, acceptedCreate]
  by_cases hname : middleware.name = name
  · rw [if_pos hname, Option.filter_some_pos (by simpa using hname)]
    rfl
  · rw [if_neg hname, Option.filter_some_neg (by simpa using hname)]
    rfl

/-- What a statement can do: nothing, or register, replace or drop one definition. -/
inductive DdlCases (r : MiddlewareRegistry) : MiddlewareDdl → MiddlewareRegistry × Except Str Str → Prop
  | refused (a : MiddlewareDdl) (e : Str) : DdlCases r a (r, .error e)
  | registered (middleware : MiddlewareDefinition) (orReplace : Bool) (message : Str)
      (hnew : middleware.name ∉ r.middlewares.map (·.name)) (next : Nat) :
      DdlCases r (.create middleware orReplace none)
        (⟨r.middlewares ++ [⟨middleware, r.nextRegistrationOrder⟩], next⟩, .ok message)
  | replaced (middleware : MiddlewareDefinition) (message : Str) (it : QuackapiMiddleware)
      (hit : it ∈ r.middlewares) (hname : it.name = middleware.name) :
      DdlCases r (.create middleware true none)
        ({ r with middlewares :=
            replaceKey (·.name) ⟨middleware, it.registrationOrder⟩ r.middlewares }, .ok message)
  | dropped (name message : Str) (hname : name ∈ r.middlewares.map (·.name)) :
      DdlCases r (.drop name)
        ({ r with middlewares := eraseKey (·.name) name r.middlewares }, .ok message)

theorem applyMiddleware_cases (r : MiddlewareRegistry) (a : MiddlewareDdl) :
    DdlCases r a (applyMiddleware r a) := by
  cases a with
  | create middleware orReplace prepareError =>
    simp only [applyMiddleware]
    split
    · exact .refused _ _
    split
    · exact .refused _ _
    rcases prepareError with _ | error
    · simp only [add]
      rcases hfound : findKey (·.name) middleware.name r.middlewares with _ | it
      · have hnew := findKey_eq_none.mp hfound
        by_cases hfull : maxDefinitions ≤ r.middlewares.length
        · simp only [hfound, hfull, if_true]
          exact .refused _ _
        · simp only [hfound, hfull, if_false]
          exact .registered _ _ _ hnew _
      · obtain ⟨hit, hname⟩ := findKey_eq_some hfound
        simp only [hfound]
        cases orReplace with
        | false => exact .refused _ _
        | true => exact .replaced _ _ it hit hname
    · exact .refused _ _
  | drop name =>
    simp only [applyMiddleware, drop]
    split
    · next hname => exact .dropped _ _ hname
    · exact .refused _ _

/-- The registry holds what the statements so far have registered. -/
structure Holds (history : List (MiddlewareDdl × Except Str Str)) (r : MiddlewareRegistry) : Prop where
  distinct : (r.middlewares.map (·.name)).Nodup
  names : r.middlewares.map (·.name) = registeredNames history
  latest : ∀ middleware ∈ r.middlewares,
    latestDefinition history middleware.name = some middleware.toMiddlewareDefinition

theorem holds_step {history : List (MiddlewareDdl × Except Str Str)} {r : MiddlewareRegistry}
    (h : Holds history r) (a : MiddlewareDdl) :
    Holds (history ++ [(a, (applyMiddleware r a).2)]) (applyMiddleware r a).1 := by
  have hcases := applyMiddleware_cases r a
  generalize applyMiddleware r a = result at hcases ⊢
  cases hcases with
  | refused _ e =>
    refine ⟨h.distinct, ?_, fun middleware hm => ?_⟩
    · rw [registeredNames_concat]
      cases a <;> exact h.names
    · rw [latestDefinition_concat]
      cases a <;> exact h.latest middleware hm
  | registered middleware orReplace message hnew next =>
    have hfresh := hnew
    rw [h.names] at hfresh
    refine ⟨nodup_concat_of_not_mem h.distinct hnew, ?_, ?_⟩
    · rw [registeredNames_concat, registerName, if_neg hfresh, List.map_append, h.names]
      rfl
    · intro x hx
      rw [latestDefinition_create]
      rcases List.mem_append.mp hx with hold | hself
      · have hne : middleware.name ≠ x.name := fun he => hnew (he ▸ List.mem_map_of_mem hold)
        rw [if_neg hne]
        exact h.latest x hold
      · rw [List.mem_singleton.mp hself, if_pos rfl]
  | replaced middleware message it hit hname =>
    have hin : middleware.name ∈ r.middlewares.map (·.name) := hname ▸ List.mem_map_of_mem hit
    have hmap : (replaceKey (·.name) (⟨middleware, it.registrationOrder⟩ : QuackapiMiddleware)
        r.middlewares).map (·.name) = r.middlewares.map (·.name) := map_key_replaceKey _ _
    have hold := hin
    rw [h.names] at hold
    refine ⟨?_, ?_, ?_⟩
    · rw [hmap]
      exact h.distinct
    · rw [hmap, registeredNames_concat, registerName, if_pos hold, h.names]
    · intro x hx
      rw [latestDefinition_create]
      rcases (mem_replaceKey h.distinct hin).mp hx with rfl | ⟨hx, hne⟩
      · rw [if_pos rfl]
      · rw [if_neg fun he => hne he.symm]
        exact h.latest x hx
  | dropped name message hname =>
    refine ⟨nodup_eraseKey h.distinct name, ?_, fun x hx => ?_⟩
    · have hsame : (fun m : QuackapiMiddleware => decide (m.name = name)) =
          (name == ·) ∘ fun m : QuackapiMiddleware => m.name := by
        funext m
        simp only [Function.comp_apply, beq_eq_decide, eq_comm]
      rw [registeredNames_concat, registerName, ← h.names, List.erase_eq_eraseP, List.eraseP_map,
        ← hsame]
      rfl
    · rw [latestDefinition_concat]
      exact h.latest x (mem_of_mem_eraseKey hx)

theorem registry_history (as : List MiddlewareDdl) :
    Holds (registryMachine.history emptyRegistry as) (registryMachine.run emptyRegistry as) := by
  have hempty : Holds [] emptyRegistry := ⟨List.nodup_nil, rfl, fun _ hm => by cases hm⟩
  exact Machine.history_invariant registryMachine hempty (fun _ _ a h => holds_step h a) as

theorem Holds.registered {history : List (MiddlewareDdl × Except Str Str)} {r : MiddlewareRegistry}
    (h : Holds history r) :
    r.middlewares.map (·.toMiddlewareDefinition) = registered history := by
  have hall : ∀ l : List QuackapiMiddleware, (∀ middleware ∈ l,
      latestDefinition history middleware.name = some middleware.toMiddlewareDefinition) →
      l.map (·.toMiddlewareDefinition) = (l.map (·.name)).filterMap (latestDefinition history) := by
    intro l hl
    rw [List.filterMap_map, ← List.filterMap_eq_map]
    exact List.filterMap_congr fun middleware hm => (hl middleware hm).symm
  rw [Middleware.registered, ← h.names]
  exact hall r.middlewares h.latest

/-- What applies to a route of a group, in the order of the phase. -/
def applicable (phase : MiddlewarePhase) (groupName : Str) (l : List MiddlewareDefinition) :
    List MiddlewareDefinition :=
  let everyRoute := l.filter fun m => decide (m.phase = phase) && m.groupName.isEmpty
  let group := l.filter fun m => decide (m.phase = phase) && !m.groupName.isEmpty &&
    decide (m.groupName = groupName)
  match phase with
  | .before => everyRoute ++ group
  | .after => group ++ everyRoute

theorem map_scope (r : MiddlewareRegistry) (phase : MiddlewarePhase) (groupName : Str)
    (everyRoute : Bool) :
    (scope r phase groupName everyRoute).map (·.toMiddlewareDefinition) =
      (r.middlewares.map (·.toMiddlewareDefinition)).filter fun m => decide (m.phase = phase) &&
        if everyRoute then m.groupName.isEmpty else decide (m.groupName = groupName) := by
  rw [List.filter_map]
  rfl

theorem map_snapshot (r : MiddlewareRegistry) (phase : MiddlewarePhase) (groupName : Str) :
    (snapshot r phase groupName).map (·.toMiddlewareDefinition) =
      applicable phase groupName (r.middlewares.map (·.toMiddlewareDefinition)) := by
  have hgroup : (if groupName.isEmpty then [] else scope r phase groupName false).map
      (·.toMiddlewareDefinition) = (r.middlewares.map (·.toMiddlewareDefinition)).filter fun m =>
        decide (m.phase = phase) && !m.groupName.isEmpty && decide (m.groupName = groupName) := by
    split
    · next hempty =>
      refine (List.filter_eq_nil_iff.mpr fun m _ h => ?_).symm
      simp only [Bool.and_eq_true, decide_eq_true_eq] at h
      obtain ⟨⟨_, hne⟩, heq⟩ := h
      rw [heq, hempty] at hne
      exact Bool.false_ne_true hne
    · next hgroup =>
      rw [map_scope]
      refine List.filter_congr fun m _ => ?_
      by_cases hm : m.groupName = groupName
      · simp [hm, hgroup]
      · simp [hm]
  unfold snapshot applicable
  cases phase with
  | before => rw [List.map_append, hgroup, map_scope]; rfl
  | after => rw [List.map_append, hgroup, map_scope]; rfl

end Quackapi.Middleware
