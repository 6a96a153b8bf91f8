import Quackapi.Ddl.RouteParse
import Quackapi.Openapi.Parameters

/-! The four readers of a route's pattern, each as its own scan: the check of scheduled routes, the
matcher, the binder's test of a name and the names OpenAPI lists. -/

namespace Quackapi.Ddl
open Params (splitPath segmentCapture)
open Http (hasTrailingSlash matchSegments matchPattern)

namespace PatternScan

/-- `SplitPath`: the segment so far, and what is left of the path. -/
def splitLoop : Str → Str → List Str
  | current, [] => if current.isEmpty then [] else [current]
  | current, c :: path =>
    if c = '/' then
      if current.isEmpty then splitLoop [] path else current :: splitLoop [] path
    else splitLoop (current ++ [c]) path

def isColon (ps : Str) : Bool := !ps.isEmpty && ps.head? == some ':'

def isBraced (ps : Str) : Bool :=
  decide (2 ≤ ps.length) && ps.head? == some '\x7b' && ps.getLast? == some '\x7d'

/-- `ps.substr(1)` -/
def colonName (ps : Str) : Str := ps.drop 1

/-- `ps.substr(1, ps.size() - 2)` -/
def bracedName (ps : Str) : Str := (ps.drop 1).take (ps.length - 2)

/-- `HasRoutePathParams`: one segment a round, up to the next slash. -/
def paramsLoop : Nat → Str → Bool
  | 0, _ => false
  | rounds + 1, rest =>
    let segment := rest.takeWhile (· ≠ '/')
    if isColon segment || isBraced segment then true
    else
      match rest.dropWhile (· ≠ '/') with
      | [] => false
      | _ :: rest => paramsLoop rounds rest

def hasRoutePathParams (pattern : Str) : Bool := paramsLoop (pattern.length + 1) pattern

def capturesLoop : List Str → List Str → Option (List (Str × Str))
  | ps :: patternSegments, s :: pathSegments =>
    if isColon ps then (capturesLoop patternSegments pathSegments).map ((colonName ps, s) :: ·)
    else if isBraced ps then (capturesLoop patternSegments pathSegments).map ((bracedName ps, s) :: ·)
    else if ps ≠ s then none
    else capturesLoop patternSegments pathSegments
  | _, _ => some []

/-- `MatchPattern` -/
def captures (pattern path : Str) : Option (List (Str × Str)) :=
  if hasTrailingSlash pattern ≠ hasTrailingSlash path then none
  else if (splitLoop [] pattern).length ≠ (splitLoop [] path).length then none
  else capturesLoop (splitLoop [] pattern) (splitLoop [] path)

/-- `IsPathParam` -/
def isPathParam (pattern name : Str) : Bool :=
  (splitLoop [] pattern).any fun ps =>
    (isColon ps && colonName ps == name) || (isBraced ps && bracedName ps == name)

/-- `PathParamNames` -/
def pathParamNames (pattern : Str) : List Str :=
  (splitLoop [] pattern).filterMap fun ps =>
    if isColon ps then some (colonName ps) else if isBraced ps then some (bracedName ps) else none

/-- The check of `ApplyRouteExec`. -/
def checkScheduled (name schedule pattern : Str) : Scan Unit :=
  if !schedule.isEmpty && hasRoutePathParams pattern then
    .error (.thrown ("Scheduled route \"".toList ++ name ++
      "\" cannot have path parameters; use a parameter-free route".toList))
  else .ok ()

theorem splitLoop_eq {current : Str} (h : '/' ∉ current) (path : Str) :
    splitLoop current path = splitPath (current ++ path) := by
  induction path generalizing current with
  | nil =>
    rw [splitLoop, List.append_nil]
    by_cases hne : current = []
    · rw [if_pos (List.isEmpty_iff.mpr hne), hne]
      rfl
    · rw [if_neg (fun he => hne (List.isEmpty_iff.mp he)), Http.splitPath_segment hne h]
  | cons c path ih =>
    rw [splitLoop]
    by_cases hc : c = '/'
    · subst hc
      have hrest : splitLoop [] path = splitPath path := ih List.not_mem_nil
      rw [if_pos rfl, hrest, Http.splitPath_append_slash]
      by_cases hne : current = []
      · rw [if_pos (List.isEmpty_iff.mpr hne), hne]
        rfl
      · rw [if_neg (fun he => hne (List.isEmpty_iff.mp he)), Http.splitPath_segment hne h]
        rfl
    · have hnext : '/' ∉ current ++ [c] := by
        rw [List.mem_append, List.mem_singleton, not_or]
        exact ⟨h, fun he => hc he.symm⟩
      rw [if_neg hc, ih hnext, List.append_assoc]
      rfl

theorem splitLoop_path (path : Str) : splitLoop [] path = splitPath path := splitLoop_eq List.not_mem_nil path

theorem isBraced_cons (rest : Str) : isBraced ('\x7b' :: rest) = decide (rest.getLast? = some '\x7d') := by
  cases rest with
  | nil => decide
  | cons c rest =>
    rw [Bool.eq_iff_iff]
    simp [isBraced, List.getLast?_cons_cons]

theorem bracedName_cons (rest : Str) : bracedName ('\x7b' :: rest) = rest.dropLast := by
  rw [List.dropLast_eq_take]
  rfl

theorem segmentCapture_eq (ps : Str) :
    segmentCapture ps =
      if isColon ps then some (colonName ps) else if isBraced ps then some (bracedName ps) else none := by
  cases ps with
  | nil => rfl
  | cons c rest =>
    by_cases hcolon : c = ':'
    · subst hcolon
      rfl
    · have hnot : isColon (c :: rest) = false := by
        rw [isColon, List.head?_cons, Bool.and_eq_false_iff]
        exact .inr (beq_false_of_ne fun h => hcolon (Option.some.inj h))
      rw [hnot]
      by_cases hbrace : c = '\x7b'
      · subst hbrace
        rw [isBraced_cons, bracedName_cons]
        by_cases hlast : rest.getLast? = some '\x7d'
        · rw [decide_eq_true hlast]
          exact if_pos hlast
        · rw [decide_eq_false hlast]
          exact if_neg hlast
      · have hplain : isBraced (c :: rest) = false := by
          rw [isBraced, List.head?_cons, Bool.and_eq_false_iff, Bool.and_eq_false_iff]
          exact .inl (.inr (beq_false_of_ne fun h => hbrace (Option.some.inj h)))
        rw [hplain]
        simp [segmentCapture, hcolon, hbrace]

theorem isColon_braced {ps : Str} (h : isColon ps = true) : isBraced ps = false := by
  cases ps with
  | nil => cases h
  | cons c rest =>
    have hc : c = ':' := by
      simpa [isColon] using h
    subst hc
    rw [isBraced, List.head?_cons, Bool.and_eq_false_iff, Bool.and_eq_false_iff]
    exact .inl (.inr (by decide))

theorem segmentCapture_isSome (ps : Str) : (segmentCapture ps).isSome = (isColon ps || isBraced ps) := by
  rw [segmentCapture_eq]
  cases isColon ps <;> cases isBraced ps <;> rfl

theorem names_iff (ps name : Str) :
    ((isColon ps && colonName ps == name) || (isBraced ps && bracedName ps == name)) = true ↔
      segmentCapture ps = some name := by
  rw [segmentCapture_eq]
  cases hcolon : isColon ps with
  | true => simp [isColon_braced hcolon]
  | false => cases isBraced ps <;> simp

theorem capturesLoop_eq {patternSegments pathSegments : List Str}
    (h : patternSegments.length = pathSegments.length) :
    capturesLoop patternSegments pathSegments = matchSegments patternSegments pathSegments := by
  induction patternSegments generalizing pathSegments with
  | nil =>
    cases pathSegments with
    | nil => rfl
    | cons s pathSegments => cases h
  | cons ps patternSegments ih =>
    cases pathSegments with
    | nil => cases h
    | cons s pathSegments =>
      have hrest := ih (Nat.succ.inj h)
      rw [capturesLoop, matchSegments, segmentCapture_eq, hrest]
      cases isColon ps with
      | true => rfl
      | false =>
        cases isBraced ps with
        | true => rfl
        | false => by_cases heq : ps = s <;> simp [heq]

theorem captures_eq (pattern path : Str) : captures pattern path = matchPattern pattern path := by
  rw [captures, matchPattern, splitLoop_path, splitLoop_path]
  by_cases hslash : hasTrailingSlash pattern = hasTrailingSlash path
  · rw [if_neg (not_not.mpr hslash), if_pos hslash]
    by_cases hlength : (splitPath pattern).length = (splitPath path).length
    · rw [if_neg (not_not.mpr hlength), capturesLoop_eq hlength]
    · rw [if_pos hlength]
      cases hmatch : matchSegments (splitPath pattern) (splitPath path) with
      | none => rfl
      | some found =>
        have hadmits := Http.matchSegments_isSome.mp (Option.isSome_of_eq_some hmatch)
        have hsame := hadmits.length_eq
        rw [List.length_map] at hsame
        exact absurd hsame hlength
  · rw [if_pos hslash, if_neg hslash]

theorem isPathParam_eq (pattern name : Str) : isPathParam pattern name = Params.isPathParam pattern name := by
  rw [isPathParam, Params.isPathParam, splitLoop_path]
  refine congrArg (splitPath pattern).any (funext fun ps => ?_)
  rw [Bool.eq_iff_iff, names_iff, decide_eq_true_eq]

theorem pathParamNames_eq (pattern : Str) : pathParamNames pattern = Openapi.pathParamNames pattern := by
  rw [pathParamNames, Openapi.pathParamNames, splitLoop_path]
  refine congrArg (fun f => (splitPath pattern).filterMap f) (funext fun ps => ?_)
  exact (segmentCapture_eq ps).symm

theorem paramsLoop_eq {rounds : Nat} {rest : Str} (h : rest.length < rounds) :
    paramsLoop rounds rest = (splitPath rest).any fun ps => (segmentCapture ps).isSome := by
  induction rounds generalizing rest with
  | zero => omega
  | succ rounds ih =>
    have hsegment : '/' ∉ rest.takeWhile (· ≠ '/') := fun h => by
      simpa using List.mem_takeWhile_imp h
    have hfirst : ∀ t, (splitPath (rest.takeWhile (· ≠ '/') ++ '/' :: t)).any (fun ps => (segmentCapture ps).isSome) =
        ((segmentCapture (rest.takeWhile (· ≠ '/'))).isSome ||
          (splitPath t).any fun ps => (segmentCapture ps).isSome) := by
      intro t
      rw [Http.splitPath_append_slash, List.any_append]
      congr 1
      by_cases hne : rest.takeWhile (· ≠ '/') = []
      · rw [hne]
        rfl
      · rw [Http.splitPath_segment hne hsegment, List.any_cons, List.any_nil, Bool.or_false]
    have hsplit := List.takeWhile_append_dropWhile (p := (· ≠ '/')) (l := rest)
    rw [paramsLoop, ← segmentCapture_isSome]
    cases hrest : rest.dropWhile (· ≠ '/') with
    | nil =>
      have hwhole := hfirst []
      rw [hrest, List.append_nil] at hsplit
      rw [Http.splitPath_append_singleton, hsplit] at hwhole
      rw [hwhole, hsplit]
      cases (segmentCapture rest).isSome <;> rfl
    | cons c t =>
      have hc : c = '/' := by
        have hhead := List.head?_dropWhile_not (· ≠ '/') rest
        rw [hrest] at hhead
        simpa using hhead
      have hlength : t.length < rounds := by
        have := congrArg List.length hsplit
        rw [hrest, List.length_append, List.length_cons] at this
        omega
      subst hc
      rw [hrest] at hsplit
      have hwhole := hfirst t
      rw [hsplit] at hwhole
      rw [hwhole, ← ih hlength]
      cases (segmentCapture (rest.takeWhile (· ≠ '/'))).isSome <;> rfl

theorem hasRoutePathParams_eq (pattern : Str) :
    hasRoutePathParams pattern = (splitPath pattern).any fun ps => (segmentCapture ps).isSome :=
  paramsLoop_eq (Nat.lt_succ_self _)

theorem matchSegments_names {patternSegments pathSegments : List Str} {found : List (Str × Str)}
    (h : matchSegments patternSegments pathSegments = some found) :
    found.map Prod.fst = patternSegments.filterMap segmentCapture := by
  induction patternSegments generalizing pathSegments found with
  | nil =>
    cases pathSegments with
    | nil =>
      cases h
      rfl
    | cons s pathSegments => cases h
  | cons ps patternSegments ih =>
    cases pathSegments with
    | nil => cases h
    | cons s pathSegments =>
      rw [matchSegments] at h
      cases hcapture : segmentCapture ps with
      | some name =>
        simp only [hcapture] at h
        obtain ⟨rest, hrest, rfl⟩ := Option.map_eq_some_iff.mp h
        rw [List.filterMap_cons_some hcapture, List.map_cons, ih hrest]
      | none =>
        simp only [hcapture] at h
        split at h
        · rw [List.filterMap_cons_none hcapture]
          exact ih h
        · cases h

theorem captures_names {pattern path : Str} {found : List (Str × Str)} (h : captures pattern path = some found) :
    found.map Prod.fst = pathParamNames pattern := by
  rw [captures_eq, matchPattern] at h
  rw [pathParamNames_eq, Openapi.pathParamNames]
  split at h
  · exact matchSegments_names h
  · cases h

theorem exists_captures (pattern : Str) : ∃ found, captures pattern pattern = some found := by
  rw [captures_eq, matchPattern, if_pos rfl]
  generalize splitPath pattern = segments
  induction segments with
  | nil => exact ⟨[], rfl⟩
  | cons ps segments ih =>
    obtain ⟨found, hfound⟩ := ih
    rw [matchSegments]
    cases hcapture : segmentCapture ps with
    | some name => exact ⟨(name, ps) :: found, congrArg (Option.map _) hfound⟩
    | none => exact ⟨found, (if_pos rfl).trans hfound⟩

theorem isPathParam_iff (pattern name : Str) : isPathParam pattern name = true ↔ name ∈ pathParamNames pattern := by
  rw [isPathParam_eq, pathParamNames_eq, Params.isPathParam, Openapi.pathParamNames, List.any_eq_true,
    List.mem_filterMap]
  simp only [decide_eq_true_eq]

theorem hasRoutePathParams_iff (pattern : Str) :
    hasRoutePathParams pattern = true ↔ pathParamNames pattern ≠ [] := by
  rw [hasRoutePathParams_eq, pathParamNames_eq, Openapi.pathParamNames, List.any_eq_true]
  constructor
  · rintro ⟨ps, hps, hsome⟩
    obtain ⟨name, hname⟩ := Option.isSome_iff_exists.mp hsome
    exact List.ne_nil_of_mem (List.mem_filterMap.mpr ⟨ps, hps, hname⟩)
  · intro hne
    obtain ⟨name, hname⟩ := List.exists_mem_of_ne_nil _ hne
    obtain ⟨ps, hps, hcapture⟩ := List.mem_filterMap.mp hname
    exact ⟨ps, hps, Option.isSome_of_eq_some hcapture⟩

/-- All readers of a pattern agree: on whether it captures, on the names a match captures and their order,
and on whether a name is one of them. A scheduled route has none. -/
theorem pattern_readers_agree (pattern : Str) :
    (hasRoutePathParams pattern = true ↔
      ∃ path found, captures pattern path = some found ∧ found ≠ []) ∧
    (∀ path found, captures pattern path = some found →
      found.map Prod.fst = pathParamNames pattern ∧
      ∀ name, isPathParam pattern name = true ↔ name ∈ found.map Prod.fst) ∧
    (∀ name schedule, schedule ≠ [] → checkScheduled name schedule pattern = .ok () →
      pathParamNames pattern = [] ∧ ∀ path found, captures pattern path = some found → found = []) := by
  have hempty : ∀ {path found}, captures pattern path = some found → (found = [] ↔ pathParamNames pattern = []) := by
    intro path found h
    rw [← captures_names h, List.map_eq_nil_iff]
  refine ⟨?_, ?_, ?_⟩
  · rw [hasRoutePathParams_iff]
    constructor
    · intro hne
      obtain ⟨found, hfound⟩ := exists_captures pattern
      exact ⟨pattern, found, hfound, fun h => hne ((hempty hfound).mp h)⟩
    · rintro ⟨path, found, hfound, hne⟩ hnone
      exact hne ((hempty hfound).mpr hnone)
  · intro path found h
    have hnames := captures_names h
    refine ⟨hnames, fun name => ?_⟩
    rw [hnames]
    exact isPathParam_iff pattern name
  · intro name schedule hschedule hcheck
    have hnone : ¬ hasRoutePathParams pattern = true := by
      intro hparams
      rw [checkScheduled, hparams, List.isEmpty_eq_false_iff.mpr hschedule] at hcheck
      cases hcheck
    rw [hasRoutePathParams_iff, not_not] at hnone
    exact ⟨hnone, fun path found h => (hempty h).mpr hnone⟩

end PatternScan

end Quackapi.Ddl
