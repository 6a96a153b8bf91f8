import Quackapi.Params.Request

/-! Route patterns and the paths they match. Matching compares lists of segments, so many patterns
match the same paths: a capture matches whatever it is called, and empty segments do not count. -/

namespace Quackapi.Http
open Params (splitPath segmentCapture)

/-- Trailing-slash presence for paths other than `/`. -/
def hasTrailingSlash (path : Str) : Bool := decide (1 < path.length) && path.getLast? == some '/'

def stripTrailingSlash (path : Str) : Str := if hasTrailingSlash path then path.dropLast else path

/-- Segments in pairs; a capture takes any segment, any other must be equal. -/
def matchSegments : List Str → List Str → Option (List (Str × Str))
  | [], [] => some []
  | ps :: patternSegments, s :: pathSegments =>
    match segmentCapture ps with
    | some name => (matchSegments patternSegments pathSegments).map ((name, s) :: ·)
    | none => if ps = s then matchSegments patternSegments pathSegments else none
  | _, _ => none

def matchPattern (pattern path : Str) : Option (List (Str × Str)) :=
  if hasTrailingSlash pattern = hasTrailingSlash path then
    matchSegments (splitPath pattern) (splitPath path)
  else none

def patternMatches (pattern path : Str) : Bool := (matchPattern pattern path).isSome

theorem splitPath_append_slash (a b : Str) :
    splitPath (a ++ '/' :: b) = splitPath a ++ splitPath b := by
  rw [splitPath, List.splitOn_append_cons_self, List.filter_append]
  rfl

theorem splitPath_slash (s : Str) : splitPath ('/' :: s) = splitPath s :=
  splitPath_append_slash [] s

theorem splitPath_segment {s : Str} (hne : s ≠ []) (hs : '/' ∉ s) : splitPath s = [s] := by
  rw [splitPath, List.splitOn_eq_singleton hs, List.filter_singleton, List.isEmpty_eq_false_iff.mpr hne]
  rfl

def IsSegment (s : Str) : Prop := s ≠ [] ∧ '/' ∉ s

theorem isSegment_of_mem_splitPath {path s : Str} (h : s ∈ splitPath path) : IsSegment s := by
  induction hn : path.length using Nat.strong_induction_on generalizing path with
  | _ n ih =>
    by_cases hslash : '/' ∈ path
    · obtain ⟨a, b, rfl⟩ := List.append_of_mem hslash
      rw [splitPath_append_slash] at h
      rw [List.length_append, List.length_cons] at hn
      rcases List.mem_append.mp h with ha | hb
      · exact ih a.length (by omega) ha rfl
      · exact ih b.length (by omega) hb rfl
    · by_cases hne : path = []
      · rw [hne] at h
        cases h
      · rw [splitPath_segment hne hslash, List.mem_singleton] at h
        rw [h]
        exact ⟨hne, hslash⟩

def slashed (segments : List Str) : Str := segments.flatMap ('/' :: ·)

theorem splitPath_slashed {segments : List Str} (h : ∀ s ∈ segments, IsSegment s) (rest : Str) :
    splitPath (slashed segments ++ '/' :: rest) = segments ++ splitPath rest := by
  induction segments with
  | nil => exact splitPath_slash rest
  | cons s segments ih =>
    obtain ⟨hne, hs⟩ := h s List.mem_cons_self
    have hrest := ih fun t ht => h t (List.mem_cons_of_mem _ ht)
    have hcons : slashed (s :: segments) ++ '/' :: rest =
        '/' :: (s ++ (slashed segments ++ '/' :: rest)) := by
      simp only [slashed, List.flatMap_cons, List.cons_append, List.append_assoc]
    obtain ⟨tail, htail⟩ : ∃ tail, slashed segments ++ '/' :: rest = '/' :: tail := by
      cases segments with
      | nil => exact ⟨rest, rfl⟩
      | cons t segments => exact ⟨_, rfl⟩
    rw [hcons, splitPath_slash, htail, splitPath_append_slash, splitPath_segment hne hs,
      ← splitPath_slash tail, ← htail, hrest]
    rfl

theorem splitPath_append_singleton (path : Str) : splitPath (path ++ ['/']) = splitPath path := by
  rw [splitPath_append_slash]
  exact List.append_nil _

def pathOf (trailingSlash : Bool) (segments : List Str) : Str :=
  '/' :: slashed segments ++ (if trailingSlash then ['/'] else [])

theorem splitPath_pathOf {segments : List Str} (h : ∀ s ∈ segments, IsSegment s)
    (trailingSlash : Bool) : splitPath (pathOf trailingSlash segments) = segments := by
  have hsplit : splitPath (slashed segments) = segments := by
    rw [← splitPath_append_singleton, splitPath_slashed h []]
    exact List.append_nil _
  cases trailingSlash with
  | true =>
    show splitPath ('/' :: slashed segments ++ ['/']) = segments
    rw [splitPath_append_singleton, splitPath_slash, hsplit]
  | false =>
    show splitPath ('/' :: slashed segments ++ []) = segments
    rw [List.append_nil, splitPath_slash, hsplit]

theorem getLast?_slashed {segments : List Str} (h : ∀ s ∈ segments, IsSegment s) :
    (slashed segments).getLast? ≠ some '/' := by
  induction segments with
  | nil => exact nofun
  | cons s segments ih =>
    obtain ⟨hne, hs⟩ := h s List.mem_cons_self
    have hrest := ih fun t ht => h t (List.mem_cons_of_mem _ ht)
    have hcons : slashed (s :: segments) = ('/' :: s) ++ slashed segments := rfl
    rw [hcons, List.getLast?_append]
    rcases hlast : (slashed segments).getLast? with _ | c
    · intro hslash
      have hmem : '/' ∈ s := by
        rw [Option.none_or, List.getLast?_cons, List.getLast?_eq_some_getLast hne] at hslash
        rw [← Option.some.inj hslash]
        exact List.getLast_mem hne
      exact hs hmem
    · rwa [hlast] at hrest

theorem hasTrailingSlash_pathOf {segments : List Str} (h : ∀ s ∈ segments, IsSegment s)
    (trailingSlash : Bool) :
    hasTrailingSlash (pathOf trailingSlash segments) = trailingSlash := by
  cases trailingSlash with
  | true =>
    have hlast : (pathOf true segments).getLast? = some '/' := List.getLast?_concat ..
    have hlength : 1 < (pathOf true segments).length := by
      show 1 < ('/' :: slashed segments ++ ['/']).length
      rw [List.length_append, List.length_cons, List.length_singleton]
      omega
    rw [hasTrailingSlash, hlast, decide_eq_true hlength]
    rfl
  | false =>
    have hpath : pathOf false segments = '/' :: slashed segments := List.append_nil _
    rw [hpath, hasTrailingSlash, Bool.and_eq_false_iff]
    cases segments with
    | nil => exact .inl rfl
    | cons s segments =>
      right
      have hlast := getLast?_slashed h
      rw [List.getLast?_cons]
      rcases hl : (slashed (s :: segments)).getLast? with _ | c
      · cases List.getLast?_eq_none_iff.mp hl
      · rw [hl] at hlast
        simpa using hlast

/-- What a pattern segment asks for; a capture asks for nothing. -/
def segmentLiteral (ps : Str) : Option Str := if (segmentCapture ps).isSome then none else some ps

def Admits (want : Option Str) (s : Str) : Prop := ∀ text, want = some text → text = s

@[ext] structure PatternShape where
  trailingSlash : Bool
  segments : List (Option Str)
deriving DecidableEq

def patternShape (pattern : Str) : PatternShape :=
  ⟨hasTrailingSlash pattern, (splitPath pattern).map segmentLiteral⟩

theorem matchSegments_isSome {ps ss : List Str} :
    (matchSegments ps ss).isSome = true ↔ List.Forall₂ Admits (ps.map segmentLiteral) ss := by
  induction ps generalizing ss with
  | nil =>
    cases ss with
    | nil => exact iff_of_true rfl .nil
    | cons s ss => exact iff_of_false nofun nofun
  | cons p ps ih =>
    cases ss with
    | nil => exact iff_of_false nofun nofun
    | cons s ss =>
      rw [List.map_cons, List.forall₂_cons, ← ih]
      rcases hcap : segmentCapture p with _ | name
      · have hlit : segmentLiteral p = some p := by rw [segmentLiteral, hcap]; rfl
        have hadmits : Admits (some p) s ↔ p = s :=
          ⟨fun h => h p rfl, fun h text ht => (Option.some.inj ht) ▸ h⟩
        rw [hlit, hadmits]
        simp only [matchSegments, hcap]
        split
        · next he => exact (and_iff_right he).symm
        · next he => exact iff_of_false nofun fun h => he h.1
      · have hlit : segmentLiteral p = none := by rw [segmentLiteral, hcap]; rfl
        rw [hlit]
        simp only [matchSegments, hcap, Option.isSome_map]
        exact (and_iff_right fun _ => nofun).symm

theorem patternMatches_iff {pattern path : Str} :
    patternMatches pattern path = true ↔
      (patternShape pattern).trailingSlash = hasTrailingSlash path ∧
        List.Forall₂ Admits (patternShape pattern).segments (splitPath path) := by
  show _ ↔ hasTrailingSlash pattern = hasTrailingSlash path ∧
    List.Forall₂ Admits ((splitPath pattern).map segmentLiteral) (splitPath path)
  rw [patternMatches, matchPattern, ← matchSegments_isSome]
  split
  · next he => exact (and_iff_right he).symm
  · next he => exact iff_of_false nofun fun h => he h.1

def SamePaths (p q : Str) : Prop := ∀ path, patternMatches p path = patternMatches q path

/-- The segments of a path the pattern matches, with the same text in the place of each capture. -/
def fill (text : Str) (wants : List (Option Str)) : List Str := wants.map (·.getD text)

theorem fill_admits (text : Str) (wants : List (Option Str)) :
    List.Forall₂ Admits wants (fill text wants) := by
  induction wants with
  | nil => exact .nil
  | cons want wants ih =>
    refine .cons (fun t ht => ?_) ih
    rw [ht]
    rfl

theorem fill_isSegment {text : Str} (ht : IsSegment text) (pattern : Str) :
    ∀ s ∈ fill text (patternShape pattern).segments, IsSegment s := by
  intro s hs
  obtain ⟨want, hwant, rfl⟩ := List.mem_map.mp hs
  obtain ⟨ps, hps, rfl⟩ := List.mem_map.mp hwant
  unfold segmentLiteral
  split
  · exact ht
  · exact isSegment_of_mem_splitPath hps

/-- A pattern that matches the paths of another, with either of two texts for the captures, captures
what the other captures and asks for nothing else. -/
theorem wants_of_fills {a b : Str} (hab : a ≠ b) {want want' : List (Option Str)}
    (ha : List.Forall₂ Admits want' (fill a want)) (hb : List.Forall₂ Admits want' (fill b want)) :
    List.Forall₂ (fun w' w => w' = none ∨ w' = w) want' want := by
  induction want generalizing want' with
  | nil =>
    cases ha
    exact .nil
  | cons w want ih =>
    obtain _ | ⟨w', want'⟩ := want'
    · cases ha
    obtain ⟨ha, hta⟩ := List.forall₂_cons.mp ha
    obtain ⟨hb, htb⟩ := List.forall₂_cons.mp hb
    refine .cons ?_ (ih hta htb)
    cases w' with
    | none => exact .inl rfl
    | some text =>
      right
      cases w with
      | none => exact absurd ((ha text rfl).symm.trans (hb text rfl)) hab
      | some text' =>
        have htext : text = text' := ha text rfl
        rw [htext]

theorem eq_of_wants {want want' : List (Option Str)}
    (h : List.Forall₂ (fun w w' => w = none ∨ w = w') want want')
    (h' : List.Forall₂ (fun w' w => w' = none ∨ w' = w) want' want) : want = want' := by
  induction h with
  | nil => rfl
  | cons hw _ ih =>
    obtain ⟨hw', htail⟩ := List.forall₂_cons.mp h'
    rw [ih htail]
    rcases hw with rfl | rfl
    · rcases hw' with rfl | rfl <;> rfl
    · rfl

theorem samePaths_iff (p q : Str) : SamePaths p q ↔ patternShape p = patternShape q := by
  constructor
  · intro h
    -- The path that fills each capture of one pattern with the text is matched by the other.
    have hfill {p q : Str} (h : SamePaths p q) {text : Str} (ht : IsSegment text) :
        (patternShape q).trailingSlash = (patternShape p).trailingSlash ∧
          List.Forall₂ Admits (patternShape q).segments (fill text (patternShape p).segments) := by
      have hsegments := fill_isSegment ht p
      have hp : patternMatches p (pathOf (patternShape p).trailingSlash
          (fill text (patternShape p).segments)) = true := by
        rw [patternMatches_iff, hasTrailingSlash_pathOf hsegments, splitPath_pathOf hsegments]
        exact ⟨rfl, fill_admits text _⟩
      rw [h, patternMatches_iff, hasTrailingSlash_pathOf hsegments,
        splitPath_pathOf hsegments] at hp
      exact hp
    have ha : IsSegment ("a".toList) := ⟨by decide, by decide⟩
    have hb : IsSegment ("b".toList) := ⟨by decide, by decide⟩
    have hab : "a".toList ≠ "b".toList := by decide
    have hqp := wants_of_fills hab (hfill h ha).2 (hfill h hb).2
    have hpq := wants_of_fills hab (hfill (fun path => (h path).symm) ha).2
      (hfill (fun path => (h path).symm) hb).2
    have hslash := (hfill h ha).1
    have hsegments : (patternShape p).segments = (patternShape q).segments :=
      eq_of_wants hpq hqp
    exact PatternShape.ext hslash.symm hsegments
  · intro h path
    rw [Bool.eq_iff_iff, patternMatches_iff, patternMatches_iff, h]

end Quackapi.Http
