import Mathlib.Data.List.Basic

/-! Texts that follow one another, and the whole cut at the places where they start. -/

namespace Library
variable {α : Type*}

/-- Where texts start that follow one another from a place on. -/
def startsFrom : Nat → List (List α) → List Nat
  | _, [] => []
  | n, p :: ps => n :: startsFrom (n + p.length) ps

/-- A text cut at some of its places; what is in front of the first is left out. -/
def cutPlaces : List Nat → List α → List (List α)
  | [], _ => []
  | [n], s => [s.drop n]
  | n :: m :: ns, s => (s.take m).drop n :: cutPlaces (m :: ns) s

theorem cutPlaces_startsFrom (ps : List (List α)) (a : List α) :
    cutPlaces (startsFrom a.length ps) (a ++ ps.flatten) = ps := by
  induction ps generalizing a with
  | nil => rfl
  | cons p ps ih =>
    have hnext := ih (a ++ p)
    rw [List.length_append, List.append_assoc] at hnext
    cases ps with
    | nil =>
      show [(a ++ (p ++ [])).drop a.length] = [p]
      rw [List.drop_left, List.append_nil]
    | cons q ps =>
      have hfront : ((a ++ (p ++ (q :: ps).flatten)).take (a.length + p.length)).drop a.length = p := by
        rw [← List.append_assoc, ← List.length_append, List.take_left, List.drop_left]
      rw [List.flatten_cons, startsFrom, startsFrom, cutPlaces, hfront]
      rw [startsFrom] at hnext
      rw [hnext]

theorem cutPlaces_starts (ps : List (List α)) : cutPlaces (startsFrom 0 ps) ps.flatten = ps :=
  cutPlaces_startsFrom ps []

end Library
