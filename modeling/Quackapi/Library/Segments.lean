import Mathlib.Data.List.Basic

/-! A stream that comes in segments. One read ends where a segment does, so that a part may have to be
read in several reads, and a reader that asks only once gets it only from a single segment. -/

namespace Library
variable {α : Type*}

/-- What is to be read, the first segment less what has been read of it. An empty one is the end. -/
abbrev Segments (α : Type*) := List (List α)

def inOneSegment (bytes : List α) : Segments α := if bytes.isEmpty then [] else [bytes]

/-- One read of at most `size`. -/
def readSome (size : Nat) : Segments α → List α × Segments α
  | [] => ([], [])
  | seg :: segs => if seg.length ≤ size then (seg, segs) else (seg.take size, seg.drop size :: segs)

/-- One read, for a reader that fails where it gets less. -/
def readExactly (size : Nat) (strm : Segments α) : Option (List α × Segments α) :=
  let r := readSome size strm
  if r.1.length = size then some r else none

/-- Read after read until there are `size`; one that gives nothing fails. -/
def readUntil : Nat → Nat → Segments α → Option (List α × Segments α)
  | _, 0, strm => some ([], strm)
  | 0, _ + 1, _ => none
  | fuel + 1, size + 1, strm =>
    let r := readSome (size + 1) strm
    if r.1.isEmpty then none
    else (readUntil fuel (size + 1 - r.1.length) r.2).map fun more => (r.1 ++ more.1, more.2)

/-- The stream begins with `part`, which is nothing or lies in its first segment. -/
inductive InSegment : List α → Segments α → Segments α → Prop
  | nothing {strm : Segments α} : InSegment [] strm strm
  | all {part : List α} {segs : Segments α} (h : part ≠ []) : InSegment part (part :: segs) segs
  | front {part more : List α} {segs : Segments α} (h : part ≠ []) (hmore : more ≠ []) :
    InSegment part ((part ++ more) :: segs) (more :: segs)

/-- The stream begins with `part`, in as many segments as may be. -/
inductive InSegments : List α → Segments α → Segments α → Prop
  | done {strm : Segments α} : InSegments [] strm strm
  | all {seg part : List α} {segs rest : Segments α} (hseg : seg ≠ []) (h : InSegments part segs rest) :
    InSegments (seg ++ part) (seg :: segs) rest
  | front {part more : List α} {segs : Segments α} (hpart : part ≠ []) (hmore : more ≠ []) :
    InSegments part ((part ++ more) :: segs) (more :: segs)

section
variable {part : List α} {strm rest : Segments α}

theorem InSegment.flatten (h : InSegment part strm rest) : strm.flatten = part ++ rest.flatten := by
  cases h with
  | nothing => rfl
  | all => rfl
  | front => simp

theorem InSegments.flatten (h : InSegments part strm rest) : strm.flatten = part ++ rest.flatten := by
  induction h with
  | done => rfl
  | all _ _ ih => rw [List.flatten_cons, ih, List.append_assoc]
  | front => simp

theorem inOneSegment_of_ne {bytes : List α} (h : bytes ≠ []) : inOneSegment bytes = [bytes] :=
  if_neg (by rwa [List.isEmpty_iff])

theorem inSegment_inOneSegment (part more : List α) :
    InSegment part (inOneSegment (part ++ more)) (inOneSegment more) := by
  by_cases hpart : part = []
  · rw [hpart]
    exact .nothing
  · rw [inOneSegment_of_ne (List.append_ne_nil_of_left_ne_nil hpart more)]
    by_cases hmore : more = []
    · rw [hmore, List.append_nil]
      exact .all hpart
    · rw [inOneSegment_of_ne hmore]
      exact .front hpart hmore

theorem inSegments_inOneSegment (part more : List α) :
    InSegments part (inOneSegment (part ++ more)) (inOneSegment more) := by
  by_cases hpart : part = []
  · rw [hpart]
    exact .done
  · rw [inOneSegment_of_ne (List.append_ne_nil_of_left_ne_nil hpart more)]
    by_cases hmore : more = []
    · rw [hmore, List.append_nil]
      have hall : InSegments (part ++ []) [part] [] := .all hpart .done
      rwa [List.append_nil] at hall
    · rw [inOneSegment_of_ne hmore]
      exact .front hpart hmore

theorem readExactly_eq_some_iff {size : Nat} (hsize : size ≠ 0) :
    readExactly size strm = some (part, rest) ↔ part.length = size ∧ InSegment part strm rest := by
  unfold readExactly
  constructor
  · intro h
    obtain ⟨hlength, h⟩ := Option.ite_none_right_eq_some.mp h
    rw [Option.some.injEq] at h
    rw [h] at hlength
    have hpart : part ≠ [] := fun hnil => hsize (by rw [← hlength, hnil]; rfl)
    refine ⟨hlength, ?_⟩
    cases strm with
    | nil => exact absurd (congrArg Prod.fst h).symm hpart
    | cons seg segs =>
      rw [readSome] at h
      split at h
      · cases h
        exact .all hpart
      · next hlong =>
        cases h
        have hmore : seg.drop size ≠ [] := by
          rw [ne_eq, List.drop_eq_nil_iff]
          exact hlong
        have hfront : InSegment _ (_ :: segs) _ := .front hpart hmore
        rwa [List.take_append_drop] at hfront
  · rintro ⟨rfl, h⟩
    cases h with
    | nothing => exact absurd rfl hsize
    | all => rw [readSome, if_pos (Nat.le_refl _), if_pos rfl]
    | @front _ more _ _ hmore =>
      have hlong : ¬ (part ++ more).length ≤ part.length := by
        rw [List.length_append]
        have hpos := List.length_pos_iff.mpr hmore
        omega
      rw [readSome, if_neg hlong, List.take_left, List.drop_left, if_pos rfl]

theorem inSegment_nil_iff : InSegment [] strm rest ↔ rest = strm := by
  constructor
  · intro h
    generalize hpart : ([] : List α) = part at h
    cases h with
    | nothing => rfl
    | all hne => exact absurd hpart.symm hne
    | front hne => exact absurd hpart.symm hne
  · rintro rfl
    exact .nothing

theorem inSegments_nil_iff : InSegments [] strm rest ↔ rest = strm := by
  constructor
  · intro h
    generalize hpart : ([] : List α) = part at h
    cases h with
    | done => rfl
    | all hseg => exact absurd (List.append_eq_nil_iff.mp hpart.symm).1 hseg
    | front hne => exact absurd hpart.symm hne
  · rintro rfl
    exact .done

theorem readUntil_zero (fuel : Nat) : readUntil fuel 0 strm = some ([], strm) := by
  cases fuel <;> rfl

theorem readUntil_zero_iff (fuel : Nat) :
    readUntil fuel 0 strm = some (part, rest) ↔ part.length = 0 ∧ InSegments part strm rest := by
  rw [readUntil_zero, List.length_eq_zero_iff, Option.some.injEq, Prod.mk.injEq]
  constructor
  · rintro ⟨rfl, rfl⟩
    exact ⟨rfl, .done⟩
  · rintro ⟨rfl, h⟩
    exact ⟨rfl, (inSegments_nil_iff.mp h).symm⟩

theorem readUntil_eq_some_iff {fuel size : Nat} (hfuel : size ≤ fuel) :
    readUntil fuel size strm = some (part, rest) ↔ part.length = size ∧ InSegments part strm rest := by
  induction fuel generalizing size strm part with
  | zero =>
    obtain rfl := Nat.le_zero.mp hfuel
    exact readUntil_zero_iff 0
  | succ fuel ih =>
    cases size with
    | zero => exact readUntil_zero_iff (fuel + 1)
    | succ size =>
      rw [readUntil]
      constructor
      · intro h
        obtain ⟨hsome, h⟩ := Option.ite_none_left_eq_some.mp h
        obtain ⟨more, hmore, h⟩ := Option.map_eq_some_iff.mp h
        cases h
        cases strm with
        | nil => exact absurd rfl hsome
        | cons seg segs =>
          have hread : readSome (size + 1) (seg :: segs) = if seg.length ≤ size + 1 then (seg, segs)
            else (seg.take (size + 1), seg.drop (size + 1) :: segs) := rfl
          by_cases hshort : seg.length ≤ size + 1
          · rw [hread, if_pos hshort] at hsome hmore ⊢
            have hseg : seg ≠ [] := fun hnil => hsome (by rw [hnil]; rfl)
            have hpos := List.length_pos_iff.mpr hseg
            obtain ⟨hlength, hrest⟩ := (ih (by dsimp only; omega)).mp hmore
            refine ⟨?_, .all hseg hrest⟩
            rw [List.length_append, hlength]
            dsimp only
            omega
          · rw [hread, if_neg hshort] at hmore ⊢
            have hlength : (seg.take (size + 1)).length = size + 1 := by
              rw [List.length_take]
              omega
            dsimp only at hmore ⊢
            rw [hlength, Nat.sub_self, readUntil_zero] at hmore
            cases hmore
            rw [List.append_nil]
            have hpart : seg.take (size + 1) ≠ [] := List.length_pos_iff.mp (by omega)
            have hmore : seg.drop (size + 1) ≠ [] := by
              rw [ne_eq, List.drop_eq_nil_iff]
              exact hshort
            have hfront : InSegments _ (_ :: segs) _ := .front hpart hmore
            rw [List.take_append_drop] at hfront
            exact ⟨hlength, hfront⟩
      · rintro ⟨hlength, h⟩
        cases h with
        | done => cases hlength
        | @all seg part segs _ hseg h =>
          rw [List.length_append] at hlength
          have hpos := List.length_pos_iff.mpr hseg
          have hshort : seg.length ≤ size + 1 := by omega
          have hsome : ¬ seg.isEmpty = true := by rwa [List.isEmpty_iff]
          have hrest := (@ih part segs (size + 1 - seg.length) (by omega)).mpr ⟨by omega, h⟩
          rw [readSome, if_pos hshort, if_neg hsome, hrest, Option.map_some]
        | @front _ more segs hpart hmore =>
          have hpos := List.length_pos_iff.mpr hmore
          have hlong : ¬ (part ++ more).length ≤ part.length := by
            rw [List.length_append]
            omega
          have hsome : ¬ part.isEmpty = true := by rwa [List.isEmpty_iff]
          rw [← hlength, readSome, if_neg hlong, List.take_left, List.drop_left, if_neg hsome,
            Nat.sub_self, readUntil_zero, Option.map_some, List.append_nil]

end
end Library
