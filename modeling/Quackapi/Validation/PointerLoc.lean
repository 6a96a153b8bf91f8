import Quackapi.Openapi.Text
import Quackapi.Validation.Grammar

/-! Where a request body breaks its schema: a JSON Pointer turned into the path of the error, in step
with the body it points into. -/

namespace Quackapi.Validation
open Library
open Openapi (jsonArray ReadsAs readsAs_string readsAs_array_forall₂)

def isCanonicalArrayIndex (segment : Str) : Bool :=
  !(segment.isEmpty || (decide (1 < segment.length) && segment.head? == some '0')) &&
    segment.all Char.isDigit

def decodeJsonPointerSegment : Str → Str
  | '~' :: '0' :: s => '~' :: decodeJsonPointerSegment s
  | '~' :: '1' :: s => '/' :: decodeJsonPointerSegment s
  | c :: s => c :: decodeJsonPointerSegment s
  | [] => []

/-- `idx_t(-1)` -/
def idxMax : Nat := 2 ^ 64 - 1

def digitOf (c : Char) : Nat := c.toNat - '0'.toNat

/-- The index so far, and the digits that are left. -/
def parseIndexFrom : Nat → Str → Nat
  | index, [] => index
  | index, c :: s =>
    if (idxMax - digitOf c) / 10 < index then idxMax else parseIndexFrom (index * 10 + digitOf c) s

def parseIndex (segment : Str) : Nat := parseIndexFrom 0 segment

def findMember (members : List (Str × JsonNode)) (name : Str) : Option JsonNode := members.lookup name

/-- One segment: its element, and the node that the pointer goes on from. -/
def locStep (current : Option JsonNode) (segment : Str) : Str × Option JsonNode :=
  match current with
  | some (.array children) =>
    if isCanonicalArrayIndex segment then (segment, children[parseIndex segment]?)
    else (jsonString segment, none)
  | some (.object members) => (jsonString segment, findMember members segment)
  | _ => (jsonString segment, none)

/-- The elements of the segments, each behind a comma. -/
def locSegments : Option JsonNode → List Str → Str
  | _, [] => []
  | current, raw :: rest =>
    let (element, next) := locStep current (decodeJsonPointerSegment raw)
    ',' :: element ++ locSegments next rest

def quackapiValidationBodyPointerLoc (pointer body : Str) : Str :=
  if pointer.isEmpty then "[\"body\"]".toList
  else
    "[\"body\"".toList ++
      locSegments (parseDocument body)
        ((if pointer.head? = some '/' then pointer.drop 1 else pointer).splitOn '/') ++
      [']']

/-- An index as JSON Pointer has it: digits, without a zero in front. -/
def indexValue (segment : Str) : Nat := segment.foldl (fun n c => 10 * n + digitOf c) 0

def IsArray : Option Json → Prop
  | some (.array _) => True
  | _ => False

open Classical in
/-- The value a segment leads to from another. -/
noncomputable def stepInto (j : Json) (segment : Str) : Option Json :=
  match j with
  | .array items => if IsWhole segment then items[indexValue segment]? else none
  | .object members => members.lookup segment
  | _ => none

noncomputable def valueAt (j : Json) (segments : List Str) : Option Json := segments.foldlM stepInto j

/-- `~1` becomes a slash, and then `~0` a tilde. -/
def unescapeSlashes : Str → Str
  | '~' :: '1' :: s => '/' :: unescapeSlashes s
  | c :: s => c :: unescapeSlashes s
  | [] => []

def unescapeTildes : Str → Str
  | '~' :: '0' :: s => '~' :: unescapeTildes s
  | c :: s => c :: unescapeTildes s
  | [] => []

/-- The segments of a pointer behind its first slash, unescaped. -/
def pointerSegments (pointer : Str) : List Str :=
  (pointer.splitOn '/').map fun raw => unescapeTildes (unescapeSlashes raw)

theorem unescapeSlashes_cons {c : Char} {s : Str} (h : c = '~' → s.head? ≠ some '1') :
    unescapeSlashes (c :: s) = c :: unescapeSlashes s := by
  rw [unescapeSlashes]
  rintro t rfl rfl
  exact h rfl rfl

theorem unescapeTildes_cons {c : Char} {s : Str} (h : c = '~' → s.head? ≠ some '0') :
    unescapeTildes (c :: s) = c :: unescapeTildes s := by
  rw [unescapeTildes]
  rintro t rfl rfl
  exact h rfl rfl

theorem head_unescapeSlashes {s : Str} (h : (unescapeSlashes s).head? = some '0') :
    s.head? = some '0' := by
  fun_cases unescapeSlashes s with
  | case1 t =>
    rw [unescapeSlashes, List.head?_cons] at h
    exact absurd h (by decide)
  | case2 c t hplain => rwa [unescapeSlashes.eq_2 c t hplain] at h
  | case3 => exact h

theorem decodeJsonPointerSegment_eq (raw : Str) :
    decodeJsonPointerSegment raw = unescapeTildes (unescapeSlashes raw) := by
  induction raw using decodeJsonPointerSegment.induct with
  | case1 s ih =>
    have hzero : unescapeSlashes ('0' :: s) = '0' :: unescapeSlashes s :=
      unescapeSlashes_cons fun h => absurd h (by decide)
    have htilde : unescapeSlashes ('~' :: '0' :: s) = '~' :: unescapeSlashes ('0' :: s) := by
      apply unescapeSlashes_cons
      rw [List.head?_cons]
      exact fun _ => by simp
    rw [decodeJsonPointerSegment, htilde, hzero, unescapeTildes, ih]
  | case2 s ih =>
    have hslash :
        unescapeTildes ('/' :: unescapeSlashes s) = '/' :: unescapeTildes (unescapeSlashes s) :=
      unescapeTildes_cons fun h => absurd h (by decide)
    rw [decodeJsonPointerSegment, unescapeSlashes, hslash, ih]
  | case3 c s hzero hone ih =>
    have hslashes : unescapeSlashes (c :: s) = c :: unescapeSlashes s :=
      unescapeSlashes.eq_2 c s hone
    have htilde : c = '~' → (unescapeSlashes s).head? ≠ some '0' := by
      rintro rfl hhead
      obtain ⟨t, rfl⟩ := List.head?_eq_some_iff.mp (head_unescapeSlashes hhead)
      exact hzero t rfl rfl
    rw [decodeJsonPointerSegment.eq_3 c s hzero hone, hslashes, unescapeTildes_cons htilde, ih]
  | case4 => rfl

theorem isCanonicalArrayIndex_iff (segment : Str) :
    isCanonicalArrayIndex segment = true ↔ IsWhole segment := by
  rw [isCanonicalArrayIndex, IsWhole, IsDigits, Bool.and_eq_true, List.all_eq_true]
  cases segment with
  | nil => simp
  | cons c s => cases s <;> simp [and_comm]

theorem digitOf_lt {c : Char} (h : c.isDigit = true) : digitOf c < 10 := by
  rw [Char.isDigit, Bool.and_eq_true, decide_eq_true_iff, decide_eq_true_iff] at h
  have hle : c.toNat ≤ 57 := h.2
  have hzero : '0'.toNat = 48 := rfl
  rw [digitOf]
  omega

theorem le_foldl_index (index : Nat) (s : Str) :
    index ≤ s.foldl (fun n c => 10 * n + digitOf c) index := by
  induction s generalizing index with
  | nil => exact Nat.le_refl index
  | cons c s ih =>
    rw [List.foldl_cons]
    refine Nat.le_trans ?_ (ih (10 * index + digitOf c))
    omega

theorem parseIndexFrom_eq {index : Nat} {s : Str} (h : index ≤ idxMax)
    (hdigits : ∀ c ∈ s, c.isDigit = true) :
    parseIndexFrom index s = min (s.foldl (fun n c => 10 * n + digitOf c) index) idxMax := by
  induction s generalizing index with
  | nil => exact (Nat.min_eq_left h).symm
  | cons c s ih =>
    have hdigit := digitOf_lt (hdigits c List.mem_cons_self)
    have hmax : 10 ≤ idxMax := by decide
    rw [parseIndexFrom, List.foldl_cons]
    by_cases hover : (idxMax - digitOf c) / 10 < index
    · have hlarge := le_foldl_index (10 * index + digitOf c) s
      rw [if_pos hover, Nat.min_eq_right (by omega)]
    · rw [if_neg hover, Nat.mul_comm index 10]
      exact ih (by omega) fun d hd => hdigits d (List.mem_cons_of_mem c hd)

theorem getElem?_parseIndex {α : Type*} {items : List α} (hsize : items.length ≤ idxMax)
    {segment : Str} (h : IsWhole segment) : items[parseIndex segment]? = items[indexValue segment]? := by
  have hparse : parseIndex segment = min (indexValue segment) idxMax :=
    parseIndexFrom_eq (Nat.zero_le idxMax) h.1.2
  rcases Nat.le_total (indexValue segment) idxMax with hle | hle
  · rw [hparse, Nat.min_eq_left hle]
  · have hout : items.length ≤ indexValue segment := Nat.le_trans hsize hle
    rw [hparse, Nat.min_eq_right hle, List.getElem?_eq_none hsize, List.getElem?_eq_none hout]

theorem findMember_memberNodesOf (members : List (Str × Json)) (name : Str) :
    findMember (memberNodesOf members) name = (members.lookup name).map nodeOf := by
  rw [findMember, memberNodesOf_eq_map]
  induction members with
  | nil => rfl
  | cons m ms ih =>
    obtain ⟨key, j⟩ := m
    rw [List.map_cons, memberNodeOf, List.lookup_cons, List.lookup_cons, ih]
    cases name == key <;> rfl

/-- A value that some text not longer than the bound stands for. -/
def FitsIn (bound : Nat) (j : Json) : Prop := ∃ text, JsonText appendUtf8 text j ∧ text.length ≤ bound

theorem FitsIn.of_part {bound : Nat} {i j : Json} (h : FitsIn bound j) (hi : i ∈ j.parts) :
    FitsIn bound i := by
  obtain ⟨text, htext, hbound⟩ := h
  obtain ⟨t, ht, hle⟩ := htext.text_of_part hi
  exact ⟨t, ht, Nat.le_trans hle hbound⟩

theorem FitsIn.length_parts {bound : Nat} {j : Json} (h : FitsIn bound j) : j.parts.length ≤ bound := by
  obtain ⟨text, htext, hbound⟩ := h
  exact Nat.le_trans htext.length_parts hbound

theorem stepInto_mem_parts {i j : Json} {segment : Str} (h : stepInto j segment = some i) :
    i ∈ j.parts := by
  cases j with
  | scalar => cases h
  | string => cases h
  | array items =>
    rw [stepInto] at h
    split at h
    · exact List.mem_of_getElem? h
    · cases h
  | object members =>
    rw [stepInto] at h
    obtain ⟨before, after, rfl, _⟩ := List.lookup_eq_some_iff.mp h
    exact List.mem_map.mpr ⟨(segment, i), List.mem_append_right before List.mem_cons_self, rfl⟩

open Classical in
/-- What the location says of a segment, where its parent is this value. -/
noncomputable def locElement (parent : Option Json) (segment : Str) : Json :=
  if IsArray parent ∧ IsWhole segment then .scalar segment else .string segment

theorem isScalar_whole {s : Str} (h : IsWhole s) : IsScalar s :=
  .inr (.inr (.inr ⟨[], s, [], [], by simp, .inl rfl, h, .inl rfl, .inl rfl⟩))

theorem locElement_string {parent : Option Json} {segment : Str}
    (h : ¬ (IsArray parent ∧ IsWhole segment)) :
    ReadsAs (jsonString segment) (locElement parent segment) := by
  rw [locElement, if_neg h]
  exact readsAs_string segment

theorem locStep_nodeOf {current : Option Json} (hsize : ∀ j ∈ current, FitsIn idxMax j)
    (segment : Str) :
    ReadsAs (locStep (current.map nodeOf) segment).1 (locElement current segment) ∧
      (locStep (current.map nodeOf) segment).2 = (current.bind (stepInto · segment)).map nodeOf := by
  cases current with
  | none => exact ⟨locElement_string fun h => h.1, rfl⟩
  | some j =>
    cases j with
    | scalar text =>
      rw [Option.map_some, nodeOf]
      refine ⟨?_, ?_⟩
      · split_ifs <;> exact locElement_string fun h => h.1
      · split_ifs <;> rfl
    | string s => exact ⟨locElement_string fun h => h.1, rfl⟩
    | array items =>
      rw [Option.map_some, nodeOf, nodesOf_eq_map, locStep, Option.bind_some, stepInto]
      by_cases hwhole : IsWhole segment
      · have hlength : items.length ≤ idxMax := (hsize _ rfl).length_parts
        rw [if_pos ((isCanonicalArrayIndex_iff segment).mpr hwhole), if_pos hwhole, locElement,
          if_pos ⟨trivial, hwhole⟩, List.getElem?_map, getElem?_parseIndex hlength hwhole]
        exact ⟨.scalar (isScalar_whole hwhole), rfl⟩
      · rw [if_neg fun h => hwhole ((isCanonicalArrayIndex_iff segment).mp h), if_neg hwhole]
        exact ⟨locElement_string fun h => hwhole h.2, rfl⟩
    | object members =>
      refine ⟨locElement_string fun h => h.1, ?_⟩
      rw [Option.map_some, nodeOf, locStep, findMember_memberNodesOf]
      rfl

theorem valueAt_cons (j : Json) (segment : Str) (segments : List Str) :
    valueAt j (segment :: segments) = (stepInto j segment).bind (valueAt · segments) := rfl

theorem locSegments_nodeOf {current : Option Json} (hsize : ∀ j ∈ current, FitsIn idxMax j)
    (raws : List Str) :
    ∃ texts, locSegments (current.map nodeOf) raws = texts.flatMap (',' :: ·) ∧
      List.Forall₂ ReadsAs texts ((raws.map decodeJsonPointerSegment).mapIdx fun i segment =>
        locElement (current.bind
          (valueAt · ((raws.map decodeJsonPointerSegment).take i))) segment) := by
  induction raws generalizing current with
  | nil => exact ⟨[], rfl, .nil⟩
  | cons raw rest ih =>
    have hstep := locStep_nodeOf hsize (decodeJsonPointerSegment raw)
    have hnext : ∀ i ∈ current.bind (stepInto · (decodeJsonPointerSegment raw)), FitsIn idxMax i := by
      intro i hi
      obtain ⟨j, hj, hij⟩ := Option.bind_eq_some_iff.mp hi
      exact (hsize j hj).of_part (stepInto_mem_parts hij)
    obtain ⟨texts, htexts, hread⟩ := ih hnext
    refine ⟨(locStep (current.map nodeOf) (decodeJsonPointerSegment raw)).1 :: texts, ?_, ?_⟩
    · rw [List.flatMap_cons, ← htexts, ← hstep.2]
      rfl
    · rw [List.map_cons, List.mapIdx_cons]
      refine .cons ?_ ?_
      · rw [List.take_zero, show (valueAt · []) = some from rfl, Option.bind_fun_some]
        exact hstep.1
      · simpa only [List.take_succ_cons, valueAt_cons, Option.bind_assoc] using hread

theorem commaed_eq_flatMap (t : Str) (texts : List Str) :
    commaed (t :: texts) = t ++ texts.flatMap (',' :: ·) := by
  induction texts generalizing t with
  | nil => rw [commaed_singleton, List.flatMap_nil, List.append_nil]
  | cons u texts ih => rw [commaed_cons_cons, ih u, List.flatMap_cons, List.cons_append]

/-- The location begins with the body and has an element for each segment of the pointer: a number where
the segment is an index into an array, and else the string of the segment. -/
theorem body_pointer_loc {body : Str} {j : Json} (hbody : JsonText appendUtf8 body j)
    (hlevels : Within maxNestingDepth j) (hsize : body.length < 2 ^ 64) (pointer : Str) :
    ReadsAs (quackapiValidationBodyPointerLoc ('/' :: pointer) body)
      (.array (.string "body".toList :: (pointerSegments pointer).mapIdx fun i segment =>
        locElement (valueAt j ((pointerSegments pointer).take i)) segment)) := by
  have hfits : ∀ i ∈ some j, FitsIn idxMax i := by
    rintro i ⟨⟩
    exact ⟨body, hbody, Nat.le_sub_one_of_lt hsize⟩
  have hsegments : (pointer.splitOn '/').map decodeJsonPointerSegment = pointerSegments pointer :=
    List.map_congr_left fun raw _ => decodeJsonPointerSegment_eq raw
  obtain ⟨texts, htexts, hread⟩ := locSegments_nodeOf hfits (pointer.splitOn '/')
  rw [hsegments] at hread
  have htext : quackapiValidationBodyPointerLoc ('/' :: pointer) body =
      jsonArray (jsonString "body".toList :: texts) := by
    rw [quackapiValidationBodyPointerLoc, if_neg (by simp), List.head?_cons, if_pos rfl, List.drop_one,
      List.tail_cons, parseDocument_jsonText hbody hlevels, ← Option.map_some, htexts, jsonArray,
      commaed_eq_flatMap]
    rfl
  rw [htext]
  exact readsAs_array_forall₂ (.cons (readsAs_string _) hread)

theorem body_pointer_loc_nested :
    ReadsAs (quackapiValidationBodyPointerLoc "/0/~1".toList "[[7]]".toList)
      (.array [.string "body".toList, .scalar "0".toList, .string "/".toList]) := by
  have hdigit : ∀ c : Char, c.isDigit = true → IsWhole [c] := fun c hc =>
    ⟨⟨List.cons_ne_nil c [], List.forall_mem_singleton.mpr hc⟩,
      fun h => congrArg List.singleton (Option.some.inj h)⟩
  have hitem : ReadsAs "7".toList (.scalar "7".toList) := .scalar (isScalar_whole (hdigit '7' rfl))
  have hbody : ReadsAs "[[7]]".toList (.array [.array [.scalar "7".toList]]) :=
    readsAs_array_forall₂ (.cons (readsAs_array_forall₂ (.cons hitem .nil)) .nil)
  have hlevels : Within maxNestingDepth (.array [.array [.scalar "7".toList]]) :=
    .array (List.forall_mem_singleton.mpr (.array (List.forall_mem_singleton.mpr (.scalar _))))
  have hread := body_pointer_loc hbody hlevels (by decide) "0/~1".toList
  have hsegments : pointerSegments "0/~1".toList = ["0".toList, "/".toList] := rfl
  have hindex : locElement (valueAt (.array [.array [.scalar "7".toList]]) []) "0".toList =
      .scalar "0".toList :=
    if_pos ⟨trivial, hdigit '0' rfl⟩
  have hname : ∀ parent, locElement parent "/".toList = .string "/".toList := fun parent =>
    if_neg fun h => absurd (h.2.1.2 '/' List.mem_cons_self) (by decide)
  rw [hsegments, List.mapIdx_cons, List.mapIdx_cons, List.mapIdx_nil, List.take_zero, hindex,
    hname] at hread
  exact hread

end Quackapi.Validation
