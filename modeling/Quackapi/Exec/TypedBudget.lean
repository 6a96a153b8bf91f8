import Quackapi.Exec.Result
import Quackapi.Library.ExceptRules
import Mathlib.Algebra.BigOperators.Group.List.Basic
import Mathlib.Algebra.Ring.Nat
import Mathlib.Data.List.Induction
import Mathlib.Data.Nat.Log

/-! The byte budget of typed rows. The collector adds up the sizes of single rows and measures the
count anew for every row; the result is measured as a whole at its end. -/

namespace Quackapi.Exec
open Library

/-- The size of a count: a byte for seven bits of it, and one for zero. -/
def varintBytes (n : Nat) : Nat := Nat.log 128 n + 1

/-- The counting stream stops at the largest size there is. -/
def counted (size : Nat) : Nat := min idxMax size

/-- A native codec that writes one value behind the other, and the number of a list's values as a
varint. A result is a schema around its list of rows. -/
structure AdditiveCodec (V : Type) extends NativeCodec V where
  rowSize : List V → Nat
  listHeader : Nat
  schemaHeader : List Str → Nat
  countHeader : Nat
  rowsBytes_eq : ∀ rows,
    rowsBytes rows = counted (listHeader + varintBytes rows.length + (rows.map rowSize).sum)
  resultBytes_eq : ∀ columns rows,
    resultBytes columns rows = counted (schemaHeader columns + varintBytes rows.length + (rows.map rowSize).sum)
  countBytes_eq : ∀ n, countBytes n = countHeader + varintBytes n
  wraps : ∀ columns, listHeader ≤ schemaHeader columns

def collectRows {V : Type} (codec : NativeCodec V) (maxBytes : Nat) (names : List Str)
    (rows : List (List V)) : Except ExecStop (TypedCollector V) :=
  rows.foldlM (appendRow codec maxBytes) (newCollector codec names)

theorem varintBytes_pos (n : Nat) : 1 ≤ varintBytes n := Nat.le_add_left 1 _

theorem saturatingAdd_eq {lhs : Nat} (h : lhs ≤ idxMax) (rhs : Nat) :
    saturatingAdd lhs rhs = min idxMax (lhs + rhs) := by
  unfold saturatingAdd
  split <;> omega

theorem counted_le (size : Nat) : counted size ≤ idxMax := Nat.min_le_left _ _

section
variable {V : Type} {codec : AdditiveCodec V} {maxBytes : Nat} {names : List Str}

namespace AdditiveCodec

/-- What the collector counts for a row: a list of this row alone against the empty list. -/
def rowDelta (codec : AdditiveCodec V) (row : List V) : Nat :=
  codec.rowsBytes [row] - codec.rowsBytes []

def payload (codec : AdditiveCodec V) (rows : List (List V)) : Nat := (rows.map codec.rowDelta).sum

theorem rowDelta_eq (row : List V) : codec.rowDelta row =
    counted (codec.listHeader + 1 + codec.rowSize row) - counted (codec.listHeader + 1) := by
  have hone : varintBytes 1 = 1 := rfl
  have hzero : varintBytes 0 = 1 := rfl
  simp only [rowDelta, codec.rowsBytes_eq, List.length_cons, List.length_nil, List.map_cons, List.map_nil,
    List.sum_cons, List.sum_nil, hone, hzero, Nat.add_zero, Nat.zero_add]

theorem counted_payload (columns : List Str) (rows : List (List V)) (rest : Nat) :
    min idxMax (codec.schemaHeader columns + 1 + codec.payload rows + rest) =
      min idxMax (codec.schemaHeader columns + 1 + (rows.map codec.rowSize).sum + rest) := by
  induction rows generalizing rest with
  | nil => rfl
  | cons row rows ih =>
    have hwraps := codec.wraps columns
    have hrest := ih (codec.rowDelta row + rest)
    have hdelta := codec.rowDelta_eq row
    simp only [payload, List.map_cons, List.sum_cons, counted] at hrest hdelta ⊢
    omega

end AdditiveCodec

theorem appendRow_eq {t : TypedCollector V} {row : List V} (hlength : row.length = t.columns.length)
    (hpayload : t.rowPayloadBytes = counted (codec.payload t.rows)) :
    appendRow codec.toNativeCodec maxBytes t row =
      if maxBytes < codec.resultBytes t.columns (t.rows ++ [row]) then .error .typedTooLarge
      else .ok ⟨t.columns, t.rows ++ [row], counted (codec.payload (t.rows ++ [row]))⟩ := by
  have hgrows : ¬ codec.rowsBytes [row] < codec.rowsBytes [] := by
    have hone : varintBytes 1 = 1 := rfl
    have hzero : varintBytes 0 = 1 := rfl
    simp only [codec.rowsBytes_eq, counted, List.length_cons, List.length_nil, List.map_cons, List.map_nil,
      List.sum_cons, List.sum_nil, hone, hzero, Nat.add_zero, Nat.zero_add]
    omega
  have hcount : ¬ codec.countBytes (t.rows.length + 1) < codec.countBytes 0 := by
    have hzero : varintBytes 0 = 1 := rfl
    have hpos := varintBytes_pos (t.rows.length + 1)
    rw [codec.countBytes_eq, codec.countBytes_eq, hzero]
    omega
  have hnext : codec.payload (t.rows ++ [row]) = codec.payload t.rows + codec.rowDelta row := by
    rw [AdditiveCodec.payload, List.map_append, List.sum_append, List.map_singleton, List.sum_singleton]
    rfl
  have hdelta : codec.rowsBytes [row] - codec.rowsBytes [] = codec.rowDelta row := rfl
  have hsum : saturatingAdd t.rowPayloadBytes (codec.rowDelta row) = counted (codec.payload (t.rows ++ [row])) := by
    rw [hpayload, saturatingAdd_eq (counted_le _), hnext]
    simp only [counted]
    omega
  have hpredicted : saturatingAdd (saturatingAdd (saturatingAdd (codec.resultBytes t.columns [])
      t.rowPayloadBytes) (codec.rowDelta row))
      (codec.countBytes (t.rows.length + 1) - codec.countBytes 0) =
        codec.resultBytes t.columns (t.rows ++ [row]) := by
    have hzero : varintBytes 0 = 1 := rfl
    have hpos := varintBytes_pos (t.rows.length + 1)
    have hwhole := codec.counted_payload t.columns (t.rows ++ [row]) (varintBytes (t.rows.length + 1) - 1)
    have hlengths : (t.rows ++ [row]).length = t.rows.length + 1 := List.length_append
    rw [hnext] at hwhole
    rw [hpayload, codec.resultBytes_eq, codec.resultBytes_eq, codec.countBytes_eq, codec.countBytes_eq, hlengths,
      List.length_nil, hzero, List.map_nil, List.sum_nil, saturatingAdd_eq (counted_le _),
      saturatingAdd_eq (Nat.min_le_left _ _), saturatingAdd_eq (Nat.min_le_left _ _)]
    simp only [counted]
    omega
  unfold appendRow
  rw [if_neg (not_not_intro hlength), if_neg hgrows, if_neg hcount, hdelta]
  dsimp only
  rw [hpredicted, hsum]

structure Collected (codec : AdditiveCodec V) (rows : List (List V)) (t : TypedCollector V) : Prop where
  held : t.rows = rows
  payload : t.rowPayloadBytes = counted (codec.payload rows)

theorem appendRow_length {native : NativeCodec V} {t t' : TypedCollector V} {row : List V}
    (h : appendRow native maxBytes t row = .ok t') : row.length = t.columns.length := by
  by_contra hne
  unfold appendRow at h
  rw [if_pos hne] at h
  cases h

theorem collected_append {rows : List (List V)} {row : List V} {t t' : TypedCollector V}
    (ht : Collected codec rows t) (h : appendRow codec.toNativeCodec maxBytes t row = .ok t') :
    Collected codec (rows ++ [row]) t' ∧ codec.resultBytes t'.columns (rows ++ [row]) ≤ maxBytes := by
  obtain ⟨rfl, hpayload⟩ := ht
  rw [appendRow_eq (appendRow_length h) hpayload] at h
  split at h
  · cases h
  · next hfits =>
    cases h
    exact ⟨⟨rfl, rfl⟩, Nat.le_of_not_lt hfits⟩

theorem collected_rows {rows : List (List V)} {t : TypedCollector V}
    (h : collectRows codec.toNativeCodec maxBytes names rows = .ok t) :
    Collected codec rows t ∧
      (codec.resultBytes t.columns [] ≤ maxBytes → codec.resultBytes t.columns rows ≤ maxBytes) := by
  induction rows using List.reverseRecOn generalizing t with
  | nil =>
    cases h
    exact ⟨⟨rfl, rfl⟩, id⟩
  | append_singleton rows row ih =>
    rw [collectRows, List.foldlM_append] at h
    obtain ⟨before, hbefore, h⟩ := bind_eq_ok.mp h
    rw [List.foldlM_cons] at h
    obtain ⟨after, hafter, h⟩ := bind_eq_ok.mp h
    cases h
    obtain ⟨hcollected, hfits⟩ := collected_append (ih hbefore).1 hafter
    exact ⟨hcollected, fun _ => hfits⟩

end

/-- After any rows that were appended, the next one is refused exactly if the result with it exceeds the
budget; and the result of what was appended is within it, so that finishing gives these rows. -/
theorem typed_budget_exact {V : Type} (codec : AdditiveCodec V) (maxBytes : Nat) (names : List Str)
    (rows : List (List V)) (t : TypedCollector V)
    (h : collectRows codec.toNativeCodec maxBytes names rows = .ok t) :
    (∀ row : List V, row.length = t.columns.length →
      ((∃ stop, appendRow codec.toNativeCodec maxBytes t row = .error stop) ↔
        maxBytes < codec.resultBytes t.columns (rows ++ [row]))) ∧
      (codec.resultBytes t.columns [] ≤ maxBytes →
        finishRows codec.toNativeCodec maxBytes t = .ok ⟨t.columns, rows⟩ ∧
          codec.resultBytes t.columns rows ≤ maxBytes) := by
  obtain ⟨⟨hrows, hpayload⟩, hfits⟩ := collected_rows h
  rw [← hrows] at hpayload hfits ⊢
  constructor
  · intro row hlength
    rw [appendRow_eq hlength hpayload]
    split
    · next hover => exact iff_of_true ⟨_, rfl⟩ hover
    · next hover => exact iff_of_false (fun ⟨_, hstop⟩ => by cases hstop) hover
  · intro hempty
    refine ⟨?_, hfits hempty⟩
    unfold finishRows
    rw [if_neg (Nat.not_lt.mpr (hfits hempty))]

def byteCodec : AdditiveCodec Unit where
  isNull _ := false
  toText _ := []
  toJson _ := []
  rowsBytes rows := counted (3 + varintBytes rows.length + (rows.map List.length).sum)
  resultBytes columns rows :=
    counted (8 + columns.length + varintBytes rows.length + (rows.map List.length).sum)
  countBytes n := 2 + varintBytes n
  deduplicateColumns names := names
  rowSize := List.length
  listHeader := 3
  schemaHeader columns := 8 + columns.length
  countHeader := 2
  rowsBytes_eq _ := rfl
  resultBytes_eq _ _ := rfl
  countBytes_eq _ := rfl
  wraps _ := by omega

/-- Twelve bytes hold two rows of one column, and no third one. -/
theorem typed_budget_exact_two :
    ∃ stop, appendRow byteCodec.toNativeCodec 12 ⟨["n".toList], [[()], [()]], 2⟩ [()] = .error stop := by
  have hrows : collectRows byteCodec.toNativeCodec 12 ["n".toList] [[()], [()]] =
      .ok ⟨["n".toList], [[()], [()]], 2⟩ := by rfl
  refine ((typed_budget_exact byteCodec 12 ["n".toList] [[()], [()]] _ hrows).1 [()] rfl).mpr ?_
  decide

end Quackapi.Exec
