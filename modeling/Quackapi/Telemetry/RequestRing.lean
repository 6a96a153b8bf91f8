import Mathlib.Data.List.Basic
import Mathlib.Data.List.Range
import Mathlib.Data.Nat.ModEq

/-! The ring of the last requests: a fixed vector, written round and round. It never looks into a
record. -/

namespace Quackapi.Telemetry

structure RequestRing (α : Type*) where
  records : List α
  head : Nat
  count : Nat

namespace RequestRing
variable {α : Type*}

/-- A vector of records that nobody has written yet. -/
def ofCapacity (blank : α) (capacity : Nat) : RequestRing α where
  records := List.replicate capacity blank
  head := 0
  count := 0

def push (ring : RequestRing α) (record : α) : RequestRing α :=
  if ring.records = [] then ring
  else
    { records := ring.records.set ring.head record
      head := (ring.head + 1) % ring.records.length
      count := if ring.count < ring.records.length then ring.count + 1 else ring.count }

def snapshot (ring : RequestRing α) : List α :=
  if h : ring.records = [] then []
  else
    let first := if ring.count = ring.records.length then ring.head else 0
    (List.range ring.count).map fun i =>
      ring.records.get ⟨(first + i) % ring.records.length, Nat.mod_lt _ (List.length_pos_iff.mpr h)⟩

/-- The ring after these pushes: record `i` of the last `capacity` ones is in slot `i % capacity`, and
the next one goes behind the newest. -/
structure Holds (capacity : Nat) (pushed : List α) (ring : RequestRing α) : Prop where
  size : ring.records.length = capacity
  count : ring.count = min pushed.length capacity
  head : 0 < capacity → ring.head = pushed.length % capacity
  slots : ∀ i, i < pushed.length → pushed.length ≤ i + capacity →
    ring.records[i % capacity]? = pushed[i]?

theorem holds_ofCapacity (blank : α) (capacity : Nat) :
    Holds capacity [] (ofCapacity blank capacity) where
  size := List.length_replicate
  count := (Nat.zero_min capacity).symm
  head _ := (Nat.zero_mod capacity).symm
  slots _ hi := absurd hi (Nat.not_lt_zero _)

theorem slot_ne {capacity i j : Nat} (hij : i < j) (hj : j < i + capacity) :
    i % capacity ≠ j % capacity := by
  intro h
  have hdvd : capacity ∣ j - i := (Nat.modEq_iff_dvd' hij.le).mp h
  have hle : capacity ≤ j - i := Nat.le_of_dvd (Nat.sub_pos_of_lt hij) hdvd
  omega

theorem Holds.push {capacity : Nat} {pushed : List α} {ring : RequestRing α}
    (h : Holds capacity pushed ring) (record : α) :
    Holds capacity (pushed ++ [record]) (ring.push record) := by
  have hsize := h.size
  have hlength : (pushed ++ [record]).length = pushed.length + 1 := List.length_append
  rcases Nat.eq_zero_or_pos capacity with rfl | hpos
  · have hsame : ring.push record = ring := if_pos (List.length_eq_zero_iff.mp hsize)
    rw [hsame]
    exact {
      size := hsize
      count := by rw [h.count, Nat.min_zero, Nat.min_zero]
      head := fun hzero => absurd hzero (Nat.lt_irrefl 0)
      slots := fun i hi hlast => by omega }
  · have hne : ring.records ≠ [] := List.length_pos_iff.mp (hsize.symm ▸ hpos)
    have hcount := h.count
    rw [RequestRing.push, if_neg hne]
    exact {
      size := by rw [List.length_set, hsize]
      count := by
        show (if ring.count < ring.records.length then ring.count + 1 else ring.count) = _
        rw [hlength, hsize]
        split_ifs <;> omega
      head := fun _ => by rw [hsize, hlength, h.head hpos, Nat.mod_add_mod]
      slots := fun i hi hlast => by
        rw [hlength] at hi hlast
        rw [h.head hpos]
        rcases Nat.lt_succ_iff_lt_or_eq.mp hi with hold | rfl
        · rw [List.getElem?_set_ne (slot_ne hold (by omega)).symm, List.getElem?_append_left hold]
          exact h.slots i hold (by omega)
        · rw [List.getElem?_set_self (by rw [hsize]; exact Nat.mod_lt _ hpos),
            List.getElem?_concat_length] }

theorem holds_pushes (blank : α) (capacity : Nat) (pushed : List α) :
    Holds capacity pushed (pushed.foldl RequestRing.push (ofCapacity blank capacity)) := by
  induction pushed using List.reverseRecOn with
  | nil => exact holds_ofCapacity blank capacity
  | append_singleton pushed record ih =>
    rw [List.foldl_append]
    exact ih.push record

theorem Holds.first_slot {capacity : Nat} {pushed : List α} {ring : RequestRing α}
    (h : Holds capacity pushed ring) (hpos : 0 < capacity) (i : Nat) :
    ((if ring.count = ring.records.length then ring.head else 0) + i) % capacity =
      (pushed.length - min pushed.length capacity + i) % capacity := by
  rw [h.count, h.size]
  rcases Nat.lt_or_ge pushed.length capacity with hfew | hfull
  · rw [Nat.min_eq_left hfew.le, if_neg (Nat.ne_of_lt hfew), Nat.sub_self]
  · have hsplit : pushed.length + i = pushed.length - capacity + i + capacity := by omega
    rw [Nat.min_eq_right hfull, if_pos rfl, h.head hpos, Nat.mod_add_mod, hsplit, Nat.add_mod_right]

theorem Holds.snapshot_eq {capacity : Nat} {pushed : List α} {ring : RequestRing α}
    (h : Holds capacity pushed ring) :
    ring.snapshot = pushed.drop (pushed.length - min pushed.length capacity) := by
  rw [snapshot]
  by_cases hempty : ring.records = []
  · have hzero : capacity = 0 := by rw [← h.size, hempty, List.length_nil]
    rw [dif_pos hempty, hzero, Nat.min_zero, Nat.sub_zero, List.drop_length]
  · have hpos : 0 < capacity := h.size ▸ List.length_pos_iff.mpr hempty
    have hcount := h.count
    rw [dif_neg hempty]
    apply List.ext_getElem?
    intro i
    rw [List.getElem?_map, List.getElem?_drop]
    by_cases hi : i < ring.count
    · have hslot := h.slots (pushed.length - min pushed.length capacity + i) (by omega) (by omega)
      rw [← h.first_slot hpos i] at hslot
      rw [List.getElem?_range hi, Option.map_some, ← hslot, ← h.size, List.get_eq_getElem,
        List.getElem?_eq_getElem]
    · have hnone : (List.range ring.count)[i]? = none := by
        rw [List.getElem?_eq_none_iff, List.length_range]
        exact Nat.le_of_not_lt hi
      rw [hnone, Option.map_none, List.getElem?_eq_none (by omega)]

/-- A snapshot has the last records, as many as fit, the oldest first. -/
theorem snapshot_pushes (blank : α) (capacity : Nat) (pushed : List α) :
    (pushed.foldl RequestRing.push (ofCapacity blank capacity)).snapshot =
      pushed.drop (pushed.length - min pushed.length capacity) :=
  (holds_pushes blank capacity pushed).snapshot_eq

end RequestRing
end Quackapi.Telemetry
