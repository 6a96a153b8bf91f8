import Mathlib.Data.List.Nodup

/-! Tables of rows under a primary key. The key constraint is a field, so a table with two rows of
one key cannot be built; an update may change anything but the key. -/

namespace Library

structure KeyedTable {ρ κ : Type*} (key : ρ → κ) where
  rows : List ρ
  primaryKey : (rows.map key).Nodup

namespace KeyedTable
variable {ρ κ : Type*} {key : ρ → κ}

def empty : KeyedTable key := ⟨[], List.nodup_nil⟩

/-- `UPDATE … SET f WHERE p`. -/
def update (t : KeyedTable key) (p : ρ → Bool) (f : ρ → ρ) (hf : ∀ r, key (f r) = key r) :
    KeyedTable key where
  rows := t.rows.map fun r => if p r then f r else r
  primaryKey := by
    have hkeys : (t.rows.map fun r => if p r then f r else r).map key = t.rows.map key := by
      rw [List.map_map]
      refine List.map_congr_left fun r _ => ?_
      simp only [Function.comp_apply]
      split
      · exact hf r
      · rfl
    rw [hkeys]
    exact t.primaryKey

/-- `RETURNING` of the same update: the changed rows, as the update leaves them. -/
def returning (t : KeyedTable key) (p : ρ → Bool) (f : ρ → ρ) : List ρ := (t.rows.filter p).map f

/-- `INSERT`, refused when the key is taken. -/
def insert [DecidableEq κ] (t : KeyedTable key) (r : ρ) : Option (KeyedTable key) :=
  if h : key r ∈ t.rows.map key then none
  else some ⟨t.rows ++ [r], by
    rw [List.map_append, List.map_singleton]
    exact t.primaryKey.append (List.nodup_singleton _)
      (List.disjoint_singleton.mpr h)⟩

theorem eq_of_key (t : KeyedTable key) {r r' : ρ} (h : r ∈ t.rows) (h' : r' ∈ t.rows)
    (he : key r = key r') : r = r' :=
  List.inj_on_of_nodup_map t.primaryKey h h' he

@[simp] theorem empty_rows : (empty : KeyedTable key).rows = [] := rfl

@[simp] theorem update_rows (t : KeyedTable key) (p : ρ → Bool) (f : ρ → ρ)
    (hf : ∀ r, key (f r) = key r) :
    (t.update p f hf).rows = t.rows.map fun r => if p r then f r else r := rfl

theorem ext {t u : KeyedTable key} (h : t.rows = u.rows) : t = u := by
  cases t
  cases u
  cases h
  rfl

theorem update_eq_self {t : KeyedTable key} {p : ρ → Bool} {f : ρ → ρ}
    {hf : ∀ r, key (f r) = key r} (h : ∀ r ∈ t.rows, p r = false) : t.update p f hf = t := by
  apply ext
  rw [update_rows, List.map_congr_left (g := id), List.map_id]
  intro r hr
  simp only [h r hr, Bool.false_eq_true, if_false, id_eq]

theorem returning_eq_nil {t : KeyedTable key} {p : ρ → Bool} {f : ρ → ρ} :
    t.returning p f = [] ↔ ∀ r ∈ t.rows, p r = false := by
  simp only [returning, List.map_eq_nil_iff, List.filter_eq_nil_iff, Bool.not_eq_true]

theorem mem_returning {t : KeyedTable key} {p : ρ → Bool} {f : ρ → ρ} {r' : ρ} :
    r' ∈ t.returning p f ↔ ∃ r ∈ t.rows, p r = true ∧ f r = r' := by
  simp only [returning, List.mem_map, List.mem_filter, and_assoc]

theorem insert_eq_some [DecidableEq κ] {t u : KeyedTable key} {r : ρ}
    (h : t.insert r = some u) : u.rows = t.rows ++ [r] ∧ key r ∉ t.rows.map key := by
  unfold insert at h
  split at h
  · cases h
  · next hn =>
    cases h
    exact ⟨rfl, hn⟩

end KeyedTable
end Library
