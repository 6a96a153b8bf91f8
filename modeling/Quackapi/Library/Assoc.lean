import Mathlib.Data.List.Nodup

/-! Association lists with distinct keys: looking a key up is the same as finding its pair. -/

namespace Library

section
variable {κ α β : Type*}

theorem mem_unique {l : List (κ × α)} (hl : (l.map Prod.fst).Nodup) {k : κ} {a b : α}
    (ha : (k, a) ∈ l) (hb : (k, b) ∈ l) : a = b :=
  (Prod.mk.inj (List.inj_on_of_nodup_map hl ha hb rfl)).2

theorem lookup_eq_some_iff_mem [BEq κ] [LawfulBEq κ] {l : List (κ × α)} (hl : (l.map Prod.fst).Nodup)
    {k : κ} {a : α} : l.lookup k = some a ↔ (k, a) ∈ l := by
  rw [List.lookup_eq_some_iff]
  constructor
  · rintro ⟨l₁, l₂, rfl, _⟩
    exact List.mem_append_right _ List.mem_cons_self
  · intro h
    obtain ⟨l₁, l₂, rfl⟩ := List.append_of_mem h
    refine ⟨l₁, l₂, rfl, fun p hp => ?_⟩
    rw [List.map_append, List.map_cons] at hl
    have hdisj := (List.nodup_append.mp hl).2.2
    have hne : p.1 ≠ k := hdisj p.1 (List.mem_map_of_mem hp) k List.mem_cons_self
    rw [bne_iff_ne]
    exact hne.symm

/-- The pairs whose value `f` keeps, with what it makes of it. -/
def filterValues (f : α → Option β) (l : List (κ × α)) : List (κ × β) :=
  l.filterMap fun m => (f m.2).map fun b => (m.1, b)

theorem mem_filterValues {f : α → Option β} {l : List (κ × α)} {k : κ} {b : β} :
    (k, b) ∈ filterValues f l ↔ ∃ a, (k, a) ∈ l ∧ f a = some b := by
  simp only [filterValues, List.mem_filterMap, Option.map_eq_some_iff, Prod.mk.injEq]
  constructor
  · rintro ⟨⟨k', a⟩, hm, b', hb, rfl, rfl⟩
    exact ⟨a, hm, hb⟩
  · rintro ⟨a, hm, hb⟩
    exact ⟨(k, a), hm, b, hb, rfl, rfl⟩

theorem filterValues_cons (f : α → Option β) (k : κ) (a : α) (l : List (κ × α)) :
    filterValues f ((k, a) :: l) =
      match f a with
      | some b => (k, b) :: filterValues f l
      | none => filterValues f l := by
  rw [filterValues, List.filterMap_cons]
  rcases f a with _ | b
  · rfl
  · rfl

theorem nodup_filterValues {f : α → Option β} {l : List (κ × α)} (hl : (l.map Prod.fst).Nodup) :
    ((filterValues f l).map Prod.fst).Nodup := by
  induction l with
  | nil => exact List.nodup_nil
  | cons m l ih =>
    obtain ⟨k, a⟩ := m
    obtain ⟨hk, hl⟩ := List.nodup_cons.mp hl
    rw [filterValues_cons]
    rcases f a with _ | b
    · exact ih hl
    · refine List.nodup_cons.mpr ⟨fun hmem => hk ?_, ih hl⟩
      obtain ⟨⟨k', b'⟩, hb', rfl⟩ := List.mem_map.mp hmem
      obtain ⟨a', ha', _⟩ := mem_filterValues.mp hb'
      exact List.mem_map.mpr ⟨(k', a'), ha', rfl⟩

theorem lookup_filterValues [BEq κ] [LawfulBEq κ] {f : α → Option β} {l : List (κ × α)}
    (hl : (l.map Prod.fst).Nodup) {k : κ} {b : β} :
    (filterValues f l).lookup k = some b ↔ ∃ a, (k, a) ∈ l ∧ f a = some b := by
  rw [lookup_eq_some_iff_mem (nodup_filterValues hl), mem_filterValues]

/-- The value of a key that is there is replaced. -/
def setValue [DecidableEq κ] (k : κ) (a : α) (l : List (κ × α)) : List (κ × α) :=
  l.map fun e => if e.1 = k then (k, a) else e

theorem keys_setValue [DecidableEq κ] (k : κ) (a : α) (l : List (κ × α)) :
    (setValue k a l).map Prod.fst = l.map Prod.fst := by
  rw [setValue, List.map_map]
  refine List.map_congr_left fun e _ => ?_
  simp only [Function.comp_apply]
  split
  · next h => exact h.symm
  · rfl

section
variable [BEq κ] [LawfulBEq κ]

theorem lookup_eq_none_iff_not_mem {l : List (κ × α)} {k : κ} :
    l.lookup k = none ↔ k ∉ l.map Prod.fst := by
  rw [List.lookup_eq_none_iff]
  constructor
  · intro h hmem
    obtain ⟨e, he, rfl⟩ := List.mem_map.mp hmem
    exact absurd (h e he) (by simp)
  · intro h e he
    exact bne_iff_ne.mpr fun heq => h (List.mem_map.mpr ⟨e, he, heq.symm⟩)

theorem lookup_concat [DecidableEq κ] (l : List (κ × α)) (k k' : κ) (a : α) :
    (l ++ [(k, a)]).lookup k' = (l.lookup k').or (if k' = k then some a else none) := by
  rw [List.lookup_append, List.lookup_cons, List.lookup_nil]
  by_cases h : k' = k
  · simp [h]
  · simp [h, beq_eq_false_iff_ne.mpr h]

theorem lookup_filter {p : κ × α → Bool} {l : List (κ × α)} {k : κ}
    (hl : (l.map Prod.fst).Nodup) :
    (l.filter p).lookup k = (l.lookup k).filter fun a => p (k, a) := by
  induction l with
  | nil => rfl
  | cons e l ih =>
    obtain ⟨k', a⟩ := e
    obtain ⟨hnew, hrest⟩ := List.nodup_cons.mp hl
    rw [List.filter_cons, List.lookup_cons]
    by_cases hk : k = k'
    · subst hk
      rw [beq_self_eq_true]
      by_cases hp : p (k, a) = true
      · rw [if_pos hp, List.lookup_cons, beq_self_eq_true]
        simp [Option.filter, hp]
      · rw [if_neg hp, ih hrest, lookup_eq_none_iff_not_mem.mpr hnew]
        simp [Option.filter, hp]
    · have hne : (k == k') = false := beq_eq_false_iff_ne.mpr hk
      rw [hne]
      split
      · rw [List.lookup_cons, hne]
        exact ih hrest
      · exact ih hrest

variable [DecidableEq κ]

theorem lookup_setValue_self {l : List (κ × α)} {k : κ} (h : l.lookup k ≠ none) (a : α) :
    (setValue k a l).lookup k = some a := by
  induction l with
  | nil => exact absurd rfl h
  | cons e l ih =>
    obtain ⟨k', old⟩ := e
    rw [setValue, List.map_cons]
    by_cases hk : k' = k
    · subst hk
      simp
    · have hne : (k == k') = false := beq_eq_false_iff_ne.mpr (Ne.symm hk)
      rw [List.lookup_cons, hne] at h
      simp only [hk, if_false, List.lookup_cons, hne]
      exact ih h

theorem lookup_setValue_other {k k' : κ} (h : k' ≠ k) (a : α) (l : List (κ × α)) :
    (setValue k a l).lookup k' = l.lookup k' := by
  induction l with
  | nil => rfl
  | cons e l ih =>
    obtain ⟨key, old⟩ := e
    rw [setValue, List.map_cons]
    by_cases hk : key = k
    · subst hk
      have hne : (k' == key) = false := beq_eq_false_iff_ne.mpr h
      simp only [if_true, List.lookup_cons, hne]
      exact ih
    · simp only [hk, if_false, List.lookup_cons]
      split
      · rfl
      · exact ih

end

def sumValues (f : α → ℕ) (l : List (κ × α)) : ℕ := l.foldr (fun e n => f e.2 + n) 0

variable {f : α → ℕ}

@[simp] theorem sumValues_nil : sumValues f ([] : List (κ × α)) = 0 := rfl

@[simp] theorem sumValues_cons (e : κ × α) (l : List (κ × α)) :
    sumValues f (e :: l) = f e.2 + sumValues f l := rfl

theorem sumValues_concat (l : List (κ × α)) (k : κ) (a : α) :
    sumValues f (l ++ [(k, a)]) = sumValues f l + f a := by
  induction l with
  | nil => exact Nat.add_comm _ _
  | cons e l ih => rw [List.cons_append, sumValues_cons, sumValues_cons, ih, Nat.add_assoc]

theorem sumValues_filter_le (p : κ × α → Bool) (l : List (κ × α)) :
    sumValues f (l.filter p) ≤ sumValues f l := by
  induction l with
  | nil => exact Nat.le_refl _
  | cons e l ih =>
    rw [List.filter_cons]
    split <;> simp only [sumValues_cons] <;> omega

theorem sumValues_filter_add_le {p : κ × α → Bool} {l : List (κ × α)} {e : κ × α} (he : e ∈ l)
    (hp : p e = false) : sumValues f (l.filter p) + f e.2 ≤ sumValues f l := by
  induction l with
  | nil => cases he
  | cons e' l ih =>
    rw [List.filter_cons, sumValues_cons]
    rcases List.mem_cons.mp he with rfl | he
    · have hle := sumValues_filter_le (f := f) p l
      rw [if_neg (by rw [hp]; nofun)]
      omega
    · have hrest := ih he
      split
      · rw [sumValues_cons]
        omega
      · omega

theorem sumValues_setValue_of_not_mem [DecidableEq κ] {l : List (κ × α)} {k : κ}
    (hk : k ∉ l.map Prod.fst) (b : α) : sumValues f (setValue k b l) = sumValues f l := by
  induction l with
  | nil => rfl
  | cons e l ih =>
    rw [List.map_cons, List.mem_cons, not_or] at hk
    rw [setValue, List.map_cons, if_neg (Ne.symm hk.1), sumValues_cons, sumValues_cons]
    exact congrArg _ (ih hk.2)

theorem sumValues_setValue [DecidableEq κ] [BEq κ] [LawfulBEq κ] {l : List (κ × α)}
    (hl : (l.map Prod.fst).Nodup) {k : κ} {a : α} (h : l.lookup k = some a) (b : α) :
    sumValues f (setValue k b l) + f a = sumValues f l + f b := by
  induction l with
  | nil => cases h
  | cons e l ih =>
    obtain ⟨k', a'⟩ := e
    obtain ⟨hk', hl⟩ := List.nodup_cons.mp hl
    rw [List.lookup_cons] at h
    by_cases hk : k = k'
    · subst hk
      rw [beq_self_eq_true] at h
      cases h
      have hrest : sumValues f (setValue k b l) = sumValues f l :=
        sumValues_setValue_of_not_mem hk' b
      show f (if k = k then (k, b) else (k, a)).2 + sumValues f (setValue k b l) + f a = _
      rw [if_pos rfl, hrest, sumValues_cons]
      dsimp only
      omega
    · rw [beq_eq_false_iff_ne.mpr hk] at h
      have hrest := ih hl h
      show f (if k' = k then (k, b) else (k', a')).2 + sumValues f (setValue k b l) + f a = _
      rw [if_neg (Ne.symm hk), sumValues_cons]
      dsimp only
      omega

theorem le_sumValues [BEq κ] [LawfulBEq κ] {l : List (κ × α)} {k : κ} {a : α}
    (h : l.lookup k = some a) : f a ≤ sumValues f l := by
  obtain ⟨l₁, l₂, rfl, hfirst⟩ := List.lookup_eq_some_iff.mp h
  clear h hfirst
  induction l₁ with
  | nil => exact Nat.le_add_right _ _
  | cons e l₁ ih => exact Nat.le_add_left_of_le ih

end
end Library
