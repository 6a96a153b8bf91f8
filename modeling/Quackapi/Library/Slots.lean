import Mathlib.Data.List.Nodup

/-! A list of workers of which one at a time is replaced: what the others keep, and how a count
moves. A log of what they do grows at its end. -/

namespace Library

section
variable {α : Type*} {l : List α} {i : Nat} {a b : α}

theorem lt_of_getElem? (h : l[i]? = some a) : i < l.length :=
  (List.getElem?_eq_some_iff.mp h).1

theorem forall_mem_set {P : α → Prop} (h : ∀ x ∈ l, P x) (hb : P b) : ∀ x ∈ l.set i b, P x := by
  intro x hx
  rcases List.mem_or_eq_of_mem_set hx with hold | rfl
  · exact h x hold
  · exact hb

theorem getElem?_set_cases {j : Nat} {x : α} (h : (l.set i b)[j]? = some x) :
    (j = i ∧ x = b) ∨ (j ≠ i ∧ l[j]? = some x) := by
  rw [List.getElem?_set] at h
  split at h
  · next heq =>
    split at h
    · exact .inl ⟨heq.symm, (Option.some.inj h).symm⟩
    · cases h
  · next hne => exact .inr ⟨fun heq => hne heq.symm, h⟩

theorem mem_set_self (h : l[i]? = some a) : b ∈ l.set i b :=
  List.mem_iff_getElem?.mpr ⟨i, List.getElem?_set_self (lt_of_getElem? h)⟩

theorem countP_set_of_true {p : α → Bool} (h : l[i]? = some a) (ha : p a = true) (hb : p b = false) :
    (l.set i b).countP p + 1 = l.countP p := by
  obtain ⟨hi, hget⟩ := List.getElem?_eq_some_iff.mp h
  have hpos : 0 < l.countP p := List.countP_pos_iff.mpr ⟨a, List.mem_of_getElem? h, ha⟩
  rw [List.countP_set hi, hget, if_pos ha, hb, if_neg Bool.false_ne_true]
  omega

theorem countP_set_of_false {p : α → Bool} (h : l[i]? = some a) (ha : p a = false)
    (hb : p b = true) : (l.set i b).countP p = l.countP p + 1 := by
  obtain ⟨hi, hget⟩ := List.getElem?_eq_some_iff.mp h
  rw [List.countP_set hi, hget, ha, if_neg Bool.false_ne_true, if_pos hb, Nat.sub_zero]

theorem countP_set_of_eq {p : α → Bool} (h : l[i]? = some a) (hab : p b = p a) :
    (l.set i b).countP p = l.countP p := by
  cases ha : p a with
  | true =>
    obtain ⟨hi, hget⟩ := List.getElem?_eq_some_iff.mp h
    have hpos : 0 < l.countP p := List.countP_pos_iff.mpr ⟨a, List.mem_of_getElem? h, ha⟩
    rw [List.countP_set hi, hget, hab, ha, if_pos rfl]
    omega
  | false =>
    obtain ⟨hi, hget⟩ := List.getElem?_eq_some_iff.mp h
    rw [List.countP_set hi, hget, hab, ha, if_neg Bool.false_ne_true]
    omega

theorem exists_perm_filterMap_set {β : Type*} (f : α → Option β) (h : l[i]? = some a) :
    ∃ rest, (l.filterMap f).Perm ((f a).toList ++ rest) ∧
      ∀ b, ((l.set i b).filterMap f).Perm ((f b).toList ++ rest) := by
  obtain ⟨hi, rfl⟩ := List.getElem?_eq_some_iff.mp h
  have hsplit : ∀ x, ((l.take i ++ x :: l.drop (i + 1)).filterMap f).Perm
      ((f x).toList ++ ((l.take i).filterMap f ++ (l.drop (i + 1)).filterMap f)) := by
    intro x
    refine (List.perm_middle.filterMap f).trans ?_
    rw [List.filterMap_cons, List.filterMap_append]
    cases f x <;> simp
  refine ⟨(l.take i).filterMap f ++ (l.drop (i + 1)).filterMap f, ?_, fun b => ?_⟩
  · have hl := hsplit l[i]
    rwa [← List.drop_eq_getElem_cons hi, List.take_append_drop] at hl
  · rw [List.set_eq_take_append_cons_drop, if_pos hi]
    exact hsplit b

theorem nodup_append_singleton (h : l.Nodup) (ha : a ∉ l) : (l ++ [a]).Nodup := by
  rw [← List.concat_eq_append]
  exact (List.nodup_concat l a).mpr ⟨ha, h⟩

theorem forall_mem_append_singleton {P : α → Prop} (h : ∀ x ∈ l, P x) (ha : P a) :
    ∀ x ∈ l ++ [a], P x := by
  intro x hx
  rcases List.mem_append.mp hx with hold | hself
  · exact h x hold
  · rw [List.mem_singleton.mp hself]
    exact ha

end

end Library
