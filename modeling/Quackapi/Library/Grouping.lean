import Mathlib.Data.List.Induction
import Mathlib.Data.List.Nodup
import Mathlib.Data.List.Perm.Basic

/-! Elements grouped by a key, the keys in the order they are first seen in. Where the keys are told
apart by less than the elements are gathered by, elements are lost. -/

namespace Library

section FirstSeen
variable {κ ν : Type*} [BEq ν] [LawfulBEq ν] (norm : κ → ν)

/-- The keys, but for those that one before them stands for. -/
def firstSeen (keys : List κ) : List κ :=
  keys.foldl (fun order k => if order.any (fun s => norm s == norm k) then order else order ++ [k]) []

theorem firstSeen_concat (keys : List κ) (k : κ) :
    firstSeen norm (keys ++ [k]) =
      if norm k ∈ (firstSeen norm keys).map norm then firstSeen norm keys
      else firstSeen norm keys ++ [k] := by
  have hany : ((firstSeen norm keys).any fun s => norm s == norm k) = true ↔
      norm k ∈ (firstSeen norm keys).map norm := by
    rw [List.any_eq_true, List.mem_map]
    exact exists_congr fun s => and_congr_right fun _ => beq_iff_eq
  rw [firstSeen, List.foldl_append]
  show (if ((firstSeen norm keys).any fun s => norm s == norm k) = true then _ else _) = _
  by_cases h : norm k ∈ (firstSeen norm keys).map norm
  · rw [if_pos h, if_pos (hany.mpr h)]
    rfl
  · rw [if_neg h, if_neg (mt hany.mp h)]
    rfl

theorem nodup_firstSeen (keys : List κ) : ((firstSeen norm keys).map norm).Nodup := by
  induction keys using List.reverseRecOn with
  | nil => exact List.nodup_nil
  | append_singleton keys k ih =>
    rw [firstSeen_concat]
    split
    · exact ih
    · next h =>
      rw [List.map_append, List.nodup_append]
      refine ⟨ih, List.nodup_singleton _, ?_⟩
      intro a ha b hb he
      rw [he, List.mem_singleton.mp hb] at ha
      exact h ha

theorem mem_of_mem_firstSeen {keys : List κ} {k : κ} (h : k ∈ firstSeen norm keys) : k ∈ keys := by
  induction keys using List.reverseRecOn with
  | nil => exact h
  | append_singleton keys k' ih =>
    rw [firstSeen_concat] at h
    rw [List.mem_append]
    split at h
    · exact .inl (ih h)
    · rcases List.mem_append.mp h with h | h
      · exact .inl (ih h)
      · exact .inr h

theorem norm_mem_firstSeen {keys : List κ} {k : κ} (h : k ∈ keys) :
    norm k ∈ (firstSeen norm keys).map norm := by
  induction keys using List.reverseRecOn with
  | nil => cases h
  | append_singleton keys k' ih =>
    rw [firstSeen_concat]
    split
    · next hseen =>
      rcases List.mem_append.mp h with h | h
      · exact ih h
      · rwa [List.mem_singleton.mp h]
    · rw [List.map_append, List.mem_append]
      rcases List.mem_append.mp h with h | h
      · exact .inl (ih h)
      · rw [List.mem_singleton.mp h]
        exact .inr (List.mem_singleton.mpr rfl)

end FirstSeen

section Grouped
variable {α κ ν : Type*} [DecidableEq κ] [BEq ν] [LawfulBEq ν] (key : α → κ) (norm : κ → ν)

theorem flatMap_filter_perm {keys : List κ} (hkeys : keys.Nodup) (l : List α) :
    (keys.flatMap fun k => l.filter fun a => key a = k).Perm (l.filter fun a => key a ∈ keys) := by
  induction keys with
  | nil =>
    rw [List.flatMap_nil, List.filter_eq_nil_iff.mpr]
    intro a _
    simp only [List.not_mem_nil, decide_false, Bool.false_eq_true, not_false_eq_true]
  | cons k keys ih =>
    obtain ⟨hk, hkeys⟩ := List.nodup_cons.mp hkeys
    have hhead : (l.filter fun a => key a ∈ k :: keys).filter (fun a => key a = k) =
        l.filter fun a => key a = k := by
      rw [List.filter_filter]
      refine List.filter_congr fun a _ => ?_
      by_cases ha : key a = k
      · simp only [ha, List.mem_cons_self, decide_true, Bool.and_self]
      · simp only [ha, decide_false, Bool.false_and]
    have htail : (l.filter fun a => key a ∈ k :: keys).filter (fun a => !decide (key a = k)) =
        l.filter fun a => key a ∈ keys := by
      rw [List.filter_filter]
      refine List.filter_congr fun a _ => ?_
      by_cases ha : key a = k
      · simp only [ha, hk, decide_true, Bool.not_true, Bool.false_and, decide_false]
      · simp only [ha, List.mem_cons, decide_false, Bool.not_false, Bool.true_and, false_or]
    have hsplit := List.filter_append_perm (fun a => key a = k)
      (l.filter fun a => key a ∈ k :: keys)
    rw [hhead, htail] at hsplit
    rw [List.flatMap_cons]
    exact (List.Perm.append_left _ (ih hkeys)).trans hsplit

def grouped (l : List α) : List α :=
  (firstSeen norm (l.map key)).flatMap fun k => l.filter fun a => key a = k

theorem grouped_perm_iff (l : List α) :
    (grouped key norm l).Perm l ↔
      ∀ a ∈ l, ∀ b ∈ l, norm (key a) = norm (key b) → key a = key b := by
  have hnodup := nodup_firstSeen norm (l.map key)
  have hkeys : (firstSeen norm (l.map key)).Nodup := hnodup.of_map
  have hperm := flatMap_filter_perm key hkeys l
  constructor
  · intro h a ha b hb hnorm
    have hseen : ∀ x ∈ l, key x ∈ firstSeen norm (l.map key) := by
      intro x hx
      have hmem := hperm.mem_iff.mp (h.mem_iff.mpr hx)
      exact of_decide_eq_true (List.mem_filter.mp hmem).2
    exact List.inj_on_of_nodup_map hnodup (hseen a ha) (hseen b hb) hnorm
  · intro h
    refine hperm.trans ?_
    rw [List.filter_eq_self.mpr]
    intro a ha
    obtain ⟨k, hk, hnorm⟩ := List.mem_map.mp
      (norm_mem_firstSeen norm (List.mem_map_of_mem (f := key) ha))
    obtain ⟨b, hb, rfl⟩ := List.mem_map.mp (mem_of_mem_firstSeen norm hk)
    rw [decide_eq_true_eq, h a ha b hb hnorm.symm]
    exact hk

end Grouped
end Library
