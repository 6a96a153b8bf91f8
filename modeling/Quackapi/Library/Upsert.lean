import Mathlib.Data.List.Induction
import Mathlib.Data.List.Pairwise
import Quackapi.Library.FirstMatch

/-! Putting entries into a registry: each replaces the entry of its key in place, or comes last. -/

namespace Library

section
variable {α κ : Type*} [DecidableEq κ] (key : α → κ)

def upsertKey (b : α) (l : List α) : List α :=
  if key b ∈ l.map key then replaceKey key b l else l ++ [b]

def upsertAll (l bs : List α) : List α := bs.foldl (fun l b => upsertKey key b l) l

def lastKey (k : κ) (l : List α) : Option α := findKey key k l.reverse

variable {key}

theorem nodup_upsertKey {l : List α} (hl : (l.map key).Nodup) (b : α) :
    ((upsertKey key b l).map key).Nodup := by
  unfold upsertKey
  split
  · rwa [map_key_replaceKey]
  · next hb => exact nodup_concat_of_not_mem hl hb

theorem mem_upsertKey {l : List α} (hl : (l.map key).Nodup) {b x : α} :
    x ∈ upsertKey key b l ↔ x = b ∨ (x ∈ l ∧ key x ≠ key b) := by
  unfold upsertKey
  split
  · next hb => exact mem_replaceKey hl hb
  · next hb =>
    have hne : ∀ y ∈ l, key y ≠ key b := fun y hy he => hb (he ▸ List.mem_map_of_mem hy)
    rw [List.mem_append, List.mem_singleton, or_comm]
    exact or_congr_right ⟨fun hx => ⟨hx, hne x hx⟩, fun hx => hx.1⟩

theorem filter_replaceKey {p : α → Bool} {b : α} (hp : ∀ x, key x = key b → p x = false)
    (l : List α) : (replaceKey key b l).filter p = l.filter p := by
  induction l with
  | nil => rfl
  | cons a l ih =>
    simp only [replaceKey]
    split
    · next he =>
      rw [List.filter_cons_of_neg (by rw [hp b rfl]; exact Bool.false_ne_true),
        List.filter_cons_of_neg (by rw [hp a he]; exact Bool.false_ne_true)]
    · rw [List.filter_cons, List.filter_cons, ih]

theorem filter_upsertKey {p : α → Bool} {b : α} (hp : ∀ x, key x = key b → p x = false)
    (l : List α) : (upsertKey key b l).filter p = l.filter p := by
  unfold upsertKey
  split
  · exact filter_replaceKey hp l
  · rw [List.filter_append, List.filter_cons_of_neg (by rw [hp b rfl]; exact Bool.false_ne_true)]
    exact List.append_nil _

theorem set_eq_replaceKey {b : α} {l : List α} (hl : (l.map key).Nodup) {i : ℕ}
    (hi : (l[i]?).map key = some (key b)) : l.set i b = replaceKey key b l := by
  induction l generalizing i with
  | nil => rfl
  | cons a l ih =>
    obtain ⟨ha, hl⟩ := List.nodup_cons.mp (hl : (key a :: l.map key).Nodup)
    cases i with
    | zero =>
      have he : key a = key b := Option.some.inj hi
      simp only [List.set_cons_zero, replaceKey, if_pos he]
    | succ i =>
      have hi' : (l[i]?).map key = some (key b) := hi
      have hne : key a ≠ key b := by
        intro he
        obtain ⟨x, hx, hkey⟩ := Option.map_eq_some_iff.mp hi'
        exact ha (he.trans hkey.symm ▸ List.mem_map_of_mem (List.mem_of_getElem? hx))
      simp only [List.set_cons_succ, replaceKey, if_neg hne, ih hl hi']

theorem pairwise_replaceKey {R : α → α → Prop} {b : α} {l : List α} (hl : (l.map key).Nodup)
    (hR : l.Pairwise R) (hb : ∀ x ∈ l, key x ≠ key b → R x b ∧ R b x) :
    (replaceKey key b l).Pairwise R := by
  induction l with
  | nil => exact .nil
  | cons a l ih =>
    obtain ⟨ha, hl⟩ := List.nodup_cons.mp (hl : (key a :: l.map key).Nodup)
    obtain ⟨haR, hR⟩ := List.pairwise_cons.mp hR
    obtain ⟨hba, hb⟩ := List.forall_mem_cons.mp hb
    simp only [replaceKey]
    split
    · next he =>
      refine .cons (fun x hx => ?_) hR
      have hne : key x ≠ key b := fun h => ha (he.trans h.symm ▸ List.mem_map_of_mem hx)
      exact (hb x hx hne).2
    · next hne =>
      refine .cons (fun x hx => ?_) (ih hl hR hb)
      rcases mem_of_mem_replaceKey hx with rfl | hx
      · exact (hba hne).1
      · exact haR x hx

theorem pairwise_upsertKey {R : α → α → Prop} {b : α} {l : List α} (hl : (l.map key).Nodup)
    (hR : l.Pairwise R) (hb : ∀ x ∈ l, key x ≠ key b → R x b ∧ R b x) :
    (upsertKey key b l).Pairwise R := by
  unfold upsertKey
  split
  · exact pairwise_replaceKey hl hR hb
  · next hnew =>
    refine List.pairwise_append.mpr ⟨hR, List.pairwise_singleton R b, fun x hx y hy => ?_⟩
    rw [List.mem_singleton.mp hy]
    have hne : key x ≠ key b := fun h => hnew (h ▸ List.mem_map_of_mem hx)
    exact (hb x hx hne).1

omit [DecidableEq κ] in
theorem pairwise_iff_of_keys {R : α → α → Prop} [Std.Symm R] {l : List α}
    (hl : (l.map key).Nodup) :
    l.Pairwise R ↔ ∀ a ∈ l, ∀ b ∈ l, key a ≠ key b → R a b := by
  constructor
  · intro h a ha b hb hne
    exact h.forall ha hb fun he => hne (congrArg key he)
  · intro h
    refine (List.Nodup.of_map key hl).pairwise_of_forall_ne fun a ha b hb hne => ?_
    exact h a ha b hb fun he => hne (List.inj_on_of_nodup_map hl ha hb he)

theorem lastKey_concat (k : κ) (l : List α) (b : α) :
    lastKey key k (l ++ [b]) = if key b = k then some b else lastKey key k l := by
  rw [lastKey, List.reverse_concat, findKey, List.find?_cons]
  by_cases hb : key b = k
  · rw [if_pos hb, decide_eq_true hb]
  · rw [if_neg hb, decide_eq_false hb]
    rfl

theorem lastKey_eq_none {k : κ} {l : List α} : lastKey key k l = none ↔ k ∉ l.map key := by
  rw [lastKey, findKey_eq_none, List.map_reverse, List.mem_reverse]

theorem lastKey_eq_some {k : κ} {l : List α} {a : α} (h : lastKey key k l = some a) :
    a ∈ l ∧ key a = k := by
  obtain ⟨ha, hk⟩ := findKey_eq_some h
  exact ⟨List.mem_reverse.mp ha, hk⟩

theorem upsertAll_concat (l bs : List α) (b : α) :
    upsertAll key l (bs ++ [b]) = upsertKey key b (upsertAll key l bs) := List.foldl_concat ..

theorem nodup_upsertAll {l : List α} (hl : (l.map key).Nodup) (bs : List α) :
    ((upsertAll key l bs).map key).Nodup := by
  induction bs using List.reverseRecOn with
  | nil => exact hl
  | append_singleton bs b ih =>
    rw [upsertAll_concat]
    exact nodup_upsertKey ih b

theorem mem_upsertAll {l : List α} (hl : (l.map key).Nodup) {bs : List α} {x : α} :
    x ∈ upsertAll key l bs ↔ (x ∈ l ∧ key x ∉ bs.map key) ∨ lastKey key (key x) bs = some x := by
  induction bs using List.reverseRecOn with
  | nil =>
    have hnone : lastKey key (key x) [] ≠ some x := nofun
    simp only [upsertAll, List.foldl_nil, List.map_nil, List.not_mem_nil, not_false_eq_true,
      and_true, hnone, or_false]
  | append_singleton bs b ih =>
    rw [upsertAll_concat, mem_upsertKey (nodup_upsertAll hl bs), ih, lastKey_concat,
      List.map_append, List.map_singleton, List.mem_append, List.mem_singleton, not_or]
    by_cases he : key b = key x
    · rw [if_pos he, Option.some_inj]
      constructor
      · rintro (rfl | ⟨_, hne⟩)
        · exact .inr rfl
        · exact absurd he.symm hne
      · rintro (⟨_, _, hne⟩ | rfl)
        · exact absurd he.symm hne
        · exact .inl rfl
    · rw [if_neg he]
      have hxb : x ≠ b := fun h => he (h ▸ rfl)
      have hne : key x ≠ key b := fun h => he h.symm
      simp only [hxb, false_or, hne, not_false_eq_true, and_true, ne_eq]

theorem pairwise_upsertAll_iff {R : α → α → Prop} [Std.Symm R] {l bs : List α}
    (hl : (l.map key).Nodup) (hlR : l.Pairwise R) :
    (upsertAll key l bs).Pairwise R ↔
      ∀ b, lastKey key (key b) bs = some b →
        ∀ x ∈ upsertAll key l bs, key x ≠ key b → R x b := by
  rw [pairwise_iff_of_keys (nodup_upsertAll hl bs)]
  constructor
  · intro h b hb x hx hne
    exact h x hx b ((mem_upsertAll hl).mpr (.inr hb)) hne
  · intro h a ha b hb hne
    have hbin := hb
    rcases (mem_upsertAll hl).mp hb with ⟨hb, _⟩ | hb
    · rcases (mem_upsertAll hl).mp ha with ⟨ha, _⟩ | ha
      · exact (pairwise_iff_of_keys hl).mp hlR a ha b hb hne
      · exact Std.Symm.symm _ _ (h a ha b hbin hne.symm)
    · exact h b hb a ha hne

theorem filter_upsertAll {p : α → Bool} {bs : List α}
    (hp : ∀ x, key x ∈ bs.map key → p x = false) (l : List α) :
    (upsertAll key l bs).filter p = l.filter p := by
  induction bs using List.reverseRecOn with
  | nil => rfl
  | append_singleton bs b ih =>
    rw [List.map_append] at hp
    have hb : ∀ x, key x = key b → p x = false := fun x hx =>
      hp x (List.mem_append_right _ (List.mem_singleton.mpr hx))
    rw [upsertAll_concat, filter_upsertKey hb]
    exact ih fun x hx => hp x (List.mem_append_left _ hx)

end
end Library
