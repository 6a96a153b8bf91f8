import Mathlib.Data.List.Forall2
import Quackapi.Library.ExceptRules

/-! A loop over a list that collects results and stops at the first failure. -/

namespace Library

universe u v

section
variable {ε α β : Type u} {R : α → β → Prop}

theorem mapM_eq_ok {f : α → Except ε β} {l : List α} {l' : List β} :
    l.mapM f = .ok l' ↔ List.Forall₂ (fun a b => f a = .ok b) l l' := by
  induction l generalizing l' with
  | nil => rw [List.mapM_nil, pure_eq_ok, List.forall₂_nil_left_iff, eq_comm]
  | cons a l ih =>
    simp only [List.mapM_cons, bind_eq_ok, pure_eq_ok, List.forall₂_cons_left_iff]
    constructor
    · rintro ⟨b, hb, bs, hbs, rfl⟩
      exact ⟨b, bs, hb, ih.mp hbs, rfl⟩
    · rintro ⟨b, bs, hb, hbs, rfl⟩
      exact ⟨b, hb, bs, ih.mpr hbs, rfl⟩

theorem succeeds_mapM {f : α → Except ε β} {l : List α} :
    Succeeds (l.mapM f) ↔ ∀ a ∈ l, Succeeds (f a) := by
  induction l with
  | nil => exact iff_of_true ⟨[], rfl⟩ fun a ha => by cases ha
  | cons a l ih =>
    rw [List.mapM_cons, List.forall_mem_cons]
    apply succeeds_seq Iff.rfl
    intro b
    exact succeeds_last ih

theorem exists_of_mem_left {l : List α} {l' : List β} (h : List.Forall₂ R l l') {a : α}
    (ha : a ∈ l) : ∃ b ∈ l', R a b := by
  induction h with
  | nil => cases ha
  | cons hab _ ih =>
    rcases List.mem_cons.mp ha with rfl | ha
    · exact ⟨_, List.mem_cons_self, hab⟩
    · obtain ⟨b, hb, hR⟩ := ih ha
      exact ⟨b, List.mem_cons_of_mem _ hb, hR⟩

theorem exists_of_mem_right {l : List α} {l' : List β} (h : List.Forall₂ R l l') {b : β}
    (hb : b ∈ l') : ∃ a ∈ l, R a b := by
  have hflip : List.Forall₂ (flip R) l' l := h.flip
  obtain ⟨a, ha, hR⟩ := exists_of_mem_left hflip hb
  exact ⟨a, ha, hR⟩

theorem map_eq_map_of_forall₂ {γ : Type u} {f : α → γ} {g : β → γ} {l : List α} {l' : List β}
    (h : List.Forall₂ R l l') (hR : ∀ a b, R a b → f a = g b) : l.map f = l'.map g := by
  induction h with
  | nil => rfl
  | cons hab _ ih => rw [List.map_cons, List.map_cons, hR _ _ hab, ih]

theorem forall₂_exists {l : List α} (h : ∀ a ∈ l, ∃ b, R a b) : ∃ l', List.Forall₂ R l l' := by
  induction l with
  | nil => exact ⟨[], .nil⟩
  | cons a l ih =>
    obtain ⟨b, hb⟩ := h a List.mem_cons_self
    obtain ⟨l', hl⟩ := ih fun c hc => h c (List.mem_cons_of_mem a hc)
    exact ⟨b :: l', .cons hb hl⟩

end
end Library
