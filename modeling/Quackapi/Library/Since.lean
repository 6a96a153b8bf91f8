import Mathlib.Data.List.Basic

/-! Something has happened in a history and nothing has undone it since. -/

namespace Library

section
variable {α : Type*} {P Q : α → Prop}

/-- Some entry satisfies `P`, and no later one satisfies `Q`. -/
def Since (P Q : α → Prop) (h : List α) : Prop :=
  ∃ pre x post, h = pre ++ x :: post ∧ P x ∧ ∀ y ∈ post, ¬ Q y

theorem not_since_nil : ¬ Since P Q [] := by
  rintro ⟨pre, x, post, h, _⟩
  cases pre <;> cases h

theorem since_concat {h : List α} {e : α} :
    Since P Q (h ++ [e]) ↔ P e ∨ (Since P Q h ∧ ¬ Q e) := by
  constructor
  · rintro ⟨pre, x, post, heq, hx, hpost⟩
    rcases List.eq_nil_or_concat post with rfl | ⟨post, y, rfl⟩
    · obtain ⟨_, hxe⟩ := List.append_inj' heq rfl
      cases hxe
      exact .inl hx
    · have hsplit : h ++ [e] = (pre ++ x :: post) ++ [y] := by
        rw [heq, List.append_assoc, List.cons_append, List.concat_eq_append]
      obtain ⟨hh, hye⟩ := List.append_inj' hsplit rfl
      cases hye
      simp only [List.concat_eq_append, List.mem_append, List.mem_singleton] at hpost
      exact .inr ⟨⟨pre, x, post, hh, hx, fun z hz => hpost z (.inl hz)⟩, hpost e (.inr rfl)⟩
  · rintro (he | ⟨⟨pre, x, post, rfl, hx, hpost⟩, he⟩)
    · exact ⟨h, e, [], rfl, he, fun y hy => by cases hy⟩
    · refine ⟨pre, x, post ++ [e], by rw [List.append_assoc, List.cons_append], hx, ?_⟩
      intro y hy
      rcases List.mem_append.mp hy with hy | hy
      · exact hpost y hy
      · rw [List.mem_singleton.mp hy]
        exact he

end
end Library
