import Mathlib.Logic.Basic

/-! How a chain of fallible steps succeeds and how it fails. -/

namespace Library

universe u v

section
variable {ε : Type u} {α β : Type v}

theorem bind_eq_ok {x : Except ε α} {f : α → Except ε β} {b : β} :
    (x >>= f) = .ok b ↔ ∃ a, x = .ok a ∧ f a = .ok b := by
  rcases x with e | a
  · constructor
    · intro h
      cases h
    · rintro ⟨a, ha, _⟩
      cases ha
  · constructor
    · exact fun h => ⟨a, rfl, h⟩
    · rintro ⟨a', ha, h⟩
      cases ha
      exact h

theorem pure_eq_ok {a b : α} : (pure a : Except ε α) = .ok b ↔ a = b := by
  constructor
  · intro h
    cases h
    rfl
  · rintro rfl
    rfl

def ensure (p : Bool) (e : ε) : Except ε Unit := if p then .ok () else .error e

theorem ensure_eq_ok {p : Bool} {e : ε} {u : Unit} : ensure p e = .ok u ↔ p = true := by
  cases p with
  | true => exact iff_of_true rfl rfl
  | false => exact iff_of_false (fun h => nomatch h) (fun h => nomatch h)

theorem check_bind_ok {x : Except ε Unit} {f : Except ε Unit} :
    (x >>= fun _ => f) = .ok () ↔ x = .ok () ∧ f = .ok () := by
  rw [bind_eq_ok]
  exact ⟨fun ⟨_, hx, hf⟩ => ⟨hx, hf⟩, fun ⟨hx, hf⟩ => ⟨(), hx, hf⟩⟩

/-- Run `x`, and turn its error by `g`. -/
def onError (g : ε → ε) : Except ε α → Except ε α
  | .ok a => .ok a
  | .error e => .error (g e)

@[simp] theorem onError_eq_ok {g : ε → ε} {x : Except ε α} {a : α} :
    onError g x = .ok a ↔ x = .ok a := by
  rcases x with e | b
  · exact iff_of_false (fun h => by cases h) (fun h => by cases h)
  · rfl

def Succeeds (x : Except ε α) : Prop := ∃ a, x = .ok a

theorem succeeds_of_isOk {x : Except ε α} (h : x.isOk = true) : Succeeds x := by
  rcases x with e | a
  · cases h
  · exact ⟨a, rfl⟩

@[simp] theorem succeeds_pure {a : α} : Succeeds (pure a : Except ε α) := ⟨a, rfl⟩

@[simp] theorem not_succeeds_throw {e : ε} : ¬ Succeeds (throw e : Except ε α) := by
  rintro ⟨a, h⟩
  cases h

theorem succeeds_bind {x : Except ε α} {f : α → Except ε β} :
    Succeeds (x >>= f) ↔ ∃ a, x = .ok a ∧ Succeeds (f a) := by
  simp only [Succeeds, bind_eq_ok]
  constructor
  · rintro ⟨b, a, ha, hb⟩
    exact ⟨a, ha, b, hb⟩
  · rintro ⟨a, ha, b, hb⟩
    exact ⟨b, a, ha, hb⟩

theorem succeeds_seq {x : Except ε α} {f : α → Except ε β} {p q : Prop} (hx : Succeeds x ↔ p)
    (hf : ∀ a, Succeeds (f a) ↔ q) : Succeeds (x >>= f) ↔ p ∧ q := by
  simp only [succeeds_bind, hf, exists_and_right, ← hx]
  rfl

theorem succeeds_last {x : Except ε α} {g : α → β} {p : Prop} (hx : Succeeds x ↔ p) :
    Succeeds (do return g (← x)) ↔ p := by
  simp only [succeeds_bind, succeeds_pure, and_true, ← hx]
  rfl

@[simp] theorem succeeds_onError {g : ε → ε} {x : Except ε α} :
    Succeeds (onError g x) ↔ Succeeds x := by
  simp only [Succeeds, onError_eq_ok]

/-- Every error of the computation satisfies `P`. -/
def FailsIn (P : ε → Prop) (x : Except ε α) : Prop := ∀ e, x = .error e → P e

theorem failsIn_ok {P : ε → Prop} {a : α} : FailsIn P (.ok a : Except ε α) := by
  intro e h
  cases h

theorem failsIn_pure {P : ε → Prop} {a : α} : FailsIn P (pure a : Except ε α) := failsIn_ok

theorem failsIn_error {P : ε → Prop} {e : ε} (h : P e) : FailsIn P (.error e : Except ε α) := by
  intro e' he
  cases he
  exact h

theorem FailsIn.bind {P : ε → Prop} {x : Except ε α} {f : α → Except ε β} (hx : FailsIn P x)
    (hf : ∀ a, FailsIn P (f a)) : FailsIn P (x >>= f) := by
  rcases x with e | a
  · exact failsIn_error (hx e rfl)
  · exact hf a

theorem FailsIn.onError {P : ε → Prop} {x : Except ε α} {g : ε → ε} (hx : FailsIn P x)
    (hg : ∀ e, P e → P (g e)) : FailsIn P (onError g x) := by
  rcases x with e | a
  · exact failsIn_error (hg e (hx e rfl))
  · exact failsIn_ok

/-- Every result of the computation satisfies `P`. -/
def Returns (P : α → Prop) (x : Except ε α) : Prop := ∀ a, x = .ok a → P a

theorem returns_error {P : α → Prop} {e : ε} : Returns P (.error e : Except ε α) := by
  intro a h
  cases h

theorem returns_ok {P : α → Prop} {a : α} (h : P a) : Returns P (.ok a : Except ε α) := by
  intro a' ha
  cases ha
  exact h

theorem returns_unless {P : α → Prop} {p : Prop} [Decidable p] {e : ε} {x : Except ε α}
    (hx : ¬ p → Returns P x) : Returns P (if p then .error e else x) := by
  by_cases h : p
  · rw [if_pos h]
    exact returns_error
  · rw [if_neg h]
    exact hx h

end
end Library
