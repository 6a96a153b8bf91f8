import Quackapi.Library.Machine

/-! Runs that end with the first action whose answer is not let pass. -/

namespace Library.Machine
variable {σ α β : Type*} (m : Machine σ α β) (passes : β → Bool)

/-- The actions that are taken, and whether all of them passed. -/
def takenUntil : σ → List α → List α × Bool
  | _, [] => ([], true)
  | s, a :: as =>
    if passes (m.step s a).2 then
      let (taken, passed) := takenUntil (m.step s a).1 as
      (a :: taken, passed)
    else ([a], false)

/-- Either everything is taken and passes, or what is taken ends with the first that does not. -/
inductive UntilCases (s : σ) (as : List α) : List α × Bool → Prop
  | passed (h : ∀ e ∈ m.history s as, passes e.2 = true) : UntilCases s as (as, true)
  | stopped (pre : List α) (a : α) (post : List α) (heq : as = pre ++ a :: post)
      (hpre : ∀ e ∈ m.history s pre, passes e.2 = true)
      (ha : passes (m.step (m.run s pre) a).2 = false) : UntilCases s as (pre ++ [a], false)

theorem takenUntil_cases (s : σ) (as : List α) :
    m.UntilCases passes s as (m.takenUntil passes s as) := by
  induction as generalizing s with
  | nil => exact .passed fun e he => by cases he
  | cons a as ih =>
    rw [takenUntil]
    cases hpass : passes (m.step s a).2 with
    | false => exact .stopped [] a as rfl (fun e he => by cases he) hpass
    | true =>
      rw [if_pos rfl]
      have hcases := ih (m.step s a).1
      generalize m.takenUntil passes (m.step s a).1 as = taken at hcases
      have hhead : ∀ {es : List (α × β)}, (∀ e ∈ es, passes e.2 = true) →
          ∀ e ∈ (a, (m.step s a).2) :: es, passes e.2 = true := by
        intro es hes e he
        rcases List.mem_cons.mp he with rfl | he
        · exact hpass
        · exact hes e he
      cases hcases with
      | passed h => exact .passed (hhead h)
      | stopped pre b post heq hpre hb =>
        exact .stopped (a :: pre) b post (congrArg (a :: ·) heq) (hhead hpre) hb

theorem takenUntil_passed (s : σ) (as : List α) :
    (m.takenUntil passes s as).2 = true ↔
      ∀ pre a post, as = pre ++ a :: post → passes (m.step (m.run s pre) a).2 = true := by
  have hcases := m.takenUntil_cases passes s as
  generalize m.takenUntil passes s as = taken at hcases
  cases hcases with
  | passed h =>
    refine iff_of_true rfl ?_
    rintro pre a post rfl
    apply h (a, (m.step (m.run s pre) a).2)
    rw [history_append, history_cons]
    exact List.mem_append_right _ (List.mem_cons_self ..)
  | stopped pre a post heq hpre ha =>
    refine iff_of_false Bool.false_ne_true fun h => ?_
    have hpass := h pre a post heq
    rw [ha] at hpass
    cases hpass

end Library.Machine
