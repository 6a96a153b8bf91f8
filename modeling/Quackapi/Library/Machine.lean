import Mathlib.Data.List.Induction

/-! Machines that answer every action, the runs they make, and the rules that turn a property of
one step into a property of every run. A run is a list of actions, so an interleaving of several
parties is one list and a prefix of it is an earlier moment. -/

namespace Library

structure Machine (σ α β : Type*) where
  step : σ → α → σ × β

namespace Machine
variable {σ α β : Type*} (m : Machine σ α β)

def run : σ → List α → σ
  | s, [] => s
  | s, a :: as => run (m.step s a).1 as

/-- The actions of a run, each with its answer, oldest first. -/
def history : σ → List α → List (α × β)
  | _, [] => []
  | s, a :: as => (a, (m.step s a).2) :: history (m.step s a).1 as

/-- Every action of the run meets `C` in the state it is taken in. -/
def Along (C : σ → α → Prop) : σ → List α → Prop
  | _, [] => True
  | s, a :: as => C s a ∧ Along C (m.step s a).1 as

@[simp] theorem run_nil (s : σ) : m.run s [] = s := rfl

@[simp] theorem run_cons (s : σ) (a : α) (as : List α) :
    m.run s (a :: as) = m.run (m.step s a).1 as := rfl

theorem run_append (s : σ) (as bs : List α) : m.run s (as ++ bs) = m.run (m.run s as) bs := by
  induction as generalizing s with
  | nil => rfl
  | cons a as ih => simpa only [List.cons_append, run_cons] using ih (m.step s a).1

theorem run_concat (s : σ) (as : List α) (a : α) :
    m.run s (as ++ [a]) = (m.step (m.run s as) a).1 := by
  rw [run_append, run_cons, run_nil]

@[simp] theorem history_nil (s : σ) : m.history s [] = [] := rfl

@[simp] theorem history_cons (s : σ) (a : α) (as : List α) :
    m.history s (a :: as) = (a, (m.step s a).2) :: m.history (m.step s a).1 as := rfl

theorem history_append (s : σ) (as bs : List α) :
    m.history s (as ++ bs) = m.history s as ++ m.history (m.run s as) bs := by
  induction as generalizing s with
  | nil => rfl
  | cons a as ih => simp only [List.cons_append, history_cons, run_cons, ih]

theorem history_concat (s : σ) (as : List α) (a : α) :
    m.history s (as ++ [a]) = m.history s as ++ [(a, (m.step (m.run s as) a).2)] := by
  rw [history_append, history_cons, history_nil]

theorem mem_history {s : σ} {as : List α} {a : α} {r : β} (h : (a, r) ∈ m.history s as) :
    ∃ pre post, as = pre ++ a :: post ∧ r = (m.step (m.run s pre) a).2 := by
  induction as generalizing s with
  | nil => cases h
  | cons b as ih =>
    rcases List.mem_cons.mp h with he | ht
    · obtain ⟨rfl, rfl⟩ := Prod.mk.inj he
      exact ⟨[], as, rfl, rfl⟩
    · obtain ⟨pre, post, rfl, hr⟩ := ih ht
      exact ⟨b :: pre, post, rfl, hr⟩

theorem run_invariant {P : σ → Prop} (hstep : ∀ s a, P s → P (m.step s a).1)
    {s : σ} (h : P s) (as : List α) : P (m.run s as) := by
  induction as generalizing s with
  | nil => exact h
  | cons a as ih => exact ih (hstep s a h)

theorem run_rel {R : σ → σ → Prop} (hrefl : ∀ s, R s s)
    (htrans : ∀ {s t u}, R s t → R t u → R s u) (hstep : ∀ s a, R s (m.step s a).1)
    (s : σ) (as : List α) : R s (m.run s as) := by
  induction as generalizing s with
  | nil => exact hrefl s
  | cons a as ih => exact htrans (hstep s a) (ih (m.step s a).1)

theorem history_invariant {I : List (α × β) → σ → Prop} {s : σ} (h0 : I [] s)
    (hstep : ∀ h s a, I h s → I (h ++ [(a, (m.step s a).2)]) (m.step s a).1) (as : List α) :
    I (m.history s as) (m.run s as) := by
  induction as using List.reverseRecOn with
  | nil => exact h0
  | append_singleton as a ih =>
    rw [history_concat, run_concat]
    exact hstep _ _ _ ih

theorem along_append {C : σ → α → Prop} {s : σ} {as bs : List α} :
    m.Along C s (as ++ bs) ↔ m.Along C s as ∧ m.Along C (m.run s as) bs := by
  induction as generalizing s with
  | nil => exact (and_iff_right trivial).symm
  | cons a as ih =>
    simp only [List.cons_append, Along, run_cons]
    rw [ih, and_assoc]

theorem along_iff_forall {C : σ → α → Prop} {s : σ} {as : List α} :
    m.Along C s as ↔ ∀ pre a post, as = pre ++ a :: post → C (m.run s pre) a := by
  constructor
  · rintro h pre a post rfl
    exact (m.along_append.mp h).2.1
  · intro h
    induction as generalizing s with
    | nil => trivial
    | cons a as ih =>
      refine ⟨h [] a as rfl, ih fun pre b post heq => ?_⟩
      exact h (a :: pre) b post (congrArg (a :: ·) heq)

theorem run_invariant_along {P : σ → Prop} {C : σ → α → Prop}
    (hstep : ∀ s a, P s → C s a → P (m.step s a).1)
    {s : σ} (h : P s) {as : List α} (hC : m.Along C s as) : P (m.run s as) := by
  induction as generalizing s with
  | nil => exact h
  | cons a as ih => exact ih (hstep s a h hC.1) hC.2

/-- Where `C` is what a step needs to keep `P`, a run meets it throughout exactly when `P` holds in
every state the run passes through. -/
theorem along_iff_invariant {P : σ → Prop} {C : σ → α → Prop}
    (hstep : ∀ s a, P s → (P (m.step s a).1 ↔ C s a)) {s : σ} (h : P s) {as : List α} :
    m.Along C s as ↔ ∀ pre, pre <+: as → P (m.run s pre) := by
  induction as generalizing s with
  | nil =>
    refine iff_of_true trivial fun pre hpre => ?_
    rw [List.prefix_nil.mp hpre]
    exact h
  | cons a as ih =>
    constructor
    · rintro ⟨hc, hrest⟩ pre hpre
      rcases List.prefix_cons_iff.mp hpre with rfl | ⟨rest, rfl, hpre'⟩
      · exact h
      · exact (ih ((hstep s a h).mpr hc)).mp hrest rest hpre'
    · intro hall
      have hnext : P (m.step s a).1 := hall [a] (List.prefix_cons_inj a |>.mpr List.nil_prefix)
      refine ⟨(hstep s a h).mp hnext, (ih hnext).mpr fun pre hpre => ?_⟩
      exact hall (a :: pre) (List.prefix_cons_inj a |>.mpr hpre)

section
variable {γ : Type*} (m : Machine σ α (List γ))

/-- Everything the actions of a run are answered with, oldest first. -/
def emitted (s : σ) (as : List α) : List γ := (m.history s as).flatMap Prod.snd

@[simp] theorem emitted_nil (s : σ) : m.emitted s [] = [] := rfl

theorem emitted_cons (s : σ) (a : α) (as : List α) :
    m.emitted s (a :: as) = (m.step s a).2 ++ m.emitted (m.step s a).1 as := by
  rw [emitted, history_cons, List.flatMap_cons]
  rfl

theorem emitted_split {s : σ} {as : List α} {before after : List γ} {x : γ}
    (h : m.emitted s as = before ++ x :: after) :
    ∃ pre a post front back, as = pre ++ a :: post ∧
      (m.step (m.run s pre) a).2 = front ++ x :: back ∧ before = m.emitted s pre ++ front := by
  induction as generalizing s before with
  | nil => exact absurd h (by simp)
  | cons a as ih =>
    have hrest : ∀ mid, before = (m.step s a).2 ++ mid → m.emitted (m.step s a).1 as = mid ++ x :: after →
        ∃ pre b post front back, a :: as = pre ++ b :: post ∧
          (m.step (m.run s pre) b).2 = front ++ x :: back ∧ before = m.emitted s pre ++ front := by
      rintro mid rfl hmid
      obtain ⟨pre, b, post, front, back, rfl, hb, rfl⟩ := ih hmid
      exact ⟨a :: pre, b, post, front, back, rfl, hb, by rw [emitted_cons, List.append_assoc]⟩
    rw [emitted_cons] at h
    rcases List.append_eq_append_iff.mp h with ⟨mid, hbefore, hmid⟩ | ⟨mid, hstep, hmid⟩
    · exact hrest mid hbefore hmid
    · cases mid with
      | nil => exact hrest [] (by simpa using hstep.symm) hmid.symm
      | cons y back =>
        obtain ⟨rfl, -⟩ := List.cons.inj hmid
        exact ⟨[], a, as, before, back, rfl, hstep, by simp⟩

theorem emitted_invariant {I : List γ → σ → Prop} {s : σ} (h0 : I [] s)
    (hstep : ∀ es s a, I es s → I (es ++ (m.step s a).2) (m.step s a).1) (as : List α) :
    I (m.emitted s as) (m.run s as) := by
  have hrun := m.history_invariant (I := fun h s => I (h.flatMap Prod.snd) s) h0 ?_ as
  · exact hrun
  · intro h s a hs
    rw [List.flatMap_append, List.flatMap_singleton]
    exact hstep _ s a hs

end
end Machine
end Library
