import Mathlib.Data.List.Basic

/-! Folds that may fail and do not depend on the order of their list, up to a relation on the state. -/

namespace Library

section
variable {σ α : Type*} {step : σ → α → Option σ} {R : σ → σ → Prop}

theorem rel_bind {o o' : Option σ} {f g : σ → Option σ} (h : Option.Rel R o o')
    (hfg : ∀ s s', R s s' → Option.Rel R (f s) (g s')) : Option.Rel R (o.bind f) (o'.bind g) := by
  cases h with
  | some h => exact hfg _ _ h
  | none => exact .none

theorem rel_trans {o o' o'' : Option σ} (htrans : ∀ s s' s'', R s s' → R s' s'' → R s s'')
    (h : Option.Rel R o o') (h' : Option.Rel R o' o'') : Option.Rel R o o'' := by
  cases h with
  | some h =>
    cases h' with
    | some h' => exact .some (htrans _ _ _ h h')
  | none => exact h'

theorem rel_refl (hrefl : ∀ s, R s s) (o : Option σ) : Option.Rel R o o := by
  cases o with
  | none => exact .none
  | some s => exact .some (hrefl s)

theorem foldlM_perm (hrefl : ∀ s, R s s) (htrans : ∀ s s' s'', R s s' → R s' s'' → R s s'')
    (hstep : ∀ s s' a, R s s' → Option.Rel R (step s a) (step s' a))
    (hswap : ∀ s a b, Option.Rel R ((step s a).bind (step · b)) ((step s b).bind (step · a)))
    {l l' : List α} (h : l.Perm l') :
    ∀ s s', R s s' → Option.Rel R (l.foldlM step s) (l'.foldlM step s') := by
  induction h with
  | nil => exact fun s s' hs => .some hs
  | cons a _ ih =>
    intro s s' hs
    rw [List.foldlM_cons, List.foldlM_cons]
    exact rel_bind (hstep s s' a hs) ih
  | swap a b l =>
    intro s s' hs
    have hrest : ∀ t t', R t t' → Option.Rel R (l.foldlM step t) (l.foldlM step t') := by
      induction l with
      | nil => exact fun t t' ht => .some ht
      | cons c l ih =>
        intro t t' ht
        rw [List.foldlM_cons, List.foldlM_cons]
        exact rel_bind (hstep t t' c ht) ih
    have htwo : ∀ (t : σ) (c d : α), (c :: d :: l).foldlM step t =
        ((step t c).bind (step · d)).bind fun u => l.foldlM step u := by
      intro t c d
      rw [List.foldlM_cons]
      exact (Option.bind_assoc (step t c) (step · d) fun u => l.foldlM step u).symm
    rw [htwo, htwo]
    refine rel_bind (rel_trans htrans (hswap s b a) ?_) hrest
    exact rel_bind (hstep s s' a hs) fun t t' ht => hstep t t' b ht
  | trans _ _ ih ih' =>
    intro s s' hs
    exact rel_trans htrans (ih s s (hrefl s)) (ih' s s' hs)

/-- Where only elements of different keys may change places, a list without a key twice may be put in any
order. -/
theorem foldlM_perm_of_keys {κ : Type*} {key : α → κ}
    (hswap : ∀ s a b, key a ≠ key b → (step s a).bind (step · b) = (step s b).bind (step · a))
    {l l' : List α} (h : l.Perm l') (hkeys : (l.map key).Nodup) (s : σ) :
    l.foldlM step s = l'.foldlM step s := by
  induction h generalizing s with
  | nil => rfl
  | cons a _ ih =>
    rw [List.foldlM_cons, List.foldlM_cons]
    have htail := (List.nodup_cons.mp hkeys).2
    exact congrArg (Option.bind (step s a)) (funext fun t => ih htail t)
  | swap a b l =>
    have hne : key b ≠ key a := fun heq => (List.nodup_cons.mp hkeys).1 (heq ▸ List.mem_cons_self)
    have htwo : ∀ c d : α, (c :: d :: l).foldlM step s =
        ((step s c).bind (step · d)).bind fun u => l.foldlM step u := by
      intro c d
      rw [List.foldlM_cons]
      exact (Option.bind_assoc (step s c) (step · d) fun u => l.foldlM step u).symm
    rw [htwo, htwo, hswap s b a hne]
  | trans hl _ ih ih' =>
    have hkeys' := (hl.map key).nodup_iff.mp hkeys
    exact (ih hkeys s).trans (ih' hkeys' s)

end
end Library
