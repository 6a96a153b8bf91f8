import Quackapi.Policy.SecureQuery

/-! The registry ties four containers together: names are unique across both kinds of policy and
every binding names a policy. Row bindings also fit the signature of their policy, unless a
`CREATE OR REPLACE` changed the number of its arguments under a binding. -/

namespace Quackapi.Policy
open Library

structure Referential (s : PolicyState) : Prop where
  names : (s.rowAccessPolicies.map RowAccessPolicy.name ++
    s.maskingPolicies.map MaskingPolicy.name).Nodup
  rows : ∀ b ∈ s.rowAccessBindings, b.policyName ∈ s.rowAccessPolicies.map RowAccessPolicy.name
  masks : ∀ b ∈ s.maskingBindings, b.policyName ∈ s.maskingPolicies.map MaskingPolicy.name

/-- A row binding maps one table column on each argument of its policy. -/
def ArityFits (s : PolicyState) : Prop :=
  ∀ b ∈ s.rowAccessBindings, ∀ p ∈ s.rowAccessPolicies, p.name = b.policyName →
    b.columns.length = p.argColumns.length

/-- A replacement of a policy under a live binding keeps the number of its arguments. -/
def KeepsArity (s : PolicyState) : PolicyAction → Prop
  | .createRow p orReplace => orReplace = true → ∀ old ∈ s.rowAccessPolicies, old.name = p.name →
      (∃ b ∈ s.rowAccessBindings, b.policyName = p.name) →
      p.argColumns.length = old.argColumns.length
  | _ => True

theorem Referential.rowNames {s : PolicyState} (h : Referential s) :
    (s.rowAccessPolicies.map RowAccessPolicy.name).Nodup :=
  (List.nodup_append.mp h.names).1

theorem Referential.maskNames {s : PolicyState} (h : Referential s) :
    (s.maskingPolicies.map MaskingPolicy.name).Nodup :=
  (List.nodup_append.mp h.names).2.1

theorem referential_createRow {s t : PolicyState} {p : RowAccessPolicy} {orReplace : Bool}
    (hs : Referential s) (h : addRowAccessPolicy s p orReplace = .ok t) : Referential t := by
  rcases addRowAccessPolicy_ok h with ⟨_, _, _, _, rfl⟩ | ⟨hrow, hmask, rfl⟩
  · constructor
    · rw [map_key_replaceKey]
      exact hs.names
    · rw [map_key_replaceKey]
      exact hs.rows
    · exact hs.masks
  · constructor
    · rw [List.map_append, List.append_assoc, List.map_singleton, List.singleton_append]
      refine List.nodup_middle.mpr (List.nodup_cons.mpr ⟨?_, hs.names⟩)
      rw [List.mem_append]
      exact fun hin => hin.elim hrow hmask
    · intro b hb
      rw [List.map_append]
      exact List.mem_append_left _ (hs.rows b hb)
    · exact hs.masks

theorem referential_createMask {s t : PolicyState} {p : MaskingPolicy} {orReplace : Bool}
    (hs : Referential s) (h : addMaskingPolicy s p orReplace = .ok t) : Referential t := by
  rcases addMaskingPolicy_ok h with ⟨_, _, _, _, rfl⟩ | ⟨hmask, hrow, rfl⟩
  · constructor
    · rw [map_key_replaceKey]
      exact hs.names
    · exact hs.rows
    · rw [map_key_replaceKey]
      exact hs.masks
  · constructor
    · rw [List.map_append, ← List.append_assoc]
      refine hs.names.append (List.nodup_singleton _) (List.disjoint_singleton.mpr ?_)
      rw [List.mem_append]
      exact fun hin => hin.elim hrow hmask
    · exact hs.rows
    · intro b hb
      rw [List.map_append]
      exact List.mem_append_left _ (hs.masks b hb)

theorem mem_names_eraseKey {α : Type} {key : α → Str} {l : List α} (hl : (l.map key).Nodup)
    {name k : Str} (hk : k ∈ l.map key) (hne : k ≠ name) : k ∈ (eraseKey key name l).map key := by
  obtain ⟨p, hp, rfl⟩ := List.mem_map.mp hk
  exact List.mem_map_of_mem ((mem_eraseKey hl).mpr ⟨hp, hne⟩)

theorem referential_dropRow {s t : PolicyState} {name : Str} (hs : Referential s)
    (h : dropRowAccessPolicy s name = .ok t) : Referential t := by
  rw [dropRowAccessPolicy_ok h]
  constructor
  · exact hs.names.sublist ((List.eraseP_sublist.map _).append_right _)
  · intro b hb
    obtain ⟨hmem, hne⟩ := List.mem_filter.mp hb
    exact mem_names_eraseKey hs.rowNames (hs.rows b hmem) (of_decide_eq_true hne)
  · exact hs.masks

theorem referential_dropMask {s t : PolicyState} {name : Str} (hs : Referential s)
    (h : dropMaskingPolicy s name = .ok t) : Referential t := by
  rw [dropMaskingPolicy_ok h]
  constructor
  · exact hs.names.sublist ((List.eraseP_sublist.map _).append_left _)
  · exact hs.rows
  · intro b hb
    obtain ⟨hmem, hne⟩ := List.mem_filter.mp hb
    exact mem_names_eraseKey hs.maskNames (hs.masks b hmem) (of_decide_eq_true hne)

theorem referential_bindRow {s t : PolicyState} {b : RowAccessBinding} {orReplace : Bool}
    (hs : Referential s) (h : bindRowAccessPolicy s b orReplace = .ok t) : Referential t := by
  obtain ⟨⟨p, hp, _⟩, hw⟩ := bindRowAccessPolicy_ok h
  obtain ⟨hpmem, hpname⟩ := findKey_eq_some hp
  have hb : b.policyName ∈ s.rowAccessPolicies.map RowAccessPolicy.name :=
    hpname ▸ List.mem_map_of_mem hpmem
  rcases hw with ⟨_, _, _, rfl⟩ | ⟨_, rfl⟩
  · refine ⟨hs.names, fun x hx => ?_, hs.masks⟩
    rcases mem_of_mem_replaceKey hx with rfl | hx
    · exact hb
    · exact hs.rows x hx
  · refine ⟨hs.names, fun x hx => ?_, hs.masks⟩
    rcases List.mem_append.mp hx with hx | hx
    · exact hs.rows x hx
    · rw [List.mem_singleton.mp hx]
      exact hb

theorem referential_step {s : PolicyState} (a : PolicyAction) (hs : Referential s) :
    Referential (policyStep s a).1 := by
  refine policyStep_keeps hs fun t h => ?_
  cases a with
  | createRow p orReplace => exact referential_createRow hs h
  | createMask p orReplace => exact referential_createMask hs h
  | dropRow name => exact referential_dropRow hs h
  | dropMask name => exact referential_dropMask hs h
  | bindRow b orReplace => exact referential_bindRow hs h
  | unbindRow tableName policyName =>
    rw [unbindRowAccessPolicy_ok h]
    exact ⟨hs.names, fun b hb => hs.rows b (List.mem_of_mem_eraseP hb), hs.masks⟩
  | bindMask b orReplace =>
    obtain ⟨⟨p, hp⟩, bs, rfl, hbs⟩ := bindMaskingPolicy_ok h
    obtain ⟨hpmem, hpname⟩ := findKey_eq_some hp
    refine ⟨hs.names, hs.rows, fun x hx => ?_⟩
    rcases hbs x hx with rfl | hx
    · exact hpname ▸ List.mem_map_of_mem hpmem
    · exact hs.masks x hx
  | unbindMask tableName columnName =>
    obtain ⟨bs, rfl, hbs⟩ := unbindMaskingPolicy_ok h
    exact ⟨hs.names, hs.rows, fun x hx => hs.masks x (hbs x hx)⟩

theorem arity_createRow {s t : PolicyState} {p : RowAccessPolicy} {orReplace : Bool}
    (hs : Referential s) (hfit : ArityFits s)
    (h : addRowAccessPolicy s (padArgTypes p) orReplace = .ok t) :
    ArityFits t ↔ KeepsArity s (.createRow p orReplace) := by
  rcases addRowAccessPolicy_ok h with ⟨old, hold, hname, hrep, rfl⟩ | ⟨hrow, _, rfl⟩
  · have hin : (padArgTypes p).name ∈ s.rowAccessPolicies.map RowAccessPolicy.name :=
      hname ▸ List.mem_map_of_mem hold
    constructor
    · intro hfit' _ old' hold' hname' ⟨b, hb, hbn⟩
      have hnew := hfit' b hb (padArgTypes p) (mem_replaceKey_self hin) hbn.symm
      exact hnew.symm.trans (hfit b hb old' hold' (hname'.trans hbn.symm))
    · intro hkeep b hb x hx hxn
      rcases (mem_replaceKey hs.rowNames hin).mp hx with rfl | ⟨hx, _⟩
      · rw [hfit b hb old hold (hname.trans hxn)]
        exact (hkeep hrep old hold hname ⟨b, hb, hxn.symm⟩).symm
      · exact hfit b hb x hx hxn
  · constructor
    · intro _ _ old' hold' hname' _
      exact absurd (hname' ▸ List.mem_map_of_mem hold') hrow
    · intro _ b hb x hx hxn
      rcases List.mem_append.mp hx with hx | hx
      · exact hfit b hb x hx hxn
      · rw [List.mem_singleton.mp hx] at hxn
        exact absurd (hxn ▸ hs.rows b hb) hrow

theorem arity_bindRow {s t : PolicyState} {b : RowAccessBinding} {orReplace : Bool}
    (hs : Referential s) (hfit : ArityFits s) (h : bindRowAccessPolicy s b orReplace = .ok t) :
    ArityFits t := by
  obtain ⟨⟨p, hp, hlen⟩, hw⟩ := bindRowAccessPolicy_ok h
  have hb : ∀ x ∈ s.rowAccessPolicies, x.name = b.policyName →
      b.columns.length = x.argColumns.length := by
    intro x hx hxn
    have hxp := (findKey_eq_some_iff hs.rowNames).mpr ⟨hx, hxn⟩
    obtain rfl : p = x := Option.some.inj (hp.symm.trans hxp)
    exact hlen
  rcases hw with ⟨_, _, _, rfl⟩ | ⟨_, rfl⟩
  · intro y hy
    rcases mem_of_mem_replaceKey hy with rfl | hy
    · exact hb
    · exact hfit y hy
  · intro y hy
    rcases List.mem_append.mp hy with hy | hy
    · exact hfit y hy
    · rw [List.mem_singleton.mp hy]
      exact hb

theorem keepsArity_of_error {s : PolicyState} {a : PolicyAction} {e : Str}
    (h : applyPolicy s a = .error e) : KeepsArity s a := by
  cases a with
  | createRow p orReplace =>
    intro hrep old hold hname _
    have hin : (padArgTypes p).name ∈ s.rowAccessPolicies.map RowAccessPolicy.name :=
      hname ▸ List.mem_map_of_mem hold
    simp only [applyPolicy, addRowAccessPolicy, getRowAccessPolicy, hrep, if_true] at h
    rcases hf : findKey RowAccessPolicy.name (padArgTypes p).name s.rowAccessPolicies with _ | q
    · exact absurd hin (findKey_eq_none.mp hf)
    · rw [hf] at h
      cases h
  | _ => trivial

theorem arity_step_iff {s : PolicyState} (a : PolicyAction) (hs : Referential s)
    (hfit : ArityFits s) : ArityFits (policyStep s a).1 ↔ KeepsArity s a := by
  rcases policyStep_cases s a with ⟨t, ht, he⟩ | ⟨⟨e, hfail⟩, he⟩
  · rw [he]
    cases a with
    | createRow p orReplace => exact arity_createRow hs hfit ht
    | bindRow b orReplace => exact iff_of_true (arity_bindRow hs hfit ht) trivial
    | _ =>
      -- what is left of the bindings and of the row policies was there before
      have hbindings := rowBindings_sublist ht (fun _ _ h => nomatch h)
      have hpolicies := rowPolicies_sublist ht (fun _ _ h => nomatch h)
      refine iff_of_true (fun b hb p hp => ?_) trivial
      exact hfit b (hbindings.subset hb) p (hpolicies.subset hp)
  · rw [he]
    exact iff_of_true hfit (keepsArity_of_error hfail)

/-- A piece of the policy expression that names an argument but stays as it is written. -/
def LeavesUnmapped (p : RowAccessPolicy) (b : RowAccessBinding) : Prop :=
  ∃ piece ∈ pieces true p.expression, ∃ token, piece.token = some token ∧
    (∃ arg ∈ p.argColumns, sameCatalogIdentifier token arg = true) ∧
    mapToken p.argColumns b.columns token = none

theorem not_leavesUnmapped {p : RowAccessPolicy} {b : RowAccessBinding}
    (hlen : b.columns.length = p.argColumns.length) : ¬ LeavesUnmapped p b := by
  rintro ⟨piece, _, token, _, ⟨arg, harg, hsame⟩, hnone⟩
  obtain ⟨c, _, _, hmap⟩ := mapToken_mapped hlen harg hsame
  rw [hnone] at hmap
  cases hmap

structure WellBound (s : PolicyState) : Prop where
  names : (s.rowAccessPolicies.map RowAccessPolicy.name ++
    s.maskingPolicies.map MaskingPolicy.name).Nodup
  rows : ∀ b ∈ s.rowAccessBindings, ∃ p, getRowAccessPolicy s b.policyName = some p ∧
    b.columns.length = p.argColumns.length ∧ ¬ LeavesUnmapped p b
  masks : ∀ b ∈ s.maskingBindings, ∃ p, getMaskingPolicy s b.policyName = some p

theorem wellBound_iff {s : PolicyState} (hs : Referential s) : WellBound s ↔ ArityFits s := by
  constructor
  · intro h b hb p hp hname
    obtain ⟨q, hq, hlen, _⟩ := h.rows b hb
    have hpq := (findKey_eq_some_iff hs.rowNames).mpr ⟨hp, hname⟩
    obtain rfl : q = p := Option.some.inj (hq.symm.trans hpq)
    exact hlen
  · intro hfit
    refine ⟨hs.names, fun b hb => ?_, fun b hb => ?_⟩
    · obtain ⟨p, hp, hname⟩ := List.mem_map.mp (hs.rows b hb)
      have hlen := hfit b hb p hp hname
      exact ⟨p, (findKey_eq_some_iff hs.rowNames).mpr ⟨hp, hname⟩, hlen, not_leavesUnmapped hlen⟩
    · obtain ⟨p, hp, hname⟩ := List.mem_map.mp (hs.masks b hb)
      exact ⟨p, (findKey_eq_some_iff hs.maskNames).mpr ⟨hp, hname⟩⟩

/-- A run is well bound in every state it passes through exactly when each of its replacements
keeps the arity of a bound policy. -/
theorem policy_registry_wellBound (as : List PolicyAction) :
    (∀ pre, pre <+: as → WellBound (policyMachine.run emptyPolicies pre)) ↔
      policyMachine.Along KeepsArity emptyPolicies as := by
  have hempty : Referential emptyPolicies ∧ ArityFits emptyPolicies := by
    refine ⟨⟨List.nodup_nil, fun b hb => ?_, fun b hb => ?_⟩, fun b hb => ?_⟩ <;> cases hb
  have hrun : ∀ pre, Referential (policyMachine.run emptyPolicies pre) := fun pre =>
    policyMachine.run_invariant (fun s a => referential_step a) hempty.1 pre
  rw [policyMachine.along_iff_invariant (P := fun s => Referential s ∧ ArityFits s) ?_ hempty]
  · refine forall₂_congr fun pre _ => ?_
    rw [wellBound_iff (hrun pre), and_iff_right (hrun pre)]
  · intro s a hs
    exact (and_iff_right (referential_step a hs.1)).trans (arity_step_iff a hs.1 hs.2)

/-- Create a policy of one argument, bind it, then replace it by one of two arguments. -/
def widenedPolicy : List PolicyAction :=
  [.createRow ⟨"p".toList, ["a".toList], [[]], "a = 1".toList⟩ false,
    .bindRow ⟨"t".toList, "p".toList, ["x".toList]⟩ false,
    .createRow ⟨"p".toList, ["a".toList, "b".toList], [[], []], "a = b".toList⟩ true]

theorem widenedPolicy_unbound : ¬ ∀ as, WellBound (policyMachine.run emptyPolicies as) := by
  intro h
  obtain ⟨p, hp, hlen, _⟩ := (h widenedPolicy).rows ⟨"t".toList, "p".toList, ["x".toList]⟩ (by decide)
  have hwide : getRowAccessPolicy (policyMachine.run emptyPolicies widenedPolicy) "p".toList =
      some ⟨"p".toList, ["a".toList, "b".toList], [[], []], "a = b".toList⟩ := by decide
  rw [hwide] at hp
  cases hp
  cases hlen

end Quackapi.Policy
