import Quackapi.Policy.Completeness
import Mathlib.Data.List.Pairwise

/-! One row access policy a table. The registry compares the spellings of table names, the rewriter
their identities; a policy is bound and never applied when two spellings of one table get past the
registry. -/

namespace Quackapi.Policy
open Library

/-- The catalog table a binding resolves to, up to case. -/
def tableOf (e : PolicyEngine) (b : RowAccessBinding) : Option PolicyTableIdentity :=
  (parsePolicyTableIdentity e.tryParseName b.tableName e.defaultCatalog).map
    PolicyTableIdentity.folded

def SameTable (e : PolicyEngine) (b b' : RowAccessBinding) : Prop :=
  ∃ i, tableOf e b = some i ∧ tableOf e b' = some i

theorem SameTable.symm {e : PolicyEngine} {b b' : RowAccessBinding} (h : SameTable e b b') :
    SameTable e b' b := by
  obtain ⟨i, hb, hb'⟩ := h
  exact ⟨i, hb', hb⟩

/-- The rewriter reads the registry without a change in between. -/
def snapshot (e : PolicyEngine) (s : PolicyState) : PolicySnapshot :=
  ⟨e, s.rowAccessBindings, s.maskingBindings, s⟩

theorem bindsTable_iff {e : PolicyEngine} {s : PolicyState} {identity : PolicyTableIdentity}
    {b : RowAccessBinding} : bindsTable (snapshot e s) identity b.tableName = true ↔
      tableOf e b = some identity.folded := by
  unfold bindsTable tableOf snapshot
  rcases parsePolicyTableIdentity e.tryParseName b.tableName e.defaultCatalog with _ | bound
  · exact iff_of_false (fun h => by cases h) (fun h => by cases h)
  · rw [samePolicyTableIdentity_iff, Option.map_some, Option.some.injEq, eq_comm]

/-- `q` is a secure subquery of the table that filters by the policy of `b`. -/
def FiltersBy (e : PolicyEngine) (s : PolicyState) (identity : PolicyTableIdentity)
    (b : RowAccessBinding) (q : Ast .query) : Prop :=
  ∃ rap masked, getRowAccessPolicy s b.policyName = some rap ∧
    e.parseSecureSubquery (buildSecureSubqueryQuoted (quotePolicyTableIdentity identity)
      (replacePolicyIdentifiers rap.expression rap.argColumns b.columns) masked) = some q

theorem secureSubquery_filtersBy {e : PolicyEngine} {s : PolicyState}
    {identity : PolicyTableIdentity} {b : RowAccessBinding} {q : Ast .query}
    (h : secureSubquery ⟨snapshot e s, true⟩ identity (some b) = .ok q) :
    FiltersBy e s identity b q := by
  simp only [secureSubquery, bind_eq_ok] at h
  obtain ⟨filter, hfilter, masked, _, h⟩ := h
  simp only [whereExpr] at hfilter
  split at hfilter
  · cases hfilter
  next rap hrap =>
  cases hfilter
  refine ⟨rap, masked, hrap, ?_⟩
  split at h
  · next q' hq =>
    cases h
    exact hq
  · cases h

/-- No two bindings share a table, so whatever is put in the place of a table filters by every row
policy bound to it. -/
structure RowPoliciesEnforced (e : PolicyEngine) (s : PolicyState) : Prop where
  unique : s.rowAccessBindings.Pairwise fun b b' => ¬ SameTable e b b'
  filters : ∀ name q, IsSecureSubquery (snapshot e s) name q →
    ∀ b ∈ s.rowAccessBindings,
      tableOf e b = some (identityFromName name e.defaultCatalog).folded →
      FiltersBy e s (identityFromName name e.defaultCatalog) b q

def UniqueSpellings (s : PolicyState) : Prop :=
  (s.rowAccessBindings.map RowAccessBinding.spelling).Nodup

/-- What the rewriter needs, in the form the steps preserve. -/
def SpelledOnce (e : PolicyEngine) (s : PolicyState) : Prop :=
  ∀ b ∈ s.rowAccessBindings, ∀ b' ∈ s.rowAccessBindings, SameTable e b b' →
    b.spelling = b'.spelling

theorem rowPoliciesEnforced_iff {e : PolicyEngine} {s : PolicyState} (hu : UniqueSpellings s) :
    RowPoliciesEnforced e s ↔ SpelledOnce e s := by
  have hinj : ∀ b ∈ s.rowAccessBindings, ∀ b' ∈ s.rowAccessBindings,
      b.spelling = b'.spelling → b = b' := fun b hb b' hb' h =>
    List.inj_on_of_nodup_map hu hb hb' h
  constructor
  · intro h b hb b' hb' hsame
    by_contra hne
    have hsymm : Std.Symm fun b b' : RowAccessBinding => ¬ SameTable e b b' :=
      ⟨fun _ _ hno hs => hno hs.symm⟩
    exact h.unique.forall hb hb' (fun he => hne (congrArg _ he)) hsame
  · intro h
    constructor
    · refine hu.of_map.pairwise_of_forall_ne fun b hb b' hb' hne hsame => ?_
      exact hne (hinj b hb b' hb' (h b hb b' hb' hsame))
    · rintro name q ⟨rap, hrap, hq⟩ b hb hb_table
      -- the rewriter takes the first binding of the table, and there is no other
      have hfind := findBinding_ok hrap
      have hbinds := bindsTable_iff (s := s).mpr hb_table
      rcases hf : s.rowAccessBindings.find? (fun b => bindsTable (snapshot e s)
        (identityFromName name e.defaultCatalog) b.tableName) with _ | b₀
      · exact absurd hbinds (List.find?_eq_none.mp hf b hb)
      have hb₀ := List.mem_of_find?_eq_some hf
      have hbinds₀ := List.find?_some hf
      have hsame : SameTable e b₀ b := ⟨_, bindsTable_iff.mp hbinds₀, hb_table⟩
      have heq : b₀ = b := hinj b₀ hb₀ b hb (h b₀ hb₀ b hb hsame)
      have hrap' : rap = some b := by
        rw [hfind, ← heq]
        exact hf
      rw [hrap'] at hq
      exact secureSubquery_filtersBy hq

def Admitted (s : PolicyState) (b : RowAccessBinding) (orReplace : Bool) : Prop :=
  (∃ p, getRowAccessPolicy s b.policyName = some p ∧ b.columns.length = p.argColumns.length) ∧
    ∀ old, findKey RowAccessBinding.spelling b.spelling s.rowAccessBindings = some old →
      old.policyName = b.policyName ∨ orReplace = true

/-- A binding that is let in spells its table as every live binding of the table does. -/
def SpellsAlike (e : PolicyEngine) (s : PolicyState) : PolicyAction → Prop
  | .bindRow b orReplace => Admitted s b orReplace →
      ∀ b' ∈ s.rowAccessBindings, SameTable e b b' → b.spelling = b'.spelling
  | _ => True

theorem admitted_iff {s : PolicyState} {b : RowAccessBinding} {orReplace : Bool} :
    (∃ t, bindRowAccessPolicy s b orReplace = .ok t) ↔ Admitted s b orReplace := by
  constructor
  · rintro ⟨t, h⟩
    obtain ⟨hp, hw⟩ := bindRowAccessPolicy_ok h
    refine ⟨hp, fun old hold => ?_⟩
    rcases hw with ⟨old', hf, hc, _⟩ | ⟨hno, _⟩
    · obtain rfl : old = old' := Option.some.inj (hold.symm.trans hf)
      exact hc
    · rw [← findKey_eq_none, hold] at hno
      cases hno
  · rintro ⟨⟨p, hp, hlen⟩, hc⟩
    unfold bindRowAccessPolicy
    rw [hp]
    simp only [hlen, ne_eq, not_true_eq_false, if_false]
    rcases hf : findKey RowAccessBinding.spelling b.spelling s.rowAccessBindings with _ | old
    · exact ⟨_, rfl⟩
    · simp only [if_pos (hc old hf)]
      exact ⟨_, rfl⟩

theorem uniqueSpellings_step {s : PolicyState} (a : PolicyAction) (hu : UniqueSpellings s) :
    UniqueSpellings (policyStep s a).1 := by
  refine policyStep_keeps hu fun t h => ?_
  cases a with
  | bindRow b orReplace =>
    rcases (bindRowAccessPolicy_ok h).2 with ⟨_, _, _, rfl⟩ | ⟨hno, rfl⟩
    · exact (congrArg List.Nodup (map_key_replaceKey ..)).mpr hu
    · exact nodup_concat_of_not_mem hu hno
  | _ => exact hu.sublist ((rowBindings_sublist h (fun _ _ h => nomatch h)).map _)

theorem mem_bindings_bindRow {s t : PolicyState} {b : RowAccessBinding} {orReplace : Bool}
    (hu : UniqueSpellings s) (h : bindRowAccessPolicy s b orReplace = .ok t) {x : RowAccessBinding} :
    x ∈ t.rowAccessBindings ↔ x = b ∨ (x ∈ s.rowAccessBindings ∧ x.spelling ≠ b.spelling) := by
  rcases (bindRowAccessPolicy_ok h).2 with ⟨old, hf, _, rfl⟩ | ⟨hno, rfl⟩
  · obtain ⟨hmem, hkey⟩ := findKey_eq_some hf
    exact mem_replaceKey hu (hkey ▸ List.mem_map_of_mem hmem)
  · simp only [List.mem_append, List.mem_singleton]
    constructor
    · rintro (hx | rfl)
      · exact .inr ⟨hx, fun he => hno (he ▸ List.mem_map_of_mem hx)⟩
      · exact .inl rfl
    · rintro (rfl | ⟨hx, _⟩)
      · exact .inr rfl
      · exact .inl hx

theorem spelledOnce_bindRow {e : PolicyEngine} {s t : PolicyState} {b : RowAccessBinding}
    {orReplace : Bool} (hu : UniqueSpellings s) (hs : SpelledOnce e s)
    (h : bindRowAccessPolicy s b orReplace = .ok t) :
    SpelledOnce e t ↔ SpellsAlike e s (.bindRow b orReplace) := by
  have hin := admitted_iff.mp ⟨t, h⟩
  constructor
  · intro ht _ b' hb' hsame
    by_contra hne
    have hb : b ∈ t.rowAccessBindings := (mem_bindings_bindRow hu h).mpr (.inl rfl)
    have hb'' : b' ∈ t.rowAccessBindings :=
      (mem_bindings_bindRow hu h).mpr (.inr ⟨hb', fun he => hne he.symm⟩)
    exact hne (ht b hb b' hb'' hsame)
  · intro hc x hx y hy hsame
    rcases (mem_bindings_bindRow hu h).mp hx with rfl | ⟨hx, _⟩
    · rcases (mem_bindings_bindRow hu h).mp hy with rfl | ⟨hy, _⟩
      · rfl
      · exact hc hin y hy hsame
    · rcases (mem_bindings_bindRow hu h).mp hy with rfl | ⟨hy, _⟩
      · exact (hc hin x hx hsame.symm).symm
      · exact hs x hx y hy hsame

theorem spelledOnce_step_iff {e : PolicyEngine} {s : PolicyState} (a : PolicyAction)
    (hu : UniqueSpellings s) (hs : SpelledOnce e s) :
    SpelledOnce e (policyStep s a).1 ↔ SpellsAlike e s a := by
  rcases policyStep_cases s a with ⟨t, ht, he⟩ | ⟨⟨err, hfail⟩, he⟩
  · rw [he]
    cases a with
    | bindRow b orReplace => exact spelledOnce_bindRow hu hs ht
    | _ =>
      have hbindings := rowBindings_sublist ht (fun _ _ h => nomatch h)
      refine iff_of_true (fun b hb b' hb' => ?_) trivial
      exact hs b (hbindings.subset hb) b' (hbindings.subset hb')
  · rw [he]
    refine iff_of_true hs ?_
    cases a with
    | bindRow b orReplace =>
      intro hin
      obtain ⟨t, ht⟩ := admitted_iff.mpr hin
      rw [applyPolicy, ht] at hfail
      cases hfail
    | _ => trivial

/-- Every row policy bound along a run is enforced in every state of it exactly when each binding
that is let in spells its table as the live bindings of that table do. -/
theorem row_policies_enforced (e : PolicyEngine) (as : List PolicyAction) :
    (∀ pre, pre <+: as → RowPoliciesEnforced e (policyMachine.run emptyPolicies pre)) ↔
      policyMachine.Along (SpellsAlike e) emptyPolicies as := by
  have hempty : UniqueSpellings emptyPolicies ∧ SpelledOnce e emptyPolicies :=
    ⟨List.nodup_nil, fun b hb => by cases hb⟩
  have hrun : ∀ pre, UniqueSpellings (policyMachine.run emptyPolicies pre) := fun pre =>
    policyMachine.run_invariant (fun s a => uniqueSpellings_step a) hempty.1 pre
  rw [policyMachine.along_iff_invariant (P := fun s => UniqueSpellings s ∧ SpelledOnce e s) ?_
    hempty]
  · refine forall₂_congr fun pre _ => ?_
    rw [rowPoliciesEnforced_iff (hrun pre), and_iff_right (hrun pre)]
  · intro s a hs
    exact (and_iff_right (uniqueSpellings_step a hs.1)).trans (spelledOnce_step_iff a hs.1 hs.2)

/-- Two policies bound to the table `t`, once as `t` and once as `main.t`. -/
def boundTwice : List PolicyAction :=
  [.createRow ⟨"p".toList, ["a".toList], [[]], "a = 1".toList⟩ false,
    .createRow ⟨"q".toList, ["a".toList], [[]], "a = 2".toList⟩ false,
    .bindRow ⟨"t".toList, "p".toList, ["x".toList]⟩ false,
    .bindRow ⟨"main.t".toList, "q".toList, ["x".toList]⟩ false]

def plainEngine : PolicyEngine where
  tryParseName := plainName
  defaultCatalog := "memory".toList
  isCatalogView := fun _ => some false
  isScalarMacro := fun _ => some false
  parseSecureSubquery := fun _ => some (selectFrom "*" "t")

theorem boundTwice_unenforced :
    ¬ ∀ e as, RowPoliciesEnforced e (policyMachine.run emptyPolicies as) := by
  intro h
  have hunique := (h plainEngine boundTwice).unique
  have hrun : (policyMachine.run emptyPolicies boundTwice).rowAccessBindings =
      [⟨"t".toList, "p".toList, ["x".toList]⟩, ⟨"main.t".toList, "q".toList, ["x".toList]⟩] := by
    decide
  rw [hrun, List.pairwise_pair] at hunique
  apply hunique
  exact ⟨⟨"memory".toList, "main".toList, "t".toList⟩, by decide, by decide⟩

end Quackapi.Policy
