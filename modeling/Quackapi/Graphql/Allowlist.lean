import Quackapi.Graphql.Registry

/-! Whether registering a list of tables is all or nothing. The list is checked against the catalog
and the registered tables first, but not against itself: a repeated name is met when the names
before it are registered already. -/

namespace Quackapi.Graphql
open Library

theorem ne_nil_of_tableExists {load : CatalogLoad} {table : Str}
    (h : tableExists load table = true) : table ≠ [] := by
  rintro rfl
  rcases load with e | c
  · cases h
  · obtain ⟨o, hfind⟩ := Option.isSome_iff_exists.mp h
    obtain ⟨ho, hname⟩ := findKey_eq_some hfind
    exact c.named o ho hname

def Rejected (load : CatalogLoad) (s : GraphqlState) (tables : List Str) (orReplace : Bool) : Prop :=
  (∃ table ∈ tables, tableExists load table = false) ∨
    (orReplace = false ∧ ∃ table ∈ tables, table ∈ s.graphqlTables)

theorem addGraphqlTable_cases (s : GraphqlState) {table : Str} (hne : table ≠ [])
    (orReplace : Bool) :
    (table ∈ s.graphqlTables ∧ addGraphqlTable s table orReplace =
        (s, if orReplace then .ok () else .error (tableRegisteredMessage table))) ∨
      (table ∉ s.graphqlTables ∧ addGraphqlTable s table orReplace =
        ({ s with graphqlTables := s.graphqlTables ++ [table] }, .ok ())) := by
  have hempty : ¬ table.isEmpty = true := fun h => hne (List.isEmpty_iff.mp h)
  unfold addGraphqlTable
  rw [if_neg hempty]
  by_cases hmem : table ∈ s.graphqlTables
  · left
    rw [if_pos (List.contains_iff_mem.mpr hmem)]
    cases orReplace with
    | false => exact ⟨hmem, rfl⟩
    | true => exact ⟨hmem, rfl⟩
  · right
    rw [if_neg fun h => hmem (List.contains_iff_mem.mp h)]
    exact ⟨hmem, rfl⟩

theorem mem_addGraphqlTables {orReplace : Bool} {s : GraphqlState} {tables : List Str}
    (hne : ∀ table ∈ tables, table ≠ []) {t : Str} (ht : t ∈ s.graphqlTables) :
    t ∈ (addGraphqlTables orReplace s tables).1.graphqlTables := by
  induction tables generalizing s with
  | nil => exact ht
  | cons table tables ih =>
    obtain ⟨htable, hne⟩ := List.forall_mem_cons.mp hne
    have hone : t ∈ (addGraphqlTable s table orReplace).1.graphqlTables := by
      rcases addGraphqlTable_cases s htable orReplace with ⟨_, h⟩ | ⟨_, h⟩
      · rw [h]
        exact ht
      · rw [h]
        exact List.mem_append_left _ ht
    simp only [addGraphqlTables]
    split
    · exact ih hne hone
    · exact hone

theorem head_mem_addGraphqlTables {orReplace : Bool} {s : GraphqlState} {table : Str}
    {tables : List Str} (hne : ∀ t ∈ table :: tables, t ≠ [])
    (hnew : orReplace = true ∨ table ∉ s.graphqlTables) :
    table ∈ (addGraphqlTables orReplace s (table :: tables)).1.graphqlTables := by
  obtain ⟨htable, hne⟩ := List.forall_mem_cons.mp hne
  rcases addGraphqlTable_cases s htable orReplace with ⟨hmem, h⟩ | ⟨_, h⟩
  · have hreplace : orReplace = true := hnew.resolve_right fun hno => hno hmem
    subst hreplace
    simp only [addGraphqlTables, h, if_true]
    exact mem_addGraphqlTables hne hmem
  · simp only [addGraphqlTables, h]
    exact mem_addGraphqlTables hne (List.mem_append_right _ List.mem_cons_self)

/-- The registration goes through when it replaces, or meets no name a second time; then every table
of the list is registered. -/
theorem addGraphqlTables_ok_iff {orReplace : Bool} {s : GraphqlState} {tables : List Str}
    (hne : ∀ table ∈ tables, table ≠ []) :
    (addGraphqlTables orReplace s tables).2 = .ok () ↔
      orReplace = true ∨ (tables.Nodup ∧ ∀ table ∈ tables, table ∉ s.graphqlTables) := by
  induction tables generalizing s with
  | nil => exact iff_of_true rfl (.inr ⟨List.nodup_nil, nofun⟩)
  | cons table tables ih =>
    obtain ⟨htable, hne⟩ := List.forall_mem_cons.mp hne
    rw [List.nodup_cons, List.forall_mem_cons]
    rcases addGraphqlTable_cases s htable orReplace with ⟨hmem, h⟩ | ⟨hmem, h⟩
    · cases orReplace with
      | true =>
        have hrest : (addGraphqlTables true s tables).2 = .ok () := (ih hne).mpr (.inl rfl)
        have hloop : (addGraphqlTables true s (table :: tables)).2 = .ok () := by
          simp only [addGraphqlTables, h, if_true, hrest]
        exact iff_of_true hloop (.inl rfl)
      | false =>
        simp only [addGraphqlTables, h]
        refine iff_of_false nofun ?_
        rintro (hno | ⟨_, hno, _⟩)
        · cases hno
        · exact hno hmem
    · simp only [addGraphqlTables, h, ih hne, List.mem_append, List.mem_singleton, not_or]
      refine or_congr_right ?_
      constructor
      · rintro ⟨hnodup, hfresh⟩
        exact ⟨⟨fun hin => (hfresh table hin).2 rfl, hnodup⟩, hmem, fun t ht => (hfresh t ht).1⟩
      · rintro ⟨⟨hnot, hnodup⟩, _, hfresh⟩
        exact ⟨hnodup, fun t ht => ⟨hfresh t ht, fun he => hnot (he ▸ ht)⟩⟩

theorem registers_of_ok {orReplace : Bool} {s : GraphqlState} {tables : List Str}
    (hne : ∀ table ∈ tables, table ≠ []) (hok : (addGraphqlTables orReplace s tables).2 = .ok ()) :
    ∀ table ∈ tables, table ∈ (addGraphqlTables orReplace s tables).1.graphqlTables := by
  induction tables generalizing s with
  | nil => exact nofun
  | cons table tables ih =>
    have hnew : orReplace = true ∨ table ∉ s.graphqlTables := by
      refine ((addGraphqlTables_ok_iff hne).mp hok).imp_right fun h => ?_
      exact h.2 table List.mem_cons_self
    rw [List.forall_mem_cons]
    refine ⟨head_mem_addGraphqlTables hne hnew, ?_⟩
    simp only [addGraphqlTables] at hok ⊢
    split
    · next hone =>
      rw [hone] at hok
      exact ih (List.forall_mem_cons.mp hne).2 hok
    · next e hone =>
      rw [hone] at hok
      cases hok

theorem createGraphqlTables_cases (load : CatalogLoad) (s : GraphqlState) (tables : List Str)
    (orReplace : Bool) :
    (Rejected load s tables orReplace ∧
      ∃ e, createGraphqlTables load s tables orReplace = (s, .error e)) ∨
    (¬ Rejected load s tables orReplace ∧ createGraphqlTables load s tables orReplace =
      ((addGraphqlTables orReplace s tables).1,
        (addGraphqlTables orReplace s tables).2.map fun _ => tablesCreatedMessage tables)) := by
  unfold createGraphqlTables
  split
  · next table hfind =>
    have hmem := List.mem_of_find?_eq_some hfind
    have hmissing := List.find?_some hfind
    exact .inl ⟨.inl ⟨table, hmem, by simpa using hmissing⟩, _, rfl⟩
  next hexist =>
  have hexist : ∀ table ∈ tables, ¬ tableExists load table = false := by
    intro table htable hno
    refine List.find?_eq_none.mp hexist table htable ?_
    rw [hno]
    rfl
  split
  · next table hfind =>
    cases orReplace with
    | true => cases hfind
    | false =>
      have hmem := List.mem_of_find?_eq_some hfind
      have hregistered := List.contains_iff_mem.mp (List.find?_some hfind)
      exact .inl ⟨.inr ⟨rfl, table, hmem, hregistered⟩, _, rfl⟩
  · next hfind =>
    refine .inr ⟨?_, rfl⟩
    rintro (⟨table, htable, hno⟩ | ⟨rfl, table, htable, hregistered⟩)
    · exact hexist table htable hno
    · exact List.find?_eq_none.mp hfind table htable (List.contains_iff_mem.mpr hregistered)

/-- The statement registers every table, or throws and leaves the list as it was. -/
def AllOrNothing (load : CatalogLoad) (s : GraphqlState) (tables : List Str) (orReplace : Bool) :
    Prop :=
  let r := createGraphqlTables load s tables orReplace
  (∃ message, r.2 = .ok message ∧ ∀ table ∈ tables, table ∈ r.1.graphqlTables) ∨
    ∃ e, r.2 = .error e ∧ r.1.graphqlTables = s.graphqlTables

/-- It does so exactly when it replaces, or lists no table twice, or is refused by its checks. -/
theorem create_allOrNothing_iff (load : CatalogLoad) (s : GraphqlState) (tables : List Str)
    (orReplace : Bool) :
    AllOrNothing load s tables orReplace ↔
      orReplace = true ∨ tables.Nodup ∨ Rejected load s tables orReplace := by
  unfold AllOrNothing
  rcases createGraphqlTables_cases load s tables orReplace with ⟨hrej, e, h⟩ | ⟨hrej, h⟩
  · rw [h]
    exact iff_of_true (.inr ⟨e, rfl, rfl⟩) (.inr (.inr hrej))
  have hne : ∀ table ∈ tables, table ≠ [] := by
    intro table htable
    refine ne_nil_of_tableExists (?_ : tableExists load table = true)
    by_contra hno
    exact hrej (.inl ⟨table, htable, Bool.eq_false_iff.mpr hno⟩)
  have hfresh : orReplace = true ∨ ∀ table ∈ tables, table ∉ s.graphqlTables := by
    cases orReplace with
    | true => exact .inl rfl
    | false => exact .inr fun table htable hin => hrej (.inr ⟨rfl, table, htable, hin⟩)
  rw [h]
  rcases hloop : (addGraphqlTables orReplace s tables).2 with e | u
  · -- The loop stopped at a repeated name, with the first name of the list registered.
    have hnot : ¬ (orReplace = true ∨ tables.Nodup ∧ ∀ table ∈ tables, table ∉ s.graphqlTables) := by
      intro hyes
      rw [(addGraphqlTables_ok_iff hne).mpr hyes] at hloop
      cases hloop
    obtain ⟨hreplace, hdup⟩ := not_or.mp hnot
    have hfresh := hfresh.resolve_left hreplace
    have hdup : ¬ tables.Nodup := fun hnodup => hdup ⟨hnodup, hfresh⟩
    refine iff_of_false ?_ ?_
    · rintro (⟨message, hok, _⟩ | ⟨_, _, hsame⟩)
      · cases hok
      · cases tables with
        | nil => exact hdup List.nodup_nil
        | cons table tables =>
          have hnew := hfresh table List.mem_cons_self
          have hin : table ∈ (addGraphqlTables orReplace s (table :: tables)).1.graphqlTables :=
            head_mem_addGraphqlTables hne (.inr hnew)
          exact hnew (hsame ▸ hin)
    · rintro (h | h | h)
      · exact hreplace h
      · exact hdup h
      · exact hrej h
  · refine iff_of_true (.inl ⟨_, rfl, registers_of_ok hne hloop⟩) ?_
    rcases (addGraphqlTables_ok_iff hne).mp hloop with h | h
    · exact .inl h
    · exact .inr (.inl h.1)

/-- `CREATE GRAPHQL FOR TABLE t, t` throws, with `t` registered. -/
theorem repeated_table_registered :
    let t := "t".toList
    let load : CatalogLoad := .ok ⟨[⟨"db".toList, "main".toList, t, ["id".toList]⟩], by decide, by decide⟩
    createGraphqlTables load emptyGraphql [t, t] false =
      ({ emptyGraphql with graphqlTables := [t] }, .error (tableRegisteredMessage t)) ∧
    ¬ AllOrNothing load emptyGraphql [t, t] false := by
  intro t load
  have hrun : createGraphqlTables load emptyGraphql [t, t] false =
      ({ emptyGraphql with graphqlTables := [t] }, .error (tableRegisteredMessage t)) := by
    rfl
  refine ⟨hrun, ?_⟩
  unfold AllOrNothing
  rw [hrun]
  rintro (⟨message, hok, _⟩ | ⟨_, _, hsame⟩)
  · cases hok
  · cases hsame

end Quackapi.Graphql
