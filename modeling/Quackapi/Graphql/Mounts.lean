import Quackapi.Graphql.Registry

/-! Whatever mounts are created and dropped, a path leads to at most one of them and in one role, and
each mount is found at both of its paths. -/

namespace Quackapi.Graphql
open Library

theorem dropTrailingSlashes_of_ne {c : Char} (hc : c ≠ '/') (p : Str) :
    dropTrailingSlashes (c :: p) = c :: p := by
  unfold dropTrailingSlashes
  split
  · next h => exact absurd (List.cons.inj h).1 hc
  · rfl

theorem dropTrailingSlashes_idem (p : Str) :
    dropTrailingSlashes (dropTrailingSlashes p) = dropTrailingSlashes p := by
  induction p with
  | nil => rfl
  | cons c p ih =>
    by_cases hc : c = '/'
    · subst hc
      cases p with
      | nil => rfl
      | cons d p => exact ih
    · rw [dropTrailingSlashes_of_ne hc, dropTrailingSlashes_of_ne hc]

theorem normalize_idem (path : Str) :
    normalizeGraphqlMountPath (normalizeGraphqlMountPath path) = normalizeGraphqlMountPath path := by
  unfold normalizeGraphqlMountPath
  rw [List.reverse_reverse, dropTrailingSlashes_idem]

theorem normalize_schemaPath (path : Str) :
    normalizeGraphqlMountPath (schemaPath path) = schemaPath path := by
  have hreverse : (schemaPath path).reverse = 'a' :: ("mehcs/".toList ++ path.reverse) := by
    rw [schemaPath, List.reverse_append]
    rfl
  rw [normalizeGraphqlMountPath, hreverse, dropTrailingSlashes_of_ne (by decide), ← hreverse,
    List.reverse_reverse]

theorem schemaPath_inj {p q : Str} : schemaPath p = schemaPath q ↔ p = q := List.append_left_inj _

theorem schemaPath_ne (p : Str) : schemaPath p ≠ p := by
  intro h
  have hlength := congrArg List.length h
  rw [schemaPath, List.length_append] at hlength
  exact absurd hlength (by rw [Nat.add_eq_left]; decide)

theorem isReservedGraphqlPath_iff {path : Str} :
    isReservedGraphqlPath path = true ↔
      path = "/graphql".toList ∨ path = "/graphql/schema".toList := by
  rw [isReservedGraphqlPath, Bool.or_eq_true, decide_eq_true_eq, decide_eq_true_eq]

theorem isReserved_of_schemaPath {path : Str} (h : isReservedGraphqlPath (schemaPath path) = true) :
    isReservedGraphqlPath path = true := by
  rcases isReservedGraphqlPath_iff.mp h with he | he
  · have hlength := congrArg List.length he
    rw [schemaPath, List.length_append] at hlength
    have hone : path.length = 1 := Nat.add_right_cancel (m := 7) hlength
    obtain ⟨c, rfl⟩ := List.length_eq_one_iff.mp hone
    cases he
  · have hpath : path = "/graphql".toList := schemaPath_inj.mp he
    exact isReservedGraphqlPath_iff.mpr (.inl hpath)

structure QuackapiGraphqlRoute.WellFormed (r : QuackapiGraphqlRoute) : Prop where
  normalized : normalizeGraphqlMountPath r.path = r.path
  post : r.method = "POST".toList
  notReserved : isReservedGraphqlPath r.path = false

/-- Neither path of a mount is one of the other's. -/
structure MountsApart (r r' : QuackapiGraphqlRoute) : Prop where
  paths : r.path ≠ r'.path
  left : schemaPath r.path ≠ r'.path
  right : r.path ≠ schemaPath r'.path

instance : Std.Symm MountsApart := ⟨fun _ _ h => ⟨h.paths.symm, h.right.symm, h.left.symm⟩⟩

structure GraphqlState.Valid (s : GraphqlState) : Prop where
  names : (s.graphqlRoutes.map QuackapiGraphqlRoute.name).Nodup
  wellFormed : ∀ r ∈ s.graphqlRoutes, r.WellFormed
  apart : s.graphqlRoutes.Pairwise MountsApart

theorem mountCollision_eq_none {route existing : QuackapiGraphqlRoute} :
    mountCollision route existing = none ↔ MountsApart existing route := by
  unfold mountCollision
  split
  · next h => exact iff_of_false nofun fun hapart => hapart.paths h
  · next h =>
    split
    · next h' =>
      refine iff_of_false nofun fun hapart => ?_
      rcases h' with he | he
      · exact hapart.left he
      · exact hapart.right he
    · next h' =>
      rw [not_or] at h'
      exact iff_of_true rfl ⟨h, h'.1, h'.2⟩

theorem checkGraphqlRoute_ok {routes : List QuackapiGraphqlRoute}
    {routeIn route : QuackapiGraphqlRoute} (h : checkGraphqlRoute routes routeIn = .ok route) :
    route.WellFormed ∧ ∀ r ∈ routes, r.name ≠ route.name → MountsApart r route := by
  obtain ⟨_, _, h⟩ := bind_eq_ok.mp h
  obtain ⟨_, _, h⟩ := bind_eq_ok.mp h
  obtain ⟨_, _, h⟩ := bind_eq_ok.mp h
  obtain ⟨_, hmethod, h⟩ := bind_eq_ok.mp h
  obtain ⟨_, hreserved, h⟩ := bind_eq_ok.mp h
  obtain ⟨_, _, h⟩ := bind_eq_ok.mp h
  split at h
  · cases h
  · next hcollision =>
    cases h
    refine ⟨⟨normalize_idem _, of_decide_eq_true (ensure_eq_ok.mp hmethod), ?_⟩, fun r hr hne => ?_⟩
    · exact Bool.not_eq_true' _ ▸ ensure_eq_ok.mp hreserved
    · refine mountCollision_eq_none.mp (List.findSome?_eq_none_iff.mp hcollision r ?_)
      exact List.mem_filter.mpr ⟨hr, by rw [decide_eq_false hne]; rfl⟩

/-- A mount is refused and nothing changes, or it is well formed, apart from the others, and takes
its name's place. -/
theorem addGraphqlRoute_cases (s : GraphqlState) (routeIn : QuackapiGraphqlRoute)
    (orReplace : Bool) :
    (∃ e, addGraphqlRoute s routeIn orReplace = (s, .error e)) ∨
    ∃ route : QuackapiGraphqlRoute, route.WellFormed ∧
      (∀ r ∈ s.graphqlRoutes, r.name ≠ route.name → MountsApart r route) ∧
      addGraphqlRoute s routeIn orReplace = ({ s with
        graphqlRoutes := upsertKey QuackapiGraphqlRoute.name route s.graphqlRoutes }, .ok ()) := by
  unfold addGraphqlRoute
  rcases hcheck : checkGraphqlRoute s.graphqlRoutes routeIn with e | route
  · exact .inl ⟨e, rfl⟩
  obtain ⟨hwf, hapart⟩ := checkGraphqlRoute_ok hcheck
  unfold upsertKey
  rcases hfind : findKey QuackapiGraphqlRoute.name route.name s.graphqlRoutes with _ | old
  · have hnew := findKey_eq_none.mp hfind
    refine .inr ⟨route, hwf, hapart, ?_⟩
    simp only [hfind, if_neg hnew]
  · obtain ⟨hold, hkey⟩ := findKey_eq_some hfind
    have hmem : route.name ∈ s.graphqlRoutes.map QuackapiGraphqlRoute.name :=
      hkey ▸ List.mem_map_of_mem hold
    cases orReplace with
    | false =>
      refine .inl ⟨mountExistsMessage route.name, ?_⟩
      simp only [hfind]
      rfl
    | true =>
      refine .inr ⟨route, hwf, hapart, ?_⟩
      simp only [hfind, if_pos hmem]
      rfl

theorem addGraphqlRoute_valid {s : GraphqlState} (hs : s.Valid) (routeIn : QuackapiGraphqlRoute)
    (orReplace : Bool) : (addGraphqlRoute s routeIn orReplace).1.Valid := by
  rcases addGraphqlRoute_cases s routeIn orReplace with ⟨e, h⟩ | ⟨route, hwf, hapart, h⟩
  · rw [h]
    exact hs
  · rw [h]
    refine ⟨nodup_upsertKey hs.names route, fun r hr => ?_, ?_⟩
    · rcases (mem_upsertKey hs.names).mp hr with rfl | ⟨hr, _⟩
      · exact hwf
      · exact hs.wellFormed r hr
    · refine pairwise_upsertKey hs.names hs.apart fun r hr hne => ?_
      exact ⟨hapart r hr hne, Std.Symm.symm _ _ (hapart r hr hne)⟩

theorem dropGraphqlRoute_cases (s : GraphqlState) (name : Str) :
    dropGraphqlRoute s name = ({ s with
        graphqlRoutes := eraseKey QuackapiGraphqlRoute.name name s.graphqlRoutes }, true) ∨
      dropGraphqlRoute s name = (s, false) := by
  unfold dropGraphqlRoute
  split
  · exact .inl rfl
  · exact .inr rfl

theorem dropGraphqlRoute_valid {s : GraphqlState} (hs : s.Valid) (name : Str) :
    (dropGraphqlRoute s name).1.Valid := by
  rcases dropGraphqlRoute_cases s name with h | h
  · rw [h]
    refine ⟨nodup_eraseKey hs.names name, fun r hr => ?_, hs.apart.sublist List.eraseP_sublist⟩
    exact hs.wellFormed r (mem_of_mem_eraseKey hr)
  · rw [h]
    exact hs

theorem addGraphqlTables_graphqlRoutes (orReplace : Bool) (s : GraphqlState) (tables : List Str) :
    (addGraphqlTables orReplace s tables).1.graphqlRoutes = s.graphqlRoutes := by
  induction tables generalizing s with
  | nil => rfl
  | cons table tables ih =>
    have hone : (addGraphqlTable s table orReplace).1.graphqlRoutes = s.graphqlRoutes := by
      unfold addGraphqlTable
      split_ifs <;> rfl
    simp only [addGraphqlTables]
    split
    · exact (ih _).trans hone
    · exact hone

theorem createGraphqlTables_graphqlRoutes (load : CatalogLoad) (s : GraphqlState)
    (tables : List Str) (orReplace : Bool) :
    (createGraphqlTables load s tables orReplace).1.graphqlRoutes = s.graphqlRoutes := by
  unfold createGraphqlTables
  split
  · rfl
  split
  · rfl
  exact addGraphqlTables_graphqlRoutes orReplace s tables

theorem dropGraphqlTables_graphqlRoutes (s : GraphqlState) (tables : List Str) :
    (dropGraphqlTables s tables).1.graphqlRoutes = s.graphqlRoutes := by
  induction tables generalizing s with
  | nil => rfl
  | cons table tables ih =>
    have hone : (dropGraphqlTable s table).1.graphqlRoutes = s.graphqlRoutes := by
      unfold dropGraphqlTable
      split_ifs <;> rfl
    simp only [dropGraphqlTables]
    split
    · exact (ih _).trans hone
    · exact (ih _).trans hone

theorem createGraphqlRoute_cases (load : CatalogLoad) (auths : Auth.AuthState) (s : GraphqlState)
    (route : QuackapiGraphqlRoute) (orReplace : Bool) :
    (∃ e, createGraphqlRoute load auths s route orReplace = (s, .error e)) ∨
    ∃ route' msg, createGraphqlRoute load auths s route orReplace =
      ((addGraphqlRoute s route' orReplace).1, .ok msg) := by
  unfold createGraphqlRoute
  split
  · exact .inl ⟨_, rfl⟩
  split
  · exact .inl ⟨_, rfl⟩
  generalize ({ route with
    limit := if route.limit = 0 then graphqlDefaultLimit else route.limit } :
      QuackapiGraphqlRoute) = route'
  dsimp only
  rcases addGraphqlRoute_cases s route' orReplace with ⟨e, h⟩ | ⟨_, _, _, h⟩
  · refine .inl ⟨e, ?_⟩
    rw [h]
    rfl
  · rw [h]
    exact .inr ⟨route', mountCreatedMessage route', by rw [h]; rfl⟩

def GraphqlDdl.isMount : GraphqlDdl → Bool
  | .createRoute _ _ => true
  | .dropRoute _ => true
  | _ => false

theorem graphql_step_valid {s : GraphqlState} (hs : s.Valid) (a : GraphqlAction) :
    (graphqlMachine.step s a).1.Valid := by
  -- a statement that keeps the mounts keeps the invariant, which is about nothing else
  have hkeep : ∀ t : GraphqlState, t.graphqlRoutes = s.graphqlRoutes → t.Valid := by
    intro t ht
    exact ⟨ht ▸ hs.names, ht ▸ hs.wellFormed, ht ▸ hs.apart⟩
  obtain ⟨load, auths, ddl⟩ := a
  show (applyGraphql load auths s ddl).1.Valid
  cases ddl with
  | create tables orReplace =>
    exact hkeep _ (createGraphqlTables_graphqlRoutes load s tables orReplace)
  | drop tables =>
    have hroutes := dropGraphqlTables_graphqlRoutes s tables
    simp only [applyGraphql]
    split
    · exact hkeep _ hroutes
    · exact hkeep _ hroutes
  | clear => exact hkeep _ rfl
  | createRoute route orReplace =>
    show (createGraphqlRoute load auths s route orReplace).1.Valid
    rcases createGraphqlRoute_cases load auths s route orReplace with ⟨e, h⟩ | ⟨route', msg, h⟩
    · rw [h]
      exact hs
    · rw [h]
      exact addGraphqlRoute_valid hs route' orReplace
  | dropRoute name =>
    have hdrop := dropGraphqlRoute_valid hs name
    simp only [applyGraphql]
    split
    · exact hdrop
    · exact hdrop

theorem graphql_mount_error {s : GraphqlState} {a : GraphqlAction} (ha : a.ddl.isMount = true)
    {e : Str} (he : (graphqlMachine.step s a).2 = .error e) : (graphqlMachine.step s a).1 = s := by
  obtain ⟨load, auths, ddl⟩ := a
  show (applyGraphql load auths s ddl).1 = s
  have he : (applyGraphql load auths s ddl).2 = .error e := he
  cases ddl with
  | create | drop | clear => cases ha
  | createRoute route orReplace =>
    show (createGraphqlRoute load auths s route orReplace).1 = s
    have he : (createGraphqlRoute load auths s route orReplace).2 = .error e := he
    rcases createGraphqlRoute_cases load auths s route orReplace with ⟨e, h⟩ | ⟨route', msg, h⟩
    · rw [h]
    · rw [h] at he
      cases he
  | dropRoute name =>
    rcases dropGraphqlRoute_cases s name with h | h
    · rw [applyGraphql, h] at he
      cases he
    · rw [applyGraphql, h]
      rfl

/-- The path, without its trailing slashes, is the mount's own. -/
def ServesQuery (s : GraphqlState) (path : Str) (r : QuackapiGraphqlRoute) : Prop :=
  r ∈ s.graphqlRoutes ∧ r.path = normalizeGraphqlMountPath path

/-- The path, without its trailing slashes, is that of the mount's schema. -/
def ServesSchema (s : GraphqlState) (path : Str) (r : QuackapiGraphqlRoute) : Prop :=
  r ∈ s.graphqlRoutes ∧ schemaPath r.path = normalizeGraphqlMountPath path

section
variable {s : GraphqlState} (hs : s.Valid)
include hs

theorem eq_of_not_apart {r r' : QuackapiGraphqlRoute} (hr : r ∈ s.graphqlRoutes)
    (hr' : r' ∈ s.graphqlRoutes) (h : ¬ MountsApart r r') : r = r' := by
  by_contra hne
  exact h (hs.apart.forall hr hr' hne)

theorem servesQuery_unique {path : Str} {r r' : QuackapiGraphqlRoute} (hr : ServesQuery s path r)
    (hr' : ServesQuery s path r') : r = r' :=
  eq_of_not_apart hs hr.1 hr'.1 fun h => h.paths (hr.2.trans hr'.2.symm)

theorem servesSchema_unique {path : Str} {r r' : QuackapiGraphqlRoute} (hr : ServesSchema s path r)
    (hr' : ServesSchema s path r') : r = r' :=
  eq_of_not_apart hs hr.1 hr'.1 fun h => h.paths (schemaPath_inj.mp (hr.2.trans hr'.2.symm))

theorem not_servesSchema_of_servesQuery {path : Str} {r r' : QuackapiGraphqlRoute}
    (hr : ServesQuery s path r) : ¬ ServesSchema s path r' := by
  intro hr'
  have hpaths : schemaPath r'.path = r.path := hr'.2.trans hr.2.symm
  have heq : r' = r := eq_of_not_apart hs hr'.1 hr.1 fun h => h.left hpaths
  rw [heq] at hpaths
  exact schemaPath_ne r.path hpaths

theorem getGraphqlRouteByPath_iff {path : Str} {r : QuackapiGraphqlRoute} :
    getGraphqlRouteByPath s path "POST".toList = some r ↔ ServesQuery s path r := by
  have hpost : upper "POST".toList = "POST".toList := by decide
  constructor
  · intro h
    have hr := List.mem_of_find?_eq_some h
    have hpath := List.find?_some h
    rw [Bool.and_eq_true, decide_eq_true_eq] at hpath
    exact ⟨hr, hpath.1⟩
  · intro h
    have hmatch : (decide (r.path = normalizeGraphqlMountPath path) &&
        decide (r.method = upper "POST".toList)) = true := by
      rw [decide_eq_true h.2, hpost, decide_eq_true (hs.wellFormed r h.1).post]
      rfl
    rcases hget : getGraphqlRouteByPath s path "POST".toList with _ | r'
    · exact absurd hmatch (List.find?_eq_none.mp hget r h.1)
    · have hr' := List.mem_of_find?_eq_some hget
      have hpath := List.find?_some hget
      rw [Bool.and_eq_true, decide_eq_true_eq] at hpath
      rw [servesQuery_unique hs ⟨hr', hpath.1⟩ h]

theorem getGraphqlRouteBySchemaPath_iff {path : Str} {r : QuackapiGraphqlRoute} :
    getGraphqlRouteBySchemaPath s path = some r ↔ ServesSchema s path r := by
  constructor
  · intro h
    have hpath := List.find?_some h
    exact ⟨List.mem_of_find?_eq_some h, (of_decide_eq_true hpath).symm⟩
  · intro h
    rcases hget : getGraphqlRouteBySchemaPath s path with _ | r'
    · exact absurd (decide_eq_true h.2.symm) (List.find?_eq_none.mp hget r h.1)
    · have hpath := List.find?_some hget
      have hr' : ServesSchema s path r' :=
        ⟨List.mem_of_find?_eq_some hget, (of_decide_eq_true hpath).symm⟩
      rw [servesSchema_unique hs hr' h]

theorem not_serves_reserved {path : Str}
    (h : isReservedGraphqlPath (normalizeGraphqlMountPath path) = true)
    (r : QuackapiGraphqlRoute) : ¬ ServesQuery s path r ∧ ¬ ServesSchema s path r := by
  constructor
  · intro hr
    have hfree := (hs.wellFormed r hr.1).notReserved
    rw [hr.2, h] at hfree
    cases hfree
  · intro hr
    have hfree := (hs.wellFormed r hr.1).notReserved
    rw [← hr.2] at h
    rw [isReserved_of_schemaPath h] at hfree
    cases hfree

end

/-- Over every run of statements: a path leads to one mount at most and in one role, never to one in
the place of the built-in endpoint; each mount is found at both of its paths; and a statement about
mounts that fails changes nothing. -/
theorem mounts_unambiguous (as : List GraphqlAction) :
    let s := graphqlMachine.run emptyGraphql as
    (∀ path r r', ServesQuery s path r → ServesQuery s path r' → r = r') ∧
    (∀ path r r', ServesSchema s path r → ServesSchema s path r' → r = r') ∧
    (∀ path r r', ServesQuery s path r → ¬ ServesSchema s path r') ∧
    (∀ path, isReservedGraphqlPath (normalizeGraphqlMountPath path) = true →
      ∀ r, ¬ ServesQuery s path r ∧ ¬ ServesSchema s path r) ∧
    (∀ path r, getGraphqlRouteByPath s path "POST".toList = some r ↔ ServesQuery s path r) ∧
    (∀ path r, getGraphqlRouteBySchemaPath s path = some r ↔ ServesSchema s path r) ∧
    (∀ r ∈ s.graphqlRoutes, getGraphqlRouteByPath s r.path "POST".toList = some r ∧
      getGraphqlRouteBySchemaPath s (schemaPath r.path) = some r) ∧
    ∀ a : GraphqlAction, a.ddl.isMount = true → ∀ e, (graphqlMachine.step s a).2 = .error e →
      (graphqlMachine.step s a).1 = s := by
  intro s
  have hempty : emptyGraphql.Valid := ⟨List.nodup_nil, nofun, .nil⟩
  have hs : s.Valid :=
    graphqlMachine.run_invariant (P := GraphqlState.Valid) (fun _ a h => graphql_step_valid h a) hempty as
  refine ⟨fun _ _ _ => servesQuery_unique hs, fun _ _ _ => servesSchema_unique hs,
    fun _ _ _ => not_servesSchema_of_servesQuery hs, fun _ => not_serves_reserved hs,
    fun _ _ => getGraphqlRouteByPath_iff hs, fun _ _ => getGraphqlRouteBySchemaPath_iff hs, ?_,
    fun _ ha _ => graphql_mount_error ha⟩
  intro r hr
  have hnormalized := (hs.wellFormed r hr).normalized
  exact ⟨(getGraphqlRouteByPath_iff hs).mpr ⟨hr, hnormalized.symm⟩,
    (getGraphqlRouteBySchemaPath_iff hs).mpr ⟨hr, (normalize_schemaPath r.path).symm⟩⟩

end Quackapi.Graphql
