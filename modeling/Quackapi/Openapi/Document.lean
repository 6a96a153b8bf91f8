import Quackapi.Auth.KeyLifetime
import Quackapi.Http.Registration
import Quackapi.Library.Grouping
import Quackapi.Openapi.Operation

/-! The OpenAPI document of a registry. Operations are gathered by their paths as texts, under the paths
that differ by more than case, so that a path which differs from an earlier one by its case alone takes
its operations with it; and two patterns may have one path. -/

namespace Quackapi.Openapi
open Library
open Http (QuackapiRoute RouteState RouteAction routeMachine emptyRoutes liveRoutes)
open Auth (QuackapiAuth)

structure OpEntry where
  oasPath : Str
  methodLc : Str
  operationJson : Str

def opEntry (e : DocEngine) (route : QuackapiRoute) : OpEntry :=
  ⟨oasPath route.pattern, lower route.method, operationJson e route⟩

/-- The paths in the order they are first seen in. -/
def pathOrder (ops : List OpEntry) : List Str :=
  ops.foldl (fun order op => if listContains order op.oasPath then order else order ++ [op.oasPath]) []

def pathItem (ops : List OpEntry) (path : Str) : Str :=
  jsonObject ((ops.filter fun op => op.oasPath = path).map fun op => (op.methodLc, op.operationJson))

def pathsJson (ops : List OpEntry) : Str :=
  jsonObject ((pathOrder ops).map fun path => (path, pathItem ops path))

def securityScheme (auth : QuackapiAuth) : Str :=
  match auth.kind with
  | .jwtHs256 =>
    jsonObject [("type".toList, jsonString "http".toList), ("scheme".toList, jsonString "bearer".toList),
      ("bearerFormat".toList, jsonString "JWT".toList)]
  | .apiKey =>
    jsonObject [("type".toList, jsonString "apiKey".toList), ("in".toList, jsonString "header".toList),
      ("name".toList, jsonString auth.header)]

def infoJson : Str :=
  jsonObject [("title".toList, jsonString "quackapi".toList),
    ("version".toList, jsonString "0.2.0".toList),
    ("description".toList, jsonString
      ("Generated from the live quackapi_routes() + quackapi_auths() registries. " ++
        "Response schemas come from Prepare() column metadata. Path params :id → \x7bid\x7d. " ++
        "require_auth maps to security schemes.").toList)]

def serversJson (serverUrl : Str) : Str :=
  jsonArray [jsonObject [("url".toList, jsonString serverUrl),
    ("description".toList, jsonString "quackapi_serve".toList)]]

def componentsJson (auths : List QuackapiAuth) : Str :=
  jsonObject [("securitySchemes".toList, jsonObject (auths.map fun a => (a.name, securityScheme a)))]

def buildOpenApiDocument (e : DocEngine) (routes : List QuackapiRoute) (auths : List QuackapiAuth)
    (serverUrl : Str) : Str :=
  jsonObject [("openapi".toList, jsonString "3.1.0".toList), ("info".toList, infoJson),
    ("servers".toList, serversJson serverUrl),
    ("paths".toList, pathsJson (routes.map (opEntry e))),
    ("components".toList, componentsJson auths)]

/-- The operations under `paths`: the path, the method and the identifier of each. -/
def operationsOf (doc : Json) : List (Str × Str × Option Json) :=
  (((doc.member "paths".toList).map Json.members).getD []).flatMap fun item =>
    item.2.members.map fun op => (item.1, op.1, op.2.member "operationId".toList)

/-- The text is JSON without a repeated key, and has one operation for each route and no other. -/
def Describes (doc : Str) (routes : List QuackapiRoute) : Prop :=
  ∃ j, ReadsAs doc j ∧ j.UniqueKeys ∧ (operationsOf j).Perm
    (routes.map fun r => (oasPath r.pattern, lower r.method, some (.string r.name)))

/-- Paths that are equal but for case are equal, and then have different methods. -/
def OasApart (r r' : QuackapiRoute) : Prop :=
  lower (oasPath r.pattern) = lower (oasPath r'.pattern) →
    oasPath r.pattern = oasPath r'.pattern ∧ r.method ≠ r'.method

instance : Std.Symm OasApart where
  symm _ _ h he := ⟨(h he.symm).1.symm, (h he.symm).2.symm⟩

structure Documentable (e : DocEngine) (routes : List QuackapiRoute) : Prop where
  sound : ∀ r ∈ routes, OperationSound e r
  apart : routes.Pairwise OasApart

theorem wellFormed_infoJson : WellFormed infoJson := by
  have hkeys : ["title".toList, "version".toList, "description".toList].Nodup := by decide
  refine wellFormed_object hkeys ?_
  rw [List.forall_mem_cons, List.forall_mem_cons, List.forall_mem_singleton]
  exact ⟨wellFormed_string _, wellFormed_string _, wellFormed_string _⟩

theorem wellFormed_serversJson (serverUrl : Str) : WellFormed (serversJson serverUrl) := by
  have hkeys : ["url".toList, "description".toList].Nodup := by decide
  refine wellFormed_array (List.forall_mem_singleton.mpr (wellFormed_object hkeys ?_))
  rw [List.forall_mem_cons, List.forall_mem_singleton]
  exact ⟨wellFormed_string _, wellFormed_string _⟩

theorem wellFormed_securityScheme (auth : QuackapiAuth) : WellFormed (securityScheme auth) := by
  have hjwt : ["type".toList, "scheme".toList, "bearerFormat".toList].Nodup := by decide
  have hkey : ["type".toList, "in".toList, "name".toList].Nodup := by decide
  unfold securityScheme
  split
  · refine wellFormed_object hjwt ?_
    rw [List.forall_mem_cons, List.forall_mem_cons, List.forall_mem_singleton]
    exact ⟨wellFormed_string _, wellFormed_string _, wellFormed_string _⟩
  · refine wellFormed_object hkey ?_
    rw [List.forall_mem_cons, List.forall_mem_cons, List.forall_mem_singleton]
    exact ⟨wellFormed_string _, wellFormed_string _, wellFormed_string _⟩

theorem wellFormed_componentsJson {auths : List QuackapiAuth}
    (h : (auths.map QuackapiAuth.name).Nodup) : WellFormed (componentsJson auths) := by
  refine wellFormed_single (wellFormed_object ?_ fun f hf => ?_)
  · rwa [List.map_map]
  · obtain ⟨a, _, rfl⟩ := List.mem_map.mp hf
    exact wellFormed_securityScheme a

theorem pathOrder_eq (ops : List OpEntry) :
    pathOrder ops = firstSeen lower (ops.map OpEntry.oasPath) := by
  rw [firstSeen, List.foldl_map]
  rfl

section Paths
variable {e : DocEngine}

def Rendered (e : DocEngine) (q : QuackapiRoute × Json) : Prop :=
  ReadsAs (operationJson e q.1) q.2 ∧ q.2.UniqueKeys ∧
    q.2.member "operationId".toList = some (.string q.1.name)

def renderedPath (q : QuackapiRoute × Json) : Str := oasPath q.1.pattern

def renderedItem (qs : List (QuackapiRoute × Json)) (path : Str) : List (Str × Json) :=
  (qs.filter fun q => renderedPath q = path).map fun q => (lower q.1.method, q.2)

def renderedPaths (qs : List (QuackapiRoute × Json)) : List (Str × Json) :=
  (firstSeen lower (qs.map renderedPath)).map fun path => (path, .object (renderedItem qs path))

theorem readsAs_pathsJson {qs : List (QuackapiRoute × Json)} (h : ∀ q ∈ qs, Rendered e q) :
    ReadsAs (pathsJson ((qs.map Prod.fst).map (opEntry e))) (.object (renderedPaths qs)) := by
  have hitem : ∀ path, ReadsAs (pathItem ((qs.map Prod.fst).map (opEntry e)) path)
      (.object (renderedItem qs path)) := by
    intro path
    refine readsAs_object ?_
    rw [List.map_map, List.filter_map, List.map_map, renderedItem, List.forall₂_map_left_iff,
      List.forall₂_map_right_iff]
    refine List.forall₂_same.mpr fun q hq => ⟨rfl, ?_⟩
    exact (h q (List.mem_of_mem_filter hq)).1
  have horder : pathOrder ((qs.map Prod.fst).map (opEntry e)) =
      firstSeen lower (qs.map renderedPath) := by
    rw [pathOrder_eq, List.map_map, List.map_map]
    rfl
  refine readsAs_object ?_
  rw [horder, renderedPaths, List.forall₂_map_left_iff, List.forall₂_map_right_iff]
  exact List.forall₂_same.mpr fun path _ => ⟨rfl, hitem path⟩

theorem lower_method_injective {r r' : QuackapiRoute} (h : lower r.method = lower r'.method) :
    r.method = r'.method := by
  have hall : ∀ m ∈ ["GET".toList, "POST".toList, "PUT".toList, "DELETE".toList, "PATCH".toList,
      "HEAD".toList], ∀ m' ∈ ["GET".toList, "POST".toList, "PUT".toList, "DELETE".toList,
      "PATCH".toList, "HEAD".toList], lower m = lower m' → m = m' := by decide
  exact hall _ (List.contains_iff_mem.mp r.isHttpMethod) _ (List.contains_iff_mem.mp r'.isHttpMethod) h

theorem uniqueKeys_paths {qs : List (QuackapiRoute × Json)} (h : ∀ q ∈ qs, Rendered e q)
    (hapart : qs.Pairwise fun p q => OasApart p.1 q.1) :
    (Json.object (renderedPaths qs)).UniqueKeys := by
  have hitem : ∀ path, (Json.object (renderedItem qs path)).UniqueKeys := by
    intro path
    refine .object ?_ fun m hm => ?_
    · rw [renderedItem, List.map_map, List.Nodup, List.pairwise_map]
      refine (hapart.filter _).imp_of_mem fun {p q} hp hq hpq hmethod => ?_
      have hp' : renderedPath p = path := of_decide_eq_true (List.mem_filter.mp hp).2
      have hq' : renderedPath q = path := of_decide_eq_true (List.mem_filter.mp hq).2
      exact (hpq (congrArg lower (hp'.trans hq'.symm))).2 (lower_method_injective hmethod)
    · obtain ⟨q, hq, rfl⟩ := List.mem_map.mp hm
      exact (h q (List.mem_of_mem_filter hq)).2.1
  refine .object ?_ fun m hm => ?_
  · rw [renderedPaths, List.map_map]
    exact (List.map_id _).symm ▸ (nodup_firstSeen lower (qs.map renderedPath)).of_map
  · obtain ⟨path, _, rfl⟩ := List.mem_map.mp hm
    exact hitem path

theorem flatMap_renderedPaths (qs : List (QuackapiRoute × Json)) :
    ((renderedPaths qs).flatMap fun item =>
        item.2.members.map fun op => (item.1, op.1, op.2.member "operationId".toList)) =
      (grouped renderedPath lower qs).map fun q =>
        (renderedPath q, lower q.1.method, q.2.member "operationId".toList) := by
  rw [renderedPaths, List.flatMap_map, grouped, List.map_flatMap]
  refine List.flatMap_congr fun path _ => ?_
  show (renderedItem qs path).map _ = _
  rw [renderedItem, List.map_map]
  refine List.map_congr_left fun q hq => ?_
  have hpath : renderedPath q = path := of_decide_eq_true (List.mem_filter.mp hq).2
  rw [hpath]
  rfl

def SpelledAlike (p q : QuackapiRoute × Json) : Prop :=
  lower (renderedPath p) = lower (renderedPath q) → renderedPath p = renderedPath q

instance : Std.Symm SpelledAlike := ⟨fun _ _ h he => (h he.symm).symm⟩

theorem grouped_rendered {qs : List (QuackapiRoute × Json)}
    (hapart : qs.Pairwise fun p q => OasApart p.1 q.1) :
    (grouped renderedPath lower qs).Perm qs := by
  have hspelled : qs.Pairwise SpelledAlike := hapart.imp fun h he => (h he).1
  rw [grouped_perm_iff]
  exact fun p hp q hq => hspelled.forall_of_forall (fun _ _ _ => rfl) hp hq

end Paths

theorem describes_of_documentable {e : DocEngine} {routes : List QuackapiRoute}
    (h : Documentable e routes) {auths : List QuackapiAuth}
    (hauths : (auths.map QuackapiAuth.name).Nodup) (serverUrl : Str) :
    Describes (buildOpenApiDocument e routes auths serverUrl) routes := by
  obtain ⟨qs, rfl, hqs⟩ := exists_values (P := fun r j => Rendered e (r, j)) fun r hr =>
    readsAs_operation (h.sound r hr)
  have hapart : qs.Pairwise fun p q => OasApart p.1 q.1 := List.pairwise_map.mp h.apart
  obtain ⟨info, hinfo, hinfoKeys⟩ := wellFormed_infoJson
  obtain ⟨servers, hservers, hserversKeys⟩ := wellFormed_serversJson serverUrl
  obtain ⟨components, hcomponents, hcomponentsKeys⟩ := wellFormed_componentsJson hauths
  have hpaths := readsAs_pathsJson hqs
  have hkeys : ["openapi".toList, "info".toList, "servers".toList, "paths".toList,
      "components".toList].Nodup := by decide
  refine ⟨.object [("openapi".toList, .string "3.1.0".toList), ("info".toList, info),
    ("servers".toList, servers), ("paths".toList, .object (renderedPaths qs)),
    ("components".toList, components)], ?_, .object hkeys ?_, ?_⟩
  · exact readsAs_object (.cons ⟨rfl, readsAs_string _⟩ (.cons ⟨rfl, hinfo⟩ (.cons ⟨rfl, hservers⟩
      (.cons ⟨rfl, hpaths⟩ (.cons ⟨rfl, hcomponents⟩ .nil)))))
  · rw [List.forall_mem_cons, List.forall_mem_cons, List.forall_mem_cons, List.forall_mem_cons,
      List.forall_mem_singleton]
    exact ⟨.string _, hinfoKeys, hserversKeys, uniqueKeys_paths hqs hapart, hcomponentsKeys⟩
  · show ((renderedPaths qs).flatMap fun item =>
      item.2.members.map fun op => (item.1, op.1, op.2.member "operationId".toList)).Perm _
    rw [flatMap_renderedPaths, List.map_map]
    refine ((grouped_rendered hapart).map _).trans (List.Perm.of_eq ?_)
    refine List.map_congr_left fun q hq => ?_
    rw [(hqs q hq).2.2]
    rfl

/-- What is registered can be documented by itself, and beside what stays registered. -/
def DocumentableStep (e : DocEngine) (s : RouteState) : RouteAction → Prop
  | .addRoutes newRoutes orReplace => Http.Admissible orReplace s.routes newRoutes →
      ∀ r, lastKey QuackapiRoute.name r.name newRoutes = some r → OperationSound e r ∧
        ∀ r', Http.Leaves s.routes newRoutes r' → r'.name ≠ r.name → OasApart r' r
  | .dropRoute _ => True
  | .addStream _ _ => True
  | .dropStream _ => True

theorem documentable_sublist {e : DocEngine} {l l' : List QuackapiRoute} (hsub : l'.Sublist l)
    (h : Documentable e l) : Documentable e l' :=
  ⟨fun r hr => h.sound r (hsub.subset hr), h.apart.sublist hsub⟩

theorem documentable_addRoutes_iff {e : DocEngine} {s : RouteState} (hs : s.Valid)
    (h : Documentable e s.routes) (newRoutes : List QuackapiRoute) (orReplace : Bool) :
    Documentable e (Http.addRoutes s newRoutes orReplace).1.routes ↔
      DocumentableStep e s (.addRoutes newRoutes orReplace) := by
  rcases Http.addRoutes_cases hs.names newRoutes orReplace with ⟨hadm, _, heq⟩ | ⟨hadm, heq⟩
  · rw [heq]
    exact iff_of_true h fun h' => absurd h' hadm
  · have hroutes : (Http.addRoutes s newRoutes orReplace).1.routes =
        upsertAll QuackapiRoute.name s.routes newRoutes := by
      rw [heq, Http.clearRateLimits_eq]
      rfl
    rw [hroutes]
    constructor
    · intro hdoc _ r hr
      have hmem := (mem_upsertAll hs.names).mpr (.inr hr)
      refine ⟨hdoc.sound r hmem, fun r' hr' hne => ?_⟩
      exact (pairwise_upsertAll_iff hs.names h.apart).mp hdoc.apart r hr r'
        ((mem_upsertAll hs.names).mpr hr') hne
    · intro hstep
      refine ⟨fun r hr => ?_, (pairwise_upsertAll_iff hs.names h.apart).mpr fun r hr r' hr' hne => ?_⟩
      · rcases (mem_upsertAll hs.names).mp hr with ⟨hr, _⟩ | hr
        · exact h.sound r hr
        · exact (hstep hadm r hr).1
      · exact (hstep hadm r hr).2 r' ((mem_upsertAll hs.names).mp hr') hne

theorem documentable_step_iff {e : DocEngine} {s : RouteState} (hs : s.Valid)
    (h : Documentable e s.routes) (a : RouteAction) :
    Documentable e (Http.routeStep s a).1.routes ↔ DocumentableStep e s a := by
  cases a with
  | addRoutes newRoutes orReplace => exact documentable_addRoutes_iff hs h newRoutes orReplace
  | dropRoute name =>
    refine iff_of_true ?_ trivial
    show Documentable e (Http.dropRoute s name).1.routes
    rcases Http.dropRoute_cases s name with heq | heq
    · rw [heq]
      exact documentable_sublist List.eraseP_sublist h
    · rw [heq]
      exact h
  | addStream stream orReplace =>
    refine iff_of_true ?_ trivial
    show Documentable e (Http.addStream s stream orReplace).1.routes
    rcases Http.addStream_cases s stream orReplace with ⟨_, _, heq⟩ | ⟨_, heq⟩
    · rw [heq]
      exact h
    · rw [heq]
      exact h
  | dropStream name =>
    refine iff_of_true ?_ trivial
    show Documentable e (Http.dropStream s name).1.routes
    rcases Http.dropStream_cases s name with heq | heq
    · rw [heq]
      exact h
    · rw [heq]
      exact h

theorem documentable_throughout_iff (e : DocEngine) (as : List RouteAction) :
    routeMachine.Along (DocumentableStep e) emptyRoutes as ↔
      ∀ pre, pre <+: as → Documentable e (routeMachine.run emptyRoutes pre).routes := by
  have hiff : routeMachine.Along (DocumentableStep e) emptyRoutes as ↔ ∀ pre, pre <+: as →
      (routeMachine.run emptyRoutes pre).Valid ∧
        Documentable e (routeMachine.run emptyRoutes pre).routes :=
    routeMachine.along_iff_invariant
      (P := fun s => s.Valid ∧ Documentable e s.routes)
      (fun s a hs => (and_iff_right (Http.routeStep_valid hs.1 a)).trans
        (documentable_step_iff hs.1 hs.2 a))
      ⟨Http.valid_empty, nofun, .nil⟩
  rw [hiff]
  exact forall₂_congr fun pre _ => and_iff_right (Http.routes_valid pre)

theorem nodup_schemes (sha256 : Str → Str) (bs : List Auth.AuthAction) :
    ((((Auth.authMachine sha256).run Auth.emptyAuths bs).auths).map QuackapiAuth.name).Nodup := by
  have hconsistent := (Auth.authMachine sha256).run_invariant (P := Auth.Consistent)
    (fun _ a hs => hs.step a) Auth.consistent_emptyAuths bs
  have hkeys := hconsistent.schemes
  rw [show QuackapiAuth.key = lower ∘ QuackapiAuth.name from rfl, ← List.map_map] at hkeys
  exact hkeys.of_map

/-- While every registration can be documented, so can the registry: in each of its states the document
is JSON without a repeated key, and has one operation for each route. -/
theorem openapi_document_complete (e : DocEngine) (sha256 : Str → Str) (serverUrl : Str)
    (as : List RouteAction) (h : routeMachine.Along (DocumentableStep e) emptyRoutes as)
    (pre : List RouteAction) (hpre : pre <+: as) (bs : List Auth.AuthAction) :
    Describes (buildOpenApiDocument e (liveRoutes (routeMachine.run emptyRoutes pre))
        ((Auth.authMachine sha256).run Auth.emptyAuths bs).auths serverUrl)
      (routeMachine.run emptyRoutes pre).routes := by
  have hdoc := (documentable_throughout_iff e as).mp h pre hpre
  rw [(Http.routes_valid pre).published]
  exact describes_of_documentable hdoc (nodup_schemes sha256 bs) serverUrl

/-- An engine with a table of items: it knows the columns, and the types of all parameters but `data`. -/
def itemsEngine : DocEngine where
  prepare sql := some
    ⟨[("id".toList, .integer), ("name".toList, .varchar)],
      fun name => if name = "data".toList then some .variant else some .integer,
      if sql = "INSERT INTO items VALUES ($id, $data)".toList then ["id".toList, "data".toList]
      else ["id".toList, "most".toList]⟩
  selectAlias _ := none
  numberText
    | .integer n => Nat.toDigits 10 n.toNat
    | _ => ['0']
  castText _ text := some text

/-- `GET /items/:id` with a bounded parameter that has a default. -/
def getItems : QuackapiRoute :=
  { Http.getRoute "items".toList "/items/:id".toList with
    params := [{ name := "most".toList, typeName := "INTEGER".toList, ge := some (.integer 1)
                 default := some (.literal "10".toList (.number (.integer 10))) }]
    handler := { Http.plainHandler with sql := "FROM items WHERE id > $id LIMIT $most".toList } }

/-- `PUT /items/:id` with a body of a declared structure and a `VARIANT` out of it. -/
def putItem : QuackapiRoute :=
  { Http.getRoute "put_item".toList "/items/:id".toList with
    method := "PUT".toList
    params := [{ name := "data".toList, typeName := "VARIANT".toList }]
    bodyType := "\x7b\"data\":\"JSON\",\"tags\":[\"VARCHAR\"]\x7d".toList
    handler := { Http.plainHandler with sql := "INSERT INTO items VALUES ($id, $data)".toList }
    isHttpMethod := by decide }

theorem items_responses {r : QuackapiRoute} (hstatus : r.status = 200) (hempty : r.emptyStatus = 0)
    (hcolumns : dataColumns itemsEngine r = [("id".toList, .integer), ("name".toList, .varchar)]) :
    ResponseSound r (dataColumns itemsEngine r) := by
  rw [hcolumns]
  refine ⟨by rw [hstatus]; decide, fun h => absurd hempty h, fun _ => by decide, fun _ c hc => ?_⟩
  rcases List.mem_cons.mp hc with rfl | hc
  · exact .flat nofun nofun
  · rw [List.mem_singleton.mp hc]
    exact .flat nofun nofun

theorem getItems_sound : OperationSound itemsEngine getItems := by
  refine ⟨?_, ?_, items_responses rfl rfl rfl⟩
  · intro name hname
    have hnames : pathParamNames getItems.pattern ++
        listedNames getItems (preparedHandler itemsEngine getItems) = ["id".toList, "most".toList] := by
      decide +kernel
    rw [hnames] at hname
    rcases List.mem_cons.mp hname with rfl | hname
    · refine ⟨.flat nofun nofun, fun _ s hs => ?_, fun s hs => ?_⟩
      · cases hs
      · cases hs
    · rw [List.mem_singleton.mp hname]
      refine ⟨.flat nofun nofun, fun _ s hs b hb => ?_, fun s hs d hd text htext => ?_⟩
      · cases hs
        rw [List.mem_singleton.mp hb]
        exact wellFormed_numeral 1
      · cases hs
        cases hd
        cases htext
        exact wellFormed_numeral 10
  · have hspecs : variantBodySpecs getItems (preparedHandler itemsEngine getItems).namedParams = [] := rfl
    have hnone : Validation.parseDocument [] = none := rfl
    rw [hspecs]
    refine ⟨List.nodup_nil, fun _ hs => absurd hs List.not_mem_nil, fun h => absurd rfl h,
      fun node hnode => ?_, fun _ h => absurd rfl h⟩
    exact absurd (hnone.symm.trans hnode) (Option.some_ne_none node).symm

theorem putItem_sound : OperationSound itemsEngine putItem := by
  refine ⟨?_, ?_, items_responses rfl rfl rfl⟩
  · intro name hname
    have hnames : pathParamNames putItem.pattern ++
        listedNames putItem (preparedHandler itemsEngine putItem) = ["id".toList, "data".toList] := by
      decide +kernel
    rw [hnames] at hname
    rcases List.mem_cons.mp hname with rfl | hname
    · refine ⟨.flat nofun nofun, fun _ s hs => ?_, fun s hs => ?_⟩
      · cases hs
      · cases hs
    · rw [List.mem_singleton.mp hname]
      refine ⟨.flat nofun nofun, fun _ s hs b hb => ?_, fun s hs d hd => ?_⟩
      · cases hs
        cases hb
      · cases hs
        cases hd
  · have hspecs : variantBodySpecs putItem (preparedHandler itemsEngine putItem).namedParams =
        putItem.params := by decide +kernel
    have hbody : Validation.parseDocument putItem.bodyType =
        some (.object [("data".toList, .string "JSON".toList),
          ("tags".toList, .array [.string "VARCHAR".toList])]) :=
      Validation.parseDocument_of_levels fun _ => rfl
    rw [hspecs]
    refine ⟨by decide, fun s hs => ?_, fun h => absurd rfl h, fun node hnode => ?_, fun _ _ => ?_⟩
    · rw [List.mem_singleton.mp hs]
      refine ⟨.flat nofun nofun, fun _ s hs b hb => ?_, fun s hs d hd => ?_⟩
      · cases hs
        cases hb
      · cases hs
        cases hd
    · cases hbody.symm.trans hnode
      refine .object (by decide) fun m hm => ?_
      rcases List.mem_cons.mp hm with rfl | hm
      · exact .leaf nofun nofun
      · rw [List.mem_singleton.mp hm]
        refine .array fun child hchild => ?_
        cases hchild
        exact .leaf nofun nofun
    · exact ⟨_, hbody, rfl⟩

/-- Two routes of one path, the second registered after the first. -/
theorem openapi_document_complete_items :
    let as : List RouteAction := [.addRoutes [getItems] false, .addRoutes [putItem] false]
    let s := routeMachine.run emptyRoutes as
    s.routes = [getItems, putItem] ∧
      Describes (buildOpenApiDocument itemsEngine (liveRoutes s)
        ((Auth.authMachine id).run Auth.emptyAuths []).auths "http://127.0.0.1:8000".toList) s.routes := by
  intro as s
  refine ⟨rfl, openapi_document_complete itemsEngine id _ as ⟨?_, ?_, trivial⟩ _ (List.prefix_refl _) []⟩
  · intro _ r hr
    have hitems : r = getItems := List.mem_singleton.mp (lastKey_eq_some hr).1
    refine ⟨hitems ▸ getItems_sound, fun r' hr' hne => ?_⟩
    rcases hr' with ⟨hr', _⟩ | hr'
    · cases hr'
    · rw [hitems, List.mem_singleton.mp (lastKey_eq_some hr').1] at hne
      exact absurd rfl hne
  · intro _ r hr
    have hput : r = putItem := List.mem_singleton.mp (lastKey_eq_some hr).1
    refine ⟨hput ▸ putItem_sound, fun r' hr' hne => ?_⟩
    rcases hr' with ⟨hr', _⟩ | hr'
    · have hget : r' = getItems := List.mem_singleton.mp hr'
      rw [hget, hput]
      exact fun _ => ⟨rfl, by decide⟩
    · rw [hput, List.mem_singleton.mp (lastKey_eq_some hr').1] at hne
      exact absurd rfl hne

theorem hasKey_of_operation {j : Json} {path method : Str} {name : Option Json}
    (h : (path, method, name) ∈ operationsOf j) : j.HasKey path := by
  obtain ⟨item, hitem, hop⟩ := List.mem_flatMap.mp h
  obtain ⟨op, _, heq⟩ := List.mem_map.mp hop
  obtain rfl : item.1 = path := congrArg Prod.fst heq
  rcases j with _ | _ | _ | members
  · cases hitem
  · cases hitem
  · cases hitem
  · rcases hpaths : (Json.object members).member "paths".toList with _ | paths
    · rw [hpaths] at hitem
      cases hitem
    · rw [hpaths] at hitem
      rcases paths with _ | _ | _ | items
      · cases hitem
      · cases hitem
      · cases hitem
      · obtain ⟨before, after, hmembers, _⟩ := List.lookup_eq_some_iff.mp hpaths
        have hmem : ("paths".toList, Json.object items) ∈ members := by
          rw [show members = _ from hmembers]
          exact List.mem_append_right _ List.mem_cons_self
        exact .member hmem (.here (List.mem_map_of_mem hitem))

def plainEngine : DocEngine where
  prepare _ := some ⟨[("1".toList, .integer)], .empty, []⟩
  selectAlias _ := none
  numberText _ := []
  castText _ _ := none

/-- The second of two paths that differ by case takes its operation with it. -/
theorem case_variant_lost :
    let s := routeMachine.run emptyRoutes
      [.addRoutes [Http.getRoute "low".toList "/z".toList] false,
        .addRoutes [Http.getRoute "up".toList "/Z".toList] false]
    ¬ Describes (buildOpenApiDocument plainEngine (liveRoutes s) Auth.emptyAuths.auths
      "http://127.0.0.1:8000".toList) s.routes := by
  intro s
  have hroutes : s.routes =
      [Http.getRoute "low".toList "/z".toList, Http.getRoute "up".toList "/Z".toList] := rfl
  have hlive : liveRoutes s = s.routes := rfl
  have hall : (buildOpenApiDocument plainEngine
      [Http.getRoute "low".toList "/z".toList, Http.getRoute "up".toList "/Z".toList]
      Auth.emptyAuths.auths "http://127.0.0.1:8000".toList).all
        (fun c => !(['Z', '\\'].contains c)) = true := by decide +kernel
  have htext : ∀ c ∈ ['Z', '\\'], c ∉ buildOpenApiDocument plainEngine
      [Http.getRoute "low".toList "/z".toList, Http.getRoute "up".toList "/Z".toList]
      Auth.emptyAuths.auths "http://127.0.0.1:8000".toList := by
    intro c hc hmem
    have hnot := List.all_eq_true.mp hall c hmem
    rw [List.contains_iff_mem.mpr hc] at hnot
    cases hnot
  rintro ⟨j, hreads, _, hperm⟩
  rw [hlive, hroutes] at hreads
  rw [hroutes] at hperm
  have hmem : ("/Z".toList, "get".toList, some (.string "up".toList)) ∈ operationsOf j :=
    hperm.mem_iff.mpr (List.mem_cons_of_mem _ List.mem_cons_self)
  have hkey := hreads.key_subset (hasKey_of_operation hmem) (htext '\\' (by decide))
  exact htext 'Z' (by decide) (hkey 'Z' (by decide))

end Quackapi.Openapi
