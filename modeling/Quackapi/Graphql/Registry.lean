import Quackapi.Library.ExceptRules
import Quackapi.Library.Upsert
import Quackapi.Auth.Registry

/-! The GraphQL registry: the tables of the built-in endpoint, and the mounts, each with its own
tables. A mount answers queries at its path and describes itself at the path below it. -/

namespace Quackapi.Graphql
open Library

def graphqlDefaultLimit : Nat := 100

structure GraphqlCatalogObject where
  databaseName : Str
  schemaName : Str
  objectName : Str
  columns : List Str
deriving DecidableEq, Repr

/-- The tables and views of the main schema by their names; the engine has no empty identifier. -/
structure GraphqlCatalog where
  objects : List GraphqlCatalogObject
  distinct : (objects.map GraphqlCatalogObject.objectName).Nodup
  named : ∀ o ∈ objects, o.objectName ≠ []

def GraphqlCatalog.find (c : GraphqlCatalog) (name : Str) : Option GraphqlCatalogObject :=
  findKey GraphqlCatalogObject.objectName name c.objects

/-- The catalog as `LoadGraphqlCatalog` answers it, or the error of its query. -/
abbrev CatalogLoad := Except Str GraphqlCatalog

def tableExists (load : CatalogLoad) (table : Str) : Bool :=
  match load with
  | .ok c => (c.find table).isSome
  | .error _ => false

structure QuackapiGraphqlRoute where
  name : Str
  method : Str
  path : Str
  tables : List Str
  requireAuth : Str
  limit : Nat
deriving DecidableEq, Repr

structure GraphqlState where
  graphqlTables : List Str
  graphqlRoutes : List QuackapiGraphqlRoute
deriving DecidableEq, Repr

def emptyGraphql : GraphqlState := ⟨[], []⟩

def tableRegisteredMessage (table : Str) : Str :=
  "GraphQL table \"".toList ++ table ++
    "\" already registered — use CREATE OR REPLACE GRAPHQL FOR TABLE".toList

def addGraphqlTable (s : GraphqlState) (table : Str) (orReplace : Bool) :
    GraphqlState × Except Str Unit :=
  if table.isEmpty then
    (s, .error "CREATE GRAPHQL FOR TABLE expects a non-empty table name".toList)
  else if s.graphqlTables.contains table then
    if !orReplace then (s, .error (tableRegisteredMessage table)) else (s, .ok ())
  else ({ s with graphqlTables := s.graphqlTables ++ [table] }, .ok ())

def dropGraphqlTable (s : GraphqlState) (table : Str) : GraphqlState × Bool :=
  if s.graphqlTables.contains table then
    ({ s with graphqlTables := s.graphqlTables.erase table }, true)
  else (s, false)

def clearGraphqlTables (s : GraphqlState) : GraphqlState := { s with graphqlTables := [] }

/-- The loop on the reversed path: slashes go from its end, but for the only character. -/
def dropTrailingSlashes : Str → Str
  | '/' :: c :: rest => dropTrailingSlashes (c :: rest)
  | p => p

def normalizeGraphqlMountPath (path : Str) : Str := (dropTrailingSlashes path.reverse).reverse

def isReservedGraphqlPath (path : Str) : Bool :=
  decide (path = "/graphql".toList) || decide (path = "/graphql/schema".toList)

def schemaPath (path : Str) : Str := path ++ "/schema".toList

/-- Why a mount cannot stand beside one of another name. -/
def mountCollision (route existing : QuackapiGraphqlRoute) : Option Str :=
  if existing.path = route.path then
    some ("GraphQL route path \"".toList ++ route.path ++ "\" already used by route \"".toList ++
      existing.name ++ "\"".toList)
  else if schemaPath existing.path = route.path ∨ existing.path = schemaPath route.path then
    some ("GraphQL route path \"".toList ++ route.path ++
      "\" collides with schema URL of route \"".toList ++ existing.name ++ "\"".toList)
  else none

/-- The checks of a mount, which end with it as the registry keeps it. -/
def checkGraphqlRoute (routes : List QuackapiGraphqlRoute) (routeIn : QuackapiGraphqlRoute) :
    Except Str QuackapiGraphqlRoute := do
  ensure (!routeIn.name.isEmpty) "CREATE GRAPHQL ROUTE expects a non-empty name".toList
  ensure (decide (routeIn.path.head? = some '/'))
    "CREATE GRAPHQL ROUTE path must be absolute (start with '/')".toList
  ensure (!routeIn.tables.isEmpty) "CREATE GRAPHQL ROUTE requires FROM <table> [, …]".toList
  let route := { routeIn with
    path := normalizeGraphqlMountPath routeIn.path, method := upper routeIn.method }
  ensure (decide (route.method = "POST".toList))
    ("CREATE GRAPHQL ROUTE only supports POST in v0 (got ".toList ++ route.method ++ ")".toList)
  ensure (!isReservedGraphqlPath route.path)
    ("CREATE GRAPHQL ROUTE path \"".toList ++ route.path ++
      "\" is reserved for the built-in GraphQL endpoint".toList)
  ensure (!isReservedGraphqlPath (schemaPath route.path))
    ("CREATE GRAPHQL ROUTE path \"".toList ++ route.path ++
      "\" collides with built-in schema URL".toList)
  match (routes.filter fun r => !decide (r.name = route.name)).findSome? (mountCollision route) with
  | some e => .error e
  | none => return route

def mountExistsMessage (name : Str) : Str :=
  "GraphQL route \"".toList ++ name ++
    "\" already exists — use CREATE OR REPLACE GRAPHQL ROUTE".toList

def addGraphqlRoute (s : GraphqlState) (routeIn : QuackapiGraphqlRoute) (orReplace : Bool) :
    GraphqlState × Except Str Unit :=
  match checkGraphqlRoute s.graphqlRoutes routeIn with
  | .error e => (s, .error e)
  | .ok route =>
    match findKey QuackapiGraphqlRoute.name route.name s.graphqlRoutes with
    | some _ =>
      if !orReplace then (s, .error (mountExistsMessage route.name))
      else
        ({ s with graphqlRoutes := replaceKey QuackapiGraphqlRoute.name route s.graphqlRoutes },
          .ok ())
    | none => ({ s with graphqlRoutes := s.graphqlRoutes ++ [route] }, .ok ())

def dropGraphqlRoute (s : GraphqlState) (name : Str) : GraphqlState × Bool :=
  match findKey QuackapiGraphqlRoute.name name s.graphqlRoutes with
  | some _ =>
    ({ s with graphqlRoutes := eraseKey QuackapiGraphqlRoute.name name s.graphqlRoutes }, true)
  | none => (s, false)

def getGraphqlRouteByPath (s : GraphqlState) (path method : Str) : Option QuackapiGraphqlRoute :=
  let norm := normalizeGraphqlMountPath path
  let meth := upper method
  s.graphqlRoutes.find? fun r => decide (r.path = norm) && decide (r.method = meth)

def getGraphqlRouteBySchemaPath (s : GraphqlState) (path : Str) : Option QuackapiGraphqlRoute :=
  let norm := normalizeGraphqlMountPath path
  s.graphqlRoutes.find? fun r => decide (norm = schemaPath r.path)

/-- `CREATE`, `DROP` and the rest, as the parser leaves them. -/
inductive GraphqlDdl
  | create (tables : List Str) (orReplace : Bool)
  | drop (tables : List Str)
  | clear
  | createRoute (route : QuackapiGraphqlRoute) (orReplace : Bool)
  | dropRoute (name : Str)
deriving DecidableEq

def tableList (tables : List Str) : Str := ", ".toList.intercalate tables

def addGraphqlTables (orReplace : Bool) :
    GraphqlState → List Str → GraphqlState × Except Str Unit
  | s, [] => (s, .ok ())
  | s, table :: tables =>
    let r := addGraphqlTable s table orReplace
    match r.2 with
    | .ok () => addGraphqlTables orReplace r.1 tables
    | .error e => (r.1, .error e)

def tablesCreatedMessage (tables : List Str) : Str :=
  "GraphQL registered: ".toList ++ tableList tables ++ " (allowlist mode on POST /graphql)".toList

def createGraphqlTables (load : CatalogLoad) (s : GraphqlState) (tables : List Str)
    (orReplace : Bool) : GraphqlState × Except Str Str :=
  match tables.find? fun table => !tableExists load table with
  | some table =>
    (s, .error ("CREATE GRAPHQL FOR TABLE: table or view \"".toList ++ table ++
      "\" not found in schema main".toList))
  | none =>
    match if orReplace then none else tables.find? fun table => s.graphqlTables.contains table with
    | some table => (s, .error (tableRegisteredMessage table))
    | none =>
      let r := addGraphqlTables orReplace s tables
      (r.1, r.2.map fun _ => tablesCreatedMessage tables)

/-- Each table in turn; the names that were registered, and those that were not. -/
def dropGraphqlTables : GraphqlState → List Str → GraphqlState × List Str × List Str
  | s, [] => (s, [], [])
  | s, table :: tables =>
    let r := dropGraphqlTable s table
    let rest := dropGraphqlTables r.1 tables
    if r.2 then (rest.1, table :: rest.2.1, rest.2.2) else (rest.1, rest.2.1, table :: rest.2.2)

def mountCreatedMessage (route : QuackapiGraphqlRoute) : Str :=
  "GraphQL route ".toList ++ route.name ++ ": ".toList ++ route.method ++ " ".toList ++
    route.path ++ " FROM ".toList ++ tableList route.tables ++
    (if route.requireAuth.isEmpty then [] else " REQUIRE ".toList ++ route.requireAuth) ++
    " LIMIT ".toList ++ Nat.toDigits 10 route.limit

def createGraphqlRoute (load : CatalogLoad) (auths : Auth.AuthState) (s : GraphqlState)
    (route : QuackapiGraphqlRoute) (orReplace : Bool) : GraphqlState × Except Str Str :=
  match route.tables.find? fun table => !tableExists load table with
  | some table =>
    (s, .error ("CREATE GRAPHQL ROUTE: table or view \"".toList ++ table ++
      "\" not found in schema main".toList))
  | none =>
    if !route.requireAuth.isEmpty && (Auth.getAuth auths route.requireAuth).isNone then
      (s, .error ("CREATE GRAPHQL ROUTE: auth scheme \"".toList ++ route.requireAuth ++
        "\" does not exist".toList))
    else
      let route :=
        { route with limit := if route.limit = 0 then graphqlDefaultLimit else route.limit }
      let r := addGraphqlRoute s route orReplace
      (r.1, r.2.map fun _ => mountCreatedMessage route)

def applyGraphql (load : CatalogLoad) (auths : Auth.AuthState) (s : GraphqlState) :
    GraphqlDdl → GraphqlState × Except Str Str
  | .create tables orReplace => createGraphqlTables load s tables orReplace
  | .drop tables =>
    let r := dropGraphqlTables s tables
    if r.2.1.isEmpty then
      (r.1, .error "DROP GRAPHQL FOR TABLE: no matching registered tables".toList)
    else
      (r.1, .ok ("GraphQL unregistered: ".toList ++ tableList r.2.1 ++
        (if r.1.graphqlTables.isEmpty then " (allowlist empty → catalog closed)".toList else []) ++
        (if r.2.2.isEmpty then [] else "; not registered: ".toList ++ tableList r.2.2)))
  | .clear => (clearGraphqlTables s, .ok "GraphQL allowlist cleared (catalog closed)".toList)
  | .createRoute route orReplace => createGraphqlRoute load auths s route orReplace
  | .dropRoute name =>
    let r := dropGraphqlRoute s name
    if r.2 then (r.1, .ok ("Dropped GraphQL route ".toList ++ name))
    else (r.1, .error ("GraphQL route \"".toList ++ name ++ "\" does not exist".toList))

/-- A statement meets the catalog and the auth schemes of its time. -/
structure GraphqlAction where
  load : CatalogLoad
  auths : Auth.AuthState
  ddl : GraphqlDdl

def graphqlMachine : Machine GraphqlState GraphqlAction (Except Str Str) :=
  ⟨fun s a => applyGraphql a.load a.auths s a.ddl⟩

end Quackapi.Graphql
