import Quackapi.Graphql.Document
import Quackapi.Policy.Completeness
import Quackapi.Util.Json
import Mathlib.Data.Char
import Mathlib.Data.List.Lex

/-! The two readers of the catalog: one runs a query, one lists what can be queried. -/

namespace Quackapi.Graphql
open Library Policy

structure GraphqlExecOptions where
  /-- The tables of a mount; none at the built-in endpoint. -/
  allowedTables : Option (List Str)
  limit : Nat
  authenticated : Bool
  maxResponseBytes : Nat
  mode : Str
  routeName : Str

/-- The text of a generated `SELECT`, what the policy rewrite made of it, and its columns. -/
structure GeneratedSelect where
  sourceSql : Str
  sql : HandlerSql
  columns : List Str

/-- What a call finds: the catalog, the settings, the policies, and the engine. -/
structure GraphqlEnv where
  load : CatalogLoad
  deadlineExpired : Bool
  legacyOpen : Bool
  graphqlTables : List Str
  policies : PolicySnapshot
  /-- The engine's parser of statements. -/
  parseQuery : Str → HandlerParse
  /-- The rows of a generated `SELECT` as JSON, or its error. -/
  selectTableJson : GeneratedSelect → Except Str Str

def graphqlError (message : Str) : Str :=
  "\x7b\"errors\":[\x7b\"message\":".toList ++ jsonString message ++ "\x7d]\x7d".toList

def quoteGraphqlObject (object : GraphqlCatalogObject) : Str :=
  quoteCatalogIdentifier object.databaseName ++ ".".toList ++
    quoteCatalogIdentifier object.schemaName ++ ".".toList ++
    quoteCatalogIdentifier object.objectName

def responseLimitMessage : Str := "GraphQL response exceeds configured byte limit".toList

def catalogFailedMessage (e : Str) : Str := "schema catalog query failed: ".toList ++ e

def catalogExpiredMessage : Str := "schema catalog query deadline exceeded".toList

def generatedSql (object : GraphqlCatalogObject) (columns : List Str) (limit : Nat) : Str :=
  "SELECT ".toList ++ joinComma (columns.map quoteCatalogIdentifier) ++ " FROM ".toList ++
    quoteGraphqlObject object ++ " LIMIT ".toList ++ Nat.toDigits 10 limit

def checkAllowed (env : GraphqlEnv) (options : GraphqlExecOptions) (name : Str) : Except Str Unit :=
  match options.allowedTables with
  | some tables =>
    ensure (tables.contains name) ("table '".toList ++ name ++
      "' is not on this GraphQL route — CREATE GRAPHQL ROUTE … FROM ".toList ++ name)
  | none =>
    ensure (env.legacyOpen || env.graphqlTables.contains name) ("table '".toList ++ name ++
      "' is not registered for GraphQL — CREATE GRAPHQL FOR TABLE ".toList ++ name)

def findObject (catalog : GraphqlCatalog) (name : Str) : Except Str GraphqlCatalogObject :=
  match catalog.find name with
  | some object => .ok object
  | none => .error ("unknown table '".toList ++ name ++ "' (main schema catalog only)".toList)

def checkColumns (object : GraphqlCatalogObject) (field : GraphqlField) : Except Str Unit :=
  match field.columns.find? fun col => !object.columns.contains col with
  | none => .ok ()
  | some col =>
    .error ("unknown column '".toList ++ col ++ "' on table '".toList ++ field.name ++ "'".toList)

def checkPolicies (env : GraphqlEnv) (options : GraphqlExecOptions) (sourceSql : Str)
    (columns : List Str) : Except Str GeneratedSelect :=
  let rewrite := rewriteHandler ⟨env.policies, options.authenticated⟩ (env.parseQuery sourceSql)
  if rewrite.executable then .ok ⟨sourceSql, rewrite.sql, columns⟩
  else .error "access denied by table policy".toList

/-- The gates of one root field, up to the `SELECT` that runs for it. -/
def gateField (env : GraphqlEnv) (options : GraphqlExecOptions) (catalog : GraphqlCatalog)
    (limit : Nat) (field : GraphqlField) : Except Str GeneratedSelect := do
  checkAllowed env options field.name
  let object ← findObject catalog field.name
  checkColumns object field
  checkPolicies env options (generatedSql object field.columns limit) field.columns

structure GraphqlRun where
  selects : List GeneratedSelect
  response : Str

def GraphqlRun.rejected (message : Str) : GraphqlRun := ⟨[], graphqlError message⟩

/-- One root field after another; `data` is the text so far. -/
def runFields (env : GraphqlEnv) (options : GraphqlExecOptions) (catalog : GraphqlCatalog)
    (limit : Nat) (data : Str) (first : Bool) : List GraphqlField → GraphqlRun
  | [] => ⟨[], "\x7b\"data\":".toList ++ data ++ "\x7d\x7d".toList⟩
  | field :: fields =>
    match gateField env options catalog limit field with
    | .error e => .rejected e
    | .ok select =>
      match env.selectTableJson select with
      | .error e => ⟨[select], graphqlError ("query failed for '".toList ++ field.name ++
          "': ".toList ++ e)⟩
      | .ok rows =>
        let data := data ++ (if first then [] else ",".toList) ++ jsonString field.name ++
          ":".toList ++ rows
        if options.maxResponseBytes < data.length then
          ⟨[select], graphqlError responseLimitMessage⟩
        else
          let rest := runFields env options catalog limit data false fields
          ⟨select :: rest.selects, rest.response⟩

def rowLimit (options : GraphqlExecOptions) (roots : List GraphqlField) : Nat :=
  min (if options.limit = 0 then graphqlDefaultLimit else options.limit)
    (graphqlMaxTotalRows / roots.length)

def executeGraphqlQuery (env : GraphqlEnv) (options : GraphqlExecOptions) (query : Str) :
    GraphqlRun :=
  match parseThinGraphql query with
  | .error e => .rejected e
  | .ok roots =>
    match env.load with
    | .error e => .rejected (catalogFailedMessage e)
    | .ok catalog =>
      if env.deadlineExpired then .rejected catalogExpiredMessage
      else runFields env options catalog (rowLimit options roots) "\x7b".toList true roots

/-- The statement whose policies decide whether a table shows. -/
def discoverySql (object : GraphqlCatalogObject) : Str :=
  "SELECT * FROM ".toList ++ quoteGraphqlObject object

def handlerTouchesPoliciedTable (policies : PolicySnapshot) (handler : HandlerParse) : Bool :=
  !(rewriteHandler ⟨policies, false⟩ handler).executable

def allowedForSchema (env : GraphqlEnv) (options : GraphqlExecOptions) : List Str :=
  match options.allowedTables with
  | some tables => tables
  | none => if env.legacyOpen then [] else env.graphqlTables

def isListed (env : GraphqlEnv) (options : GraphqlExecOptions) (object : GraphqlCatalogObject) :
    Bool :=
  if (options.allowedTables.isSome || !env.legacyOpen) &&
      !(allowedForSchema env options).contains object.objectName then false
  else if !options.authenticated &&
      handlerTouchesPoliciedTable env.policies (env.parseQuery (discoverySql object)) then false
  else true

def schemaMode (env : GraphqlEnv) (options : GraphqlExecOptions) : Str :=
  if options.allowedTables.isSome then
    if options.mode.isEmpty then "route".toList else options.mode
  else if env.legacyOpen then "open".toList
  else if (allowedForSchema env options).isEmpty then "disabled".toList else "allowlist".toList

def graphqlSchemaNote : Str :=
  ("GraphQL v0 catalog-only schema. Full __schema introspection not implemented. " ++
    "CREATE GRAPHQL FOR TABLE registers an allowlist for POST /graphql; empty = closed. " ++
    "SET GLOBAL quackapi_graphql_allow_all = true restores legacy open catalog mode. " ++
    "CREATE GRAPHQL ROUTE mounts named paths with per-route tables.").toList

def schemaHead (env : GraphqlEnv) (options : GraphqlExecOptions) : Str :=
  "\x7b\"mode\":\"".toList ++ schemaMode env options ++ "\"".toList ++
    (if options.allowedTables.isSome && !options.routeName.isEmpty then
      ",\"route\":".toList ++ jsonString options.routeName else []) ++ ",\"tables\":\x7b".toList

def schemaEntry (object : GraphqlCatalogObject) : Str :=
  jsonString object.objectName ++ ":[".toList ++
    ",".toList.intercalate (object.columns.map jsonString) ++ "]".toList

/-- The entries one after another, until the text is too long. -/
def addSchemaEntries (maxResponseBytes : Nat) (body : Str) (first : Bool) :
    List GraphqlCatalogObject → Except Str Str
  | [] => .ok body
  | object :: objects =>
    let body := body ++ (if first then [] else ",".toList) ++ schemaEntry object
    if maxResponseBytes < body.length then .error responseLimitMessage
    else addSchemaEntries maxResponseBytes body false objects

/-- The objects that are listed, in the order of their names. -/
def listedObjects (env : GraphqlEnv) (options : GraphqlExecOptions) (catalog : GraphqlCatalog) :
    List GraphqlCatalogObject :=
  (catalog.objects.mergeSort fun a b => decide (a.objectName ≤ b.objectName)).filter
    (isListed env options)

structure GraphqlSchema where
  objects : List GraphqlCatalogObject
  response : Str

def buildGraphqlSchema (env : GraphqlEnv) (options : GraphqlExecOptions) : GraphqlSchema :=
  match env.load with
  | .error e => ⟨[], graphqlError (catalogFailedMessage e)⟩
  | .ok catalog =>
    if env.deadlineExpired then ⟨[], graphqlError catalogExpiredMessage⟩
    else
      let objects := listedObjects env options catalog
      match addSchemaEntries options.maxResponseBytes (schemaHead env options) true objects with
      | .error e => ⟨[], graphqlError e⟩
      | .ok body => ⟨objects, body ++ "\x7d,\"note\":".toList ++ jsonString graphqlSchemaNote ++
          "\x7d".toList⟩

end Quackapi.Graphql
