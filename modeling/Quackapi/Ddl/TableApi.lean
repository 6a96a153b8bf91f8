import Quackapi.Ddl.GroupPrefix
import Quackapi.Ddl.TailReading
import Quackapi.Http.Registration

/-! `CREATE API FOR TABLE`: a statement that stands for two routes, one that lists a table and one that
gets a row by its key. -/

namespace Quackapi.Ddl
open Library Params Http

structure TableApi where
  orReplace : Bool
  table : Str
  /-- Empty for the table's own name. -/
  basePath : Str := []
  key : Str := "id".toList
deriving DecidableEq

def parseQuoted (rest : Str) : Option (Str × Str) :=
  match quackapiTrim rest with
  | '\'' :: s => (takeToQuote s).map fun r => (r.1, quackapiTrim r.2)
  | _ => none

/-- An identifier behind its opening quote: its content, a quote in it being doubled, and what
follows. -/
def takeIdent : Str → Option (Str × Str)
  | [] => none
  | '"' :: '"' :: s => (takeIdent s).map fun r => ('"' :: r.1, r.2)
  | '"' :: s => some ([], s)
  | c :: s => (takeIdent s).map fun r => (c :: r.1, r.2)

def parseIdent (rest : Str) : Option (Str × Str) :=
  match quackapiTrim rest with
  | [] => none
  | '"' :: s => (takeIdent s).bind fun r => if r.1 = [] then none else some (r.1, quackapiTrim r.2)
  | c :: s =>
    let tok := (c :: s).takeWhile fun d => d != ' '
    if tok = [] ∨ '"' ∈ tok then none else some (tok, quackapiTrim ((c :: s).dropWhile fun d => d != ' '))

def isSafeParamName (name : Str) : Bool := !name.isEmpty && name.all fun c => c.isAlphanum || c == '_'

def apiClauses : Nat → TableApi → Str → Except Str TableApi
  | 0, data, _ => .ok data
  | rounds + 1, data, rest =>
    if rest = [] then .ok data
    else if "AT ".toList.isPrefixOf (upper rest) then
      match parseQuoted (rest.drop 3) with
      | some ('/' :: path, rest) => apiClauses rounds { data with basePath := '/' :: path } rest
      | _ => .error "CREATE API FOR TABLE: AT expects a quoted '/path'".toList
    else if "KEY ".toList.isPrefixOf (upper rest) then
      match parseQuoted (rest.drop 4) with
      | some (c :: key, rest) => apiClauses rounds { data with key := c :: key } rest
      | _ => .error "CREATE API FOR TABLE: KEY expects a quoted 'column'".toList
    else .error ("CREATE API FOR TABLE: unexpected clause \"".toList ++ rest ++ "\"".toList)

def apiBody (orReplace : Bool) (rest : Str) : Except Str TableApi :=
  if rest = [] then .error "CREATE API FOR TABLE expects a table name".toList
  else
    match parseIdent rest with
    | none =>
      .error ("CREATE API FOR TABLE: invalid table name — use a bare identifier or ".toList ++
        "\"quoted\"\"ident\"".toList)
    | some (table, rest) =>
      if '\'' ∈ table then .error "CREATE API FOR TABLE: invalid table name".toList
      else
        match apiClauses (rest.length + 1) { orReplace, table } rest with
        | .error e => .error e
        | .ok data =>
          if isSafeParamName data.key then .ok data
          else .error ("CREATE API FOR TABLE: KEY must be a bare identifier ".toList ++
            "(letters, digits, underscore)".toList)

def tableApiParse (query : Str) : Option (Except Str TableApi) :=
  let q := quackapiTrim query
  if "CREATE API FOR TABLE ".toList.isPrefixOf (upper q) then
    some (apiBody false (quackapiTrim (q.drop 21)))
  else if "CREATE OR REPLACE API FOR TABLE ".toList.isPrefixOf (upper q) then
    some (apiBody true (quackapiTrim (q.drop 32)))
  else none

def quoteIdent (ident : Str) : Str := quoted '"' ident

def givenBase (data : TableApi) : Str :=
  if data.basePath.isEmpty then '/' :: data.table else data.basePath

def apiBase (data : TableApi) : Str := popSlashes (givenBase data).length (givenBase data)

def listSql (data : TableApi) : Str :=
  "SELECT * FROM ".toList ++ quoteIdent data.table ++ " ORDER BY ".toList ++ quoteIdent data.key ++
    " LIMIT $limit OFFSET $offset".toList

def getSql (data : TableApi) : Str :=
  "SELECT * FROM ".toList ++ quoteIdent data.table ++ " WHERE ".toList ++ quoteIdent data.key ++
    " = $".toList ++ data.key

/-- A default by its text alone: its value for a `VARIANT` parameter stays as it is made, NULL. -/
def integerDefault (raw : Str) : Option ParamDefault := some (.literal raw .null)

def listParams : List ParamSpec :=
  [{ name := "limit".toList
     typeName := "INTEGER".toList
     default := integerDefault "100".toList
     ge := some (.integer 1)
     le := some (.integer 1000) },
   { name := "offset".toList
     typeName := "BIGINT".toList
     default := integerDefault "0".toList
     ge := some (.integer 0) }]

theorem isHttpMethod_get : IsHttpMethod "GET".toList = true := by decide

def apiRoute (name pattern : Str) (params : List ParamSpec) (handler : Params.Handler) : QuackapiRoute where
  pattern
  params
  requireAuth := []
  bodySchema := []
  bodyType := []
  handler
  name
  method := "GET".toList
  maxRequestBytes := 0
  isHttpMethod := isHttpMethod_get

def listRoute (data : TableApi) (handler : Params.Handler) : QuackapiRoute :=
  apiRoute (data.table ++ "_list".toList) (apiBase data) listParams handler

def getByKeyRoute (data : TableApi) (handler : Params.Handler) : QuackapiRoute :=
  apiRoute (data.table ++ "_get".toList) (apiBase data ++ '/' :: ':' :: data.key) [] handler

def invalidHandler (table error : Str) : Str :=
  "Invalid handler SQL for API table \"".toList ++ table ++ "\": ".toList ++ error

def apiStatus (data : TableApi) : Str :=
  "API for ".toList ++ data.table ++ ": GET ".toList ++ apiBase data ++ ", GET ".toList ++ apiBase data ++
    "/:".toList ++ data.key

def applyApi (prepare : Str → Except Str Params.Handler) (s : RouteState) (data : TableApi) :
    RouteState × Except Str Str :=
  match prepare (listSql data), prepare (getSql data) with
  | .error e, _ => (s, .error (invalidHandler data.table e))
  | .ok _, .error e => (s, .error (invalidHandler data.table e))
  | .ok list, .ok get =>
    let applied := addRoutes s [listRoute data list, getByKeyRoute data get] data.orReplace
    (applied.1, applied.2.map fun _ => apiStatus data)

structure TableApi.WellFormed (data : TableApi) : Prop where
  table_ne : data.table ≠ []
  table_plain : '\'' ∉ data.table
  base_rooted : data.basePath = [] ∨ data.basePath.head? = some '/'
  base_plain : '\'' ∉ data.basePath
  key_safe : isSafeParamName data.key = true

theorem takeIdent_doubled {v r : Str} (hr : r.head? ≠ some '"') :
    takeIdent (doubled '"' v ++ '"' :: r) = some (v, r) := by
  induction v with
  | nil =>
    cases r with
    | nil => rfl
    | cons c r =>
      have hc : c ≠ '"' := fun heq => hr (heq ▸ rfl)
      show takeIdent ('"' :: c :: r) = _
      rw [takeIdent]
      intro s hs
      exact hc (List.head_eq_of_cons_eq hs)
  | cons c v ih =>
    by_cases hc : c = '"'
    · have hcons : doubled '"' (c :: v) ++ '"' :: r = '"' :: '"' :: (doubled '"' v ++ '"' :: r) := by
        rw [doubled, List.flatMap_cons, if_pos hc]
        rfl
      rw [hcons, takeIdent, ih, hc]
      rfl
    · have hcons : doubled '"' (c :: v) ++ '"' :: r = c :: (doubled '"' v ++ '"' :: r) := by
        rw [doubled, List.flatMap_cons, if_neg hc]
        rfl
      rw [hcons, takeIdent, ih]
      · rfl
      · exact fun _ heq => absurd heq hc
      · exact fun heq => hc heq

theorem takeIdent_quoteIdent (v : Str) {r : Str} (hr : r.head? ≠ some '"') :
    ∃ t, quoteIdent v ++ r = '"' :: t ∧ takeIdent t = some (v, r) := by
  refine ⟨doubled '"' v ++ '"' :: r, ?_, takeIdent_doubled hr⟩
  simp [quoteIdent, quoted]

theorem isRest_quote : IsRest ['\''] where
  nonempty := List.cons_ne_nil _ _
  front c hc := by
    rw [← Option.some.inj hc]
    decide
  back c hc := by
    rw [← Option.some.inj hc]
    decide

theorem quackapiTrim_blank {rest : Str} (h : IsRest rest) : quackapiTrim (' ' :: rest) = rest := by
  refine h.strip_append (a := [' ']) fun c hc => ?_
  rw [List.mem_singleton.mp hc]
  decide

def keyText (key : Str) : Str := "KEY '".toList ++ (key ++ ['\''])

def atText (path rest : Str) : Str := "AT '".toList ++ (path ++ '\'' :: ' ' :: rest)

def clausesText (data : TableApi) : Str :=
  if data.basePath = [] then keyText data.key else atText data.basePath (keyText data.key)

def writeApi (data : TableApi) : Str :=
  (if data.orReplace then "CREATE OR REPLACE API FOR TABLE ".toList
    else "CREATE API FOR TABLE ".toList) ++
    (quoteIdent data.table ++ ' ' :: clausesText data)

theorem isRest_keyText (key : Str) : IsRest (keyText key) := by
  have h := isRest_cons (c := 'K') (t := "EY '".toList ++ key) isRest_quote (by decide)
  rwa [List.append_assoc] at h

theorem isRest_atText {rest : Str} (path : Str) (h : IsRest rest) : IsRest (atText path rest) := by
  have hfront := isRest_cons (c := 'A') (t := "T '".toList ++ (path ++ ['\'', ' '])) h (by decide)
  rw [List.append_assoc, List.append_assoc] at hfront
  exact hfront

theorem isRest_clausesText (data : TableApi) : IsRest (clausesText data) := by
  unfold clausesText
  split
  · exact isRest_keyText data.key
  · exact isRest_atText _ (isRest_keyText data.key)

theorem isRest_quoteIdent {rest : Str} (v : Str) (h : IsRest rest) :
    IsRest (quoteIdent v ++ ' ' :: rest) := by
  have hfront := isRest_cons (c := '"') (t := doubled '"' v ++ ['"', ' ']) h (by decide)
  simpa [quoteIdent, quoted] using hfront

theorem parseQuoted_quoted {v after rest : Str} (hv : '\'' ∉ v) (hrest : quackapiTrim after = rest)
    (hends : IsRest ('\'' :: (v ++ '\'' :: after))) :
    parseQuoted ('\'' :: (v ++ '\'' :: after)) = some (v, rest) := by
  have htrim : quackapiTrim ('\'' :: (v ++ '\'' :: after)) = '\'' :: (v ++ '\'' :: after) :=
    hends.strip
  rw [parseQuoted, htrim]
  show ((takeToQuote (v ++ '\'' :: after)).map fun r => (r.1, quackapiTrim r.2)) = some (v, rest)
  rw [takeToQuote_append hv, Option.map_some, hrest]

theorem apiClauses_key {key : Str} (data : TableApi) (rounds : Nat) (hne : key ≠ [])
    (hplain : '\'' ∉ key) :
    apiClauses (rounds + 1) data (keyText key) = apiClauses rounds { data with key := key } [] := by
  have hat : "AT ".toList.isPrefixOf (upper (keyText key)) = false := rfl
  have hkey : "KEY ".toList.isPrefixOf (upper (keyText key)) = true := rfl
  have hends : IsRest ('\'' :: (key ++ ['\''])) := isRest_cons isRest_quote (by decide)
  have hdrop : (keyText key).drop 4 = '\'' :: (key ++ ['\'']) := rfl
  have hread : parseQuoted ((keyText key).drop 4) = some (key, []) := by
    rw [hdrop]
    exact parseQuoted_quoted hplain rfl hends
  obtain ⟨c, key, rfl⟩ := List.exists_cons_of_ne_nil hne
  rw [apiClauses, if_neg (isRest_keyText _).nonempty, hat, if_neg Bool.false_ne_true, if_pos hkey,
    hread]

theorem apiClauses_at {path rest : Str} (data : TableApi) (rounds : Nat)
    (hhead : path.head? = some '/') (hplain : '\'' ∉ path) (hrest : IsRest rest) :
    apiClauses (rounds + 1) data (atText path rest) =
      apiClauses rounds { data with basePath := path } rest := by
  have hat : "AT ".toList.isPrefixOf (upper (atText path rest)) = true := rfl
  have hdrop : (atText path rest).drop 3 = '\'' :: (path ++ '\'' :: ' ' :: rest) := rfl
  have hends : IsRest ('\'' :: (path ++ '\'' :: ' ' :: rest)) := by
    have h := isRest_cons (c := '\'') (t := path ++ ['\'', ' ']) hrest (by decide)
    simpa using h
  have htrim := quackapiTrim_blank hrest
  have hread : parseQuoted ((atText path rest).drop 3) = some (path, rest) := by
    rw [hdrop]
    exact parseQuoted_quoted hplain htrim hends
  cases path with
  | nil => cases hhead
  | cons c path =>
    cases Option.some.inj hhead
    rw [apiClauses, if_neg (isRest_atText _ hrest).nonempty, if_pos hat, hread]
    rfl

theorem apiClauses_nil (data : TableApi) (rounds : Nat) : apiClauses rounds data [] = .ok data := by
  cases rounds with
  | zero => rfl
  | succ rounds => rw [apiClauses, if_pos rfl]

theorem key_plain {key : Str} (h : isSafeParamName key = true) :
    key ≠ [] ∧ '\'' ∉ key ∧ '/' ∉ key := by
  rw [isSafeParamName, Bool.and_eq_true, List.all_eq_true] at h
  obtain ⟨hne, hall⟩ := h
  refine ⟨by simpa using hne, fun hc => ?_, fun hc => ?_⟩
  · exact absurd (hall _ hc) (by decide)
  · exact absurd (hall _ hc) (by decide)

theorem apiClauses_clausesText {data : TableApi} (h : data.WellFormed) :
    apiClauses ((clausesText data).length + 1) { orReplace := data.orReplace, table := data.table }
      (clausesText data) = .ok data := by
  obtain ⟨hkey, hkplain, -⟩ := key_plain h.key_safe
  obtain ⟨rounds, hrounds⟩ : ∃ rounds, (clausesText data).length = rounds + 1 :=
    Nat.exists_eq_succ_of_ne_zero (mt List.length_eq_zero_iff.mp (isRest_clausesText data).nonempty)
  rw [hrounds]
  by_cases hbase : data.basePath = []
  · rw [clausesText, if_pos hbase, apiClauses_key _ _ hkey hkplain, apiClauses_nil, ← hbase]
  · rw [clausesText, if_neg hbase,
      apiClauses_at _ _ (h.base_rooted.resolve_left hbase) h.base_plain (isRest_keyText data.key),
      apiClauses_key _ _ hkey hkplain, apiClauses_nil]

theorem apiBody_written {data : TableApi} (h : data.WellFormed) :
    apiBody data.orReplace (quoteIdent data.table ++ ' ' :: clausesText data) = .ok data := by
  have hrest := isRest_quoteIdent data.table (isRest_clausesText data)
  have htrim : quackapiTrim (quoteIdent data.table ++ ' ' :: clausesText data) =
      quoteIdent data.table ++ ' ' :: clausesText data := hrest.strip
  have hclauses := quackapiTrim_blank (isRest_clausesText data)
  obtain ⟨t, htext, hident⟩ := takeIdent_quoteIdent data.table (r := ' ' :: clausesText data)
    (by simp)
  have hparse : parseIdent (quoteIdent data.table ++ ' ' :: clausesText data) =
      some (data.table, clausesText data) := by
    rw [parseIdent, htrim, htext]
    show ((takeIdent t).bind fun r => if r.1 = [] then none else some (r.1, quackapiTrim r.2)) = _
    rw [hident, Option.bind_some, if_neg h.table_ne, hclauses]
  rw [apiBody, if_neg hrest.nonempty, hparse]
  dsimp only
  rw [if_neg h.table_plain, apiClauses_clausesText h]
  exact if_pos h.key_safe

theorem tableApiParse_writeApi {data : TableApi} (h : data.WellFormed) :
    tableApiParse (writeApi data) = some (.ok data) := by
  have hrest := isRest_quoteIdent data.table (isRest_clausesText data)
  have htrim : quackapiTrim (quoteIdent data.table ++ ' ' :: clausesText data) =
      quoteIdent data.table ++ ' ' :: clausesText data := hrest.strip
  have hbody := apiBody_written h
  rw [writeApi]
  generalize quoteIdent data.table ++ ' ' :: clausesText data = text at hrest htrim hbody
  cases hreplace : data.orReplace with
  | true =>
    have hends : IsRest ("CREATE OR REPLACE API FOR TABLE ".toList ++ text) :=
      isRest_cons (c := 'C') (t := "REATE OR REPLACE API FOR TABLE ".toList) hrest (by decide)
    -- the longer statement does not start as the shorter one
    have hfirst : "CREATE API FOR TABLE ".toList.isPrefixOf
        (upper ("CREATE OR REPLACE API FOR TABLE ".toList ++ text)) = false := rfl
    have hsecond : "CREATE OR REPLACE API FOR TABLE ".toList.isPrefixOf
        (upper ("CREATE OR REPLACE API FOR TABLE ".toList ++ text)) = true := rfl
    have hdrop : ("CREATE OR REPLACE API FOR TABLE ".toList ++ text).drop 32 = text := rfl
    have hq : quackapiTrim ("CREATE OR REPLACE API FOR TABLE ".toList ++ text) = _ := hends.strip
    rw [hreplace] at hbody
    rw [if_pos rfl, tableApiParse, hq]
    refine (if_neg (ne_true_of_eq_false hfirst)).trans ((if_pos hsecond).trans ?_)
    rw [hdrop, htrim, hbody]
  | false =>
    have hends : IsRest ("CREATE API FOR TABLE ".toList ++ text) :=
      isRest_cons (c := 'C') (t := "REATE API FOR TABLE ".toList) hrest (by decide)
    have hfirst : "CREATE API FOR TABLE ".toList.isPrefixOf
        (upper ("CREATE API FOR TABLE ".toList ++ text)) = true := rfl
    have hdrop : ("CREATE API FOR TABLE ".toList ++ text).drop 21 = text := rfl
    have hq : quackapiTrim ("CREATE API FOR TABLE ".toList ++ text) = _ := hends.strip
    rw [hreplace] at hbody
    rw [if_neg Bool.false_ne_true, tableApiParse, hq]
    refine (if_pos hfirst).trans ?_
    rw [hdrop, htrim, hbody]

theorem takeIdent_ne {rest : Str} {r : Str × Str} (h : parseIdent rest = some r) : r.1 ≠ [] := by
  rw [parseIdent] at h
  split at h
  · cases h
  · obtain ⟨v, -, hv⟩ := Option.bind_eq_some_iff.mp h
    split at hv
    · cases hv
    · next hne => exact Option.some.inj hv ▸ hne
  · dsimp only at h
    split at h
    · cases h
    · next htok => exact Option.some.inj h ▸ fun hne => htok (.inl hne)

theorem parseQuoted_plain {rest : Str} {r : Str × Str} (h : parseQuoted rest = some r) :
    '\'' ∉ r.1 := by
  rw [parseQuoted] at h
  split at h
  · next s _ =>
    obtain ⟨v, hv, rfl⟩ := Option.map_eq_some_iff.mp h
    rw [takeToQuote] at hv
    split at hv
    · cases hv
    · rw [← Option.some.inj hv]
      intro hc
      simpa using List.mem_takeWhile_imp hc
  · cases h

def BaseRead (data : TableApi) : Prop :=
  (data.basePath = [] ∨ data.basePath.head? = some '/') ∧ '\'' ∉ data.basePath

theorem apiClauses_read {rounds : Nat} {data after : TableApi} {rest : Str} (hbase : BaseRead data)
    (h : apiClauses rounds data rest = .ok after) : BaseRead after ∧ after.table = data.table := by
  induction rounds generalizing data rest with
  | zero =>
    cases h
    exact ⟨hbase, rfl⟩
  | succ rounds ih =>
    rw [apiClauses] at h
    split at h
    · cases h
      exact ⟨hbase, rfl⟩
    · split at h
      · split at h
        · next path rest' hread =>
          -- a path is taken only if it starts with a slash
          have hnext : BaseRead { data with basePath := '/' :: path } :=
            ⟨.inr rfl, parseQuoted_plain hread⟩
          have hafter := ih hnext h
          exact hafter
        · cases h
      · split at h
        · split at h
          · next c key rest' hread =>
            have hnext : BaseRead { data with key := c :: key } := hbase
            have hafter := ih hnext h
            exact hafter
          · cases h
        · cases h

theorem apiBody_wellFormed {orReplace : Bool} {rest : Str} {data : TableApi}
    (h : apiBody orReplace rest = .ok data) : data.WellFormed := by
  rw [apiBody] at h
  split at h
  · cases h
  · split at h
    · cases h
    · next table rest' hident =>
      split at h
      · cases h
      · next hplain =>
        split at h
        · cases h
        · next read hread =>
          split at h
          · next hkey =>
            cases h
            obtain ⟨⟨hrooted, hquote⟩, htable⟩ := apiClauses_read ⟨.inl rfl, List.not_mem_nil⟩ hread
            have hne : table ≠ [] := takeIdent_ne hident
            exact ⟨htable ▸ hne, htable ▸ hplain, hrooted, hquote, hkey⟩
          · cases h

theorem tableApiParse_wellFormed {query : Str} {data : TableApi}
    (h : tableApiParse query = some (.ok data)) : data.WellFormed := by
  rw [tableApiParse] at h
  split at h
  · exact apiBody_wellFormed (Option.some.inj h)
  · split at h
    · exact apiBody_wellFormed (Option.some.inj h)
    · cases h

theorem takeIdent_two (a v w : Str) {b c : Str} (hb : b.head? ≠ some '"')
    (hc : c.head? ≠ some '"') (hne : b ≠ []) :
    ∃ t u, takeIdent t = some (v, b ++ '"' :: u) ∧ takeIdent u = some (w, c) ∧
      a ++ quoteIdent v ++ b ++ quoteIdent w ++ c = a ++ '"' :: t := by
  obtain ⟨u, hu, hread⟩ := takeIdent_quoteIdent w hc
  have hfront : (b ++ '"' :: u).head? ≠ some '"' := by
    rwa [List.head?_append_of_ne_nil _ hne]
  obtain ⟨t, ht, hreadt⟩ := takeIdent_quoteIdent v hfront
  refine ⟨t, u, hreadt, hread, ?_⟩
  rw [← ht, ← hu]
  simp only [List.append_assoc]

theorem getSql_reads (data : TableApi) :
    ∃ t u, takeIdent t = some (data.table, " WHERE ".toList ++ '"' :: u) ∧
      takeIdent u = some (data.key, " = $".toList ++ data.key) ∧
      getSql data = "SELECT * FROM ".toList ++ '"' :: t := by
  have hfront : (" = $".toList ++ data.key).head? ≠ some '"' := by
    rw [List.head?_append_of_ne_nil _ (by decide)]
    decide
  have hsql : getSql data = "SELECT * FROM ".toList ++ quoteIdent data.table ++ " WHERE ".toList ++
      quoteIdent data.key ++ (" = $".toList ++ data.key) := List.append_assoc ..
  rw [hsql]
  exact takeIdent_two _ data.table data.key (by decide) hfront (by decide)

/-- The descriptions that statements give are the well-formed ones, and each has a statement of its own
that gives it. In the handlers' texts the identifiers end where they do in the description. -/
theorem tableApi_read_iff (data : TableApi) :
    ((∃ query, tableApiParse query = some (.ok data)) ↔ data.WellFormed) ∧
    (data.WellFormed → tableApiParse (writeApi data) = some (.ok data)) ∧
    (∃ t u, takeIdent t = some (data.table, " ORDER BY ".toList ++ '"' :: u) ∧
      takeIdent u = some (data.key, " LIMIT $limit OFFSET $offset".toList) ∧
      listSql data = "SELECT * FROM ".toList ++ '"' :: t) ∧
    ∃ t u, takeIdent t = some (data.table, " WHERE ".toList ++ '"' :: u) ∧
      takeIdent u = some (data.key, " = $".toList ++ data.key) ∧
      getSql data = "SELECT * FROM ".toList ++ '"' :: t := by
  refine ⟨⟨?_, fun h => ⟨writeApi data, tableApiParse_writeApi h⟩⟩, tableApiParse_writeApi, ?_, ?_⟩
  · rintro ⟨query, hquery⟩
    exact tableApiParse_wellFormed hquery
  · exact takeIdent_two _ data.table data.key (by decide) (by decide) (by decide)
  · exact getSql_reads data

theorem splitPath_popSlashes (rounds : Nat) (p : Str) : splitPath (popSlashes rounds p) = splitPath p := by
  induction rounds generalizing p with
  | zero => rfl
  | succ rounds ih =>
    rw [popSlashes]
    split
    · next hslash =>
      rw [ih, ← splitPath_append_singleton p.dropLast, List.dropLast_append_getLast? '/' hslash.2]
    · rfl

theorem hasTrailingSlash_popSlashes {rounds : Nat} {p : Str} (h : p.length ≤ rounds) :
    hasTrailingSlash (popSlashes rounds p) = false := by
  induction rounds generalizing p with
  | zero =>
    rw [List.length_eq_zero_iff.mp (Nat.le_zero.mp h)]
    rfl
  | succ rounds ih =>
    rw [popSlashes]
    split
    · apply ih
      rw [List.length_dropLast]
      omega
    · next hslash =>
      rw [hasTrailingSlash, Bool.and_eq_false_iff, decide_eq_false_iff_not, beq_eq_false_iff_ne]
      exact not_and_or.mp hslash

theorem splitPath_apiBase (data : TableApi) : splitPath (apiBase data) = splitPath (givenBase data) :=
  splitPath_popSlashes _ _

theorem matchSegments_concat (ps ss : List Str) (p s : Str) :
    matchSegments (ps ++ [p]) (ss ++ [s]) =
      (matchSegments ps ss).bind fun front => (matchSegments [p] [s]).map (front ++ ·) := by
  induction ps generalizing ss with
  | nil =>
    cases ss with
    | nil =>
      rw [matchSegments, Option.bind_some]
      exact (Option.map_id' ..).symm
    | cons t ss =>
      -- of two lists of different lengths neither the fronts match nor the whole
      have hlong : matchSegments [] (ss ++ [s]) = none := by cases ss <;> rfl
      show matchSegments [p] (t :: (ss ++ [s])) = none
      rw [matchSegments, hlong]
      cases segmentCapture p <;> simp
  | cons q ps ih =>
    cases ss with
    | nil =>
      have hlong : matchSegments (ps ++ [p]) [] = none := by cases ps <;> rfl
      show matchSegments (q :: (ps ++ [p])) [s] = none
      rw [matchSegments, hlong]
      cases segmentCapture q <;> simp
    | cons t ss =>
      show matchSegments (q :: (ps ++ [p])) (t :: (ss ++ [s])) = _
      rw [matchSegments, matchSegments, ih]
      cases segmentCapture q with
      | some name => cases matchSegments ps ss <;> simp [Option.map_map, Function.comp_def]
      | none => by_cases ht : q = t <;> simp [ht]

theorem splitPath_getByKey {data : TableApi} (hd : data.WellFormed) (handler : Params.Handler) :
    splitPath (getByKeyRoute data handler).pattern = splitPath (givenBase data) ++ [':' :: data.key] := by
  have hsegment : IsSegment (':' :: data.key) := by
    refine ⟨List.cons_ne_nil _ _, fun hc => ?_⟩
    rcases List.mem_cons.mp hc with hc | hc
    · exact absurd hc (by decide)
    · exact (key_plain hd.key_safe).2.2 hc
  show splitPath (apiBase data ++ '/' :: ':' :: data.key) = _
  rw [splitPath_append_slash, splitPath_apiBase, splitPath_segment hsegment.1 hsegment.2]

theorem hasTrailingSlash_getByKey {data : TableApi} (hd : data.WellFormed) (handler : Params.Handler) :
    hasTrailingSlash (getByKeyRoute data handler).pattern = false := by
  obtain ⟨hne, -, hslash⟩ := key_plain hd.key_safe
  have hlast : (getByKeyRoute data handler).pattern.getLast? = data.key.getLast? := by
    show (apiBase data ++ '/' :: ':' :: data.key).getLast? = _
    rw [List.getLast?_append_of_ne_nil _ (List.cons_ne_nil _ _), ← List.singleton_append,
      List.getLast?_append_of_ne_nil _ (List.cons_ne_nil _ _), ← List.singleton_append,
      List.getLast?_append_of_ne_nil _ hne]
  rw [hasTrailingSlash, hlast, Bool.and_eq_false_iff]
  refine .inr (beq_eq_false_iff_ne.mpr fun h => hslash (List.mem_of_getLast? h))

theorem matchPattern_list (data : TableApi) (handler : Params.Handler) (path : Str) :
    matchPattern (listRoute data handler).pattern path =
      if hasTrailingSlash path = false then
        matchSegments (splitPath (givenBase data)) (splitPath path) else none := by
  have hslash : hasTrailingSlash (listRoute data handler).pattern = false :=
    hasTrailingSlash_popSlashes le_rfl
  have hsplit : splitPath (listRoute data handler).pattern = splitPath (givenBase data) :=
    splitPath_apiBase data
  rw [matchPattern, hslash, hsplit]
  simp only [eq_comm (a := false)]

theorem matchPattern_getByKey {data : TableApi} (hd : data.WellFormed) (handler : Params.Handler)
    {path : Str} {captures : List (Str × Str)} :
    matchPattern (getByKeyRoute data handler).pattern path = some captures ↔
      hasTrailingSlash path = false ∧ ∃ front value c,
        splitPath path = front ++ [value] ∧
        matchSegments (splitPath (givenBase data)) front = some c ∧
        captures = c ++ [(data.key, value)] := by
  rw [matchPattern, hasTrailingSlash_getByKey hd, splitPath_getByKey hd]
  simp only [eq_comm (a := false)]
  split
  · next hslash =>
    simp only [hslash, true_and]
    rcases List.eq_nil_or_concat (splitPath path) with hnil | ⟨front, value, hpath⟩
    · rw [hnil]
      have hshort : matchSegments (splitPath (givenBase data) ++ [':' :: data.key]) [] = none := by
        cases splitPath (givenBase data) <;> rfl
      rw [hshort]
      simp
    · have hcapture : matchSegments [':' :: data.key] [value] = some [(data.key, value)] := rfl
      rw [hpath, List.concat_eq_append, matchSegments_concat, hcapture]
      constructor
      · intro h
        obtain ⟨c, hc, hcaptures⟩ := Option.bind_eq_some_iff.mp h
        exact ⟨front, value, c, rfl, hc, (Option.some.inj hcaptures).symm⟩
      · rintro ⟨front', value', c, hsplit, hc, rfl⟩
        obtain ⟨rfl, hvalue⟩ := List.append_inj' hsplit rfl
        cases hvalue
        rw [hc]
        rfl
  · next hslash => simp [hslash]

theorem not_both {data : TableApi} (hd : data.WellFormed) (list get : Params.Handler) {path : Str}
    (h : patternMatches (getByKeyRoute data get).pattern path = true) :
    patternMatches (listRoute data list).pattern path = false := by
  rw [Bool.eq_false_iff]
  intro hlist
  -- a path has as many segments as what it matches
  have hlist' := (patternMatches_iff.mp hlist).2.length_eq
  have hget' := (patternMatches_iff.mp h).2.length_eq
  have hlong : (patternShape (getByKeyRoute data get).pattern).segments.length =
      (patternShape (listRoute data list).pattern).segments.length + 1 := by
    show ((splitPath (getByKeyRoute data get).pattern).map segmentLiteral).length =
      ((splitPath (apiBase data)).map segmentLiteral).length + 1
    rw [splitPath_getByKey hd, splitPath_apiBase, List.length_map, List.length_map, List.length_append,
      List.length_singleton]
  omega

theorem applyApi_cases {s : RouteState} (hs : (s.routes.map QuackapiRoute.name).Nodup)
    (prepare : Str → Except Str Params.Handler) (data : TableApi) :
    (∃ e, applyApi prepare s data = (s, .error e)) ∨
    ∃ list get, prepare (listSql data) = .ok list ∧ prepare (getSql data) = .ok get ∧
      Admissible data.orReplace s.routes [listRoute data list, getByKeyRoute data get] ∧
      applyApi prepare s data = (clearRateLimits (publishRoutes
        { s with
          routes := upsertAll QuackapiRoute.name s.routes
            [listRoute data list, getByKeyRoute data get] })
        [listRoute data list, getByKeyRoute data get], .ok (apiStatus data)) := by
  unfold applyApi
  rcases hlist : prepare (listSql data) with e | list
  · exact .inl ⟨_, rfl⟩
  · rcases hget : prepare (getSql data) with e | get
    · exact .inl ⟨_, rfl⟩
    · rcases addRoutes_cases hs [listRoute data list, getByKeyRoute data get] data.orReplace with
        ⟨-, e, hadd⟩ | ⟨hadm, hadd⟩
      · refine .inl ⟨e, ?_⟩
        dsimp only
        rw [hadd]
        rfl
      · refine .inr ⟨list, get, rfl, rfl, hadm, ?_⟩
        dsimp only
        rw [hadd]
        rfl

theorem apiNames_ne (data : TableApi) (list get : Params.Handler) :
    (listRoute data list).name ≠ (getByKeyRoute data get).name := by
  intro h
  have hname : data.table ++ "_list".toList = data.table ++ "_get".toList := h
  have hsuffix : "_list".toList = "_get".toList := List.append_cancel_left hname
  exact absurd hsuffix (by decide)

theorem mem_upsert_api {l : List QuackapiRoute} (hl : (l.map QuackapiRoute.name).Nodup) (data : TableApi)
    (list get : Params.Handler) (r : QuackapiRoute) :
    r ∈ upsertAll QuackapiRoute.name l [listRoute data list, getByKeyRoute data get] ↔
      r = listRoute data list ∨ r = getByKeyRoute data get ∨
        (r ∈ l ∧ r.name ≠ (listRoute data list).name ∧ r.name ≠ (getByKeyRoute data get).name) := by
  have hne := apiNames_ne data list get
  rw [upsertAll, List.foldl_cons, List.foldl_cons, List.foldl_nil,
    mem_upsertKey (nodup_upsertKey hl _), mem_upsertKey hl]
  constructor
  · rintro (rfl | ⟨rfl | ⟨hr, hlist⟩, hget⟩)
    · exact .inr (.inl rfl)
    · exact .inl rfl
    · exact .inr (.inr ⟨hr, hlist, hget⟩)
  · rintro (rfl | rfl | ⟨hr, hlist, hget⟩)
    · exact .inr ⟨.inl rfl, hne⟩
    · exact .inl rfl
    · exact .inr ⟨.inr ⟨hr, hlist⟩, hget⟩

/-- The statement is refused and nothing changes, or its two handlers are valid and the registry has both
routes besides those of other names. The first answers the base's paths; the second answers what has one
segment more, which it captures as the key; and no path has both. -/
theorem applyApi_serves {s : RouteState} (hs : s.Valid) (prepare : Str → Except Str Params.Handler)
    {data : TableApi} (hd : data.WellFormed) :
    ((∃ e, applyApi prepare s data = (s, .error e)) ∨
      ∃ list get, prepare (listSql data) = .ok list ∧ prepare (getSql data) = .ok get ∧
        (applyApi prepare s data).2 = .ok (apiStatus data) ∧ (applyApi prepare s data).1.Valid ∧
        ∀ r, r ∈ liveRoutes (applyApi prepare s data).1 ↔
          r = listRoute data list ∨ r = getByKeyRoute data get ∨
            (r ∈ liveRoutes s ∧ r.name ≠ data.table ++ "_list".toList ∧
              r.name ≠ data.table ++ "_get".toList)) ∧
    ∀ list get path,
      matchPattern (listRoute data list).pattern path = (if hasTrailingSlash path = false then
        matchSegments (splitPath (givenBase data)) (splitPath path) else none) ∧
      (∀ captures, matchPattern (getByKeyRoute data get).pattern path = some captures ↔
        hasTrailingSlash path = false ∧ ∃ front value c,
          splitPath path = front ++ [value] ∧
          matchSegments (splitPath (givenBase data)) front = some c ∧
          captures = c ++ [(data.key, value)]) ∧
      ¬ (patternMatches (listRoute data list).pattern path = true ∧
        patternMatches (getByKeyRoute data get).pattern path = true) := by
  refine ⟨?_, fun list get path => ⟨matchPattern_list data list path,
    fun captures => matchPattern_getByKey hd get, ?_⟩⟩
  · rcases applyApi_cases hs.names prepare data with h | ⟨list, get, hlist, hget, hadm, h⟩
    · exact .inl h
    · refine .inr ⟨list, get, hlist, hget, by rw [h], ?_, fun r => ?_⟩
      · rw [h]
        exact addRoutes_valid hs hadm
      · have hlive : liveRoutes (applyApi prepare s data).1 =
            upsertAll QuackapiRoute.name s.routes [listRoute data list, getByKeyRoute data get] := by
          rw [h, clearRateLimits_eq]
          rfl
        rw [hlive, mem_upsert_api hs.names, hs.published]
        exact Iff.rfl
  · rintro ⟨hlist, hget⟩
    rw [not_both hd list get hget] at hlist
    cases hlist

/-- The two routes of a table with a base and a key of its own, beside a route that was there. -/
theorem applyApi_serves_users :
    let data : TableApi :=
      { orReplace := false, table := "users".toList, basePath := "/people/".toList, key := "nick".toList }
    let health := Http.getRoute "health".toList "/health".toList
    let s₀ := (addRoutes emptyRoutes [health] false).1
    let s := (applyApi (fun _ => .ok plainHandler) s₀ data).1
    s.Valid ∧ (∀ r, r ∈ liveRoutes s ↔ r = listRoute data plainHandler ∨
        r = getByKeyRoute data plainHandler ∨ r = health) ∧
      patternMatches (listRoute data plainHandler).pattern "/people".toList = true ∧
      matchPattern (getByKeyRoute data plainHandler).pattern "/people/7".toList =
        some [("nick".toList, "7".toList)] ∧
      patternMatches (listRoute data plainHandler).pattern "/people/7".toList = false := by
  intro data health s₀ s
  have hd : data.WellFormed := ⟨by decide, by decide, .inr rfl, by decide, by decide⟩
  have hs₀ : s₀.Valid := routes_valid [.addRoutes [health] false]
  have hserves := applyApi_serves hs₀ (fun _ => .ok plainHandler) hd
  have hlive₀ : liveRoutes s₀ = [health] := rfl
  have hget : matchPattern (getByKeyRoute data plainHandler).pattern "/people/7".toList =
      some [("nick".toList, "7".toList)] :=
    ((hserves.2 plainHandler plainHandler "/people/7".toList).2.1 _).mpr
      ⟨by decide, ["people".toList], "7".toList, [], by decide, by decide, rfl⟩
  have hanswers : s.Valid ∧ ∀ r, r ∈ liveRoutes s ↔ r = listRoute data plainHandler ∨
      r = getByKeyRoute data plainHandler ∨ r = health := by
    rcases hserves.1 with ⟨e, he⟩ | ⟨list, get, hlist, hget, -, hvalid, hlive⟩
    · cases congrArg Prod.snd he
    · cases hlist
      cases hget
      refine ⟨hvalid, fun r => (hlive r).trans (or_congr_right (or_congr_right ?_))⟩
      rw [hlive₀, List.mem_singleton]
      refine and_iff_left_of_imp ?_
      rintro rfl
      exact ⟨by decide, by decide⟩
  refine ⟨hanswers.1, hanswers.2, by decide, hget, ?_⟩
  have hboth := (hserves.2 plainHandler plainHandler "/people/7".toList).2.2
  have hmatches : patternMatches (getByKeyRoute data plainHandler).pattern "/people/7".toList = true := by
    rw [patternMatches, hget]
    rfl
  exact Bool.eq_false_iff.mpr fun hlist => hboth ⟨hlist, hmatches⟩

end Quackapi.Ddl
