import Quackapi.Telemetry.Redaction

/-! A batch of records on its way into the access-log table. A text that is no UTF-8 makes no value,
and one such text fails the whole batch. What the engine's appender makes of the values is a
parameter: a column may cast them to another type, and the table may have constraints. -/

namespace Quackapi.Telemetry
open Library Http

/-- `QuackapiAccessLogColumn`. -/
inductive AccessLogColumn
  | requestId
  | receivedAt
  | method
  | path
  | routeName
  | routePath
  | status
  | durationMs
  | sqlPrepareMs
  | sqlExecuteMs
  | rowsOut
  | bytesIn
  | bytesOut
  | clientIp
  | userAgent
  | httpVersion
  | errorType
  | errorMessage
  | traceId
  | spanId
  | parentSpanId
  | sampled
  | headers
  | query
deriving DecidableEq

/-- The names of the columns, in the order of the table's writer. -/
def accessLogColumns : List (AccessLogColumn × Str) :=
  [(.requestId, "request_id".toList), (.receivedAt, "received_at".toList),
    (.method, "method".toList), (.path, "path".toList), (.routeName, "route_name".toList),
    (.routePath, "route_path".toList), (.status, "status".toList),
    (.durationMs, "duration_ms".toList), (.sqlPrepareMs, "sql_prepare_ms".toList),
    (.sqlExecuteMs, "sql_execute_ms".toList), (.rowsOut, "rows_out".toList),
    (.bytesIn, "bytes_in".toList), (.bytesOut, "bytes_out".toList),
    (.clientIp, "client_ip".toList), (.userAgent, "user_agent".toList),
    (.httpVersion, "http_version".toList), (.errorType, "error_type".toList),
    (.errorMessage, "error_message".toList), (.traceId, "trace_id".toList),
    (.spanId, "span_id".toList), (.parentSpanId, "parent_span_id".toList),
    (.sampled, "sampled".toList), (.headers, "headers".toList), (.query, "query".toList)]

/-- What a `VARCHAR` holds. -/
abbrev Text := {s : Str // isUtf8 s = true}

inductive LogValue
  | null
  | text (s : Text)
  | timestamp (micros : Int)
  | integer (n : Int)
  | double (ms : Int)
  | boolean (b : Bool)
  | map (entries : List (Text × Text))

/-- The constructor of a `VARCHAR`. -/
def makeText (s : Str) : Except Str Text :=
  if h : isUtf8 s = true then .ok ⟨s, h⟩ else .error "invalid unicode".toList

def textValue (s : Str) : Except Str LogValue := do return .text (← makeText s)

def optionalText (s : Str) : Except Str LogValue := if s.isEmpty then .ok .null else textValue s

/-- `Value::MAP`, whose keys are distinct. -/
def mapValue (entries : List (Text × Text)) : Except Str LogValue :=
  if (entries.map fun entry => entry.1.1).Nodup then .ok (.map entries)
  else .error "Map keys must be unique.".toList

def requestHeadersValue (entry : RequestRecord) : Except Str LogValue :=
  if !entry.headersLogged then .ok .null
  else do mapValue (← entry.headers.mapM fun h => do return (← makeText h.1, ← makeText h.2))

def requestQueryValue (entry : RequestRecord) : Except Str LogValue :=
  if entry.queryLogged then textValue entry.query else .ok .null

def accessLogValue (entry : RequestRecord) : AccessLogColumn → Except Str LogValue
  | .requestId => textValue entry.requestId
  | .receivedAt => .ok (.timestamp entry.receivedAtMicros)
  | .method => textValue entry.method
  | .path => textValue entry.path
  | .routeName => optionalText entry.routeName
  | .routePath => optionalText entry.routePath
  | .status => .ok (.integer entry.status)
  | .durationMs => .ok (.double entry.durationMs)
  | .sqlPrepareMs => .ok (if entry.sqlPrepareMs < 0 then .null else .double entry.sqlPrepareMs)
  | .sqlExecuteMs => .ok (if entry.sqlExecuteMs < 0 then .null else .double entry.sqlExecuteMs)
  | .rowsOut => .ok (if entry.rowsOut < 0 then .null else .integer entry.rowsOut)
  | .bytesIn => .ok (.integer entry.bytesIn)
  | .bytesOut => .ok (.integer entry.bytesOut)
  | .clientIp => textValue entry.clientIp
  | .userAgent => textValue entry.userAgent
  | .httpVersion => optionalText entry.httpVersion
  | .errorType => optionalText entry.errorType
  | .errorMessage => optionalText entry.errorMessage
  | .traceId => optionalText entry.traceId
  | .spanId => optionalText entry.spanId
  | .parentSpanId => optionalText entry.parentSpanId
  | .sampled => .ok (.boolean entry.sampled)
  | .headers => requestHeadersValue entry
  | .query => requestQueryValue entry

structure TableColumn where
  name : Str
  generated : Bool
deriving DecidableEq

/-- The database and the table as the writer finds them, if they are there. -/
structure LogTable where
  running : Bool
  columns : Option (List TableColumn)

abbrev LogRow := List (TableColumn × LogValue)

/-- The engine's appender: `Append` casts a value to the type of its column, `Flush` checks the rows
against the table. Either may throw. -/
structure Appender where
  append : TableColumn → LogValue → Except Str Unit
  flush : List LogRow → Except Str Unit

def selectedColumns (columns : List TableColumn) : List (TableColumn × AccessLogColumn) :=
  accessLogColumns.filterMap fun known =>
    (columns.find? fun column => !column.generated && ciEquals column.name known.2).map
      fun column => (column, known.1)

def appendValue (appender : Appender) (entry : RequestRecord)
    (column : TableColumn × AccessLogColumn) : Except Str (TableColumn × LogValue) := do
  let value ← accessLogValue entry column.2
  appender.append column.1 value
  return (column.1, value)

def accessLogRow (appender : Appender) (selected : List (TableColumn × AccessLogColumn))
    (entry : RequestRecord) : Except Str LogRow :=
  selected.mapM (appendValue appender entry)

/-- The rows a batch adds to the table; a batch that fails adds none. -/
def flushBatch (appender : Appender) (table : LogTable) (batch : List RequestRecord) :
    Except Str (List LogRow) :=
  if !table.running then .error "database is shutting down".toList
  else
    match table.columns with
    | none => .error "access_log table does not exist".toList
    | some columns =>
      if (selectedColumns columns).isEmpty then
        .error "access_log table has no recognized request columns".toList
      else do
        let rows ← batch.mapM (accessLogRow appender (selectedColumns columns))
        appender.flush rows
        return rows

inductive ColumnType
  | varchar | timestamp | integer | double | boolean | map
deriving DecidableEq

/-- The type a column has in the documented `CREATE TABLE`. -/
def documentedType : AccessLogColumn → ColumnType
  | .receivedAt => .timestamp
  | .durationMs | .sqlPrepareMs | .sqlExecuteMs => .double
  | .status | .rowsOut | .bytesIn | .bytesOut => .integer
  | .sampled => .boolean
  | .headers => .map
  | _ => .varchar

def LogValue.hasType : LogValue → ColumnType → Bool
  | .null, _ => true
  | .text _, type => decide (type = .varchar)
  | .timestamp _, type => decide (type = .timestamp)
  | .integer _, type => decide (type = .integer)
  | .double _, type => decide (type = .double)
  | .boolean _, type => decide (type = .boolean)
  | .map _, type => decide (type = .map)

/-- The table is one like the documented table: a recognized column takes the values of its type, and
no constraint keeps a row out. -/
structure Documented (appender : Appender) (table : LogTable) : Prop where
  takes : ∀ columns, table.columns = some columns → ∀ column ∈ selectedColumns columns,
    ∀ value : LogValue, value.hasType (documentedType column.2) = true →
      Succeeds (appender.append column.1 value)
  unconstrained : ∀ rows, Succeeds (appender.flush rows)

def textFields (entry : RequestRecord) : List Str :=
  [entry.requestId, entry.method, entry.path, entry.routeName, entry.routePath, entry.clientIp,
    entry.userAgent, entry.httpVersion, entry.errorType, entry.errorMessage, entry.traceId,
    entry.spanId, entry.parentSpanId, entry.query] ++ entry.headers.flatMap fun h => [h.1, h.2]

def TextOk (entry : RequestRecord) : Prop := ∀ s ∈ textFields entry, isUtf8 s = true

/-- A batch that is written without the record is written with it. -/
def NeverPoisons (appender : Appender) (entry : RequestRecord) : Prop :=
  ∀ (table : LogTable) (before after : List RequestRecord), Documented appender table →
    Succeeds (flushBatch appender table (before ++ after)) →
      Succeeds (flushBatch appender table (before ++ entry :: after))

theorem succeeds_makeText {s : Str} : Succeeds (makeText s) ↔ isUtf8 s = true := by
  unfold makeText
  split
  · next h => exact iff_of_true ⟨_, rfl⟩ h
  · next h => exact iff_of_false not_succeeds_throw h

theorem makeText_val {s : Str} {t : Text} (h : makeText s = .ok t) : t.1 = s := by
  unfold makeText at h
  split at h
  · cases h
    rfl
  · cases h

theorem succeeds_textValue {s : Str} : Succeeds (textValue s) ↔ isUtf8 s = true :=
  succeeds_last succeeds_makeText

theorem succeeds_optionalText {s : Str} (h : isUtf8 s = true) : Succeeds (optionalText s) := by
  unfold optionalText
  split
  · exact ⟨_, rfl⟩
  · exact succeeds_textValue.mpr h

theorem succeeds_requestHeadersValue {entry : RequestRecord}
    (htext : ∀ h ∈ entry.headers, isUtf8 h.1 = true ∧ isUtf8 h.2 = true)
    (hkeys : (entry.headers.map Prod.fst).Nodup) : Succeeds (requestHeadersValue entry) := by
  unfold requestHeadersValue
  split
  · exact ⟨_, rfl⟩
  · have hpairs : Succeeds
        (entry.headers.mapM fun h => do return (← makeText h.1, ← makeText h.2)) := by
      refine succeeds_mapM.mpr fun h hmem => ?_
      obtain ⟨hname, hvalue⟩ := htext h hmem
      obtain ⟨name, hname⟩ := succeeds_makeText.mpr hname
      obtain ⟨value, hvalue⟩ := succeeds_makeText.mpr hvalue
      exact ⟨(name, value), by rw [hname, hvalue]; rfl⟩
    obtain ⟨entries, hentries⟩ := hpairs
    have hsame : entry.headers.map Prod.fst = entries.map fun entry => entry.1.1 := by
      refine map_eq_map_of_forall₂ (mapM_eq_ok.mp hentries) fun h pair hpair => ?_
      simp only [bind_eq_ok, pure_eq_ok] at hpair
      obtain ⟨name, hname, _, _, rfl⟩ := hpair
      exact (makeText_val hname).symm
    refine succeeds_bind.mpr ⟨entries, hentries, ?_⟩
    rw [mapValue, ← hsame, if_pos hkeys]
    exact ⟨_, rfl⟩

theorem mem_textFields_headers {entry : RequestRecord} {h : Str × Str} (hmem : h ∈ entry.headers) :
    h.1 ∈ textFields entry ∧ h.2 ∈ textFields entry := by
  have hpart : ∀ s ∈ [h.1, h.2], s ∈ textFields entry := fun s hs =>
    List.mem_append_right _ (List.mem_flatMap.mpr ⟨h, hmem, hs⟩)
  exact ⟨hpart h.1 (by simp), hpart h.2 (by simp)⟩

theorem succeeds_accessLogValue {entry : RequestRecord} (htext : TextOk entry)
    (hkeys : (entry.headers.map Prod.fst).Nodup) (column : AccessLogColumn) :
    Succeeds (accessLogValue entry column) := by
  have hvalue : ∀ s ∈ textFields entry, Succeeds (textValue s) ∧ Succeeds (optionalText s) :=
    fun s hs => ⟨succeeds_textValue.mpr (htext s hs), succeeds_optionalText (htext s hs)⟩
  cases column with
  | headers =>
    refine succeeds_requestHeadersValue (fun h hmem => ?_) hkeys
    obtain ⟨hname, hcontent⟩ := mem_textFields_headers hmem
    exact ⟨htext _ hname, htext _ hcontent⟩
  | query =>
    show Succeeds (requestQueryValue entry)
    unfold requestQueryValue
    split
    · exact (hvalue _ (by simp [textFields])).1
    · exact ⟨_, rfl⟩
  | requestId | method | path | clientIp | userAgent => exact (hvalue _ (by simp [textFields])).1
  | routeName | routePath | httpVersion | errorType | errorMessage | traceId | spanId
  | parentSpanId => exact (hvalue _ (by simp [textFields])).2
  | _ => exact ⟨_, rfl⟩

theorem textValue_hasType {s : Str} {value : LogValue} (h : textValue s = .ok value) :
    value.hasType .varchar = true := by
  simp only [textValue, bind_eq_ok, pure_eq_ok] at h
  obtain ⟨text, _, rfl⟩ := h
  rfl

theorem optionalText_hasType {s : Str} {value : LogValue} (h : optionalText s = .ok value) :
    value.hasType .varchar = true := by
  unfold optionalText at h
  split at h
  · cases h
    rfl
  · exact textValue_hasType h

theorem mapValue_hasType {entries : List (Text × Text)} {value : LogValue}
    (h : mapValue entries = .ok value) : value.hasType .map = true := by
  unfold mapValue at h
  split at h
  · cases h
    rfl
  · cases h

theorem accessLogValue_hasType {entry : RequestRecord} {column : AccessLogColumn} {value : LogValue}
    (h : accessLogValue entry column = .ok value) :
    value.hasType (documentedType column) = true := by
  cases column with
  | requestId | method | path | clientIp | userAgent => exact textValue_hasType h
  | routeName | routePath | httpVersion | errorType | errorMessage | traceId | spanId
  | parentSpanId => exact optionalText_hasType h
  | receivedAt | status | durationMs | bytesIn | bytesOut | sampled =>
    cases h
    rfl
  | sqlPrepareMs | sqlExecuteMs | rowsOut =>
    obtain rfl := Except.ok.inj h
    split <;> rfl
  | headers =>
    rw [accessLogValue, requestHeadersValue] at h
    split at h
    · cases h
      rfl
    · obtain ⟨entries, _, hmap⟩ := bind_eq_ok.mp h
      exact mapValue_hasType hmap
  | query =>
    rw [accessLogValue, requestQueryValue] at h
    split at h
    · exact textValue_hasType h
    · cases h
      rfl

theorem Documented.succeeds_appendValue {appender : Appender} {table : LogTable}
    (h : Documented appender table) {columns : List TableColumn}
    (hcolumns : table.columns = some columns) {column : TableColumn × AccessLogColumn}
    (hcolumn : column ∈ selectedColumns columns) (entry : RequestRecord) :
    Succeeds (appendValue appender entry column) ↔ Succeeds (accessLogValue entry column.2) := by
  constructor
  · intro hvalue
    obtain ⟨value, hvalue, -⟩ := succeeds_bind.mp hvalue
    exact ⟨value, hvalue⟩
  · rintro ⟨value, hvalue⟩
    obtain ⟨done, hdone⟩ := h.takes columns hcolumns column hcolumn value
      (accessLogValue_hasType hvalue)
    exact ⟨(column.1, value), bind_eq_ok.mpr ⟨value, hvalue, bind_eq_ok.mpr ⟨done, hdone, rfl⟩⟩⟩

theorem succeeds_flushBatch {appender : Appender} {table : LogTable}
    (h : Documented appender table) {batch : List RequestRecord} :
    Succeeds (flushBatch appender table batch) ↔
      table.running = true ∧ ∃ columns, table.columns = some columns ∧ selectedColumns columns ≠ [] ∧
        ∀ entry ∈ batch, ∀ column ∈ selectedColumns columns,
          Succeeds (accessLogValue entry column.2) := by
  unfold flushBatch
  rcases hrunning : table.running with _ | _
  · simp [Succeeds]
  rcases hcolumns : table.columns with _ | columns
  · simp [Succeeds]
  by_cases hnone : selectedColumns columns = []
  · simp [hnone, Succeeds]
  have hflush : ∀ rows : List LogRow,
      Succeeds (do appender.flush rows; return rows : Except Str (List LogRow)) := by
    intro rows
    obtain ⟨done, hdone⟩ := h.unconstrained rows
    exact ⟨rows, bind_eq_ok.mpr ⟨done, hdone, rfl⟩⟩
  have hrow : ∀ entry, Succeeds (accessLogRow appender (selectedColumns columns) entry) ↔
      ∀ column ∈ selectedColumns columns, Succeeds (accessLogValue entry column.2) := fun entry =>
    succeeds_mapM.trans (forall₂_congr fun _ hcolumn => h.succeeds_appendValue hcolumns hcolumn entry)
  have hrows : Succeeds (do
        let rows ← batch.mapM (accessLogRow appender (selectedColumns columns))
        appender.flush rows
        return rows : Except Str (List LogRow)) ↔
      ∀ entry ∈ batch, ∀ column ∈ selectedColumns columns,
        Succeeds (accessLogValue entry column.2) := by
    rw [succeeds_bind]
    constructor
    · rintro ⟨rows, hmade, -⟩ entry hentry
      exact (hrow entry).mp (succeeds_mapM.mp ⟨rows, hmade⟩ entry hentry)
    · intro hall
      obtain ⟨rows, hmade⟩ := succeeds_mapM.mpr fun entry hentry => (hrow entry).mpr (hall entry hentry)
      exact ⟨rows, hmade, hflush rows⟩
  simpa [hnone] using hrows

theorem neverPoisons_of_textOk (appender : Appender) {entry : RequestRecord}
    (htext : TextOk entry) (hkeys : (entry.headers.map Prod.fst).Nodup) :
    NeverPoisons appender entry := by
  intro table before after hdocumented h
  rw [succeeds_flushBatch hdocumented] at h ⊢
  obtain ⟨hrunning, columns, hcolumns, hselected, hbatch⟩ := h
  refine ⟨hrunning, columns, hcolumns, hselected, fun other hmem column hcolumn => ?_⟩
  rcases List.mem_append.mp hmem with hbefore | hrest
  · exact hbatch other (List.mem_append_left _ hbefore) column hcolumn
  rcases List.mem_cons.mp hrest with rfl | hafter
  · exact succeeds_accessLogValue htext hkeys column.2
  · exact hbatch other (List.mem_append_right _ hafter) column hcolumn

theorem mem_foldl_redactedHeader {allowed : List Str} {headers result : List (Str × Str)}
    {name value : Str} :
    (name, value) ∈ headers.foldl (redactedHeader allowed) result ↔
      (name, value) ∈ result ∨ ((∀ h ∈ result, h.1 ≠ name) ∧ name ∈ allowed ∧
        ∃ h, headers.find? (lower ·.1 == name) = some h ∧
          value = if isDeniedHeaderName name then redacted else h.2) := by
  induction headers generalizing result with
  | nil => simp
  | cons header headers ih =>
    rw [List.foldl_cons, ih, List.find?_cons]
    by_cases htaken : allowed.contains (lower header.1) && !result.any (·.1 == lower header.1)
    · have hresult : redactedHeader allowed result header = result ++ [(lower header.1,
          if isDeniedHeaderName (lower header.1) then redacted else header.2)] := if_pos htaken
      simp only [Bool.and_eq_true, List.contains_iff_mem, Bool.not_eq_true', List.any_eq_false,
        beq_iff_eq] at htaken
      rw [hresult]
      by_cases hname : lower header.1 = name
      · subst hname
        have hlater : ¬ ∀ h ∈ result ++ [(lower header.1,
            if isDeniedHeaderName (lower header.1) then redacted else header.2)],
            h.1 ≠ lower header.1 := fun hall =>
          hall _ (List.mem_append_right result List.mem_cons_self) rfl
        have hnew : ∀ h ∈ result, h.1 ≠ lower header.1 := htaken.2
        rw [or_iff_left fun h => hlater h.1, List.mem_append, List.mem_singleton, Prod.mk.injEq,
          beq_self_eq_true]
        constructor
        · rintro (hmem | ⟨_, hvalue⟩)
          · exact .inl hmem
          · exact .inr ⟨hnew, htaken.1, header, rfl, hvalue⟩
        · rintro (hmem | ⟨_, _, h, hfound, hvalue⟩)
          · exact .inl hmem
          · cases hfound
            exact .inr ⟨rfl, hvalue⟩
      · have hne : (lower header.1 == name) = false := beq_eq_false_iff_ne.mpr hname
        simp [hne, hname, Ne.symm hname, or_imp, forall_and]
    · have hresult : redactedHeader allowed result header = result := if_neg htaken
      rw [hresult]
      by_cases hname : lower header.1 = name
      · subst hname
        -- the name is not allowed, or it is there already
        have hneither : ¬ ((∀ h ∈ result, h.1 ≠ lower header.1) ∧ lower header.1 ∈ allowed) := by
          rintro ⟨hnew, hallowed⟩
          apply htaken
          simpa [hallowed] using hnew
        simp only [← and_assoc, hneither, false_and]
      · have hne : (lower header.1 == name) = false := beq_eq_false_iff_ne.mpr hname
        rw [hne]

theorem mem_redactedHeaders {headers : List (Str × Str)} {allowlist name value : Str} :
    (name, value) ∈ redactedHeaders headers allowlist ↔
      name ∈ allowedHeaders allowlist ∧ ∃ h, headers.find? (lower ·.1 == name) = some h ∧
        value = if isDeniedHeaderName name then redacted else h.2 := by
  rw [redactedHeaders, mem_foldl_redactedHeader]
  simp

theorem nodup_redactedHeaders (headers : List (Str × Str)) (allowlist : Str) :
    ((redactedHeaders headers allowlist).map Prod.fst).Nodup := by
  have hstep : ∀ (result : List (Str × Str)) (header : Str × Str), (result.map Prod.fst).Nodup →
      ((redactedHeader (allowedHeaders allowlist) result header).map Prod.fst).Nodup := by
    intro result header h
    by_cases htaken :
        (allowedHeaders allowlist).contains (lower header.1) && !result.any (·.1 == lower header.1)
    · have hresult : redactedHeader (allowedHeaders allowlist) result header =
          result ++ [(lower header.1,
            if isDeniedHeaderName (lower header.1) then redacted else header.2)] := if_pos htaken
      simp only [Bool.and_eq_true, Bool.not_eq_true', List.any_eq_false, beq_iff_eq] at htaken
      rw [hresult, List.map_append, List.nodup_append]
      refine ⟨h, List.nodup_singleton _, ?_⟩
      intro name hmem other hother
      obtain ⟨taken, htakenMem, rfl⟩ := List.mem_map.mp hmem
      rw [List.mem_singleton.mp hother]
      exact htaken.2 taken htakenMem
    · have hresult : redactedHeader (allowedHeaders allowlist) result header = result :=
        if_neg htaken
      rwa [hresult]
  have hfold : ∀ (headers result : List (Str × Str)), (result.map Prod.fst).Nodup →
      ((headers.foldl (redactedHeader (allowedHeaders allowlist)) result).map Prod.fst).Nodup := by
    intro headers
    induction headers with
    | nil => exact fun _ h => h
    | cons header headers ih => exact fun result h => ih _ (hstep result header h)
  exact hfold headers [] List.nodup_nil

end Quackapi.Telemetry
