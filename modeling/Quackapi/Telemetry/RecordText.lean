import Quackapi.Telemetry.Batch

/-! Which requests poison a batch: those whose own bytes, cut and percent-decoded as a record takes
them, are no UTF-8. -/

namespace Quackapi.Telemetry
open Library Http

/-- Every quote has a backslash before it; `previous` is what stands before the text. -/
def QuotesEscaped : Option Char → Str → Prop
  | _, [] => True
  | previous, c :: s => (c = '"' → previous = some '\\') ∧ QuotesEscaped (some c) s

/-- The text of an error body: the detail up to its closing quote, or a body of another form as it
is. -/
inductive ErrorTextOf : Str → Str → Prop
  | plain {body : Str} (h : ¬ detailPrefix <+: body) : ErrorTextOf body body
  | closed {text : Str} (rest : Str) (h : QuotesEscaped none text)
      (hend : text.getLast? ≠ some '\\') : ErrorTextOf (detailPrefix ++ (text ++ '"' :: rest)) text
  | unclosed {text : Str} (h : QuotesEscaped none text) : ErrorTextOf (detailPrefix ++ text) text

theorem getLast?_cons_or (c : Char) (text : Str) (previous : Option Char) :
    (c :: text).getLast?.or previous = text.getLast?.or (some c) := by
  rw [List.getLast?_cons]
  cases text.getLast? <;> rfl

theorem detailText_unclosed {previous : Option Char} {text : Str} (h : QuotesEscaped previous text) :
    detailText previous text = text := by
  induction text generalizing previous with
  | nil => rfl
  | cons c text ih =>
    have hgo : ¬ (c = '"' ∧ previous ≠ some '\\') := fun hstop => hstop.2 (h.1 hstop.1)
    rw [detailText, if_neg hgo, ih h.2]

theorem detailText_closed {previous : Option Char} {text : Str} (rest : Str)
    (h : QuotesEscaped previous text) (hend : text.getLast?.or previous ≠ some '\\') :
    detailText previous (text ++ '"' :: rest) = text := by
  induction text generalizing previous with
  | nil => exact if_pos ⟨rfl, hend⟩
  | cons c text ih =>
    have hgo : ¬ (c = '"' ∧ previous ≠ some '\\') := fun hstop => hstop.2 (h.1 hstop.1)
    rw [getLast?_cons_or] at hend
    rw [List.cons_append, detailText, if_neg hgo, ih h.2 hend]

theorem ErrorTextOf.errorText_eq {body text : Str} (h : ErrorTextOf body text) :
    errorText body = text := by
  have hdetail : ∀ s, errorText (detailPrefix ++ s) = detailText none s := by
    intro s
    have hprefix : detailPrefix.isPrefixOf (detailPrefix ++ s) = true :=
      List.isPrefixOf_iff_prefix.mpr (List.prefix_append _ s)
    rw [errorText, if_pos hprefix, List.drop_left]
  cases h with
  | plain h => exact if_neg fun hprefix => h (List.isPrefixOf_iff_prefix.mp hprefix)
  | closed rest h hend =>
    rw [hdetail]
    exact detailText_closed rest h (by rwa [Option.or_none])
  | unclosed h =>
    rw [hdetail]
    exact detailText_unclosed h

theorem detailText_split (previous : Option Char) (s : Str) :
    QuotesEscaped previous (detailText previous s) ∧
      (s = detailText previous s ∨ ∃ rest, s = detailText previous s ++ '"' :: rest ∧
        (detailText previous s).getLast?.or previous ≠ some '\\') := by
  induction s generalizing previous with
  | nil => exact ⟨trivial, .inl rfl⟩
  | cons c s ih =>
    by_cases hstop : c = '"' ∧ previous ≠ some '\\'
    · rw [detailText, if_pos hstop]
      exact ⟨trivial, .inr ⟨s, by rw [hstop.1]; rfl, hstop.2⟩⟩
    · obtain ⟨hescaped, hend⟩ := ih (some c)
      have hquote : c = '"' → previous = some '\\' := fun hc => not_not.mp fun hne => hstop ⟨hc, hne⟩
      rw [detailText, if_neg hstop]
      refine ⟨⟨hquote, hescaped⟩, hend.imp (congrArg (c :: ·)) ?_⟩
      rintro ⟨rest, hs, hlast⟩
      exact ⟨rest, congrArg (c :: ·) hs, by rwa [getLast?_cons_or]⟩

theorem errorTextOf_errorText (body : Str) : ErrorTextOf body (errorText body) := by
  by_cases hprefix : detailPrefix <+: body
  · obtain ⟨s, rfl⟩ := hprefix
    have htext : errorText (detailPrefix ++ s) = detailText none s := by
      rw [errorText, if_pos (List.isPrefixOf_iff_prefix.mpr (List.prefix_append _ s)), List.drop_left]
    rw [htext]
    obtain ⟨hescaped, hs | ⟨rest, hs, hlast⟩⟩ := detailText_split none s
    · nth_rewrite 1 [hs]
      exact .unclosed hescaped
    · nth_rewrite 1 [hs]
      exact .closed rest hescaped (by rwa [Option.or_none] at hlast)
  · rw [errorText, if_neg fun h => hprefix (List.isPrefixOf_iff_prefix.mp h)]
    exact .plain hprefix

theorem isUtf8_intercalate_ampersand (texts : List Str) :
    isUtf8 (['&'].intercalate texts) = true ↔ ∀ s ∈ texts, isUtf8 s = true := by
  induction texts with
  | nil => exact iff_of_true rfl fun s hs => by cases hs
  | cons s texts ih =>
    by_cases hnil : texts = []
    · rw [hnil, List.intercalate_singleton, List.forall_mem_singleton]
    · rw [List.intercalate_cons_of_ne_nil hnil, List.append_assoc, List.forall_mem_cons, ← ih]
      exact isUtf8_append_ascii (by decide) s _

theorem isUtf8_redactPair {pair : Str} :
    isUtf8 (redactPair pair) = true ↔
      isUtf8 (if isDeniedQueryKey (pairKey pair) then pairKey pair else pair) = true := by
  by_cases hdenied : isDeniedQueryKey (pairKey pair) = true
  · have hredacted : isUtf8 redacted = true := isUtf8_of_all_ascii rfl
    rw [redactPair, if_pos hdenied, if_pos hdenied, isUtf8_append_ascii (by decide)]
    exact and_iff_left hredacted
  · rw [if_neg hdenied, redactPair_public (eq_false_of_ne_true hdenied)]

theorem isUtf8_errorTypeForStatus (status : Int) : isUtf8 (errorTypeForStatus status) = true := by
  unfold errorTypeForStatus
  split_ifs <;> exact isUtf8_of_all_ascii rfl

theorem isUtf8_sanitizeClientRequestId (s : Str) : isUtf8 (sanitizeClientRequestId s) = true := by
  refine isUtf8_ascii fun c hc => ?_
  have hvisible := (List.mem_filter.mp (List.mem_of_mem_take hc)).2
  simp only [Bool.and_eq_true, decide_eq_true_eq] at hvisible
  omega

/-- The arguments as every caller of `MakeRequestRecord` has them: the id is the client's, sanitized, or
one the server minted, the ids of the trace are hexadecimal, and the texts of the route are those of
an SQL statement. -/
structure FromServer (req : LoggedRequest) (args : RecordArgs) : Prop where
  requestId : args.requestId = sanitizeClientRequestId (headerValue "X-Request-ID".toList req.headers) ∨
    ∀ c ∈ args.requestId, c.toNat < 0x80
  trace : ∀ s ∈ [args.traceId, args.spanId, args.parentSpanId], ∀ c ∈ s, c.toNat < 0x80
  route : isUtf8 args.routeName = true ∧ isUtf8 args.routePath = true

theorem FromServer.isUtf8_requestId {req : LoggedRequest} {args : RecordArgs}
    (h : FromServer req args) : isUtf8 args.requestId = true := by
  rcases h.requestId with hclient | hminted
  · rw [hclient]
    exact isUtf8_sanitizeClientRequestId _
  · exact isUtf8_ascii hminted

/-- The bytes a record takes of a request and its response are text. -/
structure RequestText (req : LoggedRequest) (res : HttpResponse) (options : LogOptions) : Prop where
  /-- What the library reads of the request line, percent-decoded, and of the connection. -/
  line : isUtf8 req.method = true ∧ isUtf8 req.path = true ∧ isUtf8 req.version = true ∧
    isUtf8 req.remoteAddr = true
  agent : ∀ h, req.headers.find? (fun h => ciEquals h.1 "User-Agent".toList) = some h →
    TextUpTo 256 h.2
  error : 500 ≤ res.status → ∀ text, ErrorTextOf res.body text → TextUpTo 512 text
  headers : ∀ name ∈ allowedHeaders options.logHeaders, ∀ h,
    req.headers.find? (lower ·.1 == name) = some h →
      isUtf8 name = true ∧ (isDeniedHeaderName name = false → isUtf8 h.2 = true)
  query : options.logQuery = true → ∀ pair ∈ queryPairs req.target,
    isUtf8 (if isDeniedQueryKey (pairKey pair) then pairKey pair else pair) = true

section
variable {req : LoggedRequest} {res : HttpResponse} {args : RecordArgs} {options : LogOptions}

theorem allowedHeaders_nil : allowedHeaders [] = [] := by decide

theorem makeRequestRecord_headers :
    (makeRequestRecord req res args options).headers =
      redactedHeaders req.headers options.logHeaders := by
  by_cases hnone : options.logHeaders = []
  · have hallowed : allowedHeaders options.logHeaders = [] := hnone ▸ allowedHeaders_nil
    have hnothing : redactedHeaders req.headers options.logHeaders = [] := by
      refine List.eq_nil_iff_forall_not_mem.mpr fun h hmem => ?_
      have hname := (mem_redactedHeaders.mp hmem).1
      rw [hallowed] at hname
      cases hname
    rw [hnothing]
    exact if_pos (List.isEmpty_iff.mpr hnone)
  · exact if_neg fun h => hnone (List.isEmpty_iff.mp h)

theorem textOk_headers :
    (∀ h ∈ (makeRequestRecord req res args options).headers,
        isUtf8 h.1 = true ∧ isUtf8 h.2 = true) ↔
      ∀ name ∈ allowedHeaders options.logHeaders, ∀ h,
        req.headers.find? (lower ·.1 == name) = some h →
          isUtf8 name = true ∧ (isDeniedHeaderName name = false → isUtf8 h.2 = true) := by
  have hredacted : isUtf8 redacted = true := isUtf8_of_all_ascii rfl
  rw [makeRequestRecord_headers, Prod.forall]
  constructor
  · intro hall name hname h hfound
    obtain ⟨hkey, hvalue⟩ := hall _ _ (mem_redactedHeaders.mpr ⟨hname, h, hfound, rfl⟩)
    refine ⟨hkey, fun hpublic => ?_⟩
    rwa [hpublic] at hvalue
  · intro hall name value hmem
    obtain ⟨hname, h, hfound, rfl⟩ := mem_redactedHeaders.mp hmem
    obtain ⟨hkey, hvalue⟩ := hall name hname h hfound
    refine ⟨hkey, ?_⟩
    rcases hdenied : isDeniedHeaderName name with _ | _
    · exact hvalue hdenied
    · exact hredacted

theorem isUtf8_redactRawQuery {target : Str} :
    isUtf8 (redactRawQuery target) = true ↔ ∀ pair ∈ queryPairs target,
      isUtf8 (if isDeniedQueryKey (pairKey pair) then pairKey pair else pair) = true := by
  rw [redactRawQuery_eq, isUtf8_intercalate_ampersand, List.forall_mem_map]
  exact forall₂_congr fun pair _ => isUtf8_redactPair

theorem textOk_agent :
    isUtf8 (makeRequestRecord req res args options).userAgent = true ↔
      ∀ h, req.headers.find? (fun h => ciEquals h.1 "User-Agent".toList) = some h →
        TextUpTo 256 h.2 := by
  show isUtf8 ((headerValue "User-Agent".toList req.headers).take 256) = true ↔ _
  rw [headerValue]
  generalize req.headers.find? (fun h => ciEquals h.1 "User-Agent".toList) = found
  rcases found with _ | h
  · exact iff_of_true rfl fun h hnone => by cases hnone
  · rw [← textUpTo_iff]
    exact ⟨fun htext other hother => Option.some.inj hother ▸ htext, fun hall => hall h rfl⟩

theorem textOk_error :
    isUtf8 (makeRequestRecord req res args options).errorMessage = true ↔
      (500 ≤ res.status → ∀ text, ErrorTextOf res.body text → TextUpTo 512 text) := by
  show isUtf8 (if 500 ≤ res.status then errorMessageFromResponse res.body else []) = true ↔ _
  split
  · case isTrue h =>
    constructor
    · rintro hutf - text htext
      rw [textUpTo_iff, ← htext.errorText_eq]
      exact hutf
    · exact fun hutf => textUpTo_iff.mp (hutf h _ (errorTextOf_errorText res.body))
  · case isFalse h => exact iff_of_true rfl fun hstatus => absurd hstatus h

theorem textOk_query :
    isUtf8 (makeRequestRecord req res args options).query = true ↔
      (options.logQuery = true → ∀ pair ∈ queryPairs req.target,
        isUtf8 (if isDeniedQueryKey (pairKey pair) then pairKey pair else pair) = true) := by
  show isUtf8 (if options.logQuery then redactRawQuery req.target else []) = true ↔ _
  split
  · case isTrue h => exact isUtf8_redactRawQuery.trans ⟨fun hall _ => hall, fun hall => hall h⟩
  · case isFalse h => exact iff_of_true rfl fun hlog => absurd hlog h

theorem textOk_iff_requestText (hargs : FromServer req args) :
    TextOk (makeRequestRecord req res args options) ↔ RequestText req res options := by
  have herrorType : isUtf8 (makeRequestRecord req res args options).errorType = true := by
    show isUtf8 (if 400 ≤ res.status then errorTypeForStatus res.status else []) = true
    split
    · exact isUtf8_errorTypeForStatus res.status
    · rfl
  have hid : isUtf8 (makeRequestRecord req res args options).requestId = true :=
    hargs.isUtf8_requestId
  have hroute : isUtf8 (makeRequestRecord req res args options).routeName = true := hargs.route.1
  have hroutePath : isUtf8 (makeRequestRecord req res args options).routePath = true :=
    hargs.route.2
  have htrace : ∀ s ∈ [args.traceId, args.spanId, args.parentSpanId], isUtf8 s = true :=
    fun s hs => isUtf8_ascii (hargs.trace s hs)
  simp only [List.forall_mem_cons] at htrace
  have htraceId : isUtf8 (makeRequestRecord req res args options).traceId = true := htrace.1
  have hspan : isUtf8 (makeRequestRecord req res args options).spanId = true := htrace.2.1
  have hparent : isUtf8 (makeRequestRecord req res args options).parentSpanId = true := htrace.2.2.1
  have hheaders : (∀ s ∈ (makeRequestRecord req res args options).headers.flatMap
        fun h => [h.1, h.2], isUtf8 s = true) ↔
      ∀ h ∈ (makeRequestRecord req res args options).headers,
        isUtf8 h.1 = true ∧ isUtf8 h.2 = true := by
    rw [List.forall_mem_flatMap]
    refine forall₂_congr fun h _ => ?_
    rw [List.forall_mem_cons, List.forall_mem_singleton]
  rw [TextOk, textFields, List.forall_mem_append, hheaders, textOk_headers]
  simp only [List.forall_mem_cons, herrorType, hid, hroute, hroutePath, htraceId, hspan, hparent,
    textOk_agent, textOk_error, textOk_query]
  constructor
  · rintro ⟨⟨_, hmethod, hpath, _, _, hip, hagent, hversion, _, hmessage, _, _, _, hpairs, _⟩,
      hrecorded⟩
    exact ⟨⟨hmethod, hpath, hversion, hip⟩, hagent, hmessage, hrecorded, hpairs⟩
  · rintro ⟨⟨hmethod, hpath, hversion, hip⟩, hagent, hmessage, hrecorded, hpairs⟩
    exact ⟨⟨trivial, hmethod, hpath, trivial, trivial, hip, hagent, hversion, trivial, hmessage,
      trivial, trivial, trivial, hpairs, fun s hs => by cases hs⟩, hrecorded⟩

theorem nodup_recordedHeaders :
    ((makeRequestRecord req res args options).headers.map Prod.fst).Nodup := by
  rw [makeRequestRecord_headers]
  exact nodup_redactedHeaders _ _

end

/-- A request leaves a record of texts, which fails no batch of a table like the documented one, exactly
when the bytes the record takes are text. -/
theorem record_never_poisons_iff (appender : Appender) (req : LoggedRequest) (res : HttpResponse)
    (args : RecordArgs) (options : LogOptions) (hargs : FromServer req args) :
    (TextOk (makeRequestRecord req res args options) ∧
        NeverPoisons appender (makeRequestRecord req res args options)) ↔
      RequestText req res options := by
  constructor
  · exact fun h => (textOk_iff_requestText hargs).mp h.1
  · intro h
    have htext := (textOk_iff_requestText hargs).mpr h
    exact ⟨htext, neverPoisons_of_textOk appender htext nodup_recordedHeaders⟩

/-- The appender over a table of `VARCHAR` columns without constraints: every value casts to text. -/
def varcharAppender : Appender := ⟨fun _ _ => .ok (), fun _ => .ok ()⟩

def pathTable : LogTable := ⟨true, some [⟨"path".toList, false⟩]⟩

theorem documented_pathTable : Documented varcharAppender pathTable where
  takes _ _ _ _ _ _ := ⟨(), rfl⟩
  unconstrained _ := ⟨(), rfl⟩

/-- A `User-Agent` that ends in a character of two bytes. -/
def agentRequest (n : Nat) : LoggedRequest where
  method := "GET".toList
  target := "/".toList
  path := "/".toList
  version := "HTTP/1.1".toList
  remoteAddr := "10.0.0.1".toList
  headers := [("User-Agent".toList, List.replicate n 'a' ++ [Char.ofNat 0xC3, Char.ofNat 0xA9])]
  body := []

theorem isUtf8_agent (n : Nat) :
    isUtf8 (List.replicate n 'a' ++ [Char.ofNat 0xC3, Char.ofNat 0xA9]) = true := by
  induction n with
  | zero => decide
  | succ n ih =>
    rw [List.replicate_succ, List.cons_append, isUtf8, codePoints_ascii (by decide),
      Option.isSome_map]
    exact ih

theorem fromServer_reportArgs (req : LoggedRequest) : FromServer req reportArgs where
  requestId := .inr (forall_ascii rfl)
  trace := by simp [reportArgs]
  route := ⟨isUtf8_of_all_ascii rfl, isUtf8_of_all_ascii rfl⟩

theorem textUpTo_agent (n : Nat) :
    TextUpTo 256 (List.replicate n 'a' ++ [Char.ofNat 0xC3, Char.ofNat 0xA9]) ↔ n ≠ 255 := by
  rw [textUpTo_of_isUtf8 (isUtf8_agent n)]
  constructor
  · rintro hcut rfl
    have hlast : isContinuation (Char.ofNat 0xA9) = false := by
      refine hcut _ ?_
      rw [List.getElem?_append_right (by rw [List.length_replicate]; decide), List.length_replicate]
      rfl
    exact absurd hlast (by decide)
  · intro hn c hc
    rcases lt_or_ge 256 n with hlong | hshort
    · rw [List.getElem?_append_left (by rwa [List.length_replicate]),
        List.getElem?_replicate_of_lt hlong] at hc
      obtain rfl := Option.some.inj hc
      decide
    · rw [List.getElem?_append_right (by rwa [List.length_replicate]), List.length_replicate] at hc
      -- only the first byte of the character may be the one after the cut
      obtain hafter | hpast : 256 - n = 0 ∨ 2 ≤ 256 - n := by omega
      · rw [hafter] at hc
        obtain rfl := Option.some.inj hc
        decide
      · rw [List.getElem?_eq_none (by exact hpast)] at hc
        cases hc

theorem requestText_agent (n : Nat) :
    RequestText (agentRequest n) ⟨200, [], []⟩ ⟨[], false⟩ ↔ n ≠ 255 := by
  rw [← textUpTo_agent]
  constructor
  · exact fun h => h.agent _ rfl
  · intro h
    refine ⟨⟨isUtf8_of_all_ascii rfl, isUtf8_of_all_ascii rfl, isUtf8_of_all_ascii rfl,
      isUtf8_of_all_ascii rfl⟩, fun header hfound => ?_, fun hstatus => absurd hstatus (by decide),
      fun name hname => ?_, fun hlog => by cases hlog⟩
    · obtain rfl := List.mem_singleton.mp (List.mem_of_find?_eq_some hfound)
      exact h
    · rw [allowedHeaders_nil] at hname
      cases hname

/-- The cut at 256 bytes is behind the character, or goes through it. -/
theorem record_never_poisons_agents :
    Succeeds (flushBatch varcharAppender pathTable
        [makeRequestRecord (agentRequest 254) ⟨200, [], []⟩ reportArgs ⟨[], false⟩]) ∧
      ¬ (TextOk (makeRequestRecord (agentRequest 255) ⟨200, [], []⟩ reportArgs ⟨[], false⟩) ∧
        NeverPoisons varcharAppender
          (makeRequestRecord (agentRequest 255) ⟨200, [], []⟩ reportArgs ⟨[], false⟩)) := by
  have hexact := fun n => record_never_poisons_iff varcharAppender (agentRequest n) ⟨200, [], []⟩
    reportArgs ⟨[], false⟩ (fromServer_reportArgs (agentRequest n))
  constructor
  · have hnever := ((hexact 254).mpr ((requestText_agent 254).mpr (by decide))).2
    exact hnever pathTable [] [] documented_pathTable ⟨[], rfl⟩
  · exact fun h => (requestText_agent 255).mp ((hexact 255).mp h) rfl

/-- `GET /%FF`. -/
def brokenPathRequest : LoggedRequest where
  method := "GET".toList
  target := "/%FF".toList
  path := pathOfTarget "/%FF".toList
  version := "HTTP/1.1".toList
  remoteAddr := "10.0.0.1".toList
  headers := []
  body := []

def notFound : HttpResponse := ⟨404, "\x7b\"detail\":\"Not Found\"\x7d".toList, []⟩

/-- One such request, and the batch it is in is not written. -/
theorem brokenPath_poisons :
    ¬ (TextOk (makeRequestRecord brokenPathRequest notFound reportArgs ⟨[], false⟩) ∧
        NeverPoisons varcharAppender
          (makeRequestRecord brokenPathRequest notFound reportArgs ⟨[], false⟩)) ∧
      Succeeds (flushBatch varcharAppender pathTable []) ∧
      ¬ Succeeds (flushBatch varcharAppender pathTable
        [makeRequestRecord brokenPathRequest notFound reportArgs ⟨[], false⟩]) := by
  have hpath : isUtf8 (pathOfTarget "/%FF".toList) = false := by decide
  have hbroken : ¬ Succeeds (flushBatch varcharAppender pathTable
      [makeRequestRecord brokenPathRequest notFound reportArgs ⟨[], false⟩]) := by
    rw [succeeds_flushBatch documented_pathTable]
    rintro ⟨_, columns, hcolumns, _, hbatch⟩
    cases hcolumns
    have hselected : ((⟨"path".toList, false⟩ : TableColumn), AccessLogColumn.path) ∈
        selectedColumns [⟨"path".toList, false⟩] := by decide
    have htext := hbatch _ List.mem_cons_self _ hselected
    have hutf : isUtf8 (pathOfTarget "/%FF".toList) = true := succeeds_textValue.mp htext
    rw [hpath] at hutf
    cases hutf
  have hempty : Succeeds (flushBatch varcharAppender pathTable []) := ⟨[], rfl⟩
  exact ⟨fun h => hbroken (h.2 pathTable [] [] documented_pathTable hempty), hempty, hbroken⟩

end Quackapi.Telemetry
