import Mathlib.Data.List.Infix
import Quackapi.Library.Traverse
import Quackapi.Telemetry.Record

/-! What a denied header or query pair contains leaves no trace in the record. Two requests are
compared that agree everywhere else; what is not denied is recorded as it was sent. -/

namespace Quackapi.Telemetry
open Library Http

def queryPairs (target : Str) : List Str :=
  match rawQuery target with
  | none => []
  | some query => query.splitOn '&'

/-- Headers that differ in the value of a denied name at most. -/
def SamePublicHeader (h₁ h₂ : Str × Str) : Prop :=
  h₁.1 = h₂.1 ∧ (h₁.2 = h₂.2 ∨ isDeniedHeaderName (lower h₁.1) = true)

/-- Pairs that differ in what follows a denied key at most. -/
def SamePublicPair (p₁ p₂ : Str) : Prop :=
  p₁ = p₂ ∨ (pairKey p₁ = pairKey p₂ ∧ isDeniedQueryKey (pairKey p₁) = true)

structure SamePublic (req₁ req₂ : LoggedRequest) : Prop where
  headers : List.Forall₂ SamePublicHeader req₁.headers req₂.headers
  pairs : List.Forall₂ SamePublicPair (queryPairs req₁.target) (queryPairs req₂.target)

theorem redactedHeader_eq {h₁ h₂ : Str × Str} (h : SamePublicHeader h₁ h₂) (allowed : List Str)
    (result : List (Str × Str)) :
    redactedHeader allowed result h₁ = redactedHeader allowed result h₂ := by
  obtain ⟨hname, hvalue⟩ := h
  have hrecorded : (if isDeniedHeaderName (lower h₂.1) then redacted else h₁.2) =
      if isDeniedHeaderName (lower h₂.1) then redacted else h₂.2 := by
    rw [hname] at hvalue
    rcases hvalue with hvalue | hdenied
    · rw [hvalue]
    · rw [if_pos hdenied, if_pos hdenied]
  simp only [redactedHeader, hname, hrecorded]

theorem redactedHeaders_eq {headers₁ headers₂ : List (Str × Str)}
    (h : List.Forall₂ SamePublicHeader headers₁ headers₂) (allowlist : Str) :
    redactedHeaders headers₁ allowlist = redactedHeaders headers₂ allowlist := by
  refine List.rel_foldl (P := (· = ·)) (R := SamePublicHeader) ?_ rfl h
  intro result _ hresult header₁ header₂ hheader
  rw [← hresult]
  exact redactedHeader_eq hheader _ result

theorem splitOn_takeWhile_dropWhile (s : Str) :
    s.splitOn '&' = s.takeWhile (· ≠ '&') ::
      match s.dropWhile (· ≠ '&') with
      | [] => []
      | _ :: more => more.splitOn '&' := by
  have hnot : '&' ∉ s.takeWhile (· ≠ '&') := fun hmem => by
    simpa using List.mem_takeWhile_imp hmem
  have hcut : s.takeWhile (· ≠ '&') ++ s.dropWhile (· ≠ '&') = s := List.takeWhile_append_dropWhile
  rcases h : s.dropWhile (· ≠ '&') with _ | ⟨c, more⟩
  · rw [h, List.append_nil] at hcut
    conv_lhs => rw [← hcut]
    exact List.splitOn_eq_singleton hnot
  · have hc : c = '&' := by
      have hhead := List.head?_dropWhile_not (· ≠ '&') s
      rw [h] at hhead
      simpa using hhead
    rw [h, hc] at hcut
    conv_lhs => rw [← hcut]
    exact List.splitOn_append_cons_self_of_not_mem hnot more

theorem redactPairs_eq (first : Bool) (query : Str) :
    redactPairs first query = (if first then [] else "&".toList) ++
      ['&'].intercalate ((query.splitOn '&').map redactPair) := by
  fun_induction redactPairs first query with
  | case1 first query ih =>
    rw [splitOn_takeWhile_dropWhile query, List.map_cons]
    generalize (if first = true then [] else "&".toList) = separator
    split
    · next h => rw [h, List.map_nil, List.intercalate_singleton, List.append_nil]
    · next c more h =>
      have hne : (more.splitOn '&').map redactPair ≠ [] := fun hnil =>
        List.splitOn_ne_nil _ _ (List.map_eq_nil_iff.mp hnil)
      rw [ih c more h, h, List.intercalate_cons_of_ne_nil hne, List.append_assoc, List.append_assoc _ ['&']]
      rfl

theorem redactRawQuery_eq (target : Str) :
    redactRawQuery target = ['&'].intercalate ((queryPairs target).map redactPair) := by
  unfold redactRawQuery queryPairs
  cases rawQuery target with
  | none => rfl
  | some query => exact redactPairs_eq true query

theorem pairKey_append_value (pair : Str) : pairKey pair ++ pair.dropWhile (· ≠ '=') = pair :=
  List.takeWhile_append_dropWhile

theorem redactPair_public {pair : Str} (h : isDeniedQueryKey (pairKey pair) = false) :
    redactPair pair = pair := by
  rw [redactPair, h]
  exact pairKey_append_value pair

theorem redactPair_eq {p₁ p₂ : Str} (h : SamePublicPair p₁ p₂) : redactPair p₁ = redactPair p₂ := by
  rcases h with rfl | ⟨hkey, hdenied⟩
  · rfl
  · have hdenied₂ : isDeniedQueryKey (pairKey p₂) = true := hkey ▸ hdenied
    rw [redactPair, redactPair, if_pos hdenied, if_pos hdenied₂, hkey]

theorem ampersand_not_mem_redactPair {pair : Str} (h : '&' ∉ pair) : '&' ∉ redactPair pair := by
  have hkey : '&' ∉ pairKey pair := fun hmem => h (List.takeWhile_subset _ hmem)
  unfold redactPair
  split
  · have hredacted : '&' ∉ '=' :: redacted := by decide
    rw [List.mem_append]
    rintro (hmem | hmem)
    · exact hkey hmem
    · exact hredacted hmem
  · rwa [pairKey_append_value]

theorem ampersand_not_mem_pair {query pair : Str} (h : pair ∈ query.splitOn '&') : '&' ∉ pair := by
  induction hn : query.length using Nat.strong_induction_on generalizing query with
  | _ n ih =>
    rw [splitOn_takeWhile_dropWhile] at h
    rcases List.mem_cons.mp h with rfl | hmem
    · intro hmem
      simpa using List.mem_takeWhile_imp hmem
    · have hsuffix := (List.dropWhile_suffix (· ≠ '&') (l := query)).length_le
      rcases hrest : query.dropWhile (· ≠ '&') with _ | ⟨c, more⟩
      · rw [hrest] at hmem
        cases hmem
      · rw [hrest, List.length_cons] at hsuffix
        rw [hrest] at hmem
        exact ih more.length (by omega) hmem rfl

theorem splitOn_redactRawQuery {target query : Str} (h : rawQuery target = some query) :
    (redactRawQuery target).splitOn '&' = (query.splitOn '&').map redactPair := by
  have hpairs : queryPairs target = query.splitOn '&' := by rw [queryPairs, h]
  rw [redactRawQuery_eq, hpairs]
  refine List.splitOn_intercalate '&' ?_ ?_
  · intro recorded hmem
    obtain ⟨pair, hpair, rfl⟩ := List.mem_map.mp hmem
    exact ampersand_not_mem_redactPair (ampersand_not_mem_pair hpair)
  · exact fun hnil => List.splitOn_ne_nil _ _ (List.map_eq_nil_iff.mp hnil)

theorem redactRawQuery_congr {target₁ target₂ : Str}
    (h : List.Forall₂ SamePublicPair (queryPairs target₁) (queryPairs target₂)) :
    redactRawQuery target₁ = redactRawQuery target₂ := by
  have hmap : (queryPairs target₁).map redactPair = (queryPairs target₂).map redactPair :=
    map_eq_map_of_forall₂ h fun _ _ hpair => redactPair_eq hpair
  rw [redactRawQuery_eq, redactRawQuery_eq, hmap]

/-- Requests that differ in denied values at most leave the same headers and the same query; a pair
that is not denied is recorded byte for byte in its place. -/
theorem redaction_noninterfering :
    (∀ req₁ req₂ : LoggedRequest, SamePublic req₁ req₂ →
      ∀ (res₁ res₂ : HttpResponse) (args₁ args₂ : RecordArgs) (options : LogOptions),
        (makeRequestRecord req₁ res₁ args₁ options).headers =
            (makeRequestRecord req₂ res₂ args₂ options).headers ∧
          (makeRequestRecord req₁ res₁ args₁ options).query =
            (makeRequestRecord req₂ res₂ args₂ options).query) ∧
      ∀ (req : LoggedRequest) (res : HttpResponse) (args : RecordArgs) (options : LogOptions)
        (query : Str), options.logQuery = true → rawQuery req.target = some query →
        List.Forall₂ (fun pair recorded => isDeniedQueryKey (pairKey pair) = false → recorded = pair)
          (query.splitOn '&') ((makeRequestRecord req res args options).query.splitOn '&') := by
  constructor
  · intro req₁ req₂ h res₁ res₂ args₁ args₂ options
    have hheaders : redactedHeaders req₁.headers options.logHeaders =
        redactedHeaders req₂.headers options.logHeaders := redactedHeaders_eq h.headers _
    have hquery : redactRawQuery req₁.target = redactRawQuery req₂.target :=
      redactRawQuery_congr h.pairs
    constructor
    · simp only [makeRequestRecord, hheaders]
    · simp only [makeRequestRecord, hquery]
  · intro req res args options query hlog hquery
    have hrecorded : (makeRequestRecord req res args options).query = redactRawQuery req.target :=
      if_pos hlog
    rw [hrecorded, splitOn_redactRawQuery hquery]
    apply List.forall₂_map_right_iff.mpr
    exact List.forall₂_same.mpr fun pair _ hpublic => redactPair_public hpublic

theorem contains_iff {s part : Str} : contains s part = true ↔ part <:+: s := by
  simp only [contains, List.any_eq_true, List.mem_tails, List.isPrefixOf_iff_prefix]
  constructor
  · rintro ⟨rest, hsuffix, hprefix⟩
    exact hprefix.isInfix.trans hsuffix.isInfix
  · rintro ⟨before, after, rfl⟩
    refine ⟨part ++ after, ?_, List.prefix_append part after⟩
    exact ⟨before, (List.append_assoc before part after).symm⟩

theorem isDeniedHeaderName_iff {name : Str} :
    isDeniedHeaderName name = true ↔
      name ∈ ["authorization".toList, "proxy-authorization".toList, "cookie".toList,
        "set-cookie".toList, "x-api-key".toList] ∨
      ∃ part ∈ ["token".toList, "secret".toList, "password".toList], part <:+: name := by
  simp only [isDeniedHeaderName, Bool.or_eq_true, decide_eq_true_eq, contains_iff, List.mem_cons,
    List.not_mem_nil, or_false, exists_eq_or_imp, exists_eq_left, or_assoc]

theorem isDeniedQueryKey_iff {rawKey : Str} :
    isDeniedQueryKey rawKey = true ↔
      ∃ part ∈ deniedQueryKeyParts, part <:+: lower (decodeQueryComponent rawKey) := by
  simp only [isDeniedQueryKey, List.any_eq_true, contains_iff]

def signedRequest (authorization signature : Str) : LoggedRequest where
  method := "GET".toList
  target := "/report?page=2&s%69g=".toList ++ signature
  path := "/report".toList
  version := "HTTP/1.1".toList
  remoteAddr := "10.0.0.1".toList
  headers := [("Authorization".toList, authorization), ("Accept".toList, "*/*".toList)]
  body := []

def reportArgs : RecordArgs where
  requestId := "r1".toList
  routeName := "report".toList
  routePath := "/report".toList
  durationMs := 1
  receivedAtMicros := 0
  sqlPrepareMs := 0
  sqlExecuteMs := 0
  rowsOut := 1
  traceId := []
  spanId := []
  parentSpanId := []
  sampled := false

theorem signedRequest_redacted :
    (makeRequestRecord (signedRequest "Bearer a".toList "x1".toList) ⟨200, [], []⟩ reportArgs
          ⟨"authorization,accept".toList, true⟩).headers =
        (makeRequestRecord (signedRequest "Basic b".toList "y2".toList) ⟨200, [], []⟩ reportArgs
          ⟨"authorization,accept".toList, true⟩).headers ∧
      (makeRequestRecord (signedRequest "Bearer a".toList "x1".toList) ⟨200, [], []⟩ reportArgs
          ⟨"authorization,accept".toList, true⟩).query =
        (makeRequestRecord (signedRequest "Basic b".toList "y2".toList) ⟨200, [], []⟩ reportArgs
          ⟨"authorization,accept".toList, true⟩).query ∧
      List.Forall₂ (fun pair recorded => isDeniedQueryKey (pairKey pair) = false → recorded = pair)
        ("page=2&s%69g=x1".toList.splitOn '&')
        ((makeRequestRecord (signedRequest "Bearer a".toList "x1".toList) ⟨200, [], []⟩ reportArgs
          ⟨"authorization,accept".toList, true⟩).query.splitOn '&') := by
  have hsig : isDeniedQueryKey (pairKey "s%69g=x1".toList) = true :=
    isDeniedQueryKey_iff.mpr ⟨"sig".toList, by decide, by decide⟩
  have hauthorization : isDeniedHeaderName (lower "Authorization".toList) = true :=
    isDeniedHeaderName_iff.mpr (.inl (by decide))
  have hsame : SamePublic (signedRequest "Bearer a".toList "x1".toList)
      (signedRequest "Basic b".toList "y2".toList) := by
    constructor
    · exact .cons ⟨rfl, .inr hauthorization⟩ (.cons ⟨rfl, .inl rfl⟩ .nil)
    · have hpairs : queryPairs (signedRequest "Bearer a".toList "x1".toList).target =
          ["page=2".toList, "s%69g=x1".toList] := by decide
      have hpairs₂ : queryPairs (signedRequest "Basic b".toList "y2".toList).target =
          ["page=2".toList, "s%69g=y2".toList] := by decide
      rw [hpairs, hpairs₂]
      exact .cons (.inl rfl) (.cons (.inr ⟨by decide, hsig⟩) .nil)
  obtain ⟨hheaders, hquery⟩ := redaction_noninterfering.1 _ _ hsame ⟨200, [], []⟩ ⟨200, [], []⟩
    reportArgs reportArgs ⟨"authorization,accept".toList, true⟩
  exact ⟨hheaders, hquery, redaction_noninterfering.2 _ _ _ _ _ rfl (by decide)⟩

end Quackapi.Telemetry
