import Quackapi.Http.BodyNegotiation

/-! The content coding of a response: what the client lists in `Accept-Encoding`, and what the server
is set to. -/

namespace Quackapi.Http
open Library Params

inductive CompressionMode
  | off | gzip | zstd | auto
deriving DecidableEq

inductive NegotiatedEncoding
  | identity | zstd | gzip
deriving DecidableEq

/-- The first parameter that is a weight counts, and a weight that is none refuses the coding. -/
def parseEncodingQ (token : Str) : ℚ :=
  match ((split ';' token).tail.map trim).find? fun p => "q=".toList.isPrefixOf (lower p) with
  | some p =>
    match strtod (trim (p.drop 2)) with
    | some q => if 0 ≤ q ∧ q ≤ 1 then q else 0
    | none => 0
  | none => 1

/-- The weights listed so far, `-1` for one that is not. -/
structure ListedCodings where
  zstdQ : ℚ
  gzipQ : ℚ
  identityQ : ℚ
  starQ : ℚ

def noCodings : ListedCodings := ⟨-1, -1, -1, -1⟩

def setCoding (s : ListedCodings) (coding : Str) (q : ℚ) : ListedCodings :=
  if coding = "zstd".toList then { s with zstdQ := q }
  else if coding = "gzip".toList ∨ coding = "x-gzip".toList then { s with gzipQ := q }
  else if coding = "identity".toList then { s with identityQ := q }
  else if coding = "*".toList then { s with starQ := q }
  else s

def noteCoding (s : ListedCodings) (tok : Str) : ListedCodings :=
  if tok.isEmpty then s
  else
    let name := trim (if ';' ∈ tok then tok.takeWhile (· ≠ ';') else tok)
    setCoding s (lower name) (parseEncodingQ tok)

def accepted (explicit star : ℚ) : ℚ := if 0 ≤ explicit then explicit else if 0 ≤ star then star else 0

def codingQualities (mode : CompressionMode) (s : ListedCodings) : ℚ × ℚ :=
  let zstdQuality := accepted s.zstdQ s.starQ
  let gzipQuality := accepted s.gzipQ s.starQ
  if mode = .gzip then (0, gzipQuality) else if mode = .zstd then (zstdQuality, 0)
  else (zstdQuality, gzipQuality)

def negotiateContentEncoding (acceptEncoding : Option Str) (mode : CompressionMode) : NegotiatedEncoding :=
  match acceptEncoding with
  | none => .identity
  | some header =>
    let s := (split ',' header).foldl (fun s tok => noteCoding s (trim tok)) noCodings
    let (zstdQuality, gzipQuality) := codingQualities mode s
    if header.isEmpty then .identity
    else if 0 < zstdQuality ∧ gzipQuality ≤ zstdQuality then .zstd
    else if 0 < gzipQuality then .gzip
    else .identity

def compressedTypes : List Str :=
  ["application/gzip".toList, "application/x-gzip".toList, "application/zip".toList,
    "application/x-zip-compressed".toList, "application/zstd".toList, "application/x-zstd".toList,
    "application/brotli".toList, "application/x-brotli".toList, "application/x-compress".toList,
    "application/x-xz".toList, "application/x-bzip".toList, "application/x-bzip2".toList,
    "application/x-lzip".toList, "application/x-lzma".toList, "application/x-lz4".toList,
    "application/x-snappy-framed".toList, "application/x-7z-compressed".toList,
    "application/x-rar-compressed".toList, "application/vnd.rar".toList, "application/wasm".toList,
    "font/woff".toList, "font/woff2".toList, "application/font-woff".toList, "application/font-woff2".toList]

def isAlreadyCompressedContentType (contentType : Str) : Bool :=
  let ct := trim ((lower contentType).takeWhile (· ≠ ';'))
  !contentType.isEmpty && ("image/".toList.isPrefixOf ct || "audio/".toList.isPrefixOf ct ||
    "video/".toList.isPrefixOf ct || decide (ct ∈ compressedTypes))

structure Compressors where
  zstd : Str → Option Str
  gzip : Str → Option Str

/-- The body in the coding, with the coding's name. -/
def Compressors.run (c : Compressors) (body : Str) : NegotiatedEncoding → Option (Str × Str)
  | .identity => none
  | .zstd => (c.zstd body).map fun compressed => (compressed, "zstd".toList)
  | .gzip => (c.gzip body).map fun compressed => (compressed, "gzip".toList)

/-- A response whose body is a candidate for compression. -/
def compressible (minBytes : Nat) (res : HttpResponse) : Bool :=
  !res.body.isEmpty && decide (minBytes ≤ res.body.length) && decide (res.status ≠ 204) &&
    decide (res.status ≠ 304) && (headerValues "Content-Encoding".toList res).isEmpty &&
    !isAlreadyCompressedContentType ((headerValues contentTypeName res).headD [])

def maybeCompressResponse (c : Compressors) (mode : CompressionMode) (minBytes : Nat)
    (acceptEncoding : Option Str) (res : HttpResponse) : HttpResponse :=
  if mode = .off then res
  else if !compressible minBytes res then res
  else
    let res := setHeader res "Vary".toList "Accept-Encoding".toList
    match c.run res.body (negotiateContentEncoding acceptEncoding mode) with
    | none => res
    | some (compressed, name) =>
      if res.body.length ≤ compressed.length then res
      else
        let res := setHeader { res with body := compressed } "Content-Encoding".toList name
        { res with headers := res.headers.filter fun h => !ciEquals h.1 "Content-Length".toList }

def codingNames : NegotiatedEncoding → List Str
  | .identity => ["identity".toList]
  | .zstd => ["zstd".toList]
  | .gzip => ["gzip".toList, "x-gzip".toList]

def anyCoding : List Str := ["*".toList]

/-- The weight of a coding the client lists. The last entry for it counts. -/
def codingQ (entries : List (Str × ℚ)) (names : List Str) : Option ℚ :=
  ((entries.filter fun e => decide (lower e.1 ∈ names)).map Prod.snd).getLast?

/-- A coding has its own weight, else that of `*`, else none. The identity needs no entry, and without
one it is refused by `*;q=0` only. -/
def effectiveQ (entries : List (Str × ℚ)) : NegotiatedEncoding → ℚ
  | .identity => (codingQ entries (codingNames .identity)).getD
      (if codingQ entries anyCoding = some 0 then 0 else 1)
  | c => ((codingQ entries (codingNames c)).or (codingQ entries anyCoding)).getD 0

def CompressionMode.Allows : CompressionMode → NegotiatedEncoding → Prop
  | _, .identity => True
  | .auto, _ => True
  | .gzip, c => c = .gzip
  | .zstd, c => c = .zstd
  | .off, _ => False

/-- The client lists the identity above both compressed codings. -/
def IdentityPreferred (entries : List (Str × ℚ)) : Prop :=
  ∃ q, codingQ entries (codingNames .identity) = some q ∧ effectiveQ entries .zstd < q ∧
    effectiveQ entries .gzip < q

/-- A compressed coding that the mode allows and the client accepts. -/
def Offered (mode : CompressionMode) (entries : List (Str × ℚ)) : Prop :=
  ∃ c, c ≠ .identity ∧ mode.Allows c ∧ 0 < effectiveQ entries c

structure CodingNegotiated (mode : CompressionMode) (entries : List (Str × ℚ))
    (chosen : NegotiatedEncoding) : Prop where
  notRefused : effectiveQ entries chosen ≠ 0
  allowed : mode.Allows chosen
  /-- `zstd` on ties. -/
  larger : (chosen = .zstd → mode.Allows .gzip → effectiveQ entries .gzip ≤ effectiveQ entries .zstd) ∧
    (chosen = .gzip → mode.Allows .zstd → effectiveQ entries .zstd < effectiveQ entries .gzip)
  compressed : Offered mode entries → ¬ IdentityPreferred entries → chosen ≠ .identity
  identity : IdentityPreferred entries → chosen = .identity

/-- No entry for the identity makes a difference to what is negotiated, and the server compresses. -/
structure IdentityIgnorable (mode : CompressionMode) (entries : List (Str × ℚ)) : Prop where
  notPreferred : Offered mode entries → ¬ IdentityPreferred entries
  notRefused : ¬ Offered mode entries → effectiveQ entries .identity ≠ 0
  unset : mode = .off → ¬ Offered .auto entries

theorem strips_trim : Strips isSpace isSpace where
  front := strips_quackapiTrim.front
  back := strips_quackapiTrim.front
  keepFront := strips_quackapiTrim.keepFront
  keepBack := strips_quackapiTrim.keepFront

section
variable {name text : Str} {w : ℚ}

theorem parseEncodingQ_weighted (hname : IsName name) (h : Weighted name text w) :
    parseEncodingQ text = w := by
  cases h with
  | bare =>
    have hparts : split ';' name = [name] :=
      split_of_getLast (splitOn_bare hname) fun h => hname.1 (Option.some.inj h)
    rw [parseEncodingQ, hparts]
    rfl
  | @weight b c v k _ hb hc hk hv =>
    have hparts : split ';' (name ++ (b ++ ';' :: (c ++ k :: '=' :: v))) = [name ++ b, c ++ k :: '=' :: v] :=
      split_of_getLast (splitOn_weight hname hb hc hk hv) (by simp)
    have htrim : trim (c ++ k :: '=' :: v) = k :: '=' :: v :=
      strips_trim.parameter hc (isNameChar_weightKey hk) hv
    have hfind : [k :: '=' :: v].find? (fun p => "q=".toList.isPrefixOf (lower p)) = some (k :: '=' :: v) :=
      List.find?_cons_of_pos (lower_weightKey hk v)
    have hvalue : trim ((k :: '=' :: v).drop 2) = v := by
      have hv' := strips_trim.name_padding hv.isName (b := []) fun _ hc => nomatch hc
      rwa [List.append_nil] at hv'
    rw [parseEncodingQ, hparts, List.tail_cons, List.map_cons, htrim, List.map_nil, hfind]
    simp only [hvalue, strtod_qvalue hv]
    exact if_pos ⟨hv.nonneg, hv.le_one⟩

theorem codingOf_weighted (hname : IsName name) (h : Weighted name text w) :
    trim (if ';' ∈ text then text.takeWhile (· ≠ ';') else text) = name := by
  have hnone : Padding [] := fun _ hc => nomatch hc
  have hself : trim name = name := by
    have hname' := strips_trim.name_padding hname hnone
    rwa [List.append_nil] at hname'
  cases h with
  | bare => rwa [if_neg (hname.not_mem not_isNameChar_semicolon)]
  | weight hb hc hk hv =>
    rw [if_pos (by simp), takeWhile_weight hname hb]
    exact strips_trim.name_padding hname hb

end

/-- What the loop does with one entry of the list. -/
def noteEntry (s : ListedCodings) (e : Str × ℚ) : ListedCodings := setCoding s (lower e.1) e.2

theorem noteCoding_weighted (s : ListedCodings) {name text : Str} {w : ℚ} (hname : IsName name)
    (h : Weighted name text w) : noteCoding s text = noteEntry s (name, w) := by
  have hne : text.isEmpty = false := by
    cases h with
    | bare => simpa using hname.1
    | weight hb hc hk hv => simp
  rw [noteCoding, hne]
  simp only [Bool.false_eq_true, if_false, parseEncodingQ_weighted hname h, codingOf_weighted hname h]
  rfl

theorem codingQ_concat (entries : List (Str × ℚ)) (e : Str × ℚ) (names : List Str) :
    codingQ (entries ++ [e]) names = if lower e.1 ∈ names then some e.2 else codingQ entries names := by
  rw [codingQ, List.filter_append, List.map_append]
  by_cases hmem : lower e.1 ∈ names
  · simp [hmem]
  · simp [hmem, codingQ]

theorem foldl_noteEntry (entries : List (Str × ℚ)) :
    entries.foldl noteEntry noCodings =
      ⟨(codingQ entries (codingNames .zstd)).getD (-1), (codingQ entries (codingNames .gzip)).getD (-1),
        (codingQ entries (codingNames .identity)).getD (-1), (codingQ entries anyCoding).getD (-1)⟩ := by
  induction entries using List.reverseRecOn with
  | nil => rfl
  | append_singleton entries e ih =>
    simp only [List.foldl_append, List.foldl_cons, List.foldl_nil, ih, codingQ_concat, noteEntry]
    generalize lower e.1 = coding
    by_cases hzstd : coding ∈ codingNames .zstd
    · rw [List.mem_singleton.mp hzstd]
      rfl
    by_cases hgzip : coding ∈ codingNames .gzip
    · rcases List.mem_pair.mp hgzip with rfl | rfl <;> rfl
    by_cases hidentity : coding ∈ codingNames .identity
    · rw [List.mem_singleton.mp hidentity]
      rfl
    by_cases hstar : coding ∈ anyCoding
    · rw [List.mem_singleton.mp hstar]
      rfl
    · rw [if_neg hzstd, if_neg hgzip, if_neg hidentity, if_neg hstar, setCoding,
        if_neg fun h => hzstd (List.mem_singleton.mpr h), if_neg fun h => hgzip (List.mem_pair.mpr h),
        if_neg fun h => hidentity (List.mem_singleton.mpr h), if_neg fun h => hstar (List.mem_singleton.mpr h)]

section
variable {entries : List (Str × ℚ)} (hnonneg : ∀ e ∈ entries, 0 ≤ e.2)

include hnonneg

theorem codingQ_nonneg {names : List Str} {q : ℚ} (h : codingQ entries names = some q) : 0 ≤ q := by
  have hmem := List.mem_of_getLast? h
  obtain ⟨e, he, rfl⟩ := List.mem_map.mp hmem
  exact hnonneg e (List.mem_filter.mp he).1

theorem accepted_eq (names : List Str) :
    accepted ((codingQ entries names).getD (-1)) ((codingQ entries anyCoding).getD (-1)) =
      ((codingQ entries names).or (codingQ entries anyCoding)).getD 0 := by
  have hneg : ¬ (0 : ℚ) ≤ -1 := by decide
  cases hown : codingQ entries names with
  | some q => exact if_pos (codingQ_nonneg hnonneg hown)
  | none =>
    cases hany : codingQ entries anyCoding with
    | some q => exact (if_neg hneg).trans (if_pos (codingQ_nonneg hnonneg hany))
    | none => exact (if_neg hneg).trans (if_neg hneg)

end

def higherCoding (z g : ℚ) : NegotiatedEncoding :=
  if 0 < z ∧ g ≤ z then .zstd else if 0 < g then .gzip else .identity

/-- The weight of a coding where the mode allows it. -/
def allowedQ (mode : CompressionMode) (entries : List (Str × ℚ)) : NegotiatedEncoding → ℚ
  | .zstd => if mode = .gzip then 0 else effectiveQ entries .zstd
  | .gzip => if mode = .zstd then 0 else effectiveQ entries .gzip
  | .identity => effectiveQ entries .identity

theorem negotiateContentEncoding_eq {header : Str} {entries : List (Str × ℚ)}
    (h : QualityList IsName header entries) (mode : CompressionMode) :
    negotiateContentEncoding (some header) mode =
      higherCoding (allowedQ mode entries .zstd) (allowedQ mode entries .gzip) := by
  have hnonneg : ∀ e ∈ entries, 0 ≤ e.2 := fun e he => (h.entry e he).2.1
  have hloop : (split ',' header).foldl (fun s tok => noteCoding s (trim tok)) noCodings =
      entries.foldl noteEntry noCodings := by
    rw [foldl_split (fun _ => rfl)]
    exact h.foldl (fun _ hname => hname) strips_trim (fun _ => rfl)
      (fun s _ _ _ hname hw => noteCoding_weighted s hname hw) noCodings
  have hqualities : codingQualities mode (entries.foldl noteEntry noCodings) =
      (allowedQ mode entries .zstd, allowedQ mode entries .gzip) := by
    rw [foldl_noteEntry, codingQualities, accepted_eq hnonneg, accepted_eq hnonneg]
    cases mode <;> rfl
  cases header with
  | nil =>
    -- An empty header has no entries, so that nothing is offered.
    have hempty : codingQualities mode noCodings = _ := (congrArg (codingQualities mode) hloop).trans hqualities
    obtain ⟨hz, hg⟩ := Prod.mk.inj (hempty.symm.trans (show _ = ((0 : ℚ), (0 : ℚ)) by cases mode <;> rfl))
    rw [hz, hg]
    rfl
  | cons c t =>
    rw [negotiateContentEncoding, hloop, hqualities]
    rfl

section
variable {mode : CompressionMode} {entries : List (Str × ℚ)}

theorem allowedQ_zstd (h : mode.Allows .zstd) : allowedQ mode entries .zstd = effectiveQ entries .zstd := by
  cases mode with
  | off => exact absurd h id
  | gzip => cases h
  | zstd => rfl
  | auto => rfl

theorem allowedQ_gzip (h : mode.Allows .gzip) : allowedQ mode entries .gzip = effectiveQ entries .gzip := by
  cases mode with
  | off => exact absurd h id
  | gzip => rfl
  | zstd => cases h
  | auto => rfl

theorem allows_zstd (hmode : mode ≠ .off) (h : 0 < allowedQ mode entries .zstd) : mode.Allows .zstd := by
  cases mode with
  | off => exact absurd rfl hmode
  | gzip => exact absurd h (lt_irrefl 0)
  | zstd => rfl
  | auto => trivial

theorem allows_gzip (hmode : mode ≠ .off) (h : 0 < allowedQ mode entries .gzip) : mode.Allows .gzip := by
  cases mode with
  | off => exact absurd rfl hmode
  | gzip => rfl
  | zstd => exact absurd h (lt_irrefl 0)
  | auto => trivial

theorem higherCoding_cases (z g : ℚ) :
    (higherCoding z g = .zstd ∧ 0 < z ∧ g ≤ z) ∨ (higherCoding z g = .gzip ∧ 0 < g ∧ z < g) ∨
      (higherCoding z g = .identity ∧ z ≤ 0 ∧ g ≤ 0) := by
  by_cases hz : 0 < z ∧ g ≤ z
  · exact .inl ⟨if_pos hz, hz⟩
  · have hnot : ∀ {x : NegotiatedEncoding}, (if 0 < z ∧ g ≤ z then .zstd else x) = x := if_neg hz
    by_cases hg : 0 < g
    · refine .inr (.inl ⟨hnot.trans (if_pos hg), hg, ?_⟩)
      by_contra hle
      exact hz ⟨lt_of_lt_of_le hg (not_lt.mp hle), not_lt.mp hle⟩
    · refine .inr (.inr ⟨hnot.trans (if_neg hg), ?_, not_lt.mp hg⟩)
      by_contra hpos
      exact hz ⟨not_le.mp hpos, le_trans (not_lt.mp hg) (le_of_lt (not_le.mp hpos))⟩

theorem higherCoding_accepted (hmode : mode ≠ .off) {c : NegotiatedEncoding}
    (h : higherCoding (allowedQ mode entries .zstd) (allowedQ mode entries .gzip) = c)
    (hc : c ≠ .identity) : mode.Allows c ∧ 0 < effectiveQ entries c := by
  rcases higherCoding_cases (allowedQ mode entries .zstd) (allowedQ mode entries .gzip) with
    ⟨heq, hpos, -⟩ | ⟨heq, hpos, -⟩ | ⟨heq, -, -⟩
  · have hallows := allows_zstd hmode hpos
    rw [← h, heq]
    exact ⟨hallows, allowedQ_zstd hallows ▸ hpos⟩
  · have hallows := allows_gzip hmode hpos
    rw [← h, heq]
    exact ⟨hallows, allowedQ_gzip hallows ▸ hpos⟩
  · exact absurd (h.symm.trans heq) hc

theorem codingNegotiated_compressed_iff {c : NegotiatedEncoding} (hmode : mode ≠ .off)
    (hc : c ≠ .identity) (hallowed : mode.Allows c) (hpos : 0 < effectiveQ entries c)
    (hzstd : c = .zstd → mode.Allows .gzip → effectiveQ entries .gzip ≤ effectiveQ entries .zstd)
    (hgzip : c = .gzip → mode.Allows .zstd → effectiveQ entries .zstd < effectiveQ entries .gzip) :
    CodingNegotiated mode entries c ↔ IdentityIgnorable mode entries := by
  have hoffered : Offered mode entries := ⟨c, hc, hallowed, hpos⟩
  constructor
  · intro h
    exact ⟨fun _ hpreferred => hc (h.identity hpreferred), fun hnot => absurd hoffered hnot,
      fun hoff => absurd hoff hmode⟩
  · intro h
    exact ⟨ne_of_gt hpos, hallowed, ⟨hzstd, hgzip⟩, fun _ _ => hc,
      fun hpreferred => absurd hpreferred (h.notPreferred hoffered)⟩

theorem codingNegotiated_identity_iff (hmode : mode ≠ .off) (hnot : ¬ Offered mode entries) :
    CodingNegotiated mode entries .identity ↔ IdentityIgnorable mode entries := by
  constructor
  · intro h
    exact ⟨fun hoffered => absurd hoffered hnot, fun _ => h.notRefused, fun hoff => absurd hoff hmode⟩
  · intro h
    have hallowed : mode.Allows .identity := by cases mode <;> trivial
    exact ⟨h.notRefused hnot, hallowed, ⟨fun hc => (nomatch hc), fun hc => (nomatch hc)⟩,
      fun hoffered _ => absurd hoffered hnot, fun _ => rfl⟩

theorem codingNegotiated_higherCoding_iff (hmode : mode ≠ .off) :
    CodingNegotiated mode entries
        (higherCoding (allowedQ mode entries .zstd) (allowedQ mode entries .gzip)) ↔
      IdentityIgnorable mode entries := by
  rcases higherCoding_cases (allowedQ mode entries .zstd) (allowedQ mode entries .gzip) with
    ⟨heq, hpos, hle⟩ | ⟨heq, hpos, hlt⟩ | ⟨heq, hz, hg⟩
  · have hallows := allows_zstd hmode hpos
    rw [heq]
    rw [allowedQ_zstd hallows] at hpos hle
    refine codingNegotiated_compressed_iff hmode (by decide) hallows hpos (fun _ hgzip => ?_) nofun
    rwa [allowedQ_gzip hgzip] at hle
  · have hallows := allows_gzip hmode hpos
    rw [heq]
    rw [allowedQ_gzip hallows] at hpos hlt
    refine codingNegotiated_compressed_iff hmode (by decide) hallows hpos nofun fun _ hzstd => ?_
    rwa [allowedQ_zstd hzstd] at hlt
  · rw [heq]
    refine codingNegotiated_identity_iff hmode ?_
    rintro ⟨c, hc, hallowed, hpos⟩
    cases c with
    | identity => exact hc rfl
    | zstd => exact absurd hpos (not_lt.mpr (allowedQ_zstd hallowed ▸ hz))
    | gzip => exact absurd hpos (not_lt.mpr (allowedQ_gzip hallowed ▸ hg))

theorem codingNegotiated_off_iff :
    CodingNegotiated .off entries (higherCoding (allowedQ .off entries .zstd) (allowedQ .off entries .gzip)) ↔
      IdentityIgnorable .off entries := by
  have hnone : ¬ Offered .off entries := by
    rintro ⟨c, hc, hallowed, -⟩
    cases c with
    | identity => exact hc rfl
    | zstd => exact hallowed
    | gzip => exact hallowed
  have hnotPreferred : Offered .off entries → ¬ IdentityPreferred entries := fun h => absurd h hnone
  rcases higherCoding_cases (allowedQ .off entries .zstd) (allowedQ .off entries .gzip) with
    ⟨heq, hpos, -⟩ | ⟨heq, hpos, -⟩ | ⟨heq, hz, hg⟩
  · rw [heq]
    refine iff_of_false (fun h => h.allowed) fun h => h.unset rfl ⟨.zstd, by decide, trivial, hpos⟩
  · rw [heq]
    refine iff_of_false (fun h => h.allowed) fun h => h.unset rfl ⟨.gzip, by decide, trivial, hpos⟩
  · rw [heq]
    constructor
    · intro h
      refine ⟨hnotPreferred, fun _ => h.notRefused, fun _ => ?_⟩
      rintro ⟨c, hc, -, hpos⟩
      cases c with
      | identity => exact hc rfl
      | zstd => exact absurd hpos (not_lt.mpr hz)
      | gzip => exact absurd hpos (not_lt.mpr hg)
    · intro h
      exact ⟨h.notRefused hnone, trivial, ⟨fun hc => (nomatch hc), fun hc => (nomatch hc)⟩,
        fun hoffered _ => absurd hoffered hnone, fun _ => rfl⟩

end

theorem setHeader_body (res : HttpResponse) (name value : Str) : (setHeader res name value).body = res.body := by
  rw [setHeader]
  split <;> rfl

theorem maybeCompressResponse_body {header : Str} {entries : List (Str × ℚ)}
    (h : QualityList IsName header entries) (c : Compressors) (mode : CompressionMode) (minBytes : Nat)
    (res : HttpResponse) :
    (maybeCompressResponse c mode minBytes (some header) res).body = res.body ∨
      ∃ coding, coding ≠ .identity ∧ mode.Allows coding ∧ 0 < effectiveQ entries coding ∧
        ∃ name, c.run res.body coding =
          some ((maybeCompressResponse c mode minBytes (some header) res).body, name) := by
  rw [maybeCompressResponse]
  by_cases hmode : mode = .off
  · exact .inl (by rw [if_pos hmode])
  rw [if_neg hmode]
  by_cases hcompressible : (!compressible minBytes res) = true
  · exact .inl (by rw [if_pos hcompressible])
  rw [if_neg hcompressible]
  simp only [setHeader_body]
  cases hrun : c.run res.body (negotiateContentEncoding (some header) mode) with
  | none => exact .inl (setHeader_body _ _ _)
  | some result =>
    obtain ⟨compressed, name⟩ := result
    by_cases hshorter : res.body.length ≤ compressed.length
    · left
      simp only [if_pos hshorter, setHeader_body]
    · right
      have hne : negotiateContentEncoding (some header) mode ≠ .identity := by
        intro hidentity
        rw [hidentity] at hrun
        cases hrun
      obtain ⟨hallows, hpos⟩ :=
        higherCoding_accepted hmode (negotiateContentEncoding_eq h mode).symm hne
      refine ⟨_, hne, hallows, hpos, name, ?_⟩
      simp only [hrun, if_neg hshorter]

/-- The negotiation is right wherever the client's word on the identity makes no difference to it. -/
theorem content_coding_negotiated_iff {header : Str} {entries : List (Str × ℚ)}
    (h : QualityList IsName header entries) (mode : CompressionMode) :
    CodingNegotiated mode entries (negotiateContentEncoding (some header) mode) ↔
      IdentityIgnorable mode entries := by
  rw [negotiateContentEncoding_eq h]
  by_cases hmode : mode = .off
  · rw [hmode]
    exact codingNegotiated_off_iff
  · exact codingNegotiated_higherCoding_iff hmode

theorem content_coding_negotiated_star :
    QualityList IsName "gzip;q=0, *".toList [("gzip".toList, 0), ("*".toList, 1)] ∧
      (CodingNegotiated .auto [("gzip".toList, 0), ("*".toList, 1)]
          (negotiateContentEncoding (some "gzip;q=0, *".toList) .auto) ↔
        IdentityIgnorable .auto [("gzip".toList, 0), ("*".toList, 1)]) := by
  have hgzip : IsName "gzip".toList := by decide
  have hstar : IsName "*".toList := by decide
  have hnone : Padding [] := fun _ hc => nomatch hc
  have hblank : Padding [' '] := fun c hc => .inl (List.mem_singleton.mp hc)
  have hlist : QualityList IsName "gzip;q=0, *".toList [("gzip".toList, 0), ("*".toList, 1)] :=
    .more (.member hnone hnone hgzip (.weight hnone hnone (.inl rfl) .zero))
      (.last (.member hblank hnone hstar .bare))
  exact ⟨hlist, content_coding_negotiated_iff hlist .auto⟩

/-- `identity, gzip;q=0.5`: the client lists the identity above `gzip`, and `gzip` is chosen. -/
theorem preferred_identity_compressed :
    ∃ header entries, QualityList IsName header entries ∧ IdentityPreferred entries ∧
      negotiateContentEncoding (some header) .auto = .gzip ∧
      ¬ CodingNegotiated .auto entries (negotiateContentEncoding (some header) .auto) := by
  have hidentity : IsName "identity".toList := by decide
  have hgzip : IsName "gzip".toList := by decide
  have hnone : Padding [] := fun _ hc => nomatch hc
  have hblank : Padding [' '] := fun c hc => .inl (List.mem_singleton.mp hc)
  have hq : QValue "0.5".toList (mkRat 5 10) := @QValue.below ['5'] (by decide) (List.all_eq_true.mp (by decide))
  have hlist : QualityList IsName "identity, gzip;q=0.5".toList
      [("identity".toList, 1), ("gzip".toList, mkRat 5 10)] :=
    .more (.member hnone hnone hidentity .bare)
      (.last (.member hblank hnone hgzip (.weight hnone hnone (.inl rfl) hq)))
  have hpreferred : IdentityPreferred [("identity".toList, 1), ("gzip".toList, mkRat 5 10)] :=
    ⟨1, by decide +kernel, by decide +kernel, by decide +kernel⟩
  have hchosen : negotiateContentEncoding (some "identity, gzip;q=0.5".toList) .auto = .gzip := by
    decide +kernel
  refine ⟨_, _, hlist, hpreferred, hchosen, fun h => ?_⟩
  have hidentity := h.identity hpreferred
  rw [hchosen] at hidentity
  cases hidentity

end Quackapi.Http
