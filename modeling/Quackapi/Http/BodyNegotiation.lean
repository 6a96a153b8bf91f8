import Quackapi.Http.Response
import Quackapi.Params.Request
import Quackapi.Util.Decimal

/-! The format of a row response: the route's own, or one the client lists in `Accept`. -/

namespace Quackapi.Http
open Library Params

def parseBodyFormatToken (token : Str) : BodyFormat :=
  let t := lower token
  if t = "binary".toList then .binary
  else if t = "ndjson".toList then .ndjson
  else if t = "csv".toList then .csv
  else if t = "parquet".toList then .parquet
  else if t = "arrow".toList ∨ t = "arrows".toList then .arrow
  else .json

def bodyFormatOf (m : Str) : Option BodyFormat :=
  if m = "application/x-ndjson".toList ∨ m = "application/jsonl".toList ∨ m = "application/ndjson".toList then
    some .ndjson
  else if m = "text/csv".toList ∨ m = "application/csv".toList then some .csv
  else if m = "application/vnd.apache.parquet".toList ∨ m = "application/parquet".toList then some .parquet
  else if m = "application/vnd.apache.arrow.stream".toList ∨ m = "application/vnd.apache.arrow.file".toList ∨
      m = "application/x-apache-arrow-stream".toList ∨ m = "application/arrow".toList then some .arrow
  else if m = "application/json".toList ∨ m = "text/json".toList ∨ m = "*/*".toList then some .json
  else none

def mediaTypeToBodyFormat (media : Str) : Option BodyFormat := bodyFormatOf (quackapiTrim (lower media))

/-- `StringUtil::Split`: a last piece of no characters is left out. -/
def split (delimiter : Char) (s : Str) : List Str :=
  let parts := s.splitOn delimiter
  if parts.getLast? = some [] then parts.dropLast else parts

def parseAcceptQ (token : Str) : ℚ :=
  match ((split ';' token).tail.map quackapiTrim).find? fun p => "q=".toList.isPrefixOf (lower p) with
  | some p => atof (p.drop 2)
  | none => 1

structure Choice where
  best : BodyFormat
  bestQ : ℚ
  sawRecognized : Bool

def noChoice : Choice := ⟨.json, -1, false⟩

/-- A larger weight is better, and at one weight any format is better than JSON. -/
def better (s : Choice) (f : BodyFormat) (q : ℚ) : Bool :=
  !s.sawRecognized || decide (s.bestQ < q) ||
    (decide (q = s.bestQ) && decide (s.best = .json) && decide (f ≠ .json))

def prefer (s : Choice) (f : BodyFormat) (q : ℚ) : Choice := if better s f q then ⟨f, q, true⟩ else s

def considerRange (s : Choice) (t : Str) : Choice :=
  if t.isEmpty then s
  else
    let q := parseAcceptQ t
    if q ≤ 0 then s
    else
      let media := if ';' ∈ t then quackapiTrim (t.takeWhile (· ≠ ';')) else t
      match mediaTypeToBodyFormat media with
      | none => s
      | some f => prefer s f q

def explicitFormats : List Str :=
  ["ndjson".toList, "csv".toList, "parquet".toList, "arrow".toList, "arrows".toList, "binary".toList]

def resolveBodyFormat (responseFormat : Str) (accept : Option Str) : BodyFormat :=
  let routeFmt := lower (if responseFormat.isEmpty then "json".toList else responseFormat)
  if routeFmt ∈ explicitFormats then parseBodyFormatToken routeFmt
  else
    match accept with
    | none => .json
    | some header =>
      let s := (split ',' header).foldl (fun s tok => considerRange s (quackapiTrim tok)) noChoice
      if header.isEmpty then .json else if s.sawRecognized then s.best else .json

def ownRanges : BodyFormat → List Str
  | .json => ["application/json".toList, "text/json".toList]
  | .ndjson => ["application/x-ndjson".toList, "application/jsonl".toList, "application/ndjson".toList]
  | .csv => ["text/csv".toList, "application/csv".toList]
  | .parquet => ["application/vnd.apache.parquet".toList, "application/parquet".toList]
  | .arrow => ["application/vnd.apache.arrow.stream".toList, "application/vnd.apache.arrow.file".toList,
      "application/x-apache-arrow-stream".toList, "application/arrow".toList]
  | .binary => []

def anyRange : List Str := ["*/*".toList]

def supportedFormats : List BodyFormat := [.json, .ndjson, .csv, .parquet, .arrow]

/-- A media range the server knows, in any case of its letters. -/
def IsMediaRange (name : Str) : Prop :=
  lower name ∈ anyRange ∨ ∃ f ∈ supportedFormats, lower name ∈ ownRanges f

/-- The weight the client gives one of these ranges, the largest if it names several of them. -/
def listedQ (entries : List (Str × ℚ)) (ranges : List Str) : Option ℚ :=
  ((entries.filter fun e => decide (lower e.1 ∈ ranges)).map Prod.snd).max?

/-- `q(f)`: the weight of the format's own range, else that of `*/*`, else zero. -/
def quality (entries : List (Str × ℚ)) (f : BodyFormat) : ℚ :=
  ((listedQ entries (ownRanges f)).or (listedQ entries anyRange)).getD 0

/-- No format that is refused while another one is wanted, and none that another one is wanted over. -/
structure Negotiated (entries : List (Str × ℚ)) (chosen : BodyFormat) : Prop where
  supported : chosen ∈ supportedFormats
  notRefused : quality entries chosen = 0 → ∀ f ∈ supportedFormats, ¬ 0 < quality entries f
  maximal : ∀ f ∈ supportedFormats, quality entries f ≤ quality entries chosen

/-- The client lists JSON below `*/*` and every other range it lists below `*/*` too, so that only what
it leaves out, or what it lists above JSON, has the larger weight. -/
def JsonOverruled (entries : List (Str × ℚ)) : Prop :=
  ∃ j w, listedQ entries (ownRanges .json) = some j ∧ listedQ entries anyRange = some w ∧ j < w ∧
    (∀ f ∈ supportedFormats, f ≠ .json → ∀ q, listedQ entries (ownRanges f) = some q → q < w) ∧
    ∃ f ∈ supportedFormats, f ≠ .json ∧ ∀ q, listedQ entries (ownRanges f) = some q → j < q

theorem foldl_split {σ : Type} {step : σ → Str → σ} (hstep : ∀ st, step st [] = st) (delimiter : Char)
    (s : Str) (st : σ) :
    (split delimiter s).foldl step st = (s.splitOn delimiter).foldl step st := by
  by_cases hlast : (s.splitOn delimiter).getLast? = some []
  · obtain ⟨front, hfront⟩ := List.getLast?_eq_some_iff.mp hlast
    rw [split, if_pos hlast, hfront, List.dropLast_concat, List.foldl_append]
    exact (hstep _).symm
  · rw [split, if_neg hlast]

theorem split_of_getLast {delimiter : Char} {s : Str} {parts : List Str}
    (h : s.splitOn delimiter = parts) (hlast : parts.getLast? ≠ some []) :
    split delimiter s = parts := by
  rw [split, h, if_neg hlast]

theorem strips_quackapiTrim : Strips isSpace fun c => isSpace c || c == ';' where
  front := by rintro c (rfl | rfl) <;> rfl
  back := by rintro c (rfl | rfl) <;> rfl
  keepFront := by
    rintro c ⟨h32, -, -⟩
    simp only [isSpace, Bool.or_eq_false_iff, Bool.and_eq_false_iff, decide_eq_false_iff_not]
    omega
  keepBack := by
    rintro c ⟨h32, -, hsemi⟩
    simp only [isSpace, Bool.or_eq_false_iff, Bool.and_eq_false_iff, decide_eq_false_iff_not,
      beq_eq_false_iff_ne]
    exact ⟨by omega, hsemi⟩

section
variable {name text v b c : Str} {k : Char} {w : ℚ}

theorem lower_weightKey (hk : k = 'q' ∨ k = 'Q') (t : Str) :
    "q=".toList.isPrefixOf (lower (k :: '=' :: t)) = true := by
  rcases hk with rfl | rfl <;> rfl

theorem parseAcceptQ_weighted (hname : IsName name) (h : Weighted name text w) :
    parseAcceptQ text = w := by
  cases h with
  | bare =>
    have hparts : split ';' name = [name] :=
      split_of_getLast (splitOn_bare hname) fun h => hname.1 (Option.some.inj h)
    rw [parseAcceptQ, hparts]
    rfl
  | @weight b c v k _ hb hc hk hv =>
    have hparts : split ';' (name ++ (b ++ ';' :: (c ++ k :: '=' :: v))) = [name ++ b, c ++ k :: '=' :: v] :=
      split_of_getLast (splitOn_weight hname hb hc hk hv) (by simp)
    have htrim : quackapiTrim (c ++ k :: '=' :: v) = k :: '=' :: v :=
      strips_quackapiTrim.parameter hc (isNameChar_weightKey hk) hv
    have hfind : [k :: '=' :: v].find? (fun p => "q=".toList.isPrefixOf (lower p)) = some (k :: '=' :: v) :=
      List.find?_cons_of_pos (lower_weightKey hk v)
    rw [parseAcceptQ, hparts, List.tail_cons, List.map_cons, htrim, List.map_nil, hfind]
    show (strtod v).getD 0 = w
    rw [strtod_qvalue hv]
    rfl

theorem mediaOf_weighted (hname : IsName name) (h : Weighted name text w) :
    (if ';' ∈ text then quackapiTrim (text.takeWhile (· ≠ ';')) else text) = name := by
  cases h with
  | bare => exact if_neg (hname.not_mem not_isNameChar_semicolon)
  | weight hb hc hk hv =>
    rw [if_pos (by simp), takeWhile_weight hname hb]
    exact strips_quackapiTrim.name_padding hname hb

end

/-- What the loop does with one entry of the list. -/
def considerEntry (s : Choice) (e : Str × ℚ) : Choice :=
  if e.2 ≤ 0 then s
  else
    match mediaTypeToBodyFormat e.1 with
    | none => s
    | some f => prefer s f e.2

theorem considerRange_weighted (s : Choice) {name text : Str} {w : ℚ} (hname : IsName name)
    (h : Weighted name text w) : considerRange s text = considerEntry s (name, w) := by
  have hne : text.isEmpty = false := by
    cases h with
    | bare => simpa using hname.1
    | weight hb hc hk hv => simp
  rw [considerRange, hne]
  simp only [Bool.false_eq_true, if_false, parseAcceptQ_weighted hname h, mediaOf_weighted hname h]
  rfl

theorem bodyFormatOf_own : ∀ f ∈ supportedFormats, ∀ m ∈ ownRanges f,
    bodyFormatOf (quackapiTrim m) = some f := by
  decide +kernel

theorem bodyFormatOf_any : ∀ m ∈ anyRange, bodyFormatOf (quackapiTrim m) = some .json := by
  decide +kernel

theorem isName_ranges : ∀ m ∈ anyRange ++ supportedFormats.flatMap ownRanges, IsName m := by
  decide +kernel

theorem isNameChar_of_toLower {c : Char} (h : IsNameChar c.toLower) : IsNameChar c := by
  by_cases hupper : 'A' ≤ c ∧ c ≤ 'Z'
  · have h65 : 65 ≤ c.toNat := hupper.1
    have h90 : c.toNat ≤ 90 := hupper.2
    refine ⟨by omega, ?_, ?_⟩
    · rintro rfl
      exact absurd h65 (by decide)
    · rintro rfl
      exact absurd h65 (by decide)
  · have hsame : c.toLower = c := by
      unfold Char.toLower
      exact dif_neg fun hand => hupper ⟨hand.1, hand.2⟩
    rwa [hsame] at h

theorem IsMediaRange.mem {name : Str} (h : IsMediaRange name) :
    lower name ∈ anyRange ++ supportedFormats.flatMap ownRanges := by
  rcases h with h | ⟨f, hf, h⟩
  · exact List.mem_append_left _ h
  · exact List.mem_append_right _ (List.mem_flatMap_of_mem hf h)

theorem IsMediaRange.isName {name : Str} (h : IsMediaRange name) : IsName name := by
  obtain ⟨hne, hchars⟩ := isName_ranges _ h.mem
  refine ⟨fun hnil => hne (by rw [hnil]; rfl), fun c hc => ?_⟩
  exact isNameChar_of_toLower (hchars _ (List.mem_map_of_mem hc))

theorem mediaTypeToBodyFormat_own {name : Str} {f : BodyFormat} (hf : f ∈ supportedFormats)
    (h : lower name ∈ ownRanges f) : mediaTypeToBodyFormat name = some f :=
  bodyFormatOf_own f hf _ h

theorem mediaTypeToBodyFormat_any {name : Str} (h : lower name ∈ anyRange) :
    mediaTypeToBodyFormat name = some .json :=
  bodyFormatOf_any _ h

theorem IsMediaRange.format {name : Str} {f : BodyFormat} (h : IsMediaRange name)
    (hformat : mediaTypeToBodyFormat name = some f) :
    f ∈ supportedFormats ∧ (lower name ∈ ownRanges f ∨ f = .json ∧ lower name ∈ anyRange) := by
  rcases h with hany | ⟨g, hg, hown⟩
  · rw [mediaTypeToBodyFormat_any hany] at hformat
    cases hformat
    exact ⟨by decide, .inr ⟨rfl, hany⟩⟩
  · rw [mediaTypeToBodyFormat_own hg hown] at hformat
    cases hformat
    exact ⟨hg, .inl hown⟩

/-- The choice after the entries `seen`, none of which is refused. -/
structure Leads (seen : List (BodyFormat × ℚ)) (s : Choice) : Prop where
  nothing : s.sawRecognized = false → seen = []
  mem : s.sawRecognized = true → (s.best, s.bestQ) ∈ seen
  highest : s.sawRecognized = true → ∀ e ∈ seen, e.2 ≤ s.bestQ
  tie : s.sawRecognized = true → s.best = .json → ∀ e ∈ seen, e.2 = s.bestQ → e.1 = .json

theorem leads_noChoice : Leads [] noChoice where
  nothing := fun _ => rfl
  mem := fun h => nomatch h
  highest := fun h => nomatch h
  tie := fun h => nomatch h

theorem prefer_eq (s : Choice) (f : BodyFormat) (q : ℚ) :
    prefer s f q = ⟨f, q, true⟩ ∧
        (s.sawRecognized = true → s.bestQ < q ∨ q = s.bestQ ∧ s.best = .json ∧ f ≠ .json) ∨
      prefer s f q = s ∧ s.sawRecognized = true ∧ q ≤ s.bestQ ∧
        (q = s.bestQ → s.best = .json → f = .json) := by
  by_cases hbetter : better s f q = true
  · refine .inl ⟨if_pos hbetter, fun hsaw => ?_⟩
    simpa [better, hsaw, and_assoc] using hbetter
  · refine .inr ⟨if_neg hbetter, ?_⟩
    simp only [better, Bool.or_eq_true, Bool.and_eq_true, Bool.not_eq_true', decide_eq_true_eq, not_or,
      not_and, not_lt, Bool.not_eq_false, ne_eq, not_not] at hbetter
    obtain ⟨⟨hsaw, hle⟩, htie⟩ := hbetter
    exact ⟨hsaw, hle, fun hq hjson => htie ⟨hq, hjson⟩⟩

theorem leads_prefer {seen : List (BodyFormat × ℚ)} {s : Choice} (h : Leads seen s) (e : BodyFormat × ℚ) :
    Leads (seen ++ [e]) (prefer s e.1 e.2) := by
  obtain ⟨f, q⟩ := e
  have hnil : s.sawRecognized = false → seen = [] := h.nothing
  rcases prefer_eq s f q with ⟨heq, hbetter⟩ | ⟨heq, hsaw, hle, htie⟩
  · rw [heq]
    -- Every earlier entry is at most the new one, and JSON wins no tie that it did not win before.
    have hbefore : ∀ e ∈ seen, e.2 ≤ q ∧ (e.2 = q → f = .json → e.1 = .json) := by
      intro e he
      have hsaw : s.sawRecognized = true := by
        by_contra hsaw
        rw [hnil (by simpa using hsaw)] at he
        cases he
      have hhigh := h.highest hsaw e he
      rcases hbetter hsaw with hlt | ⟨heq, hjson, hf⟩
      · exact ⟨le_trans hhigh (le_of_lt hlt), fun heq => absurd (heq ▸ hhigh) (not_le.mpr hlt)⟩
      · exact ⟨heq ▸ hhigh, fun _ hf' => absurd hf' hf⟩
    constructor
    · intro hfalse
      cases hfalse
    · intro _
      exact List.mem_append_right _ List.mem_cons_self
    · intro _ e he
      rcases List.mem_append.mp he with he | he
      · exact (hbefore e he).1
      · rw [List.mem_singleton.mp he]
    · intro _ hjson e he heq
      rcases List.mem_append.mp he with he | he
      · exact (hbefore e he).2 heq hjson
      · rw [List.mem_singleton.mp he]
        exact hjson
  · rw [heq]
    constructor
    · intro hfalse
      rw [hsaw] at hfalse
      cases hfalse
    · intro _
      exact List.mem_append_left _ (h.mem hsaw)
    · intro _ e he
      rcases List.mem_append.mp he with he | he
      · exact h.highest hsaw e he
      · rw [List.mem_singleton.mp he]
        exact hle
    · intro _ hjson e he heq
      rcases List.mem_append.mp he with he | he
      · exact h.tie hsaw hjson e he heq
      · rw [List.mem_singleton.mp he] at heq ⊢
        exact htie heq hjson

theorem leads_foldl (es : List (BodyFormat × ℚ)) {seen : List (BodyFormat × ℚ)} {s : Choice}
    (h : Leads seen s) : Leads (seen ++ es) (es.foldl (fun s e => prefer s e.1 e.2) s) := by
  induction es generalizing seen s with
  | nil => rwa [List.append_nil]
  | cons e es ih =>
    have hrest := ih (leads_prefer h e)
    rwa [List.append_assoc] at hrest

/-- The entries the loop looks at, each as the format it takes it for. -/
def wanted (entries : List (Str × ℚ)) : List (BodyFormat × ℚ) :=
  entries.filterMap fun e =>
    if e.2 ≤ 0 then none else (mediaTypeToBodyFormat e.1).map fun f => (f, e.2)

theorem foldl_considerEntry (entries : List (Str × ℚ)) (s : Choice) :
    entries.foldl considerEntry s = (wanted entries).foldl (fun s e => prefer s e.1 e.2) s := by
  rw [wanted, List.foldl_filterMap]
  congr 1
  funext s e
  rw [considerEntry]
  split
  · rfl
  · cases mediaTypeToBodyFormat e.1 <;> rfl

theorem mem_wanted {entries : List (Str × ℚ)} {f : BodyFormat} {q : ℚ} :
    (f, q) ∈ wanted entries ↔
      ∃ e ∈ entries, 0 < e.2 ∧ mediaTypeToBodyFormat e.1 = some f ∧ e.2 = q := by
  rw [wanted, List.mem_filterMap]
  refine exists_congr fun e => and_congr_right fun _ => ?_
  by_cases hpos : e.2 ≤ 0
  · simp [hpos, not_lt.mpr hpos]
  · simp [hpos, not_le.mp hpos]

section
variable {entries : List (Str × ℚ)} {ranges : List Str} {q : ℚ}

theorem listedQ_eq_some : listedQ entries ranges = some q ↔
    (∃ e ∈ entries, lower e.1 ∈ ranges ∧ e.2 = q) ∧ ∀ e ∈ entries, lower e.1 ∈ ranges → e.2 ≤ q := by
  rw [listedQ, List.max?_eq_some_iff]
  simp only [List.mem_map, List.mem_filter, decide_eq_true_eq, and_assoc]
  refine and_congr_right fun _ => ⟨fun h e he hr => h e.2 ⟨e, he, hr, rfl⟩, ?_⟩
  rintro h _ ⟨e, he, hr, rfl⟩
  exact h e he hr

theorem listedQ_eq_none : listedQ entries ranges = none ↔ ∀ e ∈ entries, lower e.1 ∉ ranges := by
  rw [listedQ, List.max?_eq_none_iff, List.map_eq_nil_iff, List.filter_eq_nil_iff]
  simp only [decide_eq_true_eq]

theorem quality_own {f : BodyFormat} (h : listedQ entries (ownRanges f) = some q) :
    quality entries f = q := by
  rw [quality, h]
  rfl

theorem quality_any {f : BodyFormat} (h : listedQ entries (ownRanges f) = none)
    (hany : listedQ entries anyRange = some q) : quality entries f = q := by
  rw [quality, h, hany]
  rfl

theorem quality_le (hq : 0 ≤ q) (h : ∀ e ∈ entries, e.2 ≤ q) (f : BodyFormat) :
    quality entries f ≤ q := by
  cases hown : listedQ entries (ownRanges f) with
  | some own =>
    obtain ⟨⟨e, he, -, rfl⟩, -⟩ := listedQ_eq_some.mp hown
    rw [quality_own hown]
    exact h e he
  | none =>
    cases hany : listedQ entries anyRange with
    | some any =>
      obtain ⟨⟨e, he, -, rfl⟩, -⟩ := listedQ_eq_some.mp hany
      rw [quality_any hown hany]
      exact h e he
    | none =>
      rw [quality, hown, hany]
      exact hq

theorem quality_nonneg (h : ∀ e ∈ entries, 0 ≤ e.2) (f : BodyFormat) : 0 ≤ quality entries f := by
  cases hown : listedQ entries (ownRanges f) with
  | some own =>
    obtain ⟨⟨e, he, -, rfl⟩, -⟩ := listedQ_eq_some.mp hown
    rw [quality_own hown]
    exact h e he
  | none =>
    cases hany : listedQ entries anyRange with
    | some any =>
      obtain ⟨⟨e, he, -, rfl⟩, -⟩ := listedQ_eq_some.mp hany
      rw [quality_any hown hany]
      exact h e he
    | none =>
      rw [quality, hown, hany]
      exact le_rfl

theorem negotiated_of_maximal {f : BodyFormat} (hf : f ∈ supportedFormats)
    (h : ∀ g ∈ supportedFormats, quality entries g ≤ quality entries f) : Negotiated entries f where
  supported := hf
  notRefused := fun hzero g hg hpos => absurd (lt_of_lt_of_le hpos (h g hg)) (by rw [hzero]; exact lt_irrefl 0)
  maximal := h

end

section
variable {entries : List (Str × ℚ)} (hnames : ∀ e ∈ entries, IsMediaRange e.1)

include hnames

theorem negotiated_of_nothing (hnonneg : ∀ e ∈ entries, 0 ≤ e.2) (h : wanted entries = []) :
    Negotiated entries .json ∧ ¬ JsonOverruled entries := by
  have hzero : ∀ e ∈ entries, e.2 ≤ 0 := by
    intro e he
    by_contra hpos
    obtain ⟨f, hf⟩ : ∃ f, mediaTypeToBodyFormat e.1 = some f := by
      rcases hnames e he with hany | ⟨f, hf, hown⟩
      · exact ⟨.json, mediaTypeToBodyFormat_any hany⟩
      · exact ⟨f, mediaTypeToBodyFormat_own hf hown⟩
    have hmem : (f, e.2) ∈ wanted entries := mem_wanted.mpr ⟨e, he, not_le.mp hpos, hf, rfl⟩
    rw [h] at hmem
    cases hmem
  constructor
  · refine negotiated_of_maximal (by decide) fun g _ => ?_
    exact le_trans (quality_le le_rfl hzero g) (quality_nonneg hnonneg _)
  · rintro ⟨j, w, hjson, hany, hlt, -⟩
    obtain ⟨⟨e, he, -, rfl⟩, -⟩ := listedQ_eq_some.mp hjson
    obtain ⟨⟨e', he', -, rfl⟩, -⟩ := listedQ_eq_some.mp hany
    exact absurd (lt_of_lt_of_le hlt (hzero e' he')) (not_lt.mpr (hnonneg e he))

variable {s : Choice} (h : Leads (wanted entries) s) (hsaw : s.sawRecognized = true)

include h hsaw

theorem entry_le_bestQ : 0 < s.bestQ ∧ ∀ e ∈ entries, e.2 ≤ s.bestQ := by
  obtain ⟨e, he, hpos, -, heq⟩ := mem_wanted.mp (h.mem hsaw)
  have hbest : 0 < s.bestQ := heq ▸ hpos
  refine ⟨hbest, fun e he => ?_⟩
  rcases le_or_gt e.2 0 with hle | hpos
  · exact le_trans hle (le_of_lt hbest)
  · rcases hnames e he with hany | ⟨f, hf, hown⟩
    · exact h.highest hsaw (.json, e.2) (mem_wanted.mpr ⟨e, he, hpos, mediaTypeToBodyFormat_any hany, rfl⟩)
    · exact h.highest hsaw (f, e.2) (mem_wanted.mpr ⟨e, he, hpos, mediaTypeToBodyFormat_own hf hown, rfl⟩)

theorem negotiated_of_other (hbest : s.best ≠ .json) :
    Negotiated entries s.best ∧ ¬ JsonOverruled entries := by
  obtain ⟨hpos, hle⟩ := entry_le_bestQ hnames h hsaw
  obtain ⟨e, he, -, hformat, heq⟩ := mem_wanted.mp (h.mem hsaw)
  obtain ⟨hsupported, hrange⟩ := (hnames e he).format hformat
  have hown : lower e.1 ∈ ownRanges s.best := hrange.resolve_right fun hjson => hbest hjson.1
  have hlisted : listedQ entries (ownRanges s.best) = some s.bestQ :=
    listedQ_eq_some.mpr ⟨⟨e, he, hown, heq⟩, fun e he _ => hle e he⟩
  constructor
  · refine negotiated_of_maximal hsupported fun g _ => ?_
    rw [quality_own hlisted]
    exact quality_le (le_of_lt hpos) hle g
  · rintro ⟨j, w, -, hany, -, hother, -⟩
    obtain ⟨⟨e', he', -, rfl⟩, -⟩ := listedQ_eq_some.mp hany
    exact absurd (hother _ hsupported hbest _ hlisted) (not_lt.mpr (hle e' he'))

/-- JSON is chosen by its own range or by `*/*`: only in the second case may its own weight be less. -/
theorem negotiated_json_iff (hbest : s.best = .json) :
    Negotiated entries .json ↔ ¬ JsonOverruled entries := by
  obtain ⟨hpos, hle⟩ := entry_le_bestQ hnames h hsaw
  obtain ⟨e, he, -, hformat, heq⟩ := mem_wanted.mp (h.mem hsaw)
  rw [hbest] at hformat
  have hmax : ∀ f ∈ supportedFormats, quality entries f ≤ s.bestQ :=
    fun f _ => quality_le (le_of_lt hpos) hle f
  have hother : ∀ f ∈ supportedFormats, f ≠ .json → ∀ q, listedQ entries (ownRanges f) = some q →
      q < s.bestQ := by
    intro f hf hne q hq
    obtain ⟨⟨e', he', hown, rfl⟩, -⟩ := listedQ_eq_some.mp hq
    refine lt_of_le_of_ne (hle e' he') fun hsame => hne ?_
    have hmem : (f, e'.2) ∈ wanted entries :=
      mem_wanted.mpr ⟨e', he', hsame ▸ hpos, mediaTypeToBodyFormat_own hf hown, rfl⟩
    exact h.tie hsaw hbest _ hmem hsame
  cases hown : listedQ entries (ownRanges .json) with
  | none =>
    have hrange := ((hnames e he).format hformat).2.resolve_left (listedQ_eq_none.mp hown e he)
    have hany : listedQ entries anyRange = some s.bestQ :=
      listedQ_eq_some.mpr ⟨⟨e, he, hrange.2, heq⟩, fun e he _ => hle e he⟩
    refine iff_of_true (negotiated_of_maximal (by decide) fun g hg => ?_) ?_
    · rw [quality_any hown hany]
      exact hmax g hg
    · rintro ⟨j, w, hj, -⟩
      rw [hown] at hj
      cases hj
  | some j =>
    have hjson : quality entries .json = j := quality_own hown
    obtain ⟨⟨ej, hej, hejRange, hejq⟩, hjmax⟩ := listedQ_eq_some.mp hown
    rcases eq_or_lt_of_le (hejq ▸ hle ej hej) with heqj | hlt
    · -- JSON's own range has the weight of the choice.
      refine iff_of_true (negotiated_of_maximal (by decide) fun g hg => ?_) ?_
      · rw [hjson, heqj]
        exact hmax g hg
      · rintro ⟨j', w, hj', hany, hlt, -⟩
        obtain ⟨⟨e', he', -, rfl⟩, -⟩ := listedQ_eq_some.mp hany
        rw [hown] at hj'
        cases hj'
        exact absurd (hle e' he') (not_le.mpr (heqj ▸ hlt))
    · have hrange : lower e.1 ∈ anyRange := by
        rcases ((hnames e he).format hformat).2 with hownRange | hany
        · exact absurd (heq ▸ hjmax e he hownRange) (not_le.mpr hlt)
        · exact hany.2
      have hany : listedQ entries anyRange = some s.bestQ :=
        listedQ_eq_some.mpr ⟨⟨e, he, hrange, heq⟩, fun e he _ => hle e he⟩
      constructor
      · rintro hneg ⟨j', w, hj', hany', -, -, f, hf, -, hover⟩
        rw [hown] at hj'
        cases hj'
        have hmaximal := hneg.maximal f hf
        rw [hjson] at hmaximal
        cases hf' : listedQ entries (ownRanges f) with
        | some q =>
          rw [quality_own hf'] at hmaximal
          exact absurd (hover q hf') (not_lt.mpr hmaximal)
        | none =>
          rw [quality_any hf' hany] at hmaximal
          exact absurd hlt (not_lt.mpr hmaximal)
      · intro hnot
        refine negotiated_of_maximal (by decide) fun f hf => ?_
        by_cases hne : f = .json
        · rw [hne]
        · rw [hjson]
          by_contra hover
          refine hnot ⟨j, s.bestQ, hown, hany, hlt, hother, f, hf, hne, fun q hq => ?_⟩
          rw [quality_own hq] at hover
          exact not_le.mp hover

end

theorem resolveBodyFormat_default {responseFormat accept : Str}
    (hroute : responseFormat = [] ∨ lower responseFormat = "json".toList) {entries : List (Str × ℚ)}
    (h : QualityList IsMediaRange accept entries) :
    resolveBodyFormat responseFormat (some accept) =
      if (entries.foldl considerEntry noChoice).sawRecognized then
        (entries.foldl considerEntry noChoice).best
      else .json := by
  have hfmt : lower (if responseFormat.isEmpty then "json".toList else responseFormat) = "json".toList := by
    rcases hroute with rfl | hroute
    · rfl
    · cases responseFormat with
      | nil => rfl
      | cons c t => exact hroute
  have hloop : (split ',' accept).foldl (fun s tok => considerRange s (quackapiTrim tok)) noChoice =
      entries.foldl considerEntry noChoice := by
    rw [foldl_split (fun _ => rfl)]
    exact h.foldl (fun _ hname => hname.isName) strips_quackapiTrim (fun _ => rfl)
      (fun s _ _ _ hname hw => considerRange_weighted s hname.isName hw) noChoice
  rw [resolveBodyFormat, hfmt, if_neg (by decide), ← hloop]
  cases accept with
  | nil => rfl
  | cons c t => rfl

/-- The format of a row response is the one of the largest weight, unless the client lists JSON below
`*/*`, which the loop takes for JSON. -/
theorem body_format_negotiated_iff {responseFormat accept : Str}
    (hroute : responseFormat = [] ∨ lower responseFormat = "json".toList) {entries : List (Str × ℚ)}
    (h : QualityList IsMediaRange accept entries) :
    Negotiated entries (resolveBodyFormat responseFormat (some accept)) ↔ ¬ JsonOverruled entries := by
  have hnames : ∀ e ∈ entries, IsMediaRange e.1 := fun e he => (h.entry e he).1
  have hnonneg : ∀ e ∈ entries, 0 ≤ e.2 := fun e he => (h.entry e he).2.1
  have hleads : Leads (wanted entries) (entries.foldl considerEntry noChoice) := by
    rw [foldl_considerEntry]
    exact leads_foldl _ leads_noChoice
  rw [resolveBodyFormat_default hroute h]
  cases hsaw : (entries.foldl considerEntry noChoice).sawRecognized with
  | false =>
    obtain ⟨hneg, hnot⟩ := negotiated_of_nothing hnames hnonneg (hleads.nothing hsaw)
    exact iff_of_true hneg hnot
  | true =>
    by_cases hbest : (entries.foldl considerEntry noChoice).best = .json
    · rw [if_pos rfl, hbest]
      exact negotiated_json_iff hnames hleads hsaw hbest
    · rw [if_pos rfl]
      obtain ⟨hneg, hnot⟩ := negotiated_of_other hnames hleads hsaw hbest
      exact iff_of_true hneg hnot

theorem body_format_negotiated_csv :
    QualityList IsMediaRange "text/csv;q=0.5, */*".toList
        [("text/csv".toList, mkRat 5 10), ("*/*".toList, 1)] ∧
      (Negotiated [("text/csv".toList, mkRat 5 10), ("*/*".toList, 1)]
          (resolveBodyFormat [] (some "text/csv;q=0.5, */*".toList)) ↔
        ¬ JsonOverruled [("text/csv".toList, mkRat 5 10), ("*/*".toList, 1)]) := by
  have hcsv : IsMediaRange "text/csv".toList := .inr ⟨.csv, by decide, by decide⟩
  have hany : IsMediaRange "*/*".toList := .inl (by decide)
  have hnone : Padding [] := fun _ hc => nomatch hc
  have hblank : Padding [' '] := fun c hc => .inl (List.mem_singleton.mp hc)
  have hq : QValue "0.5".toList (mkRat 5 10) := @QValue.below ['5'] (by decide) (List.all_eq_true.mp (by decide))
  have hlist : QualityList IsMediaRange "text/csv;q=0.5, */*".toList
      [("text/csv".toList, mkRat 5 10), ("*/*".toList, 1)] :=
    .more (.member hnone hnone hcsv (.weight hnone hnone (.inl rfl) hq))
      (.last (.member hblank hnone hany .bare))
  exact ⟨hlist, body_format_negotiated_iff (.inl rfl) hlist⟩

/-- `*/*;q=0.9, application/json;q=0`: JSON is refused, every other format is not, and JSON is sent. -/
theorem refused_json_sent :
    ∃ accept entries, QualityList IsMediaRange accept entries ∧
      resolveBodyFormat [] (some accept) = .json ∧ quality entries .json = 0 ∧
      0 < quality entries .csv ∧ ¬ Negotiated entries (resolveBodyFormat [] (some accept)) := by
  have hjson : IsMediaRange "application/json".toList := .inr ⟨.json, by decide, by decide⟩
  have hany : IsMediaRange "*/*".toList := .inl (by decide)
  have hnone : Padding [] := fun _ hc => nomatch hc
  have hblank : Padding [' '] := fun c hc => .inl (List.mem_singleton.mp hc)
  have hq : QValue "0.9".toList (mkRat 9 10) := @QValue.below ['9'] (by decide) (List.all_eq_true.mp (by decide))
  have hlist : QualityList IsMediaRange "*/*;q=0.9, application/json;q=0".toList
      [("*/*".toList, mkRat 9 10), ("application/json".toList, 0)] :=
    .more (.member hnone hnone hany (.weight hnone hnone (.inl rfl) hq))
      (.last (.member hblank hnone hjson (.weight hnone hnone (.inl rfl) .zero)))
  have hchosen : resolveBodyFormat [] (some "*/*;q=0.9, application/json;q=0".toList) = .json := by
    decide +kernel
  have hzero : quality [("*/*".toList, mkRat 9 10), ("application/json".toList, 0)] .json = 0 := by
    decide +kernel
  have hcsv : 0 < quality [("*/*".toList, mkRat 9 10), ("application/json".toList, 0)] .csv := by
    decide +kernel
  refine ⟨_, _, hlist, hchosen, hzero, hcsv, fun h => ?_⟩
  rw [hchosen] at h
  exact h.notRefused hzero .csv (by decide) hcsv

end Quackapi.Http
