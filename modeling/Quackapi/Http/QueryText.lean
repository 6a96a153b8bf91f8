import Mathlib.Data.List.Dedup
import Quackapi.Library.Base64
import Quackapi.Library.QuotedWords
import Quackapi.Telemetry.Record

/-! Query strings read back. A redirect writes the query's pairs anew, and what answers the next request
reads them: the in-process entry every pair, a connection the pairs with a name, each text once. -/

namespace Quackapi.Http
open Library Graphql
open Library.Base64 (IsBytes)
open Telemetry (decodeQueryComponent)

/-- A pair at its first `=`; without one it is all name. -/
def queryPair (pair : Str) : Str × Str :=
  (decodeQueryComponent (pair.takeWhile fun d => decide (d ≠ '=')),
    decodeQueryComponent ((pair.dropWhile fun d => decide (d ≠ '=')).drop 1))

def queryPieces (query : Str) : List Str := (query.splitOn '&').filter fun pair => !pair.isEmpty

def parseQueryStringIntoParams (query : Str) : List (Str × Str) := (queryPieces query).map queryPair

def isSpaceOrTab (c : Char) : Bool := c == ' ' || c == '\t'

def trimPiece (s : Str) : Str := strip isSpaceOrTab isSpaceOrTab s

/-- The HTTP library's reader: a text that was there before is passed over, and so is a pair without a
name. -/
def parseQueryText (query : Str) : List (Str × Str) :=
  let pieces := ((query.splitOn '&').map trimPiece).filter fun kv => !kv.isEmpty
  let kept := pieces.eraseDups.filter fun kv => !(kv.takeWhile fun d => decide (d ≠ '=')).isEmpty
  kept.map queryPair

/-- A request without a connection: its path is taken as it stands. -/
def inProcessRequest (method pathIn body : Str) : HttpRequest where
  method := upper method
  path :=
    let path := pathIn.takeWhile fun c => decide (c ≠ '?')
    if path.isEmpty then "/".toList else path
  params := parseQueryStringIntoParams ((pathIn.dropWhile fun c => decide (c ≠ '?')).drop 1)
  body

theorem hexValue_hexDigit {n : Nat} (h : n < 16) : hexValue (hexDigit n) = some n := by
  have hall : ∀ m : Fin 16, hexValue (hexDigit m) = some m.val := by decide
  exact hall ⟨n, h⟩

theorem fromHex_hexDigits {a b : Nat} (ha : a < 16) (hb : b < 16) :
    fromHex [hexDigit a, hexDigit b] = some (a * 16 + b) := by
  simp only [fromHex, List.foldl_cons, List.foldl_nil, Option.bind_some, hexValue_hexDigit ha,
    hexValue_hexDigit hb, Option.map_some, Nat.zero_mul, Nat.zero_add]

def encodeChar (c : Char) : Str :=
  if isQuerySafe c then [c]
  else if c = ' ' then ['+']
  else ['%', hexDigit (c.toNat / 16 % 16), hexDigit (c.toNat % 16)]

theorem decode_safe {c : Char} (h : isQuerySafe c = true) (rest : Str) :
    decodeQueryComponent (c :: rest) = c :: decodeQueryComponent rest := by
  have hpercent : c ≠ '%' := by
    rintro rfl
    exact absurd h (by decide)
  have hplus : c ≠ '+' := by
    rintro rfl
    exact absurd h (by decide)
  rw [decodeQueryComponent]
  · intro a b rest' heq
    exact absurd heq hpercent
  · exact hplus

theorem decode_encodeChar {c : Char} (hc : c.toNat < 256) (rest : Str) :
    decodeQueryComponent (encodeChar c ++ rest) = c :: decodeQueryComponent rest := by
  unfold encodeChar
  split
  · next hsafe => exact decode_safe hsafe rest
  · split
    · next hspace =>
      rw [hspace]
      show decodeQueryComponent ('+' :: rest) = ' ' :: decodeQueryComponent rest
      rw [decodeQueryComponent]
    · have hhigh : c.toNat / 16 % 16 < 16 := Nat.mod_lt _ (by decide)
      have hlow : c.toNat % 16 < 16 := Nat.mod_lt _ (by decide)
      have hbyte : c.toNat / 16 % 16 * 16 + c.toNat % 16 = c.toNat := by omega
      show decodeQueryComponent ('%' :: hexDigit (c.toNat / 16 % 16) :: hexDigit (c.toNat % 16) :: rest) = _
      rw [decodeQueryComponent, fromHex_hexDigits hhigh hlow, hbyte]
      exact congrArg (· :: decodeQueryComponent rest) (Char.ofNat_toNat c)

theorem encodeQueryComponent_eq (s : Str) : encodeQueryComponent s = s.flatMap encodeChar := rfl

theorem decode_encodeQueryComponent {s : Str} (hs : IsBytes s) :
    decodeQueryComponent (encodeQueryComponent s) = s := by
  induction s with
  | nil => rfl
  | cons c s ih =>
    obtain ⟨hc, hs⟩ := List.forall_mem_cons.mp hs
    rw [encodeQueryComponent_eq, List.flatMap_cons, decode_encodeChar hc, ← encodeQueryComponent_eq, ih hs]

def isWireChar (c : Char) : Bool := isQuerySafe c || c == '+' || c == '%'

theorem isWireChar_hexDigit {n : Nat} (h : n < 16) : isWireChar (hexDigit n) = true := by
  have hall : ∀ m : Fin 16, isWireChar (hexDigit m) = true := by decide
  exact hall ⟨n, h⟩

theorem isWireChar_encode {s : Str} {c : Char} (h : c ∈ encodeQueryComponent s) : isWireChar c = true := by
  rw [encodeQueryComponent_eq] at h
  obtain ⟨d, -, hd⟩ := List.mem_flatMap.mp h
  unfold encodeChar at hd
  split at hd
  · next hsafe =>
    rw [List.mem_singleton.mp hd, isWireChar, hsafe]
    rfl
  · split at hd
    · rw [List.mem_singleton.mp hd]
      decide
    · rcases List.mem_cons.mp hd with rfl | hd
      · decide
      · rcases List.mem_cons.mp hd with rfl | hd
        · exact isWireChar_hexDigit (Nat.mod_lt _ (by decide))
        · rw [List.mem_singleton.mp hd]
          exact isWireChar_hexDigit (Nat.mod_lt _ (by decide))

theorem not_mem_encode {c : Char} (hc : isWireChar c = false) (s : Str) : c ∉ encodeQueryComponent s := by
  intro h
  rw [isWireChar_encode h] at hc
  cases hc

def encodePair (kv : Str × Str) : Str := encodeQueryComponent kv.1 ++ '=' :: encodeQueryComponent kv.2

def BytePairs (params : List (Str × Str)) : Prop := ∀ kv ∈ params, IsBytes kv.1 ∧ IsBytes kv.2

theorem cut_encodePair (kv : Str × Str) :
    (encodePair kv).takeWhile (fun d => decide (d ≠ '=')) = encodeQueryComponent kv.1 ∧
      (encodePair kv).dropWhile (fun d => decide (d ≠ '=')) = '=' :: encodeQueryComponent kv.2 :=
  cut_at (not_mem_encode (by decide) kv.1)

theorem queryPair_encodePair {kv : Str × Str} (h : IsBytes kv.1 ∧ IsBytes kv.2) :
    queryPair (encodePair kv) = kv := by
  rw [queryPair, (cut_encodePair kv).1, (cut_encodePair kv).2, List.drop_one, List.tail_cons,
    decode_encodeQueryComponent h.1, decode_encodeQueryComponent h.2]

theorem map_queryPair {params : List (Str × Str)} (h : BytePairs params) :
    (params.map encodePair).map queryPair = params := by
  rw [List.map_map]
  refine (List.map_congr_left fun kv hkv => ?_).trans (List.map_id params)
  exact queryPair_encodePair (h kv hkv)

theorem encodePair_isEmpty (kv : Str × Str) : (encodePair kv).isEmpty = false := by
  rw [encodePair, List.isEmpty_eq_false_iff]
  exact List.append_ne_nil_of_right_ne_nil _ (List.cons_ne_nil _ _)

theorem not_mem_encodePair {c : Char} (hc : isWireChar c = false) (hne : c ≠ '=') (kv : Str × Str) :
    c ∉ encodePair kv := by
  intro h
  rcases List.mem_append.mp h with h | h
  · exact not_mem_encode hc _ h
  · rcases List.mem_cons.mp h with h | h
    · exact hne h
    · exact not_mem_encode hc _ h

theorem buildQueryString_eq (params : List (Str × Str)) :
    buildQueryString params = "&".toList.intercalate (params.map encodePair) := rfl

theorem splitOn_buildQueryString {params : List (Str × Str)} (hne : params ≠ []) :
    (buildQueryString params).splitOn '&' = params.map encodePair := by
  rw [buildQueryString_eq]
  refine List.splitOn_intercalate '&' ?_ (mt List.map_eq_nil_iff.mp hne)
  intro piece hpiece
  obtain ⟨kv, -, rfl⟩ := List.mem_map.mp hpiece
  exact not_mem_encodePair (by decide) (by decide) kv

theorem filter_encodePair (params : List (Str × Str)) :
    (params.map encodePair).filter (fun pair => !pair.isEmpty) = params.map encodePair := by
  apply List.filter_eq_self.mpr
  intro piece hpiece
  obtain ⟨kv, -, rfl⟩ := List.mem_map.mp hpiece
  rw [encodePair_isEmpty]
  rfl

theorem queryPieces_buildQueryString (params : List (Str × Str)) :
    queryPieces (buildQueryString params) = params.map encodePair := by
  by_cases hne : params = []
  · rw [hne]
    rfl
  · rw [queryPieces, splitOn_buildQueryString hne, filter_encodePair]

theorem parse_buildQueryString {params : List (Str × Str)} (h : BytePairs params) :
    parseQueryStringIntoParams (buildQueryString params) = params := by
  rw [parseQueryStringIntoParams, queryPieces_buildQueryString, map_queryPair h]

theorem strip_self {p : Char → Bool} {s : Str} (h : ∀ c ∈ s, p c = false) : strip p p s = s := by
  have hfix : ∀ {t : Str}, (∀ c ∈ t, p c = false) → t.dropWhile p = t := by
    intro t ht
    cases t with
    | nil => rfl
    | cons c t => exact List.dropWhile_cons_of_neg (by simp [ht c List.mem_cons_self])
  rw [strip, hfix h, hfix fun c hc => h c (List.mem_reverse.mp hc), List.reverse_reverse]

theorem trimPiece_encodePair (kv : Str × Str) : trimPiece (encodePair kv) = encodePair kv := by
  apply strip_self
  intro c hc
  have hspace : c ≠ ' ' := fun heq => not_mem_encodePair (by decide) (by decide) kv (heq ▸ hc)
  have htab : c ≠ '\t' := fun heq => not_mem_encodePair (by decide) (by decide) kv (heq ▸ hc)
  simp [isSpaceOrTab, hspace, htab]

theorem eraseDups_map {α β : Type} [BEq α] [LawfulBEq α] [BEq β] [LawfulBEq β] {f : α → β} {g : β → α} {l : List α}
    (h : ∀ a ∈ l, g (f a) = a) : (l.map f).eraseDups = l.eraseDups.map f := by
  induction hn : l.length using Nat.strong_induction_on generalizing l with
  | _ n ih =>
    cases l with
    | nil => rfl
    | cons a l =>
      obtain ⟨ha, hl⟩ := List.forall_mem_cons.mp h
      have hfilter : (l.map f).filter (fun b => !b == f a) = (l.filter fun b => !b == a).map f := by
        rw [List.filter_map]
        congr 1
        apply List.filter_congr
        intro b hb
        have hiff : f b = f a ↔ b = a := ⟨fun he => by rw [← hl b hb, he, ha], fun he => he ▸ rfl⟩
        rw [Function.comp_apply, Bool.eq_iff_iff]
        simp [hiff]
      have hshort : (l.filter fun b => !b == a).length < n := by
        rw [← hn, List.length_cons]
        exact Nat.lt_succ_of_le (List.length_filter_le _ _)
      rw [List.map_cons, List.eraseDups_cons, List.eraseDups_cons, List.map_cons, hfilter,
        ih _ hshort (fun b hb => hl b (List.mem_of_mem_filter hb)) rfl]

theorem encode_isEmpty {s : Str} : (encodeQueryComponent s).isEmpty = s.isEmpty := by
  cases s with
  | nil => rfl
  | cons c s =>
    have hne : encodeChar c ≠ [] := by
      unfold encodeChar
      split_ifs <;> exact List.cons_ne_nil _ _
    rw [encodeQueryComponent_eq, List.flatMap_cons, List.isEmpty_cons, List.isEmpty_eq_false_iff]
    exact List.append_ne_nil_of_left_ne_nil hne _

theorem parseQueryText_buildQueryString {params : List (Str × Str)} (h : BytePairs params) :
    parseQueryText (buildQueryString params) =
      params.eraseDups.filter fun kv => !kv.1.isEmpty := by
  by_cases hne : params = []
  · rw [hne]
    decide
  · have htrim : (params.map encodePair).map trimPiece = params.map encodePair := by
      rw [List.map_map]
      exact List.map_congr_left fun kv _ => trimPiece_encodePair kv
    have hmem : ∀ kv ∈ params.eraseDups.filter (fun kv => !kv.1.isEmpty), kv ∈ params := by
      intro kv hkv
      exact List.mem_eraseDups.mp (List.mem_of_mem_filter hkv)
    rw [parseQueryText, splitOn_buildQueryString hne, htrim, filter_encodePair,
      eraseDups_map (f := encodePair) (g := queryPair) fun kv hkv => queryPair_encodePair (h kv hkv)]
    rw [List.filter_map]
    have hname : ((fun kv : Str => !(kv.takeWhile fun d => decide (d ≠ '=')).isEmpty) ∘ encodePair) =
        fun kv => !kv.1.isEmpty := by
      funext kv
      rw [Function.comp_apply, (cut_encodePair kv).1, encode_isEmpty]
    rw [hname]
    exact map_queryPair fun kv hkv => h kv (hmem kv hkv)

theorem plain_altPath {path : Str} (h : ∀ c ∈ path, c ≠ '?' ∧ c ≠ '#') :
    ∀ c ∈ altPath path, c ≠ '?' ∧ c ≠ '#' := by
  intro c hc
  unfold altPath stripTrailingSlash at hc
  split at hc
  · exact h c (List.dropLast_subset path hc)
  · rcases List.mem_append.mp hc with hc | hc
    · exact h c hc
    · rw [List.mem_singleton.mp hc]
      decide

theorem buildQueryString_eq_nil {params : List (Str × Str)} (h : (buildQueryString params).isEmpty = true) :
    params = [] := by
  by_contra hne
  have hsplit := splitOn_buildQueryString hne
  rw [List.isEmpty_iff.mp h] at hsplit
  obtain ⟨kv, params, rfl⟩ := List.exists_cons_of_ne_nil hne
  have hpair : ([] : Str) = encodePair kv := (List.cons.inj hsplit).1
  have hempty := encodePair_isEmpty kv
  rw [← hpair] at hempty
  cases hempty

theorem cut_redirectLocation {req : HttpRequest} (hplain : ∀ c ∈ req.path, c ≠ '?' ∧ c ≠ '#') :
    (redirectLocation req).takeWhile (fun c => decide (c ≠ '?')) = altPath req.path ∧
      ((redirectLocation req).dropWhile fun c => decide (c ≠ '?')).drop 1 = buildQueryString req.params := by
  have hpath : '?' ∉ altPath req.path := fun hc => (plain_altPath hplain _ hc).1 rfl
  unfold redirectLocation
  dsimp only
  split
  · next hempty =>
    have hall : ∀ c ∈ altPath req.path, decide (c ≠ '?') = true := fun c hc =>
      decide_eq_true (plain_altPath hplain c hc).1
    rw [List.takeWhile_eq_self_iff.mpr hall, List.dropWhile_eq_nil_iff.mpr hall,
      List.isEmpty_iff.mp hempty]
    exact ⟨rfl, rfl⟩
  · rw [(cut_at hpath).1, (cut_at hpath).2]
    exact ⟨rfl, rfl⟩

theorem inProcess_redirect {req : HttpRequest} (hplain : ∀ c ∈ req.path, c ≠ '?' ∧ c ≠ '#')
    (hbytes : BytePairs req.params) (method body : Str) :
    (inProcessRequest method (redirectLocation req) body).path = altPath req.path ∧
      (inProcessRequest method (redirectLocation req) body).params = req.params := by
  obtain ⟨hpath, hquery⟩ := cut_redirectLocation hplain
  have hne : (altPath req.path).isEmpty = false := List.isEmpty_eq_false_iff.mpr (altPath_ne_nil req.path)
  constructor
  · show (if ((redirectLocation req).takeWhile fun c => decide (c ≠ '?')).isEmpty then _ else _) = _
    rw [hpath, hne, if_neg Bool.false_ne_true]
  · show parseQueryStringIntoParams _ = _
    rw [hquery, parse_buildQueryString hbytes]

theorem not_mem_buildQueryString {c : Char} (hc : isWireChar c = false) (heq : c ≠ '=') (hamp : c ≠ '&')
    (params : List (Str × Str)) : c ∉ buildQueryString params := by
  rw [buildQueryString_eq]
  induction params with
  | nil => exact List.not_mem_nil
  | cons kv params ih =>
    cases params with
    | nil =>
      rw [List.map_cons, List.map_nil, List.intercalate_singleton]
      exact not_mem_encodePair hc heq kv
    | cons kv' params =>
      rw [List.map_cons] at ih
      rw [List.map_cons, List.map_cons, List.intercalate_cons_cons, List.mem_append, List.mem_append]
      rintro ((h | h) | h)
      · exact not_mem_encodePair hc heq kv h
      · exact hamp (List.mem_singleton.mp h)
      · exact ih h

theorem query_redirectLocation {req : HttpRequest} (hplain : ∀ c ∈ req.path, c ≠ '?' ∧ c ≠ '#') :
    (parseUriRef (redirectLocation req)).query =
      if req.params = [] then none else some (buildQueryString req.params) := by
  have hall : ∀ c ∈ altPath req.path, (decide (c ≠ '?') && decide (c ≠ '#')) = true := fun c hc => by
    simp [plain_altPath hplain c hc]
  show (parseQuery ((redirectLocation req).dropWhile fun c => decide (c ≠ '?') && decide (c ≠ '#'))).1 = _
  unfold redirectLocation
  dsimp only
  split
  · next hempty =>
    rw [List.dropWhile_eq_nil_iff.mpr hall, if_pos (buildQueryString_eq_nil hempty)]
    rfl
  · next hempty =>
    have hne : req.params ≠ [] := by
      rintro hnil
      rw [hnil] at hempty
      exact hempty rfl
    have hhash : ∀ c ∈ buildQueryString req.params, decide (c ≠ '#') = true := by
      intro c hc
      refine decide_eq_true ?_
      rintro rfl
      exact not_mem_buildQueryString (by decide) (by decide) (by decide) req.params hc
    rw [List.dropWhile_append_of_pos hall, List.dropWhile_cons_of_neg (by simp), if_neg hne]
    show some ((buildQueryString req.params).takeWhile fun c => decide (c ≠ '#')) = _
    rw [List.takeWhile_eq_self_iff.mpr hhash]

theorem query_resolve {base : HttpUri} {s : Str} (h : hierPart s ≠ []) :
    (base.resolve (parseUriRef s)).query = (parseUriRef s).query := by
  unfold HttpUri.resolve
  split
  · rfl
  · next hscheme =>
    split
    · rfl
    · next hauthority =>
      have hpath : (parseUriRef s).path ≠ [] := by
        rcases parseScheme_cases (hierPart s) with ⟨name, rest, hparse, -⟩ | hparse
        · have hsome : (parseUriRef s).scheme = (parseScheme (hierPart s)).1 := rfl
          rw [hsome, hparse] at hscheme
          exact absurd rfl hscheme
        · have hpath : (parseUriRef s).path = (parseAuthority (parseScheme (hierPart s)).2).2 := rfl
          have hsome : (parseUriRef s).authority =
            (parseAuthority (parseScheme (hierPart s)).2).1 := rfl
          rw [hparse] at hpath hsome
          rcases parseAuthority_cases (hierPart s) with ⟨name, rest, hrest, -⟩ | hrest
          · rw [hsome, hrest] at hauthority
            exact absurd rfl hauthority
          · rwa [hpath, hrest]
      rw [if_neg hpath]
      split <;> rfl

/-- A redirect is followed to its end. Through the in-process entry the next request has the other path,
the query's pairs as they were and no redirect again. Over a connection the reference resolves to a query
from which the next request has the pairs with a name, each pair once. -/
theorem redirect_followed {options : ServeOptions} {g : GraphqlState} {s : RouteState} {req : HttpRequest}
    {alt : Str} (h : dispatch options g s req = .redirect alt)
    (hplain : ∀ c ∈ req.path, c ≠ '?' ∧ c ≠ '#') (hbytes : BytePairs req.params) (method body : Str)
    (base : HttpUri) :
    let next := inProcessRequest method (redirectLocation req) body
    (next.path = altPath req.path ∧ next.params = req.params ∧
      (dispatch options g s next).status ≠ some 307) ∧
    parseQueryText ((base.resolve (parseUriRef (redirectLocation req))).query.getD []) =
      req.params.eraseDups.filter fun kv => !kv.1.isEmpty := by
  obtain ⟨hpath, hparams⟩ := inProcess_redirect hplain hbytes method body
  refine ⟨⟨hpath, hparams, ?_⟩, ?_⟩
  · apply not_redirected
    rw [hpath]
    exact (redirect_cases h).1
  · have hhier : hierPart (redirectLocation req) ≠ [] := by
      rw [hierPart_redirectLocation, hierPart_eq (plain_altPath hplain)]
      exact altPath_ne_nil req.path
    rw [query_resolve hhier, query_redirectLocation hplain]
    split
    · next hnil =>
      rw [hnil]
      decide
    · exact parseQueryText_buildQueryString hbytes

/-- `/items/?tag=a+b&tag=a+b` where the route is `/items`: the repeated pair is lost on a connection. -/
theorem redirect_followed_tags :
    let tag := ("tag".toList, "a b".toList)
    let req : HttpRequest := ⟨"GET".toList, "/items/".toList, [tag, tag], []⟩
    (inProcessRequest "GET".toList (redirectLocation req) []).params = [tag, tag] ∧
      parseQueryText ((exampleBase.resolve (parseUriRef (redirectLocation req))).query.getD []) = [tag] := by
  intro tag req
  let s := { emptyRoutes with routes := [getRoute "items".toList "/items".toList] }
  have hredirect : dispatch ⟨1024, [], true⟩ emptyGraphql s req = .redirect "/items".toList := rfl
  have hall : (req.path.all fun c => decide (c ≠ '?' ∧ c ≠ '#')) = true := by decide
  have hplain : ∀ c ∈ req.path, c ≠ '?' ∧ c ≠ '#' := fun c hc =>
    of_decide_eq_true (List.all_eq_true.mp hall c hc)
  have hbytes : BytePairs req.params := by
    intro kv hkv
    have htag : kv = tag := by simpa [req] using hkv
    rw [htag]
    exact ⟨by decide, by decide⟩
  obtain ⟨⟨-, hparams, -⟩, hquery⟩ :=
    redirect_followed hredirect hplain hbytes "GET".toList [] exampleBase
  refine ⟨hparams, hquery.trans ?_⟩
  decide

end Quackapi.Http
