import Quackapi.Http.Dispatch
import Quackapi.Library.Uri

/-! Where a trailing-slash redirect leads. The `Location` is the decoded path as it stands, so a client
reads it as the path that was meant only when nothing in it means something to a URI. -/

namespace Quackapi.Http
open Library Graphql

def hexValue (c : Char) : Option Nat :=
  if '0' ≤ c ∧ c ≤ '9' then some (c.toNat - '0'.toNat)
  else if 'A' ≤ c ∧ c ≤ 'F' then some (c.toNat - 'A'.toNat + 10)
  else if 'a' ≤ c ∧ c ≤ 'f' then some (c.toNat - 'a'.toNat + 10)
  else none

/-- `from_hex_to_i`. -/
def fromHex (digits : Str) : Option Nat :=
  digits.foldl (fun value c => value.bind fun v => (hexValue c).map (v * 16 + ·)) (some 0)

/-- The bytes of a code point; a surrogate has none. -/
def toUtf8 (code : Nat) : Str :=
  if code < 0x80 then [Char.ofNat code]
  else if code < 0x800 then
    [Char.ofNat (0xC0 ||| (code >>> 6 &&& 0x1F)), Char.ofNat (0x80 ||| (code &&& 0x3F))]
  else if code < 0xD800 ∨ (0xE000 ≤ code ∧ code < 0x10000) then
    [Char.ofNat (0xE0 ||| (code >>> 12 &&& 0xF)), Char.ofNat (0x80 ||| (code >>> 6 &&& 0x3F)),
      Char.ofNat (0x80 ||| (code &&& 0x3F))]
  else []

/-- `%XX` is a byte and `%uXXXX` a code point; any other `%` stays. -/
def decodePathComponent : Str → Str
  | [] => []
  | '%' :: 'u' :: a :: b :: c :: d :: rest =>
    match fromHex [a, b, c, d] with
    | some code => toUtf8 code ++ decodePathComponent rest
    | none => '%' :: decodePathComponent ('u' :: a :: b :: c :: d :: rest)
  | '%' :: a :: b :: rest =>
    match fromHex [a, b] with
    | some byte => Char.ofNat byte :: decodePathComponent rest
    | none => '%' :: decodePathComponent (a :: b :: rest)
  | c :: rest => c :: decodePathComponent rest

def hexDigit (n : Nat) : Char := (Nat.digitChar n).toUpper

def isQuerySafe (c : Char) : Bool :=
  c.isAlphanum || "-._~!$'()*,;:@/?".toList.contains c

def encodeQueryComponent (component : Str) : Str :=
  component.flatMap fun c =>
    if isQuerySafe c then [c]
    else if c = ' ' then ['+']
    else ['%', hexDigit (c.toNat / 16 % 16), hexDigit (c.toNat % 16)]

def buildQueryString (params : List (Str × Str)) : Str :=
  "&".toList.intercalate <|
    params.map fun kv => encodeQueryComponent kv.1 ++ '=' :: encodeQueryComponent kv.2

def isFieldVchar (c : Char) : Bool :=
  (decide (33 ≤ c.toNat) && decide (c.toNat ≤ 126)) || decide (128 ≤ c.toNat)

/-- `is_field_content`: visible at both ends, with blanks in between at most. -/
def isFieldValue (s : Str) : Bool :=
  s.isEmpty || ((s.head?.any isFieldVchar) && (s.getLast?.any isFieldVchar) &&
    s.all fun c => c == ' ' || c == '\t' || isFieldVchar c)

def redirectLocation (req : HttpRequest) : Str :=
  let qs := buildQueryString req.params
  if qs.isEmpty then altPath req.path else altPath req.path ++ '?' :: qs

/-- The HTTP library leaves a header out whose value is none. -/
def locationHeader (req : HttpRequest) : Option Str :=
  if isFieldValue (redirectLocation req) then some (redirectLocation req) else none

theorem length_toUtf8 (code : Nat) : (toUtf8 code).length ≤ 3 := by
  unfold toUtf8
  split_ifs <;> simp

theorem decodePathComponent_cases (s : Str) :
    (decodePathComponent s).length < s.length ∨ decodePathComponent s = s := by
  -- a character that stays, before a rest that is shortened or stays
  have hstay : ∀ (c : Char) {rest : Str}, (decodePathComponent rest).length < rest.length ∨
      decodePathComponent rest = rest →
      (c :: decodePathComponent rest).length < (c :: rest).length ∨
        c :: decodePathComponent rest = c :: rest := by
    intro c rest h
    exact h.imp Nat.succ_lt_succ (congrArg (c :: ·))
  have hle : ∀ {rest : Str}, (decodePathComponent rest).length < rest.length ∨
      decodePathComponent rest = rest → (decodePathComponent rest).length ≤ rest.length := by
    rintro rest (h | h)
    · exact Nat.le_of_lt h
    · rw [h]
  induction s using decodePathComponent.induct with
  | case1 => exact .inr rfl
  | case2 a b c d rest code hhex ih =>
    left
    have hutf8 := length_toUtf8 code
    have hrest := hle ih
    rw [decodePathComponent, hhex, List.length_append]
    simp only [List.length_cons]
    omega
  | case3 a b c d rest hhex ih =>
    rw [decodePathComponent, hhex]
    exact hstay '%' ih
  | case4 a b rest hnot byte hhex ih =>
    left
    have hrest := hle ih
    rw [decodePathComponent, hhex]
    · simp only [List.length_cons]
      omega
    · exact hnot
  | case5 a b rest hnot hhex ih =>
    rw [decodePathComponent, hhex]
    · exact hstay '%' ih
    · exact hnot
  | case6 c rest hnot hnot' ih =>
    rw [decodePathComponent]
    · exact hstay c ih
    · exact hnot
    · exact hnot'

theorem decodePathComponent_rooted (rest : Str) :
    decodePathComponent ('/' :: rest) = '/' :: decodePathComponent rest := by
  rw [decodePathComponent]
  · intro a b c d rest h
    cases h
  · intro a b rest h
    cases h

/-- The redirect stays on the origin, leads to the path with its trailing slash toggled, and ends
there: the path is registered and no request to it is redirected again. -/
def RedirectFaithful (options : ServeOptions) (g : GraphqlState) (s : RouteState)
    (req : HttpRequest) (base : HttpUri) : Prop :=
  ∃ location, locationHeader req = some location ∧
    (base.resolve (parseUriRef location)).scheme = some base.scheme ∧
    (base.resolve (parseUriRef location)).authority = some base.authority ∧
    decodePathComponent (base.resolve (parseUriRef location)).path = altPath req.path ∧
    PathTaken (liveRoutes s) (liveStreams s) (altPath req.path) ∧
    ∀ next : HttpRequest,
      next.path = decodePathComponent (base.resolve (parseUriRef location)).path →
        (dispatch options g s next).status ≠ some 307

/-- Nothing in the target means anything to a URI. -/
structure SafeTarget (req : HttpRequest) : Prop where
  /-- It is a path with a slash at its start, and not two. -/
  rooted : ∃ rest, altPath req.path = '/' :: rest ∧ rest.head? ≠ some '/' ∧
    ∀ segment ∈ rest.splitOn '/', isDotSegment segment = false
  plain : ∀ c ∈ altPath req.path, c ≠ '?' ∧ c ≠ '#'
  decoded : decodePathComponent (altPath req.path) = altPath req.path
  /-- It is a header value: no control characters, and no blank at its end. -/
  header : isFieldValue (redirectLocation req) = true

theorem altPath_ne_nil (path : Str) : altPath path ≠ [] := by
  unfold altPath stripTrailingSlash
  split
  · next h =>
    have hlength := of_decide_eq_true (Bool.and_eq_true_iff.mp h).1
    intro hnil
    have hzero := congrArg List.length hnil
    rw [List.length_dropLast, List.length_nil] at hzero
    omega
  · exact List.append_ne_nil_of_right_ne_nil _ (List.cons_ne_nil _ _)

theorem hierPart_redirectLocation (req : HttpRequest) :
    hierPart (redirectLocation req) = hierPart (altPath req.path) := by
  unfold redirectLocation
  dsimp only
  split
  · rfl
  · unfold hierPart
    rw [List.takeWhile_append]
    split
    · next h =>
      have hall := (List.takeWhile_prefix _).eq_of_length h
      rw [hall]
      exact List.append_nil _
    · rfl

section
variable {options : ServeOptions} {g : GraphqlState} {s : RouteState} {req : HttpRequest}

theorem redirect_cases {alt : Str} (h : dispatch options g s req = .redirect alt) :
    PathTaken (liveRoutes s) (liveStreams s) (altPath req.path) ∧
      ¬ PathTaken (liveRoutes s) (liveStreams s) req.path := by
  have hscan := scanRegistry_spec req (liveRoutes s) (liveStreams s)
  unfold dispatch at h
  split at h
  · cases h
  unfold dispatchRegistry at h
  dsimp only at h
  split_ifs at h
  generalize scanRegistry req (liveRoutes s) (liveStreams s) = a at h hscan
  unfold answerScan at h
  split at h
  · cases h
  · cases h
  next hroute hstream =>
  have hnone : a.handler = none := by
    rw [RouteScan.handler, hroute, hstream]
    rfl
  have hscanned := hscan.2 (hscan.1.symm.trans hnone)
  split_ifs at h with hws hcond
  rw [Bool.and_eq_true, Bool.and_eq_true, Bool.and_eq_true, List.isEmpty_iff] at hcond
  obtain ⟨⟨⟨_, hempty⟩, _⟩, hregistered⟩ := hcond
  have hmethods : ∀ m, ¬ (RouteMethod (liveRoutes s) req.path m ∨
      StreamMethod (liveStreams s) req.path m) := by
    intro m hm
    have hin := (hscanned.methods m).mpr hm
    rw [hempty] at hin
    cases hin
  refine ⟨pathRegistered_iff.mp hregistered, ?_⟩
  rintro (⟨r, hr, hmatch⟩ | ⟨stream, hmem, hmatch⟩)
  · exact hmethods r.method (.inl ⟨r, hr, hmatch, rfl⟩)
  · rcases htransport : stream.transport with _ | _
    · exact hmethods stream.method (.inr ⟨stream, hmem, htransport, hmatch, rfl⟩)
    · exact hws (hscanned.websocket.mpr ⟨stream, hmem, htransport, hmatch⟩)

theorem not_redirected (htaken : PathTaken (liveRoutes s) (liveStreams s) req.path) :
    (dispatch options g s req).status ≠ some 307 := by
  intro hstatus
  rcases hanswer : dispatch options g s req with _ | _ | _ | _ | _ | _ | alt | _ | _
  all_goals first
    | exact (redirect_cases hanswer).2 htaken
    | (rw [hanswer] at hstatus; cases hstatus)

theorem mem_hierPart {path : Str} {c : Char} (h : hierPart path = path) (hc : c ∈ path) :
    c ≠ '?' ∧ c ≠ '#' := by
  rw [← h] at hc
  have hcond := List.mem_takeWhile_imp hc
  rw [Bool.and_eq_true, decide_eq_true_eq, decide_eq_true_eq] at hcond
  exact hcond

theorem hierPart_eq {path : Str} (h : ∀ c ∈ path, c ≠ '?' ∧ c ≠ '#') : hierPart path = path := by
  refine List.takeWhile_eq_self_iff.mpr fun c hc => ?_
  rw [Bool.and_eq_true, decide_eq_true_eq, decide_eq_true_eq]
  exact h c hc

theorem resolve_safe (hsafe : SafeTarget req) (base : HttpUri) :
    (base.resolve (parseUriRef (redirectLocation req))).scheme = some base.scheme ∧
      (base.resolve (parseUriRef (redirectLocation req))).authority = some base.authority ∧
      (base.resolve (parseUriRef (redirectLocation req))).path = altPath req.path := by
  obtain ⟨rest, hroot, hsingle, hdots⟩ := hsafe.rooted
  have hhier : hierPart (redirectLocation req) = '/' :: rest := by
    rw [hierPart_redirectLocation, hierPart_eq hsafe.plain, hroot]
  have hauthority : parseAuthority ('/' :: rest) = (none, '/' :: rest) := by
    unfold parseAuthority
    split
    · next tail heq =>
      rw [(List.cons.inj heq).2] at hsingle
      exact absurd rfl hsingle
    · rfl
  have hparse : (parseUriRef (redirectLocation req)).scheme = none ∧
      (parseUriRef (redirectLocation req)).authority = none ∧
      (parseUriRef (redirectLocation req)).path = '/' :: rest := by
    have hscheme : parseScheme ('/' :: rest) = (none, '/' :: rest) := rfl
    simp only [parseUriRef, hhier, hscheme, hauthority, and_self]
  rw [resolve_rooted hparse.1 hparse.2.1 (by rw [hparse.2.2]; rfl), hparse.2.2, hroot]
  exact ⟨rfl, rfl, removeDotSegments_eq_self_iff.mpr hdots⟩

/-- Whatever a reader of a path does can only shorten it, so a path that comes back is one that none
of it changes. -/
theorem unshortened {p : Str} (h : decodePathComponent (removeDotSegments (hierPart p)) = p) :
    hierPart p = p ∧ removeDotSegments p = p ∧ decodePathComponent p = p := by
  have hprefix := (hierPart_isInitial p).length_le
  have hdots := length_removeDotSegments_le (hierPart p)
  have hlength := congrArg List.length h
  have hfixed : decodePathComponent (removeDotSegments (hierPart p)) =
      removeDotSegments (hierPart p) := by
    refine (decodePathComponent_cases _).resolve_left fun hlt => ?_
    omega
  have hremoved : removeDotSegments (hierPart p) = p := hfixed.symm.trans h
  have hwhole : hierPart p = p := by
    refine (hierPart_isInitial _).eq_of_length ?_
    rw [hremoved] at hdots
    omega
  rw [hwhole] at hremoved hfixed
  exact ⟨hwhole, hremoved, by rwa [hremoved] at hfixed⟩

theorem rooted_of_resolve {base : HttpUri} {r : UriRef} {p : Str} (hscheme : r.scheme = none)
    (hauthority : r.authority = none) (hp : r.path = hierPart p) (hne : p ≠ [])
    (hpath : decodePathComponent (base.resolve r).path = p) : p.head? = some '/' := by
  by_contra hrootless
  have hhead : (hierPart p).head? ≠ some '/' := by
    intro hslash
    obtain ⟨tail, htail⟩ := hierPart_isInitial p
    rw [← htail, List.head?_append, hslash] at hrootless
    exact hrootless rfl
  have hresolve : (base.resolve r).path = [] ∨ (base.resolve r).path.head? = some '/' :=
    resolve_rootless hscheme hauthority (by rwa [hp])
  rcases hresolve with hnil | hrooted
  · rw [hnil] at hpath
    exact hne hpath.symm
  · rcases rooted_cases (base.resolve r).path with ⟨rest, hrest⟩ | hno
    · rw [hrest, decodePathComponent_rooted] at hpath
      rw [← hpath] at hrootless
      exact hrootless rfl
    · exact hno hrooted

theorem safe_of_path {base : HttpUri} (hheader : isFieldValue (redirectLocation req) = true)
    (hpath : decodePathComponent (base.resolve (parseUriRef (redirectLocation req))).path =
      altPath req.path) : SafeTarget req := by
  have hhier := hierPart_redirectLocation req
  rcases resolve_cases base (redirectLocation req) with hshort | ⟨hscheme, hauthority, hp⟩
  · -- the text of a scheme or an authority is missing from the path
    have hprefix := (hierPart_isInitial (altPath req.path)).length_le
    have hlength := congrArg List.length hpath
    rw [hhier] at hshort
    rcases decodePathComponent_cases (base.resolve (parseUriRef (redirectLocation req))).path with
      hlt | heq
    · omega
    · rw [heq] at hlength
      omega
  rw [hhier] at hp
  have hrooted := rooted_of_resolve hscheme hauthority hp (altPath_ne_nil req.path) hpath
  obtain ⟨rest, hroot⟩ : ∃ rest, altPath req.path = '/' :: rest :=
    (rooted_cases (altPath req.path)).resolve_right fun hno => hno hrooted
  have hresolve : (base.resolve (parseUriRef (redirectLocation req))).path =
      removeDotSegments (parseUriRef (redirectLocation req)).path :=
    congrArg UriRef.path (resolve_rooted hscheme hauthority (by rw [hp, hroot]; rfl))
  rw [hresolve, hp] at hpath
  obtain ⟨hwhole, hremoved, hfixed⟩ := unshortened hpath
  have hsingle : rest.head? ≠ some '/' := by
    intro hslash
    obtain ⟨tail, rfl⟩ : ∃ tail, rest = '/' :: tail :=
      (rooted_cases rest).resolve_right fun hno => hno hslash
    have hnone : (parseAuthority (parseScheme (hierPart (redirectLocation req))).2).1 = none :=
      hauthority
    rw [hhier, hwhole, hroot] at hnone
    cases hnone
  refine ⟨⟨rest, hroot, hsingle, ?_⟩, fun c hc => mem_hierPart hwhole hc, hfixed, hheader⟩
  rw [hroot] at hremoved
  exact removeDotSegments_eq_self_iff.mp hremoved

/-- A redirect is faithful exactly when its target is safe. -/
theorem redirect_faithful_iff {alt : Str} (h : dispatch options g s req = .redirect alt)
    (base : HttpUri) : RedirectFaithful options g s req base ↔ SafeTarget req := by
  have htaken := (redirect_cases h).1
  constructor
  · rintro ⟨location, hlocation, _, _, hpath, _, _⟩
    unfold locationHeader at hlocation
    split at hlocation
    · next hheader =>
      cases hlocation
      exact safe_of_path hheader hpath
    · cases hlocation
  · intro hsafe
    obtain ⟨hscheme, hauthority, hpath⟩ := resolve_safe hsafe base
    have hdecoded : decodePathComponent
        (base.resolve (parseUriRef (redirectLocation req))).path = altPath req.path := by
      rw [hpath, hsafe.decoded]
    refine ⟨redirectLocation req, if_pos hsafe.header, hscheme, hauthority, hdecoded, htaken, ?_⟩
    intro next hnext
    refine not_redirected ?_
    rw [hnext, hdecoded]
    exact htaken

end

def exampleBase : HttpUri :=
  ⟨"http".toList, "api.example.com".toList, "/items/".toList, none, .inr rfl⟩

/-- `/items/` where the route is `/items`. -/
theorem redirect_faithful_items :
    let s := { emptyRoutes with routes := [getRoute "items".toList "/items".toList] }
    let req : HttpRequest := ⟨"GET".toList, "/items/".toList, [("limit".toList, "5".toList)], []⟩
    RedirectFaithful ⟨1024, [], true⟩ emptyGraphql s req exampleBase := by
  intro s req
  have hredirect : dispatch ⟨1024, [], true⟩ emptyGraphql s req = .redirect "/items".toList := rfl
  refine (redirect_faithful_iff hredirect exampleBase).mpr ⟨⟨"items".toList, rfl, ?_, ?_⟩, ?_, ?_, ?_⟩
  · decide
  · decide
  · have hplain : ((altPath req.path).all fun c => decide (c ≠ '?' ∧ c ≠ '#')) = true := by decide
    exact fun c hc => of_decide_eq_true (List.all_eq_true.mp hplain c hc)
  · rfl
  · decide

/-- The redirect of `//evil.example/` where the route is `/:x` leaves the origin. -/
theorem redirect_leaves_origin :
    let s := { emptyRoutes with routes := [getRoute "any".toList "/:x".toList] }
    let req : HttpRequest := ⟨"GET".toList, "//evil.example/".toList, [], []⟩
    dispatch ⟨1024, [], true⟩ emptyGraphql s req = .redirect "//evil.example".toList ∧
      locationHeader req = some "//evil.example".toList ∧
      (exampleBase.resolve (parseUriRef "//evil.example".toList)).authority =
        some "evil.example".toList ∧
      ¬ RedirectFaithful ⟨1024, [], true⟩ emptyGraphql s req exampleBase := by
  intro s req
  have hlocation : locationHeader req = some "//evil.example".toList := by decide
  have hauthority : (exampleBase.resolve (parseUriRef "//evil.example".toList)).authority =
      some "evil.example".toList := by decide
  refine ⟨rfl, hlocation, hauthority, ?_⟩
  rintro ⟨location, hloc, _, hsame, _⟩
  cases hlocation.symm.trans hloc
  rw [hauthority] at hsame
  exact absurd hsame (by decide)

end Quackapi.Http
