import Quackapi.Params.Handlers

/-! Claims are bound by the server: what a `$claims_` parameter gets is the verified result of
authentication, whatever the request says. Streams are the exception, and this module says when. -/

namespace Quackapi.Params
open Library

inductive Endpoint
  /-- A route of a group is a route. -/
  | route (r : Route)
  | stream (s : Stream)
  | middleware (r : Route) (m : Handler)
  | graphql (g : GraphqlEndpoint)

/-- All that comes with one request, to whichever endpoint it goes. -/
structure Exchange where
  req : Request
  messages : List Str
  context : MiddlewareContext
  query : Str

namespace Endpoint

def bindings (e : BodyEngine) (h : Endpoint) (verified : Auth.AuthResult) (x : Exchange) :
    Except Refusal Bindings :=
  match h with
  | .route r => bindRoute e r verified x.req
  | .stream s => bindSession e.toParamEngine s x.req x.messages
  | .middleware r m => bindRouteMiddleware r m verified x.context
  | .graphql g => bindGraphql g verified x.query

/-- Whether the caller is authenticated, and the verified claims. -/
def identity (h : Endpoint) (verified : Auth.AuthResult) : Bool × List (Str × Str) :=
  match h with
  | .route r => (authenticated r verified, (routeAuth r verified).claims)
  | .stream _ => (false, [])
  | .middleware r _ => (authenticated r verified, (routeAuth r verified).claims)
  | .graphql g => ((graphqlAuth g verified).ok, ((graphqlClaims g verified).getD []))

end Endpoint

def SameIdentity (i j : Bool × List (Str × Str)) : Prop :=
  i.1 = j.1 ∧ ∀ key, i.2.lookup key = j.2.lookup key

/-- Requests of one identity bind the claims alike, and a caller who is not authenticated has none. -/
structure ClaimsSealed (e : BodyEngine) (h : Endpoint) : Prop where
  agree : ∀ {a a' : Auth.AuthResult} {x x' : Exchange} {b b' : Bindings},
    SameIdentity (h.identity a) (h.identity a') → h.bindings e a x = .ok b →
    h.bindings e a' x' = .ok b' → ∀ {name : Str} {v v' : Value}, (isClaimsParam name).isSome = true →
    (name, v) ∈ b → (name, v') ∈ b' → v = v'
  null : ∀ {a : Auth.AuthResult} {x : Exchange} {b : Bindings}, (h.identity a).1 = false →
    h.bindings e a x = .ok b → ∀ {name : Str} {v : Value}, (isClaimsParam name).isSome = true →
    (name, v) ∈ b → v = .null

/-- Every claims parameter has the value of its claim. -/
def ServerBound (claims : List (Str × Str)) (b : Bindings) : Prop :=
  ∀ x ∈ b, ∀ key, isClaimsParam x.1 = some key → x.2 = claimValue claims key

theorem isClaimsParam_some {name key : Str} (h : isClaimsParam name = some key) :
    claimsPrefix.isPrefixOf (lower name) = true ∧ key = name.drop claimsPrefix.length := by
  unfold isClaimsParam at h
  split at h
  · cases h
  split at h
  · next hpre =>
    cases h
    exact ⟨hpre, rfl⟩
  · cases h

theorem bindRoute_serverBound {e : BodyEngine} {r : Route} {verified : Auth.AuthResult}
    {req : Request} {b : Bindings} (h : bindRoute e r verified req = .ok b) :
    ServerBound (routeAuth r verified).claims b := by
  obtain ⟨_, _, ctx, st, hctx, _, hb⟩ := bindRoute_ok.mp h
  obtain ⟨_, hclaims⟩ := routeContext_ok hctx
  intro x hx key hkey
  obtain ⟨p, _, hname, raw, hp⟩ := param_of_binding hb hx
  have hbound : bindParam e ctx p = .bound (claimValue ctx.claims key) none := by
    rw [bindParam, ← hname, hkey]
  rw [hbound] at hp
  injection hp with hv
  rw [← hv, hclaims]

theorem bindEach_serverBound {ε : Type} {claims : List (Str × Str)}
    {bind : ParamEntry → Except ε Value}
    (hbind : ∀ p key v, isClaimsParam p.name = some key → bind p = .ok v → v = claimValue claims key)
    {ps : List ParamEntry} {b : Bindings} (h : bindEach bind ps = .ok b) : ServerBound claims b := by
  intro x hx key hkey
  obtain ⟨p, _, hname, hp⟩ := exists_of_mem_right (bindEach_ok.mp h) hx
  exact hbind p key x.2 (hname ▸ hkey) hp

theorem bindMiddleware_serverBound {m : Handler} {c : MiddlewareContext} {authenticated : Bool}
    {claims : List (Str × Str)} {b : Bindings}
    (h : bindMiddleware m c authenticated claims = .ok b) : ServerBound claims b := by
  unfold bindMiddleware at h
  split at h
  · cases h
  split at h
  · cases h
  refine bindEach_serverBound ?_ h
  intro p key v hkey hp
  rw [bindMiddlewareParam, hkey] at hp
  cases hp
  rfl

theorem bindSelectParam_claim {claims : Option (List (Str × Str))} {p : ParamEntry} {key : Str}
    {v : Value} (hkey : isClaimsParam p.name = some key) (h : bindSelectParam claims p = .ok v) :
    v = claimValue (claims.getD []) key := by
  obtain ⟨hpre, rfl⟩ := isClaimsParam_some hkey
  unfold bindSelectParam at h
  rw [hpre] at h
  rcases claims with _ | claims
  · cases h
    rfl
  · cases h
    rfl

theorem ServerBound.append {claims : List (Str × Str)} {b b' : Bindings}
    (h : ServerBound claims b) (h' : ServerBound claims b') : ServerBound claims (b ++ b') := by
  intro x hx
  rcases List.mem_append.mp hx with hx | hx
  · exact h x hx
  · exact h' x hx

theorem selectRoots_serverBound (claims : Option (List (Str × Str)))
    (roots : List (Str × Except Str Statement)) :
    ServerBound (claims.getD []) (selectRoots claims roots).1 := by
  have hnil : ServerBound (claims.getD []) [] := fun x hx => nomatch hx
  fun_induction selectRoots claims roots with
  | case1 => exact hnil
  | case2 => exact hnil
  | case3 => exact hnil
  | case4 _ _ _ b hb rest ih =>
    exact (bindEach_serverBound (fun p key v => bindSelectParam_claim) hb).append ih

theorem routeAuth_claims {r : Route} {verified : Auth.AuthResult}
    (hok : (routeAuth r verified).ok = true) (hauth : authenticated r verified = false) :
    (routeAuth r verified).claims = [] := by
  rcases hscheme : r.requireAuth.isEmpty with _ | _
  · simp only [authenticated, hscheme, hok, Bool.not_false, Bool.and_self] at hauth
    cases hauth
  · rw [routeAuth, hscheme]
    rfl

theorem serverBound {e : BodyEngine} {h : Endpoint} {verified : Auth.AuthResult} {x : Exchange}
    {b : Bindings} (hstream : ∀ s, h ≠ .stream s) (hb : h.bindings e verified x = .ok b) :
    ServerBound (h.identity verified).2 b ∧
      ((h.identity verified).1 = false → (h.identity verified).2 = []) := by
  cases h with
  | stream s => exact absurd rfl (hstream s)
  | route r =>
    obtain ⟨hok, _⟩ := bindRoute_ok.mp hb
    exact ⟨bindRoute_serverBound hb, routeAuth_claims hok⟩
  | middleware r m =>
    change bindRouteMiddleware r m verified x.context = .ok b at hb
    unfold bindRouteMiddleware at hb
    split at hb
    · cases hb
    · next hok =>
      split at hb
      · cases hb
      · exact ⟨bindMiddleware_serverBound hb, routeAuth_claims (by simpa using hok)⟩
  | graphql g =>
    change bindGraphql g verified x.query = .ok b at hb
    unfold bindGraphql at hb
    split at hb
    · cases hb
    · next hok =>
      cases hb
      refine ⟨selectRoots_serverBound _ _, fun hauth => ?_⟩
      change (graphqlAuth g verified).ok = false at hauth
      -- without a scheme there is nothing to verify; with one, the caller was refused
      rcases hscheme : g.builtIn || g.requireAuth.isEmpty with _ | _
      · simp only [graphqlAuth, hscheme, Bool.false_eq_true, if_false] at hauth
        simp only [hscheme, hauth, Bool.not_false, Bool.and_self, not_true_eq_false] at hok
      · simp only [Endpoint.identity, graphqlClaims, graphqlAuth, hscheme, if_true]
        split <;> rfl

def Readable (e : ParamEngine) (t : LogicalType) : Prop :=
  ∃ v, isUtf8 v = true ∧ (readText e t v).isSome = true

/-- A stream that names a claim, and whose other parameters a request can supply. -/
def Endpoint.Exposed (e : ParamEngine) : Endpoint → Prop
  | .stream s => s.handler.admitted false = true ∧ ∃ st, s.handler.statement false = some st ∧
      (∃ p ∈ st.params, (isClaimsParam p.name).isSome = true) ∧
      ∀ p ∈ st.params, p.name ≠ s.transport.optional → Readable e p.expected
  | _ => False

theorem readable_of_bind {e : ParamEngine} {raw : Str} {t : LogicalType} {v : Value}
    (h : bindParamValue e raw t = .ok v) : Readable e t := by
  have hutf : isUtf8 raw = true := by
    by_contra hutf
    unfold bindParamValue at h
    split at h
    · cases h
    · rw [if_pos (by simpa using hutf)] at h
      cases h
  refine ⟨raw, hutf, ?_⟩
  rw [(bindParamValue_ok hutf).mp h]
  rfl

theorem readText_ne_null {e : ParamEngine} {t : LogicalType} {raw : Str} {v : Value}
    (h : readText e t raw = some v) : v ≠ .null := by
  rintro rfl
  unfold readText at h
  split at h
  · cases h
  cases t with
  | integral i =>
    rw [tryCast] at h
    split at h
    · cases h
    · cases h
  | float | double | decimal _ _ | boolean | nested _ | other _ =>
    rw [tryCast, Option.map_eq_some_iff] at h
    obtain ⟨_, _, h⟩ := h
    cases h
  | varchar | unknown | variant => cases h

theorem bindStreamParam_ok {e : ParamEngine} {s : Stream} {provided : CiMap Str} {p : ParamEntry}
    {v : Value} :
    bindStreamParam e s provided p = .ok v ↔
      (provided.find p.name = none ∧ p.name = s.transport.optional ∧ v = .null) ∨
        ∃ raw, provided.find p.name = some raw ∧ bindParamValue e raw p.expected = .ok v := by
  unfold bindStreamParam
  rcases provided.find p.name with _ | raw
  · simp only [true_and, reduceCtorEq, false_and, exists_false, or_false]
    split
    · next hopt => simp only [hopt, true_and, Except.ok.injEq, eq_comm]
    · next hopt => simp only [hopt, reduceCtorEq, false_and]
  · simp only [reduceCtorEq, false_and, false_or, Option.some.injEq, exists_eq_left']
    rcases bindParamValue e raw p.expected with (⟨_, _⟩ | _) | w
    · exact iff_of_false nofun nofun
    · exact iff_of_false nofun nofun
    · simp only [Except.ok.injEq]

theorem bindMessage_names (e : ParamEngine) (st : Statement) (b : Bindings) (message : Str) :
    (bindMessage e st b message).map Prod.fst = b.map Prod.fst := by
  unfold bindMessage
  split
  · rfl
  split
  · rfl
  rw [List.map_map]
  refine List.map_congr_left fun x _ => ?_
  rw [Function.comp_apply]
  split <;> rfl

theorem bindMessages_names (e : ParamEngine) (st : Statement) (messages : List Str) (b : Bindings) :
    (messages.foldl (bindMessage e st) b).map Prod.fst = b.map Prod.fst := by
  induction messages generalizing b with
  | nil => rfl
  | cons message messages ih => rw [List.foldl_cons, ih, bindMessage_names]

theorem bindSession_ok {e : ParamEngine} {s : Stream} {req : Request} {messages : List Str}
    {b : Bindings} (h : bindSession e s req messages = .ok b) :
    ∃ b₀, bindStream e s req = .ok b₀ ∧ b.map Prod.fst = b₀.map Prod.fst := by
  unfold bindSession at h
  rcases hstream : bindStream e s req with _ | b₀ <;> rw [hstream] at h
  · cases h
  · refine ⟨b₀, rfl, ?_⟩
    cases h
    split
    · exact bindMessages_names e _ messages b₀
    · rfl

theorem exposed_of_session {e : ParamEngine} {s : Stream} {req : Request} {messages : List Str}
    {b : Bindings} (h : bindSession e s req messages = .ok b) {x : Str × Value} (hx : x ∈ b)
    (hclaim : (isClaimsParam x.1).isSome = true) : (Endpoint.stream s).Exposed e := by
  obtain ⟨b₀, hb₀, hnames⟩ := bindSession_ok h
  have hmem : x.1 ∈ b₀.map Prod.fst := by
    rw [← hnames]
    exact List.mem_map_of_mem hx
  obtain ⟨y, hy, hyx⟩ := List.mem_map.mp hmem
  unfold bindStream at hb₀
  split at hb₀
  · cases hb₀
  next hadm =>
  split at hb₀
  · -- the answer to a `HEAD` binds nothing
    cases hb₀
    cases hy
  split at hb₀
  · cases hb₀
  next st hst =>
  have hall := bindEach_ok.mp hb₀
  obtain ⟨p, hp, hname, _⟩ := exists_of_mem_right hall hy
  refine ⟨by simpa using hadm, st, hst, ⟨p, hp, ?_⟩, fun q hq hopt => ?_⟩
  · rwa [← hname, hyx]
  · obtain ⟨z, _, _, hz⟩ := exists_of_mem_left hall hq
    rcases bindStreamParam_ok.mp hz with ⟨_, hname, _⟩ | ⟨raw, _, hraw⟩
    · exact absurd hname hopt
    · exact readable_of_bind hraw

theorem CiMap.find_setAll {α : Type} {f : Str → α} {l : List (Str × α)}
    (h : ∀ p ∈ l, p.2 = f (lower p.1)) (m : CiMap α) (name : Str) :
    (m.setAll l).find name =
      if lower name ∈ l.map (fun p => lower p.1) then some (f (lower name)) else m.find name := by
  induction l generalizing m with
  | nil => rfl
  | cons p l ih =>
    have hset : m.setAll (p :: l) = (m.set p.1 p.2).setAll l := rfl
    rw [hset, ih fun q hq => h q (List.mem_cons_of_mem p hq), find_set, List.map_cons]
    by_cases htail : lower name ∈ l.map fun p => lower p.1
    · rw [if_pos htail, if_pos (List.mem_cons_of_mem _ htail)]
    · by_cases hhead : lower name = lower p.1
      · rw [if_neg htail, if_pos hhead, if_pos (hhead ▸ List.mem_cons_self), hhead,
          h p List.mem_cons_self]
      · rw [if_neg htail, if_neg hhead, if_neg]
        simp only [List.mem_cons, hhead, htail, or_self, not_false_eq_true]

/-- A query string with a text for each of the names, and the same texts as stamps. -/
def supply (text : Str → Str) (names : List Str) : Request where
  method := "GET".toList
  params := names.map fun n => (n, text (lower n))
  pathParams := []
  headers := []
  body := []
  formFields := []
  formFiles := []
  requestId := text "request_id".toList
  traceId := text "trace_id".toList
  spanId := text "span_id".toList

def stampNames : List Str := ["span_id".toList, "trace_id".toList, "request_id".toList]

theorem supply_find (text : Str → Str) (names : List Str) (t : StreamTransport) (name : Str) :
    (streamProvided t (supply text names)).find name =
      if lower name ∈ stampNames ++ names.map lower then some (text (lower name)) else none := by
  have hplain : streamProvided t (supply text names) =
      streamProvidedParams (supply text names) := by
    cases t with
    | ws => rfl
    | sse =>
      rw [streamProvided, withLastEventId]
      split
      · rfl
      · rfl
  have hquery : (CiMap.empty.setAll (supply text names).params).find name =
      if lower name ∈ names.map lower then some (text (lower name)) else none := by
    rw [CiMap.find_setAll (f := text)]
    · rw [supply, List.map_map]
      rfl
    · intro p hp
      obtain ⟨n, _, rfl⟩ := List.mem_map.mp hp
      rfl
  have hmem : lower name ∈ stampNames ++ names.map lower ↔ lower name = lower "span_id".toList ∨
      lower name = lower "trace_id".toList ∨ lower name = lower "request_id".toList ∨
        lower name ∈ names.map lower := by
    simp only [stampNames, List.cons_append, List.nil_append, List.mem_cons]
    exact Iff.rfl
  rw [hplain, streamProvidedParams]
  simp only [CiMap.find_set, hmem]
  by_cases hspan : lower name = lower "span_id".toList
  · rw [if_pos hspan, if_pos (.inl hspan), hspan]
    rfl
  by_cases htrace : lower name = lower "trace_id".toList
  · rw [if_neg hspan, if_pos htrace, if_pos (.inr (.inl htrace)), htrace]
    rfl
  by_cases hreq : lower name = lower "request_id".toList
  · rw [if_neg hspan, if_neg htrace, if_pos hreq, if_pos (.inr (.inr (.inl hreq))), hreq]
    rfl
  · simp only [hspan, htrace, hreq, if_false, false_or]
    exact hquery

theorem StreamTransport.optional_plain (t : StreamTransport) :
    lower t.optional ∉ stampNames ∧ isClaimsParam t.optional = none := by
  cases t with
  | sse => decide
  | ws => decide

theorem exists_texts {e : ParamEngine} {st : Statement} {select : ParamEntry → Prop}
    (h : ∀ p ∈ st.params, select p → Readable e p.expected) :
    ∃ text : Str → Str, ∀ p ∈ st.params, select p →
      ∃ v, bindParamValue e (text (lower p.name)) p.expected = .ok v ∧ v ≠ .null := by
  -- names differ by more than case, so at most one parameter asks for the text of a key
  have hone : ∀ key, ∃ raw, ∀ p ∈ st.params, select p → lower p.name = key →
      ∃ v, bindParamValue e raw p.expected = .ok v ∧ v ≠ .null := by
    intro key
    by_cases hkey : ∃ p ∈ st.params, select p ∧ lower p.name = key
    · obtain ⟨p, hp, hsel, rfl⟩ := hkey
      obtain ⟨raw, hutf, hread⟩ := h p hp hsel
      obtain ⟨v, hv⟩ := Option.isSome_iff_exists.mp hread
      refine ⟨raw, fun q hq _ hname => ⟨v, ?_, readText_ne_null hv⟩⟩
      obtain rfl : q = p := List.inj_on_of_nodup_map st.distinct hq hp hname
      exact (bindParamValue_ok hutf).mpr hv
    · exact ⟨[], fun p hp hsel hname => absurd ⟨p, hp, hsel, hname⟩ hkey⟩
  choose text htext using hone
  exact ⟨text, fun p hp hsel => htext _ p hp hsel rfl⟩

theorem exposed_binds {e : ParamEngine} {s : Stream} (h : (Endpoint.stream s).Exposed e) :
    ∃ req b, bindSession e s req [] = .ok b ∧
      ∃ x ∈ b, (isClaimsParam x.1).isSome = true ∧ x.2 ≠ .null := by
  obtain ⟨hadm, st, hst, ⟨c, hc, hclaim⟩, hread⟩ := h
  obtain ⟨text, htext⟩ := exists_texts hread
  let names := (st.params.filter fun p => decide (p.name ≠ s.transport.optional)).map
    ParamEntry.name
  let provided := streamProvided s.transport (supply text names)
  have hmem : ∀ p ∈ st.params, p.name ≠ s.transport.optional →
      provided.find p.name = some (text (lower p.name)) := by
    intro p hp hopt
    rw [supply_find, if_pos]
    refine List.mem_append_right _ (List.mem_map_of_mem (List.mem_map_of_mem ?_))
    exact List.mem_filter.mpr ⟨hp, decide_eq_true hopt⟩
  -- the optional parameter stays away: no other name, in any case, is its own
  have hnone : ∀ p ∈ st.params, p.name = s.transport.optional → provided.find p.name = none := by
    intro p hp hopt
    rw [supply_find, if_neg]
    intro hin
    rcases List.mem_append.mp hin with hstamp | hname
    · rw [hopt] at hstamp
      exact s.transport.optional_plain.1 hstamp
    · obtain ⟨_, hn, hlower⟩ := List.mem_map.mp hname
      obtain ⟨q, hq, rfl⟩ := List.mem_map.mp hn
      obtain ⟨hq, hqopt⟩ := List.mem_filter.mp hq
      obtain rfl : q = p := List.inj_on_of_nodup_map st.distinct hq hp hlower
      exact of_decide_eq_true hqopt hopt
  have hbind : ∀ p ∈ st.params, ∃ x : Str × Value,
      x.1 = p.name ∧ bindStreamParam e s provided p = .ok x.2 := by
    intro p hp
    by_cases hopt : p.name = s.transport.optional
    · exact ⟨(p.name, .null), rfl, bindStreamParam_ok.mpr (.inl ⟨hnone p hp hopt, hopt, rfl⟩)⟩
    · obtain ⟨v, hv, _⟩ := htext p hp hopt
      exact ⟨(p.name, v), rfl, bindStreamParam_ok.mpr (.inr ⟨_, hmem p hp hopt, hv⟩)⟩
  obtain ⟨b, hb⟩ := forall₂_exists hbind
  have hstream : bindStream e s (supply text names) = .ok b := by
    have hget : ¬ (s.transport = .sse ∧ (supply text names).method = "HEAD".toList) := by
      rintro ⟨_, hhead⟩
      cases hhead
    rw [bindStream, hadm, hst, if_neg (by simp), if_neg hget]
    exact bindEach_ok.mpr hb
  refine ⟨supply text names, b, ?_, ?_⟩
  · rw [bindSession, hstream, hst]
    cases s.transport <;> rfl
  · obtain ⟨x, hx, hname, hval⟩ := exists_of_mem_left hb hc
    refine ⟨x, hx, hname ▸ hclaim, ?_⟩
    have hopt : c.name ≠ s.transport.optional := by
      intro hopt
      rw [hopt, s.transport.optional_plain.2] at hclaim
      cases hclaim
    obtain ⟨v, hv, hne⟩ := htext c hc hopt
    rcases bindStreamParam_ok.mp hval with ⟨_, habs, _⟩ | ⟨raw, hraw, hx2⟩
    · exact absurd habs hopt
    · obtain rfl : text (lower c.name) = raw :=
        Option.some.inj ((hmem c hc hopt).symm.trans hraw)
      obtain rfl : v = x.2 := Except.ok.inj (hv.symm.trans hx2)
      exact hne

/-- Claims are sealed on every endpoint but a stream that names a claim and can run at all. -/
theorem claims_sealed (e : BodyEngine) (h : Endpoint) :
    ClaimsSealed e h ↔ ¬ h.Exposed e.toParamEngine := by
  constructor
  · intro hsealed hexp
    obtain ⟨s, rfl⟩ : ∃ s, h = .stream s := by
      cases h with
      | stream s => exact ⟨s, rfl⟩
      | _ => exact hexp.elim
    obtain ⟨req, b, hb, x, hx, hclaim, hne⟩ := exposed_binds hexp
    let exchange : Exchange := ⟨req, [], ⟨[], [], [], [], [], [], [], [], [], [], 0, 0⟩, []⟩
    exact hne (hsealed.null (a := Auth.authOk []) (x := exchange) rfl hb hclaim hx)
  · intro hexp
    by_cases hstream : ∃ s, h = .stream s
    · obtain ⟨s, rfl⟩ := hstream
      -- a session that bound a claim at all would expose the stream
      constructor
      · intro a a' x x' b b' _ hb _ name v v' hclaim hv
        exact absurd (exposed_of_session hb hv hclaim) hexp
      · intro a x b _ hb name v hclaim hv
        exact absurd (exposed_of_session hb hv hclaim) hexp
    · have hother : ∀ s, h ≠ .stream s := fun s hs => hstream ⟨s, hs⟩
      constructor
      · intro a a' x x' b b' hid hb hb' name v v' hclaim hv hv'
        obtain ⟨key, hkey⟩ := Option.isSome_iff_exists.mp hclaim
        have hval := (serverBound hother hb).1 _ hv key hkey
        have hval' := (serverBound hother hb').1 _ hv' key hkey
        calc v = claimValue (h.identity a).2 key := hval
          _ = claimValue (h.identity a').2 key := by rw [claimValue, hid.2 key, ← claimValue]
          _ = v' := hval'.symm
      · intro a x b hauth hb name v hclaim hv
        obtain ⟨key, hkey⟩ := Option.isSome_iff_exists.mp hclaim
        obtain ⟨hbound, hnone⟩ := serverBound hother hb
        have hval := hbound _ hv key hkey
        rwa [hnone hauth] at hval

/-- `CREATE STREAM … GET '/events' AS SELECT $claims_sub`. -/
def claimsStream : Stream where
  transport := .sse
  pattern := "/events".toList
  handler := ⟨"SELECT $claims_sub".toList, ["claims_sub".toList], fun _ => true,
    fun _ => some ⟨[⟨"claims_sub".toList, .unknown⟩], List.nodup_singleton _⟩⟩

/-- `GET /events?claims_sub=admin` binds `admin`. -/
theorem claimsStream_unsealed : ¬ ClaimsSealed textEngine (.stream claimsStream) := by
  intro hsealed
  let request : Request := ⟨"GET".toList, [("claims_sub".toList, "admin".toList)], [], [], [], [],
    [], [], [], []⟩
  let exchange : Exchange := ⟨request, [], ⟨[], [], [], [], [], [], [], [], [], [], 0, 0⟩, []⟩
  have hb : (Endpoint.stream claimsStream).bindings textEngine (Auth.authOk []) exchange =
      .ok [("claims_sub".toList, .text "admin".toList)] := rfl
  have hnull := hsealed.null rfl hb rfl (List.mem_singleton_self _)
  cases hnull

end Quackapi.Params
