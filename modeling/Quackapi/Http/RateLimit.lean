import Quackapi.Http.Routes
import Quackapi.Library.Assoc

/-! The rate limiter: fixed windows, one bucket a route and client. Each request holds the limiter's
mutex, so it is one step; it brings the clock it has read. -/

namespace Quackapi.Http
open Library

/-- The ticks of the steady clock in a second. -/
def second : Int := 1000000000

def maxBuckets : Nat := 100000

/-- The conversion to `int`. -/
def toInt32 (n : Int) : Int := n.bmod (2 ^ 32)

def headerGet (headers : Params.CiMap Str) (name : Str) : Str := (headers.find name).getD []

def extractBearer (authorization : Str) : Option Str :=
  let rest := authorization.drop 6
  let token := rest.dropWhile isSpace
  if authorization.length < 7 then none
  else if lower (authorization.take 6) ≠ "bearer".toList ∨ (rest.head?.any isSpace) = false then none
  else if token.isEmpty then none
  else some token

def extractAuthString (auth : Auth.QuackapiAuth) (headers : Params.CiMap Str) : Str :=
  let bearer := (extractBearer (headerGet headers "Authorization".toList)).getD []
  match auth.kind with
  | .apiKey =>
    let rawKey := headerGet headers auth.header
    if rawKey.isEmpty then bearer else rawKey
  | .jwtHs256 => bearer

def checkAuth (e : Auth.AuthEngine) (auths : Auth.AuthState) (clock : Auth.JwtClock)
    (requireAuth : Str) (headers : Params.CiMap Str) : Option Auth.AuthResult :=
  if requireAuth.isEmpty then some ⟨true, 401, [], [], []⟩
  else
    match Auth.getAuth auths requireAuth with
    | none => some (Auth.fail401 "Not authenticated".toList [])
    | some auth => Auth.verifyAuthScheme e auths clock requireAuth (extractAuthString auth headers)

def ipKey (remoteAddr : Str) : Str :=
  "ip:".toList ++ if remoteAddr.isEmpty then "unknown".toList else remoteAddr

def rateLimitClientKey (sha256 : Str → Str) (auths : Auth.AuthState) (limitBy requireAuth : Str)
    (verified : Auth.AuthResult) (headers : Params.CiMap Str) (remoteAddr : Str) : Str :=
  if limitBy = "token".toList ∨ limitBy = "key".toList then
    if !requireAuth.isEmpty && verified.ok then
      match Auth.getAuth auths requireAuth with
      | some scheme =>
        match verified.claims.lookup "sub".toList with
        | some sub =>
          if sub.isEmpty then "tok:".toList ++ sha256 (extractAuthString scheme headers)
          else "sub:".toList ++ sha256 (requireAuth ++ ':' :: sub)
        | none => "tok:".toList ++ sha256 (extractAuthString scheme headers)
      | none => ipKey remoteAddr
    else ipKey remoteAddr
  else ipKey remoteAddr

abbrev Buckets := List (Str × RateLimitEntry)

/-- A request to a limited route; the count and the seconds of its limit are positive `int`s. -/
structure RateRequest where
  route : Str
  client : Str
  limit : Int
  perSec : Int
  now : Int
  limited : 0 < limit ∧ 0 < perSec
  fits : limit < 2 ^ 31 ∧ perSec < 2 ^ 31

def RateRequest.key (r : RateRequest) : Str := rateLimitKey r.route r.client

structure Decision where
  admitted : Bool
  retryAfter : Int
  /-- The request is the first of a window. -/
  opened : Bool
deriving DecidableEq, Repr

def evictExpired (now : Int) (buckets : Buckets) : Buckets :=
  buckets.filter fun e => !decide (e.2.expires ≤ now)

def newWindow (r : RateRequest) : RateLimitEntry := ⟨0, r.now + r.perSec * second⟩

/-- The request is counted in the bucket it has found or made. -/
def countRequest (buckets : Buckets) (r : RateRequest) (entry : RateLimitEntry) (made : Bool) :
    Buckets × Decision :=
  let restarts := decide (entry.expires ≤ r.now)
  let entry := if restarts then newWindow r else entry
  let retryAfter := toInt32 (max 1 (Int.tdiv (entry.expires - r.now) second + 1))
  if r.limit ≤ entry.count then
    (setValue r.key entry buckets, ⟨false, retryAfter, made || restarts⟩)
  else
    (setValue r.key { entry with count := entry.count + 1 } buckets,
      ⟨true, retryAfter, made || restarts⟩)

/-- A table that is full of live buckets takes no new one. -/
def allowRateLimit (buckets : Buckets) (r : RateRequest) : Buckets × Decision :=
  match buckets.lookup r.key with
  | some entry => countRequest buckets r entry false
  | none =>
    let kept := if maxBuckets ≤ buckets.length then evictExpired r.now buckets else buckets
    if maxBuckets ≤ kept.length then (kept, ⟨false, max 1 r.perSec, false⟩)
    else countRequest (kept ++ [(r.key, newWindow r)]) r (newWindow r) true

inductive RateAction
  | request (r : RateRequest)
  /-- `ClearRouteRateLimit`, for a route that is replaced or dropped. -/
  | clear (route : Str)

def rateStep (s : RouteState) : RateAction → RouteState × Option Decision
  | .request r =>
    ({ s with rateLimitEntries := (allowRateLimit s.rateLimitEntries r).1 },
      some (allowRateLimit s.rateLimitEntries r).2)
  | .clear route => (clearRouteRateLimit s route, none)

def rateLimiter : Machine RouteState RateAction (Option Decision) := ⟨rateStep⟩

/-- A matched route, as far as its limit and its scheme go. -/
structure LimitedRoute where
  name : Str
  requireAuth : Str
  rateLimitN : Int
  rateLimitPerSec : Int
  /-- Empty means by address. -/
  rateLimitBy : Str
  fits : rateLimitN < 2 ^ 31 ∧ rateLimitPerSec < 2 ^ 31

/-- What the peer of a request sends, and the clocks it is looked at with. -/
structure Caller where
  headers : Params.CiMap Str
  remoteAddr : Str
  jwtClock : Auth.JwtClock
  now : Int

inductive GateAnswer
  | tooManyRequests (retryAfter : Int)
  | refused (result : Auth.AuthResult)
  | passed (result : Auth.AuthResult)

/-- The limiter's request for a route that has a limit; the schemes are read again for the key. -/
def rateRequest (e : Auth.AuthEngine) (auths : Auth.AuthState) (route : LimitedRoute)
    (verified : Auth.AuthResult) (caller : Caller) : Option RateRequest :=
  if h : 0 < route.rateLimitN ∧ 0 < route.rateLimitPerSec then
    let limitBy := if route.rateLimitBy.isEmpty then "ip".toList else route.rateLimitBy
    some {
      route := route.name
      client := rateLimitClientKey e.sha256 auths limitBy route.requireAuth verified caller.headers
        caller.remoteAddr
      limit := route.rateLimitN
      perSec := route.rateLimitPerSec
      now := caller.now
      limited := h
      fits := route.fits }
  else none

def authAnswer (verified : Auth.AuthResult) : GateAnswer :=
  if verified.ok then .passed verified else .refused verified

/-- A request is verified, then counted, and then answered with what the verifier said. -/
def admitRequest (e : Auth.AuthEngine) (checked keyed : Auth.AuthState) (s : RouteState)
    (route : LimitedRoute) (caller : Caller) : RouteState × Option GateAnswer :=
  match checkAuth e checked caller.jwtClock route.requireAuth caller.headers with
  | none => (s, none)
  | some verified =>
    match rateRequest e keyed route verified caller with
    | none => (s, some (authAnswer verified))
    | some r =>
      match rateStep s (.request r) with
      | (limited, some d) =>
        (limited, some (if d.admitted then authAnswer verified else .tooManyRequests d.retryAfter))
      | (limited, none) => (limited, some (authAnswer verified))

theorem toDigits_injective {m n : Nat} (h : Nat.toDigits 10 m = Nat.toDigits 10 n) : m = n := by
  rw [← Nat.ofDigitChars_ten_toDigits (n := m), h, Nat.ofDigitChars_ten_toDigits]

theorem eq_of_isPrefixOf_rateLimitKey {route route' client' : Str}
    (h : (rateLimitPrefix route).isPrefixOf (rateLimitKey route' client') = true) :
    route = route' := by
  obtain ⟨rest, hrest⟩ := List.isPrefixOf_iff_prefix.mp h
  have hdigits : ∀ n : Nat, ':' ∉ Nat.toDigits 10 n := fun n hmem => by
    have hdigit := Nat.isDigit_of_mem_toDigits (by decide) (by decide) hmem
    exact absurd hdigit (by decide)
  simp only [rateLimitPrefix, rateLimitKey, List.append_assoc, List.cons_append] at hrest
  have hsplit := congrArg (List.splitOn ':') hrest
  rw [List.splitOn_append_cons_self_of_not_mem (hdigits _),
    List.splitOn_append_cons_self_of_not_mem (hdigits _)] at hsplit
  have hlength := (List.cons.inj hsplit).1
  rw [hlength] at hrest
  have htail := (List.cons.inj (List.append_cancel_left hrest)).2
  exact (List.append_inj htail (toDigits_injective hlength)).1

theorem rateLimitKey_injective {route route' client client' : Str}
    (h : rateLimitKey route client = rateLimitKey route' client') :
    route = route' ∧ client = client' := by
  have hroute : route = route' := by
    have hprefix : (rateLimitPrefix route).isPrefixOf (rateLimitKey route' client') = true := by
      rw [← h]
      exact isPrefixOf_rateLimitKey route client
    exact eq_of_isPrefixOf_rateLimitKey hprefix
  subst hroute
  exact ⟨rfl, List.append_cancel_left h⟩

/-- The window a request counts in, and whether it opens it. -/
def currentWindow (r : RateRequest) (entry : RateLimitEntry) : RateLimitEntry :=
  if entry.expires ≤ r.now then newWindow r else entry

/-- What a request does to its own bucket: it finds it or makes it, or there is no room. -/
inductive Counts (buckets : Buckets) (r : RateRequest) : Buckets × Decision → Prop
  | found (entry : RateLimitEntry) (result : Buckets × Decision)
      (hfound : buckets.lookup r.key = some entry)
      (hresult : result = countRequest buckets r entry false) : Counts buckets r result
  | made (kept : Buckets) (result : Buckets × Decision) (hfree : buckets.lookup r.key = none)
      (hkept : kept = buckets ∨ kept = evictExpired r.now buckets) (hroom : kept.length < maxBuckets)
      (hresult : result = countRequest (kept ++ [(r.key, newWindow r)]) r (newWindow r) true) :
      Counts buckets r result
  | full (result : Buckets × Decision) (hfree : buckets.lookup r.key = none)
      (hroom : maxBuckets ≤ (evictExpired r.now buckets).length)
      (hresult : result = (evictExpired r.now buckets, ⟨false, max 1 r.perSec, false⟩)) :
      Counts buckets r result

theorem allowRateLimit_counts (buckets : Buckets) (r : RateRequest) :
    Counts buckets r (allowRateLimit buckets r) := by
  unfold allowRateLimit
  rcases hfound : buckets.lookup r.key with _ | entry
  · dsimp only
    by_cases hfull : maxBuckets ≤ buckets.length
    · rw [if_pos hfull]
      split
      · next hroom => exact .full _ hfound hroom rfl
      · next hroom => exact .made _ _ hfound (.inr rfl) (by omega) rfl
    · rw [if_neg hfull, if_neg hfull]
      exact .made _ _ hfound (.inl rfl) (by omega) rfl
  · exact .found entry _ hfound rfl

theorem countRequest_spec (buckets : Buckets) (r : RateRequest) (entry : RateLimitEntry)
    (made : Bool) :
    (countRequest buckets r entry made).2.opened = (made || decide (entry.expires ≤ r.now)) ∧
      (countRequest buckets r entry made).2.retryAfter =
        toInt32 (max 1 (Int.tdiv ((currentWindow r entry).expires - r.now) second + 1)) ∧
      (((countRequest buckets r entry made).2.admitted = false ∧
          r.limit ≤ (currentWindow r entry).count ∧
          (countRequest buckets r entry made).1 = setValue r.key (currentWindow r entry) buckets) ∨
        ((countRequest buckets r entry made).2.admitted = true ∧
          (currentWindow r entry).count < r.limit ∧
          (countRequest buckets r entry made).1 = setValue r.key
            { currentWindow r entry with count := (currentWindow r entry).count + 1 } buckets)) := by
  have hwindow : (if decide (entry.expires ≤ r.now) = true then newWindow r else entry) =
      currentWindow r entry := by
    simp only [currentWindow, decide_eq_true_eq]
  unfold countRequest
  dsimp only
  rw [hwindow]
  by_cases hlimit : r.limit ≤ (currentWindow r entry).count
  · rw [if_pos hlimit]
    exact ⟨rfl, rfl, .inl ⟨rfl, hlimit, rfl⟩⟩
  · rw [if_neg hlimit]
    exact ⟨rfl, rfl, .inr ⟨rfl, Int.not_le.mp hlimit, rfl⟩⟩

theorem countRequest_keys (buckets : Buckets) (r : RateRequest) (entry : RateLimitEntry)
    (made : Bool) : (countRequest buckets r entry made).1.map Prod.fst = buckets.map Prod.fst := by
  rcases (countRequest_spec buckets r entry made).2.2 with ⟨_, _, h⟩ | ⟨_, _, h⟩ <;>
    rw [h, keys_setValue]

theorem countRequest_other {key : Str} (buckets : Buckets) (r : RateRequest) (h : key ≠ r.key)
    (entry : RateLimitEntry) (made : Bool) :
    (countRequest buckets r entry made).1.lookup key = buckets.lookup key := by
  rcases (countRequest_spec buckets r entry made).2.2 with ⟨_, _, hs⟩ | ⟨_, _, hs⟩ <;>
    rw [hs, lookup_setValue_other h]

/-- Distinct keys, and no more of them than the bound. -/
structure Bounded (buckets : Buckets) : Prop where
  keys : (buckets.map Prod.fst).Nodup
  size : buckets.length ≤ maxBuckets

theorem Bounded.filter {buckets : Buckets} (h : Bounded buckets) (p : Str × RateLimitEntry → Bool) :
    Bounded (buckets.filter p) :=
  ⟨h.keys.sublist (List.filter_sublist.map _), (List.length_filter_le _ _).trans h.size⟩

theorem Bounded.allowRateLimit {buckets : Buckets} (h : Bounded buckets) (r : RateRequest) :
    Bounded (allowRateLimit buckets r).1 := by
  rcases allowRateLimit_counts buckets r with ⟨entry, _, _, hresult⟩ | ⟨kept, _, hfree, hkept, hroom,
    hresult⟩ | ⟨_, _, _, hresult⟩
  · rw [hresult]
    have hkeys := countRequest_keys buckets r entry false
    refine ⟨hkeys ▸ h.keys, ?_⟩
    have hlength := congrArg List.length hkeys
    rw [List.length_map, List.length_map] at hlength
    exact hlength.trans_le h.size
  · rw [hresult]
    have hsub : Bounded kept := by
      rcases hkept with rfl | rfl
      · exact h
      · exact h.filter _
    have hnew : r.key ∉ kept.map Prod.fst := by
      have hfresh := lookup_eq_none_iff_not_mem.mp hfree
      rcases hkept with rfl | rfl
      · exact hfresh
      · exact fun hmem => hfresh ((List.filter_sublist.map _).subset hmem)
    have hkeys := countRequest_keys (kept ++ [(r.key, newWindow r)]) r (newWindow r) true
    refine ⟨?_, ?_⟩
    · rw [hkeys, List.map_append]
      exact hsub.keys.append (List.nodup_singleton _) (List.disjoint_singleton.mpr hnew)
    · have hlength := congrArg List.length hkeys
      simp only [List.length_map, List.length_append, List.length_singleton] at hlength
      omega
  · rw [hresult]
    exact h.filter _

theorem Bounded.step {s : RouteState} (h : Bounded s.rateLimitEntries) (a : RateAction) :
    Bounded (rateStep s a).1.rateLimitEntries := by
  cases a with
  | request r => exact h.allowRateLimit r
  | clear route => exact h.filter _

theorem allowRateLimit_other {buckets : Buckets} (h : Bounded buckets) {r : RateRequest} {key : Str}
    (hkey : key ≠ r.key) :
    (allowRateLimit buckets r).1.lookup key = buckets.lookup key ∨
      ((allowRateLimit buckets r).1.lookup key = none ∧
        ∀ entry, buckets.lookup key = some entry → entry.expires ≤ r.now) := by
  have hevict : (evictExpired r.now buckets).lookup key = buckets.lookup key ∨
      ((evictExpired r.now buckets).lookup key = none ∧
        ∀ entry, buckets.lookup key = some entry → entry.expires ≤ r.now) := by
    rw [evictExpired, lookup_filter h.keys]
    rcases buckets.lookup key with _ | entry
    · exact .inl rfl
    · by_cases hexpired : entry.expires ≤ r.now
      · refine .inr ⟨by simp [Option.filter, hexpired], fun e he => ?_⟩
        cases he
        exact hexpired
      · exact .inl (by simp [Option.filter, hexpired])
  rcases allowRateLimit_counts buckets r with ⟨entry, _, _, hresult⟩ | ⟨kept, _, _, hkept, _,
    hresult⟩ | ⟨_, _, _, hresult⟩
  · rw [hresult]
    exact .inl (countRequest_other buckets r hkey entry false)
  · rw [hresult, countRequest_other _ r hkey, lookup_concat, if_neg hkey, Option.or_none]
    rcases hkept with rfl | rfl
    · exact .inl rfl
    · exact hevict
  · rw [hresult]
    exact hevict

theorem lookup_clearRouteRateLimit {s : RouteState} (hs : Bounded s.rateLimitEntries)
    (route key : Str) :
    (clearRouteRateLimit s route).rateLimitEntries.lookup key =
      if (rateLimitPrefix route).isPrefixOf key = true then none
      else s.rateLimitEntries.lookup key := by
  show List.lookup key (List.filter _ _) = _
  rw [lookup_filter hs.keys]
  rcases s.rateLimitEntries.lookup key with _ | entry
  · split <;> rfl
  · by_cases hp : (rateLimitPrefix route).isPrefixOf key = true
    · simp [Option.filter, hp]
    · simp [Option.filter, hp]

theorem decision_of_found {buckets buckets' : Buckets} {r : RateRequest} {entry : RateLimitEntry}
    (h : buckets.lookup r.key = some entry) (h' : buckets'.lookup r.key = some entry) :
    (allowRateLimit buckets r).2 = (allowRateLimit buckets' r).2 := by
  unfold allowRateLimit countRequest
  rw [h, h']
  dsimp only
  split_ifs <;> rfl

end Quackapi.Http
