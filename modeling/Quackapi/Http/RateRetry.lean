import Quackapi.Http.RateWindows

/-! The hint of a rejection: a client that keeps to it is admitted again, unless the table is full of
other clients that are live. -/

namespace Quackapi.Http
open Library

/-- The clock readings of the requests, in the order the limiter takes them. -/
def times (as : List RateAction) : List Int :=
  as.filterMap fun a => match a with
    | .request r => some r.now
    | .clear _ => none

def Clocked (as : List RateAction) : Prop := (times as).Pairwise (· ≤ ·)

instance (as : List RateAction) : Decidable (Clocked as) :=
  inferInstanceAs (Decidable ((times as).Pairwise (· ≤ ·)))

/-- Where a request finds its bucket used up, the whole seconds left are less than `2 ^ 31 - 1`, so
that one more is still an `int`. -/
def HintFits (s : RouteState) (a : RateAction) : Prop :=
  ∀ r, a = .request r → ∀ entry, s.rateLimitEntries.lookup r.key = some entry →
    r.limit ≤ entry.count → entry.expires < r.now + (2 ^ 31 - 1) * second

def Silent (key : Str) (as : List RateAction) : Prop :=
  ∀ r, RateAction.request r ∈ as → r.key ≠ key

def liveOthers (key : Str) (now : Int) (buckets : Buckets) : Nat :=
  (buckets.filter fun e => decide (e.1 ≠ key) && decide (now < e.2.expires)).length

theorem toInt32_of_lt {n : Int} (h : 0 ≤ n) (hn : n < 2 ^ 31) : toInt32 n = n :=
  Int.bmod_eq_of_le (by omega) (by omega)

theorem retryAfter_reaches {expires now : Int} (hlive : now < expires)
    (hbound : expires < now + (2 ^ 31 - 1) * second) :
    expires ≤ now + toInt32 (max 1 (Int.tdiv (expires - now) second + 1)) * second := by
  have hleft : 0 ≤ expires - now := by omega
  rw [Int.tdiv_eq_ediv_of_nonneg hleft]
  have hpos : 0 ≤ (expires - now) / second := Int.ediv_nonneg hleft (by decide)
  have hless : (expires - now) / second < 2 ^ 31 - 1 := by
    unfold second at hbound ⊢
    omega
  have hmax : max 1 ((expires - now) / second + 1) = (expires - now) / second + 1 := by omega
  rw [hmax, toInt32_of_lt (by omega) (by omega)]
  have hround := Int.lt_ediv_add_one_mul_self (expires - now) (b := second) (by decide)
  omega

theorem bucket_of_rejected {buckets : Buckets} (hb : Bounded buckets) {r : RateRequest}
    (hrejected : (allowRateLimit buckets r).2.admitted = false)
    (hbound : ∀ entry, buckets.lookup r.key = some entry → r.limit ≤ entry.count →
      entry.expires < r.now + (2 ^ 31 - 1) * second) :
    ∀ entry, (allowRateLimit buckets r).1.lookup r.key = some entry →
      entry.expires ≤ r.now + (allowRateLimit buckets r).2.retryAfter * second := by
  intro entry hentry
  have hstarted : ∀ n : Int, 0 < n → ¬ n ≤ ((0 : Nat) : Int) := by intro n hn; omega
  rcases allowRateLimit_counts buckets r with ⟨old, _, hfound, hresult⟩ |
    ⟨kept, _, _, _, _, hresult⟩ | ⟨_, hfree, _, hresult⟩
  · rw [hresult] at hrejected hentry ⊢
    have hsome : buckets.lookup r.key ≠ none := by rw [hfound]; nofun
    obtain ⟨_, hretry, ⟨_, hlimit, htable⟩ | ⟨hadmitted, _⟩⟩ :=
      countRequest_spec buckets r old false
    · by_cases hexpired : old.expires ≤ r.now
      · have hwindow : currentWindow r old = newWindow r := if_pos hexpired
        rw [hwindow] at hlimit
        exact absurd hlimit (hstarted _ r.limited.1)
      · have hwindow : currentWindow r old = old := if_neg hexpired
        rw [htable, lookup_setValue_self hsome, hwindow] at hentry
        cases hentry
        rw [hwindow] at hlimit
        rw [hretry, hwindow]
        exact retryAfter_reaches (Int.not_le.mp hexpired) (hbound _ hfound hlimit)
    · rw [hadmitted] at hrejected
      cases hrejected
  · rw [hresult] at hrejected
    have hcount : (currentWindow r (newWindow r)).count = 0 := by
      unfold currentWindow
      split <;> rfl
    rcases (countRequest_spec (kept ++ [(r.key, newWindow r)]) r (newWindow r) true).2.2 with
      ⟨_, hlimit, _⟩ | ⟨hadmitted, _⟩
    · rw [hcount] at hlimit
      exact absurd hlimit (hstarted _ r.limited.1)
    · rw [hadmitted] at hrejected
      cases hrejected
  · rw [hresult, evictExpired, lookup_filter hb.keys, hfree] at hentry
    cases hentry

theorem admitted_of_over {buckets : Buckets} {r : RateRequest}
    (hover : ∀ entry, buckets.lookup r.key = some entry → entry.expires ≤ r.now) :
    (allowRateLimit buckets r).2.admitted = true ∨
      maxBuckets ≤ liveOthers r.key r.now buckets := by
  have hopens : ∀ (table : Buckets) (entry : RateLimitEntry) (made : Bool),
      (currentWindow r entry).count = 0 → (countRequest table r entry made).2.admitted = true := by
    intro table entry made hcount
    rcases (countRequest_spec table r entry made).2.2 with ⟨_, hlimit, _⟩ | ⟨hadmitted, _⟩
    · rw [hcount] at hlimit
      have hpos := r.limited.1
      omega
    · exact hadmitted
  rcases allowRateLimit_counts buckets r with ⟨old, _, hfound, hresult⟩ |
    ⟨kept, _, _, _, _, hresult⟩ | ⟨_, hfree, hroom, _⟩
  · rw [hresult]
    have hwindow : currentWindow r old = newWindow r := if_pos (hover old hfound)
    exact .inl (hopens buckets old false (by rw [hwindow]; rfl))
  · rw [hresult]
    refine .inl (hopens _ (newWindow r) true ?_)
    unfold currentWindow
    split <;> rfl
  · right
    have hothers : (buckets.filter fun e => decide (e.1 ≠ r.key) && decide (r.now < e.2.expires)) =
        evictExpired r.now buckets := by
      apply List.filter_congr
      intro e he
      have hne : e.1 ≠ r.key := fun heq =>
        lookup_eq_none_iff_not_mem.mp hfree (List.mem_map.mpr ⟨e, he, heq⟩)
      rw [decide_eq_true hne, Bool.true_and, ← decide_not]
      exact decide_eq_decide.mpr Int.not_le.symm
    rw [liveOthers, hothers]
    exact hroom

theorem mem_times {as : List RateAction} {r : RateRequest} (h : RateAction.request r ∈ as) :
    r.now ∈ times as := List.mem_filterMap.mpr ⟨_, h, rfl⟩

theorem times_append (as bs : List RateAction) : times (as ++ bs) = times as ++ times bs :=
  List.filterMap_append

theorem Clocked.le {as bs : List RateAction} {r r' : RateRequest}
    (h : Clocked (as ++ .request r' :: bs)) (hr : RateAction.request r ∈ as) : r.now ≤ r'.now := by
  rw [Clocked, times_append] at h
  exact (List.pairwise_append.mp h).2.2 _ (mem_times hr) _ (mem_times List.mem_cons_self)

theorem Clocked.left {as bs : List RateAction} (h : Clocked (as ++ bs)) : Clocked as := by
  rw [Clocked, times_append] at h
  exact (List.pairwise_append.mp h).1

theorem expires_step {s : RouteState} (hb : Bounded s.rateLimitEntries) {limit : Int} (a : RateAction)
    (ha : ∀ r, a = .request r → ends r ≤ limit)
    (hs : ∀ key entry, s.rateLimitEntries.lookup key = some entry → entry.expires ≤ limit) :
    ∀ key entry, (rateStep s a).1.rateLimitEntries.lookup key = some entry →
      entry.expires ≤ limit := by
  intro key entry hentry
  cases a with
  | clear route =>
    change (clearRouteRateLimit s route).rateLimitEntries.lookup key = some entry at hentry
    rw [lookup_clearRouteRateLimit hb] at hentry
    split at hentry
    · cases hentry
    · exact hs key entry hentry
  | request r =>
    change (allowRateLimit s.rateLimitEntries r).1.lookup key = some entry at hentry
    by_cases hkey : key = r.key
    · subst hkey
      rcases own_bucket hb r with ⟨_, after, hafter, hends⟩ | ⟨_, ⟨old, after, hold, hafter, hsame⟩ |
        ⟨_, hnone⟩⟩
      · rw [hafter] at hentry
        cases hentry
        exact hends ▸ ha r rfl
      · rw [hafter] at hentry
        cases hentry
        exact hsame ▸ hs r.key old hold
      · rw [hnone] at hentry
        cases hentry
    · rcases allowRateLimit_other hb hkey with hsame | ⟨hnone, _⟩
      · exact hs key entry (hsame ▸ hentry)
      · rw [hnone] at hentry
        cases hentry

theorem expires_run {s : RouteState} (hs : Fresh s) {as : List RateAction} {limit : Int}
    (has : ∀ r, RateAction.request r ∈ as → ends r ≤ limit) :
    ∀ key entry, (rateLimiter.run s as).rateLimitEntries.lookup key = some entry →
      entry.expires ≤ limit := by
  induction as using List.reverseRecOn with
  | nil =>
    intro key entry hentry
    change s.rateLimitEntries.lookup key = some entry at hentry
    rw [hs] at hentry
    cases hentry
  | append_singleton as a ih =>
    rw [rateLimiter.run_concat]
    apply expires_step (counted_run hs as).bounded a
    · exact fun r hr => has r (List.mem_append_right as (List.mem_singleton.mpr hr.symm))
    · exact ih fun r hr => has r (List.mem_append_left _ hr)

theorem silent_run {s : RouteState} (hb : Bounded s.rateLimitEntries) {key : Str}
    {as : List RateAction} (has : Silent key as) :
    ∀ entry, (rateLimiter.run s as).rateLimitEntries.lookup key = some entry →
      s.rateLimitEntries.lookup key = some entry := by
  induction as generalizing s with
  | nil => exact fun entry hentry => hentry
  | cons a as ih =>
    intro entry hentry
    have hafter := ih (hb.step a) (fun r hr => has r (List.mem_cons_of_mem a hr)) entry hentry
    cases a with
    | clear route =>
      change (clearRouteRateLimit s route).rateLimitEntries.lookup key = some entry at hafter
      rw [lookup_clearRouteRateLimit hb] at hafter
      split at hafter
      · cases hafter
      · exact hafter
    | request r =>
      have hne : key ≠ r.key := (has r List.mem_cons_self).symm
      rcases allowRateLimit_other hb hne with hsame | ⟨hnone, _⟩
      · exact hsame ▸ hafter
      · change (allowRateLimit s.rateLimitEntries r).1.lookup key = some entry at hafter
        rw [hnone] at hafter
        cases hafter

/-- The decision on the request that comes after a run. -/
def decisionAfter (s : RouteState) (as : List RateAction) (r : RateRequest) : Decision :=
  (allowRateLimit (rateLimiter.run s as).rateLimitEntries r).2

/-- A rejected client that is silent for the seconds of its hint is admitted, or the table is full
of other clients that are live. -/
def AdmitsAgain (s : RouteState) (pre : List RateAction) (r : RateRequest) (mid : List RateAction)
    (r' : RateRequest) : Prop :=
  r'.key = r.key → Silent r.key mid → (decisionAfter s pre r).admitted = false →
    r.now + (decisionAfter s pre r).retryAfter * second ≤ r'.now →
    (decisionAfter s (pre ++ .request r :: mid) r').admitted = true ∨
      maxBuckets ≤ liveOthers r'.key r'.now
        (rateLimiter.run s (pre ++ .request r :: mid)).rateLimitEntries

theorem admitsAgain {s : RouteState} (hs : Fresh s) {pre mid : List RateAction}
    {r r' : RateRequest} (hfits : HintFits (rateLimiter.run s pre) (.request r)) :
    AdmitsAgain s pre r mid r' := by
  intro hkey hsilent hrejected hwaited
  have hbefore := (counted_run hs pre).bounded
  have hover := bucket_of_rejected hbefore hrejected (hfits r rfl)
  apply admitted_of_over
  intro entry hentry
  rw [hkey, rateLimiter.run_append, rateLimiter.run_cons] at hentry
  have hkept := silent_run (hbefore.step (.request r)) hsilent entry hentry
  have hexpires : entry.expires ≤ r.now + (decisionAfter s pre r).retryAfter * second :=
    hover entry hkept
  exact Int.le_trans hexpires hwaited

theorem hintFits_of_perSec {s : RouteState} (hs : Fresh s) {as : List RateAction}
    (hclock : Clocked as) (has : ∀ r, RateAction.request r ∈ as → r.perSec < 2 ^ 31 - 1) :
    rateLimiter.Along HintFits s as := by
  induction as using List.reverseRecOn with
  | nil => trivial
  | append_singleton as a ih =>
    refine rateLimiter.along_append.mpr
      ⟨ih hclock.left fun r hr => has r (List.mem_append_left _ hr), ?_, trivial⟩
    rintro r rfl entry hentry _
    have hends : ∀ r0, RateAction.request r0 ∈ as → ends r0 ≤ r.now + (2 ^ 31 - 2) * second := by
      intro r0 h0
      have hnow : r0.now ≤ r.now := hclock.le h0
      have hper : r0.perSec < 2 ^ 31 - 1 := has r0 (List.mem_append_left _ h0)
      unfold ends second
      omega
    have hbound := expires_run hs hends r.key entry hentry
    unfold second at hbound ⊢
    omega

theorem window_lasts {s : RouteState} (hs : Fresh s) {as : List RateAction} {r r0 : RateRequest}
    {d : Option Decision} {rest : List RateEvent} (hclock : Clocked (as ++ [.request r]))
    (hwindow : window r.key (rateLimiter.history s as) = (.request r0, d) :: rest)
    (hopener : opens r.key (.request r0, d) = true)
    (hclear : ∀ answer, (RateAction.clear r0.route, answer) ∉ rest) (hlive : r.now < ends r0) :
    (decisionAfter s as r).opened = false := by
  obtain ⟨hb, hspanned⟩ := spanned_run hs as
  obtain ⟨hexpires, hgone⟩ := hspanned r.key r0 d rest hwindow hopener
  rcases hbucket : (rateLimiter.run s as).rateLimitEntries.lookup r.key with _ | entry
  · obtain ⟨⟨a, answer⟩, he, hremoves⟩ := hgone hbucket
    have hmem : (a, answer) ∈ rateLimiter.history s as :=
      window_subset (hwindow ▸ List.mem_cons_of_mem _ he)
    cases a with
    | clear route =>
      have hroute : route = r0.route := hremoves
      rw [hroute] at he
      exact absurd he (hclear answer)
    | request r1 =>
      have hover : ends r0 ≤ r1.now := hremoves
      obtain ⟨before, after, rfl, _⟩ := rateLimiter.mem_history hmem
      have hnow : r1.now ≤ r.now :=
        hclock.le (List.mem_append_right before List.mem_cons_self)
      omega
  · have hopened := (countRequest_spec (rateLimiter.run s as).rateLimitEntries r entry false).1
    have hend := hexpires entry hbucket
    have hresult : allowRateLimit (rateLimiter.run s as).rateLimitEntries r =
        countRequest (rateLimiter.run s as).rateLimitEntries r entry false := by
      unfold allowRateLimit
      rw [hbucket]
    rw [decisionAfter, hresult, hopened, hend, Bool.false_or, decide_eq_false_iff_not]
    omega

theorem live_bucket_stays {buckets : Buckets} (hb : Bounded buckets) {r : RateRequest} {key : Str}
    (hkey : key ≠ r.key) {entry : RateLimitEntry} (hfound : buckets.lookup key = some entry)
    (hlive : r.now < entry.expires) :
    (allowRateLimit buckets r).1.lookup key = some entry ∧
      ∀ r' : RateRequest, r'.key = key →
        (allowRateLimit (allowRateLimit buckets r).1 r').2 = (allowRateLimit buckets r').2 := by
  have hstays : (allowRateLimit buckets r).1.lookup key = some entry := by
    rcases allowRateLimit_other hb hkey with hsame | ⟨_, hexpired⟩
    · exact hsame.trans hfound
    · have hover := hexpired entry hfound
      omega
  refine ⟨hstays, fun r' hr' => ?_⟩
  subst hr'
  exact decision_of_found hstays hfound

theorem clears_exactly {s : RouteState} (hb : Bounded s.rateLimitEntries)
    (route route' client : Str) :
    (clearRouteRateLimit s route).rateLimitEntries.lookup (rateLimitKey route' client) =
      if route' = route then none else s.rateLimitEntries.lookup (rateLimitKey route' client) := by
  rw [lookup_clearRouteRateLimit hb]
  by_cases hroute : route' = route
  · subst hroute
    rw [if_pos (isPrefixOf_rateLimitKey route' client), if_pos rfl]
  · rw [if_neg hroute, if_neg fun h => hroute (eq_of_isPrefixOf_rateLimitKey h).symm]

theorem unverified_by_address (e : Auth.AuthEngine) (checked keyed : Auth.AuthState)
    (s : RouteState) (route : LimitedRoute) (caller : Caller) {verified : Auth.AuthResult}
    (hlimited : 0 < route.rateLimitN ∧ 0 < route.rateLimitPerSec)
    (hcheck : checkAuth e checked caller.jwtClock route.requireAuth caller.headers = some verified)
    (hrefused : verified.ok = false) :
    ∃ r : RateRequest, r.route = route.name ∧ r.client = ipKey caller.remoteAddr ∧
      r.limit = route.rateLimitN ∧ r.perSec = route.rateLimitPerSec ∧ r.now = caller.now ∧
      (admitRequest e checked keyed s route caller).1 = (rateStep s (.request r)).1 := by
  have hclient : ∀ limitBy : Str, rateLimitClientKey e.sha256 keyed limitBy route.requireAuth
      verified caller.headers caller.remoteAddr = ipKey caller.remoteAddr := by
    intro limitBy
    simp [rateLimitClientKey, hrefused]
  obtain ⟨r, hr⟩ : ∃ r, rateRequest e keyed route verified caller = some r :=
    ⟨_, dif_pos hlimited⟩
  have hfields := hr
  rw [rateRequest, dif_pos hlimited, Option.some.injEq] at hfields
  refine ⟨r, ?_⟩
  subst hfields
  refine ⟨rfl, hclient _, rfl, rfl, rfl, ?_⟩
  unfold admitRequest
  rw [hcheck]
  dsimp only
  rw [hr]
  rfl

theorem rate_limiter {s : RouteState} (hs : Fresh s) {as : List RateAction} (hclock : Clocked as)
    (hfits : rateLimiter.Along HintFits s as) :
    (∀ route client route' client', rateLimitKey route client = rateLimitKey route' client' →
      route = route' ∧ client = client') ∧
    (∀ route route' client,
      (clearRouteRateLimit (rateLimiter.run s as) route).rateLimitEntries.lookup
          (rateLimitKey route' client) =
        if route' = route then none
        else (rateLimiter.run s as).rateLimitEntries.lookup (rateLimitKey route' client)) ∧
    (∀ key n, LimitedBy key n (window key (rateLimiter.history s as)) → 0 ≤ n →
      ((window key (rateLimiter.history s as)).countP (admits key) : Int) ≤ n) ∧
    (∀ pre r post, as = pre ++ .request r :: post →
      ∀ r0 d rest, window r.key (rateLimiter.history s pre) = (.request r0, d) :: rest →
        opens r.key (.request r0, d) = true →
        (∀ answer, (RateAction.clear r0.route, answer) ∉ rest) → r.now < ends r0 →
        (decisionAfter s pre r).opened = false) ∧
    (∀ pre r post, as = pre ++ .request r :: post → ∀ key, key ≠ r.key →
      ∀ entry, (rateLimiter.run s pre).rateLimitEntries.lookup key = some entry →
        r.now < entry.expires →
        (rateLimiter.run s (pre ++ [.request r])).rateLimitEntries.lookup key = some entry ∧
          ∀ r', r'.key = key →
            decisionAfter s (pre ++ [.request r]) r' = decisionAfter s pre r') ∧
    (∀ pre r mid r' post, as = pre ++ .request r :: mid ++ .request r' :: post →
      AdmitsAgain s pre r mid r') ∧
    ∀ e checked keyed route caller verified, 0 < route.rateLimitN ∧ 0 < route.rateLimitPerSec →
      checkAuth e checked caller.jwtClock route.requireAuth caller.headers = some verified →
      verified.ok = false →
      ∃ r : RateRequest, r.route = route.name ∧ r.client = ipKey caller.remoteAddr ∧
        r.limit = route.rateLimitN ∧ r.perSec = route.rateLimitPerSec ∧ r.now = caller.now ∧
        (admitRequest e checked keyed (rateLimiter.run s as) route caller).1 =
          (rateLimiter.run s (as ++ [.request r])) := by
  refine ⟨fun _ _ _ _ => rateLimitKey_injective, clears_exactly (counted_run hs as).bounded,
    fun key => ((counted_run hs as).keys key).2, ?_, ?_, ?_, ?_⟩
  · rintro pre r post rfl r0 d rest hwindow hopener hclear hlive
    have hsplit : pre ++ .request r :: post = (pre ++ [.request r]) ++ post := by simp
    rw [hsplit] at hclock
    exact window_lasts hs hclock.left hwindow hopener hclear hlive
  · intro pre r post _ key hkey entry hfound hlive
    unfold decisionAfter
    rw [rateLimiter.run_concat]
    exact live_bucket_stays (counted_run hs pre).bounded hkey hfound hlive
  · rintro pre r mid r' post rfl
    have hbefore := (rateLimiter.along_append.mp hfits).1
    exact admitsAgain hs (rateLimiter.along_append.mp hbefore).2.1
  · intro e checked keyed route caller verified hlimited hcheck hrefused
    rw [exists_congr fun r => by rw [rateLimiter.run_concat]]
    exact unverified_by_address e checked keyed _ route caller hlimited hcheck hrefused

/-- A request of one client to a route that admits one in a minute, at this second. -/
def minuteRequest (at' : Int) : RateRequest where
  route := "report".toList
  client := "ip:10.0.0.1".toList
  limit := 1
  perSec := 60
  now := at' * second
  limited := by decide
  fits := by decide

theorem minuteRequest_admitted :
    (decisionAfter emptyRoutes [.request (minuteRequest 0)] (minuteRequest 10)).admitted = false ∧
      (decisionAfter emptyRoutes [.request (minuteRequest 0), .request (minuteRequest 10)]
        (minuteRequest 61)).admitted = true := by
  have hclock : Clocked
      [.request (minuteRequest 0), .request (minuteRequest 10), .request (minuteRequest 61)] := by
    decide +kernel
  have hfits := hintFits_of_perSec (s := emptyRoutes) rfl hclock fun r hr => by
    simp only [List.mem_cons, RateAction.request.injEq, List.not_mem_nil, or_false] at hr
    rcases hr with rfl | rfl | rfl <;> decide
  have hagain := (rate_limiter (s := emptyRoutes) rfl hclock hfits).2.2.2.2.2.1
    [.request (minuteRequest 0)] (minuteRequest 10) [] (minuteRequest 61) [] rfl
  have hrejected :
      (decisionAfter emptyRoutes [.request (minuteRequest 0)] (minuteRequest 10)).admitted =
        false := by decide +kernel
  refine ⟨hrejected, ?_⟩
  rcases hagain rfl (fun r hr => by cases hr) hrejected (by decide +kernel) with hadmitted | hfull
  · exact hadmitted
  · exact absurd hfull (by decide +kernel)

/-- The longest limit that can be declared, asked for at the same instant. -/
def longestRequest : RateRequest where
  route := "report".toList
  client := "ip:10.0.0.1".toList
  limit := 1
  perSec := 2147483647
  now := 0
  limited := by decide
  fits := by decide

/-- The hint on its second request is negative, and its third is rejected as well. -/
theorem longestRequest_rejected :
    Fresh emptyRoutes ∧
      Clocked [.request longestRequest, .request longestRequest, .request longestRequest] ∧
      (decisionAfter emptyRoutes [.request longestRequest] longestRequest).retryAfter =
        -2147483648 ∧
      ¬ AdmitsAgain emptyRoutes [.request longestRequest] longestRequest [] longestRequest := by
  refine ⟨rfl, by decide +kernel, by decide +kernel, fun h => ?_⟩
  rcases h rfl (fun r hr => by cases hr) (by decide +kernel) (by decide +kernel) with
    hadmitted | hfull
  · exact absurd hadmitted (by decide +kernel)
  · exact absurd hfull (by decide +kernel)

end Quackapi.Http
