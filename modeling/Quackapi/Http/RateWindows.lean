import Quackapi.Http.RateLimit

/-! The windows of a bucket over a run: what is admitted in one, what becomes of the other buckets,
and when a rejected client is admitted again. -/

namespace Quackapi.Http
open Library

abbrev RateEvent := RateAction × Option Decision

/-- A request of the key that opens a window. -/
def opens (key : Str) : RateEvent → Bool
  | (.request r, some d) => decide (r.key = key) && d.opened
  | _ => false

def admits (key : Str) : RateEvent → Bool
  | (.request r, some d) => decide (r.key = key) && d.admitted
  | _ => false

/-- The key's current window: what has happened since its last opening. -/
def window (key : Str) (h : List RateEvent) : List RateEvent :=
  h.foldl (fun w e => if opens key e then [e] else w ++ [e]) []

/-- No request of the key in these events has a limit above `n`. -/
def LimitedBy (key : Str) (n : Int) (h : List RateEvent) : Prop :=
  ∀ r d, (RateAction.request r, d) ∈ h → r.key = key → r.limit ≤ n

theorem window_concat (key : Str) (h : List RateEvent) (e : RateEvent) :
    window key (h ++ [e]) = if opens key e then [e] else window key h ++ [e] :=
  List.foldl_concat ..

theorem window_subset {key : Str} {h : List RateEvent} {e : RateEvent} (he : e ∈ window key h) :
    e ∈ h := by
  induction h using List.reverseRecOn with
  | nil => exact he
  | append_singleton h last ih =>
    rw [window_concat] at he
    split at he
    · exact List.mem_append_right h he
    · rcases List.mem_append.mp he with hw | hlast
      · exact List.mem_append_left _ (ih hw)
      · exact List.mem_append_right h hlast

/-- A key's bucket counts what the key's window has admitted, and that is within every limit. -/
def CountedKey (key : Str) (w : List RateEvent) (bucket : Option RateLimitEntry) : Prop :=
  (∀ entry, bucket = some entry → entry.count = w.countP (admits key)) ∧
    ∀ n, LimitedBy key n w → 0 ≤ n → (w.countP (admits key) : Int) ≤ n

theorem CountedKey.quiet {key : Str} {w : List RateEvent} {bucket bucket' : Option RateLimitEntry}
    (h : CountedKey key w bucket) {e : RateEvent} (hadmits : admits key e = false)
    (hbucket : bucket' = bucket ∨ bucket' = none) : CountedKey key (w ++ [e]) bucket' := by
  have hcount : (w ++ [e]).countP (admits key) = w.countP (admits key) := by
    rw [List.countP_append, List.countP_singleton, if_neg (by rw [hadmits]; nofun)]
    rfl
  rw [CountedKey, hcount]
  constructor
  · intro entry hentry
    rcases hbucket with rfl | rfl
    · exact h.1 entry hentry
    · cases hentry
  · exact fun n hlimited hn => h.2 n (fun r d hmem => hlimited r d (List.mem_append_left _ hmem)) hn

theorem no_request_admitted (key : Str) (n : Int) (_ : LimitedBy key n []) (hn : 0 ≤ n) :
    (([] : List RateEvent).countP (admits key) : Int) ≤ n := hn

theorem CountedKey.request {w : List RateEvent} {r : RateRequest} {entry : RateLimitEntry}
    (hcount : (currentWindow r entry).count = w.countP (admits r.key))
    (hlimit : ∀ n, LimitedBy r.key n w → 0 ≤ n → (w.countP (admits r.key) : Int) ≤ n)
    {buckets : Buckets} (hfound : buckets.lookup r.key ≠ none) (made : Bool) :
    CountedKey r.key (w ++ [(RateAction.request r, some (countRequest buckets r entry made).2)])
      ((countRequest buckets r entry made).1.lookup r.key) := by
  rcases (countRequest_spec buckets r entry made).2.2 with ⟨hdecision, _, hbuckets⟩ |
    ⟨hdecision, hless, hbuckets⟩
  · have hadmits : admits r.key (.request r, some (countRequest buckets r entry made).2) = false := by
      simp [admits, hdecision]
    have hbefore : CountedKey r.key w (some (currentWindow r entry)) := by
      refine ⟨fun found hsome => ?_, hlimit⟩
      cases hsome
      exact hcount
    apply hbefore.quiet hadmits
    rw [hbuckets, lookup_setValue_self hfound]
    exact .inl rfl
  · have hadmits : admits r.key (.request r, some (countRequest buckets r entry made).2) = true := by
      simp [admits, hdecision]
    have hnext : (w ++ [(RateAction.request r, some (countRequest buckets r entry made).2)]).countP
        (admits r.key) = w.countP (admits r.key) + 1 := by
      rw [List.countP_append, List.countP_singleton, if_pos hadmits]
    rw [CountedKey, hnext, hbuckets, lookup_setValue_self hfound]
    constructor
    · intro found hsome
      cases hsome
      exact congrArg (· + 1) hcount
    · intro n hlimited _
      have hr : r.limit ≤ n :=
        hlimited r _ (List.mem_append_right w (List.mem_singleton.mpr rfl)) rfl
      omega

structure Counted (h : List RateEvent) (s : RouteState) : Prop where
  bounded : Bounded s.rateLimitEntries
  keys : ∀ key, CountedKey key (window key h) (s.rateLimitEntries.lookup key)

theorem countedKey_nil {key : Str} : CountedKey key [] none :=
  ⟨fun _ h => (by cases h), fun _ _ hn => hn⟩

/-- The window a key is left with by an event. -/
def nextWindow (key : Str) (w : List RateEvent) (e : RateEvent) : List RateEvent :=
  if opens key e then [e] else w ++ [e]

theorem nextWindow_opens {key : Str} {e : RateEvent} (h : opens key e = true)
    (w : List RateEvent) : nextWindow key w e = [] ++ [e] := if_pos h

theorem nextWindow_stays {key : Str} {e : RateEvent} (h : opens key e = false)
    (w : List RateEvent) : nextWindow key w e = w ++ [e] := if_neg (by rw [h]; nofun)

theorem CountedKey.own {buckets : Buckets} (hb : Bounded buckets) {r : RateRequest}
    {w : List RateEvent} (h : CountedKey r.key w (buckets.lookup r.key)) :
    CountedKey r.key (nextWindow r.key w (.request r, some (allowRateLimit buckets r).2))
      ((allowRateLimit buckets r).1.lookup r.key) := by
  rcases allowRateLimit_counts buckets r with ⟨entry, _, hfound, hresult⟩ |
    ⟨kept, _, hfree, hkept, _, hresult⟩ | ⟨_, hfree, _, hresult⟩
  · rw [hresult]
    have hopened := (countRequest_spec buckets r entry false).1
    have hsome : buckets.lookup r.key ≠ none := by rw [hfound]; nofun
    by_cases hexpired : entry.expires ≤ r.now
    · rw [nextWindow_opens (by simp [opens, hopened, hexpired])]
      have hwindow : currentWindow r entry = newWindow r := if_pos hexpired
      apply CountedKey.request _ (no_request_admitted r.key) hsome
      rw [hwindow]
      rfl
    · rw [nextWindow_stays (by simp [opens, hopened, hexpired])]
      have hwindow : currentWindow r entry = entry := if_neg hexpired
      apply CountedKey.request _ h.2 hsome
      rw [hwindow]
      exact h.1 entry hfound
  · rw [hresult]
    have hopened := (countRequest_spec (kept ++ [(r.key, newWindow r)]) r (newWindow r) true).1
    rw [nextWindow_opens (by simp [opens, hopened])]
    apply CountedKey.request _ (no_request_admitted r.key)
    · rw [lookup_concat, if_pos rfl]
      cases kept.lookup r.key <;> nofun
    · unfold currentWindow
      split <;> rfl
  · rw [hresult, nextWindow_stays (by simp [opens])]
    have hgone : (evictExpired r.now buckets).lookup r.key = none := by
      rw [evictExpired, lookup_filter hb.keys, hfree]
      rfl
    exact h.quiet (by simp [admits]) (.inr hgone)

theorem CountedKey.other {buckets : Buckets} (hb : Bounded buckets) {r : RateRequest} {key : Str}
    (hkey : key ≠ r.key) {w : List RateEvent} (h : CountedKey key w (buckets.lookup key)) :
    CountedKey key (nextWindow key w (.request r, some (allowRateLimit buckets r).2))
      ((allowRateLimit buckets r).1.lookup key) := by
  have hne : r.key ≠ key := Ne.symm hkey
  rw [nextWindow_stays (by simp [opens, hne])]
  apply h.quiet (by simp [admits, hne])
  rcases allowRateLimit_other hb hkey with hsame | ⟨hnone, _⟩
  · exact .inl hsame
  · exact .inr hnone

theorem counted_step {h : List RateEvent} {s : RouteState} (hs : Counted h s) (a : RateAction) :
    Counted (h ++ [(a, (rateLimiter.step s a).2)]) (rateLimiter.step s a).1 := by
  refine ⟨hs.bounded.step a, fun key => ?_⟩
  rw [window_concat]
  cases a with
  | clear route =>
    have hbucket : (clearRouteRateLimit s route).rateLimitEntries.lookup key =
        s.rateLimitEntries.lookup key ∨
          (clearRouteRateLimit s route).rateLimitEntries.lookup key = none := by
      rw [lookup_clearRouteRateLimit hs.bounded]
      split
      · exact .inr rfl
      · exact .inl rfl
    exact (hs.keys key).quiet rfl hbucket
  | request r =>
    by_cases hkey : key = r.key
    · subst hkey
      exact CountedKey.own hs.bounded (hs.keys r.key)
    · exact CountedKey.other hs.bounded hkey (hs.keys key)

def Fresh (s : RouteState) : Prop := s.rateLimitEntries = []

theorem counted_run {s : RouteState} (hs : Fresh s) (as : List RateAction) :
    Counted (rateLimiter.history s as) (rateLimiter.run s as) := by
  have hfresh : Counted [] s := by
    refine ⟨⟨by rw [hs]; exact List.nodup_nil, by rw [hs]; exact Nat.zero_le _⟩, fun key => ?_⟩
    rw [hs]
    exact countedKey_nil
  exact rateLimiter.history_invariant hfresh (fun _ _ a ha => counted_step ha a) as

/-- When the window that a request opens is over. -/
def ends (r : RateRequest) : Int := r.now + r.perSec * second

theorem own_bucket {buckets : Buckets} (hb : Bounded buckets) (r : RateRequest) :
    ((allowRateLimit buckets r).2.opened = true ∧
        ∃ entry, (allowRateLimit buckets r).1.lookup r.key = some entry ∧ entry.expires = ends r) ∨
      ((allowRateLimit buckets r).2.opened = false ∧
        ((∃ old entry, buckets.lookup r.key = some old ∧
            (allowRateLimit buckets r).1.lookup r.key = some entry ∧ entry.expires = old.expires) ∨
          (buckets.lookup r.key = none ∧ (allowRateLimit buckets r).1.lookup r.key = none))) := by
  have hcounted : ∀ (table : Buckets) (entry : RateLimitEntry) (made : Bool),
      table.lookup r.key ≠ none →
      ∃ after, (countRequest table r entry made).1.lookup r.key = some after ∧
        after.expires = (currentWindow r entry).expires := by
    intro table entry made hsome
    rcases (countRequest_spec table r entry made).2.2 with ⟨_, _, hs⟩ | ⟨_, _, hs⟩ <;>
      rw [hs, lookup_setValue_self hsome] <;> exact ⟨_, rfl, rfl⟩
  rcases allowRateLimit_counts buckets r with ⟨old, _, hfound, hresult⟩ |
    ⟨kept, _, hfree, _, _, hresult⟩ | ⟨_, hfree, _, hresult⟩
  · rw [hresult]
    have hopened := (countRequest_spec buckets r old false).1
    obtain ⟨after, hafter, hends⟩ := hcounted buckets old false (by rw [hfound]; nofun)
    by_cases hexpired : old.expires ≤ r.now
    · have hwindow : currentWindow r old = newWindow r := if_pos hexpired
      refine .inl ⟨by simp [hopened, hexpired], after, hafter, ?_⟩
      rw [hends, hwindow]
      rfl
    · have hwindow : currentWindow r old = old := if_neg hexpired
      refine .inr ⟨by simp [hopened, hexpired], .inl ⟨old, after, hfound, hafter, ?_⟩⟩
      rw [hends, hwindow]
  · rw [hresult]
    have hopened := (countRequest_spec (kept ++ [(r.key, newWindow r)]) r (newWindow r) true).1
    obtain ⟨after, hafter, hends⟩ := hcounted (kept ++ [(r.key, newWindow r)]) (newWindow r) true
      (by rw [lookup_concat, if_pos rfl]; cases kept.lookup r.key <;> nofun)
    refine .inl ⟨by rw [hopened]; rfl, after, hafter, ?_⟩
    rw [hends]
    unfold currentWindow
    split <;> rfl
  · rw [hresult]
    have hgone : (evictExpired r.now buckets).lookup r.key = none := by
      rw [evictExpired, lookup_filter hb.keys, hfree]
      rfl
    exact .inr ⟨rfl, .inr ⟨hfree, hgone⟩⟩

/-- The events that may take a bucket away: its route is cleared, or a request comes when it is
over. -/
def Removes (route : Str) (expires : Int) : RateEvent → Prop
  | (.clear route', _) => route' = route
  | (.request r, _) => expires ≤ r.now

/-- A bucket is over when the request that has opened its window says, and is there until then. -/
def Spanned (key : Str) (w : List RateEvent) (bucket : Option RateLimitEntry) : Prop :=
  ∀ r d rest, w = (.request r, d) :: rest → opens key (.request r, d) = true →
    (∀ entry, bucket = some entry → entry.expires = ends r) ∧
      (bucket = none → ∃ e ∈ rest, Removes r.route (ends r) e)

theorem key_of_opens {key : Str} {r : RateRequest} {d : Option Decision}
    (h : opens key (.request r, d) = true) : r.key = key := by
  rcases d with _ | d
  · cases h
  · simp only [opens, Bool.and_eq_true, decide_eq_true_eq] at h
    exact h.1

theorem Spanned.stays {key : Str} {w : List RateEvent} {bucket bucket' : Option RateLimitEntry}
    (h : Spanned key w bucket) {e : RateEvent} (hopens : opens key e = false)
    (hkeeps : ∀ entry, bucket' = some entry → ∃ old, bucket = some old ∧
      entry.expires = old.expires)
    (hremoves : bucket' = none → bucket = none ∨ ∃ old, bucket = some old ∧
      ∀ r : RateRequest, r.key = key → Removes r.route old.expires e) :
    Spanned key (w ++ [e]) bucket' := by
  intro r d rest hw hopener
  rcases w with _ | ⟨first, rest'⟩
  · cases hw
    rw [hopens] at hopener
    cases hopener
  · obtain ⟨rfl, rfl⟩ := List.cons.inj hw
    obtain ⟨hexpires, hgone⟩ := h r d rest' rfl hopener
    constructor
    · intro entry hentry
      obtain ⟨old, hold, hsame⟩ := hkeeps entry hentry
      rw [hsame, hexpires old hold]
    · intro hnone
      rcases hremoves hnone with hbefore | ⟨old, hold, hremoved⟩
      · obtain ⟨e', he', hr⟩ := hgone hbefore
        exact ⟨e', List.mem_append_left _ he', hr⟩
      · have hr := hremoved r (key_of_opens hopener)
        rw [hexpires old hold] at hr
        exact ⟨e, List.mem_append_right _ (List.mem_singleton.mpr rfl), hr⟩

theorem spanned_request {buckets : Buckets} (hb : Bounded buckets) (r : RateRequest) {key : Str}
    {w : List RateEvent} (h : Spanned key w (buckets.lookup key)) :
    Spanned key (nextWindow key w (.request r, some (allowRateLimit buckets r).2))
      ((allowRateLimit buckets r).1.lookup key) := by
  by_cases hkey : key = r.key
  · subst hkey
    rcases own_bucket hb r with ⟨hopened, entry, hentry, hends⟩ | ⟨hstays, hbucket⟩
    · rw [nextWindow_opens (by simp [opens, hopened]), hentry]
      intro r' d rest hw _
      cases hw
      refine ⟨fun entry' hentry' => ?_, nofun⟩
      cases hentry'
      exact hends
    · rw [nextWindow_stays (by simp [opens, hstays])]
      apply h.stays (by simp [opens, hstays])
      · intro entry hentry
        rcases hbucket with ⟨old, after, hold, hafter, hsame⟩ | ⟨_, hnone⟩
        · rw [hafter] at hentry
          cases hentry
          exact ⟨old, hold, hsame⟩
        · rw [hnone] at hentry
          cases hentry
      · intro hnone
        rcases hbucket with ⟨_, after, _, hafter, _⟩ | ⟨hbefore, _⟩
        · rw [hafter] at hnone
          cases hnone
        · exact .inl hbefore
  · have hne : r.key ≠ key := Ne.symm hkey
    rw [nextWindow_stays (by simp [opens, hne])]
    apply h.stays (by simp [opens, hne])
    · intro entry hentry
      rcases allowRateLimit_other hb hkey with hsame | ⟨hnone, _⟩
      · exact ⟨entry, hsame ▸ hentry, rfl⟩
      · rw [hnone] at hentry
        cases hentry
    · intro hnone
      rcases allowRateLimit_other hb hkey with hsame | ⟨_, hexpired⟩
      · exact .inl (hsame ▸ hnone)
      · rcases hbucket : buckets.lookup key with _ | old
        · exact .inl rfl
        · exact .inr ⟨old, rfl, fun _ _ => hexpired old hbucket⟩

theorem spanned_clear {s : RouteState} (hs : Bounded s.rateLimitEntries) (route : Str) {key : Str}
    {w : List RateEvent} (h : Spanned key w (s.rateLimitEntries.lookup key)) :
    Spanned key (w ++ [(.clear route, none)])
      ((clearRouteRateLimit s route).rateLimitEntries.lookup key) := by
  rw [lookup_clearRouteRateLimit hs]
  split
  · next hroute =>
    apply h.stays rfl
    · nofun
    · intro _
      rcases s.rateLimitEntries.lookup key with _ | old
      · exact .inl rfl
      · refine .inr ⟨old, rfl, fun r hr => ?_⟩
        rw [← hr] at hroute
        exact eq_of_isPrefixOf_rateLimitKey hroute
  · exact h.stays rfl (fun entry hentry => ⟨entry, hentry, rfl⟩) fun hnone => .inl hnone

theorem spanned_run {s : RouteState} (hs : Fresh s) (as : List RateAction) :
    Bounded (rateLimiter.run s as).rateLimitEntries ∧ ∀ key, Spanned key
      (window key (rateLimiter.history s as)) ((rateLimiter.run s as).rateLimitEntries.lookup key) := by
  apply rateLimiter.history_invariant
    (I := fun h s => Bounded s.rateLimitEntries ∧
      ∀ key, Spanned key (window key h) (s.rateLimitEntries.lookup key))
  · exact ⟨(counted_run hs []).bounded, fun key r d rest hw => by cases hw⟩
  · intro h s a ⟨hb, hkeys⟩
    refine ⟨hb.step a, fun key => ?_⟩
    rw [window_concat]
    cases a with
    | request r => exact spanned_request hb r (hkeys key)
    | clear route => exact spanned_clear hb route (hkeys key)

end Quackapi.Http
