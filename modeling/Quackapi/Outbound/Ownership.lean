import Quackapi.Outbound.Steps

/-! Who owns a client over a run: the pool, one request, or nobody. -/

namespace Quackapi.Outbound
open Library

variable {order : IterationOrder}

def inFlight (s : PoolState) : List Client := s.flights.filterMap Flight.client

abbrev PoolEvent := PoolAction × PoolAnswer

def HandsOut (c : Client) (e : PoolEvent) : Prop :=
  ∃ origin pooled, e.2 = .handed origin (some c) pooled

def Returns (origin : Origin) (c : Client) (e : PoolEvent) : Prop := e.2 = .returned origin c

/-- After these events it takes another return to have the client in the pool. -/
def Forgets (c : Client) (e : PoolEvent) : Prop := e.1 = .reset ∨ HandsOut c e

/-- The hosts of a state that an operation leaves, before it takes a client or puts one back. -/
def liveHosts (order : IterationOrder) (s : PoolState) : PoolAction → Hosts
  | .checkout _ origin now => evict order now origin.key s.hosts
  | .finish request outcome now =>
    match returning s request outcome with
    | some (origin, _) => evict order now origin.key s.hosts
    | none => s.hosts
  | .reset => []

theorem liveHosts_eq_filter (order : IterationOrder) (s : PoolState) (a : PoolAction) :
    ∃ p, liveHosts order s a = s.hosts.filter p := by
  have hall : s.hosts = s.hosts.filter fun _ => true := by simp
  cases a with
  | checkout request origin now => exact evict_eq_filter order now origin.key s.hosts
  | finish request outcome now =>
    rw [liveHosts]
    rcases returning s request outcome with _ | ⟨origin, _⟩
    · exact ⟨_, hall⟩
    · exact evict_eq_filter order now origin.key s.hosts
  | reset => exact ⟨fun _ => false, by simp [liveHosts]⟩

theorem count_one (c b : Client) : [b].count c = if c = b then 1 else 0 := by
  rw [List.count_singleton]
  by_cases h : c = b
  · rw [h, beq_self_eq_true, if_pos rfl, if_pos rfl]
  · rw [if_neg h, if_neg (by rw [beq_iff_eq]; exact Ne.symm h)]

theorem inFlight_concat (flights : List Flight) (flight : Flight) (c : Client) :
    ((flights ++ [flight]).filterMap Flight.client).count c =
      (flights.filterMap Flight.client).count c + flight.client.toList.count c := by
  rw [List.filterMap_append, List.count_append]
  rcases h : flight.client with _ | client <;> simp [h]

theorem count_returning {s : PoolState} {request : Nat} {outcome : Outcome} {origin : Origin}
    {client : Client} (h : returning s request outcome = some (origin, client)) (c : Client) :
    ((s.flights.eraseP fun flight => decide (flight.request = request)).filterMap
        Flight.client).count c + [client].count c ≤
      (inFlight s).count c + (if c = s.nextClient then 1 else 0) := by
  obtain ⟨flight, hfound, hclient⟩ := returning_eq_some h
  have herase := count_eraseP (fun flight => decide (flight.request = request)) s.flights c
  rw [hfound, Option.bind_some] at herase
  unfold inFlight
  rcases hclient with hown | rfl
  · rw [hown, Option.toList_some] at herase
    omega
  · rw [count_one]
    omega

theorem step_count (order : IterationOrder) {s : PoolState} (hs : Bounds s) (a : PoolAction) (c : Client) :
    weigh (List.count c) (poolStep order s a).1.hosts + (inFlight (poolStep order s a).1).count c ≤
      weigh (List.count c) (liveHosts order s a) + (inFlight s).count c +
        (if c = s.nextClient then 1 else 0) := by
  have hcases : PoolCases order s a (poolStep order s a) := poolStep_cases hs.keys hs.size a
  generalize poolStep order s a = result at hcases
  rcases hcases with ⟨request, origin, now, hosts, host, client, asked, hlast⟩ |
    ⟨request, origin, now, hosts, host, client, asked, hnew⟩ | ⟨request, outcome, now, hnone⟩ |
    ⟨request, outcome, now, origin, client, hosts, host, hsome, asked, _, _⟩ |
    ⟨request, outcome, now, origin, client, hosts, host, hsome, asked⟩ | _
  · have htake := weigh_take asked hlast (additive_count c)
    have hflight := inFlight_concat s.flights ⟨request, origin, some client⟩ c
    rw [Option.toList_some] at hflight
    dsimp only [inFlight, liveHosts] at *
    omega
  · have hdial := weigh_dial asked (additive_count c)
    have hflight := inFlight_concat s.flights ⟨request, origin, client⟩ c
    have hone : client.toList.count c ≤ if c = s.nextClient then 1 else 0 := by
      rcases client with _ | client
      · exact Nat.zero_le _
      · rw [Option.toList_some, hnew client rfl]
        exact Nat.le_of_eq (count_one c s.nextClient)
    dsimp only [inFlight, liveHosts] at *
    omega
  · have herase := count_eraseP (fun flight => decide (flight.request = request)) s.flights c
    dsimp only [inFlight, liveHosts]
    rw [hnone]
    dsimp only
    omega
  · have hput := weigh_put asked origin.kind client (additive_count c)
    have hflight := count_returning hsome c
    dsimp only [inFlight, liveHosts] at *
    rw [hsome]
    dsimp only
    omega
  · have hnow := asked.weigh (additive_count c)
    have hflight := count_returning hsome c
    dsimp only [inFlight, liveHosts] at *
    rw [hsome]
    dsimp only
    omega
  · dsimp only [inFlight, liveHosts]
    have hempty : weigh (List.count c) [] = 0 := rfl
    omega

theorem step_handed {s : PoolState} (hs : Bounds s) (a : PoolAction) {c : Client} {origin : Origin}
    {pooled : Bool} (h : (poolStep order s a).2 = .handed origin (some c) pooled) :
    0 < (inFlight (poolStep order s a).1).count c ∧
      (0 < weigh (List.count c) (liveHosts order s a) ∨ c = s.nextClient) ∧
      (pooled = true → Idle s.hosts origin.key origin.kind c) := by
  have hcases : PoolCases order s a (poolStep order s a) := poolStep_cases hs.keys hs.size a
  generalize poolStep order s a = result at hcases h
  rcases hcases with ⟨request, origin, now, hosts, host, client, asked, hlast⟩ |
    ⟨request, origin, now, hosts, host, client, asked, hnew⟩ | _ | _ | _ | _
  · cases h
    have htake := weigh_take asked hlast (additive_count c)
    have hflight := inFlight_concat s.flights ⟨request, origin, some c⟩ c
    rw [Option.toList_some, List.count_singleton_self] at hflight
    rw [List.count_singleton_self] at htake
    refine ⟨?_, .inl ?_, fun _ => ?_⟩
    · dsimp only [inFlight]
      omega
    · dsimp only [liveHosts]
      omega
    · obtain ⟨p, hp⟩ := evict_eq_filter order now origin.key s.hosts
      have hidle : Idle (evict order now origin.key s.hosts) origin.key origin.kind c :=
        asked.idle_mem ⟨host, asked.found, List.mem_of_getLast? hlast⟩
      rw [hp] at hidle
      exact hidle.of_filter hs.keys
  · cases h
    have hflight := inFlight_concat s.flights ⟨request, origin, some c⟩ c
    rw [Option.toList_some, List.count_singleton_self] at hflight
    refine ⟨?_, .inr (hnew c rfl), nofun⟩
    dsimp only [inFlight]
    omega
  · cases h
  · cases h
  · cases h
  · cases h

theorem step_idle {s : PoolState} (hs : Bounds s) (a : PoolAction) {key : Str} {kind : Kind}
    {c : Client} (h : Idle (poolStep order s a).1.hosts key kind c) :
    Idle s.hosts key kind c ∨
      ∃ origin, origin.key = key ∧ origin.kind = kind ∧
        (poolStep order s a).2 = .returned origin c := by
  have hcases : PoolCases order s a (poolStep order s a) := poolStep_cases hs.keys hs.size a
  have hbefore : ∀ {now k}, Idle (evict order now k s.hosts) key kind c →
      Idle s.hosts key kind c := by
    intro now k hidle
    obtain ⟨p, hp⟩ := evict_eq_filter order now k s.hosts
    rw [hp] at hidle
    exact hidle.of_filter hs.keys
  generalize poolStep order s a = result at hcases h
  rcases hcases with ⟨request, origin, now, hosts, host, client, asked, _⟩ |
    ⟨request, origin, now, hosts, host, client, asked, _⟩ | _ |
    ⟨request, outcome, now, origin, client, hosts, host, _, asked, _, _⟩ |
    ⟨request, outcome, now, origin, client, hosts, host, _, asked⟩ | _
  · left
    rcases asked.idle_set h with hidle | ⟨rfl, hmem⟩
    · exact hbefore hidle
    · rw [idleOf_take] at hmem
      refine hbefore (asked.idle_mem ⟨host, asked.found, ?_⟩)
      split at hmem
      · next hkind => exact hkind ▸ List.dropLast_subset _ hmem
      · exact hmem
  · left
    rcases asked.idle_set h with hidle | ⟨rfl, hmem⟩
    · exact hbefore hidle
    · rw [idleOf_dial] at hmem
      exact hbefore (asked.idle_mem ⟨host, asked.found, hmem⟩)
  · exact .inl h
  · rcases asked.idle_set h with hidle | ⟨rfl, hmem⟩
    · exact .inl (hbefore hidle)
    · rw [idleOf_put] at hmem
      split at hmem
      · next hkind =>
        subst hkind
        rcases List.mem_append.mp hmem with hold | hnew
        · exact .inl (hbefore (asked.idle_mem ⟨host, asked.found, hold⟩))
        · rw [List.mem_singleton.mp hnew]
          exact .inr ⟨origin, rfl, rfl, rfl⟩
      · exact .inl (hbefore (asked.idle_mem ⟨host, asked.found, hmem⟩))
  · exact .inl (hbefore (asked.idle_mem h))
  · obtain ⟨host, hlookup, _⟩ := h
    cases hlookup

theorem step_nextClient {s : PoolState} (hs : Bounds s) (a : PoolAction) :
    (poolStep order s a).1.nextClient = s.nextClient + 1 := by
  have hcases : PoolCases order s a (poolStep order s a) := poolStep_cases hs.keys hs.size a
  generalize poolStep order s a = result at hcases
  cases hcases <;> rfl

theorem weigh_liveHosts_le (order : IterationOrder) (s : PoolState) (a : PoolAction) (c : Client) :
    weigh (List.count c) (liveHosts order s a) ≤ weigh (List.count c) s.hosts := by
  obtain ⟨p, hp⟩ := liveHosts_eq_filter order s a
  rw [hp]
  exact weigh_filter_le _ p s.hosts

theorem Idle.count_pos {hosts : Hosts} {key : Str} {kind : Kind} {c : Client}
    (h : Idle hosts key kind c) : 0 < weigh (List.count c) hosts := by
  obtain ⟨host, hlookup, hc⟩ := h
  have hhost : 0 < host.idle.count c := List.count_pos_iff.mpr (mem_idle.mpr ⟨kind, hc⟩)
  exact Nat.lt_of_lt_of_le hhost (le_sumValues (f := fun host => host.idle.count c) hlookup)

theorem append_cons_ne {α : Type*} {a b : α} {u v s t : List α} (hab : a ≠ b) (ha : a ∉ u)
    (hb : b ∉ v) : u ++ b :: s ≠ v ++ a :: t := by
  intro h
  rcases List.append_eq_append_iff.mp h with ⟨w, hv, hs⟩ | ⟨w, hu, ht⟩
  · rcases w with _ | ⟨x, w⟩
    · exact hab (List.cons.inj hs).1.symm
    · have hx : x = b := (List.cons.inj hs).1.symm
      exact hb (hv ▸ List.mem_append_right u (hx ▸ List.mem_cons_self))
  · rcases w with _ | ⟨x, w⟩
    · exact hab (List.cons.inj ht).1
    · have hx : x = a := (List.cons.inj ht).1.symm
      exact ha (hu ▸ List.mem_append_right v (hx ▸ List.mem_cons_self))

theorem toLower_eq_colon {c : Char} (h : c.toLower = ':') : c = ':' := by
  unfold Char.toLower at h
  split at h
  · next hupper =>
    have hlow : 65 ≤ c.toNat := UInt32.le_iff_toNat_le.mp hupper.1
    have hhigh : c.toNat ≤ 90 := UInt32.le_iff_toNat_le.mp hupper.2
    have hval := congrArg Char.toNat h
    simp at hval
    omega
  · exact h

theorem plain_ne_util (o : PlainOrigin) (u : UtilOrigin) :
    (Origin.plain o).key ≠ (Origin.util u).key := by
  intro h
  have hplain := o.isPlainHttp
  have horigin : o.origin = u.name ++ '|' :: u.origin := h
  obtain ⟨rest, hrest⟩ := List.isPrefixOf_iff_prefix.mp hplain
  have hlower : lower o.origin = lower u.name ++ '|' :: lower u.origin := by
    rw [horigin, lower, List.map_append, List.map_cons]
    rfl
  have hcolon : ':' ∉ lower u.name := by
    intro hmem
    obtain ⟨c, hc, hlow⟩ := List.mem_map.mp hmem
    exact u.named.1 (toLower_eq_colon hlow ▸ hc)
  have hhttp : lower u.name ++ '|' :: lower u.origin = "http".toList ++ ':' :: ("//".toList ++ rest) := by
    rw [← hlower, ← hrest]
    rfl
  exact append_cons_ne (by decide) hcolon (by decide) hhttp

theorem key_injective {o o' : Origin} (h : o.key = o'.key) : o = o' := by
  rcases o with p | u <;> rcases o' with p' | u'
  · obtain ⟨origin, _⟩ := p
    obtain ⟨origin', _⟩ := p'
    cases (show origin = origin' from h)
    rfl
  · exact absurd h (plain_ne_util p u')
  · exact absurd h.symm (plain_ne_util p' u)
  · obtain ⟨name, origin, hname⟩ := u
    obtain ⟨name', origin', hname'⟩ := u'
    have hkey : name ++ '|' :: origin = name' ++ '|' :: origin' := h
    have hsplit := congrArg (List.splitOn '|') hkey
    rw [List.splitOn_append_cons_self_of_not_mem hname.2,
      List.splitOn_append_cons_self_of_not_mem hname'.2] at hsplit
    have hnames : name = name' := (List.cons.inj hsplit).1
    subst hnames
    cases (List.cons.inj (List.append_cancel_left hkey)).2
    rfl

/-- A client has one owner at most, and whatever is idle was returned to that origin since it was
last handed out and since the last reset. -/
structure Owned (h : List PoolEvent) (s : PoolState) : Prop where
  bounds : Bounds s
  once : ∀ c, weigh (List.count c) s.hosts + (inFlight s).count c ≤ 1
  known : ∀ c, s.nextClient ≤ c → weigh (List.count c) s.hosts + (inFlight s).count c = 0
  since : ∀ {key kind c}, Idle s.hosts key kind c →
    ∃ origin : Origin, origin.key = key ∧ origin.kind = kind ∧
      Since (Returns origin c) (Forgets c) h

theorem owned_step {h : List PoolEvent} {s : PoolState} (hs : Owned h s) (a : PoolAction) :
    Owned (h ++ [(a, (poolStep order s a).2)]) (poolStep order s a).1 := by
  have hcount := step_count order hs.bounds a
  have honce : ∀ c, weigh (List.count c) (poolStep order s a).1.hosts +
      (inFlight (poolStep order s a).1).count c ≤ 1 := by
    intro c
    have hstep := hcount c
    have hlive := weigh_liveHosts_le order s a c
    by_cases hc : c = s.nextClient
    · have hnone := hs.known c (hc ▸ Nat.le_refl _)
      rw [if_pos hc] at hstep
      omega
    · have hold := hs.once c
      rw [if_neg hc] at hstep
      omega
  refine ⟨hs.bounds.step a, honce, fun c hc => ?_, fun {key kind c} hidle => ?_⟩
  · rw [step_nextClient hs.bounds] at hc
    have hstep := hcount c
    have hlive := weigh_liveHosts_le order s a c
    have hold := hs.known c (Nat.le_of_succ_le hc)
    rw [if_neg (Nat.ne_of_gt hc)] at hstep
    omega
  · rcases step_idle hs.bounds a hidle with hbefore | ⟨origin, hkey, hkind, hreturned⟩
    · obtain ⟨origin, hkey, hkind, hsince⟩ := hs.since hbefore
      refine ⟨origin, hkey, hkind, since_concat.mpr (.inr ⟨hsince, ?_⟩)⟩
      rintro (hreset | ⟨origin', pooled, hhanded⟩)
      · have hcleared : a = .reset := hreset
        subst hcleared
        obtain ⟨host, hlookup, _⟩ := hidle
        cases hlookup
      · -- a client that is handed out is in flight, and so not idle
        have hflying := (step_handed hs.bounds a hhanded).1
        have hpos := hidle.count_pos
        have hone := honce c
        omega
    · exact ⟨origin, hkey, hkind, since_concat.mpr (.inl hreturned)⟩

theorem owned_run (order : IterationOrder) (as : List PoolAction) :
    Owned ((connectionPool order).history emptyPool as) ((connectionPool order).run emptyPool as) := by
  have hempty : Owned [] emptyPool :=
    ⟨⟨List.nodup_nil, Nat.zero_le _, Nat.zero_le _, fun hlookup => by cases hlookup⟩,
      fun _ => Nat.zero_le _, fun _ _ => rfl, fun ⟨_, hlookup, _⟩ => by cases hlookup⟩
  exact (connectionPool order).history_invariant hempty (fun _ _ a ha => owned_step ha a) as

def Gone (c : Client) (s : PoolState) : Prop :=
  c < s.nextClient ∧ weigh (List.count c) s.hosts + (inFlight s).count c = 0

theorem gone_step {s : PoolState} (hs : Bounds s) (order : IterationOrder) (a : PoolAction)
    {c : Client} (hc : c < s.nextClient)
    (hgone : weigh (List.count c) (liveHosts order s a) + (inFlight s).count c = 0) :
    ¬ HandsOut c (a, (poolStep order s a).2) ∧ Gone c (poolStep order s a).1 := by
  have hstep := step_count order hs a c
  rw [if_neg (Nat.ne_of_lt hc)] at hstep
  refine ⟨?_, ?_, by omega⟩
  · rintro ⟨origin, pooled, hhanded⟩
    have hflying := (step_handed hs a hhanded).1
    omega
  · rw [step_nextClient hs]
    exact Nat.lt_succ_of_lt hc

theorem gone_run {s : PoolState} (hs : Bounds s) {c : Client} (hgone : Gone c s)
    (as : List PoolAction) : ∀ e ∈ (connectionPool order).history s as, ¬ HandsOut c e := by
  induction as generalizing s with
  | nil => exact fun e he => by cases he
  | cons a as ih =>
    have hlive := weigh_liveHosts_le order s a c
    obtain ⟨hnot, hafter⟩ := gone_step hs order a hgone.1
      (by have hsum := hgone.2; omega)
    exact List.forall_mem_cons.mpr ⟨hnot, ih (hs.step a) hafter⟩

theorem dropped_run {h : List PoolEvent} {s : PoolState} (hs : Owned h s) (a : PoolAction)
    {e : Str × HostPool} (he : e ∈ s.hosts) (hdropped : e ∉ liveHosts order s a) {c : Client}
    (hc : c ∈ e.2.idle) (as : List PoolAction) :
    ∀ event ∈ (connectionPool order).history s (a :: as), ¬ HandsOut c event := by
  obtain ⟨p, hp⟩ := liveHosts_eq_filter order s a
  have hout : p e = false := by
    rw [hp, List.mem_filter, not_and] at hdropped
    exact Bool.eq_false_iff.mpr (hdropped he)
  have hmine : 0 < e.2.idle.count c := List.count_pos_iff.mpr hc
  have hrest : weigh (List.count c) (liveHosts order s a) + e.2.idle.count c ≤
      weigh (List.count c) s.hosts := by
    rw [hp]
    exact sumValues_filter_add_le he hout
  have hone := hs.once c
  have hknown : c < s.nextClient := by
    by_contra hnew
    have hnone := hs.known c (Nat.le_of_not_lt hnew)
    omega
  obtain ⟨hnot, hgone⟩ := gone_step hs.bounds order a hknown (by omega)
  exact List.forall_mem_cons.mpr ⟨hnot, gone_run (hs.bounds.step a) hgone as⟩

def idleClients (hosts : Hosts) : List Client := hosts.flatMap fun e => e.2.idle

theorem count_idleClients (c : Client) (hosts : Hosts) :
    (idleClients hosts).count c = weigh (List.count c) hosts := by
  induction hosts with
  | nil => rfl
  | cons e hosts ih =>
    rw [idleClients, List.flatMap_cons, List.count_append]
    exact congrArg _ ih

theorem Owned.idle_le {h : List PoolEvent} {s : PoolState} (hs : Owned h s) {key : Str}
    {host : HostPool} (hlookup : s.hosts.lookup key = some host) :
    host.idle.length ≤ maxIdlePerHost := by
  have hplain := hs.bounds.perHost hlookup .plain
  have hutil := hs.bounds.perHost hlookup .util
  rw [HostPool.idle, List.length_append]
  change host.plainIdle.length ≤ maxIdlePerHost at hplain
  change host.utilIdle.length ≤ maxIdlePerHost at hutil
  rcases hp : host.plainIdle with _ | ⟨c, _⟩
  · rw [List.length_nil]
    omega
  · rcases hu : host.utilIdle with _ | ⟨c', _⟩
    · rw [← hp, List.length_nil]
      omega
    · -- a key of the bundled client is no key of another implementation
      have hplainIdle : Idle s.hosts key .plain c :=
        ⟨host, hlookup, show c ∈ host.plainIdle from hp ▸ List.mem_cons_self⟩
      have hutilIdle : Idle s.hosts key .util c' :=
        ⟨host, hlookup, show c' ∈ host.utilIdle from hu ▸ List.mem_cons_self⟩
      obtain ⟨o, hokey, hokind, _⟩ := hs.since hplainIdle
      obtain ⟨u, hukey, hukind, _⟩ := hs.since hutilIdle
      have hsame := key_injective (hokey.trans hukey.symm)
      rw [hsame, hukind] at hokind
      cases hokind

theorem connection_pool (order : IterationOrder) (as : List PoolAction) :
    let pool := connectionPool order
    (∀ key host, (pool.run emptyPool as).hosts.lookup key = some host →
      host.idle.length ≤ maxIdlePerHost) ∧
    totalIdleClients (pool.run emptyPool as).hosts ≤ maxIdleTotal ∧
    (pool.run emptyPool as).hosts.length ≤ maxPoolHosts ∧
    (idleClients (pool.run emptyPool as).hosts ++ inFlight (pool.run emptyPool as)).Nodup ∧
    (∀ request origin now c,
      (pool.step (pool.run emptyPool as) (.checkout request origin now)).2 =
          .handed origin (some c) true →
        Since (Returns origin c) (Forgets c) (pool.history emptyPool as)) ∧
    ∀ pre a post, as = pre ++ a :: post →
      ∀ e ∈ (pool.run emptyPool pre).hosts, e ∉ liveHosts order (pool.run emptyPool pre) a →
        ∀ c ∈ e.2.idle, ∀ event ∈ pool.history (pool.run emptyPool pre) (a :: post),
          ¬ HandsOut c event := by
  have hs := owned_run order as
  dsimp only
  refine ⟨fun key host hlookup => hs.idle_le hlookup, ?_, hs.bounds.size, ?_, ?_, ?_⟩
  · rw [totalIdleClients_eq]
    exact hs.bounds.total
  · apply List.nodup_iff_count_le_one.mpr
    intro c
    rw [List.count_append, count_idleClients]
    exact hs.once c
  · intro request origin now c hhanded
    have hidle := (step_handed hs.bounds _ hhanded).2.2 rfl
    obtain ⟨origin', hkey, _, hsince⟩ := hs.since hidle
    rw [key_injective hkey] at hsince
    exact hsince
  · intro pre a post _ e he hdropped c hc
    exact dropped_run (owned_run order pre) a he hdropped hc post

def inOrder : IterationOrder := ⟨id, fun _ => .refl _⟩

def siteA : Origin := .plain ⟨"http://a".toList, by decide⟩

def siteB : Origin := .plain ⟨"http://b".toList, by decide⟩

def secureSite (name : { n : Str // ':' ∉ n ∧ '|' ∉ n }) : Origin :=
  .util ⟨name, "https://a".toList, name.property⟩

def builtIn : Origin := secureSite ⟨"Built-In".toList, by decide⟩

def httpfs : Origin := secureSite ⟨"HTTPFS".toList, by decide⟩

/-- So many requests of an origin at once, each of which ends well. -/
def burst (origin : Origin) (first n : Nat) : List PoolAction :=
  (List.range n).map (fun i => .checkout (first + i) origin 0) ++
    (List.range n).map fun i => .finish (first + i) (.healthy .other) 0

/-- A client that is in flight while its origin is evicted is returned and handed out again, and an
origin that two implementations reach has more idle clients than an entry may have. -/
theorem lateReturn_handedOut :
    (∃ e ∈ ((connectionPool inOrder).run emptyPool [.checkout 0 siteA 0]).hosts,
      e.1 = siteA.key ∧
        e ∉ liveHosts inOrder ((connectionPool inOrder).run emptyPool [.checkout 0 siteA 0])
          (.checkout 1 siteB (idlePoolTtl + 1))) ∧
    ⟨0, siteA, some 0⟩ ∈ ((connectionPool inOrder).run emptyPool [.checkout 0 siteA 0]).flights ∧
    (poolStep inOrder ((connectionPool inOrder).run emptyPool [.checkout 0 siteA 0,
        .checkout 1 siteB (idlePoolTtl + 1), .finish 0 (.healthy .same) (idlePoolTtl + 2)])
      (.checkout 2 siteA (idlePoolTtl + 3))).2 = .handed siteA (some 0) true ∧
    ((connectionPool inOrder).run emptyPool (burst builtIn 0 33 ++ burst httpfs 33 33)).hosts.map
        (fun e => (e.1, e.2.idle.length)) =
      [("Built-In|https://a".toList, 33), ("HTTPFS|https://a".toList, 33)] := by
  refine ⟨?_, by decide +kernel, by decide +kernel, by decide +kernel⟩
  have hhost : ((connectionPool inOrder).run emptyPool [.checkout 0 siteA 0]).hosts =
      [("http://a".toList, ⟨[], [], 1, 0, 0⟩)] := by decide +kernel
  rw [hhost]
  exact ⟨_, List.mem_singleton.mpr rfl, rfl, by decide +kernel⟩

end Quackapi.Outbound
