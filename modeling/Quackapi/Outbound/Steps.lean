import Quackapi.Outbound.Idle

/-! What a step can do to the pool, and that no step breaks its bounds. -/

namespace Quackapi.Outbound
open Library

variable {order : IterationOrder}

theorem returning_eq_some {s : PoolState} {request : Nat} {outcome : Outcome} {origin : Origin}
    {c : Client} (h : returning s request outcome = some (origin, c)) :
    ∃ flight, s.flights.find? (fun flight => decide (flight.request = request)) = some flight ∧
      (flight.client = some c ∨ c = s.nextClient) := by
  unfold returning at h
  rcases hfound : s.flights.find? fun flight => decide (flight.request = request) with _ | flight
  · rw [hfound] at h
    cases h
  · rw [hfound] at h
    refine ⟨flight, hfound, ?_⟩
    rcases outcome with _ | _ | left
    · cases h
    · cases h
    · have hown : flight.client.map (flight.origin, ·) = some (origin, c) →
          flight.client = some c := by
        intro hmap
        obtain ⟨client, hclient, heq⟩ := Option.map_eq_some_iff.mp hmap
        rw [hclient, (Prod.mk.inj heq).2]
      rcases hkind : flight.origin.kind with _ | _ <;> rcases left with _ | _ | _ <;>
        simp only [hkind] at h
      · exact .inl (hown h)
      · exact .inl (hown h)
      · exact .inl (hown h)
      · exact .inl (hown h)
      · exact .inr (Prod.mk.inj (Option.some.inj h)).2.symm
      · cases h

theorem count_eraseP (p : Flight → Bool) (flights : List Flight) (c : Client) :
    ((flights.eraseP p).filterMap Flight.client).count c +
        ((flights.find? p).bind Flight.client).toList.count c =
      (flights.filterMap Flight.client).count c := by
  induction flights with
  | nil => rfl
  | cons flight flights ih =>
    by_cases hp : p flight = true
    · rw [List.eraseP_cons_of_pos hp, List.find?_cons_of_pos hp, List.filterMap_cons,
        Option.bind_some]
      rcases flight.client with _ | client
      · rfl
      · simp [List.count_cons]
    · rw [List.eraseP_cons_of_neg hp, List.find?_cons_of_neg hp, List.filterMap_cons,
        List.filterMap_cons]
      rcases flight.client with _ | client
      · exact ih
      · simp only [List.count_cons]
        omega

theorem weigh_take {kept hosts : Hosts} {key : Str} {host : HostPool} {kind : Kind}
    (h : Asked kept hosts key host) {c : Client} (hlast : (host.idleOf kind).getLast? = some c)
    {g : List Client → Nat} (hg : Additive g) :
    weigh g (setValue key (host.take kind) hosts) + g [c] = weigh g kept := by
  have hset := h.weigh_set hg (host.take kind)
  have hsplit : (host.idleOf kind).dropLast ++ [c] = host.idleOf kind :=
    List.dropLast_append_getLast? c hlast
  have hidle := weigh_setIdle hg host (host.idleOf kind).dropLast kind
  have hsum := hg.append (host.idleOf kind).dropLast [c]
  rw [hsplit] at hsum
  have hsame : (host.take kind).idle = (host.setIdle (host.idleOf kind).dropLast kind).idle := rfl
  rw [← hsame] at hidle
  omega

theorem weigh_dial {kept hosts : Hosts} {key : Str} {host : HostPool}
    (h : Asked kept hosts key host) {g : List Client → Nat} (hg : Additive g) :
    weigh g (setValue key host.dial hosts) = weigh g kept :=
  Nat.add_right_cancel (h.weigh_set hg host.dial)

theorem weigh_put {kept hosts : Hosts} {key : Str} {host : HostPool}
    (h : Asked kept hosts key host) (kind : Kind) (c : Client) {g : List Client → Nat} (hg : Additive g) :
    weigh g (setValue key (host.put kind c) hosts) = weigh g kept + g [c] := by
  have hset := h.weigh_set hg (host.put kind c)
  have hidle := weigh_setIdle hg host (host.idleOf kind ++ [c]) kind
  rw [hg.append] at hidle
  have hsame : (host.put kind c).idle = (host.setIdle (host.idleOf kind ++ [c]) kind).idle := rfl
  rw [← hsame] at hidle
  omega

/-- A client of a kind is idle in the host of a key. -/
def Idle (hosts : Hosts) (key : Str) (kind : Kind) (c : Client) : Prop :=
  ∃ host, hosts.lookup key = some host ∧ c ∈ host.idleOf kind

theorem Idle.of_filter {hosts : Hosts} (hkeys : (hosts.map Prod.fst).Nodup)
    {p : Str × HostPool → Bool} {key : Str} {kind : Kind} {c : Client}
    (h : Idle (hosts.filter p) key kind c) : Idle hosts key kind c := by
  obtain ⟨host, hlookup, hc⟩ := h
  rw [lookup_filter hkeys, Option.filter_eq_some_iff] at hlookup
  exact ⟨host, hlookup.1, hc⟩

theorem Asked.idle_mem {kept hosts : Hosts} {key k : Str} {host : HostPool} {kind : Kind}
    {c : Client} (h : Asked kept hosts key host) (hidle : Idle hosts k kind c) :
    Idle kept k kind c := by
  obtain ⟨host', hlookup, hc⟩ := hidle
  rcases h.idle hlookup with hempty | ⟨old, hold, hsame⟩
  · rw [hempty kind] at hc
    cases hc
  · exact ⟨old, hold, hsame kind ▸ hc⟩

theorem Asked.idle_set {kept hosts : Hosts} {key k : Str} {host host' : HostPool} {kind : Kind}
    {c : Client} (h : Asked kept hosts key host) (hidle : Idle (setValue key host' hosts) k kind c) :
    Idle kept k kind c ∨ (k = key ∧ c ∈ host'.idleOf kind) := by
  obtain ⟨found, hlookup, hc⟩ := hidle
  by_cases hk : k = key
  · subst hk
    rw [lookup_setValue_self (by rw [h.found]; nofun)] at hlookup
    cases hlookup
    exact .inr ⟨rfl, hc⟩
  · rw [lookup_setValue_other hk] at hlookup
    exact .inl (h.idle_mem ⟨found, hlookup, hc⟩)

inductive PoolCases (order : IterationOrder) (s : PoolState) :
    PoolAction → PoolState × PoolAnswer → Prop
  | taken (request : Nat) (origin : Origin) (now : Int) (hosts : Hosts) (host : HostPool)
      (c : Client) (asked : Asked (evict order now origin.key s.hosts) hosts origin.key host)
      (hlast : (host.idleOf origin.kind).getLast? = some c) :
      PoolCases order s (.checkout request origin now)
        (⟨setValue origin.key (host.take origin.kind) hosts,
          s.flights ++ [⟨request, origin, some c⟩], s.nextClient + 1⟩, .handed origin (some c) true)
  | dialed (request : Nat) (origin : Origin) (now : Int) (hosts : Hosts) (host : HostPool)
      (client : Option Client)
      (asked : Asked (evict order now origin.key s.hosts) hosts origin.key host)
      (hnew : ∀ c, client = some c → c = s.nextClient) :
      PoolCases order s (.checkout request origin now)
        (⟨setValue origin.key host.dial hosts,
          s.flights ++ [⟨request, origin, client⟩], s.nextClient + 1⟩, .handed origin client false)
  | ended (request : Nat) (outcome : Outcome) (now : Int)
      (hnone : returning s request outcome = none) :
      PoolCases order s (.finish request outcome now)
        (⟨s.hosts, s.flights.eraseP fun flight => decide (flight.request = request),
          s.nextClient + 1⟩, .done)
  | put (request : Nat) (outcome : Outcome) (now : Int) (origin : Origin) (c : Client)
      (hosts : Hosts) (host : HostPool) (hsome : returning s request outcome = some (origin, c))
      (asked : Asked (evict order now origin.key s.hosts) hosts origin.key host)
      (hroom : (host.idleOf origin.kind).length < maxIdlePerHost)
      (htotal : totalIdleClients hosts < maxIdleTotal) :
      PoolCases order s (.finish request outcome now)
        (⟨setValue origin.key (host.put origin.kind c) hosts,
          s.flights.eraseP fun flight => decide (flight.request = request), s.nextClient + 1⟩,
          .returned origin c)
  | closed (request : Nat) (outcome : Outcome) (now : Int) (origin : Origin) (c : Client)
      (hosts : Hosts) (host : HostPool) (hsome : returning s request outcome = some (origin, c))
      (asked : Asked (evict order now origin.key s.hosts) hosts origin.key host) :
      PoolCases order s (.finish request outcome now)
        (⟨hosts, s.flights.eraseP fun flight => decide (flight.request = request),
          s.nextClient + 1⟩, .returned origin c)
  | reset : PoolCases order s .reset (⟨[], s.flights, s.nextClient + 1⟩, .done)

theorem poolStep_cases {s : PoolState} (hkeys : (s.hosts.map Prod.fst).Nodup)
    (hsize : s.hosts.length ≤ maxPoolHosts) (a : PoolAction) :
    PoolCases order s a (poolStep order s a) := by
  cases a with
  | checkout request origin now =>
    have hasked := poolHost_asked order now origin.key hkeys hsize
    show PoolCases order s _ (checkout order s request origin now)
    unfold checkout
    rcases hhost : poolHost order now origin.key s.hosts with ⟨hosts, host⟩
    rw [hhost] at hasked
    dsimp only
    rcases hlast : (host.idleOf origin.kind).getLast? with _ | c
    · refine .dialed request origin now hosts host _ hasked ?_
      rcases origin.kind with _ | _
      · exact fun c hc => (Option.some.inj hc).symm
      · nofun
    · exact .taken request origin now hosts host c hasked hlast
  | finish request outcome now =>
    show PoolCases order s _ (finish order s request outcome now)
    unfold finish
    dsimp only
    rcases hreturning : returning s request outcome with _ | ⟨origin, c⟩
    · exact .ended request outcome now hreturning
    · have hasked := poolHost_asked order now origin.key hkeys hsize
      rcases hhost : poolHost order now origin.key s.hosts with ⟨hosts, host⟩
      rw [hhost] at hasked
      dsimp only
      rw [hhost]
      dsimp only
      split
      · next hroom =>
        exact .put request outcome now origin c hosts host hreturning hasked hroom.1 hroom.2
      · exact .closed request outcome now origin c hosts host hreturning hasked
  | reset => exact .reset

structure Bounds (s : PoolState) : Prop where
  keys : (s.hosts.map Prod.fst).Nodup
  size : s.hosts.length ≤ maxPoolHosts
  total : weigh List.length s.hosts ≤ maxIdleTotal
  perHost : ∀ {key host}, s.hosts.lookup key = some host →
    ∀ kind, (host.idleOf kind).length ≤ maxIdlePerHost

theorem length_setValue (key : Str) (host : HostPool) (hosts : Hosts) :
    (setValue key host hosts).length = hosts.length := List.length_map _

theorem weigh_filter_le (g : List Client → Nat) (p : Str × HostPool → Bool) (hosts : Hosts) :
    weigh g (hosts.filter p) ≤ weigh g hosts := sumValues_filter_le p hosts

theorem Bounds.perHost_asked {s : PoolState} (hs : Bounds s) {now : Int} {key k : Str}
    {hosts : Hosts} {host found : HostPool} (h : Asked (evict order now key s.hosts) hosts key host)
    (hlookup : hosts.lookup k = some found) (kind : Kind) :
    (found.idleOf kind).length ≤ maxIdlePerHost := by
  obtain ⟨p, hp⟩ := evict_eq_filter order now key s.hosts
  rcases h.idle hlookup with hempty | ⟨old, hold, hsame⟩
  · rw [hempty kind]
    exact Nat.zero_le _
  · rw [hp, lookup_filter hs.keys, Option.filter_eq_some_iff] at hold
    rw [hsame kind]
    exact hs.perHost hold.1 kind

theorem Bounds.set {s : PoolState} (hs : Bounds s) {now : Int} {key : Str} {hosts : Hosts}
    {host host' : HostPool} (h : Asked (evict order now key s.hosts) hosts key host)
    (htotal : weigh List.length (setValue key host' hosts) ≤ maxIdleTotal)
    (hkinds : ∀ kind, (host'.idleOf kind).length ≤ maxIdlePerHost) (flights : List Flight)
    (next : Client) : Bounds ⟨setValue key host' hosts, flights, next⟩ := by
  refine ⟨?_, ?_, htotal, fun {k found} hlookup kind => ?_⟩
  · show ((setValue key host' hosts).map Prod.fst).Nodup
    rw [keys_setValue]
    exact h.keys
  · show (setValue key host' hosts).length ≤ maxPoolHosts
    rw [length_setValue]
    exact h.size
  · by_cases hk : k = key
    · subst hk
      change (setValue k host' hosts).lookup k = some found at hlookup
      rw [lookup_setValue_self (by rw [h.found]; nofun)] at hlookup
      cases hlookup
      exact hkinds kind
    · change (setValue key host' hosts).lookup k = some found at hlookup
      rw [lookup_setValue_other hk] at hlookup
      exact hs.perHost_asked h hlookup kind

theorem Bounds.weigh_evict {s : PoolState} (hs : Bounds s) (order : IterationOrder) (now : Int)
    (key : Str) : weigh List.length (evict order now key s.hosts) ≤ maxIdleTotal := by
  obtain ⟨p, hp⟩ := evict_eq_filter order now key s.hosts
  rw [hp]
  exact Nat.le_trans (weigh_filter_le _ p s.hosts) hs.total

theorem Bounds.step {s : PoolState} (hs : Bounds s) (a : PoolAction) :
    Bounds (poolStep order s a).1 := by
  have hcases : PoolCases order s a (poolStep order s a) := poolStep_cases hs.keys hs.size a
  generalize poolStep order s a = result at hcases
  rcases hcases with ⟨request, origin, now, hosts, host, c, asked, hlast⟩ |
    ⟨request, origin, now, hosts, host, client, asked, _⟩ | ⟨request, outcome, now, _⟩ |
    ⟨request, outcome, now, origin, c, hosts, host, _, asked, hroom, htotal⟩ |
    ⟨request, outcome, now, origin, c, hosts, host, _, asked⟩ | _
  · have hkept := hs.weigh_evict order now origin.key
    have htake := weigh_take asked hlast additive_length
    apply hs.set asked
    · omega
    · intro kind
      have hbefore := hs.perHost_asked asked asked.found kind
      rw [idleOf_take]
      split
      · next hkind =>
        subst hkind
        rw [List.length_dropLast]
        omega
      · exact hbefore
  · have hkept := hs.weigh_evict order now origin.key
    have hdial := weigh_dial asked additive_length
    apply hs.set asked
    · omega
    · intro kind
      rw [idleOf_dial]
      exact hs.perHost_asked asked asked.found kind
  · exact ⟨hs.keys, hs.size, hs.total, hs.perHost⟩
  · have hput := weigh_put asked origin.kind c additive_length
    have hnow := asked.weigh additive_length
    rw [totalIdleClients_eq] at htotal
    apply hs.set asked
    · rw [hput, ← hnow]
      exact htotal
    · intro kind
      rw [idleOf_put]
      split
      · rw [List.length_append, List.length_singleton]
        exact hroom
      · exact hs.perHost_asked asked asked.found kind
  · have hkept := hs.weigh_evict order now origin.key
    have hnow := asked.weigh additive_length
    exact ⟨asked.keys, asked.size, hnow ▸ hkept, fun hlookup kind =>
      hs.perHost_asked asked hlookup kind⟩
  · exact ⟨List.nodup_nil, Nat.zero_le _, Nat.zero_le _, fun hlookup => by cases hlookup⟩

end Quackapi.Outbound
