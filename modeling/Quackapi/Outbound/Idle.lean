import Quackapi.Outbound.Pool

/-! What one operation does to the idle clients: which are dropped, taken or put back. Counting the
clients and asking where one of them is are the same question, for what adds up over lists. -/

namespace Quackapi.Outbound
open Library

def HostPool.idle (host : HostPool) : List Client := host.plainIdle ++ host.utilIdle

/-- A number that adds up over lists of clients. -/
structure Additive (g : List Client → Nat) : Prop where
  nil : g [] = 0
  append : ∀ a b, g (a ++ b) = g a + g b

theorem additive_length : Additive List.length := ⟨rfl, fun _ _ => List.length_append⟩

theorem additive_count (c : Client) : Additive (List.count c) :=
  ⟨rfl, fun _ _ => List.count_append⟩

def weigh (g : List Client → Nat) (hosts : Hosts) : Nat := sumValues (fun host => g host.idle) hosts

theorem totalIdleClients_eq (hosts : Hosts) : totalIdleClients hosts = weigh List.length hosts := by
  simp only [totalIdleClients, weigh, HostPool.idle, List.length_append]

theorem weigh_setIdle {g : List Client → Nat} (hg : Additive g) (host : HostPool)
    (clients : List Client) (kind : Kind) :
    g (host.setIdle clients kind).idle + g (host.idleOf kind) = g host.idle + g clients := by
  cases kind <;> simp only [HostPool.setIdle, HostPool.idle, HostPool.idleOf, hg.append] <;> omega

theorem idleOf_setIdle_self (host : HostPool) (clients : List Client) (kind : Kind) :
    (host.setIdle clients kind).idleOf kind = clients := by
  cases kind <;> rfl

theorem idleOf_setIdle_other (host : HostPool) (clients : List Client) {kind kind' : Kind}
    (h : kind' ≠ kind) : (host.setIdle clients kind).idleOf kind' = host.idleOf kind' := by
  cases kind <;> cases kind' <;> first | rfl | exact absurd rfl h

theorem idleOf_take (host : HostPool) (kind kind' : Kind) :
    (host.take kind).idleOf kind' =
      if kind' = kind then (host.idleOf kind).dropLast else host.idleOf kind' := by
  have hset : (host.take kind).idleOf kind' =
      (host.setIdle (host.idleOf kind).dropLast kind).idleOf kind' := by cases kind' <;> rfl
  rw [hset]
  split
  · next h => rw [h, idleOf_setIdle_self]
  · next h => rw [idleOf_setIdle_other _ _ h]

theorem idleOf_dial (host : HostPool) (kind : Kind) : host.dial.idleOf kind = host.idleOf kind := by
  cases kind <;> rfl

theorem idleOf_put (host : HostPool) (kind kind' : Kind) (c : Client) :
    (host.put kind c).idleOf kind' =
      if kind' = kind then host.idleOf kind ++ [c] else host.idleOf kind' := by
  unfold HostPool.put
  split
  · next h => rw [h, idleOf_setIdle_self]
  · next h => rw [idleOf_setIdle_other _ _ h]

theorem mem_idle {host : HostPool} {c : Client} :
    c ∈ host.idle ↔ ∃ kind, c ∈ host.idleOf kind := by
  rw [HostPool.idle, List.mem_append]
  constructor
  · rintro (h | h)
    · exact ⟨.plain, h⟩
    · exact ⟨.util, h⟩
  · rintro ⟨_ | _, h⟩
    · exact .inl h
    · exact .inr h

theorem oldest_mem (best : Str × HostPool) (es : Hosts) : oldest best es ∈ best :: es := by
  induction es generalizing best with
  | nil => exact List.mem_cons_self
  | cons e es ih =>
    rw [oldest]
    rcases List.mem_cons.mp (ih (if e.2.lastUsed < best.2.lastUsed then e else best)) with h | h
    · rw [h]
      split
      · exact List.mem_cons_of_mem _ List.mem_cons_self
      · exact List.mem_cons_self
    · exact List.mem_cons_of_mem _ (List.mem_cons_of_mem _ h)

theorem evict_eq_filter (order : IterationOrder) (now : Int) (key : Str) (hosts : Hosts) :
    ∃ p, evict order now key hosts = hosts.filter p := by
  unfold evict
  dsimp only
  split
  · split
    · exact ⟨_, rfl⟩
    · exact ⟨_, List.filter_filter⟩
  · exact ⟨_, rfl⟩

theorem evict_room (order : IterationOrder) (now : Int) (key : Str) {hosts : Hosts}
    (hsize : hosts.length ≤ maxPoolHosts) (hnew : (evict order now key hosts).lookup key = none) :
    (evict order now key hosts).length < maxPoolHosts := by
  have hlive : (hosts.filter fun e => !decide (idlePoolTtl < now - e.2.lastUsed)).length ≤
      hosts.length := List.length_filter_le _ _
  unfold evict at hnew ⊢
  dsimp only at hnew ⊢
  generalize hosts.filter (fun e => !decide (idlePoolTtl < now - e.2.lastUsed)) = live at *
  by_cases hfull : ((live.lookup key).isNone && decide (maxPoolHosts ≤ live.length)) = true
  · rw [if_pos hfull]
    rcases hwalk : order.walk live with _ | ⟨e, es⟩
    · have hnil := (order.perm live).length_eq
      rw [hwalk, List.length_nil] at hnil
      simp only [← hnil]
      decide
    · have hmem : oldest e es ∈ live := by
        apply (order.perm live).mem_iff.mp
        rw [hwalk]
        exact oldest_mem e es
      have hless : (live.filter fun e' => decide (e'.1 ≠ (oldest e es).1)).length < live.length := by
        apply List.length_filter_lt_length_iff_exists.mpr
        exact ⟨oldest e es, hmem, by simp⟩
      dsimp only
      omega
  · rw [if_neg hfull] at hnew ⊢
    rw [hnew] at hfull
    simp only [Option.isNone_none, Bool.true_and, decide_eq_true_eq] at hfull
    omega

/-- What is there after a host has been asked for. -/
structure Asked (kept hosts : Hosts) (key : Str) (host : HostPool) : Prop where
  keys : (hosts.map Prod.fst).Nodup
  size : hosts.length ≤ maxPoolHosts
  found : hosts.lookup key = some host
  weigh : ∀ {g : List Client → Nat}, Additive g → weigh g hosts = weigh g kept
  idle : ∀ {k host'}, hosts.lookup k = some host' →
    (∀ kind, host'.idleOf kind = []) ∨
      ∃ old, kept.lookup k = some old ∧ ∀ kind, host'.idleOf kind = old.idleOf kind

theorem poolHost_asked (order : IterationOrder) (now : Int) (key : Str) {hosts : Hosts}
    (hkeys : (hosts.map Prod.fst).Nodup) (hsize : hosts.length ≤ maxPoolHosts) :
    Asked (evict order now key hosts) (poolHost order now key hosts).1 key
      (poolHost order now key hosts).2 := by
  have hroom := evict_room order now key hsize
  obtain ⟨p, hp⟩ := evict_eq_filter order now key hosts
  have hkept : ((evict order now key hosts).map Prod.fst).Nodup := by
    rw [hp]
    exact hkeys.sublist (List.filter_sublist.map _)
  have hkeptSize : (evict order now key hosts).length ≤ maxPoolHosts := by
    rw [hp]
    exact Nat.le_trans (List.length_filter_le _ _) hsize
  unfold poolHost
  dsimp only
  generalize evict order now key hosts = kept at *
  rcases hfound : kept.lookup key with _ | host
  · constructor
    · rw [List.map_append]
      refine hkept.append (List.nodup_singleton _) (List.disjoint_singleton.mpr ?_)
      exact lookup_eq_none_iff_not_mem.mp hfound
    · have hlength := hroom hfound
      rw [List.length_append, List.length_singleton]
      omega
    · rw [lookup_concat, hfound, if_pos rfl]
      rfl
    · intro g hg
      rw [weigh, sumValues_concat]
      have hempty : g (HostPool.idle ⟨[], [], 0, 0, now⟩) = 0 := hg.nil
      rw [hempty]
      rfl
    · intro k host' hlookup
      rw [lookup_concat] at hlookup
      rcases hk : kept.lookup k with _ | old
      · rw [hk, Option.none_or] at hlookup
        split at hlookup
        · cases hlookup
          exact .inl fun kind => by cases kind <;> rfl
        · cases hlookup
      · rw [hk, Option.some_or] at hlookup
        cases hlookup
        exact .inr ⟨_, rfl, fun _ => rfl⟩
  · have hsome : kept.lookup key ≠ none := by rw [hfound]; nofun
    constructor
    · rw [keys_setValue]
      exact hkept
    · have hlength := congrArg List.length (keys_setValue key { host with lastUsed := now } kept)
      rw [List.length_map, List.length_map] at hlength
      dsimp only
      omega
    · exact lookup_setValue_self hsome _
    · intro g _
      have hsum := sumValues_setValue (f := fun h => g h.idle) hkept hfound
        { host with lastUsed := now }
      exact Nat.add_right_cancel hsum
    · intro k host' hlookup
      by_cases hk : k = key
      · subst hk
        dsimp only at hlookup
        rw [lookup_setValue_self hsome] at hlookup
        cases hlookup
        exact .inr ⟨host, hfound, fun kind => by cases kind <;> rfl⟩
      · dsimp only at hlookup
        rw [lookup_setValue_other hk] at hlookup
        exact .inr ⟨host', hlookup, fun _ => rfl⟩

theorem Asked.weigh_set {kept hosts : Hosts} {key : Str} {host : HostPool}
    (h : Asked kept hosts key host) {g : List Client → Nat} (hg : Additive g) (host' : HostPool) :
    Outbound.weigh g (setValue key host' hosts) + g host.idle =
      Outbound.weigh g kept + g host'.idle := by
  rw [← h.weigh hg]
  exact sumValues_setValue h.keys h.found host'

end Quackapi.Outbound
