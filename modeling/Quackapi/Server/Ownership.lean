import Quackapi.Server.Lifecycle

/-! Whatever the interleaving: no two servers of the registry have one key, a server is stopped and
destroyed at most once, it is destroyed only when its threads are over, and a server that was
stopped hands its pool at most one more connection. -/

namespace Quackapi.Server
open Library

section
variable {cfg : PoolConfig} {opened : Nat → Bool} {s s' : ServerState} {e : Effect}

inductive ServerSteps (cfg : PoolConfig) (opened : Nat → Bool) (s : ServerState) :
    ServerAction → ServerState → Effect → Prop
  -- who holds it
  | exchanges (h : s.owner = .taken) (hrun : s.isRunning = true) :
      ServerSteps cfg opened s .owner { s with isRunning := false, owner := .stopping false } .stops
  | detaches (h : s.owner = .taken) (hrun : s.isRunning = false) :
      ServerSteps cfg opened s .owner { s with owner := .detached } .quiet
  | closes {d : Bool} (h : s.owner = .stopping d) :
      ServerSteps cfg opened s .owner { s with svrSock := none, owner := .closing d s.svrSock } .quiet
  | closed {d : Bool} {sock : Option Nat} (h : s.owner = .closing d sock) :
      ServerSteps cfg opened s .owner { s with isDecommissioned := false, owner := afterStop d }
        (.closes sock)
  | destroys (h : s.owner = .detached) :
      ServerSteps cfg opened s .owner { s with owner := .destroying } .quiet
  | exchangesAgain (h : s.owner = .destroying) (hrun : s.isRunning = true) :
      ServerSteps cfg opened s .owner { s with isRunning := false, owner := .stopping true } .stops
  | joins (h : s.owner = .destroying) (hrun : s.isRunning = false) :
      ServerSteps cfg opened s .owner { s with owner := .joining } .quiet
  | frees (h : s.owner = .joining) (hover : s.listener = .over) :
      ServerSteps cfg opened s .owner { s with owner := .freed } .frees
  -- the listener
  | refuses (h : s.listener = .starting) :
      ServerSteps cfg opened s .listen { s with isDecommissioned := true, listener := .over } .quiet
  | starts (h : s.listener = .starting) (hsock : s.svrSock ≠ none) :
      ServerSteps cfg opened s .listen { s with listener := .makingPool } .quiet
  | poolMade (h : s.listener = .makingPool) :
      ServerSteps cfg opened s .listen { s with listener := .atLoop } .quiet
  | poolThrows (h : s.listener = .makingPool) :
      ServerSteps cfg opened s .poolThrows { s with listener := .threw } .quiet
  | loopEnds (h : s.listener = .atLoop ∨ s.listener = .failing) (hsock : s.svrSock = none) :
      ServerSteps cfg opened s .listen { s with listener := .draining true } .quiet
  | loops (h : s.listener = .atLoop) (hsock : s.svrSock ≠ none) :
      ServerSteps cfg opened s .listen { s with listener := .reading } .quiet
  | reads (h : s.listener = .reading) :
      ServerSteps cfg opened s .listen { s with listener := .inAccept s.svrSock } .quiet
  | accepts {sock : Nat} (h : s.listener = .inAccept (some sock)) (hopen : opened sock = true) :
      ServerSteps cfg opened s .accepts (enqueue cfg { s with listener := .atLoop }) (.accepts sock)
  | retries {sock : Nat} (h : s.listener = .inAccept (some sock)) (hopen : opened sock = true) :
      ServerSteps cfg opened s .retries { s with listener := .atLoop } .quiet
  | fails {sock : Option Nat} (h : s.listener = .inAccept sock) :
      ServerSteps cfg opened s .fails { s with listener := .failing } .quiet
  | discards (h : s.listener = .failing) (hsock : s.svrSock ≠ none) :
      ServerSteps cfg opened s .listen { s with listener := .discarding } .quiet
  | rereads (h : s.listener = .discarding) :
      ServerSteps cfg opened s .listen { s with listener := .closing s.svrSock } .quiet
  | closesOwn {sock : Option Nat} (h : s.listener = .closing sock) :
      ServerSteps cfg opened s .listen { s with listener := .draining false } (.closes sock)
  | drained {ret : Bool} (h : s.listener = .draining ret) (hq : s.queued = 0) (hr : s.running = 0) :
      ServerSteps cfg opened s .listen { s with isDecommissioned := !ret, listener := .over } .quiet
  | caught (h : s.listener = .threw) :
      ServerSteps cfg opened s .listen { s with isRunning := false, listener := .over } .quiet
  -- the pool
  | dequeues (hq : 0 < s.queued) (hr : s.running < cfg.workers) :
      ServerSteps cfg opened s .dequeue { s with queued := s.queued - 1, running := s.running + 1 }
        .quiet
  | finishes (hr : 0 < s.running) :
      ServerSteps cfg opened s .finishes { s with running := s.running - 1 } .quiet

theorem enqueue_eq (cfg : PoolConfig) (s : ServerState) :
    ∃ q, enqueue cfg s = { s with queued := q } := by
  unfold enqueue
  split
  · exact ⟨s.queued, rfl⟩
  · exact ⟨s.queued + 1, rfl⟩

theorem steps_of_ownerStep (h : ownerStep s = some (s', e)) :
    ServerSteps cfg opened s .owner s' e := by
  unfold ownerStep at h
  split at h
  · cases h
  · next ho =>
    unfold exchangeRunning at h
    split at h <;> cases h
    · exact .exchanges ho ‹_›
    · exact .detaches ho (by simpa using ‹¬ s.isRunning = true›)
  · cases h
    exact .closes ‹_›
  · cases h
    exact .closed ‹_›
  · cases h
    exact .destroys ‹_›
  · next ho =>
    unfold exchangeRunning at h
    split at h <;> cases h
    · exact .exchangesAgain ho ‹_›
    · exact .joins ho (by simpa using ‹¬ s.isRunning = true›)
  · next ho =>
    obtain ⟨hover, hs⟩ := Option.ite_none_right_eq_some.mp h
    cases hs
    exact .frees ho hover
  · cases h

theorem steps_of_listenStep (h : listenStep s = some (s', e)) :
    ServerSteps cfg opened s .listen s' e := by
  unfold listenStep at h
  split at h
  · next hl =>
    split at h
    · cases h
      exact .refuses hl
    · next hne =>
      cases h
      exact .starts hl fun hsock => hne (.inr hsock)
  · cases h
    exact .poolMade ‹_›
  · next hl =>
    split at h <;> cases h
    · exact .loopEnds (.inl hl) ‹_›
    · exact .loops hl ‹_›
  · cases h
    exact .reads ‹_›
  · cases h
  · next hl =>
    split at h <;> cases h
    · exact .loopEnds (.inr hl) ‹_›
    · exact .discards hl ‹_›
  · cases h
    exact .rereads ‹_›
  · cases h
    exact .closesOwn ‹_›
  · next hl =>
    obtain ⟨⟨hq, hr⟩, hs⟩ := Option.ite_none_right_eq_some.mp h
    cases hs
    exact .drained hl hq hr
  · cases h
    exact .caught ‹_›
  · cases h

theorem steps_of_serverStep {a : ServerAction} (h : serverStep cfg opened s a = some (s', e)) :
    ServerSteps cfg opened s a s' e := by
  cases a with
  | owner => exact steps_of_ownerStep h
  | listen => exact steps_of_listenStep h
  | poolThrows =>
    obtain ⟨hl, hs⟩ := Option.ite_none_right_eq_some.mp h
    cases hs
    exact .poolThrows hl
  | accepts =>
    rw [serverStep] at h
    split at h
    · next hl =>
      obtain ⟨hopen, hs⟩ := Option.ite_none_right_eq_some.mp h
      cases hs
      exact .accepts hl hopen
    · cases h
  | retries =>
    rw [serverStep] at h
    split at h
    · next hl =>
      obtain ⟨hopen, hs⟩ := Option.ite_none_right_eq_some.mp h
      cases hs
      exact .retries hl hopen
    · cases h
  | fails =>
    rw [serverStep] at h
    split at h
    · next hl =>
      cases h
      exact .fails hl
    · cases h
  | dequeue =>
    obtain ⟨⟨hq, hr⟩, hs⟩ := Option.ite_none_right_eq_some.mp h
    cases hs
    exact .dequeues hq hr
  | finishes =>
    obtain ⟨hr, hs⟩ := Option.ite_none_right_eq_some.mp h
    cases hs
    exact .finishes hr

end

section
variable {cfg : PoolConfig} {w : Servers}

/-- A place is left alone, a new server is put there, the server there is taken out of the map, or
it takes a step. -/
inductive ServerMove (cfg : PoolConfig) (opened : Nat → Bool) :
    Option ServerState → Option ServerState → List Effect → Prop
  | same (x : Option ServerState) : ServerMove cfg opened x x []
  | made (host : Str) (port : Int) (sock : Nat) :
      ServerMove cfg opened none (some (newServer host port sock)) []
  | takenOut {s : ServerState} (h : s.owner = .registry) :
      ServerMove cfg opened (some s) (some (takeOut s)) []
  | steps {s s' : ServerState} {a : ServerAction} {e : Effect} (h : ServerSteps cfg opened s a s' e) :
      ServerMove cfg opened (some s) (some s') [e]

@[simp] theorem effectsOf_nil (i : Nat) : effectsOf i [] = [] := rfl

theorem effectsOf_append (i : Nat) (l₁ l₂ : List ServersEvent) :
    effectsOf i (l₁ ++ l₂) = effectsOf i l₁ ++ effectsOf i l₂ := by
  simp [effectsOf]

theorem effectsOf_self (i : Nat) (e : Effect) (b : Option Nat) : effectsOf i [⟨i, e, b⟩] = [e] := by
  simp [effectsOf]

theorem effectsOf_other {i j : Nat} (h : j ≠ i) (e : Effect) (b : Option Nat) :
    effectsOf i [⟨j, e, b⟩] = [] := by
  simp [effectsOf, h]

theorem startServer_cases (w : Servers) (host : Str) (port : Int) (made : Construction) :
    startServer w host port made = w ∨
      (∃ sock, made = .threadFails sock ∧ w.opened sock = false ∧
        startServer w host port made = { w with leaked := w.leaked ++ [sock] }) ∨
      ∃ sock, made = .listens sock ∧ w.opened sock = false ∧
        serverKey host port ∉ w.map.map ServerState.key ∧
        startServer w host port made =
          { w with
            all := w.all ++ [newServer host port sock]
            sockets := w.sockets ++ [(sock, w.all.length)] } := by
  unfold startServer
  split
  · exact .inl rfl
  · next hkey =>
    cases made with
    | bindFails => exact .inl rfl
    | threadFails sock =>
      dsimp only
      split
      · exact .inl rfl
      · next hopen => exact .inr (.inl ⟨sock, rfl, by simpa using hopen, rfl⟩)
    | listens sock =>
      dsimp only
      split
      · exact .inl rfl
      · next hopen => exact .inr (.inr ⟨sock, rfl, by simpa using hopen, by simpa using hkey, rfl⟩)

theorem stopServer_cases (w : Servers) (port : Int) (i : Nat) :
    stopServer w port i = w ∨
      ∃ s, w.all[i]? = some s ∧ s.owner = .registry ∧ s.port = port ∧
        stopServer w port i = { w with all := w.all.set i (takeOut s) } := by
  unfold stopServer
  split
  · next s hs =>
    split
    · next h => exact .inr ⟨s, hs, by simpa [ServerState.registered] using h.1, h.2, rfl⟩
    · exact .inl rfl
  · exact .inl rfl

theorem atServer_cases (cfg : PoolConfig) (w : Servers) (j : Nat) (a : ServerAction) :
    atServer cfg w j a = (w, []) ∨
      ∃ s s' e, w.all[j]? = some s ∧ serverStep cfg w.opened s a = some (s', e) ∧
        atServer cfg w j a =
          (⟨w.all.set j s', socketsAfter w.sockets e, leakedAfter w.leaked e⟩,
            [⟨j, e, e.sock.bind w.boundBy⟩]) := by
  unfold atServer
  split
  · exact .inl rfl
  · next s hs =>
    split
    · exact .inl rfl
    · next s' e hstep => exact .inr ⟨s, s', e, hs, hstep, rfl⟩

theorem move_set {i j : Nat} {s s' : ServerState} {es : List Effect} (hs : w.all[j]? = some s)
    (hself : j = i → ServerMove cfg w.opened (some s) (some s') es)
    (hother : j ≠ i → es = []) :
    ServerMove cfg w.opened w.all[i]? ((w.all.set j s')[i]?) es := by
  by_cases hij : j = i
  · subst hij
    rw [List.getElem?_set_self (lt_of_getElem? hs), hs]
    exact hself rfl
  · rw [List.getElem?_set_ne hij, hother hij]
    exact .same _

theorem server_move (cfg : PoolConfig) (w : Servers) (a : ServersAction) (i : Nat) :
    ServerMove cfg w.opened w.all[i]? (((serversMachine cfg).step w a).1.all[i]?)
      (effectsOf i ((serversMachine cfg).step w a).2) := by
  cases a with
  | startServer host port made =>
    show ServerMove cfg w.opened w.all[i]? ((startServer w host port made).all[i]?) []
    rcases startServer_cases w host port made with heq | ⟨sock, -, -, heq⟩ | ⟨sock, -, -, -, heq⟩
    · rw [heq]
      exact .same _
    · rw [heq]
      exact .same _
    · rw [heq]
      rcases Nat.lt_trichotomy i w.all.length with hlt | rfl | hgt
      · rw [List.getElem?_append_left hlt]
        exact .same _
      · rw [List.getElem?_concat_length, List.getElem?_eq_none (le_refl _)]
        exact .made host port sock
      · have hlen : (w.all ++ [newServer host port sock]).length ≤ i := by
          rw [List.length_append, List.length_singleton]
          omega
        rw [List.getElem?_eq_none hlen, List.getElem?_eq_none hgt.le]
        exact .same _
  | stopServer port j =>
    show ServerMove cfg w.opened w.all[i]? ((stopServer w port j).all[i]?) []
    rcases stopServer_cases w port j with heq | ⟨s, hs, ho, -, heq⟩
    · rw [heq]
      exact .same _
    · rw [heq]
      exact move_set hs (fun _ => .takenOut ho) fun _ => rfl
  | stopAllServers =>
    show ServerMove cfg w.opened w.all[i]? ((stopAllServers w).all[i]?) []
    rw [stopAllServers, List.getElem?_map]
    cases hs : w.all[i]? with
    | none => exact .same _
    | some s =>
      rw [Option.map_some]
      split
      · next h => exact .takenOut (by simpa [ServerState.registered] using h)
      · exact .same _
  | «at» j a =>
    show ServerMove cfg w.opened w.all[i]? ((atServer cfg w j a).1.all[i]?)
      (effectsOf i (atServer cfg w j a).2)
    rcases atServer_cases cfg w j a with heq | ⟨s, s', e, hs, hstep, heq⟩
    · rw [heq]
      exact .same _
    · rw [heq]
      refine move_set hs (fun hij => ?_) fun hij => effectsOf_other hij e _
      subst hij
      rw [effectsOf_self]
      exact .steps (steps_of_serverStep hstep)

end

section
variable {cfg : PoolConfig} {R : List Effect → ServerState → Prop}

/-- What the steps of a server must keep, where `R` speaks of it and of what it has done. -/
structure KeptBySteps (cfg : PoolConfig) (R : List Effect → ServerState → Prop) : Prop where
  takenOut : ∀ {es s}, R es s → s.owner = .registry → R es (takeOut s)
  steps : ∀ {es s opened a s' e}, R es s → ServerSteps cfg opened s a s' e → R (es ++ [e]) s'

theorem KeptBySteps.move (hR : KeptBySteps cfg R) {opened : Nat → Bool} {s : ServerState}
    {x : Option ServerState} {es es' : List Effect}
    (hmove : ServerMove cfg opened (some s) x es') (h : R es s) :
    ∃ s', x = some s' ∧ R (es ++ es') s' := by
  cases hmove with
  | same => exact ⟨s, rfl, by rwa [List.append_nil]⟩
  | takenOut ho => exact ⟨takeOut s, rfl, by rw [List.append_nil]; exact hR.takenOut h ho⟩
  | steps hs => exact ⟨_, rfl, hR.steps h hs⟩

theorem KeptBySteps.and {R' : List Effect → ServerState → Prop} (hR : KeptBySteps cfg R)
    (htake : ∀ {es s}, R' es s → s.owner = .registry → R' es (takeOut s))
    (hsteps : ∀ {es s opened a s' e}, R es s → R' es s → ServerSteps cfg opened s a s' e →
      R' (es ++ [e]) s') :
    KeptBySteps cfg fun es s => R es s ∧ R' es s where
  takenOut h ho := ⟨hR.takenOut h.1 ho, htake h.2 ho⟩
  steps h hstep := ⟨hR.steps h.1 hstep, hsteps h.1 h.2 hstep⟩

theorem KeptBySteps.run (hR : KeptBySteps cfg R) {w : Servers} {i : Nat} {s : ServerState}
    {es : List Effect} (hs : w.all[i]? = some s) (h : R es s) (as : List ServersAction) :
    ∃ s', ((serversMachine cfg).run w as).all[i]? = some s' ∧
      R (es ++ effectsOf i ((serversMachine cfg).emitted w as)) s' := by
  refine (serversMachine cfg).emitted_invariant
    (I := fun log w => ∃ s', w.all[i]? = some s' ∧ R (es ++ effectsOf i log) s') ?_ ?_ as
  · exact ⟨s, hs, by simpa using h⟩
  · rintro log w a ⟨s', hs', h'⟩
    have hmove := server_move cfg w a i
    rw [hs'] at hmove
    obtain ⟨s'', hs'', h''⟩ := hR.move hmove h'
    exact ⟨s'', hs'', by rwa [effectsOf_append, ← List.append_assoc]⟩

theorem KeptBySteps.all (hR : KeptBySteps cfg R)
    (hnew : ∀ host port sock, R [] (newServer host port sock))
    (as : List ServersAction) (i : Nat) (s : ServerState)
    (hs : ((serversMachine cfg).run noServers as).all[i]? = some s) :
    R (effectsOf i ((serversMachine cfg).emitted noServers as)) s := by
  have hrun := (serversMachine cfg).emitted_invariant
    (I := fun log w => (∀ i s, w.all[i]? = some s → R (effectsOf i log) s) ∧
      ∀ i, w.all[i]? = none → effectsOf i log = []) (s := noServers) ?_ ?_ as
  · exact hrun.1 i s hs
  · exact ⟨fun i s h => by simp [noServers] at h, fun i _ => rfl⟩
  · rintro log w a ⟨hold, hnone⟩
    have hmove := fun i => server_move cfg w a i
    refine ⟨fun i s h => ?_, fun i h => ?_⟩
    · have hm := hmove i
      rw [h] at hm
      rw [effectsOf_append]
      cases hw : w.all[i]? with
      | none =>
        rw [hw] at hm
        rw [hnone i hw, List.nil_append]
        generalize hes : effectsOf i ((serversMachine cfg).step w a).2 = es at hm
        cases hm with
        | made host port sock => exact hnew host port sock
      | some s₀ =>
        rw [hw] at hm
        obtain ⟨s', hs', h'⟩ := hR.move hm (hold i s₀ hw)
        rw [Option.some.inj hs']
        exact h'
    · have hm := hmove i
      rw [h] at hm
      rw [effectsOf_append]
      generalize hes : effectsOf i ((serversMachine cfg).step w a).2 = es at hm
      generalize hw : w.all[i]? = x at hm
      cases hm with
      | same => rw [hnone i hw, List.append_nil]

end

/-- `StopAccepting` has not looked at `is_running` yet. -/
def Owner.beforeStop : Owner → Bool
  | .registry | .taken => true
  | .stopping _ | .closing _ _ | .detached | .destroying | .joining | .freed => false

def ListenPoint.idle : ListenPoint → Bool
  | .starting | .makingPool | .threw | .over => true
  | .atLoop | .reading | .inAccept _ | .failing | .discarding | .closing _ | .draining _ => false

section
variable {cfg : PoolConfig} {opened : Nat → Bool} {s s' : ServerState} {e : Effect} {es : List Effect}

/-- What holds of a server and of all it has done. -/
structure OneEnd (es : List Effect) (s : ServerState) : Prop where
  jobs : s.listener.idle = true → s.queued = 0 ∧ s.running = 0
  flag : s.owner.beforeStop = false → s.isRunning = false
  /-- The destructor finds the flag down. -/
  once : s.owner ≠ .stopping true ∧ ∀ sock, s.owner ≠ .closing true sock
  joined : s.owner = .freed → s.listener = .over
  stops : es.count .stops ≤ if s.owner.beforeStop then 0 else 1
  frees : es.count .frees = if s.owner = .freed then 1 else 0

theorem newServer_oneEnd (host : Str) (port : Int) (sock : Nat) :
    OneEnd [] (newServer host port sock) := by
  constructor <;> simp [newServer, Owner.beforeStop]

theorem count_append_ne {x : Effect} (h : e ≠ x) : (es ++ [e]).count x = es.count x := by
  rw [List.count_append, List.count_singleton, if_neg (by simpa using h), Nat.add_zero]

theorem count_append_self : (es ++ [e]).count e = es.count e + 1 := by
  rw [List.count_append, List.count_singleton_self]

theorem OneEnd.threads (h : OneEnd es s) (hover : s.listener ≠ .over) (howner : s'.owner = s.owner)
    (hrun : s'.isRunning = s.isRunning ∨ s'.isRunning = false) (hstops : e ≠ .stops)
    (hfrees : e ≠ .frees) (hjobs : s'.listener.idle = true → s'.queued = 0 ∧ s'.running = 0) :
    OneEnd (es ++ [e]) s' := by
  constructor
  · exact hjobs
  · intro hb
    rcases hrun with heq | hfalse
    · rw [heq]
      exact h.flag (by rwa [howner] at hb)
    · exact hfalse
  · rw [howner]
    exact h.once
  · intro hf
    exact absurd (h.joined (howner ▸ hf)) hover
  · rw [count_append_ne hstops, howner]
    exact h.stops
  · rw [count_append_ne hfrees, howner]
    exact h.frees

theorem OneEnd.passes (h : OneEnd es s) {o : Owner} {d : Bool} {sock : Option Nat}
    (hstops : e ≠ .stops) (hfrees : e ≠ .frees) (hflag : s.isRunning = false)
    (ho : o.beforeStop = false) (honce : o ≠ .stopping true ∧ ∀ sock, o ≠ .closing true sock)
    (hold : s.owner ≠ .freed) (hnew : o ≠ .freed) :
    OneEnd (es ++ [e]) { s with owner := o, isDecommissioned := d, svrSock := sock } := by
  constructor
  · exact h.jobs
  · exact fun _ => hflag
  · exact honce
  · exact fun hf => absurd hf hnew
  · have hle := h.stops
    rw [count_append_ne hstops]
    simp only [ho, Bool.false_eq_true, if_false]
    split at hle <;> omega
  · have hcount := h.frees
    rw [if_neg hold] at hcount
    rw [count_append_ne hfrees, hcount, if_neg hnew]

theorem OneEnd.busy (h : OneEnd es s) (hbusy : 0 < s.queued ∨ 0 < s.running) :
    s.listener.idle = false := by
  by_contra hidle
  have hjobs := h.jobs (by simpa using hidle)
  omega

theorem oneEnd_kept (cfg : PoolConfig) : KeptBySteps cfg OneEnd := by
  constructor
  · intro es s h ho
    obtain ⟨hjobs, hflag, honce, hjoined, hstops, hfrees⟩ := h
    rw [ho] at hstops hfrees
    refine ⟨hjobs, ?_, by simp [takeOut], ?_, hstops, hfrees⟩
    · intro hb
      cases hb
    · intro hf
      cases hf
  · intro es s opened a s' e h hstep
    -- a pool that is made is empty, and a step that leaves it says nothing about it
    have hempty : ∀ l : ListenPoint, s.listener = l → l.idle = true → s.queued = 0 ∧ s.running = 0 :=
      fun l hl hi => h.jobs (hl ▸ hi)
    have hfalse : ∀ {o}, s.owner = o → o.beforeStop = false → s.isRunning = false :=
      fun ho hb => h.flag (ho ▸ hb)
    cases hstep with
    | exchanges ho hrun =>
      obtain ⟨hjobs, hflag, honce, hjoined, hstops, hfrees⟩ := h
      rw [ho] at hstops hfrees
      have h0 : es.count .stops = 0 := Nat.le_zero.mp hstops
      refine ⟨hjobs, fun _ => rfl, by simp, ?_, ?_, ?_⟩
      · intro hf
        cases hf
      · rw [count_append_self, h0]
        exact le_refl 1
      · rw [count_append_ne (by decide)]
        exact hfrees
    | exchangesAgain ho hrun =>
      rw [hfalse ho rfl] at hrun
      cases hrun
    | detaches ho hrun =>
      exact h.passes (by simp) (by simp) hrun rfl (by simp) (by simp [ho]) (by simp)
    | @closes d ho =>
      have hd : d = false := by
        cases d with
        | false => rfl
        | true => exact absurd ho h.once.1
      subst hd
      exact h.passes (by simp) (by simp) (hfalse ho rfl) rfl (by simp) (by simp [ho]) (by simp)
    | @closed d sock ho =>
      have hd : d = false := by
        cases d with
        | false => rfl
        | true => exact absurd ho (h.once.2 sock)
      subst hd
      refine h.passes (by simp) (by simp) (hfalse ho rfl) rfl ?_ (by simp [ho]) ?_ <;> simp [afterStop]
    | destroys ho =>
      exact h.passes (by simp) (by simp) (hfalse ho rfl) rfl (by simp) (by simp [ho]) (by simp)
    | joins ho hrun =>
      exact h.passes (by simp) (by simp) hrun rfl (by simp) (by simp [ho]) (by simp)
    | frees ho hover =>
      obtain ⟨hjobs, hflag, honce, hjoined, hstops, hfrees⟩ := h
      rw [ho] at hstops hfrees hflag
      refine ⟨hjobs, fun _ => hflag rfl, by simp, fun _ => hover, ?_, ?_⟩
      · rw [count_append_ne (by decide)]
        exact hstops
      · rw [count_append_self, hfrees]
        rfl
    | refuses hl =>
      exact h.threads (by simp [hl]) rfl (.inl rfl) (by simp) (by simp) fun _ => hempty _ hl rfl
    | starts hl =>
      exact h.threads (by simp [hl]) rfl (.inl rfl) (by simp) (by simp) fun _ => hempty _ hl rfl
    | poolMade hl =>
      exact h.threads (by simp [hl]) rfl (.inl rfl) (by simp) (by simp) fun hi => by cases hi
    | poolThrows hl =>
      exact h.threads (by simp [hl]) rfl (.inl rfl) (by simp) (by simp) fun _ => hempty _ hl rfl
    | loopEnds hl =>
      have hover : s.listener ≠ .over := by rcases hl with hl | hl <;> simp [hl]
      exact h.threads hover rfl (.inl rfl) (by simp) (by simp) fun hi => by cases hi
    | loops hl =>
      exact h.threads (by simp [hl]) rfl (.inl rfl) (by simp) (by simp) fun hi => by cases hi
    | reads hl =>
      exact h.threads (by simp [hl]) rfl (.inl rfl) (by simp) (by simp) fun hi => by cases hi
    | accepts hl =>
      obtain ⟨q, hq⟩ := enqueue_eq cfg { s with listener := .atLoop }
      rw [hq]
      exact h.threads (by simp [hl]) rfl (.inl rfl) (by simp) (by simp) fun hi => by cases hi
    | retries hl =>
      exact h.threads (by simp [hl]) rfl (.inl rfl) (by simp) (by simp) fun hi => by cases hi
    | fails hl =>
      exact h.threads (by simp [hl]) rfl (.inl rfl) (by simp) (by simp) fun hi => by cases hi
    | discards hl =>
      exact h.threads (by simp [hl]) rfl (.inl rfl) (by simp) (by simp) fun hi => by cases hi
    | rereads hl =>
      exact h.threads (by simp [hl]) rfl (.inl rfl) (by simp) (by simp) fun hi => by cases hi
    | closesOwn hl =>
      exact h.threads (by simp [hl]) rfl (.inl rfl) (by simp) (by simp) fun hi => by cases hi
    | drained hl hq hr =>
      exact h.threads (by simp [hl]) rfl (.inl rfl) (by simp) (by simp) fun _ => ⟨hq, hr⟩
    | caught hl =>
      exact h.threads (by simp [hl]) rfl (.inr rfl) (by simp) (by simp) fun _ => hempty _ hl rfl
    | dequeues hq hr =>
      have hbusy := h.busy (.inl hq)
      have hover : s.listener ≠ .over := fun hl => by simp [hl, ListenPoint.idle] at hbusy
      exact h.threads hover rfl (.inl rfl) (by simp) (by simp) fun hi => by simp [hbusy] at hi
    | finishes hr =>
      have hbusy := h.busy (.inr hr)
      have hover : s.listener ≠ .over := fun hl => by simp [hl, ListenPoint.idle] at hbusy
      exact h.threads hover rfl (.inl rfl) (by simp) (by simp) fun hi => by simp [hbusy] at hi

def Effect.isAccept : Effect → Bool
  | .accepts _ => true
  | .quiet | .stops | .closes _ | .frees => false

/-- The connections that a stopped server's listener can still hand to the pool: the descriptor may
have been read before it was closed. -/
def ListenPoint.acceptsLeft : ListenPoint → Nat
  | .inAccept (some _) => 1
  | .starting | .makingPool | .atLoop | .reading | .inAccept none | .failing | .discarding
  | .closing _ | .draining _ | .threw | .over => 0

structure FewAccepts (es : List Effect) (s : ServerState) : Prop where
  sock : s.svrSock = none
  few : es.countP Effect.isAccept + s.listener.acceptsLeft ≤ 1

theorem FewAccepts.step (h : FewAccepts es s) (hsock : s'.svrSock = none)
    (hleft : (if e.isAccept then 1 else 0) + s'.listener.acceptsLeft ≤ s.listener.acceptsLeft) :
    FewAccepts (es ++ [e]) s' := by
  have hfew := h.few
  refine ⟨hsock, ?_⟩
  rw [List.countP_append, List.countP_singleton]
  omega

theorem fewAccepts_kept (cfg : PoolConfig) : KeptBySteps cfg FewAccepts := by
  constructor
  · exact fun h _ => ⟨h.sock, h.few⟩
  · intro es s opened a s' e h hstep
    have hsock := h.sock
    cases hstep with
    | exchanges | detaches | closes | closed | destroys | exchangesAgain | joins | frees =>
      exact h.step (by simp [hsock]) (by simp [Effect.isAccept])
    | starts _ hne => exact absurd hsock hne
    | loops _ hne => exact absurd hsock hne
    | discards _ hne => exact absurd hsock hne
    | reads hl =>
      refine h.step hsock ?_
      simp [hsock, hl, Effect.isAccept, ListenPoint.acceptsLeft]
    | accepts hl =>
      obtain ⟨q, hq⟩ := enqueue_eq cfg { s with listener := .atLoop }
      rw [hq]
      exact h.step hsock (by simp [hl, Effect.isAccept, ListenPoint.acceptsLeft])
    | retries hl => exact h.step hsock (by simp [hl, Effect.isAccept, ListenPoint.acceptsLeft])
    | refuses | poolMade | poolThrows | loopEnds | fails | rereads | closesOwn | drained | caught =>
      exact h.step hsock (by simp [Effect.isAccept, ListenPoint.acceptsLeft])
    | dequeues | finishes => exact h.step hsock (by simp [Effect.isAccept])

theorem frozen_kept (cfg : PoolConfig) {s₀ : ServerState} (howner : s₀.owner = .freed)
    (hover : s₀.listener = .over) (hq : s₀.queued = 0) (hr : s₀.running = 0) :
    KeptBySteps cfg fun es s => es = [] ∧ s = s₀ := by
  constructor
  · rintro es s ⟨-, rfl⟩ ho
    rw [howner] at ho
    cases ho
  · rintro es s opened a s' e ⟨-, rfl⟩ hstep
    exfalso
    cases hstep with
    | dequeues hpos => omega
    | finishes hpos => omega
    | loopEnds hl =>
      rw [hover] at hl
      rcases hl with hl | hl <;> cases hl
    | exchanges ho | detaches ho | closes ho | closed ho | destroys ho | exchangesAgain ho | joins ho
    | frees ho =>
      rw [howner] at ho
      cases ho
    | refuses hl | starts hl | poolMade hl | poolThrows hl | loops hl | reads hl | accepts hl
    | retries hl | fails hl | discards hl | rereads hl | closesOwn hl | drained hl | caught hl =>
      rw [hover] at hl
      cases hl

end

theorem mem_intText {n : Int} {c : Char} (h : c ∈ Openapi.intText n) : c ≠ ':' := by
  have hdigits : ∀ m, c ∈ Nat.toDigits 10 m → c ≠ ':' := by
    intro m hc heq
    have hd := Nat.isDigit_of_mem_toDigits (by decide) (by decide) hc
    rw [heq] at hd
    exact absurd hd (by decide)
  cases n with
  | ofNat m => exact hdigits m h
  | negSucc m =>
    rcases List.mem_cons.mp h with rfl | hc
    · decide
    · exact hdigits _ hc

theorem serverKey_inj {host host' : Str} {port port' : Int}
    (h : serverKey host port = serverKey host' port') : host = host' ∧ port = port' := by
  have hsplit : ∀ {h₁ h₂ : Str} {p₁ p₂ : Int} {mid : Str}, h₂ = h₁ ++ mid →
      ':' :: Openapi.intText p₁ = mid ++ ':' :: Openapi.intText p₂ → h₁ = h₂ ∧ p₁ = p₂ := by
    rintro h₁ h₂ p₁ p₂ (_ | ⟨c, mid⟩) heq htext
    · exact ⟨by simp [heq], Openapi.intText_injective (List.cons_inj_right _ |>.mp htext)⟩
    · rw [List.cons_append, List.cons.injEq] at htext
      have hcolon : ':' ∈ Openapi.intText p₁ := by simp [htext.2]
      exact absurd rfl (mem_intText hcolon)
  simp only [serverKey, List.append_assoc] at h
  rcases List.append_eq_append_iff.mp h with ⟨mid, hhost, htext⟩ | ⟨mid, hhost, htext⟩
  · exact hsplit hhost htext
  · have heq := hsplit hhost htext
    exact ⟨heq.1.symm, heq.2.symm⟩

def ServerState.address (s : ServerState) : Str × Int := (s.host, s.port)

def mapAddress (s : ServerState) : Option (Str × Int) :=
  if s.registered then some s.address else none

theorem addresses_eq (w : Servers) :
    w.map.map ServerState.address = w.all.filterMap mapAddress := by
  unfold Servers.map
  induction w.all with
  | nil => rfl
  | cons s rest ih =>
    rw [List.filter_cons, List.filterMap_cons, mapAddress]
    cases hreg : s.registered with
    | true => simp [ih]
    | false => simp [ih]

theorem mem_keys_iff {w : Servers} {host : Str} {port : Int} :
    serverKey host port ∈ w.map.map ServerState.key ↔ (host, port) ∈ w.map.map ServerState.address := by
  simp only [List.mem_map]
  constructor
  · rintro ⟨s, hs, hkey⟩
    obtain ⟨hhost, hport⟩ := serverKey_inj hkey
    exact ⟨s, hs, by rw [ServerState.address, hhost, hport]⟩
  · rintro ⟨s, hs, haddr⟩
    obtain ⟨rfl, rfl⟩ := Prod.mk.inj haddr
    exact ⟨s, hs, rfl⟩

section
variable {cfg : PoolConfig} {opened : Nat → Bool} {s s' : ServerState} {e : Effect}

theorem ServerSteps.mapAddress_eq {a : ServerAction} (h : ServerSteps cfg opened s a s' e) :
    mapAddress s' = mapAddress s := by
  have hout : ∀ {o o' : Owner}, o ≠ .registry → s.owner = o' → o' ≠ .registry →
      mapAddress { s with owner := o } = mapAddress s := by
    intro o o' ho heq ho'
    rw [← heq] at ho'
    simp [mapAddress, ServerState.registered, ho, ho']
  cases h with
  | exchanges ho => exact hout (by decide) ho (by decide)
  | detaches ho => exact hout (by decide) ho (by decide)
  | closes ho => exact hout (by simp) ho (by simp)
  | @closed d _ ho => exact hout (by cases d <;> decide) ho (by simp)
  | destroys ho => exact hout (by decide) ho (by decide)
  | exchangesAgain ho => exact hout (by decide) ho (by decide)
  | joins ho => exact hout (by decide) ho (by decide)
  | frees ho => exact hout (by decide) ho (by decide)
  | accepts =>
    obtain ⟨q, hq⟩ := enqueue_eq cfg { s with listener := .atLoop }
    rw [hq]
    rfl
  | refuses | starts | poolMade | poolThrows | loopEnds | loops | reads | retries | fails | discards
  | rereads | closesOwn | drained | caught | dequeues | finishes => rfl

end

theorem addresses_nodup_set {w : Servers} {i : Nat} {s s' : ServerState} (hs : w.all[i]? = some s)
    (h : (w.all.filterMap mapAddress).Nodup)
    (hs' : mapAddress s' = mapAddress s ∨ mapAddress s' = none) :
    ((w.all.set i s').filterMap mapAddress).Nodup := by
  obtain ⟨rest, hold, hnew⟩ := exists_perm_filterMap_set mapAddress hs
  have hboth : ((mapAddress s).toList ++ rest).Nodup := hold.nodup_iff.mp h
  refine (hnew s').nodup_iff.mpr ?_
  rcases hs' with heq | hnone
  · rwa [heq]
  · rw [hnone]
    exact (List.nodup_append.mp hboth).2.1

theorem addresses_nodup_step (cfg : PoolConfig) (w : Servers) (a : ServersAction)
    (h : (w.all.filterMap mapAddress).Nodup) :
    (((serversMachine cfg).step w a).1.all.filterMap mapAddress).Nodup := by
  cases a with
  | startServer host port made =>
    show ((startServer w host port made).all.filterMap mapAddress).Nodup
    rcases startServer_cases w host port made with heq | ⟨sock, -, -, heq⟩ | ⟨sock, -, -, hkey, heq⟩
    · rwa [heq]
    · rwa [heq]
    · rw [heq, List.filterMap_append]
      rw [mem_keys_iff, addresses_eq] at hkey
      exact nodup_append_singleton h hkey
  | stopServer port i =>
    show ((stopServer w port i).all.filterMap mapAddress).Nodup
    rcases stopServer_cases w port i with heq | ⟨s, hs, -, -, heq⟩
    · rwa [heq]
    · rw [heq]
      exact addresses_nodup_set hs h (.inr rfl)
  | stopAllServers =>
    have hnone : (stopAllServers w).all.filterMap mapAddress = [] := by
      refine List.filterMap_eq_nil_iff.mpr fun s hs => ?_
      obtain ⟨s, -, rfl⟩ := List.mem_map.mp hs
      cases hreg : s.registered with
      | true => rfl
      | false => simp [mapAddress, hreg]
    show ((stopAllServers w).all.filterMap mapAddress).Nodup
    rw [hnone]
    exact List.nodup_nil
  | «at» i a =>
    show ((atServer cfg w i a).1.all.filterMap mapAddress).Nodup
    rcases atServer_cases cfg w i a with heq | ⟨s, s', e, hs, hstep, heq⟩
    · rwa [heq]
    · rw [heq]
      exact addresses_nodup_set hs h (.inl (steps_of_serverStep hstep).mapAddress_eq)

/-- In every run: the servers of the registry have different addresses; a server is stopped once at
most, and not while it is in the registry; it is destroyed once at most, when its listener and its
workers are over, and then takes no part in anything; and once its socket is out of `svr_sock_` its
listener hands its pool one more connection at most. -/
theorem servers_safe (cfg : PoolConfig) (as : List ServersAction) :
    let w := (serversMachine cfg).run noServers as
    let log := (serversMachine cfg).emitted noServers as
    (w.map.map ServerState.address).Nodup ∧
      ∀ i s, w.all[i]? = some s →
        (effectsOf i log).count .stops ≤ (if s.owner = .registry then 0 else 1) ∧
        (effectsOf i log).count .frees = (if s.owner = .freed then 1 else 0) ∧
        (s.owner = .freed → s.listener = .over ∧ s.queued = 0 ∧ s.running = 0 ∧
          ∀ bs, ((serversMachine cfg).run w bs).all[i]? = some s ∧
            effectsOf i ((serversMachine cfg).emitted w bs) = []) ∧
        (s.svrSock = none → ∀ bs,
          (effectsOf i ((serversMachine cfg).emitted w bs)).countP Effect.isAccept ≤ 1) := by
  intro w log
  refine ⟨?_, fun i s hs => ?_⟩
  · rw [addresses_eq]
    have hnew : (noServers.all.filterMap mapAddress).Nodup := List.nodup_nil
    exact (serversMachine cfg).run_invariant (addresses_nodup_step cfg) hnew as
  · have h := (oneEnd_kept cfg).all newServer_oneEnd as i s hs
    refine ⟨?_, h.frees, fun ho => ?_, fun hsock bs => ?_⟩
    · refine h.stops.trans ?_
      cases s.owner <;> simp [Owner.beforeStop]
    · have hover := h.joined ho
      obtain ⟨hq, hr⟩ := h.jobs (by rw [hover]; rfl)
      refine ⟨hover, hq, hr, fun bs => ?_⟩
      obtain ⟨s', hs', hes, rfl⟩ := (frozen_kept cfg ho hover hq hr).run hs ⟨rfl, rfl⟩ bs
      exact ⟨hs', by simpa using hes⟩
    · have hleft : s.listener.acceptsLeft ≤ 1 := by
        unfold ListenPoint.acceptsLeft
        split <;> omega
      have hstart : FewAccepts [] s := ⟨hsock, by simpa using hleft⟩
      obtain ⟨s', -, hfew⟩ := (fewAccepts_kept cfg).run hs hstart bs
      have hle := hfew.few
      rw [List.nil_append] at hle
      omega

end Quackapi.Server
