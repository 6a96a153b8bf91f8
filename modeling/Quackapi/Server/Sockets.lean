import Quackapi.Library.Assoc
import Quackapi.Server.Ownership

/-! The listening sockets. A server gives its descriptor up once, by `stop`, and what the descriptor
stands for can change behind that. As long as no `accept` fails on a socket that is open, and every
listening thread and every pool can be made, each socket is closed once, by the server that has bound
it. -/

namespace Quackapi.Server
open Library

/-- The descriptor that is the server's own to close: in `svr_sock_`, or in the hands of `stop`. -/
def ServerState.holds (s : ServerState) : Option Nat :=
  match s.owner with
  | .closing _ sock => sock
  | .registry | .taken | .stopping _ | .detached | .destroying | .joining | .freed => s.svrSock

section
variable {cfg : PoolConfig} {opened : Nat → Bool} {s s' : ServerState} {e : Effect} {es : List Effect}

/-- `stop` takes the descriptor, once it is called. -/
structure SockKept (es : List Effect) (s : ServerState) : Prop where
  present : s.owner.beforeStop = true ∨ (∃ d, s.owner = .stopping d) → s.svrSock ≠ none
  gone : ∀ d sock, s.owner = .closing d sock → s.svrSock = none
  stopped : (∃ d, s.owner = .stopping d) ∨ s.svrSock = none → .stops ∈ es

theorem newServer_sockKept (host : Str) (port : Int) (sock : Nat) :
    SockKept [] (newServer host port sock) := by
  constructor <;> simp [newServer]

theorem SockKept.threads (h : SockKept es s) (howner : s'.owner = s.owner)
    (hsock : s'.svrSock = s.svrSock) : SockKept (es ++ [e]) s' := by
  constructor
  · rw [howner, hsock]
    exact h.present
  · rw [howner, hsock]
    exact h.gone
  · rw [howner, hsock]
    exact fun hs => List.mem_append_left _ (h.stopped hs)

theorem SockKept.passes (h : SockKept es s) {o : Owner} {d : Bool} (hbefore : o.beforeStop = false)
    (hstopping : ∀ d, o ≠ .stopping d) (hclosing : ∀ d sock, o ≠ .closing d sock) :
    SockKept (es ++ [e]) { s with owner := o, isDecommissioned := d } := by
  constructor
  · rintro (hb | ⟨d, hd⟩)
    · rw [hbefore] at hb
      cases hb
    · exact absurd hd (hstopping d)
  · exact fun d sock ho => absurd ho (hclosing d sock)
  · rintro (⟨d, hd⟩ | hsock)
    · exact absurd hd (hstopping d)
    · exact List.mem_append_left _ (h.stopped (.inr hsock))

theorem sockKept_kept (cfg : PoolConfig) :
    KeptBySteps cfg fun es s => OneEnd es s ∧ SockKept es s := by
  refine (oneEnd_kept cfg).and ?_ ?_
  · intro es s h ho
    constructor
    · exact fun _ => h.present (.inl (by rw [ho]; rfl))
    · intro d sock hd
      cases hd
    · rintro (⟨d, hd⟩ | hsock)
      · cases hd
      · exact h.stopped (.inr hsock)
  · intro es s opened a s' e hone h hstep
    cases hstep with
    | exchanges ho =>
      constructor
      · exact fun _ => h.present (.inl (by rw [ho]; rfl))
      · intro d sock hd
        cases hd
      · exact fun _ => List.mem_append_right _ (List.mem_singleton_self _)
    | exchangesAgain ho hrun =>
      rw [hone.flag (by rw [ho]; rfl)] at hrun
      cases hrun
    | closes ho =>
      constructor
      · rintro (hb | ⟨d, hd⟩)
        · cases hb
        · cases hd
      · exact fun d sock _ => rfl
      · exact fun _ => List.mem_append_left _ (h.stopped (.inl ⟨_, ho⟩))
    | @closed d sock ho =>
      apply h.passes
      · cases d <;> rfl
      · cases d <;> simp [afterStop]
      · cases d <;> simp [afterStop]
    | detaches | destroys | joins | frees => exact h.passes rfl (by simp) (by simp)
    | accepts =>
      obtain ⟨q, hq⟩ := enqueue_eq cfg { s with listener := .atLoop }
      rw [hq]
      exact h.threads rfl rfl
    | refuses | starts | poolMade | poolThrows | loopEnds | loops | reads | retries | fails | discards
    | rereads | closesOwn | drained | caught | dequeues | finishes => exact h.threads rfl rfl

theorem ServerSteps.holds {a : ServerAction} (hsock : SockKept es s)
    (h : ServerSteps cfg opened s a s' e) :
    s'.holds = s.holds ∨ (e = .closes s.holds ∧ s'.holds = none) := by
  have hpast : ∀ {o : Owner}, s.owner = o → (∀ d sock, o ≠ .closing d sock) →
      s.holds = s.svrSock := by
    intro o ho hne
    unfold ServerState.holds
    split
    · next d sock hd => exact absurd (ho.symm.trans hd) (hne d sock)
    all_goals rfl
  cases h with
  | exchanges ho => exact .inl (hpast ho (by simp)).symm
  | detaches ho => exact .inl (hpast ho (by simp)).symm
  | closes ho => exact .inl (hpast ho (by simp)).symm
  | @closed d sock ho =>
    have hholds : s.holds = sock := by rw [ServerState.holds, ho]
    refine .inr ⟨by rw [hholds], ?_⟩
    have hgone := hsock.gone d sock ho
    cases d <;> exact hgone
  | destroys ho => exact .inl (hpast ho (by simp)).symm
  | exchangesAgain ho => exact .inl (hpast ho (by simp)).symm
  | joins ho => exact .inl (hpast ho (by simp)).symm
  | frees ho => exact .inl (hpast ho (by simp)).symm
  | accepts =>
    obtain ⟨q, hq⟩ := enqueue_eq cfg { s with listener := .atLoop }
    rw [hq]
    exact .inl rfl
  | refuses | starts | poolMade | poolThrows | loopEnds | loops | reads | retries | fails | discards
  | rereads | closesOwn | drained | caught | dequeues | finishes => exact .inl rfl

structure Calm (s : ServerState) : Prop where
  failing : s.listener = .failing ∨ s.listener = .discarding → s.svrSock = none
  closing : ∀ sock, s.listener = .closing sock → sock = none
  accepting : ∀ sock, s.listener = .inAccept sock → s.svrSock = sock ∨ s.svrSock = none
  sound : s.listener ≠ .threw
  running : s.owner.beforeStop = true → s.isRunning = true
  given : s.owner.beforeStop = false → (∀ d, s.owner ≠ .stopping d) → s.svrSock = none

theorem newServer_calm (host : Str) (port : Int) (sock : Nat) : Calm (newServer host port sock) := by
  constructor <;> simp [newServer, Owner.beforeStop]

theorem Calm.takenOut (h : Calm s) (ho : s.owner = .registry) : Calm (takeOut s) :=
  ⟨h.failing, h.closing, h.accepting, h.sound, fun _ => h.running (by rw [ho]; rfl),
    fun hb => by cases hb⟩

theorem Calm.threads (h : Calm s) (howner : s'.owner = s.owner) (hsock : s'.svrSock = s.svrSock)
    (hrun : s'.isRunning = s.isRunning)
    (hfailing : s'.listener = .failing ∨ s'.listener = .discarding → s.svrSock = none)
    (hclosing : ∀ sock, s'.listener = .closing sock → sock = none)
    (haccepting : ∀ sock, s'.listener = .inAccept sock → s.svrSock = sock ∨ s.svrSock = none)
    (hsound : s'.listener ≠ .threw) : Calm s' := by
  refine ⟨?_, hclosing, ?_, hsound, ?_, ?_⟩
  · rwa [hsock]
  · rwa [hsock]
  · rw [howner, hrun]
    exact h.running
  · rw [howner, hsock]
    exact h.given

theorem Calm.listens (h : Calm s) {l : ListenPoint} {d : Bool}
    (hl : l ≠ .failing ∧ l ≠ .discarding ∧ l ≠ .threw)
    (hread : ∀ sock, l ≠ .closing sock ∧ l ≠ .inAccept sock) :
    Calm { s with listener := l, isDecommissioned := d } := by
  refine h.threads rfl rfl rfl ?_ ?_ ?_ hl.2.2
  · rintro (hf | hf)
    · exact absurd hf hl.1
    · exact absurd hf hl.2.1
  · exact fun sock hc => absurd hc (hread sock).1
  · exact fun sock hc => absurd hc (hread sock).2

theorem Calm.pool (h : Calm s) {q r : Nat} : Calm { s with queued := q, running := r } :=
  ⟨h.failing, h.closing, h.accepting, h.sound, h.running, h.given⟩

theorem Calm.owner (h : Calm s) {o : Owner} {d r : Bool} {sock : Option Nat}
    (hsock : sock = s.svrSock ∨ sock = none) (hbefore : o.beforeStop = false)
    (hgiven : (∀ d, o ≠ .stopping d) → sock = none) :
    Calm { s with owner := o, isDecommissioned := d, isRunning := r, svrSock := sock } := by
  have hnone : s.svrSock = none → sock = none := by
    intro hs
    rcases hsock with rfl | rfl
    · exact hs
    · rfl
  refine ⟨fun hl => hnone (h.failing hl), h.closing, fun x hx => ?_, h.sound, ?_, fun _ => hgiven⟩
  · rcases hsock with rfl | rfl
    · exact h.accepting x hx
    · exact .inr rfl
  · intro hb
    rw [hbefore] at hb
    cases hb

theorem Calm.step {a : ServerAction} (h : Calm s) (hone : OneEnd es s) (hsock : SockKept es s)
    (hthrows : a ≠ .poolThrows) (hfails : a = .fails → s.svrSock = none)
    (hstep : ServerSteps cfg opened s a s' e) : Calm s' := by
  have hpast : ∀ {o : Owner}, s.owner = o → o.beforeStop = false → (∀ d, o ≠ .stopping d) →
      s.svrSock = none := fun ho hb hne => h.given (ho ▸ hb) (ho ▸ hne)
  cases hstep with
  | exchanges ho => exact h.owner (.inl rfl) rfl fun hne => absurd rfl (hne _)
  | detaches ho hrun =>
    -- until its owner stops it the flag is up, so that stop closes the descriptor
    rw [h.running (by rw [ho]; rfl)] at hrun
    cases hrun
  | closes ho => exact h.owner (.inr rfl) rfl fun _ => rfl
  | @closed d sock ho =>
    exact h.owner (.inl rfl) (by cases d <;> rfl) fun _ => hsock.gone d sock ho
  | destroys ho => exact h.owner (.inl rfl) rfl fun _ => hpast ho rfl (by simp)
  | exchangesAgain ho hrun =>
    -- the destructor's stop finds the flag down
    rw [hone.flag (by rw [ho]; rfl)] at hrun
    cases hrun
  | joins ho => exact h.owner (.inl rfl) rfl fun _ => hpast ho rfl (by simp)
  | frees ho => exact h.owner (.inl rfl) rfl fun _ => hpast ho rfl (by simp)
  | poolThrows => exact absurd rfl hthrows
  | reads hl =>
    refine h.threads rfl rfl rfl ?_ (by simp) ?_ (by simp)
    · rintro (hf | hf) <;> cases hf
    · intro sock hc
      exact .inl (ListenPoint.inAccept.inj hc)
  | fails hl => exact h.threads rfl rfl rfl (fun _ => hfails rfl) (by simp) (by simp) (by simp)
  | discards hl hne => exact absurd (h.failing (.inl hl)) hne
  | rereads hl =>
    have hnone := h.failing (.inr hl)
    refine h.threads rfl rfl rfl (fun _ => hnone) ?_ (by simp) (by simp)
    intro sock hc
    rw [← ListenPoint.closing.inj hc, hnone]
  | accepts hl =>
    have hloop := h.listens (l := .atLoop) (d := s.isDecommissioned) (by simp) (by simp)
    obtain ⟨q, hq⟩ := enqueue_eq cfg { s with listener := .atLoop }
    rw [hq]
    exact hloop.pool
  | caught hl => exact absurd hl h.sound
  | refuses | starts | poolMade | loopEnds | loops | retries | closesOwn | drained =>
    exact h.listens (by simp) (by simp)
  | dequeues | finishes => exact h.pool

end

section
variable {cfg : PoolConfig} {w : Servers}

/-- An open socket has one server that will close it. -/
structure SocketsHeld (w : Servers) : Prop where
  distinct : (w.sockets.map Prod.fst).Nodup
  held : ∀ p ∈ w.sockets, ∃ s, w.all[p.2]? = some s ∧ s.holds = some p.1

theorem SocketsHeld.boundBy_iff (h : SocketsHeld w) {sock i : Nat} :
    w.boundBy sock = some i ↔ (sock, i) ∈ w.sockets := lookup_eq_some_iff_mem h.distinct

theorem not_mem_of_opened {sock : Nat} (h : w.opened sock = false) :
    sock ∉ w.sockets.map Prod.fst := by
  have hnone : w.boundBy sock = none := by
    rw [Servers.opened, Bool.or_eq_false_iff] at h
    simpa using h.1
  exact lookup_eq_none_iff_not_mem.mp hnone

theorem opened_of_mem {sock i : Nat} (h : (sock, i) ∈ w.sockets) : w.opened sock = true := by
  by_contra hopen
  exact not_mem_of_opened (by simpa using hopen) (List.mem_map_of_mem h)

theorem mem_socketsAfter {l : List (Nat × Nat)} {p : Nat × Nat} {e : Effect} :
    p ∈ socketsAfter l e ↔ p ∈ l ∧ e ≠ .closes (some p.1) := by
  unfold socketsAfter
  split
  · next sock =>
    rw [List.mem_filter, decide_eq_true_iff]
    refine and_congr_right fun _ => not_congr ?_
    rw [Effect.closes.injEq, Option.some.injEq, eq_comm]
  all_goals simp

theorem socketsAfter_sublist (l : List (Nat × Nat)) (e : Effect) : (socketsAfter l e).Sublist l := by
  unfold socketsAfter
  split
  · exact List.filter_sublist
  all_goals exact List.Sublist.refl l

theorem holds_takeOut {s : ServerState} (h : s.owner = .registry) : (takeOut s).holds = s.holds := by
  rw [ServerState.holds, ServerState.holds, h]
  rfl

theorem SocketsHeld.set (h : SocketsHeld w) {i : Nat} {s s' : ServerState} {l : List (Nat × Nat)}
    {leaked : List Nat}
    (hs : w.all[i]? = some s) (hl : l.Sublist w.sockets)
    (hheld : ∀ sock, s.holds = some sock → (sock, i) ∈ l → s'.holds = some sock) :
    SocketsHeld ⟨w.all.set i s', l, leaked⟩ := by
  constructor
  · exact (hl.map Prod.fst).nodup h.distinct
  · intro p hp
    obtain ⟨x, hx, hholds⟩ := h.held p (hl.subset hp)
    by_cases hip : i = p.2
    · subst hip
      rw [hs, Option.some.injEq] at hx
      subst hx
      exact ⟨s', List.getElem?_set_self (lt_of_getElem? hs), hheld p.1 hholds hp⟩
    · exact ⟨x, by rwa [List.getElem?_set_ne hip], hholds⟩

theorem SocketsHeld.step (h : SocketsHeld w)
    (hkept : ∀ (i : Nat) s, w.all[i]? = some s → ∃ es, SockKept es s) (a : ServersAction) :
    SocketsHeld ((serversMachine cfg).step w a).1 := by
  cases a with
  | startServer host port made =>
    show SocketsHeld (startServer w host port made)
    rcases startServer_cases w host port made with heq | ⟨sock, -, -, heq⟩ | ⟨sock, -, hopen, -, heq⟩
    · rwa [heq]
    · rw [heq]
      exact ⟨h.distinct, h.held⟩
    · rw [heq]
      -- the socket that is bound now is none of those that are open
      constructor
      · rw [List.map_append]
        exact nodup_append_singleton h.distinct (not_mem_of_opened hopen)
      · intro p hp
        rcases List.mem_append.mp hp with hp | hp
        · obtain ⟨s, hs, hholds⟩ := h.held p hp
          exact ⟨s, by rwa [List.getElem?_append_left (lt_of_getElem? hs)], hholds⟩
        · rw [List.mem_singleton.mp hp]
          exact ⟨_, List.getElem?_concat_length, rfl⟩
  | stopServer port i =>
    show SocketsHeld (stopServer w port i)
    rcases stopServer_cases w port i with heq | ⟨s, hs, ho, -, heq⟩
    · rwa [heq]
    · rw [heq]
      refine h.set hs (List.Sublist.refl _) fun sock hsock _ => ?_
      rwa [holds_takeOut ho]
  | stopAllServers =>
    refine ⟨h.distinct, fun p hp => ?_⟩
    obtain ⟨s, hs, hholds⟩ := h.held p hp
    have hget : (stopAllServers w).all[p.2]? = some (if s.registered then takeOut s else s) := by
      rw [stopAllServers, List.getElem?_map, hs, Option.map_some]
    refine ⟨_, hget, ?_⟩
    split
    · next hreg => rwa [holds_takeOut (by simpa [ServerState.registered] using hreg)]
    · exact hholds
  | «at» i a =>
    show SocketsHeld (atServer cfg w i a).1
    rcases atServer_cases cfg w i a with heq | ⟨s, s', e, hs, hstep, heq⟩
    · rwa [heq]
    · rw [heq]
      obtain ⟨es, hsock⟩ := hkept i s hs
      refine h.set hs (socketsAfter_sublist _ _) fun sock hholds hmem => ?_
      rcases (steps_of_serverStep hstep).holds hsock with hsame | ⟨hcloses, -⟩
      · rwa [hsame]
      · rw [hholds] at hcloses
        exact absurd hcloses (mem_socketsAfter.mp hmem).2

theorem server_kept (as : List ServersAction) {i : Nat} {s : ServerState}
    (hs : ((serversMachine cfg).run noServers as).all[i]? = some s) :
    OneEnd (effectsOf i ((serversMachine cfg).emitted noServers as)) s ∧
      SockKept (effectsOf i ((serversMachine cfg).emitted noServers as)) s :=
  (sockKept_kept cfg).all
    (fun host port sock => ⟨newServer_oneEnd host port sock, newServer_sockKept host port sock⟩) as i s hs

theorem socketsHeld_run (cfg : PoolConfig) (as : List ServersAction) :
    SocketsHeld ((serversMachine cfg).run noServers as) := by
  induction as using List.reverseRecOn with
  | nil => exact ⟨List.nodup_nil, fun p hp => by cases hp⟩
  | append_singleton as a ih =>
    rw [(serversMachine cfg).run_concat]
    exact ih.step (fun i s hs => ⟨_, (server_kept as hs).2⟩) a

/-- Every listening thread and every pool can be made, and `accept` fails only where the descriptor is no
longer open. -/
def acceptsWell (w : Servers) : ServersAction → Bool
  | .startServer _ _ (.threadFails _) => false
  | .at _ .poolThrows => false
  | .at i .fails =>
    match (w.all[i]?).map ServerState.listener with
    | some (.inAccept (some sock)) => !w.opened sock
    | _ => true
  | _ => true

structure SocketsOpen (w : Servers) : Prop where
  leaked : w.leaked = []
  opened : ∀ (i : Nat) s sock, w.all[i]? = some s → s.holds = some sock → (sock, i) ∈ w.sockets
  calm : ∀ s ∈ w.all, Calm s

theorem stopAllServers_cases {i : Nat} {x : ServerState} (h : (stopAllServers w).all[i]? = some x) :
    ∃ s, w.all[i]? = some s ∧ (x = s ∨ (s.owner = .registry ∧ x = takeOut s)) := by
  rw [stopAllServers, List.getElem?_map] at h
  obtain ⟨s, hs, rfl⟩ := Option.map_eq_some_iff.mp h
  refine ⟨s, hs, ?_⟩
  split
  · next hreg => exact .inr ⟨by simpa [ServerState.registered] using hreg, rfl⟩
  · exact .inl rfl

theorem SockKept.holds_eq {es : List Effect} {s : ServerState} {sock : Nat} (h : SockKept es s)
    (hsock : s.svrSock = some sock) : s.holds = some sock := by
  unfold ServerState.holds
  split
  · next d x hd =>
    rw [h.gone d x hd] at hsock
    cases hsock
  all_goals exact hsock

theorem ServerSteps.closes_own {opened : Nat → Bool} {s s' : ServerState} {a : ServerAction}
    {es : List Effect} {sock : Nat} (hsock : SockKept es s) (hcalm : Calm s)
    (h : ServerSteps cfg opened s a s' (.closes (some sock))) :
    s.holds = some sock ∧ s'.holds = none := by
  generalize he : Effect.closes (some sock) = e at h
  cases h with
  | @closed d x ho =>
    have hx := Effect.closes.inj he
    refine ⟨by rw [ServerState.holds, ho, hx], ?_⟩
    have hgone := hsock.gone d x ho
    cases d <;> exact hgone
  | closesOwn hl =>
    -- by then the listener has nothing left to close
    rw [hcalm.closing _ hl] at he
    cases he
  | exchanges | detaches | closes | destroys | exchangesAgain | joins | frees | refuses | starts
  | poolMade | poolThrows | loopEnds | loops | reads | accepts | retries | fails | discards | rereads
  | drained | caught | dequeues | finishes => cases he

theorem svrSock_of_fails {i : Nat} {s s' : ServerState} {e : Effect} {es : List Effect}
    (hopen : SocketsOpen w) (hs : w.all[i]? = some s) (hsock : SockKept es s)
    (hwell : acceptsWell w (.at i .fails) = true)
    (hstep : serverStep cfg w.opened s .fails = some (s', e)) : s.svrSock = none := by
  cases steps_of_serverStep hstep with
  | @fails x hl =>
    rcases (hopen.calm s (List.mem_of_getElem? hs)).accepting x hl with heq | hnone
    · cases x with
      | none => exact heq
      | some sock =>
        have hmem := hopen.opened i s sock hs (hsock.holds_eq heq)
        simp [acceptsWell, hs, hl, opened_of_mem hmem] at hwell
    · exact hnone

theorem SocketsOpen.set (h : SocketsOpen w) (hheld : SocketsHeld w) {i : Nat} {s s' : ServerState}
    {e : Effect} (hs : w.all[i]? = some s) (hcalm : Calm s')
    (hholds : s'.holds = s.holds ∨ s'.holds = none)
    (hcloses : ∀ sock, e = .closes (some sock) → s.holds = some sock ∧ s'.holds = none) :
    SocketsOpen ⟨w.all.set i s', socketsAfter w.sockets e, leakedAfter w.leaked e⟩ := by
  refine ⟨by rw [h.leaked]; rfl, fun j x sock hx hsock => mem_socketsAfter.mpr ?_,
    forall_mem_set h.calm hcalm⟩
  rcases getElem?_set_cases hx with ⟨rfl, rfl⟩ | ⟨hne, hold⟩
  · rcases hholds with hsame | hnone
    · refine ⟨h.opened j s sock hs (hsame ▸ hsock), fun he => ?_⟩
      rw [(hcloses sock he).2] at hsock
      cases hsock
    · rw [hnone] at hsock
      cases hsock
  · have hmem := h.opened j x sock hold hsock
    -- an open socket has one server, so the one that was closed is not this one's
    refine ⟨hmem, fun he => hne ?_⟩
    exact mem_unique hheld.distinct hmem (h.opened i s sock hs (hcloses sock he).1)

theorem SocketsOpen.step (h : SocketsOpen w) (hheld : SocketsHeld w)
    (hkept : ∀ (i : Nat) s, w.all[i]? = some s → ∃ es, OneEnd es s ∧ SockKept es s)
    {a : ServersAction} (hwell : acceptsWell w a = true) :
    SocketsOpen ((serversMachine cfg).step w a).1 := by
  cases a with
  | startServer host port made =>
    show SocketsOpen (startServer w host port made)
    rcases startServer_cases w host port made with heq | ⟨sock, rfl, -, heq⟩ | ⟨sock, -, -, -, heq⟩
    · rwa [heq]
    · cases hwell
    · rw [heq]
      refine ⟨h.leaked, fun j x y hx hy => List.mem_append.mpr ?_,
        forall_mem_append_singleton h.calm (newServer_calm host port sock)⟩
      rcases Nat.lt_or_ge j w.all.length with hlt | hge
      · rw [List.getElem?_append_left hlt] at hx
        exact .inl (h.opened j x y hx hy)
      · have hj : j = w.all.length := by
          have := lt_of_getElem? hx
          rw [List.length_append, List.length_singleton] at this
          omega
        subst hj
        rw [List.getElem?_concat_length, Option.some.injEq] at hx
        subst hx
        refine .inr (List.mem_singleton.mpr ?_)
        rw [← Option.some.inj hy]
  | stopServer port i =>
    show SocketsOpen (stopServer w port i)
    rcases stopServer_cases w port i with heq | ⟨s, hs, ho, -, heq⟩
    · rwa [heq]
    · rw [heq]
      have hcalm := (h.calm s (List.mem_of_getElem? hs)).takenOut ho
      have hset := h.set (e := .quiet) hheld hs hcalm (.inl (holds_takeOut ho)) fun sock he => by cases he
      exact ⟨h.leaked, hset.opened, hset.calm⟩
  | stopAllServers =>
    refine ⟨h.leaked, fun j x sock hx hsock => ?_, fun x hx => ?_⟩
    · obtain ⟨s, hs, rfl | ⟨ho, rfl⟩⟩ := stopAllServers_cases hx
      · exact h.opened j x sock hs hsock
      · exact h.opened j s sock hs (holds_takeOut ho ▸ hsock)
    · obtain ⟨j, hj⟩ := List.mem_iff_getElem?.mp hx
      obtain ⟨s, hs, rfl | ⟨ho, rfl⟩⟩ := stopAllServers_cases hj
      · exact h.calm x (List.mem_of_getElem? hs)
      · exact (h.calm s (List.mem_of_getElem? hs)).takenOut ho
  | «at» i a =>
    show SocketsOpen (atServer cfg w i a).1
    rcases atServer_cases cfg w i a with heq | ⟨s, s', e, hs, hstep, heq⟩
    · rwa [heq]
    · rw [heq]
      obtain ⟨es, hone, hsock⟩ := hkept i s hs
      have hsteps := steps_of_serverStep hstep
      have hcalm := h.calm s (List.mem_of_getElem? hs)
      have hthrows : a ≠ .poolThrows := by
        rintro rfl
        cases hwell
      have hfails : a = .fails → s.svrSock = none := by
        rintro rfl
        exact svrSock_of_fails h hs hsock hwell hstep
      refine h.set hheld hs (hcalm.step hone hsock hthrows hfails hsteps) ?_ ?_
      · exact (hsteps.holds hsock).imp_right And.right
      · rintro sock rfl
        exact hsteps.closes_own hsock hcalm

theorem socketsOpen_run {as : List ServersAction}
    (h : (serversMachine cfg).Along (fun w a => acceptsWell w a = true) noServers as) :
    SocketsOpen ((serversMachine cfg).run noServers as) := by
  induction as using List.reverseRecOn with
  | nil =>
    refine ⟨rfl, fun i s sock hs => ?_, fun s hs => ?_⟩
    · simp [noServers] at hs
    · cases hs
  | append_singleton as a ih =>
    obtain ⟨has, ha, -⟩ := (serversMachine cfg).along_append.mp h
    rw [(serversMachine cfg).run_concat]
    exact (ih has).step (socketsHeld_run cfg as) (fun i s hs => ⟨_, server_kept as hs⟩) ha

/-- What an event says, after those that came before it: a socket is closed by the server that has
bound it, and a connection is of the server's own socket, unless it was stopped. -/
def Rightful (before : List ServersEvent) (ev : ServersEvent) : Prop :=
  (∀ sock, ev.effect = .closes (some sock) → ev.boundBy = some ev.server) ∧
    ∀ sock, ev.effect = .accepts sock →
      ev.boundBy = some ev.server ∨ .stops ∈ effectsOf ev.server before

theorem rightful_step {as : List ServersAction}
    (hopen : SocketsOpen ((serversMachine cfg).run noServers as)) {a : ServersAction}
    {ev : ServersEvent}
    (hev : ev ∈ ((serversMachine cfg).step ((serversMachine cfg).run noServers as) a).2) :
    Rightful ((serversMachine cfg).emitted noServers as) ev := by
  have hheld := socketsHeld_run cfg as
  generalize hw : (serversMachine cfg).run noServers as = w at *
  cases a with
  | startServer | stopServer | stopAllServers => cases hev
  | «at» i a =>
    rcases atServer_cases cfg w i a with heq | ⟨s, s', e, hs, hstep, heq⟩
    · rw [show ((serversMachine cfg).step w (.at i a)).2 = [] from congrArg Prod.snd heq] at hev
      cases hev
    · rw [show ((serversMachine cfg).step w (.at i a)).2 = _ from congrArg Prod.snd heq] at hev
      rw [List.mem_singleton.mp hev]
      obtain ⟨hone, hsock⟩ := server_kept as (hw ▸ hs)
      have hcalm := hopen.calm s (List.mem_of_getElem? hs)
      have hsteps := steps_of_serverStep hstep
      -- the server's own descriptor is open, and nobody else's
      have hbound : ∀ sock, s.holds = some sock → w.boundBy sock = some i := fun sock hholds =>
        hheld.boundBy_iff.mpr (hopen.opened i s sock hs hholds)
      constructor
      · rintro sock rfl
        exact hbound sock (hsteps.closes_own hsock hcalm).1
      · rintro sock rfl
        cases hsteps with
        | accepts hl =>
          rcases hcalm.accepting _ hl with heq | hnone
          · exact .inl (hbound sock (hsock.holds_eq heq))
          · exact .inr (hsock.stopped (.inr hnone))

/-- In every run in which `accept` fails on no open socket and no listening thread and no pool fails to be
made: the open sockets are those that the servers still hold; a server of the registry has its socket, and one that
is destroyed leaves none behind; every socket is closed by the server that bound it; and what a
server accepts comes from its own socket, unless it was stopped before. -/
theorem sockets_owned (cfg : PoolConfig) (as : List ServersAction)
    (h : (serversMachine cfg).Along (fun w a => acceptsWell w a = true) noServers as) :
    let w := (serversMachine cfg).run noServers as
    let log := (serversMachine cfg).emitted noServers as
    (w.sockets.map Prod.fst).Nodup ∧ (∀ sock, w.opened sock = true ↔ ∃ i, (sock, i) ∈ w.sockets) ∧
      (∀ sock i, (sock, i) ∈ w.sockets ↔ ∃ s, w.all[i]? = some s ∧ s.holds = some sock) ∧
      (∀ i s, w.all[i]? = some s → (s.owner = .registry → ∃ sock, (sock, i) ∈ w.sockets) ∧
        (s.owner = .freed → ∀ sock, (sock, i) ∉ w.sockets)) ∧
      ∀ before ev after, log = before ++ ev :: after → Rightful before ev := by
  intro w log
  have hheld := socketsHeld_run cfg as
  have hopen := socketsOpen_run h
  have hiff : ∀ sock i, (sock, i) ∈ w.sockets ↔ ∃ s, w.all[i]? = some s ∧ s.holds = some sock := by
    intro sock i
    constructor
    · exact hheld.held (sock, i)
    · rintro ⟨s, hs, hholds⟩
      exact hopen.opened i s sock hs hholds
  have hopened : ∀ sock, w.opened sock = true ↔ ∃ i, (sock, i) ∈ w.sockets := by
    intro sock
    rw [Servers.opened, hopen.leaked, List.contains_nil, Bool.or_false, Option.isSome_iff_exists]
    exact exists_congr fun i => hheld.boundBy_iff
  refine ⟨hheld.distinct, hopened, hiff, fun i s hs => ⟨fun ho => ?_, fun ho sock hmem => ?_⟩, ?_⟩
  · have hsock := (server_kept as hs).2
    obtain ⟨sock, hsome⟩ := Option.ne_none_iff_exists'.mp (hsock.present (.inl (by rw [ho]; rfl)))
    exact ⟨sock, (hiff sock i).mpr ⟨s, hs, hsock.holds_eq hsome⟩⟩
  · obtain ⟨s', hs', hholds⟩ := (hiff sock i).mp hmem
    rw [hs, Option.some.injEq] at hs'
    subst hs'
    have hnone := (hopen.calm s (List.mem_of_getElem? hs)).given (by rw [ho]; rfl) (by simp [ho])
    rw [ServerState.holds, ho] at hholds
    exact absurd (hnone.symm.trans hholds) (by simp)
  · intro before ev after hlog
    obtain ⟨pre, a, post, front, back, rfl, hstep, rfl⟩ := (serversMachine cfg).emitted_split hlog
    -- the event's own step comes after a run that meets the condition too
    have hpre := socketsOpen_run ((serversMachine cfg).along_append.mp h).1
    have hmem : ev ∈ ((serversMachine cfg).step ((serversMachine cfg).run noServers pre) a).2 := by
      simp [hstep]
    have hev := rightful_step hpre hmem
    refine ⟨hev.1, fun sock heffect => (hev.2 sock heffect).imp_right fun hmem => ?_⟩
    rw [effectsOf_append]
    exact List.mem_append_left _ hmem

end

/-- A server is stopped while its listener is in `accept`, and its address and its descriptor go to the
next one. -/
def restarted : List ServersAction :=
  [.startServer "0.0.0.0".toList 8000 (.listens 5), .at 0 .listen, .at 0 .listen, .at 0 .listen,
    .at 0 .listen, .stopServer 8000 0, .at 0 .owner, .at 0 .owner, .at 0 .owner,
    .startServer "0.0.0.0".toList 8000 (.listens 5), .at 0 .accepts, .at 0 .listen, .at 0 .dequeue,
    .at 0 .finishes, .at 0 .listen, .at 0 .owner, .at 0 .owner, .at 0 .owner]

theorem sockets_owned_restarted :
    ⟨0, .accepts 5, some 1⟩ ∈ (serversMachine ⟨4, 0⟩).emitted noServers restarted ∧
      ∀ before ev after, (serversMachine ⟨4, 0⟩).emitted noServers restarted = before ++ ev :: after →
        Rightful before ev := by
  refine ⟨by decide, (sockets_owned ⟨4, 0⟩ restarted ?_).2.2.2.2⟩
  repeat' constructor

end Quackapi.Server
