import Quackapi.Server.Sockets

/-! A server that is out of the registry is destroyed: as long as it is not, somebody can take a step
at it, and once its socket is out of `svr_sock_` only so many steps are left. -/

namespace Quackapi.Server
open Library

section
variable {cfg : PoolConfig} {opened : Nat → Bool} {s s' : ServerState} {e : Effect} {es : List Effect}

/-- With the descriptor gone; a connection that `accept` returns is two steps more for the pool. -/
def ListenPoint.work : ListenPoint → Nat
  | .over => 0
  | .starting | .threw | .draining _ => 1
  | .atLoop | .failing | .closing _ => 2
  | .makingPool | .discarding | .inAccept none => 3
  | .reading => 4
  | .inAccept (some _) => 5

def Owner.work : Owner → Nat
  | .freed => 0
  | .joining => 1
  | .destroying => 2
  | .detached => 3
  | .closing _ _ => 4
  | .stopping _ => 5
  | .taken => 6
  | .registry => 7

def ServerState.work (s : ServerState) : Nat :=
  s.owner.work + s.listener.work + 2 * s.queued + s.running

theorem work_le (hkept : SockKept es s) (hsock : s.svrSock = none) :
    s.work ≤ 9 + 2 * s.queued + s.running := by
  have howner : s.owner.work ≤ 4 := by
    have hpresent : ∀ {o : Owner}, s.owner = o → o.beforeStop = true ∨ (∃ d, o = .stopping d) → False :=
      fun ho hb => hkept.present (ho ▸ hb) hsock
    cases ho : s.owner with
    | registry => exact (hpresent ho (.inl rfl)).elim
    | taken => exact (hpresent ho (.inl rfl)).elim
    | stopping d => exact (hpresent ho (.inr ⟨d, rfl⟩)).elim
    | closing | detached | destroying | joining | freed => simp [Owner.work]
  have hlisten : s.listener.work ≤ 5 := by
    unfold ListenPoint.work
    split <;> omega
  unfold ServerState.work
  omega

theorem ServerSteps.svrSock_none {a : ServerAction} (h : ServerSteps cfg opened s a s' e)
    (hsock : s.svrSock = none) : s'.svrSock = none := by
  cases h with
  | closes => rfl
  | accepts =>
    obtain ⟨q, hq⟩ := enqueue_eq cfg { s with listener := .atLoop }
    rwa [hq]
  | exchanges | detaches | closed | destroys | exchangesAgain | joins | frees | refuses | starts
  | poolMade | poolThrows | loopEnds | loops | reads | retries | fails | discards | rereads | closesOwn
  | drained | caught | dequeues | finishes => exact hsock

theorem ServerSteps.work_lt {a : ServerAction} (hone : OneEnd es s) (hsock : s.svrSock = none)
    (h : ServerSteps cfg opened s a s' e) : s'.work < s.work := by
  -- a step of one party takes some of its own work
  have howner : ∀ {o n : Owner}, s.owner = o → n.work < o.work →
      { s with owner := n }.work < s.work := by
    rintro o n rfl hlt
    simp only [ServerState.work]
    omega
  have hlisten : ∀ {l m : ListenPoint}, s.listener = l → m.work < l.work →
      { s with listener := m }.work < s.work := by
    rintro l m rfl hlt
    simp only [ServerState.work]
    omega
  cases h with
  | exchanges ho => exact howner (n := .stopping false) ho (by decide)
  | detaches ho => exact howner ho (by decide)
  | @closes d ho => exact howner (n := .closing d s.svrSock) ho (by simp [Owner.work])
  | @closed d sock ho =>
    have hlt : (afterStop d).work < 4 := by cases d <;> simp [afterStop, Owner.work]
    exact howner (n := afterStop d) ho hlt
  | destroys ho => exact howner ho (by decide)
  | exchangesAgain ho hrun =>
    rw [hone.flag (by rw [ho]; rfl)] at hrun
    cases hrun
  | joins ho => exact howner ho (by decide)
  | frees ho => exact howner ho (by decide)
  | refuses hl => exact hlisten (m := .over) hl (by decide)
  | starts hl hne => exact absurd hsock hne
  | poolMade hl => exact hlisten hl (by decide)
  | poolThrows hl => exact hlisten hl (by decide)
  | loopEnds hl =>
    rcases hl with hl | hl
    · exact hlisten hl (by decide)
    · exact hlisten hl (by decide)
  | loops hl hne => exact absurd hsock hne
  | reads hl => exact hlisten hl (by simp [hsock, ListenPoint.work])
  | accepts hl =>
    -- the job that it queues is less work than the listener has got rid of
    have hjob : (enqueue cfg { s with listener := .atLoop }).work ≤
        { s with listener := .atLoop }.work + 2 := by
      unfold enqueue
      split
      · exact Nat.le_add_right _ _
      · simp only [ServerState.work]
        omega
    refine lt_of_le_of_lt hjob ?_
    simp only [ServerState.work, hl, ListenPoint.work]
    omega
  | retries hl => exact hlisten hl (by simp [ListenPoint.work])
  | @fails sock hl => exact hlisten hl (by cases sock <;> simp [ListenPoint.work])
  | discards hl hne => exact absurd hsock hne
  | rereads hl => exact hlisten hl (by simp [ListenPoint.work])
  | closesOwn hl => exact hlisten hl (by simp [ListenPoint.work])
  | drained hl => exact hlisten (m := .over) hl (by simp [ListenPoint.work])
  | caught hl => exact hlisten (m := .over) hl (by decide)
  | dequeues hq hr =>
    simp only [ServerState.work]
    omega
  | finishes hr =>
    simp only [ServerState.work]
    omega

theorem spent_kept (cfg : PoolConfig) (n : Nat) :
    KeptBySteps cfg fun es s =>
      (∃ es₀, OneEnd es₀ s) ∧ s.svrSock = none ∧ es.length + s.work ≤ n := by
  constructor
  · rintro es s ⟨⟨es₀, hone⟩, hsock, hle⟩ ho
    refine ⟨⟨es₀, (oneEnd_kept cfg).takenOut hone ho⟩, hsock, ?_⟩
    simp only [ServerState.work, ho, takeOut, Owner.work] at hle ⊢
    omega
  · rintro es s opened a s' e ⟨⟨es₀, hone⟩, hsock, hle⟩ hstep
    refine ⟨⟨_, (oneEnd_kept cfg).steps hone hstep⟩, ?_, ?_⟩
    · exact hstep.svrSock_none hsock
    · have hlt := hstep.work_lt hone hsock
      rw [List.length_append, List.length_singleton]
      omega

/-- Where the flag was down before the stop, and the socket stays behind, the listener is over. -/
structure Deaf (s : ServerState) : Prop where
  lost : s.owner.beforeStop = true → s.isRunning = false → s.listener = .over
  past : s.owner.beforeStop = false → (∀ d, s.owner ≠ .stopping d) →
    s.svrSock = none ∨ s.listener = .over

theorem Deaf.threads (h : Deaf s) (howner : s'.owner = s.owner) (hsock : s'.svrSock = s.svrSock)
    (hrun : s'.isRunning = s.isRunning) (hover : s.listener = .over → s'.listener = .over) :
    Deaf s' := by
  constructor
  · rw [howner, hrun]
    exact fun hb hr => hover (h.lost hb hr)
  · rw [howner, hsock]
    exact fun hb hne => (h.past hb hne).imp_right hover

theorem deaf_kept (cfg : PoolConfig) :
    KeptBySteps cfg fun es s => (OneEnd es s ∧ SockKept es s) ∧ Deaf s := by
  refine (sockKept_kept cfg).and ?_ ?_
  · intro es s h ho
    refine ⟨fun _ => h.lost (by rw [ho]; rfl), fun hb => ?_⟩
    cases hb
  · intro es s opened a s' e hkept h hstep
    -- a step of who holds the server, past the stop
    have howner : ∀ {o : Owner} {d : Bool}, o.beforeStop = false →
        (s.svrSock = none ∨ s.listener = .over) → Deaf { s with owner := o, isDecommissioned := d } := by
      intro o d hb hpast
      refine ⟨fun hb' => ?_, fun _ _ => hpast⟩
      rw [hb] at hb'
      cases hb'
    have hpast : ∀ {o : Owner}, s.owner = o → o.beforeStop = false → (∀ d, o ≠ .stopping d) →
        s.svrSock = none ∨ s.listener = .over := fun ho hb hne => h.past (ho ▸ hb) (ho ▸ hne)
    cases hstep with
    | exchanges ho =>
      refine ⟨fun hb => ?_, fun _ hne => absurd rfl (hne false)⟩
      cases hb
    | detaches ho hrun => exact howner rfl (.inr (h.lost (by rw [ho]; rfl) hrun))
    | closes ho =>
      refine ⟨fun hb => ?_, fun _ _ => .inl rfl⟩
      cases hb
    | @closed d sock ho => exact howner (by cases d <;> rfl) (.inl (hkept.2.gone d sock ho))
    | destroys ho => exact howner rfl (hpast ho rfl (by simp))
    | exchangesAgain ho hrun =>
      rw [hkept.1.flag (by rw [ho]; rfl)] at hrun
      cases hrun
    | joins ho => exact howner rfl (hpast ho rfl (by simp))
    | frees ho => exact howner rfl (hpast ho rfl (by simp))
    | caught hl => exact ⟨fun _ _ => rfl, fun _ _ => .inr rfl⟩
    | accepts hl =>
      obtain ⟨q, hq⟩ := enqueue_eq cfg { s with listener := .atLoop }
      rw [hq]
      exact h.threads rfl rfl rfl (by simp [hl])
    | loopEnds hl => exact h.threads rfl rfl rfl (by rcases hl with hl | hl <;> simp [hl])
    | refuses hl | starts hl | poolMade hl | poolThrows hl | loops hl | reads hl | retries hl | fails hl
    | discards hl | rereads hl | closesOwn hl | drained hl => exact h.threads rfl rfl rfl (by simp [hl])
    | dequeues | finishes => exact h.threads rfl rfl rfl id

theorem deaf_run (as : List ServersAction) {i : Nat} {s : ServerState}
    (hs : ((serversMachine cfg).run noServers as).all[i]? = some s) : Deaf s := by
  refine ((deaf_kept cfg).all (fun host port sock => ?_) as i s hs).2
  refine ⟨⟨newServer_oneEnd host port sock, newServer_sockKept host port sock⟩, ?_⟩
  constructor <;> simp [newServer, Owner.beforeStop]

/-- Without a client: the steps that `accept` waits for are left out, except that it fails at once on a
descriptor that is not open, and so is the end of a job, which reads from its connection. -/
def ServerAction.unwaited (opened : Nat → Bool) (s : ServerState) : ServerAction → Bool
  | .owner | .listen | .dequeue => true
  | .poolThrows | .accepts | .retries | .finishes => false
  | .fails =>
    match s.listener with
    | .inAccept (some sock) => !opened sock
    | _ => true

theorem listener_can_step (hworkers : 0 < cfg.workers) (hover : s.listener ≠ .over)
    (hwaits : ∀ sock, s.listener = .inAccept (some sock) → opened sock = false)
    (hjobs : ∀ ret, s.listener = .draining ret → s.running = 0) :
    ∃ a : ServerAction, a.unwaited opened s = true ∧ (serverStep cfg opened s a).isSome = true := by
  have hlisten : (listenStep s).isSome = true →
      ∃ a : ServerAction, a.unwaited opened s = true ∧ (serverStep cfg opened s a).isSome = true :=
    fun h => ⟨.listen, rfl, h⟩
  cases hl : s.listener with
  | starting =>
    apply hlisten
    rw [listenStep, hl]
    dsimp only
    split <;> rfl
  | makingPool => exact hlisten (by simp [listenStep, hl])
  | atLoop =>
    apply hlisten
    rw [listenStep, hl]
    dsimp only
    split <;> rfl
  | reading => exact hlisten (by simp [listenStep, hl])
  | inAccept sock =>
    refine ⟨.fails, ?_, by simp [serverStep, hl]⟩
    cases sock with
    | none => simp [ServerAction.unwaited, hl]
    | some sock => simp [ServerAction.unwaited, hl, hwaits sock hl]
  | failing =>
    apply hlisten
    rw [listenStep, hl]
    dsimp only
    split <;> rfl
  | discarding => exact hlisten (by simp [listenStep, hl])
  | closing sock => exact hlisten (by simp [listenStep, hl])
  | draining ret =>
    -- the pool's destructor waits for the jobs, and the workers can take them
    have hr := hjobs ret hl
    by_cases hq : 0 < s.queued
    · refine ⟨.dequeue, rfl, ?_⟩
      rw [serverStep, if_pos ⟨hq, by omega⟩]
      rfl
    · apply hlisten
      rw [listenStep, hl]
      dsimp only
      rw [if_pos ⟨by omega, hr⟩]
      rfl
  | threw => exact hlisten (by simp [listenStep, hl])
  | «over» => exact absurd hl hover

theorem owner_can_step (hworkers : 0 < cfg.workers) (hout : s.owner ≠ .registry)
    (hfreed : s.owner ≠ .freed)
    (hwaits : s.owner = .joining → ∀ sock, s.listener = .inAccept (some sock) → opened sock = false)
    (hjobs : s.owner = .joining → ∀ ret, s.listener = .draining ret → s.running = 0) :
    ∃ a : ServerAction, a.unwaited opened s = true ∧ (serverStep cfg opened s a).isSome = true := by
  have howner : (ownerStep s).isSome = true →
      ∃ a : ServerAction, a.unwaited opened s = true ∧ (serverStep cfg opened s a).isSome = true :=
    fun h => ⟨.owner, rfl, h⟩
  cases ho : s.owner with
  | registry => exact absurd ho hout
  | taken => exact howner (by simp [ownerStep, ho])
  | stopping d => exact howner (by simp [ownerStep, ho])
  | closing d sock => exact howner (by simp [ownerStep, ho])
  | detached => exact howner (by simp [ownerStep, ho])
  | destroying => exact howner (by simp [ownerStep, ho])
  | joining =>
    by_cases hover : s.listener = .over
    · exact howner (by simp [ownerStep, ho, hover])
    · exact listener_can_step hworkers hover (hwaits ho) (hjobs ho)
  | freed => exact absurd ho hfreed

end

/-- In every run: as long as a server that has left the registry is not destroyed, a step can be taken
at it without waiting for a client, unless its listener waits for the pool while a worker is at a
connection, or has read a descriptor that was closed since and now is another socket's; and once its
socket is out of `svr_sock_` only so many steps are left to its threads and to who holds it, in every
run from there. -/
theorem servers_end (cfg : PoolConfig) (as : List ServersAction) :
    let w := (serversMachine cfg).run noServers as
    ∀ i s, w.all[i]? = some s →
      (0 < cfg.workers → s.owner ≠ .registry → s.owner ≠ .freed →
        (∃ a : ServerAction, a.unwaited w.opened s = true ∧
          (serverStep cfg w.opened s a).isSome = true) ∨
          (∃ ret, s.listener = .draining ret ∧ 0 < s.running) ∨
          ∃ sock, s.listener = .inAccept (some sock) ∧ w.opened sock = true ∧
            w.boundBy sock ≠ some i) ∧
      (s.svrSock = none → ∀ bs, (effectsOf i ((serversMachine cfg).emitted w bs)).length ≤
        9 + 2 * s.queued + s.running) := by
  intro w i s hs
  obtain ⟨hone, hkept⟩ := server_kept as hs
  constructor
  · intro hworkers hout hfreed
    by_cases hwaits : s.owner = .joining →
        ∀ sock, s.listener = .inAccept (some sock) → w.opened sock = false
    · by_cases hjobs : s.owner = .joining → ∀ ret, s.listener = .draining ret → s.running = 0
      · exact .inl (owner_can_step hworkers hout hfreed hwaits hjobs)
      · push Not at hjobs
        obtain ⟨-, ret, hl, hrunning⟩ := hjobs
        exact .inr (.inl ⟨ret, hl, Nat.pos_of_ne_zero hrunning⟩)
    · push Not at hwaits
      obtain ⟨ho, sock, hl, hopen⟩ := hwaits
      refine .inr (.inr ⟨sock, hl, by simpa using hopen, fun hj => ?_⟩)
      -- its own descriptor is not open any more
      have hheld := socketsHeld_run cfg as
      obtain ⟨s', hs', hholds⟩ := hheld.held (sock, i) (hheld.boundBy_iff.mp hj)
      obtain rfl : s' = s := Option.some.inj (hs'.symm.trans hs)
      have hsock : s'.svrSock = some sock := by rwa [ServerState.holds, ho] at hholds
      rcases (deaf_run as hs).past (by rw [ho]; rfl) (by simp [ho]) with hnone | hover
      · rw [hnone] at hsock
        cases hsock
      · rw [hover] at hl
        cases hl
  · intro hsock bs
    have hstart : (∃ es₀, OneEnd es₀ s) ∧ s.svrSock = none ∧
        ([] : List Effect).length + s.work ≤ s.work := ⟨⟨_, hone⟩, hsock, by simp⟩
    obtain ⟨s', -, -, -, hle⟩ := (spent_kept cfg s.work).run hs hstart bs
    rw [List.nil_append] at hle
    have hwork := work_le hkept hsock
    omega

end Quackapi.Server
