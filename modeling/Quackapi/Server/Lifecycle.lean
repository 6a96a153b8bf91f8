import Quackapi.Library.Machine
import Quackapi.Library.Slots
import Quackapi.Openapi.Operation

/-! The servers of one database, from `quackapi_serve` to their destruction. For each there is the
thread that listens, the workers of its pool, and whoever holds the server: the registry, then the
call that stops it, then the detached thread that destroys it. Each action is one atomic step of one of
them, so a run is an interleaving. A server keeps its place in the list after it is destroyed. -/

namespace Quackapi.Server
open Library

/-- Where the thread is that runs `ListenThread`. -/
inductive ListenPoint
  /-- Before the first line of `listen_internal`. -/
  | starting
  /-- In `new_task_queue`. -/
  | makingPool
  | atLoop
  /-- The loop goes on, and the argument of `accept` is still to be read. -/
  | reading
  | inAccept (sock : Option Nat)
  /-- `accept` has failed, for none of the reasons it is tried again for. -/
  | failing
  | discarding
  | closing (sock : Option Nat)
  /-- In `task_queue->shutdown`. -/
  | draining (ret : Bool)
  /-- An exception has come to the handler in `ListenThread`. -/
  | threw
  | over
deriving DecidableEq, Repr

/-- Who holds the server, and where he is. A step of `StopAccepting` says whether it is the
destructor's. -/
inductive Owner
  | registry
  /-- Moved out of the map. -/
  | taken
  | stopping (destructor : Bool)
  | closing (destructor : Bool) (sock : Option Nat)
  /-- With the thread that sleeps before it destroys. -/
  | detached
  | destroying
  | joining
  | freed
deriving DecidableEq, Repr

structure ServerState where
  host : Str
  port : Int
  isRunning : Bool
  /-- `svr_sock_`, with `none` for `INVALID_SOCKET`. -/
  svrSock : Option Nat
  isDecommissioned : Bool
  listener : ListenPoint
  /-- The pool's jobs: connections that wait, and connections that a worker is at. -/
  queued : Nat
  running : Nat
  owner : Owner
deriving DecidableEq

/-- The pool's size and its `max_queued_requests`, of which zero is none. -/
structure PoolConfig where
  workers : Nat
  maxPending : Nat

inductive Effect
  | quiet
  /-- `Server::stop` is called. -/
  | stops
  | closes (sock : Option Nat)
  | accepts (sock : Nat)
  | frees
deriving DecidableEq

inductive ServerAction
  /-- The next step of who holds it. -/
  | owner
  /-- The next step of the listener, where it waits for nothing outside. -/
  | listen
  | poolThrows
  -- how `accept` returns
  | accepts | retries | fails
  -- a worker
  | dequeue | finishes
deriving DecidableEq

/-- `StopAccepting`, up to `server->stop`. -/
def exchangeRunning (s : ServerState) (destructor : Bool) (next : Owner) : ServerState × Effect :=
  if s.isRunning then ({ s with isRunning := false, owner := .stopping destructor }, .stops)
  else ({ s with owner := next }, .quiet)

def afterStop (destructor : Bool) : Owner := if destructor then .joining else .detached

def ownerStep (s : ServerState) : Option (ServerState × Effect) :=
  match s.owner with
  | .registry => none
  | .taken => some (exchangeRunning s false .detached)
  | .stopping destructor =>
    some ({ s with svrSock := none, owner := .closing destructor s.svrSock }, .quiet)
  -- `shutdown` and `close` of what the exchange returned
  | .closing destructor sock =>
    some ({ s with isDecommissioned := false, owner := afterStop destructor }, .closes sock)
  | .detached => some ({ s with owner := .destroying }, .quiet)
  | .destroying => some (exchangeRunning s true .joining)
  | .joining => if s.listener = .over then some ({ s with owner := .freed }, .frees) else none
  | .freed => none

def listenStep (s : ServerState) : Option (ServerState × Effect) :=
  match s.listener with
  | .starting =>
    if s.isDecommissioned ∨ s.svrSock = none then
      some ({ s with isDecommissioned := true, listener := .over }, .quiet)
    else some ({ s with listener := .makingPool }, .quiet)
  | .makingPool => some ({ s with listener := .atLoop }, .quiet)
  | .atLoop =>
    if s.svrSock = none then some ({ s with listener := .draining true }, .quiet)
    else some ({ s with listener := .reading }, .quiet)
  | .reading => some ({ s with listener := .inAccept s.svrSock }, .quiet)
  | .inAccept _ => none
  -- a socket that the user has closed is no failure
  | .failing =>
    if s.svrSock = none then some ({ s with listener := .draining true }, .quiet)
    else some ({ s with listener := .discarding }, .quiet)
  | .discarding => some ({ s with listener := .closing s.svrSock }, .quiet)
  | .closing sock => some ({ s with listener := .draining false }, .closes sock)
  | .draining ret =>
    if s.queued = 0 ∧ s.running = 0 then
      some ({ s with isDecommissioned := !ret, listener := .over }, .quiet)
    else none
  | .threw => some ({ s with isRunning := false, listener := .over }, .quiet)
  | .over => none

/-- `enqueue`; a connection that finds the queue full is closed. -/
def enqueue (cfg : PoolConfig) (s : ServerState) : ServerState :=
  if 0 < cfg.maxPending ∧ cfg.maxPending ≤ s.queued then s else { s with queued := s.queued + 1 }

/-- A step, where the party that takes it has come so far; `opened` are the descriptors of listening
sockets. `accept` returns a connection of an open one only. -/
def serverStep (cfg : PoolConfig) (opened : Nat → Bool) (s : ServerState) :
    ServerAction → Option (ServerState × Effect)
  | .owner => ownerStep s
  | .listen => listenStep s
  -- the first thread of the pool cannot be made
  | .poolThrows =>
    if s.listener = .makingPool then some ({ s with listener := .threw }, .quiet) else none
  | .accepts =>
    match s.listener with
    | .inAccept (some sock) =>
      if opened sock then some (enqueue cfg { s with listener := .atLoop }, .accepts sock) else none
    | _ => none
  -- `EMFILE`, `EINTR` and `EAGAIN`
  | .retries =>
    match s.listener with
    | .inAccept (some sock) =>
      if opened sock then some ({ s with listener := .atLoop }, .quiet) else none
    | _ => none
  | .fails =>
    match s.listener with
    | .inAccept _ => some ({ s with listener := .failing }, .quiet)
    | _ => none
  | .dequeue =>
    if 0 < s.queued ∧ s.running < cfg.workers then
      some ({ s with queued := s.queued - 1, running := s.running + 1 }, .quiet)
    else none
  | .finishes =>
    if 0 < s.running then some ({ s with running := s.running - 1 }, .quiet) else none

def serverKey (host : Str) (port : Int) : Str := host ++ ":".toList ++ Openapi.intText port

def ServerState.key (s : ServerState) : Str := serverKey s.host s.port

def ServerState.registered (s : ServerState) : Bool := decide (s.owner = .registry)

/-- The servers of the map, and those that have left it, with the open listening sockets: a
descriptor, and the place of the server that has bound it. -/
structure Servers where
  all : List ServerState
  sockets : List (Nat × Nat)
  /-- The sockets of servers that were never made: the constructor has bound one and then thrown. -/
  leaked : List Nat

def Servers.map (w : Servers) : List ServerState := w.all.filter ServerState.registered

def Servers.boundBy (w : Servers) (sock : Nat) : Option Nat := w.sockets.lookup sock

def Servers.opened (w : Servers) (sock : Nat) : Bool := (w.boundBy sock).isSome || w.leaked.contains sock

/-- What the constructor comes to. A descriptor that `bind` gives is an unused one. -/
inductive Construction
  | bindFails
  /-- The thread that is to listen cannot be made, and nobody closes the socket. -/
  | threadFails (sock : Nat)
  | listens (sock : Nat)
deriving DecidableEq

inductive ServersAction
  | startServer (host : Str) (port : Int) (made : Construction)
  /-- `StopServer`, with the first of the port that the unordered map comes to. -/
  | stopServer (port : Int) (server : Nat)
  | stopAllServers
  | at (server : Nat) (a : ServerAction)
deriving DecidableEq

structure ServersEvent where
  server : Nat
  effect : Effect
  /-- The server that bound the socket the effect is on, while that is open. -/
  boundBy : Option Nat
deriving DecidableEq

/-- The constructor leaves a running server whose listener is a new thread. -/
def newServer (host : Str) (port : Int) (sock : Nat) : ServerState :=
  ⟨host, port, true, some sock, false, .starting, 0, 0, .registry⟩

def startServer (w : Servers) (host : Str) (port : Int) (made : Construction) : Servers :=
  if (w.map.map ServerState.key).contains (serverKey host port) then w
  else
    match made with
    | .bindFails => w
    | .threadFails sock => if w.opened sock then w else { w with leaked := w.leaked ++ [sock] }
    | .listens sock =>
      if w.opened sock then w
      else
        { w with
          all := w.all ++ [newServer host port sock]
          sockets := w.sockets ++ [(sock, w.all.length)] }

def takeOut (s : ServerState) : ServerState := { s with owner := .taken }

def stopServer (w : Servers) (port : Int) (i : Nat) : Servers :=
  match w.all[i]? with
  | some s => if s.registered ∧ s.port = port then { w with all := w.all.set i (takeOut s) } else w
  | none => w

def stopAllServers (w : Servers) : Servers :=
  { w with all := w.all.map fun s => if s.registered then takeOut s else s }

def Effect.sock : Effect → Option Nat
  | .closes sock => sock
  | .accepts sock => some sock
  | .quiet | .stops | .frees => none

def socketsAfter (sockets : List (Nat × Nat)) : Effect → List (Nat × Nat)
  | .closes (some sock) => sockets.filter fun p => decide (p.1 ≠ sock)
  | .closes none | .quiet | .stops | .accepts _ | .frees => sockets

def leakedAfter (leaked : List Nat) (e : Effect) : List Nat :=
  leaked.filter fun sock => decide (e ≠ .closes (some sock))

def atServer (cfg : PoolConfig) (w : Servers) (i : Nat) (a : ServerAction) :
    Servers × List ServersEvent :=
  match w.all[i]? with
  | none => (w, [])
  | some s =>
    match serverStep cfg w.opened s a with
    | none => (w, [])
    | some (s', effect) =>
      (⟨w.all.set i s', socketsAfter w.sockets effect, leakedAfter w.leaked effect⟩,
        [⟨i, effect, effect.sock.bind w.boundBy⟩])

def serversMachine (cfg : PoolConfig) : Machine Servers ServersAction (List ServersEvent) where
  step w a :=
    match a with
    | .startServer host port made => (startServer w host port made, [])
    | .stopServer port i => (stopServer w port i, [])
    | .stopAllServers => (stopAllServers w, [])
    | .at i a => atServer cfg w i a

def noServers : Servers := ⟨[], [], []⟩

/-- What the server in a place has done, oldest first. -/
def effectsOf (i : Nat) (log : List ServersEvent) : List Effect :=
  (log.filter fun e => decide (e.server = i)).map ServersEvent.effect

end Quackapi.Server
