import Quackapi.Library.Assoc
import Quackapi.Library.Machine
import Quackapi.Library.Since
import Quackapi.Util.Str

/-! The pool of outbound connections: idle clients by origin, handed out to requests and given back
by them. Each operation on the pool holds its lock, so it is one step; requests are in flight in
between. -/

namespace Quackapi.Outbound
open Library

def maxIdlePerHost : Nat := 64
def maxIdleTotal : Nat := 256
def maxPoolHosts : Nat := 256

def idlePoolTtl : Int := 5 * 60 * 1000000000

abbrev Client := Nat

/-- The bundled client for plain HTTP, or the one of an HTTP implementation that is loaded. -/
inductive Kind
  | plain | util
deriving DecidableEq, Repr

structure PlainOrigin where
  origin : Str
  isPlainHttp : "http://".toList.isPrefixOf (lower origin) = true
deriving DecidableEq

structure UtilOrigin where
  name : Str
  origin : Str
  named : ':' ∉ name ∧ '|' ∉ name
deriving DecidableEq

inductive Origin
  | plain (o : PlainOrigin)
  | util (o : UtilOrigin)
deriving DecidableEq

def Origin.kind : Origin → Kind
  | .plain _ => .plain
  | .util _ => .util

def Origin.key : Origin → Str
  | .plain o => o.origin
  | .util o => o.name ++ '|' :: o.origin

structure HostPool where
  plainIdle : List Client
  utilIdle : List Client
  dialed : Nat
  reused : Nat
  lastUsed : Int
deriving DecidableEq

abbrev Hosts := List (Str × HostPool)

def HostPool.idleOf (host : HostPool) : Kind → List Client
  | .plain => host.plainIdle
  | .util => host.utilIdle

def HostPool.setIdle (host : HostPool) (clients : List Client) : Kind → HostPool
  | .plain => { host with plainIdle := clients }
  | .util => { host with utilIdle := clients }

def HostPool.take (host : HostPool) (kind : Kind) : HostPool :=
  { host.setIdle (host.idleOf kind).dropLast kind with reused := host.reused + 1 }

def HostPool.dial (host : HostPool) : HostPool := { host with dialed := host.dialed + 1 }

def HostPool.put (host : HostPool) (kind : Kind) (c : Client) : HostPool :=
  host.setIdle (host.idleOf kind ++ [c]) kind

/-- The order in which the map of hosts is walked. -/
structure IterationOrder where
  walk : Hosts → Hosts
  perm : ∀ hosts, (walk hosts).Perm hosts

def oldest : Str × HostPool → Hosts → Str × HostPool
  | best, [] => best
  | best, e :: es => oldest (if e.2.lastUsed < best.2.lastUsed then e else best) es

/-- The hosts that are left when one is asked for: none that is expired and, for a new one, not the
oldest of as many as there may be. -/
def evict (order : IterationOrder) (now : Int) (key : Str) (hosts : Hosts) : Hosts :=
  let live := hosts.filter fun e => !decide (idlePoolTtl < now - e.2.lastUsed)
  if (live.lookup key).isNone && decide (maxPoolHosts ≤ live.length) then
    match order.walk live with
    | [] => live
    | e :: es => live.filter fun e' => decide (e'.1 ≠ (oldest e es).1)
  else live

/-- `PoolHost`: the hosts, with the one that is asked for among them. -/
def poolHost (order : IterationOrder) (now : Int) (key : Str) (hosts : Hosts) : Hosts × HostPool :=
  let kept := evict order now key hosts
  match kept.lookup key with
  | some host =>
    (setValue key { host with lastUsed := now } kept, { host with lastUsed := now })
  | none => (kept ++ [(key, ⟨[], [], 0, 0, now⟩)], ⟨[], [], 0, 0, now⟩)

def totalIdleClients (hosts : Hosts) : Nat :=
  sumValues (fun host => host.plainIdle.length + host.utilIdle.length) hosts

/-- A request between its checkout and its end, with the client it holds. -/
structure Flight where
  request : Nat
  origin : Origin
  client : Option Client
deriving DecidableEq

/-- Which client an HTTP implementation leaves in the request's hands. -/
inductive Left
  | same | other | none
deriving DecidableEq

inductive Outcome
  | threw
  /-- The transport has failed, or the caller was interrupted. -/
  | failed
  | healthy (left : Left)
deriving DecidableEq

structure PoolState where
  hosts : Hosts
  flights : List Flight
  /-- The identity of a client that is made next; each step has one of its own. -/
  nextClient : Client
deriving DecidableEq

inductive PoolAction
  | checkout (request : Nat) (origin : Origin) (now : Int)
  | finish (request : Nat) (outcome : Outcome) (now : Int)
  | reset

inductive PoolAnswer
  /-- The client a request starts with, and whether it is one of the pool's. -/
  | handed (origin : Origin) (client : Option Client) (pooled : Bool)
  | returned (origin : Origin) (client : Client)
  | done
deriving DecidableEq

/-- The first half of `WithPlainClient` and of `WithUtilClient`; only the bundled client is dialed
here. -/
def checkout (order : IterationOrder) (s : PoolState) (request : Nat) (origin : Origin) (now : Int) :
    PoolState × PoolAnswer :=
  let (hosts, host) := poolHost order now origin.key s.hosts
  match (host.idleOf origin.kind).getLast? with
  | some client =>
    (⟨setValue origin.key (host.take origin.kind) hosts,
      s.flights ++ [⟨request, origin, some client⟩], s.nextClient + 1⟩,
      .handed origin (some client) true)
  | none =>
    let client := match origin.kind with
      | .plain => some s.nextClient
      | .util => none
    (⟨setValue origin.key host.dial hosts, s.flights ++ [⟨request, origin, client⟩],
      s.nextClient + 1⟩, .handed origin client false)

def returning (s : PoolState) (request : Nat) (outcome : Outcome) : Option (Origin × Client) :=
  match s.flights.find? fun flight => decide (flight.request = request), outcome with
  | some flight, .healthy left =>
    match flight.origin.kind, left with
    | .plain, _ | .util, .same => flight.client.map (flight.origin, ·)
    | .util, .other => some (flight.origin, s.nextClient)
    | .util, .none => none
  | _, _ => none

/-- The second half: a client that does not fit is closed. -/
def finish (order : IterationOrder) (s : PoolState) (request : Nat) (outcome : Outcome) (now : Int) :
    PoolState × PoolAnswer :=
  let rest := { s with
    flights := s.flights.eraseP fun flight => decide (flight.request = request)
    nextClient := s.nextClient + 1 }
  match returning s request outcome with
  | none => (rest, .done)
  | some (origin, client) =>
    let (hosts, host) := poolHost order now origin.key s.hosts
    if (host.idleOf origin.kind).length < maxIdlePerHost ∧ totalIdleClients hosts < maxIdleTotal then
      ({ rest with hosts := setValue origin.key (host.put origin.kind client) hosts },
        .returned origin client)
    else ({ rest with hosts }, .returned origin client)

def poolStep (order : IterationOrder) (s : PoolState) : PoolAction → PoolState × PoolAnswer
  | .checkout request origin now => checkout order s request origin now
  | .finish request outcome now => finish order s request outcome now
  | .reset => ({ s with hosts := [], nextClient := s.nextClient + 1 }, .done)

def connectionPool (order : IterationOrder) : Machine PoolState PoolAction PoolAnswer :=
  ⟨poolStep order⟩

def emptyPool : PoolState := ⟨[], [], 0⟩

end Quackapi.Outbound
