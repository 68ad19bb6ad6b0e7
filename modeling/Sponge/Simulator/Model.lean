import Sponge.Router.Model

/-!
# The network simulator

A router and some hosts are joined by links that lose nothing: in each round the
router routes, and then the stations of each link hear the frames that the others
had ready. A host keeps a list of the datagrams it expects and complains when one
arrives that is not on it, or when one is missing in the end. The Ethernet
addresses and the payloads, which are random, are parameters.
-/

namespace Sponge.NetworkSimulator

open Lib

/-- What the program stops with; the two complaints of a host are errors of their own. -/
inductive Failure (ν : Type) where
  | thrown (e : Exception)
  | receivedUnexpected (name : ν) (dgram : Ipv4Datagram)
  | didNotReceive (name : ν) (dgram : Ipv4Datagram)
  deriving DecidableEq

structure Host where
  myAddress : Address
  interface : AsyncNetworkInterface
  nextHop : Address
  expectingToReceive : List Ipv4Datagram := []

namespace Host

def expecting (expected : Ipv4Datagram) : List Ipv4Datagram → Except Exception Bool
  | [] => return false
  | x :: rest => do
    if (← x.serialize) = (← expected.serialize) then return true else expecting expected rest

/-- The list without the first datagram of the same bytes. -/
def removeExpectation (expected : Ipv4Datagram) :
    List Ipv4Datagram → Except Exception (List Ipv4Datagram)
  | [] => return []
  | x :: rest => do
    if (← x.serialize) = (← expected.serialize) then return rest
    else return x :: (← removeExpectation expected rest)

/-- The datagram that `send_to` makes. -/
def datagram (host : Host) (destination : Address) (ttl : UInt8) (payload : List UInt8) :
    Ipv4Datagram where
  header :=
    { src := host.myAddress.ipv4Numeric
      dst := destination.ipv4Numeric
      len := UInt16.ofNat (20 + payload.length)
      ttl }
  payload

def sendTo (host : Host) (destination : Address) (ttl : UInt8) (payload : List UInt8) :
    Except Exception (Ipv4Datagram × Host) := do
  let dgram := host.datagram destination ttl payload
  let n ← host.interface.sendDatagram dgram host.nextHop
  return (dgram, { host with interface := { host.interface with toNetworkInterface := n } })

def expect (host : Host) (expected : Ipv4Datagram) : Host :=
  { host with expectingToReceive := host.expectingToReceive ++ [expected] }

section check

variable {ν : Type} (name : ν)

/-- The loop over what was received; what is left was expected and did not arrive. -/
def checkReceived : List Ipv4Datagram → List Ipv4Datagram →
    Except (Failure ν) (List Ipv4Datagram)
  | [], expected => return expected
  | dgramReceived :: rest, expected => do
    if !(← (expecting dgramReceived expected).mapError .thrown) then
      throw (.receivedUnexpected name dgramReceived)
    let expected ← (removeExpectation dgramReceived expected).mapError .thrown
    checkReceived rest expected

def check (host : Host) : Except (Failure ν) Host := do
  match ← checkReceived name host.interface.datagramsOut host.expectingToReceive with
  | [] =>
    return { host with
      interface := { host.interface with datagramsOut := [] }
      expectingToReceive := [] }
  | expected :: _ => throw (.didNotReceive name expected)

end check

end Host

def deliver (src : List EthernetFrame) (dst : AsyncNetworkInterface) :
    Except Exception AsyncNetworkInterface :=
  src.foldlM AsyncNetworkInterface.recvFrame dst

/-- As many frames as `queue1` has are popped. -/
def clear (queue1 : List EthernetFrame) (n : AsyncNetworkInterface) : AsyncNetworkInterface :=
  { n with framesOut := n.framesOut.drop queue1.length }

def exchangeFrames (x y : AsyncNetworkInterface) :
    Except Exception (AsyncNetworkInterface × AsyncNetworkInterface) := do
  let xFrames := x.framesOut
  let yFrames := y.framesOut
  let y ← deliver xFrames y
  let x ← deliver yFrames x
  return (clear xFrames x, clear yFrames y)

/-- The overload for a link with three stations. -/
def exchangeFrames₃ (x y z : AsyncNetworkInterface) :
    Except Exception (AsyncNetworkInterface × AsyncNetworkInterface × AsyncNetworkInterface) := do
  let xFrames := x.framesOut
  let yFrames := y.framesOut
  let zFrames := z.framesOut
  let y ← deliver xFrames y
  let z ← deliver xFrames z
  let x ← deliver yFrames x
  let z ← deliver yFrames z
  let x ← deliver zFrames x
  let y ← deliver zFrames y
  return (clear xFrames x, clear yFrames y, clear zFrames z)

/-- A link joins an interface of the router with one host or two. -/
inductive Link (m : ℕ) (ν : Type) where
  | pair (id : Fin m) (host : ν)
  | triple (id : Fin m) (host host' : ν)

structure Network (ν : Type) where
  router : Router
  hosts : ν → Host

namespace Network

variable {m : ℕ} {ν : Type} [DecidableEq ν]

/-- `router.interface(id)`. -/
def interface (net : Network ν) (id : ℕ) : Except Exception AsyncNetworkInterface :=
  match net.router.interfaces[id]? with
  | some n => return n
  | none => throw (.outOfRange "vector::at")

def setInterface (net : Network ν) (id : ℕ) (n : AsyncNetworkInterface) : Network ν :=
  { net with router := { net.router with interfaces := net.router.interfaces.set id n } }

def setHost (net : Network ν) (name : ν) (host : Host) : Network ν :=
  { net with hosts := Function.update net.hosts name host }

def setHostInterface (net : Network ν) (name : ν) (n : AsyncNetworkInterface) : Network ν :=
  net.setHost name { net.hosts name with interface := n }

def simulatePhysicalConnection (net : Network ν) : Link m ν → Except Exception (Network ν)
  | .pair id host => do
    let (x, y) ← exchangeFrames (← net.interface id) (net.hosts host).interface
    return (net.setInterface id x).setHostInterface host y
  | .triple id host host' => do
    let (x, y, z) ← exchangeFrames₃ (← net.interface id) (net.hosts host).interface
      (net.hosts host').interface
    return ((net.setInterface id x).setHostInterface host y).setHostInterface host' z

def simulatePhysicalConnections (links : List (Link m ν)) (net : Network ν) :
    Except Exception (Network ν) :=
  links.foldlM simulatePhysicalConnection net

/-- One turn of the loop of `simulate`. -/
def round (links : List (Link m ν)) (net : Network ν) : Except Exception (Network ν) := do
  let router ← net.router.route
  simulatePhysicalConnections links { net with router }

def rounds (links : List (Link m ν)) : ℕ → Network ν → Except Exception (Network ν)
  | 0, net => return net
  | n + 1, net => do rounds links n (← net.round links)

def checkHost (net : Network ν) (name : ν) : Except (Failure ν) (Network ν) := do
  return net.setHost name (← (net.hosts name).check name)

/-- The hosts are checked in the order of `names`. -/
def simulate (links : List (Link m ν)) (names : List ν) (net : Network ν) :
    Except (Failure ν) (Network ν) := do
  let net ← (net.rounds links 256).mapError .thrown
  names.foldlM checkHost net

def sendTo (net : Network ν) (name : ν) (destination : Address) (ttl : UInt8)
    (payload : List UInt8) : Except Exception (Ipv4Datagram × Network ν) := do
  let (dgram, host) ← (net.hosts name).sendTo destination ttl payload
  return (dgram, net.setHost name host)

end Network

end Sponge.NetworkSimulator
