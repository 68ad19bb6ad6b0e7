import Sponge.Lib.BitTrie
import Sponge.Interface.Model

/-!
# The router

Routes are kept in a binary trie over the leading bits of the destination. To
route a datagram the trie is walked down along the destination; where the walk
gets stuck inside the trie it falls back to the last node on its way that holds a
route.
-/

namespace Sponge

open Lib

/-- A node without its two pointers; a null pointer is `BitTrie.null`. -/
structure NodeData where
  numInterface : ℕ := 0
  data : Option Address := none
  hasData : Bool := false
  deriving DecidableEq

abbrev Node := BitTrie NodeData

namespace Bst

def root : Node := .node {} .null .null

def insert : Node → UInt32 → ℕ → ℕ → Option Address → Node
  | .null, _, _, _, _ => .null -- never called on a null pointer
  | .node _ left right, _, 0, num, addr =>
    .node { numInterface := num, data := addr, hasData := true } left right
  | .node data left right, routePrefix, len + 1, num, addr =>
    if routePrefix >>> 31 = 0 then
      .node data (insert (left.grow {}) (routePrefix <<< 1) len num addr) right
    else
      .node data left (insert (right.grow {}) (routePrefix <<< 1) len num addr)

end Bst

structure AsyncNetworkInterface extends NetworkInterface where
  datagramsOut : List Ipv4Datagram := []

/-- A datagram that was received is kept for the owner. -/
def AsyncNetworkInterface.recvFrame (interface : AsyncNetworkInterface)
    (frame : EthernetFrame) : Except Exception AsyncNetworkInterface := do
  let (optionalDgram, n) ← interface.toNetworkInterface.recvFrame frame
  match optionalDgram with
  | some dgram =>
    return { toNetworkInterface := n, datagramsOut := interface.datagramsOut ++ [dgram] }
  | none => return { interface with toNetworkInterface := n }

structure Router where
  root : Node := Bst.root
  interfaces : List AsyncNetworkInterface := []

namespace Router

def addRoute (r : Router) (routePrefix : UInt32) (prefixLength : UInt8)
    (nextHop : Option Address) (interfaceNum : ℕ) : Router :=
  { r with root := Bst.insert r.root routePrefix prefixLength.toNat interfaceNum nextHop }

/-- The data of a node; null pointers are never asked. -/
def nodeData : Node → NodeData
  | .null => {}
  | .node data _ _ => data

/-- The loop over the bits of the destination, the next one to look at being `i`. -/
def walk (ip : UInt32) : ℕ → Node → Node → Node
  | 0, curr, _ => curr
  | _ + 1, .null, _ => .null -- `curr` is never a null pointer
  | i + 1, .node data left right, validParent =>
    if ip &&& (1 <<< UInt32.ofNat i) = 0 then
      match left with
      | .null =>
        -- inside the trie the prefix does not match fully
        match right with
        | .null => .node data left right
        | .node .. => validParent
      | .node data' _ _ => walk ip i left (if data'.hasData then left else validParent)
    else
      match right with
      | .null =>
        match left with
        | .null => .node data left right
        | .node .. => validParent
      | .node data' _ _ => walk ip i right (if data'.hasData then right else validParent)

/-- `interface(num).send_datagram(dgram, next_hop)`. -/
def sendOn (r : Router) (num : ℕ) (dgram : Ipv4Datagram) (nextHop : Address) :
    Except Exception Router :=
  match r.interfaces[num]? with
  | none => throw (.outOfRange "vector::at")
  | some interface => do
    let n ← interface.toNetworkInterface.sendDatagram dgram nextHop
    let interface := { interface with toNetworkInterface := n }
    return { r with interfaces := r.interfaces.set num interface }

def routeOneDatagram (r : Router) (dgram : Ipv4Datagram) : Except Exception Router :=
  let ip := dgram.header.dst
  let curr := nodeData (walk ip 32 r.root r.root)
  if dgram.header.ttl < 2 then return r
  else
    let dgram := { dgram with header := { dgram.header with ttl := dgram.header.ttl - 1 } }
    match curr.data with
    | some nextHop => r.sendOn curr.numInterface dgram nextHop
    | none => r.sendOn curr.numInterface dgram ⟨ip⟩

/-- The queue of datagrams that interface `k` received. -/
def datagramsOut (r : Router) (k : ℕ) : List Ipv4Datagram :=
  (r.interfaces[k]?).elim [] (·.datagramsOut)

/-- `queue.pop()` on the queue of interface `k`. -/
def popDatagram (r : Router) (k : ℕ) : Router :=
  match r.interfaces[k]? with
  | none => r -- never called without an interface
  | some interface =>
    let interface := { interface with datagramsOut := interface.datagramsOut.tail }
    { r with interfaces := r.interfaces.set k interface }

/-- The loop over the queue of interface `k`; routing a datagram changes no queue. -/
def routeQueue (r : Router) (k : ℕ) : List Ipv4Datagram → Except Exception Router
  | [] => return r
  | dgram :: rest => do
    let r ← r.routeOneDatagram dgram
    (r.popDatagram k).routeQueue k rest

def route (r : Router) : Except Exception Router :=
  (List.range r.interfaces.length).foldlM (fun r k ↦ r.routeQueue k (r.datagramsOut k)) r

end Router

end Sponge
