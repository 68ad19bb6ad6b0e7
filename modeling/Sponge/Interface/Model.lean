import Sponge.Lib.Word64
import Sponge.Codec.Arp
import Sponge.Codec.Ipv4

/-!
# Network interfaces

An interface sends datagrams in Ethernet frames. It resolves the next hop by
ARP: while the Ethernet address of a next hop is unknown its datagrams wait in a
queue, one request is sent every five seconds, and a learned address is kept for
thirty seconds. A map of the source is a function that is `none` (for the
queues: empty) where the map has no entry.
-/

namespace Sponge

open Lib

/-- An IPv4 address; the port is never read. -/
structure Address where
  ipv4Numeric : UInt32
  deriving DecidableEq

structure NetworkInterface where
  ip2eth : UInt32 → Option EthernetAddress := fun _ ↦ none
  ip2dgrams : UInt32 → List Ipv4Datagram := fun _ ↦ []
  timestampsArp : UInt32 → Option ℕ := fun _ ↦ none
  timestampsPair : List ((UInt32 × EthernetAddress) × ℕ) := []
  time : ℕ := 0
  ethernetAddress : EthernetAddress
  ipAddress : Address
  framesOut : List EthernetFrame := []

namespace NetworkInterface

/-- The target of a request, under the name it has in the source. -/
def addrBroadcast : EthernetAddress := Vector.replicate 6 0

def pushFrame (n : NetworkInterface) (frame : EthernetFrame) : NetworkInterface :=
  { n with framesOut := n.framesOut ++ [frame] }

/-- A frame from this interface with a datagram's bytes. -/
def ipv4Frame (n : NetworkInterface) (dst : EthernetAddress) (payload : List UInt8) :
    EthernetFrame :=
  { header := { dst, src := n.ethernetAddress, type := EthernetHeader.typeIpv4 }, payload }

def sendArp (n : NetworkInterface) (opcode : UInt16) (targetIp : UInt32)
    (targetEth : EthernetAddress) : Except Exception NetworkInterface := do
  let msg : ArpMessage :=
    { opcode
      senderIpAddress := n.ipAddress.ipv4Numeric
      senderEthernetAddress := n.ethernetAddress
      targetIpAddress := targetIp
      targetEthernetAddress := targetEth }
  let payload ← msg.serialize
  return n.pushFrame
    { header :=
        { dst := if opcode = ArpMessage.opcodeReply then targetEth else ethernetBroadcast
          src := n.ethernetAddress
          type := EthernetHeader.typeArp }
      payload }

/-- The frame that `sendArp` pushes. -/
def arpFrame (n : NetworkInterface) (opcode : UInt16) (targetIp : UInt32)
    (targetEth : EthernetAddress) : EthernetFrame :=
  { header :=
      { dst := if opcode = ArpMessage.opcodeReply then targetEth else ethernetBroadcast
        src := n.ethernetAddress
        type := EthernetHeader.typeArp }
    payload := ArpMessage.bytes
      { opcode
        senderIpAddress := n.ipAddress.ipv4Numeric
        senderEthernetAddress := n.ethernetAddress
        targetIpAddress := targetIp
        targetEthernetAddress := targetEth } }

/-- Requests and replies are written without an exception. -/
theorem sendArp_eq (n : NetworkInterface) {opcode : UInt16} (ip : UInt32)
    (eth : EthernetAddress)
    (h : opcode = ArpMessage.opcodeRequest ∨ opcode = ArpMessage.opcodeReply) :
    n.sendArp opcode ip eth = .ok (n.pushFrame (n.arpFrame opcode ip eth)) := by
  rw [sendArp, ArpMessage.serialize_eq ⟨rfl, rfl, rfl, rfl, h⟩]
  rfl

/-- `ip2dgrams[ip].push(dgram)`. -/
def enqueue (n : NetworkInterface) (ip : UInt32) (dgram : Ipv4Datagram) : NetworkInterface :=
  { n with ip2dgrams := Function.update n.ip2dgrams ip (n.ip2dgrams ip ++ [dgram]) }

@[simp] theorem enqueue_ip2dgrams_self (n : NetworkInterface) (ip : UInt32)
    (dgram : Ipv4Datagram) :
    (n.enqueue ip dgram).ip2dgrams ip = n.ip2dgrams ip ++ [dgram] :=
  Function.update_self _ _ _

theorem enqueue_ip2dgrams_of_ne (n : NetworkInterface) {ip x : UInt32} (h : x ≠ ip)
    (dgram : Ipv4Datagram) : (n.enqueue ip dgram).ip2dgrams x = n.ip2dgrams x :=
  Function.update_of_ne h _ _

def sendDatagram (n : NetworkInterface) (dgram : Ipv4Datagram) (nextHop : Address) :
    Except Exception NetworkInterface :=
  let nextHopIp := nextHop.ipv4Numeric
  match n.ip2eth nextHopIp with
  | some eth => do
    let payload ← dgram.serialize
    return n.pushFrame (n.ipv4Frame eth payload)
  | none =>
    let n := n.enqueue nextHopIp dgram
    -- a request was sent and is still waited for
    if (n.timestampsArp nextHopIp).any (fun sent ↦ sub64 n.time sent < 5000) then return n
    else
      let n := { n with
        timestampsArp := Function.update n.timestampsArp nextHopIp (some n.time) }
      n.sendArp ArpMessage.opcodeRequest nextHopIp addrBroadcast

/-- The loop that sends what waits for `ip`, from the front of its queue on. -/
def sendQueued (n : NetworkInterface) (ip : UInt32) (eth : EthernetAddress) :
    List Ipv4Datagram → Except Exception NetworkInterface
  | [] => return { n with ip2dgrams := Function.update n.ip2dgrams ip [] }
  | dgram :: rest => do
    let payload ← dgram.serialize
    ((n.pushFrame (n.ipv4Frame eth payload)).sendQueued ip eth rest)

/-- Records the address of `ip` unless one is known. -/
def remember (n : NetworkInterface) (ip : UInt32) (eth : EthernetAddress) :
    NetworkInterface :=
  if (n.ip2eth ip).isNone then
    { n with
      timestampsPair := n.timestampsPair ++ [((ip, eth), n.time)]
      ip2eth := Function.update n.ip2eth ip (some eth) }
  else n

/-- `timestamps_arp.erase(ip)`. -/
def eraseArp (n : NetworkInterface) (ip : UInt32) : NetworkInterface :=
  { n with timestampsArp := Function.update n.timestampsArp ip none }

/-- Learns the sender of a message and sends what waited for it. -/
def learn (n : NetworkInterface) (ip : UInt32) (eth : EthernetAddress) :
    Except Exception NetworkInterface :=
  let n := n.remember ip eth
  if (n.timestampsArp ip).isSome then
    let n := n.eraseArp ip
    n.sendQueued ip ((n.ip2eth ip).getD addrBroadcast) (n.ip2dgrams ip)
  else return n

section

variable (n : NetworkInterface) (ip : UInt32) (eth : EthernetAddress)

@[simp] theorem remember_ip2dgrams : (n.remember ip eth).ip2dgrams = n.ip2dgrams := by
  rw [remember]
  split_ifs <;> rfl

@[simp] theorem remember_timestampsArp :
    (n.remember ip eth).timestampsArp = n.timestampsArp := by
  rw [remember]
  split_ifs <;> rfl

@[simp] theorem remember_framesOut : (n.remember ip eth).framesOut = n.framesOut := by
  rw [remember]
  split_ifs <;> rfl

theorem remember_ip2eth_of_ne {x : UInt32} (h : x ≠ ip) :
    (n.remember ip eth).ip2eth x = n.ip2eth x := by
  rw [remember]
  split_ifs
  · exact Function.update_of_ne h _ _
  · rfl

end

/-- Frames that do not carry a datagram for this interface are read as ARP
messages, whatever their type and destination. -/
def recvFrame (n : NetworkInterface) (frame : EthernetFrame) :
    Except Exception (Option Ipv4Datagram × NetworkInterface) :=
  if frame.header.type = EthernetHeader.typeIpv4 ∧ frame.header.dst = n.ethernetAddress then
    let (result, dgram) := Ipv4Datagram.parse {} frame.payload
    if result = .noError then return (some dgram, n) else return (none, n)
  else
    let (result, msg) := ArpMessage.parse {} frame.payload
    if result ≠ .noError then return (none, n)
    else do
      let n ← n.learn msg.senderIpAddress msg.senderEthernetAddress
      if msg.opcode = ArpMessage.opcodeRequest ∧
          msg.targetIpAddress = n.ipAddress.ipv4Numeric then
        return (none, ← n.sendArp ArpMessage.opcodeReply msg.senderIpAddress
          msg.senderEthernetAddress)
      else return (none, n)

/-- The loop that forgets mappings older than thirty seconds, oldest first. -/
def expire (n : NetworkInterface) :
    List ((UInt32 × EthernetAddress) × ℕ) → NetworkInterface
  | [] => { n with timestampsPair := [] }
  | curr :: rest =>
    if sub64 n.time curr.2 > 30000 then
      expire { n with ip2eth := Function.update n.ip2eth curr.1.1 none } rest
    else { n with timestampsPair := curr :: rest }

def tick (n : NetworkInterface) (msSinceLastTick : ℕ) : NetworkInterface :=
  let n := { n with time := add64 n.time msSinceLastTick }
  n.expire n.timestampsPair

end NetworkInterface

end Sponge
