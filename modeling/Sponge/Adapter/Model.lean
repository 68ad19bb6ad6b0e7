import Sponge.Codec.Ethernet
import Sponge.Codec.Tcp
import Sponge.Interface.Model
import Sponge.System.FileDescriptor

/-!
# Adapters between segments and packets

An adapter turns the segments of a connection into the packets of a device and
back: UDP datagrams, IPv4 datagrams on a TUN device or Ethernet frames on a TAP
device. It fills in the ports and drops what does not belong to its connection;
while it listens it takes over the addresses of the first SYN that it meets. A
lossy adapter wraps another one and drops some of what passes.
-/

namespace Sponge

/-- An IPv4 address with a port. -/
@[ext] structure SocketAddress extends Address where
  port : UInt16
  deriving DecidableEq

structure FdAdapterConfig where
  source : SocketAddress := ⟨⟨0⟩, 0⟩
  destination : SocketAddress := ⟨⟨0⟩, 0⟩
  lossRateDn : UInt16 := 0
  lossRateUp : UInt16 := 0
  deriving DecidableEq

structure FdAdapterBase where
  cfg : FdAdapterConfig := {}
  listen : Bool := false
  deriving DecidableEq

/-- What a socket asks of an adapter: `ρ` is what a system call that reads from its device
returns, `ω` is what is written to it. A read or a tick may also write. -/
class FdAdapter (α : Type) (ρ ω : outParam Type) where
  fd : α → FileDescriptor
  base : α → FdAdapterBase
  setBase : α → FdAdapterBase → α
  read : α → ρ → Except Exception (Option TcpSegment × α × List ω)
  write : α → TcpSegment → Except Exception (α × List ω)
  tick : α → ℕ → α × List ω

namespace FdAdapter

variable {α ρ ω : Type} [FdAdapter α ρ ω]

def config (a : α) : FdAdapterConfig := (base a).cfg

/-- `config_mut() = cfg`. -/
def setConfig (a : α) (cfg : FdAdapterConfig) : α := setBase a { base a with cfg }

def setListening (a : α) (l : Bool) : α := setBase a { base a with listen := l }

end FdAdapter

/-- The segment with the ports of a configuration. -/
def TcpSegment.withPorts (seg : TcpSegment) (cfg : FdAdapterConfig) : TcpSegment :=
  { seg with header := { seg.header with
      sport := cfg.source.port
      dport := cfg.destination.port } }

namespace FdAdapterBase

/-- `TCPOverIPv4Adapter::unwrap_tcp_in_ip`. -/
def unwrapTcpInIp (a : FdAdapterBase) (ipDgram : Ipv4Datagram) :
    Option TcpSegment × FdAdapterBase :=
  -- is the datagram for us, and from our peer?
  if !a.listen && ipDgram.header.dst != a.cfg.source.ipv4Numeric then (none, a)
  else if !a.listen && ipDgram.header.src != a.cfg.destination.ipv4Numeric then (none, a)
  else if ipDgram.header.proto ≠ Ipv4Header.protoTcp then (none, a)
  else
    let (result, tcpSeg) := TcpSegment.parse {} ipDgram.payload ipDgram.header.pseudoCksum
    if result ≠ .noError then (none, a)
    else if tcpSeg.header.dport ≠ a.cfg.source.port then (none, a)
    else if a.listen && !(tcpSeg.header.syn && !tcpSeg.header.rst) then (none, a)
    else
      -- a listening adapter targets the source of the SYN in reply
      let a := if a.listen then
          { cfg := { a.cfg with
              source := ⟨⟨ipDgram.header.dst⟩, a.cfg.source.port⟩
              destination := ⟨⟨ipDgram.header.src⟩, tcpSeg.header.sport⟩ }
            listen := false }
        else a
      if tcpSeg.header.sport ≠ a.cfg.destination.port then (none, a) else (some tcpSeg, a)

/-- `TCPOverIPv4Adapter::wrap_tcp_in_ip`. -/
def wrapTcpInIp (a : FdAdapterBase) (seg : TcpSegment) : Except Exception Ipv4Datagram := do
  let seg := seg.withPorts a.cfg
  let header : Ipv4Header :=
    { src := a.cfg.source.ipv4Numeric, dst := a.cfg.destination.ipv4Numeric }
  let header := { header with
    len := UInt16.ofNat (header.hlen.toNat * 4 + seg.header.doff.toNat * 4 + seg.payload.length) }
  let payload ← seg.serialize header.pseudoCksum
  return { header, payload }

end FdAdapterBase

/-- The limit of a read that is given none. -/
def sizeMax : ℕ := 2 ^ 64 - 1

/-- Segments in IPv4 datagrams on a TUN device, which takes each datagram whole. -/
structure TcpOverIpv4OverTunFdAdapter where
  base : FdAdapterBase := {}
  tun : FileDescriptor := {}

namespace TcpOverIpv4OverTunFdAdapter

def read (a : TcpOverIpv4OverTunFdAdapter) (returned : Except UnixError (List UInt8)) :
    Except Exception (Option TcpSegment × TcpOverIpv4OverTunFdAdapter × List (List UInt8)) := do
  let (bytes, tun) ← a.tun.read sizeMax returned
  let (result, ipDgram) := Ipv4Datagram.parse {} bytes
  if result ≠ .noError then return (none, { a with tun }, [])
  else
    let (seg, base) := a.base.unwrapTcpInIp ipDgram
    return (seg, { base, tun }, [])

def write (a : TcpOverIpv4OverTunFdAdapter) (seg : TcpSegment) :
    Except Exception (TcpOverIpv4OverTunFdAdapter × List (List UInt8)) := do
  let ipDgram ← a.base.wrapTcpInIp seg
  let bytes ← ipDgram.serialize
  return ({ a with tun := a.tun.registerWrite }, [bytes])

instance : FdAdapter TcpOverIpv4OverTunFdAdapter (Except UnixError (List UInt8)) (List UInt8) where
  fd := tun
  base := base
  setBase a base := { a with base }
  read := read
  write := write
  tick a _ := (a, [])

end TcpOverIpv4OverTunFdAdapter

/-- Segments in the payloads of UDP datagrams. A datagram that is read comes with the address of
its source, one that is written with that of its destination. -/
structure TcpOverUdpSocketAdapter where
  base : FdAdapterBase := {}
  sock : FileDescriptor := {}

namespace TcpOverUdpSocketAdapter

/-- `UDPSocket::recv`, with its default size of a datagram. -/
def recv (sock : FileDescriptor) (returned : Except UnixError (SocketAddress × List UInt8)) :
    Except Exception ((SocketAddress × List UInt8) × FileDescriptor) := do
  let datagram ← systemCall "recvfrom" returned
  if datagram.2.length > 65536 then throw (.runtimeError "recvfrom (oversized datagram)")
  return (datagram, sock.registerRead)

def read (a : TcpOverUdpSocketAdapter)
    (returned : Except UnixError (SocketAddress × List UInt8)) :
    Except Exception (Option TcpSegment × TcpOverUdpSocketAdapter ×
      List (SocketAddress × List UInt8)) := do
  let ((sourceAddress, payload), sock) ← recv a.sock returned
  let a := { a with sock }
  -- is it for us?
  if !a.base.listen && sourceAddress != a.base.cfg.destination then return (none, a, [])
  else
    let (result, seg) := TcpSegment.parse {} payload 0
    if result ≠ .noError then return (none, a, [])
    else if a.base.listen then
      -- should we target this source in all future replies?
      if seg.header.syn && !seg.header.rst then
        return (some seg, { a with
          base := { cfg := { a.base.cfg with destination := sourceAddress }, listen := false } },
          [])
      else return (none, a, [])
    else return (some seg, a, [])

def write (a : TcpOverUdpSocketAdapter) (seg : TcpSegment) :
    Except Exception (TcpOverUdpSocketAdapter × List (SocketAddress × List UInt8)) := do
  let payload ← (seg.withPorts a.base.cfg).serialize 0
  return ({ a with sock := a.sock.registerWrite }, [(a.base.cfg.destination, payload)])

instance : FdAdapter TcpOverUdpSocketAdapter (Except UnixError (SocketAddress × List UInt8))
    (SocketAddress × List UInt8) where
  fd := sock
  base := base
  setBase a base := { a with base }
  read := read
  write := write
  tick a _ := (a, [])

end TcpOverUdpSocketAdapter

/-- Segments in IPv4 datagrams in Ethernet frames on a TAP device. -/
structure TcpOverIpv4OverEthernetAdapter where
  base : FdAdapterBase := {}
  tap : FileDescriptor := {}
  interface : NetworkInterface
  nextHop : Address

namespace TcpOverIpv4OverEthernetAdapter

/-- The loop of `send_pending` over the frames that are left. -/
def writeFrames (tap : FileDescriptor) : List EthernetFrame → FileDescriptor × List (List UInt8)
  | [] => (tap, [])
  | frame :: rest =>
    let (tap, written) := writeFrames tap.registerWrite rest
    (tap, frame.serialize.concatenate :: written)

def sendPending (a : TcpOverIpv4OverEthernetAdapter) :
    TcpOverIpv4OverEthernetAdapter × List (List UInt8) :=
  let (tap, written) := writeFrames a.tap a.interface.framesOut
  ({ a with tap, interface := { a.interface with framesOut := [] } }, written)

/-- The frame that primes the device. -/
def dummyFrame : EthernetFrame where
  header := { dst := Vector.replicate 6 0, src := Vector.replicate 6 0, type := 0 }
  payload := []

def new (ethAddress : EthernetAddress) (ipAddress nextHop : Address) :
    TcpOverIpv4OverEthernetAdapter × List (List UInt8) :=
  ({ tap := FileDescriptor.registerWrite {}
     interface := { ethernetAddress := ethAddress, ipAddress := ipAddress }
     nextHop := nextHop }, [dummyFrame.serialize.concatenate])

/-- What `read` does with a frame. -/
def readFrame (a : TcpOverIpv4OverEthernetAdapter) (frame : EthernetFrame) :
    Except Exception
      (Option TcpSegment × TcpOverIpv4OverEthernetAdapter × List (List UInt8)) := do
  let (ipDgram, interface) ← a.interface.recvFrame frame
  -- the frame may have caused the interface to send frames
  let (a, written) := sendPending { a with interface }
  match ipDgram with
  | some ipDgram =>
    let (seg, base) := a.base.unwrapTcpInIp ipDgram
    return (seg, { a with base }, written)
  | none => return (none, a, written)

def read (a : TcpOverIpv4OverEthernetAdapter) (returned : Except UnixError (List UInt8)) :
    Except Exception
      (Option TcpSegment × TcpOverIpv4OverEthernetAdapter × List (List UInt8)) := do
  let (bytes, tap) ← a.tap.read sizeMax returned
  let a := { a with tap }
  let (result, frame) := EthernetFrame.parse dummyFrame bytes
  if result ≠ .noError then return (none, a, []) else a.readFrame frame

def write (a : TcpOverIpv4OverEthernetAdapter) (seg : TcpSegment) :
    Except Exception (TcpOverIpv4OverEthernetAdapter × List (List UInt8)) := do
  let ipDgram ← a.base.wrapTcpInIp seg
  let interface ← a.interface.sendDatagram ipDgram a.nextHop
  return sendPending { a with interface }

def tick (a : TcpOverIpv4OverEthernetAdapter) (msSinceLastTick : ℕ) :
    TcpOverIpv4OverEthernetAdapter × List (List UInt8) :=
  sendPending { a with interface := a.interface.tick msSinceLastTick }

instance : FdAdapter TcpOverIpv4OverEthernetAdapter (Except UnixError (List UInt8))
    (List UInt8) where
  fd := tap
  base := base
  setBase a base := { a with base }
  read := read
  write := write
  tick := tick

end TcpOverIpv4OverEthernetAdapter

/-- Another adapter, some of whose segments are dropped; `rand` gives the numbers of the random
generator, of which `drawn` were used. -/
structure LossyFdAdapter (α : Type) where
  rand : ℕ → UInt32
  drawn : ℕ := 0
  adapter : α

namespace LossyFdAdapter

variable {α ρ ω : Type} [FdAdapter α ρ ω]

/-- A number is drawn only if there is a rate of loss. -/
def shouldDrop (a : LossyFdAdapter α) (uplink : Bool) : Bool × LossyFdAdapter α :=
  let cfg := FdAdapter.config a.adapter
  let loss := if uplink then cfg.lossRateUp else cfg.lossRateDn
  if loss ≠ 0 then
    ((a.rand a.drawn).toUInt16 < loss, { a with drawn := a.drawn + 1 })
  else (false, a)

def read (a : LossyFdAdapter α) (returned : ρ) :
    Except Exception (Option TcpSegment × LossyFdAdapter α × List ω) := do
  let (ret, adapter, written) ← FdAdapter.read a.adapter returned
  let (drop, a) := { a with adapter }.shouldDrop false
  if drop then return (none, a, written) else return (ret, a, written)

def write (a : LossyFdAdapter α) (seg : TcpSegment) :
    Except Exception (LossyFdAdapter α × List ω) := do
  let (drop, a) := a.shouldDrop true
  if drop then return (a, [])
  else
    let (adapter, written) ← FdAdapter.write a.adapter seg
    return ({ a with adapter }, written)

instance : FdAdapter (LossyFdAdapter α) ρ ω where
  fd a := FdAdapter.fd a.adapter
  base a := FdAdapter.base a.adapter
  setBase a base := { a with adapter := FdAdapter.setBase a.adapter base }
  read := read
  write := write
  tick a ms :=
    let (adapter, written) := FdAdapter.tick a.adapter ms
    ({ a with adapter }, written)

end LossyFdAdapter

end Sponge
