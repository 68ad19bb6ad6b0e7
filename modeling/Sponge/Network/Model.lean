import Sponge.Connection.Model
import Sponge.Lib.Runs

/-!
# Two connections and a network

Two endpoints exchange the segments they queue. A segment taken from a queue
stays on the network for good: it may be delivered at any time, any number of
times or never, but nothing else is delivered.
-/

namespace Sponge

open Lib

/-- A connection with the bytes its owner has written to it and read from it, the segments
that left its queue for the network, and those that were delivered to it. -/
structure Endpoint where
  conn : TcpConnection
  accepted : List UInt8 := []
  taken : List UInt8 := []
  sent : List TcpSegment := []
  arrived : List TcpSegment := []

namespace Endpoint

def new (cfg : TcpConfig) (random : UInt32) : Endpoint where
  conn := TcpConnection.new cfg random

def step (x : Endpoint) (op : TcpConnection.Op) : Endpoint where
  conn := x.conn.step op
  accepted := match op with
    | .write data => x.accepted ++ data.take (x.conn.writeSize data)
    | _ => x.accepted
  taken := match op with
    | .read len => x.taken ++ x.conn.inboundStream.peekOutput len
    | _ => x.taken
  sent := match op with
    | .takeSegment => x.sent ++ x.conn.segmentsOut.head?.toList
    | _ => x.sent
  arrived := match op with
    | .segmentReceived seg => x.arrived ++ [seg]
    | _ => x.arrived

/-- The bytes written to the inbound stream. -/
def bytesWritten (x : Endpoint) : ℕ := x.conn.inboundStream.bytesWritten

/-- The bytes read from the inbound stream, followed by those still buffered there. -/
def delivered (x : Endpoint) : List UInt8 := x.taken ++ x.conn.inboundStream.deq

/-- The SYN of the peer arrived. -/
def synArrived (x : Endpoint) : Bool := x.arrived.any (·.header.syn)

/-- The FIN of the peer arrived. -/
def finArrived (x : Endpoint) : Bool := x.arrived.any (·.header.fin)

/-- Nothing is written after the end of the input, and only segments that the peer `y` put on
the network are delivered. -/
def Permits (x y : Endpoint) : TcpConnection.Op → Prop
  | .write _ => x.conn.sender.streamIn.inputEnded = false
  | .segmentReceived seg => seg ∈ y.sent
  | _ => True

instance (x y : Endpoint) : (op : TcpConnection.Op) → Decidable (x.Permits y op)
  | .write _ => inferInstanceAs (Decidable (_ = false))
  | .segmentReceived _ => inferInstanceAs (Decidable (_ ∈ _))
  | .connect | .endInputStream | .tick _ | .read _ | .takeSegment =>
    inferInstanceAs (Decidable True)

/-- The cumulative position of `y` in the stream of `x`: nothing before the SYN, then the SYN
and the bytes written, and the FIN once it arrived and all bytes are written. -/
def position (x y : Endpoint) : ℕ :=
  if y.synArrived then
    1 + y.bytesWritten +
      if y.finArrived = true ∧ y.bytesWritten = x.accepted.length then 1 else 0
  else 0

end Endpoint

structure Network where
  a : Endpoint
  b : Endpoint

namespace Network

/-- Something happens at one of the endpoints. -/
inductive Event
  | atA (op : TcpConnection.Op)
  | atB (op : TcpConnection.Op)

def new (cfgA cfgB : TcpConfig) (randomA randomB : UInt32) : Network where
  a := Endpoint.new cfgA randomA
  b := Endpoint.new cfgB randomB

def step (n : Network) : Event → Network
  | .atA op => { n with a := n.a.step op }
  | .atB op => { n with b := n.b.step op }

/-- The bytes accepted by both endpoints. -/
def volume (n : Network) : ℕ := n.a.accepted.length + n.b.accepted.length

/-- The endpoint permits the operation, and the total of bytes written stays below the
bound. -/
def Allowed (n : Network) (event : Event) : Prop :=
  (match event with
    | .atA op => n.a.Permits n.b op
    | .atB op => n.b.Permits n.a op) ∧
  (n.step event).volume < 2 ^ 30

instance (n : Network) : (event : Event) → Decidable (n.Allowed event)
  | .atA op => inferInstanceAs (Decidable (n.a.Permits n.b op ∧ _))
  | .atB op => inferInstanceAs (Decidable (n.b.Permits n.a op ∧ _))

end Network

end Sponge
