import Sponge.WrappingIntegers

/-!
# TCP segments

The header, the segment and the constants of the configuration. A payload is
the string that the shared buffer of the source exposes.
-/

namespace Sponge

namespace TcpConfig

def defaultCapacity : ℕ := 64000

def maxPayloadSize : ℕ := 1000

def timeoutDflt : UInt16 := 1000

def maxRetxAttempts : ℕ := 8

end TcpConfig

structure TcpConfig where
  rtTimeout : UInt16 := TcpConfig.timeoutDflt
  recvCapacity : ℕ := TcpConfig.defaultCapacity
  sendCapacity : ℕ := TcpConfig.defaultCapacity
  fixedIsn : Option WrappingInt32 := none

structure TcpHeader where
  sport : UInt16 := 0
  dport : UInt16 := 0
  seqno : WrappingInt32 := ⟨0⟩
  ackno : WrappingInt32 := ⟨0⟩
  doff : UInt8 := 5
  urg : Bool := false
  ack : Bool := false
  psh : Bool := false
  rst : Bool := false
  syn : Bool := false
  fin : Bool := false
  win : UInt16 := 0
  cksum : UInt16 := 0
  uptr : UInt16 := 0
  deriving DecidableEq

structure TcpSegment where
  header : TcpHeader := {}
  payload : List UInt8 := []
  deriving DecidableEq

namespace TcpSegment

def lengthInSequenceSpace (seg : TcpSegment) : ℕ :=
  seg.payload.length + (if seg.header.syn then 1 else 0) + (if seg.header.fin then 1 else 0)

theorem lengthInSequenceSpace_of_not_syn {seg : TcpSegment} (h : seg.header.syn = false) :
    seg.lengthInSequenceSpace = seg.payload.length + if seg.header.fin then 1 else 0 := by
  simp [lengthInSequenceSpace, h]

end TcpSegment

end Sponge
