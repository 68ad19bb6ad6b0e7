import Sponge.Reassembler.Model
import Sponge.TcpSegment

/-!
# The TCP receiver

The receiver turns the sequence numbers of segments into stream indices, pushes
the payloads into its reassembler and computes the acknowledgment number.
-/

namespace Sponge

open Lib

structure TcpReceiver where
  reassembler : StreamReassembler
  capacity : ℕ
  ckpt : ℕ := 0
  isn : WrappingInt32 := ⟨0⟩
  ack : WrappingInt32 := ⟨0⟩
  syn : Bool := false
  eof : Bool := false
  finSeen : Bool := false
  /-- The length of the stream, `UINT64_MAX` as long as it is not known. -/
  lenStream : ℕ := 2 ^ 64 - 1
  deriving DecidableEq

namespace TcpReceiver

def new (capacity : ℕ) : TcpReceiver where
  reassembler := StreamReassembler.new capacity
  capacity := capacity

/-- The payload part of the length in sequence space. -/
def lenPayload (seg : TcpSegment) : ℕ :=
  if seg.header.syn && seg.header.fin then sub64 seg.lengthInSequenceSpace 2
  else if seg.header.syn || seg.header.fin then sub64 seg.lengthInSequenceSpace 1
  else seg.lengthInSequenceSpace

/-- The stream index of the first byte of a segment. -/
def startPayload (r : TcpReceiver) (header : TcpHeader) : ℕ :=
  if header.syn then unwrap header.seqno header.seqno r.ckpt
  else sub64 (unwrap header.seqno r.isn r.ckpt) 1

def segmentReceived (r : TcpReceiver) (seg : TcpSegment) : TcpReceiver :=
  let header := seg.header
  if !r.syn && !header.syn then r
  else
    let isn := if header.syn then header.seqno else r.isn
    let startPayload := r.startPayload header
    let finSeen := r.finSeen || header.fin
    let lenStream :=
      if header.fin then add64 startPayload (lenPayload seg) else r.lenStream
    -- The flag stays set for all later segments.
    let eof := r.eof || header.fin
    let reassembler := r.reassembler.pushSubstring seg.payload startPayload eof
    let ckpt := reassembler.streamOut.bytesWritten
    let ended := ckpt == lenStream || (!finSeen && header.fin)
    { r with
      reassembler :=
        if ended then { reassembler with output := reassembler.output.endInput }
        else reassembler
      ckpt := ckpt
      isn := isn
      ack := if ckpt = lenStream then wrap (ckpt + 2) isn else wrap (ckpt + 1) isn
      syn := true
      eof := eof
      finSeen := finSeen
      lenStream := lenStream }

def ackno (r : TcpReceiver) : Option WrappingInt32 := if r.syn then some r.ack else none

def streamOut (r : TcpReceiver) : ByteStream := r.reassembler.streamOut

def windowSize (r : TcpReceiver) : ℕ := sub64 r.capacity r.streamOut.bufferSize

def unassembledBytes (r : TcpReceiver) : ℕ := r.reassembler.unassembledBytes

/-- The inbound stream is marked as failed. -/
def setError (r : TcpReceiver) : TcpReceiver :=
  { r with reassembler := { r.reassembler with output := r.reassembler.output.setError } }

/-- The reader takes `len` bytes from the inbound stream. -/
def readOutput (r : TcpReceiver) (len : ℕ) : TcpReceiver :=
  { r with reassembler := r.reassembler.readOutput len }

end TcpReceiver

end Sponge
