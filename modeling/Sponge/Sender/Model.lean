import Sponge.ByteStream
import Sponge.TcpSegment

/-!
# The TCP sender

The sender cuts its outgoing byte stream into segments, keeps those not yet
acknowledged, and sends the oldest of them again when its timer expires. The
counters of bytes and sequence numbers are natural numbers; the arithmetic that
can wrap (`_bytes_flying`, the clock, the timeout) is done modulo `2 ^ 64`.
-/

namespace Sponge

open Lib

structure TcpSender where
  isn : WrappingInt32
  segmentsOut : List TcpSegment := []
  initialRetransmissionTimeout : ℕ
  stream : ByteStream
  nextSeqno : ℕ := 0
  currRto : ℕ
  segmentsOutstanding : List TcpSegment := []
  /-- The number after the last one of each outstanding segment. -/
  seqnosAbsOutstanding : List ℕ := []
  timestampsOutstanding : List ℕ := []
  bytesFlying : ℕ := 0
  windowSize : ℕ := 1
  consecRetrans : ℕ := 0
  ackAbs : ℕ := 0
  time : ℕ := 0
  timeFinSent : ℕ := 0
  finSent : Bool := false
  deriving DecidableEq

namespace TcpSender

/-- A sender; `random` stands for the value of the random device. -/
def new (capacity : ℕ) (retxTimeout : UInt16) (fixedIsn : Option WrappingInt32)
    (random : UInt32) : TcpSender where
  isn := fixedIsn.getD ⟨random⟩
  initialRetransmissionTimeout := retxTimeout.toNat
  stream := ByteStream.new capacity
  currRto := retxTimeout.toNat

def bytesInFlight (s : TcpSender) : ℕ := s.bytesFlying

def nextSeqnoAbsolute (s : TcpSender) : ℕ := s.nextSeqno

def nextSeqnoRelative (s : TcpSender) : WrappingInt32 := wrap s.nextSeqno s.isn

def streamIn (s : TcpSender) : ByteStream := s.stream

def consecutiveRetransmissions (s : TcpSender) : ℕ := s.consecRetrans

/-- Queue a segment for sending and remember it, with the number after its last
one and the time. The four send paths share this block. -/
def pushSegment (s : TcpSender) (seg : TcpSegment) : TcpSender :=
  { s with
    segmentsOut := s.segmentsOut ++ [seg]
    segmentsOutstanding := s.segmentsOutstanding ++ [seg]
    seqnosAbsOutstanding := s.seqnosAbsOutstanding ++ [s.nextSeqno]
    timestampsOutstanding := s.timestampsOutstanding ++ [s.time] }

def sendSyn (s : TcpSender) : TcpSender :=
  let seg : TcpSegment := { header := { syn := true, seqno := s.isn } }
  { s with
    bytesFlying := add64 s.bytesFlying 1
    nextSeqno := s.nextSeqno + 1 }.pushSegment seg

def sendFin (s : TcpSender) : TcpSender :=
  let seg : TcpSegment := { header := { fin := true, seqno := s.nextSeqnoRelative } }
  { s with
    bytesFlying := add64 s.bytesFlying 1
    nextSeqno := s.nextSeqno + 1
    finSent := true
    timeFinSent := s.time }.pushSegment seg

/-- The window is closed and nothing is in flight: send one byte. -/
def sendProbe (s : TcpSender) : TcpSender :=
  let (stream, payload) := s.stream.read 1
  let seg : TcpSegment := { header := { seqno := s.nextSeqnoRelative }, payload := payload }
  { s with
    stream := stream
    bytesFlying := add64 s.bytesFlying 1
    nextSeqno := s.nextSeqno + 1 }.pushSegment seg

/-- The size of the next data segment. -/
def sizeSeg (s : TcpSender) : ℕ :=
  min (min s.stream.bufferSize (sub64 s.windowSize s.bytesFlying)) TcpConfig.maxPayloadSize

/-- The body of the loop that fills the window. The FIN rides on the segment
that empties an ended stream if the window has room for it. -/
def sendData (s : TcpSender) : TcpSender :=
  let (stream, payload) := s.stream.read s.sizeSeg
  let bytesFlying := add64 s.bytesFlying s.sizeSeg
  let fin := stream.eof && !s.finSent && decide (s.windowSize > bytesFlying)
  let seg : TcpSegment :=
    { header := { seqno := s.nextSeqnoRelative, fin := fin }, payload := payload }
  if fin then
    { s with
      stream := stream
      bytesFlying := add64 bytesFlying 1
      nextSeqno := s.nextSeqno + 1 + s.sizeSeg
      finSent := true
      timeFinSent := s.time }.pushSegment seg
  else
    { s with
      stream := stream
      bytesFlying := bytesFlying
      nextSeqno := s.nextSeqno + s.sizeSeg }.pushSegment seg

/-- The loop that fills the window; every turn reads at least one byte, so the
number of buffered bytes bounds the number of turns. -/
def fillLoop : ℕ → TcpSender → TcpSender
  | 0, s => s
  | fuel + 1, s =>
    if s.stream.bufferSize > 0 ∧ s.windowSize > s.bytesFlying then
      fillLoop fuel s.sendData
    else s

def fillWindow (s : TcpSender) : TcpSender :=
  if s.nextSeqno = 0 then s.sendSyn
  else if s.stream.eof = true ∧ s.finSent = false ∧
      (s.windowSize > s.bytesFlying ∨ (s.windowSize = 0 ∧ s.bytesFlying = 0)) then
    s.sendFin
  else if s.stream.bufferSize > 0 ∧ s.windowSize = 0 ∧ s.bytesFlying = 0 then s.sendProbe
  else fillLoop s.stream.bufferSize s

/-- Drop the outstanding segments that end at or before `ackAbs`. -/
def popAcked (ackAbs : ℕ) : List ℕ → List TcpSegment → List ℕ →
    List ℕ × List TcpSegment × List ℕ
  | [], segs, times => ([], segs, times)
  | e :: ends, segs, times =>
    if ackAbs ≥ e then popAcked ackAbs ends segs.tail times.tail
    else (e :: ends, segs, times)

/-- The state after a new acknowledgment, before the window is filled again. -/
def acceptAck (s : TcpSender) (ackAbs : ℕ) : TcpSender :=
  let popped := popAcked ackAbs s.seqnosAbsOutstanding s.segmentsOutstanding
    s.timestampsOutstanding
  { s with
    currRto := s.initialRetransmissionTimeout
    bytesFlying := sub64 s.bytesFlying (ackAbs - s.ackAbs)
    ackAbs := ackAbs
    consecRetrans := 0
    seqnosAbsOutstanding := popped.1
    segmentsOutstanding := popped.2.1
    timestampsOutstanding := popped.2.2.map fun _ ↦ s.time }

/-- The absolute number that the sender reads off an acknowledgment. -/
def absoluteAckno (s : TcpSender) (ackno : WrappingInt32) : ℕ :=
  unwrap ackno s.isn s.stream.bytesRead

/-- The acknowledgment is of something never sent, or of nothing new. -/
def Useless (s : TcpSender) (ackAbs : ℕ) : Prop :=
  ackAbs > s.stream.bytesRead + 2 ∨ ackAbs ≤ s.ackAbs ∨
    (s.finSent = false ∧ ackAbs > s.stream.bytesRead + 1)

instance (s : TcpSender) (ackAbs : ℕ) : Decidable (s.Useless ackAbs) :=
  inferInstanceAs (Decidable (_ ∨ _ ∨ _))

def ackReceived (s : TcpSender) (ackno : WrappingInt32) (windowSize : UInt16) : TcpSender :=
  let ackAbs := s.absoluteAckno ackno
  -- The window is overwritten before the acknowledgment is checked.
  let s := { s with windowSize := windowSize.toNat }
  if s.Useless ackAbs then s
  else
    let s := s.acceptAck ackAbs
    if (s.windowSize > s.bytesFlying ∨ (s.windowSize = 0 ∧ s.bytesFlying = 0)) ∧
        s.finSent = false then
      s.fillWindow
    else s

def tick (s : TcpSender) (msSinceLastTick : ℕ) : TcpSender :=
  match s.timestampsOutstanding with
  | [] => s
  | first :: rest =>
    let s := { s with time := add64 s.time msSinceLastTick }
    if sub64 s.time first ≥ s.currRto then
      let s := { s with
        segmentsOut := s.segmentsOut ++ s.segmentsOutstanding.head?.toList
        timestampsOutstanding := s.time :: rest }
      if s.windowSize ≠ 0 then
        { s with
          consecRetrans := (s.consecRetrans + 1) % 2 ^ 32
          currRto := mul64 s.currRto 2 }
      else s
    else s

/-- The outgoing stream is marked as failed. -/
def setError (s : TcpSender) : TcpSender := { s with stream := s.stream.setError }

def sendEmptySegment (s : TcpSender) : TcpSender :=
  { s with segmentsOut := s.segmentsOut ++ [{ header := { seqno := s.nextSeqnoRelative } }] }

/-- What can happen to a sender. The owner of the sender takes segments from the
front of its queue. -/
inductive Op
  | write (data : List UInt8)
  | endInput
  | fillWindow
  | ackReceived (ackno : WrappingInt32) (windowSize : UInt16)
  | tick (msSinceLastTick : ℕ)
  | sendEmptySegment
  | takeSegment

def step (s : TcpSender) : Op → TcpSender
  | .write data => { s with stream := s.stream.write data }
  | .endInput => { s with stream := s.stream.endInput }
  | .fillWindow => s.fillWindow
  | .ackReceived ackno windowSize => s.ackReceived ackno windowSize
  | .tick ms => s.tick ms
  | .sendEmptySegment => s.sendEmptySegment
  | .takeSegment => { s with segmentsOut := s.segmentsOut.tail }

end TcpSender

end Sponge
