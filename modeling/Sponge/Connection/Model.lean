import Sponge.TcpState

/-!
# The TCP connection

An endpoint owns a sender and a receiver. It relays the acknowledgments of
arriving segments to the one and the segments to the other, and stamps what the
sender queues with the acknowledgment of its own receiver.
-/

namespace Sponge

open Lib

structure TcpConnection where
  cfg : TcpConfig
  receiver : TcpReceiver
  sender : TcpSender
  segmentsOut : List TcpSegment := []
  lingerAfterStreamsFinish : Bool := true
  timeLastSegmentReceived : ℕ := 0
  time : ℕ := 0
  rstReceived : Bool := false
  rstToSend : Bool := false
  connectCalled : Bool := false

namespace TcpConnection

/-- A connection; `random` stands for the value of the random device. -/
def new (cfg : TcpConfig) (random : UInt32) : TcpConnection where
  cfg := cfg
  receiver := TcpReceiver.new cfg.recvCapacity
  sender := TcpSender.new cfg.sendCapacity cfg.rtTimeout cfg.fixedIsn random

def remainingOutboundCapacity (c : TcpConnection) : ℕ := c.sender.streamIn.remainingCapacity

def bytesInFlight (c : TcpConnection) : ℕ := c.sender.bytesInFlight

def unassembledBytes (c : TcpConnection) : ℕ := c.receiver.unassembledBytes

def timeSinceLastSegmentReceived (c : TcpConnection) : ℕ :=
  sub64 c.time c.timeLastSegmentReceived

def inboundStream (c : TcpConnection) : ByteStream := c.receiver.streamOut

def active (c : TcpConnection) : Bool :=
  if c.rstReceived || c.rstToSend then false
  else if c.receiver.streamOut.eof && c.bytesInFlight == 0 && c.sender.streamIn.eof then
    if !c.lingerAfterStreamsFinish then false
    else !decide (c.timeSinceLastSegmentReceived ≥ 10 * c.cfg.rtTimeout.toNat)
  else true

def state (c : TcpConnection) : TcpState :=
  TcpState.new c.sender c.receiver c.active c.lingerAfterStreamsFinish

/-- A segment with the acknowledgment and the window of a receiver. -/
def stamp (receiver : TcpReceiver) (rstToSend : Bool) (seg : TcpSegment) : TcpSegment :=
  let seg := match receiver.ackno with
    | some ackno =>
      { seg with header := { seg.header with
          ack := true
          ackno := ackno
          win := UInt16.ofNat (min receiver.windowSize (2 ^ 16 - 1)) } }
    | none => seg
  if rstToSend then { seg with header := { seg.header with rst := true } } else seg

/-- Transfer the segments of the sender to the queue of the connection. -/
def sendSegments (c : TcpConnection) : TcpConnection :=
  { c with
    segmentsOut := c.segmentsOut ++ c.sender.segmentsOut.map (stamp c.receiver c.rstToSend)
    sender := { c.sender with segmentsOut := [] } }

def connect (c : TcpConnection) : TcpConnection :=
  { c with connectCalled := true, sender := c.sender.fillWindow }.sendSegments

/-- Both streams are marked as failed. -/
def setErrors (c : TcpConnection) : TcpConnection :=
  { c with sender := c.sender.setError, receiver := c.receiver.setError }

def relayAck (c : TcpConnection) (seg : TcpSegment) : TcpConnection :=
  if seg.header.ack then
    { c with sender := c.sender.ackReceived seg.header.ackno seg.header.win }
  else c

def passToReceiver (c : TcpConnection) (seg : TcpSegment) : TcpConnection :=
  if seg.lengthInSequenceSpace ≠ 0 then
    { c with receiver := c.receiver.segmentReceived seg }
  else c

def resetBy (c : TcpConnection) (seg : TcpSegment) : TcpConnection :=
  if seg.header.rst && c.connectCalled && c.active then
    { c with rstReceived := true }.setErrors
  else c

/-- A segment is answered if it occupies a number, or if it is a keep-alive. -/
def answers (c : TcpConnection) (seg : TcpSegment) : Bool :=
  (match c.receiver.ackno with
    | some ackno =>
      seg.lengthInSequenceSpace == 0 && seg.header.seqno == ackno.sub 1
    | none => false) || decide (seg.lengthInSequenceSpace > 0)

def answer (c : TcpConnection) (seg : TcpSegment) : TcpConnection :=
  if c.answers seg then { c with sender := c.sender.sendEmptySegment } else c

def stopLingering (c : TcpConnection) (seg : TcpSegment) : TcpConnection :=
  if seg.header.fin && !c.sender.streamIn.eof then
    { c with lingerAfterStreamsFinish := false }
  else c

def segmentReceived (c : TcpConnection) (seg : TcpSegment) : TcpConnection :=
  let c := (c.relayAck seg).passToReceiver seg
  if seg.header.syn && !seg.header.ack && !c.connectCalled then c.connect
  else
    let c := c.resetBy seg
    let c := { c with timeLastSegmentReceived := c.time }
    ((c.answer seg).stopLingering seg).sendSegments

/-- The number of bytes of `data` that `write` accepts. -/
def writeSize (c : TcpConnection) (data : List UInt8) : ℕ := c.sender.stream.writeSize data

def write (c : TcpConnection) (data : List UInt8) : TcpConnection :=
  { c with
    sender := { c.sender with stream := c.sender.stream.write data }.fillWindow }.sendSegments

def tick (c : TcpConnection) (msSinceLastTick : ℕ) : TcpConnection :=
  let c := { c with
    time := add64 c.time msSinceLastTick
    sender := c.sender.tick msSinceLastTick }
  let c := if c.sender.consecutiveRetransmissions > TcpConfig.maxRetxAttempts then
    { c with rstToSend := true }.setErrors
  else c
  c.sendSegments

def endInputStream (c : TcpConnection) : TcpConnection :=
  { c with
    sender := { c.sender with stream := c.sender.stream.endInput }.fillWindow }.sendSegments

/-- What can happen to a connection. Its owner reads the inbound stream and takes segments
from the front of the queue. -/
inductive Op
  | connect
  | write (data : List UInt8)
  | endInputStream
  | tick (msSinceLastTick : ℕ)
  | read (len : ℕ)
  | segmentReceived (seg : TcpSegment)
  | takeSegment

def step (c : TcpConnection) : Op → TcpConnection
  | .connect => c.connect
  | .write data => c.write data
  | .endInputStream => c.endInputStream
  | .tick ms => c.tick ms
  | .read len => { c with receiver := c.receiver.readOutput len }
  | .segmentReceived seg => c.segmentReceived seg
  | .takeSegment => { c with segmentsOut := c.segmentsOut.tail }

end TcpConnection

end Sponge
