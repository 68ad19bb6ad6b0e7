import Sponge.Adapter.Model
import Sponge.Connection.OfficialState
import Sponge.System.EventLoop

/-!
# Sockets

A socket runs a connection in a thread of its own. The event loop of the thread
has four rules: a packet of the adapter becomes a segment for the connection,
bytes that the owner wrote into a pipe go to its outbound stream, bytes of its
inbound stream go to the pipe, and its segments go to the adapter. After each
turn of the loop the time is told to the connection and to the adapter. The
texts for debugging are left out.
-/

namespace Sponge

open EventLoop

/-- What the kernel tells a callback: a packet for the first rule, answers to the system calls of
the others. -/
structure SocketInput (ρ : Type) extends Answers where
  packet : ρ

/-- The state of the thread, with the packets that were written so far. -/
structure TcpSpongeSocket (α ω : Type) where
  tcp : TcpConnection
  datagramAdapter : α
  threadData : Channel := {}
  inboundShutdown : Bool := false
  outboundShutdown : Bool := false
  fullyAcked : Bool := false
  wire : List ω := []

namespace TcpSpongeSocket

/-- The rules of the loop, in the order in which they are added. -/
inductive Name
  | datagramIn
  | pipeIn
  | pipeOut
  | datagramOut
  deriving DecidableEq

variable {α ρ ω : Type} [FdAdapter α ρ ω]

/-- Rule 1: read from filtered packet stream and dump into the connection. -/
def datagramIn (packet : ρ) (s : TcpSpongeSocket α ω) :
    Except Exception (TcpSpongeSocket α ω) := do
  let (seg, datagramAdapter, written) ← FdAdapter.read s.datagramAdapter packet
  let tcp := match seg with
    | some seg => s.tcp.segmentReceived seg
    | none => s.tcp
  let fullyAcked := s.fullyAcked || s.threadData.eof && tcp.bytesInFlight == 0
  return { s with tcp, datagramAdapter, fullyAcked, wire := s.wire ++ written }

/-- Rule 2: read from pipe into outbound buffer. -/
def pipeIn (answers : Answers) (s : TcpSpongeSocket α ω) :
    Except Exception (TcpSpongeSocket α ω) := do
  let (data, threadData) ← s.threadData.read s.tcp.remainingOutboundCapacity answers.read
  let amountWritten := s.tcp.writeSize data
  let tcp := s.tcp.write data
  if amountWritten ≠ data.length then
    throw (.runtimeError "TCPConnection::write() accepted less than advertised length")
  if threadData.eof then
    return { s with tcp := tcp.endInputStream, threadData, outboundShutdown := true }
  else return { s with tcp, threadData }

/-- What is done when rule 2 is given up. -/
def cancelPipeIn (s : TcpSpongeSocket α ω) : TcpSpongeSocket α ω :=
  { s with tcp := s.tcp.endInputStream, outboundShutdown := true }

/-- Rule 3: read from inbound buffer into pipe; only what was written is popped. -/
def pipeOut (answers : Answers) (s : TcpSpongeSocket α ω) :
    Except Exception (TcpSpongeSocket α ω) := do
  let inbound := s.tcp.inboundStream
  let amountToWrite := min 65536 inbound.bufferSize
  let (bytesWritten, threadData) ←
    s.threadData.write (inbound.peekOutput amountToWrite) false answers.write
  let tcp := { s.tcp with receiver := s.tcp.receiver.readOutput bytesWritten }
  if tcp.inboundStream.eof || tcp.inboundStream.error then
    let threadData ← threadData.shutdownWrite answers.shutdown
    return { s with tcp, threadData, inboundShutdown := true }
  else return { s with tcp, threadData }

/-- The loop of rule 4 over the segments that are left. -/
def writeSegments (datagramAdapter : α) : List TcpSegment → Except Exception (α × List ω)
  | [] => .ok (datagramAdapter, [])
  | seg :: rest => do
    let (datagramAdapter, written) ← FdAdapter.write datagramAdapter seg
    let (datagramAdapter, more) ← writeSegments datagramAdapter rest
    return (datagramAdapter, written ++ more)

/-- Rule 4: read outbound segments from the connection and send as datagrams. -/
def datagramOut (s : TcpSpongeSocket α ω) : Except Exception (TcpSpongeSocket α ω) := do
  let (datagramAdapter, written) ← writeSegments s.datagramAdapter s.tcp.segmentsOut
  return { s with
    tcp := { s.tcp with segmentsOut := [] }
    datagramAdapter
    wire := s.wire ++ written }

def rule : Name → Rule (TcpSpongeSocket α ω) (SocketInput ρ)
  | .datagramIn =>
    { fd := fun s ↦ FdAdapter.fd s.datagramAdapter
      direction := .pollIn
      callback := fun input ↦ datagramIn input.packet
      interest := fun s ↦ s.tcp.active }
  | .pipeIn =>
    { fd := fun s ↦ s.threadData.toFileDescriptor
      direction := .pollIn
      callback := fun input ↦ pipeIn input.toAnswers
      interest := fun s ↦ s.tcp.active && !s.outboundShutdown &&
        decide (s.tcp.remainingOutboundCapacity > 0)
      cancel := fun s ↦ .ok s.cancelPipeIn }
  | .pipeOut =>
    { fd := fun s ↦ s.threadData.toFileDescriptor
      direction := .pollOut
      callback := fun input ↦ pipeOut input.toAnswers
      interest := fun s ↦ !s.tcp.inboundStream.bufferEmpty ||
        (s.tcp.inboundStream.eof || s.tcp.inboundStream.error) && !s.inboundShutdown }
  | .datagramOut =>
    { fd := fun s ↦ FdAdapter.fd s.datagramAdapter
      direction := .pollOut
      callback := fun _ ↦ datagramOut
      interest := fun s ↦ !s.tcp.segmentsOut.isEmpty }

def rules : List Name := [.datagramIn, .pipeIn, .pipeOut, .datagramOut]

/-- The time is told to the connection and to the adapter. -/
def tick (s : TcpSpongeSocket α ω) (ms : ℕ) : TcpSpongeSocket α ω :=
  let (datagramAdapter, written) := FdAdapter.tick s.datagramAdapter ms
  { s with tcp := s.tcp.tick ms, datagramAdapter, wire := s.wire ++ written }

/-- What one turn of `_tcp_loop` meets: how `poll` ends, whether the owner has asked to abort,
and the time since the last tick. -/
structure Turn (ρ : Type) where
  polled : Polled (SocketInput ρ)
  abort : Bool := false
  elapsed : ℕ := 0

/-- How `_tcp_loop` ends. -/
inductive LoopEnd
  /-- The condition is false. -/
  | done
  /-- The event loop has exited, or the owner has asked to abort. -/
  | exit (result : Result)
  /-- It goes on: there are no more turns in the list. -/
  | running
  deriving DecidableEq

/-- `_tcp_loop`, for as many turns as are given. -/
def tcpLoop (condition : TcpSpongeSocket α ω → Bool) :
    List (Turn ρ) → List Name → TcpSpongeSocket α ω →
      Except Exception (LoopEnd × List Name × TcpSpongeSocket α ω)
  | [], live, s => .ok (if condition s then .running else .done, live, s)
  | turn :: rest, live, s =>
    if condition s then do
      let (result, live, s) ← waitNextEvent rule turn.polled live s
      if result = .exit ∨ turn.abort = true then return (.exit result, live, s)
      else tcpLoop condition rest live (if s.tcp.active then s.tick turn.elapsed else s)
    else .ok (.done, live, s)

/-- `_initialize_TCP` in a socket that has no connection yet. -/
def initializeTcp (datagramAdapter : α) (wire : List ω) (config : TcpConfig) (random : UInt32) :
    TcpSpongeSocket α ω where
  tcp := .new config random
  datagramAdapter := datagramAdapter
  wire := wire

/-- `connect`, where `old` is the connection that the socket has already, and the turns are those
of its loop. -/
def connect (old : Option TcpConnection) (datagramAdapter : α) (wire : List ω) (cTcp : TcpConfig)
    (random : UInt32) (cAd : FdAdapterConfig) (turns : List (Turn ρ)) :
    Except Exception (LoopEnd × List Name × TcpSpongeSocket α ω) :=
  if old.isSome then
    throw (.runtimeError "connect() with TCPConnection already initialized")
  else
    let s := initializeTcp (FdAdapter.setConfig datagramAdapter cAd) wire cTcp random
    let s := { s with tcp := s.tcp.connect }
    let expectedState := TcpState.ofState .synSent
    if s.tcp.state ≠ expectedState then
      throw (.runtimeError ("After TCPConnection::connect(), state was " ++ s.tcp.state.name ++
        " but expected " ++ expectedState.name))
    else tcpLoop (fun s ↦ s.tcp.state = TcpState.ofState .synSent) turns rules s

def listenAndAccept (old : Option TcpConnection) (datagramAdapter : α) (wire : List ω)
    (cTcp : TcpConfig) (random : UInt32) (cAd : FdAdapterConfig) (turns : List (Turn ρ)) :
    Except Exception (LoopEnd × List Name × TcpSpongeSocket α ω) :=
  if old.isSome then
    throw (.runtimeError "listen_and_accept() with TCPConnection already initialized")
  else
    let adapter := FdAdapter.setListening (FdAdapter.setConfig datagramAdapter cAd) true
    tcpLoop (fun s ↦ s.tcp.state = TcpState.ofState .listen ∨
      s.tcp.state = TcpState.ofState .synRcvd ∨ s.tcp.state = TcpState.ofState .synSent) turns
      rules (initializeTcp adapter wire cTcp random)

/-- `_tcp_main`, the body of the thread after `connect` or `listen_and_accept`. -/
def tcpMain (turns : List (Turn ρ)) (live : List Name) (s : TcpSpongeSocket α ω) :
    Except Exception (LoopEnd × List Name × TcpSpongeSocket α ω) :=
  tcpLoop (fun _ ↦ true) turns live s

/-- A socket from its opening on: the turns of `connect` or `listen_and_accept`, then those of
its thread. -/
def openAndRun (active : Bool) (datagramAdapter : α) (wire : List ω) (cTcp : TcpConfig)
    (random : UInt32) (cAd : FdAdapterConfig) (opening turns : List (Turn ρ)) :
    Except Exception (LoopEnd × List Name × TcpSpongeSocket α ω) := do
  let (_, live, s) ← (if active then connect none datagramAdapter wire cTcp random cAd opening
    else listenAndAccept none datagramAdapter wire cTcp random cAd opening)
  tcpMain turns live s

end TcpSpongeSocket

end Sponge
