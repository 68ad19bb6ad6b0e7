import Sponge.Adapter.Lawful
import Sponge.Connection.Owner
import Sponge.Network.Model
import Sponge.Socket.Model

/-!
# What the callbacks do to the connection

Each callback of a socket is a list of operations of its connection. An
`Endpoint` records the history of the connection: `Represents` says that the
bytes it has accepted are those that were read from the pipe, that the bytes
read from it were written to the pipe, and that the packets on the wire stem from
the segments it has sent. Whatever the kernel answers, a callback throws only
for its faults.
-/

namespace Sponge

open Lib

/-- Neither a receiver nor a connection looks at the ports and the checksum of a segment. -/
theorem TcpReceiver.segmentReceived_of_alike {seg seg' : TcpSegment} (h : seg.Alike seg')
    (r : TcpReceiver) : r.segmentReceived seg = r.segmentReceived seg' := by
  obtain ⟨sport, dport, cksum, rfl⟩ := h
  simp only [segmentReceived]
  rfl

theorem TcpConnection.segmentReceived_of_alike {seg seg' : TcpSegment} (h : seg.Alike seg')
    (c : TcpConnection) : c.segmentReceived seg = c.segmentReceived seg' := by
  have hreceiver := fun r ↦ TcpReceiver.segmentReceived_of_alike h r
  have hlength : seg.lengthInSequenceSpace = seg'.lengthInSequenceSpace := by
    obtain ⟨sport, dport, cksum, rfl⟩ := h
    rfl
  simp only [segmentReceived, relayAck, passToReceiver, resetBy, answer, answers, stopLingering,
    hlength, hreceiver]
  obtain ⟨sport, dport, cksum, rfl⟩ := h
  rfl

theorem TcpSegment.Short.fits {seg : TcpSegment} (h : seg.Short) : seg.Fits := by
  obtain ⟨hdoff, hlen⟩ := h
  have hfive : seg.header.doff.toNat = 5 := by rw [hdoff]; rfl
  rw [TcpConfig.maxPayloadSize] at hlen
  exact ⟨by omega, by omega, by omega⟩

/-- Nothing is written after the end of the input, and the segments that arrive have a property
that may depend on what happened before. -/
def Endpoint.Guarded (Q : Endpoint → TcpSegment → Prop) (x : Endpoint) : TcpConnection.Op → Prop
  | .write _ => x.conn.sender.streamIn.inputEnded = false
  | .segmentReceived seg => Q x seg
  | _ => True

namespace TcpSpongeSocket

variable {α ρ ω : Type} [FdAdapter α ρ ω]

/-- What can happen to a socket. -/
inductive Event (ρ : Type)
  | connect
  | datagramIn (packet : ρ)
  | pipeIn (answers : Answers)
  | cancelPipeIn
  | pipeOut (answers : Answers)
  | datagramOut
  | tick (ms : ℕ)

def apply (s : TcpSpongeSocket α ω) : Event ρ → Except Exception (TcpSpongeSocket α ω)
  | .connect => .ok { s with tcp := s.tcp.connect }
  | .datagramIn packet => s.datagramIn packet
  | .pipeIn answers => s.pipeIn answers
  | .cancelPipeIn => .ok s.cancelPipeIn
  | .pipeOut answers => s.pipeOut answers
  | .datagramOut => s.datagramOut
  | .tick ms => .ok (s.tick ms)

/-- The segment that the adapter takes a packet for. -/
def segmentOf (s : TcpSpongeSocket α ω) (packet : ρ) : Option TcpSegment :=
  match FdAdapter.read s.datagramAdapter packet with
  | .ok (seg, _) => seg
  | .error _ => none

theorem segmentOf_eq_some_iff {s : TcpSpongeSocket α ω} {packet : ρ} {seg : TcpSegment} :
    s.segmentOf packet = some seg ↔ ∃ adapter written,
      FdAdapter.read s.datagramAdapter packet = .ok (some seg, adapter, written) := by
  rw [segmentOf]
  cases FdAdapter.read s.datagramAdapter packet with
  | ok r =>
      obtain ⟨returned, adapter, written⟩ := r
      refine ⟨fun h ↦ ⟨adapter, written, ?_⟩, ?_⟩
      · rw [show returned = some seg from h]
      · rintro ⟨adapter', written', h⟩
        exact congrArg Prod.fst (Except.ok.inj h)
  | error e =>
      refine ⟨fun h ↦ absurd h.symm (Option.some_ne_none seg), ?_⟩
      rintro ⟨adapter, written, h⟩
      cases h

variable [LawfulFdAdapter α] {s : TcpSpongeSocket α ω} {x : Endpoint}
  {Q : Endpoint → TcpSegment → Prop}

/-- The endpoint has the history of the socket's connection. -/
structure Represents (s : TcpSpongeSocket α ω) (x : Endpoint) : Prop where
  conn : x.conn = s.tcp
  accepted : x.accepted = s.threadData.received
  taken : x.taken = s.threadData.written
  holds : LawfulFdAdapter.Holds s.datagramAdapter s.wire x.sent
  short : s.tcp.Short
  ended : s.tcp.sender.streamIn.inputEnded = s.outboundShutdown

/-- A step of a socket: some operations of its connection, under the guard. -/
def Advances (Q : Endpoint → TcpSegment → Prop) (x : Endpoint) (s' : TcpSpongeSocket α ω) : Prop :=
  ∃ ops, Along Endpoint.step (Endpoint.Guarded Q) x ops ∧ Represents s' (run Endpoint.step x ops)

namespace Represents

theorem step_conn (h : Represents s x) (op : TcpConnection.Op) :
    (x.step op).conn = s.tcp.step op :=
  congrArg (TcpConnection.step · op) h.conn

/-- A segment that the adapter returns is received. -/
theorem ends_datagramIn (h : Represents s x) (packet : ρ)
    (hQ : ∀ seg ∈ s.segmentOf packet, ∃ seg', Q x seg' ∧ seg.Alike seg') :
    Ends KernelFault (fun s' ↦ Advances Q x s' ∧ s'.outboundShutdown = s.outboundShutdown ∧
      (FdAdapter.fd s'.datagramAdapter).readCount =
        (FdAdapter.fd s.datagramAdapter).readCount + 1) (s.datagramIn packet) := by
  refine (LawfulFdAdapter.ends_read packet h.holds).with_eq.bind ?_
  rintro ⟨seg, adapter, written⟩ ⟨⟨hholds, hcount⟩, hread⟩
  cases seg with
  | none =>
      exact Ends.of_pure ⟨⟨[], trivial, h.conn, h.accepted, h.taken, hholds, h.short, h.ended⟩, rfl,
        hcount⟩
  | some seg =>
      obtain ⟨seg', hseg', halike⟩ := hQ seg (segmentOf_eq_some_iff.mpr ⟨_, _, hread⟩)
      refine Ends.of_pure ⟨⟨[.segmentReceived seg'], ⟨hseg', trivial⟩, ?_, h.accepted, h.taken,
        hholds, h.short.step (.segmentReceived seg), ?_⟩, rfl, hcount⟩
      · exact (h.step_conn _).trans (s.tcp.segmentReceived_of_alike halike).symm
      · exact (TcpConnection.ended_segmentReceived h.short seg).trans h.ended

/-- What is read from the pipe fits in the outbound stream, so that all of it is accepted. -/
theorem ends_pipeIn (h : Represents s x) (hopen : s.outboundShutdown = false) (answers : Answers) :
    Ends KernelFault (fun s' ↦ Advances Q x s' ∧
      s'.threadData.readCount = s.threadData.readCount + 1) (s.pipeIn answers) := by
  refine (s.threadData.ends_read _ answers.read).bind_pair ?_
  rintro data threadData ⟨hle, eof, -, hthread⟩
  dsimp only at hle hthread
  subst hthread
  have hsize : s.tcp.writeSize data = data.length := min_eq_left hle
  have hguard : x.conn.sender.streamIn.inputEnded = false := by
    rw [h.conn, h.ended, hopen]
  have haccepted : (x.step (.write data)).accepted = s.threadData.received ++ data := by
    change x.accepted ++ data.take (x.conn.writeSize data) = _
    rw [h.conn, hsize, List.take_length, h.accepted]
  have hconn := h.step_conn (.write data)
  have hshort := h.short.step (.write data)
  have hended : (s.tcp.write data).sender.streamIn.inputEnded = s.outboundShutdown :=
    (h.short.ended_step (show TcpConnection.Op.write data ≠ .endInputStream from
      fun heq ↦ by cases heq)).trans h.ended
  refine Ends.of_ite (fun hless ↦ absurd hsize hless) fun _ ↦ Ends.of_ite (fun _ ↦ ?_) fun _ ↦ ?_
  · refine Ends.of_pure ⟨⟨[.write data, .endInputStream], ⟨hguard, trivial, trivial⟩, ?_, haccepted,
      h.taken, h.holds, hshort.step .endInputStream, hshort.ended_endInputStream⟩, rfl⟩
    exact congrArg TcpConnection.endInputStream hconn
  · exact Ends.of_pure ⟨⟨[.write data], ⟨hguard, trivial⟩, hconn, haccepted, h.taken, h.holds,
      hshort, hended⟩, rfl⟩

theorem cancelPipeIn (h : Represents s x) : Advances Q x s.cancelPipeIn :=
  ⟨[.endInputStream], ⟨trivial, trivial⟩, h.step_conn .endInputStream, h.accepted, h.taken,
    h.holds, h.short.step .endInputStream, h.short.ended_endInputStream⟩

/-- What is written to the pipe is read from the inbound stream. -/
theorem ends_pipeOut (h : Represents s x) (answers : Answers) :
    Ends KernelFault (fun s' ↦ Advances Q x s' ∧ s'.outboundShutdown = s.outboundShutdown ∧
      s'.threadData.writeCount ≠ s.threadData.writeCount) (s.pipeOut answers) := by
  refine (s.threadData.ends_write _ answers.write).bind_pair ?_
  rintro n threadData ⟨hle, -, hthread⟩
  dsimp only at hle hthread
  subst hthread
  have htaken : (x.step (.read n)).taken = s.threadData.written ++
      (s.tcp.inboundStream.peekOutput (min 65536 s.tcp.inboundStream.bufferSize)).take n := by
    rw [ByteStream.peekOutput_eq, List.length_take] at hle
    change x.taken ++ x.conn.inboundStream.peekOutput n = _
    rw [h.taken, h.conn, ByteStream.peekOutput_eq, ByteStream.peekOutput_eq, List.take_take,
      min_eq_left (by omega)]
  have hadvances : ∀ threadData : Channel, threadData.received = s.threadData.received →
      threadData.written = (x.step (.read n)).taken → ∀ inboundShutdown,
      Advances Q x { s with
        tcp := { s.tcp with receiver := s.tcp.receiver.readOutput n }
        threadData
        inboundShutdown } := fun threadData hreceived hwritten inboundShutdown ↦
    ⟨[.read n], ⟨trivial, trivial⟩, h.step_conn (.read n), h.accepted.trans hreceived.symm,
      hwritten.symm, h.holds, h.short.step (.read n), h.ended⟩
  refine Ends.of_ite (fun _ ↦ ?_) fun _ ↦ ?_
  · refine (Channel.ends_shutdownWrite _ answers.shutdown).bind ?_
    rintro threadData rfl
    refine Ends.of_pure ⟨hadvances _ ?_ htaken.symm true, rfl, fun heq ↦ ?_⟩
    · rfl
    have hsame : s.threadData.writeCount + 1 + 1 = s.threadData.writeCount := heq
    rw [UInt32.add_assoc] at hsame
    simp at hsame
  · refine Ends.of_pure ⟨hadvances _ ?_ htaken.symm s.inboundShutdown, rfl, fun heq ↦ ?_⟩
    · rfl
    have hsame : s.threadData.writeCount + 1 = s.threadData.writeCount := heq
    simp at hsame

/-- All segments are sent, in order, and none is left. -/
theorem exists_writeSegments {adapter : α} {wire : List ω} {sent segs : List TcpSegment}
    (h : LawfulFdAdapter.Holds adapter wire sent) (hsegs : ∀ seg ∈ segs, seg.Short) :
    ∃ adapter' written, writeSegments adapter segs = .ok (adapter', written) ∧
      LawfulFdAdapter.Holds adapter' (wire ++ written) (sent ++ segs) := by
  induction segs generalizing adapter wire sent with
  | nil => exact ⟨adapter, [], rfl, by simpa using h⟩
  | cons seg rest ih =>
      obtain ⟨hseg, hrest⟩ := List.forall_mem_cons.mp hsegs
      obtain ⟨adapter₁, first, hwrite, h₁⟩ := LawfulFdAdapter.exists_write h hseg.fits
      obtain ⟨adapter₂, more, hmore, h₂⟩ := ih h₁ hrest
      refine ⟨adapter₂, first ++ more, ?_, by simpa using h₂⟩
      rw [writeSegments, hwrite]
      change (writeSegments adapter₁ rest >>= _) = _
      rw [hmore]
      rfl

theorem run_takeSegment (x : Endpoint) (segs : List TcpSegment) (h : x.conn.segmentsOut = segs) :
    run Endpoint.step x (List.replicate segs.length .takeSegment) =
      { x with conn := { x.conn with segmentsOut := [] }, sent := x.sent ++ segs } := by
  induction segs generalizing x with
  | nil =>
      rw [List.length_nil, List.replicate_zero, run_nil, List.append_nil, ← h]
  | cons seg rest ih =>
      have htail : (x.step .takeSegment).conn.segmentsOut = rest := by
        change x.conn.segmentsOut.tail = rest
        rw [h, List.tail_cons]
      rw [List.length_cons, List.replicate_succ, run_cons, ih _ htail]
      simp [Endpoint.step, TcpConnection.step, h]

theorem ends_datagramOut (h : Represents s x) :
    Ends KernelFault (fun s' ↦ Advances Q x s' ∧ s'.outboundShutdown = s.outboundShutdown ∧
      s'.tcp.segmentsOut = []) s.datagramOut := by
  obtain ⟨adapter, written, hwrite, hholds⟩ := exists_writeSegments h.holds h.short.segmentsOut
  have hrun := run_takeSegment x s.tcp.segmentsOut (congrArg _ h.conn)
  rw [datagramOut, hwrite]
  refine Ends.of_pure ⟨⟨List.replicate s.tcp.segmentsOut.length .takeSegment, ?_, ?_⟩, rfl, rfl⟩
  · refine along_of_forall (fun op hop x ↦ ?_) x
    rw [List.eq_of_mem_replicate hop]
    trivial
  · rw [hrun]
    exact ⟨congrArg (fun c ↦ { c with segmentsOut := [] }) h.conn, h.accepted, h.taken, hholds,
      ⟨h.short.sender, List.forall_mem_nil _⟩, h.ended⟩

theorem tick (h : Represents s x) (ms : ℕ) : Advances Q x (s.tick ms) :=
  ⟨[.tick ms], ⟨trivial, trivial⟩, h.step_conn (.tick ms), h.accepted, h.taken,
    LawfulFdAdapter.holds_tick ms h.holds, h.short.step (.tick ms),
    (h.short.ended_step (show TcpConnection.Op.tick ms ≠ .endInputStream from
      fun heq ↦ by cases heq)).trans h.ended⟩

theorem connect (h : Represents s x) : Advances Q x { s with tcp := s.tcp.connect } :=
  ⟨[.connect], ⟨trivial, trivial⟩, h.step_conn .connect, h.accepted, h.taken, h.holds,
    h.short.step .connect, (h.short.ended_step (show TcpConnection.Op.connect ≠ .endInputStream from
      fun heq ↦ by cases heq)).trans h.ended⟩

end Represents

/-- The pipe is read only while the outbound stream is open. -/
def Ready (s : TcpSpongeSocket α ω) : Event ρ → Prop
  | .pipeIn _ => s.outboundShutdown = false
  | _ => True

instance (s : TcpSpongeSocket α ω) : (event : Event ρ) → Decidable (s.Ready event)
  | .pipeIn _ => inferInstanceAs (Decidable (_ = false))
  | .connect | .datagramIn _ | .cancelPipeIn | .pipeOut _ | .datagramOut | .tick _ =>
    inferInstanceAs (Decidable True)

/-- A packet that the adapter takes for a segment brings one with the property. -/
def Brings (Q : TcpSegment → Prop) (s : TcpSpongeSocket α ω) : Event ρ → Prop
  | .datagramIn packet => ∀ seg ∈ s.segmentOf packet, ∃ seg', Q seg' ∧ seg.Alike seg'
  | _ => True

/-- Every event is a list of operations of the connection, or a fault of the kernel. -/
theorem Represents.ends_apply (h : Represents s x) {event : Event ρ} (hready : s.Ready event)
    (hbrings : s.Brings (Q x) event) : Ends KernelFault (Advances Q x) (s.apply event) := by
  cases event with
  | connect => exact h.connect
  | datagramIn packet => exact (h.ends_datagramIn packet hbrings).imp fun _ hs ↦ hs.1
  | pipeIn answers => exact (h.ends_pipeIn hready answers).imp fun _ hs ↦ hs.1
  | cancelPipeIn => exact h.cancelPipeIn
  | pipeOut answers => exact (h.ends_pipeOut answers).imp fun _ hs ↦ hs.1
  | datagramOut => exact h.ends_datagramOut.imp fun _ hs ↦ hs.1
  | tick ms => exact h.tick ms

/-- How a socket is opened: nothing was sent through its adapter so far. -/
structure Opening (α : Type) {ρ : outParam Type} (ω : Type) [FdAdapter α ρ ω]
    [LawfulFdAdapter α] where
  active : Bool
  adapter : α
  wire : List ω
  holds : LawfulFdAdapter.Holds adapter wire []
  cTcp : TcpConfig
  random : UInt32
  cAd : FdAdapterConfig

namespace Opening

/-- The socket of which `connect` or `listen_and_accept` makes a connection. -/
def socket (o : Opening α ω) : TcpSpongeSocket α ω :=
  let adapter := FdAdapter.setConfig o.adapter o.cAd
  initializeTcp (if o.active then adapter else FdAdapter.setListening adapter true) o.wire o.cTcp
    o.random

theorem represents (o : Opening α ω) : Represents o.socket (Endpoint.new o.cTcp o.random) where
  conn := rfl
  accepted := rfl
  taken := rfl
  holds := by
    have hconfig := LawfulFdAdapter.holds_setBase
      { FdAdapter.base o.adapter with cfg := o.cAd } o.holds
    rw [socket, initializeTcp]
    dsimp only
    split_ifs
    · exact hconfig
    · exact LawfulFdAdapter.holds_setBase
        { FdAdapter.base (FdAdapter.setConfig o.adapter o.cAd) with listen := true } hconfig
  short := TcpConnection.short_new o.cTcp o.random
  ended := rfl

/-- A socket over UDP with small buffers. -/
def udp (active : Bool) (isn : UInt32) (cAd : FdAdapterConfig) :
    Opening TcpOverUdpSocketAdapter (SocketAddress × List UInt8) where
  active := active
  adapter := {}
  wire := []
  holds := fun _ h ↦ absurd h List.not_mem_nil
  cTcp := { recvCapacity := 4, sendCapacity := 4, fixedIsn := some ⟨isn⟩ }
  random := 0
  cAd := cAd

end Opening

/-- An event that the socket is ready for. -/
def Moves : TcpSpongeSocket α ω → TcpSpongeSocket α ω → Prop :=
  Lib.Moves (apply (ρ := ρ)) fun s event _ ↦ s.Ready event

/-- Nothing is written after the end of the input; any segment may arrive. -/
abbrev Orderly : Endpoint → TcpConnection.Op → Prop := Endpoint.Guarded fun _ _ ↦ True

/-- Whatever happens to a socket is a list of operations of its connection. -/
theorem Represents.history {s₀ : TcpSpongeSocket α ω} {x₀ : Endpoint} (h₀ : Represents s₀ x₀)
    (h : Relation.ReflTransGen Moves s₀ s) :
    ∃ ops, Along Endpoint.step Orderly x₀ ops ∧ Represents s (run Endpoint.step x₀ ops) := by
  induction h with
  | refl => exact ⟨[], trivial, h₀⟩
  | @tail s s' _ hmove ih =>
      obtain ⟨ops, hops, hrep⟩ := ih
      obtain ⟨event, hready, happly⟩ := hmove
      have hbrings : s.Brings (fun _ ↦ True) event := by
        cases event with
        | datagramIn packet => exact fun seg _ ↦ ⟨seg, trivial, ⟨_, _, _, rfl⟩⟩
        | _ => trivial
      obtain ⟨more, hmore, hrep'⟩ :=
        (hrep.ends_apply (Q := fun _ _ ↦ True) hready hbrings).result happly
      refine ⟨ops ++ more, along_append.mpr ⟨hops, hmore⟩, ?_⟩
      rwa [run_append]

end TcpSpongeSocket

end Sponge
