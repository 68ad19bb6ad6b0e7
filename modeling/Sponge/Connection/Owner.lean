import Sponge.Connection.Sends
import Sponge.Sender.Segments

/-!
# What the owner of a connection can rely on

Whatever a connection is told, the segments that it queues have a header without
options and a payload of at most `MAX_PAYLOAD_SIZE` bytes, and its outbound
stream ends only when its owner ends it.
-/

namespace Sponge

/-- The header has no options and the payload is not too large. -/
def TcpSegment.Short (seg : TcpSegment) : Prop :=
  seg.header.doff = 5 ∧ seg.payload.length ≤ TcpConfig.maxPayloadSize

/-- A sender builds no other segments. -/
theorem TcpSegment.short_of_built (seqno : WrappingInt32) (syn fin : Bool) (payload : List UInt8)
    (h : payload.length ≤ TcpConfig.maxPayloadSize) :
    Short { header := { seqno := seqno, syn := syn, fin := fin }, payload := payload } :=
  ⟨rfl, h⟩

namespace TcpSender

theorem ended_ackReceived (s : TcpSender) (ackno : WrappingInt32) (w : UInt16) :
    (s.ackReceived ackno w).stream.ended = s.stream.ended := by
  simp only [ackReceived]
  split_ifs
  · rfl
  · exact (filled_fillWindow (toNat_window_lt w)).ended
  · rfl

theorem ended_tick (s : TcpSender) (ms : ℕ) : (s.tick ms).stream.ended = s.stream.ended := by
  obtain ⟨out, times, time, consec, rto, heq, -⟩ := exists_tick s ms
  rw [heq]

end TcpSender

namespace TcpConnection

variable {c c' : TcpConnection} {s : TcpSender} {r : TcpReceiver}

/-- All segments of the connection are short. -/
structure Short (c : TcpConnection) : Prop where
  sender : c.sender.HasOnly TcpSegment.Short
  segmentsOut : ∀ seg ∈ c.segmentsOut, seg.Short

theorem short_new (cfg : TcpConfig) (random : UInt32) : (new cfg random).Short where
  sender := ⟨show 1 < 2 ^ 16 by decide, List.forall_mem_nil _, List.forall_mem_nil _⟩
  segmentsOut := List.forall_mem_nil _

theorem Short.of_sends (h : c.Short) (hsends : Sends c c' s r)
    (hs : s.HasOnly TcpSegment.Short) : c'.Short := by
  obtain ⟨stream, -, hsender⟩ := hsends.exists_sender
  constructor
  case sender =>
    rw [hsender]
    exact hs.frame (List.forall_mem_nil _)
  case segmentsOut =>
    rw [hsends.segmentsOut]
    refine List.forall_mem_append.mpr ⟨h.segmentsOut, fun seg hseg ↦ ?_⟩
    obtain ⟨seg', hmem, rfl⟩ := List.mem_map.mp hseg
    obtain ⟨ack, ackno, win, rst, heq⟩ := exists_stamp c'.receiver c'.rstToSend seg'
    rw [heq]
    exact hs.queue seg' hmem

theorem Short.relayed (h : c.Short) (seg : TcpSegment) :
    (c.relayed seg).HasOnly TcpSegment.Short := by
  rw [TcpConnection.relayed]
  split_ifs
  · exact h.sender.ackReceived TcpSegment.short_of_built _ _
  · exact h.sender

theorem Short.step (h : c.Short) (op : Op) : (c.step op).Short := by
  have hstream : ∀ stream, ({ c.sender with stream := stream } : TcpSender).HasOnly
      TcpSegment.Short := fun stream ↦ h.sender.frame h.sender.queue
  cases op with
  | connect => exact h.of_sends c.sends_connect (h.sender.fillWindow TcpSegment.short_of_built)
  | write data =>
      exact h.of_sends (c.sends_write data) ((hstream _).fillWindow TcpSegment.short_of_built)
  | endInputStream =>
      exact h.of_sends c.sends_endInputStream ((hstream _).fillWindow TcpSegment.short_of_built)
  | tick ms => exact h.of_sends (c.sends_tick ms) (h.sender.tick ms)
  | read len => exact ⟨h.sender, h.segmentsOut⟩
  | takeSegment => exact ⟨h.sender, fun seg hseg ↦ h.segmentsOut seg (List.mem_of_mem_tail hseg)⟩
  | segmentReceived seg =>
      obtain ⟨s, hs, hsends⟩ := c.exists_sends_segmentReceived seg
      refine h.of_sends hsends ?_
      rcases hs with rfl | rfl | rfl
      · exact h.relayed seg
      · exact (h.relayed seg).fillWindow TcpSegment.short_of_built
      · exact (h.relayed seg).sendEmptySegment TcpSegment.short_of_built

theorem ended_of_sends (hsends : Sends c c' s r) : c'.sender.stream.ended = s.stream.ended := by
  obtain ⟨stream, hstream, hsender⟩ := hsends.exists_sender
  rw [hsender]
  exact hstream.ended

theorem ended_segmentReceived (h : c.Short) (seg : TcpSegment) :
    (c.segmentReceived seg).sender.stream.ended = c.sender.stream.ended := by
  have hrelayed : (c.relayed seg).stream.ended = c.sender.stream.ended := by
    rw [relayed]
    split_ifs
    · exact c.sender.ended_ackReceived _ _
    · rfl
  have hwin := (h.relayed seg).windowSize_lt
  obtain ⟨s, hs, hsends⟩ := c.exists_sends_segmentReceived seg
  rw [ended_of_sends hsends, ← hrelayed]
  rcases hs with rfl | rfl | rfl
  · rfl
  · exact (TcpSender.filled_fillWindow (by omega)).ended
  · rfl

/-- Only `endInputStream` ends the outbound stream. -/
theorem Short.ended_step (h : c.Short) {op : Op} (hop : op ≠ .endInputStream) :
    (c.step op).sender.stream.ended = c.sender.stream.ended := by
  have hwin := h.sender.windowSize_lt
  cases op with
  | connect =>
      exact (ended_of_sends c.sends_connect).trans (TcpSender.filled_fillWindow (by omega)).ended
  | write data =>
      exact (ended_of_sends (c.sends_write data)).trans (TcpSender.filled_fillWindow
        (s := { c.sender with stream := c.sender.stream.write data }) (by dsimp only; omega)).ended
  | endInputStream => exact absurd rfl hop
  | tick ms => exact (ended_of_sends (c.sends_tick ms)).trans (c.sender.ended_tick ms)
  | read len => rfl
  | takeSegment => rfl
  | segmentReceived seg => exact ended_segmentReceived h seg

theorem Short.ended_endInputStream (h : c.Short) :
    c.endInputStream.sender.stream.ended = true := by
  have hwin := h.sender.windowSize_lt
  exact (ended_of_sends c.sends_endInputStream).trans (TcpSender.filled_fillWindow
    (s := { c.sender with stream := c.sender.stream.endInput }) (by dsimp only; omega)).ended

end TcpConnection

end Sponge
