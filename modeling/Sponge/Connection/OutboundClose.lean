import Sponge.Connection.Sends
import Sponge.Lib.Runs
import Sponge.Sender.Outstanding

/-!
# Closing the outbound stream

`active` takes the outbound stream for closed when it is at its end and nothing
is in flight, without asking whether the FIN was sent. This is sound: whenever
the stream comes to its end with nothing in flight, the window is filled at
once, and the FIN goes out.
-/

namespace Sponge

open Lib

namespace TcpSender

variable {s : TcpSender} {start : ℕ}

/-- At the end of the stream with nothing in flight, the FIN was sent. -/
def Settled (s : TcpSender) : Prop :=
  s.bytesFlying = 0 → s.stream.eof = true → s.finSent = true

theorem Aligned.settled_fillWindow (h : s.Aligned start) : s.fillWindow.Settled := by
  have hwin := h.windowSize_lt
  exact finSent_fillWindow h.nextSeqno_ne_zero (by omega)

theorem Settled.ackReceived (hs : s.Settled) (h : s.Aligned start) (ackno : WrappingInt32)
    (w : UInt16) : (s.ackReceived ackno w).Settled := by
  have hwin := h.withWindow w
  simp only [TcpSender.ackReceived]
  split_ifs with huse hfill
  · exact hs
  · obtain ⟨hnew, hsent⟩ :=
      hwin.counts.lt_and_le_of_not_useless hwin.nextSeqno_ne_zero huse
    obtain ⟨popped, start', -, -, -, hal⟩ := hwin.acceptAck hnew hsent
    exact hal.settled_fillWindow
  · -- The window is not filled only if something is in flight or the FIN was sent.
    intro hflying _
    by_contra hfin
    rw [Bool.not_eq_true] at hfin
    exact hfill ⟨by omega, hfin⟩

theorem Settled.tick (hs : s.Settled) (ms : ℕ) : (s.tick ms).Settled := by
  obtain ⟨out, times, time, consec, rto, heq, -, -⟩ := exists_tick s ms
  rw [heq]
  exact hs

/-- Nothing was sent and the stream is open, or the outstanding segments are aligned. -/
def Closable (s : TcpSender) : Prop :=
  (s.Unsent ∧ s.stream.ended = false) ∨ ((∃ start, s.Aligned start) ∧ s.Settled)

theorem Closable.frame (h : s.Closable) {out : List TcpSegment} {stream : ByteStream}
    (hstream : stream.SameBytes s.stream) :
    ({ s with segmentsOut := out, stream := stream } : TcpSender).Closable := by
  rcases h with ⟨hun, hended⟩ | ⟨⟨start, hal⟩, hs⟩
  · exact Or.inl ⟨hun.frame hstream.bytesReaded, hstream.ended.trans hended⟩
  · refine Or.inr ⟨⟨start, hal.frame hstream.bytesReaded rfl⟩, fun hflying heof ↦ ?_⟩
    exact hs hflying (hstream.eof.symm.trans heof)

theorem Closable.fillWindow (h : s.Closable) {stream : ByteStream}
    (hread : stream.bytesReaded = s.stream.bytesReaded) :
    ({ s with stream := stream } : TcpSender).fillWindow.Closable := by
  rcases h with ⟨hun, -⟩ | ⟨⟨start, hal⟩, -⟩
  · have hun' : ({ s with stream := stream } : TcpSender).Unsent := hun.frame hread
    refine Or.inr ⟨⟨0, hun'.aligned⟩, ?_⟩
    -- The SYN itself is in flight.
    intro hflying
    rw [hun'.fillWindow_eq] at hflying
    simp [sendSyn, pushSegment, hun.bytesFlying, add64] at hflying
  · have hal' : ({ s with stream := stream } : TcpSender).Aligned start := hal.frame hread rfl
    exact Or.inr ⟨⟨start, hal'.fillWindow⟩, hal'.settled_fillWindow⟩

theorem Closable.tick (h : s.Closable) (ms : ℕ) : (s.tick ms).Closable := by
  rcases h with ⟨hun, hended⟩ | ⟨⟨start, hal⟩, hs⟩
  · have hsame : s.tick ms = s := by rw [TcpSender.tick, hun.timestampsOutstanding]
    rw [hsame]
    exact Or.inl ⟨hun, hended⟩
  · exact Or.inr ⟨⟨start, hal.tick ms⟩, hs.tick ms⟩

theorem Closable.ackReceived (h : s.Closable) (hnext : s.nextSeqno ≠ 0)
    (ackno : WrappingInt32) (w : UInt16) : (s.ackReceived ackno w).Closable := by
  rcases h with ⟨hun, -⟩ | ⟨⟨start, hal⟩, hs⟩
  · exact absurd hun.nextSeqno hnext
  · exact Or.inr ⟨hal.ackReceived ackno w, hs.ackReceived hal ackno w⟩

/-- The outbound test of a connection is sound. -/
theorem Closable.fin_acked (h : s.Closable) (hflying : s.bytesFlying = 0)
    (heof : s.stream.eof = true) :
    s.finSent = true ∧ s.ackAbs = s.nextSeqno ∧ s.nextSeqno = s.stream.bytesWrote + 2 := by
  obtain ⟨hdeq, hended⟩ := s.stream.eof_iff.mp heof
  rcases h with ⟨-, hopen⟩ | ⟨⟨start, hal⟩, hs⟩
  · simp [hopen] at hended
  · have hfin := hs hflying heof
    have hack := hal.ackAbs_le
    have hflight := hal.bytesFlying
    have hnext := hal.counts.of_ne_zero hal.nextSeqno_ne_zero
    have hwrote := s.stream.bytesWrote_eq
    rw [hfin, if_pos rfl] at hnext
    rw [hdeq, List.length_nil] at hwrote
    exact ⟨hfin, by omega, by omega⟩

end TcpSender

namespace TcpConnection

variable {c : TcpConnection}

/-- An acknowledgment arrives only after the SYN was sent, and nothing is written after
the end of the input. -/
def Admits (c : TcpConnection) : Op → Prop
  | .segmentReceived seg => seg.header.ack = true → c.sender.nextSeqnoAbsolute ≠ 0
  | .write _ => c.sender.streamIn.inputEnded = false
  | _ => True

instance (c : TcpConnection) : (op : Op) → Decidable (c.Admits op)
  | .segmentReceived _ => inferInstanceAs (Decidable (_ → _))
  | .write _ => inferInstanceAs (Decidable (_ = false))
  | .connect | .endInputStream | .tick _ | .read _ | .takeSegment =>
    inferInstanceAs (Decidable True)

theorem closable_of_sends {c' : TcpConnection} {s : TcpSender} {r : TcpReceiver}
    (h : Sends c c' s r) (hs : s.Closable) : c'.sender.Closable := by
  obtain ⟨stream, hstream, heq⟩ := h.exists_sender
  rw [heq]
  exact hs.frame hstream

theorem closable_segmentReceived (h : c.sender.Closable) {seg : TcpSegment}
    (hop : c.Admits (.segmentReceived seg)) : (c.segmentReceived seg).sender.Closable := by
  have hrelayed : (c.relayed seg).Closable := by
    rw [relayed]
    split_ifs with hack
    · exact h.ackReceived (hop hack) _ _
    · exact h
  obtain ⟨s, hs, hsends⟩ := exists_sends_segmentReceived c seg
  refine closable_of_sends hsends ?_
  rcases hs with rfl | rfl | rfl
  · exact hrelayed
  · exact hrelayed.fillWindow rfl
  · exact hrelayed.frame ⟨rfl, rfl, rfl⟩

theorem closable_step (h : c.sender.Closable) (op : Op)
    (hop : ∀ seg, op = .segmentReceived seg → c.Admits op) : (c.step op).sender.Closable := by
  cases op with
  | connect => exact closable_of_sends (sends_connect c) (h.fillWindow rfl)
  | write data => exact closable_of_sends (sends_write c data) (h.fillWindow rfl)
  | endInputStream => exact closable_of_sends (sends_endInputStream c) (h.fillWindow rfl)
  | tick ms => exact closable_of_sends (sends_tick c ms) (h.tick ms)
  | read len => exact h
  | segmentReceived seg => exact closable_segmentReceived h (hop seg rfl)
  | takeSegment => exact h

/-- Whenever the outbound test of `active` succeeds, the FIN was sent and acknowledged. -/
theorem outbound_test_sound (cfg : TcpConfig) (random : UInt32) (ops : List Op)
    (hops : Along step Admits (new cfg random) ops) :
    let c := run step (new cfg random) ops
    c.bytesInFlight = 0 → c.sender.streamIn.eof = true →
      c.sender.finSent = true ∧ c.sender.ackAbs = c.sender.nextSeqnoAbsolute ∧
        c.sender.nextSeqnoAbsolute = c.sender.streamIn.bytesWritten + 2 := by
  intro c hflying heof
  have h : c.sender.Closable := by
    refine run_invariant (I := fun c ↦ c.sender.Closable) ?_ ?_ hops
    · intro c op hc hop
      exact closable_step hc op fun _ _ ↦ hop
    · exact Or.inl ⟨TcpSender.unsent_new _ _ _ _, rfl⟩
  exact h.fin_acked hflying heof

/-- A connection that writes one byte, closes, and gets both acknowledged. -/
theorem outbound_test_of_one_byte :
    let c := run step (new { recvCapacity := 4, sendCapacity := 4, fixedIsn := some ⟨7⟩ } 0)
      [.connect,
        .segmentReceived { header :=
          { seqno := ⟨20⟩, syn := true, ack := true, ackno := ⟨8⟩, win := 10 } },
        .write [97], .endInputStream,
        .segmentReceived { header := { seqno := ⟨21⟩, ack := true, ackno := ⟨10⟩, win := 10 } }]
    c.sender.ackAbs = c.sender.nextSeqnoAbsolute ∧
      c.sender.nextSeqnoAbsolute = c.sender.streamIn.bytesWritten + 2 :=
  (outbound_test_sound { recvCapacity := 4, sendCapacity := 4, fixedIsn := some ⟨7⟩ } 0 _
    (by decide +kernel) (by decide +kernel) (by decide +kernel)).2

end TcpConnection

end Sponge
