import Sponge.Connection.Accounts
import Sponge.Sender.FullWindow

/-!
# Window updates

The sender writes the window of every acknowledgment down but fills it only if
the acknowledgment is new. One that repeats the number acknowledged with a larger
window leaves the bytes that now fit where they are.
-/

namespace Sponge

open Lib

namespace TcpSender

variable {s : TcpSender} {ackno : WrappingInt32} {w : UInt16}

/-- Filling the window would send nothing. -/
structure Spent (s : TcpSender) : Prop where
  nextSeqno_ne_zero : s.nextSeqno ≠ 0
  full : ¬(s.HasRoom ∧ s.HasMore)

theorem Spent.of_sameBytes (h : s.Spent) {s' : TcpSender}
    (hstream : s'.stream.SameBytes s.stream) (hnext : s'.nextSeqno = s.nextSeqno)
    (hflying : s'.bytesFlying = s.bytesFlying) (hwindow : s'.windowSize = s.windowSize)
    (hfin : s'.finSent = s.finSent) : s'.Spent := by
  refine ⟨hnext ▸ h.nextSeqno_ne_zero, ?_⟩
  have hfull := h.full
  rw [HasRoom, HasMore, ByteStream.bufferSize] at hfull ⊢
  rwa [hflying, hwindow, hfin, hstream.deq, hstream.eof]

theorem spent_frame_iff {out : List TcpSegment} {stream : ByteStream}
    (hstream : stream.SameBytes s.stream) :
    ({ s with segmentsOut := out, stream := stream } : TcpSender).Spent ↔ s.Spent := by
  constructor
  · exact fun h ↦ h.of_sameBytes
      ⟨hstream.ended.symm, hstream.deq.symm, hstream.bytesReaded.symm⟩ rfl rfl rfl rfl
  · exact fun h ↦ h.of_sameBytes hstream rfl rfl rfl rfl

theorem spent_iff (hnext : s.nextSeqno ≠ 0) (hwin : s.windowSize < 2 ^ 64) :
    s.Spent ↔ s.fillWindow.segmentsOut = s.segmentsOut := by
  rw [segmentsOut_fillWindow_eq_iff hnext hwin]
  exact ⟨Spent.full, Spent.mk hnext⟩

theorem spent_fillWindow (hnext : s.nextSeqno ≠ 0) (hwin : s.windowSize < 2 ^ 64) :
    s.fillWindow.Spent :=
  ⟨nextSeqno_fillWindow_ne_zero hwin, not_hasRoom_and_hasMore_fillWindow hnext⟩

/-- The acknowledgment makes the sender use the window it carries. A new one does, unless bytes
were written behind the FIN and would fit; one that repeats the number acknowledged does if it
finds the window full or nothing to send. -/
def Uses (s : TcpSender) (ackno : WrappingInt32) (w : UInt16) : Prop :=
  if s.ackAbs < s.absoluteAckno ackno then
    ¬(s.finSent = true ∧ s.nextSeqno - s.absoluteAckno ackno < max 1 w.toNat ∧
      0 < s.streamIn.bufferSize)
  else ¬(s.bytesInFlight < max 1 w.toNat ∧
    (0 < s.streamIn.bufferSize ∨ s.streamIn.eof = true ∧ s.finSent = false))

instance (s : TcpSender) (ackno : WrappingInt32) (w : UInt16) : Decidable (s.Uses ackno w) :=
  inferInstanceAs (Decidable (if s.ackAbs < s.absoluteAckno ackno then ¬_ else ¬_))

theorem Accounted.spent_ackReceived_iff (h : s.Accounted) (hnext : s.nextSeqno ≠ 0)
    (hle : s.absoluteAckno ackno ≤ s.nextSeqno) :
    (s.ackReceived ackno w).Spent ↔ s.Uses ackno w := by
  have hwin := h.withWindow w
  have huse := hwin.counts.not_useless_iff hnext (s.absoluteAckno ackno)
  by_cases hnew : s.ackAbs < s.absoluteAckno ackno
  · have haccepted := huse.mpr ⟨hnew, hle⟩
    have hflying := ((hwin.acceptAck haccepted).sent hnext).2
    rw [Uses, if_pos hnew]
    simp only [TcpSender.ackReceived]
    rw [if_neg haccepted]
    split_ifs with hfill
    · refine iff_of_true (spent_fillWindow hnext (toNat_window_lt w)) ?_
      rintro ⟨hfin, -, -⟩
      exact Bool.false_ne_true (hfill.2.symm.trans hfin)
    · -- The window is left as it is: it is full, or the FIN was sent.
      have hroom : (({ s with windowSize := w.toNat } : TcpSender).acceptAck
          (s.absoluteAckno ackno)).HasRoom ↔
            s.nextSeqno - s.absoluteAckno ackno < max 1 w.toNat := by
        rw [HasRoom, hflying]
        exact Iff.rfl
      constructor
      · rintro ⟨-, hfull⟩ ⟨-, hfits, hbuf⟩
        exact hfull ⟨hroom.mpr hfits, Or.inl hbuf⟩
      · refine fun hnot ↦ ⟨hnext, ?_⟩
        rintro ⟨hfits, hmore⟩
        have hsent : s.finSent = true := by
          by_contra hfin
          rw [Bool.not_eq_true] at hfin
          rw [HasRoom] at hfits
          exact hfill ⟨by omega, hfin⟩
        rcases hmore with hbuf | ⟨-, hopen⟩
        · exact hnot ⟨hsent, hroom.mp hfits, hbuf⟩
        · exact Bool.false_ne_true (hopen.symm.trans hsent)
  · have hold : ({ s with windowSize := w.toNat } : TcpSender).Useless (s.absoluteAckno ackno) :=
      not_not.mp fun haccepted ↦ hnew (huse.mp haccepted).1
    rw [Uses, if_neg hnew]
    simp only [TcpSender.ackReceived]
    rw [if_pos hold]
    exact ⟨fun hspent ↦ hspent.full, fun hfull ↦ ⟨hnext, hfull⟩⟩

end TcpSender

namespace TcpConnection

variable {c : TcpConnection} {seg : TcpSegment}

theorem spent_segmentReceived_iff (hack : seg.header.ack = true) :
    (c.segmentReceived seg).sender.Spent ↔ (c.relayed seg).Spent := by
  have hlisten : ¬c.Listens seg := fun h ↦ Bool.false_ne_true (h.2.1.symm.trans hack)
  obtain ⟨stream, hstream, heq⟩ := (sends_of_not_listens hlisten).exists_sender
  rw [heq, TcpSender.spent_frame_iff hstream]
  split_ifs
  · exact TcpSender.spent_frame_iff ⟨rfl, rfl, rfl⟩
  · exact Iff.rfl

/-- In every reachable state after the SYN, an acknowledgment of what was sent leaves nothing for
`fill_window` to send exactly if it uses its window. -/
theorem window_update_used (cfg : TcpConfig) (random : UInt32) (ops : List Op)
    (seg : TcpSegment) (hack : seg.header.ack = true)
    (hsyn : (run step (new cfg random) ops).sender.nextSeqnoAbsolute ≠ 0)
    (hle : (run step (new cfg random) ops).sender.absoluteAckno seg.header.ackno ≤
      (run step (new cfg random) ops).sender.nextSeqnoAbsolute) :
    let c := run step (new cfg random) ops
    let c' := c.segmentReceived seg
    c'.sender.fillWindow.segmentsOut = c'.sender.segmentsOut ↔
      c.sender.Uses seg.header.ackno seg.header.win := by
  intro c c'
  have h : c.Accounted := accounted_run cfg random ops
  have h' : c'.Accounted := h.segmentReceived seg
  have hwin' := h'.sender.windowSize_lt
  have hnext' : c'.sender.nextSeqno ≠ 0 := h.nextSeqno_segmentReceived_ne_zero hsyn seg
  rw [← TcpSender.spent_iff hnext' (by omega), spent_segmentReceived_iff hack, relayed, if_pos hack]
  exact h.sender.spent_ackReceived_iff hsyn hle

/-- Connected; two bytes were written into a window of one number. -/
def twoBytesOneSent : List Op :=
  [.connect,
    .segmentReceived { header :=
      { seqno := ⟨20⟩, syn := true, ack := true, ackno := ⟨8⟩, win := 1 } },
    .write [97, 98]]

/-- The acknowledgment of the first byte with a larger window sends the second. -/
theorem window_update_used_by_new_ack :
    let c := run step (new { recvCapacity := 4, sendCapacity := 4, fixedIsn := some ⟨7⟩ } 0)
      twoBytesOneSent
    let c' := c.segmentReceived
      { header := { seqno := ⟨21⟩, ack := true, ackno := ⟨9⟩, win := 10 } }
    c'.sender.fillWindow.segmentsOut = c'.sender.segmentsOut ∧
      c'.sender.streamIn.bufferSize = 0 :=
  ⟨(window_update_used { recvCapacity := 4, sendCapacity := 4, fixedIsn := some ⟨7⟩ } 0
    twoBytesOneSent { header := { seqno := ⟨21⟩, ack := true, ackno := ⟨9⟩, win := 10 } } rfl
    (by decide +kernel) (by decide +kernel)).mpr (by decide +kernel), by decide +kernel⟩

/-- The same window with the number acknowledged before: the second byte fits and stays where
it is. -/
theorem window_update_missed :
    let c := run step (new { recvCapacity := 4, sendCapacity := 4, fixedIsn := some ⟨7⟩ } 0)
      twoBytesOneSent
    let seg : TcpSegment :=
      { header := { seqno := ⟨21⟩, ack := true, ackno := ⟨8⟩, win := 10 } }
    c.sender.ackAbs = c.sender.absoluteAckno seg.header.ackno ∧
      c.sender.ackAbs ≤ c.sender.nextSeqnoAbsolute ∧
      (c.segmentReceived seg).segmentsOut = c.segmentsOut ∧
      (c.segmentReceived seg).sender.fillWindow.segmentsOut.map TcpSegment.payload = [[98]] := by
  decide +kernel

end TcpConnection

end Sponge
