import Sponge.Connection.Accounts
import Sponge.Connection.Closed

/-!
# Segments with the RST

A segment with the RST is treated like any other before the reset and after it.
Its acknowledgment is relayed first, and may let new bytes go or even close the
connection, in which case the reset is dropped. After it the segment is answered
as one without the RST would be. Both can be told from the connection before the
segment.
-/

namespace Sponge

open Lib

namespace TcpSender

variable {s : TcpSender} {ackno : WrappingInt32} {w : UInt16}

/-- The acknowledgment is new, and its window has room for more. -/
def Releases (s : TcpSender) (ackno : WrappingInt32) (w : UInt16) : Prop :=
  s.ackAbs < s.absoluteAckno ackno ∧ s.absoluteAckno ackno ≤ s.nextSeqno ∧ s.finSent = false ∧
    s.nextSeqno - s.absoluteAckno ackno < max 1 w.toNat ∧
    (0 < s.streamIn.bufferSize ∨ s.streamIn.eof = true)

instance (s : TcpSender) (ackno : WrappingInt32) (w : UInt16) : Decidable (s.Releases ackno w) :=
  inferInstanceAs (Decidable (_ ∧ _ ∧ _ ∧ _ ∧ _))

/-- An acknowledgment sends something exactly if it releases something. -/
theorem Accounted.segmentsOut_ackReceived_iff (h : s.Accounted) :
    (s.ackReceived ackno w).segmentsOut = s.segmentsOut ↔ ¬s.Releases ackno w := by
  have hwin := h.withWindow w
  by_cases hzero : s.nextSeqno = 0
  · have hnot : ¬s.Releases ackno w := fun hrel ↦ by
      have hnew := hrel.1
      have hsent := hrel.2.1
      omega
    refine iff_of_true ?_ hnot
    simp only [TcpSender.ackReceived]
    split_ifs with huse hfill
    · rfl
    · have hlt := hwin.windowSize_lt_acceptAck_of_unsent hzero huse
      omega
    · rfl
  · have hiff := hwin.counts.not_useless_iff hzero (s.absoluteAckno ackno)
    simp only [TcpSender.ackReceived]
    split_ifs with huse hfill
    · exact iff_of_true rfl fun hrel ↦ hiff.mpr ⟨hrel.1, hrel.2.1⟩ huse
    · -- Room for what is left to send is what the acknowledgment releases.
      have hacc := hwin.acceptAck huse
      obtain ⟨hnew, hle⟩ := hiff.mp huse
      refine (segmentsOut_fillWindow_eq_iff (s := ({ s with windowSize := w.toNat } :
        TcpSender).acceptAck (s.absoluteAckno ackno)) hzero (toNat_window_lt w)).trans
        (not_congr ?_)
      rw [HasRoom, (hacc.sent hzero).2]
      constructor
      · rintro ⟨hroom, hmore⟩
        exact ⟨hnew, hle, hfill.2, hroom, hmore.imp id And.left⟩
      · rintro ⟨-, -, hfin, hroom, hmore⟩
        exact ⟨hroom, hmore.imp id fun heof ↦ ⟨heof, hfin⟩⟩
    · refine iff_of_true rfl ?_
      rintro ⟨hnew, hle, hfin, hroom, -⟩
      have hflying := ((hwin.acceptAck huse).sent hzero).2
      have hsame : (({ s with windowSize := w.toNat } : TcpSender).acceptAck
        (s.absoluteAckno ackno)).windowSize = w.toNat := rfl
      refine hfill ⟨?_, hfin⟩
      rw [hflying, hsame]
      change w.toNat > s.nextSeqno - s.absoluteAckno ackno ∨
        w.toNat = 0 ∧ s.nextSeqno - s.absoluteAckno ackno = 0
      omega

/-- The stream is at its end, and nothing is in flight or the FIN is acknowledged. -/
def DoneAfter (s : TcpSender) (header : TcpHeader) : Prop :=
  s.streamIn.eof = true ∧ (s.bytesInFlight = 0 ∨
    (header.ack = true ∧ s.finSent = true ∧ s.absoluteAckno header.ackno = s.nextSeqno))

instance (s : TcpSender) (header : TcpHeader) : Decidable (s.DoneAfter header) :=
  inferInstanceAs (Decidable (_ ∧ (_ ∨ (_ ∧ _ ∧ _))))

/-- An open stream is not done when its window was filled: something is in flight, or nothing could
be sent. -/
theorem not_done_fillWindow (hnext : s.nextSeqno ≠ 0) (hwin : s.windowSize < 2 ^ 64)
    (hfin : s.finSent = false) :
    ¬(s.fillWindow.bytesFlying = 0 ∧ s.fillWindow.stream.eof = true) := by
  rintro ⟨hflying, heof⟩
  have hsent := finSent_fillWindow hnext hwin hflying heof
  obtain ⟨segs, hsegs, heq⟩ := exists_emissions hwin
  rw [heq] at hflying hsent
  cases segs with
  | nil => exact Bool.false_ne_true (hfin.symm.trans hsent)
  | cons seg segs =>
      have hpos := bytesFlying_run_emit_pos hsegs (by simp) hnext hwin
      omega

theorem Accounted.done_ackReceived_iff (h : s.Accounted) (hnext : s.nextSeqno ≠ 0) :
    ((s.ackReceived ackno w).bytesFlying = 0 ∧ (s.ackReceived ackno w).stream.eof = true) ↔
      s.stream.eof = true ∧ (s.bytesFlying = 0 ∨
        (s.finSent = true ∧ s.absoluteAckno ackno = s.nextSeqno)) := by
  have hwin := h.withWindow w
  have hiff := hwin.counts.not_useless_iff hnext (s.absoluteAckno ackno)
  obtain ⟨hle, hflying⟩ := h.sent hnext
  simp only [TcpSender.ackReceived]
  split_ifs with huse hfill
  · -- A useless acknowledgment of all that was sent finds nothing in flight.
    have hold : s.absoluteAckno ackno = s.nextSeqno → s.bytesFlying = 0 := by
      intro heq
      by_contra hne
      exact hiff.mpr ⟨show s.ackAbs < _ by omega, heq.le⟩ huse
    constructor
    · rintro ⟨hzero, heof⟩
      exact ⟨heof, Or.inl hzero⟩
    · rintro ⟨heof, hzero | ⟨-, heq⟩⟩
      · exact ⟨hzero, heof⟩
      · exact ⟨hold heq, heof⟩
  · have hnew : s.ackAbs < s.absoluteAckno ackno := (hiff.mp huse).1
    have hsent : s.absoluteAckno ackno ≤ s.nextSeqno := (hiff.mp huse).2
    refine iff_of_false (not_done_fillWindow hnext (toNat_window_lt w) hfill.2) ?_
    rintro ⟨-, hzero | ⟨hfin, -⟩⟩
    · omega
    · exact Bool.false_ne_true (hfill.2.symm.trans hfin)
  · have hnew : s.ackAbs < s.absoluteAckno ackno := (hiff.mp huse).1
    have hsent : s.absoluteAckno ackno ≤ s.nextSeqno := (hiff.mp huse).2
    have hleft := ((hwin.acceptAck huse).sent hnext).2
    change _ = s.nextSeqno - s.absoluteAckno ackno at hleft
    have hstream : (({ s with windowSize := w.toNat } : TcpSender).acceptAck
      (s.absoluteAckno ackno)).stream = s.stream := rfl
    rw [hleft, hstream, and_comm]
    refine and_congr_right fun _ ↦ ?_
    constructor
    · -- The window has room, so it was the FIN that kept it from being filled.
      intro hzero
      refine Or.inr ⟨?_, by omega⟩
      by_contra hfin
      rw [Bool.not_eq_true] at hfin
      exact hfill ⟨by omega, hfin⟩
    · rintro (hzero | ⟨-, heq⟩) <;> omega

theorem error_ackReceived (s : TcpSender) (ackno : WrappingInt32) (w : UInt16) :
    (s.ackReceived ackno w).stream.error = s.stream.error := by
  simp only [TcpSender.ackReceived]
  split_ifs
  · rfl
  · exact (filled_fillWindow (toNat_window_lt w)).error
  · rfl

end TcpSender

namespace TcpConnection

variable {c c' : TcpConnection} {seg : TcpSegment}

/-- The segment occupies no number, is no keep-alive, and its acknowledgment releases nothing. -/
def Quiet (c : TcpConnection) (seg : TcpSegment) : Prop :=
  seg.lengthInSequenceSpace = 0 ∧ c.receiver.ackno.map (·.sub 1) ≠ some seg.header.seqno ∧
    (seg.header.ack = true → ¬c.sender.Releases seg.header.ackno seg.header.win)

instance (c : TcpConnection) (seg : TcpSegment) : Decidable (c.Quiet seg) :=
  inferInstanceAs (Decidable (_ ∧ _ ∧ (_ → _)))

/-- Nothing is sent: a SYN to a connection that listens finds that the own SYN was sent and nothing
more can be; any other segment is quiet. -/
def Silent (c : TcpConnection) (seg : TcpSegment) : Prop :=
  (c.Listens seg → c.sender.nextSeqno ≠ 0 ∧ ¬(c.sender.HasRoom ∧ c.sender.HasMore)) ∧
    (¬c.Listens seg → c.Quiet seg)

instance (c : TcpConnection) (seg : TcpSegment) : Decidable (c.Silent seg) :=
  inferInstanceAs (Decidable ((_ → _ ∧ ¬_) ∧ (¬_ → _)))

theorem answers_iff (c : TcpConnection) (seg : TcpSegment) :
    c.answers seg = true ↔ seg.lengthInSequenceSpace ≠ 0 ∨
      c.receiver.ackno.map (·.sub 1) = some seg.header.seqno := by
  rw [answers]
  by_cases hlen : seg.lengthInSequenceSpace = 0
  · rw [hlen]
    cases c.receiver.ackno with
    | none => simp
    | some ackno => simpa using eq_comm
  · simp [hlen, Nat.pos_of_ne_zero hlen]

theorem answers_passed_iff (c : TcpConnection) (seg : TcpSegment) :
    ({ c with receiver := c.passed seg } : TcpConnection).answers seg = true ↔
      seg.lengthInSequenceSpace ≠ 0 ∨
        c.receiver.ackno.map (·.sub 1) = some seg.header.seqno := by
  rw [answers_iff]
  refine or_congr_right' fun hlen ↦ ?_
  rw [passed, if_neg hlen]

theorem segmentsOut_eq_iff_of_sends {s : TcpSender} {r : TcpReceiver} (h : Sends c c' s r) :
    c'.segmentsOut = c.segmentsOut ↔ s.segmentsOut = [] := by
  rw [h.segmentsOut, List.append_right_eq_self, List.map_eq_nil_iff]

theorem segmentsOut_relayed_iff (hacc : c.Accounted) :
    (c.relayed seg).segmentsOut = [] ↔
      (seg.header.ack = true → ¬c.sender.Releases seg.header.ackno seg.header.win) := by
  rw [relayed, ← hacc.queue]
  split_ifs with hack
  · rw [hacc.sender.segmentsOut_ackReceived_iff]
    simp [hack]
  · simp [hack]

theorem silent_iff (hacc : c.Accounted) :
    (c.segmentReceived seg).segmentsOut = c.segmentsOut ↔ c.Silent seg := by
  by_cases hlisten : c.Listens seg
  · have hrelayed : c.relayed seg = c.sender := by
      rw [relayed, hlisten.2.1]
      rfl
    have hwin := hacc.sender.windowSize_lt
    rw [segmentsOut_eq_iff_of_sends (sends_of_listens hlisten), hrelayed, Silent]
    simp only [hlisten, true_imp_iff, not_true_eq_false, false_imp_iff, and_true]
    by_cases hzero : c.sender.nextSeqno = 0
    · refine iff_of_false ?_ fun h ↦ h.1 hzero
      rw [TcpSender.fillWindow, if_pos hzero]
      simp [TcpSender.sendSyn, TcpSender.pushSegment]
    · rw [← hacc.queue, TcpSender.segmentsOut_fillWindow_eq_iff hzero (by omega)]
      exact ⟨fun h ↦ ⟨hzero, h⟩, And.right⟩
  · have hanswers := answers_passed_iff c seg
    rw [segmentsOut_eq_iff_of_sends (sends_of_not_listens hlisten), Silent]
    simp only [hlisten, false_imp_iff, not_false_eq_true, true_imp_iff, true_and]
    rw [Quiet, ← segmentsOut_relayed_iff hacc]
    split_ifs with hans
    · refine iff_of_false (by simp [TcpSender.sendEmptySegment]) ?_
      rintro ⟨hlen, hkeep, -⟩
      rcases hanswers.mp hans with hne | heq
      · exact hne hlen
      · exact hkeep heq
    · have hnot := mt hanswers.mpr hans
      rw [not_or, not_not] at hnot
      exact ⟨fun h ↦ ⟨hnot.1, hnot.2, h⟩, fun h ↦ h.2.2⟩

/-- Before the RST is looked at, the acknowledgment and the payload bring both streams to their
ends, and the connection does not linger or has waited long enough. -/
def ClosesFirst (c : TcpConnection) (seg : TcpSegment) : Prop :=
  c.receiver.AtEndAfter seg ∧ c.sender.DoneAfter seg.header ∧
    (c.lingerAfterStreamsFinish = false ∨
      10 * c.cfg.rtTimeout.toNat ≤ c.timeSinceLastSegmentReceived)

instance (c : TcpConnection) (seg : TcpSegment) : Decidable (c.ClosesFirst seg) :=
  inferInstanceAs (Decidable (_ ∧ _ ∧ (_ ∨ _)))

theorem done_relayed_iff (hacc : c.Accounted) (hconn : c.connectCalled = true) :
    ((c.relayed seg).bytesFlying = 0 ∧ (c.relayed seg).stream.eof = true) ↔
      c.sender.DoneAfter seg.header := by
  rw [relayed, TcpSender.DoneAfter]
  split_ifs with hack
  · rw [hacc.sender.done_ackReceived_iff (hacc.connected hconn)]
    simp only [hack, true_and]
    exact Iff.rfl
  · simp only [hack, Bool.false_eq_true, false_and, or_false]
    exact and_comm

/-- The reset finds the connection closed exactly if the segment itself closes it first. -/
theorem not_active_relayed_passed_iff (hacc : c.Accounted) (hr : c.receiver.Regular)
    (hbound : c.receiver.Bounded seg) (hconn : c.connectCalled = true) (hactive : c.active = true) :
    ({ c with sender := c.relayed seg, receiver := c.passed seg } : TcpConnection).active = false ↔
      c.ClosesFirst seg := by
  have hreset : ¬c.Reset := fun hreset ↦ by
    rw [(active_eq_false_iff c).mpr (Or.inl hreset)] at hactive
    exact Bool.false_ne_true hactive
  rw [active_eq_false_iff, ClosesFirst, ← eof_passed_iff hr hbound, ← done_relayed_iff hacc hconn]
  constructor
  · rintro (hreset' | ⟨⟨hin, hflying, hout⟩, htime⟩)
    · exact absurd hreset' hreset
    · exact ⟨hin, ⟨hflying, hout⟩, htime⟩
  · rintro ⟨hin, ⟨hflying, hout⟩, htime⟩
    exact Or.inr ⟨⟨hin, hflying, hout⟩, htime⟩

/-- The streams of a connection that was not reset are not marked as failed. -/
def ErrorFree (c : TcpConnection) : Prop :=
  c.Reset ∨ (c.sender.stream.error = false ∧ c.receiver.streamOut.error = false)

theorem error_relayed (c : TcpConnection) (seg : TcpSegment) :
    (c.relayed seg).stream.error = c.sender.stream.error := by
  rw [relayed]
  split_ifs
  · exact TcpSender.error_ackReceived _ _ _
  · rfl

theorem error_passed (c : TcpConnection) (seg : TcpSegment) :
    (c.passed seg).streamOut.error = c.receiver.streamOut.error := by
  rw [passed]
  split_ifs
  · exact TcpReceiver.error_segmentReceived _ _
  · rfl

theorem error_segmentReceived (hacc : c.Accounted) (seg : TcpSegment) :
    (c.segmentReceived seg).Reset ∨
      ((c.segmentReceived seg).sender.stream.error = c.sender.stream.error ∧
        (c.segmentReceived seg).receiver.streamOut.error = c.receiver.streamOut.error) := by
  have hwin := (hacc.relayed seg).windowSize_lt
  have hsender := error_relayed c seg
  have hreceiver := error_passed c seg
  have hfill := (TcpSender.filled_fillWindow
    (show (c.relayed seg).windowSize < 2 ^ 64 by omega)).error.trans hsender
  simp only [segmentReceived, relayAck_passToReceiver, resetBy, answer, stopLingering]
  split_ifs
  all_goals first
    | exact Or.inr ⟨hfill, hreceiver⟩
    | exact Or.inr ⟨hsender, hreceiver⟩
    | exact Or.inl (Or.inl rfl)

theorem ErrorFree.step (h : c.ErrorFree) (hacc : c.Accounted) (op : Op) :
    (c.step op).ErrorFree := by
  rcases h with hreset | ⟨hsender, hreceiver⟩
  · exact Or.inl (hreset.step op)
  have hwin : c.sender.windowSize < 2 ^ 64 := hacc.sender.windowSize_lt.trans (by norm_num)
  cases op with
  | connect => exact Or.inr ⟨(TcpSender.filled_fillWindow hwin).error.trans hsender, hreceiver⟩
  | write data =>
      exact Or.inr ⟨(TcpSender.filled_fillWindow
        (s := { c.sender with stream := c.sender.stream.write data }) hwin).error.trans hsender,
        hreceiver⟩
  | endInputStream =>
      exact Or.inr ⟨(TcpSender.filled_fillWindow
        (s := { c.sender with stream := c.sender.stream.endInput }) hwin).error.trans hsender,
        hreceiver⟩
  | tick ms =>
      obtain ⟨out, times, time, consec, rto, heq, -, -⟩ := TcpSender.exists_tick c.sender ms
      simp only [TcpConnection.step, tick, heq]
      split_ifs
      · exact Or.inl (Or.inr rfl)
      · exact Or.inr ⟨hsender, hreceiver⟩
  | read len => exact Or.inr ⟨hsender, hreceiver⟩
  | segmentReceived seg =>
      rcases error_segmentReceived hacc seg with hreset | ⟨hsame, hsame'⟩
      · exact Or.inl hreset
      · exact Or.inr ⟨hsame.trans hsender, hsame'.trans hreceiver⟩
  | takeSegment => exact Or.inr ⟨hsender, hreceiver⟩

theorem errorFree_run (cfg : TcpConfig) (random : UInt32) (ops : List Op) :
    (run step (new cfg random) ops).ErrorFree := by
  have h := run_invariant_of_step (I := fun c : TcpConnection ↦ c.Accounted ∧ c.ErrorFree)
    (fun _ op hc ↦ ⟨hc.1.step op, hc.2.step hc.1 op⟩)
    ⟨accounted_new cfg random, Or.inr ⟨rfl, rfl⟩⟩ ops
  exact h.2

/-- Closed, with both streams marked as failed. -/
def Failed (c : TcpConnection) : Prop :=
  c.active = false ∧ c.sender.streamIn.error = true ∧ c.inboundStream.error = true

instance (c : TcpConnection) : Decidable c.Failed := inferInstanceAs (Decidable (_ ∧ _ ∧ _))

/-- A RST closes the connection exactly if it finds it active when it is looked at. -/
theorem failed_iff_active (hmarks : c.ErrorFree)
    (hrst : seg.header.rst = true) (hconn : c.connectCalled = true) (hactive : c.active = true) :
    (c.segmentReceived seg).Failed ↔
      ({ c with sender := c.relayed seg, receiver := c.passed seg } :
        TcpConnection).active = true := by
  have hreset : ¬c.Reset := fun hreset ↦ by
    rw [(active_eq_false_iff c).mpr (Or.inl hreset)] at hactive
    exact Bool.false_ne_true hactive
  have hsender := (error_relayed c seg).trans (hmarks.resolve_left hreset).1
  have hlisten : ¬(seg.header.syn && !seg.header.ack && !c.connectCalled) = true := by
    simp [hconn]
  simp only [Failed, segmentReceived, relayAck_passToReceiver]
  rw [if_neg hlisten, resetBy]
  cases hopen : ({ c with sender := c.relayed seg, receiver := c.passed seg } :
      TcpConnection).active with
  | true =>
      refine iff_of_true ?_ rfl
      rw [if_pos (by simp [hrst, hconn])]
      simp only [answer, stopLingering]
      split_ifs <;> exact ⟨rfl, rfl, rfl⟩
  | false =>
      -- The streams are as the acknowledgment and the payload left them, not in error.
      refine iff_of_false ?_ Bool.false_ne_true
      rw [if_neg (by simp)]
      rintro ⟨-, herror, -⟩
      refine Bool.false_ne_true (hsender.symm.trans (Eq.trans ?_ herror))
      simp only [answer, stopLingering]
      split_ifs <;> rfl

/-- In every reachable state a segment with the RST emits nothing exactly if it is silent. If
`connect` was called and the connection is active, the segment closes it with both streams in error
exactly if its acknowledgment and payload do not close it first. -/
theorem reset_is_silent_and_final (cfg : TcpConfig) (random : UInt32) (ops : List Op)
    (seg : TcpSegment) (hrst : seg.header.rst = true) :
    let c := run step (new cfg random) ops
    ((c.segmentReceived seg).segmentsOut = c.segmentsOut ↔ c.Silent seg) ∧
    (1 ≤ cfg.recvCapacity →
      Along step Bounded (new cfg random) (ops ++ [.segmentReceived seg]) →
      c.connectCalled = true → c.active = true →
      ((c.segmentReceived seg).active = false ∧
        (c.segmentReceived seg).sender.streamIn.error = true ∧
        (c.segmentReceived seg).inboundStream.error = true ↔ ¬c.ClosesFirst seg)) := by
  intro c
  have hacc : c.Accounted := accounted_run cfg random ops
  refine ⟨silent_iff hacc, fun hcap hops hconn hactive ↦ ?_⟩
  obtain ⟨hfront, hbound, -⟩ := along_append.mp hops
  have hr : c.receiver.Regular := regular_run hcap hfront
  rw [← not_active_relayed_passed_iff hacc hr hbound hconn hactive, Bool.not_eq_false]
  exact failed_iff_active (errorFree_run cfg random ops) hrst hconn hactive

/-- Connected. -/
def connected : List Op :=
  [.connect,
    .segmentReceived { header :=
      { seqno := ⟨20⟩, syn := true, ack := true, ackno := ⟨8⟩, win := 10 } }]

/-- Connected, and closed first; the FIN of the peer came, but not the acknowledgment of its
own, and ten seconds pass. -/
def awaitingLastAck : List Op :=
  connected ++
    [.endInputStream,
      .segmentReceived { header :=
        { seqno := ⟨21⟩, fin := true, ack := true, ackno := ⟨8⟩, win := 10 } },
      .tick 10000]

/-- A bare RST closes a connection without a word. -/
theorem reset_closes_connected :
    let c := run step (new { recvCapacity := 4, sendCapacity := 4, fixedIsn := some ⟨7⟩ } 0)
      connected
    let seg : TcpSegment := { header := { seqno := ⟨21⟩, rst := true } }
    (c.segmentReceived seg).segmentsOut = c.segmentsOut ∧
      (c.segmentReceived seg).active = false :=
  have h := reset_is_silent_and_final
    { recvCapacity := 4, sendCapacity := 4, fixedIsn := some ⟨7⟩ } 0 connected
    { header := { seqno := ⟨21⟩, rst := true } } rfl
  ⟨h.1.mpr (by decide +kernel),
    ((h.2 (by decide) (by decide +kernel) (by decide +kernel) (by decide +kernel)).mpr
      (by decide +kernel)).1⟩

/-- A RST with one byte is answered. A RST with the acknowledgment that the connection waits for
is dropped: the linger time has passed, the acknowledgment closes the connection, and then the
arrival of the segment makes it active again, without an error. -/
theorem reset_answered_and_dropped :
    let c := run step (new { recvCapacity := 4, sendCapacity := 4, fixedIsn := some ⟨7⟩ } 0)
      connected
    let seg : TcpSegment := { header := { seqno := ⟨21⟩, rst := true }, payload := [97] }
    let c' := run step (new { recvCapacity := 4, sendCapacity := 4, fixedIsn := some ⟨7⟩ } 0)
      awaitingLastAck
    let seg' : TcpSegment :=
      { header := { seqno := ⟨22⟩, rst := true, ack := true, ackno := ⟨9⟩, win := 10 } }
    (c.segmentReceived seg).segmentsOut.length = c.segmentsOut.length + 1 ∧
      c'.connectCalled = true ∧ c'.active = true ∧ (c'.segmentReceived seg').active = true ∧
      (c'.segmentReceived seg').sender.streamIn.error = false ∧
      (c'.segmentReceived seg').inboundStream.error = false := by
  decide +kernel

end TcpConnection

end Sponge
