import Sponge.Connection.Reset
import Sponge.Sender.ImpossibleAck
import Sponge.Sender.Progress

/-!
# Acknowledgments before the SYN

A connection that has not sent its SYN relays the acknowledgments of arriving
segments like any other. Those that acknowledge nothing the sender believes in
leave only their window and the time of their arrival behind. If the window is
the one of a fresh sender, the connection opens later as if nothing had come: the
time of arrival is looked at only when both streams are closed, and before that
another segment has arrived.
-/

namespace Sponge

open Lib

namespace TcpSender

variable {s : TcpSender}

/-- The SYN fills the first window. -/
theorem Accounted.handshaking_fillWindow (hacc : s.Accounted) (h : s.Handshaking) :
    s.fillWindow.Handshaking := by
  by_cases hzero : s.nextSeqno = 0
  · rw [TcpSender.fillWindow, if_pos hzero]
    refine ⟨h.windowSize, h.ackAbs, ?_⟩
    change s.nextSeqno + 1 ≤ 1
    omega
  · have hfull : ¬s.HasRoom := by
      rw [HasRoom, h.windowSize, (hacc.sent hzero).2, h.ackAbs]
      omega
    rw [fillWindow_eq_self hzero fun hboth ↦ hfull hboth.1]
    exact h

/-- Filling the window right after the SYN was acknowledged leaves something in flight if the
stream is at its end. -/
theorem Accounted.not_closed_fillWindow (hacc : s.Accounted) (hnext : s.nextSeqno ≠ 0)
    (hack : s.ackAbs ≤ 1) :
    ¬(s.fillWindow.bytesFlying = 0 ∧ s.fillWindow.stream.eof = true) := by
  have hlt := hacc.windowSize_lt
  have hne : s.fillWindow.nextSeqno ≠ 0 := nextSeqno_fillWindow_ne_zero (by omega)
  rintro ⟨hflying, heof⟩
  have hfin := finSent_fillWindow hnext (by omega) hflying heof
  have hsent := (hacc.fillWindow.sent hne).2
  have hcount := hacc.fillWindow.counts.of_ne_zero hne
  rw [(filled_fillWindow (by omega)).ackAbs] at hsent
  rw [if_pos hfin] at hcount
  omega

/-- The stream was not closed before the SYN. -/
structure Opening (s : TcpSender) : Prop where
  accounted : s.Accounted
  handshaking : s.Handshaking
  ended : s.nextSeqno = 0 → s.stream.ended = false

namespace Opening

theorem frame (h : s.Opening) {out : List TcpSegment} {stream : ByteStream}
    (hstream : stream.SameBytes s.stream) :
    ({ s with segmentsOut := out, stream := stream } : TcpSender).Opening :=
  ⟨h.accounted.frame hstream.bytesReaded rfl, h.handshaking.frame,
    fun hzero ↦ hstream.ended.trans (h.ended hzero)⟩

theorem fillWindow (h : s.Opening) {stream : ByteStream}
    (hread : stream.bytesReaded = s.stream.bytesReaded) :
    ({ s with stream := stream } : TcpSender).fillWindow.Opening := by
  have hacc : ({ s with stream := stream } : TcpSender).Accounted := h.accounted.frame hread rfl
  have hwin := hacc.windowSize_lt
  refine ⟨hacc.fillWindow, hacc.handshaking_fillWindow h.handshaking.frame, fun hzero ↦ ?_⟩
  exact absurd hzero (nextSeqno_fillWindow_ne_zero (by omega))

theorem tick (h : s.Opening) (ms : ℕ) : (s.tick ms).Opening := by
  refine ⟨h.accounted.tick ms, h.handshaking.tick ms, ?_⟩
  obtain ⟨out, times, time, consec, rto, heq, -, -⟩ := exists_tick s ms
  rw [heq]
  exact h.ended

theorem not_closed (h : s.Opening) : ¬(s.bytesFlying = 0 ∧ s.stream.eof = true) := by
  rintro ⟨hflying, heof⟩
  by_cases hzero : s.nextSeqno = 0
  · exact absurd ((s.stream.eof_iff.mp heof).2.symm.trans (h.ended hzero)) (by decide)
  · have hsent := (h.accounted.sent hzero).2
    rw [h.handshaking.ackAbs] at hsent
    omega

/-- Not even the acknowledgment of the SYN closes the outbound stream: if it is at its end, the
FIN goes out at once. -/
theorem not_closed_ackReceived (h : s.Opening) (ackno : WrappingInt32) (w : UInt16) :
    ¬((s.ackReceived ackno w).bytesFlying = 0 ∧ (s.ackReceived ackno w).stream.eof = true) := by
  have hwin := h.accounted.withWindow w
  have hnext := h.handshaking.nextSeqno_le
  simp only [TcpSender.ackReceived]
  split_ifs with huse hfill
  · exact h.not_closed
  · have hacc := hwin.acceptAck huse
    by_cases hzero : s.nextSeqno = 0
    · have hlt := hwin.windowSize_lt_acceptAck_of_unsent hzero huse
      omega
    · refine hacc.not_closed_fillWindow hzero ?_
      exact ((hwin.counts.not_useless_iff hzero _).mp huse).2.trans hnext
  · -- With nothing in flight only a FIN keeps the window from being filled, and none was sent.
    rintro ⟨hflying, -⟩
    have hfin : s.finSent = true := by
      by_contra hfin
      exact hfill ⟨by omega, Bool.not_eq_true _ ▸ hfin⟩
    have hzero : s.nextSeqno ≠ 0 := fun hzero ↦ by
      simp [(h.accounted.counts.of_zero hzero).2] at hfin
    have hcount := h.accounted.counts.of_ne_zero hzero
    rw [if_pos hfin] at hcount
    omega

end Opening

end TcpSender

namespace TcpConnection

variable {c c' : TcpConnection} {s : TcpSender} {r : TcpReceiver} {seg : TcpSegment}

theorem opening_of_sends (hsends : Sends c c' s r) (hs : s.Opening) : c'.sender.Opening := by
  obtain ⟨stream, hstream, heq⟩ := hsends.exists_sender
  rw [heq]
  exact hs.frame hstream

/-- While the outbound stream is open, the time of the last arrival does not matter. -/
theorem active_of_not_closed (h : ¬(c.sender.bytesFlying = 0 ∧ c.sender.stream.eof = true))
    (time : ℕ) : ({ c with timeLastSegmentReceived := time } : TcpConnection).active =
      c.active := by
  have hopen : (c.receiver.streamOut.eof && c.bytesInFlight == 0 && c.sender.streamIn.eof) =
      false := by
    by_contra htest
    simp only [Bool.not_eq_false, Bool.and_eq_true, beq_iff_eq, and_assoc] at htest
    exact h htest.2
  have hsame : ({ c with timeLastSegmentReceived := time } : TcpConnection).active =
    if c.rstReceived || c.rstToSend then false
    else if c.receiver.streamOut.eof && c.bytesInFlight == 0 && c.sender.streamIn.eof then _
    else true := rfl
  rw [hsame, active, hopen]
  rfl

theorem not_closed_relayed (h : c.sender.Opening) (seg : TcpSegment) :
    ¬((c.relayed seg).bytesFlying = 0 ∧ (c.relayed seg).stream.eof = true) := by
  rw [relayed]
  split_ifs
  · exact h.not_closed_ackReceived _ _
  · exact h.not_closed

/-- The segment makes a connection that listens connect. -/
def Opens (c : TcpConnection) (seg : TcpSegment) : Prop :=
  (seg.header.syn && !seg.header.ack && !c.connectCalled) = true

theorem relayed_withTime (c : TcpConnection) (time : ℕ) (seg : TcpSegment) :
    ({ c with timeLastSegmentReceived := time } : TcpConnection).relayed seg =
      c.relayed seg := rfl

theorem passed_withTime (c : TcpConnection) (time : ℕ) (seg : TcpSegment) :
    ({ c with timeLastSegmentReceived := time } : TcpConnection).passed seg = c.passed seg := rfl

/-- A segment that does not open the connection brings the time of arrival up to date. -/
theorem segmentReceived_of_not_opens (h : c.sender.Opening) (hnot : ¬c.Opens seg) (time : ℕ) :
    ({ c with timeLastSegmentReceived := time } : TcpConnection).segmentReceived seg =
      c.segmentReceived seg := by
  have hopen := active_of_not_closed (c := { c with
    sender := c.relayed seg, receiver := c.passed seg }) (not_closed_relayed h seg) time
  rw [Opens] at hnot
  simp only [segmentReceived, relayAck_passToReceiver, relayed_withTime, passed_withTime,
    if_neg hnot]
  -- The old time is read by `active` alone, in the branch of a reset, and then overwritten.
  simp only [resetBy, hopen]
  split_ifs <;> rfl

theorem segmentReceived_of_opens (hnot : c.Opens seg) (time : ℕ) :
    ({ c with timeLastSegmentReceived := time } : TcpConnection).segmentReceived seg =
      { c.segmentReceived seg with timeLastSegmentReceived := time } := by
  rw [Opens] at hnot
  simp only [segmentReceived, relayAck_passToReceiver, relayed_withTime, passed_withTime,
    if_pos hnot]
  rfl

theorem tick_withTime (c : TcpConnection) (time ms : ℕ) :
    ({ c with timeLastSegmentReceived := time } : TcpConnection).tick ms =
      { c.tick ms with timeLastSegmentReceived := time } := by
  simp only [tick]
  split_ifs <;> rfl

/-- Equal, or still opening and different only in the time of the last arrival. -/
def Delayed (c c' : TcpConnection) : Prop :=
  c' = c ∨ (c.sender.Opening ∧ ∃ time, c' = { c with timeLastSegmentReceived := time })

theorem opening_segmentReceived (h : c.sender.Opening) (hopens : c.Opens seg) :
    (c.segmentReceived seg).sender.Opening := by
  have hack : seg.header.ack = false := by
    simp only [Opens, Bool.and_eq_true, Bool.not_eq_true'] at hopens
    exact hopens.1.2
  have hrelayed : (c.relayed seg).Opening := by
    rw [relayed, if_neg (by simp [hack])]
    exact h
  obtain ⟨s, hs, hsends⟩ := exists_sends_segmentReceived c seg
  apply opening_of_sends hsends
  rcases hs with rfl | rfl | rfl
  · exact hrelayed
  · exact hrelayed.fillWindow rfl
  · exact hrelayed.frame ⟨rfl, rfl, rfl⟩

theorem Delayed.step (h : Delayed c c') (op : Op) : Delayed (c.step op) (c'.step op) := by
  rcases h with rfl | ⟨hopen, time, rfl⟩
  · exact Or.inl rfl
  · -- Only a segment that does not open the connection writes the time, in both alike.
    cases op with
    | connect =>
        exact Or.inr ⟨opening_of_sends (sends_connect c) (hopen.fillWindow rfl), time, rfl⟩
    | write data =>
        exact Or.inr ⟨opening_of_sends (sends_write c data) (hopen.fillWindow rfl), time, rfl⟩
    | endInputStream =>
        exact Or.inr ⟨opening_of_sends (sends_endInputStream c) (hopen.fillWindow rfl), time, rfl⟩
    | tick ms =>
        exact Or.inr ⟨opening_of_sends (sends_tick c ms) (hopen.tick ms), time,
          tick_withTime c time ms⟩
    | read len => exact Or.inr ⟨hopen, time, rfl⟩
    | segmentReceived seg =>
        by_cases hopens : c.Opens seg
        · exact Or.inr ⟨opening_segmentReceived hopen hopens, time,
            segmentReceived_of_opens hopens time⟩
        · exact Or.inl (segmentReceived_of_not_opens hopen hopens time)
    | takeSegment => exact Or.inr ⟨hopen, time, rfl⟩

theorem Delayed.agrees (h : Delayed c c') :
    (∃ time, c' = { c with timeLastSegmentReceived := time }) ∧ c'.active = c.active := by
  rcases h with rfl | ⟨hopen, time, rfl⟩
  · exact ⟨⟨_, rfl⟩, rfl⟩
  · exact ⟨⟨time, rfl⟩, active_of_not_closed hopen.not_closed time⟩

theorem Quiet.not_syn (h : c.Quiet seg) : seg.header.syn = false := by
  have hlen := h.1
  rw [TcpSegment.lengthInSequenceSpace] at hlen
  by_contra hsyn
  simp [hsyn] at hlen

theorem Quiet.answers_eq (h : c.Quiet seg) (hsame : c'.receiver.ackno = c.receiver.ackno) :
    c'.answers seg = false := by
  rw [← Bool.not_eq_true, answers_iff, hsame]
  rintro (hlen | hkeep)
  · exact hlen h.1
  · exact h.2.1 hkeep

/-- What a connection that has not sent its SYN keeps of a quiet segment. -/
theorem segmentReceived_of_unsent (hacc : c.Accounted) (hnext : c.sender.nextSeqno = 0)
    (hack : seg.header.ack = true) (hquiet : c.Quiet seg)
    (hlate : ¬c.sender.Premature seg.header.ackno) :
    c.segmentReceived seg = { c with
      sender := { c.sender with windowSize := seg.header.win.toNat }
      timeLastSegmentReceived := c.time } := by
  have hrelayed : c.relayed seg = { c.sender with windowSize := seg.header.win.toNat } := by
    rw [relayed, if_pos hack]
    apply if_pos
    by_contra huse
    have hone :=
      ((hacc.sender.withWindow seg.header.win).not_useless_iff_of_unsent hnext _).mp huse
    exact hlate ⟨hnext, hone⟩
  have hpassed : c.passed seg = c.receiver := if_neg (not_not.mpr hquiet.1)
  have hconn : c.connectCalled = false := by
    by_contra hconn
    exact hacc.connected (by simpa using hconn) hnext
  have hfin : seg.header.fin = false := by
    have hlen := hquiet.1
    rw [TcpSegment.lengthInSequenceSpace] at hlen
    by_contra hfin
    simp [hfin] at hlen
  have hqueue := hacc.queue
  simp only [segmentReceived, relayAck_passToReceiver, hquiet.not_syn, Bool.false_and,
    Bool.false_eq_true, if_false, resetBy, hconn, Bool.and_false]
  rw [answer, hquiet.answers_eq (congrArg TcpReceiver.ackno hpassed)]
  simp only [Bool.false_eq_true, if_false, stopLingering, hfin, Bool.false_and, sendSegments,
    hrelayed, hpassed, hqueue, List.map_nil, List.append_nil]

theorem run_of_unsent (hacc : c.Accounted) (hnext : c.sender.nextSeqno = 0)
    {segs : List TcpSegment} (hsegs : ∀ seg ∈ segs, seg.header.ack = true ∧ c.Quiet seg ∧
      ¬c.sender.Premature seg.header.ackno) :
    ∃ time, run step c (segs.map .segmentReceived) = { c with
      sender := { c.sender with
        windowSize := (segs.getLast?.map (·.header.win.toNat)).getD c.sender.windowSize }
      timeLastSegmentReceived := time } := by
  induction segs using List.reverseRecOn with
  | nil => exact ⟨_, rfl⟩
  | append_singleton segs seg ih =>
      rw [List.forall_mem_append] at hsegs
      obtain ⟨time, heq⟩ := ih hsegs.1
      obtain ⟨hack, hquiet, hlate⟩ := hsegs.2 seg (List.mem_singleton_self seg)
      have hacc' : (run step c (segs.map .segmentReceived)).Accounted :=
        run_invariant_of_step (fun _ op h ↦ h.step op) hacc _
      rw [heq] at hacc'
      refine ⟨c.time, ?_⟩
      rw [List.map_append, List.map_singleton, run_concat, heq, List.getLast?_concat]
      exact segmentReceived_of_unsent hacc' hnext hack hquiet hlate

/-- In every reachable state before the SYN that no acknowledgment has touched, acknowledgments
that are quiet, not of the number one, and end with the window of a fresh sender leave nothing in
flight, nothing acknowledged and nothing emitted, and every run goes on as without them, but for
the time of the last arrival. -/
theorem early_acks_harmless (cfg : TcpConfig) (random : UInt32) (before : List Op)
    (segs : List TcpSegment)
    (hnext : (run step (new cfg random) before).sender.nextSeqnoAbsolute = 0)
    (hzero : (run step (new cfg random) before).sender.ackAbs = 0)
    (hwin : (run step (new cfg random) before).sender.windowSize = 1)
    (hsegs : ∀ seg ∈ segs, seg.header.ack = true ∧ seg.header.syn = false)
    (hquiet : ∀ seg ∈ segs, (run step (new cfg random) before).Quiet seg ∧
      ¬(run step (new cfg random) before).sender.Premature seg.header.ackno)
    (hlast : ∀ seg ∈ segs.getLast?, seg.header.win = 1) :
    let c := run step (new cfg random) before
    let c' := run step c (segs.map .segmentReceived)
    c'.bytesInFlight = 0 ∧ c'.sender.nextSeqnoAbsolute = 0 ∧ c'.sender.ackAbs = 0 ∧
      c'.segmentsOut = c.segmentsOut ∧
      ∀ rest, (∃ time, run step c' rest =
          { run step c rest with timeLastSegmentReceived := time }) ∧
        (run step c' rest).active = (run step c rest).active := by
  intro c c'
  have hacc : c.Accounted := accounted_run cfg random before
  have hack : c.sender.ackAbs = 0 := hzero
  have hopening : c.sender.Opening :=
    ⟨hacc.sender, ⟨hwin, hack, hnext.trans_le (Nat.zero_le 1)⟩, hacc.ended⟩
  obtain ⟨time, heq⟩ := run_of_unsent hacc hnext fun seg hseg ↦
    ⟨(hsegs seg hseg).1, hquiet seg hseg⟩
  have hsame : c' = { c with timeLastSegmentReceived := time } := by
    have hfresh : (segs.getLast?.map (·.header.win.toNat)).getD c.sender.windowSize =
        c.sender.windowSize := by
      cases hseg : segs.getLast? with
      | none => rfl
      | some seg =>
          rw [Option.map_some, Option.getD_some, hlast seg hseg]
          exact hwin.symm
    rw [hfresh] at heq
    exact heq
  have hflying : c.sender.bytesFlying = 0 := by
    rcases (hacc.sender.unsent hnext).2 with ⟨-, hflying⟩ | ⟨hone, -⟩
    · exact hflying
    · exact absurd (hack.symm.trans hone) (by decide)
  refine ⟨?_, ?_, ?_, ?_, fun rest ↦ ?_⟩
  · rw [hsame]
    exact hflying
  · rw [hsame]
    exact hnext
  · rw [hsame]
    exact hzero
  · rw [hsame]
  · apply Delayed.agrees
    apply run_related (R := Delayed) (fun c c' op h ↦ h.step op)
    exact Or.inr ⟨hopening, time, hsame⟩

/-- A bare acknowledgment of the number three, with the window of a fresh sender. -/
theorem early_ack_of_three_harmless :
    let c := new { recvCapacity := 4, sendCapacity := 4, fixedIsn := some ⟨7⟩ } 0
    let c' := c.segmentReceived { header := { ack := true, ackno := ⟨10⟩, win := 1 } }
    c'.sender.ackAbs = 0 ∧ c'.connect.active = c.connect.active :=
  have h := early_acks_harmless
    { recvCapacity := 4, sendCapacity := 4, fixedIsn := some ⟨7⟩ } 0 []
    [{ header := { ack := true, ackno := ⟨10⟩, win := 1 } }] (by decide) (by decide) (by decide)
    (by decide) (by decide) (by decide)
  ⟨h.2.2.1, (h.2.2.2.2 [.connect]).2⟩

/-- The acknowledgment of the number one is accepted, and the count of bytes in flight falls below
zero. A segment with a byte is answered. After a window of ten, the bytes written after `connect`
are sent while the SYN is in flight. -/
theorem early_acks_harm :
    let c := new { recvCapacity := 4, sendCapacity := 4, fixedIsn := some ⟨7⟩ } 0
    let one : TcpSegment := { header := { ack := true, ackno := ⟨8⟩, win := 1 } }
    let byte : TcpSegment :=
      { header := { ack := true, ackno := ⟨10⟩, win := 1 }, payload := [97] }
    let ten : TcpSegment := { header := { ack := true, ackno := ⟨10⟩, win := 10 } }
    (c.segmentReceived one).sender.ackAbs = 1 ∧
      (c.segmentReceived one).bytesInFlight = 2 ^ 64 - 1 ∧
      (c.segmentReceived byte).segmentsOut.length = 1 ∧
      (run step c [.connect, .write [97]]).segmentsOut.length = 1 ∧
      (run step c [.segmentReceived ten, .connect, .write [97]]).segmentsOut.length = 2 := by
  decide +kernel

end TcpConnection

end Sponge
