import Sponge.Sender.Outstanding

/-!
# What holds in every run

An acknowledgment may come before the SYN. The sender then accepts the number
one, and its count of bytes in flight wraps around below zero; the SYN brings it
back to zero. Apart from this detour the count is the distance from the number
acknowledged to the next one, whatever is written, acknowledged and ticked.
-/

namespace Sponge.TcpSender

open Lib

variable {s : TcpSender} {seg : TcpSegment}

/-- The first thing that filling the window sends is the SYN. -/
theorem nextSeqno_fillWindow_ne_zero (hwin : s.windowSize < 2 ^ 64) :
    s.fillWindow.nextSeqno ≠ 0 := by
  by_cases hzero : s.nextSeqno = 0
  · rw [TcpSender.fillWindow, if_pos hzero]
    exact Nat.succ_ne_zero _
  · have hle := (filled_fillWindow hwin).nextSeqno_le
    omega

theorem nextSeqno_ackReceived_ne_zero (hnext : s.nextSeqno ≠ 0) (ackno : WrappingInt32)
    (w : UInt16) : (s.ackReceived ackno w).nextSeqno ≠ 0 := by
  simp only [TcpSender.ackReceived]
  split_ifs
  · exact hnext
  · exact nextSeqno_fillWindow_ne_zero (toNat_window_lt w)
  · exact hnext

structure Accounted (s : TcpSender) : Prop where
  windowSize_lt : s.windowSize < 2 ^ 16
  counts : s.Counts
  length_seqnos : s.seqnosAbsOutstanding.length = s.segmentsOutstanding.length
  length_timestamps : s.timestampsOutstanding.length = s.segmentsOutstanding.length
  unsent : s.nextSeqno = 0 → s.segmentsOutstanding = [] ∧
    (s.ackAbs = 0 ∧ s.bytesFlying = 0 ∨ s.ackAbs = 1 ∧ s.bytesFlying = 2 ^ 64 - 1)
  sent : s.nextSeqno ≠ 0 → s.ackAbs ≤ s.nextSeqno ∧ s.bytesFlying = s.nextSeqno - s.ackAbs

theorem accounted_new (capacity : ℕ) (retxTimeout : UInt16) (fixedIsn : Option WrappingInt32)
    (random : UInt32) : (new capacity retxTimeout fixedIsn random).Accounted where
  windowSize_lt := show 1 < 2 ^ 16 by norm_num
  counts := ⟨fun _ ↦ ⟨rfl, rfl⟩, fun h ↦ absurd rfl h⟩
  length_seqnos := rfl
  length_timestamps := rfl
  unsent := fun _ ↦ ⟨rfl, Or.inl ⟨rfl, rfl⟩⟩
  sent := fun h ↦ absurd rfl h

namespace Accounted

theorem frame (h : s.Accounted) {out : List TcpSegment} {stream : ByteStream}
    {times : List ℕ} {time consec rto : ℕ} (hread : stream.bytesReaded = s.stream.bytesReaded)
    (htimes : times.length = s.timestampsOutstanding.length) :
    ({ s with
      segmentsOut := out
      stream := stream
      timestampsOutstanding := times
      time := time
      consecRetrans := consec
      currRto := rto } : TcpSender).Accounted :=
  { windowSize_lt := h.windowSize_lt
    counts :=
      ⟨fun hzero ↦ ⟨hread.trans (h.counts.of_zero hzero).1, (h.counts.of_zero hzero).2⟩,
        fun hne ↦ by
          dsimp only
          rw [hread]
          exact h.counts.of_ne_zero hne⟩
    length_seqnos := h.length_seqnos
    length_timestamps := htimes.trans h.length_timestamps
    unsent := h.unsent
    sent := h.sent }

theorem withWindow (h : s.Accounted) (w : UInt16) :
    ({ s with windowSize := w.toNat } : TcpSender).Accounted :=
  { h with
    windowSize_lt := w.toNat_lt
    counts := ⟨h.counts.of_zero, h.counts.of_ne_zero⟩ }

/-- The SYN undoes an early acknowledgment: the count wraps around again. -/
theorem bytesFlying_emit (h : s.Accounted) (hseg : s.MayEmit seg) :
    s.ackAbs ≤ s.nextSeqno + seg.lengthInSequenceSpace ∧
      (s.emit seg).bytesFlying = s.nextSeqno + seg.lengthInSequenceSpace - s.ackAbs := by
  have hwin := h.windowSize_lt
  by_cases hzero : s.nextSeqno = 0
  · change _ ∧ add64 s.bytesFlying seg.lengthInSequenceSpace = _
    rw [hseg.length_of_syn hzero, hzero]
    rcases (h.unsent hzero).2 with ⟨hack, hflying⟩ | ⟨hack, hflying⟩
    · rw [hack, hflying]
      decide
    · rw [hack, hflying]
      decide
  · obtain ⟨hle, hflying⟩ := h.sent hzero
    rw [hseg.bytesFlying_emit (by omega) hzero, hflying]
    omega

theorem emit (h : s.Accounted) (hseg : s.MayEmit seg) : (s.emit seg).Accounted := by
  have hpos := hseg.length_pos
  constructor
  case windowSize_lt => exact h.windowSize_lt
  case counts => exact h.counts.emit hseg
  case length_seqnos => simp [h.length_seqnos]
  case length_timestamps => simp [h.length_timestamps]
  case unsent =>
    intro hzero
    rw [emit_nextSeqno] at hzero
    omega
  case sent => exact fun _ ↦ h.bytesFlying_emit hseg

theorem fillWindow (h : s.Accounted) : s.fillWindow.Accounted := by
  have hwin := h.windowSize_lt
  apply fillWindow_invariant (I := Accounted) (by omega) _ h
  intro s seg hs hseg
  exact hs.emit hseg

/-- Before the SYN only the number one is accepted, and only once. -/
theorem eq_one_of_not_useless (h : s.Accounted) (hnext : s.nextSeqno = 0) {ack : ℕ}
    (huse : ¬s.Useless ack) : s.ackAbs = 0 ∧ ack = 1 := by
  obtain ⟨hread, hfin⟩ := h.counts.of_zero hnext
  simp only [Useless, not_or, not_and, ByteStream.bytesRead, hread] at huse
  obtain ⟨-, hnew, hone⟩ := huse
  have hle := hone hfin
  omega

theorem acceptAck (h : s.Accounted) {ack : ℕ} (huse : ¬s.Useless ack) :
    (s.acceptAck ack).Accounted := by
  have hlen := length_popAcked ack s.seqnosAbsOutstanding s.segmentsOutstanding
    s.timestampsOutstanding h.length_seqnos h.length_timestamps
  constructor
  case windowSize_lt => exact h.windowSize_lt
  case counts => exact ⟨h.counts.of_zero, h.counts.of_ne_zero⟩
  case length_seqnos => exact hlen.1
  case length_timestamps => exact (List.length_map _).trans hlen.2
  case unsent =>
    -- The number one is taken off a count of zero.
    intro hzero
    obtain ⟨hnone, -⟩ := h.unsent hzero
    obtain ⟨hack, rfl⟩ := h.eq_one_of_not_useless hzero huse
    have hflying := (h.unsent hzero).2
    have hseqnos : s.seqnosAbsOutstanding = [] := by
      apply List.length_eq_zero_iff.mp
      rw [h.length_seqnos, hnone, List.length_nil]
    refine ⟨?_, Or.inr ⟨rfl, ?_⟩⟩
    · simp [TcpSender.acceptAck, hseqnos, hnone, popAcked]
    · change sub64 s.bytesFlying (1 - s.ackAbs) = _
      rw [hack, show s.bytesFlying = 0 by omega]
      decide
  case sent =>
    intro hne
    obtain ⟨hnew, hsent⟩ := h.counts.lt_and_le_of_not_useless hne huse
    obtain ⟨hle, hflying⟩ := h.sent hne
    refine ⟨hsent, ?_⟩
    change sub64 s.bytesFlying (ack - s.ackAbs) = s.nextSeqno - ack
    rw [hflying, sub64_of_le (by omega)]
    omega

/-- Before the SYN the count wraps around, and no window is that large. -/
theorem windowSize_lt_acceptAck_of_unsent (h : s.Accounted) (hnext : s.nextSeqno = 0) {ack : ℕ}
    (huse : ¬s.Useless ack) : (s.acceptAck ack).windowSize < (s.acceptAck ack).bytesFlying := by
  have hone := (h.eq_one_of_not_useless hnext huse).2
  have hwin := (h.acceptAck huse).windowSize_lt
  rcases ((h.acceptAck huse).unsent hnext).2 with ⟨hack, -⟩ | ⟨-, hflying⟩
  · exact absurd (hack.symm.trans hone) (by decide)
  · rw [hflying]
    omega

theorem ackReceived (h : s.Accounted) (ackno : WrappingInt32) (w : UInt16) :
    (s.ackReceived ackno w).Accounted := by
  have hwin := h.withWindow w
  simp only [TcpSender.ackReceived]
  split_ifs with huse hfill
  · exact hwin
  · exact (hwin.acceptAck huse).fillWindow
  · exact hwin.acceptAck huse

theorem stream_ackReceived_of_unsent (h : s.Accounted) (hnext : s.nextSeqno = 0)
    (ackno : WrappingInt32) (w : UInt16) : (s.ackReceived ackno w).stream = s.stream := by
  have hwin := h.withWindow w
  simp only [TcpSender.ackReceived]
  split_ifs with huse hfill
  · rfl
  · have hlt := hwin.windowSize_lt_acceptAck_of_unsent hnext huse
    omega
  · rfl

theorem tick (h : s.Accounted) (ms : ℕ) : (s.tick ms).Accounted := by
  obtain ⟨out, times, time, consec, rto, heq, htimes, -⟩ := exists_tick s ms
  rw [heq]
  exact h.frame rfl htimes

theorem step (h : s.Accounted) (op : Op) : (s.step op).Accounted := by
  cases op with
  | write data => exact h.frame rfl rfl
  | endInput => exact h.frame rfl rfl
  | fillWindow => exact h.fillWindow
  | ackReceived ackno w => exact h.ackReceived ackno w
  | tick ms => exact h.tick ms
  | sendEmptySegment => exact h.frame rfl rfl
  | takeSegment => exact h.frame rfl rfl

end Accounted

theorem accounted_run (capacity : ℕ) (retxTimeout : UInt16) (fixedIsn : Option WrappingInt32)
    (random : UInt32) (ops : List Op) :
    (run TcpSender.step (new capacity retxTimeout fixedIsn random) ops).Accounted :=
  run_invariant_of_step (fun _ op h ↦ h.step op)
    (accounted_new capacity retxTimeout fixedIsn random) ops

end Sponge.TcpSender
