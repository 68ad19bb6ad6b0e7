import Sponge.Receiver.Segment

/-!
# The next byte of the inbound stream

Whether a segment makes the inbound stream grow can be told before it arrives: the
next byte has to be held by the reassembler or to come with the segment, and the
output needs room for it. From this follows when a segment leaves the stream at its
end.
-/

namespace Sponge.TcpReceiver

open Lib

variable {r : TcpReceiver} {seg : TcpSegment}

/-- The inbound stream, the window behind it and the payload keep below the largest index. -/
def Bounded (r : TcpReceiver) (seg : TcpSegment) : Prop :=
  r.streamOut.bytesWritten + r.reassembler.capacity + seg.payload.length < 2 ^ 64

instance (r : TcpReceiver) (seg : TcpSegment) : Decidable (r.Bounded seg) :=
  inferInstanceAs (Decidable (_ < _))

/-- The reassembler has its shape, and the inbound stream has ended where one of the two recorded
ends is reached. -/
structure Regular (r : TcpReceiver) : Prop where
  wf : r.reassembler.Wf
  ended_of_endStream : r.reassembler.startAux = r.reassembler.endStream →
    r.reassembler.output.ended = true
  ended_of_lenStream : r.reassembler.startAux = r.lenStream → r.reassembler.output.ended = true

theorem regular_new {c : ℕ} (hc : 1 ≤ c) : (new c).Regular where
  wf := StreamReassembler.wf_new hc
  ended_of_endStream h := absurd h (show 0 ≠ 2 ^ 64 - 1 by decide)
  ended_of_lenStream h := absurd h (show 0 ≠ 2 ^ 64 - 1 by decide)

/-- The next byte of the inbound stream is held, or the segment carries it. -/
def BringsNext (r : TcpReceiver) (seg : TcpSegment) : Prop :=
  r.reassembler.Held r.streamOut.bytesWritten ∨
    (r.startPayload seg.header ≤ r.streamOut.bytesWritten ∧
      r.streamOut.bytesWritten < r.startPayload seg.header + seg.payload.length)

instance (r : TcpReceiver) (seg : TcpSegment) : Decidable (r.BringsNext seg) :=
  inferInstanceAs (Decidable (_ ∨ (_ ∧ _)))

/-- The segment is processed: it occupies a number, and the SYN has come. -/
def Processes (r : TcpReceiver) (seg : TcpSegment) : Prop :=
  seg.lengthInSequenceSpace ≠ 0 ∧ (r.syn = true ∨ seg.header.syn = true)

instance (r : TcpReceiver) (seg : TcpSegment) : Decidable (r.Processes seg) :=
  inferInstanceAs (Decidable (_ ∧ (_ ∨ _)))

/-- The segment ends the inbound stream where it has got to: the end flag, its own or that of an
earlier segment, comes without a payload or with one that ends there, or the FIN has the number of
that index. -/
def EndsHere (r : TcpReceiver) (seg : TcpSegment) : Prop :=
  ((r.eof = true ∨ seg.header.fin = true) ∧
      (seg.payload = [] ∨
        r.startPayload seg.header + seg.payload.length = r.streamOut.bytesWritten)) ∨
    (seg.header.fin = true ∧
      add64 (r.startPayload seg.header) seg.payload.length = r.streamOut.bytesWritten)

instance (r : TcpReceiver) (seg : TcpSegment) : Decidable (r.EndsHere seg) :=
  inferInstanceAs (Decidable ((_ ∧ (_ ∨ _)) ∨ (_ ∧ _)))

/-- The segment leaves the inbound stream at its end: nothing is buffered or comes next, and the
stream has ended or the segment ends it. A segment that is not processed changes nothing. -/
def AtEndAfter (r : TcpReceiver) (seg : TcpSegment) : Prop :=
  r.streamOut.bufferEmpty = true ∧ (r.Processes seg → ¬r.BringsNext seg) ∧
    (r.streamOut.inputEnded = true ∨ (r.Processes seg ∧ r.EndsHere seg))

instance (r : TcpReceiver) (seg : TcpSegment) : Decidable (r.AtEndAfter seg) :=
  inferInstanceAs (Decidable (_ ∧ (_ → ¬_) ∧ (_ ∨ (_ ∧ _))))

namespace Regular

theorem bytesWritten_eq (h : r.Regular) :
    r.streamOut.bytesWritten = r.reassembler.startAux :=
  h.wf.startAux_eq.symm

theorem exists_processed (h : r.Regular) (hbound : r.Bounded seg)
    (hsyn : r.syn = true ∨ seg.header.syn = true) :
    ∃ m, Processed r (r.segmentReceived seg) seg (r.startPayload seg.header) m := by
  apply TcpReceiver.exists_processed h.wf hsyn
  intro hle
  rw [Bounded, h.bytesWritten_eq] at hbound
  omega

theorem segmentReceived (h : r.Regular) (hbound : r.Bounded seg) :
    (r.segmentReceived seg).Regular := by
  by_cases hsyn : r.syn = true ∨ seg.header.syn = true
  · obtain ⟨m, hm⟩ := h.exists_processed hbound hsyn
    exact ⟨hm.pushed.wf, fun heq ↦ hm.ended.mpr (Or.inr (Or.inl (Or.inr heq))),
      fun heq ↦ hm.ended.mpr (Or.inr (Or.inr heq))⟩
  · rw [segmentReceived_of_unsynced hsyn]
    exact h

theorem setError (h : r.Regular) : r.setError.Regular :=
  ⟨h.wf.frame rfl rfl, h.ended_of_endStream, h.ended_of_lenStream⟩

theorem readOutput (h : r.Regular) (len : ℕ) : (r.readOutput len).Regular :=
  ⟨h.wf.readOutput len, h.ended_of_endStream, h.ended_of_lenStream⟩

theorem bringsNext_iff_pending (h : r.Regular) :
    r.BringsNext seg ↔ r.reassembler.Pending seg.payload (r.startPayload seg.header)
      r.reassembler.startAux := by
  have hpos := h.wf.capacity_pos
  rw [BringsNext, h.bytesWritten_eq]
  constructor
  · exact fun hnext ↦ ⟨le_rfl, by omega, hnext⟩
  · exact fun hpending ↦ hpending.2.2

/-- Nothing is written if the next byte does not come. -/
theorem count_eq_zero (h : r.Regular) {m : ℕ}
    (hm : Processed r (r.segmentReceived seg) seg (r.startPayload seg.header) m)
    (hnot : ¬r.BringsNext seg) : m = 0 := by
  by_contra hpos
  have hfills := (hm.pushed.fills_iff h.wf (r.reassembler.startAux + 1)).mpr (by
    rw [hm.pushed.startAux]
    omega)
  exact hnot (h.bringsNext_iff_pending.mpr (hfills.2 _ (Nat.lt_succ_self _) le_rfl))

/-- Something is written if the next byte comes and nothing is buffered before it. -/
theorem count_pos (h : r.Regular) {m : ℕ}
    (hm : Processed r (r.segmentReceived seg) seg (r.startPayload seg.header) m)
    (hnext : r.BringsNext seg) (hempty : r.reassembler.output.deq = []) : 0 < m := by
  have hroom : 1 ≤ r.reassembler.room := by
    rw [StreamReassembler.room, hempty, h.wf.output_cap]
    exact h.wf.capacity_pos
  have hfills : r.reassembler.Fills seg.payload (r.startPayload seg.header)
      (r.reassembler.startAux + 1) := by
    refine ⟨by omega, fun i hi hstart ↦ ?_⟩
    obtain rfl : i = r.reassembler.startAux := by omega
    exact h.bringsNext_iff_pending.mp hnext
  have hle := (hm.pushed.fills_iff h.wf _).mp hfills
  rw [hm.pushed.startAux] at hle
  omega

/-- Where nothing is written, the stream ends only if the segment ends it there. -/
theorem ended_segmentReceived_iff (h : r.Regular)
    (hm : Processed r (r.segmentReceived seg) seg (r.startPayload seg.header) 0) :
    (r.segmentReceived seg).reassembler.output.ended = true ↔
      r.reassembler.output.ended = true ∨ r.EndsHere seg := by
  have hstart : (r.segmentReceived seg).reassembler.startAux = r.reassembler.startAux :=
    hm.pushed.startAux
  have hflag : (r.segmentReceived seg).eof = true ↔ r.eof = true ∨ seg.header.fin = true := by
    rw [hm.eof, Bool.or_eq_true]
  rw [hm.ended, StreamReassembler.EndsOutput, hstart, hm.pushed.endStream, hm.lenStream]
  simp only [hflag]
  rw [EndsHere, h.bytesWritten_eq]
  constructor
  · rintro (hended | (hnil | heq) | heq)
    · exact Or.inl hended
    · exact Or.inr (Or.inl ⟨hnil.2, Or.inl hnil.1⟩)
    · split_ifs at heq with hrec
      · exact Or.inr (Or.inl ⟨hrec.2.2, Or.inr heq.symm⟩)
      · exact Or.inl (h.ended_of_endStream heq)
    · split_ifs at heq with hfin
      · exact Or.inr (Or.inr ⟨hfin, heq.symm⟩)
      · exact Or.inl (h.ended_of_lenStream heq)
  · rintro (hended | ⟨heof, hnil | heq⟩ | ⟨hfin, heq⟩)
    · exact Or.inl hended
    · exact Or.inr (Or.inl (Or.inl ⟨hnil, heof⟩))
    · by_cases hnil : seg.payload = []
      · exact Or.inr (Or.inl (Or.inl ⟨hnil, heof⟩))
      · -- A payload that ends where the window starts still meets it.
        have hmeets : r.reassembler.Meets seg.payload (r.startPayload seg.header) :=
          ⟨by omega, heq.ge⟩
        refine Or.inr (Or.inl (Or.inr ?_))
        rw [if_pos ⟨hnil, hmeets, heof⟩, heq]
    · refine Or.inr (Or.inr ?_)
      rw [if_pos hfin, heq]

theorem eof_segmentReceived_iff (h : r.Regular) (hbound : r.Bounded seg)
    (hsyn : r.syn = true ∨ seg.header.syn = true) :
    (r.segmentReceived seg).streamOut.eof = true ↔
      r.reassembler.output.deq = [] ∧ ¬r.BringsNext seg ∧
        (r.reassembler.output.ended = true ∨ r.EndsHere seg) := by
  obtain ⟨m, hm⟩ := h.exists_processed hbound hsyn
  have hdeq := congrArg List.length hm.pushed.deq
  rw [List.length_append, StreamReassembler.length_cellBytes] at hdeq
  rw [ByteStream.eof_iff, ← List.length_eq_zero_iff, ← List.length_eq_zero_iff]
  change (r.segmentReceived seg).reassembler.output.deq.length = 0 ∧
    (r.segmentReceived seg).reassembler.output.ended = true ↔ _
  constructor
  · rintro ⟨hnone, hended⟩
    have hempty : r.reassembler.output.deq.length = 0 := by omega
    have hnot : ¬r.BringsNext seg := fun hnext ↦ by
      have hpos := h.count_pos hm hnext (List.length_eq_zero_iff.mp hempty)
      omega
    obtain rfl := h.count_eq_zero hm hnot
    exact ⟨hempty, hnot, (h.ended_segmentReceived_iff hm).mp hended⟩
  · rintro ⟨hempty, hnot, hended⟩
    obtain rfl := h.count_eq_zero hm hnot
    exact ⟨by omega, (h.ended_segmentReceived_iff hm).mpr hended⟩

end Regular

end Sponge.TcpReceiver
