import Sponge.Lib.Runs
import Sponge.Sender.Model

/-!
# First transmissions

The four send paths of the sender build different segments but do the same
thing with them. `emit` is that common effect and `MayEmit` says which segments
a sender may build; filling the window is a run of emissions. What the sender
guarantees about its segments is derived from `MayEmit`.
-/

namespace Sponge.TcpSender

open Lib

variable {s : TcpSender} {seg : TcpSegment}

/-- Send a segment for the first time. -/
def emit (s : TcpSender) (seg : TcpSegment) : TcpSender :=
  { s with
    segmentsOut := s.segmentsOut ++ [seg]
    segmentsOutstanding := s.segmentsOutstanding ++ [seg]
    seqnosAbsOutstanding :=
      s.seqnosAbsOutstanding ++ [s.nextSeqno + seg.lengthInSequenceSpace]
    timestampsOutstanding := s.timestampsOutstanding ++ [s.time]
    stream := s.stream.popOutput seg.payload.length
    bytesFlying := add64 s.bytesFlying seg.lengthInSequenceSpace
    nextSeqno := s.nextSeqno + seg.lengthInSequenceSpace
    finSent := s.finSent || seg.header.fin
    timeFinSent := if seg.header.fin then s.time else s.timeFinSent }

/-- The segments that a sender may send for the first time. -/
structure MayEmit (s : TcpSender) (seg : TcpSegment) : Prop where
  header : seg.header =
    { seqno := wrap s.nextSeqno s.isn
      syn := decide (s.nextSeqno = 0)
      fin := seg.header.fin }
  payload : seg.payload = s.stream.deq.take seg.payload.length
  length_payload_le : seg.payload.length ≤ TcpConfig.maxPayloadSize
  syn : s.nextSeqno = 0 → seg.payload = [] ∧ seg.header.fin = false
  nonempty : s.nextSeqno ≠ 0 → seg.payload ≠ [] ∨ seg.header.fin = true
  fin : seg.header.fin = true →
    s.finSent = false ∧ s.stream.ended = true ∧ seg.payload.length = s.stream.deq.length
  fits : s.nextSeqno ≠ 0 → s.bytesFlying + seg.lengthInSequenceSpace ≤ max 1 s.windowSize

namespace MayEmit

theorem length_payload_le_deq (h : s.MayEmit seg) :
    seg.payload.length ≤ s.stream.deq.length := by
  have hlen := congrArg List.length h.payload
  rw [List.length_take] at hlen
  omega

theorem header_syn (h : s.MayEmit seg) : seg.header.syn = decide (s.nextSeqno = 0) := by
  rw [h.header]

theorem seqno (h : s.MayEmit seg) : seg.header.seqno = wrap s.nextSeqno s.isn := by
  rw [h.header]

theorem length_of_syn (h : s.MayEmit seg) (hnext : s.nextSeqno = 0) :
    seg.lengthInSequenceSpace = 1 := by
  obtain ⟨hpayload, hfin⟩ := h.syn hnext
  simp [TcpSegment.lengthInSequenceSpace, hpayload, hfin, h.header_syn, hnext]

theorem length_of_ne_zero (h : s.MayEmit seg) (hnext : s.nextSeqno ≠ 0) :
    seg.lengthInSequenceSpace = seg.payload.length + if seg.header.fin then 1 else 0 :=
  TcpSegment.lengthInSequenceSpace_of_not_syn (by simp [h.header_syn, hnext])

theorem length_pos (h : s.MayEmit seg) : 0 < seg.lengthInSequenceSpace := by
  by_cases hnext : s.nextSeqno = 0
  · rw [h.length_of_syn hnext]
    exact Nat.one_pos
  · rw [h.length_of_ne_zero hnext]
    rcases h.nonempty hnext with hpayload | hfin
    · have := List.length_pos_iff.mpr hpayload
      omega
    · simp [hfin]

/-- What is in flight after an emission still fits in the window. -/
theorem bytesFlying_emit (h : s.MayEmit seg) (hwin : s.windowSize < 2 ^ 64)
    (hnext : s.nextSeqno ≠ 0) :
    (s.emit seg).bytesFlying = s.bytesFlying + seg.lengthInSequenceSpace := by
  have hfits := h.fits hnext
  exact add64_of_lt (by omega)

end MayEmit

section paths

theorem exists_emit_sendSyn (hnext : s.nextSeqno = 0) :
    ∃ seg, s.MayEmit seg ∧ s.sendSyn = s.emit seg := by
  refine ⟨{ header := { syn := true, seqno := s.isn } }, ?_, ?_⟩
  · constructor <;> simp [hnext]
  · simp [sendSyn, pushSegment, emit, TcpSegment.lengthInSequenceSpace, ByteStream.popOutput_zero]

theorem exists_emit_sendFin (hnext : s.nextSeqno ≠ 0) (heof : s.stream.eof = true)
    (hfin : s.finSent = false)
    (hroom : s.windowSize > s.bytesFlying ∨ (s.windowSize = 0 ∧ s.bytesFlying = 0)) :
    ∃ seg, s.MayEmit seg ∧ s.sendFin = s.emit seg := by
  obtain ⟨hdeq, hended⟩ := s.stream.eof_iff.mp heof
  refine ⟨{ header := { fin := true, seqno := s.nextSeqnoRelative } }, ?_, ?_⟩
  · constructor <;> simp [hnext, hdeq, hended, hfin, nextSeqnoRelative]
    simp only [TcpSegment.lengthInSequenceSpace]
    simp
    omega
  · simp [sendFin, pushSegment, emit, TcpSegment.lengthInSequenceSpace, ByteStream.popOutput_zero]

theorem exists_emit_sendProbe (hnext : s.nextSeqno ≠ 0) (hbuf : s.stream.bufferSize > 0)
    (hflying : s.bytesFlying = 0) :
    ∃ seg, s.MayEmit seg ∧ s.sendProbe = s.emit seg := by
  have hlen : (s.stream.deq.take 1).length = 1 := by
    rw [List.length_take]
    exact min_eq_left hbuf
  refine ⟨{ header := { seqno := s.nextSeqnoRelative }, payload := s.stream.deq.take 1 },
    ?_, ?_⟩
  · constructor
    case header => simp [hnext, nextSeqnoRelative]
    case payload => rw [hlen]
    case length_payload_le =>
      rw [hlen]
      decide
    case syn => exact fun h ↦ absurd h hnext
    case nonempty =>
      intro _
      left
      exact List.length_pos_iff.mp (by rw [hlen]; exact Nat.one_pos)
    case fin => simp
    case fits =>
      intro _
      simp only [TcpSegment.lengthInSequenceSpace, hlen, hflying]
      simp
  · simp [sendProbe, pushSegment, emit, TcpSegment.lengthInSequenceSpace, ByteStream.read, hlen]

theorem sizeSeg_spec (hbuf : s.stream.bufferSize > 0) (hroom : s.windowSize > s.bytesFlying) :
    0 < s.sizeSeg ∧ s.sizeSeg ≤ s.stream.deq.length ∧
      s.bytesFlying + s.sizeSeg ≤ s.windowSize ∧ s.sizeSeg ≤ TcpConfig.maxPayloadSize := by
  have hsub := sub64_of_le (a := s.windowSize) (b := s.bytesFlying) (by omega)
  simp only [ByteStream.bufferSize] at hbuf
  simp only [sizeSeg, hsub, ByteStream.bufferSize, TcpConfig.maxPayloadSize]
  omega

/-- The segment of the loop body. -/
def dataSegment (s : TcpSender) : TcpSegment :=
  { header :=
      { seqno := s.nextSeqnoRelative
        fin := (s.stream.popOutput s.sizeSeg).eof && !s.finSent &&
          decide (s.windowSize > add64 s.bytesFlying s.sizeSeg) }
    payload := s.stream.deq.take s.sizeSeg }

theorem length_payload_dataSegment (hbuf : s.stream.bufferSize > 0)
    (hroom : s.windowSize > s.bytesFlying) : s.dataSegment.payload.length = s.sizeSeg := by
  rw [dataSegment, List.length_take]
  exact min_eq_left (sizeSeg_spec hbuf hroom).2.1

theorem mayEmit_dataSegment (hnext : s.nextSeqno ≠ 0) (hwin : s.windowSize < 2 ^ 64)
    (hbuf : s.stream.bufferSize > 0) (hroom : s.windowSize > s.bytesFlying) :
    s.MayEmit s.dataSegment := by
  obtain ⟨hpos, hle, hfit, hmax⟩ := sizeSeg_spec hbuf hroom
  have hlen := length_payload_dataSegment hbuf hroom
  constructor
  case header => simp [dataSegment, hnext, nextSeqnoRelative]
  case payload =>
    rw [hlen]
    rfl
  case length_payload_le => omega
  case syn => exact fun h ↦ absurd h hnext
  case nonempty =>
    intro _
    left
    exact List.length_pos_iff.mp (by omega)
  case fin =>
    intro hfin
    simp only [dataSegment, Bool.and_eq_true, Bool.not_eq_true'] at hfin
    obtain ⟨hdeq, hended⟩ := (ByteStream.eof_iff _).mp hfin.1.1
    rw [ByteStream.popOutput_deq, List.drop_eq_nil_iff] at hdeq
    exact ⟨hfin.1.2, hended, by omega⟩
  case fits =>
    intro _
    have hsum := add64_of_lt (a := s.bytesFlying) (b := s.sizeSeg) (by omega)
    rw [TcpSegment.lengthInSequenceSpace_of_not_syn rfl, hlen]
    split_ifs with hfin
    · simp only [dataSegment, Bool.and_eq_true, decide_eq_true_eq] at hfin
      omega
    · omega

theorem sendData_eq_emit (hbuf : s.stream.bufferSize > 0)
    (hroom : s.windowSize > s.bytesFlying) : s.sendData = s.emit s.dataSegment := by
  have hlen := length_payload_dataSegment hbuf hroom
  have hread : s.stream.read s.sizeSeg =
      (s.stream.popOutput s.sizeSeg, s.stream.deq.take s.sizeSeg) := by
    rw [ByteStream.read, ByteStream.peekOutput_eq]
  simp only [sendData, hread]
  change (if s.dataSegment.header.fin = true then
    pushSegment _ s.dataSegment else pushSegment _ s.dataSegment) = _
  rw [emit, TcpSegment.lengthInSequenceSpace_of_not_syn rfl, hlen]
  split_ifs with hfin
  · simp only [pushSegment, hfin, add64_add64, Bool.or_true, Nat.add_assoc, Nat.add_comm 1]
  · simp [pushSegment, hfin]

theorem exists_emit_sendData (hnext : s.nextSeqno ≠ 0) (hwin : s.windowSize < 2 ^ 64)
    (hbuf : s.stream.bufferSize > 0) (hroom : s.windowSize > s.bytesFlying) :
    ∃ seg, s.MayEmit seg ∧ s.sendData = s.emit seg ∧ seg.payload ≠ [] :=
  ⟨s.dataSegment, mayEmit_dataSegment hnext hwin hbuf hroom, sendData_eq_emit hbuf hroom,
    List.length_pos_iff.mp (by
      rw [length_payload_dataSegment hbuf hroom]
      exact (sizeSeg_spec hbuf hroom).1)⟩

end paths

@[simp] theorem emit_windowSize : (s.emit seg).windowSize = s.windowSize := rfl
@[simp] theorem emit_isn : (s.emit seg).isn = s.isn := rfl
@[simp] theorem emit_ackAbs : (s.emit seg).ackAbs = s.ackAbs := rfl
@[simp] theorem emit_nextSeqno :
    (s.emit seg).nextSeqno = s.nextSeqno + seg.lengthInSequenceSpace := rfl
@[simp] theorem emit_segmentsOut : (s.emit seg).segmentsOut = s.segmentsOut ++ [seg] := rfl
@[simp] theorem emit_segmentsOutstanding :
    (s.emit seg).segmentsOutstanding = s.segmentsOutstanding ++ [seg] := rfl
@[simp] theorem emit_seqnosAbsOutstanding : (s.emit seg).seqnosAbsOutstanding =
    s.seqnosAbsOutstanding ++ [s.nextSeqno + seg.lengthInSequenceSpace] := rfl
@[simp] theorem emit_timestampsOutstanding :
    (s.emit seg).timestampsOutstanding = s.timestampsOutstanding ++ [s.time] := rfl
@[simp] theorem emit_stream :
    (s.emit seg).stream = s.stream.popOutput seg.payload.length := rfl
@[simp] theorem emit_finSent : (s.emit seg).finSent = (s.finSent || seg.header.fin) := rfl

/-- The loop is a run of emissions, and enough fuel brings it to its end. -/
theorem exists_emissions_fillLoop (fuel : ℕ) (hfuel : s.stream.bufferSize ≤ fuel)
    (hnext : s.nextSeqno ≠ 0) (hwin : s.windowSize < 2 ^ 64) :
    ∃ segs, Along emit MayEmit s segs ∧ fillLoop fuel s = run emit s segs ∧
      ¬((fillLoop fuel s).stream.bufferSize > 0 ∧
        (fillLoop fuel s).windowSize > (fillLoop fuel s).bytesFlying) := by
  induction fuel generalizing s with
  | zero =>
      refine ⟨[], trivial, rfl, ?_⟩
      rintro ⟨hbuf, -⟩
      simp only [fillLoop] at hbuf
      omega
  | succ fuel ih =>
      rw [fillLoop]
      split_ifs with hcond
      · obtain ⟨seg, hseg, heq, hpayload⟩ :=
          exists_emit_sendData hnext hwin hcond.1 hcond.2
        rw [heq]
        have hpos := List.length_pos_iff.mpr hpayload
        have hle := hseg.length_payload_le_deq
        have hbuf : (s.emit seg).stream.bufferSize ≤ fuel := by
          simp only [ByteStream.bufferSize] at hfuel ⊢
          rw [emit_stream, ByteStream.popOutput_deq, List.length_drop]
          omega
        obtain ⟨segs, hsegs, hrun, hdone⟩ := ih hbuf (by rw [emit_nextSeqno]; omega) hwin
        exact ⟨seg :: segs, ⟨hseg, hsegs⟩, hrun, hdone⟩
      · exact ⟨[], trivial, rfl, hcond⟩

theorem exists_emissions (hwin : s.windowSize < 2 ^ 64) :
    ∃ segs, Along emit MayEmit s segs ∧ s.fillWindow = run emit s segs := by
  have hone {s' : TcpSender} (h : ∃ seg, s.MayEmit seg ∧ s' = s.emit seg) :
      ∃ segs, Along emit MayEmit s segs ∧ s' = run emit s segs := by
    obtain ⟨seg, hseg, heq⟩ := h
    exact ⟨[seg], ⟨hseg, trivial⟩, heq⟩
  rw [fillWindow]
  split_ifs with hnext hfin hprobe
  · exact hone (exists_emit_sendSyn hnext)
  · exact hone (exists_emit_sendFin hnext hfin.1 hfin.2.1 hfin.2.2)
  · exact hone (exists_emit_sendProbe hnext hprobe.1 hprobe.2.2)
  · obtain ⟨segs, hsegs, heq, -⟩ := exists_emissions_fillLoop _ (le_refl _) hnext hwin
    exact ⟨segs, hsegs, heq⟩

theorem fillWindow_invariant {I : TcpSender → Prop} (hwin : s.windowSize < 2 ^ 64)
    (hstep : ∀ s seg, I s → MayEmit s seg → I (s.emit seg)) (hs : I s) : I s.fillWindow := by
  obtain ⟨segs, hsegs, heq⟩ := exists_emissions hwin
  rw [heq]
  exact run_invariant hstep hs hsegs

/-- What filling the window leaves alone, and what it adds. -/
structure Filled (s s' : TcpSender) : Prop where
  isn : s'.isn = s.isn
  initial_eq : s'.initialRetransmissionTimeout = s.initialRetransmissionTimeout
  windowSize : s'.windowSize = s.windowSize
  ackAbs : s'.ackAbs = s.ackAbs
  time : s'.time = s.time
  currRto : s'.currRto = s.currRto
  consecRetrans : s'.consecRetrans = s.consecRetrans
  ended : s'.stream.ended = s.stream.ended
  error : s'.stream.error = s.stream.error
  bytesReaded_le : s.stream.bytesReaded ≤ s'.stream.bytesReaded
  finSent : s.finSent = true → s'.finSent = true
  added : ∃ (segs : List TcpSegment) (seqnos : List ℕ), seqnos.length = segs.length ∧
    s'.segmentsOutstanding = s.segmentsOutstanding ++ segs ∧
    s'.seqnosAbsOutstanding = s.seqnosAbsOutstanding ++ seqnos ∧
    s'.timestampsOutstanding = s.timestampsOutstanding ++ List.replicate segs.length s.time ∧
    s.nextSeqno + segs.length ≤ s'.nextSeqno

theorem Filled.refl (s : TcpSender) : Filled s s :=
  ⟨rfl, rfl, rfl, rfl, rfl, rfl, rfl, rfl, rfl, le_refl _, id, [], [], rfl, by simp, by simp,
    by simp, le_refl _⟩

theorem Filled.nextSeqno_le {s' : TcpSender} (h : Filled s s') : s.nextSeqno ≤ s'.nextSeqno := by
  obtain ⟨segs, -, -, -, -, -, hle⟩ := h.added
  omega

theorem Filled.emit {s' : TcpSender} {seg : TcpSegment} (h : Filled s s') (hseg : s'.MayEmit seg) :
    Filled s (s'.emit seg) :=
  { h with
    bytesReaded_le := h.bytesReaded_le.trans (Nat.le_add_right _ _)
    finSent := fun hfin ↦ by rw [emit_finSent, h.finSent hfin, Bool.true_or]
    added := by
      obtain ⟨segs, seqnos, hlen, hsegs, hseqnos, htimes, hle⟩ := h.added
      have hpos := hseg.length_pos
      refine ⟨segs ++ [seg], seqnos ++ [s'.nextSeqno + seg.lengthInSequenceSpace], ?_, ?_, ?_, ?_,
        ?_⟩
      · rw [List.length_append, List.length_append, hlen]
        rfl
      · rw [emit_segmentsOutstanding, hsegs, List.append_assoc]
      · rw [emit_seqnosAbsOutstanding, hseqnos, List.append_assoc]
      · rw [emit_timestampsOutstanding, htimes, h.time, List.append_assoc, List.length_append,
          List.replicate_add]
        rfl
      · rw [emit_nextSeqno, List.length_append, List.length_singleton]
        omega }

theorem filled_fillWindow (hwin : s.windowSize < 2 ^ 64) : Filled s s.fillWindow :=
  fillWindow_invariant (I := Filled s) hwin (fun _ _ ↦ Filled.emit) (Filled.refl s)

theorem toNat_window_lt (w : UInt16) : w.toNat < 2 ^ 64 :=
  w.toNat_lt.trans (by norm_num)

/-- After a run of emissions that is not empty, something is in flight. -/
theorem bytesFlying_run_emit_pos {segs : List TcpSegment} (hsegs : Along emit MayEmit s segs)
    (hne : segs ≠ []) (hnext : s.nextSeqno ≠ 0) (hwin : s.windowSize < 2 ^ 64) :
    0 < (run emit s segs).bytesFlying := by
  induction segs generalizing s with
  | nil => exact absurd rfl hne
  | cons seg segs ih =>
      obtain ⟨hseg, hrest⟩ := hsegs
      cases segs with
      | nil =>
          have hpos := hseg.length_pos
          rw [run_cons, run_nil, hseg.bytesFlying_emit hwin hnext]
          omega
      | cons seg' segs =>
          exact ih hrest (by simp) (by rw [emit_nextSeqno]; omega) hwin

/-- Filling the window of a stream at its end leaves nothing to send: if nothing
is in flight afterwards, the FIN was sent. -/
theorem finSent_fillWindow (hnext : s.nextSeqno ≠ 0) (hwin : s.windowSize < 2 ^ 64)
    (hflying : s.fillWindow.bytesFlying = 0) (heof : s.fillWindow.stream.eof = true) :
    s.fillWindow.finSent = true := by
  obtain ⟨segs, hsegs, heq⟩ := exists_emissions hwin
  cases segs with
  | cons seg segs =>
      have hpos := bytesFlying_run_emit_pos hsegs (by simp) hnext hwin
      rw [← heq] at hpos
      omega
  | nil =>
      rw [run_nil] at heq
      rw [heq] at hflying heof ⊢
      -- The FIN path was not taken, since it would have put the FIN in flight.
      by_contra hfin
      rw [Bool.not_eq_true] at hfin
      have hroom : s.windowSize > s.bytesFlying ∨ s.windowSize = 0 ∧ s.bytesFlying = 0 := by
        omega
      rw [fillWindow, if_neg hnext, if_pos ⟨heof, hfin, hroom⟩] at heq
      have hsent : s.sendFin.finSent = true := rfl
      rw [heq, hfin] at hsent
      exact Bool.false_ne_true hsent

/-- The next number counts the SYN, the bytes read from the stream and the FIN. -/
structure Counts (s : TcpSender) : Prop where
  of_zero : s.nextSeqno = 0 → s.stream.bytesReaded = 0 ∧ s.finSent = false
  of_ne_zero : s.nextSeqno ≠ 0 →
    s.nextSeqno = 1 + s.stream.bytesReaded + if s.finSent then 1 else 0

theorem Counts.emit (h : s.Counts) (hseg : s.MayEmit seg) : (s.emit seg).Counts := by
  have hpos := hseg.length_pos
  have hle := hseg.length_payload_le_deq
  constructor
  · intro hzero
    rw [emit_nextSeqno] at hzero
    omega
  · intro _
    simp only [emit_nextSeqno, emit_stream, emit_finSent, ByteStream.popOutput_bytesReaded]
    by_cases hzero : s.nextSeqno = 0
    · obtain ⟨hpayload, hfin⟩ := hseg.syn hzero
      obtain ⟨hread, hsent⟩ := h.of_zero hzero
      simp [hseg.length_of_syn hzero, hzero, hread, hsent, hpayload, hfin]
    · rw [hseg.length_of_ne_zero hzero, h.of_ne_zero hzero]
      by_cases hfin : seg.header.fin = true
      · have hnot := (hseg.fin hfin).1
        simp only [hnot, hfin, Bool.or_true, Bool.false_eq_true, if_false, if_true]
        omega
      · rw [Bool.not_eq_true] at hfin
        simp only [hfin, Bool.or_false, Bool.false_eq_true, if_false]
        omega

/-- Once the SYN is sent, the numbers that the sender accepts are new and were sent. -/
theorem Counts.fillWindow (h : s.Counts) (hwin : s.windowSize < 2 ^ 64) : s.fillWindow.Counts :=
  fillWindow_invariant (I := Counts) hwin (fun _ _ ↦ Counts.emit) h

theorem Counts.lt_and_le_of_not_useless (h : s.Counts) (hnext : s.nextSeqno ≠ 0) {ack : ℕ}
    (huse : ¬s.Useless ack) : s.ackAbs < ack ∧ ack ≤ s.nextSeqno := by
  have heq := h.of_ne_zero hnext
  simp only [Useless, not_or, not_and, ByteStream.bytesRead] at huse
  obtain ⟨hmax, hnew, hfin⟩ := huse
  cases hsent : s.finSent with
  | false =>
      have := hfin hsent
      simp only [hsent, Bool.false_eq_true, if_false] at heq
      omega
  | true =>
      simp only [hsent, if_true] at heq
      omega

/-- Once the SYN is sent, the sender accepts exactly the numbers of something new. -/
theorem Counts.not_useless_iff (h : s.Counts) (hnext : s.nextSeqno ≠ 0) (ack : ℕ) :
    ¬s.Useless ack ↔ s.ackAbs < ack ∧ ack ≤ s.nextSeqno := by
  refine ⟨h.lt_and_le_of_not_useless hnext, ?_⟩
  rintro ⟨hlt, hle⟩ huse
  have heq := h.of_ne_zero hnext
  rcases huse with hmax | hold | ⟨hfin, hmax⟩
  · simp only [ByteStream.bytesRead] at hmax
    split_ifs at heq <;> omega
  · omega
  · simp only [ByteStream.bytesRead] at hmax
    simp only [hfin, Bool.false_eq_true, if_false] at heq
    omega

end Sponge.TcpSender
