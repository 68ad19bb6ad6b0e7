import Sponge.Sender.Segments
import Sponge.Sender.Transmission

/-!
# Progress of a sender

What the peer of a sender can rely on: the numbers only grow, every segment
built is a cut of the accepted bytes that ends before the next number, and a
segment leaves the outstanding ones only when it is acknowledged. `Progress`
composes over the primitive steps.
-/

namespace Sponge.TcpSender

open Lib

variable {s s' s'' : TcpSender} {d d' d'' : List UInt8} {seg : TcpSegment}

/-- The bytes `d` were accepted, and nothing was sent or the outstanding segments are
aligned. -/
structure Sending (s : TcpSender) (d : List UInt8) : Prop where
  transmits : ∃ first, s.Transmits d first
  aligned : s.Unsent ∨ ∃ start, s.Aligned start

theorem Sending.windowSize_lt (h : s.Sending d) : s.windowSize < 2 ^ 16 := by
  obtain ⟨first, htrans⟩ := h.transmits
  exact htrans.windowSize_lt

/-- The outstanding segments, with the number after the last one of each. -/
def outstanding (s : TcpSender) : List (TcpSegment × ℕ) :=
  s.segmentsOutstanding.zip s.seqnosAbsOutstanding

theorem Sending.length_outstanding (h : s.Sending d) :
    s.segmentsOutstanding.length = s.seqnosAbsOutstanding.length := by
  rcases h.aligned with hun | ⟨start, hal⟩
  · rw [hun.segmentsOutstanding, hun.seqnosAbsOutstanding]
    rfl
  · exact hal.bookkeeping.length_segments

/-- The segment is empty, or a cut that ends before the next number. -/
def Sent (s : TcpSender) (d : List UInt8) (seg : TcpSegment) : Prop :=
  seg.lengthInSequenceSpace = 0 ∨
    ∃ q, Cut s.isn d s.stream.ended q seg ∧ q + seg.lengthInSequenceSpace ≤ s.nextSeqno

/-- A step from a sender that accepted `d` to one that accepted `d'`. -/
structure Progress (s : TcpSender) (d : List UInt8) (s' : TcpSender) (d' : List UInt8) :
    Prop where
  sending : s'.Sending d'
  isn : s'.isn = s.isn
  nextSeqno_le : s.nextSeqno ≤ s'.nextSeqno
  ackAbs_le : s.ackAbs ≤ s'.ackAbs
  bytesReaded_le : s.stream.bytesReaded ≤ s'.stream.bytesReaded
  finSent : s.finSent = true → s'.finSent = true
  cut : ∀ q seg, Cut s.isn d s.stream.ended q seg → Cut s'.isn d' s'.stream.ended q seg
  popped : ∀ x ∈ s.outstanding, x ∉ s'.outstanding → x.2 ≤ s'.ackAbs
  pushed : ∃ segs, s'.segmentsOut = s.segmentsOut ++ segs ∧ ∀ seg ∈ segs, s'.Sent d' seg

theorem Progress.sent (h : Progress s d s' d') (hseg : s.Sent d seg) : s'.Sent d' seg := by
  rcases hseg with hempty | ⟨q, hcut, hend⟩
  · exact Or.inl hempty
  · exact Or.inr ⟨q, h.cut q seg hcut, hend.trans h.nextSeqno_le⟩

theorem Progress.trans (h : Progress s d s' d') (h' : Progress s' d' s'' d'') :
    Progress s d s'' d'' where
  sending := h'.sending
  isn := h'.isn.trans h.isn
  nextSeqno_le := h.nextSeqno_le.trans h'.nextSeqno_le
  ackAbs_le := h.ackAbs_le.trans h'.ackAbs_le
  bytesReaded_le := h.bytesReaded_le.trans h'.bytesReaded_le
  finSent hfin := h'.finSent (h.finSent hfin)
  cut q seg hcut := h'.cut q seg (h.cut q seg hcut)
  popped x hx hnot := by
    by_cases hmid : x ∈ s'.outstanding
    · exact h'.popped x hmid hnot
    · exact (h.popped x hx hmid).trans h'.ackAbs_le
  pushed := by
    obtain ⟨segs, hout, hsegs⟩ := h.pushed
    obtain ⟨segs', hout', hsegs'⟩ := h'.pushed
    refine ⟨segs ++ segs', by rw [hout', hout, List.append_assoc], fun seg hseg ↦ ?_⟩
    rcases List.mem_append.mp hseg with hseg | hseg
    · exact h'.sent (hsegs seg hseg)
    · exact hsegs' seg hseg

theorem Sending.refl (h : s.Sending d) : Progress s d s d where
  sending := h
  isn := rfl
  nextSeqno_le := le_refl _
  ackAbs_le := le_refl _
  bytesReaded_le := le_refl _
  finSent := id
  cut _ _ hcut := hcut
  popped _ hx hnot := absurd hx hnot
  pushed := ⟨[], by simp, by simp⟩

theorem Sending.filled (h : s.Sending d) : Filled s s.fillWindow := by
  have hwin := h.windowSize_lt
  exact filled_fillWindow (by omega)

/-- What was outstanding is so after more was sent. -/
theorem Filled.outstanding_subset (h : Filled s s')
    (hlen : s.segmentsOutstanding.length = s.seqnosAbsOutstanding.length) :
    s.outstanding ⊆ s'.outstanding := by
  obtain ⟨segs, seqnos, -, hsegs, hseqnos, -, -⟩ := h.added
  rw [outstanding, outstanding, hsegs, hseqnos, List.zip_append hlen]
  exact List.subset_append_left _ _

theorem Sending.fillWindow (h : s.Sending d) : Progress s d s.fillWindow d := by
  obtain ⟨first, htrans⟩ := h.transmits
  obtain ⟨segs, hfilled, hout⟩ := htrans.fillWindow
  have hfill := h.filled
  constructor
  case sending =>
    refine ⟨⟨_, hfilled⟩, Or.inr ?_⟩
    rcases h.aligned with hun | ⟨start, hal⟩
    · exact ⟨0, hun.aligned⟩
    · exact ⟨start, hal.fillWindow⟩
  case isn => exact hfill.isn
  case nextSeqno_le => exact hfill.nextSeqno_le
  case ackAbs_le => exact hfill.ackAbs.ge
  case bytesReaded_le => exact hfill.bytesReaded_le
  case finSent => exact hfill.finSent
  case cut =>
    intro q seg hcut
    rwa [hfill.isn, hfill.ended]
  case popped =>
    exact fun x hx hnot ↦ absurd (hfill.outstanding_subset h.length_outstanding hx) hnot
  case pushed =>
    refine ⟨segs, hout, fun seg hseg ↦ Or.inr ?_⟩
    obtain ⟨q, -, hcut, hend⟩ := hfilled.tiled.exists_of_mem (List.mem_append_right first hseg)
    rw [hfilled.tileEnd_eq] at hend
    exact ⟨q, hcut, hend⟩

/-- The queue, the clock and the flags of the stream do not matter. -/
theorem Sending.keep (h : s.Sending d) {stream : ByteStream} {out : List TcpSegment}
    {times : List ℕ} {time consec rto : ℕ} (hstream : stream.SameBytes s.stream)
    (htimes : times.length = s.timestampsOutstanding.length) :
    Sending
      { s with
        segmentsOut := out
        stream := stream
        timestampsOutstanding := times
        time := time
        consecRetrans := consec
        currRto := rto } d := by
  obtain ⟨first, htrans⟩ := h.transmits
  refine ⟨⟨first, htrans.frame htrans.windowSize_lt rfl hstream rfl rfl
    (List.suffix_refl _)⟩, ?_⟩
  rcases h.aligned with hun | ⟨start, hal⟩
  · left
    rw [hun.timestampsOutstanding, List.length_nil, List.length_eq_zero_iff] at htimes
    exact ⟨hun.nextSeqno, hun.segmentsOutstanding, hun.seqnosAbsOutstanding, htimes,
      hun.bytesFlying, hun.windowSize, hun.ackAbs, hstream.bytesReaded.trans hun.bytesReaded,
      hun.finSent⟩
  · exact Or.inr ⟨start, hal.frame hstream.bytesReaded htimes⟩

/-- Steps that change neither the numbers nor the outstanding segments. -/
theorem Sending.frame (h : s.Sending d) {stream : ByteStream} {out segs : List TcpSegment}
    {times : List ℕ} {time consec rto : ℕ} (hstream : stream.SameBytes s.stream)
    (htimes : times.length = s.timestampsOutstanding.length)
    (hout : out = s.segmentsOut ++ segs) (hsegs : ∀ seg ∈ segs, s.Sent d seg) :
    Progress s d
      { s with
        segmentsOut := out
        stream := stream
        timestampsOutstanding := times
        time := time
        consecRetrans := consec
        currRto := rto } d where
  sending := h.keep hstream htimes
  isn := rfl
  nextSeqno_le := le_refl _
  ackAbs_le := le_refl _
  bytesReaded_le := hstream.bytesReaded.ge
  finSent := id
  cut q seg hcut := by
    simp only [hstream.ended]
    exact hcut
  popped _ hx hnot := absurd hx hnot
  pushed := by
    refine ⟨segs, hout, fun seg hseg ↦ ?_⟩
    rcases hsegs seg hseg with hempty | ⟨q, hcut, hend⟩
    · exact Or.inl hempty
    · refine Or.inr ⟨q, ?_, hend⟩
      simp only [hstream.ended]
      exact hcut

theorem Sending.sendEmptySegment (h : s.Sending d) : Progress s d s.sendEmptySegment d := by
  refine h.frame ⟨rfl, rfl, rfl⟩ rfl rfl fun seg hseg ↦ Or.inl ?_
  rw [List.mem_singleton.mp hseg]
  rfl

theorem Sending.sent_of_outstanding (h : s.Sending d) (hseg : seg ∈ s.segmentsOutstanding) :
    s.Sent d seg := by
  obtain ⟨first, htrans⟩ := h.transmits
  obtain ⟨q, -, hcut, hend⟩ := htrans.tiled.exists_of_mem (htrans.outstanding.subset hseg)
  rw [htrans.tileEnd_eq] at hend
  exact Or.inr ⟨q, hcut, hend⟩

theorem ackAbs_tick (s : TcpSender) (ms : ℕ) : (s.tick ms).ackAbs = s.ackAbs := by
  obtain ⟨out, times, time, consec, rto, heq, -, -⟩ := exists_tick s ms
  rw [heq]

theorem Sending.tick (h : s.Sending d) (ms : ℕ) : Progress s d (s.tick ms) d := by
  obtain ⟨out, times, time, consec, rto, heq, htimes, hout⟩ := exists_tick s ms
  rw [heq]
  rcases hout with rfl | rfl
  · exact h.frame ⟨rfl, rfl, rfl⟩ htimes (List.append_nil _).symm (by simp)
  · refine h.frame ⟨rfl, rfl, rfl⟩ htimes rfl fun seg hseg ↦ ?_
    rw [Option.mem_toList] at hseg
    exact h.sent_of_outstanding (List.mem_of_mem_head? hseg)

theorem Sending.write (h : s.Sending d) (hended : s.stream.ended = false) (data : List UInt8) :
    Progress s d { s with stream := s.stream.write data }
      (d ++ data.take (s.stream.writeSize data)) where
  sending := by
    obtain ⟨first, htrans⟩ := h.transmits
    refine ⟨⟨first, htrans.write hended data⟩, ?_⟩
    rcases h.aligned with hun | ⟨start, hal⟩
    · exact Or.inl (hun.frame rfl)
    · exact Or.inr ⟨start, hal.frame rfl rfl⟩
  isn := rfl
  nextSeqno_le := le_refl _
  ackAbs_le := le_refl _
  bytesReaded_le := le_refl _
  finSent := id
  cut q seg hcut := by
    rw [hended] at hcut
    simp only [ByteStream.write_ended, hended]
    exact hcut.append _
  popped _ hx hnot := absurd hx hnot
  pushed := ⟨[], by simp, by simp⟩

theorem Sending.endInput (h : s.Sending d) :
    Progress s d { s with stream := s.stream.endInput } d where
  sending := by
    obtain ⟨first, htrans⟩ := h.transmits
    refine ⟨⟨first, htrans.endInput⟩, ?_⟩
    rcases h.aligned with hun | ⟨start, hal⟩
    · exact Or.inl (hun.frame rfl)
    · exact Or.inr ⟨start, hal.frame rfl rfl⟩
  isn := rfl
  nextSeqno_le := le_refl _
  ackAbs_le := le_refl _
  bytesReaded_le := le_refl _
  finSent := id
  cut q seg hcut := hcut.endInput
  popped _ hx hnot := absurd hx hnot
  pushed := ⟨[], by simp, by simp⟩

theorem mem_popAcked_or_le (ack : ℕ) (ends : List ℕ) (segs : List TcpSegment)
    (times : List ℕ) {x : TcpSegment × ℕ} (hx : x ∈ segs.zip ends) :
    x ∈ (popAcked ack ends segs times).2.1.zip (popAcked ack ends segs times).1 ∨ x.2 ≤ ack := by
  induction ends generalizing segs times with
  | nil => simp at hx
  | cons e ends ih =>
      rw [popAcked]
      split_ifs with hle
      · cases segs with
        | nil => simp at hx
        | cons seg segs =>
            rcases List.mem_cons.mp hx with rfl | hmem
            · exact Or.inr hle
            · exact ih segs times.tail hmem
      · exact Or.inl hx

/-- After the SYN, an acknowledgment leaves the acknowledged number or moves it to the one
that was read off it. -/
theorem Sending.ackReceived (h : s.Sending d) (hnext : s.nextSeqno ≠ 0)
    (ackno : WrappingInt32) (w : UInt16) :
    Progress s d (s.ackReceived ackno w) d ∧
      ((s.ackReceived ackno w).ackAbs = s.ackAbs ∨
        (s.ackReceived ackno w).ackAbs = s.absoluteAckno ackno) := by
  obtain ⟨first, htrans⟩ := h.transmits
  obtain ⟨start, hal⟩ : ∃ start, s.Aligned start := by
    rcases h.aligned with hun | hal
    · exact absurd hun.nextSeqno hnext
    · exact hal
  have hwin := hal.withWindow w
  have hwindow : Progress s d { s with windowSize := w.toNat } d :=
    { h.refl with
      sending := ⟨⟨first, htrans.frame w.toNat_lt rfl ⟨rfl, rfl, rfl⟩ rfl rfl
        (List.suffix_refl _)⟩, Or.inr ⟨start, hwin⟩⟩ }
  simp only [TcpSender.ackReceived]
  split_ifs with huse hfill
  · exact ⟨hwindow, Or.inl rfl⟩
  all_goals
    obtain ⟨hnew, hsent⟩ := hwin.counts.lt_and_le_of_not_useless hnext huse
    have hacked : Progress s d (({ s with windowSize := w.toNat } : TcpSender).acceptAck
        (s.absoluteAckno ackno)) d :=
      { h.refl with
        sending := by
          refine ⟨⟨first, htrans.frame w.toNat_lt rfl ⟨rfl, rfl, rfl⟩ rfl rfl
            (popAcked_suffix _ _ _ _)⟩, Or.inr ?_⟩
          obtain ⟨popped, start', -, -, -, hal'⟩ := hwin.acceptAck hnew hsent
          exact ⟨start', hal'⟩
        ackAbs_le := hnew.le
        popped := by
          intro x hx hnot
          exact (mem_popAcked_or_le _ _ _ _ hx).resolve_left hnot }
  · refine ⟨hacked.trans hacked.sending.fillWindow, Or.inr ?_⟩
    exact hacked.sending.filled.ackAbs
  · exact ⟨hacked, Or.inr rfl⟩

theorem sending_new (capacity : ℕ) (retxTimeout : UInt16) (fixedIsn : Option WrappingInt32)
    (random : UInt32) : (new capacity retxTimeout fixedIsn random).Sending [] :=
  ⟨⟨[], transmits_new capacity retxTimeout fixedIsn random⟩,
    Or.inl (unsent_new capacity retxTimeout fixedIsn random)⟩

theorem Sending.bytesReaded_le (h : s.Sending d) : s.stream.bytesReaded ≤ d.length := by
  obtain ⟨first, htrans⟩ := h.transmits
  have hlen := htrans.length_eq
  omega

theorem Sending.counts (h : s.Sending d) : s.Counts := by
  obtain ⟨first, htrans⟩ := h.transmits
  exact htrans.counts

/-- Once the FIN is sent, all accepted bytes were read from the stream. -/
theorem Sending.bytesReaded_of_finSent (h : s.Sending d) (hfin : s.finSent = true) :
    s.stream.ended = true ∧ s.stream.bytesReaded = d.length := by
  obtain ⟨first, htrans⟩ := h.transmits
  have hlen := htrans.length_eq
  obtain ⟨hended, hdeq⟩ := htrans.finSent hfin
  rw [hdeq, List.length_nil] at hlen
  exact ⟨hended, by omega⟩

/-- The bytes of a cut that was sent were read from the stream, and with a FIN they are the
last ones. -/
theorem Sending.of_cut (h : s.Sending d) {q : ℕ} (hcut : Cut s.isn d s.stream.ended q seg)
    (hend : q + seg.lengthInSequenceSpace ≤ s.nextSeqno) :
    q - 1 + seg.payload.length ≤ s.stream.bytesReaded ∧
      (seg.header.fin = true → s.finSent = true) := by
  have hread := h.bytesReaded_le
  cases Nat.eq_zero_or_pos q with
  | inl hzero =>
      obtain ⟨hpayload, hfin⟩ := hcut.syn hzero
      simp [hzero, hpayload, hfin]
  | inr hpos =>
      have hlen : seg.lengthInSequenceSpace =
          seg.payload.length + if seg.header.fin then 1 else 0 :=
        TcpSegment.lengthInSequenceSpace_of_not_syn (by
          rw [hcut.header_syn, decide_eq_false_iff_not]
          omega)
      have hnext := h.counts.of_ne_zero (by omega)
      have hbound := hcut.bound hpos
      by_cases hsent : s.finSent = true
      · have hall := (h.bytesReaded_of_finSent hsent).2
        exact ⟨by omega, fun _ ↦ hsent⟩
      · rw [if_neg hsent] at hnext
        refine ⟨by omega, fun hfin ↦ ?_⟩
        have hfull := (hcut.fin hfin).2
        rw [if_pos hfin] at hlen
        omega

/-- An outstanding segment is the cut that its last number says. -/
theorem Sending.cut_of_outstanding (h : s.Sending d) {e : ℕ} (hseg : (seg, e) ∈ s.outstanding) :
    ∃ q, e = q + seg.lengthInSequenceSpace ∧ Cut s.isn d s.stream.ended q seg ∧
      e ≤ s.nextSeqno := by
  obtain ⟨first, htrans⟩ := h.transmits
  rcases h.aligned with hun | ⟨start, hal⟩
  · rw [TcpSender.outstanding, hun.segmentsOutstanding] at hseg
    simp at hseg
  · obtain ⟨before, hfirst⟩ := htrans.outstanding
    have htiled := htrans.tiled
    have hend := htrans.tileEnd_eq
    rw [← hfirst, tiled_append] at htiled
    rw [← hfirst, tileEnd_append, ← hal.tileEnd_eq] at hend
    rw [tileEnd_injective _ hend] at htiled
    rw [TcpSender.outstanding, hal.ends] at hseg
    obtain ⟨q, heq, hcut, hle⟩ := htiled.2.exists_of_mem_zip hseg
    exact ⟨q, heq, hcut, hal.tileEnd_eq ▸ hle⟩

/-- At most the SYN was sent, and nothing came back. -/
structure Handshaking (s : TcpSender) : Prop where
  windowSize : s.windowSize = 1
  ackAbs : s.ackAbs = 0
  nextSeqno_le : s.nextSeqno ≤ 1

theorem Handshaking.frame (h : s.Handshaking) {out : List TcpSegment} {stream : ByteStream} :
    ({ s with segmentsOut := out, stream := stream } : TcpSender).Handshaking :=
  ⟨h.windowSize, h.ackAbs, h.nextSeqno_le⟩

theorem Handshaking.fillWindow (h : s.Handshaking) (hs : s.Sending d) :
    s.fillWindow.Handshaking := by
  have hwin := hs.windowSize_lt
  have hfill := hs.filled
  refine ⟨hfill.windowSize.trans h.windowSize, hfill.ackAbs.trans h.ackAbs, ?_⟩
  rcases hs.aligned with hun | ⟨start, hal⟩
  · rw [hun.fillWindow_eq]
    simp [sendSyn, pushSegment, hun.nextSeqno]
  · -- The SYN in flight fills the first window.
    obtain ⟨segs, hsegs, heq⟩ := exists_emissions (s := s) (by omega)
    cases segs with
    | nil =>
        rw [heq, run_nil]
        exact h.nextSeqno_le
    | cons seg segs =>
        have hne := hal.nextSeqno_ne_zero
        have hfits := hsegs.1.fits hne
        have hpos := hsegs.1.length_pos
        rw [hal.bytesFlying, h.windowSize, h.ackAbs] at hfits
        omega

theorem Handshaking.tick (h : s.Handshaking) (ms : ℕ) : (s.tick ms).Handshaking := by
  obtain ⟨out, times, time, consec, rto, heq, -, -⟩ := exists_tick s ms
  rw [heq]
  exact ⟨h.windowSize, h.ackAbs, h.nextSeqno_le⟩

/-- The sender itself sets no acknowledgment on its segments. -/
structure Plain (s : TcpSender) : Prop where
  windowSize_lt : s.windowSize < 2 ^ 16
  queue : ∀ seg ∈ s.segmentsOut, seg.header.ack = false
  outstanding : ∀ seg ∈ s.segmentsOutstanding, seg.header.ack = false

theorem plain_iff : s.Plain ↔ s.HasOnly fun seg ↦ seg.header.ack = false :=
  ⟨fun h ↦ ⟨h.windowSize_lt, h.queue, h.outstanding⟩,
    fun h ↦ ⟨h.windowSize_lt, h.queue, h.outstanding⟩⟩

theorem Plain.withStream (h : s.Plain) (stream : ByteStream) :
    ({ s with stream := stream } : TcpSender).Plain :=
  ⟨h.windowSize_lt, h.queue, h.outstanding⟩

theorem Plain.fillWindow (h : s.Plain) : s.fillWindow.Plain :=
  plain_iff.mpr ((plain_iff.mp h).fillWindow fun _ _ _ _ _ ↦ rfl)

theorem Plain.ackReceived (h : s.Plain) (ackno : WrappingInt32) (w : UInt16) :
    (s.ackReceived ackno w).Plain :=
  plain_iff.mpr ((plain_iff.mp h).ackReceived (fun _ _ _ _ _ ↦ rfl) ackno w)

theorem Plain.tick (h : s.Plain) (ms : ℕ) : (s.tick ms).Plain :=
  plain_iff.mpr ((plain_iff.mp h).tick ms)

theorem Plain.sendEmptySegment (h : s.Plain) : s.sendEmptySegment.Plain :=
  plain_iff.mpr ((plain_iff.mp h).sendEmptySegment fun _ _ _ _ _ ↦ rfl)

end Sponge.TcpSender
