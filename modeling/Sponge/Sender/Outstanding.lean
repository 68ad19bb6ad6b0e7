import Sponge.Lib.Tiling
import Sponge.Sender.Emission

/-!
# The outstanding segments

Once the SYN is sent, the outstanding segments tile an interval of sequence
numbers that ends at the next one, and the first segment that is not fully
acknowledged is the first of them. `Aligned` is the invariant; it is kept by
every operation of the sender.
-/

namespace Sponge.TcpSender

open Lib

variable {s : TcpSender} {seg : TcpSegment} {start : ℕ}

/-- The outstanding segments tile the sequence numbers from `start` on. -/
structure Aligned (s : TcpSender) (start : ℕ) : Prop where
  windowSize_lt : s.windowSize < 2 ^ 16
  tiled : Tiled TcpSegment.lengthInSequenceSpace
    (fun q seg ↦ seg.header.seqno = wrap q s.isn ∧ 0 < seg.lengthInSequenceSpace)
    start s.segmentsOutstanding
  ends : s.seqnosAbsOutstanding =
    tileEnds TcpSegment.lengthInSequenceSpace start s.segmentsOutstanding
  tileEnd_eq : tileEnd TcpSegment.lengthInSequenceSpace start s.segmentsOutstanding = s.nextSeqno
  length_timestamps : s.timestampsOutstanding.length = s.segmentsOutstanding.length
  start_le : start ≤ s.ackAbs
  ackAbs_le : s.ackAbs ≤ s.nextSeqno
  head : ∀ seg rest, s.segmentsOutstanding = seg :: rest →
    s.ackAbs < start + seg.lengthInSequenceSpace
  bytesFlying : s.bytesFlying = s.nextSeqno - s.ackAbs
  nextSeqno_ne_zero : s.nextSeqno ≠ 0
  counts : s.Counts

namespace Aligned

theorem segmentsOutstanding_eq_nil_iff (h : s.Aligned start) :
    s.segmentsOutstanding = [] ↔ s.ackAbs = s.nextSeqno := by
  have hend := h.tileEnd_eq
  have hstart := h.start_le
  have hack := h.ackAbs_le
  constructor
  · intro hnil
    rw [hnil, tileEnd] at hend
    omega
  · intro heq
    cases hsegs : s.segmentsOutstanding with
    | nil => rfl
    | cons seg rest =>
        have hhead := h.head seg rest hsegs
        rw [hsegs, tileEnd] at hend
        have hle : _ ≤ tileEnd TcpSegment.lengthInSequenceSpace _ rest :=
          le_tileEnd (start + seg.lengthInSequenceSpace) rest
        omega

/-- The fields that the invariant does not read may change, and the streams may
change as long as nothing is read from them. -/
theorem frame (h : s.Aligned start) {out : List TcpSegment} {stream : ByteStream}
    {times : List ℕ} {time consec rto : ℕ} (hread : stream.bytesReaded = s.stream.bytesReaded)
    (htimes : times.length = s.timestampsOutstanding.length) :
    ({ s with
      segmentsOut := out
      stream := stream
      timestampsOutstanding := times
      time := time
      consecRetrans := consec
      currRto := rto } : TcpSender).Aligned start where
  windowSize_lt := h.windowSize_lt
  tiled := h.tiled
  ends := h.ends
  tileEnd_eq := h.tileEnd_eq
  length_timestamps := htimes.trans h.length_timestamps
  start_le := h.start_le
  ackAbs_le := h.ackAbs_le
  head := h.head
  bytesFlying := h.bytesFlying
  nextSeqno_ne_zero := h.nextSeqno_ne_zero
  counts := by
    constructor <;> simp only [hread]
    · exact h.counts.of_zero
    · exact h.counts.of_ne_zero

theorem emit (h : s.Aligned start) (hseg : s.MayEmit seg) : (s.emit seg).Aligned start := by
  have hwin := h.windowSize_lt
  have hack := h.ackAbs_le
  have hpos := hseg.length_pos
  have hend := h.tileEnd_eq
  constructor
  case windowSize_lt => exact hwin
  case tiled =>
    simp only [emit_segmentsOutstanding, emit_isn, tiled_append, hend]
    exact ⟨h.tiled, ⟨hseg.seqno, hpos⟩, trivial⟩
  case ends =>
    simp only [emit_segmentsOutstanding, emit_seqnosAbsOutstanding, tileEnds_append, hend, h.ends]
    rfl
  case tileEnd_eq =>
    simp only [emit_segmentsOutstanding, tileEnd_append, hend]
    rfl
  case length_timestamps => simp [h.length_timestamps]
  case start_le => exact h.start_le
  case ackAbs_le => exact hack.trans (Nat.le_add_right _ _)
  case head =>
    intro seg' rest heq
    rw [emit_segmentsOutstanding] at heq
    cases hsegs : s.segmentsOutstanding with
    | nil =>
        -- Everything before was acknowledged, so the new segment is the first one.
        have hall := h.segmentsOutstanding_eq_nil_iff.mp hsegs
        rw [hsegs, List.nil_append] at heq
        rw [hsegs, tileEnd] at hend
        obtain ⟨rfl, -⟩ := List.cons.inj heq
        rw [emit_ackAbs]
        omega
    | cons first others =>
        rw [hsegs, List.cons_append] at heq
        obtain ⟨rfl, -⟩ := List.cons.inj heq
        exact h.head first others hsegs
  case bytesFlying =>
    rw [hseg.bytesFlying_emit (by omega) h.nextSeqno_ne_zero, h.bytesFlying, emit_nextSeqno,
      emit_ackAbs]
    omega
  case nextSeqno_ne_zero =>
    rw [emit_nextSeqno]
    omega
  case counts => exact h.counts.emit hseg

theorem fillWindow (h : s.Aligned start) : s.fillWindow.Aligned start := by
  have hwin := h.windowSize_lt
  refine fillWindow_invariant (I := fun s ↦ s.Aligned start) (by omega) ?_ h
  intro s seg hs hseg
  exact hs.emit hseg

end Aligned

/-- Popping drops the segments that end at or before the acknowledged number, and
stops at the first one that does not. -/
theorem exists_popAcked (ack start : ℕ) (segs : List TcpSegment) (times : List ℕ)
    (htimes : times.length = segs.length) :
    ∃ popped kept times', segs = popped ++ kept ∧
      popAcked ack (tileEnds TcpSegment.lengthInSequenceSpace start segs) segs times =
        (tileEnds TcpSegment.lengthInSequenceSpace
          (tileEnd TcpSegment.lengthInSequenceSpace start popped) kept, kept, times') ∧
      times'.length = kept.length ∧
      (popped ≠ [] → tileEnd TcpSegment.lengthInSequenceSpace start popped ≤ ack) ∧
      ∀ seg rest, kept = seg :: rest →
        ack < tileEnd TcpSegment.lengthInSequenceSpace start popped +
          seg.lengthInSequenceSpace := by
  induction segs generalizing start times with
  | nil => exact ⟨[], [], times, rfl, rfl, htimes, by simp, by simp⟩
  | cons seg segs ih =>
      simp only [tileEnds, popAcked]
      split_ifs with hack
      · obtain ⟨popped, kept, times', hsegs, hpop, hlen, hend, hkept⟩ :=
          ih (start + seg.lengthInSequenceSpace) times.tail (by simp [htimes])
        refine ⟨seg :: popped, kept, times', by rw [hsegs]; rfl, hpop, hlen, ?_, hkept⟩
        intro _
        cases popped with
        | nil => exact hack
        | cons _ _ => exact hend (by simp)
      · refine ⟨[], seg :: segs, times, rfl, rfl, htimes, by simp, ?_⟩
        intro seg' rest heq
        obtain ⟨rfl, -⟩ := List.cons.inj heq
        exact Nat.lt_of_not_le hack

theorem Aligned.acceptAck (h : s.Aligned start) {ack : ℕ} (hnew : s.ackAbs < ack)
    (hsent : ack ≤ s.nextSeqno) :
    ∃ popped start', s.segmentsOutstanding = popped ++ (s.acceptAck ack).segmentsOutstanding ∧
      start' = tileEnd TcpSegment.lengthInSequenceSpace start popped ∧ start' ≤ ack ∧
      (s.acceptAck ack).Aligned start' := by
  obtain ⟨popped, kept, times, hsegs, hpop, htimes, hend, hkept⟩ :=
    exists_popAcked ack start s.segmentsOutstanding s.timestampsOutstanding h.length_timestamps
  rw [← h.ends] at hpop
  have hstart := h.start_le
  have hle : tileEnd TcpSegment.lengthInSequenceSpace start popped ≤ ack := by
    by_cases hnil : popped = []
    · rw [hnil, tileEnd]
      omega
    · exact hend hnil
  have htiled := h.tiled
  have htile := h.tileEnd_eq
  rw [hsegs] at htiled htile
  have hkept' : (s.acceptAck ack).segmentsOutstanding = kept := by
    simp only [TcpSender.acceptAck, hpop]
  refine ⟨popped, _, by rw [hkept', hsegs], rfl, hle, ?_⟩
  constructor <;> simp only [TcpSender.acceptAck, hpop]
  case windowSize_lt => exact h.windowSize_lt
  case tiled => exact (tiled_append.mp htiled).2
  case tileEnd_eq => rw [← htile, tileEnd_append]
  case length_timestamps => simpa using htimes
  case start_le => exact hle
  case ackAbs_le => exact hsent
  case head => exact hkept
  case bytesFlying =>
    have hflying := h.bytesFlying
    rw [sub64_of_le (by omega)]
    omega
  case nextSeqno_ne_zero => exact h.nextSeqno_ne_zero
  case counts => exact ⟨h.counts.of_zero, h.counts.of_ne_zero⟩

theorem Aligned.withWindow (h : s.Aligned start) (w : UInt16) :
    ({ s with windowSize := w.toNat } : TcpSender).Aligned start where
  windowSize_lt := w.toNat_lt
  tiled := h.tiled
  ends := h.ends
  tileEnd_eq := h.tileEnd_eq
  length_timestamps := h.length_timestamps
  start_le := h.start_le
  ackAbs_le := h.ackAbs_le
  head := h.head
  bytesFlying := h.bytesFlying
  nextSeqno_ne_zero := h.nextSeqno_ne_zero
  counts := ⟨h.counts.of_zero, h.counts.of_ne_zero⟩

theorem Aligned.ackReceived (h : s.Aligned start) (ackno : WrappingInt32) (w : UInt16) :
    ∃ start', (s.ackReceived ackno w).Aligned start' := by
  have hwin := h.withWindow w
  simp only [TcpSender.ackReceived]
  split_ifs with huse hfill
  · exact ⟨start, hwin⟩
  all_goals
    obtain ⟨hnew, hsent⟩ :=
      hwin.counts.lt_and_le_of_not_useless hwin.nextSeqno_ne_zero huse
    obtain ⟨popped, start', -, -, -, hal⟩ := hwin.acceptAck hnew hsent
  · exact ⟨start', hal.fillWindow⟩
  · exact ⟨start', hal⟩

theorem popAcked_suffix (ack : ℕ) (ends : List ℕ) (segs : List TcpSegment) (times : List ℕ) :
    (popAcked ack ends segs times).2.1 <:+ segs := by
  induction ends generalizing segs times with
  | nil => exact List.suffix_refl segs
  | cons e ends ih =>
      rw [popAcked]
      split_ifs
      · exact (ih segs.tail times.tail).trans (List.tail_suffix segs)
      · exact List.suffix_refl segs

theorem length_popAcked (ack : ℕ) (ends : List ℕ) (segs : List TcpSegment) (times : List ℕ)
    (hsegs : ends.length = segs.length) (htimes : times.length = segs.length) :
    (popAcked ack ends segs times).1.length = (popAcked ack ends segs times).2.1.length ∧
      (popAcked ack ends segs times).2.2.length = (popAcked ack ends segs times).2.1.length := by
  induction ends generalizing segs times with
  | nil => exact ⟨hsegs, htimes⟩
  | cons e ends ih =>
      rw [popAcked]
      split_ifs
      · apply ih
        · simp [← hsegs]
        · simp [htimes]
      · exact ⟨hsegs, htimes⟩

theorem tick_of_cons {first : ℕ} {rest : List ℕ}
    (htimes : s.timestampsOutstanding = first :: rest) (ms : ℕ) :
    s.tick ms =
      if sub64 (add64 s.time ms) first ≥ s.currRto then
        { s with
          time := add64 s.time ms
          segmentsOut := s.segmentsOut ++ s.segmentsOutstanding.head?.toList
          timestampsOutstanding := add64 s.time ms :: rest
          consecRetrans := if s.windowSize ≠ 0 then (s.consecRetrans + 1) % 2 ^ 32
            else s.consecRetrans
          currRto := if s.windowSize ≠ 0 then mul64 s.currRto 2 else s.currRto }
      else { s with time := add64 s.time ms } := by
  simp only [tick, htimes]
  split_ifs <;> rfl

/-- A tick changes the clock, the timer and the first timestamp, and may queue the
oldest outstanding segment again. -/
theorem exists_tick (s : TcpSender) (ms : ℕ) :
    ∃ out times time consec rto,
      s.tick ms = { s with
        segmentsOut := out
        timestampsOutstanding := times
        time := time
        consecRetrans := consec
        currRto := rto } ∧
      times.length = s.timestampsOutstanding.length ∧
      (out = s.segmentsOut ∨ out = s.segmentsOut ++ s.segmentsOutstanding.head?.toList) := by
  cases htimes : s.timestampsOutstanding with
  | nil =>
      refine ⟨s.segmentsOut, [], s.time, s.consecRetrans, s.currRto, ?_, rfl, Or.inl rfl⟩
      simp only [tick, htimes]
      rw [← htimes]
  | cons first rest =>
      simp only [tick, htimes]
      split_ifs
      · exact ⟨_, _, _, _, _, rfl, rfl, Or.inr rfl⟩
      · exact ⟨_, _, _, _, _, rfl, rfl, Or.inr rfl⟩
      · exact ⟨_, _, _, _, _, rfl, rfl, Or.inl rfl⟩

theorem Aligned.tick (h : s.Aligned start) (ms : ℕ) : (s.tick ms).Aligned start := by
  obtain ⟨out, times, time, consec, rto, heq, htimes, -⟩ := exists_tick s ms
  rw [heq]
  exact h.frame rfl htimes

theorem Aligned.step (h : s.Aligned start) (op : Op) : ∃ start', (s.step op).Aligned start' := by
  cases op with
  | write data => exact ⟨start, h.frame rfl rfl⟩
  | endInput => exact ⟨start, h.frame rfl rfl⟩
  | fillWindow => exact ⟨start, h.fillWindow⟩
  | ackReceived ackno w => exact h.ackReceived ackno w
  | tick ms => exact ⟨start, h.tick ms⟩
  | sendEmptySegment => exact ⟨start, h.frame rfl rfl⟩
  | takeSegment => exact ⟨start, h.frame rfl rfl⟩

/-- Nothing was sent and nothing was acknowledged. -/
structure Unsent (s : TcpSender) : Prop where
  nextSeqno : s.nextSeqno = 0
  segmentsOutstanding : s.segmentsOutstanding = []
  seqnosAbsOutstanding : s.seqnosAbsOutstanding = []
  timestampsOutstanding : s.timestampsOutstanding = []
  bytesFlying : s.bytesFlying = 0
  windowSize : s.windowSize = 1
  ackAbs : s.ackAbs = 0
  bytesReaded : s.stream.bytesReaded = 0
  finSent : s.finSent = false

theorem unsent_new (capacity : ℕ) (retxTimeout : UInt16) (fixedIsn : Option WrappingInt32)
    (random : UInt32) : (new capacity retxTimeout fixedIsn random).Unsent := by
  constructor <;> rfl

theorem Unsent.frame (h : s.Unsent) {out : List TcpSegment} {stream : ByteStream}
    (hread : stream.bytesReaded = s.stream.bytesReaded) :
    ({ s with segmentsOut := out, stream := stream } : TcpSender).Unsent :=
  ⟨h.nextSeqno, h.segmentsOutstanding, h.seqnosAbsOutstanding, h.timestampsOutstanding,
    h.bytesFlying, h.windowSize, h.ackAbs, hread.trans h.bytesReaded, h.finSent⟩

theorem Unsent.fillWindow_eq (h : s.Unsent) : s.fillWindow = s.sendSyn := if_pos h.nextSeqno

/-- The SYN alone is outstanding. -/
theorem Unsent.aligned (h : s.Unsent) : s.fillWindow.Aligned 0 := by
  rw [h.fillWindow_eq]
  constructor
  case counts =>
    constructor <;> simp [sendSyn, pushSegment, h.nextSeqno, h.bytesReaded, h.finSent]
  all_goals
    simp [sendSyn, pushSegment, h.nextSeqno, h.segmentsOutstanding, h.seqnosAbsOutstanding,
      h.timestampsOutstanding, h.bytesFlying, h.windowSize, h.ackAbs, Tiled, tileEnds, tileEnd,
      TcpSegment.lengthInSequenceSpace, add64]

/-- The outstanding segments as they lie in the three queues. -/
structure Bookkeeping (s : TcpSender) : Prop where
  length_segments : s.segmentsOutstanding.length = s.seqnosAbsOutstanding.length
  length_timestamps : s.timestampsOutstanding.length = s.seqnosAbsOutstanding.length
  increasing : s.seqnosAbsOutstanding.Pairwise (· < ·)
  last : ∀ e, s.seqnosAbsOutstanding.getLast? = some e → e = s.nextSeqno
  /-- Each segment lies between the end before it and its own; the first one
  starts at or before the acknowledged number and ends after it. -/
  segments : ∃ start,
    (∀ (k : ℕ) (seg : TcpSegment), s.segmentsOutstanding[k]? = some seg →
      ∃ a e, (start :: s.seqnosAbsOutstanding)[k]? = some a ∧
        s.seqnosAbsOutstanding[k]? = some e ∧ a < e ∧
        seg.header.seqno = wrap a s.isn ∧ seg.lengthInSequenceSpace = e - a) ∧
    ∀ e, s.seqnosAbsOutstanding.head? = some e → start ≤ s.ackAbs ∧ s.ackAbs < e
  ackAbs_le : s.ackAbs ≤ s.nextSeqno
  bytesInFlight : s.bytesInFlight + s.ackAbs = s.nextSeqnoAbsolute
  empty_iff : s.segmentsOutstanding = [] ↔ s.ackAbs = s.nextSeqno
  nextSeqno_eq : s.nextSeqno = 1 + s.streamIn.bytesRead + if s.finSent then 1 else 0

theorem Aligned.bookkeeping (h : s.Aligned start) : s.Bookkeeping := by
  constructor
  case length_segments => rw [h.ends, length_tileEnds]
  case length_timestamps => rw [h.ends, length_tileEnds, h.length_timestamps]
  case increasing =>
    rw [h.ends]
    exact pairwise_tileEnds h.tiled fun q seg hseg ↦ hseg.2
  case last =>
    intro e he
    by_cases hnil : s.segmentsOutstanding = []
    · rw [h.ends, hnil] at he
      simp [tileEnds] at he
    · rw [h.ends, getLast?_tileEnds hnil, h.tileEnd_eq] at he
      exact (Option.some.inj he).symm
  case segments =>
    refine ⟨start, ?_, ?_⟩
    · intro k seg hk
      obtain ⟨a, ha, he, hseqno, hpos⟩ := h.tiled.getElem? hk
      rw [← h.ends] at ha he
      exact ⟨a, _, ha, he, by omega, hseqno, by omega⟩
    · intro e he
      refine ⟨h.start_le, ?_⟩
      cases hsegs : s.segmentsOutstanding with
      | nil =>
          rw [h.ends, hsegs] at he
          simp [tileEnds] at he
      | cons seg rest =>
          rw [h.ends, hsegs, tileEnds, List.head?_cons] at he
          rw [← Option.some.inj he]
          exact h.head seg rest hsegs
  case ackAbs_le => exact h.ackAbs_le
  case bytesInFlight =>
    have hack := h.ackAbs_le
    have hflying := h.bytesFlying
    simp only [TcpSender.bytesInFlight, nextSeqnoAbsolute]
    omega
  case empty_iff => exact h.segmentsOutstanding_eq_nil_iff
  case nextSeqno_eq => exact h.counts.of_ne_zero h.nextSeqno_ne_zero

/-- Whatever happens to a sender after its SYN, whichever acknowledgments it gets,
its bookkeeping stays right. -/
theorem bookkeeping_after_syn (capacity : ℕ) (retxTimeout : UInt16)
    (fixedIsn : Option WrappingInt32) (random : UInt32) (ops : List Op) :
    (run step (new capacity retxTimeout fixedIsn random).fillWindow ops).Bookkeeping := by
  have hrun : ∃ start,
      (run step (new capacity retxTimeout fixedIsn random).fillWindow ops).Aligned start := by
    refine run_invariant_of_step (I := fun s : TcpSender ↦ ∃ start, s.Aligned start) ?_
      ⟨0, (unsent_new capacity retxTimeout fixedIsn random).aligned⟩ ops
    rintro s op ⟨start, hs⟩
    exact hs.step op
  obtain ⟨start, h⟩ := hrun
  exact h.bookkeeping

end Sponge.TcpSender
