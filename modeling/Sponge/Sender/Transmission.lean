import Sponge.Lib.Ranges
import Sponge.Lib.Tiling
import Sponge.Sender.Emission
import Sponge.Sender.Outstanding

/-!
# The history of transmissions

With the bytes accepted by its stream as a reference, every segment that a
sender builds is a cut of those bytes, and its first transmissions tile the
sequence numbers sent so far. The timer only repeats earlier transmissions.
-/

namespace Sponge

open Lib

namespace TcpSender

variable {s : TcpSender} {seg : TcpSegment} {d e : List UInt8} {isn : WrappingInt32}
  {ended : Bool} {first : List TcpSegment} {q : ℕ}

/-- The segment with absolute number `q` cut from the stream `d`: the SYN at zero, and
after it a piece of the bytes with the FIN only where an ended stream ends. -/
structure Cut (isn : WrappingInt32) (d : List UInt8) (ended : Bool) (q : ℕ)
    (seg : TcpSegment) : Prop where
  seqno : seg.header.seqno = wrap q isn
  header_syn : seg.header.syn = decide (q = 0)
  syn : q = 0 → seg.payload = [] ∧ seg.header.fin = false
  payload : 1 ≤ q → seg.payload = substr d (q - 1) seg.payload.length
  bound : 1 ≤ q → q - 1 + seg.payload.length ≤ d.length
  length_payload_le : seg.payload.length ≤ TcpConfig.maxPayloadSize
  nonempty : 1 ≤ q → seg.payload ≠ [] ∨ seg.header.fin = true
  fin : seg.header.fin = true → ended = true ∧ q - 1 + seg.payload.length = d.length

/-- More bytes may be accepted while the stream has not ended. -/
theorem Cut.append (h : Cut isn d false q seg) (e : List UInt8) :
    Cut isn (d ++ e) false q seg where
  seqno := h.seqno
  header_syn := h.header_syn
  syn := h.syn
  payload hq := by
    have hbound := h.bound hq
    have hpayload := h.payload hq
    rw [substr, List.drop_append_of_le_length (by omega), List.take_append_of_le_length]
    · exact hpayload
    · rw [List.length_drop]
      omega
  bound hq := by
    have hbound := h.bound hq
    rw [List.length_append]
    omega
  length_payload_le := h.length_payload_le
  nonempty := h.nonempty
  fin hfin := absurd (h.fin hfin).1 Bool.false_ne_true

theorem Cut.endInput (h : Cut isn d ended q seg) : Cut isn d true q seg :=
  { h with fin := fun hfin ↦ ⟨rfl, (h.fin hfin).2⟩ }

/-- The bytes `d` were accepted so far, and `first` are the first transmissions. -/
structure Transmits (s : TcpSender) (d : List UInt8) (first : List TcpSegment) : Prop where
  windowSize_lt : s.windowSize < 2 ^ 16
  tiled : Tiled TcpSegment.lengthInSequenceSpace (Cut s.isn d s.stream.ended) 0 first
  tileEnd_eq : tileEnd TcpSegment.lengthInSequenceSpace 0 first = s.nextSeqno
  outstanding : s.segmentsOutstanding <:+ first
  counts : s.Counts
  deq : s.stream.deq = d.drop s.stream.bytesReaded
  bytesWrote : s.stream.bytesWrote = d.length
  finSent : s.finSent = true → s.stream.ended = true ∧ s.stream.deq = []
  syn_once : first.countP (·.header.syn) = if s.nextSeqno = 0 then 0 else 1
  fin_once : first.countP (·.header.fin) = if s.finSent then 1 else 0

namespace Transmits

theorem length_eq (h : s.Transmits d first) :
    s.stream.bytesReaded + s.stream.deq.length = d.length := by
  rw [← h.bytesWrote, s.stream.bytesWrote_eq]

/-- A sender that sends something new has not sent its FIN. -/
theorem finSent_of_mayEmit (h : s.Transmits d first) (hseg : s.MayEmit seg) :
    s.finSent = false := by
  by_contra hsent
  rw [Bool.not_eq_false] at hsent
  have hnext : s.nextSeqno ≠ 0 := fun hzero ↦ by
    have := (h.counts.of_zero hzero).2
    simp [this] at hsent
  rcases hseg.nonempty hnext with hpayload | hfin
  · have hle := hseg.length_payload_le_deq
    rw [(h.finSent hsent).2, List.length_nil] at hle
    exact hpayload (List.length_eq_zero_iff.mp (by omega))
  · simp [(hseg.fin hfin).1] at hsent

theorem cut (h : s.Transmits d first) (hseg : s.MayEmit seg) :
    Cut s.isn d s.stream.ended s.nextSeqno seg := by
  have hsent := h.finSent_of_mayEmit hseg
  have hlen := h.length_eq
  have hle := hseg.length_payload_le_deq
  have hread : s.nextSeqno - 1 = s.stream.bytesReaded := by
    by_cases hzero : s.nextSeqno = 0
    · have := (h.counts.of_zero hzero).1
      omega
    · have := h.counts.of_ne_zero hzero
      simp only [hsent, Bool.false_eq_true, if_false] at this
      omega
  constructor
  case seqno => exact hseg.seqno
  case header_syn => exact hseg.header_syn
  case syn => exact hseg.syn
  case payload =>
    intro _
    rw [hread, substr, ← h.deq]
    exact hseg.payload
  case bound =>
    intro _
    omega
  case length_payload_le => exact hseg.length_payload_le
  case nonempty => exact fun hq ↦ hseg.nonempty (by omega)
  case fin =>
    intro hfin
    obtain ⟨-, hended, hall⟩ := hseg.fin hfin
    exact ⟨hended, by omega⟩

theorem emit (h : s.Transmits d first) (hseg : s.MayEmit seg) :
    (s.emit seg).Transmits d (first ++ [seg]) := by
  have hsent := h.finSent_of_mayEmit hseg
  have hcut := h.cut hseg
  have hle := hseg.length_payload_le_deq
  have hpos := hseg.length_pos
  have hnew : (s.emit seg).nextSeqno ≠ 0 := by
    rw [emit_nextSeqno]
    omega
  constructor
  case windowSize_lt => exact h.windowSize_lt
  case tiled =>
    rw [tiled_append, h.tileEnd_eq]
    exact ⟨h.tiled, hcut, trivial⟩
  case tileEnd_eq =>
    rw [tileEnd_append, h.tileEnd_eq]
    rfl
  case outstanding =>
    obtain ⟨before, hbefore⟩ := h.outstanding
    exact ⟨before, by rw [emit_segmentsOutstanding, ← List.append_assoc, hbefore]⟩
  case counts => exact h.counts.emit hseg
  case deq =>
    rw [emit_stream, ByteStream.popOutput_deq, ByteStream.popOutput_bytesReaded, h.deq,
      List.drop_drop, min_eq_left]
    rw [← h.deq]
    exact hle
  case bytesWrote => exact h.bytesWrote
  case finSent =>
    intro hfin
    rw [emit_finSent, hsent, Bool.false_or] at hfin
    obtain ⟨-, hended, hall⟩ := hseg.fin hfin
    refine ⟨hended, ?_⟩
    rw [emit_stream, ByteStream.popOutput_deq, hall, List.drop_length]
  case syn_once =>
    rw [List.countP_append, h.syn_once, if_neg hnew, List.countP_singleton, hseg.header_syn]
    by_cases hzero : s.nextSeqno = 0 <;> simp [hzero]
  case fin_once =>
    rw [List.countP_append, h.fin_once, List.countP_singleton, emit_finSent, hsent]
    simp

theorem run_emit {segs : List TcpSegment} (h : s.Transmits d first)
    (hsegs : Along TcpSender.emit MayEmit s segs) :
    (run TcpSender.emit s segs).Transmits d (first ++ segs) ∧
      (run TcpSender.emit s segs).segmentsOut = s.segmentsOut ++ segs := by
  induction segs generalizing s first with
  | nil => simpa using h
  | cons seg segs ih =>
      obtain ⟨hrun, hout⟩ := ih (h.emit hsegs.1) hsegs.2
      simp only [run_cons]
      rw [List.append_assoc, List.singleton_append] at hrun
      exact ⟨hrun, by rw [hout, emit_segmentsOut, List.append_assoc, List.singleton_append]⟩

theorem fillWindow (h : s.Transmits d first) :
    ∃ segs, s.fillWindow.Transmits d (first ++ segs) ∧
      s.fillWindow.segmentsOut = s.segmentsOut ++ segs := by
  have hwin := h.windowSize_lt
  obtain ⟨segs, hsegs, heq⟩ := exists_emissions (s := s) (by omega)
  rw [heq]
  exact ⟨segs, h.run_emit hsegs⟩

/-- What the invariant does not read may change, and outstanding segments may be
dropped from the front. -/
theorem frame (h : s.Transmits d first) {s' : TcpSender} (hwin : s'.windowSize < 2 ^ 16)
    (hisn : s'.isn = s.isn) (hstream : s'.stream.SameBytes s.stream)
    (hnext : s'.nextSeqno = s.nextSeqno) (hsent : s'.finSent = s.finSent)
    (hsuffix : s'.segmentsOutstanding <:+ s.segmentsOutstanding) : s'.Transmits d first where
  windowSize_lt := hwin
  tiled := by rw [hisn, hstream.ended]; exact h.tiled
  tileEnd_eq := by rw [hnext]; exact h.tileEnd_eq
  outstanding := hsuffix.trans h.outstanding
  counts := by
    constructor <;> rw [hnext, hstream.bytesReaded, hsent]
    · exact h.counts.of_zero
    · exact h.counts.of_ne_zero
  deq := by rw [hstream.deq, hstream.bytesReaded]; exact h.deq
  bytesWrote := hstream.bytesWrote.trans h.bytesWrote
  finSent := by rw [hsent, hstream.ended, hstream.deq]; exact h.finSent
  syn_once := by rw [hnext]; exact h.syn_once
  fin_once := by rw [hsent]; exact h.fin_once

theorem ackReceived (h : s.Transmits d first) (ackno : WrappingInt32) (w : UInt16) :
    ∃ segs, (s.ackReceived ackno w).Transmits d (first ++ segs) ∧
      (s.ackReceived ackno w).segmentsOut = s.segmentsOut ++ segs := by
  simp only [TcpSender.ackReceived]
  split_ifs with huse hfill
  · refine ⟨[], ?_, by simp⟩
    rw [List.append_nil]
    exact h.frame w.toNat_lt rfl ⟨rfl, rfl, rfl⟩ rfl rfl (List.suffix_refl _)
  all_goals
    have hack : (({ s with windowSize := w.toNat } : TcpSender).acceptAck
        (s.absoluteAckno ackno)).Transmits d first :=
      h.frame w.toNat_lt rfl ⟨rfl, rfl, rfl⟩ rfl rfl (popAcked_suffix _ _ _ _)
  · exact hack.fillWindow
  · exact ⟨[], by rwa [List.append_nil], by simp [acceptAck]⟩

theorem tick (h : s.Transmits d first) (ms : ℕ) :
    (s.tick ms).Transmits d first ∧
      ∃ segs, (s.tick ms).segmentsOut = s.segmentsOut ++ segs ∧ ∀ seg ∈ segs, seg ∈ first := by
  obtain ⟨out, times, time, consec, rto, heq, -, hout⟩ := exists_tick s ms
  rw [heq]
  refine ⟨h.frame h.windowSize_lt rfl ⟨rfl, rfl, rfl⟩ rfl rfl (List.suffix_refl _), ?_⟩
  rcases hout with rfl | rfl
  · exact ⟨[], by simp, by simp⟩
  · refine ⟨_, rfl, fun seg hseg ↦ h.outstanding.subset ?_⟩
    rw [Option.mem_toList] at hseg
    exact List.mem_of_mem_head? hseg

theorem write (h : s.Transmits d first) (hended : s.stream.ended = false) (data : List UInt8) :
    ({ s with stream := s.stream.write data } : TcpSender).Transmits
      (d ++ data.take (s.stream.writeSize data)) first := by
  have hlen := h.length_eq
  have hnot : s.finSent = false := by
    by_contra hsent
    rw [Bool.not_eq_false] at hsent
    simp [(h.finSent hsent).1] at hended
  constructor
  case windowSize_lt => exact h.windowSize_lt
  case tiled =>
    have htiled := h.tiled
    rw [hended] at htiled
    simp only [ByteStream.write_ended, hended]
    exact htiled.mono fun q seg hcut ↦ hcut.append _
  case tileEnd_eq => exact h.tileEnd_eq
  case outstanding => exact h.outstanding
  case counts => exact ⟨h.counts.of_zero, h.counts.of_ne_zero⟩
  case deq =>
    simp only [ByteStream.write_deq, ByteStream.write_bytesReaded]
    rw [List.drop_append_of_le_length (by omega), h.deq]
  case bytesWrote =>
    have hle := s.stream.writeSize_le_length data
    simp only [ByteStream.write_bytesWrote, List.length_append, List.length_take, h.bytesWrote]
    omega
  case finSent => exact fun hsent ↦ absurd hsent (by simp [hnot])
  case syn_once => exact h.syn_once
  case fin_once => exact h.fin_once

theorem endInput (h : s.Transmits d first) :
    ({ s with stream := s.stream.endInput } : TcpSender).Transmits d first :=
  { h with
    tiled := h.tiled.mono fun _ _ hcut ↦ hcut.endInput
    counts := ⟨h.counts.of_zero, h.counts.of_ne_zero⟩
    finSent := fun hsent ↦ ⟨rfl, (h.finSent hsent).2⟩ }

end Transmits

theorem transmits_new (capacity : ℕ) (retxTimeout : UInt16) (fixedIsn : Option WrappingInt32)
    (random : UInt32) : (new capacity retxTimeout fixedIsn random).Transmits [] [] := by
  constructor
  case counts => constructor <;> simp [new, ByteStream.new]
  all_goals simp [new, Tiled, tileEnd, ByteStream.new]

end TcpSender

/-- A segment pushed on the queue, for the first time or again by the timer. -/
inductive Emission
  | first (seg : TcpSegment)
  | again (seg : TcpSegment)
  deriving DecidableEq

namespace Emission

def seg : Emission → TcpSegment
  | .first seg => seg
  | .again seg => seg

/-- The first transmissions of a history, in order. -/
def firsts (log : List Emission) : List TcpSegment :=
  log.filterMap fun
    | .first seg => some seg
    | .again _ => none

@[simp] theorem firsts_append (xs ys : List Emission) :
    firsts (xs ++ ys) = firsts xs ++ firsts ys :=
  List.filterMap_append

@[simp] theorem firsts_map_first (segs : List TcpSegment) : firsts (segs.map first) = segs := by
  induction segs with
  | nil => rfl
  | cons seg segs ih => exact congrArg _ ih

@[simp] theorem firsts_map_again (segs : List TcpSegment) : firsts (segs.map again) = [] := by
  induction segs with
  | nil => rfl
  | cons seg segs ih => exact ih

theorem first_mem_iff {log : List Emission} {seg : TcpSegment} :
    .first seg ∈ log ↔ seg ∈ firsts log := by
  induction log with
  | nil => simp [firsts]
  | cons x log ih => cases x <;> simp_all [firsts]

end Emission

/-- A sender with the bytes its stream accepted and the history of its queue. -/
structure Transmission where
  sender : TcpSender
  accepted : List UInt8
  log : List Emission

namespace Transmission

open TcpSender Emission

def new (sender : TcpSender) : Transmission := ⟨sender, [], []⟩

/-- The segments that the step to `s'` pushed on the queue of `s`. -/
def pushed (s s' : TcpSender) : List TcpSegment := s'.segmentsOut.drop s.segmentsOut.length

def step (t : Transmission) (op : Op) : Transmission :=
  { sender := t.sender.step op
    accepted := match op with
      | .write data => t.accepted ++ data.take (t.sender.stream.writeSize data)
      | _ => t.accepted
    log := match op with
      | .fillWindow | .ackReceived _ _ =>
        t.log ++ (pushed t.sender (t.sender.step op)).map first
      | .tick _ => t.log ++ (pushed t.sender (t.sender.step op)).map again
      | _ => t.log }

/-- Nothing is written after the end of the input. -/
def Writable (t : Transmission) : Op → Prop
  | .write _ => t.sender.streamIn.inputEnded = false
  | _ => True

instance (t : Transmission) : (op : Op) → Decidable (t.Writable op)
  | .write _ => inferInstanceAs (Decidable (_ = false))
  | .endInput | .fillWindow | .ackReceived _ _ | .tick _ | .sendEmptySegment | .takeSegment =>
    inferInstanceAs (Decidable True)

/-- Every repetition in the history is of a segment first transmitted before it. -/
def RepeatsEarlier (log : List Emission) : Prop :=
  ∀ before seg after, log = before ++ .again seg :: after → .first seg ∈ before

theorem repeatsEarlier_append_first {log : List Emission} (h : RepeatsEarlier log)
    (segs : List TcpSegment) : RepeatsEarlier (log ++ segs.map first) := by
  intro before seg after heq
  rcases List.append_eq_append_iff.mp heq with ⟨mid, rfl, hmid⟩ | ⟨mid, hlog, hmid⟩
  · have hmem : Emission.again seg ∈ segs.map first := by
      rw [hmid]
      simp
    simp at hmem
  · cases mid with
    | nil =>
        have hmem : Emission.again seg ∈ segs.map first := by
          rw [List.nil_append] at hmid
          rw [← hmid]
          simp
        simp at hmem
    | cons x mid =>
        rw [List.cons_append] at hmid
        obtain ⟨rfl, -⟩ := List.cons.inj hmid
        exact h before seg mid hlog

theorem repeatsEarlier_append_again {log : List Emission} (h : RepeatsEarlier log)
    {segs : List TcpSegment} (hsegs : ∀ seg ∈ segs, seg ∈ firsts log) :
    RepeatsEarlier (log ++ segs.map again) := by
  intro before seg after heq
  rcases List.append_eq_append_iff.mp heq with ⟨mid, rfl, hmid⟩ | ⟨mid, hlog, hmid⟩
  · have hmem : Emission.again seg ∈ segs.map again := by
      rw [hmid]
      simp
    obtain ⟨seg', hseg', hsame⟩ := List.mem_map.mp hmem
    obtain rfl : seg' = seg := Emission.again.inj hsame
    exact List.mem_append_left mid (first_mem_iff.mpr (hsegs seg' hseg'))
  · cases mid with
    | nil =>
        have hmem : Emission.again seg ∈ segs.map again := by
          rw [List.nil_append] at hmid
          rw [← hmid]
          simp
        obtain ⟨seg', hseg', hsame⟩ := List.mem_map.mp hmem
        obtain rfl : seg' = seg := Emission.again.inj hsame
        rw [List.append_nil] at hlog
        rw [← hlog]
        exact first_mem_iff.mpr (hsegs seg' hseg')
    | cons x mid =>
        rw [List.cons_append] at hmid
        obtain ⟨rfl, -⟩ := List.cons.inj hmid
        exact h before seg mid hlog

/-- The invariant of a history. -/
structure Sound (t : Transmission) : Prop where
  transmits : t.sender.Transmits t.accepted (firsts t.log)
  repeats : RepeatsEarlier t.log

theorem pushed_eq {s s' : TcpSender} {segs : List TcpSegment}
    (h : s'.segmentsOut = s.segmentsOut ++ segs) : pushed s s' = segs := by
  rw [pushed, h, List.drop_left]

theorem sound_step {t : Transmission} {op : Op} (h : t.Sound) (hop : t.Writable op) :
    (t.step op).Sound := by
  obtain ⟨htrans, hrep⟩ := h
  cases op with
  | write data => exact ⟨htrans.write hop data, hrep⟩
  | endInput => exact ⟨htrans.endInput, hrep⟩
  | fillWindow =>
      obtain ⟨segs, hsegs, hout⟩ := htrans.fillWindow
      refine ⟨?_, repeatsEarlier_append_first hrep _⟩
      simp only [step, TcpSender.step, pushed_eq hout, firsts_append, firsts_map_first]
      exact hsegs
  | ackReceived ackno w =>
      obtain ⟨segs, hsegs, hout⟩ := htrans.ackReceived ackno w
      refine ⟨?_, repeatsEarlier_append_first hrep _⟩
      simp only [step, TcpSender.step, pushed_eq hout, firsts_append, firsts_map_first]
      exact hsegs
  | tick ms =>
      obtain ⟨hticked, segs, hout, hmem⟩ := htrans.tick ms
      constructor
      · simp only [step, TcpSender.step, firsts_append, firsts_map_again, List.append_nil]
        exact hticked
      · simp only [step, TcpSender.step, pushed_eq hout]
        exact repeatsEarlier_append_again hrep hmem
  | sendEmptySegment =>
      exact ⟨htrans.frame htrans.windowSize_lt rfl ⟨rfl, rfl, rfl⟩ rfl rfl (List.suffix_refl _),
        hrep⟩
  | takeSegment =>
      exact ⟨htrans.frame htrans.windowSize_lt rfl ⟨rfl, rfl, rfl⟩ rfl rfl (List.suffix_refl _),
        hrep⟩

theorem sound_run (capacity : ℕ) (retxTimeout : UInt16) (fixedIsn : Option WrappingInt32)
    (random : UInt32) {ops : List Op}
    (hops : Along step Writable (new (.new capacity retxTimeout fixedIsn random)) ops) :
    (run step (new (.new capacity retxTimeout fixedIsn random)) ops).Sound := by
  refine run_invariant (I := Sound) (fun t op ht hop ↦ sound_step ht hop) ?_ hops
  refine ⟨transmits_new capacity retxTimeout fixedIsn random, ?_⟩
  intro before seg after heq
  simp [new] at heq

/-- Every segment of the history is the SYN or a cut of the accepted bytes, the
first transmissions tile the numbers sent so far with one SYN and one FIN at
most, and every other segment repeats an earlier one. -/
theorem history_of_transmissions (capacity : ℕ) (retxTimeout : UInt16)
    (fixedIsn : Option WrappingInt32) (random : UInt32) (ops : List Op)
    (hops : Along step Writable (new (.new capacity retxTimeout fixedIsn random)) ops) :
    let t := run step (new (.new capacity retxTimeout fixedIsn random)) ops
    (∀ x ∈ t.log, ∃ q, Cut t.sender.isn t.accepted t.sender.streamIn.inputEnded q x.seg) ∧
      Tiled TcpSegment.lengthInSequenceSpace
        (Cut t.sender.isn t.accepted t.sender.streamIn.inputEnded) 0 (firsts t.log) ∧
      tileEnd TcpSegment.lengthInSequenceSpace 0 (firsts t.log) =
        t.sender.nextSeqnoAbsolute ∧
      (firsts t.log).countP (·.header.syn) ≤ 1 ∧ (firsts t.log).countP (·.header.fin) ≤ 1 ∧
      RepeatsEarlier t.log := by
  intro t
  obtain ⟨htrans, hrep⟩ : t.Sound := sound_run capacity retxTimeout fixedIsn random hops
  have hfirst : ∀ seg ∈ firsts t.log,
      ∃ q, Cut t.sender.isn t.accepted t.sender.streamIn.inputEnded q seg := by
    intro seg hseg
    obtain ⟨q, -, hcut, -⟩ := htrans.tiled.exists_of_mem hseg
    exact ⟨q, hcut⟩
  refine ⟨?_, htrans.tiled, htrans.tileEnd_eq, ?_, ?_, hrep⟩
  · intro x hx
    cases x with
    | first seg => exact hfirst seg (first_mem_iff.mp hx)
    | again seg =>
        obtain ⟨before, after, heq⟩ := List.append_of_mem hx
        have hmem := hrep before seg after heq
        refine hfirst seg (first_mem_iff.mp ?_)
        rw [heq]
        exact List.mem_append_left _ hmem
  · rw [htrans.syn_once]
    split_ifs <;> omega
  · rw [htrans.fin_once]
    split_ifs <;> omega

/-- The SYN, two bytes, the FIN, and the bytes again after a second. -/
theorem history_of_two_bytes :
    let t := run step (new (.new 10 1000 (some ⟨0⟩) 0))
      [.write [97, 98], .fillWindow, .ackReceived ⟨1⟩ 10, .endInput, .fillWindow, .tick 1000]
    t.log.map (fun x ↦ (x.seg.header.syn, x.seg.payload, x.seg.header.fin)) =
        [(true, [], false), (false, [97, 98], false), (false, [], true),
          (false, [97, 98], false)] ∧
      RepeatsEarlier t.log :=
  ⟨by decide, (history_of_transmissions 10 1000 (some ⟨0⟩) 0 _ (by decide)).2.2.2.2.2⟩

end Transmission

end Sponge
