import Sponge.Sender.Accounts
import Sponge.Sender.Transmission
import Sponge.TcpState

/-!
# The reported state of a sender

The summary of a sender looks only at counts: the numbers used, those in flight
and the bytes written. They suffice to tell what went out and what came back, as
long as no acknowledgment precedes the SYN and nothing is written behind the end
of the input.
-/

namespace Sponge

open Lib

namespace TcpSender

variable {s : TcpSender} {d : List UInt8} {first : List TcpSegment}

/-- The tests of the summary, told apart by what was sent and acknowledged. -/
theorem Transmits.senderSummary_eq (h : s.Transmits d first) (hacc : s.Accounted)
    (herror : s.stream.error = false) :
    TcpState.senderSummary s =
      if s.nextSeqno = 0 then .closed
      else if s.ackAbs = 0 then .synSent
      else if s.finSent = false then .synAcked
      else if s.ackAbs < s.nextSeqno then .finSent
      else .finAcked := by
  simp only [TcpState.senderSummary, herror, Bool.false_eq_true, if_false, nextSeqnoAbsolute,
    bytesInFlight, streamIn, ByteStream.bytesWritten]
  by_cases hzero : s.nextSeqno = 0
  · simp only [hzero, if_true]
  obtain ⟨hle, hflying⟩ := hacc.sent hzero
  have hnext := h.counts.of_ne_zero hzero
  have hwrote := s.stream.bytesWrote_eq
  have hsyn : s.nextSeqno = s.bytesFlying ↔ s.ackAbs = 0 := by omega
  by_cases hack : s.ackAbs = 0
  · simp only [hzero, hsyn, hack, if_true, if_false]
  simp only [hzero, hsyn, hack, if_false]
  cases hfin : s.finSent with
  | false =>
      simp only [hfin, Bool.false_eq_true, if_false] at hnext
      by_cases heof : s.stream.eof = true
      · -- All bytes are read, and the number of the FIN is still free.
        rw [(s.stream.eof_iff.mp heof).1, List.length_nil] at hwrote
        have hopen : s.nextSeqno < s.stream.bytesWrote + 2 := by omega
        simp only [heof, Bool.not_true, Bool.false_eq_true, if_false, if_true, hopen]
      · simp only [heof, Bool.not_false, if_true]
  | true =>
      obtain ⟨hended, hdeq⟩ := h.finSent hfin
      have heof : s.stream.eof = true := s.stream.eof_iff.mpr ⟨hdeq, hended⟩
      simp only [hfin, if_true] at hnext
      rw [hdeq, List.length_nil] at hwrote
      have hused : ¬s.nextSeqno < s.stream.bytesWrote + 2 := by omega
      have hflight : s.bytesFlying ≠ 0 ↔ s.ackAbs < s.nextSeqno := by omega
      simp only [heof, Bool.not_true, Bool.false_eq_true, if_false, hused, hflight,
        Bool.true_eq_false]

end TcpSender

namespace Transmission

open TcpSender Emission

variable {t : Transmission}

/-- A segment with the SYN was pushed. -/
def SynSent (t : Transmission) : Prop := ∃ x ∈ t.log, x.seg.header.syn = true

/-- A segment with the FIN was pushed. -/
def FinSent (t : Transmission) : Prop := ∃ x ∈ t.log, x.seg.header.fin = true

instance (t : Transmission) : Decidable t.SynSent :=
  inferInstanceAs (Decidable (∃ x ∈ t.log, _))

instance (t : Transmission) : Decidable t.FinSent :=
  inferInstanceAs (Decidable (∃ x ∈ t.log, _))

/-- An acknowledgment comes only after the SYN, and nothing is written after the end of the
input. -/
def InOrder (t : Transmission) : Op → Prop
  | .ackReceived _ _ => t.SynSent
  | op => t.Writable op

instance (t : Transmission) : (op : Op) → Decidable (t.InOrder op)
  | .ackReceived _ _ => inferInstanceAs (Decidable t.SynSent)
  | .write data => inferInstanceAs (Decidable (t.Writable (.write data)))
  | .endInput | .fillWindow | .tick _ | .sendEmptySegment | .takeSegment =>
    inferInstanceAs (Decidable True)

theorem InOrder.writable {op : Op} (h : t.InOrder op) : t.Writable op := by
  cases op with
  | ackReceived ackno w => trivial
  | write data => exact h
  | endInput | fillWindow | tick | sendEmptySegment | takeSegment => trivial

/-- A kind of segment was pushed if one of that kind was pushed for the first time. -/
theorem Sound.exists_mem_log_iff (h : t.Sound) (p : TcpSegment → Bool) :
    (∃ x ∈ t.log, p x.seg = true) ↔ 0 < (firsts t.log).countP p := by
  rw [List.countP_pos_iff]
  constructor
  · rintro ⟨x, hx, hp⟩
    cases x with
    | first seg => exact ⟨seg, first_mem_iff.mp hx, hp⟩
    | again seg =>
        -- What is sent again was sent before, and then for the first time.
        obtain ⟨before, after, heq⟩ := List.append_of_mem hx
        have hmem : .first seg ∈ t.log := by
          rw [heq]
          exact List.mem_append_left _ (h.repeats before seg after heq)
        exact ⟨seg, first_mem_iff.mp hmem, hp⟩
  · rintro ⟨seg, hseg, hp⟩
    exact ⟨.first seg, first_mem_iff.mpr hseg, hp⟩

theorem Sound.synSent_iff (h : t.Sound) : t.SynSent ↔ t.sender.nextSeqno ≠ 0 := by
  rw [SynSent, h.exists_mem_log_iff (·.header.syn), h.transmits.syn_once]
  split_ifs with hzero <;> simp [hzero]

theorem Sound.finSent_iff (h : t.Sound) : t.FinSent ↔ t.sender.finSent = true := by
  rw [FinSent, h.exists_mem_log_iff (·.header.fin), h.transmits.fin_once]
  split_ifs with hfin <;> simp [hfin]

/-- The invariant of a run in order: nothing is acknowledged before the SYN. -/
structure Reports (t : Transmission) : Prop where
  sound : t.Sound
  accounted : t.sender.Accounted
  unsent : t.sender.nextSeqno = 0 → t.sender.ackAbs = 0

theorem reports_new (capacity : ℕ) (retxTimeout : UInt16) (fixedIsn : Option WrappingInt32)
    (random : UInt32) : (new (.new capacity retxTimeout fixedIsn random)).Reports :=
  ⟨@sound_run capacity retxTimeout fixedIsn random [] trivial,
    accounted_new capacity retxTimeout fixedIsn random, fun _ ↦ rfl⟩

theorem Reports.step {op : Op} (h : t.Reports) (hop : t.InOrder op) : (t.step op).Reports := by
  refine ⟨sound_step h.sound hop.writable, h.accounted.step op, ?_⟩
  cases op with
  | write data => exact h.unsent
  | endInput => exact h.unsent
  | fillWindow =>
      intro hzero
      have hwin := h.accounted.windowSize_lt
      exact absurd hzero (nextSeqno_fillWindow_ne_zero (by omega))
  | ackReceived ackno w =>
      intro hzero
      have hnext := h.sound.synSent_iff.mp hop
      exact absurd hzero (nextSeqno_ackReceived_ne_zero hnext ackno w)
  | tick ms =>
      obtain ⟨out, times, time, consec, rto, heq, -, -⟩ := exists_tick t.sender ms
      simp only [Transmission.step, TcpSender.step, heq]
      exact h.unsent
  | sendEmptySegment => exact h.unsent
  | takeSegment => exact h.unsent

/-- In every reachable state without error, the summary of a sender tells what it sent and what
was acknowledged. -/
theorem summary_agrees (capacity : ℕ) (retxTimeout : UInt16) (fixedIsn : Option WrappingInt32)
    (random : UInt32) (ops : List Op)
    (hops : Along step InOrder (new (.new capacity retxTimeout fixedIsn random)) ops)
    (herror : (run step (new (.new capacity retxTimeout fixedIsn random))
      ops).sender.streamIn.error = false) :
    let t := run step (new (.new capacity retxTimeout fixedIsn random)) ops
    (TcpState.senderSummary t.sender = .closed ↔ ¬t.SynSent) ∧
    (TcpState.senderSummary t.sender = .synSent ↔ t.SynSent ∧ t.sender.ackAbs = 0) ∧
    (TcpState.senderSummary t.sender = .synAcked ↔ 0 < t.sender.ackAbs ∧ ¬t.FinSent) ∧
    (TcpState.senderSummary t.sender = .finSent ↔
      0 < t.sender.ackAbs ∧ t.FinSent ∧ t.sender.ackAbs < t.sender.nextSeqnoAbsolute) ∧
    (TcpState.senderSummary t.sender = .finAcked ↔
      t.FinSent ∧ t.sender.ackAbs = t.sender.nextSeqnoAbsolute) := by
  intro t
  have h : t.Reports := by
    refine run_invariant (I := Reports) (fun t op ht hop ↦ ht.step hop) ?_ hops
    exact reports_new capacity retxTimeout fixedIsn random
  obtain ⟨hsound, hacc, hunsent⟩ := h
  have hfin := hsound.transmits.counts.of_zero
  have hsent := hacc.sent
  rw [hsound.synSent_iff, hsound.finSent_iff,
    hsound.transmits.senderSummary_eq hacc herror, nextSeqnoAbsolute]
  by_cases hzero : t.sender.nextSeqno = 0
  · simp [hzero, hunsent hzero, (hfin hzero).2]
  by_cases hack : t.sender.ackAbs = 0
  · simp [hzero, hack, Ne.symm hzero]
  cases t.sender.finSent with
  | false => simp [hzero, hack, Nat.pos_of_ne_zero hack]
  | true =>
      have hle := (hsent hzero).1
      by_cases hlt : t.sender.ackAbs < t.sender.nextSeqno
      · simp [hzero, hack, hlt, Nat.pos_of_ne_zero hack, hlt.ne]
      · have heq : t.sender.ackAbs = t.sender.nextSeqno := by omega
        simp [hzero, heq]

/-- A sender whose FIN is in flight, and is then acknowledged. -/
theorem summary_agrees_on_close :
    let ops : List Op := [.fillWindow, .ackReceived ⟨1⟩ 10, .endInput, .fillWindow]
    let t := run step (new (.new 10 1000 (some ⟨0⟩) 0)) ops
    let t' := run step (new (.new 10 1000 (some ⟨0⟩) 0)) (ops ++ [.ackReceived ⟨2⟩ 10])
    TcpState.senderSummary t.sender = .finSent ∧ t'.FinSent ∧
      t'.sender.ackAbs = t'.sender.nextSeqnoAbsolute :=
  ⟨by decide,
    (summary_agrees 10 1000 (some ⟨0⟩) 0
      [.fillWindow, .ackReceived ⟨1⟩ 10, .endInput, .fillWindow, .ackReceived ⟨2⟩ 10]
      (by decide) (by decide)).2.2.2.2.mp (by decide)⟩

end Transmission

end Sponge
