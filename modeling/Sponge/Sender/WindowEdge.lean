import Sponge.Sender.Emission
import Sponge.Sender.Outstanding

/-!
# The right edge of the advertised window

The receiver of a stream advertises windows, and their right edges bound what
the sender may send. The sender keeps one window size, which every
acknowledgment overwrites, so an acknowledgment that arrives late is read
against the newest acknowledged number. The bound holds as long as no such
window reaches past the edges already advertised.
-/

namespace Sponge

open Lib

/-- A sender and the largest right edge advertised to it. -/
structure Windowed where
  sender : TcpSender
  edge : ℕ

namespace Windowed

open TcpSender

variable {t : Windowed} {s : TcpSender} {seg : TcpSegment} {edge : ℕ}

def new (sender : TcpSender) : Windowed := ⟨sender, 1⟩

/-- An acknowledgment of something sent advertises the edge of its window. -/
def step (t : Windowed) (op : Op) : Windowed :=
  { sender := t.sender.step op
    edge := match op with
      | .ackReceived ackno windowSize =>
        if t.sender.absoluteAckno ackno ≤ t.sender.nextSeqno then
          max t.edge (t.sender.absoluteAckno ackno + max 1 windowSize.toNat)
        else t.edge
      | _ => t.edge }

/-- An acknowledgment is at least as new as the last one and of something sent, or its
window, counted from the last acknowledged number, stays within the edge. -/
def StaysWithin (t : Windowed) : Op → Prop
  | .ackReceived ackno windowSize =>
    (t.sender.ackAbs ≤ t.sender.absoluteAckno ackno ∧
      t.sender.absoluteAckno ackno ≤ t.sender.nextSeqno) ∨
    (1 ≤ t.sender.nextSeqno ∧ t.sender.ackAbs + max 1 windowSize.toNat ≤ t.edge)
  | _ => True

instance (t : Windowed) : (op : Op) → Decidable (t.StaysWithin op)
  | .ackReceived _ _ => inferInstanceAs (Decidable (_ ∧ _ ∨ _ ∧ _))
  | .write _ | .endInput | .fillWindow | .tick _ | .sendEmptySegment | .takeSegment =>
    inferInstanceAs (Decidable True)

/-- What was sent and what the window still allows to send lie within the edge. -/
structure Within (s : TcpSender) (edge : ℕ) : Prop where
  windowSize_lt : s.windowSize < 2 ^ 16
  counts : s.Counts
  nextSeqno_le : s.nextSeqno ≤ edge
  edge_pos : 1 ≤ edge
  ackAbs_le : s.ackAbs ≤ s.nextSeqno
  bytesFlying : s.bytesFlying = s.nextSeqno - s.ackAbs
  window_le : s.ackAbs + max 1 s.windowSize ≤ edge

namespace Within

theorem mono (h : Within s edge) {edge' : ℕ} (hle : edge ≤ edge') : Within s edge' :=
  { h with
    nextSeqno_le := h.nextSeqno_le.trans hle
    edge_pos := h.edge_pos.trans hle
    window_le := h.window_le.trans hle }

theorem frame (h : Within s edge) {out : List TcpSegment} {stream : ByteStream}
    {times : List ℕ} {time consec rto : ℕ}
    (hread : stream.bytesReaded = s.stream.bytesReaded) :
    Within { s with
      segmentsOut := out
      stream := stream
      timestampsOutstanding := times
      time := time
      consecRetrans := consec
      currRto := rto } edge :=
  { h with
    counts := by
      constructor <;> simp only [hread]
      · exact h.counts.of_zero
      · exact h.counts.of_ne_zero }

theorem emit (h : Within s edge) (hseg : s.MayEmit seg) : Within (s.emit seg) edge := by
  have hwin := h.windowSize_lt
  have hack := h.ackAbs_le
  have hroom := h.window_le
  have hflying := h.bytesFlying
  -- The window bounds what is in flight, and the edge bounds the window.
  have hsum : s.nextSeqno + seg.lengthInSequenceSpace ≤ edge ∧
      (s.emit seg).bytesFlying = s.bytesFlying + seg.lengthInSequenceSpace := by
    by_cases hzero : s.nextSeqno = 0
    · have hone := hseg.length_of_syn hzero
      have hedge := h.edge_pos
      refine ⟨by omega, ?_⟩
      exact add64_of_lt (by omega)
    · have hfits := hseg.fits hzero
      exact ⟨by omega, hseg.bytesFlying_emit (by omega) hzero⟩
  constructor
  case windowSize_lt => exact hwin
  case counts => exact h.counts.emit hseg
  case nextSeqno_le => exact hsum.1
  case edge_pos => exact h.edge_pos
  case ackAbs_le => exact hack.trans (Nat.le_add_right _ _)
  case bytesFlying =>
    rw [hsum.2, emit_nextSeqno, emit_ackAbs]
    omega
  case window_le => exact hroom

theorem fillWindow (h : Within s edge) : Within s.fillWindow edge := by
  have hwin := h.windowSize_lt
  refine fillWindow_invariant (I := fun s ↦ Within s edge) (by omega) ?_ h
  intro s seg hs hseg
  exact hs.emit hseg

theorem withWindow (h : Within s edge) {w : UInt16} (hw : s.ackAbs + max 1 w.toNat ≤ edge) :
    Within { s with windowSize := w.toNat } edge :=
  { h with
    windowSize_lt := w.toNat_lt
    counts := ⟨h.counts.of_zero, h.counts.of_ne_zero⟩
    window_le := hw }

theorem acceptAck (h : Within s edge) {ack : ℕ} (hnew : s.ackAbs < ack)
    (hsent : ack ≤ s.nextSeqno) (hw : ack + max 1 s.windowSize ≤ edge) :
    Within (s.acceptAck ack) edge := by
  have hflying := h.bytesFlying
  constructor
  case windowSize_lt => exact h.windowSize_lt
  case counts => exact ⟨h.counts.of_zero, h.counts.of_ne_zero⟩
  case nextSeqno_le => exact h.nextSeqno_le
  case edge_pos => exact h.edge_pos
  case ackAbs_le => exact hsent
  case bytesFlying =>
    simp only [TcpSender.acceptAck]
    rw [sub64_of_le (by omega)]
    omega
  case window_le => exact hw

end Within

theorem within_ackReceived (h : Within t.sender t.edge) {ackno : WrappingInt32} {w : UInt16}
    (hop : t.StaysWithin (.ackReceived ackno w)) :
    Within (t.step (.ackReceived ackno w)).sender (t.step (.ackReceived ackno w)).edge := by
  set a := t.sender.absoluteAckno ackno with ha
  have hedge : t.edge ≤ (t.step (.ackReceived ackno w)).edge := by
    simp only [step]
    split_ifs
    · exact le_max_left _ _
    · exact le_refl _
  have hadvertised : a ≤ t.sender.nextSeqno →
      a + max 1 w.toNat ≤ (t.step (.ackReceived ackno w)).edge := by
    intro hle
    simp only [step, ← ha, if_pos hle]
    exact le_max_right _ _
  generalize (t.step (.ackReceived ackno w)).edge = edge' at hedge hadvertised
  have hwindow : t.sender.ackAbs + max 1 w.toNat ≤ edge' := by
    rcases hop with ⟨hnew, hsent⟩ | ⟨-, hwithin⟩
    · have := hadvertised hsent
      omega
    · exact hwithin.trans hedge
  have hwin := (h.mono hedge).withWindow hwindow
  simp only [step, TcpSender.step, ackReceived, ← ha]
  split_ifs with huse hfill
  · exact hwin
  all_goals
    have hsyn : t.sender.nextSeqno ≠ 0 := by
      -- Before the SYN nothing new can be acknowledged.
      rcases hop with ⟨-, hsent⟩ | ⟨hpos, -⟩
      · simp only [Useless, not_or] at huse
        have := h.ackAbs_le
        omega
      · omega
    obtain ⟨hnew, hsent⟩ := hwin.counts.lt_and_le_of_not_useless hsyn huse
    have hacked := hwin.acceptAck hnew hsent (hadvertised hsent)
  · exact hacked.fillWindow
  · exact hacked

theorem within_step (h : Within t.sender t.edge) (op : Op) (hop : t.StaysWithin op) :
    Within (t.step op).sender (t.step op).edge := by
  cases op with
  | write data => exact h.frame rfl
  | endInput => exact h.frame rfl
  | fillWindow => exact h.fillWindow
  | ackReceived ackno w => exact within_ackReceived h hop
  | tick ms =>
      obtain ⟨out, times, time, consec, rto, heq, -, -⟩ := exists_tick t.sender ms
      simp only [step, TcpSender.step, heq]
      exact h.frame rfl
  | sendEmptySegment => exact h.frame rfl
  | takeSegment => exact h.frame rfl

/-- In every run in which the acknowledgments stay within the advertised windows,
the sender does too. -/
theorem nextSeqno_le_edge (capacity : ℕ) (retxTimeout : UInt16)
    (fixedIsn : Option WrappingInt32) (random : UInt32) (ops : List Op)
    (hops : Along step StaysWithin (new (.new capacity retxTimeout fixedIsn random)) ops) :
    (run step (new (.new capacity retxTimeout fixedIsn random)) ops).sender.nextSeqnoAbsolute ≤
      (run step (new (.new capacity retxTimeout fixedIsn random)) ops).edge := by
  have hinv : Within (run step (new (.new capacity retxTimeout fixedIsn random)) ops).sender
      (run step (new (.new capacity retxTimeout fixedIsn random)) ops).edge := by
    refine run_invariant (I := fun t ↦ Within t.sender t.edge) ?_ ?_ hops
    · intro t op ht hop
      exact within_step ht op hop
    · constructor
      case counts => constructor <;> simp [new, TcpSender.new, ByteStream.new]
      all_goals simp [new, TcpSender.new]
  exact hinv.nextSeqno_le

/-- A receiver of three bytes: its first acknowledgment arrives twice before its
second one, and the sender keeps to the edge. -/
theorem nextSeqno_le_edge_of_abcd :
    let t := run step (new (.new 10 1000 (some ⟨0⟩) 0))
      [.fillWindow, .ackReceived ⟨1⟩ 3, .write [97, 98, 99, 100], .fillWindow,
        .ackReceived ⟨1⟩ 3, .ackReceived ⟨4⟩ 0]
    t.edge = 5 ∧ t.sender.nextSeqnoAbsolute ≤ t.edge :=
  ⟨by decide, nextSeqno_le_edge 10 1000 (some ⟨0⟩) 0 _ (by decide)⟩

/-- The same receiver, whose first acknowledgment arrives again after its second one:
it opens a window of three bytes past the edge, and the sender fills it. -/
theorem stale_window_passes_edge :
    let t := run step (new (.new 10 1000 (some ⟨0⟩) 0))
      [.fillWindow, .ackReceived ⟨1⟩ 3, .write [97, 98, 99], .fillWindow, .ackReceived ⟨4⟩ 0,
        .ackReceived ⟨1⟩ 3, .write [100, 101, 102], .fillWindow]
    t.edge = 5 ∧ t.sender.nextSeqnoAbsolute = 7 := by
  decide

end Windowed

end Sponge
