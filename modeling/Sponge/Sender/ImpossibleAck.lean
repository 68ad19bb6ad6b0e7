import Sponge.Sender.Accounts

/-!
# Acknowledgments of what was never sent

An acknowledgment past everything sent changes no count and no queue, but its
window stays: it is written down before the number is looked at. Before the SYN
even the number is not refused if it is one.
-/

namespace Sponge.TcpSender

open Lib

variable {s : TcpSender} {ackno : WrappingInt32}

theorem Accounted.not_useless_iff_of_unsent (h : s.Accounted) (hnext : s.nextSeqno = 0)
    (ack : ℕ) : ¬s.Useless ack ↔ s.ackAbs = 0 ∧ ack = 1 := by
  refine ⟨h.eq_one_of_not_useless hnext, ?_⟩
  rintro ⟨hack, rfl⟩
  obtain ⟨hread, -⟩ := h.counts.of_zero hnext
  rw [Useless, hack, ByteStream.bytesRead, hread]
  simp

/-- Before the SYN, the acknowledgment that is accepted. -/
def Premature (s : TcpSender) (ackno : WrappingInt32) : Prop :=
  s.nextSeqno = 0 ∧ s.ackAbs = 0 ∧ s.absoluteAckno ackno = 1

instance (s : TcpSender) (ackno : WrappingInt32) : Decidable (s.Premature ackno) :=
  inferInstanceAs (Decidable (_ ∧ _ ∧ _))

theorem Accounted.useless_iff_of_past (h : s.Accounted)
    (hpast : s.nextSeqno < s.absoluteAckno ackno) :
    s.Useless (s.absoluteAckno ackno) ↔ ¬s.Premature ackno := by
  rw [← not_iff_not, not_not, Premature]
  by_cases hnext : s.nextSeqno = 0
  · rw [h.not_useless_iff_of_unsent hnext]
    simp [hnext]
  · rw [h.counts.not_useless_iff hnext]
    simp [hnext, hpast]

/-- The window is all that an impossible acknowledgment changes. -/
theorem Accounted.ackReceived_of_past (h : s.Accounted)
    (hpast : s.nextSeqno < s.absoluteAckno ackno) (hearly : ¬s.Premature ackno) (w : UInt16) :
    s.ackReceived ackno w = { s with windowSize := w.toNat } :=
  if_pos (((h.withWindow w).useless_iff_of_past hpast).mpr hearly)

theorem ackAbs_ackReceived_of_not_useless (huse : ¬s.Useless (s.absoluteAckno ackno))
    (w : UInt16) : (s.ackReceived ackno w).ackAbs = s.absoluteAckno ackno := by
  simp only [TcpSender.ackReceived]
  split_ifs with hold
  · exact absurd hold huse
  · exact (filled_fillWindow (toNat_window_lt w)).ackAbs
  · rfl

theorem Accounted.ackReceived_eq_self_iff (h : s.Accounted)
    (hpast : s.nextSeqno < s.absoluteAckno ackno) (w : UInt16) :
    s.ackReceived ackno w = s ↔ w.toNat = s.windowSize ∧ ¬s.Premature ackno := by
  constructor
  · intro heq
    have hlate : ¬s.Premature ackno := by
      intro hearly
      have huse := mt (h.useless_iff_of_past hpast).mp (not_not.mpr hearly)
      have hone := ackAbs_ackReceived_of_not_useless huse w
      rw [heq, hearly.2.1, hearly.2.2] at hone
      exact absurd hone (by decide)
    rw [h.ackReceived_of_past hpast hlate] at heq
    exact ⟨congrArg windowSize heq, hlate⟩
  · rintro ⟨hwin, hlate⟩
    rw [h.ackReceived_of_past hpast hlate, hwin]

/-- In every reachable state, an acknowledgment of what was never sent changes nothing, and every
run goes on as if it had not come, exactly if it repeats the window and is not the one of the
number one before the SYN. -/
theorem impossible_ack_ignored (capacity : ℕ) (retxTimeout : UInt16)
    (fixedIsn : Option WrappingInt32) (random : UInt32) (ops : List Op) (ackno : WrappingInt32)
    (w : UInt16)
    (hpast : (run step (new capacity retxTimeout fixedIsn random) ops).nextSeqnoAbsolute <
      (run step (new capacity retxTimeout fixedIsn random) ops).absoluteAckno ackno) :
    let s := run step (new capacity retxTimeout fixedIsn random) ops
    (s.ackReceived ackno w = s ∧
      ∀ rest, run step s (.ackReceived ackno w :: rest) = run step s rest) ↔
        w.toNat = s.windowSize ∧ ¬s.Premature ackno := by
  intro s
  have h : s.Accounted := accounted_run capacity retxTimeout fixedIsn random ops
  rw [← h.ackReceived_eq_self_iff hpast w]
  refine ⟨And.left, fun heq ↦ ⟨heq, fun rest ↦ ?_⟩⟩
  rw [run_cons]
  exact congrArg (run step · rest) heq

/-- After the SYN, the number five was never sent. -/
theorem impossible_ack_ignored_five :
    let s := run step (new 10 1000 (some ⟨0⟩) 0) [.fillWindow]
    s.ackReceived ⟨5⟩ 1 = s :=
  ((impossible_ack_ignored 10 1000 (some ⟨0⟩) 0 [.fillWindow] ⟨5⟩ 1 (by decide)).mpr
    (by decide)).1

/-- The same number with a window of ten: three bytes written next are sent while the SYN is in
flight, and without it they are not. Before the SYN, the number one leaves a count of bytes in
flight below zero. -/
theorem impossible_ack_leaves_window :
    let s := run step (new 10 1000 (some ⟨0⟩) 0) [.fillWindow]
    s.nextSeqnoAbsolute < s.absoluteAckno ⟨5⟩ ∧
      (run step s [.write [97, 98, 99], .fillWindow]).nextSeqnoAbsolute = 1 ∧
      (run step s [.ackReceived ⟨5⟩ 10, .write [97, 98, 99], .fillWindow]).nextSeqnoAbsolute = 4 ∧
      ((new 10 1000 (some ⟨0⟩) 0).ackReceived ⟨1⟩ 1).bytesInFlight = 2 ^ 64 - 1 := by
  decide

end Sponge.TcpSender
