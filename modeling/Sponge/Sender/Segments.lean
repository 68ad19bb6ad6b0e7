import Sponge.Sender.Outstanding

/-!
# The segments of a sender

A sender fills in the number, the SYN and the FIN of its segments and leaves the
rest of the header alone. What holds of every such segment holds of all that it
queues and keeps.
-/

namespace Sponge.TcpSender

variable {s : TcpSender} {P : TcpSegment → Prop}

/-- All segments queued or outstanding have the property. -/
structure HasOnly (s : TcpSender) (P : TcpSegment → Prop) : Prop where
  windowSize_lt : s.windowSize < 2 ^ 16
  queue : ∀ seg ∈ s.segmentsOut, P seg
  outstanding : ∀ seg ∈ s.segmentsOutstanding, P seg

namespace HasOnly

theorem frame (h : s.HasOnly P) {out : List TcpSegment} {stream : ByteStream}
    (hout : ∀ seg ∈ out, P seg) :
    ({ s with segmentsOut := out, stream := stream } : TcpSender).HasOnly P :=
  ⟨h.windowSize_lt, hout, h.outstanding⟩

theorem tick (h : s.HasOnly P) (ms : ℕ) : (s.tick ms).HasOnly P := by
  obtain ⟨out, times, time, consec, rto, heq, -, hout⟩ := exists_tick s ms
  rw [heq]
  refine ⟨h.windowSize_lt, ?_, h.outstanding⟩
  rcases hout with rfl | rfl
  · exact h.queue
  · refine List.forall_mem_append.mpr ⟨h.queue, fun seg hseg ↦ ?_⟩
    rw [Option.mem_toList] at hseg
    exact h.outstanding seg (List.mem_of_mem_head? hseg)

section built

variable (hbuilt : ∀ seqno syn fin payload, payload.length ≤ TcpConfig.maxPayloadSize →
  P { header := { seqno := seqno, syn := syn, fin := fin }, payload := payload })

include hbuilt

theorem fillWindow (h : s.HasOnly P) : s.fillWindow.HasOnly P := by
  have hwin := h.windowSize_lt
  refine fillWindow_invariant (I := fun s ↦ s.HasOnly P) (by omega) ?_ h
  intro s seg hs hseg
  have hnew : P seg := by
    obtain ⟨header, payload⟩ := seg
    have hheader : header = { seqno := _, syn := _, fin := header.fin } := hseg.header
    rw [hheader]
    exact hbuilt _ _ _ _ hseg.length_payload_le
  refine ⟨hs.windowSize_lt, ?_, ?_⟩
  · rw [emit_segmentsOut]
    exact List.forall_mem_append.mpr ⟨hs.queue, by simpa using hnew⟩
  · rw [emit_segmentsOutstanding]
    exact List.forall_mem_append.mpr ⟨hs.outstanding, by simpa using hnew⟩

theorem ackReceived (h : s.HasOnly P) (ackno : WrappingInt32) (w : UInt16) :
    (s.ackReceived ackno w).HasOnly P := by
  simp only [TcpSender.ackReceived]
  split_ifs
  · exact ⟨w.toNat_lt, h.queue, h.outstanding⟩
  all_goals
    have hacked : (({ s with windowSize := w.toNat } : TcpSender).acceptAck
        (s.absoluteAckno ackno)).HasOnly P :=
      ⟨w.toNat_lt, h.queue,
        fun seg hseg ↦ h.outstanding seg ((popAcked_suffix _ _ _ _).subset hseg)⟩
  · exact hacked.fillWindow hbuilt
  · exact hacked

theorem sendEmptySegment (h : s.HasOnly P) : s.sendEmptySegment.HasOnly P := by
  refine h.frame (List.forall_mem_append.mpr ⟨h.queue, ?_⟩)
  intro seg hseg
  rw [List.mem_singleton.mp hseg]
  exact hbuilt _ _ _ _ (Nat.zero_le _)

end built

end HasOnly

end Sponge.TcpSender
