import Sponge.Sender.Accounts

/-!
# Filling the window

Filling the window sends all that the window lets it send: afterwards the window
has no room, counting a closed window as one number, or nothing is left that
could be sent. A second call therefore does nothing.
-/

namespace Sponge.TcpSender

open Lib

variable {s : TcpSender}

/-- The window has room for a number; a closed one still has room for a probe. -/
def HasRoom (s : TcpSender) : Prop := s.bytesFlying < max 1 s.windowSize

/-- Bytes or the FIN wait to be sent. -/
def HasMore (s : TcpSender) : Prop :=
  0 < s.stream.bufferSize ∨ s.stream.eof = true ∧ s.finSent = false

/-- The test of the loop that fills the window. -/
def Continues (s : TcpSender) : Prop := s.stream.bufferSize > 0 ∧ s.windowSize > s.bytesFlying

instance (s : TcpSender) : Decidable s.HasRoom := inferInstanceAs (Decidable (_ < _))

instance (s : TcpSender) : Decidable s.HasMore := inferInstanceAs (Decidable (_ ∨ _ ∧ _))

instance (s : TcpSender) : Decidable s.Continues := inferInstanceAs (Decidable (_ ∧ _))

theorem bufferSize_eq_zero_of_eof {stream : ByteStream} (h : stream.eof = true) :
    stream.bufferSize = 0 := by
  rw [ByteStream.bufferSize, (stream.eof_iff.mp h).1, List.length_nil]

theorem fillLoop_of_not_continues (h : ¬s.Continues) (fuel : ℕ) : fillLoop fuel s = s := by
  cases fuel with
  | zero => rfl
  | succ fuel => exact if_neg h

theorem fillWindow_eq_self (hnext : s.nextSeqno ≠ 0) (h : ¬(s.HasRoom ∧ s.HasMore)) :
    s.fillWindow = s := by
  have hclosed : s.windowSize > s.bytesFlying ∨ (s.windowSize = 0 ∧ s.bytesFlying = 0) →
      s.HasRoom := by
    rw [HasRoom]
    omega
  rw [fillWindow, if_neg hnext, if_neg, if_neg, fillLoop_of_not_continues]
  · exact fun hloop ↦ h ⟨hclosed (Or.inl hloop.2), Or.inl hloop.1⟩
  · exact fun hprobe ↦ h ⟨hclosed (Or.inr hprobe.2), Or.inl hprobe.1⟩
  · exact fun hfin ↦ h ⟨hclosed hfin.2.2, Or.inr ⟨hfin.1, hfin.2.1⟩⟩

theorem bufferSize_sendData_lt (h : s.Continues) :
    s.sendData.stream.bufferSize < s.stream.bufferSize := by
  obtain ⟨hpos, hle, -, -⟩ := sizeSeg_spec h.1 h.2
  have hlen := length_payload_dataSegment h.1 h.2
  rw [sendData_eq_emit h.1 h.2, emit_stream, ByteStream.bufferSize, ByteStream.popOutput_deq,
    List.length_drop, hlen, ByteStream.bufferSize]
  omega

/-- The loop ends: it is the body as many times as its test holds, and these are not more than
the bytes buffered at its start. -/
theorem exists_turns_fillLoop (fuel : ℕ) (hfuel : s.stream.bufferSize ≤ fuel) :
    ∃ n ≤ s.stream.bufferSize, (∀ k < n, (sendData^[k] s).Continues) ∧
      ¬(sendData^[n] s).Continues ∧ fillLoop fuel s = sendData^[n] s := by
  induction fuel generalizing s with
  | zero =>
      refine ⟨0, Nat.zero_le _, by simp, ?_, rfl⟩
      rintro ⟨hbuf, -⟩
      exact absurd hfuel (not_le.mpr hbuf)
  | succ fuel ih =>
      by_cases h : s.Continues
      · have hlt := bufferSize_sendData_lt h
        obtain ⟨n, hn, hturns, hstop, heq⟩ := @ih s.sendData (by omega)
        refine ⟨n + 1, by omega, ?_, hstop, ?_⟩
        · intro k hk
          cases k with
          | zero => exact h
          | succ k => exact hturns k (by omega)
        · exact (if_pos h).trans heq
      · exact ⟨0, Nat.zero_le _, by simp, h, fillLoop_of_not_continues h _⟩

/-- The turn that empties an ended stream sends the FIN along if it fits. -/
theorem windowSize_le_of_eof_sendData (h : s.Continues) (heof : s.sendData.stream.eof = true)
    (hfin : s.sendData.finSent = false) : s.sendData.windowSize ≤ s.sendData.bytesFlying := by
  have hlen := length_payload_dataSegment h.1 h.2
  rw [sendData_eq_emit h.1 h.2] at heof hfin ⊢
  rw [emit_finSent, Bool.or_eq_false_iff] at hfin
  rw [emit_stream, hlen] at heof
  obtain ⟨hsent, hflag⟩ := hfin
  have hnofit : ¬s.windowSize > add64 s.bytesFlying s.sizeSeg := by
    simpa [dataSegment, heof, hsent] using hflag
  change s.windowSize ≤ add64 s.bytesFlying s.dataSegment.lengthInSequenceSpace
  rw [TcpSegment.lengthInSequenceSpace_of_not_syn rfl, hlen, hflag]
  exact not_lt.mp hnofit

theorem windowSize_le_of_eof_fillLoop (fuel : ℕ) (heof : (fillLoop fuel s).stream.eof = true)
    (hfin : (fillLoop fuel s).finSent = false) :
    fillLoop fuel s = s ∨ (fillLoop fuel s).windowSize ≤ (fillLoop fuel s).bytesFlying := by
  induction fuel generalizing s with
  | zero => exact Or.inl rfl
  | succ fuel ih =>
      by_cases h : s.Continues
      · have hloop : fillLoop (fuel + 1) s = fillLoop fuel s.sendData := if_pos h
        rw [hloop] at heof hfin ⊢
        right
        rcases ih heof hfin with heq | hle
        · rw [heq] at heof hfin ⊢
          exact windowSize_le_of_eof_sendData h heof hfin
        · exact hle
      · exact Or.inl (fillLoop_of_not_continues h _)

theorem windowSize_fillLoop (fuel : ℕ) (s : TcpSender) :
    (fillLoop fuel s).windowSize = s.windowSize := by
  induction fuel generalizing s with
  | zero => rfl
  | succ fuel ih =>
      rw [fillLoop]
      split_ifs with h
      · rw [ih, sendData_eq_emit h.1 h.2, emit_windowSize]
      · rfl

theorem not_hasRoom_and_hasMore_fillLoop
    (hfin : ¬(s.stream.eof = true ∧ s.finSent = false ∧
      (s.windowSize > s.bytesFlying ∨ (s.windowSize = 0 ∧ s.bytesFlying = 0))))
    (hprobe : ¬(s.stream.bufferSize > 0 ∧ s.windowSize = 0 ∧ s.bytesFlying = 0)) :
    ¬((fillLoop s.stream.bufferSize s).HasRoom ∧ (fillLoop s.stream.bufferSize s).HasMore) := by
  obtain ⟨n, -, hturns, hstop, heq⟩ := exists_turns_fillLoop s.stream.bufferSize (le_refl _)
  have hwindow := windowSize_fillLoop s.stream.bufferSize s
  rintro ⟨hroom, hmore⟩
  -- A closed window stops the loop at once.
  have hclosed : s.windowSize = 0 → fillLoop s.stream.bufferSize s = s := by
    intro hzero
    apply fillLoop_of_not_continues
    rintro ⟨-, hgt⟩
    omega
  rw [HasRoom, hwindow] at hroom
  rcases hmore with hbuf | ⟨heof, hsent⟩
  · -- Bytes are left: an open window would have kept the loop going, a closed one sends the probe.
    by_cases hzero : s.windowSize = 0
    · rw [hclosed hzero] at hroom hbuf
      exact hprobe ⟨hbuf, hzero, by omega⟩
    · rw [← heq] at hstop
      exact hstop ⟨hbuf, by rw [hwindow]; omega⟩
  · -- The FIN is left: it did not fit with the last bytes, unless the loop made no turn.
    rcases windowSize_le_of_eof_fillLoop _ heof hsent with hself | hle
    · rw [hself] at heof hsent hroom
      exact hfin ⟨heof, hsent, by omega⟩
    · by_cases hzero : s.windowSize = 0
      · rw [hclosed hzero] at heof hsent hroom
        exact hfin ⟨heof, hsent, by omega⟩
      · rw [hwindow] at hle
        omega

/-- Filling the window leaves it full or leaves nothing to send. -/
theorem not_hasRoom_and_hasMore_fillWindow (hnext : s.nextSeqno ≠ 0) :
    ¬(s.fillWindow.HasRoom ∧ s.fillWindow.HasMore) := by
  rw [fillWindow, if_neg hnext]
  split_ifs with hfin hprobe
  · rintro ⟨-, hbuf | ⟨-, hsent⟩⟩
    · have hnone := bufferSize_eq_zero_of_eof hfin.1
      have hsame : s.sendFin.stream = s.stream := rfl
      rw [hsame] at hbuf
      omega
    · exact absurd hsent (by simp [sendFin, pushSegment])
  · rintro ⟨hroom, -⟩
    have hflying : s.sendProbe.bytesFlying = add64 s.bytesFlying 1 := rfl
    have hwindow : s.sendProbe.windowSize = s.windowSize := rfl
    rw [HasRoom, hflying, hwindow, hprobe.2.1, hprobe.2.2] at hroom
    exact absurd hroom (by decide)
  · exact not_hasRoom_and_hasMore_fillLoop hfin hprobe

theorem segmentsOut_run_emit (s : TcpSender) (segs : List TcpSegment) :
    (run emit s segs).segmentsOut = s.segmentsOut ++ segs := by
  induction segs generalizing s with
  | nil => exact (List.append_nil _).symm
  | cons seg segs ih =>
      rw [run_cons, ih, emit_segmentsOut, List.append_assoc, List.singleton_append]

/-- After the SYN, filling the window sends something exactly if there is room and something
waits. -/
theorem segmentsOut_fillWindow_eq_iff (hnext : s.nextSeqno ≠ 0) (hwin : s.windowSize < 2 ^ 64) :
    s.fillWindow.segmentsOut = s.segmentsOut ↔ ¬(s.HasRoom ∧ s.HasMore) := by
  constructor
  · intro hsame
    obtain ⟨segs, -, heq⟩ := exists_emissions hwin
    rw [heq, segmentsOut_run_emit, List.append_right_eq_self] at hsame
    rw [hsame, run_nil] at heq
    rw [← heq]
    exact not_hasRoom_and_hasMore_fillWindow hnext
  · intro hfull
    rw [fillWindow_eq_self hnext hfull]

theorem bytesFlying_run_emit_le {segs : List TcpSegment} (hnext : s.nextSeqno ≠ 0)
    (hwin : s.windowSize < 2 ^ 64) (hsegs : Along emit MayEmit s segs) (hne : segs ≠ []) :
    (run emit s segs).bytesFlying ≤ max 1 (run emit s segs).windowSize := by
  -- Only the last emission counts: each one is made where it still fits.
  induction segs generalizing s with
  | nil => exact absurd rfl hne
  | cons seg segs ih =>
      obtain ⟨hseg, hrest⟩ := hsegs
      cases segs with
      | nil =>
          rw [run_cons, run_nil, hseg.bytesFlying_emit hwin hnext]
          exact hseg.fits hnext
      | cons seg' segs =>
          have hnext' : (s.emit seg).nextSeqno ≠ 0 := by
            rw [emit_nextSeqno]
            omega
          exact ih hnext' hwin hrest (by simp)

theorem bytesFlying_fillWindow_le (hnext : s.nextSeqno ≠ 0) (hwin : s.windowSize < 2 ^ 64)
    (hsends : s.fillWindow.segmentsOut ≠ s.segmentsOut) :
    s.fillWindow.bytesFlying ≤ max 1 s.fillWindow.windowSize := by
  obtain ⟨segs, hsegs, heq⟩ := exists_emissions hwin
  rw [heq] at hsends ⊢
  apply bytesFlying_run_emit_le hnext hwin hsegs
  rintro rfl
  exact hsends rfl

/-- In every reachable state after the SYN the loop of `fill_window` ends; what was sent fits in
the window, which is then full or has nothing left to take, and a second call does nothing. -/
theorem fillWindow_maximal (capacity : ℕ) (retxTimeout : UInt16)
    (fixedIsn : Option WrappingInt32) (random : UInt32) (ops : List Op)
    (hsyn : (run step (new capacity retxTimeout fixedIsn random) ops).nextSeqnoAbsolute ≠ 0) :
    let s := run step (new capacity retxTimeout fixedIsn random) ops
    (∃ n ≤ s.streamIn.bufferSize, (∀ k < n, (sendData^[k] s).Continues) ∧
      ¬(sendData^[n] s).Continues ∧ fillLoop s.streamIn.bufferSize s = sendData^[n] s) ∧
    (s.fillWindow.segmentsOut ≠ s.segmentsOut →
      s.fillWindow.bytesInFlight ≤ max 1 s.fillWindow.windowSize) ∧
    ¬(max 1 s.fillWindow.windowSize > s.fillWindow.bytesInFlight ∧
      0 < s.fillWindow.streamIn.bufferSize) ∧
    ¬(max 1 s.fillWindow.windowSize > s.fillWindow.bytesInFlight ∧
      s.fillWindow.streamIn.eof = true ∧ s.fillWindow.finSent = false) ∧
    s.fillWindow.fillWindow = s.fillWindow := by
  intro s
  have hwin : s.windowSize < 2 ^ 16 :=
    (accounted_run capacity retxTimeout fixedIsn random ops).windowSize_lt
  have hfull := not_hasRoom_and_hasMore_fillWindow hsyn
  refine ⟨exists_turns_fillLoop _ (le_refl _), ?_, ?_, ?_, ?_⟩
  · exact bytesFlying_fillWindow_le hsyn (by omega)
  · rintro ⟨hroom, hbuf⟩
    exact hfull ⟨hroom, Or.inl hbuf⟩
  · rintro ⟨hroom, heof⟩
    exact hfull ⟨hroom, Or.inr heof⟩
  · exact fillWindow_eq_self (nextSeqno_fillWindow_ne_zero (by omega)) hfull

/-- Three bytes and a window of two: two are sent, and a second call sends nothing. -/
theorem fillWindow_maximal_abc :
    let s := run step (new 10 1000 (some ⟨0⟩) 0)
      [.fillWindow, .ackReceived ⟨1⟩ 2, .write [97, 98, 99]]
    s.fillWindow.bytesInFlight = 2 ∧ s.fillWindow.streamIn.bufferSize = 1 ∧
      s.fillWindow.fillWindow = s.fillWindow :=
  ⟨by decide, by decide,
    (fillWindow_maximal 10 1000 (some ⟨0⟩) 0
      [.fillWindow, .ackReceived ⟨1⟩ 2, .write [97, 98, 99]] (by decide)).2.2.2.2⟩

end Sponge.TcpSender
