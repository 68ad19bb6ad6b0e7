import Sponge.Receiver.Segment
import Sponge.Unwrap

/-!
# Stray segments

A segment with no sequence number in the receive window should leave no trace.
The receiver makes no such check. It hands the payload to a ring that is wider
than the receive window, takes over the initial sequence number of any SYN and
the end of any FIN, and flushes whatever waits in the ring. A stray segment
that does none of this leaves a receiver that differs in nothing that any later
operation reads.
-/

namespace Sponge

open Lib

namespace StreamReassembler

variable {a b r : StreamReassembler} {data : List UInt8} {index : ℕ} {eof : Bool}

/-- A flush writes nothing and frees no cell: the first unassembled byte is missing, or
the output is full and no cell before that of this byte would be marked empty. -/
def Settled (r : StreamReassembler) : Prop :=
  r.empty[r.startAux % r.capacity]? = some true ∨
    (r.room = 0 ∧ (r.itEnd = r.empty.length →
      ∀ k < r.startAux % r.capacity, r.empty[k]? = some true))

theorem itEnd_of_empty (h : r.empty[r.startAux % r.capacity]? = some true) :
    r.itEnd = r.startAux % r.capacity := by
  apply le_antisymm
  · by_contra hgt
    exact getElem?_ne_of_lt_findRange le_rfl (Nat.lt_of_not_le hgt) h
  · exact le_findRange

theorem writeSize_of_room (h : r.room = 0) : r.output.writeSize data = 0 := by
  rw [ByteStream.writeSize, ByteStream.remainingCapacity_eq]
  rw [room] at h
  omega

theorem flushToEnd_of_writeSize
    (h : r.output.writeSize
      (substr r.aux (r.startAux % r.capacity) (r.itEnd - r.startAux % r.capacity)) = 0) :
    r.flushToEnd = r := by
  have hfill := fillRange_of_forall (l := r.empty) (v := true)
    (le_refl (r.startAux % r.capacity)) (fun i hi hi' ↦ by omega)
  simp only [flushToEnd, h, ByteStream.write_of_writeSize_eq_zero _ _ h, Nat.add_zero, hfill]
  rfl

theorem flushFromStart_of_room (h : r.room = 0) {itStart : ℕ}
    (hempty : ∀ k < itStart, r.empty[k]? = some true) : r.flushFromStart itStart = r := by
  have hfill := fillRange_of_forall (Nat.zero_le itStart) (fun k _ hk ↦ hempty k hk)
  simp only [flushFromStart, writeSize_of_room h,
    ByteStream.write_of_writeSize_eq_zero _ _ (writeSize_of_room h), Nat.add_zero, hfill]
  rfl

theorem Settled.writeToBytestream_eq (h : r.Settled) : r.writeToBytestream = r := by
  rw [writeToBytestream]
  rcases h with hmissing | ⟨hroom, hbefore⟩
  · have hend := itEnd_of_empty hmissing
    obtain ⟨hlt, -⟩ := List.getElem?_eq_some_iff.mp hmissing
    rw [if_neg (by omega)]
    apply flushToEnd_of_writeSize
    simp [hend, substr, ByteStream.writeSize]
  · have hfirst : r.flushToEnd = r := flushToEnd_of_writeSize (writeSize_of_room hroom)
    rw [hfirst]
    split_ifs with hend
    · exact flushFromStart_of_room hroom (hbefore hend)
    · rfl

/-- The reassemblers differ at most in a flag that nothing reads, and in the recorded end
of the stream once the output has ended. -/
def Alike (a b : StreamReassembler) : Prop :=
  ∃ (flag : Bool) (stop : ℕ), b = { a with eofSeen := flag, endStream := stop } ∧
    (stop = a.endStream ∨ a.output.ended = true)

theorem Alike.output_eq (h : a.Alike b) : b.output = a.output := by
  obtain ⟨flag, stop, rfl, -⟩ := h
  rfl

theorem Alike.setOutput (h : a.Alike b) {s : ByteStream}
    (hs : a.output.ended = true → s.ended = true) :
    Alike { a with output := s } { b with output := s } := by
  obtain ⟨flag, stop, rfl, hstop⟩ := h
  exact ⟨flag, stop, rfl, hstop.imp_right hs⟩

theorem Alike.readOutput (h : a.Alike b) (len : ℕ) :
    (a.readOutput len).Alike (b.readOutput len) := by
  obtain ⟨flag, stop, rfl, hstop⟩ := h
  exact ⟨flag, stop, rfl, hstop⟩

theorem Alike.writeToAux (h : a.Alike b) (data : List UInt8) (index : ℕ) (eof : Bool) :
    (a.writeToAux data index eof).Alike (b.writeToAux data index eof) := by
  obtain ⟨flag, stop, rfl, hstop⟩ := h
  have hcopy (locData locAux size : ℕ) :
      ({ a with eofSeen := flag, endStream := stop } : StreamReassembler).copyToAux data
          locData locAux size =
        { a.copyToAux data locData locAux size with eofSeen := flag, endStream := stop } := by
    unfold copyToAux
    split <;> rfl
  have hkeep (locData locAux size : ℕ) :
      (a.copyToAux data locData locAux size).endStream = a.endStream ∧
        (a.copyToAux data locData locAux size).output = a.output := by
    unfold copyToAux
    split <;> exact ⟨rfl, rfl⟩
  unfold StreamReassembler.writeToAux
  by_cases hnil : data.length = 0
  · rw [if_pos hnil, if_pos hnil]
    cases eof with
    | false => exact ⟨flag, stop, rfl, hstop⟩
    | true => exact ⟨flag, stop, rfl, Or.inr rfl⟩
  · rw [if_neg hnil, if_neg hnil]
    dsimp only
    split_ifs with hout
    · exact ⟨flag, stop, rfl, hstop⟩
    -- A push that meets the window records the same end in both, or none.
    · rw [hcopy]
      exact ⟨flag, _, rfl, Or.inl rfl⟩
    · rw [hcopy]
      refine ⟨flag, stop, rfl, ?_⟩
      rwa [(hkeep _ _ _).1, (hkeep _ _ _).2]

theorem writeToBytestream_frame (r : StreamReassembler) :
    r.writeToBytestream.endStream = r.endStream ∧
      r.writeToBytestream.output.ended = r.output.ended ∧
      r.writeToBytestream.capacity = r.capacity := by
  unfold writeToBytestream
  split <;> exact ⟨rfl, rfl, rfl⟩

theorem Alike.writeToBytestream (h : a.Alike b) :
    a.writeToBytestream.Alike b.writeToBytestream := by
  obtain ⟨flag, stop, rfl, hstop⟩ := h
  obtain ⟨hend, hended, -⟩ := writeToBytestream_frame a
  refine ⟨flag, stop, ?_, by rwa [hend, hended]⟩
  by_cases hpast : a.itEnd = a.empty.length
  · have ha : a.writeToBytestream = a.flushToEnd.flushFromStart (a.startAux % a.capacity) :=
      if_pos hpast
    rw [ha]
    exact if_pos hpast
  · have ha : a.writeToBytestream = a.flushToEnd := if_neg hpast
    rw [ha]
    exact if_neg hpast

theorem Alike.pushSubstring (h : a.Alike b) (data : List UInt8) (index : ℕ) (eof : Bool) :
    (a.pushSubstring data index eof).Alike (b.pushSubstring data index eof) := by
  obtain ⟨flag₁, h₁⟩ := pushSubstring_eq a data index eof
  obtain ⟨flag₂, h₂⟩ := pushSubstring_eq b data index eof
  rw [h₁, h₂]
  obtain ⟨flag, stop, heq, hstop⟩ := (h.writeToAux data index eof).writeToBytestream
  rw [heq]
  generalize (a.writeToAux data index eof).writeToBytestream = x at hstop ⊢
  refine ⟨flag₂, stop, ?_, ?_⟩
  · rcases hstop with rfl | hended
    · rfl
    · simp [ByteStream.endInput_of_ended _ hended]
  · refine hstop.imp_right fun hended ↦ ?_
    dsimp only
    split_ifs
    · rfl
    · exact hended

/-- No index of the ring's window is one of the substring. -/
def Misses (r : StreamReassembler) (data : List UInt8) (index : ℕ) : Prop :=
  ∀ j < r.capacity, ¬(index ≤ r.startAux + j ∧ r.startAux + j < index + data.length)

/-- A substring that only touches the window is copied to no cell. -/
theorem Misses.storeCells_eq (h : r.Misses data index) (hcap : 0 < r.capacity) :
    r.storeCells data index = r := by
  rw [storeCells]
  split_ifs with hmeets
  · obtain ⟨hne, hle, hge⟩ := hmeets
    have hpos : 0 < data.length := List.length_pos_of_ne_nil hne
    -- The ends of the window are the first and the last index that could be covered.
    have hfirst := h 0 hcap
    have hlast := h (r.capacity - 1) (by omega)
    have hmid := h (index - r.startAux)
    have hsize : r.endCopy data index - r.startCopy index = 0 := by
      simp only [endCopy, startCopy]
      omega
    have hslot := Nat.mod_lt (r.startCopy index) hcap
    have hfill := fillRange_of_forall (l := r.empty) (v := false)
      (le_refl (r.startCopy index % r.capacity)) (fun i hi hi' ↦ by omega)
    rw [hsize, copyToAux, if_pos (by omega), Nat.add_zero, hfill]
    simp [replaceRange, substr, countRange]
  · rfl

theorem Misses.exists_writeToAux (h : r.Misses data index) (hcap : 0 < r.capacity)
    (hfits : r.startAux + r.capacity + data.length < 2 ^ 64)
    (heof : eof = true → r.output.ended = true ∨
      (data ≠ [] ∧ (r.Meets data index → r.endStream = index + data.length))) :
    ∃ stop, r.writeToAux data index eof = { r with endStream := stop } ∧
      (stop = r.endStream ∨ r.output.ended = true) := by
  rw [writeToAux_eq (fun _ ↦ by omega), h.storeCells_eq hcap]
  refine ⟨_, congrArg (fun x ↦ StreamReassembler.mk _ x _ _ _ _ _ _) ?_, ?_⟩
  · split_ifs with hends
    · rcases heof hends.2 with hended | ⟨hne, -⟩
      · exact ByteStream.endInput_of_ended _ hended
      · exact absurd hends.1 hne
    · rfl
  · split_ifs with hends
    · rcases heof hends.2.2 with hended | ⟨-, hsame⟩
      · exact Or.inr hended
      · exact Or.inl (hsame hends.2.1).symm
    · exact Or.inl rfl

/-- A push that misses the window, finds nothing to flush and records no new end. -/
theorem Misses.alike_pushSubstring (h : r.Misses data index) (hcap : 0 < r.capacity)
    (hfits : r.startAux + r.capacity + data.length < 2 ^ 64)
    (heof : eof = true → r.output.ended = true ∨
      (data ≠ [] ∧ (r.Meets data index → r.endStream = index + data.length)))
    (hsettled : r.Settled) (hended : r.startAux = r.endStream → r.output.ended = true) :
    r.Alike (r.pushSubstring data index eof) := by
  obtain ⟨stop, hstored, hstop⟩ := h.exists_writeToAux hcap hfits heof
  have hsettled' : ({ r with endStream := stop } : StreamReassembler).Settled := hsettled
  obtain ⟨flag, hpush⟩ := pushSubstring_eq r data index eof
  rw [hpush, hstored, hsettled'.writeToBytestream_eq]
  refine ⟨flag, stop, ?_, hstop⟩
  dsimp only
  split_ifs with hat
  · have hdone : r.output.ended = true := by
      rcases hstop with rfl | hdone
      · exact hended hat
      · exact hdone
    rw [ByteStream.endInput_of_ended _ hdone]
  · rfl

/-- After a push the output has ended if the first unassembled index is the recorded end. -/
theorem ended_pushSubstring (r : StreamReassembler) (data : List UInt8) (index : ℕ) (eof : Bool)
    (h : (r.pushSubstring data index eof).startAux = (r.pushSubstring data index eof).endStream) :
    (r.pushSubstring data index eof).output.ended = true := by
  obtain ⟨flag, hpush⟩ := pushSubstring_eq r data index eof
  rw [hpush] at h ⊢
  exact congrArg ByteStream.ended (if_pos h)

theorem capacity_pushSubstring (r : StreamReassembler) (data : List UInt8) (index : ℕ)
    (eof : Bool) : (r.pushSubstring data index eof).capacity = r.capacity := by
  obtain ⟨flag, hpush⟩ := pushSubstring_eq r data index eof
  rw [hpush]
  refine (writeToBytestream_frame _).2.2.trans ?_
  unfold writeToAux copyToAux
  dsimp only
  split_ifs <;> rfl

end StreamReassembler

/-- What happens to a receiver: a segment arrives, or its output is read. -/
inductive ReceiverOp where
  | segment (seg : TcpSegment)
  | read (len : ℕ)

namespace TcpReceiver

variable {a b r : TcpReceiver} {seg : TcpSegment} {c : ℕ}

def step (r : TcpReceiver) : ReceiverOp → TcpReceiver
  | .segment seg => r.segmentReceived seg
  | .read len => r.readOutput len

/-- All that a receiver shows. -/
structure View where
  isn : WrappingInt32
  ackno : Option WrappingInt32
  windowSize : ℕ
  unassembledBytes : ℕ
  streamOut : ByteStream
  deriving DecidableEq

def view (r : TcpReceiver) : View where
  isn := r.isn
  ackno := r.ackno
  windowSize := r.windowSize
  unassembledBytes := r.unassembledBytes
  streamOut := r.streamOut

/-- The sequence number lies in the receive window. -/
def InWindow (r : TcpReceiver) (n : WrappingInt32) : Prop :=
  (n.rawValue - r.ack.rawValue).toNat < r.windowSize

instance (r : TcpReceiver) (n : WrappingInt32) : Decidable (r.InWindow n) :=
  inferInstanceAs (Decidable (_ < _))

/-- The segment is a SYN with another number, or has no number in the receive window. -/
def Unacceptable (r : TcpReceiver) (seg : TcpSegment) : Prop :=
  (seg.header.syn = true ∧ seg.header.seqno ≠ r.isn) ∨
    ∀ k < seg.lengthInSequenceSpace, ¬r.InWindow (wrap k seg.header.seqno)

instance (r : TcpReceiver) (seg : TcpSegment) : Decidable (r.Unacceptable seg) :=
  inferInstanceAs (Decidable (_ ∨ _))

/-- What a segment outside the receive window must not do. -/
structure Harmless (r : TcpReceiver) (seg : TcpSegment) : Prop where
  syn : seg.header.syn = true → seg.header.seqno = r.isn
  fin : seg.header.fin = true → r.eof = true ∧
    add64 (r.startPayload seg.header) seg.payload.length = r.lenStream
  /-- The ring takes no byte that lies outside the receive window. -/
  ring : ∀ j < r.reassembler.capacity,
    r.startPayload seg.header ≤ r.reassembler.startAux + j →
    r.reassembler.startAux + j < r.startPayload seg.header + seg.payload.length →
    r.InWindow (wrap (r.reassembler.startAux + j + 1) r.isn)
  /-- After a FIN the segment records no end: an empty one ends the stream at once. -/
  eof : r.eof = true → r.streamOut.inputEnded = true ∨
    (seg.payload ≠ [] ∧
      (r.reassembler.Meets seg.payload (r.startPayload seg.header) →
        r.reassembler.endStream = r.startPayload seg.header + seg.payload.length))
  settled : r.reassembler.Settled
  fits : r.reassembler.startAux + r.reassembler.capacity + seg.payload.length < 2 ^ 64

/-- The byte at offset `k` of the payload has the sequence number that belongs to its index. -/
theorem wrap_startPayload_add (hsyn : seg.header.syn = true → seg.header.seqno = r.isn) (k : ℕ) :
    wrap (r.startPayload seg.header + k + 1) r.isn =
      wrap (k + if seg.header.syn then 1 else 0) seg.header.seqno := by
  rw [wrap_eq_iff, wrap_rawValue, startPayload]
  split_ifs with hs
  · have hmod := unwrap_add_isn_mod seg.header.seqno seg.header.seqno r.ckpt
    rw [← hsyn hs]
    omega
  · have hmod := unwrap_add_isn_mod seg.header.seqno r.isn r.ckpt
    have hone := sub64_add_mod (unwrap seg.header.seqno r.isn r.ckpt) (b := 1) (by norm_num)
    omega

/-- A harmless segment that is unacceptable misses the ring. -/
theorem Harmless.misses (h : r.Harmless seg) (hseg : r.Unacceptable seg) :
    r.reassembler.Misses seg.payload (r.startPayload seg.header) := by
  rintro j hj ⟨hfrom, hto⟩
  have hin := h.ring j hj hfrom hto
  rcases hseg with ⟨hsyn, hne⟩ | hout
  · exact hne (h.syn hsyn)
  · obtain ⟨k, hk⟩ := Nat.exists_eq_add_of_le hfrom
    rw [hk, wrap_startPayload_add h.syn] at hin
    refine hout _ ?_ hin
    rw [TcpSegment.lengthInSequenceSpace]
    omega

/-- The receivers differ at most in what no operation reads. -/
def Alike (a b : TcpReceiver) : Prop :=
  ∃ (flag : Bool) (x : StreamReassembler), b = { a with finSeen := flag, reassembler := x } ∧
    a.reassembler.Alike x

theorem Alike.view_eq (h : a.Alike b) : b.view = a.view := by
  obtain ⟨flag, x, rfl, flag', stop, rfl, -⟩ := h
  rfl

theorem Alike.step (h : a.Alike b) (op : ReceiverOp) : (a.step op).Alike (b.step op) := by
  obtain ⟨flag, x, rfl, hx⟩ := h
  cases op with
  | read len => exact ⟨flag, _, rfl, hx.readOutput len⟩
  | segment seg =>
      by_cases hsyn : a.syn = true ∨ seg.header.syn = true
      · have hpush := hx.pushSubstring seg.payload (a.startPayload seg.header)
          (a.eof || seg.header.fin)
        have hout := hpush.output_eq
        have hstart : startPayload { a with finSeen := flag, reassembler := x } seg.header =
            a.startPayload seg.header := rfl
        have hb := segmentReceived_eq (r := { a with finSeen := flag, reassembler := x }) hsyn
        simp only [TcpReceiver.step]
        rw [segmentReceived_eq hsyn, hb]
        simp only [hstart, hout]
        refine ⟨flag || seg.header.fin, _, rfl, ?_⟩
        exact hpush.setOutput fun hended ↦
          (ByteStream.ended_ite_endInput _).mpr (Or.inr hended)
      · have ha : a.segmentReceived seg = a := segmentReceived_of_unsynced hsyn
        have hb : ({ a with finSeen := flag, reassembler := x } : TcpReceiver).segmentReceived seg =
            { a with finSeen := flag, reassembler := x } :=
          segmentReceived_of_unsynced hsyn
        simp only [TcpReceiver.step]
        rw [ha, hb]
        exact ⟨flag, x, rfl, hx⟩

theorem Alike.view_run_eq (h : a.Alike b) (ops : List ReceiverOp) :
    (run TcpReceiver.step b ops).view = (run TcpReceiver.step a ops).view :=
  (run_related (R := Alike) (fun _ _ op h ↦ h.step op) h ops).view_eq

/-- The acknowledgment number is up to date, and the output has ended wherever the next
segment would end it anyway. -/
structure Steady (r : TcpReceiver) : Prop where
  ckpt : r.ckpt = r.streamOut.bytesWritten
  ack : r.ack = wrap (r.ckpt + if r.ckpt = r.lenStream then 2 else 1) r.isn
  ended_of_full : r.ckpt = r.lenStream → r.streamOut.inputEnded = true
  ended_of_stop : r.reassembler.startAux = r.reassembler.endStream →
    r.streamOut.inputEnded = true

theorem steady_segmentReceived (hsyn : r.syn = true ∨ seg.header.syn = true) :
    (r.segmentReceived seg).Steady := by
  have hended := r.reassembler.ended_pushSubstring seg.payload (r.startPayload seg.header)
    (r.eof || seg.header.fin)
  rw [segmentReceived_eq hsyn]
  dsimp only
  generalize r.reassembler.pushSubstring seg.payload (r.startPayload seg.header)
    (r.eof || seg.header.fin) = x at hended ⊢
  constructor
  case ckpt => exact (ByteStream.bytesWrote_ite_endInput _).symm
  case ack => rfl
  case ended_of_full => exact fun hfull ↦ (ByteStream.ended_ite_endInput _).mpr (Or.inl hfull)
  case ended_of_stop =>
    exact fun hstop ↦ (ByteStream.ended_ite_endInput _).mpr (Or.inr (hended hstop))

/-- The capacity of the ring never changes, and a receiver with a SYN is steady. -/
def Settles (c : ℕ) (r : TcpReceiver) : Prop :=
  r.reassembler.capacity = c ∧ (r.syn = true → r.Steady)

theorem settles_step (h : r.Settles c) (op : ReceiverOp) : (r.step op).Settles c := by
  obtain ⟨hcap, hsteady⟩ := h
  cases op with
  | read len =>
      refine ⟨hcap, fun hsyn ↦ ?_⟩
      obtain ⟨hckpt, hack, hfull, hstop⟩ := hsteady hsyn
      exact ⟨hckpt, hack, hfull, hstop⟩
  | segment seg =>
      by_cases hsyn : r.syn = true ∨ seg.header.syn = true
      · refine ⟨?_, fun _ ↦ steady_segmentReceived hsyn⟩
        have hkeep := r.reassembler.capacity_pushSubstring seg.payload
          (r.startPayload seg.header) (r.eof || seg.header.fin)
        simp only [TcpReceiver.step]
        rw [segmentReceived_eq hsyn]
        dsimp only
        rw [hkeep, hcap]
      · have hsame : r.step (.segment seg) = r := segmentReceived_of_unsynced hsyn
        rw [hsame]
        exact ⟨hcap, hsteady⟩

theorem settles_run (c : ℕ) (ops : List ReceiverOp) : (run step (new c) ops).Settles c :=
  run_invariant_of_step (I := Settles c) (fun _ op h ↦ settles_step h op) ⟨rfl, by simp [new]⟩ ops

theorem Steady.alike_segmentReceived (h : r.Steady) (hsyn : r.syn = true)
    (hcap : 0 < r.reassembler.capacity) (hseg : r.Unacceptable seg) (hharm : r.Harmless seg) :
    r.Alike (r.segmentReceived seg) := by
  have heof : (r.eof || seg.header.fin) = r.eof := by
    cases hfin : seg.header.fin with
    | false => simp
    | true => simp [(hharm.fin hfin).1]
  have hlen : (if seg.header.fin = true then
      add64 (r.startPayload seg.header) seg.payload.length else r.lenStream) = r.lenStream := by
    split_ifs with hfin
    · exact (hharm.fin hfin).2
    · rfl
  have hisn : (if seg.header.syn = true then seg.header.seqno else r.isn) = r.isn := by
    split_ifs with hs
    · exact hharm.syn hs
    · rfl
  have hpush := (hharm.misses hseg).alike_pushSubstring hcap hharm.fits hharm.eof hharm.settled
    h.ended_of_stop
  have hout := hpush.output_eq
  have hckpt : r.reassembler.output.bytesWrote = r.ckpt := h.ckpt.symm
  rw [segmentReceived_eq (Or.inl hsyn)]
  simp only [heof, hlen, hisn, hout, hckpt]
  rw [← h.ack, ← hsyn]
  generalize r.reassembler.pushSubstring seg.payload (r.startPayload seg.header) r.eof = x
    at hpush hout ⊢
  refine ⟨r.finSeen || seg.header.fin, _, rfl, ?_⟩
  split_ifs with hfull
  · -- The stream is complete, so its end has been signalled before.
    have hended : r.reassembler.output.ended = true := h.ended_of_full hfull
    rw [ByteStream.endInput_of_ended _ hended, ← hout]
    exact hpush
  · rw [← hout]
    exact hpush

/-- Once a SYN was accepted, an unacceptable segment that is harmless changes nothing that
the receiver shows, at once or after any further operations. -/
theorem unacceptable_segment_ignored (hc : 1 ≤ c) (ops : List ReceiverOp) (seg : TcpSegment)
    (hsyn : (run step (new c) ops).syn = true)
    (hseg : (run step (new c) ops).Unacceptable seg)
    (hharm : (run step (new c) ops).Harmless seg) :
    ((run step (new c) ops).segmentReceived seg).view = (run step (new c) ops).view ∧
      ∀ later : List ReceiverOp,
        (run step (new c) (ops ++ .segment seg :: later)).view =
          (run step (new c) (ops ++ later)).view := by
  obtain ⟨hcap, hsteady⟩ := settles_run c ops
  have halike := (hsteady hsyn).alike_segmentReceived hsyn (by omega) hseg hharm
  refine ⟨halike.view_eq, fun later ↦ ?_⟩
  rw [run_append, run_append, run_cons]
  exact halike.view_run_eq later

/-- The byte `a` arrives twice: the second copy lies before the receive window. -/
theorem repeated_segment_ignored :
    let ops : List ReceiverOp :=
      [.segment { header := { seqno := ⟨5⟩, syn := true } },
        .segment { header := { seqno := ⟨6⟩ }, payload := [97] }]
    let again : TcpSegment := { header := { seqno := ⟨6⟩ }, payload := [97] }
    (run step (new 4) ops).Unacceptable again ∧
      (run step (new 4) (ops ++ .segment again :: [.read 1])).view =
        (run step (new 4) (ops ++ [.read 1])).view :=
  ⟨by decide,
    (unacceptable_segment_ignored (c := 4) (by decide) _ _ (by decide) (by decide)
      { syn := by decide
        fin := by decide
        ring := by decide
        eof := by decide
        settled := Or.inl (by decide)
        fits := by decide }).2 [.read 1]⟩

/-- A SYN with another number replaces the initial sequence number. After an early FIN, a
copy of the last delivered byte ends the stream. A FIN far past the window shows only at the
next bare segment. Bytes past the window are stored in the ring. -/
theorem unacceptable_segments_leave_traces :
    let syn : TcpSegment := { header := { seqno := ⟨5⟩, syn := true } }
    let synAgain : TcpSegment := { header := { seqno := ⟨9⟩, syn := true } }
    let a : TcpSegment := { header := { seqno := ⟨6⟩ }, payload := [97] }
    let b : TcpSegment := { header := { seqno := ⟨7⟩ }, payload := [98] }
    let dFin : TcpSegment := { header := { seqno := ⟨9⟩, fin := true }, payload := [100] }
    let zFin : TcpSegment := { header := { seqno := ⟨106⟩, fin := true }, payload := [122] }
    let bare : TcpSegment := { header := { seqno := ⟨6⟩ } }
    let ef : TcpSegment := { header := { seqno := ⟨10⟩ }, payload := [101, 102] }
    let synced := run step (new 4) [.segment syn]
    let closing := run step (new 4) [.segment syn, .segment a, .segment dFin]
    let buffered := run step (new 4) [.segment syn, .segment a, .segment b]
    (synced.Unacceptable synAgain ∧ synced.isn = ⟨5⟩ ∧
      (synced.segmentReceived synAgain).isn = ⟨9⟩) ∧
    (closing.Unacceptable a ∧ closing.streamOut.inputEnded = false ∧
      (closing.segmentReceived a).streamOut.inputEnded = true) ∧
    (synced.Unacceptable zFin ∧ (synced.segmentReceived zFin).view = synced.view ∧
      (run step synced [.segment bare]).streamOut.inputEnded = false ∧
      (run step synced [.segment zFin, .segment bare]).streamOut.inputEnded = true) ∧
    (buffered.Unacceptable ef ∧ buffered.unassembledBytes = 0 ∧
      (buffered.segmentReceived ef).unassembledBytes = 2) := by
  decide +kernel

end TcpReceiver

end Sponge
