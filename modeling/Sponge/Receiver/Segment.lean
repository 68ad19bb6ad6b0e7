import Sponge.Receiver.Model
import Sponge.Reassembler.Push

/-!
# One segment

What the receiver does with a segment that it does not drop: it pushes the
payload at the index read off the sequence number, and ends the inbound stream
when the first unassembled index is the length of the stream.
-/

namespace Sponge

namespace TcpReceiver

open Lib StreamReassembler

variable {r r' : TcpReceiver} {seg : TcpSegment} {start m : ℕ}

theorem lenPayload_eq (seg : TcpSegment) : lenPayload seg = seg.payload.length := by
  rw [lenPayload]
  cases hsyn : seg.header.syn <;> cases hfin : seg.header.fin <;>
    simp [TcpSegment.lengthInSequenceSpace, hsyn, hfin, sub64]

theorem startPayload_lt (r : TcpReceiver) (header : TcpHeader) :
    r.startPayload header < 2 ^ 64 := by
  rw [startPayload]
  split_ifs
  · exact unwrap_lt _ _ _
  · exact sub64_lt _ (unwrap_lt _ _ _)

theorem segmentReceived_of_unsynced (h : ¬(r.syn = true ∨ seg.header.syn = true)) :
    r.segmentReceived seg = r := by
  rw [not_or, Bool.not_eq_true, Bool.not_eq_true] at h
  simp [segmentReceived, h.1, h.2]

/-- A segment that is not dropped, with the end of the output as the only branch: the test of
`_fin_seen` comes after the flag was set, so it never ends the output. -/
theorem segmentReceived_eq (hsyn : r.syn = true ∨ seg.header.syn = true) :
    r.segmentReceived seg =
      let x := r.reassembler.pushSubstring seg.payload (r.startPayload seg.header)
        (r.eof || seg.header.fin)
      let len := if seg.header.fin then add64 (r.startPayload seg.header) seg.payload.length
        else r.lenStream
      let isn := if seg.header.syn then seg.header.seqno else r.isn
      { r with
        reassembler := { x with
          output := if x.output.bytesWrote = len then x.output.endInput else x.output }
        ckpt := x.output.bytesWrote
        isn := isn
        ack := wrap (x.output.bytesWrote + if x.output.bytesWrote = len then 2 else 1) isn
        syn := true
        eof := r.eof || seg.header.fin
        finSeen := r.finSeen || seg.header.fin
        lenStream := len } := by
  have hnot : ¬(!r.syn && !seg.header.syn) = true := by
    rcases hsyn with h | h <;> simp [h]
  have hfin : (!(r.finSeen || seg.header.fin) && seg.header.fin) = false := by
    cases seg.header.fin <;> simp
  rw [segmentReceived, if_neg hnot]
  simp only [lenPayload_eq, hfin, Bool.or_false, beq_iff_eq, StreamReassembler.streamOut,
    ByteStream.bytesWritten]
  generalize r.reassembler.pushSubstring seg.payload (r.startPayload seg.header)
    (r.eof || seg.header.fin) = x
  generalize (if seg.header.fin = true then
    add64 (r.startPayload seg.header) seg.payload.length else r.lenStream) = len
  by_cases heq : x.output.bytesWrote = len
  · simp only [if_pos heq]
  · simp only [if_neg heq]

theorem error_segmentReceived (r : TcpReceiver) (seg : TcpSegment) :
    (r.segmentReceived seg).streamOut.error = r.streamOut.error := by
  by_cases hsyn : r.syn = true ∨ seg.header.syn = true
  · rw [segmentReceived_eq hsyn]
    exact (ByteStream.error_ite_endInput _).trans (r.reassembler.output_pushSubstring _ _ _).2.1
  · rw [segmentReceived_of_unsynced hsyn]

/-- What a segment that writes `m` bytes from index `start` on does. -/
structure Processed (r r' : TcpReceiver) (seg : TcpSegment) (start m : ℕ) : Prop where
  pushed : Pushed r.reassembler r'.reassembler seg.payload start r'.eof m
  ended : r'.reassembler.output.ended = true ↔
    r.reassembler.output.ended = true ∨ r'.reassembler.EndsOutput seg.payload r'.eof ∨
      r'.reassembler.startAux = r'.lenStream
  capacity : r'.capacity = r.capacity
  ckpt : r'.ckpt = r'.reassembler.startAux
  isn : r'.isn = if seg.header.syn then seg.header.seqno else r.isn
  ack : r'.ack = wrap (r'.ckpt + if r'.ckpt = r'.lenStream then 2 else 1) r'.isn
  syn : r'.syn = true
  eof : r'.eof = (r.eof || seg.header.fin)
  lenStream : r'.lenStream =
    if seg.header.fin then add64 start seg.payload.length else r.lenStream

theorem exists_processed (hw : r.reassembler.Wf)
    (hsyn : r.syn = true ∨ seg.header.syn = true)
    (hidx : r.startPayload seg.header ≤ r.reassembler.startAux + r.reassembler.capacity →
      r.startPayload seg.header + seg.payload.length < 2 ^ 64) :
    ∃ m, Processed r (r.segmentReceived seg) seg (r.startPayload seg.header) m := by
  obtain ⟨m, hm, hended⟩ := exists_pushed hw hidx (r.eof || seg.header.fin)
  refine ⟨m, ?_⟩
  rw [segmentReceived_eq hsyn]
  dsimp only
  generalize r.reassembler.pushSubstring seg.payload (r.startPayload seg.header)
    (r.eof || seg.header.fin) = x at hm hended ⊢
  generalize hlen : (if seg.header.fin = true then
    add64 (r.startPayload seg.header) seg.payload.length else r.lenStream) = len
  rw [← hm.wf.startAux_eq]
  exact
    { pushed := by
        dsimp only
        split_ifs
        · exact hm.endOutput
        · exact hm
      ended := by
        by_cases heq : x.startAux = len
        · simp [heq]
        · simp only [heq, if_false, or_false]
          exact hended
      capacity := rfl
      ckpt := rfl
      isn := rfl
      ack := rfl
      syn := rfl
      eof := rfl
      lenStream := hlen.symm }

/-- The index of a segment that carries nothing does not matter. -/
theorem Processed.of_nil {k : ℕ} (h : Processed r r' seg start m) (hnil : seg.payload = [])
    (hfin : seg.header.fin = false) : Processed r r' seg k m :=
  { h with
    pushed := by
      have hpushed := h.pushed
      rw [hnil] at hpushed ⊢
      exact hpushed.of_nil
    lenStream := by simpa [hfin] using h.lenStream }

end TcpReceiver

end Sponge
