import Sponge.Network.Completion

/-!
# The end of a transfer

Once the FIN was seen the reassembler takes the end of any segment for the end
of the stream. As long as this does not end the stream early, the reader sees its
end only after all bytes of the writer, unless the connection failed.
-/

namespace Sponge

open Lib

namespace TcpReceiver

/-- A segment that comes with or after a FIN completes the stream, up to the end that is then known,
with what is held, or it has a payload and the bytes at hand do not break off at its own end, which
the reassembler takes for that of the stream. -/
def EndsTimely (r : TcpReceiver) (seg : TcpSegment) : Prop :=
  seg.lengthInSequenceSpace ≠ 0 → r.eof = true ∨ seg.header.fin = true →
    r.reassembler.EndsNotBefore seg.payload (r.startPayload seg.header)
      (if seg.header.fin then add64 (r.startPayload seg.header) seg.payload.length
        else r.lenStream)

instance (r : TcpReceiver) (seg : TcpSegment) : Decidable (r.EndsTimely seg) :=
  inferInstanceAs (Decidable (_ → _ ∨ _ → _))

variable {r r' : TcpReceiver} {seg : TcpSegment} {m : ℕ}

/-- Before a FIN is seen the reassembler knows no end. -/
def EndUnknown (r : TcpReceiver) : Prop :=
  r.eof = false → r.reassembler.endStream = 2 ^ 64 - 1

theorem Processed.endUnknown {start : ℕ} (hm : Processed r r' seg start m) (h : r.EndUnknown) :
    r'.EndUnknown := by
  intro heof
  have hend := hm.pushed.endStream
  rw [heof] at hend
  have hbefore : r.eof = false := by
    have hor := hm.eof.symm.trans heof
    exact (Bool.or_eq_false_iff.mp hor).1
  simpa [h hbefore] using hend

/-- Where the segment ends the stream, it does so at the end that is known. -/
theorem EndsTimely.lenStream_le (htimely : r.EndsTimely seg)
    (hpos : seg.lengthInSequenceSpace ≠ 0) (hw : r.reassembler.Wf)
    (hm : Processed r r' seg (r.startPayload seg.header) m) (heof : r'.eof = true)
    (hends : r'.reassembler.EndsOutput seg.payload r'.eof) :
    r'.lenStream ≤ r'.reassembler.startAux := by
  have hflag := heof
  rw [hm.eof, Bool.or_eq_true] at hflag
  have hpushed := hm.pushed
  rw [heof] at hpushed hends
  rw [hm.lenStream]
  exact hpushed.le_startAux_of_endsOutput hw hends (htimely hpos hflag)

end TcpReceiver

/-- A stream that has failed stays so. -/
theorem TcpConnection.error_step {c : TcpConnection} (h : c.inboundStream.error = true) (op : Op) :
    (c.step op).inboundStream.error = true := by
  have hsent : ∀ {c' : TcpConnection} {s : TcpSender} {r : TcpReceiver}, Sends c c' s r →
      r.streamOut.error = true → c'.inboundStream.error = true := by
    intro c' s r hsends hr
    rw [inboundStream]
    rcases hsends.receiver with heq | heq <;> rw [heq]
    · exact hr
    · rfl
  cases op with
  | connect => exact hsent c.sends_connect h
  | write data => exact hsent (c.sends_write data) h
  | endInputStream => exact hsent c.sends_endInputStream h
  | tick ms => exact hsent (c.sends_tick ms) h
  | read len => exact h
  | takeSegment => exact h
  | segmentReceived seg =>
      obtain ⟨s, -, hsends⟩ := c.exists_sends_segmentReceived seg
      refine hsent hsends ?_
      rw [passed]
      split_ifs
      · exact (c.receiver.error_segmentReceived seg).trans h
      · exact h

/-- A segment that does not end the stream early ends it after all bytes. -/
theorem Link.full_of_ended {s : TcpSender} {d : List UInt8} {r : TcpReceiver} {syn fin : Bool}
    {seg : TcpSegment} {q : ℕ} (h : Link s d r syn fin)
    (hcut : TcpSender.Cut s.isn d s.stream.ended q seg)
    (hend : q + seg.lengthInSequenceSpace ≤ s.nextSeqno)
    (hpos : seg.lengthInSequenceSpace ≠ 0) (htimely : r.EndsTimely seg) (hunknown : r.EndUnknown)
    (hold : r.streamOut.ended = true → fin = true ∧ r.streamOut.bytesWritten = d.length)
    (hended : (r.segmentReceived seg).streamOut.ended = true) :
    (fin || seg.header.fin) = true ∧
      (r.segmentReceived seg).streamOut.bytesWritten = d.length := by
  obtain ⟨m, hm⟩ := h.exists_processed_startPayload hcut hend hpos
  have hlink := h.segmentReceived hcut hend hpos
  have hbound := hlink.bytesWritten_le.trans hlink.sending.bytesReaded_le
  have hlen := h.length_lt
  have hstart := hlink.tracks.bytesWritten_eq
  have hknown : (r.segmentReceived seg).lenStream ≤ (r.segmentReceived seg).reassembler.startAux →
      (fin || seg.header.fin) = true ∧
        (r.segmentReceived seg).streamOut.bytesWritten = d.length := by
    intro hle
    rw [hlink.tracks.lenStream, ← hstart] at hle
    split_ifs at hle with hfin
    · exact ⟨hfin, le_antisymm hbound hle⟩
    · omega
  rcases hm.ended.mp hended with hbefore | hends | heq
  · obtain ⟨hfin, hfull⟩ := hold hbefore
    rw [h.tracks.bytesWritten_eq] at hfull
    have hgrow := hm.pushed.startAux
    exact ⟨by rw [hfin, Bool.true_or], by omega⟩
  · cases heof : (r.segmentReceived seg).eof with
    | true => exact hknown (htimely.lenStream_le hpos h.tracks.wf hm heof hends)
    | false =>
        -- Without a FIN the end is the largest index, which nothing reaches.
        have hstop := hm.endUnknown hunknown heof
        rcases hends with ⟨-, hflag⟩ | hreached
        · exact absurd (heof.symm.trans hflag) Bool.false_ne_true
        · omega
  · exact hknown heq.ge

namespace Endpoint

variable {x y : Endpoint} {op : TcpConnection.Op}

/-- The inbound stream of `y` ends only after the FIN and all bytes that `x` has accepted. -/
structure Closes (x y : Endpoint) : Prop where
  endUnknown : y.conn.receiver.EndUnknown
  of_ended : y.conn.inboundStream.ended = true →
    y.finArrived = true ∧ y.bytesWritten = x.accepted.length

theorem closes_new (cfg cfg' : TcpConfig) (random random' : UInt32) :
    Closes (new cfg random) (new cfg' random') where
  endUnknown := fun _ ↦ rfl
  of_ended := fun hended ↦ absurd hended.symm Bool.true_eq_false_eq_False

theorem Closes.sender_step (h : Closes x y) (hdir : Direction x y) (hop : x.Permits y op) :
    Closes (x.step op) y := by
  refine ⟨h.endUnknown, fun hended ↦ ?_⟩
  obtain ⟨hfin, hall⟩ := h.of_ended hended
  exact ⟨hfin, hall.trans (congrArg List.length (hdir.accepted_step_eq hop hfin)).symm⟩

theorem Closes.of_sends {s : TcpSender} {r : TcpReceiver}
    (hsends : TcpConnection.Sends y.conn (y.step op).conn s r) (hunknown : r.EndUnknown)
    (h : r.streamOut.ended = true → (y.step op).finArrived = true ∧
      r.streamOut.bytesWritten = x.accepted.length) : Closes x (y.step op) := by
  refine ⟨?_, fun hended ↦ ?_⟩
  · rcases hsends.receiver with heq | heq <;> rw [heq] <;> exact hunknown
  rw [Direction.bytesWritten_of_sends hsends]
  refine h ?_
  rw [TcpConnection.inboundStream] at hended
  rcases hsends.receiver with heq | heq <;> rw [heq] at hended
  · exact hended
  · exact hended

theorem Closes.receiver_step (h : Closes x y) (hdir : Direction x y) (hop : y.Permits x op)
    (htimely : ∀ seg, op = .segmentReceived seg → y.conn.receiver.EndsTimely seg) :
    Closes x (y.step op) := by
  cases op with
  | connect => exact of_sends y.conn.sends_connect h.endUnknown h.of_ended
  | write data => exact of_sends (y.conn.sends_write data) h.endUnknown h.of_ended
  | endInputStream => exact of_sends y.conn.sends_endInputStream h.endUnknown h.of_ended
  | tick ms => exact of_sends (y.conn.sends_tick ms) h.endUnknown h.of_ended
  | read len => exact ⟨h.endUnknown, h.of_ended⟩
  | takeSegment => exact ⟨h.endUnknown, h.of_ended⟩
  | segmentReceived seg =>
      obtain ⟨s, -, hsends⟩ := y.conn.exists_sends_segmentReceived seg
      rw [TcpConnection.passed] at hsends
      split_ifs at hsends with hpos
      · obtain ⟨q, hcut, hend⟩ :=
          (hdir.sent seg (List.mem_append_right _ hop)).resolve_left hpos
        obtain ⟨m, hm⟩ := hdir.link.exists_processed hcut hend hpos
        refine of_sends hsends (hm.endUnknown h.endUnknown) fun hended ↦ ?_
        rw [finArrived_segmentReceived]
        exact hdir.link.full_of_ended hcut hend hpos (htimely seg rfl) h.endUnknown h.of_ended
          hended
      · refine of_sends hsends h.endUnknown fun hended ↦ ?_
        obtain ⟨hfin, hall⟩ := h.of_ended hended
        rw [finArrived_segmentReceived]
        exact ⟨by rw [hfin, Bool.true_or], hall⟩

end Endpoint

namespace Network

variable {n : Network} {event : Event}

theorem closes_step (hdir : n.a.Direction n.b) (h : n.a.Closes n.b) (hevent : n.Allowed event)
    (htimely : ∀ seg, event = .atB (.segmentReceived seg) → n.b.conn.receiver.EndsTimely seg) :
    (n.step event).a.Closes (n.step event).b := by
  cases event with
  | atA op => exact h.sender_step hdir hevent.1
  | atB op => exact h.receiver_step hdir hevent.1 fun seg heq ↦ htimely seg (heq ▸ rfl)

theorem error_step (h : n.b.conn.inboundStream.error = true) (event : Event) :
    (n.step event).b.conn.inboundStream.error = true := by
  cases event with
  | atA op => exact h
  | atB op => exact TcpConnection.error_step h op

/-- The transfer is complete, and the reader has all bytes. -/
def Finished (n : Network) : Prop := n.Complete ∧ n.b.taken = n.a.accepted

/-- At its end the inbound stream of `b` has brought everything, once it is read. -/
theorem finished_of_eof (hsettled : n.Settled) (hbrings : n.a.Brings n.b)
    (hcloses : n.a.Closes n.b) (heof : n.b.conn.inboundStream.eof = true) : n.Finished := by
  obtain ⟨hempty, hended⟩ := (ByteStream.eof_iff _).mp heof
  obtain ⟨hfin, hall⟩ := hcloses.of_ended hended
  have hlink := hsettled.direction.link
  have hcomplete : n.Complete :=
    ⟨(hlink.sending.bytesReaded_of_finSent (hlink.finSent hfin)).1, hall⟩
  have hdelivered := hsettled.delivered_eq hbrings hall
  rw [Endpoint.delivered, hempty, List.append_nil] at hdelivered
  exact ⟨hcomplete, hdelivered⟩

theorem Finished.step (h : n.Finished) (hsettled : n.Settled) (hevent : n.Allowed event)
    (hbrings : (n.step event).a.Brings (n.step event).b) : (n.step event).Finished := by
  obtain ⟨hcomplete, htaken⟩ := h
  have hcomplete' := hcomplete.step hsettled hevent
  have hdelivered := (hsettled.step hevent).delivered_eq hbrings hcomplete'.2
  have hreader : (n.step event).b.taken <+: (n.step event).a.accepted :=
    hdelivered ▸ List.prefix_append _ _
  refine ⟨hcomplete', hreader.eq_of_length_le ?_⟩
  cases event with
  | atA op =>
      exact (congrArg List.length
        ((Endpoint.accepted_step_of_ended hcomplete.1 hevent.1).trans htaken.symm)).le
  | atB op =>
      rw [show (n.step (.atB op)).a = n.a from rfl, ← htaken]
      cases op with
      | read len => exact (List.prefix_append _ _).length_le
      | _ => exact le_refl _

end Network

end Sponge
