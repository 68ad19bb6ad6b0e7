import Sponge.Connection.Closed
import Sponge.Receiver.PeerStream

/-!
# Who lingers

The side whose outbound stream ends first should linger, and the other one
should not. The code decides this when a FIN arrives, by asking whether its own
stream is at its end. The decision is right if a FIN that finds the own stream
open comes with or after all the bytes before it; one that arrives ahead of
missing bytes decides too early, and one that comes with the SYN of a listening
connection decides nothing.
-/

namespace Sponge

open Lib

namespace TcpReceiver

variable {p : PeerStream} {r : TcpReceiver} {seg : TcpSegment}

/-- The payload is read where it lies in the stream of the peer, unless the segment is dropped. -/
def Places (p : PeerStream) (r : TcpReceiver) (seg : TcpSegment) : Prop :=
  r.Processes seg → seg.payload ≠ [] →
    r.startPayload seg.header + seg.payload.length ≤ p.data.length

instance (p : PeerStream) (r : TcpReceiver) (seg : TcpSegment) : Decidable (r.Places p seg) :=
  inferInstanceAs (Decidable (_ → _ → _))

/-- The segment ends where the stream of the peer ends, and every byte before is written, held or
part of it and fits in the inbound stream. -/
def Completes (p : PeerStream) (r : TcpReceiver) (seg : TcpSegment) : Prop :=
  r.Processes seg ∧ r.startPayload seg.header + seg.payload.length = p.data.length ∧
    r.reassembler.Fills seg.payload (r.startPayload seg.header) p.data.length

instance (p : PeerStream) (r : TcpReceiver) (seg : TcpSegment) : Decidable (r.Completes p seg) :=
  inferInstanceAs (Decidable (_ ∧ _ ∧ _))

/-- No FIN has arrived, and what is held or written lies in the stream of the peer. -/
structure Endless (p : PeerStream) (r : TcpReceiver) : Prop where
  wf : r.reassembler.Wf
  within : ∀ i, r.reassembler.Held i ∨ i < r.reassembler.startAux → i < p.data.length
  endStream : r.reassembler.endStream = 2 ^ 64 - 1
  ended : r.reassembler.output.ended = false
  eof : r.eof = false
  lenStream : r.lenStream = 2 ^ 64 - 1

theorem endless_new (p : PeerStream) {c : ℕ} (hc : 1 ≤ c) : (new c).Endless p where
  wf := StreamReassembler.wf_new hc
  within := by
    rintro i (hi | hi)
    · exact absurd hi (StreamReassembler.not_held_new c i)
    · exact absurd hi (Nat.not_lt_zero i)
  endStream := rfl
  ended := rfl
  eof := rfl
  lenStream := rfl

namespace Endless

theorem setError (h : r.Endless p) : r.setError.Endless p :=
  { h with wf := h.wf.frame rfl rfl }

theorem readOutput (h : r.Endless p) (len : ℕ) : (r.readOutput len).Endless p :=
  { h with wf := h.wf.readOutput len }

/-- What a placed segment does, and that all stays in the stream of the peer. -/
theorem exists_processed (h : r.Endless p) (hproc : r.Processes seg) (hplace : r.Places p seg) :
    ∃ m, Processed r (r.segmentReceived seg) seg (r.startPayload seg.header) m ∧
      ∀ i, (r.segmentReceived seg).reassembler.Held i ∨
        i < (r.segmentReceived seg).reassembler.startAux → i < p.data.length := by
  have hlen := p.length_lt
  have hstart := r.startPayload_lt seg.header
  have hend : seg.payload ≠ [] → _ := hplace hproc
  obtain ⟨m, hm⟩ := TcpReceiver.exists_processed h.wf hproc.2 fun _ ↦ by
    by_cases hnil : seg.payload = []
    · rw [hnil]
      exact hstart
    · have := hend hnil
      omega
  refine ⟨m, hm, hm.pushed.forall_held_or_written h.wf h.within fun i hi hi' ↦ ?_⟩
  have := hend (List.ne_nil_of_length_pos (by omega))
  omega

theorem segmentReceived (h : r.Endless p) (hproc : r.Processes seg) (hplace : r.Places p seg)
    (hfin : seg.header.fin = false) : (r.segmentReceived seg).Endless p := by
  obtain ⟨m, hm, hwithin⟩ := h.exists_processed hproc hplace
  have hlen := p.length_lt
  have heof : (r.segmentReceived seg).eof = false := by rw [hm.eof, h.eof, hfin]; rfl
  have hend : (r.segmentReceived seg).reassembler.endStream = 2 ^ 64 - 1 := by
    rw [hm.pushed.endStream, heof]
    simpa using h.endStream
  have hlenStream : (r.segmentReceived seg).lenStream = 2 ^ 64 - 1 := by
    rw [hm.lenStream, hfin]
    exact h.lenStream
  -- No byte of the stream has the index that stands for no end.
  have hstart : (r.segmentReceived seg).reassembler.startAux ≤ p.data.length :=
    le_of_forall_lt fun i hi ↦ hwithin i (Or.inr hi)
  refine ⟨hm.pushed.wf, hwithin, hend, ?_, heof, hlenStream⟩
  rw [← Bool.not_eq_true, hm.ended]
  rintro (hended | (⟨-, hflag⟩ | heq) | heq)
  · exact Bool.false_ne_true (h.ended.symm.trans hended)
  · exact Bool.false_ne_true (heof.symm.trans hflag)
  · omega
  · omega

/-- A FIN that completes the stream ends it with all bytes written. -/
theorem ends_of_completes (h : r.Endless p) (hseg : r.Completes p seg)
    (hfin : seg.header.fin = true) :
    (r.segmentReceived seg).streamOut.inputEnded = true ∧
      (r.segmentReceived seg).streamOut.bytesWritten = p.data.length := by
  obtain ⟨hproc, hend, hfills⟩ := hseg
  obtain ⟨m, hm, hwithin⟩ := h.exists_processed hproc fun _ _ ↦ hend.le
  have hlen := p.length_lt
  have hstart : (r.segmentReceived seg).reassembler.startAux = p.data.length := by
    apply le_antisymm
    · exact le_of_forall_lt fun i hi ↦ hwithin i (Or.inr hi)
    · exact (hm.pushed.fills_iff h.wf _).mp hfills
  constructor
  · refine hm.ended.mpr (Or.inr (Or.inr ?_))
    rw [hm.lenStream, if_pos hfin, add64_of_lt (by omega), hend, hstart]
  · exact hm.pushed.wf.startAux_eq.symm.trans hstart

end Endless

end TcpReceiver

namespace TcpSender

variable {s : TcpSender}

/-- A stream at its end is left alone: only a SYN or a FIN can go out. -/
theorem eof_fillWindow (heof : s.stream.eof = true) : s.fillWindow.stream.eof = true := by
  obtain ⟨hdeq, -⟩ := s.stream.eof_iff.mp heof
  have hbuf : s.stream.bufferSize = 0 := by rw [ByteStream.bufferSize, hdeq, List.length_nil]
  rw [fillWindow, hbuf, fillLoop]
  split_ifs with hsyn hfin hprobe
  · exact heof
  · exact heof
  · exact absurd hprobe.1 (Nat.lt_irrefl 0)
  · exact heof

theorem eof_ackReceived (heof : s.stream.eof = true) (ackno : WrappingInt32) (w : UInt16) :
    (s.ackReceived ackno w).stream.eof = true := by
  simp only [ackReceived]
  split_ifs
  · exact heof
  · exact eof_fillWindow heof
  · exact heof

theorem eof_tick (heof : s.stream.eof = true) (ms : ℕ) : (s.tick ms).stream.eof = true := by
  obtain ⟨out, times, time, consec, rto, heq, -, -⟩ := exists_tick s ms
  rw [heq]
  exact heof

end TcpSender

namespace TcpConnection

variable {c c' : TcpConnection} {s : TcpSender} {r : TcpReceiver} {seg : TcpSegment}
  {p : PeerStream}

theorem resetBy_linger (c : TcpConnection) (seg : TcpSegment) :
    (c.resetBy seg).lingerAfterStreamsFinish = c.lingerAfterStreamsFinish ∧
      (c.resetBy seg).sender.streamIn.eof = c.sender.streamIn.eof := by
  rw [resetBy]
  split_ifs <;> exact ⟨rfl, rfl⟩

theorem answer_linger (c : TcpConnection) (seg : TcpSegment) :
    (c.answer seg).lingerAfterStreamsFinish = c.lingerAfterStreamsFinish ∧
      (c.answer seg).sender.streamIn.eof = c.sender.streamIn.eof := by
  rw [answer]
  split_ifs <;> exact ⟨rfl, rfl⟩

theorem stopLingering_linger (c : TcpConnection) (seg : TcpSegment) :
    (c.stopLingering seg).lingerAfterStreamsFinish =
      if seg.header.fin && !c.sender.streamIn.eof then false else c.lingerAfterStreamsFinish := by
  rw [stopLingering]
  split_ifs <;> rfl

/-- A FIN that finds the outbound stream open stops the lingering, unless it comes with the SYN
that a listening connection answers. -/
theorem linger_segmentReceived (c : TcpConnection) (seg : TcpSegment) :
    (c.segmentReceived seg).lingerAfterStreamsFinish =
      if c.Listens seg then c.lingerAfterStreamsFinish
      else if seg.header.fin && !(c.relayed seg).stream.eof then false
      else c.lingerAfterStreamsFinish := by
  simp only [segmentReceived, relayAck_passToReceiver]
  by_cases hlisten : c.Listens seg
  · rw [if_pos ((listens_iff c seg).mpr hlisten), if_pos hlisten]
    rfl
  · rw [if_neg (mt (listens_iff c seg).mp hlisten), if_neg hlisten]
    refine (stopLingering_linger _ seg).trans ?_
    rw [(answer_linger _ seg).1, (answer_linger _ seg).2]
    change (if seg.header.fin && !(resetBy _ seg).sender.streamIn.eof then false
      else (resetBy _ seg).lingerAfterStreamsFinish) = _
    rw [(resetBy_linger _ seg).1, (resetBy_linger _ seg).2]
    rfl

theorem eof_of_sends (hsends : Sends c c' s r) (heof : s.stream.eof = true) :
    c'.sender.stream.eof = true := by
  obtain ⟨stream, hstream, heq⟩ := hsends.exists_sender
  rw [heq]
  exact hstream.eof.trans heof

theorem endless_of_sends (hsends : Sends c c' s r) (h : r.Endless p) :
    c'.receiver.Endless p := by
  rcases hsends.receiver with heq | heq <;> rw [heq]
  · exact h
  · exact h.setError

theorem eof_relayed (heof : c.sender.stream.eof = true) (seg : TcpSegment) :
    (c.relayed seg).stream.eof = true := by
  rw [relayed]
  split_ifs
  · exact TcpSender.eof_ackReceived heof _ _
  · exact heof

theorem eof_segmentReceived (heof : (c.relayed seg).stream.eof = true) :
    (c.segmentReceived seg).sender.stream.eof = true := by
  obtain ⟨s, hs, hsends⟩ := exists_sends_segmentReceived c seg
  refine eof_of_sends hsends ?_
  rcases hs with rfl | rfl | rfl
  · exact heof
  · exact TcpSender.eof_fillWindow heof
  · exact heof

theorem endless_segmentReceived (h : c.receiver.Endless p) (hplace : c.receiver.Places p seg)
    (hfin : seg.header.fin = false) : (c.segmentReceived seg).receiver.Endless p := by
  obtain ⟨s, -, hsends⟩ := exists_sends_segmentReceived c seg
  refine endless_of_sends hsends ?_
  rw [passed]
  split_ifs with hlen
  · by_cases hsyn : c.receiver.syn = true ∨ seg.header.syn = true
    · exact h.segmentReceived ⟨hlen, hsyn⟩ hplace hfin
    · rw [TcpReceiver.segmentReceived_of_unsynced hsyn]
      exact h
  · exact h

/-- The inbound stream has ended with all bytes of the peer before its FIN. -/
def InboundEnded (p : PeerStream) (c : TcpConnection) : Prop :=
  c.inboundStream.inputEnded = true ∧ c.inboundStream.bytesWritten = p.data.length

instance (p : PeerStream) (c : TcpConnection) : Decidable (c.InboundEnded p) :=
  inferInstanceAs (Decidable (_ ∧ _))

theorem not_inboundEnded_of_endless (h : c.receiver.Endless p) : ¬c.InboundEnded p :=
  fun hended ↦ Bool.false_ne_true (h.ended.symm.trans hended.1)

theorem inboundEnded_of_completes (h : c.receiver.Endless p) (hseg : c.receiver.Completes p seg)
    (hfin : seg.header.fin = true) : (c.segmentReceived seg).InboundEnded p := by
  obtain ⟨s, -, hsends⟩ := exists_sends_segmentReceived c seg
  have hends := h.ends_of_completes hseg hfin
  rw [passed, if_pos hseg.1.1] at hsends
  rw [InboundEnded, inboundStream]
  rcases hsends.receiver with heq | heq <;> rw [heq] <;> exact hends

end TcpConnection

/-- A connection and, once its inbound stream has ended, whether the outbound stream was still
open at that moment. -/
structure Lingering where
  conn : TcpConnection
  endedOpen : Option Bool := none

namespace Lingering

open TcpConnection

variable {p : PeerStream} {t : Lingering} {seg : TcpSegment}

def new (cfg : TcpConfig) (random : UInt32) : Lingering where
  conn := .new cfg random

/-- Whether the outbound stream is open when the operation has its effect on the receiver: the
acknowledgment of a segment is relayed before. -/
def outboundOpen (c : TcpConnection) : Op → Bool
  | .segmentReceived seg => !(c.relayed seg).streamIn.eof
  | _ => !c.sender.streamIn.eof

def step (p : PeerStream) (t : Lingering) (op : Op) : Lingering where
  conn := t.conn.step op
  endedOpen := match t.endedOpen with
    | some b => some b
    | none => if (t.conn.step op).InboundEnded p then some (outboundOpen t.conn op) else none

/-- The segments lie in the stream of the peer. A FIN that finds the outbound stream open comes with
or after all bytes before it and not with the SYN that a listening connection answers, and nothing
is accepted after the end of the outbound stream. -/
def FinInOrder (p : PeerStream) (t : Lingering) : Op → Prop
  | .segmentReceived seg =>
    t.conn.receiver.Places p seg ∧
      (seg.header.fin = true → t.conn.sender.streamIn.eof = false →
        t.conn.receiver.Completes p seg ∧ ¬t.conn.Listens seg)
  | .write data => t.conn.sender.streamIn.eof = true → t.conn.writeSize data = 0
  | _ => True

instance (p : PeerStream) (t : Lingering) : (op : Op) → Decidable (t.FinInOrder p op)
  | .segmentReceived _ => inferInstanceAs (Decidable (_ ∧ (_ → _ → _ ∧ ¬_)))
  | .write _ => inferInstanceAs (Decidable (_ → _))
  | .connect | .endInputStream | .tick _ | .read _ | .takeSegment =>
    inferInstanceAs (Decidable True)

/-- The invariant, in three stages: no FIN has arrived; a FIN has arrived and the outbound stream
was at its end by then; the inbound stream ended while the outbound stream was open. -/
def Decided (p : PeerStream) (t : Lingering) : Prop :=
  (t.endedOpen = none ∧ t.conn.lingerAfterStreamsFinish = true ∧ t.conn.receiver.Endless p) ∨
    (t.endedOpen ≠ some true ∧ t.conn.lingerAfterStreamsFinish = true ∧
      t.conn.sender.stream.eof = true) ∨
    (t.endedOpen = some true ∧ t.conn.lingerAfterStreamsFinish = false)

theorem endedOpen_of_endless {op : Op} (hnone : t.endedOpen = none)
    (h : (t.conn.step op).receiver.Endless p) : (t.step p op).endedOpen = none := by
  simp only [step, hnone]
  exact if_neg (not_inboundEnded_of_endless h)

theorem endedOpen_ne_of_eof {op : Op} (hne : t.endedOpen ≠ some true)
    (hopen : outboundOpen t.conn op = false) : (t.step p op).endedOpen ≠ some true := by
  simp only [step, hopen]
  cases hended : t.endedOpen with
  | some b =>
      rw [hended] at hne
      exact hne
  | none => split_ifs <;> simp

theorem decided_of_endless {op : Op} (hnone : t.endedOpen = none)
    (hlinger : (t.conn.step op).lingerAfterStreamsFinish = true)
    (h : (t.conn.step op).receiver.Endless p) : (t.step p op).Decided p :=
  Or.inl ⟨endedOpen_of_endless hnone h, hlinger, h⟩

/-- A segment that finds the outbound stream at its end does not stop the lingering. -/
theorem decided_of_eof (hne : t.endedOpen ≠ some true)
    (hlinger : t.conn.lingerAfterStreamsFinish = true)
    (heof : (t.conn.relayed seg).stream.eof = true) :
    (t.step p (.segmentReceived seg)).Decided p := by
  refine Or.inr (Or.inl ⟨endedOpen_ne_of_eof hne ?_, ?_, eof_segmentReceived heof⟩)
  · simp [outboundOpen, TcpSender.streamIn, heof]
  · refine (linger_segmentReceived t.conn seg).trans ?_
    simp [heof, hlinger]

theorem decided_first_stage (hnone : t.endedOpen = none)
    (hlinger : t.conn.lingerAfterStreamsFinish = true) (h : t.conn.receiver.Endless p) (op : Op)
    (hop : t.FinInOrder p op) : (t.step p op).Decided p := by
  cases op with
  | segmentReceived seg =>
      cases hfin : seg.header.fin with
      | false =>
          refine decided_of_endless hnone ?_ (endless_segmentReceived h hop.1 hfin)
          refine (linger_segmentReceived t.conn seg).trans ?_
          simp [hfin, hlinger]
      | true =>
          cases heof : (t.conn.relayed seg).stream.eof with
          | true => exact decided_of_eof (by simp [hnone]) hlinger heof
          | false =>
              have hopen : outboundOpen t.conn (.segmentReceived seg) = true := by
                simp [outboundOpen, TcpSender.streamIn, heof]
              have hopen' : t.conn.sender.streamIn.eof = false := by
                by_contra heof'
                rw [Bool.not_eq_false] at heof'
                exact Bool.false_ne_true (heof.symm.trans (eof_relayed heof' seg))
              obtain ⟨hseg, hlisten⟩ := hop.2 hfin hopen'
              refine Or.inr (Or.inr ⟨?_, ?_⟩)
              · simp only [step, hnone, hopen]
                exact if_pos (inboundEnded_of_completes h hseg hfin)
              · refine (linger_segmentReceived t.conn seg).trans ?_
                simp [hlisten, hfin, heof]
  | tick ms =>
      exact decided_of_endless hnone ((tick_frame t.conn ms).2.2.2.2.trans hlinger)
        (endless_of_sends (sends_tick t.conn ms) h)
  | read len => exact decided_of_endless hnone hlinger (h.readOutput len)
  | connect | write | endInputStream | takeSegment => exact decided_of_endless hnone hlinger h

theorem eof_step (heof : t.conn.sender.stream.eof = true) (op : Op) (hop : t.FinInOrder p op) :
    (t.conn.step op).sender.stream.eof = true := by
  cases op with
  | connect => exact TcpSender.eof_fillWindow heof
  | write data =>
      refine TcpSender.eof_fillWindow ?_
      rw [t.conn.sender.stream.write_of_writeSize_eq_zero data (hop heof)]
      exact heof
  | endInputStream =>
      refine TcpSender.eof_fillWindow ?_
      rw [t.conn.sender.stream.endInput_of_ended ((ByteStream.eof_iff _).mp heof).2]
      exact heof
  | tick ms => exact eof_of_sends (sends_tick t.conn ms) (TcpSender.eof_tick heof ms)
  | segmentReceived seg => exact eof_segmentReceived (eof_relayed heof seg)
  | read len => exact heof
  | takeSegment => exact heof

theorem decided_second_stage (hne : t.endedOpen ≠ some true)
    (hlinger : t.conn.lingerAfterStreamsFinish = true) (heof : t.conn.sender.stream.eof = true)
    (op : Op) (hop : t.FinInOrder p op) : (t.step p op).Decided p := by
  have heof' := eof_step heof op hop
  have hopen : (!t.conn.sender.streamIn.eof) = false := by simp [TcpSender.streamIn, heof]
  cases op with
  | segmentReceived seg => exact decided_of_eof hne hlinger (eof_relayed heof seg)
  | tick ms =>
      exact Or.inr (Or.inl ⟨endedOpen_ne_of_eof hne hopen,
        (tick_frame t.conn ms).2.2.2.2.trans hlinger, heof'⟩)
  | connect | write | endInputStream | read | takeSegment =>
      exact Or.inr (Or.inl ⟨endedOpen_ne_of_eof hne hopen, hlinger, heof'⟩)

theorem decided_step (h : t.Decided p) (op : Op) (hop : t.FinInOrder p op) :
    (t.step p op).Decided p := by
  rcases h with ⟨hnone, hlinger, hendless⟩ | ⟨hne, hlinger, heof⟩ | ⟨hsome, hstop⟩
  · exact decided_first_stage hnone hlinger hendless op hop
  · exact decided_second_stage hne hlinger heof op hop
  · -- The decision is made once.
    refine Or.inr (Or.inr ⟨by simp only [step, hsome], ?_⟩)
    cases op with
    | segmentReceived seg => exact (segmentReceived_frame t.conn seg).2.2.2.2 hstop
    | tick ms => exact (tick_frame t.conn ms).2.2.2.2.trans hstop
    | connect | write | endInputStream | read | takeSegment => exact hstop

/-- A connection stops lingering exactly if its inbound stream ended while its outbound stream
was open; otherwise it is active until ten timeouts after the last segment, unless reset. -/
theorem lingers_iff_closed_first (p : PeerStream) (cfg : TcpConfig)
    (hcap : 1 ≤ cfg.recvCapacity) (random : UInt32) (ops : List Op)
    (hops : Along (step p) (FinInOrder p) (new cfg random) ops) :
    let t := run (step p) (new cfg random) ops
    (t.conn.lingerAfterStreamsFinish = false ↔ t.endedOpen = some true) ∧
      (t.endedOpen ≠ some true → ¬t.conn.Reset →
        t.conn.timeSinceLastSegmentReceived < 10 * t.conn.cfg.rtTimeout.toNat →
        t.conn.active = true) := by
  intro t
  have h : t.Decided p := by
    refine run_invariant (I := Decided p) (fun _ op ht hop ↦ decided_step ht op hop) ?_ hops
    exact Or.inl ⟨rfl, rfl, TcpReceiver.endless_new p hcap⟩
  have hiff : t.conn.lingerAfterStreamsFinish = false ↔ t.endedOpen = some true := by
    rcases h with ⟨hnone, hlinger, -⟩ | ⟨hne, hlinger, -⟩ | ⟨hsome, hstop⟩
    · simp [hnone, hlinger]
    · simp [hne, hlinger]
    · simp [hsome, hstop]
  refine ⟨hiff, fun hne hreset htime ↦ ?_⟩
  by_contra hactive
  rw [Bool.not_eq_true, active_eq_false_iff] at hactive
  rcases hactive.resolve_left hreset with ⟨-, hstop | hlong⟩
  · exact hne (hiff.mp hstop)
  · omega

/-- The own stream ends first, and the FIN of the peer arrives twice. -/
def activeCloseTwice : List Op :=
  [.connect,
    .segmentReceived { header :=
      { seqno := ⟨20⟩, syn := true, ack := true, ackno := ⟨8⟩, win := 10 } },
    .endInputStream,
    .segmentReceived { header :=
      { seqno := ⟨21⟩, fin := true, ack := true, ackno := ⟨9⟩, win := 10 } },
    .tick 9000,
    .segmentReceived { header :=
      { seqno := ⟨21⟩, fin := true, ack := true, ackno := ⟨9⟩, win := 10 } },
    .tick 9000]

/-- The bytes `ab` arrive out of order, then `c` with the FIN finds the own stream open. -/
def passiveCloseOfAbc : List Op :=
  [.connect,
    .segmentReceived { header :=
      { seqno := ⟨20⟩, syn := true, ack := true, ackno := ⟨8⟩, win := 10 } },
    .segmentReceived { header :=
      { seqno := ⟨22⟩, ack := true, ackno := ⟨8⟩, win := 10 }, payload := [98] },
    .segmentReceived { header :=
      { seqno := ⟨21⟩, ack := true, ackno := ⟨8⟩, win := 10 }, payload := [97] },
    .segmentReceived { header :=
      { seqno := ⟨23⟩, fin := true, ack := true, ackno := ⟨8⟩, win := 10 }, payload := [99] }]

/-- The side that ends its stream first lingers, and the other one does not. -/
theorem lingers_after_active_close :
    let start := new { recvCapacity := 4, sendCapacity := 4, fixedIsn := some ⟨7⟩ } 0
    let t := run (step ⟨⟨20⟩, [], by decide⟩) start activeCloseTwice
    let t' := run (step ⟨⟨20⟩, [97, 98, 99], by decide⟩) start passiveCloseOfAbc
    t.endedOpen = some false ∧ t.conn.active = true ∧
      t'.endedOpen = some true ∧ t'.conn.lingerAfterStreamsFinish = false :=
  ⟨by decide +kernel,
    (lingers_iff_closed_first ⟨⟨20⟩, [], by decide⟩
      { recvCapacity := 4, sendCapacity := 4, fixedIsn := some ⟨7⟩ } (by decide) 0
      activeCloseTwice (by decide +kernel)).2
      (by decide +kernel) (by decide +kernel) (by decide +kernel),
    by decide +kernel,
    (lingers_iff_closed_first ⟨⟨20⟩, [97, 98, 99], by decide⟩
      { recvCapacity := 4, sendCapacity := 4, fixedIsn := some ⟨7⟩ } (by decide) 0
      passiveCloseOfAbc (by decide +kernel)).1.mpr (by decide +kernel)⟩

/-- A FIN that arrives before a byte in front of it stops the lingering, although the outbound
stream ends before the inbound one does; the connection is then closed at once. A SYN with a FIN
to a listening connection does not stop it, although the outbound stream is open. -/
theorem fin_decides_out_of_order :
    let start := new { recvCapacity := 4, sendCapacity := 4, fixedIsn := some ⟨7⟩ } 0
    let early := run (step ⟨⟨20⟩, [97, 98], by decide⟩) start
      [.connect,
        .segmentReceived { header :=
          { seqno := ⟨20⟩, syn := true, ack := true, ackno := ⟨8⟩, win := 10 } },
        .segmentReceived { header :=
          { seqno := ⟨22⟩, fin := true, ack := true, ackno := ⟨8⟩, win := 10 }, payload := [98] },
        .endInputStream,
        .segmentReceived { header :=
          { seqno := ⟨21⟩, ack := true, ackno := ⟨9⟩, win := 10 }, payload := [97] },
        .read 2]
    let listened := run (step ⟨⟨20⟩, [], by decide⟩) start
      [.segmentReceived { header := { seqno := ⟨20⟩, syn := true, fin := true } }]
    early.endedOpen = some false ∧ early.conn.lingerAfterStreamsFinish = false ∧
      early.conn.active = false ∧ listened.endedOpen = some true ∧
      listened.conn.lingerAfterStreamsFinish = true := by
  decide +kernel

end Lingering

end Sponge
