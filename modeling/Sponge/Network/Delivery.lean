import Sponge.Network.Position

/-!
# The bytes that arrive

The reader at one end gets a prefix of what was accepted at the other, as long
as no segment is delivered that crosses the end of the ring while it sticks out
of the window. The network alone does not ensure this: an old acknowledgment
that is delivered again opens the window of the sender, and a retransmission
then sticks out of the window of the receiver.
-/

namespace Sponge

open Lib

namespace StreamReassembler

variable {r : StreamReassembler} {d taken : List UInt8}

theorem storesCleanly_nil (hw : r.Wf) (index : ℕ) : r.StoresCleanly [] index := by
  intro hstraddles
  have hslot := Nat.mod_lt (r.startCopy index) hw.capacity_pos
  simp only [Straddles, startCopy, endCopy, List.length_nil] at hstraddles hslot
  omega

theorem Carries.setError (h : r.Carries d taken) :
    ({ r with output := r.output.setError } : StreamReassembler).Carries d taken :=
  ⟨h.length_aux, h.startAux_le, h.held_lt, h.cell, h.delivered⟩

end StreamReassembler

/-- A clean segment that arrives brings its own bytes. -/
theorem Link.carries {s : TcpSender} {d taken : List UInt8} {r : TcpReceiver} {syn fin : Bool}
    {seg : TcpSegment} {q : ℕ} (h : Link s d r syn fin)
    (hcut : TcpSender.Cut s.isn d s.stream.ended q seg)
    (hend : q + seg.lengthInSequenceSpace ≤ s.nextSeqno)
    (hpos : seg.lengthInSequenceSpace ≠ 0) (hcarries : r.reassembler.Carries d taken)
    (hclean : r.reassembler.StoresCleanly seg.payload (r.startPayload seg.header)) :
    (r.segmentReceived seg).reassembler.Carries d taken := by
  obtain ⟨m, hm⟩ := h.exists_processed hcut hend hpos
  have hplaced := hcut.placed
  have hclean' : r.reassembler.StoresCleanly seg.payload (q - 1) := by
    by_cases hnil : seg.payload = []
    · rw [hnil]
      exact StreamReassembler.storesCleanly_nil h.tracks.wf _
    · rw [← h.startPayload_eq hcut hend hpos (Or.inl hnil)]
      exact hclean
  refine hm.pushed.carries h.tracks.wf hcarries hclean' (Or.inl hplaced.bound) fun j hj ↦ ?_
  cases Nat.eq_zero_or_pos q with
  | inl hzero => simp [(hcut.syn hzero).1] at hj
  | inr hone =>
      have hpayload := congrArg (·[j]?) (hcut.payload hone)
      simp only [getElem?_substr, if_pos hj] at hpayload
      exact hpayload

namespace Endpoint

variable {x y : Endpoint} {op : TcpConnection.Op}

/-- The payload of a segment that arrives crosses the end of the ring only if it lies wholly in
the window. -/
def CleanArrival (y : Endpoint) : TcpConnection.Op → Prop
  | .segmentReceived seg =>
    y.conn.receiver.reassembler.StoresCleanly seg.payload (y.conn.receiver.startPayload seg.header)
  | _ => True

instance (y : Endpoint) : (op : TcpConnection.Op) → Decidable (y.CleanArrival op)
  | .segmentReceived seg =>
    inferInstanceAs (Decidable (y.conn.receiver.reassembler.StoresCleanly seg.payload
      (y.conn.receiver.startPayload seg.header)))
  | .connect | .write _ | .endInputStream | .tick _ | .read _ | .takeSegment =>
    inferInstanceAs (Decidable True)

/-- The receiver of `y` carries the bytes accepted by `x`. -/
def Brings (x y : Endpoint) : Prop :=
  y.conn.receiver.reassembler.Carries x.accepted y.taken

theorem Brings.sender_step (h : Brings x y) (op : TcpConnection.Op) : Brings (x.step op) y := by
  cases op with
  | write data => exact h.append _
  | _ => exact h

theorem carries_of_sends {c c' : TcpConnection} {s : TcpSender} {r : TcpReceiver}
    {d taken : List UInt8} (h : TcpConnection.Sends c c' s r)
    (hr : r.reassembler.Carries d taken) : c'.receiver.reassembler.Carries d taken := by
  rcases h.receiver with heq | heq <;> rw [heq]
  · exact hr
  · exact hr.setError

theorem Brings.receiver_step (h : Brings x y) (hdir : Direction x y) (hop : y.Permits x op)
    (hclean : y.CleanArrival op) : Brings x (y.step op) := by
  cases op with
  | connect => exact carries_of_sends (TcpConnection.sends_connect y.conn) h
  | write data => exact carries_of_sends (TcpConnection.sends_write y.conn data) h
  | endInputStream => exact carries_of_sends (TcpConnection.sends_endInputStream y.conn) h
  | tick ms => exact carries_of_sends (TcpConnection.sends_tick y.conn ms) h
  | read len => exact StreamReassembler.Carries.readOutput h len
  | takeSegment => exact h
  | segmentReceived seg =>
      obtain ⟨s, -, hsends⟩ := TcpConnection.exists_sends_segmentReceived y.conn seg
      refine carries_of_sends hsends ?_
      rw [TcpConnection.passed]
      split_ifs with hpos
      · rcases hdir.sent seg (List.mem_append_right _ hop) with hempty | ⟨q, hcut, hend⟩
        · exact absurd hempty hpos
        · exact hdir.link.carries hcut hend hpos h hclean
      · exact h

theorem brings_new (cfgX cfgY : TcpConfig) (randomX randomY : UInt32) :
    Brings (new cfgX randomX) (new cfgY randomY) :=
  StreamReassembler.carries_new _ _

theorem Brings.isPrefix_accepted (h : Brings x y) : y.delivered <+: x.accepted := by
  have heq : y.delivered = x.accepted.take _ := h.delivered
  rw [heq]
  exact List.take_prefix _ _

end Endpoint

namespace Network

variable {n : Network} {event : Event}

/-- The event is allowed, and a segment delivered to `b` is clean. -/
def CleanlyAllowed (n : Network) (event : Event) : Prop :=
  n.Allowed event ∧
    match event with
    | .atA _ => True
    | .atB op => n.b.CleanArrival op

instance (n : Network) : (event : Event) → Decidable (n.CleanlyAllowed event)
  | .atA op => inferInstanceAs (Decidable (n.Allowed (.atA op) ∧ True))
  | .atB op => inferInstanceAs (Decidable (n.Allowed (.atB op) ∧ n.b.CleanArrival op))

theorem brings_step (hdir : n.a.Direction n.b) (h : n.a.Brings n.b)
    (hevent : n.CleanlyAllowed event) : (n.step event).a.Brings (n.step event).b := by
  obtain ⟨⟨hop, -⟩, hclean⟩ := hevent
  cases event with
  | atA op => exact h.sender_step op
  | atB op => exact h.receiver_step hdir hop hclean

/-- Clean arrivals bring nothing but the bytes accepted. -/
theorem brings_of_clean (cfgA cfgB : TcpConfig) (randomA randomB : UInt32)
    (hcap : 1 ≤ cfgB.recvCapacity) {events : List Event}
    (hevents : Along step CleanlyAllowed (new cfgA cfgB randomA randomB) events) :
    let n := run step (new cfgA cfgB randomA randomB) events
    n.a.Brings n.b := by
  intro n
  have h : n.a.Direction n.b ∧ n.a.Brings n.b := by
    refine run_invariant (I := fun n : Network ↦ n.a.Direction n.b ∧ n.a.Brings n.b) ?_ ?_
      hevents
    · rintro n event ⟨hdir, hbrings⟩ hevent
      exact ⟨direction_step hdir hevent.1, brings_step hdir hbrings hevent⟩
    · exact ⟨Endpoint.direction_new cfgA cfgB randomA randomB hcap,
        Endpoint.brings_new cfgA cfgB randomA randomB⟩
  exact h.2

/-- As long as every segment delivered to `b` is clean, the bytes read at `b` followed by those
still buffered there are a prefix of the bytes accepted at `a`, in every state reached. -/
theorem delivered_prefix_accepted (cfgA cfgB : TcpConfig) (randomA randomB : UInt32)
    (hcap : 1 ≤ cfgB.recvCapacity) (events : List Event)
    (hevents : Along step CleanlyAllowed (new cfgA cfgB randomA randomB) events) :
    let n := run step (new cfgA cfgB randomA randomB) events
    n.b.delivered <+: n.a.accepted := by
  intro n
  exact (brings_of_clean cfgA cfgB randomA randomB hcap hevents).isPrefix_accepted

/-- The bytes `ab` are written at one end and read at the other. -/
theorem delivered_prefix_accepted_ab :
    let n := run step
      (new { recvCapacity := 4, sendCapacity := 4, fixedIsn := some ⟨10⟩ }
        { recvCapacity := 3, sendCapacity := 4, fixedIsn := some ⟨20⟩ } 0 0)
      [.atA .connect, .atA .takeSegment,
        .atB (.segmentReceived { header := { seqno := ⟨10⟩, syn := true } }), .atB .takeSegment,
        .atA (.segmentReceived { header :=
          { seqno := ⟨20⟩, syn := true, ack := true, ackno := ⟨11⟩, win := 3 } }),
        .atA (.write [97, 98]), .atA .takeSegment, .atA .takeSegment,
        .atB (.segmentReceived
          { header := { seqno := ⟨11⟩, ack := true, ackno := ⟨21⟩, win := 4 },
            payload := [97, 98] }),
        .atB (.read 1)]
    n.b.delivered = [97, 98] ∧ n.b.delivered <+: n.a.accepted :=
  ⟨by decide +kernel,
    delivered_prefix_accepted { recvCapacity := 4, sendCapacity := 4, fixedIsn := some ⟨10⟩ }
      { recvCapacity := 3, sendCapacity := 4, fixedIsn := some ⟨20⟩ } 0 0 (by decide) _
      (by decide +kernel)⟩

/-- The handshake, then `abc` fills the three cells of `b` and is half read. The byte `d`
probes the closed window. After its acknowledgment the first one is delivered again and
opens the window of `a` by three, so that `efg` is sent where `b` has room for one byte. It
is delivered, and once more after a read. -/
def staleAckEvents : List Event :=
  [.atA .connect, .atA .takeSegment,
    .atB (.segmentReceived { header := { seqno := ⟨10⟩, syn := true } }), .atB .takeSegment,
    .atA (.segmentReceived { header :=
      { seqno := ⟨20⟩, syn := true, ack := true, ackno := ⟨11⟩, win := 3 } }),
    .atA .takeSegment,
    .atA (.write [97, 98, 99]), .atA .takeSegment,
    .atB (.segmentReceived
      { header := { seqno := ⟨11⟩, ack := true, ackno := ⟨21⟩, win := 4 },
        payload := [97, 98, 99] }),
    .atB .takeSegment,
    .atA (.segmentReceived { header :=
      { seqno := ⟨21⟩, ack := true, ackno := ⟨14⟩, win := 0 } }),
    .atB (.read 2),
    .atA (.write [100]), .atA .takeSegment,
    .atB (.segmentReceived
      { header := { seqno := ⟨14⟩, ack := true, ackno := ⟨21⟩, win := 4 }, payload := [100] }),
    .atB .takeSegment,
    .atA (.segmentReceived { header :=
      { seqno := ⟨21⟩, ack := true, ackno := ⟨15⟩, win := 1 } }),
    .atA (.segmentReceived { header :=
      { seqno := ⟨20⟩, syn := true, ack := true, ackno := ⟨11⟩, win := 3 } }),
    .atA (.write [101, 102, 103]), .atA .takeSegment, .atA .takeSegment,
    .atB (.segmentReceived
      { header := { seqno := ⟨15⟩, ack := true, ackno := ⟨21⟩, win := 4 },
        payload := [101, 102, 103] }),
    .atB (.read 3),
    .atB (.segmentReceived
      { header := { seqno := ⟨15⟩, ack := true, ackno := ⟨21⟩, win := 4 },
        payload := [101, 102, 103] })]

/-- Every event is allowed, `abcdefg` is accepted, and `abcdeef` is delivered. -/
theorem stale_ack_misdelivers :
    let start := new { recvCapacity := 4, sendCapacity := 8, fixedIsn := some ⟨10⟩ }
      { recvCapacity := 3, sendCapacity := 4, fixedIsn := some ⟨20⟩ } 0 0
    let n := run step start staleAckEvents
    Along step Allowed start staleAckEvents ∧
      n.a.accepted = [97, 98, 99, 100, 101, 102, 103] ∧
      n.b.delivered = [97, 98, 99, 100, 101, 101, 102] ∧ ¬n.b.delivered <+: n.a.accepted := by
  decide +kernel

end Network

end Sponge
