import Sponge.Connection.Accounts
import Sponge.Connection.Owner
import Sponge.Network.Delivery
import Sponge.Receiver.StraySegment
import Sponge.Sender.FullWindow

/-!
# When a transfer is complete

A sender that has nothing in flight has nothing left to send, since even a closed
window is probed. So when nothing is in flight the peer has got everything. A
transfer that fits into the ring of the receiver never crosses the end of the
ring, so that the peer gets nothing but the bytes of the sender.
-/

namespace Sponge

open Lib

namespace TcpSender

variable {s s' : TcpSender} {d : List UInt8}

/-- Once the SYN was sent, nothing is left to send when nothing is in flight. -/
def Rests (s : TcpSender) : Prop := s.nextSeqno ≠ 0 → s.bytesFlying = 0 → ¬s.HasMore

theorem Rests.of_sameBytes (h : s.Rests) (hnext : s'.nextSeqno = s.nextSeqno)
    (hflying : s'.bytesFlying = s.bytesFlying) (hfin : s'.finSent = s.finSent)
    (hstream : s'.stream.SameBytes s.stream) : s'.Rests := by
  rw [Rests, hnext, hflying, HasMore, hfin, ByteStream.bufferSize, hstream.deq,
    ByteStream.eof_iff, hstream.deq, hstream.ended, ← ByteStream.eof_iff]
  exact h

theorem rests_fillWindow (h : s.nextSeqno = 0 → s.bytesFlying = 0) : s.fillWindow.Rests := by
  intro _ hflying hmore
  by_cases hzero : s.nextSeqno = 0
  · have hsyn : s.fillWindow.bytesFlying = add64 s.bytesFlying 1 := by
      rw [fillWindow, if_pos hzero]
      rfl
    rw [hsyn, h hzero] at hflying
    exact absurd hflying (by decide)
  · refine not_hasRoom_and_hasMore_fillWindow hzero ⟨?_, hmore⟩
    rw [HasRoom, hflying]
    omega

/-- The window is not filled if the FIN was sent, if it has no room, or if nothing new was
acknowledged. -/
theorem Rests.ackReceived (h : s.Rests) (hs : s.Sending d) (hnext : s.nextSeqno ≠ 0)
    (ackno : WrappingInt32) (w : UInt16) : (s.ackReceived ackno w).Rests := by
  simp only [TcpSender.ackReceived]
  split_ifs with huseless hfill
  · exact h.of_sameBytes rfl rfl rfl ⟨rfl, rfl, rfl⟩
  · exact rests_fillWindow fun hzero ↦ absurd hzero hnext
  · intro _ hflying hmore
    have hfin : s.finSent = true := by
      by_contra hnot
      refine hfill ⟨?_, Bool.not_eq_true _ ▸ hnot⟩
      omega
    obtain ⟨first, htrans⟩ := hs.transmits
    rcases hmore with hbuf | ⟨-, hnot⟩
    · have hempty : 0 < s.stream.deq.length := hbuf
      rw [(htrans.finSent hfin).2] at hempty
      exact absurd hempty (Nat.lt_irrefl 0)
    · exact absurd (hfin.symm.trans hnot) Bool.true_eq_false_eq_False

theorem Rests.tick (h : s.Rests) (ms : ℕ) : (s.tick ms).Rests := by
  obtain ⟨out, times, time, consec, rto, heq, -, -⟩ := exists_tick s ms
  rw [heq]
  exact h.of_sameBytes rfl rfl rfl ⟨rfl, rfl, rfl⟩

theorem Sending.bytesFlying_of_unsent (h : s.Sending d) (hzero : s.nextSeqno = 0) :
    s.bytesFlying = 0 := by
  rcases h.aligned with hun | ⟨start, hal⟩
  · exact hun.bytesFlying
  · exact absurd hzero hal.nextSeqno_ne_zero

end TcpSender

/-- A substring that ends before the ring was filled once does not cross the end of the ring. -/
theorem StreamReassembler.storesCleanly_of_fits {r : StreamReassembler} (hw : r.Wf)
    {data : List UInt8} {index : ℕ} (hfits : index + data.length ≤ r.capacity) :
    r.StoresCleanly data index := by
  intro hstraddles
  have hslot := Nat.mod_lt (r.startCopy index) hw.capacity_pos
  have hend : r.endCopy data index ≤ r.capacity := (min_le_right _ _).trans hfits
  rw [Straddles] at hstraddles
  rcases lt_or_ge (r.startCopy index) r.capacity with hlt | hge
  · rw [Nat.mod_eq_of_lt hlt] at hstraddles
    omega
  · omega

namespace TcpReceiver

theorem ring_segmentReceived (r : TcpReceiver) (seg : TcpSegment) :
    (r.segmentReceived seg).reassembler.capacity = r.reassembler.capacity := by
  by_cases hsyn : r.syn = true ∨ seg.header.syn = true
  · rw [segmentReceived_eq hsyn]
    exact r.reassembler.capacity_pushSubstring _ _ _
  · rw [segmentReceived_of_unsynced hsyn]

end TcpReceiver

namespace TcpConnection

theorem ring_of_sends {c c' : TcpConnection} {s : TcpSender} {r : TcpReceiver}
    (hsends : Sends c c' s r) : c'.receiver.reassembler.capacity = r.reassembler.capacity := by
  rcases hsends.receiver with heq | heq <;> rw [heq]
  rfl

/-- The ring of the receiver keeps its size. -/
theorem ring_step (c : TcpConnection) (op : Op) :
    (c.step op).receiver.reassembler.capacity = c.receiver.reassembler.capacity := by
  cases op with
  | connect => exact ring_of_sends c.sends_connect
  | write data => exact ring_of_sends (c.sends_write data)
  | endInputStream => exact ring_of_sends c.sends_endInputStream
  | tick ms => exact ring_of_sends (c.sends_tick ms)
  | read len => rfl
  | takeSegment => rfl
  | segmentReceived seg =>
      obtain ⟨s, -, hsends⟩ := c.exists_sends_segmentReceived seg
      refine (ring_of_sends hsends).trans ?_
      rw [passed]
      split_ifs
      · exact c.receiver.ring_segmentReceived seg
      · rfl

end TcpConnection

namespace Endpoint

variable {x y : Endpoint} {op : TcpConnection.Op} {s : TcpSender} {r : TcpReceiver}

theorem length_accepted_le_step (x : Endpoint) (op : TcpConnection.Op) :
    x.accepted.length ≤ (x.step op).accepted.length := by
  cases op with
  | write data => exact (List.prefix_append _ _).length_le
  | _ => exact le_refl _

/-- Nothing is accepted after the end of the input. -/
theorem accepted_step_of_ended (hended : x.conn.sender.stream.ended = true)
    (hop : x.Permits y op) : (x.step op).accepted = x.accepted := by
  cases op with
  | write data => exact absurd (hended.symm.trans hop) Bool.true_eq_false_eq_False
  | _ => rfl

theorem rests_of_sends {c c' : TcpConnection} (hsends : TcpConnection.Sends c c' s r)
    (h : s.Rests) : c'.sender.Rests := by
  obtain ⟨stream, hstream, heq⟩ := hsends.exists_sender
  rw [heq]
  exact h.of_sameBytes rfl rfl rfl hstream

namespace Direction

theorem rests_step (h : Direction x y) (hrests : x.conn.sender.Rests) (hop : x.Permits y op) :
    (x.step op).conn.sender.Rests := by
  have hsending := h.link.sending
  have hunsent := hsending.bytesFlying_of_unsent
  cases op with
  | connect => exact rests_of_sends x.conn.sends_connect (TcpSender.rests_fillWindow hunsent)
  | write data =>
      exact rests_of_sends (x.conn.sends_write data) (TcpSender.rests_fillWindow hunsent)
  | endInputStream =>
      exact rests_of_sends x.conn.sends_endInputStream (TcpSender.rests_fillWindow hunsent)
  | tick ms => exact rests_of_sends (x.conn.sends_tick ms) (hrests.tick ms)
  | read len => exact hrests
  | takeSegment => exact hrests
  | segmentReceived seg =>
      have hrelayed : (x.conn.relayed seg).Rests := by
        rw [TcpConnection.relayed]
        split_ifs with hack
        · obtain ⟨hsyn, -⟩ := h.acks seg (List.mem_append_right _ hop) hack
          exact hrests.ackReceived hsending (h.link.opened hsyn) _ _
        · exact hrests
      obtain ⟨s, hs, hsends⟩ := x.conn.exists_sends_segmentReceived seg
      refine rests_of_sends hsends ?_
      rcases hs with rfl | rfl | rfl
      · exact hrelayed
      · exact TcpSender.rests_fillWindow (h.relayed hop).1.sending.bytesFlying_of_unsent
      · exact hrelayed.of_sameBytes rfl rfl rfl ⟨rfl, rfl, rfl⟩

/-- When nothing is in flight, `y` has written all bytes that `x` has accepted, and it has got the
FIN if the input of `x` was ended. -/
theorem complete (h : Direction x y) (hrests : x.conn.sender.Rests)
    (hnext : x.conn.sender.nextSeqno ≠ 0) (hflying : x.conn.sender.bytesFlying = 0) :
    y.bytesWritten = x.accepted.length ∧
      (x.conn.sender.stream.ended = true → y.finArrived = true) := by
  obtain ⟨first, htrans⟩ := h.link.sending.transmits
  obtain ⟨hbuf, hfin⟩ := not_or.mp (hrests hnext hflying)
  have hempty : x.conn.sender.stream.deq = [] :=
    List.eq_nil_of_length_eq_zero (Nat.eq_zero_of_not_pos hbuf)
  have hlen := htrans.length_eq
  rw [hempty, List.length_nil] at hlen
  have hle : y.bytesWritten ≤ _ := h.link.bytesWritten_le
  have hack := h.ackAbs_le
  have hcount := htrans.counts.of_ne_zero hnext
  have hacked : x.conn.sender.ackAbs = x.conn.sender.nextSeqno := by
    rcases h.link.sending.aligned with hun | ⟨start, hal⟩
    · exact absurd hun.nextSeqno hnext
    · have hflight := hal.bytesFlying
      have hbound := hal.ackAbs_le
      omega
  rw [position] at hack
  refine ⟨by split_ifs at hack hcount <;> omega, fun hended ↦ ?_⟩
  have hsent : x.conn.sender.finSent = true := by
    by_contra hnot
    exact hfin ⟨(ByteStream.eof_iff _).mpr ⟨hempty, hended⟩, Bool.not_eq_true _ ▸ hnot⟩
  rw [if_pos hsent] at hcount
  split_ifs at hack with hsyn harrived
  · exact harrived.1
  all_goals omega

theorem bytesWritten_of_sends (hsends : TcpConnection.Sends y.conn (y.step op).conn s r) :
    (y.step op).bytesWritten = r.streamOut.bytesWritten := by
  rw [bytesWritten, TcpConnection.inboundStream]
  rcases hsends.receiver with heq | heq <;> rw [heq]
  rfl

theorem bytesWritten_le_step (h : Direction x y) (hop : y.Permits x op) :
    y.bytesWritten ≤ (y.step op).bytesWritten := by
  cases op with
  | connect => exact (bytesWritten_of_sends y.conn.sends_connect).ge
  | write data => exact (bytesWritten_of_sends (y.conn.sends_write data)).ge
  | endInputStream => exact (bytesWritten_of_sends y.conn.sends_endInputStream).ge
  | tick ms => exact (bytesWritten_of_sends (y.conn.sends_tick ms)).ge
  | read len => exact le_refl _
  | takeSegment => exact le_refl _
  | segmentReceived seg =>
      obtain ⟨s, -, hsends⟩ := y.conn.exists_sends_segmentReceived seg
      exact (h.passed hop).2.trans (bytesWritten_of_sends hsends).ge

/-- A segment of a transfer that fits into the ring does not cross its end. -/
theorem cleanArrival_of_fits (h : Direction x y) {seg : TcpSegment} (hseg : seg ∈ x.sent)
    (hfits : x.accepted.length ≤ y.conn.receiver.reassembler.capacity) :
    y.CleanArrival (.segmentReceived seg) := by
  have hwf := h.link.tracks.wf
  by_cases hnil : seg.payload = []
  · rw [CleanArrival, hnil]
    exact StreamReassembler.storesCleanly_nil hwf _
  · have hpos : seg.lengthInSequenceSpace ≠ 0 := by
      have hlen := List.length_pos_of_ne_nil hnil
      rw [TcpSegment.lengthInSequenceSpace]
      omega
    obtain ⟨q, hcut, hend⟩ := (h.sent seg (List.mem_append_right _ hseg)).resolve_left hpos
    rw [CleanArrival, h.link.startPayload_eq hcut hend hpos (Or.inl hnil)]
    exact StreamReassembler.storesCleanly_of_fits hwf (hcut.placed.bound.trans hfits)

end Direction

end Endpoint

namespace Network

variable {n : Network} {event : Event}

theorem length_accepted_le_step (n : Network) (event : Event) :
    n.a.accepted.length ≤ (n.step event).a.accepted.length := by
  cases event with
  | atA op => exact n.a.length_accepted_le_step op
  | atB op => exact le_refl _

/-- What is known of the direction from `a` to `b`. -/
structure Settled (n : Network) : Prop where
  direction : n.a.Direction n.b
  rests : n.a.conn.sender.Rests
  accounted : n.a.conn.Accounted
  short : n.a.conn.Short

theorem settled_new (cfgA cfgB : TcpConfig) (randomA randomB : UInt32)
    (hcap : 1 ≤ cfgB.recvCapacity) : (new cfgA cfgB randomA randomB).Settled where
  direction := Endpoint.direction_new cfgA cfgB randomA randomB hcap
  rests := fun h ↦ absurd rfl h
  accounted := TcpConnection.accounted_new cfgA randomA
  short := TcpConnection.short_new cfgA randomA

theorem Settled.step (h : n.Settled) (hevent : n.Allowed event) : (n.step event).Settled := by
  have hdir := direction_step h.direction hevent
  cases event with
  | atA op =>
      exact ⟨hdir, h.direction.rests_step h.rests hevent.1, h.accounted.step op, h.short.step op⟩
  | atB op => exact ⟨hdir, h.rests, h.accounted, h.short⟩

/-- The input of `a` has ended, and all of it is written at `b`. -/
def Complete (n : Network) : Prop :=
  n.a.conn.sender.stream.ended = true ∧ n.b.bytesWritten = n.a.accepted.length

/-- With the input ended and nothing in flight the transfer is complete. -/
theorem Settled.complete (h : n.Settled) (hended : n.a.conn.sender.stream.ended = true)
    (hflying : n.a.conn.sender.bytesFlying = 0) : n.Complete := by
  have hnext : n.a.conn.sender.nextSeqno ≠ 0 := fun hzero ↦
    absurd (hended.symm.trans (h.accounted.ended hzero)) Bool.true_eq_false_eq_False
  exact ⟨hended, (h.direction.complete h.rests hnext hflying).1⟩

theorem Complete.step (h : n.Complete) (hsettled : n.Settled) (hevent : n.Allowed event) :
    (n.step event).Complete := by
  obtain ⟨hended, hall⟩ := h
  obtain ⟨hop, hvolume⟩ := hevent
  cases event with
  | atA op =>
      have hended' : (n.a.step op).conn.sender.stream.ended = true := by
        by_cases hend : op = .endInputStream
        · rw [hend]
          exact hsettled.short.ended_endInputStream
        · exact (hsettled.short.ended_step hend).trans hended
      have haccepted := Endpoint.accepted_step_of_ended hended hop
      exact ⟨hended', hall.trans (congrArg List.length haccepted).symm⟩
  | atB op =>
      have hlink := (hsettled.direction.receiver_step hop).link
      refine ⟨hended, le_antisymm ?_ ?_⟩
      · exact hlink.bytesWritten_le.trans hlink.sending.bytesReaded_le
      · exact hall.ge.trans (hsettled.direction.bytesWritten_le_step hop)

/-- What is carried is all that was accepted once it is written. -/
theorem Settled.delivered_eq (h : n.Settled) (hbrings : n.a.Brings n.b)
    (hall : n.b.bytesWritten = n.a.accepted.length) : n.b.delivered = n.a.accepted := by
  have hstart := h.direction.link.tracks.bytesWritten_eq.symm.trans hall
  exact hbrings.delivered.trans (by rw [hstart, List.take_length])

/-- In a transfer that fits into the ring of `b`, nothing but the bytes accepted arrives. -/
theorem brings_of_fits (cfgA cfgB : TcpConfig) (randomA randomB : UInt32)
    (hcap : 1 ≤ cfgB.recvCapacity) {events : List Event}
    (hevents : Along step Allowed (new cfgA cfgB randomA randomB) events)
    (hfits : (run step (new cfgA cfgB randomA randomB) events).a.accepted.length ≤
      cfgB.recvCapacity) :
    let n := run step (new cfgA cfgB randomA randomB) events
    n.a.Brings n.b := by
  intro n
  have hbounded := (along_and_le length_accepted_le_step hevents).2
  have h := run_invariant (I := fun n : Network ↦ n.a.Direction n.b ∧ n.a.Brings n.b ∧
    n.b.conn.receiver.reassembler.capacity = cfgB.recvCapacity) ?_ ?_ hbounded
  · exact h.2.1
  · rintro n event ⟨hdir, hbrings, hring⟩ ⟨hevent, hle⟩
    refine ⟨direction_step hdir hevent, brings_step hdir hbrings ⟨hevent, ?_⟩, ?_⟩
    · cases event with
      | atA op => trivial
      | atB op =>
          cases op with
          | segmentReceived seg =>
              exact hdir.cleanArrival_of_fits hevent.1 (hring ▸ hle.trans hfits)
          | _ => trivial
    · cases event with
      | atA op => exact hring
      | atB op => exact (n.b.conn.ring_step op).trans hring
  · exact ⟨Endpoint.direction_new cfgA cfgB randomA randomB hcap,
      Endpoint.brings_new cfgA cfgB randomA randomB, rfl⟩

/-- When nothing is in flight at `a`, as many bytes are written at `b` as `a` has accepted, and the
FIN arrived if the input of `a` has ended. The bytes written are those accepted if all segments
arrived cleanly or the transfer fits into the ring. -/
theorem nothing_in_flight (cfgA cfgB : TcpConfig) (randomA randomB : UInt32)
    (hcap : 1 ≤ cfgB.recvCapacity) (events : List Event)
    (hevents : Along step Allowed (new cfgA cfgB randomA randomB) events) :
    let n := run step (new cfgA cfgB randomA randomB) events
    n.a.conn.sender.nextSeqnoAbsolute ≠ 0 → n.a.conn.bytesInFlight = 0 →
      n.b.bytesWritten = n.a.accepted.length ∧
        (n.a.conn.sender.streamIn.inputEnded = true → n.b.finArrived = true) ∧
        (Along step CleanlyAllowed (new cfgA cfgB randomA randomB) events ∨
          n.a.accepted.length ≤ cfgB.recvCapacity → n.b.delivered = n.a.accepted) := by
  intro n hsent hflight
  have h : n.Settled := run_invariant (fun _ _ h hevent ↦ h.step hevent)
    (settled_new cfgA cfgB randomA randomB hcap) hevents
  obtain ⟨hall, hfin⟩ := h.direction.complete h.rests hsent hflight
  refine ⟨hall, hfin, fun hcase ↦ ?_⟩
  rcases hcase with hclean | hfits
  · exact h.delivered_eq (brings_of_clean cfgA cfgB randomA randomB hcap hclean) hall
  · exact h.delivered_eq (brings_of_fits cfgA cfgB randomA randomB hcap hevents hfits) hall

/-- Two bytes are written, the second after the first is acknowledged. -/
theorem nothing_in_flight_two_bytes :
    let n := run step
      (new { recvCapacity := 4, sendCapacity := 4, fixedIsn := some ⟨10⟩ }
        { recvCapacity := 1, sendCapacity := 4, fixedIsn := some ⟨20⟩ } 0 0)
      [.atA .connect, .atA .takeSegment,
        .atB (.segmentReceived { header := { seqno := ⟨10⟩, syn := true } }), .atB .takeSegment,
        .atA (.segmentReceived { header :=
          { seqno := ⟨20⟩, syn := true, ack := true, ackno := ⟨11⟩, win := 1 } }),
        .atA (.write [97]), .atA .takeSegment, .atA .takeSegment,
        .atB (.segmentReceived
          { header := { seqno := ⟨11⟩, ack := true, ackno := ⟨21⟩, win := 4 }, payload := [97] }),
        .atB .takeSegment, .atB (.read 1),
        .atA (.segmentReceived { header :=
          { seqno := ⟨21⟩, ack := true, ackno := ⟨12⟩ } }),
        .atA (.write [98]), .atA .takeSegment,
        .atB (.segmentReceived
          { header := { seqno := ⟨12⟩, ack := true, ackno := ⟨21⟩, win := 4 }, payload := [98] }),
        .atB .takeSegment,
        .atA (.segmentReceived { header :=
          { seqno := ⟨21⟩, ack := true, ackno := ⟨13⟩ } })]
    n.a.accepted = [97, 98] ∧ n.b.delivered = n.a.accepted :=
  ⟨by decide +kernel,
    (nothing_in_flight { recvCapacity := 4, sendCapacity := 4, fixedIsn := some ⟨10⟩ }
      { recvCapacity := 1, sendCapacity := 4, fixedIsn := some ⟨20⟩ } 0 0 (by decide) _
      (by decide +kernel) (by decide +kernel) (by decide +kernel)).2.2
      (Or.inl (by decide +kernel))⟩

end Network

end Sponge
