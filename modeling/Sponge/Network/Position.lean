import Sponge.Network.Direction
import Sponge.TcpState

/-!
# Acknowledgments never overtake the peer

Along every run of the two connections the acknowledged number of one is at
most the position of the other, and that is at most the next number. So a
segment leaves the outstanding ones only when all of its bytes are written at
the other end.
-/

namespace Sponge

open Lib

namespace TcpSender

/-- The outstanding segment, paired with the number after its last one, contains the byte at
index `i`, which has number `i + 1`. -/
def ContainsByte (p : TcpSegment × ℕ) (i : ℕ) : Prop :=
  p.2 - p.1.lengthInSequenceSpace ≤ i + 1 ∧
    i + 1 < p.2 - p.1.lengthInSequenceSpace + p.1.payload.length

end TcpSender

namespace Endpoint

variable {x y : Endpoint} {seg : TcpSegment} {op : TcpConnection.Op}

theorem mem_takeSegment {seg : TcpSegment}
    (h : seg ∈ (x.step .takeSegment).conn.segmentsOut ++ (x.step .takeSegment).sent) :
    seg ∈ x.conn.segmentsOut ++ x.sent := by
  simp only [step, TcpConnection.step] at h
  cases hout : x.conn.segmentsOut with
  | nil => simpa [hout] using h
  | cons front rest =>
      simp only [hout, List.tail_cons, List.head?_cons, Option.toList_some, List.mem_append,
        List.mem_cons, List.not_mem_nil, or_false] at h ⊢
      tauto

theorem synArrived_segmentReceived (y : Endpoint) (seg : TcpSegment) :
    (y.step (.segmentReceived seg)).synArrived = (y.synArrived || seg.header.syn) := by
  simp [synArrived, step]

theorem finArrived_segmentReceived (y : Endpoint) (seg : TcpSegment) :
    (y.step (.segmentReceived seg)).finArrived = (y.finArrived || seg.header.fin) := by
  simp [finArrived, step]

namespace Direction

/-- The number read off an acknowledgment on its way back is the one meant. -/
theorem absoluteAckno_le (h : Direction x y) (hseg : seg ∈ y.sent)
    (hack : seg.header.ack = true) :
    x.conn.sender.absoluteAckno seg.header.ackno ≤ position x y := by
  obtain ⟨-, a, hone, hle, hackno⟩ := h.acks seg (List.mem_append_right _ hseg) hack
  have hnext := position_le_nextSeqno h.link
  have hbound := h.link.nextSeqno_le
  have hread := h.link.sending.bytesReaded_le
  have hlen := h.link.length_lt
  have hnear : unwrap (wrap a x.conn.sender.isn) x.conn.sender.isn
      x.conn.sender.stream.bytesReaded = a :=
    unwrap_wrap_of_near _ hone (by omega) (by omega) (by omega)
  rw [TcpSender.absoluteAckno, hackno, ByteStream.bytesRead, hnear]
  exact hle

/-- What the sender of `x` does with the acknowledgment of a segment. -/
theorem relayed (h : Direction x y) (hseg : seg ∈ y.sent) :
    TcpSender.Progress x.conn.sender x.accepted (x.conn.relayed seg) x.accepted ∧
      (y.synArrived = false → (x.conn.relayed seg).Handshaking) ∧
      (x.conn.relayed seg).ackAbs ≤ position x y := by
  rw [TcpConnection.relayed]
  split_ifs with hack
  · obtain ⟨hsyn, -⟩ := h.acks seg (List.mem_append_right _ hseg) hack
    obtain ⟨hprog, hackAbs⟩ := h.link.sending.ackReceived (h.link.opened hsyn)
      seg.header.ackno seg.header.win
    refine ⟨hprog, fun hnot ↦ absurd (hsyn.symm.trans hnot) Bool.true_eq_false_eq_False, ?_⟩
    rcases hackAbs with heq | heq <;> rw [heq]
    · exact h.ackAbs_le
    · exact h.absoluteAckno_le hseg hack
  · exact ⟨h.link.sending.refl, h.link.handshaking, h.ackAbs_le⟩

/-- Whatever happens at `x`, its sender makes progress and acknowledges nothing that `y` has
not got. -/
theorem exists_progress (h : Direction x y) (hop : x.Permits y op) (htake : op ≠ .takeSegment) :
    ∃ s r, TcpConnection.Sends x.conn (x.step op).conn s r ∧
      TcpSender.Progress x.conn.sender x.accepted s (x.step op).accepted ∧
      (y.synArrived = false → s.Handshaking) ∧ s.ackAbs ≤ position x y := by
  have hsending := h.link.sending
  cases op with
  | takeSegment => exact absurd rfl htake
  | connect =>
      refine ⟨_, _, TcpConnection.sends_connect x.conn, hsending.fillWindow, ?_, ?_⟩
      · exact fun hsyn ↦ (h.link.handshaking hsyn).fillWindow hsending
      · rw [hsending.filled.ackAbs]
        exact h.ackAbs_le
  | write data =>
      have hwrite := hsending.write hop data
      refine ⟨_, _, TcpConnection.sends_write x.conn data,
        hwrite.trans hwrite.sending.fillWindow, ?_, ?_⟩
      · exact fun hsyn ↦ (h.link.handshaking hsyn).frame.fillWindow hwrite.sending
      · rw [hwrite.sending.filled.ackAbs]
        exact h.ackAbs_le
  | endInputStream =>
      have hend := hsending.endInput
      refine ⟨_, _, TcpConnection.sends_endInputStream x.conn,
        hend.trans hend.sending.fillWindow, ?_, ?_⟩
      · exact fun hsyn ↦ (h.link.handshaking hsyn).frame.fillWindow hend.sending
      · rw [hend.sending.filled.ackAbs]
        exact h.ackAbs_le
  | tick ms =>
      refine ⟨_, _, TcpConnection.sends_tick x.conn ms, hsending.tick ms, ?_, ?_⟩
      · exact fun hsyn ↦ (h.link.handshaking hsyn).tick ms
      · rw [TcpSender.ackAbs_tick]
        exact h.ackAbs_le
  | read len =>
      exact ⟨_, _, TcpConnection.sends_read h.queue len, hsending.refl, h.link.handshaking,
        h.ackAbs_le⟩
  | segmentReceived seg =>
      obtain ⟨hprog, hhand, hack⟩ := h.relayed hop
      obtain ⟨s, hs, hsends⟩ := TcpConnection.exists_sends_segmentReceived x.conn seg
      refine ⟨s, _, hsends, ?_⟩
      rcases hs with rfl | rfl | rfl
      · exact ⟨hprog, hhand, hack⟩
      · refine ⟨hprog.trans hprog.sending.fillWindow, ?_, ?_⟩
        · exact fun hsyn ↦ (hhand hsyn).fillWindow hprog.sending
        · rw [hprog.sending.filled.ackAbs]
          exact hack
      · exact ⟨hprog.trans hprog.sending.sendEmptySegment, fun hsyn ↦ (hhand hsyn).frame, hack⟩

/-- Nothing is accepted any more once the FIN arrived. -/
theorem accepted_step_eq (h : Direction x y) (hop : x.Permits y op)
    (hfin : y.finArrived = true) : (x.step op).accepted = x.accepted := by
  cases op with
  | write data =>
      have hended := (h.link.sending.bytesReaded_of_finSent (h.link.finSent hfin)).1
      have hopen : x.conn.sender.stream.ended = false := hop
      exact absurd (hended.symm.trans hopen) Bool.true_eq_false_eq_False
  | _ => rfl

theorem sender_step (h : Direction x y) (hop : x.Permits y op)
    (hlen : (x.step op).accepted.length < 2 ^ 30) : Direction (x.step op) y := by
  by_cases htake : op = .takeSegment
  · subst htake
    exact { h with sent := fun seg hseg ↦ h.sent seg (mem_takeSegment hseg) }
  · obtain ⟨s, r, hsends, hprog, hhand, hack⟩ := h.exists_progress hop htake
    refine h.of_sends hsends ?_ hprog hlen (fun hfin ↦ h.accepted_step_eq hop hfin) hhand hack
    cases op with
    | takeSegment => exact absurd rfl htake
    | _ => rfl

/-- What the receiver of `y` does with a segment of `x`. -/
theorem passed (h : Direction x y) (hseg : seg ∈ x.sent) :
    Link x.conn.sender x.accepted (y.conn.passed seg)
        (y.step (.segmentReceived seg)).synArrived (y.step (.segmentReceived seg)).finArrived ∧
      y.bytesWritten ≤ (y.conn.passed seg).streamOut.bytesWritten := by
  rw [synArrived_segmentReceived, finArrived_segmentReceived, TcpConnection.passed]
  split_ifs with hpos
  · rcases h.sent seg (List.mem_append_right _ hseg) with hempty | ⟨q, hcut, hend⟩
    · exact absurd hempty hpos
    · have hlink := h.link.segmentReceived hcut hend hpos
      obtain ⟨m, hm⟩ := h.link.exists_processed hcut hend hpos
      refine ⟨hlink, ?_⟩
      have hstart := hm.pushed.startAux
      have hold : y.bytesWritten = _ := h.link.tracks.bytesWritten_eq
      have hnew := hlink.tracks.bytesWritten_eq
      omega
  · -- Without a number the segment carries neither flag.
    have hflags : seg.header.syn = false ∧ seg.header.fin = false := by
      rw [not_not, TcpSegment.lengthInSequenceSpace] at hpos
      constructor <;> · rw [Bool.eq_false_iff]; rintro hflag; simp [hflag] at hpos
    rw [hflags.1, hflags.2, Bool.or_false, Bool.or_false]
    exact ⟨h.link, le_refl _⟩

theorem receiver_step (h : Direction x y) (hop : y.Permits x op) : Direction x (y.step op) := by
  have hwritten : y.bytesWritten ≤ y.conn.receiver.streamOut.bytesWritten := le_refl _
  cases op with
  | takeSegment =>
      exact { h with acks := fun seg hseg ↦ h.acks seg (mem_takeSegment hseg) }
  | connect =>
      exact h.of_sends_peer (TcpConnection.sends_connect y.conn) rfl h.plain.fillWindow h.link
        id id hwritten
  | write data =>
      exact h.of_sends_peer (TcpConnection.sends_write y.conn data) rfl
        (h.plain.withStream _).fillWindow h.link id id hwritten
  | endInputStream =>
      exact h.of_sends_peer (TcpConnection.sends_endInputStream y.conn) rfl
        (h.plain.withStream _).fillWindow h.link id id hwritten
  | tick ms =>
      exact h.of_sends_peer (TcpConnection.sends_tick y.conn ms) rfl (h.plain.tick ms) h.link
        id id hwritten
  | read len =>
      exact { h with link := h.link.readOutput len }
  | segmentReceived seg =>
      obtain ⟨hlink, hle⟩ := h.passed hop
      obtain ⟨s, hs, hsends⟩ := TcpConnection.exists_sends_segmentReceived y.conn seg
      have hrelayed : (y.conn.relayed seg).Plain := by
        rw [TcpConnection.relayed]
        split_ifs
        · exact h.plain.ackReceived _ _
        · exact h.plain
      refine h.of_sends_peer hsends rfl ?_ hlink ?_ ?_ hle
      · rcases hs with rfl | rfl | rfl
        · exact hrelayed
        · exact hrelayed.fillWindow
        · exact hrelayed.sendEmptySegment
      · intro hsyn
        rw [synArrived_segmentReceived, hsyn, Bool.true_or]
      · intro hfin
        rw [finArrived_segmentReceived, hfin, Bool.true_or]

/-- What leaves the outstanding segments of `x` was written at `y`. -/
theorem written_of_popped (h : Direction x y) (hop : x.Permits y op) {p : TcpSegment × ℕ}
    (hmem : p ∈ x.conn.sender.outstanding) (hnot : p ∉ (x.step op).conn.sender.outstanding)
    {i : ℕ} (hi : TcpSender.ContainsByte p i) : i < y.bytesWritten := by
  obtain ⟨seg, e⟩ := p
  have htake : op ≠ .takeSegment := by
    rintro rfl
    exact hnot hmem
  obtain ⟨s, r, hsends, hprog, -, hack⟩ := h.exists_progress hop htake
  obtain ⟨stream, -, hsender⟩ := hsends.exists_sender
  have hle : e ≤ s.ackAbs := by
    refine hprog.popped (seg, e) hmem fun hin ↦ hnot ?_
    rw [hsender]
    exact hin
  obtain ⟨q, rfl, hcut, hend⟩ := h.link.sending.cut_of_outstanding hmem
  obtain ⟨hfirst, hlast⟩ : q ≤ i + 1 ∧ i + 1 < q + seg.payload.length := by
    simpa [TcpSender.ContainsByte] using hi
  have hread := (h.link.sending.of_cut hcut hend).1
  have hlen : seg.payload.length ≤ seg.lengthInSequenceSpace := by
    rw [TcpSegment.lengthInSequenceSpace]
    omega
  have hbytes := h.link.sending.bytesReaded_le
  have hpos := hle.trans hack
  rw [position] at hpos
  split_ifs at hpos <;> omega

/-- When everything up to the FIN is acknowledged, everything is written at `y`. -/
theorem bytesWritten_of_finAcked (h : Direction x y)
    (hstate : TcpState.senderSummary x.conn.sender = .finAcked) :
    y.bytesWritten = x.conn.sender.streamIn.bytesWritten := by
  obtain ⟨first, htrans⟩ := h.link.sending.transmits
  have hwrote : x.conn.sender.streamIn.bytesWritten = x.accepted.length := htrans.bytesWrote
  have hle : y.bytesWritten ≤ _ := h.link.bytesWritten_le
  have hread := h.link.sending.bytesReaded_le
  have hack := h.ackAbs_le
  obtain ⟨hzero, hnext, hflying⟩ := TcpState.of_finAcked hstate
  rcases h.link.sending.aligned with hun | ⟨start, hal⟩
  · exact absurd hun.nextSeqno hzero
  · have hflight := hal.bytesFlying
    have hbound := hal.ackAbs_le
    rw [position] at hack
    split_ifs at hack <;> omega

end Direction

theorem direction_new (cfgX cfgY : TcpConfig) (randomX randomY : UInt32)
    (hcap : 1 ≤ cfgY.recvCapacity) : Direction (new cfgX randomX) (new cfgY randomY) where
  link :=
    { sending := TcpSender.sending_new _ _ _ _
      length_lt := by simp [new]
      tracks := TcpReceiver.tracks_new hcap _ _ _
      syn_eq := rfl
      opened := by simp [new, synArrived]
      finSent := by simp [new, finArrived]
      handshaking := fun _ ↦ ⟨rfl, rfl, Nat.zero_le 1⟩ }
  queue := rfl
  sent := by simp [new, TcpConnection.new]
  plain := ⟨by simp [new, TcpConnection.new, TcpSender.new], by simp [new, TcpConnection.new,
    TcpSender.new], by simp [new, TcpConnection.new, TcpSender.new]⟩
  acks := by simp [new, TcpConnection.new]
  ackAbs_le := Nat.zero_le _

end Endpoint

namespace Network

variable {n : Network} {event : Event}

theorem direction_step (h : n.a.Direction n.b) (hevent : n.Allowed event) :
    (n.step event).a.Direction (n.step event).b := by
  obtain ⟨hop, hvolume⟩ := hevent
  rw [volume] at hvolume
  cases event with
  | atA op => exact h.sender_step hop (by simp only [step] at hvolume; omega)
  | atB op => exact h.receiver_step hop

theorem direction_run (cfgA cfgB : TcpConfig) (randomA randomB : UInt32)
    (hcap : 1 ≤ cfgB.recvCapacity) {events : List Event}
    (hevents : Along step Allowed (new cfgA cfgB randomA randomB) events) :
    let n := run step (new cfgA cfgB randomA randomB) events
    n.a.Direction n.b := by
  refine run_invariant (I := fun n : Network ↦ n.a.Direction n.b) ?_ ?_ hevents
  · exact fun n event hn hevent ↦ direction_step hn hevent
  · exact Endpoint.direction_new cfgA cfgB randomA randomB hcap

/-- In every state that is reached, what is acknowledged to `a` is at most the position of
`b`, which is at most the next number of `a`. A segment that leaves the outstanding ones in
the next step contains only bytes that `b` has written, and when the FIN of `a` is
acknowledged, `b` has written all. -/
theorem acknowledged_le_position (cfgA cfgB : TcpConfig) (randomA randomB : UInt32)
    (hcap : 1 ≤ cfgB.recvCapacity) (events : List Event)
    (hevents : Along step Allowed (new cfgA cfgB randomA randomB) events) :
    let n := run step (new cfgA cfgB randomA randomB) events
    n.a.conn.sender.ackAbs ≤ Endpoint.position n.a n.b ∧
    Endpoint.position n.a n.b ≤ n.a.conn.sender.nextSeqnoAbsolute ∧
    (∀ event, n.Allowed event → ∀ p ∈ n.a.conn.sender.outstanding,
      p ∉ (n.step event).a.conn.sender.outstanding →
        ∀ i, TcpSender.ContainsByte p i → i < n.b.bytesWritten) ∧
    (TcpState.senderSummary n.a.conn.sender = .finAcked →
      n.b.bytesWritten = n.a.conn.sender.streamIn.bytesWritten) := by
  intro n
  have h : n.a.Direction n.b := direction_run cfgA cfgB randomA randomB hcap hevents
  refine ⟨h.ackAbs_le, Endpoint.position_le_nextSeqno h.link, ?_, h.bytesWritten_of_finAcked⟩
  rintro event ⟨hop, -⟩ p hmem hnot i hi
  cases event with
  | atA op => exact h.written_of_popped hop hmem hnot hi
  | atB op => exact absurd hmem hnot

/-- The byte `a` and the FIN go from one end to the other and are acknowledged. -/
theorem acknowledged_one_byte :
    let n := run step
      (new { recvCapacity := 4, sendCapacity := 4, fixedIsn := some ⟨10⟩ }
        { recvCapacity := 4, sendCapacity := 4, fixedIsn := some ⟨20⟩ } 0 0)
      [.atA .connect, .atA .takeSegment,
        .atB (.segmentReceived { header := { seqno := ⟨10⟩, syn := true } }), .atB .takeSegment,
        .atA (.segmentReceived { header :=
          { seqno := ⟨20⟩, syn := true, ack := true, ackno := ⟨11⟩, win := 4 } }),
        .atA (.write [97]), .atA .endInputStream,
        .atA .takeSegment, .atA .takeSegment, .atA .takeSegment,
        .atB (.segmentReceived
          { header := { seqno := ⟨11⟩, ack := true, ackno := ⟨21⟩, win := 4 }, payload := [97] }),
        .atB (.segmentReceived { header :=
          { seqno := ⟨12⟩, ack := true, ackno := ⟨21⟩, win := 4, fin := true } }),
        .atB .takeSegment, .atB .takeSegment,
        .atA (.segmentReceived { header :=
          { seqno := ⟨21⟩, ack := true, ackno := ⟨13⟩, win := 3 } })]
    Endpoint.position n.a n.b = 3 ∧ n.a.conn.sender.ackAbs ≤ Endpoint.position n.a n.b ∧
      n.b.bytesWritten = n.a.conn.sender.streamIn.bytesWritten := by
  have h := acknowledged_le_position
    { recvCapacity := 4, sendCapacity := 4, fixedIsn := some ⟨10⟩ }
    { recvCapacity := 4, sendCapacity := 4, fixedIsn := some ⟨20⟩ } 0 0 (by decide)
    [.atA .connect, .atA .takeSegment,
      .atB (.segmentReceived { header := { seqno := ⟨10⟩, syn := true } }), .atB .takeSegment,
      .atA (.segmentReceived { header :=
        { seqno := ⟨20⟩, syn := true, ack := true, ackno := ⟨11⟩, win := 4 } }),
      .atA (.write [97]), .atA .endInputStream,
      .atA .takeSegment, .atA .takeSegment, .atA .takeSegment,
      .atB (.segmentReceived
        { header := { seqno := ⟨11⟩, ack := true, ackno := ⟨21⟩, win := 4 }, payload := [97] }),
      .atB (.segmentReceived { header :=
        { seqno := ⟨12⟩, ack := true, ackno := ⟨21⟩, win := 4, fin := true } }),
      .atB .takeSegment, .atB .takeSegment,
      .atA (.segmentReceived { header :=
        { seqno := ⟨21⟩, ack := true, ackno := ⟨13⟩, win := 3 } })] (by decide +kernel)
  exact ⟨by decide +kernel, h.1, h.2.2.2 (by decide +kernel)⟩

end Network

end Sponge
