import Sponge.Connection.Sends
import Sponge.Network.Model
import Sponge.Receiver.Tracking
import Sponge.Sender.Progress

/-!
# One direction of the traffic

`Direction x y` ties the sender of `x` to the receiver of `y`: what is on its
way from `x` was cut from the bytes accepted by `x`, the receiver of `y` tracks
these bytes, and no acknowledgment on its way back is ahead of `y`. It is kept
by whatever happens at `x` and by whatever happens at `y`.
-/

namespace Sponge

open Lib

theorem TcpSender.Sent.stamp {s : TcpSender} {d : List UInt8} {seg : TcpSegment}
    (h : s.Sent d seg) (r : TcpReceiver) (rst : Bool) :
    s.Sent d (TcpConnection.stamp r rst seg) := by
  obtain ⟨ack, ackno, win, rst', heq⟩ := TcpConnection.exists_stamp r rst seg
  rw [heq]
  rcases h with hempty | ⟨q, hcut, hend⟩
  · exact Or.inl hempty
  · exact Or.inr ⟨q, ⟨hcut.seqno, hcut.header_syn, hcut.syn, hcut.payload, hcut.bound,
      hcut.length_payload_le, hcut.nonempty, hcut.fin⟩, hend⟩

theorem TcpSender.Cut.placed {isn : WrappingInt32} {d : List UInt8} {ended : Bool} {q : ℕ}
    {seg : TcpSegment} (h : TcpSender.Cut isn d ended q seg) :
    TcpReceiver.Placed isn d.length q seg where
  seqno := h.seqno
  syn := h.header_syn
  bound := by
    cases Nat.eq_zero_or_pos q with
    | inl hzero => simp [hzero, (h.syn hzero).1]
    | inr hpos => exact h.bound hpos
  fin hfin := (h.fin hfin).2
  reads hzero := Or.inl (h.syn hzero)

/-- A sender that accepted `d` and the receiver of its peer, which got its SYN and its FIN as
the flags say. -/
structure Link (s : TcpSender) (d : List UInt8) (r : TcpReceiver) (syn fin : Bool) : Prop where
  sending : s.Sending d
  length_lt : d.length < 2 ^ 30
  tracks : r.Tracks s.isn d.length fin (· < s.stream.bytesReaded)
  syn_eq : r.syn = syn
  opened : syn = true → s.nextSeqno ≠ 0
  finSent : fin = true → s.finSent = true
  handshaking : syn = false → s.Handshaking

namespace Link

variable {s s' : TcpSender} {d d' : List UInt8} {r : TcpReceiver} {syn fin : Bool}
  {seg : TcpSegment} {q : ℕ}

theorem bytesWritten_le (h : Link s d r syn fin) :
    r.streamOut.bytesWritten ≤ s.stream.bytesReaded := by
  have heq := h.tracks.bytesWritten_eq
  by_contra hlt
  have hlast := h.tracks.received s.stream.bytesReaded (Or.inr (by omega))
  exact Nat.lt_irrefl _ hlast

theorem ckpt_eq (h : Link s d r syn fin) : r.ckpt = r.streamOut.bytesWritten := by
  rw [h.tracks.ckpt, h.tracks.bytesWritten_eq]

theorem nextSeqno_le (h : Link s d r syn fin) : s.nextSeqno ≤ 2 ^ 30 + 1 := by
  have hread := h.sending.bytesReaded_le
  have hlen := h.length_lt
  by_cases hzero : s.nextSeqno = 0
  · omega
  · have hnext := h.sending.counts.of_ne_zero hzero
    split_ifs at hnext <;> omega

/-- Before the SYN arrived, no other segment can arrive. -/
theorem synced (h : Link s d r syn fin) (hcut : TcpSender.Cut s.isn d s.stream.ended q seg)
    (hend : q + seg.lengthInSequenceSpace ≤ s.nextSeqno)
    (hpos : seg.lengthInSequenceSpace ≠ 0) : r.syn = true ∨ seg.header.syn = true := by
  cases hsyn : syn with
  | true => exact Or.inl (h.syn_eq.trans hsyn)
  | false =>
      have hnext := (h.handshaking hsyn).nextSeqno_le
      right
      rw [hcut.header_syn, decide_eq_true_eq]
      omega

theorem near (h : Link s d r syn fin) (hend : q + seg.lengthInSequenceSpace ≤ s.nextSeqno) :
    r.ckpt ≤ d.length ∧ q < r.ckpt + 2 ^ 31 ∧ r.ckpt < q + 2 ^ 31 := by
  have hwritten := h.bytesWritten_le
  have hread := h.sending.bytesReaded_le
  have hlen := h.length_lt
  have hnext := h.nextSeqno_le
  have hckpt := h.ckpt_eq
  exact ⟨by omega, by omega, by omega⟩

theorem startPayload_eq (h : Link s d r syn fin)
    (hcut : TcpSender.Cut s.isn d s.stream.ended q seg)
    (hend : q + seg.lengthInSequenceSpace ≤ s.nextSeqno)
    (hpos : seg.lengthInSequenceSpace ≠ 0)
    (hcarries : seg.payload ≠ [] ∨ seg.header.fin = true) :
    r.startPayload seg.header = q - 1 := by
  obtain ⟨hckpt, hnear, hnear'⟩ := h.near hend
  have hlen := h.length_lt
  exact hcut.placed.startPayload_eq (h.synced hcut hend hpos)
    (fun hsyn ↦ (h.tracks.of_syn hsyn).1) (by omega) hnear hnear' hcarries

/-- What a cut that arrives does to the receiver. -/
theorem exists_processed (h : Link s d r syn fin)
    (hcut : TcpSender.Cut s.isn d s.stream.ended q seg)
    (hend : q + seg.lengthInSequenceSpace ≤ s.nextSeqno)
    (hpos : seg.lengthInSequenceSpace ≠ 0) :
    ∃ m, TcpReceiver.Processed r (r.segmentReceived seg) seg (q - 1) m := by
  obtain ⟨hckpt, hnear, hnear'⟩ := h.near hend
  have hlen := h.length_lt
  exact h.tracks.exists_processed hcut.placed (by omega) hckpt hnear hnear'
    (h.synced hcut hend hpos)

/-- The same at the index that the receiver computes. -/
theorem exists_processed_startPayload (h : Link s d r syn fin)
    (hcut : TcpSender.Cut s.isn d s.stream.ended q seg)
    (hend : q + seg.lengthInSequenceSpace ≤ s.nextSeqno)
    (hpos : seg.lengthInSequenceSpace ≠ 0) :
    ∃ m, TcpReceiver.Processed r (r.segmentReceived seg) seg (r.startPayload seg.header) m := by
  obtain ⟨m, hm⟩ := h.exists_processed hcut hend hpos
  by_cases hnil : seg.payload = [] ∧ seg.header.fin = false
  · exact ⟨m, hm.of_nil hnil.1 hnil.2⟩
  · rw [h.startPayload_eq hcut hend hpos (by simpa [imp_iff_not_or] using hnil)]
    exact ⟨m, hm⟩

theorem segmentReceived (h : Link s d r syn fin)
    (hcut : TcpSender.Cut s.isn d s.stream.ended q seg)
    (hend : q + seg.lengthInSequenceSpace ≤ s.nextSeqno)
    (hpos : seg.lengthInSequenceSpace ≠ 0) :
    Link s d (r.segmentReceived seg) (syn || seg.header.syn) (fin || seg.header.fin) := by
  have hlen := h.length_lt
  obtain ⟨m, hm⟩ := h.exists_processed hcut hend hpos
  obtain ⟨hbytes, hfinSent⟩ := h.sending.of_cut hcut hend
  have hsyn := h.synced hcut hend hpos
  have hor : (syn || seg.header.syn) = true := by
    rw [h.syn_eq] at hsyn
    rcases hsyn with hs | hs <;> simp [hs]
  constructor
  case sending => exact h.sending
  case length_lt => exact hlen
  case tracks =>
    exact h.tracks.processed hcut.placed (by omega) hsyn hm (fun _ hi ↦ hi)
      (fun i _ hi ↦ by omega)
  case syn_eq => rw [hm.syn, hor]
  case opened => exact fun _ ↦ by omega
  case finSent =>
    intro hfin
    rcases Bool.or_eq_true_iff.mp hfin with hf | hf
    · exact h.finSent hf
    · exact hfinSent hf
  case handshaking => exact fun hnot ↦ absurd (hor.symm.trans hnot) Bool.true_eq_false_eq_False

theorem readOutput (h : Link s d r syn fin) (n : ℕ) : Link s d (r.readOutput n) syn fin :=
  { h with tracks := h.tracks.readOutput n, syn_eq := h.syn_eq }

theorem setError (h : Link s d r syn fin) : Link s d r.setError syn fin :=
  { h with tracks := h.tracks.setError, syn_eq := h.syn_eq }

end Link

namespace Endpoint

variable {x x' y y' : Endpoint} {seg : TcpSegment} {s : TcpSender} {r : TcpReceiver}

/-- The sender of `x` and the receiver of `y`, with the segments on their way and the
acknowledgments on their way back. -/
structure Direction (x y : Endpoint) : Prop where
  link : Link x.conn.sender x.accepted y.conn.receiver y.synArrived y.finArrived
  queue : x.conn.sender.segmentsOut = []
  sent : ∀ seg ∈ x.conn.segmentsOut ++ x.sent, x.conn.sender.Sent x.accepted seg
  plain : y.conn.sender.Plain
  acks : ∀ seg ∈ y.conn.segmentsOut ++ y.sent, seg.header.ack = true →
    y.synArrived = true ∧
      ∃ a, 1 ≤ a ∧ a ≤ position x y ∧ seg.header.ackno = wrap a x.conn.sender.isn
  ackAbs_le : x.conn.sender.ackAbs ≤ position x y

theorem position_congr (hsame : y.finArrived = true → x'.accepted = x.accepted) :
    position x' y = position x y := by
  rw [position, position]
  cases hfin : y.finArrived with
  | false => simp
  | true => rw [hsame hfin]

section link

variable (h : Link x.conn.sender x.accepted y.conn.receiver y.synArrived y.finArrived)

include h

theorem position_le_nextSeqno : position x y ≤ x.conn.sender.nextSeqno := by
  have hle : y.bytesWritten ≤ _ := h.bytesWritten_le
  rw [position]
  split_ifs with hsyn hfin
  · have hnext := h.sending.counts.of_ne_zero (h.opened hsyn)
    rw [if_pos (h.finSent hfin.1)] at hnext
    omega
  · have hnext := h.sending.counts.of_ne_zero (h.opened hsyn)
    omega
  · exact Nat.zero_le _

theorem ackno_eq_position {ackno : WrappingInt32}
    (hack : y.conn.receiver.ackno = some ackno) :
    y.synArrived = true ∧ 1 ≤ position x y ∧
      ackno = wrap (position x y) x.conn.sender.isn := by
  have hsyn : y.conn.receiver.syn = true := by
    by_contra hnot
    rw [TcpReceiver.ackno, if_neg hnot] at hack
    exact absurd hack (by simp)
  have harrived : y.synArrived = true := h.syn_eq ▸ hsyn
  rw [TcpReceiver.ackno, if_pos hsyn, Option.some.injEq, (h.tracks.of_syn hsyn).2] at hack
  have hckpt : y.conn.receiver.ckpt = y.bytesWritten := h.ckpt_eq
  have hle : y.bytesWritten ≤ _ := h.bytesWritten_le
  have hread := h.sending.bytesReaded_le
  have hlen := h.length_lt
  refine ⟨harrived, by rw [position, if_pos harrived]; omega, ?_⟩
  rw [← hack, position, if_pos harrived, hckpt, h.tracks.lenStream]
  congr 1
  cases y.finArrived with
  | false =>
      simp only [Bool.false_eq_true, if_false, false_and]
      rw [if_neg (by omega)]
      omega
  | true =>
      simp only [if_true, true_and]
      split_ifs <;> omega

end link

theorem position_mono
    (h' : Link x.conn.sender x.accepted y'.conn.receiver y'.synArrived y'.finArrived)
    (hsyn : y.synArrived = true → y'.synArrived = true)
    (hfin : y.finArrived = true → y'.finArrived = true)
    (hwritten : y.bytesWritten ≤ y'.bytesWritten) : position x y ≤ position x y' := by
  have hle : y'.bytesWritten ≤ _ := h'.bytesWritten_le
  have hread := h'.sending.bytesReaded_le
  rw [position, position]
  by_cases hs : y.synArrived = true
  · rw [if_pos hs, if_pos (hsyn hs)]
    by_cases hf : y.finArrived = true ∧ y.bytesWritten = x.accepted.length
    · rw [if_pos hf, if_pos ⟨hfin hf.1, by omega⟩]
      omega
    · rw [if_neg hf]
      omega
  · rw [if_neg hs]
    exact Nat.zero_le _

namespace Direction

/-- The sender of `x` makes progress and its queue is emptied into that of `x`. -/
theorem of_sends (h : Direction x y) (hsends : TcpConnection.Sends x.conn x'.conn s r)
    (hsent : x'.sent = x.sent)
    (hprog : TcpSender.Progress x.conn.sender x.accepted s x'.accepted)
    (hlen : x'.accepted.length < 2 ^ 30)
    (hsame : y.finArrived = true → x'.accepted = x.accepted)
    (hhand : y.synArrived = false → s.Handshaking)
    (hack : s.ackAbs ≤ position x y) : Direction x' y := by
  obtain ⟨stream, hstream, hsender⟩ := hsends.exists_sender
  have hpos : position x' y = position x y := position_congr hsame
  have hcut : ∀ seg, s.Sent x'.accepted seg → x'.conn.sender.Sent x'.accepted seg := by
    intro seg hseg
    rw [TcpSender.Sent, hsender]
    simp only [hstream.ended]
    exact hseg
  have hfinSent : x.conn.sender.finSent = true → s.finSent = true := hprog.finSent
  constructor
  case link =>
    rw [hsender]
    exact
      { sending := hprog.sending.keep hstream rfl
        length_lt := hlen
        tracks := by
          refine (hprog.isn ▸ h.link.tracks).mono (fun hfin ↦ by rw [hsame hfin]) ?_
          intro i hi
          simp only [hstream.bytesReaded]
          exact lt_of_lt_of_le hi hprog.bytesReaded_le
        syn_eq := h.link.syn_eq
        opened := fun hsyn ↦ by
          have hle := hprog.nextSeqno_le
          have hne := h.link.opened hsyn
          simp only
          omega
        finSent := fun hfin ↦ hfinSent (h.link.finSent hfin)
        handshaking := fun hsyn ↦ (hhand hsyn).frame }
  case queue => rw [hsender]
  case sent =>
    obtain ⟨segs, hout, hsegs⟩ := hprog.pushed
    rw [h.queue, List.nil_append] at hout
    intro seg hseg
    rw [hsends.segmentsOut, hsent, hout] at hseg
    rcases List.mem_append.mp hseg with hseg | hseg
    · rcases List.mem_append.mp hseg with hseg | hseg
      · exact hcut seg (hprog.sent (h.sent seg (List.mem_append_left _ hseg)))
      · obtain ⟨seg', hseg', rfl⟩ := List.mem_map.mp hseg
        exact (hcut seg' (hsegs seg' hseg')).stamp _ _
    · exact hcut seg (hprog.sent (h.sent seg (List.mem_append_right _ hseg)))
  case plain => exact h.plain
  case acks =>
    intro seg hseg hset
    obtain ⟨hsyn, a, ha, hle, hackno⟩ := h.acks seg hseg hset
    refine ⟨hsyn, a, ha, hpos ▸ hle, ?_⟩
    rw [hackno, hsender]
    simp only [hprog.isn]
  case ackAbs_le =>
    rw [hpos, hsender]
    exact hack

/-- The receiver of `y` comes to `r`, and the queue of its sender is emptied into that of
`y`. -/
theorem of_sends_peer (h : Direction x y) (hsends : TcpConnection.Sends y.conn y'.conn s r)
    (hsent : y'.sent = y.sent) (hplain : s.Plain)
    (hlink : Link x.conn.sender x.accepted r y'.synArrived y'.finArrived)
    (hsyn : y.synArrived = true → y'.synArrived = true)
    (hfin : y.finArrived = true → y'.finArrived = true)
    (hwritten : y.bytesWritten ≤ r.streamOut.bytesWritten) : Direction x y' := by
  obtain ⟨stream, hstream, hsender⟩ := hsends.exists_sender
  have hlink' : Link x.conn.sender x.accepted y'.conn.receiver y'.synArrived y'.finArrived := by
    rcases hsends.receiver with heq | heq <;> rw [heq]
    · exact hlink
    · exact hlink.setError
  have hpos : position x y ≤ position x y' := by
    refine position_mono hlink' hsyn hfin (hwritten.trans ?_)
    rw [bytesWritten, TcpConnection.inboundStream]
    rcases hsends.receiver with heq | heq <;> rw [heq]
    exact le_refl _
  have hold : ∀ seg ∈ y.conn.segmentsOut ++ y.sent, seg.header.ack = true →
      y'.synArrived = true ∧
        ∃ a, 1 ≤ a ∧ a ≤ position x y' ∧ seg.header.ackno = wrap a x.conn.sender.isn := by
    intro seg hseg hset
    obtain ⟨hs, a, ha, hle, hackno⟩ := h.acks seg hseg hset
    exact ⟨hsyn hs, a, ha, hle.trans hpos, hackno⟩
  constructor
  case link => exact hlink'
  case queue => exact h.queue
  case sent => exact h.sent
  case plain =>
    rw [hsender]
    exact ⟨hplain.windowSize_lt, by simp, hplain.outstanding⟩
  case acks =>
    intro seg hseg hset
    rw [hsends.segmentsOut, hsent] at hseg
    rcases List.mem_append.mp hseg with hseg | hseg
    · rcases List.mem_append.mp hseg with hseg | hseg
      · exact hold seg (List.mem_append_left _ hseg) hset
      · -- A segment that was stamped just now.
        obtain ⟨seg', hseg', rfl⟩ := List.mem_map.mp hseg
        obtain ⟨hs, hone, hackno⟩ := ackno_eq_position hlink'
          (TcpConnection.ackno_of_stamp (hplain.queue seg' hseg') hset)
        exact ⟨hs, position x y', hone, le_refl _, hackno⟩
    · exact hold seg (List.mem_append_right _ hseg) hset
  case ackAbs_le => exact h.ackAbs_le.trans hpos

end Direction

end Endpoint

end Sponge
