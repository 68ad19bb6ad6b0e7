import Sponge.Connection.Sends
import Sponge.Receiver.PeerStream

/-!
# The advertised window

Every segment that leaves a connection after the peer's SYN carries the number
acknowledged and the window. Their sum is the right edge of the window. The
number was computed when a segment arrived and the window when the segment
left, but both belong to the same receiver, and the edge only depends on what
was written and read: it never moves back.
-/

namespace Sponge

open Lib

/-- A segment sent with an acknowledgment, the receiver that it was stamped from, and whether
a FIN of the peer had arrived. -/
structure Advert where
  receiver : TcpReceiver
  finArrived : Bool
  seg : TcpSegment

/-- A connection, whether a FIN of the peer has arrived, and what the connection has
advertised since the peer's SYN. -/
structure Advertising where
  conn : TcpConnection
  finArrived : Bool := false
  adverts : List Advert := []

namespace TcpReceiver

variable {r r' : TcpReceiver} {p : PeerStream} {fin fin' : Bool} {cap : ℕ}

/-- The peer's FIN has been assembled: it arrived and nothing before it is missing. -/
def FinAssembled (p : PeerStream) (r : TcpReceiver) (fin : Bool) : Prop :=
  fin = true ∧ r.streamOut.bytesWritten = p.data.length

instance (p : PeerStream) (r : TcpReceiver) (fin : Bool) : Decidable (r.FinAssembled p fin) :=
  inferInstanceAs (Decidable (_ ∧ _))

/-- The absolute number that the receiver acknowledges. -/
def ackAbs (p : PeerStream) (r : TcpReceiver) (fin : Bool) : ℕ :=
  1 + r.streamOut.bytesWritten + if r.FinAssembled p fin then 1 else 0

/-- The receiver holds a part of the stream of the peer, and its three parts agree on the
capacity. -/
structure Holds (p : PeerStream) (cap : ℕ) (r : TcpReceiver) (fin : Bool) : Prop where
  tracks : r.Tracks p.isn p.data.length fin fun i ↦ i < p.data.length
  capacity : r.capacity = cap
  ring : r.reassembler.capacity = cap

theorem holds_new (p : PeerStream) (hcap : 1 ≤ cap) : (new cap).Holds p cap false :=
  ⟨tracks_new hcap p.isn p.data.length _, rfl, rfl⟩

namespace Holds

theorem readOutput (h : r.Holds p cap fin) (len : ℕ) : (r.readOutput len).Holds p cap fin :=
  ⟨h.tracks.readOutput len, h.capacity, h.ring⟩

theorem setError (h : r.Holds p cap fin) : r.setError.Holds p cap fin :=
  ⟨h.tracks.setError, h.capacity, h.ring⟩

theorem bytesWritten_le (h : r.Holds p cap fin) :
    r.streamOut.bytesWritten ≤ p.data.length := by
  rw [h.tracks.bytesWritten_eq]
  by_contra hlt
  exact Nat.lt_irrefl _ (h.tracks.received p.data.length (Or.inr (by omega)))

/-- What is written is read or buffered, and the window is the rest. -/
theorem windowSize_eq (h : r.Holds p cap fin) :
    r.streamOut.bytesWritten + r.windowSize = r.streamOut.bytesRead + cap := by
  have hcap := r.streamOut.length_deq_le
  have hwrote := r.streamOut.bytesWrote_eq
  have hring : r.streamOut.cap = cap := h.tracks.wf.output_cap.trans h.ring
  rw [windowSize, h.capacity, ByteStream.bufferSize, ByteStream.bytesWritten,
    ByteStream.bytesRead, sub64_of_le (by omega)]
  omega

theorem ackno_eq (h : r.Holds p cap fin) (hsyn : r.syn = true) :
    r.ackno = some (wrap (r.ackAbs p fin) p.isn) := by
  have hle := h.bytesWritten_le
  have hlen := p.length_lt
  have hckpt : r.ckpt = r.streamOut.bytesWritten := by
    rw [h.tracks.ckpt, h.tracks.bytesWritten_eq]
  have hiff : r.ckpt = r.lenStream ↔ r.FinAssembled p fin := by
    rw [h.tracks.lenStream, hckpt, FinAssembled]
    cases fin with
    | false =>
        simp only [Bool.false_eq_true, if_false, false_and, iff_false]
        omega
    | true => simp
  rw [ackno, if_pos hsyn, (h.tracks.of_syn hsyn).2, ackAbs, hckpt]
  congr 2
  rw [← hckpt]
  split_ifs with hold hnew hnew
  · omega
  · exact absurd (hiff.mp hold) hnew
  · exact absurd (hiff.mpr hnew) hold
  · omega

end Holds

/-- The right edge of the window that the receiver advertises. -/
def rightEdge (p : PeerStream) (r : TcpReceiver) (fin : Bool) : ℕ :=
  r.ackAbs p fin + min r.windowSize (2 ^ 16 - 1)

/-- The edge never moves back while bytes are written and read. -/
theorem Holds.rightEdge_le (h : r.Holds p cap fin) (h' : r'.Holds p cap fin')
    (hwrote : r.streamOut.bytesWritten ≤ r'.streamOut.bytesWritten)
    (hread : r.streamOut.bytesRead ≤ r'.streamOut.bytesRead) (hfin : fin = true → fin' = true) :
    r.rightEdge p fin ≤ r'.rightEdge p fin' := by
  have hwin := h.windowSize_eq
  have hwin' := h'.windowSize_eq
  have hle := h'.bytesWritten_le
  -- A FIN stays assembled: nothing can be written past it.
  have hkeep : r.FinAssembled p fin → r'.FinAssembled p fin' := by
    rintro ⟨hf, hfull⟩
    exact ⟨hfin hf, by omega⟩
  simp only [rightEdge, ackAbs]
  split_ifs with hold hnew hnew
  · omega
  · exact absurd (hkeep hold) hnew
  · omega
  · omega

theorem Holds.segmentReceived (h : r.Holds p cap fin) {q : ℕ} {seg : TcpSegment}
    (hcuts : p.Cuts q seg) (hbare : p.ReadsRight q seg)
    (hnear : q < r.streamOut.bytesWritten + 2 ^ 31)
    (hnear' : r.streamOut.bytesWritten < q + 2 ^ 31)
    (hsyn : r.syn = true ∨ seg.header.syn = true) :
    (r.segmentReceived seg).Holds p cap (fin || seg.header.fin) ∧
      r.streamOut.bytesWritten ≤ (r.segmentReceived seg).streamOut.bytesWritten ∧
      r.streamOut.bytesRead = (r.segmentReceived seg).streamOut.bytesRead := by
  have hle := h.bytesWritten_le
  have hwritten := h.tracks.bytesWritten_eq
  have hckpt := h.tracks.ckpt
  have hbound := hcuts.bound
  obtain ⟨m, hm⟩ := h.tracks.exists_processed (hcuts.placed hbare) p.length_lt (by omega)
    (by omega) (by omega) hsyn
  have htracks := h.tracks.processed (hcuts.placed hbare) p.length_lt hsyn hm (fun _ hi ↦ hi)
    (fun i hi hi' ↦ by omega)
  refine ⟨⟨htracks, hm.capacity.trans h.capacity, hm.pushed.capacity.trans h.ring⟩, ?_, ?_⟩
  · rw [hwritten, htracks.bytesWritten_eq, hm.pushed.startAux]
    exact Nat.le_add_right _ _
  · exact hm.pushed.bytesReaded.symm

end TcpReceiver

/-- The right edge that a segment carries. -/
def Advert.edge (p : PeerStream) (a : Advert) : ℕ :=
  a.receiver.ackAbs p a.finArrived + a.seg.header.win.toNat

namespace Advertising

open TcpConnection TcpReceiver

variable {p : PeerStream} {cap : ℕ} {t : Advertising} {c c' : TcpConnection} {a : Advert}
  {seg : TcpSegment} {fin : Bool}

def new (cfg : TcpConfig) (random : UInt32) : Advertising where
  conn := TcpConnection.new cfg random

/-- The segments that an operation sends after the peer's SYN. -/
def advertised (c c' : TcpConnection) (fin : Bool) : List Advert :=
  if c'.receiver.syn then (emitted c c').map fun seg ↦ ⟨c'.receiver, fin, seg⟩ else []

/-- The operation hands a FIN to a receiver that has seen the SYN. -/
def deliversFin (t : Advertising) : Op → Bool
  | .segmentReceived seg => seg.header.fin && (t.conn.receiver.syn || seg.header.syn)
  | _ => false

def step (t : Advertising) (op : Op) : Advertising where
  conn := t.conn.step op
  finArrived := t.finArrived || t.deliversFin op
  adverts := t.adverts ++ advertised t.conn (t.conn.step op) (t.finArrived || t.deliversFin op)

theorem step_of_no_fin {op : Op} (h : t.deliversFin op = false) :
    t.step op = ⟨t.conn.step op, t.finArrived,
      t.adverts ++ advertised t.conn (t.conn.step op) t.finArrived⟩ := by
  rw [step, h, Bool.or_false]

/-- A segment that occupies a number is cut from the stream of the peer and near what was
written, and a SYN is alone on its segment. -/
def Arrives (p : PeerStream) (t : Advertising) : Op → Prop
  | .segmentReceived seg => seg.lengthInSequenceSpace ≠ 0 →
    ∃ q, p.Cuts q seg ∧ (q = 0 → seg.payload = [] ∧ seg.header.fin = false) ∧
      q < t.conn.inboundStream.bytesWritten + 2 ^ 31 ∧
      t.conn.inboundStream.bytesWritten < q + 2 ^ 31
  | _ => True

/-- The segment carries the acknowledgment and the window of its receiver. -/
structure Stamped (p : PeerStream) (cap : ℕ) (a : Advert) : Prop where
  holds : a.receiver.Holds p cap a.finArrived
  ack : a.seg.header.ack = true
  ackno : a.seg.header.ackno = wrap (a.receiver.ackAbs p a.finArrived) p.isn
  win : a.seg.header.win.toNat = min a.receiver.windowSize (2 ^ 16 - 1)

theorem Stamped.edge_eq (h : Stamped p cap a) :
    a.edge p = a.receiver.rightEdge p a.finArrived := by
  rw [Advert.edge, rightEdge, h.win]

theorem stamped_stamp {r : TcpReceiver} (h : r.Holds p cap fin) (hsyn : r.syn = true)
    (rst : Bool) (seg : TcpSegment) : Stamped p cap ⟨r, fin, stamp r rst seg⟩ := by
  have hack := h.ackno_eq hsyn
  have hwin : (UInt16.ofNat (min r.windowSize (2 ^ 16 - 1))).toNat =
      min r.windowSize (2 ^ 16 - 1) := by
    rw [UInt16.toNat_ofNat', Nat.mod_eq_of_lt]
    omega
  constructor
  case holds => exact h
  all_goals
    simp only [stamp, hack]
    cases rst
  case ack.false | ack.true => rfl
  case ackno.false | ackno.true => rfl
  case win.false | win.true => exact hwin

/-- What holds between a connection and its adverts. -/
structure Sound (p : PeerStream) (cap : ℕ) (t : Advertising) : Prop where
  holds : t.conn.receiver.Holds p cap t.finArrived
  queue : t.conn.sender.segmentsOut = []
  stamped : ∀ a ∈ t.adverts, Stamped p cap a
  ordered : t.adverts.Pairwise fun a b ↦ a.edge p ≤ b.edge p
  edge_le : ∀ a ∈ t.adverts, a.edge p ≤ t.conn.receiver.rightEdge p t.finArrived

/-- An operation that moves the edge of the receiver forward keeps the adverts in order. -/
theorem Sound.advance {s : TcpSender} {r : TcpReceiver} (h : t.Sound p cap)
    (hsends : Sends t.conn c' s r) (hr : r.Holds p cap fin)
    (hedge : t.conn.receiver.rightEdge p t.finArrived ≤ r.rightEdge p fin) :
    Sound p cap ⟨c', fin, t.adverts ++ advertised t.conn c' fin⟩ := by
  have hr' : c'.receiver.Holds p cap fin ∧ c'.receiver.rightEdge p fin = r.rightEdge p fin := by
    rcases hsends.receiver with heq | heq
    · rw [heq]
      exact ⟨hr, rfl⟩
    · rw [heq]
      exact ⟨hr.setError, rfl⟩
  have hqueue : c'.sender.segmentsOut = [] := by
    rcases hsends.sender with heq | heq <;> rw [heq]
  -- All adverts of one operation are stamped from one receiver.
  have hnew : ∀ a ∈ advertised t.conn c' fin, Stamped p cap a ∧
      a.edge p = c'.receiver.rightEdge p fin := by
    intro a ha
    rw [advertised, hsends.emitted_eq] at ha
    split_ifs at ha with hsyn
    · obtain ⟨seg, hseg, rfl⟩ := List.mem_map.mp ha
      obtain ⟨seg', -, rfl⟩ := List.mem_map.mp hseg
      have hst := stamped_stamp hr'.1 hsyn c'.rstToSend seg'
      exact ⟨hst, hst.edge_eq⟩
    · simp at ha
  have hold : ∀ a ∈ t.adverts, a.edge p ≤ c'.receiver.rightEdge p fin := by
    intro a ha
    rw [hr'.2]
    exact (h.edge_le a ha).trans hedge
  constructor
  case holds => exact hr'.1
  case queue => exact hqueue
  case stamped =>
    intro a ha
    rcases List.mem_append.mp ha with ha | ha
    · exact h.stamped a ha
    · exact (hnew a ha).1
  case ordered =>
    refine List.pairwise_append.mpr ⟨h.ordered, ?_, ?_⟩
    · apply List.pairwise_of_forall_mem_list
      intro a ha b hb
      rw [(hnew a ha).2, (hnew b hb).2]
    · intro a ha b hb
      rw [(hnew b hb).2]
      exact hold a ha
  case edge_le =>
    intro a ha
    rcases List.mem_append.mp ha with ha | ha
    · exact hold a ha
    · exact (hnew a ha).2.le

theorem Sound.keep {s : TcpSender} (h : t.Sound p cap)
    (hsends : Sends t.conn c' s t.conn.receiver) :
    Sound p cap ⟨c', t.finArrived, t.adverts ++ advertised t.conn c' t.finArrived⟩ :=
  h.advance hsends h.holds (le_refl _)

/-- An arriving segment only moves the edge forward. -/
theorem Sound.passed (h : t.Sound p cap) (hop : t.Arrives p (.segmentReceived seg)) :
    (t.conn.passed seg).Holds p cap (t.finArrived || t.deliversFin (.segmentReceived seg)) ∧
      t.conn.receiver.rightEdge p t.finArrived ≤ (t.conn.passed seg).rightEdge p
        (t.finArrived || t.deliversFin (.segmentReceived seg)) := by
  rw [TcpConnection.passed, deliversFin]
  by_cases hlen : seg.lengthInSequenceSpace = 0
  · -- A segment without a number does not get to the receiver.
    have hfin : seg.header.fin = false := by
      rw [TcpSegment.lengthInSequenceSpace] at hlen
      cases hf : seg.header.fin with
      | false => rfl
      | true => simp [hf] at hlen
    rw [if_neg (not_not.mpr hlen), hfin, Bool.false_and, Bool.or_false]
    exact ⟨h.holds, le_refl _⟩
  · rw [if_pos hlen]
    by_cases hsyn : t.conn.receiver.syn = true ∨ seg.header.syn = true
    · obtain ⟨q, hcuts, hbare, hnear, hnear'⟩ := hop hlen
      have hor : (t.conn.receiver.syn || seg.header.syn) = true := by
        rw [Bool.or_eq_true]
        exact hsyn
      obtain ⟨hnext, hwrote, hread⟩ := h.holds.segmentReceived hcuts
        (fun hzero ↦ Or.inl (hbare hzero)) hnear hnear' hsyn
      rw [hor, Bool.and_true]
      refine ⟨hnext, h.holds.rightEdge_le hnext hwrote hread.le fun hf ↦ ?_⟩
      rw [hf, Bool.true_or]
    · have hor : (t.conn.receiver.syn || seg.header.syn) = false := by
        rw [← Bool.not_eq_true, Bool.or_eq_true]
        exact hsyn
      rw [segmentReceived_of_unsynced hsyn, hor, Bool.and_false, Bool.or_false]
      exact ⟨h.holds, le_refl _⟩

theorem sound_step {op : Op} (h : t.Sound p cap) (hop : t.Arrives p op) :
    (t.step op).Sound p cap := by
  cases op with
  | segmentReceived seg =>
      obtain ⟨s, -, hsends⟩ := exists_sends_segmentReceived t.conn seg
      obtain ⟨hholds, hedge⟩ := h.passed hop
      exact h.advance hsends hholds hedge
  | read len =>
      have hread := h.holds.readOutput len
      rw [step_of_no_fin rfl]
      refine h.advance (sends_read h.queue len) hread
        (h.holds.rightEdge_le hread (le_refl _) ?_ id)
      exact Nat.le_add_right _ _
  | takeSegment =>
      have hnone : advertised t.conn (t.conn.step .takeSegment) t.finArrived = [] := by
        simp [advertised, emitted, TcpConnection.step]
      rw [step_of_no_fin rfl, hnone, List.append_nil]
      exact ⟨h.holds, h.queue, h.stamped, h.ordered, h.edge_le⟩
  -- The others leave the receiver alone.
  | connect =>
      rw [step_of_no_fin rfl]
      exact h.keep (sends_connect t.conn)
  | write data =>
      rw [step_of_no_fin rfl]
      exact h.keep (sends_write t.conn data)
  | endInputStream =>
      rw [step_of_no_fin rfl]
      exact h.keep (sends_endInputStream t.conn)
  | tick ms =>
      rw [step_of_no_fin rfl]
      exact h.keep (sends_tick t.conn ms)

theorem sound_new (p : PeerStream) (cfg : TcpConfig) (random : UInt32)
    (hcap : 1 ≤ cfg.recvCapacity) : (new cfg random).Sound p cfg.recvCapacity where
  holds := holds_new p hcap
  queue := rfl
  stamped := by simp [new]
  ordered := List.Pairwise.nil
  edge_le := by simp [new]

/-- A connection never shrinks the window that it advertises: of any two segments sent after
the peer's SYN, the later one has at least the right edge of the earlier one. As long as the
window fits in 16 bits, the edge is what was read plus the capacity. -/
theorem advertised_edge_monotone (p : PeerStream) (cfg : TcpConfig) (random : UInt32)
    (hcap : 1 ≤ cfg.recvCapacity) (ops : List Op)
    (hops : Along step (fun t ↦ t.Arrives p) (new cfg random) ops) :
    let t := run step (new cfg random) ops
    (∀ a ∈ t.adverts, a.seg.header.ack = true ∧
      a.seg.header.ackno = wrap (a.receiver.ackAbs p a.finArrived) p.isn) ∧
    t.adverts.Pairwise (fun a b ↦ a.edge p ≤ b.edge p) ∧
    ∀ a ∈ t.adverts, a.receiver.windowSize ≤ 65535 →
      a.edge p = 1 + a.receiver.streamOut.bytesRead + cfg.recvCapacity +
        if a.receiver.FinAssembled p a.finArrived then 1 else 0 := by
  intro t
  have h : t.Sound p cfg.recvCapacity :=
    run_invariant (fun t op ht hop ↦ sound_step ht hop) (sound_new p cfg random hcap) hops
  refine ⟨fun a ha ↦ ⟨(h.stamped a ha).ack, (h.stamped a ha).ackno⟩, h.ordered, ?_⟩
  intro a ha hwin
  have hst := h.stamped a ha
  have heq := hst.holds.windowSize_eq
  rw [hst.edge_eq, rightEdge, ackAbs, min_eq_left (by omega)]
  omega

/-- The stream `abc` in two segments, with a read between them: the FIN moves the edge by one. -/
theorem advertised_edges_of_abc :
    let p : PeerStream := ⟨⟨7⟩, [97, 98, 99], by decide⟩
    let t := run step (new { recvCapacity := 4, fixedIsn := some ⟨0⟩ } 0)
      [.segmentReceived { header := { seqno := ⟨7⟩, syn := true } },
        .segmentReceived { header := { seqno := ⟨8⟩ }, payload := [97, 98] }, .read 2,
        .segmentReceived { header := { seqno := ⟨10⟩, fin := true }, payload := [99] }]
    t.adverts.map (·.edge p) = [5, 5, 8] ∧ t.adverts.Pairwise fun a b ↦ a.edge p ≤ b.edge p :=
  ⟨by decide, (advertised_edge_monotone ⟨⟨7⟩, [97, 98, 99], by decide⟩
    { recvCapacity := 4, fixedIsn := some ⟨0⟩ } 0 (by decide)
    [.segmentReceived { header := { seqno := ⟨7⟩, syn := true } },
      .segmentReceived { header := { seqno := ⟨8⟩ }, payload := [97, 98] }, .read 2,
      .segmentReceived { header := { seqno := ⟨10⟩, fin := true }, payload := [99] }]
    ⟨fun _ ↦ ⟨0, by decide, by decide, by decide, by decide⟩,
      fun _ ↦ ⟨1, by decide, by decide, by decide, by decide⟩, trivial,
      fun _ ↦ ⟨3, by decide, by decide, by decide, by decide⟩, trivial⟩).2.1⟩

end Advertising

end Sponge
