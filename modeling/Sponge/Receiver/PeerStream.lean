import Sponge.Lib.Runs
import Sponge.Receiver.Tracking

/-!
# The stream of one peer

A peer has one initial sequence number and one byte string. A receiver gets
segments cut from that stream, in any order and with any loss, duplication and
overlap, while its inbound stream is read. What it acknowledges was carried by
segments that it got.
-/

namespace Sponge

open Lib

/-- The stream of a peer; no string is longer than the bound. -/
structure PeerStream where
  isn : WrappingInt32
  data : List UInt8
  length_lt : data.length < 2 ^ 63

namespace PeerStream

variable {p : PeerStream} {q : ℕ} {seg : TcpSegment}

/-- The segment with absolute number `q` is cut from the stream: the SYN has number zero,
the byte at index `i` has number `i + 1`, and the FIN is set on the segments that end
where the stream ends. A SYN alone is not one of them. -/
structure Cuts (p : PeerStream) (q : ℕ) (seg : TcpSegment) : Prop where
  seqno : seg.header.seqno = wrap q p.isn
  syn : seg.header.syn = decide (q = 0)
  payload : seg.payload = substr p.data (q - 1) seg.payload.length
  bound : q - 1 + seg.payload.length ≤ p.data.length
  fin : seg.header.fin = true → q - 1 + seg.payload.length = p.data.length
  fin_of_end : q ≠ 0 ∨ seg.payload ≠ [] → q - 1 + seg.payload.length = p.data.length →
    seg.header.fin = true

instance (p : PeerStream) (q : ℕ) (seg : TcpSegment) : Decidable (p.Cuts q seg) :=
  decidable_of_iff (seg.header.seqno = wrap q p.isn ∧ seg.header.syn = decide (q = 0) ∧
      seg.payload = substr p.data (q - 1) seg.payload.length ∧
      q - 1 + seg.payload.length ≤ p.data.length ∧
      (seg.header.fin = true → q - 1 + seg.payload.length = p.data.length) ∧
      (q ≠ 0 ∨ seg.payload ≠ [] → q - 1 + seg.payload.length = p.data.length →
        seg.header.fin = true))
    ⟨fun ⟨h₁, h₂, h₃, h₄, h₅, h₆⟩ ↦ ⟨h₁, h₂, h₃, h₄, h₅, h₆⟩,
      fun ⟨h₁, h₂, h₃, h₄, h₅, h₆⟩ ↦ ⟨h₁, h₂, h₃, h₄, h₅, h₆⟩⟩

/-- A SYN with payload or FIN is only read right if the initial number is not zero. -/
def ReadsRight (p : PeerStream) (q : ℕ) (seg : TcpSegment) : Prop :=
  q = 0 → (seg.payload = [] ∧ seg.header.fin = false) ∨ p.isn.rawValue ≠ 0

instance (p : PeerStream) (q : ℕ) (seg : TcpSegment) : Decidable (p.ReadsRight q seg) :=
  inferInstanceAs (Decidable (_ → _ ∨ _))

theorem Cuts.length_eq (h : p.Cuts q seg) : seg.lengthInSequenceSpace =
    seg.payload.length + (if q = 0 then 1 else 0) + if seg.header.fin then 1 else 0 := by
  simp only [TcpSegment.lengthInSequenceSpace, h.syn, decide_eq_true_eq]

theorem Cuts.placed (h : p.Cuts q seg) (hread : p.ReadsRight q seg) :
    TcpReceiver.Placed p.isn p.data.length q seg :=
  ⟨h.seqno, h.syn, h.bound, h.fin, hread⟩

end PeerStream

/-- A receiver with the bytes its reader has taken, and the segments it got from the first
SYN on, with their absolute numbers. -/
structure Reception where
  receiver : TcpReceiver
  taken : List UInt8
  log : List (ℕ × TcpSegment)

inductive Arrival
  | segment (q : ℕ) (seg : TcpSegment)
  | read (len : ℕ)

namespace Reception

variable {p : PeerStream} {t : Reception} {q : ℕ} {seg : TcpSegment}

def new (capacity : ℕ) : Reception := ⟨TcpReceiver.new capacity, [], []⟩

def step (t : Reception) : Arrival → Reception
  | .segment q seg =>
    { t with
      receiver := t.receiver.segmentReceived seg
      log := if t.receiver.syn || seg.header.syn then t.log ++ [(q, seg)] else t.log }
  | .read len =>
    { t with
      receiver := t.receiver.readOutput len
      taken := t.taken ++ t.receiver.streamOut.peekOutput len }

def bytesWritten (t : Reception) : ℕ := t.receiver.streamOut.bytesWritten

/-- A FIN was received. -/
def finReceived (t : Reception) : Bool := t.log.any (·.2.header.fin)

def synReceived (t : Reception) : Bool := t.log.any (·.2.header.syn)

/-- Some segment received carries the absolute number `n`. -/
def Carried (t : Reception) (n : ℕ) : Prop :=
  ∃ x ∈ t.log, x.1 ≤ n ∧ n < x.1 + x.2.lengthInSequenceSpace

/-- The number after the last one that is acknowledged. -/
def position (p : PeerStream) (t : Reception) : ℕ :=
  t.bytesWritten +
    if t.finReceived = true ∧ t.bytesWritten = p.data.length then 2 else 1

/-- The arriving segments are cut from the stream, and near what was written. -/
def Arrives (p : PeerStream) (t : Reception) : Arrival → Prop
  | .segment q seg =>
    p.Cuts q seg ∧ q < t.bytesWritten + 2 ^ 31 ∧ t.bytesWritten < q + 2 ^ 31
  | .read _ => True

instance (p : PeerStream) (t : Reception) : (op : Arrival) → Decidable (t.Arrives p op)
  | .segment _ _ => inferInstanceAs (Decidable (_ ∧ _ ∧ _))
  | .read _ => inferInstanceAs (Decidable True)

/-- In addition, the SYN segments carry nothing else. -/
def ArrivesBare (p : PeerStream) (t : Reception) : Arrival → Prop
  | .segment q seg =>
    t.Arrives p (.segment q seg) ∧ (q = 0 → seg.payload = [] ∧ seg.header.fin = false)
  | .read _ => True

instance (p : PeerStream) (t : Reception) : (op : Arrival) → Decidable (t.ArrivesBare p op)
  | .segment _ _ => inferInstanceAs (Decidable (_ ∧ _))
  | .read _ => inferInstanceAs (Decidable True)

/-- The receiver follows the stream of the peer. -/
structure Follows (p : PeerStream) (t : Reception) : Prop where
  wf : t.receiver.reassembler.Wf
  ckpt : t.receiver.ckpt = t.receiver.reassembler.startAux
  received : ∀ i, t.receiver.reassembler.Held i ∨ i < t.receiver.reassembler.startAux →
    i < p.data.length ∧ t.Carried (i + 1)
  cuts : ∀ x ∈ t.log, p.Cuts x.1 x.2
  syn_iff : t.receiver.syn = t.synReceived
  syn_of_log : t.log ≠ [] → t.receiver.syn = true
  eof_iff : t.receiver.eof = t.finReceived
  lenStream : t.receiver.lenStream = if t.finReceived then p.data.length else 2 ^ 64 - 1
  of_syn : t.receiver.syn = true → t.receiver.isn = p.isn ∧
    t.receiver.ack = wrap (t.receiver.ckpt +
      if t.receiver.ckpt = t.receiver.lenStream then 2 else 1) p.isn

namespace Follows

theorem bytesWritten_eq (h : t.Follows p) :
    t.bytesWritten = t.receiver.reassembler.startAux :=
  h.wf.startAux_eq.symm

theorem bytesWritten_le (h : t.Follows p) : t.bytesWritten ≤ p.data.length := by
  by_contra hlt
  have hlast := h.received p.data.length (Or.inr (by rw [← h.bytesWritten_eq]; omega))
  exact Nat.lt_irrefl _ hlast.1

theorem ckpt_eq_lenStream_iff (h : t.Follows p) :
    t.receiver.ckpt = t.receiver.lenStream ↔
      t.finReceived = true ∧ t.bytesWritten = p.data.length := by
  have hle := h.bytesWritten_le
  have hlen := p.length_lt
  rw [h.lenStream, h.ckpt, ← h.bytesWritten_eq]
  cases t.finReceived with
  | false =>
      simp only [Bool.false_eq_true, if_false, false_and, iff_false]
      omega
  | true => simp

theorem tracks (h : t.Follows p) :
    t.receiver.Tracks p.isn p.data.length t.finReceived
      fun i ↦ i < p.data.length ∧ t.Carried (i + 1) :=
  ⟨h.wf, h.ckpt, h.received, h.lenStream, h.of_syn⟩

/-- What a processed segment does to a receiver that follows the stream. -/
theorem exists_processed (h : t.Follows p) (hop : t.Arrives p (.segment q seg))
    (hread : p.ReadsRight q seg)
    (hsyn : t.receiver.syn = true ∨ seg.header.syn = true) :
    ∃ m, TcpReceiver.Processed t.receiver (t.receiver.segmentReceived seg) seg (q - 1) m := by
  obtain ⟨hcuts, hnear, hnear'⟩ := hop
  have hle := h.bytesWritten_le
  have hckpt : t.receiver.ckpt = t.bytesWritten := by rw [h.ckpt, h.bytesWritten_eq]
  exact h.tracks.exists_processed (hcuts.placed hread) p.length_lt (by omega) (by omega)
    (by omega) hsyn

end Follows

theorem Carried.concat {n : ℕ} (h : t.Carried n) {t' : Reception} {x : ℕ × TcpSegment}
    (hlog : t'.log = t.log ++ [x]) : t'.Carried n := by
  obtain ⟨y, hy, hyn⟩ := h
  exact ⟨y, by rw [hlog]; exact List.mem_append_left _ hy, hyn⟩

theorem log_step_of_syn (hsyn : t.receiver.syn = true ∨ seg.header.syn = true) :
    (t.step (.segment q seg)).log = t.log ++ [(q, seg)] := by
  have hor : (t.receiver.syn || seg.header.syn) = true := by
    rcases hsyn with hs | hs <;> simp [hs]
  simp only [step, hor, if_true]

theorem step_of_unsynced (h : ¬(t.receiver.syn = true ∨ seg.header.syn = true)) :
    t.step (.segment q seg) = t := by
  have hsame := TcpReceiver.segmentReceived_of_unsynced h
  rw [← Bool.or_eq_true, Bool.not_eq_true] at h
  simp only [step, h, Bool.false_eq_true, if_false, hsame]

theorem follows_segment (h : t.Follows p) (hop : t.Arrives p (.segment q seg))
    (hread : p.ReadsRight q seg)
    (hsyn : t.receiver.syn = true ∨ seg.header.syn = true) :
    (t.step (.segment q seg)).Follows p := by
  obtain ⟨m, hm⟩ := h.exists_processed hop hread hsyn
  have hcuts := hop.1
  have hbound := hcuts.bound
  have hlog := log_step_of_syn (q := q) hsyn
  have hfin : (t.step (.segment q seg)).finReceived = (t.finReceived || seg.header.fin) := by
    simp only [finReceived, hlog, List.any_append, List.any_cons, List.any_nil, Bool.or_false]
  have htracks : (t.receiver.segmentReceived seg).Tracks p.isn p.data.length
      (t.finReceived || seg.header.fin)
      fun i ↦ i < p.data.length ∧ (t.step (.segment q seg)).Carried (i + 1) := by
    refine h.tracks.processed (hcuts.placed hread) p.length_lt hsyn hm (fun i hi ↦ ?_)
      (fun i hi hi' ↦ ?_)
    · exact ⟨hi.1, hi.2.concat hlog⟩
    · refine ⟨by omega, (q, seg), by rw [hlog]; simp, by simp only; omega, ?_⟩
      simp only [hcuts.length_eq]
      split_ifs <;> omega
  rw [← hfin] at htracks
  constructor
  case wf => exact htracks.wf
  case ckpt => exact htracks.ckpt
  case received => exact htracks.received
  case cuts =>
    intro x hx
    rw [hlog] at hx
    rcases List.mem_append.mp hx with hx | hx
    · exact h.cuts x hx
    · rw [List.mem_singleton.mp hx]
      exact hcuts
  case syn_iff =>
    change (t.receiver.segmentReceived seg).syn = _
    simp only [synReceived, hlog, List.any_append, List.any_cons, List.any_nil, Bool.or_false]
    rw [hm.syn]
    rcases hsyn with hs | hs
    · have hold := h.syn_iff
      rw [hs] at hold
      rw [synReceived] at hold
      rw [← hold, Bool.true_or]
    · rw [hs, Bool.or_true]
  case syn_of_log => exact fun _ ↦ hm.syn
  case eof_iff =>
    change (t.receiver.segmentReceived seg).eof = _
    rw [hm.eof, hfin, h.eof_iff]
  case lenStream => exact htracks.lenStream
  case of_syn => exact htracks.of_syn

theorem follows_read (h : t.Follows p) (len : ℕ) : (t.step (.read len)).Follows p where
  wf := h.wf.readOutput len
  ckpt := h.ckpt
  received := h.received
  cuts := h.cuts
  syn_iff := h.syn_iff
  syn_of_log := h.syn_of_log
  eof_iff := h.eof_iff
  lenStream := h.lenStream
  of_syn := h.of_syn

theorem follows_step (h : t.Follows p) {op : Arrival} (hop : t.Arrives p op)
    (hread : ∀ q seg, op = .segment q seg → p.ReadsRight q seg) : (t.step op).Follows p := by
  cases op with
  | read len => exact follows_read h len
  | segment q seg =>
      by_cases hsyn : t.receiver.syn = true ∨ seg.header.syn = true
      · exact follows_segment h hop (hread q seg rfl) hsyn
      · rw [step_of_unsynced hsyn]
        exact h

theorem follows_new (p : PeerStream) {c : ℕ} (hc : 1 ≤ c) : (new c).Follows p := by
  have htracks := TcpReceiver.tracks_new hc p.isn p.data.length
    fun i ↦ i < p.data.length ∧ (new c).Carried (i + 1)
  exact ⟨htracks.wf, htracks.ckpt, htracks.received, by simp [new], rfl, by simp [new], rfl,
    htracks.lenStream, htracks.of_syn⟩

theorem readsRight_of_bare {op : Arrival} (hop : t.ArrivesBare p op) :
    t.Arrives p op ∧ ∀ q seg, op = .segment q seg → p.ReadsRight q seg := by
  cases op with
  | read len => exact ⟨trivial, by simp⟩
  | segment q seg =>
      refine ⟨hop.1, ?_⟩
      rintro q' seg' heq hzero
      obtain ⟨rfl, rfl⟩ := Arrival.segment.inj heq
      exact Or.inl (hop.2 hzero)

namespace Follows

/-- Every number below the acknowledged position was carried by a segment received. -/
theorem carried_of_lt_position (h : t.Follows p) (hsyn : t.synReceived = true) {n : ℕ}
    (hn : n < position p t) : t.Carried n := by
  have hwritten := h.bytesWritten_eq
  cases n with
  | zero =>
      obtain ⟨x, hx, hxsyn⟩ := List.any_eq_true.mp hsyn
      have hcuts := h.cuts x hx
      have hzero : x.1 = 0 := by simpa [hcuts.syn] using hxsyn
      have hlen := hcuts.length_eq
      rw [if_pos hzero] at hlen
      exact ⟨x, hx, by omega, by omega⟩
  | succ n =>
      by_cases hlt : n < t.bytesWritten
      · exact (h.received n (Or.inr (by omega))).2
      · -- The number of the FIN itself.
        rw [position] at hn
        split_ifs at hn with hfin
        · obtain ⟨x, hx, hxfin⟩ := List.any_eq_true.mp hfin.1
          have hcuts := h.cuts x hx
          have hend := hcuts.fin hxfin
          have hlen := hcuts.length_eq
          rw [if_pos hxfin] at hlen
          split_ifs at hlen <;> exact ⟨x, hx, by omega, by omega⟩
        · omega

theorem ackno_eq (h : t.Follows p) (hsyn : t.synReceived = true) :
    t.receiver.ackno = some (wrap (position p t) p.isn) := by
  have hs : t.receiver.syn = true := by rw [h.syn_iff, hsyn]
  have hckpt : t.receiver.ckpt = t.bytesWritten := by rw [h.ckpt, h.bytesWritten_eq]
  have hif : (if t.receiver.ckpt = t.receiver.lenStream then 2 else 1) =
      if t.finReceived = true ∧ t.bytesWritten = p.data.length then 2 else 1 := by
    simp only [h.ckpt_eq_lenStream_iff]
  rw [TcpReceiver.ackno, if_pos hs, (h.of_syn hs).2, hif, hckpt, position]

end Follows

theorem position_le_step (h : t.Follows p) {op : Arrival} (hop : t.Arrives p op)
    (hread : ∀ q seg, op = .segment q seg → p.ReadsRight q seg) :
    position p t ≤ position p (t.step op) := by
  have hnext := follows_step h hop hread
  have hle := hnext.bytesWritten_le
  have hmono : t.bytesWritten ≤ (t.step op).bytesWritten ∧
      (t.finReceived = true → (t.step op).finReceived = true) := by
    cases op with
    | read len => exact ⟨le_refl _, id⟩
    | segment q seg =>
        by_cases hsyn : t.receiver.syn = true ∨ seg.header.syn = true
        · obtain ⟨m, hm⟩ := h.exists_processed hop (hread q seg rfl) hsyn
          have hstart := hm.pushed.startAux
          rw [h.bytesWritten_eq, hnext.bytesWritten_eq]
          refine ⟨by rw [step, hstart]; omega, fun hfin ↦ ?_⟩
          rw [finReceived, log_step_of_syn hsyn, List.any_append]
          rw [finReceived] at hfin
          simp [hfin]
        · rw [step_of_unsynced hsyn]
          exact ⟨le_refl _, id⟩
  simp only [position]
  split_ifs with hold hnew hnew
  · omega
  · exact absurd ⟨hmono.2 hold.1, by omega⟩ hnew
  · omega
  · omega

/-- After the first SYN the receiver acknowledges what was written, and the FIN when it
was received and all was written. The acknowledged position never moves back, and
every number before it was carried by a segment received. -/
theorem ackno_of_peer_segments (p : PeerStream) {c : ℕ} (hc : 1 ≤ c)
    (ops more : List Arrival) (hops : Along step (fun t ↦ t.ArrivesBare p) (new c) (ops ++ more)) :
    let t := run step (new c) ops
    (t.synReceived = true →
      t.receiver.ackno = some (wrap (position p t) p.isn) ∧ ∀ n < position p t, t.Carried n) ∧
    position p t ≤ position p (run step (new c) (ops ++ more)) := by
  intro t
  obtain ⟨hbefore, hafter⟩ := along_append.mp hops
  have hstep : ∀ (t : Reception) (op : Arrival), t.Follows p → t.ArrivesBare p op →
      (t.step op).Follows p := by
    intro t op ht hop
    obtain ⟨harr, hread⟩ := readsRight_of_bare hop
    exact follows_step ht harr hread
  have h : t.Follows p := run_invariant hstep (follows_new p hc) hbefore
  refine ⟨fun hsyn ↦ ⟨h.ackno_eq hsyn, fun n hn ↦ h.carried_of_lt_position hsyn hn⟩, ?_⟩
  rw [run_append]
  refine run_monotone hstep ?_ h hafter
  intro t op ht hop
  obtain ⟨harr, hread⟩ := readsRight_of_bare hop
  exact position_le_step ht harr hread

/-- The stream `abc` in three segments, the last one first. -/
theorem ackno_of_abc :
    let p : PeerStream := ⟨⟨7⟩, [97, 98, 99], by decide⟩
    let t := run step (new 4)
      [.segment 0 { header := { seqno := ⟨7⟩, syn := true } },
        .segment 3 { header := { seqno := ⟨10⟩, fin := true }, payload := [99] },
        .segment 1 { header := { seqno := ⟨8⟩ }, payload := [97, 98] }]
    t.synReceived = true ∧ position p t = 5 ∧
      t.receiver.ackno = some (wrap (position p t) p.isn) :=
  ⟨by decide, by decide,
    ((ackno_of_peer_segments ⟨⟨7⟩, [97, 98, 99], by decide⟩ (by decide) _ [] (by decide)).1
      (by decide)).1⟩

end Reception

end Sponge
