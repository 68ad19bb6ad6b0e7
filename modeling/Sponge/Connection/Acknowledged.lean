import Sponge.Connection.Sends
import Sponge.Lib.Runs
import Sponge.Receiver.Segment
import Sponge.Sender.FullWindow

/-!
# Every segment acknowledges

Once the SYN of the peer has arrived, whatever leaves a connection is stamped
with the acknowledgment of its receiver. Before that nothing is stamped, and
nothing but the SYN should leave: it fills the first window. This only holds
as long as nothing that arrives early widens the window or is answered.
-/

namespace Sponge

open Lib

namespace TcpSender

variable {s : TcpSender}

/-- Nothing but the SYN was sent, and it fills the window. -/
structure SynOnly (s : TcpSender) : Prop where
  queue : ∀ seg ∈ s.segmentsOut, seg.header.syn = true
  outstanding : ∀ seg ∈ s.segmentsOutstanding, seg.header.syn = true
  windowSize : s.windowSize = 1
  bytesFlying : s.bytesFlying = if s.nextSeqno = 0 then 0 else 1

theorem synOnly_new (capacity : ℕ) (retxTimeout : UInt16) (fixedIsn : Option WrappingInt32)
    (random : UInt32) : (new capacity retxTimeout fixedIsn random).SynOnly := by
  constructor <;> simp [new]

theorem SynOnly.withStream (h : s.SynOnly) (stream : ByteStream) :
    ({ s with stream := stream } : TcpSender).SynOnly :=
  ⟨h.queue, h.outstanding, h.windowSize, h.bytesFlying⟩

theorem SynOnly.fillWindow (h : s.SynOnly) : s.fillWindow.SynOnly := by
  have hflying := h.bytesFlying
  have hwin := h.windowSize
  by_cases hnext : s.nextSeqno = 0
  · rw [if_pos hnext] at hflying
    rw [TcpSender.fillWindow, if_pos hnext, sendSyn, pushSegment]
    constructor
    · exact List.forall_mem_append.mpr ⟨h.queue, by simp⟩
    · exact List.forall_mem_append.mpr ⟨h.outstanding, by simp⟩
    · exact hwin
    · simp [hflying, add64]
  · -- The SYN in flight leaves no room, and the window is not closed.
    rw [if_neg hnext] at hflying
    have hfull : ¬s.HasRoom := by
      rw [HasRoom, hwin, hflying]
      decide
    have hsame : s.fillWindow = s := fillWindow_eq_self hnext fun hboth ↦ hfull hboth.1
    rw [hsame]
    exact h

theorem SynOnly.tick (h : s.SynOnly) (ms : ℕ) : (s.tick ms).SynOnly := by
  obtain ⟨out, times, time, consec, rto, heq, -, hout⟩ := exists_tick s ms
  rw [heq]
  refine ⟨?_, h.outstanding, h.windowSize, h.bytesFlying⟩
  rcases hout with rfl | rfl
  · exact h.queue
  · refine List.forall_mem_append.mpr ⟨h.queue, fun seg hseg ↦ ?_⟩
    rw [Option.mem_toList] at hseg
    exact h.outstanding seg (List.mem_of_mem_head? hseg)

end TcpSender

theorem TcpReceiver.ackno_eq_none_iff (r : TcpReceiver) : r.ackno = none ↔ r.syn = false := by
  simp [ackno]

namespace TcpConnection

variable {c c' : TcpConnection} {s : TcpSender} {r : TcpReceiver} {seg : TcpSegment}

/-- Before the SYN of the peer, a segment acknowledges nothing and occupies no number. -/
def OpensWithSyn (c : TcpConnection) : Op → Prop
  | .segmentReceived seg => c.receiver.ackno = none → seg.header.syn = false →
      seg.header.ack = false ∧ seg.lengthInSequenceSpace = 0
  | _ => True

instance (c : TcpConnection) : (op : Op) → Decidable (c.OpensWithSyn op)
  | .segmentReceived _ => inferInstanceAs (Decidable (_ → _ → _))
  | .connect | .write _ | .endInputStream | .tick _ | .read _ | .takeSegment =>
    inferInstanceAs (Decidable True)

/-- A segment that has an acknowledgment has that of the receiver; without a SYN of the peer
there is none, and the segment is a SYN. -/
def Marked (r : TcpReceiver) (seg : TcpSegment) : Prop :=
  match r.ackno with
  | some ackno => seg.header.ack = true ∧ seg.header.ackno = ackno
  | none => seg.header.syn = true

theorem marked_stamp (r : TcpReceiver) (rst : Bool) (h : r.syn = true ∨ seg.header.syn = true) :
    Marked r (stamp r rst seg) := by
  rw [Marked, stamp]
  cases hack : r.ackno with
  | some ackno => cases rst <;> exact ⟨rfl, rfl⟩
  | none =>
      have hsyn : seg.header.syn = true :=
        h.resolve_left (by simp [r.ackno_eq_none_iff.mp hack])
      cases rst <;> exact hsyn

/-- The invariant: before the SYN of the peer only the own SYN was sent. -/
def Opening (c : TcpConnection) : Prop := c.receiver.syn = false → c.sender.SynOnly

/-- A step that the invariant survives, and whose segments are marked. -/
structure Acknowledges (c c' : TcpConnection) : Prop where
  opening : c'.Opening
  marked : ∀ seg ∈ emitted c c', Marked c'.receiver seg

theorem acknowledges_of_sends (hsends : Sends c c' s r) (h : r.syn = true ∨ s.SynOnly) :
    Acknowledges c c' := by
  have hsyn : c'.receiver.syn = r.syn := by
    rcases hsends.receiver with heq | heq <;> rw [heq]
    rfl
  constructor
  · intro hunsynced
    have hs : s.SynOnly := h.resolve_left (by rw [← hsyn, hunsynced]; exact Bool.false_ne_true)
    obtain ⟨stream, -, heq⟩ := hsends.exists_sender
    rw [heq]
    exact ⟨by simp, hs.outstanding, hs.windowSize, hs.bytesFlying⟩
  · rw [hsends.emitted_eq]
    intro seg hseg
    obtain ⟨seg', hmem, rfl⟩ := List.mem_map.mp hseg
    refine marked_stamp _ _ ?_
    rw [hsyn]
    exact h.imp id fun hs ↦ hs.queue seg' hmem

theorem acknowledges_of_quiet (h : c.Opening) (hsender : c'.sender = c.sender)
    (hsyn : c'.receiver.syn = c.receiver.syn) (hquiet : emitted c c' = []) :
    Acknowledges c c' :=
  ⟨fun hunsynced ↦ hsender ▸ h (hsyn ▸ hunsynced), by simp [hquiet]⟩

theorem syn_passed (h : c.receiver.syn = true ∨ seg.header.syn = true) :
    (c.passed seg).syn = true := by
  rw [passed]
  split_ifs with hlen
  · rw [TcpReceiver.segmentReceived_eq h]
  · refine h.resolve_right fun hsyn ↦ hlen ?_
    simp [TcpSegment.lengthInSequenceSpace, hsyn]

/-- Before the SYN of the peer, a segment that carries nothing is not answered. -/
theorem sends_of_bare (hun : c.receiver.syn = false) (hsyn : seg.header.syn = false)
    (hack : seg.header.ack = false) (hlen : seg.lengthInSequenceSpace = 0) :
    Sends c (c.segmentReceived seg) c.sender c.receiver := by
  have hrelay : (c.relayAck seg).passToReceiver seg = c := by
    simp [relayAck, passToReceiver, hack, hlen]
  have hnone : c.receiver.ackno = none := (TcpReceiver.ackno_eq_none_iff _).mpr hun
  have hnone' : c.receiver.setError.ackno = none := hnone
  have hfin : seg.header.fin = false := by
    by_contra hfin
    simp [TcpSegment.lengthInSequenceSpace, hfin] at hlen
  simp only [segmentReceived, hrelay, hsyn, Bool.false_and, Bool.false_eq_true, if_false,
    resetBy, answer, answers, stopLingering, hfin, hlen]
  split_ifs with hrst hans hans
  · simp [setErrors, hnone'] at hans
  · exact ⟨Or.inr rfl, Or.inr rfl, rfl⟩
  · simp [hnone] at hans
  · exact ⟨Or.inl rfl, Or.inl rfl, rfl⟩

theorem acknowledges_segmentReceived (h : c.Opening)
    (hop : c.OpensWithSyn (.segmentReceived seg)) :
    Acknowledges c (c.segmentReceived seg) := by
  by_cases hsyn : c.receiver.syn = true ∨ seg.header.syn = true
  · obtain ⟨s, -, hsends⟩ := exists_sends_segmentReceived c seg
    exact acknowledges_of_sends hsends (Or.inl (syn_passed hsyn))
  · rw [not_or, Bool.not_eq_true, Bool.not_eq_true] at hsyn
    obtain ⟨hack, hlen⟩ := hop ((TcpReceiver.ackno_eq_none_iff _).mpr hsyn.1) hsyn.2
    exact acknowledges_of_sends (sends_of_bare hsyn.1 hsyn.2 hack hlen) (Or.inr (h hsyn.1))

theorem acknowledges_step (h : c.Opening) (op : Op) (hop : c.OpensWithSyn op) :
    Acknowledges c (c.step op) := by
  have hcases : c.receiver.syn = true ∨ c.sender.SynOnly := by
    cases hsyn : c.receiver.syn with
    | true => exact Or.inl rfl
    | false => exact Or.inr (h hsyn)
  cases op with
  | connect => exact acknowledges_of_sends (sends_connect c) (hcases.imp id (·.fillWindow))
  | write data =>
      exact acknowledges_of_sends (sends_write c data)
        (hcases.imp id fun hs ↦ (hs.withStream _).fillWindow)
  | endInputStream =>
      exact acknowledges_of_sends (sends_endInputStream c)
        (hcases.imp id fun hs ↦ (hs.withStream _).fillWindow)
  | tick ms => exact acknowledges_of_sends (sends_tick c ms) (hcases.imp id (·.tick ms))
  | read len => exact acknowledges_of_quiet h rfl rfl (by simp [emitted, step])
  | segmentReceived seg => exact acknowledges_segmentReceived h hop
  | takeSegment => exact acknowledges_of_quiet h rfl rfl (by simp [emitted, step])

/-- If the peer opens with its SYN, every segment that is neither a SYN nor a RST carries the
current acknowledgment of the receiver, and before the SYN of the peer nothing but SYNs leave. -/
theorem segments_acknowledge (cfg : TcpConfig) (random : UInt32) (ops : List Op) (op : Op)
    (hops : Along step OpensWithSyn (new cfg random) (ops ++ [op])) :
    let c := run step (new cfg random) ops
    let c' := c.step op
    (∀ seg ∈ emitted c c', seg.header.syn = false → seg.header.rst = false →
        seg.header.ack = true ∧ c'.receiver.ackno = some seg.header.ackno) ∧
      (c'.receiver.ackno = none → ∀ seg ∈ emitted c c', seg.header.syn = true) := by
  intro c c'
  obtain ⟨hfront, hlast⟩ := along_append.mp hops
  have hc : c.Opening := by
    refine run_invariant (I := Opening) ?_ (fun _ ↦ TcpSender.synOnly_new _ _ _ _) hfront
    exact fun c op hc hop ↦ (acknowledges_step hc op hop).opening
  have hmarked := (acknowledges_step hc op hlast.1).marked
  change ∀ seg ∈ emitted c c', Marked c'.receiver seg at hmarked
  constructor
  · intro seg hseg hsyn _
    have hmark := hmarked seg hseg
    rw [Marked] at hmark
    cases hack : c'.receiver.ackno with
    | some ackno =>
        rw [hack] at hmark
        exact ⟨hmark.1, congrArg some hmark.2.symm⟩
    | none =>
        rw [hack] at hmark
        exact absurd (hsyn.symm.trans hmark) Bool.false_ne_true
  · intro hnone seg hseg
    have hmark := hmarked seg hseg
    rwa [Marked, hnone] at hmark

/-- The reply to a byte of the peer, after its SYN. -/
theorem reply_acknowledges :
    let c := run step (new { recvCapacity := 4, sendCapacity := 4, fixedIsn := some ⟨7⟩ } 0)
      [.connect,
        .segmentReceived { header :=
          { seqno := ⟨20⟩, syn := true, ack := true, ackno := ⟨8⟩, win := 10 } }]
    let c' := c.step (.segmentReceived { header := { seqno := ⟨21⟩ }, payload := [97] })
    (emitted c c').length = 1 ∧
      ∀ seg ∈ emitted c c', seg.header.syn = false → seg.header.rst = false →
        seg.header.ack = true ∧ c'.receiver.ackno = some seg.header.ackno :=
  ⟨by decide +kernel,
    (segments_acknowledge { recvCapacity := 4, sendCapacity := 4, fixedIsn := some ⟨7⟩ } 0 _ _
      (by decide +kernel)).1⟩

/-- A byte that arrives before the SYN of the peer is answered by an empty segment without an
acknowledgment; an acknowledgment that arrives before it lets the own bytes out without one. -/
theorem segments_before_syn :
    let listening := new { recvCapacity := 4, sendCapacity := 4, fixedIsn := some ⟨7⟩ } 0
    let answered := listening.step
      (.segmentReceived { header := { seqno := ⟨21⟩ }, payload := [97] })
    let connecting := run step listening [.connect, .write [97]]
    let acked := connecting.step
      (.segmentReceived { header := { seqno := ⟨21⟩, ack := true, ackno := ⟨8⟩, win := 10 } })
    (emitted listening answered).map (fun seg ↦ (seg.header, seg.payload)) =
        [({ seqno := ⟨7⟩ }, [])] ∧
      (emitted connecting acked).map (fun seg ↦ (seg.header, seg.payload)) =
        [({ seqno := ⟨8⟩ }, [97])] ∧
      answered.receiver.ackno = none ∧ acked.receiver.ackno = none := by
  decide +kernel

end TcpConnection

end Sponge
