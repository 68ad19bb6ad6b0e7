import Sponge.Connection.Model

/-!
# What an operation leaves behind

Every operation of a connection brings its sender to some state, passes what it
gets to its receiver and then empties the queue of the sender into its own,
stamped. Both streams may be marked as failed on the way. `Sends` says this
once for all operations.
-/

namespace Sponge.TcpConnection

variable {c c' : TcpConnection} {s : TcpSender} {r : TcpReceiver} {seg : TcpSegment}

/-- A stamp changes nothing but the acknowledgment, the window and the reset flag. -/
theorem exists_stamp (r : TcpReceiver) (rstToSend : Bool) (seg : TcpSegment) :
    ∃ ack ackno win rst, stamp r rstToSend seg =
      { seg with
        header := { seg.header with ack := ack, ackno := ackno, win := win, rst := rst } } := by
  rw [stamp]
  cases r.ackno <;> cases rstToSend <;> exact ⟨_, _, _, _, rfl⟩

/-- An acknowledgment that the sender did not set is that of the receiver. -/
theorem ackno_of_stamp {rst : Bool} (hack : seg.header.ack = false)
    (h : (stamp r rst seg).header.ack = true) :
    r.ackno = some (stamp r rst seg).header.ackno := by
  rw [stamp] at h ⊢
  cases hr : r.ackno with
  | none => cases rst <;> simp [hr, hack] at h
  | some ackno => cases rst <;> rfl

/-- The sender came to `s` and the receiver to `r` before the queue was emptied. -/
structure Sends (c c' : TcpConnection) (s : TcpSender) (r : TcpReceiver) : Prop where
  sender : c'.sender = { s with segmentsOut := [] } ∨
    c'.sender = { s.setError with segmentsOut := [] }
  receiver : c'.receiver = r ∨ c'.receiver = r.setError
  segmentsOut : c'.segmentsOut =
    c.segmentsOut ++ s.segmentsOut.map (stamp c'.receiver c'.rstToSend)

theorem Sends.exists_sender (h : Sends c c' s r) :
    ∃ stream : ByteStream, stream.SameBytes s.stream ∧
      c'.sender = { s with segmentsOut := [], stream := stream } := by
  rcases h.sender with heq | heq
  · exact ⟨s.stream, ⟨rfl, rfl, rfl⟩, heq⟩
  · exact ⟨s.stream.setError, s.stream.sameBytes_setError, heq⟩

theorem Sends.queue_eq_nil (h : Sends c c' s r) : c'.sender.segmentsOut = [] := by
  obtain ⟨stream, -, heq⟩ := h.exists_sender
  rw [heq]

/-- The segments that the step to `c'` put on the queue of `c`. -/
def emitted (c c' : TcpConnection) : List TcpSegment := c'.segmentsOut.drop c.segmentsOut.length

theorem Sends.emitted_eq (h : Sends c c' s r) :
    emitted c c' = s.segmentsOut.map (stamp c'.receiver c'.rstToSend) := by
  rw [emitted, h.segmentsOut, List.drop_left]

theorem sends_connect (c : TcpConnection) :
    Sends c c.connect c.sender.fillWindow c.receiver :=
  ⟨Or.inl rfl, Or.inl rfl, rfl⟩

theorem sends_write (c : TcpConnection) (data : List UInt8) :
    Sends c (c.write data)
      ({ c.sender with stream := c.sender.stream.write data } : TcpSender).fillWindow c.receiver :=
  ⟨Or.inl rfl, Or.inl rfl, rfl⟩

theorem sends_endInputStream (c : TcpConnection) :
    Sends c c.endInputStream
      ({ c.sender with stream := c.sender.stream.endInput } : TcpSender).fillWindow c.receiver :=
  ⟨Or.inl rfl, Or.inl rfl, rfl⟩

theorem sends_tick (c : TcpConnection) (ms : ℕ) :
    Sends c (c.tick ms) (c.sender.tick ms) c.receiver := by
  simp only [tick]
  split_ifs
  · exact ⟨Or.inr rfl, Or.inr rfl, rfl⟩
  · exact ⟨Or.inl rfl, Or.inl rfl, rfl⟩

theorem sends_read (hqueue : c.sender.segmentsOut = []) (len : ℕ) :
    Sends c (c.step (.read len)) c.sender (c.receiver.readOutput len) := by
  refine ⟨Or.inl ?_, Or.inl rfl, by simp [hqueue, step]⟩
  rw [← hqueue]
  rfl

/-- The sender after the acknowledgment of a segment. -/
def relayed (c : TcpConnection) (seg : TcpSegment) : TcpSender :=
  if seg.header.ack then c.sender.ackReceived seg.header.ackno seg.header.win else c.sender

/-- The receiver after a segment. -/
def passed (c : TcpConnection) (seg : TcpSegment) : TcpReceiver :=
  if seg.lengthInSequenceSpace ≠ 0 then c.receiver.segmentReceived seg else c.receiver

theorem relayAck_passToReceiver (c : TcpConnection) (seg : TcpSegment) :
    (c.relayAck seg).passToReceiver seg =
      { c with sender := c.relayed seg, receiver := c.passed seg } := by
  simp only [relayAck, passToReceiver, relayed, passed]
  split_ifs <;> rfl

/-- The segment is a SYN that a listening connection answers with its own. -/
def Listens (c : TcpConnection) (seg : TcpSegment) : Prop :=
  seg.header.syn = true ∧ seg.header.ack = false ∧ c.connectCalled = false

instance (c : TcpConnection) (seg : TcpSegment) : Decidable (c.Listens seg) :=
  inferInstanceAs (Decidable (_ ∧ _ ∧ _))

theorem listens_iff (c : TcpConnection) (seg : TcpSegment) :
    (seg.header.syn && !seg.header.ack && !c.connectCalled) = true ↔ c.Listens seg := by
  simp [Listens, and_assoc]

theorem sends_of_listens (h : c.Listens seg) :
    Sends c (c.segmentReceived seg) (c.relayed seg).fillWindow (c.passed seg) := by
  simp only [segmentReceived, relayAck_passToReceiver]
  rw [if_pos ((listens_iff c seg).mpr h)]
  exact ⟨Or.inl rfl, Or.inl rfl, rfl⟩

/-- A reset may mark the streams as failed, and the segment may be answered. -/
theorem sends_of_not_listens (h : ¬c.Listens seg) :
    Sends c (c.segmentReceived seg)
      (if ({ c with receiver := c.passed seg } : TcpConnection).answers seg then
        (c.relayed seg).sendEmptySegment else c.relayed seg) (c.passed seg) := by
  simp only [segmentReceived, relayAck_passToReceiver]
  rw [if_neg fun hlisten ↦ h ((listens_iff c seg).mp hlisten)]
  simp only [resetBy, answer, stopLingering, setErrors, answers, TcpReceiver.ackno,
    TcpReceiver.setError]
  split_ifs
  all_goals first
    | exact ⟨Or.inr rfl, Or.inr rfl, rfl⟩
    | exact ⟨Or.inl rfl, Or.inl rfl, rfl⟩

theorem exists_sends_segmentReceived (c : TcpConnection) (seg : TcpSegment) :
    ∃ s, (s = c.relayed seg ∨ s = (c.relayed seg).fillWindow ∨
        s = (c.relayed seg).sendEmptySegment) ∧
      Sends c (c.segmentReceived seg) s (c.passed seg) := by
  by_cases h : c.Listens seg
  · exact ⟨_, Or.inr (Or.inl rfl), sends_of_listens h⟩
  · refine ⟨_, ?_, sends_of_not_listens h⟩
    split_ifs
    · exact Or.inr (Or.inr rfl)
    · exact Or.inl rfl

end Sponge.TcpConnection
