import Sponge.Connection.Inbound
import Sponge.Connection.OutboundClose
import Sponge.Sender.FullWindow

/-!
# A closed connection

`active` is computed anew from seven pieces of state, all of which can still
change after it has returned `false`. A reset is final. A clean shutdown stays
one unless somebody disturbs it: a byte written or received after the end of a
stream, a segment that arrives after the linger time, or a clock that runs
over.
-/

namespace Sponge

open Lib

namespace TcpSender

variable {s : TcpSender}

/-- The stream is at its end and nothing is in flight. -/
structure Finished (s : TcpSender) : Prop where
  closable : s.Closable
  bytesFlying : s.bytesFlying = 0
  eof : s.stream.eof = true

namespace Finished

/-- The FIN was sent, so there is nothing to fill the window with. -/
theorem fillWindow_eq (h : s.Finished) : s.fillWindow = s := by
  obtain ⟨hfin, -, hnext⟩ := h.closable.fin_acked h.bytesFlying h.eof
  have hbuf := bufferSize_eq_zero_of_eof h.eof
  apply fillWindow_eq_self (by omega)
  rintro ⟨-, hmore | ⟨-, hopen⟩⟩
  · omega
  · simp [hfin] at hopen

/-- Everything was acknowledged, so an acknowledgment changes nothing but the window. -/
theorem ackReceived_eq (h : s.Finished) (ackno : WrappingInt32) (w : UInt16) :
    s.ackReceived ackno w = { s with windowSize := w.toNat } := by
  obtain ⟨-, hacked, hnext⟩ := h.closable.fin_acked h.bytesFlying h.eof
  refine if_pos ?_
  by_contra huse
  rcases h.closable with ⟨hun, -⟩ | ⟨⟨start, hal⟩, -⟩
  · have hzero := hun.nextSeqno
    omega
  · obtain ⟨hnew, hsent⟩ := hal.counts.lt_and_le_of_not_useless hal.nextSeqno_ne_zero huse
    omega

theorem ackReceived (h : s.Finished) (ackno : WrappingInt32) (w : UInt16) :
    (s.ackReceived ackno w).Finished := by
  obtain ⟨-, -, hnext⟩ := h.closable.fin_acked h.bytesFlying h.eof
  have heq := h.ackReceived_eq ackno w
  exact ⟨h.closable.ackReceived (by omega) ackno w, heq ▸ h.bytesFlying, heq ▸ h.eof⟩

end Finished

end TcpSender

namespace TcpConnection

variable {c c' : TcpConnection} {s : TcpSender} {r : TcpReceiver} {seg : TcpSegment}

/-- The connection was reset, by the peer or by its own timer. -/
def Reset (c : TcpConnection) : Prop := c.rstReceived = true ∨ c.rstToSend = true

instance (c : TcpConnection) : Decidable c.Reset := inferInstanceAs (Decidable (_ ∨ _))

/-- Both streams came to their ends. -/
structure Shut (c : TcpConnection) : Prop where
  inbound : c.receiver.streamOut.eof = true
  bytesFlying : c.sender.bytesFlying = 0
  outbound : c.sender.stream.eof = true

theorem active_eq_false_iff (c : TcpConnection) :
    c.active = false ↔ c.Reset ∨ (c.Shut ∧ (c.lingerAfterStreamsFinish = false ∨
      10 * c.cfg.rtTimeout.toNat ≤ c.timeSinceLastSegmentReceived)) := by
  have hshut : (c.receiver.streamOut.eof && c.bytesInFlight == 0 &&
      c.sender.streamIn.eof) = true ↔ c.Shut := by
    simp only [Bool.and_eq_true, beq_iff_eq, and_assoc]
    exact ⟨fun h ↦ ⟨h.1, h.2.1, h.2.2⟩, fun h ↦ ⟨h.inbound, h.bytesFlying, h.outbound⟩⟩
  rw [active, Reset]
  split_ifs with hreset hboth hlinger
  · simp only [true_iff]
    exact Or.inl (by simpa using hreset)
  · have := hshut.mp hboth
    simp_all
  · have := hshut.mp hboth
    simp_all
  · have hopen : ¬c.Shut := fun h ↦ hboth (hshut.mpr h)
    simp_all

/-- What does not disturb a connection. An acknowledgment arrives only after the SYN was sent, and
the inbound stream keeps below the largest index. Once the connection is closed without a reset, no
segment arrives if it had lingered and none comes with the next byte or finds it held, no written
byte is accepted, and the clock does not run over. -/
def Undisturbed (c : TcpConnection) : Op → Prop
  | .segmentReceived seg => c.Reset ∨
      (c.receiver.Bounded seg ∧ (seg.header.ack = true → c.sender.nextSeqnoAbsolute ≠ 0) ∧
        (c.active = false → c.lingerAfterStreamsFinish = false ∧
          (c.receiver.Processes seg → ¬c.receiver.BringsNext seg)))
  | .write data => c.Reset ∨ (c.active = false → c.writeSize data = 0)
  | .tick ms => c.Reset ∨ (c.active = false → c.lingerAfterStreamsFinish = true →
      c.timeSinceLastSegmentReceived + ms < 2 ^ 64)
  | _ => True

instance (c : TcpConnection) : (op : Op) → Decidable (c.Undisturbed op)
  | .segmentReceived _ => inferInstanceAs (Decidable (_ ∨ (_ ∧ (_ → _) ∧ (_ → _ ∧ (_ → ¬_)))))
  | .write _ => inferInstanceAs (Decidable (_ ∨ (_ → _)))
  | .tick _ => inferInstanceAs (Decidable (_ ∨ (_ → _ → _)))
  | .connect | .endInputStream | .read _ | .takeSegment => inferInstanceAs (Decidable True)

theorem segmentReceived_frame (c : TcpConnection) (seg : TcpSegment) :
    (c.segmentReceived seg).cfg = c.cfg ∧ (c.segmentReceived seg).time = c.time ∧
      ((c.segmentReceived seg).timeLastSegmentReceived = c.timeLastSegmentReceived ∨
        (c.segmentReceived seg).timeLastSegmentReceived = c.time) ∧
      (c.Reset → (c.segmentReceived seg).Reset) ∧
      (c.lingerAfterStreamsFinish = false →
        (c.segmentReceived seg).lingerAfterStreamsFinish = false) := by
  simp only [segmentReceived, relayAck_passToReceiver, resetBy, answer, stopLingering, Reset]
  split_ifs
  all_goals first
    | exact ⟨rfl, rfl, Or.inl rfl, id, id⟩
    | exact ⟨rfl, rfl, Or.inr rfl, id, id⟩
    | exact ⟨rfl, rfl, Or.inr rfl, id, fun _ ↦ rfl⟩
    | exact ⟨rfl, rfl, Or.inr rfl, fun _ ↦ Or.inl rfl, id⟩
    | exact ⟨rfl, rfl, Or.inr rfl, fun _ ↦ Or.inl rfl, fun _ ↦ rfl⟩

theorem tick_frame (c : TcpConnection) (ms : ℕ) :
    (c.tick ms).cfg = c.cfg ∧ (c.tick ms).time = add64 c.time ms ∧
      (c.tick ms).timeLastSegmentReceived = c.timeLastSegmentReceived ∧
      (c.Reset → (c.tick ms).Reset) ∧
      (c.tick ms).lingerAfterStreamsFinish = c.lingerAfterStreamsFinish := by
  simp only [tick, Reset]
  split_ifs
  · exact ⟨rfl, rfl, rfl, fun _ ↦ Or.inr rfl, rfl⟩
  · exact ⟨rfl, rfl, rfl, id, rfl⟩

theorem Reset.step (h : c.Reset) (op : Op) : (c.step op).Reset := by
  cases op with
  | segmentReceived seg => exact (segmentReceived_frame c seg).2.2.2.1 h
  | tick ms => exact (tick_frame c ms).2.2.2.1 h
  | connect | write | endInputStream | read | takeSegment => exact h

/-- The invariant: unless the connection was reset, the outbound test is sound and the receiver
regular, and the clock keeps to 64 bits. -/
structure Orderly (c : TcpConnection) : Prop where
  closable : c.Reset ∨ c.sender.Closable
  regular : c.Reset ∨ c.receiver.Regular
  time_lt : c.time < 2 ^ 64
  timeLast_lt : c.timeLastSegmentReceived < 2 ^ 64

theorem orderly_new {cfg : TcpConfig} (hcap : 1 ≤ cfg.recvCapacity) (random : UInt32) :
    (new cfg random).Orderly :=
  ⟨Or.inr (Or.inl ⟨TcpSender.unsent_new _ _ _ _, rfl⟩), Or.inr (TcpReceiver.regular_new hcap),
    by simp [new], by simp [new]⟩

theorem Orderly.step (h : c.Orderly) (op : Op) (hop : c.Undisturbed op) :
    (c.step op).Orderly := by
  have hclosable : (c.step op).Reset ∨ (c.step op).sender.Closable := by
    by_cases hreset : c.Reset
    · exact Or.inl (hreset.step op)
    · right
      refine closable_step (h.closable.resolve_left hreset) op ?_
      rintro seg rfl
      exact (hop.resolve_left hreset).2.1
  have hregular : (c.step op).Reset ∨ (c.step op).receiver.Regular := by
    by_cases hreset : c.Reset
    · exact Or.inl (hreset.step op)
    · refine Or.inr (regular_step (h.regular.resolve_left hreset) op ?_)
      cases op with
      | segmentReceived seg => exact (hop.resolve_left hreset).1
      | connect | write | endInputStream | tick | read | takeSegment => trivial
  cases op with
  | segmentReceived seg =>
      obtain ⟨-, htime, hlast, -, -⟩ := segmentReceived_frame c seg
      refine ⟨hclosable, hregular, htime ▸ h.time_lt, ?_⟩
      rcases hlast with hlast | hlast
      · exact hlast ▸ h.timeLast_lt
      · exact hlast ▸ h.time_lt
  | tick ms =>
      obtain ⟨-, htime, hlast, -, -⟩ := tick_frame c ms
      exact ⟨hclosable, hregular, htime ▸ add64_lt _ _, hlast ▸ h.timeLast_lt⟩
  | connect | write | endInputStream | read | takeSegment =>
      exact ⟨hclosable, hregular, h.time_lt, h.timeLast_lt⟩

theorem shut_of_sends (hsends : Sends c c' s r) (hflying : s.bytesFlying = 0)
    (heof : s.stream.eof = true) (hinbound : r.streamOut.eof = true) : c'.Shut := by
  obtain ⟨stream, hstream, heq⟩ := hsends.exists_sender
  constructor
  · rcases hsends.receiver with h | h <;> rw [h] <;> exact hinbound
  · rw [heq]
    exact hflying
  · rw [heq]
    exact hstream.eof.trans heof

theorem Shut.finished (h : c.Shut) (hs : c.sender.Closable) : c.sender.Finished :=
  ⟨hs, h.bytesFlying, h.outbound⟩

theorem Shut.fill (h : c.Shut) (hs : c.sender.Closable)
    (hsends : Sends c c' c.sender.fillWindow c.receiver) : c'.Shut := by
  rw [(h.finished hs).fillWindow_eq] at hsends
  exact shut_of_sends hsends h.bytesFlying h.outbound h.inbound

theorem Shut.tick (h : c.Shut) (ms : ℕ) : (c.tick ms).Shut := by
  obtain ⟨out, times, time, consec, rto, heq, -, -⟩ := TcpSender.exists_tick c.sender ms
  refine shut_of_sends (sends_tick c ms) ?_ ?_ h.inbound
  · rw [heq]
    exact h.bytesFlying
  · rw [heq]
    exact h.outbound

/-- A segment without the next byte leaves both streams at their ends. -/
theorem Shut.segmentReceived (h : c.Shut) (hs : c.sender.Closable) (hr : c.receiver.Regular)
    (hbound : c.receiver.Bounded seg)
    (hnot : c.receiver.Processes seg → ¬c.receiver.BringsNext seg) :
    (c.segmentReceived seg).Shut := by
  obtain ⟨s, hcases, hsends⟩ := exists_sends_segmentReceived c seg
  have hrelayed : (c.relayed seg).Finished := by
    rw [relayed]
    split_ifs
    · exact (h.finished hs).ackReceived _ _
    · exact h.finished hs
  have hinbound : (c.passed seg).streamOut.eof = true := by
    have hend := h.inbound
    rw [ByteStream.eof, Bool.and_eq_true] at hend
    exact (eof_passed_iff hr hbound).mpr ⟨hend.1, hnot, Or.inl hend.2⟩
  rcases hcases with rfl | rfl | rfl
  · exact shut_of_sends hsends hrelayed.bytesFlying hrelayed.eof hinbound
  · rw [hrelayed.fillWindow_eq] at hsends
    exact shut_of_sends hsends hrelayed.bytesFlying hrelayed.eof hinbound
  · exact shut_of_sends hsends hrelayed.bytesFlying hrelayed.eof hinbound

theorem Shut.read (h : c.Shut) (len : ℕ) : (c.step (.read len)).Shut := by
  obtain ⟨hdeq, hended⟩ := (ByteStream.eof_iff _).mp h.inbound
  refine ⟨(ByteStream.eof_iff _).mpr ⟨?_, hended⟩, h.bytesFlying, h.outbound⟩
  refine (ByteStream.popOutput_deq _ len).trans ?_
  rw [show c.receiver.reassembler.output.deq = [] from hdeq, List.drop_nil]

theorem Shut.step (h : c.Shut) (hs : c.sender.Closable) (hr : c.receiver.Regular)
    (hreset : ¬c.Reset) (hclosed : c.active = false) (op : Op) (hop : c.Undisturbed op) :
    (c.step op).Shut := by
  cases op with
  | connect => exact h.fill hs (sends_connect c)
  | write data =>
      have hsize := hop.resolve_left hreset hclosed
      have hsends := sends_write c data
      rw [c.sender.stream.write_of_writeSize_eq_zero data hsize] at hsends
      exact h.fill hs hsends
  | endInputStream =>
      have hended := (ByteStream.eof_iff _).mp h.outbound
      have hsends := sends_endInputStream c
      rw [c.sender.stream.endInput_of_ended hended.2] at hsends
      exact h.fill hs hsends
  | tick ms => exact h.tick ms
  | read len => exact h.read len
  | segmentReceived seg =>
      obtain ⟨hbound, -, hquiet⟩ := hop.resolve_left hreset
      exact h.segmentReceived hs hr hbound (hquiet hclosed).2
  | takeSegment => exact ⟨h.inbound, h.bytesFlying, h.outbound⟩

/-- A connection that does not linger will not, and one that does has waited long enough. -/
theorem expired_step (h : c.Orderly) (hreset : ¬c.Reset) (hclosed : c.active = false) (op : Op)
    (hop : c.Undisturbed op)
    (hexpired : c.lingerAfterStreamsFinish = false ∨
      10 * c.cfg.rtTimeout.toNat ≤ c.timeSinceLastSegmentReceived) :
    (c.step op).lingerAfterStreamsFinish = false ∨
      10 * (c.step op).cfg.rtTimeout.toNat ≤ (c.step op).timeSinceLastSegmentReceived := by
  cases op with
  | segmentReceived seg =>
      have hstop := ((hop.resolve_left hreset).2.2 hclosed).1
      exact Or.inl ((segmentReceived_frame c seg).2.2.2.2 hstop)
  | tick ms =>
      obtain ⟨hcfg, htime, hlast, -, hlinger⟩ := tick_frame c ms
      simp only [step]
      cases hstop : c.lingerAfterStreamsFinish with
      | false => exact Or.inl (hlinger.trans hstop)
      | true =>
          -- The clock moves on by `ms`, and the last segment stays behind.
          have hfits := hop.resolve_left hreset hclosed hstop
          have hlong := hexpired.resolve_left (by simp [hstop])
          right
          rw [hcfg, timeSinceLastSegmentReceived, htime, hlast,
            sub64_add64 h.time_lt h.timeLast_lt]
          rw [timeSinceLastSegmentReceived] at hlong hfits
          rw [Nat.mod_eq_of_lt hfits]
          omega
  | connect | write | endInputStream | read | takeSegment => exact hexpired

theorem closed_step (h : c.Orderly) (hclosed : c.active = false) (op : Op)
    (hop : c.Undisturbed op) : (c.step op).active = false := by
  rw [active_eq_false_iff]
  by_cases hreset : c.Reset
  · exact Or.inl (hreset.step op)
  · obtain ⟨hshut, hexpired⟩ := ((active_eq_false_iff c).mp hclosed).resolve_left hreset
    have hs := h.closable.resolve_left hreset
    have hr := h.regular.resolve_left hreset
    exact Or.inr ⟨hshut.step hs hr hreset hclosed op hop,
      expired_step h hreset hclosed op hop hexpired⟩

/-- Closed is absorbing: a connection that is not disturbed and once not active stays so. -/
theorem closed_is_absorbing (cfg : TcpConfig) (hcap : 1 ≤ cfg.recvCapacity) (random : UInt32)
    (ops more : List Op) (hops : Along step Undisturbed (new cfg random) (ops ++ more)) :
    let c := run step (new cfg random) ops
    c.active = false → (run step c more).active = false := by
  intro c hclosed
  obtain ⟨hfront, hmore⟩ := along_append.mp hops
  have hc : c.Orderly :=
    run_invariant (I := Orderly) (fun _ op hc hop ↦ hc.step op hop) (orderly_new hcap random)
      hfront
  refine (run_invariant (I := fun c ↦ c.Orderly ∧ c.active = false) ?_ ⟨hc, hclosed⟩ hmore).2
  rintro c op ⟨hc, hclosed⟩ hop
  exact ⟨hc.step op hop, closed_step hc hclosed op hop⟩

/-- The peer closes first: its FIN arrives, then the own one is acknowledged. -/
def passiveClose : List Op :=
  [.connect,
    .segmentReceived { header :=
      { seqno := ⟨20⟩, syn := true, ack := true, ackno := ⟨8⟩, win := 10 } },
    .segmentReceived { header :=
      { seqno := ⟨21⟩, fin := true, ack := true, ackno := ⟨8⟩, win := 10 } },
    .endInputStream,
    .segmentReceived { header := { seqno := ⟨22⟩, ack := true, ackno := ⟨9⟩, win := 10 } }]

/-- The own FIN is acknowledged, then that of the peer arrives, and the linger time passes. -/
def activeClose : List Op :=
  [.connect,
    .segmentReceived { header :=
      { seqno := ⟨20⟩, syn := true, ack := true, ackno := ⟨8⟩, win := 10 } },
    .endInputStream,
    .segmentReceived { header :=
      { seqno := ⟨21⟩, fin := true, ack := true, ackno := ⟨9⟩, win := 10 } },
    .tick 10000]

theorem passive_close_is_absorbing :
    let c := run step (new { recvCapacity := 4, sendCapacity := 4, fixedIsn := some ⟨7⟩ } 0)
      passiveClose
    c.active = false ∧
      (run step c [.tick 1000, .endInputStream, .connect, .read 1, .write [],
        .segmentReceived { header :=
          { seqno := ⟨21⟩, fin := true, ack := true, ackno := ⟨9⟩, win := 10 } }]).active = false :=
  ⟨by decide +kernel,
    closed_is_absorbing { recvCapacity := 4, sendCapacity := 4, fixedIsn := some ⟨7⟩ }
      (by decide) 0 _ _ (by decide +kernel) (by decide +kernel)⟩

/-- A closed connection comes back to life when a byte is written, when the peer sends a byte
past its FIN, and, if it lingered, when the FIN of the peer arrives again. -/
theorem closed_connections_revived :
    let start := new { recvCapacity := 4, sendCapacity := 4, fixedIsn := some ⟨7⟩ } 0
    let passive := run step start passiveClose
    let lingered := run step start activeClose
    passive.active = false ∧ (passive.step (.write [97])).active = true ∧
      (passive.step (.segmentReceived { header :=
        { seqno := ⟨21⟩, ack := true, ackno := ⟨9⟩, win := 10 }, payload := [98] })).active = true ∧
      lingered.active = false ∧
      (lingered.step (.segmentReceived { header :=
        { seqno := ⟨21⟩, fin := true, ack := true, ackno := ⟨9⟩, win := 10 } })).active = true := by
  decide +kernel

end TcpConnection

end Sponge
