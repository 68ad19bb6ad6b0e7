import Sponge.Connection.Accounts
import Sponge.Sender.Segments

/-!
# Giving up

A connection sends its oldest segment again and again while nothing is
acknowledged. With one attempt too many it gives up: the attempt itself carries
the RST, and from then on every segment does. No other segment ever does.
-/

namespace Sponge

open Lib

namespace TcpSender

variable {s : TcpSender}

theorem consecRetrans_ackReceived_le (s : TcpSender) (ackno : WrappingInt32) (w : UInt16) :
    (s.ackReceived ackno w).consecRetrans ≤ s.consecRetrans := by
  simp only [TcpSender.ackReceived]
  split_ifs
  · exact le_refl _
  · rw [(filled_fillWindow (toNat_window_lt w)).consecRetrans]
    exact Nat.zero_le _
  · exact Nat.zero_le _

/-- The count grows only with the oldest outstanding segment sent again. -/
theorem Accounted.exists_oldest (h : s.Accounted) {ms : ℕ}
    (hmore : s.consecRetrans < (s.tick ms).consecRetrans) :
    ∃ oldest rest, s.segmentsOutstanding = oldest :: rest ∧
      (s.tick ms).segmentsOut = s.segmentsOut ++ [oldest] := by
  have hlen := h.length_timestamps
  cases htimes : s.timestampsOutstanding with
  | nil =>
      rw [TcpSender.tick, htimes] at hmore
      exact absurd hmore (lt_irrefl _)
  | cons time times =>
      cases hsegs : s.segmentsOutstanding with
      | nil => simp [htimes, hsegs] at hlen
      | cons oldest rest =>
          refine ⟨oldest, rest, rfl, ?_⟩
          rw [tick_of_cons htimes] at hmore ⊢
          by_cases hexpired : sub64 (add64 s.time ms) time ≥ s.currRto
          · rw [if_pos hexpired, hsegs]
            rfl
          · rw [if_neg hexpired] at hmore
            exact absurd hmore (lt_irrefl _)

end TcpSender

namespace TcpConnection

variable {c c' : TcpConnection} {s : TcpSender} {r : TcpReceiver}

theorem rst_stamp (r : TcpReceiver) (rst : Bool) (seg : TcpSegment) :
    (stamp r rst seg).header.rst = (rst || seg.header.rst) := by
  rw [stamp]
  cases r.ackno <;> cases rst <;> rfl

/-- The segments of the sender carry no RST of their own. -/
def Unmarked (s : TcpSender) : Prop := s.HasOnly fun seg ↦ seg.header.rst = false

theorem unmarked_of_sends (hsends : Sends c c' s r) (hs : Unmarked s) : Unmarked c'.sender := by
  obtain ⟨stream, -, heq⟩ := hsends.exists_sender
  rw [heq]
  exact hs.frame (List.forall_mem_nil _)

/-- Only a stamp sets the RST. -/
theorem rstToSend_of_emitted (hsends : Sends c c' s r) (hs : Unmarked s) {seg : TcpSegment}
    (hseg : seg ∈ emitted c c') (hrst : seg.header.rst = true) : c'.rstToSend = true := by
  rw [hsends.emitted_eq] at hseg
  obtain ⟨seg', hmem, rfl⟩ := List.mem_map.mp hseg
  rw [rst_stamp, hs.queue seg' hmem, Bool.or_false] at hrst
  exact hrst

theorem unmarked_relayed (h : Unmarked c.sender) (seg : TcpSegment) :
    Unmarked (c.relayed seg) := by
  rw [relayed]
  split_ifs
  · exact h.ackReceived (fun _ _ _ _ _ ↦ rfl) _ _
  · exact h

theorem consecRetrans_relayed_le (c : TcpConnection) (seg : TcpSegment) :
    (c.relayed seg).consecRetrans ≤ c.sender.consecRetrans := by
  rw [relayed]
  split_ifs
  · exact c.sender.consecRetrans_ackReceived_le _ _
  · exact le_refl _

theorem rstToSend_segmentReceived (c : TcpConnection) (seg : TcpSegment) :
    (c.segmentReceived seg).rstToSend = c.rstToSend := by
  simp only [segmentReceived, relayAck_passToReceiver, resetBy, answer, stopLingering]
  split_ifs <;> rfl

end TcpConnection

/-- A connection, and whether a tick left more consecutive retransmissions than it attempts. -/
structure Aborting where
  connection : TcpConnection
  aborted : Bool

namespace Aborting

open TcpConnection

variable {t : Aborting} {c' : TcpConnection} {s : TcpSender} {r : TcpReceiver}

def new (cfg : TcpConfig) (random : UInt32) : Aborting := ⟨.new cfg random, false⟩

def exceeds (c' : TcpConnection) : Op → Bool
  | .tick _ => decide (c'.sender.consecutiveRetransmissions > TcpConfig.maxRetxAttempts)
  | _ => false

def step (t : Aborting) (op : Op) : Aborting where
  connection := t.connection.step op
  aborted := t.aborted || exceeds (t.connection.step op) op

structure Counted (t : Aborting) : Prop where
  accounted : t.connection.Accounted
  unmarked : Unmarked t.connection.sender
  rstToSend : t.connection.rstToSend = t.aborted
  attempts : t.aborted = false →
    t.connection.sender.consecRetrans ≤ TcpConfig.maxRetxAttempts

theorem counted_new (cfg : TcpConfig) (random : UInt32) : (new cfg random).Counted where
  accounted := accounted_new cfg random
  unmarked := ⟨show 1 < 2 ^ 16 by norm_num, List.forall_mem_nil _, List.forall_mem_nil _⟩
  rstToSend := rfl
  attempts := fun _ ↦ Nat.zero_le _

/-- The invariant after a step, and that only a connection that gave up marks its segments. -/
structure Stepped (t t' : Aborting) : Prop where
  counted : t'.Counted
  marked : ∀ seg ∈ emitted t.connection t'.connection, seg.header.rst = true → t'.aborted = true

/-- Every operation but a tick leaves the RST and the count as they are, or clears the count. -/
theorem Counted.of_sends (h : t.Counted) (hacc : c'.Accounted)
    (hsends : Sends t.connection c' s r) (hs : Unmarked s)
    (hrst : c'.rstToSend = t.connection.rstToSend)
    (hconsec : s.consecRetrans ≤ t.connection.sender.consecRetrans) :
    Stepped t ⟨c', t.aborted⟩ := by
  refine ⟨⟨hacc, unmarked_of_sends hsends hs, hrst.trans h.rstToSend, fun hnot ↦ ?_⟩, ?_⟩
  · obtain ⟨stream, -, heq⟩ := hsends.exists_sender
    rw [heq]
    exact hconsec.trans (h.attempts hnot)
  · intro seg hseg hmark
    rw [← h.rstToSend, ← hrst]
    exact rstToSend_of_emitted hsends hs hseg hmark

theorem Counted.fill (h : t.Counted) (hacc : c'.Accounted) {stream : ByteStream}
    (hsends : Sends t.connection c'
      ({ t.connection.sender with stream := stream } : TcpSender).fillWindow r)
    (hrst : c'.rstToSend = t.connection.rstToSend) :
    Stepped t ⟨c', t.aborted⟩ := by
  have hs : Unmarked ({ t.connection.sender with stream := stream } : TcpSender) :=
    h.unmarked.frame h.unmarked.queue
  have hwin := hs.windowSize_lt
  refine h.of_sends hacc hsends (hs.fillWindow fun _ _ _ _ _ ↦ rfl) hrst ?_
  rw [(TcpSender.filled_fillWindow (by omega)).consecRetrans]

theorem Counted.segmentReceived (h : t.Counted) (seg : TcpSegment) :
    Stepped t ⟨t.connection.segmentReceived seg, t.aborted⟩ := by
  have hrelayed := unmarked_relayed h.unmarked seg
  have hle := consecRetrans_relayed_le t.connection seg
  have hwin := hrelayed.windowSize_lt
  obtain ⟨s, hs, hsends⟩ := exists_sends_segmentReceived t.connection seg
  refine h.of_sends (h.accounted.segmentReceived seg) hsends ?_
    (rstToSend_segmentReceived t.connection seg) ?_
  · rcases hs with rfl | rfl | rfl
    · exact hrelayed
    · exact hrelayed.fillWindow fun _ _ _ _ _ ↦ rfl
    · exact hrelayed.sendEmptySegment fun _ _ _ _ _ ↦ rfl
  · rcases hs with rfl | rfl | rfl
    · exact hle
    · rw [(TcpSender.filled_fillWindow (by omega)).consecRetrans]
      exact hle
    · exact hle

theorem Counted.quiet (h : t.Counted) {c' : TcpConnection} (hacc : c'.Accounted)
    (hsender : c'.sender = t.connection.sender)
    (hrst : c'.rstToSend = t.connection.rstToSend) (hquiet : emitted t.connection c' = []) :
    Stepped t ⟨c', t.aborted⟩ := by
  refine ⟨⟨hacc, ?_, hrst.trans h.rstToSend, ?_⟩, ?_⟩
  · rw [hsender]
    exact h.unmarked
  · rw [hsender]
    exact h.attempts
  · rw [hquiet]
    exact List.forall_mem_nil _

theorem tick_of_exceeds {c : TcpConnection} {ms : ℕ}
    (h : (c.sender.tick ms).consecRetrans > TcpConfig.maxRetxAttempts) :
    (c.tick ms).sender.consecRetrans > TcpConfig.maxRetxAttempts ∧
      (c.tick ms).rstToSend = true ∧ (c.tick ms).sender.streamIn.error = true ∧
      (c.tick ms).inboundStream.error = true := by
  have heq : c.tick ms = ({ c with
      time := add64 c.time ms
      sender := c.sender.tick ms
      rstToSend := true } : TcpConnection).setErrors.sendSegments :=
    congrArg sendSegments (if_pos h)
  rw [heq]
  exact ⟨h, rfl, rfl, rfl⟩

theorem tick_of_not_exceeds {c : TcpConnection} {ms : ℕ}
    (h : ¬(c.sender.tick ms).consecRetrans > TcpConfig.maxRetxAttempts) :
    ¬(c.tick ms).sender.consecRetrans > TcpConfig.maxRetxAttempts ∧
      (c.tick ms).rstToSend = c.rstToSend := by
  have heq : c.tick ms = ({ c with
      time := add64 c.time ms
      sender := c.sender.tick ms } : TcpConnection).sendSegments :=
    congrArg sendSegments (if_neg h)
  rw [heq]
  exact ⟨h, rfl⟩

theorem Counted.tick (h : t.Counted) (ms : ℕ) : Stepped t (t.step (.tick ms)) := by
  have hrst : (t.connection.tick ms).rstToSend = (t.step (.tick ms)).aborted := by
    by_cases hmore : (t.connection.sender.tick ms).consecRetrans > TcpConfig.maxRetxAttempts
    · have htick := tick_of_exceeds hmore
      simp [step, exceeds, TcpConnection.step, TcpSender.consecutiveRetransmissions, htick]
    · have htick := tick_of_not_exceeds hmore
      simp [step, exceeds, TcpConnection.step, TcpSender.consecutiveRetransmissions, htick,
        h.rstToSend]
  have hsends := sends_tick t.connection ms
  have hs : Unmarked (t.connection.sender.tick ms) := h.unmarked.tick ms
  refine ⟨⟨h.accounted.tick ms, unmarked_of_sends hsends hs, hrst, fun hnot ↦ ?_⟩, ?_⟩
  · have hless := (Bool.or_eq_false_iff.mp hnot).2
    simpa [exceeds, TcpSender.consecutiveRetransmissions, step] using hless
  · intro seg hseg hmark
    rw [← hrst]
    exact rstToSend_of_emitted hsends hs hseg hmark

theorem step_of_not_exceeds {op : Op} (h : exceeds (t.connection.step op) op = false) :
    t.step op = ⟨t.connection.step op, t.aborted⟩ := by
  rw [step, h, Bool.or_false]

theorem Counted.step (h : t.Counted) (op : Op) : Stepped t (t.step op) := by
  have hacc := h.accounted.step op
  cases op with
  | connect =>
      rw [step_of_not_exceeds rfl]
      exact h.fill hacc (sends_connect _) rfl
  | write data =>
      rw [step_of_not_exceeds rfl]
      exact h.fill hacc (sends_write _ data) rfl
  | endInputStream =>
      rw [step_of_not_exceeds rfl]
      exact h.fill hacc (sends_endInputStream _) rfl
  | tick ms => exact h.tick ms
  | read len =>
      rw [step_of_not_exceeds rfl]
      exact h.quiet hacc rfl rfl List.drop_length
  | segmentReceived seg =>
      rw [step_of_not_exceeds rfl]
      exact h.segmentReceived seg
  | takeSegment =>
      rw [step_of_not_exceeds rfl]
      exact h.quiet hacc rfl rfl (by simp [emitted, TcpConnection.step])

/-- The tick that gives up sends the oldest outstanding segment with the RST, and nothing
else. -/
theorem Counted.abort (h : t.Counted) {op : Op} (hnot : t.aborted = false)
    (habort : (t.step op).aborted = true) :
    ∃ ms oldest rest, op = .tick ms ∧ t.connection.sender.segmentsOutstanding = oldest :: rest ∧
      emitted t.connection (t.step op).connection =
        [stamp (t.step op).connection.receiver true oldest] ∧
      (stamp (t.step op).connection.receiver true oldest).header.rst = true ∧
      (t.step op).connection.sender.streamIn.error = true ∧
      (t.step op).connection.inboundStream.error = true ∧
      (t.step op).connection.active = false := by
  have hexceeds : exceeds (t.connection.step op) op = true := by
    simpa [Aborting.step, hnot] using habort
  cases op with
  | tick ms =>
      have hmore : (t.connection.sender.tick ms).consecRetrans > TcpConfig.maxRetxAttempts := by
        by_contra hless
        have htick := tick_of_not_exceeds hless
        simp [exceeds, TcpConnection.step, TcpSender.consecutiveRetransmissions, htick] at hexceeds
      obtain ⟨-, hrst, hsender, hreceiver⟩ := tick_of_exceeds hmore
      -- The count was within the limit before, so this tick has sent the oldest segment again.
      have hgrows := lt_of_le_of_lt (h.attempts hnot) hmore
      obtain ⟨oldest, rest, hold, hout⟩ := h.accounted.sender.exists_oldest hgrows
      refine ⟨ms, oldest, rest, rfl, hold, ?_, rst_stamp _ _ _, hsender, hreceiver, ?_⟩
      · change emitted t.connection (t.connection.tick ms) = _
        rw [(sends_tick t.connection ms).emitted_eq, hout, h.accounted.queue, hrst]
        rfl
      · change (t.connection.tick ms).active = false
        simp [active, hrst]
  | connect | write | endInputStream | read | segmentReceived | takeSegment => cases hexceeds

/-- In every run a segment with the RST is emitted only from the tick on that leaves too many
consecutive retransmissions; that tick emits only the oldest outstanding segment, with the RST,
and closes the connection with both streams in error; before it the retransmissions stay within
the limit. -/
theorem aborts_after_max_attempts (cfg : TcpConfig) (random : UInt32) (ops : List Op) (op : Op) :
    let t := run step (new cfg random) ops
    let t' := t.step op
    (∀ seg ∈ emitted t.connection t'.connection, seg.header.rst = true → t'.aborted = true) ∧
    (t.aborted = false → t'.aborted = true →
      ∃ ms oldest rest, op = .tick ms ∧
        t.connection.sender.segmentsOutstanding = oldest :: rest ∧
        emitted t.connection t'.connection = [stamp t'.connection.receiver true oldest] ∧
        (stamp t'.connection.receiver true oldest).header.rst = true ∧
        t'.connection.sender.streamIn.error = true ∧ t'.connection.inboundStream.error = true ∧
        t'.connection.active = false) ∧
    (t.aborted = false →
      t.connection.sender.consecutiveRetransmissions ≤ TcpConfig.maxRetxAttempts) := by
  intro t t'
  have h : t.Counted :=
    run_invariant_of_step (fun _ op ht ↦ (ht.step op).counted) (counted_new cfg random) ops
  exact ⟨(h.step op).marked, h.abort, h.attempts⟩

/-- A SYN that nobody answers, sent again eight times. -/
def unansweredSyn : List Op :=
  [.connect, .tick 1000, .tick 2000, .tick 4000, .tick 8000, .tick 16000, .tick 32000,
    .tick 64000, .tick 128000]

/-- The ninth attempt gives up. -/
theorem aborts_with_ninth_attempt :
    let t := run step (new { recvCapacity := 4, sendCapacity := 4, fixedIsn := some ⟨7⟩ } 0)
      unansweredSyn
    t.connection.sender.consecutiveRetransmissions = 8 ∧
      (t.step (.tick 256000)).connection.active = false := by
  obtain ⟨ms, oldest, rest, -, -, -, -, -, -, hclosed⟩ :=
    (aborts_after_max_attempts { recvCapacity := 4, sendCapacity := 4, fixedIsn := some ⟨7⟩ } 0
      unansweredSyn (.tick 256000)).2.1 (by decide +kernel) (by decide +kernel)
  exact ⟨by decide +kernel, hclosed⟩

end Aborting

end Sponge
