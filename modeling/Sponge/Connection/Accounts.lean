import Sponge.Connection.Sends
import Sponge.Sender.Accounts

/-!
# What holds in every run of a connection

The sender of a connection counts as it does on its own, whatever segments
arrive, and between two operations its queue is empty. Once `connect` was called,
by the owner or because a SYN arrived, the SYN of the connection is sent; and the
owner cannot end the stream without sending it.
-/

namespace Sponge.TcpConnection

open Lib

variable {c c' : TcpConnection} {s : TcpSender} {r : TcpReceiver}

structure Accounted (c : TcpConnection) : Prop where
  sender : c.sender.Accounted
  queue : c.sender.segmentsOut = []
  connected : c.connectCalled = true → c.sender.nextSeqno ≠ 0
  ended : c.sender.nextSeqno = 0 → c.sender.stream.ended = false

theorem accounted_new (cfg : TcpConfig) (random : UInt32) : (new cfg random).Accounted :=
  ⟨TcpSender.accounted_new _ _ _ _, rfl, fun h ↦ absurd h (by simp [new]), fun _ ↦ rfl⟩

theorem nextSeqno_of_sends (hsends : Sends c c' s r) : c'.sender.nextSeqno = s.nextSeqno := by
  obtain ⟨stream, -, heq⟩ := hsends.exists_sender
  rw [heq]

theorem accounted_of_sends (hsends : Sends c c' s r) (hs : s.Accounted)
    (hconn : c'.connectCalled = true → s.nextSeqno ≠ 0)
    (hended : s.nextSeqno = 0 → s.stream.ended = false) : c'.Accounted := by
  obtain ⟨stream, hstream, heq⟩ := hsends.exists_sender
  refine ⟨?_, hsends.queue_eq_nil, ?_, ?_⟩
  · rw [heq]
    exact hs.frame hstream.bytesReaded rfl
  · rw [heq]
    exact hconn
  · rw [heq]
    exact fun hzero ↦ hstream.ended.trans (hended hzero)

namespace Accounted

theorem fill (h : c.Accounted) {stream : ByteStream}
    (hsends : Sends c c' ({ c.sender with stream := stream } : TcpSender).fillWindow r)
    (hread : stream.bytesReaded = c.sender.stream.bytesReaded) : c'.Accounted := by
  have hs : ({ c.sender with stream := stream } : TcpSender).Accounted := h.sender.frame hread rfl
  have hwin := hs.windowSize_lt
  have hne := TcpSender.nextSeqno_fillWindow_ne_zero (hwin.trans (by norm_num))
  exact accounted_of_sends hsends hs.fillWindow (fun _ ↦ hne) fun hzero ↦ absurd hzero hne

theorem tick (h : c.Accounted) (ms : ℕ) : (c.tick ms).Accounted := by
  have hconn : (c.tick ms).connectCalled = c.connectCalled := by
    simp only [TcpConnection.tick]
    split_ifs <;> rfl
  obtain ⟨out, times, time, consec, rto, heq, -, -⟩ := TcpSender.exists_tick c.sender ms
  refine accounted_of_sends (sends_tick c ms) (h.sender.tick ms) ?_ ?_
  · rw [hconn, heq]
    exact h.connected
  · rw [heq]
    exact h.ended

theorem relayed (h : c.Accounted) (seg : TcpSegment) : (c.relayed seg).Accounted := by
  rw [TcpConnection.relayed]
  split_ifs
  · exact h.sender.ackReceived _ _
  · exact h.sender

theorem nextSeqno_relayed_ne_zero (h : c.sender.nextSeqno ≠ 0) (seg : TcpSegment) :
    (c.relayed seg).nextSeqno ≠ 0 := by
  rw [TcpConnection.relayed]
  split_ifs
  · exact TcpSender.nextSeqno_ackReceived_ne_zero h _ _
  · exact h

theorem nextSeqno_segmentReceived_ne_zero (h : c.Accounted) (hnext : c.sender.nextSeqno ≠ 0)
    (seg : TcpSegment) : (c.segmentReceived seg).sender.nextSeqno ≠ 0 := by
  have hrelayed := nextSeqno_relayed_ne_zero hnext seg
  have hwin := (h.relayed seg).windowSize_lt
  obtain ⟨s, hs, hsends⟩ := exists_sends_segmentReceived c seg
  rw [nextSeqno_of_sends hsends]
  rcases hs with rfl | rfl | rfl
  · exact hrelayed
  · exact TcpSender.nextSeqno_fillWindow_ne_zero (by omega)
  · exact hrelayed

theorem ended_relayed (h : c.Accounted) (seg : TcpSegment)
    (hzero : (c.relayed seg).nextSeqno = 0) : (c.relayed seg).stream.ended = false := by
  have hnext : c.sender.nextSeqno = 0 := by
    by_contra hne
    exact nextSeqno_relayed_ne_zero hne seg hzero
  rw [TcpConnection.relayed]
  split_ifs
  · rw [h.sender.stream_ackReceived_of_unsent hnext]
    exact h.ended hnext
  · exact h.ended hnext

/-- The SYN of the peer makes a connection that listens send its own. -/
theorem connected_segmentReceived (h : c.Accounted) (seg : TcpSegment)
    (hconn : (c.segmentReceived seg).connectCalled = true) :
    (c.segmentReceived seg).sender.nextSeqno ≠ 0 := by
  have hwin : (c.relayed seg).windowSize < 2 ^ 64 :=
    (h.relayed seg).windowSize_lt.trans (by norm_num)
  revert hconn
  simp only [segmentReceived, relayAck_passToReceiver]
  split_ifs
  · exact fun _ ↦ TcpSender.nextSeqno_fillWindow_ne_zero hwin
  · simp only [resetBy, answer, stopLingering]
    split_ifs
    all_goals exact fun hconn ↦ nextSeqno_relayed_ne_zero (h.connected hconn) seg

theorem segmentReceived (h : c.Accounted) (seg : TcpSegment) :
    (c.segmentReceived seg).Accounted := by
  have hwin := (h.relayed seg).windowSize_lt
  obtain ⟨s, hs, hsends⟩ := exists_sends_segmentReceived c seg
  refine accounted_of_sends hsends ?_ (fun hconn ↦ ?_) fun hzero ↦ ?_
  · rcases hs with rfl | rfl | rfl
    · exact h.relayed seg
    · exact (h.relayed seg).fillWindow
    · exact (h.relayed seg).frame rfl rfl
  · rw [← nextSeqno_of_sends hsends]
    exact h.connected_segmentReceived seg hconn
  · rcases hs with rfl | rfl | rfl
    · exact h.ended_relayed seg hzero
    · exact absurd hzero (TcpSender.nextSeqno_fillWindow_ne_zero (by omega))
    · exact h.ended_relayed seg hzero

theorem step (h : c.Accounted) (op : Op) : (c.step op).Accounted := by
  cases op with
  | connect => exact h.fill (sends_connect c) rfl
  | write data => exact h.fill (sends_write c data) rfl
  | endInputStream => exact h.fill (sends_endInputStream c) rfl
  | tick ms => exact h.tick ms
  | read len => exact ⟨h.sender, h.queue, h.connected, h.ended⟩
  | segmentReceived seg => exact h.segmentReceived seg
  | takeSegment => exact ⟨h.sender, h.queue, h.connected, h.ended⟩

end Accounted

theorem accounted_run (cfg : TcpConfig) (random : UInt32) (ops : List Op) :
    (run step (new cfg random) ops).Accounted :=
  run_invariant_of_step (fun _ op h ↦ h.step op) (accounted_new cfg random) ops

end Sponge.TcpConnection
