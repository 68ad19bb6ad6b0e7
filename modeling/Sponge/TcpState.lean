import Sponge.Receiver.Model
import Sponge.Sender.Model

/-!
# Summaries of the state

The names under which the states of a sender and a receiver are reported.
-/

namespace Sponge

inductive TcpReceiverStateSummary
  | error
  | listen
  | synRecv
  | finRecv
  deriving DecidableEq

inductive TcpSenderStateSummary
  | error
  | closed
  | synSent
  | synAcked
  | finSent
  | finAcked
  deriving DecidableEq

namespace TcpState

def receiverSummary (receiver : TcpReceiver) : TcpReceiverStateSummary :=
  if receiver.streamOut.error then .error
  else if receiver.ackno.isNone then .listen
  else if receiver.streamOut.inputEnded then .finRecv
  else .synRecv

def senderSummary (sender : TcpSender) : TcpSenderStateSummary :=
  if sender.streamIn.error then .error
  else if sender.nextSeqnoAbsolute = 0 then .closed
  else if sender.nextSeqnoAbsolute = sender.bytesInFlight then .synSent
  else if !sender.streamIn.eof then .synAcked
  else if sender.nextSeqnoAbsolute < sender.streamIn.bytesWritten + 2 then .synAcked
  else if sender.bytesInFlight ≠ 0 then .finSent
  else .finAcked

/-- A sender reports an acknowledged FIN only when its FIN has a number and nothing is in
flight. -/
theorem of_finAcked {s : TcpSender} (h : senderSummary s = .finAcked) :
    s.nextSeqno ≠ 0 ∧ s.streamIn.bytesWritten + 2 ≤ s.nextSeqno ∧ s.bytesFlying = 0 := by
  simp only [senderSummary, TcpSender.nextSeqnoAbsolute, TcpSender.bytesInFlight] at h
  by_cases hzero : s.nextSeqno = 0
  · simp only [hzero, if_true] at h
    split at h <;> cases h
  by_cases hnext : s.nextSeqno < s.streamIn.bytesWritten + 2
  · simp only [hzero, hnext, if_true, if_false] at h
    split_ifs at h
  by_cases hflying : s.bytesFlying = 0
  · exact ⟨hzero, by omega, hflying⟩
  · simp only [hzero, hnext, hflying, ne_eq, not_false_eq_true, if_true, if_false] at h
    split_ifs at h

end TcpState

/-- The state of a connection as it is reported. -/
structure TcpState where
  sender : TcpSenderStateSummary
  receiver : TcpReceiverStateSummary
  active : Bool
  lingerAfterStreamsFinish : Bool
  deriving DecidableEq

namespace TcpState

def new (sender : TcpSender) (receiver : TcpReceiver) (active linger : Bool) : TcpState where
  sender := senderSummary sender
  receiver := receiverSummary receiver
  active := active
  lingerAfterStreamsFinish := if active then linger else false

end TcpState

end Sponge
