import Sponge.Connection.Model

/-!
# The official states

The states of the TCP specification, each as the summaries of a sender and a
receiver with the two flags of a connection, and the texts under which a state
is reported.
-/

namespace Sponge

def TcpSenderStateSummary.text : TcpSenderStateSummary → String
  | .error => "error (connection was reset)"
  | .closed => "waiting for stream to begin (no SYN sent)"
  | .synSent => "stream started but nothing acknowledged"
  | .synAcked => "stream ongoing"
  | .finSent => "stream finished (FIN sent) but not fully acknowledged"
  | .finAcked => "stream finished and fully acknowledged"

def TcpReceiverStateSummary.text : TcpReceiverStateSummary → String
  | .error => "error (connection was reset)"
  | .listen => "waiting for SYN: ackno is empty"
  | .synRecv => "SYN received (ackno exists), and input to stream hasn't ended"
  | .finRecv => "input to stream has ended"

namespace TcpState

/-- The state names of the specification. -/
inductive State
  | listen
  | synRcvd
  | synSent
  | established
  | closeWait
  | lastAck
  | finWait1
  | finWait2
  | closing
  | timeWait
  | closed
  | reset
  deriving DecidableEq

/-- `TCPState(const TCPState::State state)`. -/
def ofState : State → TcpState
  | .listen => ⟨.closed, .listen, true, true⟩
  | .synRcvd => ⟨.synSent, .synRecv, true, true⟩
  | .synSent => ⟨.synSent, .listen, true, true⟩
  | .established => ⟨.synAcked, .synRecv, true, true⟩
  | .closeWait => ⟨.synAcked, .finRecv, true, false⟩
  | .lastAck => ⟨.finSent, .finRecv, true, false⟩
  | .closing => ⟨.finSent, .finRecv, true, true⟩
  | .finWait1 => ⟨.finSent, .synRecv, true, true⟩
  | .finWait2 => ⟨.finAcked, .synRecv, true, true⟩
  | .timeWait => ⟨.finAcked, .finRecv, true, true⟩
  | .reset => ⟨.error, .error, false, false⟩
  | .closed => ⟨.finAcked, .finRecv, false, false⟩

/-- `std::to_string` of a flag. -/
def toString (b : Bool) : String := if b then "1" else "0"

def name (s : TcpState) : String :=
  "sender=`" ++ s.sender.text ++ "`, receiver=`" ++ s.receiver.text ++ "`, active=" ++
    toString s.active ++ ", linger_after_streams_finish=" ++ toString s.lingerAfterStreamsFinish

end TcpState

end Sponge
