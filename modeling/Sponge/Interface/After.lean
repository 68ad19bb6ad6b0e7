import Sponge.Interface.Queue

/-!
# Operations that throw

`serialize` throws for a datagram that is not serializable, and what the
interface did before it did so is not undone. A caller that catches the
exception goes on with what is left, so that every operation leads to a state.
The states are given in closed form: what a datagram and what an ARP message do
to the interface, and which frames they push.
-/

namespace Sponge

open Lib

namespace NetworkInterface

/-- The loop that sends a queue, up to a datagram that cannot be written: it stays at the front
of its queue. -/
def sendQueuedLeft (n : NetworkInterface) (ip : UInt32) (eth : EthernetAddress) :
    List Ipv4Datagram → NetworkInterface
  | [] => { n with ip2dgrams := Function.update n.ip2dgrams ip [] }
  | dgram :: rest =>
    match dgram.serialize with
    | .ok payload => (n.pushFrame (n.ipv4Frame eth payload)).sendQueuedLeft ip eth rest
    | .error _ => { n with ip2dgrams := Function.update n.ip2dgrams ip (dgram :: rest) }

/-- The state that an exception leaves. -/
def leftBy (n : NetworkInterface) : Op → NetworkInterface
  | .recvFrame frame =>
    let msg := (ArpMessage.parse {} frame.payload).2
    let ip := msg.senderIpAddress
    let n := (n.remember ip msg.senderEthernetAddress).eraseArp ip
    n.sendQueuedLeft ip ((n.ip2eth ip).getD addrBroadcast) (n.ip2dgrams ip)
  -- the datagram is written before anything is changed
  | .sendDatagram _ _ | .tick _ | .takeFrame => n

/-- The state after an operation, whether it throws or not. -/
def after (n : NetworkInterface) (op : Op) : NetworkInterface :=
  match n.apply op with
  | .ok n' => n'
  | .error _ => n.leftBy op

theorem after_of_apply {n n' : NetworkInterface} {op : Op} (h : n.apply op = .ok n') :
    n.after op = n' := by
  rw [after, h]

/-- The bytes of the datagrams before the first one that cannot be written. -/
def payloads : List Ipv4Datagram → List (List UInt8)
  | [] => []
  | dgram :: rest =>
    match dgram.serialize with
    | .ok payload => payload :: payloads rest
    | .error _ => []

/-- The first datagram that cannot be written and all after it. -/
def unsent : List Ipv4Datagram → List Ipv4Datagram
  | [] => []
  | dgram :: rest =>
    match dgram.serialize with
    | .ok _ => unsent rest
    | .error _ => dgram :: rest

theorem sendQueuedLeft_eq (n : NetworkInterface) (ip : UInt32) (eth : EthernetAddress)
    (queue : List Ipv4Datagram) :
    n.sendQueuedLeft ip eth queue =
      { n with
        ip2dgrams := Function.update n.ip2dgrams ip (unsent queue)
        framesOut := n.framesOut ++ (payloads queue).map (n.ipv4Frame eth) } := by
  induction queue generalizing n with
  | nil => simp [sendQueuedLeft, unsent, payloads]
  | cons dgram rest ih =>
      rw [sendQueuedLeft, unsent, payloads]
      cases dgram.serialize with
      | ok payload => simp [ih, pushFrame, ipv4Frame]
      | error e => simp

/-- The loop throws if and only if it leaves a datagram. -/
theorem sendQueued_eq (n : NetworkInterface) (ip : UInt32) (eth : EthernetAddress)
    (queue : List Ipv4Datagram) :
    (unsent queue = [] → n.sendQueued ip eth queue = .ok (n.sendQueuedLeft ip eth queue)) ∧
      (unsent queue ≠ [] → ∃ e, n.sendQueued ip eth queue = .error e) := by
  induction queue generalizing n with
  | nil => exact ⟨fun _ ↦ rfl, fun hne ↦ absurd rfl hne⟩
  | cons dgram rest ih =>
      rw [sendQueued, sendQueuedLeft, unsent]
      cases hser : dgram.serialize with
      | ok payload => exact ih _
      | error e => exact ⟨fun hnil ↦ by simp at hnil, fun _ ↦ ⟨e, rfl⟩⟩

/-- The state after a datagram for `ip`. -/
def send (n : NetworkInterface) (dgram : Ipv4Datagram) (ip : UInt32) : NetworkInterface :=
  match n.ip2eth ip with
  | some eth =>
    match dgram.serialize with
    | .ok payload => n.pushFrame (n.ipv4Frame eth payload)
    | .error _ => n
  | none =>
    let waiting := n.enqueue ip dgram
    if (n.timestampsArp ip).any (fun sent ↦ sub64 n.time sent < 5000) then waiting
    else
      { waiting with timestampsArp := Function.update n.timestampsArp ip (some n.time) }.pushFrame
        (n.arpFrame ArpMessage.opcodeRequest ip addrBroadcast)

theorem after_sendDatagram (n : NetworkInterface) (dgram : Ipv4Datagram) (nextHop : Address) :
    n.after (.sendDatagram dgram nextHop) = n.send dgram nextHop.ipv4Numeric := by
  cases heth : n.ip2eth nextHop.ipv4Numeric with
  | some eth =>
      rw [after, apply, sendDatagram, send, heth]
      cases dgram.serialize <;> rfl
  | none =>
      apply after_of_apply
      simp only [apply, sendDatagram, send, heth]
      by_cases hwait : (n.timestampsArp nextHop.ipv4Numeric).any
          (fun sent ↦ sub64 n.time sent < 5000)
      · rw [if_pos hwait]
        exact if_pos hwait
      · rw [if_neg hwait]
        exact (if_neg hwait).trans (sendArp_eq _ _ _ (.inl rfl))

/-- The ARP message that a frame brings. -/
def heard (n : NetworkInterface) (frame : EthernetFrame) : Option ArpMessage :=
  if frame.header.type = EthernetHeader.typeIpv4 ∧ frame.header.dst = n.ethernetAddress then none
  else if (ArpMessage.parse {} frame.payload).1 = .noError then
    some (ArpMessage.parse {} frame.payload).2
  else none

theorem eq_of_heard {n : NetworkInterface} {frame : EthernetFrame} {msg : ArpMessage}
    (h : n.heard frame = some msg) : (ArpMessage.parse {} frame.payload).2 = msg := by
  rw [heard] at h
  split_ifs at h
  exact Option.some.inj h

theorem heard_of_arp {n : NetworkInterface} {frame : EthernetFrame}
    (htype : frame.header.type = EthernetHeader.typeArp)
    (hvalid : (ArpMessage.parse {} frame.payload).1 = .noError) :
    n.heard frame = some (ArpMessage.parse {} frame.payload).2 := by
  have hnot : ¬(frame.header.type = EthernetHeader.typeIpv4 ∧
      frame.header.dst = n.ethernetAddress) := by
    rw [htype]
    exact fun h ↦ absurd h.1 (by decide)
  rw [heard, if_neg hnot, if_pos hvalid]

/-- A request for the address of the interface is answered. -/
def answer (n : NetworkInterface) (msg : ArpMessage) : NetworkInterface :=
  if msg.opcode = ArpMessage.opcodeRequest ∧ msg.targetIpAddress = n.ipAddress.ipv4Numeric then
    n.pushFrame (n.arpFrame ArpMessage.opcodeReply msg.senderIpAddress
      msg.senderEthernetAddress)
  else n

@[simp] theorem ip2dgrams_answer (n : NetworkInterface) (msg : ArpMessage) :
    (n.answer msg).ip2dgrams = n.ip2dgrams := by
  rw [answer]
  split_ifs <;> rfl

@[simp] theorem timestampsArp_answer (n : NetworkInterface) (msg : ArpMessage) :
    (n.answer msg).timestampsArp = n.timestampsArp := by
  rw [answer]
  split_ifs <;> rfl

/-- The state after an ARP message. -/
def hear (n : NetworkInterface) (msg : ArpMessage) : NetworkInterface :=
  let ip := msg.senderIpAddress
  let known := n.remember ip msg.senderEthernetAddress
  if (n.timestampsArp ip).isSome then
    let sent := (known.eraseArp ip).sendQueuedLeft ip ((known.ip2eth ip).getD addrBroadcast)
      (n.ip2dgrams ip)
    -- an exception comes before the answer
    if unsent (n.ip2dgrams ip) = [] then sent.answer msg else sent
  else known.answer msg

/-- Whoever speaks is no longer asked for. -/
theorem timestampsArp_hear (n : NetworkInterface) (msg : ArpMessage) :
    (n.hear msg).timestampsArp =
      Function.update n.timestampsArp msg.senderIpAddress none := by
  simp only [hear, sendQueuedLeft_eq]
  split_ifs with hasked
  · rw [timestampsArp_answer]
    exact congrArg (Function.update · _ _) (n.remember_timestampsArp _ _)
  · exact congrArg (Function.update · _ _) (n.remember_timestampsArp _ _)
  · rw [timestampsArp_answer, remember_timestampsArp]
    have hnone := Option.not_isSome_iff_eq_none.mp hasked
    exact (Function.update_eq_self_iff.mpr hnone.symm).symm

theorem after_recvFrame_of_heard_eq_none {n : NetworkInterface} {frame : EthernetFrame}
    (h : n.heard frame = none) : n.after (.recvFrame frame) = n := by
  apply after_of_apply
  rw [heard] at h
  rw [apply, recvFrame]
  split_ifs at h with hipv4 hok
  · rw [if_pos hipv4]
    dsimp only
    split_ifs <;> rfl
  · rw [if_neg hipv4]
    simp only [if_pos hok]
    rfl

/-- Learning an address throws if the queue of the address cannot be sent. -/
theorem learn_eq (n : NetworkInterface) (ip : UInt32) (eth : EthernetAddress) :
    let known := n.remember ip eth
    let sent := (known.eraseArp ip).sendQueuedLeft ip ((known.ip2eth ip).getD addrBroadcast)
      (n.ip2dgrams ip)
    (¬(n.timestampsArp ip).isSome → n.learn ip eth = .ok known) ∧
      ((n.timestampsArp ip).isSome → unsent (n.ip2dgrams ip) = [] →
        n.learn ip eth = .ok sent) ∧
      ((n.timestampsArp ip).isSome → unsent (n.ip2dgrams ip) ≠ [] →
        ∃ e, n.learn ip eth = .error e) := by
  have hqueue := sendQueued_eq ((n.remember ip eth).eraseArp ip) ip
    (((n.remember ip eth).ip2eth ip).getD addrBroadcast) (n.ip2dgrams ip)
  have hdgrams : ((n.remember ip eth).eraseArp ip).ip2dgrams ip = n.ip2dgrams ip := by
    simp [eraseArp]
  simp only [learn, remember_timestampsArp, hdgrams]
  refine ⟨fun hasked ↦ if_neg hasked, fun hasked hnil ↦ ?_, fun hasked hne ↦ ?_⟩
  · exact (if_pos hasked).trans (hqueue.1 hnil)
  · obtain ⟨e, he⟩ := hqueue.2 hne
    exact ⟨e, (if_pos hasked).trans he⟩

theorem after_recvFrame_of_heard {n : NetworkInterface} {frame : EthernetFrame}
    {msg : ArpMessage} (h : n.heard frame = some msg) :
    n.after (.recvFrame frame) = n.hear msg := by
  rw [heard] at h
  split_ifs at h with hipv4 hok
  have hmsg := Option.some.inj h
  obtain ⟨hknown, hsent, hthrow⟩ := n.learn_eq msg.senderIpAddress msg.senderEthernetAddress
  have hlearned : ∀ known, n.learn msg.senderIpAddress msg.senderEthernetAddress = .ok known →
      n.after (.recvFrame frame) = known.answer msg := by
    intro known hlearn
    apply after_of_apply
    rw [apply, recvFrame, if_neg hipv4, answer]
    simp only [hok, ne_eq, not_true_eq_false, if_false, hmsg, hlearn, bind, Except.bind]
    split_ifs
    · rw [sendArp_eq _ _ _ (.inr rfl)]
      rfl
    · rfl
  rw [hear]
  by_cases hasked : (n.timestampsArp msg.senderIpAddress).isSome
  · rw [if_pos hasked]
    by_cases hnil : unsent (n.ip2dgrams msg.senderIpAddress) = []
    · rw [if_pos hnil, hlearned _ (hsent hasked hnil)]
    · obtain ⟨e, he⟩ := hthrow hasked hnil
      have hthrown : n.apply (.recvFrame frame) = .error e := by
        rw [apply, recvFrame, if_neg hipv4]
        simp only [hok, ne_eq, not_true_eq_false, if_false, hmsg, he]
        rfl
      rw [if_neg hnil, after, hthrown]
      simp only [leftBy, hmsg, eraseArp, remember_ip2dgrams]
  · rw [if_neg hasked, hlearned _ (hknown hasked)]

/-- The frames that a datagram for `ip` pushes. -/
def sendFrames (n : NetworkInterface) (dgram : Ipv4Datagram) (ip : UInt32) :
    List EthernetFrame :=
  match n.ip2eth ip with
  | some eth =>
    match dgram.serialize with
    | .ok payload => [n.ipv4Frame eth payload]
    | .error _ => []
  | none =>
    if (n.timestampsArp ip).any (fun sent ↦ sub64 n.time sent < 5000) then []
    else [n.arpFrame ArpMessage.opcodeRequest ip addrBroadcast]

theorem framesOut_send (n : NetworkInterface) (dgram : Ipv4Datagram) (ip : UInt32) :
    (n.send dgram ip).framesOut = n.framesOut ++ n.sendFrames dgram ip := by
  rw [send, sendFrames]
  cases n.ip2eth ip with
  | some eth => cases dgram.serialize <;> simp [pushFrame]
  | none =>
      dsimp only
      split_ifs
      · exact (List.append_nil _).symm
      · rfl

def answerFrames (n : NetworkInterface) (msg : ArpMessage) : List EthernetFrame :=
  if msg.opcode = ArpMessage.opcodeRequest ∧ msg.targetIpAddress = n.ipAddress.ipv4Numeric then
    [n.arpFrame ArpMessage.opcodeReply msg.senderIpAddress msg.senderEthernetAddress]
  else []

theorem framesOut_answer (n : NetworkInterface) (msg : ArpMessage) :
    (n.answer msg).framesOut = n.framesOut ++ n.answerFrames msg := by
  rw [answer, answerFrames]
  split_ifs
  · rfl
  · exact (List.append_nil _).symm

/-- The frames that an ARP message pushes: what waited for its sender, then the answer. -/
def hearFrames (n : NetworkInterface) (msg : ArpMessage) : List EthernetFrame :=
  let ip := msg.senderIpAddress
  let known := n.remember ip msg.senderEthernetAddress
  if (n.timestampsArp ip).isSome then
    (payloads (n.ip2dgrams ip)).map (n.ipv4Frame ((known.ip2eth ip).getD addrBroadcast)) ++
      if unsent (n.ip2dgrams ip) = [] then n.answerFrames msg else []
  else n.answerFrames msg

@[simp] theorem remember_ethernetAddress (n : NetworkInterface) (ip : UInt32)
    (eth : EthernetAddress) : (n.remember ip eth).ethernetAddress = n.ethernetAddress := by
  rw [remember]
  split_ifs <;> rfl

@[simp] theorem remember_ipAddress (n : NetworkInterface) (ip : UInt32)
    (eth : EthernetAddress) : (n.remember ip eth).ipAddress = n.ipAddress := by
  rw [remember]
  split_ifs <;> rfl

theorem framesOut_hear (n : NetworkInterface) (msg : ArpMessage) :
    (n.hear msg).framesOut = n.framesOut ++ n.hearFrames msg := by
  simp only [hear, hearFrames, sendQueuedLeft_eq]
  split_ifs
  · simp [framesOut_answer, answerFrames, arpFrame, ipv4Frame, eraseArp]
  · simp [ipv4Frame, eraseArp]
  · simp [framesOut_answer, answerFrames, arpFrame]

/-- The frames that an operation pushes. -/
def newFrames (n : NetworkInterface) : Op → List EthernetFrame
  | .sendDatagram dgram nextHop => n.sendFrames dgram nextHop.ipv4Numeric
  | .recvFrame frame =>
    match n.heard frame with
    | some msg => n.hearFrames msg
    | none => []
  | .tick _ | .takeFrame => []

theorem drop_framesOut_after (n : NetworkInterface) (op : Op) :
    (n.after op).framesOut.drop n.framesOut.length = n.newFrames op := by
  cases op with
  | sendDatagram dgram nextHop =>
      rw [after_sendDatagram, framesOut_send, List.drop_left]
      rfl
  | recvFrame frame =>
      rw [newFrames]
      cases hheard : n.heard frame with
      | none => rw [after_recvFrame_of_heard_eq_none hheard, List.drop_length]
      | some msg => rw [after_recvFrame_of_heard hheard, framesOut_hear, List.drop_left]
  | tick ms =>
      change (n.tick ms).framesOut.drop _ = _
      rw [tick, (expire_frame _ _).2.2, List.drop_length]
      rfl
  | takeFrame =>
      refine List.drop_eq_nil_of_le ?_
      change n.framesOut.tail.length ≤ _
      simp

end NetworkInterface

end Sponge
