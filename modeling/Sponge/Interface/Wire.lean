import Sponge.Codec.Ethernet
import Sponge.Interface.Mappings

/-!
# ARP between interfaces

What an interface sends to resolve an address is a frame around an ARP message.
Both are written byte by byte and read back by the interface at the other end,
which hears the message that was built. The interface reads as a message every
frame that is not an IPv4 frame for it, also one that is meant for another host
or carries another protocol; such a frame changes nothing only if its message
says nothing new.
-/

namespace Sponge.NetworkInterface

/-- The message that `send_arp` builds. -/
def arpMessage (n : NetworkInterface) (opcode : UInt16) (targetIp : UInt32)
    (targetEth : EthernetAddress) : ArpMessage where
  opcode := opcode
  senderIpAddress := n.ipAddress.ipv4Numeric
  senderEthernetAddress := n.ethernetAddress
  targetIpAddress := targetIp
  targetEthernetAddress := targetEth

theorem heard_arpFrame (n other : NetworkInterface) {opcode : UInt16} (ip : UInt32)
    (eth : EthernetAddress)
    (h : opcode = ArpMessage.opcodeRequest ∨ opcode = ArpMessage.opcodeReply) :
    other.heard (n.arpFrame opcode ip eth) = some (n.arpMessage opcode ip eth) := by
  have hsupported : (n.arpMessage opcode ip eth).Supported := ⟨rfl, rfl, rfl, rfl, h⟩
  have hparse : ArpMessage.parse {} (n.arpFrame opcode ip eth).payload =
      (.noError, n.arpMessage opcode ip eth) := ArpMessage.parse_bytes {} hsupported
  rw [heard_of_arp rfl (by rw [hparse]), hparse]

/-- Supported ARP messages and all frames are read back as they were written, and an accepted ARP
message is written back as the bytes it was read from; so what one interface sends to resolve an
address is what another one hears. -/
theorem link_layer_roundTrip :
    (∀ into msg : ArpMessage, msg.Supported →
      ∃ b, msg.serialize = .ok b ∧ into.parse b = (.noError, msg)) ∧
    (∀ (into : ArpMessage) (b : List UInt8), (into.parse b).1 = .noError →
      (into.parse b).2.serialize = .ok (b.take 28)) ∧
    (∀ into frame : EthernetFrame,
      into.parse frame.serialize.concatenate = (.noError, frame)) ∧
    ∀ (n other : NetworkInterface) (opcode : UInt16) (ip : UInt32) (eth : EthernetAddress),
      opcode = ArpMessage.opcodeRequest ∨ opcode = ArpMessage.opcodeReply →
      ∃ frame, n.sendArp opcode ip eth = .ok (n.pushFrame frame) ∧
        (∀ into : EthernetFrame, into.parse frame.serialize.concatenate = (.noError, frame)) ∧
        other.heard frame = some (n.arpMessage opcode ip eth) := by
  refine ⟨?_, fun into b h ↦ into.serialize_parse h, EthernetFrame.parse_serialize, ?_⟩
  · intro into msg h
    exact ⟨msg.bytes, ArpMessage.serialize_eq h, into.parse_bytes h⟩
  · intro n other opcode ip eth h
    refine ⟨n.arpFrame opcode ip eth, n.sendArp_eq ip eth h, ?_, n.heard_arpFrame other ip eth h⟩
    exact fun into ↦ into.parse_serialize _

/-- The frame is for another host, or neither IPv4 nor ARP. -/
def Foreign (n : NetworkInterface) (frame : EthernetFrame) : Prop :=
  (frame.header.dst ≠ n.ethernetAddress ∧ frame.header.dst ≠ ethernetBroadcast) ∨
    (frame.header.type ≠ EthernetHeader.typeIpv4 ∧ frame.header.type ≠ EthernetHeader.typeArp)

instance (n : NetworkInterface) (frame : EthernetFrame) : Decidable (n.Foreign frame) :=
  inferInstanceAs (Decidable (_ ∨ _))

/-- The sender is known, was not asked for and does not ask for this interface. -/
def NothingNew (n : NetworkInterface) (msg : ArpMessage) : Prop :=
  n.ip2eth msg.senderIpAddress ≠ none ∧ n.timestampsArp msg.senderIpAddress = none ∧
    ¬(msg.opcode = ArpMessage.opcodeRequest ∧ msg.targetIpAddress = n.ipAddress.ipv4Numeric)

instance (n : NetworkInterface) (msg : ArpMessage) : Decidable (n.NothingNew msg) :=
  inferInstanceAs (Decidable (_ ∧ _))

variable {n : NetworkInterface} {frame : EthernetFrame} {msg : ArpMessage}

/-- A message leaves the interface alone only if it says nothing new. -/
theorem nothingNew_of_hear_eq (h : n.hear msg = n) : n.NothingNew msg := by
  have hnone : n.timestampsArp msg.senderIpAddress = none := by
    rw [← h, timestampsArp_hear, Function.update_self]
  refine ⟨?_, hnone, fun hasks ↦ ?_⟩
  · rw [← h, (n.keepsMappings_hear msg).ip2eth]
    exact n.remember_ip2eth_ne_none _ _
  · have hframes := n.framesOut_hear msg
    rw [h, List.self_eq_append_right] at hframes
    simp [hearFrames, hnone, answerFrames, hasks] at hframes

theorem recvFrame_of_nothingNew (hheard : n.heard frame = some msg) (hmsg : n.NothingNew msg) :
    n.recvFrame frame = .ok (none, n) := by
  obtain ⟨hknown, hasked, hasks⟩ := hmsg
  obtain ⟨eth, heth⟩ := Option.ne_none_iff_exists'.mp hknown
  have hlearn : n.learn msg.senderIpAddress msg.senderEthernetAddress = .ok n := by
    rw [(n.learn_eq _ _).1 (by simp [hasked]), remember_of_some heth]
  rw [heard] at hheard
  split_ifs at hheard with hipv4 hok
  have hparsed := Option.some.inj hheard
  rw [recvFrame, if_neg hipv4]
  simp only [hok, ne_eq, not_true_eq_false, if_false, hparsed, hlearn, bind, Except.bind]
  exact if_neg hasks

theorem recvFrame_of_heard_eq_none (hforeign : n.Foreign frame) (hheard : n.heard frame = none) :
    n.recvFrame frame = .ok (none, n) := by
  have hipv4 : ¬(frame.header.type = EthernetHeader.typeIpv4 ∧
      frame.header.dst = n.ethernetAddress) := by
    rintro ⟨htype, hdst⟩
    rcases hforeign with hother | hother
    · exact hother.1 hdst
    · exact hother.1 htype
  rw [heard, if_neg hipv4] at hheard
  split_ifs at hheard with hok
  rw [recvFrame, if_neg hipv4]
  exact if_pos hok

/-- A frame that is for another host or of another protocol leaves every interface as it is and
brings no datagram, exactly if it carries no ARP message or one that says nothing new. -/
theorem foreign_frame_ignored (n : NetworkInterface) (frame : EthernetFrame)
    (hforeign : n.Foreign frame) :
    n.recvFrame frame = .ok (none, n) ↔ ∀ msg ∈ n.heard frame, n.NothingNew msg := by
  cases hheard : n.heard frame with
  | none => exact iff_of_true (recvFrame_of_heard_eq_none hforeign hheard) (by simp)
  | some msg =>
      refine ⟨fun h ↦ ?_, fun h ↦ recvFrame_of_nothingNew hheard (h msg rfl)⟩
      have hafter : n.after (.recvFrame frame) = n := after_of_apply (by rw [apply, h]; rfl)
      rw [after_recvFrame_of_heard hheard] at hafter
      rintro _ ⟨⟩
      exact nothingNew_of_hear_eq hafter

/-- A known neighbour tells another host of a new address. -/
theorem foreign_frame_ignored_known_sender :
    let n := after { ethernetAddress := .replicate 6 1, ipAddress := ⟨2⟩ }
      (.recvFrame (replyFrom 3 (.replicate 6 3)))
    let frame : EthernetFrame :=
      { header := { dst := .replicate 6 9, src := .replicate 6 3, type := EthernetHeader.typeArp }
        payload := (replyFrom 3 (.replicate 6 4)).payload }
    n.Foreign frame ∧ n.heard frame ≠ none ∧ n.recvFrame frame = .ok (none, n) :=
  ⟨by decide +kernel, by decide +kernel,
    (foreign_frame_ignored _ _ (by decide +kernel)).mpr (by decide +kernel)⟩

/-- What an unknown neighbour tells another host is learned, and a request for this interface is
answered that comes in a frame of another protocol. -/
theorem foreign_frame_heeded :
    let n : NetworkInterface := { ethernetAddress := .replicate 6 1, ipAddress := ⟨2⟩ }
    let other : NetworkInterface := { ethernetAddress := .replicate 6 3, ipAddress := ⟨3⟩ }
    let told : EthernetFrame :=
      { header := { dst := .replicate 6 9, src := .replicate 6 3, type := EthernetHeader.typeArp }
        payload := (replyFrom 3 (.replicate 6 3)).payload }
    let asked : EthernetFrame :=
      { header := { dst := .replicate 6 1, src := .replicate 6 3, type := 0x86dd }
        payload := (other.arpFrame ArpMessage.opcodeRequest 2 addrBroadcast).payload }
    (n.Foreign told ∧ n.ip2eth 3 = none ∧
      (n.recvFrame told).toOption.map (fun r ↦ r.2.ip2eth 3) = some (some (.replicate 6 3))) ∧
    n.Foreign asked ∧ n.framesOut = [] ∧
      (n.recvFrame asked).toOption.map (fun r ↦ r.2.framesOut.length) = some 1 := by
  decide +kernel

end Sponge.NetworkInterface
