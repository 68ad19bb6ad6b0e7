import Sponge.Codec.Parser

/-!
# Ethernet frames and ARP messages

Frames are handed on as objects: a header and the bytes of a payload. An ARP
message is written to and read from such a payload; only Ethernet and IPv4
addresses, and only requests and replies, are supported.
-/

namespace Sponge

abbrev EthernetAddress := Vector UInt8 6

def ethernetBroadcast : EthernetAddress := Vector.replicate 6 0xff

namespace EthernetHeader

def typeIpv4 : UInt16 := 0x800

def typeArp : UInt16 := 0x806

end EthernetHeader

structure EthernetHeader where
  dst : EthernetAddress
  src : EthernetAddress
  type : UInt16
  deriving DecidableEq

structure EthernetFrame where
  header : EthernetHeader
  payload : List UInt8
  deriving DecidableEq

namespace NetParser

/-- The loop that reads the six bytes of an Ethernet address. -/
def ethernetAddress (p : NetParser) : EthernetAddress × NetParser :=
  let (b₀, p) := p.u8
  let (b₁, p) := p.u8
  let (b₂, p) := p.u8
  let (b₃, p) := p.u8
  let (b₄, p) := p.u8
  let (b₅, p) := p.u8
  (#v[b₀, b₁, b₂, b₃, b₄, b₅], p)

end NetParser

namespace NetUnparser

def ethernetAddress (address : EthernetAddress) : List UInt8 :=
  address.toList.flatMap u8

end NetUnparser

theorem EthernetAddress.exists_bytes (address : EthernetAddress) :
    ∃ b₀ b₁ b₂ b₃ b₄ b₅, address = #v[b₀, b₁, b₂, b₃, b₄, b₅] := by
  match address with
  | ⟨⟨[b₀, b₁, b₂, b₃, b₄, b₅]⟩, _⟩ => exact ⟨b₀, b₁, b₂, b₃, b₄, b₅, rfl⟩

@[simp] theorem NetUnparser.length_ethernetAddress (address : EthernetAddress) :
    (NetUnparser.ethernetAddress address).length = 6 := by
  obtain ⟨b₀, b₁, b₂, b₃, b₄, b₅, rfl⟩ := address.exists_bytes
  rfl

@[simp] theorem NetParser.ethernetAddress_append (address : EthernetAddress)
    (rest : List UInt8) :
    NetParser.ethernetAddress ⟨NetUnparser.ethernetAddress address ++ rest, .noError⟩ =
      (address, ⟨rest, .noError⟩) := by
  obtain ⟨b₀, b₁, b₂, b₃, b₄, b₅, rfl⟩ := address.exists_bytes
  simp [NetParser.ethernetAddress, NetUnparser.ethernetAddress, NetUnparser.u8_eq]

namespace ArpMessage

/-- Length of a message in bytes. -/
def length : ℕ := 28

def typeEthernet : UInt16 := 1

def opcodeRequest : UInt16 := 1

def opcodeReply : UInt16 := 2

end ArpMessage

structure ArpMessage where
  hardwareType : UInt16 := ArpMessage.typeEthernet
  protocolType : UInt16 := EthernetHeader.typeIpv4
  hardwareAddressSize : UInt8 := 6
  protocolAddressSize : UInt8 := 4
  opcode : UInt16 := 0
  senderEthernetAddress : EthernetAddress := Vector.replicate 6 0
  senderIpAddress : UInt32 := 0
  targetEthernetAddress : EthernetAddress := Vector.replicate 6 0
  targetIpAddress : UInt32 := 0
  deriving DecidableEq

namespace ArpMessage

def Supported (msg : ArpMessage) : Prop :=
  msg.hardwareType = typeEthernet ∧ msg.protocolType = EthernetHeader.typeIpv4 ∧
    msg.hardwareAddressSize = 6 ∧ msg.protocolAddressSize = 4 ∧
    (msg.opcode = opcodeRequest ∨ msg.opcode = opcodeReply)

instance (msg : ArpMessage) : Decidable msg.Supported :=
  inferInstanceAs (Decidable (_ ∧ _ ∧ _ ∧ _ ∧ (_ ∨ _)))

/-- Reads a message into the object; what was read before an error stays in it. -/
def parse (msg : ArpMessage) (buffer : List UInt8) : ParseResult × ArpMessage :=
  let p : NetParser := { buffer }
  if p.buffer.length < length then (.packetTooShort, msg)
  else
    let (hardwareType, p) := p.u16
    let (protocolType, p) := p.u16
    let (hardwareAddressSize, p) := p.u8
    let (protocolAddressSize, p) := p.u8
    let (opcode, p) := p.u16
    let msg := { msg with
      hardwareType, protocolType, hardwareAddressSize, protocolAddressSize, opcode }
    if ¬msg.Supported then (.unsupported, msg)
    else
      let (senderEthernetAddress, p) := p.ethernetAddress
      let (senderIpAddress, p) := p.u32
      let (targetEthernetAddress, p) := p.ethernetAddress
      let (targetIpAddress, p) := p.u32
      (p.error, { msg with
        senderEthernetAddress, senderIpAddress, targetEthernetAddress, targetIpAddress })

def serialize (msg : ArpMessage) : Except Exception (List UInt8) :=
  if ¬msg.Supported then
    throw (.runtimeError ("ARPMessage::serialize(): unsupported field combination " ++
      "(must be Ethernet/IP, and request or reply)"))
  else
    return NetUnparser.u16 msg.hardwareType ++ NetUnparser.u16 msg.protocolType ++
      NetUnparser.u8 msg.hardwareAddressSize ++ NetUnparser.u8 msg.protocolAddressSize ++
      NetUnparser.u16 msg.opcode ++
      NetUnparser.ethernetAddress msg.senderEthernetAddress ++
      NetUnparser.u32 msg.senderIpAddress ++
      NetUnparser.ethernetAddress msg.targetEthernetAddress ++
      NetUnparser.u32 msg.targetIpAddress

/-- The bytes of a supported message. -/
def bytes (msg : ArpMessage) : List UInt8 :=
  NetUnparser.u16 msg.hardwareType ++ NetUnparser.u16 msg.protocolType ++
    NetUnparser.u8 msg.hardwareAddressSize ++ NetUnparser.u8 msg.protocolAddressSize ++
    NetUnparser.u16 msg.opcode ++ NetUnparser.ethernetAddress msg.senderEthernetAddress ++
    NetUnparser.u32 msg.senderIpAddress ++
    NetUnparser.ethernetAddress msg.targetEthernetAddress ++
    NetUnparser.u32 msg.targetIpAddress

@[simp] theorem length_bytes (msg : ArpMessage) : msg.bytes.length = 28 := by
  simp [bytes]

theorem serialize_eq {msg : ArpMessage} (h : msg.Supported) :
    msg.serialize = .ok msg.bytes := by
  rw [serialize, if_neg (not_not.mpr h)]
  rfl

/-- The fields come out in the order in which they went in. -/
theorem parse_bytes_append (into : ArpMessage) {msg : ArpMessage} (h : msg.Supported)
    (rest : List UInt8) : into.parse (msg.bytes ++ rest) = (.noError, msg) := by
  have hlen : ¬(msg.bytes ++ rest).length < length := by simp [length]
  have hsupported : ∀ sender senderIp target targetIp, Supported
      { msg with senderEthernetAddress := sender, senderIpAddress := senderIp
                 targetEthernetAddress := target, targetIpAddress := targetIp } :=
    fun _ _ _ _ ↦ h
  simp only [parse, if_neg hlen]
  simp only [bytes, List.append_assoc, NetParser.u8_append, NetParser.u16_append,
    NetParser.u32_append, NetParser.ethernetAddress_append]
  rw [if_neg (not_not.mpr (hsupported _ _ _ _))]

theorem parse_bytes (into : ArpMessage) {msg : ArpMessage} (h : msg.Supported) :
    into.parse msg.bytes = (.noError, msg) := by
  have happend := into.parse_bytes_append h []
  rwa [List.append_nil] at happend

end ArpMessage

end Sponge
