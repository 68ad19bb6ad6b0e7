import Sponge.Codec.Arp
import Sponge.Codec.Buffer

/-!
# Frames on the wire

A frame is written as its header and its payload and read back the same way. An
ARP message takes the first 28 bytes of a payload; what follows them is not
looked at.
-/

namespace Sponge

namespace EthernetHeader

/-- Header length in bytes. -/
def length : ℕ := 14

def parse (header : EthernetHeader) (p : NetParser) : ParseResult × EthernetHeader × NetParser :=
  if p.buffer.length < length then (.packetTooShort, header, p)
  else
    let (dst, p) := p.ethernetAddress
    let (src, p) := p.ethernetAddress
    let (type, p) := p.u16
    (p.error, { dst, src, type }, p)

def serialize (header : EthernetHeader) : List UInt8 :=
  NetUnparser.ethernetAddress header.dst ++ NetUnparser.ethernetAddress header.src ++
    NetUnparser.u16 header.type

@[simp] theorem length_serialize (header : EthernetHeader) : header.serialize.length = 14 := by
  simp [serialize]

theorem parse_serialize_append (into header : EthernetHeader) (rest : List UInt8) :
    into.parse ⟨header.serialize ++ rest, .noError⟩ =
      (.noError, header, ⟨rest, .noError⟩) := by
  have hlen : ¬(header.serialize ++ rest).length < length := by simp [length]
  simp only [parse, if_neg hlen]
  simp only [serialize, List.append_assoc, NetParser.ethernetAddress_append,
    NetParser.u16_append]

end EthernetHeader

namespace EthernetFrame

/-- As with datagrams, the verdict of the header's parser is dropped. -/
def parse (frame : EthernetFrame) (buffer : List UInt8) : ParseResult × EthernetFrame :=
  let (_, header, p) := frame.header.parse { buffer }
  (p.error, { header, payload := p.buffer })

def serialize (frame : EthernetFrame) : BufferList :=
  (BufferList.ofString frame.header.serialize).append (.ofString frame.payload)

theorem concatenate_serialize (frame : EthernetFrame) :
    frame.serialize.concatenate = frame.header.serialize ++ frame.payload := by
  rw [BufferList.concatenate_eq]
  simp [serialize, BufferList.append, BufferList.ofString]

theorem parse_serialize (into frame : EthernetFrame) :
    into.parse frame.serialize.concatenate = (.noError, frame) := by
  rw [concatenate_serialize, parse]
  simp only [EthernetHeader.parse_serialize_append]

end EthernetFrame

theorem NetUnparser.exists_ethernetAddress_append {buffer : List UInt8}
    (h : 6 ≤ buffer.length) :
    ∃ address rest, buffer = NetUnparser.ethernetAddress address ++ rest := by
  match buffer, h with
  | b₀ :: b₁ :: b₂ :: b₃ :: b₄ :: b₅ :: rest, _ =>
      refine ⟨#v[b₀, b₁, b₂, b₃, b₄, b₅], rest, ?_⟩
      simp [NetUnparser.ethernetAddress, NetUnparser.u8_eq]

namespace ArpMessage

variable {msg : ArpMessage}

/-- Any 28 bytes are those of a message, which need not be supported. -/
theorem exists_eq_bytes_append {b : List UInt8} (h : length ≤ b.length) :
    ∃ msg rest, b = bytes msg ++ rest := by
  rw [length] at h
  obtain ⟨hardwareType, b, rfl⟩ := @NetUnparser.exists_u16_append b (by omega)
  rw [List.length_append, NetUnparser.length_u16] at h
  obtain ⟨protocolType, b, rfl⟩ := @NetUnparser.exists_u16_append b (by omega)
  rw [List.length_append, NetUnparser.length_u16] at h
  obtain ⟨hardwareAddressSize, b, rfl⟩ := @NetUnparser.exists_u8_append b (by omega)
  rw [List.length_append, NetUnparser.length_u8] at h
  obtain ⟨protocolAddressSize, b, rfl⟩ := @NetUnparser.exists_u8_append b (by omega)
  rw [List.length_append, NetUnparser.length_u8] at h
  obtain ⟨opcode, b, rfl⟩ := @NetUnparser.exists_u16_append b (by omega)
  rw [List.length_append, NetUnparser.length_u16] at h
  obtain ⟨sender, b, rfl⟩ := @NetUnparser.exists_ethernetAddress_append b (by omega)
  rw [List.length_append, NetUnparser.length_ethernetAddress] at h
  obtain ⟨senderIp, b, rfl⟩ := @NetUnparser.exists_u32_append b (by omega)
  rw [List.length_append, NetUnparser.length_u32] at h
  obtain ⟨target, b, rfl⟩ := @NetUnparser.exists_ethernetAddress_append b (by omega)
  rw [List.length_append, NetUnparser.length_ethernetAddress] at h
  obtain ⟨targetIp, b, rfl⟩ := @NetUnparser.exists_u32_append b (by omega)
  refine ⟨⟨hardwareType, protocolType, hardwareAddressSize, protocolAddressSize, opcode, sender,
    senderIp, target, targetIp⟩, b, ?_⟩
  simp only [bytes, List.append_assoc]

theorem parse_bytes_append_of_not_supported (into : ArpMessage) (h : ¬msg.Supported)
    (rest : List UInt8) : (into.parse (msg.bytes ++ rest)).1 = .unsupported := by
  have hlen : ¬(msg.bytes ++ rest).length < length := by simp [length]
  have hsupported : ∀ sender senderIp target targetIp, ¬Supported
      { msg with senderEthernetAddress := sender, senderIpAddress := senderIp
                 targetEthernetAddress := target, targetIpAddress := targetIp } :=
    fun _ _ _ _ ↦ h
  simp only [parse, if_neg hlen]
  simp only [bytes, List.append_assoc, NetParser.u8_append, NetParser.u16_append]
  rw [if_pos (hsupported _ _ _ _)]

/-- What is accepted is written back as it was read. -/
theorem serialize_parse (into : ArpMessage) {b : List UInt8}
    (h : (into.parse b).1 = .noError) : (into.parse b).2.serialize = .ok (b.take length) := by
  have hlen : length ≤ b.length := by
    by_contra hshort
    rw [parse, if_pos (not_le.mp hshort)] at h
    cases h
  obtain ⟨msg, rest, rfl⟩ := exists_eq_bytes_append hlen
  have hsupported : msg.Supported := by
    by_contra hnot
    rw [parse_bytes_append_of_not_supported into hnot] at h
    cases h
  rw [parse_bytes_append into hsupported, serialize_eq hsupported, length,
    List.take_left' msg.length_bytes]

end ArpMessage

end Sponge
