import Sponge.Codec.Ipv4RoundTrip

/-!
# Datagrams that survive the wire

A datagram whose header fits the wire and its payload is read back as it was
written, except for the checksum, which is computed when it is written. Once it
has been read back it is not changed any more by being sent on.
-/

namespace Sponge.Ipv4Datagram

/-- The fields of the header fit the wire and one another. -/
structure Fits (dgram : Ipv4Datagram) : Prop where
  ver : dgram.header.ver = 4
  hlen_ge : 5 ≤ dgram.header.hlen.toNat
  hlen_le : dgram.header.hlen.toNat ≤ 15
  offset_lt : dgram.header.offset.toNat < 2 ^ 13
  len : dgram.header.len.toNat = 4 * dgram.header.hlen.toNat + dgram.payload.length

theorem fits_iff {dgram : Ipv4Datagram} : dgram.Fits ↔ dgram.header.ver = 4 ∧
    5 ≤ dgram.header.hlen.toNat ∧ dgram.header.hlen.toNat ≤ 15 ∧
    dgram.header.offset.toNat < 2 ^ 13 ∧
    dgram.header.len.toNat = 4 * dgram.header.hlen.toNat + dgram.payload.length :=
  ⟨fun h ↦ ⟨h.ver, h.hlen_ge, h.hlen_le, h.offset_lt, h.len⟩,
    fun ⟨hver, hge, hle, hoffset, hlen⟩ ↦ ⟨hver, hge, hle, hoffset, hlen⟩⟩

instance (dgram : Ipv4Datagram) : Decidable dgram.Fits := decidable_of_iff _ fits_iff.symm

/-- The datagram as it is read back. -/
def stamped (dgram : Ipv4Datagram) : Ipv4Datagram :=
  { dgram with header := { dgram.header with cksum := dgram.checksum } }

@[simp] theorem stamped_stamped (dgram : Ipv4Datagram) : dgram.stamped.stamped = dgram.stamped :=
  rfl

theorem pseudoCksum_stamped (dgram : Ipv4Datagram) :
    dgram.stamped.header.pseudoCksum = dgram.header.pseudoCksum := by
  simp only [Ipv4Header.pseudoCksum, Ipv4Header.payloadLength, stamped]

/-- The datagram as it is written. -/
def bytes (dgram : Ipv4Datagram) : List UInt8 := dgram.stamped.header.bytes ++ dgram.payload

@[simp] theorem bytes_stamped (dgram : Ipv4Datagram) : dgram.stamped.bytes = dgram.bytes := rfl

namespace Fits

variable {dgram : Ipv4Datagram}

theorem stamped (h : dgram.Fits) : dgram.stamped.Fits :=
  ⟨h.ver, h.hlen_ge, h.hlen_le, h.offset_lt, h.len⟩

theorem serialize_eq (h : dgram.Fits) : dgram.serialize = .ok dgram.bytes :=
  Ipv4Datagram.serialize_eq dgram h.ver h.hlen_ge h.len

theorem length_bytes (h : dgram.Fits) : dgram.bytes.length = dgram.header.len.toNat := by
  have hbytes : dgram.stamped.header.bytes.length = 4 * dgram.header.hlen.toNat :=
    Ipv4Header.length_bytes h.hlen_ge
  rw [bytes, List.length_append, hbytes, h.len]

/-- A datagram that fits survives the wire. -/
theorem parse_bytes (h : dgram.Fits) (into : Ipv4Datagram) :
    into.parse dgram.bytes = (.noError, dgram.stamped) := by
  have hparse := @Ipv4Header.parse_bytes_append dgram.stamped.header h.ver h.hlen_ge h.hlen_le
    h.offset_lt dgram.payload h.len into.header
  exact parse_of_header hparse h.len

theorem serializable (h : dgram.Fits) : dgram.Serializable :=
  ⟨h.ver, UInt8.le_iff_toNat_le.mpr h.hlen_ge, (Ipv4Header.toNat_payloadLength h.len).symm⟩

end Fits

end Sponge.Ipv4Datagram
