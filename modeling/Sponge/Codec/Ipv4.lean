import Sponge.Codec.Parser
import Sponge.Codec.Checksum

/-!
# IPv4 headers and datagrams

Parsing fills an object field by field and may leave it half filled; writing
throws on a header that is not IPv4 and on a payload of the wrong size. The
parser of a datagram looks only at the size of its payload and at the parser
state: the result of the header's own checks is dropped, as in the source.
-/

namespace Sponge

namespace Ipv4Header

/-- Header length in bytes, without options. -/
def length : ℕ := 20

def defaultTtl : UInt8 := 128

def protoTcp : UInt8 := 6

end Ipv4Header

structure Ipv4Header where
  ver : UInt8 := 4
  hlen : UInt8 := 5
  tos : UInt8 := 0
  len : UInt16 := 0
  id : UInt16 := 0
  df : Bool := true
  mf : Bool := false
  offset : UInt16 := 0
  ttl : UInt8 := Ipv4Header.defaultTtl
  proto : UInt8 := Ipv4Header.protoTcp
  cksum : UInt16 := 0
  src : UInt32 := 0
  dst : UInt32 := 0
  deriving DecidableEq

namespace Ipv4Header

def parse (header : Ipv4Header) (p : NetParser) : ParseResult × Ipv4Header × NetParser :=
  let originalSerializedVersion := p.buffer
  let dataSize := p.buffer.length
  if dataSize < length then (.packetTooShort, header, p)
  else
    let (firstByte, p) := p.u8
    let ver := firstByte >>> 4
    let hlen := firstByte &&& 0x0f
    let (tos, p) := p.u8
    let (len, p) := p.u16
    let (id, p) := p.u16
    let (foVal, p) := p.u16
    let df := foVal &&& 0x4000 != 0
    let mf := foVal &&& 0x2000 != 0
    let offset := foVal &&& 0x1fff
    let (ttl, p) := p.u8
    let (proto, p) := p.u8
    let (cksum, p) := p.u16
    let (src, p) := p.u32
    let (dst, p) := p.u32
    let header : Ipv4Header :=
      { ver, hlen, tos, len, id, df, mf, offset, ttl, proto, cksum, src, dst }
    if dataSize < 4 * hlen.toNat then (.packetTooShort, header, p)
    else if ver ≠ 4 then (.wrongIpVersion, header, p)
    else if hlen < 5 then (.headerTooShort, header, p)
    else if dataSize ≠ len.toNat then (.truncatedPacket, header, p)
    else
      let p := p.removePrefix (hlen.toNat * 4 - length)
      if p.error ≠ .noError then (p.error, header, p)
      else
        let check := InternetChecksum.add {} (originalSerializedVersion.take (4 * hlen.toNat))
        if check.value ≠ 0 then (.badChecksum, header, p) else (.noError, header, p)

def serialize (header : Ipv4Header) : Except Exception (List UInt8) :=
  if header.ver ≠ 4 then throw (.runtimeError "wrong IP version")
  else if 4 * header.hlen.toNat < length then throw (.runtimeError "IP header too short")
  else
    let firstByte := (header.ver <<< 4) ||| (header.hlen &&& 0xf)
    let foVal : UInt16 := (if header.df then 0x4000 else 0) |||
      (if header.mf then 0x2000 else 0) ||| (header.offset &&& 0x1fff)
    let ret := NetUnparser.u8 firstByte ++ NetUnparser.u8 header.tos ++
      NetUnparser.u16 header.len ++ NetUnparser.u16 header.id ++ NetUnparser.u16 foVal ++
      NetUnparser.u8 header.ttl ++ NetUnparser.u8 header.proto ++
      NetUnparser.u16 header.cksum ++ NetUnparser.u32 header.src ++
      NetUnparser.u32 header.dst
    -- `resize` expands the header to its advertised size
    return ret ++ List.replicate (4 * header.hlen.toNat - ret.length) 0

def payloadLength (header : Ipv4Header) : UInt16 :=
  header.len - 4 * header.hlen.toUInt16

/-- What the pseudo-header adds to the checksum of a segment. -/
def pseudoCksum (header : Ipv4Header) : UInt32 :=
  let pcksum := (header.src >>> 16) + (header.src &&& 0xffff)
  let pcksum := pcksum + ((header.dst >>> 16) + (header.dst &&& 0xffff))
  let pcksum := pcksum + header.proto.toUInt32
  pcksum + header.payloadLength.toUInt32

/-- Four halves of addresses, a byte and a length: far from `2 ^ 32`. -/
theorem toNat_pseudoCksum_le (header : Ipv4Header) :
    header.pseudoCksum.toNat ≤ 5 * 65535 + 255 := by
  have hsrc := header.src.toNat_lt
  have hdst := header.dst.toNat_lt
  have hproto := header.proto.toNat_lt
  have hlen := header.payloadLength.toNat_lt
  have hs := InternetChecksum.toNat_foldCarry header.src
  have hd := InternetChecksum.toNat_foldCarry header.dst
  rw [pseudoCksum]
  generalize (header.src >>> 16) + (header.src &&& 0xffff) = s at hs ⊢
  generalize (header.dst >>> 16) + (header.dst &&& 0xffff) = d at hd ⊢
  simp only [UInt32.toNat_add, UInt8.toNat_toUInt32, UInt16.toNat_toUInt32]
  omega

end Ipv4Header

structure Ipv4Datagram where
  header : Ipv4Header := {}
  payload : List UInt8 := []
  deriving DecidableEq

namespace Ipv4Datagram

def parse (dgram : Ipv4Datagram) (buffer : List UInt8) : ParseResult × Ipv4Datagram :=
  let (_, header, p) := dgram.header.parse { buffer }
  let dgram : Ipv4Datagram := { header, payload := p.buffer }
  if dgram.payload.length ≠ dgram.header.payloadLength.toNat then (.packetTooShort, dgram)
  else (p.error, dgram)

def serialize (dgram : Ipv4Datagram) : Except Exception (List UInt8) := do
  if dgram.payload.length ≠ dgram.header.payloadLength.toNat then
    throw (.runtimeError "IPv4Datagram::serialize: payload is wrong size")
  let headerOut := { dgram.header with cksum := 0 }
  let headerZeroChecksum ← headerOut.serialize
  -- the checksum is taken over the header only
  let check := InternetChecksum.add {} headerZeroChecksum
  let headerOut := { headerOut with cksum := check.value }
  return (← headerOut.serialize) ++ dgram.payload

/-- What `serialize` asks of a datagram. -/
def Serializable (dgram : Ipv4Datagram) : Prop :=
  dgram.header.ver = 4 ∧ 5 ≤ dgram.header.hlen ∧
    dgram.payload.length = dgram.header.payloadLength.toNat

instance (dgram : Ipv4Datagram) : Decidable dgram.Serializable :=
  inferInstanceAs (Decidable (_ ∧ _ ∧ _))

theorem exists_serialize_header (header : Ipv4Header) (hver : header.ver = 4)
    (hlen : 5 ≤ header.hlen) : ∃ bytes, header.serialize = .ok bytes := by
  have hle : 5 ≤ header.hlen.toNat := UInt8.le_iff_toNat_le.mp hlen
  rw [Ipv4Header.serialize, if_neg (not_not.mpr hver),
    if_neg (by rw [Ipv4Header.length]; omega)]
  exact ⟨_, rfl⟩

theorem exists_serialize {dgram : Ipv4Datagram} (h : dgram.Serializable) :
    ∃ bytes, dgram.serialize = .ok bytes := by
  obtain ⟨hver, hlen, hpayload⟩ := h
  obtain ⟨zero, hzero⟩ := exists_serialize_header { dgram.header with cksum := 0 } hver hlen
  obtain ⟨bytes, hbytes⟩ := exists_serialize_header
    { dgram.header with cksum := (InternetChecksum.add {} zero).value } hver hlen
  refine ⟨bytes ++ dgram.payload, ?_⟩
  dsimp only at hzero hbytes
  simp only [serialize, hpayload, ne_eq, not_true_eq_false, if_false, hzero, bind, Except.bind,
    hbytes]
  rfl

end Ipv4Datagram

end Sponge
