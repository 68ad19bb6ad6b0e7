import Mathlib.Data.Nat.Bitwise
import Sponge.Codec.Ipv4Accept
import Sponge.Codec.ChecksumField

/-!
# Writing and reading datagrams

The checksum of a datagram covers its header only, options included. A datagram
is read back as it was written, and a header without options and without the
reserved flag is written back as it was read, up to the two forms of a zero
checksum.
-/

namespace Sponge

open Lib

namespace Ipv4Header

variable {header : Ipv4Header}

def firstByte (header : Ipv4Header) : UInt8 := (header.ver <<< 4) ||| (header.hlen &&& 0xf)

/-- The flags and the offset share two bytes. -/
def foVal (header : Ipv4Header) : UInt16 :=
  (if header.df then 0x4000 else 0) ||| (if header.mf then 0x2000 else 0) |||
    (header.offset &&& 0x1fff)

def bytesBefore (header : Ipv4Header) : List UInt8 :=
  NetUnparser.u8 header.firstByte ++ NetUnparser.u8 header.tos ++ NetUnparser.u16 header.len ++
    NetUnparser.u16 header.id ++ NetUnparser.u16 header.foVal ++ NetUnparser.u8 header.ttl ++
    NetUnparser.u8 header.proto

/-- The bytes after the checksum, padded to the size that the header claims. -/
def bytesAfter (header : Ipv4Header) : List UInt8 :=
  NetUnparser.u32 header.src ++ NetUnparser.u32 header.dst ++
    List.replicate (4 * header.hlen.toNat - 20) 0

def bytes (header : Ipv4Header) : List UInt8 :=
  header.bytesBefore ++ NetUnparser.u16 header.cksum ++ header.bytesAfter

theorem length_bytesBefore (header : Ipv4Header) : header.bytesBefore.length = 10 := by
  simp [bytesBefore]

theorem even_length_bytesBefore (header : Ipv4Header) : header.bytesBefore.length % 2 = 0 := by
  rw [length_bytesBefore]

theorem length_bytes (hle : 5 ≤ header.hlen.toNat) :
    header.bytes.length = 4 * header.hlen.toNat := by
  simp only [bytes, length_bytesBefore, bytesAfter, List.length_append, NetUnparser.length_u16,
    NetUnparser.length_u32, List.length_replicate]
  omega

theorem serialize_eq (hver : header.ver = 4) (hle : 5 ≤ header.hlen.toNat) :
    header.serialize = .ok header.bytes := by
  rw [serialize, if_neg (not_not.mpr hver), if_neg (by rw [length]; omega)]
  simp only [bytes, bytesBefore, bytesAfter, List.length_append, NetUnparser.length_u8,
    NetUnparser.length_u16, NetUnparser.length_u32, List.append_assoc]
  rfl

theorem version_firstByte (hver : header.ver = 4) : header.firstByte >>> 4 = header.ver := by
  have hall : ∀ n : Fin 256, ((4 : UInt8) <<< 4 ||| (UInt8.ofFin n &&& 0xf)) >>> 4 = 4 := by
    decide +kernel
  rw [firstByte, hver]
  exact hall header.hlen.toFin

theorem hlen_firstByte (hver : header.ver = 4) (hlt : header.hlen.toNat ≤ 15) :
    header.firstByte &&& 0x0f = header.hlen := by
  have hall : ∀ n : Fin 256, n.val ≤ 15 →
      ((4 : UInt8) <<< 4 ||| (UInt8.ofFin n &&& 0xf)) &&& 0x0f = UInt8.ofFin n := by
    decide +kernel
  rw [firstByte, hver]
  exact hall header.hlen.toFin hlt

theorem or_and_distrib (a b mask : UInt16) :
    (a ||| b) &&& mask = (a &&& mask) ||| (b &&& mask) := by
  apply UInt16.toNat.inj
  simp only [UInt16.toNat_and, UInt16.toNat_or, Nat.and_or_distrib_right]

theorem disjoint_masks : (0x1fff &&& 0x4000 : UInt16) = 0 ∧ (0x1fff &&& 0x2000 : UInt16) = 0 ∧
    (0x2000 &&& 0x4000 : UInt16) = 0 ∧ (0x4000 &&& 0x2000 : UInt16) = 0 ∧
    (0x2000 &&& 0x1fff : UInt16) = 0 ∧ (0x4000 &&& 0x1fff : UInt16) = 0 := by
  decide

theorem flags_foVal (header : Ipv4Header) :
    (header.foVal &&& 0x4000 != 0) = header.df ∧ (header.foVal &&& 0x2000 != 0) = header.mf := by
  rw [foVal]
  cases header.df <;> cases header.mf <;>
    simp [or_and_distrib, UInt16.and_assoc, disjoint_masks]

theorem offset_foVal (hoffset : header.offset.toNat < 2 ^ 13) :
    header.foVal &&& 0x1fff = header.offset := by
  have hmask : header.foVal &&& 0x1fff = header.offset &&& 0x1fff := by
    rw [foVal]
    cases header.df <;> cases header.mf <;>
      simp [or_and_distrib, UInt16.and_assoc, disjoint_masks]
  rw [hmask]
  apply UInt16.toNat.inj
  rw [UInt16.toNat_and]
  change header.offset.toNat &&& (2 ^ 13 - 1) = _
  rw [Nat.and_two_pow_sub_one_eq_mod, Nat.mod_eq_of_lt hoffset]

/-- The fields come out in the order in which they went in; only the checksum is judged. -/
theorem parse_bytes_append (hver : header.ver = 4) (hmin : 5 ≤ header.hlen.toNat)
    (hmax : header.hlen.toNat ≤ 15) (hoffset : header.offset.toNat < 2 ^ 13)
    {payload : List UInt8} (hlen : header.len.toNat = 4 * header.hlen.toNat + payload.length)
    (into : Ipv4Header) :
    into.parse ⟨header.bytes ++ payload, .noError⟩ =
      (if (InternetChecksum.add {} header.bytes).value ≠ 0 then .badChecksum else .noError,
        header, ⟨payload, .noError⟩) := by
  obtain ⟨hdf, hmf⟩ := header.flags_foVal
  have hbytes := length_bytes hmin
  have htake : (header.bytes ++ payload).take (4 * header.hlen.toNat) = header.bytes :=
    List.take_left' hbytes
  have hsize : (header.bytes ++ payload).length = header.len.toNat := by
    rw [List.length_append, hbytes, hlen]
  have hskip : NetParser.removePrefix
      ⟨List.replicate (4 * header.hlen.toNat - 20) 0 ++ payload, .noError⟩
      (header.hlen.toNat * 4 - length) = ⟨payload, .noError⟩ := by
    rw [length, Nat.mul_comm, NetParser.removePrefix_of_le (by simp)]
    simp
  generalize hsum : (InternetChecksum.add {} header.bytes).value = sum
  have hshort : ¬header.hlen < 5 := by
    rw [UInt8.lt_iff_toNat_lt]
    simpa using hmin
  simp only [bytes, bytesBefore, bytesAfter, List.append_assoc] at htake hsize hsum
  simp only [parse, bytes, bytesBefore, bytesAfter, List.append_assoc, hsize,
    if_neg (show ¬header.len.toNat < length by rw [length]; omega), NetParser.u8_append,
    NetParser.u16_append, NetParser.u32_append, version_firstByte hver, hlen_firstByte hver hmax,
    hdf, hmf, offset_foVal hoffset, htake, hsum, hskip,
    if_neg (show ¬header.len.toNat < 4 * header.hlen.toNat by omega), if_neg (not_not.mpr hver),
    if_neg hshort, ne_eq, not_true_eq_false, if_false]
  split_ifs <;> rfl

theorem toNat_payloadLength {n : ℕ} (hlen : header.len.toNat = 4 * header.hlen.toNat + n) :
    header.payloadLength.toNat = n := by
  have hlt := header.len.toNat_lt
  rw [payloadLength, UInt16.toNat_sub, UInt16.toNat_mul, UInt8.toNat_toUInt16, hlen]
  simp only [UInt16.reduceToNat]
  omega

end Ipv4Header

namespace Ipv4Datagram

/-- The checksum that `serialize` puts in. -/
def checksum (dgram : Ipv4Datagram) : UInt16 :=
  InternetChecksum.fieldValue 0 dgram.header.bytesBefore dgram.header.bytesAfter

theorem serialize_eq (dgram : Ipv4Datagram) (hver : dgram.header.ver = 4)
    (hmin : 5 ≤ dgram.header.hlen.toNat)
    (hlen : dgram.header.len.toNat = 4 * dgram.header.hlen.toNat + dgram.payload.length) :
    dgram.serialize =
      .ok ({ dgram.header with cksum := dgram.checksum }.bytes ++ dgram.payload) := by
  have hbytes : ∀ cksum, { dgram.header with cksum := cksum }.serialize =
      .ok { dgram.header with cksum := cksum }.bytes :=
    fun _ ↦ Ipv4Header.serialize_eq hver hmin
  simp only [serialize, Ipv4Header.toNat_payloadLength hlen, ne_eq, not_true_eq_false, if_false,
    hbytes, bind, Except.bind]
  rfl

/-- The words of a header are few. -/
theorem value_checksum_eq_zero (dgram : Ipv4Datagram) (hmin : 5 ≤ dgram.header.hlen.toNat)
    (hmax : dgram.header.hlen.toNat ≤ 15) :
    (InternetChecksum.add {} { dgram.header with cksum := dgram.checksum }.bytes).value = 0 := by
  have heven := dgram.header.even_length_bytesBefore
  have hwords := wordSum_le dgram.header.bytes
  rw [Ipv4Header.length_bytes hmin, Ipv4Header.bytes,
    InternetChecksum.wordSum_field heven] at hwords
  exact @InternetChecksum.value_fieldValue_eq_zero 0 dgram.header.bytesBefore
    dgram.header.bytesAfter heven (by change 0 + _ + _ < _; omega)

theorem parse_of_header {into : Ipv4Datagram} {header : Ipv4Header} {b payload : List UInt8}
    {result : ParseResult}
    (hparse : into.header.parse ⟨b, .noError⟩ = (result, header, ⟨payload, .noError⟩))
    (hlen : header.len.toNat = 4 * header.hlen.toNat + payload.length) :
    into.parse b = (.noError, ⟨header, payload⟩) := by
  simp only [parse, hparse, Ipv4Header.toNat_payloadLength hlen, ne_eq, not_true_eq_false,
    if_false]

/-! The other way round: the bytes of a header are those of its fields. -/

theorem ite_and_mask {mask : UInt16} {i : ℕ} (hmask : mask.toNat = 2 ^ i) (val : UInt16) :
    (if (val &&& mask != 0) then mask else 0) = val &&& mask := by
  have hand := Nat.and_two_pow val.toNat i
  rw [← hmask, ← UInt16.toNat_and] at hand
  cases hbit : val.toNat.testBit i with
  | false =>
      have hzero : val &&& mask = 0 := UInt16.toNat.inj (by simpa [hbit] using hand)
      simp [hzero]
  | true =>
      have heq : val &&& mask = mask := UInt16.toNat.inj (by simpa [hbit] using hand)
      have hne : mask ≠ 0 := by
        rintro rfl
        exact absurd hmask (Nat.two_pow_pos i).ne
      simp [heq, hne]

theorem foVal_flags {fo : UInt16} {header : Ipv4Header} (hfo : fo.toNat < 2 ^ 15)
    (hdf : header.df = (fo &&& 0x4000 != 0)) (hmf : header.mf = (fo &&& 0x2000 != 0))
    (hoffset : header.offset = fo &&& 0x1fff) : header.foVal = fo := by
  rw [Ipv4Header.foVal, hdf, hmf, hoffset, @ite_and_mask _ 14 rfl, @ite_and_mask _ 13 rfl,
    UInt16.and_assoc]
  apply UInt16.toNat.inj
  simp only [UInt16.toNat_and, UInt16.toNat_or, ← Nat.and_or_distrib_left]
  change fo.toNat &&& (2 ^ 15 - 1) = _
  rw [Nat.and_two_pow_sub_one_eq_mod, Nat.mod_eq_of_lt hfo]

theorem exists_fields {b : List UInt8} (h : 20 ≤ b.length) :
    ∃ tos len id fo ttl proto cksum src dst rest,
      b = NetUnparser.u8 (b.getD 0 0) ++ (NetUnparser.u8 tos ++ (NetUnparser.u16 len ++
        (NetUnparser.u16 id ++ (NetUnparser.u16 fo ++ (NetUnparser.u8 ttl ++
          (NetUnparser.u8 proto ++ (NetUnparser.u16 cksum ++ (NetUnparser.u32 src ++
            (NetUnparser.u32 dst ++ rest))))))))) ∧
      UInt16.toNat len = wireLen b ∧ UInt16.toNat fo / 2 ^ 8 = (b.getD 6 0).toNat := by
  obtain ⟨first, b, rfl⟩ := @NetUnparser.exists_u8_append b (by omega)
  rw [List.length_append, NetUnparser.length_u8] at h
  obtain ⟨tos, b, rfl⟩ := @NetUnparser.exists_u8_append b (by omega)
  rw [List.length_append, NetUnparser.length_u8] at h
  obtain ⟨len, b, rfl⟩ := @NetUnparser.exists_u16_append b (by omega)
  rw [List.length_append, NetUnparser.length_u16] at h
  obtain ⟨id, b, rfl⟩ := @NetUnparser.exists_u16_append b (by omega)
  rw [List.length_append, NetUnparser.length_u16] at h
  obtain ⟨fo, b, rfl⟩ := @NetUnparser.exists_u16_append b (by omega)
  rw [List.length_append, NetUnparser.length_u16] at h
  obtain ⟨ttl, b, rfl⟩ := @NetUnparser.exists_u8_append b (by omega)
  rw [List.length_append, NetUnparser.length_u8] at h
  obtain ⟨proto, b, rfl⟩ := @NetUnparser.exists_u8_append b (by omega)
  rw [List.length_append, NetUnparser.length_u8] at h
  obtain ⟨cksum, b, rfl⟩ := @NetUnparser.exists_u16_append b (by omega)
  rw [List.length_append, NetUnparser.length_u16] at h
  obtain ⟨src, b, rfl⟩ := @NetUnparser.exists_u32_append b (by omega)
  rw [List.length_append, NetUnparser.length_u32] at h
  obtain ⟨dst, rest, rfl⟩ := @NetUnparser.exists_u32_append b (by omega)
  have hlen := len.toNat_lt
  have hfo := fo.toNat_lt
  refine ⟨tos, len, id, fo, ttl, proto, cksum, src, dst, rest, ?_, ?_, ?_⟩
  · simp [NetUnparser.u8_eq]
  · simp [wireLen, NetUnparser.u8_eq, NetUnparser.u16_eq]
    omega
  · simp [NetUnparser.u8_eq, NetUnparser.u16_eq]
    omega

/-- A header without options and the reserved flag stands in the buffer as it would be
written. -/
theorem exists_eq_bytes_append {b : List UInt8} (hframed : Framed b) (hhlen : wireHlen b = 5)
    (hreserved : b.getD 6 0 &&& 0x80 = 0) :
    ∃ header payload, header.ver = 4 ∧ header.hlen = 5 ∧ header.offset.toNat < 2 ^ 13 ∧
      header.len.toNat = 4 * header.hlen.toNat + payload.length ∧
      b = Ipv4Header.bytes header ++ payload := by
  obtain ⟨tos, len, id, fo, ttl, proto, cksum, src, dst, rest, hb, hlen, hfo⟩ :=
    exists_fields hframed.length_le
  have hfirst : b.getD 0 0 = 0x45 := by
    have hver := hframed.version
    rw [wireVersion] at hver
    rw [wireHlen] at hhlen
    apply UInt8.toNat.inj
    change _ = 69
    omega
  have hlt : fo.toNat < 2 ^ 15 := by
    have hall : ∀ n : Fin 256, UInt8.ofFin n &&& 0x80 = 0 → n.val < 128 := by decide +kernel
    have hhigh : (b.getD 6 0).toNat < 128 := hall (b.getD 6 0).toFin hreserved
    omega
  have hoffset : (fo &&& 0x1fff).toNat < 2 ^ 13 := by
    rw [UInt16.toNat_and]
    exact Nat.lt_of_le_of_lt Nat.and_le_right (by decide)
  refine ⟨{ ver := 4, hlen := 5, tos, len, id, df := fo &&& 0x4000 != 0
            mf := fo &&& 0x2000 != 0, offset := fo &&& 0x1fff, ttl, proto, cksum, src, dst },
    rest, rfl, rfl, hoffset, ?_, ?_⟩
  · have hsize := congrArg List.length hb
    simp only [List.length_append, NetUnparser.length_u8, NetUnparser.length_u16,
      NetUnparser.length_u32] at hsize
    change len.toNat = 4 * 5 + rest.length
    rw [hlen, hframed.len]
    omega
  · rw [hfirst] at hb
    rw [Ipv4Header.bytes, Ipv4Header.bytesBefore, Ipv4Header.bytesAfter,
      foVal_flags hlt rfl rfl rfl]
    have hbyte : (4 : UInt8) <<< 4 ||| (5 &&& 0xf) = 0x45 := by decide
    simpa only [Ipv4Header.firstByte, hbyte, UInt8.reduceToNat, Nat.reduceMul, Nat.sub_self,
      List.replicate_zero, List.append_nil, List.append_assoc] using hb

/-- A datagram whose header is accepted, has no options and leaves the reserved flag alone is
written back as it was read, but for a checksum of `0xffff`, which may turn into zero. -/
theorem serialize_parse (into : Ipv4Datagram) {b : List UInt8} (hwell : WellFormed b)
    (hhlen : wireHlen b = 5) (hreserved : b.getD 6 0 &&& 0x80 = 0) :
    (into.parse b).1 = .noError ∧
      ((into.parse b).2.serialize = .ok b ∨
        b.getD 10 0 = 0xff ∧ b.getD 11 0 = 0xff ∧
          (into.parse b).2.serialize = .ok (b.take 10 ++ [0, 0] ++ b.drop 12)) := by
  obtain ⟨header, payload, hver, hfive, hoffset, hlen, rfl⟩ :=
    exists_eq_bytes_append hwell.toFramed hhlen hreserved
  have hmin : 5 ≤ header.hlen.toNat := by rw [hfive]; decide
  have hmax : header.hlen.toNat ≤ 15 := by rw [hfive]; decide
  have hback := parse_of_header
    (Ipv4Header.parse_bytes_append hver hmin hmax hoffset hlen into.header) hlen
  have hzero : (InternetChecksum.add {} header.bytes).value = 0 := by
    have hsum := hwell.checksum
    rw [← checksum_header_eq_zero_iff _ (by omega), hhlen] at hsum
    rwa [List.take_left' (by rw [Ipv4Header.length_bytes hmin, hfive]; rfl)] at hsum
  rw [hback, serialize_eq _ hver hmin hlen]
  refine ⟨rfl, ?_⟩
  have hbefore := header.length_bytesBefore
  rcases InternetChecksum.fieldValue_eq_or header.even_length_bytesBefore hzero with
    heq | ⟨hffff, heq⟩
  · left
    rw [checksum, heq]
  · right
    rw [checksum, heq, Ipv4Header.bytes, Ipv4Header.bytes, hffff, List.append_assoc,
      List.append_assoc]
    obtain ⟨hhigh, hlow⟩ := InternetChecksum.getD_field_of_max hbefore
    refine ⟨hhigh, hlow, ?_⟩
    exact congrArg Except.ok (InternetChecksum.replace_field hbefore 0)

/-- Datagrams survive the wire in both directions: what is written passes the checks of the
header and is read back with every field but the checksum as it was, and what is read is written
back byte for byte, up to the two forms of a zero checksum. -/
theorem datagram_roundTrip :
    (∀ dgram : Ipv4Datagram, dgram.header.ver = 4 → 5 ≤ dgram.header.hlen.toNat →
      dgram.header.hlen.toNat ≤ 15 → dgram.header.offset.toNat < 2 ^ 13 →
      dgram.header.len.toNat = 4 * dgram.header.hlen.toNat + dgram.payload.length →
      ∃ b cksum, dgram.serialize = .ok b ∧
        (∀ header : Ipv4Header, (header.parse { buffer := b }).1 = .noError) ∧
        ∀ into : Ipv4Datagram,
          into.parse b = (.noError, ⟨{ dgram.header with cksum := cksum }, dgram.payload⟩)) ∧
    (∀ (header : Ipv4Header) (into : Ipv4Datagram) (b : List UInt8),
      (header.parse { buffer := b }).1 = .noError →
      (header.parse { buffer := b }).2.1.hlen = 5 → b.getD 6 0 &&& 0x80 = 0 →
      (into.parse b).1 = .noError ∧
        ((into.parse b).2.serialize = .ok b ∨
          b.getD 10 0 = 0xff ∧ b.getD 11 0 = 0xff ∧
            (into.parse b).2.serialize = .ok (b.take 10 ++ [0, 0] ++ b.drop 12))) := by
  constructor
  · intro dgram hver hmin hmax hoffset hlen
    have hparse := @Ipv4Header.parse_bytes_append { dgram.header with cksum := dgram.checksum }
      hver hmin hmax hoffset dgram.payload hlen
    have hzero := dgram.value_checksum_eq_zero hmin hmax
    refine ⟨_, dgram.checksum, serialize_eq dgram hver hmin hlen, fun header ↦ ?_, fun into ↦ ?_⟩
    · rw [hparse header, if_neg (not_not.mpr hzero)]
    · exact parse_of_header (hparse into.header) hlen
  · intro header into b haccept hfive hreserved
    have hwell := (parse_header_eq_noError_iff header b).mp haccept
    obtain ⟨fields, hread, heq⟩ := parse_header_of_framed header hwell.toFramed
    have hhlen : wireHlen b = 5 := by
      rw [heq] at hfive
      rw [← hread.hlen, hfive]
      rfl
    exact serialize_parse into hwell hhlen hreserved

/-- A datagram with options and one byte of payload is read back, and a bare header is written
back. -/
theorem datagram_roundTrip_one_byte :
    (∃ b cksum, serialize ⟨{ hlen := 6, len := 25, mf := true, offset := 3 }, [7]⟩ = .ok b ∧
      (∀ header : Ipv4Header, (header.parse { buffer := b }).1 = .noError) ∧
      ∀ into : Ipv4Datagram, into.parse b =
        (.noError, ⟨{ hlen := 6, len := 25, mf := true, offset := 3, cksum := cksum }, [7]⟩)) ∧
    serialize (parse {}
        [0x45, 0, 0, 20, 0, 0, 0, 0, 128, 6, 0x3a, 0xe2, 0, 0, 0, 1, 0, 0, 0, 2]).2 =
      .ok [0x45, 0, 0, 20, 0, 0, 0, 0, 128, 6, 0x3a, 0xe2, 0, 0, 0, 1, 0, 0, 0, 2] :=
  ⟨datagram_roundTrip.1 ⟨{ hlen := 6, len := 25, mf := true, offset := 3 }, [7]⟩ rfl (by decide)
      (by decide) (by decide) (by decide),
    (datagram_roundTrip.2 {} {}
      [0x45, 0, 0, 20, 0, 0, 0, 0, 128, 6, 0x3a, 0xe2, 0, 0, 0, 1, 0, 0, 0, 2] (by decide)
      (by decide) (by decide)).2.resolve_right fun h ↦ absurd h.1 (by decide)⟩

end Ipv4Datagram

end Sponge
