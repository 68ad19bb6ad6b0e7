import Sponge.Codec.Tcp
import Sponge.Codec.ChecksumField

/-!
# Writing and reading segments

A segment is read back as it was written: the fields are cut out of the bytes in
the order in which they were put there, and the checksum that was put in makes
the sum of all words a multiple of `65535`. The other way round, a segment that
was read is written back as it was, up to the two forms of a zero checksum.
-/

namespace Sponge

open Lib

namespace TcpHeader

variable {header : TcpHeader}

/-- The bytes before the checksum. -/
def bytesBefore (header : TcpHeader) : List UInt8 :=
  NetUnparser.u16 header.sport ++ NetUnparser.u16 header.dport ++
    NetUnparser.u32 header.seqno.rawValue ++ NetUnparser.u32 header.ackno.rawValue ++
    NetUnparser.u8 (header.doff <<< 4) ++ NetUnparser.u8 header.flB ++ NetUnparser.u16 header.win

/-- The bytes after the checksum, padded to the size that the header claims. -/
def bytesAfter (header : TcpHeader) : List UInt8 :=
  NetUnparser.u16 header.uptr ++ List.replicate (4 * header.doff.toNat - 20) 0

def bytes (header : TcpHeader) : List UInt8 :=
  header.bytesBefore ++ NetUnparser.u16 header.cksum ++ header.bytesAfter

theorem length_bytesBefore (header : TcpHeader) : header.bytesBefore.length = 16 := by
  simp [bytesBefore]

theorem serialize_eq (h : 5 ≤ header.doff.toNat) : header.serialize = .ok header.bytes := by
  have hdoff : ¬header.doff < 5 := by
    rw [UInt8.lt_iff_toNat_lt]
    simpa using h
  rw [serialize, if_neg hdoff]
  simp only [bytes, bytesBefore, bytesAfter, List.length_append, NetUnparser.length_u8,
    NetUnparser.length_u16, NetUnparser.length_u32, List.append_assoc]
  rfl

theorem length_bytes (h : 5 ≤ header.doff.toNat) :
    header.bytes.length = 4 * header.doff.toNat := by
  simp only [bytes, length_bytesBefore, bytesAfter, List.length_append, NetUnparser.length_u16,
    List.length_replicate]
  omega

theorem doff_shift (h : header.doff.toNat ≤ 15) : header.doff <<< 4 >>> 4 = header.doff := by
  apply UInt8.toNat.inj
  simp only [UInt8.toNat_shiftRight, UInt8.toNat_shiftLeft, UInt8.reduceToNat, Nat.reduceMod,
    Nat.shiftRight_eq_div_pow, Nat.shiftLeft_eq]
  omega

theorem flags_flB (header : TcpHeader) :
    (header.flB &&& 0b00100000 != 0) = header.urg ∧ (header.flB &&& 0b00010000 != 0) = header.ack ∧
      (header.flB &&& 0b00001000 != 0) = header.psh ∧
      (header.flB &&& 0b00000100 != 0) = header.rst ∧
      (header.flB &&& 0b00000010 != 0) = header.syn ∧
      (header.flB &&& 0b00000001 != 0) = header.fin := by
  rw [flB]
  cases header.urg <;> cases header.ack <;> cases header.psh <;> cases header.rst <;>
    cases header.syn <;> cases header.fin <;> decide

/-- The fields come out in the order in which they went in. -/
theorem parse_bytes_append (h : 5 ≤ header.doff.toNat) (h' : header.doff.toNat ≤ 15)
    (payload : List UInt8) :
    parse ⟨header.bytes ++ payload, .noError⟩ = (.noError, header, ⟨payload, .noError⟩) := by
  obtain ⟨hurg, hack, hpsh, hrst, hsyn, hfin⟩ := header.flags_flB
  have hdoff : ¬header.doff < 5 := by
    rw [UInt8.lt_iff_toNat_lt]
    simpa using h
  have hskip : NetParser.removePrefix
      ⟨List.replicate (4 * header.doff.toNat - 20) 0 ++ payload, .noError⟩
      (header.doff.toNat * 4 - length) = ⟨payload, .noError⟩ := by
    rw [length, Nat.mul_comm, NetParser.removePrefix_of_le (by simp)]
    simp
  simp only [parse, bytes, bytesBefore, bytesAfter, List.append_assoc, NetParser.u8_append,
    NetParser.u16_append, NetParser.u32_append, doff_shift h', hurg, hack, hpsh, hrst, hsyn,
    hfin, if_neg hdoff, hskip, ne_eq, not_true_eq_false, if_false]

theorem bytes_append (header : TcpHeader) (payload : List UInt8) :
    header.bytes ++ payload =
      header.bytesBefore ++ NetUnparser.u16 header.cksum ++ (header.bytesAfter ++ payload) := by
  rw [bytes, List.append_assoc]

theorem even_length_bytesBefore (header : TcpHeader) : header.bytesBefore.length % 2 = 0 := by
  rw [length_bytesBefore]

end TcpHeader

namespace TcpSegment

variable {p : UInt32}

/-- The sum of a segment but for its checksum. -/
def otherWords (seg : TcpSegment) : ℕ :=
  wordSum seg.header.bytesBefore + wordSum (seg.header.bytesAfter ++ seg.payload)

/-- The checksum that `serialize` puts in. -/
def checksum (seg : TcpSegment) (p : UInt32) : UInt16 :=
  (InternetChecksum.add { sum := p }
    ({ seg.header with cksum := 0 }.bytes ++ seg.payload)).value

theorem serialize_eq (seg : TcpSegment) (p : UInt32) (h : 5 ≤ seg.header.doff.toNat) :
    seg.serialize p =
      .ok ({ seg.header with cksum := seg.checksum p }.bytes ++ seg.payload) := by
  have hbytes : ∀ cksum, { seg.header with cksum := cksum }.serialize =
      .ok { seg.header with cksum := cksum }.bytes := fun _ ↦ TcpHeader.serialize_eq h
  simp only [serialize, hbytes, bind, Except.bind, ← InternetChecksum.add_append]
  rfl

theorem checksum_eq (seg : TcpSegment) (p : UInt32) :
    seg.checksum p =
      InternetChecksum.fieldValue p seg.header.bytesBefore
        (seg.header.bytesAfter ++ seg.payload) := by
  rw [checksum, TcpHeader.bytes_append]
  rfl

/-- The words of a segment of at most `65535` bytes leave room for the pseudo-header. -/
theorem otherWords_le (seg : TcpSegment) (h : 5 ≤ seg.header.doff.toNat)
    (hlen : 4 * seg.header.doff.toNat + seg.payload.length ≤ 65535) :
    seg.otherWords ≤ 65535 * 32768 := by
  have hle := wordSum_le (seg.header.bytes ++ seg.payload)
  rw [List.length_append, TcpHeader.length_bytes h, TcpHeader.bytes_append,
    InternetChecksum.wordSum_field seg.header.even_length_bytesBefore] at hle
  rw [otherWords]
  omega

theorem value_checksum_eq_zero (seg : TcpSegment) (h : 5 ≤ seg.header.doff.toNat)
    (hlen : 4 * seg.header.doff.toNat + seg.payload.length ≤ 65535)
    (hp : p.toNat ≤ 5 * 65535 + 255) :
    (InternetChecksum.add { sum := p }
      ({ seg.header with cksum := seg.checksum p }.bytes ++ seg.payload)).value = 0 := by
  have hwords := seg.otherWords_le h hlen
  rw [otherWords] at hwords
  have hzero := @InternetChecksum.value_fieldValue_eq_zero p _
    (seg.header.bytesAfter ++ seg.payload) seg.header.even_length_bytesBefore (by omega)
  rw [TcpHeader.bytes_append, checksum_eq]
  exact hzero

theorem parse_serialize (seg into : TcpSegment) (h : 5 ≤ seg.header.doff.toNat)
    (h' : seg.header.doff.toNat ≤ 15)
    (hlen : 4 * seg.header.doff.toNat + seg.payload.length ≤ 65535)
    (hp : p.toNat ≤ 5 * 65535 + 255) :
    into.parse ({ seg.header with cksum := seg.checksum p }.bytes ++ seg.payload) p =
      (.noError, { seg with header := { seg.header with cksum := seg.checksum p } }) := by
  have hparse := @TcpHeader.parse_bytes_append { seg.header with cksum := seg.checksum p } h h'
    seg.payload
  rw [parse, if_neg (not_not.mpr (seg.value_checksum_eq_zero h hlen hp)), hparse]

/-! The bytes that the reserved bits leave in the offset and the flags. -/

theorem shift_doff {offset : UInt8} (h : offset &&& 0x0f = 0) : offset >>> 4 <<< 4 = offset := by
  have hall : ∀ n : Fin 256, UInt8.ofFin n &&& 0x0f = 0 →
      UInt8.ofFin n >>> 4 <<< 4 = UInt8.ofFin n := by decide +kernel
  exact hall offset.toFin h

theorem flB_flags {fl : UInt8} {header : TcpHeader} (h : fl &&& 0xc0 = 0)
    (hurg : header.urg = (fl &&& 0b00100000 != 0)) (hack : header.ack = (fl &&& 0b00010000 != 0))
    (hpsh : header.psh = (fl &&& 0b00001000 != 0)) (hrst : header.rst = (fl &&& 0b00000100 != 0))
    (hsyn : header.syn = (fl &&& 0b00000010 != 0))
    (hfin : header.fin = (fl &&& 0b00000001 != 0)) : header.flB = fl := by
  have hall : ∀ n : Fin 256, UInt8.ofFin n &&& 0xc0 = 0 →
      TcpHeader.flB { urg := UInt8.ofFin n &&& 0b00100000 != 0
                      ack := UInt8.ofFin n &&& 0b00010000 != 0
                      psh := UInt8.ofFin n &&& 0b00001000 != 0
                      rst := UInt8.ofFin n &&& 0b00000100 != 0
                      syn := UInt8.ofFin n &&& 0b00000010 != 0
                      fin := UInt8.ofFin n &&& 0b00000001 != 0 } = UInt8.ofFin n := by
    decide +kernel
  have hfl := hall fl.toFin h
  rw [TcpHeader.flB, hurg, hack, hpsh, hrst, hsyn, hfin]
  exact hfl

theorem exists_fields {b : List UInt8} (h : 20 ≤ b.length) :
    ∃ sport dport seqno ackno win cksum uptr rest, b =
      NetUnparser.u16 sport ++ (NetUnparser.u16 dport ++ (NetUnparser.u32 seqno ++
        (NetUnparser.u32 ackno ++ (NetUnparser.u8 (b.getD 12 0) ++
          (NetUnparser.u8 (b.getD 13 0) ++ (NetUnparser.u16 win ++ (NetUnparser.u16 cksum ++
            (NetUnparser.u16 uptr ++ rest)))))))) := by
  obtain ⟨sport, b, rfl⟩ := @NetUnparser.exists_u16_append b (by omega)
  rw [List.length_append, NetUnparser.length_u16] at h
  obtain ⟨dport, b, rfl⟩ := @NetUnparser.exists_u16_append b (by omega)
  rw [List.length_append, NetUnparser.length_u16] at h
  obtain ⟨seqno, b, rfl⟩ := @NetUnparser.exists_u32_append b (by omega)
  rw [List.length_append, NetUnparser.length_u32] at h
  obtain ⟨ackno, b, rfl⟩ := @NetUnparser.exists_u32_append b (by omega)
  rw [List.length_append, NetUnparser.length_u32] at h
  obtain ⟨offset, b, rfl⟩ := @NetUnparser.exists_u8_append b (by omega)
  rw [List.length_append, NetUnparser.length_u8] at h
  obtain ⟨fl, b, rfl⟩ := @NetUnparser.exists_u8_append b (by omega)
  rw [List.length_append, NetUnparser.length_u8] at h
  obtain ⟨win, b, rfl⟩ := @NetUnparser.exists_u16_append b (by omega)
  rw [List.length_append, NetUnparser.length_u16] at h
  obtain ⟨cksum, b, rfl⟩ := @NetUnparser.exists_u16_append b (by omega)
  rw [List.length_append, NetUnparser.length_u16] at h
  obtain ⟨uptr, rest, rfl⟩ := @NetUnparser.exists_u16_append b (by omega)
  refine ⟨sport, dport, seqno, ackno, win, cksum, uptr, rest, ?_⟩
  simp [NetUnparser.u8_eq, NetUnparser.u16_eq, NetUnparser.u32_eq]

/-- A header without options and reserved bits stands in the buffer as it would be written. -/
theorem exists_eq_bytes_append {b : List UInt8} (hlen : 20 ≤ b.length) (hdoff : wireDoff b = 5)
    (hoffset : b.getD 12 0 &&& 0x0f = 0) (hfl : b.getD 13 0 &&& 0xc0 = 0) :
    ∃ header payload, header.doff = 5 ∧ b = TcpHeader.bytes header ++ payload := by
  obtain ⟨sport, dport, seqno, ackno, win, cksum, uptr, rest, hb⟩ := exists_fields hlen
  generalize b.getD 13 0 = fl at hb hfl
  have hfive : b.getD 12 0 >>> 4 = 5 := by
    apply UInt8.toNat.inj
    simpa [wireDoff, Nat.shiftRight_eq_div_pow] using hdoff
  have hshift : (5 : UInt8) <<< 4 = b.getD 12 0 := hfive ▸ shift_doff hoffset
  refine ⟨{ sport, dport, seqno := ⟨seqno⟩, ackno := ⟨ackno⟩, doff := 5
            urg := fl &&& 0b00100000 != 0, ack := fl &&& 0b00010000 != 0
            psh := fl &&& 0b00001000 != 0, rst := fl &&& 0b00000100 != 0
            syn := fl &&& 0b00000010 != 0, fin := fl &&& 0b00000001 != 0
            win, cksum, uptr }, rest, rfl, ?_⟩
  rw [TcpHeader.bytes, TcpHeader.bytesBefore, TcpHeader.bytesAfter,
    flB_flags hfl rfl rfl rfl rfl rfl rfl]
  simpa only [hshift, UInt8.reduceToNat, Nat.reduceMul, Nat.sub_self, List.replicate_zero,
    List.append_nil, List.append_assoc] using hb

/-- The checksum that was read is the one that is written, up to the two forms of zero. -/
theorem checksum_eq_or {header : TcpHeader} {payload : List UInt8}
    (hzero : (InternetChecksum.add { sum := p } (header.bytes ++ payload)).value = 0) :
    checksum ⟨header, payload⟩ p = header.cksum ∨
      header.cksum = 0xffff ∧ checksum ⟨header, payload⟩ p = 0 := by
  rw [TcpHeader.bytes_append] at hzero
  rw [checksum_eq]
  exact InternetChecksum.fieldValue_eq_or header.even_length_bytesBefore hzero

theorem of_parse_eq_noError {into : TcpSegment} {b : List UInt8}
    (h : (into.parse b p).1 = .noError) :
    20 ≤ b.length ∧ (InternetChecksum.add { sum := p } b).value = 0 ∧
      (into.parse b p).2.header.doff.toNat = wireDoff b := by
  rw [parse] at h ⊢
  by_cases hzero : (InternetChecksum.add { sum := p } b).value = 0
  · rw [if_neg (not_not.mpr hzero)] at h ⊢
    have hlen : 20 ≤ b.length := not_lt.mp fun hlt ↦ error_parse_header_of_short hlt h
    obtain ⟨header, hdoff, heq⟩ := exists_parse_header hlen
    refine ⟨hlen, hzero, ?_⟩
    rw [← hdoff, heq]
    dsimp only
    split_ifs <;> rfl
  · rw [if_pos hzero] at h
    cases h

/-- A segment without options and reserved bits is written back as it was read, but for a
checksum of `0xffff`, which may turn into zero. -/
theorem serialize_parse (into : TcpSegment) {b : List UInt8}
    (hparse : (into.parse b p).1 = .noError) (hdoff : (into.parse b p).2.header.doff = 5)
    (hoffset : b.getD 12 0 &&& 0x0f = 0) (hfl : b.getD 13 0 &&& 0xc0 = 0) :
    (into.parse b p).2.serialize p = .ok b ∨
      b.getD 16 0 = 0xff ∧ b.getD 17 0 = 0xff ∧
        (into.parse b p).2.serialize p = .ok (b.take 16 ++ [0, 0] ++ b.drop 18) := by
  obtain ⟨hlen, hzero, hwire⟩ := of_parse_eq_noError hparse
  rw [hdoff] at hwire
  obtain ⟨header, payload, hfive, rfl⟩ := exists_eq_bytes_append hlen hwire.symm hoffset hfl
  have hback : (into.parse (header.bytes ++ payload) p).2 = ⟨header, payload⟩ := by
    rw [parse, if_neg (not_not.mpr hzero),
      TcpHeader.parse_bytes_append (by rw [hfive]; decide) (by rw [hfive]; decide)]
  rw [hback, serialize_eq _ _ (by rw [hfive]; decide)]
  rcases checksum_eq_or hzero with heq | ⟨hmax, heq⟩
  · left
    rw [heq]
  · right
    have hbefore := header.length_bytesBefore
    rw [heq, TcpHeader.bytes_append, TcpHeader.bytes_append, hmax]
    obtain ⟨hhigh, hlow⟩ := InternetChecksum.getD_field_of_max hbefore
    refine ⟨hhigh, hlow, ?_⟩
    exact congrArg Except.ok (InternetChecksum.replace_field hbefore 0)

/-- Segments survive the wire in both directions: what is written is read back with every field
but the checksum as it was, and what is read is written back byte for byte, up to the two forms
of a zero checksum. -/
theorem codec_roundTrip :
    (∀ (seg into : TcpSegment) (p : UInt32), 5 ≤ seg.header.doff.toNat →
      seg.header.doff.toNat ≤ 15 →
      4 * seg.header.doff.toNat + seg.payload.length ≤ 65535 → p.toNat ≤ 5 * 65535 + 255 →
      ∃ b cksum, seg.serialize p = .ok b ∧
        into.parse b p = (.noError, ⟨{ seg.header with cksum := cksum }, seg.payload⟩)) ∧
    (∀ (into : TcpSegment) (b : List UInt8) (p : UInt32),
      (TcpHeader.parse { buffer := b }).1 = .noError → (into.parse b p).1 = .noError →
      (into.parse b p).2.header.doff = 5 →
      b.getD 12 0 &&& 0x0f = 0 → b.getD 13 0 &&& 0xc0 = 0 →
      (into.parse b p).2.serialize p = .ok b ∨
        b.getD 16 0 = 0xff ∧ b.getD 17 0 = 0xff ∧
          (into.parse b p).2.serialize p = .ok (b.take 16 ++ [0, 0] ++ b.drop 18)) := by
  constructor
  · intro seg into p hge hle hlen hp
    exact ⟨_, _, serialize_eq seg p hge, parse_serialize seg into hge hle hlen hp⟩
  · intro into b p _ hparse hdoff hoffset hfl
    exact serialize_parse into hparse hdoff hoffset hfl

/-- A segment with one byte of payload in both directions. -/
theorem codec_roundTrip_one_byte :
    (∃ b cksum, serialize ⟨{}, [7]⟩ 0 = .ok b ∧
      parse {} b 0 = (.noError, ⟨{ cksum := cksum }, [7]⟩)) ∧
    serialize (parse {} [0, 0, 0, 0, 0, 0, 0, 0, 0, 0, 0, 0, 0x50, 0, 0, 0, 0xa8, 0xff, 0, 0, 7]
        0).2 0 =
      .ok [0, 0, 0, 0, 0, 0, 0, 0, 0, 0, 0, 0, 0x50, 0, 0, 0, 0xa8, 0xff, 0, 0, 7] :=
  ⟨codec_roundTrip.1 ⟨{}, [7]⟩ {} 0 (by decide) (by decide) (by decide) (by decide),
    (codec_roundTrip.2 {}
      [0, 0, 0, 0, 0, 0, 0, 0, 0, 0, 0, 0, 0x50, 0, 0, 0, 0xa8, 0xff, 0, 0, 7] 0 (by decide)
      (by decide) (by decide) (by decide) (by decide)).resolve_right fun h ↦ by
        exact absurd h.1 (by decide)⟩

end TcpSegment

end Sponge
