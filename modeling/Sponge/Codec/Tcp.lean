import Sponge.Codec.Ipv4
import Sponge.TcpSegment

/-!
# Segments on the wire

The parser of a segment checks the checksum first and then lets the header's
parser take its bytes. As with datagrams the verdict of the header's parser is
dropped; only running out of bytes is seen, since the parser state remembers it.
So a header that claims to be shorter than its fixed part goes unnoticed.
-/

namespace Sponge

open Lib

namespace TcpHeader

/-- Header length in bytes, without options. -/
def length : ℕ := 20

/-- Fills all fields; after an error the rest of them are read as zero. -/
def parse (p : NetParser) : ParseResult × TcpHeader × NetParser :=
  let (sport, p) := p.u16
  let (dport, p) := p.u16
  let (seqno, p) := p.u32
  let (ackno, p) := p.u32
  let (offset, p) := p.u8
  let doff := offset >>> 4
  let (flB, p) := p.u8
  let urg := flB &&& 0b00100000 != 0
  let ack := flB &&& 0b00010000 != 0
  let psh := flB &&& 0b00001000 != 0
  let rst := flB &&& 0b00000100 != 0
  let syn := flB &&& 0b00000010 != 0
  let fin := flB &&& 0b00000001 != 0
  let (win, p) := p.u16
  let (cksum, p) := p.u16
  let (uptr, p) := p.u16
  let header : TcpHeader :=
    { sport, dport, seqno := ⟨seqno⟩, ackno := ⟨ackno⟩, doff, urg, ack, psh, rst, syn, fin, win,
      cksum, uptr }
  if doff < 5 then (.headerTooShort, header, p)
  else
    -- options and anything else in the header are skipped
    let p := p.removePrefix (doff.toNat * 4 - length)
    if p.error ≠ .noError then (p.error, header, p) else (.noError, header, p)

/-- The byte that holds the flags. -/
def flB (header : TcpHeader) : UInt8 :=
  (if header.urg then 0b00100000 else 0) ||| (if header.ack then 0b00010000 else 0) |||
    (if header.psh then 0b00001000 else 0) ||| (if header.rst then 0b00000100 else 0) |||
    (if header.syn then 0b00000010 else 0) ||| (if header.fin then 0b00000001 else 0)

def serialize (header : TcpHeader) : Except Exception (List UInt8) :=
  if header.doff < 5 then throw (.runtimeError "TCP header too short")
  else
    let ret := NetUnparser.u16 header.sport ++ NetUnparser.u16 header.dport ++
      NetUnparser.u32 header.seqno.rawValue ++ NetUnparser.u32 header.ackno.rawValue ++
      NetUnparser.u8 (header.doff <<< 4) ++ NetUnparser.u8 header.flB ++
      NetUnparser.u16 header.win ++ NetUnparser.u16 header.cksum ++
      NetUnparser.u16 header.uptr
    -- `resize` expands the header to its advertised size
    return ret ++ List.replicate (4 * header.doff.toNat - ret.length) 0

end TcpHeader

namespace TcpSegment

/-- Reads a segment into the object, which a wrong checksum leaves as it is. -/
def parse (seg : TcpSegment) (buffer : List UInt8) (datagramLayerChecksum : UInt32) :
    ParseResult × TcpSegment :=
  let check := InternetChecksum.add { sum := datagramLayerChecksum } buffer
  if check.value ≠ 0 then (.badChecksum, seg)
  else
    let (_, header, p) := TcpHeader.parse { buffer }
    (p.error, { header, payload := p.buffer })

def serialize (seg : TcpSegment) (datagramLayerChecksum : UInt32) :
    Except Exception (List UInt8) := do
  let headerOut := { seg.header with cksum := 0 }
  -- the checksum is taken over the entire segment
  let check := InternetChecksum.add { sum := datagramLayerChecksum } (← headerOut.serialize)
  let check := check.add seg.payload
  let headerOut := { headerOut with cksum := check.value }
  return (← headerOut.serialize) ++ seg.payload

variable {b : List UInt8}

/-- The data offset as it stands in the bytes. -/
def wireDoff (b : List UInt8) : ℕ := (b.getD 12 0).toNat / 2 ^ 4

/-- The header's parser runs out of bytes on a short buffer. -/
theorem error_parse_header_of_short (h : b.length < 20) :
    (TcpHeader.parse ⟨b, .noError⟩).2.2.error ≠ .noError := by
  have hconsumes := ((((((((NetParser.consumes_u16 ⟨b, .noError⟩).trans
    (NetParser.consumes_u16 _)).trans (NetParser.consumes_u32 _)).trans
    (NetParser.consumes_u32 _)).trans (NetParser.consumes_u8 _)).trans
    (NetParser.consumes_u8 _)).trans (NetParser.consumes_u16 _)).trans
    (NetParser.consumes_u16 _)).trans (NetParser.consumes_u16 _)
  have herror := hconsumes.error fun hle ↦ not_lt.mpr hle.2 h
  simp only [TcpHeader.parse]
  generalize (NetParser.mk b .noError).u16.2.u16.2.u32.2.u32.2.u8.2.u8.2.u16.2.u16.2.u16.2 = p
    at herror ⊢
  split_ifs with hdoff herror'
  · exact herror
  · exact herror'
  · exact (NetParser.consumes_removePrefix p _).error fun hle ↦ herror hle.1

/-- On a buffer that is long enough the outcome depends on the offset alone. -/
theorem exists_parse_header (h : 20 ≤ b.length) :
    ∃ header, header.doff.toNat = wireDoff b ∧
      TcpHeader.parse ⟨b, .noError⟩ =
        if wireDoff b < 5 then (.headerTooShort, header, ⟨b.drop 20, .noError⟩)
        else
          let p := NetParser.removePrefix ⟨b.drop 20, .noError⟩ (4 * wireDoff b - 20)
          if p.error ≠ .noError then (p.error, header, p) else (.noError, header, p) := by
  have hbefore := (((NetParser.consumes_u16 ⟨b, .noError⟩).trans
    (NetParser.consumes_u16 _)).trans (NetParser.consumes_u32 _)).trans
    (NetParser.consumes_u32 _)
  have hafter := ((((hbefore.trans (NetParser.consumes_u8 _)).trans
    (NetParser.consumes_u8 _)).trans (NetParser.consumes_u16 _)).trans
    (NetParser.consumes_u16 _)).trans (NetParser.consumes_u16 _)
  have hleft := hafter.eq rfl h
  have hoffset : (NetParser.mk b .noError).u16.2.u16.2.u32.2.u32.2.u8.1 = b.getD 12 0 := by
    have hlt : 12 < b.length := by omega
    rw [hbefore.eq rfl hlt.le]
    change (NetParser.u8 ⟨b.drop 12, .noError⟩).1 = _
    rw [List.drop_eq_getElem_cons hlt, NetParser.u8_cons]
    simp [hlt]
  have hdoff : (b.getD 12 0 >>> 4).toNat = wireDoff b := by
    simp [wireDoff, Nat.shiftRight_eq_div_pow]
  simp only [TcpHeader.parse, hleft, hoffset]
  generalize hfields : (TcpHeader.mk _ _ _ _ (b.getD 12 0 >>> 4) _ _ _ _ _ _ _ _ _) = header
  refine ⟨header, ?_, ?_⟩
  · subst hfields
    exact hdoff
  · simp only [UInt8.lt_iff_toNat_lt, hdoff, UInt8.reduceToNat, TcpHeader.length, Nat.mul_comm]

theorem parse_header_of_le (h : 5 ≤ wireDoff b) (hle : 4 * wireDoff b ≤ b.length) :
    ∃ header, header.doff.toNat = wireDoff b ∧ TcpHeader.parse ⟨b, .noError⟩ =
      (.noError, header, ⟨b.drop (4 * wireDoff b), .noError⟩) := by
  obtain ⟨header, hdoff, heq⟩ := exists_parse_header (b := b) (by omega)
  refine ⟨header, hdoff, ?_⟩
  rw [heq, if_neg (not_lt.mpr h), NetParser.removePrefix_drop (by omega) hle]
  rfl

/-- The sum of a segment of at most `65535` bytes does not overflow. -/
theorem checksum_eq_zero_iff {p : UInt32} (hb : b.length ≤ 65535)
    (hp : p.toNat ≤ 5 * 65535 + 255) :
    (InternetChecksum.add { sum := p } b).value = 0 ↔ internetChecksum p.toNat b = 0 := by
  have hsum := wordSum_le b
  have hvalue := @InternetChecksum.toNat_value_add p b (by omega)
  rw [← UInt16.toNat_inj]
  exact ⟨fun h ↦ hvalue.symm.trans h, fun h ↦ hvalue.trans h⟩

theorem parse_eq_noError_iff (seg : TcpSegment) {p : UInt32} (hb : b.length ≤ 65535)
    (hp : p.toNat ≤ 5 * 65535 + 255) :
    (seg.parse b p).1 = .noError ↔ internetChecksum p.toNat b = 0 ∧ 20 ≤ b.length ∧
      (wireDoff b < 5 ∨ 4 * wireDoff b ≤ b.length) := by
  have hsum := checksum_eq_zero_iff hb hp
  rw [parse]
  by_cases hzero : (InternetChecksum.add { sum := p } b).value = 0
  · rw [if_neg (not_not.mpr hzero)]
    simp only [hsum.mp hzero, true_and]
    by_cases hlen : 20 ≤ b.length
    · obtain ⟨header, -, heq⟩ := exists_parse_header hlen
      rw [heq]
      by_cases hdoff : wireDoff b < 5
      · simp [hdoff, hlen]
      · have hskip := NetParser.consumes_removePrefix ⟨b.drop 20, .noError⟩ (4 * wireDoff b - 20)
        simp only [hdoff, if_false, hlen, true_and, false_or]
        by_cases hfits : 4 * wireDoff b ≤ b.length
        · rw [hskip.eq rfl (by rw [List.length_drop]; omega)]
          simp [hfits]
        · have herror := hskip.error fun hle ↦ hfits (by
            have := hle.2
            rw [List.length_drop] at this
            omega)
          simp [herror, hfits]
    · have herror := error_parse_header_of_short (not_le.mp hlen)
      simp [herror, hlen]
  · rw [if_pos hzero]
    simp [mt hsum.mpr hzero]

/-- The header claims to be shorter than its fixed part. -/
def Undersized (b : List UInt8) : Prop := 20 ≤ b.length ∧ wireDoff b < 5

instance (b : List UInt8) : Decidable (Undersized b) := inferInstanceAs (Decidable (_ ∧ _))

/-- To be accepted is to be well formed, with what follows the header as the payload, exactly for
the buffers that do not have the right checksum and an undersized header. -/
theorem accepts_wellFormed_iff_not_undersized (seg : TcpSegment) (b : List UInt8) (p : UInt32)
    (hb : b.length ≤ 65535) (hp : p = 0 ∨ ∃ header : Ipv4Header, p = header.pseudoCksum) :
    (((seg.parse b p).1 = .noError ↔ internetChecksum p.toNat b = 0 ∧ 20 ≤ b.length ∧
      5 ≤ wireDoff b ∧ 4 * wireDoff b ≤ b.length) ∧
    ((seg.parse b p).1 = .noError → (seg.parse b p).2.payload = b.drop (4 * wireDoff b))) ↔
      ¬(internetChecksum p.toNat b = 0 ∧ Undersized b) := by
  have hle : p.toNat ≤ 5 * 65535 + 255 := by
    rcases hp with rfl | ⟨header, rfl⟩
    · exact Nat.zero_le _
    · exact header.toNat_pseudoCksum_le
  have hiff := seg.parse_eq_noError_iff hb hle
  constructor
  · rintro ⟨hwell, -⟩ ⟨hsum, hlen, hlt⟩
    -- The buffer is accepted, but its offset is too small.
    have hok := hiff.mpr ⟨hsum, hlen, .inl hlt⟩
    exact absurd (hwell.mp hok).2.2.1 (not_le.mpr hlt)
  · intro h
    have hdoff : internetChecksum p.toNat b = 0 → 20 ≤ b.length → 5 ≤ wireDoff b :=
      fun hsum hlen ↦ not_lt.mp fun hlt ↦ h ⟨hsum, hlen, hlt⟩
    refine ⟨hiff.trans ⟨?_, ?_⟩, ?_⟩
    · rintro ⟨hsum, hlen, hlt | hfits⟩
      · exact absurd ⟨hsum, hlen, hlt⟩ h
      · exact ⟨hsum, hlen, hdoff hsum hlen, hfits⟩
    · rintro ⟨hsum, hlen, -, hfits⟩
      exact ⟨hsum, hlen, .inr hfits⟩
    · intro hok
      obtain ⟨hsum, hlen, hlt | hfits⟩ := hiff.mp hok
      · exact absurd ⟨hsum, hlen, hlt⟩ h
      · obtain ⟨header, -, heq⟩ := parse_header_of_le (hdoff hsum hlen) hfits
        have hzero := (checksum_eq_zero_iff hb hle).mpr hsum
        simp only [parse, if_neg (not_not.mpr hzero), heq]

/-- A segment with one byte of payload. -/
theorem accepts_one_byte :
    (parse {} [0, 0, 0, 0, 0, 0, 0, 0, 0, 0, 0, 0, 0x50, 0, 0, 0, 0xa8, 0xff, 0, 0, 7] 0).1 =
        .noError ∧
      (parse {} [0, 0, 0, 0, 0, 0, 0, 0, 0, 0, 0, 0, 0x50, 0, 0, 0, 0xa8, 0xff, 0, 0, 7]
        0).2.payload = [7] :=
  have h := (accepts_wellFormed_iff_not_undersized {}
    [0, 0, 0, 0, 0, 0, 0, 0, 0, 0, 0, 0, 0x50, 0, 0, 0, 0xa8, 0xff, 0, 0, 7] 0 (by decide)
    (.inl rfl)).mpr (by decide)
  ⟨h.1.mpr (by decide), h.2 (h.1.mpr (by decide))⟩

/-- An offset of four is accepted, and the payload starts after twenty bytes all the same. -/
theorem accepts_undersized_header :
    (parse {} [0, 0, 0, 0, 0, 0, 0, 0, 0, 0, 0, 0, 0x40, 0, 0, 0, 0xb8, 0xff, 0, 0, 7] 0).1 =
        .noError ∧
      wireDoff [0, 0, 0, 0, 0, 0, 0, 0, 0, 0, 0, 0, 0x40, 0, 0, 0, 0xb8, 0xff, 0, 0, 7] = 4 ∧
      (parse {} [0, 0, 0, 0, 0, 0, 0, 0, 0, 0, 0, 0, 0x40, 0, 0, 0, 0xb8, 0xff, 0, 0, 7]
        0).2.payload = [7] := by
  decide

end TcpSegment

end Sponge
