import Sponge.Codec.Ipv4

/-!
# Which buffers are taken for datagrams

The parser of the header accepts exactly the well-formed buffers. The parser of
a datagram drops that verdict and tests only the size of what is left, so some
malformed buffers slip through: those with a wrong checksum, and those on which
the header's parser stops early and the remaining bytes happen to have the length
that the header gives.
-/

namespace Sponge

open Lib

namespace Ipv4Datagram

variable {b : List UInt8}

/-! The fields of a header as they stand in its bytes. -/

def wireVersion (b : List UInt8) : ℕ := (b.getD 0 0).toNat / 2 ^ 4

def wireHlen (b : List UInt8) : ℕ := (b.getD 0 0).toNat % 2 ^ 4

def wireLen (b : List UInt8) : ℕ := (b.getD 2 0).toNat * 2 ^ 8 + (b.getD 3 0).toNat

/-- The header is IPv4 and its lengths agree with the buffer. -/
structure Framed (b : List UInt8) : Prop where
  length_le : 20 ≤ b.length
  version : wireVersion b = 4
  le_hlen : 5 ≤ wireHlen b
  hlen_le : 4 * wireHlen b ≤ b.length
  len : wireLen b = b.length

/-- A datagram with a right checksum. -/
structure WellFormed (b : List UInt8) : Prop extends Framed b where
  checksum : internetChecksum 0 (b.take (4 * wireHlen b)) = 0

/-- A malformed buffer that the datagram's own tests do not catch. -/
def Slips (b : List UInt8) : Prop :=
  20 ≤ b.length ∧
    (Framed b ∧ internetChecksum 0 (b.take (4 * wireHlen b)) ≠ 0 ∨
      ¬Framed b ∧ b.length - 20 = (wireLen b + 2 ^ 16 - 4 * wireHlen b) % 2 ^ 16)

theorem framed_iff : Framed b ↔ 20 ≤ b.length ∧ wireVersion b = 4 ∧ 5 ≤ wireHlen b ∧
    4 * wireHlen b ≤ b.length ∧ wireLen b = b.length :=
  ⟨fun h ↦ ⟨h.length_le, h.version, h.le_hlen, h.hlen_le, h.len⟩,
    fun ⟨h₁, h₂, h₃, h₄, h₅⟩ ↦ ⟨h₁, h₂, h₃, h₄, h₅⟩⟩

instance (b : List UInt8) : Decidable (Framed b) := decidable_of_iff _ framed_iff.symm

instance (b : List UInt8) : Decidable (Slips b) :=
  inferInstanceAs (Decidable (_ ∧ (_ ∧ _ ∨ _ ∧ _)))

/-- The fields that the tests read. -/
structure ReadFrom (b : List UInt8) (header : Ipv4Header) : Prop where
  ver : header.ver.toNat = wireVersion b
  hlen : header.hlen.toNat = wireHlen b
  len : header.len.toNat = wireLen b

theorem ReadFrom.payloadLength {header : Ipv4Header} (h : ReadFrom b header) :
    header.payloadLength.toNat = (wireLen b + 2 ^ 16 - 4 * wireHlen b) % 2 ^ 16 := by
  have hlt : wireHlen b < 2 ^ 4 := Nat.mod_lt _ (by norm_num)
  have hmul : (4 * header.hlen.toUInt16).toNat = 4 * wireHlen b := by
    rw [UInt16.toNat_mul, UInt8.toNat_toUInt16, h.hlen]
    simp only [UInt16.reduceToNat]
    omega
  rw [Ipv4Header.payloadLength, UInt16.toNat_sub, hmul, h.len]
  omega

theorem checksum_header_eq_zero_iff (b : List UInt8) {n : ℕ} (hn : n ≤ 60) :
    (InternetChecksum.add {} (b.take n)).value = 0 ↔ internetChecksum 0 (b.take n) = 0 := by
  have hsum := wordSum_le (b.take n)
  have hlen := List.length_take_le n b
  have hvalue := @InternetChecksum.toNat_value_add 0 (b.take n) (by
    change 0 + _ < _
    omega)
  rw [← UInt16.toNat_inj]
  exact ⟨fun h ↦ hvalue.symm.trans h, fun h ↦ hvalue.trans h⟩

section wire

variable (b₀ b₁ b₂ b₃ : UInt8) (rest : List UInt8)

theorem toNat_version : (b₀ >>> 4).toNat = wireVersion (b₀ :: rest) := by
  simp [wireVersion, Nat.shiftRight_eq_div_pow]

theorem toNat_hlen : (b₀ &&& 15).toNat = wireHlen (b₀ :: rest) := by
  rw [UInt8.toNat_and, wireHlen]
  exact Nat.and_two_pow_sub_one_eq_mod _ 4

theorem toNat_len : (UInt16.ofNat (b₂.toNat * 2 ^ 8 + b₃.toNat)).toNat =
    wireLen (b₀ :: b₁ :: b₂ :: b₃ :: rest) := by
  have h₂ := b₂.toNat_lt
  have h₃ := b₃.toNat_lt
  rw [UInt16.toNat_ofNat', Nat.mod_eq_of_lt (by omega)]
  rfl

/-- The fields after the length take sixteen bytes. -/
theorem rest_of_header (h : 16 ≤ rest.length) :
    (NetParser.mk rest .noError).u16.2.u16.2.u8.2.u8.2.u16.2.u32.2.u32.2 =
      ⟨rest.drop 16, .noError⟩ := by
  have hconsumes := ((((((NetParser.consumes_u16 ⟨rest, .noError⟩).trans
    (NetParser.consumes_u16 _)).trans (NetParser.consumes_u8 _)).trans
    (NetParser.consumes_u8 _)).trans (NetParser.consumes_u16 _)).trans
    (NetParser.consumes_u32 _)).trans (NetParser.consumes_u32 _)
  exact hconsumes.eq rfl h

end wire

/-- The header's parser on a buffer that is long enough, with its tests put to the bytes. -/
theorem exists_parse_header (header : Ipv4Header) (h : 20 ≤ b.length) :
    ∃ fields, ReadFrom b fields ∧ header.parse ⟨b, .noError⟩ =
      if b.length < 4 * wireHlen b then (.packetTooShort, fields, ⟨b.drop 20, .noError⟩)
      else if wireVersion b ≠ 4 then (.wrongIpVersion, fields, ⟨b.drop 20, .noError⟩)
      else if wireHlen b < 5 then (.headerTooShort, fields, ⟨b.drop 20, .noError⟩)
      else if b.length ≠ wireLen b then (.truncatedPacket, fields, ⟨b.drop 20, .noError⟩)
      else if internetChecksum 0 (b.take (4 * wireHlen b)) ≠ 0 then
        (.badChecksum, fields, ⟨b.drop (4 * wireHlen b), .noError⟩)
      else (.noError, fields, ⟨b.drop (4 * wireHlen b), .noError⟩) := by
  obtain ⟨b₀, b₁, b₂, b₃, rest, rfl⟩ : ∃ b₀ b₁ b₂ b₃ rest, b = b₀ :: b₁ :: b₂ :: b₃ :: rest := by
    match b, h with
    | b₀ :: b₁ :: b₂ :: b₃ :: rest, _ => exact ⟨b₀, b₁, b₂, b₃, rest, rfl⟩
  have hshort : ¬(b₀ :: b₁ :: b₂ :: b₃ :: rest).length < Ipv4Header.length := not_lt.mpr h
  have hleft := rest_of_header rest (by simpa using h)
  have hver := toNat_version b₀ (b₁ :: b₂ :: b₃ :: rest)
  have hhlen := toNat_hlen b₀ (b₁ :: b₂ :: b₃ :: rest)
  have hlen := toNat_len b₀ b₁ b₂ b₃ rest
  have hlt : wireHlen (b₀ :: b₁ :: b₂ :: b₃ :: rest) < 2 ^ 4 := Nat.mod_lt _ (by norm_num)
  simp only [Ipv4Header.parse, NetParser.u8_cons, NetParser.u16_cons, if_neg hshort, hleft]
  generalize hfields : (Ipv4Header.mk (b₀ >>> 4) (b₀ &&& 15) b₁ _ _ _ _ _ _ _ _ _ _) = fields
  have hread : ReadFrom (b₀ :: b₁ :: b₂ :: b₃ :: rest) fields := by
    subst hfields
    exact ⟨hver, hhlen, hlen⟩
  refine ⟨fields, hread, ?_⟩
  simp only [hhlen, hlen, ne_eq, ← UInt8.toNat_inj, hver, UInt8.lt_iff_toNat_lt,
    UInt8.reduceToNat, checksum_header_eq_zero_iff _
      (show 4 * wireHlen (b₀ :: b₁ :: b₂ :: b₃ :: rest) ≤ 60 by omega)]
  rw [show rest.drop 16 = (b₀ :: b₁ :: b₂ :: b₃ :: rest).drop 20 from rfl]
  generalize b₀ :: b₁ :: b₂ :: b₃ :: rest = b at h ⊢
  by_cases hfits : 5 ≤ wireHlen b ∧ 4 * wireHlen b ≤ b.length
  · obtain ⟨hmin, hmax⟩ := hfits
    have hskip : NetParser.removePrefix ⟨b.drop 20, .noError⟩
        (wireHlen b * 4 - Ipv4Header.length) = ⟨b.drop (4 * wireHlen b), .noError⟩ := by
      rw [Nat.mul_comm]
      exact NetParser.removePrefix_drop (Nat.mul_le_mul_left 4 hmin) hmax
    simp only [hskip, not_true_eq_false, if_false]
  · -- one of the first three tests stops before the options are skipped
    by_cases hmax : b.length < 4 * wireHlen b
    · simp only [if_pos hmax]
    · simp only [if_pos (show wireHlen b < 5 by omega)]

theorem parse_header_of_short (header : Ipv4Header) (h : b.length < 20) :
    header.parse ⟨b, .noError⟩ = (.packetTooShort, header, ⟨b, .noError⟩) :=
  if_pos h

theorem parse_header_of_framed (header : Ipv4Header) (h : Framed b) :
    ∃ fields, ReadFrom b fields ∧ header.parse ⟨b, .noError⟩ =
      (if internetChecksum 0 (b.take (4 * wireHlen b)) = 0 then .noError else .badChecksum,
        fields, ⟨b.drop (4 * wireHlen b), .noError⟩) := by
  obtain ⟨fields, hread, heq⟩ := exists_parse_header header h.length_le
  refine ⟨fields, hread, ?_⟩
  rw [heq, if_neg (not_lt.mpr h.hlen_le), if_neg (not_not.mpr h.version),
    if_neg (not_lt.mpr h.le_hlen), if_neg (not_not.mpr h.len.symm), ite_not]
  split_ifs <;> rfl

theorem parse_header_of_not_framed (header : Ipv4Header) (hlen : 20 ≤ b.length)
    (h : ¬Framed b) : ∃ error fields, error ≠ .noError ∧ ReadFrom b fields ∧
      header.parse ⟨b, .noError⟩ = (error, fields, ⟨b.drop 20, .noError⟩) := by
  obtain ⟨fields, hread, heq⟩ := exists_parse_header header hlen
  rw [heq]
  split_ifs with hmax hver hmin hsize hsum
  · exact ⟨_, fields, by decide, hread, rfl⟩
  · exact ⟨_, fields, by decide, hread, rfl⟩
  · exact ⟨_, fields, by decide, hread, rfl⟩
  · exact ⟨_, fields, by decide, hread, rfl⟩
  all_goals
    exact absurd ⟨hlen, not_not.mp hver, not_lt.mp hmin, not_lt.mp hmax,
      (not_not.mp hsize).symm⟩ h

/-- The header's own parser accepts exactly the well-formed buffers. -/
theorem parse_header_eq_noError_iff (header : Ipv4Header) (b : List UInt8) :
    (header.parse ⟨b, .noError⟩).1 = .noError ↔ WellFormed b := by
  by_cases hlen : 20 ≤ b.length
  · by_cases hframed : Framed b
    · obtain ⟨fields, -, heq⟩ := parse_header_of_framed header hframed
      rw [heq]
      split_ifs with hsum
      · simp only [true_iff]
        exact ⟨hframed, hsum⟩
      · simp only [false_iff]
        exact fun h ↦ hsum h.checksum
    · obtain ⟨error, fields, herror, -, heq⟩ := parse_header_of_not_framed header hlen hframed
      rw [heq]
      simp only [herror, false_iff]
      exact fun h ↦ hframed h.toFramed
  · rw [parse_header_of_short header (not_le.mp hlen)]
    simp only [reduceCtorEq, false_iff]
    exact fun h ↦ hlen h.length_le

/-- What the datagram's parser accepts: the well-formed buffers and those that slip through. -/
theorem parse_eq_noError_iff (b : List UInt8) :
    (parse {} b).1 = .noError ↔ WellFormed b ∨ Slips b := by
  by_cases hlen : 20 ≤ b.length
  · by_cases hframed : Framed b
    · obtain ⟨fields, hread, heq⟩ := parse_header_of_framed {} hframed
      have hsize : ¬(b.drop (4 * wireHlen b)).length ≠ fields.payloadLength.toNat := by
        have hlt : wireLen b < 2 ^ 16 := by
          have h₂ := (b.getD 2 0).toNat_lt
          have h₃ := (b.getD 3 0).toNat_lt
          rw [wireLen]
          omega
        have hle := hframed.hlen_le
        have heq := hframed.len
        rw [hread.payloadLength, List.length_drop]
        omega
      simp only [parse, heq, if_neg hsize, true_iff]
      by_cases hsum : internetChecksum 0 (b.take (4 * wireHlen b)) = 0
      · exact .inl ⟨hframed, hsum⟩
      · exact .inr ⟨hlen, .inl ⟨hframed, hsum⟩⟩
    · obtain ⟨error, fields, herror, hread, heq⟩ := parse_header_of_not_framed {} hlen hframed
      have hnot : ¬WellFormed b := fun h ↦ hframed h.toFramed
      simp only [parse, heq, hread.payloadLength, List.length_drop]
      split_ifs with hsize
      · simp only [hnot, false_or, false_iff]
        rintro ⟨-, ⟨h, -⟩ | ⟨-, h⟩⟩
        · exact hframed h
        · exact hsize h
      · simp only [true_iff]
        exact .inr ⟨hlen, .inr ⟨hframed, not_not.mp hsize⟩⟩
  · -- a fresh header claims a payload that no short buffer has
    have hsize : b.length ≠ (Ipv4Header.payloadLength {}).toNat := by
      have hfresh : (Ipv4Header.payloadLength {}).toNat = 65516 := by decide
      omega
    simp only [parse, parse_header_of_short {} (not_le.mp hlen), if_pos hsize, reduceCtorEq,
      false_iff]
    rintro (h | h)
    · exact hlen h.length_le
    · exact hlen h.1

theorem wellFormed_iff (b : List UInt8) :
    WellFormed b ↔ 20 ≤ b.length ∧ wireVersion b = 4 ∧ 5 ≤ wireHlen b ∧
      4 * wireHlen b ≤ b.length ∧ wireLen b = b.length ∧
      internetChecksum 0 (b.take (4 * wireHlen b)) = 0 := by
  constructor
  · intro hw
    exact ⟨hw.length_le, hw.version, hw.le_hlen, hw.hlen_le, hw.len, hw.checksum⟩
  · rintro ⟨hlen, hver, hmin, hmax, hsize, hsum⟩
    exact ⟨⟨hlen, hver, hmin, hmax, hsize⟩, hsum⟩

theorem Slips.not_wellFormed {b : List UInt8} (h : Slips b) : ¬WellFormed b := by
  intro hw
  rcases h.2 with ⟨-, hsum⟩ | ⟨hframed, -⟩
  · exact hsum hw.checksum
  · exact hframed hw.toFramed

/-- To be accepted is to be well formed exactly for the buffers that do not slip through. -/
theorem accepts_wellFormed_iff_not_slips (b : List UInt8) :
    ((parse {} b).1 = .noError ↔
      20 ≤ b.length ∧ wireVersion b = 4 ∧ 5 ≤ wireHlen b ∧ 4 * wireHlen b ≤ b.length ∧
        wireLen b = b.length ∧ internetChecksum 0 (b.take (4 * wireHlen b)) = 0) ↔ ¬Slips b := by
  rw [← wellFormed_iff, parse_eq_noError_iff]
  constructor
  · intro hiff hslips
    exact hslips.not_wellFormed (hiff.mp (.inr hslips))
  · exact fun hnot ↦ or_iff_left hnot

/-- A header with its right checksum, and nothing after it. -/
theorem accepts_bare_header :
    (parse {} [0x45, 0, 0, 20, 0, 0, 0, 0, 128, 6, 0x3a, 0xe2, 0, 0, 0, 1, 0, 0, 0, 2]).1 =
      .noError :=
  ((accepts_wellFormed_iff_not_slips
    [0x45, 0, 0, 20, 0, 0, 0, 0, 128, 6, 0x3a, 0xe2, 0, 0, 0, 1, 0, 0, 0, 2]).mpr
    (by decide)).mpr (by decide)

/-- The same header with a zero checksum, and one that says version six, are accepted too. -/
theorem accepts_malformed_headers :
    (parse {} [0x45, 0, 0, 20, 0, 0, 0, 0, 128, 6, 0, 0, 0, 0, 0, 1, 0, 0, 0, 2]).1 = .noError ∧
      internetChecksum 0 [0x45, 0, 0, 20, 0, 0, 0, 0, 128, 6, 0, 0, 0, 0, 0, 1, 0, 0, 0, 2] ≠ 0 ∧
      (parse {} [0x65, 0, 0, 20, 0, 0, 0, 0, 128, 6, 0, 0, 0, 0, 0, 1, 0, 0, 0, 2]).1 =
        .noError ∧
      wireVersion [0x65, 0, 0, 20, 0, 0, 0, 0, 128, 6, 0, 0, 0, 0, 0, 1, 0, 0, 0, 2] = 6 := by
  decide

end Ipv4Datagram

end Sponge
