import Sponge.Codec.Checksum
import Sponge.Codec.Parser

/-!
# A checksum among the words that it covers

A packet holds its checksum in a field between its other words. The field is
zero while the checksum is computed; the value put there afterwards makes the
checksum of the whole zero, and up to the two forms of zero no other value does.
-/

namespace Sponge

open Lib

theorem wordSum_u16 (val : UInt16) : wordSum (NetUnparser.u16 val) = val.toNat := by
  have hval := val.toNat_lt
  simp only [NetUnparser.u16_eq, wordSum, UInt8.toNat_ofNat']
  omega

namespace InternetChecksum

variable {p : UInt32} {before after : List UInt8} {cksum : UInt16} {n : ℕ}

theorem wordSum_field (hbefore : before.length % 2 = 0) :
    wordSum (before ++ NetUnparser.u16 cksum ++ after) =
      wordSum before + wordSum after + cksum.toNat := by
  rw [List.append_assoc, wordSum_append hbefore, wordSum_append (by simp), wordSum_u16]
  omega

theorem toNat_sum_field (hbefore : before.length % 2 = 0) :
    (add { sum := p } (before ++ NetUnparser.u16 cksum ++ after)).sum.toNat =
      (p.toNat + (wordSum before + wordSum after) + cksum.toNat) % 2 ^ 32 := by
  rw [toNat_sum_add, wordSum_field hbefore, Nat.add_assoc p.toNat]

/-- The value for the field between `before` and `after`. -/
def fieldValue (p : UInt32) (before after : List UInt8) : UInt16 :=
  (add { sum := p } (before ++ NetUnparser.u16 0 ++ after)).value

theorem toNat_fieldValue (hbefore : before.length % 2 = 0) :
    (fieldValue p before after).toNat =
      65535 - endAround ((p.toNat + (wordSum before + wordSum after)) % 2 ^ 32) := by
  rw [fieldValue, toNat_value, toNat_sum_field hbefore]
  rfl

/-- The checksum of the whole is zero if the words add up to a multiple. -/
theorem value_field_eq_zero_iff (hbefore : before.length % 2 = 0) :
    (add { sum := p } (before ++ NetUnparser.u16 cksum ++ after)).value = 0 ↔
      (p.toNat + (wordSum before + wordSum after) + cksum.toNat) % 2 ^ 32 ≠ 0 ∧
        (p.toNat + (wordSum before + wordSum after) + cksum.toNat) % 2 ^ 32 % 65535 = 0 := by
  rw [← UInt16.toNat_inj, toNat_value, toNat_sum_field hbefore, ← endAround_eq_max_iff]
  have hle := endAround_le
    ((p.toNat + (wordSum before + wordSum after) + cksum.toNat) % 2 ^ 32)
  change 65535 - _ = 0 ↔ _
  omega

theorem value_fieldValue_eq_zero (hbefore : before.length % 2 = 0)
    (hfits : p.toNat + (wordSum before + wordSum after) + 65535 < 2 ^ 32) :
    (add { sum := p } (before ++ NetUnparser.u16 (fieldValue p before after) ++ after)).value =
      0 := by
  have hvalue := @toNat_fieldValue p before after hbefore
  rw [value_field_eq_zero_iff hbefore]
  generalize wordSum before + wordSum after = words at hfits hvalue ⊢
  rw [Nat.mod_eq_of_lt (by omega)] at hvalue
  rw [hvalue, Nat.mod_eq_of_lt (by omega)]
  refine ⟨fun hzero ↦ ?_, endAround_add_complement _⟩
  -- an empty sum has the complement `65535`
  have hnone : p.toNat + words = 0 := by omega
  rw [hnone] at hzero
  simp [endAround] at hzero

/-- The value found in a field whose packet is accepted is the one that would be put there, up
to the two forms of zero. -/
theorem fieldValue_eq_or (hbefore : before.length % 2 = 0)
    (hzero : (add { sum := p } (before ++ NetUnparser.u16 cksum ++ after)).value = 0) :
    fieldValue p before after = cksum ∨ cksum = 0xffff ∧ fieldValue p before after = 0 := by
  obtain ⟨hne, hmultiple⟩ := (value_field_eq_zero_iff hbefore).mp hzero
  have hvalue := @toNat_fieldValue p before after hbefore
  have hcksum := cksum.toNat_lt
  rw [← Nat.mod_add_mod] at hne hmultiple
  have hlt := Nat.mod_lt (p.toNat + (wordSum before + wordSum after)) (Nat.two_pow_pos 32)
  generalize (p.toNat + (wordSum before + wordSum after)) % 2 ^ 32 = words
    at hne hmultiple hvalue hlt
  have hfits : words + cksum.toNat < 2 ^ 32 := by
    by_contra hover
    -- a sum that overflows comes out below `65535`, so it is no multiple
    have hwrap : (words + cksum.toNat) % 2 ^ 32 = words + cksum.toNat - 2 ^ 32 := by omega
    rw [hwrap] at hne hmultiple
    rw [Nat.mod_eq_of_lt (by omega)] at hmultiple
    exact hne hmultiple
  rw [Nat.mod_eq_of_lt hfits] at hne hmultiple
  simp only [← UInt16.toNat_inj, hvalue]
  exact complement_eq_or (by omega) hne hmultiple

/-- Another value in the field changes two bytes. -/
theorem replace_field (hbefore : before.length = n) (cksum' : UInt16) :
    before ++ NetUnparser.u16 cksum' ++ after =
      (before ++ NetUnparser.u16 cksum ++ after).take n ++ NetUnparser.u16 cksum' ++
        (before ++ NetUnparser.u16 cksum ++ after).drop (n + 2) := by
  rw [List.append_assoc before (NetUnparser.u16 cksum), List.take_left' hbefore,
    ← List.drop_drop, List.drop_left' hbefore, List.drop_left' (NetUnparser.length_u16 cksum)]

theorem getD_field_of_max (hbefore : before.length = n) :
    (before ++ NetUnparser.u16 0xffff ++ after).getD n 0 = 0xff ∧
      (before ++ NetUnparser.u16 0xffff ++ after).getD (n + 1) 0 = 0xff := by
  have hmax : NetUnparser.u16 0xffff = [0xff, 0xff] := by decide
  simp [hmax, ← hbefore]

end InternetChecksum

end Sponge
