import Sponge.Lib.OnesComplement

/-!
# The Internet checksum

Bytes are added in pairs to a 32-bit sum, whose carries are folded back into
sixteen bits when the checksum is asked for. As long as the sum stays below
`2 ^ 32` this is the one's complement sum of the words.
-/

namespace Sponge

open Lib

structure InternetChecksum where
  sum : UInt32 := 0
  parity : Bool := false

namespace InternetChecksum

def addByte (c : InternetChecksum) (byte : UInt8) : InternetChecksum :=
  let val : UInt16 := byte.toUInt16
  let val := if !c.parity then val <<< 8 else val
  { sum := c.sum + val.toUInt32, parity := !c.parity }

def add (c : InternetChecksum) (data : List UInt8) : InternetChecksum :=
  data.foldl addByte c

/-- The loop of `value`: carries are folded while there are any. -/
def foldCarries : ℕ → UInt32 → UInt32
  | 0, ret => ret
  | fuel + 1, ret =>
    if ret > 0xffff then foldCarries fuel ((ret >>> 16) + (ret &&& 0xffff)) else ret

def value (c : InternetChecksum) : UInt16 :=
  ~~~(foldCarries c.sum.toNat c.sum).toUInt16

theorem toNat_foldCarry (ret : UInt32) :
    ((ret >>> 16) + (ret &&& 0xffff)).toNat = ret.toNat / 2 ^ 16 + ret.toNat % 2 ^ 16 := by
  have hlt := ret.toNat_lt
  have hand : ret.toNat &&& 65535 = ret.toNat % 2 ^ 16 := Nat.and_two_pow_sub_one_eq_mod _ 16
  have hshift : ret.toNat >>> 16 = ret.toNat / 2 ^ 16 := Nat.shiftRight_eq_div_pow _ 16
  rw [UInt32.toNat_add, UInt32.toNat_and, UInt32.toNat_shiftRight]
  simp only [UInt32.reduceToNat, Nat.reduceMod, hand, hshift]
  omega

/-- Each round lowers the sum, so the loop ends within the fuel it is given and
leaves sixteen bits. -/
theorem foldCarries_le (fuel : ℕ) {ret : UInt32} (h : ret.toNat ≤ fuel) :
    (foldCarries fuel ret).toNat ≤ 0xffff := by
  induction fuel generalizing ret with
  | zero =>
      rw [foldCarries]
      omega
  | succ fuel ih =>
      rw [foldCarries]
      split_ifs with hcarry
      · have hgt : 0xffff < ret.toNat := UInt32.lt_iff_toNat_lt.mp hcarry
        apply ih
        rw [toNat_foldCarry]
        omega
      · exact UInt32.le_iff_toNat_le.mp (UInt32.not_lt.mp hcarry)

theorem endAround_foldCarries (fuel : ℕ) (ret : UInt32) :
    endAround (foldCarries fuel ret).toNat = endAround ret.toNat := by
  induction fuel generalizing ret with
  | zero => rfl
  | succ fuel ih =>
      rw [foldCarries]
      split_ifs
      · rw [ih, toNat_foldCarry, endAround_carry]
      · rfl

theorem toNat_value (c : InternetChecksum) :
    c.value.toNat = 65535 - endAround c.sum.toNat := by
  have hle := foldCarries_le c.sum.toNat (le_refl c.sum.toNat)
  rw [← endAround_foldCarries c.sum.toNat, endAround_of_le hle, value, UInt16.toNat_not,
    UInt32.toNat_toUInt16, Nat.mod_eq_of_lt (by omega)]
  norm_num

theorem add_append (c : InternetChecksum) (xs ys : List UInt8) :
    c.add (xs ++ ys) = (c.add xs).add ys :=
  List.foldl_append

theorem add_pair (sum : UInt32) (a b : UInt8) (rest : List UInt8) :
    add ⟨sum, false⟩ (a :: b :: rest) =
      add ⟨sum + (a.toUInt16 <<< 8).toUInt32 + b.toUInt16.toUInt32, false⟩ rest :=
  rfl

theorem toNat_high (a : UInt8) : (a.toUInt16 <<< 8).toUInt32.toNat = a.toNat * 2 ^ 8 := by
  have ha := a.toNat_lt
  simp only [UInt16.toNat_toUInt32, UInt16.toNat_shiftLeft, UInt8.toNat_toUInt16,
    UInt16.reduceToNat, Nat.reduceMod, Nat.shiftLeft_eq]
  omega

theorem toNat_sum_add (sum : UInt32) (data : List UInt8) :
    (add ⟨sum, false⟩ data).sum.toNat = (sum.toNat + wordSum data) % 2 ^ 32 := by
  induction data using wordSum.induct generalizing sum with
  | case1 => exact (Nat.mod_eq_of_lt sum.toNat_lt).symm
  | case2 a =>
      change (sum + (a.toUInt16 <<< 8).toUInt32).toNat = _
      rw [UInt32.toNat_add, toNat_high, wordSum]
  | case3 a b rest ih =>
      rw [add_pair, ih, wordSum, UInt32.toNat_add, UInt32.toNat_add, toNat_high,
        UInt16.toNat_toUInt32, UInt8.toNat_toUInt16]
      omega

/-- Below `2 ^ 32` the checksum is the one of the words. -/
theorem toNat_value_add {initial : UInt32} {data : List UInt8}
    (h : initial.toNat + wordSum data < 2 ^ 32) :
    (add ⟨initial, false⟩ data).value.toNat = internetChecksum initial.toNat data := by
  rw [toNat_value, toNat_sum_add, Nat.mod_eq_of_lt h, internetChecksum]

/-! Chunks: the parity carries the position in a word from one to the next. -/

theorem foldl_add (c : InternetChecksum) (chunks : List (List UInt8)) :
    chunks.foldl add c = c.add chunks.flatten := by
  induction chunks generalizing c with
  | nil => rfl
  | cons chunk chunks ih => rw [List.foldl_cons, ih, List.flatten_cons, add_append]

/-- Once the loop has left, more fuel changes nothing. -/
theorem foldCarries_of_le {k fuel : ℕ} {ret : UInt32} (h : (foldCarries k ret).toNat ≤ 0xffff)
    (hle : k ≤ fuel) : foldCarries fuel ret = foldCarries k ret := by
  induction k generalizing fuel ret with
  | zero =>
      have hnot : ¬ret > 0xffff := fun hgt ↦
        not_lt.mpr h (UInt32.lt_iff_toNat_lt.mp hgt)
      cases fuel with
      | zero => rfl
      | succ fuel => exact if_neg hnot
  | succ k ih =>
      obtain ⟨fuel, rfl⟩ := Nat.exists_eq_add_of_le' (show 1 ≤ fuel by omega)
      rw [foldCarries] at h ⊢
      rw [foldCarries]
      split_ifs with hcarry
      · rw [if_pos hcarry] at h
        exact ih h (by omega)
      · rfl

/-- Two rounds are enough for any sum. -/
theorem foldCarries_two_le (ret : UInt32) : (foldCarries 2 ret).toNat ≤ 0xffff := by
  have hlt := ret.toNat_lt
  have hfirst := toNat_foldCarry ret
  have hsecond := toNat_foldCarry ((ret >>> 16) + (ret &&& 0xffff))
  rw [hfirst] at hsecond
  simp only [foldCarries]
  split_ifs with h₁ h₂
  · rw [hsecond]
    omega
  · exact UInt32.le_iff_toNat_le.mp (UInt32.not_lt.mp h₂)
  · exact UInt32.le_iff_toNat_le.mp (UInt32.not_lt.mp h₁)

theorem foldCarries_eq_two {fuel : ℕ} (hfuel : 2 ≤ fuel) (ret : UInt32) :
    foldCarries fuel ret = foldCarries 2 ret :=
  foldCarries_of_le (foldCarries_two_le ret) hfuel

theorem value_eq_two (c : InternetChecksum) : c.value = ~~~(foldCarries 2 c.sum).toUInt16 := by
  have hown := foldCarries_of_le (foldCarries_le _ le_rfl) (Nat.le_max_right 2 c.sum.toNat)
  rw [value, ← hown, foldCarries_eq_two (Nat.le_max_left _ _)]

/-- The checksum of a string that comes in chunks, on top of an initial sum of five words and a
byte at most: two rounds of the loop leave the complement of the one's complement sum of the words
of the string. It does not depend on the chunks, and the accumulator does not run over. -/
theorem value_of_chunks {s : UInt32} (hs : s.toNat ≤ 5 * 65535 + 255)
    (chunks : List (List UInt8)) (hlen : chunks.flatten.length ≤ 65535) :
    let c := chunks.foldl add { sum := s }
    (∃ ret : UInt32, ret.toNat ≤ 0xffff ∧ c.value = ~~~ret.toUInt16 ∧
      ∀ fuel, 2 ≤ fuel → foldCarries fuel c.sum = ret) ∧
    c.value = ~~~UInt16.ofNat (onesSum s.toNat (words chunks.flatten)) ∧
    (∀ chunks' : List (List UInt8), chunks'.flatten = chunks.flatten →
      (chunks'.foldl add { sum := s }).value = c.value) ∧
    s.toNat + (words chunks.flatten).sum < 2 ^ 32 ∧
    c.sum.toNat = s.toNat + (words chunks.flatten).sum := by
  intro c
  have hsum : s.toNat + wordSum chunks.flatten < 2 ^ 32 := by
    have hle := wordSum_le chunks.flatten
    omega
  have hc : c = add { sum := s } chunks.flatten := foldl_add _ chunks
  rw [sum_words]
  refine ⟨⟨_, foldCarries_two_le c.sum, c.value_eq_two, fun _ hfuel ↦
    foldCarries_eq_two hfuel c.sum⟩, ?_, ?_, hsum, ?_⟩
  · apply UInt16.toNat.inj
    rw [hc, toNat_value_add hsum, onesSum_words s.toNat_lt, internetChecksum, UInt16.toNat_not,
      UInt16.toNat_ofNat', Nat.mod_eq_of_lt (Nat.lt_succ_of_le (endAround_le _))]
    rfl
  · intro chunks' hflatten
    rw [hc, foldl_add, hflatten]
  · rw [hc, toNat_sum_add, Nat.mod_eq_of_lt hsum]

/-- Three bytes in two chunks, the cut inside a word. -/
theorem value_of_chunks_odd :
    ([[1], [2, 3]].foldl add { sum := 0 }).value = 0xfbfd :=
  (value_of_chunks (by decide) [[1], [2, 3]] (by decide)).2.1.trans (by decide)

end InternetChecksum

end Sponge
