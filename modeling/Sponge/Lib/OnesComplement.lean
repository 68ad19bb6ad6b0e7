import Mathlib.Tactic

/-!
# One's complement sums

Sixteen-bit words are added and the carries are added back in. Up to the two
forms of zero this is addition modulo `65535`: a sum comes out as zero only if
nothing was added, and as `65535` if it is any other multiple. The Internet
checksum of a string is the complement of such a sum.
-/

namespace Sponge.Lib

/-- The big-endian words of a string added up; an odd last byte is padded with zero. -/
def wordSum : List UInt8 → ℕ
  | [] => 0
  | [a] => a.toNat * 2 ^ 8
  | a :: b :: rest => a.toNat * 2 ^ 8 + b.toNat + wordSum rest

/-- The big-endian words of a string, an odd last byte padded with zero. -/
def words : List UInt8 → List ℕ
  | [] => []
  | [a] => [a.toNat * 2 ^ 8]
  | a :: b :: rest => (a.toNat * 2 ^ 8 + b.toNat) :: words rest

/-- Two words added, the carry added back in. -/
def onesAdd (a b : ℕ) : ℕ := (a + b) / 2 ^ 16 + (a + b) % 2 ^ 16

/-- The one's complement sum of an initial value of two words and a list of words. -/
def onesSum (initial : ℕ) (ws : List ℕ) : ℕ :=
  ws.foldl onesAdd (onesAdd (initial / 2 ^ 16) (initial % 2 ^ 16))

/-- A sum with its carries added back in until it fits in sixteen bits. -/
def endAround (n : ℕ) : ℕ := if n = 0 then 0 else (n - 1) % 65535 + 1

/-- The checksum of a string on top of an initial sum. -/
def internetChecksum (initial : ℕ) (bytes : List UInt8) : ℕ :=
  65535 - endAround (initial + wordSum bytes)

theorem endAround_le (n : ℕ) : endAround n ≤ 65535 := by
  rw [endAround]
  split_ifs <;> omega

theorem endAround_of_le {n : ℕ} (h : n ≤ 65535) : endAround n = n := by
  rw [endAround]
  split_ifs <;> omega

/-- One round of carries changes nothing. -/
theorem endAround_carry (n : ℕ) : endAround (n / 2 ^ 16 + n % 2 ^ 16) = endAround n := by
  rw [endAround, endAround]
  split_ifs <;> omega

theorem endAround_eq_max_iff (n : ℕ) : endAround n = 65535 ↔ n ≠ 0 ∧ n % 65535 = 0 := by
  rw [endAround]
  by_cases h : n = 0
  · simp [h]
  · rw [if_neg h]
    omega

/-- A sum and its complement come to a multiple of `65535`. -/
theorem endAround_add_complement (n : ℕ) : (n + (65535 - endAround n)) % 65535 = 0 := by
  rw [endAround]
  split_ifs <;> omega

/-- Up to the two forms of zero only the complement does so. -/
theorem complement_eq_or {n c : ℕ} (hc : c ≤ 65535) (hne : n + c ≠ 0)
    (h : (n + c) % 65535 = 0) :
    65535 - endAround n = c ∨ c = 65535 ∧ 65535 - endAround n = 0 := by
  rw [endAround]
  split_ifs <;> omega

theorem sum_words (xs : List UInt8) : (words xs).sum = wordSum xs := by
  induction xs using wordSum.induct with
  | case1 => rfl
  | case2 a => simp [words, wordSum]
  | case3 a b rest ih => rw [words, wordSum, List.sum_cons, ih]

theorem word_le {xs : List UInt8} {w : ℕ} (hw : w ∈ words xs) : w ≤ 65535 := by
  induction xs using wordSum.induct with
  | case1 => simp [words] at hw
  | case2 a =>
      have ha := a.toNat_lt
      obtain rfl : w = a.toNat * 2 ^ 8 := by simpa [words] using hw
      omega
  | case3 a b rest ih =>
      have ha := a.toNat_lt
      have hb := b.toNat_lt
      rcases List.mem_cons.mp hw with rfl | hrest
      · omega
      · exact ih hrest

theorem onesAdd_endAround (n : ℕ) {w : ℕ} (hw : w ≤ 65535) :
    onesAdd (endAround n) w = endAround (n + w) := by
  rw [onesAdd, endAround, endAround]
  split_ifs <;> omega

/-- Adding with the carry after each word, or adding first and the carries last. -/
theorem foldl_onesAdd (n : ℕ) {ws : List ℕ} (h : ∀ w ∈ ws, w ≤ 65535) :
    ws.foldl onesAdd (endAround n) = endAround (n + ws.sum) := by
  induction ws generalizing n with
  | nil => rfl
  | cons w ws ih =>
      rw [List.foldl_cons, onesAdd_endAround n (h w List.mem_cons_self),
        ih _ fun w' hw' ↦ h w' (List.mem_cons_of_mem w hw'), List.sum_cons, Nat.add_assoc]

theorem onesSum_words {initial : ℕ} (h : initial < 2 ^ 32) (xs : List UInt8) :
    onesSum initial (words xs) = endAround (initial + wordSum xs) := by
  have hinitial : onesAdd (initial / 2 ^ 16) (initial % 2 ^ 16) = endAround initial := by
    rw [onesAdd, endAround]
    split_ifs <;> omega
  rw [onesSum, hinitial, foldl_onesAdd initial fun _ ↦ word_le, sum_words]

theorem wordSum_append {xs : List UInt8} (h : xs.length % 2 = 0) (ys : List UInt8) :
    wordSum (xs ++ ys) = wordSum xs + wordSum ys := by
  induction xs using wordSum.induct with
  | case1 => simp [wordSum]
  | case2 a => simp at h
  | case3 a b rest ih =>
      have hrest : rest.length % 2 = 0 := by
        simp only [List.length_cons] at h
        omega
      simp only [List.cons_append, wordSum, ih hrest]
      omega

theorem wordSum_le (xs : List UInt8) : wordSum xs ≤ 65535 * ((xs.length + 1) / 2) := by
  induction xs using wordSum.induct with
  | case1 => simp [wordSum]
  | case2 a =>
      have ha := a.toNat_lt
      simp only [wordSum, List.length_cons, List.length_nil]
      omega
  | case3 a b rest ih =>
      have ha := a.toNat_lt
      have hb := b.toNat_lt
      simp only [wordSum, List.length_cons]
      omega

end Sponge.Lib
