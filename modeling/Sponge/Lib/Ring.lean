import Mathlib.Tactic

/-!
# Slots of a ring

A ring of `c` slots stores the index `i` in slot `i % c`. On a window
`[s, s + c)` of indices the slots are used once each: those before the end of
the ring are reached without wrapping, the others after wrapping once.
-/

namespace Sponge.Lib

variable {c s i j k : ℕ}

theorem slot_of_before_end (hs : s ≤ i) (hi : s % c + (i - s) < c) :
    i % c = s % c + (i - s) := by
  have h : (s + (i - s)) % c = (s % c + (i - s)) % c := (Nat.mod_add_mod s c (i - s)).symm
  rw [Nat.add_sub_cancel' hs] at h
  rw [h, Nat.mod_eq_of_lt hi]

theorem slot_of_past_end (hs : s ≤ i) (hi : c ≤ s % c + (i - s)) (hw : i < s + c) :
    i % c = s % c + (i - s) - c := by
  have hc : 0 < c := by omega
  have hlt : s % c < c := Nat.mod_lt s hc
  have h : (s + (i - s)) % c = (s % c + (i - s)) % c := (Nat.mod_add_mod s c (i - s)).symm
  rw [Nat.add_sub_cancel' hs] at h
  rw [h, Nat.mod_eq_sub_mod hi, Nat.mod_eq_of_lt (by omega)]

theorem slot_injective (hi : s ≤ i) (hi' : i < s + c) (hj : s ≤ j) (hj' : j < s + c)
    (h : i % c = j % c) : i = j := by
  have hlt : s % c < c := Nat.mod_lt s (by omega)
  rcases lt_or_ge (s % c + (i - s)) c with h₁ | h₁ <;>
    rcases lt_or_ge (s % c + (j - s)) c with h₂ | h₂
  · rw [slot_of_before_end hi h₁, slot_of_before_end hj h₂] at h
    omega
  · rw [slot_of_before_end hi h₁, slot_of_past_end hj h₂ hj'] at h
    omega
  · rw [slot_of_past_end hi h₁ hi', slot_of_before_end hj h₂] at h
    omega
  · rw [slot_of_past_end hi h₁ hi', slot_of_past_end hj h₂ hj'] at h
    omega

theorem exists_index_of_slot (s : ℕ) (hk : k < c) : ∃ i, s ≤ i ∧ i < s + c ∧ i % c = k := by
  have hlt : s % c < c := Nat.mod_lt s (by omega)
  rcases le_or_gt (s % c) k with h | h
  · refine ⟨s + (k - s % c), by omega, by omega, ?_⟩
    rw [slot_of_before_end (s := s) (by omega) (by omega)]
    omega
  · refine ⟨s + (k + c - s % c), by omega, by omega, ?_⟩
    rw [slot_of_past_end (s := s) (by omega) (by omega) (by omega)]
    omega

/-- The slots that a range of at most `c` indices uses: an interval of slots if
the range stays before the end of the ring, two intervals if it wraps. -/
theorem exists_mem_range_slot_iff {a b : ℕ} (hab : a ≤ b) (hb : b ≤ a + c) (hk : k < c) :
    (∃ j, a ≤ j ∧ j < b ∧ j % c = k) ↔
      if a % c + (b - a) ≤ c then a % c ≤ k ∧ k < a % c + (b - a)
      else a % c ≤ k ∨ k < a % c + (b - a) - c := by
  have hlt : a % c < c := Nat.mod_lt a (by omega)
  constructor
  · rintro ⟨j, haj, hjb, rfl⟩
    rcases lt_or_ge (a % c + (j - a)) c with h | h
    · rw [slot_of_before_end haj h]
      split_ifs <;> omega
    · rw [slot_of_past_end haj h (by omega)]
      split_ifs <;> omega
  · intro h
    rcases le_or_gt (a % c) k with hak | hka
    · refine ⟨a + (k - a % c), by omega, ?_, ?_⟩
      · split_ifs at h <;> omega
      · rw [slot_of_before_end (s := a) (by omega) (by omega)]
        omega
    · refine ⟨a + (k + c - a % c), by omega, ?_, ?_⟩
      · split_ifs at h <;> omega
      · rw [slot_of_past_end (s := a) (by omega) (by omega) (by omega)]
        omega

end Sponge.Lib
