import Sponge.WrappingIntegers

/-!
# How close `unwrap` comes to its checkpoint

The candidates for a raw number are the absolute numbers that wrap to it: one
in every cycle of `2 ^ 32`. Whatever overflows on the way, `unwrap` returns one
of them. It returns the one closest to the checkpoint except in two corners,
both with a checkpoint below `2 ^ 31`: the raw number zero under the initial
sequence number zero, which is pushed one cycle up, and a raw number below the
initial sequence number that is pulled one cycle down past zero.
-/

namespace Sponge

open Lib

theorem wrap_eq_iff {v : ℕ} {n isn : WrappingInt32} :
    wrap v isn = n ↔ (v + isn.rawValue.toNat) % 2 ^ 32 = n.rawValue.toNat := by
  rw [← wrap_rawValue]
  refine ⟨fun h => by rw [h], fun h => ?_⟩
  cases n
  exact congrArg WrappingInt32.mk (UInt32.toNat_inj.mp h)

/-- The candidate of any cycle, moved or not by one cycle, is the raw number
modulo `2 ^ 32`. -/
theorem unwrap_add_isn_mod (n isn : WrappingInt32) (c : ℕ) :
    (unwrap n isn c + isn.rawValue.toNat) % 2 ^ 32 = n.rawValue.toNat := by
  have hn := n.rawValue.toNat_lt
  have hi := isn.rawValue.toNat_lt
  simp only [unwrap]
  generalize n.rawValue.toNat = m at hn ⊢
  generalize isn.rawValue.toNat = i at hi ⊢
  generalize add64 c i / 2 ^ 32 = k
  have hcand : add64 m (mul64 k (2 ^ 32)) % 2 ^ 32 = m := by
    simp only [add64, mul64]
    omega
  generalize add64 m (mul64 k (2 ^ 32)) = cand at hcand ⊢
  have hdown := sub64_add_mod (sub64 cand (2 ^ 32)) (b := i) (by omega)
  have hdown' := sub64_add_mod cand (b := 2 ^ 32) (by omega)
  have hup := sub64_add_mod (add64 cand (2 ^ 32)) (b := i) (by omega)
  have hup' : add64 cand (2 ^ 32) % 2 ^ 32 = m := by
    simp only [add64]
    omega
  have hsame := sub64_add_mod cand (b := i) (by omega)
  split_ifs <;> omega

theorem wrap_unwrap (n isn : WrappingInt32) (c : ℕ) : wrap (unwrap n isn c) isn = n :=
  wrap_eq_iff.mpr (unwrap_add_isn_mod n isn c)

/-- `unwrap` undoes `wrap` close to the checkpoint, and `wrap` undoes `unwrap`
everywhere, overflow of the checkpoint included. -/
theorem unwrap_wrap_and_wrap_unwrap (isn : WrappingInt32) :
    (∀ v c : ℕ, 1 ≤ v → v ≤ 2 ^ 63 → c ≤ 2 ^ 63 → |(v : ℤ) - c| < 2 ^ 31 →
      unwrap (wrap v isn) isn c = v) ∧
    ∀ (n : WrappingInt32) (c : ℕ), wrap (unwrap n isn c) isn = n := by
  refine ⟨fun v c hv _ hc hnear => ?_, fun n c => wrap_unwrap n isn c⟩
  obtain ⟨hlow, hhigh⟩ := abs_lt.mp hnear
  exact unwrap_wrap_of_near isn hv (by omega) (by omega) hc

theorem unwrap_wrap_across_cycle :
    unwrap (wrap (2 ^ 32 + 5) ⟨7⟩) ⟨7⟩ (2 ^ 32 - 5) = 2 ^ 32 + 5 ∧
      wrap (unwrap ⟨3⟩ ⟨7⟩ (2 ^ 64 - 1)) ⟨7⟩ = ⟨3⟩ :=
  ⟨(unwrap_wrap_and_wrap_unwrap ⟨7⟩).1 _ _ (by norm_num) (by norm_num) (by norm_num)
    (by norm_num), (unwrap_wrap_and_wrap_unwrap ⟨7⟩).2 _ _⟩

/-- `v` wraps to `n`, and no 64-bit number that does is strictly closer to the
checkpoint. -/
def Nearest (n isn : WrappingInt32) (c v : ℕ) : Prop :=
  wrap v isn = n ∧ ∀ w < 2 ^ 64, wrap w isn = n → ¬|(w : ℤ) - c| < |(v : ℤ) - c|

section

variable {n isn : WrappingInt32} {c v : ℕ}

theorem nearest_of_near (hwrap : wrap v isn = n) (hlow : v ≤ c + 2 ^ 31)
    (hhigh : c ≤ v + 2 ^ 31) : Nearest n isn c v := by
  refine ⟨hwrap, fun w _ hw hlt => ?_⟩
  have hmod := wrap_eq_iff.mp hwrap
  have hmod' := wrap_eq_iff.mp hw
  have hv : |(v : ℤ) - c| ≤ 2 ^ 31 := abs_le.mpr ⟨by omega, by omega⟩
  obtain ⟨h₁, h₂⟩ := abs_lt.mp (hlt.trans_le hv)
  -- Two candidates in one cycle are the same.
  have heq : w = v := by omega
  exact lt_irrefl _ (heq ▸ hlt)

/-- No candidate lies below the one of the first cycle, so a checkpoint below it
is closest to it. -/
theorem nearest_of_least (hwrap : wrap v isn = n) (hv : v < 2 ^ 32) (hc : c ≤ v) :
    Nearest n isn c v := by
  refine ⟨hwrap, fun w _ hw hlt => ?_⟩
  have hmod := wrap_eq_iff.mp hwrap
  have hmod' := wrap_eq_iff.mp hw
  have hle : v ≤ w := by omega
  rw [abs_of_nonneg (by omega), abs_of_nonneg (by omega)] at hlt
  omega

theorem not_nearest_of_closer {w : ℕ} (hw : w < 2 ^ 64) (hwrap : wrap w isn = n)
    (hlow : c + c < v + w) (hlt : w < v) : ¬Nearest n isn c v := by
  intro h
  refine h.2 w hw hwrap ?_
  rw [abs_lt, abs_of_nonneg (by omega)]
  omega

theorem nearest_unwrap_of_mid_le (hmid : c + isn.rawValue.toNat ≤ 2 ^ 31) :
    Nearest n isn c (unwrap n isn c) ↔
      ¬(n.rawValue.toNat = 0 ∧ isn.rawValue.toNat = 0 ∧ c < 2 ^ 31) := by
  have hwrap := wrap_unwrap n isn c
  have hn := n.rawValue.toNat_lt
  rw [unwrap_of_mid_le hmid] at hwrap ⊢
  by_cases hzero : n.rawValue.toNat = 0 ∧ isn.rawValue.toNat = 0 ∧ c < 2 ^ 31
  · refine iff_of_false (not_nearest_of_closer (w := 0) (by norm_num) ?_ ?_ ?_)
      (not_not.mpr hzero)
    · exact wrap_eq_iff.mpr (by omega)
    · rw [if_pos (Or.inl hzero.1)]
      omega
    · rw [if_pos (Or.inl hzero.1)]
      omega
  · refine iff_of_true ?_ hzero
    split_ifs at hwrap ⊢ with hbelow
    · rcases Nat.lt_or_ge n.rawValue.toNat isn.rawValue.toNat with hlt | hge
      · exact nearest_of_least hwrap (by omega) (by omega)
      · exact nearest_of_near hwrap (by omega) (by omega)
    · rcases Nat.le_total c (n.rawValue.toNat - isn.rawValue.toNat) with hle | hle
      · exact nearest_of_least hwrap (by omega) hle
      · exact nearest_of_near hwrap (by omega) (by omega)

theorem nearest_unwrap_of_lt_mid (hmid : 2 ^ 31 < c + isn.rawValue.toNat)
    (hc : c + 2 ^ 33 < 2 ^ 64) :
    Nearest n isn c (unwrap n isn c) ↔
      ¬(2 ^ 32 ≤ c + isn.rawValue.toNat ∧ n.rawValue.toNat < isn.rawValue.toNat ∧
        c + isn.rawValue.toNat < n.rawValue.toNat + 2 ^ 31) := by
  have hwrap := wrap_unwrap n isn c
  have hn := n.rawValue.toNat_lt
  have hi := isn.rawValue.toNat_lt
  rw [unwrap_of_lt_mid hmid hc] at hwrap ⊢
  have hdiv := Nat.div_add_mod' (c + isn.rawValue.toNat) (2 ^ 32)
  have hrem := Nat.mod_lt (c + isn.rawValue.toNat) (show 0 < 2 ^ 32 by norm_num)
  split_ifs at hwrap ⊢ with hup hdown hbelow
  · exact iff_of_true (nearest_of_near hwrap (by omega) (by omega)) (by omega)
  · rcases Nat.lt_or_ge (n.rawValue.toNat + (c + isn.rawValue.toNat) / 2 ^ 32 * 2 ^ 32 - 2 ^ 32)
      isn.rawValue.toNat with hneg | hpos
    · -- One cycle down is below zero: the candidate one cycle up again is closer.
      refine iff_of_false (not_nearest_of_closer
        (w := n.rawValue.toNat + 2 ^ 32 - isn.rawValue.toNat) (by omega)
        (wrap_eq_iff.mpr (by omega)) ?_ ?_) (by omega)
      all_goals rw [sub64, if_neg (by omega)]; omega
    · rw [sub64_of_le hpos] at hwrap ⊢
      exact iff_of_true (nearest_of_near hwrap (by omega) (by omega)) (by omega)
  · exact iff_of_true (nearest_of_least hwrap (by omega) (by omega)) (by omega)
  · exact iff_of_true (nearest_of_near hwrap (by omega) (by omega)) (by omega)

end

/-- `unwrap` returns the number closest to the checkpoint exactly outside its
two corners. -/
theorem nearest_unwrap_iff (n isn : WrappingInt32) {c : ℕ} (hc : c + 2 ^ 33 < 2 ^ 64) :
    Nearest n isn c (unwrap n isn c) ↔
      ¬(n.rawValue.toNat = 0 ∧ isn.rawValue.toNat = 0 ∧ c < 2 ^ 31) ∧
      ¬(2 ^ 32 ≤ c + isn.rawValue.toNat ∧ n.rawValue.toNat < isn.rawValue.toNat ∧
        c + isn.rawValue.toNat < n.rawValue.toNat + 2 ^ 31) := by
  rcases le_or_gt (c + isn.rawValue.toNat) (2 ^ 31) with hmid | hmid
  · rw [nearest_unwrap_of_mid_le hmid]
    exact (and_iff_left (by omega)).symm
  · rw [nearest_unwrap_of_lt_mid hmid hc]
    exact (and_iff_right (by omega)).symm

theorem nearest_unwrap_of_last_raw_value :
    Nearest ⟨4294967295⟩ ⟨10⟩ (3 * 2 ^ 32) (unwrap ⟨4294967295⟩ ⟨10⟩ (3 * 2 ^ 32)) :=
  (nearest_unwrap_iff ⟨4294967295⟩ ⟨10⟩ (c := 3 * 2 ^ 32) (by norm_num)).mpr
    ⟨by decide, by decide⟩

/-- The two corners: zero under the initial sequence number zero is taken to
`2 ^ 32`, and the number just below a large initial sequence number, with a
checkpoint just above zero, to `2 ^ 64 - 1`. -/
theorem unwrap_misses_nearest :
    (unwrap ⟨0⟩ ⟨0⟩ 0 = 2 ^ 32 ∧ ¬Nearest ⟨0⟩ ⟨0⟩ 0 (unwrap ⟨0⟩ ⟨0⟩ 0)) ∧
    (unwrap ⟨4294967294⟩ ⟨4294967295⟩ 1 = 2 ^ 64 - 1 ∧
      ¬Nearest ⟨4294967294⟩ ⟨4294967295⟩ 1 (unwrap ⟨4294967294⟩ ⟨4294967295⟩ 1)) := by
  refine ⟨⟨by decide, ?_⟩, by decide, ?_⟩
  · exact not_nearest_of_closer (w := 0) (by norm_num) (by decide) (by decide) (by decide)
  · exact not_nearest_of_closer (w := 2 ^ 32 - 1) (by norm_num) (by decide) (by decide)
      (by decide)

end Sponge
