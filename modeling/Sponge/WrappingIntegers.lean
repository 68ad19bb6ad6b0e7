import Sponge.Lib.Word64

/-!
# 32-bit sequence numbers

`wrap` sends an absolute 64-bit sequence number to the 32-bit number on the
wire, relative to the initial sequence number of its stream; `unwrap` guesses
the absolute number back from a nearby checkpoint. All 64-bit arithmetic wraps.
-/

namespace Sponge

open Lib

structure WrappingInt32 where
  rawValue : UInt32
  deriving DecidableEq, Repr

namespace WrappingInt32

/-- The point `b` steps past `a`. -/
def add (a : WrappingInt32) (b : UInt32) : WrappingInt32 := ⟨a.rawValue + b⟩

/-- The point `b` steps before `a`. -/
def sub (a : WrappingInt32) (b : UInt32) : WrappingInt32 := a.add (-b)

end WrappingInt32

def wrap (n : ℕ) (isn : WrappingInt32) : WrappingInt32 :=
  ⟨UInt32.ofNat (add64 n isn.rawValue.toNat % 2 ^ 32)⟩

def unwrap (n isn : WrappingInt32) (checkpoint : ℕ) : ℕ :=
  let e31 := 2 ^ 31
  let e32 := 2 ^ 32
  let mid := add64 checkpoint isn.rawValue.toNat
  let low := if e31 ≥ mid then 0 else sub64 (sub64 mid e31) 1
  let high := if e31 ≥ mid then e32 - 2 else sub64 (add64 mid e31) 1
  let numCycle := mid / e32
  let cand := add64 n.rawValue.toNat (mul64 numCycle e32)
  if cand > low then
    if cand > add64 high 1 then
      sub64 (sub64 cand e32) isn.rawValue.toNat
    else if isn.rawValue.toNat > cand then
      sub64 (add64 cand e32) isn.rawValue.toNat
    else
      sub64 cand isn.rawValue.toNat
  else
    sub64 (add64 cand e32) isn.rawValue.toNat

theorem unwrap_lt (n isn : WrappingInt32) (checkpoint : ℕ) :
    unwrap n isn checkpoint < 2 ^ 64 := by
  have hcand := add64_lt n.rawValue.toNat (mul64 ((add64 checkpoint isn.rawValue.toNat) / 2 ^ 32)
    (2 ^ 32))
  simp only [unwrap]
  split_ifs
  all_goals apply sub64_lt
  all_goals first | exact add64_lt _ _ | exact sub64_lt _ hcand

theorem wrap_rawValue (n : ℕ) (isn : WrappingInt32) :
    (wrap n isn).rawValue.toNat = (n + isn.rawValue.toNat) % 2 ^ 32 := by
  simp only [wrap, add64, UInt32.toNat_ofNat']
  omega

@[simp] theorem wrap_zero (isn : WrappingInt32) : wrap 0 isn = isn := by
  have hlt := isn.rawValue.toNat_lt
  have h := wrap_rawValue 0 isn
  rw [Nat.zero_add, Nat.mod_eq_of_lt hlt] at h
  cases isn
  exact congrArg WrappingInt32.mk (UInt32.toNat_inj.mp h)

/-- While no sum overflows, a checkpoint in the first half cycle of raw values
leaves one candidate, taken in the cycle of the initial sequence number. -/
theorem unwrap_of_mid_le {c : ℕ} {n isn : WrappingInt32}
    (hmid : c + isn.rawValue.toNat ≤ 2 ^ 31) :
    unwrap n isn c =
      if n.rawValue.toNat = 0 ∨ n.rawValue.toNat < isn.rawValue.toNat then
        n.rawValue.toNat + 2 ^ 32 - isn.rawValue.toNat
      else n.rawValue.toNat - isn.rawValue.toNat := by
  have hn := n.rawValue.toNat_lt
  simp only [unwrap]
  generalize n.rawValue.toNat = m at hn ⊢
  generalize isn.rawValue.toNat = i at hmid ⊢
  have hcand : add64 m (mul64 ((c + i) / 2 ^ 32) (2 ^ 32)) = m := by
    rw [Nat.div_eq_of_lt (by omega), mul64, Nat.zero_mul, Nat.zero_mod,
      add64_of_lt (by omega), Nat.add_zero]
  have hhigh : add64 (2 ^ 32 - 2) 1 = 2 ^ 32 - 1 := rfl
  rw [add64_of_lt (a := c) (b := i) (by omega), hcand, if_pos hmid, if_pos hmid, hhigh,
    add64_of_lt (a := m) (by omega), sub64_of_le (a := m + 2 ^ 32) (by omega)]
  by_cases hpos : m > 0
  · rw [if_pos hpos, if_neg (by omega)]
    by_cases hi : i > m
    · rw [if_pos hi, if_pos (Or.inr hi)]
    · rw [if_neg hi, if_neg (by omega), sub64_of_le (by omega)]
  · rw [if_neg hpos, if_pos (by omega)]

/-- Past the first half cycle the candidate of the checkpoint's own cycle is
moved by one cycle when it is more than half a cycle away. -/
theorem unwrap_of_lt_mid {c : ℕ} {n isn : WrappingInt32}
    (hmid : 2 ^ 31 < c + isn.rawValue.toNat) (hc : c + 2 ^ 33 < 2 ^ 64) :
    let mid := c + isn.rawValue.toNat
    let cand := n.rawValue.toNat + mid / 2 ^ 32 * 2 ^ 32
    unwrap n isn c =
      if cand + 2 ^ 31 < mid then cand + 2 ^ 32 - isn.rawValue.toNat
      else if mid + 2 ^ 31 < cand then sub64 (cand - 2 ^ 32) isn.rawValue.toNat
      else if cand < isn.rawValue.toNat then cand + 2 ^ 32 - isn.rawValue.toNat
      else cand - isn.rawValue.toNat := by
  have hn := n.rawValue.toNat_lt
  have hi := isn.rawValue.toNat_lt
  simp only [unwrap]
  generalize n.rawValue.toNat = m at hn ⊢
  generalize isn.rawValue.toNat = i at hi hmid ⊢
  have hcand : add64 m (mul64 ((c + i) / 2 ^ 32) (2 ^ 32)) =
      m + (c + i) / 2 ^ 32 * 2 ^ 32 := by
    rw [mul64, Nat.mod_eq_of_lt (by omega), add64_of_lt (by omega)]
  have hlow : sub64 (sub64 (c + i) (2 ^ 31)) 1 = c + i - 2 ^ 31 - 1 := by
    rw [sub64_of_le (a := c + i) (by omega), sub64_of_le (by omega)]
  have hhigh : add64 (sub64 (add64 (c + i) (2 ^ 31)) 1) 1 = c + i + 2 ^ 31 := by
    rw [add64_of_lt (a := c + i) (by omega), sub64_of_le (by omega),
      add64_of_lt (by omega)]
    omega
  have hnot : ¬2 ^ 31 ≥ c + i := by omega
  rw [add64_of_lt (a := c) (b := i) (by omega), hcand, if_neg hnot, if_neg hnot, hlow,
    hhigh, add64_of_lt (b := 2 ^ 32) (by omega), sub64_of_le (a := _ + 2 ^ 32) (by omega)]
  by_cases h₁ : m + (c + i) / 2 ^ 32 * 2 ^ 32 + 2 ^ 31 < c + i
  · rw [if_pos h₁, if_neg (by omega)]
  · rw [if_neg h₁, if_pos (by omega)]
    by_cases h₂ : c + i + 2 ^ 31 < m + (c + i) / 2 ^ 32 * 2 ^ 32
    · rw [if_pos h₂, if_pos h₂, sub64_of_le (b := 2 ^ 32) (by omega)]
    · rw [if_neg h₂, if_neg h₂]
      by_cases h₃ : m + (c + i) / 2 ^ 32 * 2 ^ 32 < i
      · rw [if_pos h₃, if_pos h₃]
      · rw [if_neg h₃, if_neg h₃, sub64_of_le (by omega)]

/-- Numbers of the data path survive the wire: every absolute number but that
of the SYN is recovered from a checkpoint less than `2 ^ 31` away. -/
theorem unwrap_wrap_of_near {v c : ℕ} (isn : WrappingInt32) (hv : 1 ≤ v)
    (hvc : v < c + 2 ^ 31) (hcv : c < v + 2 ^ 31) (hc : c ≤ 2 ^ 63) :
    unwrap (wrap v isn) isn c = v := by
  have hi := isn.rawValue.toNat_lt
  have hn := wrap_rawValue v isn
  rcases le_or_gt (c + isn.rawValue.toNat) (2 ^ 31) with hmid | hmid
  · rw [unwrap_of_mid_le hmid, hn]
    generalize isn.rawValue.toNat = i at hi hmid ⊢
    rw [Nat.mod_eq_of_lt (by omega), if_neg (by omega)]
    omega
  · rw [unwrap_of_lt_mid hmid (by omega), hn]
    generalize isn.rawValue.toNat = i at hi hmid ⊢
    -- `v + i` lies in the cycle of the checkpoint, in the next or in the previous one.
    have hcycle : (v + i) / 2 ^ 32 = (c + i) / 2 ^ 32 ∨
        (v + i) / 2 ^ 32 = (c + i) / 2 ^ 32 + 1 ∨
        (v + i) / 2 ^ 32 + 1 = (c + i) / 2 ^ 32 := by omega
    have hdiv := Nat.div_add_mod' (v + i) (2 ^ 32)
    rcases hcycle with h | h | h
    · rw [if_neg (by omega), if_neg (by omega), if_neg (by omega)]
      omega
    · rw [if_pos (by omega)]
      omega
    · rw [if_neg (by omega), if_pos (by omega), sub64_of_le (by omega)]
      omega

/-- The number of a SYN unwraps to zero, unless the initial sequence number
itself is zero. -/
theorem unwrap_isn {c : ℕ} {isn : WrappingInt32} (hisn : isn.rawValue ≠ 0)
    (hc : c < 2 ^ 31) : unwrap isn isn c = 0 := by
  have hi := isn.rawValue.toNat_lt
  have hpos : isn.rawValue.toNat ≠ 0 := fun h => hisn (UInt32.toNat_inj.mp h)
  rcases le_or_gt (c + isn.rawValue.toNat) (2 ^ 31) with hmid | hmid
  · rw [unwrap_of_mid_le hmid, if_neg (by omega)]
    omega
  · rw [unwrap_of_lt_mid hmid (by omega)]
    generalize isn.rawValue.toNat = i at hi hpos hmid ⊢
    rcases lt_or_ge (c + i) (2 ^ 32) with h | h
    · rw [Nat.div_eq_of_lt h, if_neg (by omega), if_neg (by omega), if_neg (by omega)]
      omega
    · have hone : (c + i) / 2 ^ 32 = 1 := by omega
      rw [hone, if_neg (by omega), if_pos (by omega), sub64_of_le (by omega)]
      omega

end Sponge
