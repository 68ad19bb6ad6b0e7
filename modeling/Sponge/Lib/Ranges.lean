import Mathlib.Data.Bool.Count
import Mathlib.Tactic

/-!
# Index ranges of a list

The list counterparts of the range algorithms of a string or a vector: a
substring, the replacement of a range by a string, filling a range with one
value, counting in a range, and searching a range for a value. A range is
given by its first position and by the position after its last one. Each
operation comes with the lemma that reads off one position of its result.
-/

namespace Sponge.Lib

variable {α : Type*}

/-- The characters of `s` from `pos` on, at most `len` of them. -/
def substr (s : List α) (pos len : ℕ) : List α :=
  (s.drop pos).take len

/-- The list with the `len` positions from `pos` on replaced by `s`. -/
def replaceRange (l : List α) (pos len : ℕ) (s : List α) : List α :=
  l.take pos ++ s ++ l.drop (pos + len)

/-- The list with the positions of `[a, b)` overwritten by `v`. -/
def fillRange (l : List α) (a b : ℕ) (v : α) : List α :=
  l.take a ++ List.replicate (b - a) v ++ l.drop b

/-- The number of positions of `[a, b)` that hold `true`. -/
def countRange (l : List Bool) (a b : ℕ) : ℕ :=
  (substr l a (b - a)).count true

/-- The first position of `[a, b)` that holds `v`, or `b` if there is none. -/
def findRange [BEq α] (l : List α) (a b : ℕ) (v : α) : ℕ :=
  a + (substr l a (b - a)).findIdx (· == v)

theorem length_substr {s : List α} {pos len : ℕ} (h : pos + len ≤ s.length) :
    (substr s pos len).length = len := by
  simp only [substr, List.length_take, List.length_drop]
  omega

theorem getElem?_substr (s : List α) (pos len i : ℕ) :
    (substr s pos len)[i]? = if i < len then s[pos + i]? else none := by
  simp only [substr, List.getElem?_take, List.getElem?_drop]

theorem take_substr {s : List α} {pos len n : ℕ} (h : n ≤ len) :
    (substr s pos len).take n = substr s pos n := by
  rw [substr, substr, List.take_take, min_eq_left h]

/-- A substring read off position by position. -/
theorem substr_eq_map_range {s : List α} {pos len : ℕ} (d : α)
    (h : pos + len ≤ s.length) :
    substr s pos len = (List.range len).map fun i ↦ s.getD (pos + i) d := by
  apply List.ext_getElem?
  intro i
  rw [getElem?_substr, List.getElem?_map]
  by_cases hi : i < len
  · rw [if_pos hi, List.getElem?_range hi, Option.map_some, List.getD_eq_getElem?_getD,
      List.getElem?_eq_getElem (by omega), Option.getD_some]
  · rw [if_neg hi, List.getElem?_eq_none (by simpa using hi), Option.map_none]

theorem length_replaceRange {l s : List α} {pos len : ℕ}
    (h : pos + len ≤ l.length) :
    (replaceRange l pos len s).length = l.length - len + s.length := by
  simp only [replaceRange, List.length_append, List.length_take, List.length_drop]
  omega

/-- Replacing a range by a string of the same length changes only that range. -/
theorem getElem?_replaceRange {l s : List α} {pos len : ℕ}
    (h : pos + len ≤ l.length) (hs : s.length = len) (i : ℕ) :
    (replaceRange l pos len s)[i]? =
      if pos ≤ i ∧ i < pos + len then s[i - pos]? else l[i]? := by
  have hpos : (l.take pos).length = pos := by
    simp only [List.length_take]
    omega
  rw [replaceRange, List.append_assoc, List.getElem?_append, hpos]
  by_cases h₁ : i < pos
  · rw [if_pos h₁, if_neg (by omega), List.getElem?_take, if_pos h₁]
  · rw [if_neg h₁, List.getElem?_append, hs]
    by_cases h₂ : i - pos < len
    · rw [if_pos h₂, if_pos (by omega)]
    · rw [if_neg h₂, if_neg (by omega), List.getElem?_drop]
      congr 1
      omega

theorem length_fillRange {l : List α} {a b : ℕ} {v : α} (hab : a ≤ b)
    (hb : b ≤ l.length) : (fillRange l a b v).length = l.length := by
  simp only [fillRange, List.length_append, List.length_take, List.length_drop,
    List.length_replicate]
  omega

theorem fillRange_eq_replaceRange {l : List α} {a b : ℕ} {v : α} (hab : a ≤ b) :
    fillRange l a b v = replaceRange l a (b - a) (List.replicate (b - a) v) := by
  rw [fillRange, replaceRange, Nat.add_sub_cancel' hab]

theorem getElem?_fillRange {l : List α} {a b : ℕ} {v : α} (hab : a ≤ b)
    (hb : b ≤ l.length) (i : ℕ) :
    (fillRange l a b v)[i]? = if a ≤ i ∧ i < b then some v else l[i]? := by
  rw [fillRange_eq_replaceRange hab,
    getElem?_replaceRange (by omega) List.length_replicate]
  by_cases hi : a ≤ i ∧ i < b
  · rw [if_pos (by omega), if_pos hi, List.getElem?_replicate, if_pos (by omega)]
  · rw [if_neg (by omega), if_neg hi]

theorem fillRange_of_forall {l : List α} {a b : ℕ} {v : α} (hab : a ≤ b)
    (h : ∀ i, a ≤ i → i < b → l[i]? = some v) : fillRange l a b v = l := by
  cases Nat.eq_or_lt_of_le hab with
  | inl heq => simp [fillRange, heq]
  | inr hlt =>
      obtain ⟨hb, -⟩ := List.getElem?_eq_some_iff.mp (h (b - 1) (by omega) (by omega))
      apply List.ext_getElem?
      intro i
      rw [getElem?_fillRange hab (by omega)]
      split_ifs with hi
      · exact (h i hi.1 hi.2).symm
      · rfl

/-- Every list splits at the two ends of a range. -/
theorem take_substr_drop (l : List α) {a b : ℕ} (hab : a ≤ b) :
    l.take a ++ substr l a (b - a) ++ l.drop b = l := by
  have hdrop : l.drop b = (l.drop a).drop (b - a) := by
    rw [List.drop_drop, Nat.add_sub_cancel' hab]
  rw [List.append_assoc, substr, hdrop, List.take_append_drop,
    List.take_append_drop]

/-- Filling a range with `false` adds the `true` positions of the range to the
`false` positions of the list. -/
theorem count_false_fillRange_false {l : List Bool} {a b : ℕ} (hab : a ≤ b)
    (hb : b ≤ l.length) :
    (fillRange l a b false).count false = l.count false + countRange l a b := by
  have hsplit := congrArg (List.count false) (take_substr_drop l hab)
  have hlen : (substr l a (b - a)).length = b - a := length_substr (by omega)
  have hcount := List.count_true_add_count_false (substr l a (b - a))
  simp only [List.count_append] at hsplit
  simp only [fillRange, countRange, List.count_append, List.count_replicate_self]
  omega

theorem count_eq_card_positions [DecidableEq α] (l : List α) (a : α) :
    l.count a = ((Finset.range l.length).filter fun k ↦ l[k]? = some a).card := by
  induction l using List.reverseRecOn with
  | nil => simp
  | append_singleton l b ih =>
      have hold : (Finset.range l.length).filter (fun k ↦ (l ++ [b])[k]? = some a) =
          (Finset.range l.length).filter (fun k ↦ l[k]? = some a) := by
        apply Finset.filter_congr
        intro k hk
        rw [List.getElem?_append_left (Finset.mem_range.mp hk)]
      rw [List.count_append, List.length_append, List.length_singleton,
        Finset.range_add_one, Finset.filter_insert, hold, ih, List.getElem?_concat_length]
      by_cases hb : b = a
      · rw [if_pos (by rw [hb]), Finset.card_insert_of_notMem (by simp), hb]
        simp
      · rw [if_neg (by simpa using hb)]
        simp [hb]

section find

variable [BEq α] {l : List α} {a b : ℕ} {v : α}

theorem le_findRange : a ≤ findRange l a b v :=
  Nat.le_add_right _ _

theorem findRange_le (hab : a ≤ b) (hb : b ≤ l.length) : findRange l a b v ≤ b := by
  have hlen : (substr l a (b - a)).length = b - a := length_substr (by omega)
  have hle : (substr l a (b - a)).findIdx (· == v) ≤ (substr l a (b - a)).length :=
    List.findIdx_le_length
  simp only [findRange]
  omega

variable [LawfulBEq α]

theorem getElem?_ne_of_lt_findRange {i : ℕ} (hai : a ≤ i)
    (hi : i < findRange l a b v) : l[i]? ≠ some v := by
  intro hv
  have hi' : i - a < (substr l a (b - a)).findIdx (· == v) := by
    simp only [findRange] at hi
    omega
  have hne := List.not_of_lt_findIdx hi'
  have hget : (substr l a (b - a))[i - a]? = some v := by
    have hlt : i - a < (substr l a (b - a)).length :=
      hi'.trans_le List.findIdx_le_length
    have hlt' : i - a < b - a := by
      simp only [substr, List.length_take] at hlt
      omega
    rw [getElem?_substr, if_pos hlt', Nat.add_sub_cancel' hai, hv]
  obtain ⟨hlt, heq⟩ := List.getElem?_eq_some_iff.mp hget
  simp [heq] at hne

theorem getElem?_findRange (hb : b ≤ l.length) (hlt : findRange l a b v < b) :
    l[findRange l a b v]? = some v := by
  have hlen : (substr l a (b - a)).length = b - a := by
    have hle : a ≤ findRange l a b v := le_findRange
    exact length_substr (by omega)
  have hidx : (substr l a (b - a)).findIdx (· == v) < (substr l a (b - a)).length := by
    simp only [findRange] at hlt
    omega
  have hget := List.findIdx_getElem (w := hidx)
  have hsome : (substr l a (b - a))[(substr l a (b - a)).findIdx (· == v)]? =
      some v := by
    rw [List.getElem?_eq_getElem hidx]
    exact congrArg some (eq_of_beq hget)
  rw [getElem?_substr] at hsome
  split at hsome
  · exact hsome
  · exact absurd hsome (by simp)

end find

/-- Reading a list position by position. -/
theorem flatMap_range_elim {α β : Type*} (l : List α) (f : α → List β) :
    (List.range l.length).flatMap (fun k ↦ (l[k]?).elim [] f) = l.flatMap f := by
  induction l with
  | nil => rfl
  | cons a l ih =>
      rw [List.length_cons, List.range_succ_eq_map, List.flatMap_cons, List.flatMap_cons,
        List.flatMap_map, ← ih]
      rfl

end Sponge.Lib
