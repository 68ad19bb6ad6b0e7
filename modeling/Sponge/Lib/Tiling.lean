import Mathlib.Tactic

/-!
# Pieces laid end to end

A list of pieces, each with a length, is laid end to end from a starting
position. `tileEnd` is where the last piece ends, `tileEnds` lists where each
one ends, and `Tiled` asks a property of every piece at the position where it
starts.
-/

namespace Sponge.Lib

variable {α : Type*} (len : α → ℕ)

def tileEnd : ℕ → List α → ℕ
  | a, [] => a
  | a, x :: xs => tileEnd (a + len x) xs

def tileEnds : ℕ → List α → List ℕ
  | _, [] => []
  | a, x :: xs => (a + len x) :: tileEnds (a + len x) xs

def Tiled (P : ℕ → α → Prop) : ℕ → List α → Prop
  | _, [] => True
  | a, x :: xs => P a x ∧ Tiled P (a + len x) xs

variable {len} {P Q : ℕ → α → Prop} {a b : ℕ} {x : α} {xs ys : List α}

@[simp] theorem tileEnd_append (a : ℕ) (xs ys : List α) :
    tileEnd len a (xs ++ ys) = tileEnd len (tileEnd len a xs) ys := by
  induction xs generalizing a with
  | nil => rfl
  | cons x xs ih => exact ih (a + len x)

@[simp] theorem tileEnds_append (a : ℕ) (xs ys : List α) :
    tileEnds len a (xs ++ ys) = tileEnds len a xs ++ tileEnds len (tileEnd len a xs) ys := by
  induction xs generalizing a with
  | nil => rfl
  | cons x xs ih => exact congrArg _ (ih (a + len x))

@[simp] theorem tiled_append :
    Tiled len P a (xs ++ ys) ↔ Tiled len P a xs ∧ Tiled len P (tileEnd len a xs) ys := by
  induction xs generalizing a with
  | nil => simp [Tiled, tileEnd]
  | cons x xs ih => simp [Tiled, tileEnd, ih, and_assoc]

@[simp] theorem length_tileEnds (a : ℕ) (xs : List α) :
    (tileEnds len a xs).length = xs.length := by
  induction xs generalizing a with
  | nil => rfl
  | cons x xs ih => simp [tileEnds, ih]

theorem le_tileEnd (a : ℕ) (xs : List α) : a ≤ tileEnd len a xs := by
  induction xs generalizing a with
  | nil => exact le_refl a
  | cons x xs ih => exact (Nat.le_add_right a (len x)).trans (ih (a + len x))

theorem tileEnd_injective (xs : List α) (h : tileEnd len a xs = tileEnd len b xs) : a = b := by
  induction xs generalizing a b with
  | nil => exact h
  | cons x xs ih => exact Nat.add_right_cancel (ih h)

theorem Tiled.mono (h : ∀ q x, P q x → Q q x) (ht : Tiled len P a xs) : Tiled len Q a xs := by
  induction xs generalizing a with
  | nil => trivial
  | cons x xs ih => exact ⟨h a x ht.1, ih ht.2⟩

/-- A piece of a tiling starts and ends between its two ends. -/
theorem Tiled.exists_of_mem (ht : Tiled len P a xs) (hx : x ∈ xs) :
    ∃ q, a ≤ q ∧ P q x ∧ q + len x ≤ tileEnd len a xs := by
  induction xs generalizing a with
  | nil => simp at hx
  | cons y xs ih =>
      rcases List.mem_cons.mp hx with rfl | hmem
      · exact ⟨a, le_refl a, ht.1, le_tileEnd (a + len x) xs⟩
      · obtain ⟨q, haq, hq, hend⟩ := ih ht.2 hmem
        exact ⟨q, (Nat.le_add_right a (len y)).trans haq, hq, hend⟩

theorem Tiled.getElem? (ht : Tiled len P a xs) {k : ℕ} (hk : xs[k]? = some x) :
    ∃ q, (a :: tileEnds len a xs)[k]? = some q ∧
      (tileEnds len a xs)[k]? = some (q + len x) ∧ P q x := by
  induction xs generalizing a k with
  | nil => simp at hk
  | cons y xs ih =>
      cases k with
      | zero =>
          obtain rfl : y = x := by simpa using hk
          exact ⟨a, rfl, rfl, ht.1⟩
      | succ k => exact ih ht.2 hk

/-- A piece paired with the position where it ends. -/
theorem Tiled.exists_of_mem_zip (ht : Tiled len P a xs)
    (hx : (x, b) ∈ xs.zip (tileEnds len a xs)) :
    ∃ q, b = q + len x ∧ P q x ∧ b ≤ tileEnd len a xs := by
  induction xs generalizing a with
  | nil => simp at hx
  | cons y xs ih =>
      rw [tileEnds, List.zip_cons_cons] at hx
      rcases List.mem_cons.mp hx with heq | hmem
      · obtain ⟨rfl, rfl⟩ := Prod.mk.inj heq
        exact ⟨a, rfl, ht.1, le_tileEnd (a + len x) xs⟩
      · exact ih ht.2 hmem

theorem lt_of_mem_tileEnds (ht : Tiled len P a xs) (hpos : ∀ q x, P q x → 0 < len x)
    (hb : b ∈ tileEnds len a xs) : a < b := by
  induction xs generalizing a with
  | nil => simp [tileEnds] at hb
  | cons y xs ih =>
      have hy := hpos a y ht.1
      rcases List.mem_cons.mp hb with rfl | hmem
      · exact Nat.lt_add_of_pos_right hy
      · exact (Nat.lt_add_of_pos_right hy).trans (ih ht.2 hmem)

theorem pairwise_tileEnds (ht : Tiled len P a xs) (hpos : ∀ q x, P q x → 0 < len x) :
    (tileEnds len a xs).Pairwise (· < ·) := by
  induction xs generalizing a with
  | nil => exact List.Pairwise.nil
  | cons y xs ih =>
      exact List.Pairwise.cons (fun b hb ↦ lt_of_mem_tileEnds ht.2 hpos hb) (ih ht.2)

/-- A tiling depends on its pieces only as far as the lengths and the property read them. -/
theorem Tiled.of_map_eq {β : Type*} {f : α → β} (hlen : ∀ x y, f x = f y → len x = len y)
    (hP : ∀ q x y, f x = f y → P q x → P q y) (ht : Tiled len P a xs)
    (h : xs.map f = ys.map f) : Tiled len P a ys ∧ tileEnd len a ys = tileEnd len a xs := by
  induction xs generalizing a ys with
  | nil =>
      obtain rfl : ys = [] := List.map_eq_nil_iff.mp h.symm
      exact ⟨trivial, rfl⟩
  | cons x xs ih =>
      obtain ⟨y, ys, rfl, hxy, hrest⟩ := List.map_eq_cons_iff.mp h.symm
      have hsame : len y = len x := hlen y x hxy
      obtain ⟨htiled, hend⟩ := ih ht.2 hrest.symm
      rw [← hsame] at htiled
      refine ⟨⟨hP a x y hxy.symm ht.1, htiled⟩, ?_⟩
      rw [tileEnd, tileEnd, hsame]
      exact hend

theorem getLast?_tileEnds (hxs : xs ≠ []) :
    (tileEnds len a xs).getLast? = some (tileEnd len a xs) := by
  induction xs generalizing a with
  | nil => exact absurd rfl hxs
  | cons y xs ih =>
      cases xs with
      | nil => rfl
      | cons z xs => simpa [tileEnds, tileEnd] using ih (a := a + len y) (by simp)

end Sponge.Lib
