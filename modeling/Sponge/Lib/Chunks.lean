import Mathlib.Tactic

/-!
# Strings in chunks

A string is kept as a list of chunks, some of which may be empty. To take
elements off its front, whole chunks are dropped while they are not longer than
what is left to take, and the next one is cut. Only the contents of the chunks
matter for what comes out.
-/

namespace Sponge.Lib

variable {α β γ ε : Type*}

/-- Takes elements off the front of the chunks; the error is for running out of chunks. -/
def removeFront (contents : α → List β) (cut : α → ℕ → Except ε α) (tooShort : ε) :
    List α → ℕ → Except ε (List α)
  | chunks, 0 => .ok chunks
  | [], _ + 1 => .error tooShort
  | chunk :: chunks, n + 1 =>
    if n + 1 < (contents chunk).length then (cut chunk (n + 1)).map (· :: chunks)
    else removeFront contents cut tooShort chunks (n + 1 - (contents chunk).length)

/-- A chunk can be cut anywhere before its end. -/
def Cuts (contents : α → List β) (cut : α → ℕ → Except ε α) : Prop :=
  ∀ chunk n, n < (contents chunk).length →
    ∃ chunk', cut chunk n = .ok chunk' ∧ contents chunk' = (contents chunk).drop n

section

variable {contents : α → List β} {cut : α → ℕ → Except ε α} {tooShort : ε}

@[simp] theorem removeFront_zero (chunks : List α) :
    removeFront contents cut tooShort chunks 0 = .ok chunks := by
  cases chunks <;> rfl

theorem removeFront_of_lt (chunk : α) (chunks : List α) {n : ℕ} (hpos : 0 < n)
    (h : n < (contents chunk).length) :
    removeFront contents cut tooShort (chunk :: chunks) n =
      (cut chunk n).map (· :: chunks) := by
  cases n with
  | zero => exact absurd hpos (lt_irrefl 0)
  | succ n => exact if_pos h

theorem removeFront_of_le (chunk : α) (chunks : List α) {n : ℕ} (hpos : 0 < n)
    (h : (contents chunk).length ≤ n) :
    removeFront contents cut tooShort (chunk :: chunks) n =
      removeFront contents cut tooShort chunks (n - (contents chunk).length) := by
  cases n with
  | zero => exact absurd hpos (lt_irrefl 0)
  | succ n => exact if_neg (not_lt.mpr h)

theorem exists_removeFront (tooShort : ε) (hcut : Cuts contents cut) {chunks : List α} {n : ℕ}
    (h : n ≤ (chunks.flatMap contents).length) :
    ∃ rest, removeFront contents cut tooShort chunks n = .ok rest ∧
      rest.flatMap contents = (chunks.flatMap contents).drop n := by
  induction chunks generalizing n with
  | nil =>
      obtain rfl : n = 0 := Nat.le_zero.mp h
      exact ⟨[], rfl, rfl⟩
  | cons chunk chunks ih =>
      rw [List.flatMap_cons, List.length_append] at h
      rw [List.flatMap_cons]
      rcases Nat.eq_zero_or_pos n with rfl | hpos
      · exact ⟨chunk :: chunks, removeFront_zero _, rfl⟩
      rcases lt_or_ge n (contents chunk).length with hlt | hle
      · obtain ⟨chunk', hok, hdrop⟩ := hcut chunk n hlt
        refine ⟨chunk' :: chunks, ?_, ?_⟩
        · rw [removeFront_of_lt chunk chunks hpos hlt, hok]
          rfl
        · rw [List.flatMap_cons, hdrop, List.drop_append_of_le_length hlt.le]
      · -- the chunk is dropped whole, also if it is empty
        obtain ⟨rest, hok, hdrop⟩ := ih (Nat.sub_le_iff_le_add'.mpr h)
        refine ⟨rest, ?_, ?_⟩
        · rw [removeFront_of_le chunk chunks hpos hle, hok]
        · rw [hdrop, List.drop_append, List.drop_eq_nil_of_le hle, List.nil_append]

theorem removeFront_eq_error {chunks : List α} {n : ℕ}
    (h : (chunks.flatMap contents).length < n) :
    removeFront contents cut tooShort chunks n = .error tooShort := by
  induction chunks generalizing n with
  | nil =>
      cases n with
      | zero => exact absurd h (lt_irrefl 0)
      | succ n => rfl
  | cons chunk chunks ih =>
      rw [List.flatMap_cons, List.length_append] at h
      rw [removeFront_of_le chunk chunks (by omega) (by omega)]
      exact ih (by omega)

/-- On the whole string, removing is dropping. -/
theorem map_removeFront (hcut : Cuts contents cut) (chunks : List α) (n : ℕ) :
    (removeFront contents cut tooShort chunks n).map (List.flatMap contents) =
      if n ≤ (chunks.flatMap contents).length then .ok ((chunks.flatMap contents).drop n)
      else .error tooShort := by
  split_ifs with h
  · obtain ⟨rest, hok, hdrop⟩ := exists_removeFront tooShort hcut h
    rw [hok, ← hdrop]
    rfl
  · rw [removeFront_eq_error (not_le.mp h)]
    rfl

/-- Removals in a row come to one removal of their sum. -/
theorem map_foldlM_removeFront (hcut : Cuts contents cut) (ns : List ℕ) (chunks : List α) :
    (ns.foldlM (removeFront contents cut tooShort) chunks).map (List.flatMap contents) =
      (removeFront contents cut tooShort chunks ns.sum).map (List.flatMap contents) := by
  induction ns generalizing chunks with
  | nil =>
      rw [List.sum_nil, removeFront_zero]
      rfl
  | cons n ns ih =>
      rw [List.foldlM_cons, List.sum_cons, map_removeFront hcut]
      rcases le_or_gt n (chunks.flatMap contents).length with hle | hlt
      · obtain ⟨rest, hok, hdrop⟩ := exists_removeFront tooShort hcut hle
        have hrest := ih rest
        rw [map_removeFront hcut, hdrop, List.length_drop, List.drop_drop] at hrest
        rw [hok]
        refine hrest.trans ?_
        have hiff : ns.sum ≤ (chunks.flatMap contents).length - n ↔
            n + ns.sum ≤ (chunks.flatMap contents).length := by omega
        simp only [hiff]
      · rw [removeFront_eq_error hlt, if_neg (by omega)]
        rfl

/-- Chunks of another kind with the same contents. -/
theorem removeFront_map {contents' : γ → List β} {cut' : γ → ℕ → Except ε γ} (tooShort' : ε)
    (view : α → γ) (hview : ∀ chunk, contents' (view chunk) = contents chunk)
    (hcut : ∀ chunk n, n < (contents chunk).length →
      ∃ chunk', cut chunk n = .ok chunk' ∧ cut' (view chunk) n = .ok (view chunk'))
    (chunks : List α) (n : ℕ) :
    removeFront contents' cut' tooShort' (chunks.map view) n =
      ((removeFront contents cut tooShort chunks n).map (List.map view)).mapError
        fun _ ↦ tooShort' := by
  induction chunks generalizing n with
  | nil => cases n <;> rfl
  | cons chunk chunks ih =>
      rw [List.map_cons]
      rcases Nat.eq_zero_or_pos n with rfl | hpos
      · rw [removeFront_zero, removeFront_zero]
        rfl
      rcases lt_or_ge n (contents chunk).length with hlt | hle
      · obtain ⟨chunk', hok, hok'⟩ := hcut chunk n hlt
        rw [removeFront_of_lt chunk chunks hpos hlt,
          removeFront_of_lt (view chunk) _ hpos ((hview chunk).symm ▸ hlt), hok, hok']
        rfl
      · rw [removeFront_of_le chunk chunks hpos hle,
          removeFront_of_le (view chunk) _ hpos ((hview chunk).symm ▸ hle), hview, ih]

end

end Sponge.Lib
