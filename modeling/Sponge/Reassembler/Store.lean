import Sponge.Lib.Ring
import Sponge.Reassembler.Model

/-!
# Storing a substring in the ring

An index is held when it lies in the window and its cell is occupied. Storing
a substring makes exactly its indices of the window held, whatever happens to
the bytes themselves: the bookkeeping of the cells is right in both branches
of the copy. The bytes are right as well unless the copy wraps around the end
of the ring while the substring sticks out of the window.
-/

namespace Sponge.StreamReassembler

open Lib

variable {r : StreamReassembler} {data : List UInt8} {index i : ℕ} {eof : Bool}

/-- The shape every reachable reassembler has. -/
structure Wf (r : StreamReassembler) : Prop where
  capacity_pos : 0 < r.capacity
  length_empty : r.empty.length = r.capacity
  capacity_le_length_aux : r.capacity ≤ r.aux.length
  output_cap : r.output.cap = r.capacity
  startAux_eq : r.startAux = r.output.bytesWrote

/-- The shape does not depend on the flags, the recorded end and the buffered bytes. -/
theorem Wf.frame {r : StreamReassembler} (hw : r.Wf) {output : ByteStream} {endStream : ℕ}
    {eofSeen : Bool} (hcap : output.cap = r.output.cap)
    (hwrote : output.bytesWrote = r.output.bytesWrote) :
    ({ r with output := output, endStream := endStream, eofSeen := eofSeen } :
      StreamReassembler).Wf :=
  ⟨hw.capacity_pos, hw.length_empty, hw.capacity_le_length_aux, hcap.trans hw.output_cap,
    hw.startAux_eq.trans hwrote.symm⟩

theorem wf_new {capacity : ℕ} (h : 0 < capacity) : (new capacity).Wf where
  capacity_pos := h
  length_empty := List.length_replicate
  capacity_le_length_aux := by simp [new]
  output_cap := rfl
  startAux_eq := rfl

/-- The index lies in the window and its cell is occupied. -/
def Held (r : StreamReassembler) (i : ℕ) : Prop :=
  r.startAux ≤ i ∧ i < r.startAux + r.capacity ∧ r.empty[i % r.capacity]? = some false

instance (r : StreamReassembler) (i : ℕ) : Decidable (r.Held i) :=
  inferInstanceAs (Decidable (_ ∧ _ ∧ _))

theorem not_held_new (capacity i : ℕ) : ¬(new capacity).Held i := by
  simp [Held, new, List.getElem?_replicate]

/-- The first index of the window that `data` covers, or the end of the
window part if there is none. -/
def startCopy (r : StreamReassembler) (index : ℕ) : ℕ :=
  max r.startAux index

def endCopy (r : StreamReassembler) (data : List UInt8) (index : ℕ) : ℕ :=
  min (r.startAux + r.capacity) (index + data.length)

/-- The part of `data` inside the window crosses the end of the ring. -/
def Straddles (r : StreamReassembler) (data : List UInt8) (index : ℕ) : Prop :=
  r.capacity < r.startCopy index % r.capacity +
    (r.endCopy data index - r.startCopy index)

/-- A substring that crosses the end of the ring lies wholly inside the window. -/
def StoresCleanly (r : StreamReassembler) (data : List UInt8) (index : ℕ) : Prop :=
  r.Straddles data index →
    r.startAux ≤ index ∧ index + data.length ≤ r.startAux + r.capacity

instance (r : StreamReassembler) (data : List UInt8) (index : ℕ) :
    Decidable (r.StoresCleanly data index) :=
  inferInstanceAs (Decidable (_ < _ → _ ∧ _))

section copy

variable {loc a b : ℕ}

@[simp] theorem copyToAux_output (locAux size : ℕ) :
    (r.copyToAux data loc locAux size).output = r.output := by
  unfold copyToAux
  split <;> rfl

@[simp] theorem copyToAux_capacity (locAux size : ℕ) :
    (r.copyToAux data loc locAux size).capacity = r.capacity := by
  unfold copyToAux
  split <;> rfl

@[simp] theorem copyToAux_startAux (locAux size : ℕ) :
    (r.copyToAux data loc locAux size).startAux = r.startAux := by
  unfold copyToAux
  split <;> rfl

theorem length_empty_copyToAux (hlen : r.empty.length = r.capacity) (hpos : 0 < r.capacity)
    (hba : b ≤ a + r.capacity) :
    (r.copyToAux data loc (a % r.capacity) (b - a)).empty.length = r.capacity := by
  have hlt := Nat.mod_lt a hpos
  unfold copyToAux
  split
  · rw [length_fillRange (by omega) (by omega), hlen]
  · have hright : (fillRange r.empty (a % r.capacity) r.empty.length false).length =
        r.capacity := by
      rw [length_fillRange (by omega) le_rfl, hlen]
    simp only
    rw [length_fillRange (by omega) (by omega), hright]

/-- The copied indices occupy their cells and no other cell changes. -/
theorem empty_copyToAux_iff (hlen : r.empty.length = r.capacity) (hab : a ≤ b)
    (hba : b ≤ a + r.capacity) {k : ℕ} (hk : k < r.capacity) :
    (r.copyToAux data loc (a % r.capacity) (b - a)).empty[k]? = some false ↔
      (∃ j, a ≤ j ∧ j < b ∧ j % r.capacity = k) ∨ r.empty[k]? = some false := by
  have hlt := Nat.mod_lt a (show 0 < r.capacity by omega)
  rw [exists_mem_range_slot_iff hab hba hk]
  unfold copyToAux
  by_cases hfit : a % r.capacity + (b - a) ≤ r.capacity
  · rw [if_pos hfit, if_pos hfit, getElem?_fillRange (by omega) (by omega)]
    split_ifs with h <;> simp [h]
  · rw [if_neg hfit, if_neg hfit]
    have hright : (fillRange r.empty (a % r.capacity) r.empty.length false).length =
        r.capacity := by
      rw [length_fillRange (by omega) le_rfl, hlen]
    simp only
    rw [getElem?_fillRange (by omega) (by omega), getElem?_fillRange (by omega) le_rfl, hlen]
    split_ifs with h₁ h₂
    · simp [h₁.2]
    · simp [h₂.1]
    · have hnot : ¬(a % r.capacity ≤ k ∨ k < a % r.capacity + (b - a) - r.capacity) := by
        omega
      simp [hnot]

/-- The counter grows by the number of cells that become occupied. -/
theorem bytesUnass_copyToAux (hlen : r.empty.length = r.capacity) (hpos : 0 < r.capacity)
    (hba : b ≤ a + r.capacity) :
    (r.copyToAux data loc (a % r.capacity) (b - a)).bytesUnass + r.empty.count false =
      r.bytesUnass +
        (r.copyToAux data loc (a % r.capacity) (b - a)).empty.count false := by
  have hlt := Nat.mod_lt a hpos
  unfold copyToAux
  split
  · simp only
    rw [count_false_fillRange_false (by omega) (by omega)]
    omega
  · have hright : (fillRange r.empty (a % r.capacity) r.empty.length false).length =
        r.capacity := by
      rw [length_fillRange (by omega) le_rfl, hlen]
    -- The second range ends before the first one starts, so filling the first
    -- does not change what is counted in the second.
    have hcount : countRange (fillRange r.empty (a % r.capacity) r.empty.length false) 0
        (a % r.capacity + (b - a) - r.capacity) =
        countRange r.empty 0 (a % r.capacity + (b - a) - r.capacity) := by
      simp only [countRange, substr, fillRange, List.drop_zero, Nat.sub_zero,
        List.append_assoc]
      rw [List.take_append_of_le_length, List.take_take, min_eq_left (by omega)]
      rw [List.length_take]
      omega
    simp only
    rw [count_false_fillRange_false (Nat.zero_le _) (by omega), hcount,
      count_false_fillRange_false (by omega) le_rfl]
    omega

theorem le_length_aux_copyToAux (hle : r.capacity ≤ r.aux.length) (hpos : 0 < r.capacity)
    (hba : b ≤ a + r.capacity) (hdata : loc + (b - a) ≤ data.length) :
    r.capacity ≤ (r.copyToAux data loc (a % r.capacity) (b - a)).aux.length := by
  have hlt := Nat.mod_lt a hpos
  unfold copyToAux
  split
  · simp only
    rw [length_replaceRange (by omega), length_substr hdata]
    omega
  · have hright : (replaceRange r.aux (a % r.capacity) (r.capacity - a % r.capacity)
        (substr data loc (r.capacity - a % r.capacity))).length = r.aux.length := by
      rw [length_replaceRange (by omega), length_substr (by omega)]
      omega
    simp only
    rw [length_replaceRange (by omega), hright]
    simp only [substr, List.length_take, List.length_drop]
    omega

theorem aux_copyToAux_of_fit (hlen : r.aux.length = r.capacity)
    (hfit : loc + (b - a) ≤ data.length)
    (hle : a % r.capacity + (b - a) ≤ r.capacity) :
    (r.copyToAux data loc (a % r.capacity) (b - a)).aux.length = r.capacity ∧
      ∀ k, (r.copyToAux data loc (a % r.capacity) (b - a)).aux[k]? =
        if a % r.capacity ≤ k ∧ k < a % r.capacity + (b - a) then
          data[loc + (k - a % r.capacity)]?
        else r.aux[k]? := by
  unfold copyToAux
  rw [if_pos hle]
  refine ⟨?_, fun k ↦ ?_⟩
  · simp only
    rw [length_replaceRange (by omega), length_substr hfit]
    omega
  · simp only
    rw [getElem?_replaceRange (by omega) (length_substr hfit), getElem?_substr]
    split_ifs with h₁ h₂
    · rfl
    · omega
    · rfl

/-- The bytes of a copy that wraps, when the substring is copied whole. -/
theorem aux_copyToAux_of_wrap (hlen : r.aux.length = r.capacity) (hpos : 0 < r.capacity)
    (hba : b ≤ a + r.capacity) (hdata : data.length = b - a)
    (hwrap : r.capacity < a % r.capacity + (b - a)) :
    (r.copyToAux data 0 (a % r.capacity) (b - a)).aux.length = r.capacity ∧
      ∀ k, k < r.capacity → (r.copyToAux data 0 (a % r.capacity) (b - a)).aux[k]? =
        if k < a % r.capacity + (b - a) - r.capacity then
          data[r.capacity - a % r.capacity + k]?
        else if a % r.capacity ≤ k then data[k - a % r.capacity]?
        else r.aux[k]? := by
  have hlt := Nat.mod_lt a hpos
  have hright : (replaceRange r.aux (a % r.capacity) (r.capacity - a % r.capacity)
      (substr data 0 (r.capacity - a % r.capacity))).length = r.capacity := by
    rw [length_replaceRange (by omega), length_substr (by omega)]
    omega
  have hleft : (substr data (r.capacity - a % r.capacity) (b - a)).length =
      a % r.capacity + (b - a) - r.capacity := by
    simp only [substr, List.length_take, List.length_drop]
    omega
  unfold copyToAux
  rw [if_neg (by omega)]
  refine ⟨?_, fun k hk ↦ ?_⟩
  · simp only
    rw [length_replaceRange (by omega), hright, hleft]
    omega
  · simp only
    rw [getElem?_replaceRange (by omega) hleft,
      getElem?_replaceRange (by omega) (length_substr (by omega)), getElem?_substr,
      getElem?_substr]
    split_ifs <;> first | omega | simp

/-- A copy that does not wrap, or that wraps with a substring wholly inside the
window, puts every byte into its cell. -/
theorem aux_copyToAux (hlen : r.aux.length = r.capacity) (hpos : 0 < r.capacity)
    (hab : a ≤ b) (hba : b ≤ a + r.capacity) (hdata : loc + (b - a) ≤ data.length)
    (hclean : r.capacity < a % r.capacity + (b - a) → loc = 0 ∧ data.length = b - a)
    {s : ℕ} (hs : s ≤ a) (hsb : b ≤ s + r.capacity) (hi : s ≤ i)
    (hi' : i < s + r.capacity) :
    (r.copyToAux data loc (a % r.capacity) (b - a)).aux[i % r.capacity]? =
      if a ≤ i ∧ i < b then data[loc + (i - a)]? else r.aux[i % r.capacity]? := by
  have hlt := Nat.mod_lt a hpos
  have hslot := Nat.mod_lt i hpos
  -- Outside the copied range the cell belongs to no copied index.
  have hother : ¬(a ≤ i ∧ i < b) →
      ¬∃ j, a ≤ j ∧ j < b ∧ j % r.capacity = i % r.capacity := by
    rintro hnot ⟨j, haj, hjb, hj⟩
    have hij := slot_injective (by omega) (by omega) hi hi' hj
    omega
  rw [exists_mem_range_slot_iff hab hba hslot] at hother
  by_cases hle : a % r.capacity + (b - a) ≤ r.capacity
  · rw [(aux_copyToAux_of_fit hlen hdata hle).2]
    rw [if_pos hle] at hother
    by_cases hin : a ≤ i ∧ i < b
    · rw [if_pos hin, slot_of_before_end hin.1 (by omega), if_pos (by omega)]
      congr 2
      omega
    · rw [if_neg hin, if_neg (hother hin)]
  · obtain ⟨rfl, hlendata⟩ := hclean (by omega)
    rw [(aux_copyToAux_of_wrap hlen hpos hba hlendata (by omega)).2 _ hslot]
    rw [if_neg hle] at hother
    by_cases hin : a ≤ i ∧ i < b
    · rw [if_pos hin]
      rcases lt_or_ge (a % r.capacity + (i - a)) r.capacity with hend | hend
      · rw [slot_of_before_end hin.1 hend, if_neg (by omega), if_pos (by omega)]
        congr 1
        omega
      · rw [slot_of_past_end hin.1 hend (by omega), if_pos (by omega)]
        congr 1
        omega
    · have hnot := hother hin
      rw [if_neg hin, if_neg (by omega), if_neg (by omega)]

theorem length_aux_copyToAux (hlen : r.aux.length = r.capacity) (hpos : 0 < r.capacity)
    (hba : b ≤ a + r.capacity) (hdata : loc + (b - a) ≤ data.length)
    (hclean : r.capacity < a % r.capacity + (b - a) → loc = 0 ∧ data.length = b - a) :
    (r.copyToAux data loc (a % r.capacity) (b - a)).aux.length = r.capacity := by
  by_cases hle : a % r.capacity + (b - a) ≤ r.capacity
  · exact (aux_copyToAux_of_fit hlen hdata hle).1
  · obtain ⟨rfl, hlendata⟩ := hclean (by omega)
    exact (aux_copyToAux_of_wrap hlen hpos hba hlendata (by omega)).1

end copy

section store

/-- The substring meets the window, at least with one of its ends. -/
def Meets (r : StreamReassembler) (data : List UInt8) (index : ℕ) : Prop :=
  index ≤ r.startAux + r.capacity ∧ r.startAux ≤ index + data.length

instance (r : StreamReassembler) (data : List UInt8) (index : ℕ) :
    Decidable (r.Meets data index) :=
  inferInstanceAs (Decidable (_ ∧ _))

/-- The reassembler with the window part of the substring copied to its cells. -/
def storeCells (r : StreamReassembler) (data : List UInt8) (index : ℕ) :
    StreamReassembler :=
  if data ≠ [] ∧ r.Meets data index then
    r.copyToAux data (r.startCopy index - index) (r.startCopy index % r.capacity)
      (r.endCopy data index - r.startCopy index)
  else r

/-- Storing is copying, and the two ways in which the end of the stream is
noticed: an empty substring ends the output at once, any other one that meets
the window sets the index of the end. -/
theorem writeToAux_eq
    (hidx : index ≤ r.startAux + r.capacity → index + data.length < 2 ^ 64) :
    r.writeToAux data index eof =
      { r.storeCells data index with
        output := if data = [] ∧ eof = true then r.output.endInput else r.output
        endStream := if data ≠ [] ∧ r.Meets data index ∧ eof = true then
          index + data.length else r.endStream } := by
  unfold writeToAux storeCells
  by_cases hdata : data = []
  · subst hdata
    cases eof <;> simp
  · have hne : data.length ≠ 0 := by simpa using hdata
    rw [if_neg hne]
    by_cases h : r.Meets data index
    · have hframe (loc locAux size : ℕ) :
          { r.copyToAux data loc locAux size with
            output := r.output, endStream := r.endStream } =
            r.copyToAux data loc locAux size := by
        unfold copyToAux
        split <;> rfl
      simp only [add64_of_lt (hidx h.1)]
      have hin := h
      obtain ⟨h₁, h₂⟩ := hin
      rw [if_neg (by omega), sub64_of_le (by omega), sub64_of_le (by omega)]
      cases eof with
      | false => simpa [hdata, h, startCopy, endCopy] using (hframe _ _ _).symm
      | true => simp [hdata, h, startCopy, endCopy]
    · -- An index past the window is dropped before the end of the substring matters.
      have hout : index > r.startAux + r.capacity ∨
          add64 index data.length < r.startAux := by
        by_cases hle : index ≤ r.startAux + r.capacity
        · right
          rw [add64_of_lt (hidx hle)]
          exact not_le.mp fun hge ↦ h ⟨hle, hge⟩
        · exact Or.inl (not_le.mp hle)
      simp [hdata, h, hout]

theorem startCopy_le_endCopy (h : r.Meets data index) :
    r.startCopy index ≤ r.endCopy data index := by
  obtain ⟨h₁, h₂⟩ := h
  simp only [startCopy, endCopy]
  omega

theorem endCopy_le : r.endCopy data index ≤ r.startCopy index + r.capacity := by
  simp only [startCopy, endCopy]
  omega

theorem copy_le_length (h : r.Meets data index) :
    r.startCopy index - index + (r.endCopy data index - r.startCopy index) ≤
      data.length := by
  obtain ⟨h₁, h₂⟩ := h
  simp only [startCopy, endCopy]
  omega

theorem storeCells_of_meets (hdata : data ≠ []) (h : r.Meets data index) :
    r.storeCells data index =
      r.copyToAux data (r.startCopy index - index) (r.startCopy index % r.capacity)
        (r.endCopy data index - r.startCopy index) :=
  if_pos ⟨hdata, h⟩

theorem storeCells_of_not_meets (h : ¬(data ≠ [] ∧ r.Meets data index)) :
    r.storeCells data index = r :=
  if_neg h

@[simp] theorem storeCells_startAux : (r.storeCells data index).startAux = r.startAux := by
  unfold storeCells
  split <;> simp

@[simp] theorem storeCells_capacity : (r.storeCells data index).capacity = r.capacity := by
  unfold storeCells
  split <;> simp

@[simp] theorem storeCells_output : (r.storeCells data index).output = r.output := by
  unfold storeCells
  split <;> simp

theorem Wf.storeCells (hw : r.Wf) : (r.storeCells data index).Wf := by
  refine ⟨?_, ?_, ?_, ?_, ?_⟩
  · simpa using hw.capacity_pos
  · by_cases h : data ≠ [] ∧ r.Meets data index
    · rw [storeCells_of_meets h.1 h.2, copyToAux_capacity]
      exact length_empty_copyToAux hw.length_empty hw.capacity_pos endCopy_le
    · rw [storeCells_of_not_meets h]
      exact hw.length_empty
  · by_cases h : data ≠ [] ∧ r.Meets data index
    · rw [storeCells_of_meets h.1 h.2, copyToAux_capacity]
      exact le_length_aux_copyToAux hw.capacity_le_length_aux hw.capacity_pos endCopy_le
        (copy_le_length h.2)
    · rw [storeCells_of_not_meets h]
      exact hw.capacity_le_length_aux
  · simpa using hw.output_cap
  · simpa using hw.startAux_eq

/-- Storing makes the covered indices of the window held, and no others. -/
theorem held_storeCells_iff (hw : r.Wf) :
    (r.storeCells data index).Held i ↔
      r.Held i ∨ (r.startAux ≤ i ∧ i < r.startAux + r.capacity ∧
        index ≤ i ∧ i < index + data.length) := by
  have hpos := hw.capacity_pos
  unfold Held
  rw [storeCells_startAux, storeCells_capacity]
  by_cases h : data ≠ [] ∧ r.Meets data index
  · rw [storeCells_of_meets h.1 h.2, empty_copyToAux_iff hw.length_empty
      (startCopy_le_endCopy h.2) endCopy_le (Nat.mod_lt i hpos)]
    constructor
    · rintro ⟨hi, hi', ⟨j, hj, hj', hslot⟩ | hheld⟩
      · simp only [startCopy, endCopy] at hj hj'
        have hij := slot_injective (by omega) (by omega) hi hi' hslot
        exact Or.inr ⟨hi, hi', by omega, by omega⟩
      · exact Or.inl ⟨hi, hi', hheld⟩
    · rintro (⟨hi, hi', hheld⟩ | ⟨hi, hi', hin, hin'⟩)
      · exact ⟨hi, hi', Or.inr hheld⟩
      · refine ⟨hi, hi', Or.inl ⟨i, ?_, ?_, rfl⟩⟩
        · simp only [startCopy]
          omega
        · simp only [endCopy]
          omega
  · rw [storeCells_of_not_meets h]
    constructor
    · exact Or.inl
    · rintro (hheld | ⟨hi, hi', hin, hin'⟩)
      · exact hheld
      · exact absurd ⟨List.ne_nil_of_length_pos (by omega), by omega, by omega⟩ h

theorem bytesUnass_storeCells (hw : r.Wf) :
    (r.storeCells data index).bytesUnass + r.empty.count false =
      r.bytesUnass + (r.storeCells data index).empty.count false := by
  by_cases h : data ≠ [] ∧ r.Meets data index
  · rw [storeCells_of_meets h.1 h.2]
    exact bytesUnass_copyToAux hw.length_empty hw.capacity_pos endCopy_le
  · rw [storeCells_of_not_meets h]

/-- A clean substring is copied with its own bytes. -/
theorem aux_storeCells (hw : r.Wf) (hlen : r.aux.length = r.capacity)
    (hclean : r.StoresCleanly data index) (hi : r.startAux ≤ i)
    (hi' : i < r.startAux + r.capacity) :
    (r.storeCells data index).aux[i % r.capacity]? =
      if index ≤ i ∧ i < index + data.length then data[i - index]?
      else r.aux[i % r.capacity]? := by
  by_cases h : data ≠ [] ∧ r.Meets data index
  · have hcopy := aux_copyToAux hlen hw.capacity_pos (startCopy_le_endCopy h.2) endCopy_le
      (copy_le_length h.2) (fun hwrap ↦ ?_) (le_max_left r.startAux index)
      (min_le_left _ _) hi hi'
    · rw [storeCells_of_meets h.1 h.2, hcopy]
      have hiff : (r.startCopy index ≤ i ∧ i < r.endCopy data index) ↔
          (index ≤ i ∧ i < index + data.length) := by
        simp only [startCopy, endCopy]
        omega
      by_cases hin : index ≤ i ∧ i < index + data.length
      · rw [if_pos (hiff.mpr hin), if_pos hin]
        congr 1
        simp only [startCopy]
        omega
      · rw [if_neg (hin ∘ hiff.mp), if_neg hin]
    · have hin := hclean hwrap
      simp only [startCopy, endCopy]
      omega
  · rw [storeCells_of_not_meets h, if_neg]
    rintro ⟨hin, hin'⟩
    exact h ⟨List.ne_nil_of_length_pos (by omega), by omega, by omega⟩

theorem length_aux_storeCells (hw : r.Wf) (hlen : r.aux.length = r.capacity)
    (hclean : r.StoresCleanly data index) :
    (r.storeCells data index).aux.length = r.capacity := by
  by_cases h : data ≠ [] ∧ r.Meets data index
  · rw [storeCells_of_meets h.1 h.2]
    refine length_aux_copyToAux hlen hw.capacity_pos endCopy_le (copy_le_length h.2) ?_
    intro hwrap
    have hin := hclean hwrap
    simp only [startCopy, endCopy]
    omega
  · rw [storeCells_of_not_meets h, hlen]

end store

end Sponge.StreamReassembler
