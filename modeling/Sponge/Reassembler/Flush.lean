import Sponge.Reassembler.Store

/-!
# Flushing the ring

The flush writes the longest run of held indices that starts at the first
unassembled byte, as far as the output stream has room. It does so in two
passes, up to the end of the ring and from its start. The second pass marks
every cell before the starting one empty, so it also forgets the held indices
past the end of the ring that it does not write.
-/

namespace Sponge.StreamReassembler

open Lib

variable {r : StreamReassembler} {i : ℕ}

/-- The first index after the window's start whose cell is the first one of
the ring. -/
def ringEnd (r : StreamReassembler) : ℕ :=
  r.startAux + (r.capacity - r.startAux % r.capacity)

/-- Every index from the first unassembled byte to the end of the ring is held. -/
def ReachesEnd (r : StreamReassembler) : Prop :=
  ∀ i, r.startAux ≤ i → i < r.ringEnd → r.Held i

/-- The free space of the output stream. -/
def room (r : StreamReassembler) : ℕ :=
  r.output.cap - r.output.deq.length

/-- The bytes of `m` consecutive indices from the first unassembled one on. -/
def cellBytes (r : StreamReassembler) (m : ℕ) : List UInt8 :=
  (List.range m).map fun i ↦ r.aux.getD ((r.startAux + i) % r.capacity) 0

@[simp] theorem length_cellBytes (m : ℕ) : (r.cellBytes m).length = m := by
  simp [cellBytes]

/-- What a flush of `m` bytes does. -/
structure Flushed (r r' : StreamReassembler) (m : ℕ) : Prop where
  startAux : r'.startAux = r.startAux + m
  capacity : r'.capacity = r.capacity
  aux : r'.aux = r.aux
  endStream : r'.endStream = r.endStream
  ended : r'.output.ended = r.output.ended
  cap : r'.output.cap = r.output.cap
  bytesReaded : r'.output.bytesReaded = r.output.bytesReaded
  bytesWrote : r'.output.bytesWrote = r.output.bytesWrote + m
  deq : r'.output.deq = r.output.deq ++ r.cellBytes m
  length_empty : r'.empty.length = r.empty.length
  bytesUnass : m ≤ r.bytesUnass → r'.bytesUnass = r.bytesUnass - m
  le_room : m ≤ r.room
  held_of_lt : ∀ i < m, r.Held (r.startAux + i)
  not_held : m < r.room → ¬r.Held (r.startAux + m)
  held_iff : ∀ i, r'.Held i ↔
    r'.startAux ≤ i ∧ r.Held i ∧ ¬(r.ReachesEnd ∧ r.ringEnd ≤ i)

theorem Flushed.wf {r' : StreamReassembler} {m : ℕ} (h : Flushed r r' m) (hw : r.Wf) :
    r'.Wf where
  capacity_pos := h.capacity ▸ hw.capacity_pos
  length_empty := by rw [h.length_empty, h.capacity, hw.length_empty]
  capacity_le_length_aux := by
    rw [h.capacity, h.aux]
    exact hw.capacity_le_length_aux
  output_cap := by rw [h.cap, h.capacity, hw.output_cap]
  startAux_eq := by rw [h.startAux, h.bytesWrote, hw.startAux_eq]

section run

theorem le_itEnd : r.startAux % r.capacity ≤ r.itEnd :=
  le_findRange

theorem itEnd_le (hw : r.Wf) : r.itEnd ≤ r.capacity := by
  have hlt := Nat.mod_lt r.startAux hw.capacity_pos
  have hle := findRange_le (l := r.empty) (v := true)
    (show r.startAux % r.capacity ≤ r.empty.length by rw [hw.length_empty]; omega) le_rfl
  rw [hw.length_empty] at hle
  simpa only [itEnd, hw.length_empty] using hle

theorem empty_eq_false_of_ne {k : ℕ} (hk : k < r.empty.length)
    (hne : r.empty[k]? ≠ some true) : r.empty[k]? = some false := by
  rw [List.getElem?_eq_getElem hk] at hne ⊢
  cases h : r.empty[k] with
  | false => rfl
  | true => simp [h] at hne

theorem empty_of_lt_itEnd (hw : r.Wf) {k : ℕ} (hk : r.startAux % r.capacity ≤ k)
    (hk' : k < r.itEnd) : r.empty[k]? = some false := by
  have hle := itEnd_le hw
  exact empty_eq_false_of_ne (by rw [hw.length_empty]; omega)
    (getElem?_ne_of_lt_findRange hk hk')

theorem empty_itEnd (hw : r.Wf) (h : r.itEnd < r.capacity) :
    r.empty[r.itEnd]? = some true :=
  getElem?_findRange le_rfl (by simpa only [itEnd, hw.length_empty] using h)

theorem held_of_lt_itEnd (hw : r.Wf) (hi : r.startAux % r.capacity + i < r.itEnd) :
    r.Held (r.startAux + i) := by
  have hle := itEnd_le hw
  refine ⟨by omega, by omega, ?_⟩
  rw [slot_of_before_end (s := r.startAux) (by omega) (by omega), Nat.add_sub_cancel_left]
  exact empty_of_lt_itEnd hw (by omega) hi

theorem reachesEnd_iff (hw : r.Wf) : r.ReachesEnd ↔ r.itEnd = r.capacity := by
  have hlt := Nat.mod_lt r.startAux hw.capacity_pos
  have hle := itEnd_le hw
  have hstart := le_itEnd (r := r)
  constructor
  · intro h
    by_contra hne
    have hheld := h (r.startAux + (r.itEnd - r.startAux % r.capacity)) (by omega)
      (by simp only [ringEnd]; omega)
    have hslot : (r.startAux + (r.itEnd - r.startAux % r.capacity)) % r.capacity =
        r.itEnd := by
      rw [slot_of_before_end (s := r.startAux) (by omega) (by omega)]
      omega
    have hfalse := hheld.2.2
    rw [hslot, empty_itEnd hw (by omega)] at hfalse
    simp at hfalse
  · intro h i hi hi'
    simp only [ringEnd] at hi'
    have hheld := held_of_lt_itEnd (i := i - r.startAux) hw (by omega)
    rwa [Nat.add_sub_cancel' hi] at hheld

end run

section passes

theorem writeSize_substr {s : ByteStream} {aux : List UInt8} {pos len : ℕ}
    (h : pos + len ≤ aux.length) :
    s.writeSize (substr aux pos len) = min len (s.cap - s.deq.length) := by
  rw [ByteStream.writeSize, ByteStream.remainingCapacity_eq, length_substr h]

/-- The number of bytes the first pass writes. -/
def firstCount (r : StreamReassembler) : ℕ :=
  min (r.itEnd - r.startAux % r.capacity) r.room

theorem writeSize_firstRun (hw : r.Wf) :
    r.output.writeSize
      (substr r.aux (r.startAux % r.capacity) (r.itEnd - r.startAux % r.capacity)) =
      r.firstCount := by
  have hle := itEnd_le hw
  have haux := hw.capacity_le_length_aux
  have hstart := le_itEnd (r := r)
  exact writeSize_substr (by omega)

theorem flushToEnd_eq (hw : r.Wf) :
    r.flushToEnd =
      { r with
        output := r.output.write
          (substr r.aux (r.startAux % r.capacity) (r.itEnd - r.startAux % r.capacity))
        empty := fillRange r.empty (r.startAux % r.capacity)
          (r.startAux % r.capacity + r.firstCount) true
        startAux := r.startAux + r.firstCount
        bytesUnass := sub64 r.bytesUnass r.firstCount } := by
  simp only [flushToEnd, writeSize_firstRun hw]

/-- The bytes written before the end of the ring are a substring of the cells. -/
theorem substr_eq_cellBytes (hw : r.Wf) {n : ℕ} (h : r.startAux % r.capacity + n ≤ r.capacity) :
    substr r.aux (r.startAux % r.capacity) n = r.cellBytes n := by
  have haux := hw.capacity_le_length_aux
  rw [substr_eq_map_range 0 (by omega), cellBytes]
  apply List.map_congr_left
  intro i hi
  have hin := List.mem_range.mp hi
  rw [slot_of_before_end (s := r.startAux) (i := r.startAux + i) (by omega) (by omega),
    Nat.add_sub_cancel_left]

theorem firstCount_le : r.firstCount ≤ r.itEnd - r.startAux % r.capacity :=
  min_le_left _ _

theorem firstCount_le_room : r.firstCount ≤ r.room :=
  min_le_right _ _

theorem firstCount_eq_of_lt_room (h : r.firstCount < r.room) :
    r.firstCount = r.itEnd - r.startAux % r.capacity := by
  simp only [firstCount] at h ⊢
  omega

theorem deq_flushToEnd (hw : r.Wf) :
    r.flushToEnd.output.deq = r.output.deq ++ r.cellBytes r.firstCount := by
  have hle := itEnd_le hw
  have hstart := le_itEnd (r := r)
  have hcount := firstCount_le (r := r)
  rw [flushToEnd_eq hw]
  simp only [ByteStream.write_deq, writeSize_firstRun hw]
  rw [take_substr hcount, substr_eq_cellBytes hw (by omega)]

theorem empty_flushToEnd (hw : r.Wf) (k : ℕ) :
    r.flushToEnd.empty[k]? =
      if r.startAux % r.capacity ≤ k ∧ k < r.startAux % r.capacity + r.firstCount then
        some true
      else r.empty[k]? := by
  have hle := itEnd_le hw
  have hcount := firstCount_le (r := r)
  have hstart := le_itEnd (r := r)
  have hlen := hw.length_empty
  rw [flushToEnd_eq hw]
  exact getElem?_fillRange (by omega) (by omega) k

/-- An index more than one turn of the ring ahead shares the cell of a flushed one. -/
theorem slot_of_next_turn {s c n : ℕ} (hi : s + c ≤ i) (hi' : i < s + c + n)
    (hn : s % c + n ≤ c) : i % c = s % c + (i - c - s) := by
  rw [Nat.mod_eq_sub_mod (by omega), slot_of_before_end (s := s) (by omega) (by omega)]

/-- One pass keeps what is held past its bytes. -/
theorem held_flushToEnd_iff (hw : r.Wf) (h : r.itEnd < r.capacity) (i : ℕ) :
    r.flushToEnd.Held i ↔
      r.flushToEnd.startAux ≤ i ∧ r.Held i ∧ ¬(r.ReachesEnd ∧ r.ringEnd ≤ i) := by
  have hstart := le_itEnd (r := r)
  have hcount := firstCount_le (r := r)
  have hnot : ¬r.ReachesEnd := fun hr ↦ by
    have := (reachesEnd_iff hw).mp hr
    omega
  have heq := flushToEnd_eq hw
  have hs : r.flushToEnd.startAux = r.startAux + r.firstCount := by rw [heq]
  have hc : r.flushToEnd.capacity = r.capacity := by rw [heq]
  simp only [Held, hs, hc, empty_flushToEnd hw]
  constructor
  · rintro ⟨hi, hi', hcell⟩
    split_ifs at hcell with hin
    · simp at hcell
    · refine ⟨hi, ⟨by omega, ?_, hcell⟩, fun hr ↦ hnot hr.1⟩
      by_contra hge
      have hslot := slot_of_next_turn (s := r.startAux) (c := r.capacity)
        (n := r.firstCount) (i := i) (by omega) (by omega) (by omega)
      omega
  · rintro ⟨hi, ⟨hi₁, hi₂, hcell⟩, -⟩
    refine ⟨hi, by omega, ?_⟩
    rw [if_neg, hcell]
    rintro ⟨hk, hk'⟩
    rcases lt_or_ge (r.startAux % r.capacity + (i - r.startAux)) r.capacity with hb | hb
    · rw [slot_of_before_end hi₁ hb] at hk'
      omega
    · rw [slot_of_past_end hi₁ hb hi₂] at hk
      omega

/-- The flush ends before the end of the ring: one pass. -/
theorem flushed_of_itEnd_lt (hw : r.Wf) (h : r.itEnd < r.capacity) :
    Flushed r r.flushToEnd r.firstCount := by
  have hstart := le_itEnd (r := r)
  have hcount := firstCount_le (r := r)
  have hlen := hw.length_empty
  have heq := flushToEnd_eq hw
  constructor
  case deq => exact deq_flushToEnd hw
  case le_room => exact firstCount_le_room
  case held_of_lt =>
    intro i hi
    exact held_of_lt_itEnd hw (by omega)
  case not_held =>
    intro hroom hheld
    have hfull := firstCount_eq_of_lt_room hroom
    have hslot : (r.startAux + r.firstCount) % r.capacity = r.itEnd := by
      rw [slot_of_before_end (s := r.startAux) (by omega) (by omega)]
      omega
    have hfalse := hheld.2.2
    rw [hslot, empty_itEnd hw h] at hfalse
    simp at hfalse
  case held_iff => exact held_flushToEnd_iff hw h
  all_goals rw [heq]
  case bytesUnass =>
    intro hle
    exact sub64_of_le hle
  case bytesWrote =>
    simp only [ByteStream.write_bytesWrote, writeSize_firstRun hw]
  case length_empty => exact length_fillRange (by omega) (by omega)
  all_goals rfl

/-- The end of the run of occupied cells at the start of the ring. -/
def wrapEnd (r : StreamReassembler) : ℕ :=
  findRange r.flushToEnd.empty 0 (r.startAux % r.capacity) true

/-- The number of bytes the second pass writes. -/
def secondCount (r : StreamReassembler) : ℕ :=
  min r.wrapEnd (r.room - r.firstCount)

theorem length_empty_flushToEnd (hw : r.Wf) : r.flushToEnd.empty.length = r.capacity := by
  have hle := itEnd_le hw
  have hcount := firstCount_le (r := r)
  have hstart := le_itEnd (r := r)
  have hlen := hw.length_empty
  rw [flushToEnd_eq hw]
  exact (length_fillRange (by omega) (by omega)).trans hlen

theorem wrapEnd_le (hw : r.Wf) : r.wrapEnd ≤ r.startAux % r.capacity := by
  have hlt := Nat.mod_lt r.startAux hw.capacity_pos
  exact findRange_le (Nat.zero_le _) (by rw [length_empty_flushToEnd hw]; omega)

/-- The first pass does not touch the cells before the starting one. -/
theorem empty_flushToEnd_of_lt (hw : r.Wf) {k : ℕ} (hk : k < r.startAux % r.capacity) :
    r.flushToEnd.empty[k]? = r.empty[k]? := by
  rw [empty_flushToEnd hw, if_neg (by omega)]

theorem empty_of_lt_wrapEnd (hw : r.Wf) {k : ℕ} (hk : k < r.wrapEnd) :
    r.empty[k]? = some false := by
  have hlt := Nat.mod_lt r.startAux hw.capacity_pos
  have hle := wrapEnd_le hw
  have hne := getElem?_ne_of_lt_findRange (Nat.zero_le k) hk
  rw [empty_flushToEnd_of_lt hw (by omega)] at hne
  exact empty_eq_false_of_ne (by rw [hw.length_empty]; omega) hne

theorem empty_wrapEnd (hw : r.Wf) (h : r.wrapEnd < r.startAux % r.capacity) :
    r.empty[r.wrapEnd]? = some true := by
  have hlt := Nat.mod_lt r.startAux hw.capacity_pos
  rw [← empty_flushToEnd_of_lt hw h]
  exact getElem?_findRange (by rw [length_empty_flushToEnd hw]; omega) h

theorem room_flushToEnd (hw : r.Wf) :
    r.flushToEnd.output.cap - r.flushToEnd.output.deq.length = r.room - r.firstCount := by
  have hcap : r.flushToEnd.output.cap = r.output.cap := by rw [flushToEnd_eq hw]; rfl
  rw [hcap, deq_flushToEnd hw, List.length_append, length_cellBytes, room]
  omega

theorem writeSize_secondRun (hw : r.Wf) :
    r.flushToEnd.output.writeSize (substr r.aux 0 r.wrapEnd) = r.secondCount := by
  have hle := wrapEnd_le hw
  have hlt := Nat.mod_lt r.startAux hw.capacity_pos
  have haux := hw.capacity_le_length_aux
  rw [writeSize_substr (by omega), room_flushToEnd hw, secondCount]

/-- The second pass, with its counts named. -/
theorem flushFromStart_eq (hw : r.Wf) :
    r.flushToEnd.flushFromStart (r.startAux % r.capacity) =
      { r.flushToEnd with
        output := r.flushToEnd.output.write (substr r.aux 0 r.wrapEnd)
        empty := fillRange r.flushToEnd.empty 0 (r.startAux % r.capacity) true
        startAux := r.startAux + r.firstCount + r.secondCount
        bytesUnass := sub64 (sub64 r.bytesUnass r.firstCount) r.secondCount } := by
  have hauxeq : r.flushToEnd.aux = r.aux := by rw [flushToEnd_eq hw]
  have hs : r.flushToEnd.startAux = r.startAux + r.firstCount := by rw [flushToEnd_eq hw]
  have hu : r.flushToEnd.bytesUnass = sub64 r.bytesUnass r.firstCount := by
    rw [flushToEnd_eq hw]
  simp only [flushFromStart, ← wrapEnd.eq_def, hauxeq, writeSize_secondRun hw, hs, hu]

/-- If the second pass writes anything, the first one emptied its run. -/
theorem firstCount_eq_of_secondCount_pos (h : 0 < r.secondCount) :
    r.firstCount = r.itEnd - r.startAux % r.capacity := by
  have hroom : r.secondCount ≤ r.room - r.firstCount := min_le_right _ _
  exact firstCount_eq_of_lt_room (by omega)

theorem cellBytes_add (hw : r.Wf) {n k : ℕ} (hn : r.startAux % r.capacity + n = r.capacity)
    (hk : k ≤ r.startAux % r.capacity) :
    r.cellBytes (n + k) = r.cellBytes n ++ substr r.aux 0 k := by
  have hlt := Nat.mod_lt r.startAux hw.capacity_pos
  have haux := hw.capacity_le_length_aux
  rw [substr_eq_map_range 0 (by omega), cellBytes, cellBytes, List.range_add, List.map_append,
    List.map_map]
  congr 1
  apply List.map_congr_left
  intro i hi
  have hin := List.mem_range.mp hi
  simp only [Function.comp_apply]
  rw [slot_of_past_end (s := r.startAux) (i := r.startAux + (n + i)) (by omega) (by omega)
    (by omega)]
  congr 1
  omega

theorem deq_flushFromStart (hw : r.Wf) (h : r.itEnd = r.capacity) :
    (r.flushToEnd.flushFromStart (r.startAux % r.capacity)).output.deq =
      r.output.deq ++ r.cellBytes (r.firstCount + r.secondCount) := by
  have hle := wrapEnd_le hw
  have hlt := Nat.mod_lt r.startAux hw.capacity_pos
  have hsecond : r.secondCount ≤ r.wrapEnd := min_le_left _ _
  rw [flushFromStart_eq hw]
  simp only [ByteStream.write_deq, writeSize_secondRun hw, deq_flushToEnd hw]
  change _ ++ List.take r.secondCount _ = _
  rw [take_substr hsecond, List.append_assoc]
  congr 1
  rcases Nat.eq_zero_or_pos r.secondCount with hzero | hpos
  · rw [hzero]
    simp [substr]
  · have hfull := firstCount_eq_of_secondCount_pos hpos
    have hstart := le_itEnd (r := r)
    rw [cellBytes_add hw (by omega) (by omega)]

theorem empty_flushFromStart (hw : r.Wf) (k : ℕ) :
    (r.flushToEnd.flushFromStart (r.startAux % r.capacity)).empty[k]? =
      if k < r.startAux % r.capacity + r.firstCount then some true else r.empty[k]? := by
  have hlt := Nat.mod_lt r.startAux hw.capacity_pos
  rw [flushFromStart_eq hw]
  simp only
  rw [getElem?_fillRange (Nat.zero_le _) (by rw [length_empty_flushToEnd hw]; omega),
    empty_flushToEnd hw]
  split_ifs <;> first | rfl | omega

/-- The index after the bytes of both passes is not held if they left room. -/
theorem not_held_of_both_passes (hw : r.Wf) (h : r.itEnd = r.capacity)
    (hroom : r.firstCount + r.secondCount < r.room) :
    ¬r.Held (r.startAux + (r.firstCount + r.secondCount)) := by
  intro hheld
  have hlt := Nat.mod_lt r.startAux hw.capacity_pos
  have hstart := le_itEnd (r := r)
  have hone := firstCount_eq_of_lt_room (r := r) (by omega)
  have htwo : r.secondCount = r.wrapEnd := by
    simp only [secondCount] at hroom ⊢
    omega
  have hin := hheld.2.1
  have hslot : (r.startAux + (r.firstCount + r.secondCount)) % r.capacity = r.wrapEnd := by
    rw [slot_of_past_end (s := r.startAux) (by omega) (by omega) (by omega)]
    omega
  have hfalse := hheld.2.2
  rw [hslot, empty_wrapEnd hw (by omega)] at hfalse
  simp at hfalse

/-- Both passes keep what is held past their bytes and before the end of the ring. -/
theorem held_flushFromStart_iff (hw : r.Wf) (h : r.itEnd = r.capacity) (i : ℕ) :
    (r.flushToEnd.flushFromStart (r.startAux % r.capacity)).Held i ↔
      (r.flushToEnd.flushFromStart (r.startAux % r.capacity)).startAux ≤ i ∧ r.Held i ∧
        ¬(r.ReachesEnd ∧ r.ringEnd ≤ i) := by
  have hlt := Nat.mod_lt r.startAux hw.capacity_pos
  have hstart := le_itEnd (r := r)
  have hcount := firstCount_le (r := r)
  have hwrap := wrapEnd_le hw
  have hsecond : r.secondCount ≤ r.wrapEnd := min_le_left _ _
  have hfull := firstCount_eq_of_secondCount_pos (r := r)
  have heq := flushFromStart_eq hw
  have hreach : r.ReachesEnd := (reachesEnd_iff hw).mpr h
  have hs : (r.flushToEnd.flushFromStart (r.startAux % r.capacity)).startAux =
      r.startAux + r.firstCount + r.secondCount := by rw [heq]
  have hc : (r.flushToEnd.flushFromStart (r.startAux % r.capacity)).capacity =
      r.capacity := by rw [heq, flushToEnd_eq hw]
  simp only [Held, hs, hc, empty_flushFromStart hw, ringEnd, hreach, true_and, not_le]
  constructor
  · rintro ⟨hi, hi', hcell⟩
    split_ifs at hcell with hin
    · simp at hcell
    · -- The cell lies past those of the first pass, so the index has not
      -- wrapped: wrapped indices have their cells before the starting one.
      have hturn : i < r.startAux + r.capacity := by
        by_contra hge
        have hmod : i % r.capacity = (i - r.capacity) % r.capacity :=
          Nat.mod_eq_sub_mod (by omega)
        rcases lt_or_ge (r.startAux % r.capacity + (i - r.capacity - r.startAux))
          r.capacity with hb | hb
        · rw [hmod, slot_of_before_end (s := r.startAux) (by omega) hb] at hin
          omega
        · rw [hmod, slot_of_past_end (s := r.startAux) (by omega) hb (by omega)] at hin
          omega
      refine ⟨hi, ⟨by omega, hturn, hcell⟩, ?_⟩
      by_contra hge
      rw [slot_of_past_end (s := r.startAux) (by omega) (by omega) hturn] at hin
      omega
  · rintro ⟨hi, ⟨hi₁, hi₂, hcell⟩, hend⟩
    refine ⟨hi, by omega, ?_⟩
    rw [if_neg, hcell]
    rw [slot_of_before_end (s := r.startAux) (by omega) (by omega)]
    omega

/-- The run reaches the end of the ring: both passes. -/
theorem flushed_of_itEnd_eq (hw : r.Wf) (h : r.itEnd = r.capacity) :
    Flushed r (r.flushToEnd.flushFromStart (r.startAux % r.capacity))
      (r.firstCount + r.secondCount) := by
  have hlt := Nat.mod_lt r.startAux hw.capacity_pos
  have hcount := firstCount_le (r := r)
  have hroom := firstCount_le_room (r := r)
  have hwrap := wrapEnd_le hw
  have hsecond : r.secondCount ≤ r.wrapEnd := min_le_left _ _
  have hsecondRoom : r.secondCount ≤ r.room - r.firstCount := min_le_right _ _
  have hfull := firstCount_eq_of_secondCount_pos (r := r)
  have hlen := length_empty_flushToEnd hw
  have heq := flushFromStart_eq hw
  have hfirst := flushToEnd_eq hw
  constructor
  case deq => exact deq_flushFromStart hw h
  case le_room => omega
  case held_of_lt =>
    intro i hi
    rcases lt_or_ge i r.firstCount with hi' | hi'
    · exact held_of_lt_itEnd hw (by omega)
    · refine ⟨by omega, by omega, ?_⟩
      rw [slot_of_past_end (s := r.startAux) (by omega) (by omega) (by omega)]
      exact empty_of_lt_wrapEnd hw (by omega)
  case not_held => exact not_held_of_both_passes hw h
  case held_iff => exact held_flushFromStart_iff hw h
  all_goals rw [heq]
  case startAux => exact Nat.add_assoc _ _ _
  case bytesUnass =>
    intro hle
    simp only
    rw [sub64_of_le (a := r.bytesUnass) (by omega), sub64_of_le (by omega)]
    omega
  case bytesWrote =>
    have hwrote : r.flushToEnd.output.bytesWrote = r.output.bytesWrote + r.firstCount := by
      rw [hfirst]
      simp only [ByteStream.write_bytesWrote, writeSize_firstRun hw]
    simp only [ByteStream.write_bytesWrote, writeSize_secondRun hw, hwrote]
    exact Nat.add_assoc _ _ _
  case length_empty =>
    rw [hw.length_empty]
    exact (length_fillRange (Nat.zero_le _) (by omega)).trans hlen
  all_goals rw [hfirst]
  all_goals rfl

end passes

theorem exists_flushed (hw : r.Wf) : ∃ m, Flushed r r.writeToBytestream m := by
  unfold writeToBytestream
  rcases Nat.lt_or_eq_of_le (itEnd_le hw) with h | h
  · rw [if_neg (by rw [hw.length_empty]; omega)]
    exact ⟨_, flushed_of_itEnd_lt hw h⟩
  · rw [if_pos (by rw [hw.length_empty]; omega)]
    exact ⟨_, flushed_of_itEnd_eq hw h⟩

end Sponge.StreamReassembler
