import Sponge.Lib.Checked
import Sponge.Reassembler.Occupancy

/-!
# The arithmetic of the reassembler

The reassembler once more, with its sums in 64 bits and every difference, every
range of the cells and every position in a string checked. The counter of
unassembled bytes is at least the number of occupied cells and at most the
number of bytes pushed, so it never goes below zero before it runs over.
-/

namespace Sponge.StreamReassembler

open Lib

variable {r r' : StreamReassembler} {data : List UInt8} {index c m t : ℕ} {eof : Bool}

def checkedCopyToAux (r : StreamReassembler) (data : List UInt8) (locData locAux size : ℕ) :
    Except Fault StreamReassembler :=
  if add64 locAux size ≤ r.capacity then do
    let countEmpty ← checkedCount r.empty locAux (locAux + size)
    let aux ← checkedReplace r.aux locAux size (← checkedSubstr data locData size)
    let empty ← checkedFill r.empty locAux (locAux + size) false
    return { r with aux, bytesUnass := add64 r.bytesUnass countEmpty, empty }
  else do
    let sizeLeft ← checkedSub (add64 locAux size) r.capacity
    let countRight ← checkedCount r.empty locAux r.empty.length
    let countLeft ← checkedCount r.empty 0 sizeLeft
    let countEmpty ← checkedInt (countRight + countLeft)
    let sizeRight ← checkedSub r.capacity locAux
    let aux ← checkedReplace r.aux locAux sizeRight (← checkedSubstr data locData sizeRight)
    let aux ← checkedReplace aux 0 sizeLeft (← checkedSubstr data sizeRight size)
    let empty ← checkedFill r.empty locAux r.empty.length false
    let empty ← checkedFill empty 0 sizeLeft false
    return { r with aux, bytesUnass := add64 r.bytesUnass countEmpty, empty }

def checkedWriteToAux (r : StreamReassembler) (data : List UInt8) (startData : ℕ) (eof : Bool) :
    Except Fault StreamReassembler :=
  if data.length = 0 then
    return if eof then { r with output := r.output.endInput } else r
  else
    let endAux := add64 r.startAux r.capacity
    let endData := add64 startData data.length
    if startData > endAux ∨ endData < r.startAux then return r
    else do
      let startCopy := max r.startAux startData
      let endCopy := min endAux endData
      let size ← checkedSub endCopy startCopy
      let locData ← checkedSub startCopy startData
      let locAux := startCopy % r.capacity
      let stored ← r.checkedCopyToAux data locData locAux size
      return if eof then { stored with endStream := endData } else stored

def checkedFlushToEnd (r : StreamReassembler) : Except Fault StreamReassembler := do
  let start := r.startAux % r.capacity
  let itEnd ← checkedFind r.empty start r.empty.length true
  let data ← checkedSubstr r.aux start (← checkedSub itEnd start)
  let numWrote := r.output.writeSize data
  let empty ← checkedFill r.empty start (start + numWrote) true
  let bytesUnass ← checkedSub r.bytesUnass numWrote
  return { r with
    output := r.output.write data
    empty
    startAux := add64 r.startAux numWrote
    bytesUnass }

def checkedFlushFromStart (r : StreamReassembler) (itStart : ℕ) :
    Except Fault StreamReassembler := do
  let itEnd ← checkedFind r.empty 0 itStart true
  let data ← checkedSubstr r.aux 0 itEnd
  let numWrote := r.output.writeSize data
  let empty ← checkedFill r.empty 0 itStart true
  let bytesUnass ← checkedSub r.bytesUnass numWrote
  return { r with
    output := r.output.write data
    empty
    startAux := add64 r.startAux numWrote
    bytesUnass }

def checkedWriteToBytestream (r : StreamReassembler) : Except Fault StreamReassembler := do
  let flushed ← r.checkedFlushToEnd
  if r.itEnd = r.empty.length then flushed.checkedFlushFromStart (r.startAux % r.capacity)
  else return flushed

def checkedPushSubstring (r : StreamReassembler) (data : List UInt8) (index : ℕ) (eof : Bool) :
    Except Fault StreamReassembler := do
  let r ← r.checkedWriteToAux data index eof
  let r ← r.checkedWriteToBytestream
  let r := { r with eofSeen := if r.eofSeen then true else eof }
  return if r.startAux = r.endStream then { r with output := r.output.endInput } else r

def checkedStep (r : StreamReassembler) : SubstringOp → Except Fault StreamReassembler
  | .push data index eof => r.checkedPushSubstring data index eof
  | .read len => return r.readOutput len

section store

variable {loc a b : ℕ}

theorem checkedCopyToAux_eq (hw : r.Wf) (hba : b ≤ a + r.capacity)
    (hdata : loc + (b - a) ≤ data.length) (hint : b - a < 2 ^ 31)
    (hsum : r.capacity + (b - a) < 2 ^ 64) (hunass : r.bytesUnass + (b - a) < 2 ^ 64) :
    r.checkedCopyToAux data loc (a % r.capacity) (b - a) =
      .ok (r.copyToAux data loc (a % r.capacity) (b - a)) := by
  have hlt := Nat.mod_lt a hw.capacity_pos
  have hlen := hw.length_empty
  have haux := hw.capacity_le_length_aux
  rw [checkedCopyToAux, copyToAux, add64_of_lt (by omega)]
  by_cases hfit : a % r.capacity + (b - a) ≤ r.capacity
  · have hcount := countRange_le r.empty (a % r.capacity) (a % r.capacity + (b - a))
    rw [if_pos hfit, if_pos hfit, checkedCount_of_le (by omega) (by omega)]
    refine (bind_of_eq (checkedInt_of_lt (by omega))).trans ?_
    refine (bind_of_eq (checkedSubstr_of_le (by omega) _)).trans ?_
    refine (bind_of_eq (checkedReplace_of_le (by omega) _ _)).trans ?_
    refine (bind_of_eq (checkedFill_of_le (by omega) (by omega) _)).trans ?_
    rw [add64_of_lt (by omega)]
    rfl
  · have hright := countRange_le r.empty (a % r.capacity) r.empty.length
    have hleft := countRange_le r.empty 0 (a % r.capacity + (b - a) - r.capacity)
    rw [if_neg hfit, if_neg hfit, checkedCount_of_le (by omega) le_rfl]
    refine (bind_of_eq (checkedSub_of_le (by omega))).trans ?_
    rw [checkedCount_of_le (Nat.zero_le _) (by omega)]
    refine (bind_of_eq (checkedInt_of_lt (by omega))).trans ?_
    refine (bind_of_eq (checkedInt_of_lt (by omega))).trans ?_
    refine (bind_of_eq (checkedInt_of_lt (by omega))).trans ?_
    refine (bind_of_eq (checkedSub_of_le (by omega))).trans ?_
    refine (bind_of_eq (checkedSubstr_of_le (by omega) _)).trans ?_
    refine (bind_of_eq (checkedReplace_of_le (by omega) _ _)).trans ?_
    refine (bind_of_eq (checkedSubstr_of_le (by omega) _)).trans ?_
    refine (bind_of_eq (checkedReplace_of_le (Nat.zero_le _) _ _)).trans ?_
    refine (bind_of_eq (checkedFill_of_le (by omega) le_rfl _)).trans ?_
    refine (bind_of_eq (checkedFill_of_le (Nat.zero_le _) ?_ _)).trans ?_
    · rw [length_fillRange (by omega) le_rfl]
      omega
    rw [add64_of_lt (by omega)]
    rfl

/-- The counter grows at most by the number of copied bytes. -/
theorem bytesUnass_copyToAux_le (hw : r.Wf) :
    (r.copyToAux data loc (a % r.capacity) (b - a)).bytesUnass ≤ r.bytesUnass + (b - a) := by
  have hlt := Nat.mod_lt a hw.capacity_pos
  have hlen := hw.length_empty
  rw [copyToAux]
  split_ifs with hfit
  · have hcount := countRange_le r.empty (a % r.capacity) (a % r.capacity + (b - a))
    simp only
    omega
  · have hright := countRange_le r.empty (a % r.capacity) r.empty.length
    have hleft := countRange_le r.empty 0 (a % r.capacity + (b - a) - r.capacity)
    simp only
    omega

theorem bytesUnass_storeCells_le (hw : r.Wf) (data : List UInt8) (index : ℕ) :
    (r.storeCells data index).bytesUnass ≤ r.bytesUnass + data.length := by
  by_cases h : data ≠ [] ∧ r.Meets data index
  · have hle := copy_le_length h.2
    rw [storeCells_of_meets h.1 h.2]
    exact (bytesUnass_copyToAux_le hw).trans (by omega)
  · rw [storeCells_of_not_meets h]
    exact Nat.le_add_right _ _

theorem checkedWriteToAux_eq (hw : r.Wf)
    (hfits : r.startAux + r.capacity + data.length < 2 ^ 64) (hindex : index < 2 ^ 64)
    (hint : min r.capacity data.length < 2 ^ 31) (hunass : r.bytesUnass + data.length < 2 ^ 64) :
    r.checkedWriteToAux data index eof = .ok (r.writeToAux data index eof) := by
  rw [checkedWriteToAux, writeToAux, add64_of_lt (a := r.startAux) (by omega)]
  by_cases hnil : data.length = 0
  · rw [if_pos hnil, if_pos hnil]
    rfl
  rw [if_neg hnil, if_neg hnil]
  by_cases hout : index > r.startAux + r.capacity ∨ add64 index data.length < r.startAux
  · rw [if_pos hout, if_pos hout]
    rfl
  rw [if_neg hout, if_neg hout]
  rw [not_or, add64_of_lt (by omega)] at hout
  dsimp only
  rw [add64_of_lt (by omega), sub64_of_le (by omega), sub64_of_le (by omega)]
  refine (bind_of_eq (checkedSub_of_le (by omega))).trans ?_
  refine (bind_of_eq (checkedSub_of_le (by omega))).trans ?_
  refine (bind_of_eq (checkedCopyToAux_eq hw ?_ ?_ ?_ ?_ ?_)).trans rfl
  all_goals omega

end store

section flush

/-- A flush frees at least the cells whose bytes it writes. -/
theorem Flushed.count_add_le (h : Flushed r r' m) (hw : r.Wf) :
    r'.empty.count false + m ≤ r.empty.count false := by
  rw [count_false_empty (h.wf hw), count_false_empty hw]
  have hdisjoint : Disjoint r'.heldSet (Finset.Ico r.startAux (r.startAux + m)) := by
    rw [Finset.disjoint_left]
    intro i hi hin
    have hstart := (mem_heldSet.mp hi).1
    rw [h.startAux] at hstart
    exact absurd (Finset.mem_Ico.mp hin).2 (not_lt.mpr hstart)
  have hsub : r'.heldSet ∪ Finset.Ico r.startAux (r.startAux + m) ⊆ r.heldSet := by
    refine Finset.union_subset (fun i hi ↦ ?_) (Ico_subset_heldSet h.held_of_lt)
    exact mem_heldSet.mpr ((h.held_iff i).mp (mem_heldSet.mp hi)).2.1
  have hcard := Finset.card_le_card hsub
  rwa [Finset.card_union_of_disjoint hdisjoint, Nat.card_Ico, Nat.add_sub_cancel_left] at hcard

theorem checkedFlushToEnd_eq (hw : r.Wf) (hunass : r.firstCount ≤ r.bytesUnass)
    (hsum : r.startAux + r.capacity < 2 ^ 64) :
    r.checkedFlushToEnd = .ok r.flushToEnd := by
  have hlt := Nat.mod_lt r.startAux hw.capacity_pos
  have hlen := hw.length_empty
  have haux := hw.capacity_le_length_aux
  have hstart := le_itEnd (r := r)
  have hend := itEnd_le hw
  have hcount := firstCount_le (r := r)
  refine (bind_of_eq (checkedFind_of_le (by omega) le_rfl true)).trans ?_
  refine (bind_of_eq (checkedSub_of_le hstart)).trans ?_
  refine (bind_of_eq (checkedSubstr_of_le (by omega) _)).trans ?_
  rw [flushToEnd]
  simp only [writeSize_firstRun hw]
  refine (bind_of_eq (checkedFill_of_le (by omega) (by omega) _)).trans ?_
  refine (bind_of_eq (checkedSub_of_le hunass)).trans ?_
  rw [add64_of_lt (by omega), sub64_of_le hunass]
  rfl

theorem checkedFlushFromStart_eq (hw : r.Wf)
    (hunass : r.firstCount + r.secondCount ≤ r.bytesUnass)
    (hsum : r.startAux + r.capacity < 2 ^ 64) :
    r.flushToEnd.checkedFlushFromStart (r.startAux % r.capacity) =
      .ok (r.flushToEnd.flushFromStart (r.startAux % r.capacity)) := by
  have hlt := Nat.mod_lt r.startAux hw.capacity_pos
  have hlen := length_empty_flushToEnd hw
  have hstart := le_itEnd (r := r)
  have hend := itEnd_le hw
  have hcount := firstCount_le (r := r)
  have hwrap := wrapEnd_le hw
  have hsecond : r.secondCount ≤ r.wrapEnd := min_le_left _ _
  have hfirst := flushToEnd_eq hw
  have hs : r.flushToEnd.startAux = r.startAux + r.firstCount := by rw [hfirst]
  have hb : r.flushToEnd.bytesUnass = r.bytesUnass - r.firstCount := by
    rw [hfirst]
    exact sub64_of_le (by omega)
  have hwrote : r.flushToEnd.output.writeSize (substr r.flushToEnd.aux 0 r.wrapEnd) =
      r.secondCount := by
    rw [show r.flushToEnd.aux = r.aux by rw [hfirst]]
    exact writeSize_secondRun hw
  refine (bind_of_eq (checkedFind_of_le (Nat.zero_le _) (by omega) true)).trans ?_
  refine (bind_of_eq (checkedSubstr_of_le (Nat.zero_le _) _)).trans ?_
  rw [flushFromStart]
  simp only [← wrapEnd.eq_def, hwrote]
  refine (bind_of_eq (checkedFill_of_le (Nat.zero_le _) (by omega) _)).trans ?_
  refine (bind_of_eq (checkedSub_of_le (by omega))).trans ?_
  rw [add64_of_lt (by omega), sub64_of_le (by omega)]
  rfl

theorem checkedWriteToBytestream_eq (hw : r.Wf) (hunass : r.empty.count false ≤ r.bytesUnass)
    (hsum : r.startAux + r.capacity < 2 ^ 64) :
    r.checkedWriteToBytestream = .ok r.writeToBytestream := by
  have hlen := hw.length_empty
  rw [writeToBytestream]
  rcases Nat.lt_or_eq_of_le (itEnd_le hw) with h | h
  · have hcount := (flushed_of_itEnd_lt hw h).count_add_le hw
    refine (bind_of_eq (checkedFlushToEnd_eq hw (by omega) hsum)).trans ?_
    rw [if_neg (by omega), if_neg (by omega)]
    rfl
  · have hcount := (flushed_of_itEnd_eq hw h).count_add_le hw
    refine (bind_of_eq (checkedFlushToEnd_eq hw (by omega) hsum)).trans ?_
    rw [if_pos (by omega), if_pos (by omega)]
    exact checkedFlushFromStart_eq hw (by omega) hsum

end flush

/-- The counter lies between the occupied cells and the bytes pushed so far. -/
structure Sound (r : StreamReassembler) (t : ℕ) : Prop where
  wf : r.Wf
  count_le : r.empty.count false ≤ r.bytesUnass
  bytesUnass_le : r.bytesUnass ≤ t

namespace Sound

theorem new (hc : 1 ≤ c) : (new c).Sound 0 where
  wf := wf_new hc
  count_le := by simp [StreamReassembler.new, List.count_replicate]
  bytesUnass_le := le_rfl

theorem frame (h : r.Sound t) {output : ByteStream} {endStream : ℕ} {eofSeen : Bool}
    (hcap : output.cap = r.output.cap) (hwrote : output.bytesWrote = r.output.bytesWrote) :
    Sound { r with output := output, endStream := endStream, eofSeen := eofSeen } t :=
  ⟨h.wf.frame hcap hwrote, h.count_le, h.bytesUnass_le⟩

theorem storeCells (h : r.Sound t) : (r.storeCells data index).Sound (t + data.length) := by
  have hcount : (r.storeCells data index).bytesUnass + r.empty.count false =
      r.bytesUnass + (r.storeCells data index).empty.count false := bytesUnass_storeCells h.wf
  have hold := h.count_le
  exact ⟨h.wf.storeCells, by omega,
    (bytesUnass_storeCells_le h.wf data index).trans (Nat.add_le_add_right h.bytesUnass_le _)⟩

theorem writeToAux (h : r.Sound t) (hfits : r.startAux + r.capacity + data.length < 2 ^ 64)
    (index : ℕ) (eof : Bool) : (r.writeToAux data index eof).Sound (t + data.length) := by
  rw [writeToAux_eq fun _ ↦ by omega]
  exact h.storeCells.frame (by simp) (by simp)

theorem writeToBytestream (h : r.Sound t) : r.writeToBytestream.Sound t := by
  obtain ⟨m, hm⟩ := exists_flushed h.wf
  have hcount := hm.count_add_le h.wf
  have hold := h.count_le
  have hunass := hm.bytesUnass (by omega)
  exact ⟨hm.wf h.wf, by omega, by have := h.bytesUnass_le; omega⟩

end Sound

theorem writeToAux_startAux : (r.writeToAux data index eof).startAux = r.startAux := by
  simp only [writeToAux]
  split_ifs
  all_goals simp

theorem writeToAux_capacity : (r.writeToAux data index eof).capacity = r.capacity := by
  simp only [writeToAux]
  split_ifs
  all_goals simp

/-- The operation counts from a 64-bit index, and neither the window nor its data runs over. -/
def Addressable (r : StreamReassembler) : SubstringOp → Prop
  | .push data index _ =>
      index < 2 ^ 64 ∧ r.streamOut.bytesWritten + r.capacity + data.length < 2 ^ 64
  | .read _ => True

instance (r : StreamReassembler) : (op : SubstringOp) → Decidable (r.Addressable op)
  | .push data index _ => inferInstanceAs (Decidable (index < 2 ^ 64 ∧
      r.streamOut.bytesWritten + r.capacity + data.length < 2 ^ 64))
  | .read _ => .isTrue trivial

/-- The bytes that an operation pushes. -/
def pushed : SubstringOp → ℕ
  | .push data _ _ => data.length
  | .read _ => 0

/-- One operation meets no fault and keeps the counter where it belongs. -/
theorem checkedStep_eq (h : r.Sound t) {op : SubstringOp} (hop : r.Addressable op)
    (hint : min r.capacity (pushed op) < 2 ^ 31) (htotal : t + pushed op < 2 ^ 64) :
    r.checkedStep op = .ok (r.step op) ∧ (r.step op).Sound (t + pushed op) ∧
      (r.step op).capacity = r.capacity := by
  cases op with
  | read len => exact ⟨rfl, h.frame rfl rfl, rfl⟩
  | push data index eof =>
      obtain ⟨hindex, hfits⟩ := hop
      have hstart := h.wf.startAux_eq
      change r.output.bytesWrote + _ + _ < _ at hfits
      rw [← hstart] at hfits
      have hunass := h.bytesUnass_le
      have hstored := h.writeToAux hfits index eof
      obtain ⟨m, hm⟩ := exists_flushed hstored.wf
      obtain ⟨flag, hpush⟩ := r.pushSubstring_eq data index eof
      refine ⟨?_, ?_, ?_⟩
      · refine (bind_of_eq (checkedWriteToAux_eq h.wf hfits hindex hint ?_)).trans ?_
        · exact (Nat.add_le_add_right hunass _).trans_lt htotal
        refine (bind_of_eq (checkedWriteToBytestream_eq hstored.wf hstored.count_le ?_)).trans rfl
        rw [writeToAux_startAux, writeToAux_capacity]
        omega
      · rw [step, hpush]
        exact hstored.writeToBytestream.frame (by simp) (by simp)
      · rw [step, hpush]
        exact hm.capacity.trans writeToAux_capacity

theorem foldlM_checkedStep_eq (h : r.Sound t) {ops : List SubstringOp}
    (hops : Along step Addressable r ops) (hint : ∀ op ∈ ops, min r.capacity (pushed op) < 2 ^ 31)
    (htotal : t + (ops.map pushed).sum < 2 ^ 64) :
    ops.foldlM checkedStep r = .ok (run step r ops) ∧
      (run step r ops).Sound (t + (ops.map pushed).sum) ∧
      (run step r ops).capacity = r.capacity := by
  induction ops generalizing r t with
  | nil => exact ⟨rfl, h, rfl⟩
  | cons op ops ih =>
      rw [List.map_cons, List.sum_cons, ← Nat.add_assoc] at htotal ⊢
      obtain ⟨heq, hsound, hcap⟩ := checkedStep_eq h hops.1 (hint op (by simp)) (by omega)
      obtain ⟨hrun, hsound', hcap'⟩ := ih hsound hops.2
        (fun op' hop' ↦ hcap ▸ hint op' (List.mem_cons_of_mem op hop')) htotal
      exact ⟨(bind_of_eq heq).trans hrun, hsound', hcap'.trans hcap⟩

/-- In every run that pushes fewer than `2 ^ 64` bytes, in pieces of which an `int` can count the
cells, no difference is negative and no range or position lies outside its string or vector. The
vector of cells keeps its size, the ring at least its size, and the window starts where the output
ends. -/
theorem arithmetic_never_faults (hc : 1 ≤ c) (ops : List SubstringOp)
    (hops : Along step Addressable (new c) ops) (hint : ∀ op ∈ ops, min c (pushed op) < 2 ^ 31)
    (htotal : (ops.map pushed).sum < 2 ^ 64) :
    ops.foldlM checkedStep (new c) = .ok (run step (new c) ops) ∧
      (run step (new c) ops).empty.length = c ∧ c ≤ (run step (new c) ops).aux.length ∧
      (run step (new c) ops).startAux = (run step (new c) ops).streamOut.bytesWritten := by
  obtain ⟨hrun, hsound, hcap⟩ :=
    foldlM_checkedStep_eq (Sound.new hc) hops hint (by rwa [Nat.zero_add])
  have hlen := hsound.wf.length_empty
  have haux := hsound.wf.capacity_le_length_aux
  rw [hcap] at hlen haux
  exact ⟨hrun, hlen, haux, hsound.wf.startAux_eq⟩

/-- Pushes on both sides of the window of a ring of two cells, one of them with an index whose end
runs over. -/
theorem arithmetic_never_faults_wrapped :
    let ops : List SubstringOp := [.push [98, 99, 100] 1 true, .push [97] 0 false, .read 1,
      .push [120, 121] (2 ^ 64 - 1) false]
    ops.foldlM checkedStep (new 2) = .ok (run step (new 2) ops) :=
  (arithmetic_never_faults (by decide) [.push [98, 99, 100] 1 true, .push [97] 0 false, .read 1,
    .push [120, 121] (2 ^ 64 - 1) false] (by decide) (by decide) (by decide)).1

/-! ### The counter runs over -/

/-- A ring of two cells behind a full output: byte three waits in the second cell. -/
def leaky (bytesUnass : ℕ) : StreamReassembler where
  aux := [99, 100]
  output :=
    { cap := 2, bytesWrote := 3, bytesReaded := 1, deq := [98, 99]
      length_deq_le := by decide, bytesWrote_eq := by decide }
  capacity := 2
  startAux := 3
  empty := [true, false]
  bytesUnass := bytesUnass
  endStream := 2 ^ 64 - 1

/-- The output and the second cell are filled. -/
def fillUp : List SubstringOp :=
  [.push [97] 0 false, .push [98] 1 false, .read 1, .push [99] 2 false, .push [100] 3 false]

/-- Byte four is pushed `n` times and once more, a byte is read and the flush is called. -/
def leak (n : ℕ) : List SubstringOp :=
  fillUp ++ (List.replicate n (.push [99] 4 false) ++
    [.push [99] 4 false, .read 1, .push [] 0 false])

/-- Byte four is counted and then forgotten by the flush, which has no room for it. -/
theorem step_leaky (b : ℕ) : (leaky b).step (.push [99] 4 false) = leaky (b + 1) := by
  simp [leaky, step, pushSubstring, writeToAux, copyToAux, writeToBytestream, flushToEnd,
    flushFromStart, itEnd, findRange, substr, replaceRange, fillRange, countRange, add64, sub64,
    ByteStream.writeSize, ByteStream.write, ByteStream.remainingCapacity, List.findIdx_cons]

theorem sound_leaky : (leaky 1).Sound 1 :=
  ⟨⟨by decide, by decide, by decide, by decide, by decide⟩, by decide, by decide⟩

theorem run_leaky (b n : ℕ) :
    Along step Addressable (leaky b) (List.replicate n (.push [99] 4 false)) ∧
      run step (leaky b) (List.replicate n (.push [99] 4 false)) = leaky (b + n) := by
  induction n generalizing b with
  | zero => exact ⟨trivial, rfl⟩
  | succ n ih =>
      obtain ⟨halong, hrun⟩ := ih (b + 1)
      rw [List.replicate_succ, run_cons, step_leaky, hrun, Nat.add_right_comm b 1 n]
      refine ⟨⟨⟨by decide, ?_⟩, ?_⟩, rfl⟩
      · exact (by decide : 3 + 2 + 1 < 2 ^ 64)
      · rwa [step_leaky]

theorem underflow_of_leak {n : ℕ} (hn : n + 2 = 2 ^ 64) :
    Along step Addressable (new 2) (leak n) ∧
      (leak n).foldlM checkedStep (new 2) = .error .underflow := by
  obtain ⟨halong, hrun⟩ := run_leaky 1 n
  have hlast : 1 + n = 18446744073709551615 := by omega
  have hfill : run step (new 2) fillUp = leaky 1 := by decide
  constructor
  · refine along_append.mpr ⟨by decide, ?_⟩
    rw [hfill]
    refine along_append.mpr ⟨halong, ?_⟩
    rw [hrun, hlast]
    decide
  · have hchecked := (foldlM_checkedStep_eq sound_leaky halong ?_ ?_).1
    · rw [hrun, hlast] at hchecked
      rw [leak, List.foldlM_append]
      refine (bind_of_eq (a := leaky 1) rfl).trans ?_
      rw [List.foldlM_append]
      exact (bind_of_eq hchecked).trans rfl
    · intro op hop
      obtain rfl := List.eq_of_mem_replicate hop
      decide
    · rw [List.map_replicate, List.sum_replicate]
      simp only [pushed, List.length_singleton, smul_eq_mul]
      omega

/-- An `int` cannot count the cells of one push. -/
theorem overflow_of_long_push {n : ℕ} (hn : 2 ^ 31 ≤ n) (hlt : n + n < 2 ^ 64) :
    Addressable (new n) (.push (List.replicate n 0) 0 false) ∧
      (new n).checkedStep (.push (List.replicate n 0) 0 false) = .error .overflow := by
  refine ⟨⟨by decide, ?_⟩, ?_⟩
  · change 0 + n + (List.replicate n (0 : UInt8)).length < 2 ^ 64
    rw [List.length_replicate]
    omega
  · have hsum : add64 0 n = n := (add64_of_lt (by omega)).trans (Nat.zero_add n)
    have hcount : checkedCount (List.replicate n true) 0 n = .error .overflow := by
      rw [checkedCount_of_le (Nat.zero_le _) (by simp), countRange, substr, List.drop_zero,
        Nat.sub_zero, List.take_of_length_le (by simp), List.count_replicate_self]
      exact if_neg (not_lt.mpr hn)
    have hstore : (new n).checkedWriteToAux (List.replicate n 0) 0 false = .error .overflow := by
      simp only [checkedWriteToAux, checkedCopyToAux, new, List.length_replicate, hsum]
      rw [if_neg (by omega), if_neg (by omega), max_self, min_self, Nat.zero_mod]
      refine (bind_of_eq (checkedSub_of_le (Nat.zero_le n))).trans ?_
      refine (bind_of_eq (checkedSub_of_le le_rfl)).trans ?_
      rw [Nat.sub_zero, hsum, if_pos le_rfl, Nat.zero_add, hcount]
      rfl
    rw [checkedStep, checkedPushSubstring, hstore]
    rfl

/-- After `2 ^ 64` bytes that were counted and forgotten the counter is zero although a cell is
occupied, and the flush of that cell takes it below zero; and a push of `2 ^ 31` bytes is more than
the sum of the cells can count. -/
theorem counter_runs_over :
    (Along step Addressable (new 2) (leak (2 ^ 64 - 2)) ∧
      (leak (2 ^ 64 - 2)).foldlM checkedStep (new 2) = .error .underflow) ∧
    Addressable (new (2 ^ 31)) (.push (List.replicate (2 ^ 31) 0) 0 false) ∧
      (new (2 ^ 31)).checkedStep (.push (List.replicate (2 ^ 31) 0) 0 false) =
        .error .overflow :=
  ⟨underflow_of_leak (by norm_num), overflow_of_long_push le_rfl (by norm_num)⟩

end Sponge.StreamReassembler
