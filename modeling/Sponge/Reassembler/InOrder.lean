import Sponge.Lib.Runs
import Sponge.Reassembler.Push

/-!
# In-order delivery

When every substring arrives at the first unassembled index and fits in the
output, nothing is ever kept back: a push leaves the ring empty again, wherever
in the ring it starts and whether or not it crosses its end. The output then is
the stream on which the substrings were written directly.

The recorded end of the stream starts at the largest index, `2 ^ 64 - 1`, so a
stream that gets as far as that is ended by mistake. A window whose end would lie
past the largest index is not looked at here: there the source's sum wraps around,
and the model's does not.
-/

namespace Sponge

open Lib

/-- The next bytes of the stream arrive, or the reader asks for `len` bytes. -/
inductive InOrderOp
  | push (data : List UInt8) (eof : Bool)
  | read (len : ℕ)

/-- The number of bytes that arrive. -/
def InOrderOp.length : InOrderOp → ℕ
  | .push data _ => data.length
  | .read _ => 0

/-- The operations on a plain stream. -/
def ByteStream.deliver (s : ByteStream) : InOrderOp → ByteStream
  | .push data eof => if eof = true then (s.write data).endInput else s.write data
  | .read len => s.popOutput len

namespace StreamReassembler

variable {r : StreamReassembler} {data : List UInt8} {c : ℕ} {eof : Bool}

def deliver (r : StreamReassembler) : InOrderOp → StreamReassembler
  | .push data eof => r.pushSubstring data r.streamOut.bytesWritten eof
  | .read len => r.readOutput len

/-- What arrives is not empty and fits in the output. -/
def Fits (r : StreamReassembler) : InOrderOp → Prop
  | .push data _ => 0 < data.length ∧ data.length ≤ r.streamOut.remainingCapacity
  | .read _ => True

instance (r : StreamReassembler) : (op : InOrderOp) → Decidable (r.Fits op)
  | .push _ _ => inferInstanceAs (Decidable (_ ∧ _))
  | .read _ => .isTrue trivial

theorem Fits.length_le_room (hfits : r.Fits (.push data eof)) : data.length ≤ r.room := by
  have hle := hfits.2
  rwa [streamOut, ByteStream.remainingCapacity_eq] at hle

/-- Nothing is kept back, and the end of the stream is unknown or was passed. -/
structure Drained (r : StreamReassembler) : Prop where
  wf : r.Wf
  length_aux : r.aux.length = r.capacity
  bytesUnass : r.bytesUnass = r.heldSet.card
  not_held : ∀ i, ¬r.Held i
  endStream : r.endStream = 2 ^ 64 - 1 ∨ r.endStream ≤ r.startAux

theorem drained_new (hc : 1 ≤ c) : (new c).Drained where
  wf := wf_new hc
  length_aux := List.length_replicate
  bytesUnass := bytesUnass_new c
  not_held := not_held_new c
  endStream := Or.inl rfl

namespace Drained

theorem heldSet_eq (h : r.Drained) : r.heldSet = ∅ := by
  apply Finset.eq_empty_of_forall_notMem
  intro i hi
  exact h.not_held i (mem_heldSet.mp hi)

theorem unassembledBytes_eq (h : r.Drained) : r.unassembledBytes = 0 := by
  rw [unassembledBytes, h.bytesUnass, h.heldSet_eq, Finset.card_empty]

theorem empty_eq (h : r.Drained) : r.empty = List.replicate r.capacity true := by
  have hcount := count_false_empty h.wf
  rw [h.heldSet_eq, Finset.card_empty, List.count_eq_zero] at hcount
  apply List.eq_replicate_iff.mpr
  refine ⟨h.wf.length_empty, ?_⟩
  intro b hb
  cases b with
  | true => rfl
  | false => exact absurd hb hcount

theorem readOutput (h : r.Drained) (len : ℕ) : (r.readOutput len).Drained :=
  ⟨h.wf.readOutput len, h.length_aux, h.bytesUnass, h.not_held, h.endStream⟩

theorem deliver_push (h : r.Drained) (data : List UInt8) (eof : Bool) :
    r.deliver (.push data eof) = r.pushSubstring data r.startAux eof := by
  rw [h.wf.startAux_eq]
  rfl

theorem room_le_capacity (h : r.Drained) : r.room ≤ r.capacity := by
  rw [room, h.wf.output_cap]
  exact Nat.sub_le _ _

section push

variable (h : r.Drained) (hfits : r.Fits (.push data eof))
include h hfits

/-- The occupied cells are those of the substring. -/
theorem held_storeCells_iff {i : ℕ} : (r.storeCells data r.startAux).Held i ↔
    r.startAux ≤ i ∧ i < r.startAux + data.length := by
  have hroom := hfits.length_le_room
  have hcap := h.room_le_capacity
  rw [StreamReassembler.held_storeCells_iff h.wf]
  constructor
  · rintro (hheld | ⟨-, -, hin⟩)
    · exact absurd hheld (h.not_held i)
    · exact hin
  · rintro ⟨hle, hlt⟩
    exact Or.inr ⟨hle, by omega, hle, hlt⟩

theorem storesCleanly : r.StoresCleanly data r.startAux := by
  have hroom := hfits.length_le_room
  have hcap := h.room_le_capacity
  intro _
  exact ⟨le_refl _, by omega⟩

theorem cellBytes_storeCells :
    (r.storeCells data r.startAux).cellBytes data.length = data := by
  have hroom := hfits.length_le_room
  have hcap := h.room_le_capacity
  apply List.ext_getElem
  · exact length_cellBytes _
  · intro j hj hj'
    have hcell := @aux_storeCells r data r.startAux (r.startAux + j) h.wf h.length_aux
      (h.storesCleanly hfits) (Nat.le_add_right _ _) (by omega)
    rw [if_pos ⟨Nat.le_add_right _ _, by omega⟩, Nat.add_sub_cancel_left,
      List.getElem?_eq_getElem hj'] at hcell
    simp only [cellBytes, List.getElem_map, List.getElem_range, storeCells_startAux,
      storeCells_capacity, List.getD_eq_getElem?_getD, hcell, Option.getD_some]

variable {r' : StreamReassembler} {m : ℕ}

theorem length_of_pushed (hm : Pushed r r' data r.startAux eof m) : m = data.length := by
  have hroom := hfits.length_le_room
  apply le_antisymm
  · by_contra hlt
    have hheld := (h.held_storeCells_iff hfits).mp (hm.held_of_lt data.length (by omega))
    omega
  · by_contra hlt
    exact hm.not_held (by omega) ((h.held_storeCells_iff hfits).mpr ⟨by omega, by omega⟩)

theorem forgetsNothing : r.ForgetsNothing data r.startAux := by
  have hroom := hfits.length_le_room
  have hpend : ∀ i, r.Pending data r.startAux i ↔
      r.startAux ≤ i ∧ i < r.startAux + data.length := by
    intro i
    rw [← held_storeCells_iff_pending h.wf, h.held_storeCells_iff hfits]
  intro _ i _ hi
  rw [hpend] at hi
  refine ⟨by omega, ?_⟩
  intro j hj hlt
  exact (hpend j).mpr ⟨hj, by omega⟩

theorem of_pushed (hm : Pushed r r' data r.startAux eof m) : r'.Drained := by
  have hlen := h.length_of_pushed hfits hm
  constructor
  case wf => exact hm.wf
  case length_aux =>
    rw [hm.aux, hm.capacity]
    exact length_aux_storeCells h.wf h.length_aux (h.storesCleanly hfits)
  case bytesUnass => exact hm.bytesUnass_eq h.wf (h.forgetsNothing hfits) h.bytesUnass
  case not_held =>
    intro i hi
    obtain ⟨hle, hheld, -⟩ := (hm.held_iff i).mp hi
    have hlt := ((h.held_storeCells_iff hfits).mp hheld).2
    omega
  case endStream =>
    rw [hm.endStream, hm.startAux, hlen]
    split_ifs with heof
    · exact Or.inr (le_refl _)
    · exact h.endStream.imp_right fun hle ↦ hle.trans (Nat.le_add_right _ _)

/-- The push ends the output exactly if it says so, unless it reaches the largest index. -/
theorem endsOutput_iff (hlt : r.startAux + data.length < 2 ^ 64 - 1)
    (hm : Pushed r r' data r.startAux eof m) : r'.EndsOutput data eof ↔ eof = true := by
  have hpos : 0 < data.length := hfits.1
  have hne : data ≠ [] := List.ne_nil_of_length_pos hpos
  have hmeets : r.Meets data r.startAux := ⟨Nat.le_add_right _ _, Nat.le_add_right _ _⟩
  rw [EndsOutput, hm.startAux, hm.endStream, h.length_of_pushed hfits hm]
  cases eof with
  | true => simp [hne, hmeets]
  | false =>
      -- The recorded end is the initial one or lies behind; neither is reached.
      have hend := h.endStream
      simp only [Bool.false_eq_true, and_false, if_false, iff_false, false_or]
      omega

end push

theorem output_push (h : r.Drained) (hfits : r.Fits (.push data eof))
    (hlt : r.startAux + data.length < 2 ^ 64 - 1) :
    (r.pushSubstring data r.startAux eof).Drained ∧
      (r.pushSubstring data r.startAux eof).output = r.output.deliver (.push data eof) := by
  obtain ⟨m, hm, hended⟩ := @exists_pushed r data r.startAux h.wf (fun _ ↦ by omega) eof
  have hlen := h.length_of_pushed hfits hm
  have hdrained := h.of_pushed hfits hm
  refine ⟨hdrained, ?_⟩
  have hwrite : data.take (r.output.writeSize data) = data := by
    apply List.take_of_length_le
    exact le_min (le_refl _) hfits.2
  obtain ⟨hread, herror, -⟩ := r.output_pushSubstring data r.startAux eof
  rw [h.endsOutput_iff hfits hlt hm] at hended
  have hcap : (r.pushSubstring data r.startAux eof).output.cap = r.output.cap := by
    rw [hdrained.wf.output_cap, hm.capacity, h.wf.output_cap]
  have hdeq : (r.pushSubstring data r.startAux eof).output.deq = r.output.deq ++ data := by
    rw [hm.deq, hlen, h.cellBytes_storeCells hfits]
  apply ByteStream.SameBytes.eq
  · constructor
    · rw [Bool.eq_iff_iff, hended, ByteStream.deliver, ByteStream.ended_ite_endInput,
        ByteStream.write_ended, or_comm]
    · rw [hdeq, ByteStream.deliver, ByteStream.deq_ite_endInput, ByteStream.write_deq, hwrite]
    · rw [hread, ByteStream.deliver, ByteStream.bytesReaded_ite_endInput,
        ByteStream.write_bytesReaded]
  · rw [herror, ByteStream.deliver, ByteStream.error_ite_endInput]
    rfl
  · rw [hcap, ByteStream.deliver, ByteStream.cap_ite_endInput]
    rfl

theorem step (h : r.Drained) {op : InOrderOp} (hfits : r.Fits op)
    (hlt : r.startAux + op.length < 2 ^ 64 - 1) :
    (r.deliver op).Drained ∧ (r.deliver op).output = r.output.deliver op ∧
      (r.deliver op).startAux = r.startAux + op.length ∧ (r.deliver op).capacity = r.capacity := by
  cases op with
  | push data eof =>
      obtain ⟨m, hm, -⟩ := @exists_pushed r data r.startAux h.wf (fun _ ↦ by
        rw [InOrderOp.length] at hlt
        omega) eof
      obtain ⟨hdrained, houtput⟩ := h.output_push hfits hlt
      have hstart := hm.startAux
      rw [h.length_of_pushed hfits hm] at hstart
      rw [h.deliver_push]
      exact ⟨hdrained, houtput, hstart, hm.capacity⟩
  | read len => exact ⟨h.readOutput len, rfl, rfl, rfl⟩

theorem run (h : r.Drained) {ops : List InOrderOp} (hops : Along deliver Fits r ops)
    (htotal : r.startAux + (ops.map InOrderOp.length).sum < 2 ^ 64 - 1) :
    (Lib.run deliver r ops).Drained ∧
      (Lib.run deliver r ops).output = Lib.run ByteStream.deliver r.output ops ∧
      (Lib.run deliver r ops).capacity = r.capacity := by
  -- The bytes still to come are counted from the index reached, so the bound is carried along.
  induction ops generalizing r with
  | nil => exact ⟨h, rfl, rfl⟩
  | cons op ops ih =>
      rw [List.map_cons, List.sum_cons] at htotal
      obtain ⟨hdrained, houtput, hstart, hcap⟩ := h.step hops.1 (by omega)
      obtain ⟨hdrained', houtput', hcap'⟩ := ih hdrained hops.2 (by rw [hstart]; omega)
      rw [houtput] at houtput'
      exact ⟨hdrained', houtput', hcap'.trans hcap⟩

end Drained

/-- In-order substrings pass through the reassembler as through a plain stream, and nothing is
kept back, as long as the window behind them ends below `2 ^ 64`. -/
theorem inOrder_refines_stream (hc : 1 ≤ c) (ops : List InOrderOp)
    (hops : Along deliver Fits (new c) ops)
    (htotal : (ops.map InOrderOp.length).sum + c < 2 ^ 64) :
    (run deliver (new c) ops).streamOut = run ByteStream.deliver (ByteStream.new c) ops ∧
      (run deliver (new c) ops).unassembledBytes = 0 ∧
      (run deliver (new c) ops).empty = List.replicate c true := by
  have hbound : (new c).startAux + (ops.map InOrderOp.length).sum < 2 ^ 64 - 1 := by
    change 0 + _ < _
    omega
  obtain ⟨hdrained, houtput, hcap⟩ := (drained_new hc).run hops hbound
  refine ⟨houtput, hdrained.unassembledBytes_eq, ?_⟩
  rw [hdrained.empty_eq, hcap]
  rfl

/-- Five bytes through a ring of three cells: the second push crosses its end. -/
theorem inOrder_refines_stream_abcde :
    let ops : List InOrderOp := [.push [97, 98] false, .read 2, .push [99, 100, 101] true]
    (run deliver (new 3) ops).streamOut = run ByteStream.deliver (ByteStream.new 3) ops ∧
      (run deliver (new 3) ops).unassembledBytes = 0 ∧
      (run deliver (new 3) ops).empty = [true, true, true] :=
  inOrder_refines_stream (by decide) [.push [97, 98] false, .read 2, .push [99, 100, 101] true]
    (by decide) (by decide)

/-! ### The largest index -/

/-- Bytes arrive and are read one at a time. -/
def drip : ℕ → List InOrderOp
  | 0 => []
  | n + 1 => .push [0] false :: .read 1 :: drip n

/-- One byte more arrives, without the flag. -/
def dripOnce (n : ℕ) : List InOrderOp := drip n ++ [.push [0] false]

/-- A ring of one cell after `k` bytes, all of them read. -/
structure Dripped (r : StreamReassembler) (k : ℕ) : Prop extends r.Drained where
  capacity : r.capacity = 1
  deq : r.output.deq = []
  ended : r.output.ended = false
  startAux : r.startAux = k
  endStream_eq : r.endStream = 2 ^ 64 - 1

namespace Dripped

variable {k : ℕ}

theorem fits (h : r.Dripped k) (eof : Bool) : r.Fits (.push [0] eof) := by
  refine ⟨Nat.one_pos, ?_⟩
  rw [streamOut, ByteStream.remainingCapacity_eq, h.wf.output_cap, h.capacity, h.deq]
  exact le_refl _

theorem exists_pushed_byte (h : r.Dripped k) (hlt : k + 1 < 2 ^ 64) :
    Pushed r (r.deliver (.push [0] false)) [0] r.startAux false 1 ∧
      ((r.deliver (.push [0] false)).output.ended = true ↔ k + 1 = 2 ^ 64 - 1) := by
  have hstart := h.startAux
  obtain ⟨m, hm, hended⟩ := @exists_pushed r [0] r.startAux h.wf
    (fun _ ↦ by rw [hstart]; exact hlt) false
  obtain rfl : m = 1 := h.length_of_pushed (h.fits false) hm
  rw [h.deliver_push]
  refine ⟨hm, ?_⟩
  rw [hended, EndsOutput, hm.startAux, hm.endStream, h.ended, hstart, h.endStream_eq]
  simp

theorem push_read (h : r.Dripped k) (hlt : k + 1 < 2 ^ 64 - 1) :
    ((r.deliver (.push [0] false)).deliver (.read 1)).Dripped (k + 1) := by
  have hstart := h.startAux
  obtain ⟨hm, hended⟩ := h.exists_pushed_byte (by omega)
  obtain ⟨hdrained, -, -, -⟩ := h.step (h.fits false) (by rw [hstart]; exact hlt)
  generalize r.deliver (.push [0] false) = r' at hm hended hdrained ⊢
  constructor
  case toDrained => exact hdrained.readOutput 1
  case capacity => exact hm.capacity.trans h.capacity
  case startAux => exact hm.startAux.trans (by rw [hstart])
  case ended =>
    rw [← Bool.not_eq_true]
    exact fun hend ↦ hlt.ne (hended.mp hend)
  case endStream_eq =>
    have hend := hm.endStream
    simp only [Bool.false_eq_true, and_false, if_false] at hend
    exact hend.trans h.endStream_eq
  case deq =>
    have hdeq : r'.output.deq.length = 1 := by
      rw [hm.deq, h.deq]
      simp
    change (r'.output.popOutput 1).deq = []
    rw [ByteStream.popOutput_deq, List.drop_eq_nil_iff, hdeq]

theorem run_drip {n : ℕ} (h : r.Dripped k) (hlt : k + n < 2 ^ 64 - 1) :
    Along deliver Fits r (drip n) ∧ (run deliver r (drip n)).Dripped (k + n) := by
  induction n generalizing r k with
  | zero => exact ⟨trivial, h⟩
  | succ n ih =>
      obtain ⟨halong, hrun⟩ := ih (h.push_read (by omega)) (by omega)
      refine ⟨⟨h.fits false, trivial, halong⟩, ?_⟩
      rw [show k + (n + 1) = k + 1 + n by omega, drip, run_cons, run_cons]
      exact hrun

end Dripped

theorem dripped_new : (new 1).Dripped 0 := ⟨drained_new (le_refl 1), rfl, rfl, rfl, rfl, rfl⟩

theorem ended_deliver_drip (s : ByteStream) (n : ℕ) :
    (run ByteStream.deliver s (drip n)).ended = s.ended := by
  induction n generalizing s with
  | zero => rfl
  | succ n ih => exact ih _

theorem ended_of_drip {n : ℕ} (hn : n + 2 = 2 ^ 64) :
    Along deliver Fits (new 1) (dripOnce n) ∧
      (run deliver (new 1) (dripOnce n)).streamOut.inputEnded = true ∧
      (run ByteStream.deliver (ByteStream.new 1) (dripOnce n)).inputEnded = false := by
  obtain ⟨halong, hrun⟩ := dripped_new.run_drip (n := n) (by omega)
  have hended := ended_deliver_drip (ByteStream.new 1) n
  rw [dripOnce, run_concat, run_concat]
  refine ⟨along_append.mpr ⟨halong, hrun.fits false, trivial⟩, ?_, hended⟩
  obtain ⟨-, hiff⟩ := hrun.exists_pushed_byte (by omega)
  rw [streamOut, ByteStream.inputEnded, hiff]
  omega

/-- One byte after the other through a ring of one cell: the byte with which their number
reaches the recorded end ends the output, although no push carried the flag. -/
theorem largest_index_ends_output :
    Along deliver Fits (new 1) (dripOnce (2 ^ 64 - 2)) ∧
      (run deliver (new 1) (dripOnce (2 ^ 64 - 2))).streamOut.inputEnded = true ∧
      (run ByteStream.deliver (ByteStream.new 1) (dripOnce (2 ^ 64 - 2))).inputEnded = false :=
  ended_of_drip (by norm_num)

end StreamReassembler

end Sponge
