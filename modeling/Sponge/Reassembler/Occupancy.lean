import Sponge.Lib.Runs
import Sponge.Reassembler.Push

/-!
# What the cells hold

Arbitrary substrings are pushed at arbitrary indices while a reader takes bytes
from the output. As long as no push makes the reassembler forget a held byte, the
counter of unassembled bytes is the number of occupied cells, and a cell is only
freed by writing its byte. If in addition no push sticks out of the window across
the end of the ring or reaches past the memory limit, the bytes that are buffered
and held together stay below the capacity.
-/

namespace Sponge

open Lib

/-- A substring arrives, or the reader asks for `len` bytes. -/
inductive SubstringOp
  | push (data : List UInt8) (index : ℕ) (eof : Bool)
  | read (len : ℕ)

namespace StreamReassembler

variable {r r' : StreamReassembler} {data : List UInt8} {index c m i : ℕ} {eof : Bool}

def step (r : StreamReassembler) : SubstringOp → StreamReassembler
  | .push data index eof => r.pushSubstring data index eof
  | .read len => r.readOutput len

/-- A push does not overflow and makes the reassembler forget nothing. -/
def KeepsHeld (r : StreamReassembler) : SubstringOp → Prop
  | .push data index _ => index + data.length < 2 ^ 64 ∧ r.ForgetsNothing data index
  | .read _ => True

instance (r : StreamReassembler) : (op : SubstringOp) → Decidable (r.KeepsHeld op)
  | .push data index _ =>
      inferInstanceAs (Decidable (index + data.length < 2 ^ 64 ∧ r.ForgetsNothing data index))
  | .read _ => .isTrue trivial

/-- The counter is the number of held indices. -/
structure Counts (r : StreamReassembler) : Prop where
  wf : r.Wf
  bytesUnass : r.bytesUnass = r.heldSet.card

theorem counts_new (hc : 1 ≤ c) : (new c).Counts := ⟨wf_new hc, bytesUnass_new c⟩

theorem Counts.step (h : r.Counts) {op : SubstringOp} (hop : r.KeepsHeld op) :
    (r.step op).Counts := by
  cases op with
  | push data index eof =>
      obtain ⟨m, hm, -⟩ := exists_pushed h.wf (fun _ ↦ hop.1) eof
      exact ⟨hm.wf, hm.bytesUnass_eq h.wf hop.2 h.bytesUnass⟩
  | read len => exact ⟨h.wf.readOutput len, h.bytesUnass⟩

theorem Counts.capacity_step (h : r.Counts) {op : SubstringOp} (hop : r.KeepsHeld op) :
    (r.step op).capacity = r.capacity := by
  cases op with
  | push data index eof =>
      obtain ⟨m, hm, -⟩ := exists_pushed h.wf (fun _ ↦ hop.1) eof
      exact hm.capacity
  | read len => rfl

/-- No byte of the substring inside the window lies past the memory limit, which
starts at the first unread byte. -/
def WithinLimit (r : StreamReassembler) (data : List UInt8) (index : ℕ) : Prop :=
  min (index + data.length) (r.startAux + r.capacity) ≤
    max index (r.output.bytesReaded + r.capacity)

instance (r : StreamReassembler) (data : List UInt8) (index : ℕ) :
    Decidable (r.WithinLimit data index) :=
  inferInstanceAs (Decidable (_ ≤ _))

/-- A push that forgets nothing, is stored cleanly and stays within the limit. -/
def KeepsLimit (r : StreamReassembler) : SubstringOp → Prop
  | .push data index eof => r.KeepsHeld (.push data index eof) ∧
      r.StoresCleanly data index ∧ r.WithinLimit data index
  | .read _ => True

instance (r : StreamReassembler) : (op : SubstringOp) → Decidable (r.KeepsLimit op)
  | .push data index eof => inferInstanceAs (Decidable (r.KeepsHeld (.push data index eof) ∧
      r.StoresCleanly data index ∧ r.WithinLimit data index))
  | .read _ => .isTrue trivial

theorem KeepsLimit.keepsHeld {op : SubstringOp} (h : r.KeepsLimit op) : r.KeepsHeld op := by
  cases op with
  | push data index eof => exact h.1
  | read len => trivial

/-- Nothing is held past the memory limit, and the ring has kept its size. -/
structure Limited (r : StreamReassembler) : Prop where
  counts : r.Counts
  length_aux : r.aux.length = r.capacity
  held_lt : ∀ i, r.Held i → i < r.output.bytesReaded + r.capacity

theorem limited_new (hc : 1 ≤ c) : (new c).Limited where
  counts := counts_new hc
  length_aux := List.length_replicate
  held_lt i hi := absurd hi (not_held_new c i)

theorem Limited.step (h : r.Limited) {op : SubstringOp} (hop : r.KeepsLimit op) :
    (r.step op).Limited := by
  have hcounts := h.counts.step hop.keepsHeld
  cases op with
  | push data index eof =>
      obtain ⟨hkeep, hclean, hlimit⟩ := hop
      obtain ⟨m, hm, -⟩ := exists_pushed h.counts.wf (fun _ ↦ hkeep.1) eof
      refine ⟨hcounts, ?_, fun i hi ↦ ?_⟩
      · have hlen := length_aux_storeCells h.counts.wf h.length_aux hclean
        exact hm.aux ▸ hm.capacity ▸ hlen
      · have hstored := ((hm.held_iff i).mp hi).2.1
        have hlt : i < r.output.bytesReaded + r.capacity := by
          rcases (held_storeCells_iff h.counts.wf).mp hstored with hheld | ⟨-, hend, hin, hin'⟩
          · exact h.held_lt i hheld
          · rw [WithinLimit] at hlimit
            omega
        exact hm.bytesReaded ▸ hm.capacity ▸ hlt
  | read len =>
      refine ⟨hcounts, h.length_aux, fun i hi ↦ ?_⟩
      have hlt : i < r.output.bytesReaded + r.capacity := h.held_lt i hi
      have hread : (r.step (.read len)).output.bytesReaded =
          r.output.bytesReaded + min len r.output.deq.length :=
        r.output.popOutput_bytesReaded len
      have hcap : (r.step (.read len)).capacity = r.capacity := rfl
      rw [hread, hcap]
      omega

theorem Limited.bufferSize_add_le (h : r.Limited) :
    r.output.deq.length + r.bytesUnass ≤ r.capacity := by
  have hsub : r.heldSet ⊆ Finset.Ico r.startAux (r.output.bytesReaded + r.capacity) := by
    intro i hi
    have hheld := mem_heldSet.mp hi
    exact Finset.mem_Ico.mpr ⟨hheld.1, h.held_lt i hheld⟩
  have hcard := Finset.card_le_card hsub
  rw [Nat.card_Ico, ← h.counts.bytesUnass, h.counts.wf.startAux_eq,
    r.output.bytesWrote_eq] at hcard
  have hbuffered := r.output.length_deq_le
  rw [h.counts.wf.output_cap] at hbuffered
  omega

/-- In every run whose pushes forget nothing, are stored cleanly and stay within the
limit, the buffered and the unassembled bytes fit in the capacity, the ring keeps its
size, and no byte is held at or past the limit. -/
theorem memory_within_capacity (hc : 1 ≤ c) (ops : List SubstringOp)
    (hops : Along step KeepsLimit (new c) ops) :
    (run step (new c) ops).streamOut.bufferSize +
        (run step (new c) ops).unassembledBytes ≤ c ∧
      (run step (new c) ops).aux.length = c ∧
      ∀ i, (run step (new c) ops).Held i →
        i < (run step (new c) ops).streamOut.bytesRead + c := by
  have hinv : (run step (new c) ops).Limited ∧ (run step (new c) ops).capacity = c := by
    refine run_invariant (I := fun r ↦ r.Limited ∧ r.capacity = c) ?_ ⟨limited_new hc, rfl⟩ hops
    rintro r op ⟨h, hcap⟩ hop
    exact ⟨h.step hop, (h.counts.capacity_step hop.keepsHeld).trans hcap⟩
  obtain ⟨hlimited, hcap⟩ := hinv
  have hsum := hlimited.bufferSize_add_le
  have hlen := hlimited.length_aux
  have hheld := hlimited.held_lt
  rw [hcap] at hsum hlen hheld
  exact ⟨hsum, hlen, hheld⟩

/-- Four bytes through a ring of two cells, the second pair when the first was read. -/
theorem memory_within_capacity_abcd :
    (run step (new 2) [.push [97, 98] 0 false, .read 2,
        .push [99, 100] 2 true]).streamOut.bufferSize +
      (run step (new 2) [.push [97, 98] 0 false, .read 2,
        .push [99, 100] 2 true]).unassembledBytes ≤ 2 :=
  (memory_within_capacity (by decide) [.push [97, 98] 0 false, .read 2, .push [99, 100] 2 true]
    (by decide)).1

/-- A reassembler of capacity two stores two bytes while two others are unread; and a
push that sticks out of the window across the end of the ring makes the ring grow. -/
theorem pushes_exceed_capacity :
    ((run step (new 2) [.push [97, 98] 0 false, .push [99, 100] 2 false]).streamOut.bufferSize +
        (run step (new 2) [.push [97, 98] 0 false,
          .push [99, 100] 2 false]).unassembledBytes = 4 ∧
      (run step (new 2) [.push [97, 98] 0 false, .push [99, 100] 2 false]).Held 3) ∧
    (run step (new 2) [.push [97] 0 false, .read 1, .push [98, 99, 100] 1 false]).aux.length =
      3 := by
  decide

end StreamReassembler

end Sponge
