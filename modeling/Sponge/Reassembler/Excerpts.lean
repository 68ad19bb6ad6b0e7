import Sponge.Lib.Runs
import Sponge.Reassembler.Push

/-!
# Excerpts of one byte string

A byte string is pushed in excerpts, in any order, with any overlap and
repetition, while a reader takes bytes from the output. As long as no excerpt
crosses the end of the ring while it sticks out of the window, the reader gets
the string itself.
-/

namespace Sponge

open Lib

/-- A piece `d[offset, offset + size)` of a byte string. -/
structure Excerpt (d : List UInt8) where
  offset : ℕ
  size : ℕ
  bound : offset + size ≤ d.length

namespace Excerpt

variable {d : List UInt8}

def data (x : Excerpt d) : List UInt8 := substr d x.offset x.size

/-- The excerpt ends where the string ends. -/
def last (x : Excerpt d) : Bool := x.offset + x.size == d.length

@[simp] theorem length_data (x : Excerpt d) : x.data.length = x.size :=
  length_substr x.bound

theorem getElem?_data (x : Excerpt d) {j : ℕ} (hj : j < x.size) :
    x.data[j]? = d[x.offset + j]? := by
  rw [data, getElem?_substr, if_pos hj]

end Excerpt

/-- A reassembler together with the bytes its reader has taken. -/
structure Reassembly where
  reassembler : StreamReassembler
  taken : List UInt8
  deriving DecidableEq

/-- An excerpt arrives, or the reader asks for `len` bytes. -/
inductive ExcerptOp (d : List UInt8)
  | push (x : Excerpt d)
  | read (len : ℕ)

namespace Reassembly

variable {d : List UInt8}

def new (capacity : ℕ) : Reassembly := ⟨StreamReassembler.new capacity, []⟩

def step (s : Reassembly) : ExcerptOp d → Reassembly
  | .push x => { s with
      reassembler := s.reassembler.pushSubstring x.data x.offset x.last }
  | .read len =>
      { reassembler := s.reassembler.readOutput len
        taken := s.taken ++ s.reassembler.output.peekOutput len }

/-- The bytes delivered so far: those taken and those still buffered. -/
def delivered (s : Reassembly) : List UInt8 := s.taken ++ s.reassembler.streamOut.deq

/-- A push crosses the end of the ring only if it lies wholly in the window. -/
def CleanStep (s : Reassembly) : ExcerptOp d → Prop
  | .push x => s.reassembler.StoresCleanly x.data x.offset
  | .read _ => True

instance (s : Reassembly) : (op : ExcerptOp d) → Decidable (s.CleanStep op)
  | .push x => inferInstanceAs (Decidable (s.reassembler.StoresCleanly x.data x.offset))
  | .read _ => inferInstanceAs (Decidable True)

theorem exists_pushed_excerpt (hd : d.length < 2 ^ 64) {r : StreamReassembler} (hw : r.Wf)
    (x : Excerpt d) :
    ∃ m, StreamReassembler.Pushed r (r.pushSubstring x.data x.offset x.last)
        x.data x.offset x.last m ∧
      ((r.pushSubstring x.data x.offset x.last).output.ended = true ↔
        r.output.ended = true ∨
          (r.pushSubstring x.data x.offset x.last).EndsOutput x.data x.last) := by
  have hbound := x.bound
  exact StreamReassembler.exists_pushed hw (fun _ ↦ by rw [x.length_data]; omega) x.last

theorem wf_step (hd : d.length < 2 ^ 64) {s : Reassembly} (hw : s.reassembler.Wf)
    (op : ExcerptOp d) : (s.step op).reassembler.Wf := by
  cases op with
  | push x =>
      obtain ⟨m, hm, -⟩ := exists_pushed_excerpt hd hw x
      exact hm.wf
  | read len => exact hw.readOutput len

theorem carries_step (hd : d.length < 2 ^ 64) {s : Reassembly} {op : ExcerptOp d}
    (hw : s.reassembler.Wf) (h : s.reassembler.Carries d s.taken) (hop : s.CleanStep op) :
    (s.step op).reassembler.Carries d (s.step op).taken := by
  cases op with
  | push x =>
      obtain ⟨m, hm, -⟩ := exists_pushed_excerpt hd hw x
      refine hm.carries hw h hop (Or.inl ?_) fun j hj ↦ ?_
      · rw [x.length_data]
        exact x.bound
      · exact x.getElem?_data (by rwa [x.length_data] at hj)
  | read len => exact h.readOutput len

/-- Whatever the order, the overlaps and the repetitions of the excerpts, and
however the reads fall between them, the bytes delivered are the first
`bytesWritten` bytes of the string, as long as every push is clean. -/
theorem delivered_eq_take {c : ℕ} (hc : 1 ≤ c) (hd : d.length < 2 ^ 64)
    (ops : List (ExcerptOp d)) (hops : Along step CleanStep (new c) ops) :
    (run step (new c) ops).delivered =
      d.take (run step (new c) ops).reassembler.streamOut.bytesWritten := by
  have hinv : (run step (new c) ops).reassembler.Wf ∧
      (run step (new c) ops).reassembler.Carries d (run step (new c) ops).taken := by
    refine run_invariant (I := fun s : Reassembly ↦
      s.reassembler.Wf ∧ s.reassembler.Carries d s.taken) ?_ ?_ hops
    · rintro s op ⟨hw, h⟩ hop
      exact ⟨wf_step hd hw op, carries_step hd hw h hop⟩
    · exact ⟨StreamReassembler.wf_new hc, StreamReassembler.carries_new c d⟩
  have hstart := hinv.1.startAux_eq
  have hdelivered := hinv.2.delivered
  rw [hstart] at hdelivered
  exact hdelivered

/-- The string `abcdef` in a ring of three cells. The last push crosses the end
of the ring and lies wholly in the window. -/
theorem delivered_eq_take_abcdef :
    (run step (new 3) ([.push ⟨0, 2, by decide⟩, .read 2, .push ⟨2, 3, by decide⟩] :
      List (ExcerptOp [97, 98, 99, 100, 101, 102]))).delivered =
      [97, 98, 99, 100, 101] :=
  delivered_eq_take (by decide) (by decide) _ (by decide)

/-- A ring of two cells and the string `abcd`: after `a` was taken, `bcd`
crosses the end of the ring and sticks out of the window, and `adc` is
delivered instead of `abc`. -/
theorem straddling_push_misdelivers :
    (run step (new 2) ([.push ⟨0, 1, by decide⟩, .read 1, .push ⟨1, 3, by decide⟩] :
      List (ExcerptOp [97, 98, 99, 100]))).delivered ≠
      [97, 98, 99, 100].take
        (run step (new 2) ([.push ⟨0, 1, by decide⟩, .read 1, .push ⟨1, 3, by decide⟩] :
          List (ExcerptOp [97, 98, 99, 100]))).reassembler.streamOut.bytesWritten := by
  decide

end Reassembly

end Sponge
