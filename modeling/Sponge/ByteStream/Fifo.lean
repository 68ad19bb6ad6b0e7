import Sponge.ByteStream
import Sponge.Lib.Runs

/-!
# The byte stream as a bounded queue

The stream once more as the source keeps it: a queue and, separately from it,
two counters of 64 bits, with one loop for each operation and nothing that ties
the parts together. It behaves as the stream that carries its accounting, with
the counters of that stream taken modulo `2 ^ 64`. So it is a queue of bounded
size: what was removed and what is buffered is what was accepted.
-/

namespace Sponge

open Lib

structure RawByteStream where
  ended : Bool := false
  error : Bool := false
  cap : ℕ
  bytesWrote : ℕ := 0
  bytesReaded : ℕ := 0
  deq : List UInt8 := []

namespace RawByteStream

/-- Appends the first `size` bytes of a string, one after the other. -/
def copyBytes (into data : List UInt8) (size : ℕ) : List UInt8 :=
  (List.range size).foldl (fun into i ↦ into ++ [data.getD i 0]) into

/-- Pops the front `size` times. -/
def popFront : ℕ → List UInt8 → List UInt8
  | 0, deq => deq
  | size + 1, deq => popFront size deq.tail

def remainingCapacity (s : RawByteStream) : ℕ := sub64 s.cap s.deq.length

def bufferSize (s : RawByteStream) : ℕ := s.deq.length

def bytesWritten (s : RawByteStream) : ℕ := s.bytesWrote

def bytesRead (s : RawByteStream) : ℕ := s.bytesReaded

/-- The stream after the write, and the number of bytes accepted. -/
def write (s : RawByteStream) (data : List UInt8) : RawByteStream × ℕ :=
  let size := min data.length s.remainingCapacity
  ({ s with
      bytesWrote := add64 s.bytesWrote size
      deq := copyBytes s.deq data size },
    size)

def peekOutput (s : RawByteStream) (len : ℕ) : List UInt8 :=
  let size := min len s.deq.length
  copyBytes [] s.deq size

def popOutput (s : RawByteStream) (len : ℕ) : RawByteStream :=
  let size := min len s.deq.length
  { s with
    deq := popFront size s.deq
    bytesReaded := add64 s.bytesReaded size }

def read (s : RawByteStream) (len : ℕ) : RawByteStream × List UInt8 :=
  let strReaded := s.peekOutput len
  (s.popOutput len, strReaded)

def endInput (s : RawByteStream) : RawByteStream := { s with ended := true }

theorem copyBytes_eq (into : List UInt8) {data : List UInt8} {size : ℕ}
    (h : size ≤ data.length) : copyBytes into data size = into ++ data.take size := by
  induction size with
  | zero => simp [copyBytes]
  | succ size ih =>
      have hlt : size < data.length := h
      have hcopied : copyBytes into data (size + 1) =
          copyBytes into data size ++ [data.getD size 0] := by
        simp [copyBytes, List.range_succ]
      rw [hcopied, ih hlt.le, List.take_add_one, List.append_assoc,
        List.getD_eq_getElem?_getD, List.getElem?_eq_getElem hlt]
      rfl

theorem popFront_eq (size : ℕ) (deq : List UInt8) : popFront size deq = deq.drop size := by
  induction size generalizing deq with
  | zero => rfl
  | succ size ih => rw [popFront, ih, List.drop_tail]

end RawByteStream

namespace ByteStream

variable {s : ByteStream}

/-- The stream without its accounting, and with counters of 64 bits. -/
def raw (s : ByteStream) : RawByteStream where
  ended := s.ended
  error := s.error
  cap := s.cap
  bytesWrote := s.bytesWrote % 2 ^ 64
  bytesReaded := s.bytesReaded % 2 ^ 64
  deq := s.deq

theorem raw_write (s : ByteStream) (data : List UInt8) :
    s.raw.write data = ((s.write data).raw, s.writeSize data) := by
  have hle := s.writeSize_le_length data
  simp only [RawByteStream.write, raw, write, RawByteStream.remainingCapacity,
    ← remainingCapacity.eq_def, ← writeSize.eq_def, RawByteStream.copyBytes_eq _ hle, add64]
  rw [Nat.mod_add_mod]

theorem raw_peekOutput (s : ByteStream) (len : ℕ) : s.raw.peekOutput len = s.peekOutput len :=
  RawByteStream.copyBytes_eq [] (min_le_right _ _)

theorem raw_popOutput (s : ByteStream) (len : ℕ) :
    s.raw.popOutput len = (s.popOutput len).raw := by
  simp only [RawByteStream.popOutput, raw, popOutput, RawByteStream.popFront_eq, add64]
  rw [Nat.mod_add_mod]

/-- The counters differ by what is buffered, also after one of them ran over. -/
theorem sub64_counters (h : s.cap < 2 ^ 64) :
    sub64 s.raw.bytesWrote s.raw.bytesReaded = s.deq.length := by
  have hlen := s.length_deq_le
  have hwrote := s.bytesWrote_eq
  change sub64 (s.bytesWrote % 2 ^ 64) (s.bytesReaded % 2 ^ 64) = s.deq.length
  rw [sub64]
  split_ifs
  all_goals omega

end ByteStream

inductive StreamOp
  | write (data : List UInt8)
  | peekOutput (len : ℕ)
  | popOutput (len : ℕ)
  | read (len : ℕ)
  | endInput

/-- A stream with the accepted prefixes of all writes and with all bytes removed from it. -/
structure Piping where
  stream : RawByteStream
  accepted : List UInt8 := []
  removed : List UInt8 := []

namespace Piping

def new (capacity : ℕ) : Piping := { stream := { cap := capacity } }

def step (p : Piping) : StreamOp → Piping
  | .write data =>
      let (stream, size) := p.stream.write data
      { p with stream, accepted := p.accepted ++ data.take size }
  | .peekOutput _ => p
  | .popOutput len =>
      let stream := p.stream.popOutput len
      -- the bytes that are gone from the front
      let gone := p.stream.deq.take (p.stream.bufferSize - stream.bufferSize)
      { p with stream, removed := p.removed ++ gone }
  | .read len =>
      let (stream, strReaded) := p.stream.read len
      { p with stream, removed := p.removed ++ strReaded }
  | .endInput => { p with stream := p.stream.endInput }

variable {p : Piping} {capacity : ℕ}

/-- The stream is one that carries its accounting, and its counters count the bytes that were
accepted and removed. -/
structure Accounts (p : Piping) (s : ByteStream) : Prop where
  stream : p.stream = s.raw
  bytesWrote : s.bytesWrote = p.accepted.length
  bytesReaded : s.bytesReaded = p.removed.length
  fifo : p.removed ++ s.deq = p.accepted

theorem accounts_new (capacity : ℕ) : (new capacity).Accounts (.new capacity) :=
  ⟨rfl, rfl, rfl, rfl⟩

namespace Accounts

variable {s : ByteStream}

theorem pop (h : p.Accounts s) (len : ℕ) :
    Accounts ⟨(s.popOutput len).raw, p.accepted, p.removed ++ s.peekOutput len⟩
      (s.popOutput len) where
  stream := rfl
  bytesWrote := h.bytesWrote
  bytesReaded := by
    rw [ByteStream.popOutput_bytesReaded, h.bytesReaded, List.length_append,
      ByteStream.peekOutput_eq, List.length_take]
  fifo := by
    rw [ByteStream.popOutput_deq, ByteStream.peekOutput_eq, List.append_assoc,
      List.take_append_drop, h.fifo]

/-- What `pop_output` takes from the front is what `peek_output` would have returned. -/
theorem gone_eq (s : ByteStream) (len : ℕ) :
    s.raw.deq.take (s.raw.bufferSize - (s.popOutput len).raw.bufferSize) = s.peekOutput len := by
  simp only [RawByteStream.bufferSize, ByteStream.raw, ByteStream.popOutput,
    ByteStream.peekOutput, List.length_drop]
  congr 1
  omega

theorem step (h : p.Accounts s) (op : StreamOp) :
    ∃ s', (p.step op).Accounts s' ∧ s'.cap = s.cap := by
  obtain ⟨stream, accepted, removed⟩ := p
  obtain rfl : stream = s.raw := h.stream
  cases op with
  | write data =>
      refine ⟨s.write data, ?_, rfl⟩
      simp only [Piping.step, s.raw_write]
      refine ⟨rfl, ?_, h.bytesReaded, ?_⟩
      · rw [ByteStream.write_bytesWrote, h.bytesWrote, List.length_append, List.length_take,
          min_eq_left (s.writeSize_le_length data)]
      · rw [ByteStream.write_deq, ← List.append_assoc, h.fifo]
  | peekOutput len => exact ⟨s, h, rfl⟩
  | popOutput len =>
      refine ⟨s.popOutput len, ?_, rfl⟩
      simp only [Piping.step, s.raw_popOutput, gone_eq]
      exact h.pop len
  | read len =>
      refine ⟨s.popOutput len, ?_, rfl⟩
      simp only [Piping.step, RawByteStream.read, s.raw_popOutput, s.raw_peekOutput]
      exact h.pop len
  | endInput => exact ⟨s.endInput, ⟨rfl, h.bytesWrote, h.bytesReaded, h.fifo⟩, rfl⟩

end Accounts

theorem exists_accounts (capacity : ℕ) (ops : List StreamOp) :
    ∃ s, (run step (new capacity) ops).Accounts s ∧ s.cap = capacity := by
  refine run_invariant_of_step (I := fun p : Piping ↦ ∃ s, p.Accounts s ∧ s.cap = capacity) ?_
    ⟨.new capacity, accounts_new capacity, rfl⟩ ops
  rintro p op ⟨s, h, hcap⟩
  obtain ⟨s', h', hcap'⟩ := h.step op
  exact ⟨s', h', hcap'.trans hcap⟩

/-- After any operations on a stream: what was removed and what is buffered is what was accepted;
the counters differ by the size of the buffer, which is at most the capacity; a write accepts what
fits; and a read takes what a peek, which changes nothing, would have shown. -/
theorem stream_is_bounded_fifo {capacity : ℕ} (hcapacity : capacity < 2 ^ 64)
    (ops : List StreamOp) :
    let p := run step (new capacity) ops
    p.removed ++ p.stream.deq = p.accepted ∧
    p.stream.bytesWritten = p.accepted.length % 2 ^ 64 ∧
    p.stream.bytesRead = p.removed.length % 2 ^ 64 ∧
    p.stream.bufferSize = sub64 p.stream.bytesWritten p.stream.bytesRead ∧
    p.stream.bufferSize ≤ capacity ∧
    p.stream.remainingCapacity = capacity - p.stream.bufferSize ∧
    (∀ data, (p.stream.write data).2 = min data.length (capacity - p.stream.bufferSize)) ∧
    ∀ len, p.step (.peekOutput len) = p ∧ p.stream.peekOutput len = p.stream.deq.take len ∧
      (p.stream.read len).2 = p.stream.peekOutput len ∧
      (p.stream.read len).1 = p.stream.popOutput len := by
  intro p
  obtain ⟨s, h, rfl⟩ := exists_accounts capacity ops
  have hremaining : p.stream.remainingCapacity = s.cap - p.stream.bufferSize := by
    rw [h.stream]
    exact s.remainingCapacity_eq
  refine ⟨?_, ?_, ?_, ?_, ?_, hremaining, ?_, ?_⟩
  · rw [h.stream]
    exact h.fifo
  · rw [h.stream, ← h.bytesWrote]
    rfl
  · rw [h.stream, ← h.bytesReaded]
    rfl
  · rw [h.stream]
    exact (ByteStream.sub64_counters hcapacity).symm
  · rw [h.stream]
    exact s.length_deq_le
  · intro data
    rw [← hremaining]
    rfl
  · intro len
    refine ⟨rfl, ?_, rfl, rfl⟩
    rw [h.stream, s.raw_peekOutput, s.peekOutput_eq]
    rfl

/-- Five bytes offered to a stream with room for three, before and after two are read. -/
theorem stream_is_bounded_fifo_three :
    let p := run step (new 3) [.write [1, 2, 3, 4, 5], .peekOutput 9, .read 2, .write [6, 7, 8],
      .popOutput 1, .endInput]
    p.removed ++ p.stream.deq = p.accepted ∧ p.accepted = [1, 2, 3, 6, 7] :=
  ⟨(stream_is_bounded_fifo (by decide) [.write [1, 2, 3, 4, 5], .peekOutput 9, .read 2,
    .write [6, 7, 8], .popOutput 1, .endInput]).1, by decide⟩

end Piping

end Sponge
