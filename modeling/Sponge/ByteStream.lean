import Sponge.Lib.Word64

/-!
# The byte stream

A flow-controlled in-memory queue of bytes. The stream carries its own
accounting: it never holds more than its capacity, and every byte written has
either been read or is still buffered.
-/

namespace Sponge

open Lib

structure ByteStream where
  ended : Bool := false
  error : Bool := false
  cap : ℕ
  bytesWrote : ℕ := 0
  bytesReaded : ℕ := 0
  deq : List UInt8 := []
  length_deq_le : deq.length ≤ cap
  bytesWrote_eq : bytesWrote = bytesReaded + deq.length
  deriving DecidableEq

namespace ByteStream

def new (capacity : ℕ) : ByteStream where
  cap := capacity
  length_deq_le := Nat.zero_le _
  bytesWrote_eq := rfl

def inputEnded (s : ByteStream) : Bool := s.ended

def bufferSize (s : ByteStream) : ℕ := s.deq.length

def bufferEmpty (s : ByteStream) : Bool := s.deq.length == 0

def eof (s : ByteStream) : Bool := s.bufferEmpty && s.inputEnded

def bytesWritten (s : ByteStream) : ℕ := s.bytesWrote

def bytesRead (s : ByteStream) : ℕ := s.bytesReaded

def remainingCapacity (s : ByteStream) : ℕ := sub64 s.cap s.deq.length

theorem remainingCapacity_eq (s : ByteStream) :
    s.remainingCapacity = s.cap - s.deq.length :=
  sub64_of_le s.length_deq_le

/-- The number of bytes of `data` that `write` accepts. -/
def writeSize (s : ByteStream) (data : List UInt8) : ℕ :=
  min data.length s.remainingCapacity

def write (s : ByteStream) (data : List UInt8) : ByteStream where
  ended := s.ended
  error := s.error
  cap := s.cap
  bytesWrote := s.bytesWrote + s.writeSize data
  bytesReaded := s.bytesReaded
  deq := s.deq ++ data.take (s.writeSize data)
  length_deq_le := by
    have h := s.length_deq_le
    simp only [writeSize, remainingCapacity_eq, List.length_append, List.length_take]
    omega
  bytesWrote_eq := by
    have h := s.bytesWrote_eq
    simp only [writeSize, List.length_append, List.length_take]
    omega

def peekOutput (s : ByteStream) (len : ℕ) : List UInt8 :=
  s.deq.take (min len s.deq.length)

def popOutput (s : ByteStream) (len : ℕ) : ByteStream where
  ended := s.ended
  error := s.error
  cap := s.cap
  bytesWrote := s.bytesWrote
  bytesReaded := s.bytesReaded + min len s.deq.length
  deq := s.deq.drop (min len s.deq.length)
  length_deq_le := by
    have h := s.length_deq_le
    simp only [List.length_drop]
    omega
  bytesWrote_eq := by
    have h := s.bytesWrote_eq
    simp only [List.length_drop]
    omega

/-- Copy and then pop the next `len` bytes. -/
def read (s : ByteStream) (len : ℕ) : ByteStream × List UInt8 :=
  (s.popOutput len, s.peekOutput len)

def endInput (s : ByteStream) : ByteStream := { s with ended := true }

def setError (s : ByteStream) : ByteStream := { s with error := true }

section projections

variable (s : ByteStream) (data : List UInt8) (len : ℕ)

@[simp] theorem write_ended : (s.write data).ended = s.ended := rfl
@[simp] theorem write_bytesReaded : (s.write data).bytesReaded = s.bytesReaded := rfl
@[simp] theorem write_bytesWrote :
    (s.write data).bytesWrote = s.bytesWrote + s.writeSize data := rfl
@[simp] theorem write_deq :
    (s.write data).deq = s.deq ++ data.take (s.writeSize data) := rfl

@[simp] theorem popOutput_bytesReaded :
    (s.popOutput len).bytesReaded = s.bytesReaded + min len s.deq.length := rfl
@[simp] theorem popOutput_deq : (s.popOutput len).deq = s.deq.drop len := by
  simp only [popOutput]
  rcases le_total len s.deq.length with h | h
  · rw [min_eq_left h]
  · rw [min_eq_right h, List.drop_length, List.drop_of_length_le h]

theorem popOutput_zero : s.popOutput 0 = s := by
  simp [popOutput]

theorem write_of_writeSize_eq_zero (h : s.writeSize data = 0) : s.write data = s := by
  simp [write, h]

theorem endInput_of_ended (h : s.ended = true) : s.endInput = s := by
  cases s
  cases h
  rfl

@[simp] theorem peekOutput_eq : s.peekOutput len = s.deq.take len := by
  simp only [peekOutput]
  rcases le_total len s.deq.length with h | h
  · rw [min_eq_left h]
  · rw [min_eq_right h, List.take_length, List.take_of_length_le h]

@[simp] theorem endInput_ended : s.endInput.ended = true := rfl

-- A stream that is ended under a condition keeps its bytes.
variable {p : Prop} [Decidable p]

@[simp] theorem cap_ite_endInput : (if p then s.endInput else s).cap = s.cap := by
  split <;> rfl

@[simp] theorem error_ite_endInput : (if p then s.endInput else s).error = s.error := by
  split <;> rfl

@[simp] theorem bytesWrote_ite_endInput :
    (if p then s.endInput else s).bytesWrote = s.bytesWrote := by
  split <;> rfl

@[simp] theorem bytesReaded_ite_endInput :
    (if p then s.endInput else s).bytesReaded = s.bytesReaded := by
  split <;> rfl

@[simp] theorem deq_ite_endInput : (if p then s.endInput else s).deq = s.deq := by
  split <;> rfl

theorem ended_ite_endInput :
    (if p then s.endInput else s).ended = true ↔ p ∨ s.ended = true := by
  split_ifs with h <;> simp [h]

end projections

/-- The streams differ at most in their error flags and capacities. -/
structure SameBytes (s t : ByteStream) : Prop where
  ended : s.ended = t.ended
  deq : s.deq = t.deq
  bytesReaded : s.bytesReaded = t.bytesReaded

theorem SameBytes.bytesWrote {s t : ByteStream} (h : s.SameBytes t) :
    s.bytesWrote = t.bytesWrote := by
  rw [s.bytesWrote_eq, t.bytesWrote_eq, h.deq, h.bytesReaded]

theorem SameBytes.eof {s t : ByteStream} (h : s.SameBytes t) : s.eof = t.eof := by
  simp [ByteStream.eof, bufferEmpty, inputEnded, h.deq, h.ended]

theorem SameBytes.eq {s t : ByteStream} (h : s.SameBytes t) (herror : s.error = t.error)
    (hcap : s.cap = t.cap) : s = t := by
  have hwrote := h.bytesWrote
  obtain ⟨hended, hdeq, hread⟩ := h
  cases s
  cases t
  simp_all

theorem sameBytes_setError (s : ByteStream) : s.setError.SameBytes s := ⟨rfl, rfl, rfl⟩

theorem writeSize_le_length (s : ByteStream) (data : List UInt8) :
    s.writeSize data ≤ data.length :=
  min_le_left _ _

theorem eof_iff (s : ByteStream) : s.eof = true ↔ s.deq = [] ∧ s.ended = true := by
  simp [eof, bufferEmpty, inputEnded]

end ByteStream

end Sponge
