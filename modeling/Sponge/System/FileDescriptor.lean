import Sponge.Codec.Buffer
import Sponge.Lib.Outcome

/-!
# File descriptors

A descriptor counts how often it was read and written and remembers the end of
its input. The kernel is on the other side: what a system call returns is an
argument of the function that makes it, an error or a result. A write takes as
many bytes as the kernel likes and, if asked to, goes on until all are taken.
-/

namespace Sponge

open Lib

/-- The error of a failed system call: its number and its text. -/
structure UnixError where
  code : ℕ
  what : String
  deriving DecidableEq

/-- What a system call returned, or an exception that names what was attempted. -/
def systemCall {α : Type} (attempt : String) (returned : Except UnixError α) :
    Except Exception α :=
  returned.mapError fun e ↦ .runtimeError (attempt ++ ": " ++ e.what)

structure FileDescriptor where
  eof : Bool := false
  closed : Bool := false
  readCount : UInt32 := 0
  writeCount : UInt32 := 0
  deriving DecidableEq

namespace FileDescriptor

def registerRead (fd : FileDescriptor) : FileDescriptor :=
  { fd with readCount := fd.readCount + 1 }

def registerWrite (fd : FileDescriptor) : FileDescriptor :=
  { fd with writeCount := fd.writeCount + 1 }

def close (fd : FileDescriptor) (returned : Except UnixError Unit) :
    Except Exception FileDescriptor := do
  systemCall "close" returned
  return { fd with eof := true, closed := true }

/-- The maximum size of a read. -/
def readSize : ℕ := 1024 * 1024

/-- Reads up to `limit` bytes. -/
def read (fd : FileDescriptor) (limit : ℕ) (returned : Except UnixError (List UInt8)) :
    Except Exception (List UInt8 × FileDescriptor) := do
  let sizeToRead := min readSize limit
  let str ← systemCall "read" returned
  let fd := if limit > 0 ∧ str.length = 0 then { fd with eof := true } else fd
  if str.length > sizeToRead then throw (.runtimeError "read() read more than requested")
  return (str, fd.registerRead)

/-- The loop of `write`. The kernel answers system call number `call` with `returned call`; the
bytes it took are listed beside the total. -/
def writeLoop (writeAll : Bool) (returned : ℕ → Except UnixError ℕ) (call : ℕ)
    (fd : FileDescriptor) (buffer : BufferViewList) (totalBytesWritten : ℕ) :
    Except Exception (ℕ × List UInt8 × FileDescriptor) :=
  match systemCall "writev" (returned call) with
  | .error e => .error e
  | .ok bytesWritten =>
    if bytesWritten = 0 ∧ buffer.size ≠ 0 then
      .error (.runtimeError "write returned 0 given non-empty input buffer")
    else if bytesWritten > buffer.size then
      .error (.runtimeError "write wrote more than length of input buffer")
    else
      match _hrest : buffer.removePrefix bytesWritten with
      | .error e => .error e
      | .ok rest =>
        if _hloop : writeAll = true ∧ rest.size ≠ 0 then do
          let (total, taken, fd) ← writeLoop writeAll returned (call + 1) fd.registerWrite rest
            (totalBytesWritten + bytesWritten)
          return (total, buffer.bytes.take bytesWritten ++ taken, fd)
        else
          return (totalBytesWritten + bytesWritten, buffer.bytes.take bytesWritten,
            fd.registerWrite)
termination_by buffer.size
decreasing_by
  -- something was taken, since what is left is not empty
  obtain ⟨rest', hok, -, hsize⟩ :=
    BufferViewList.removePrefix_of_le (v := buffer) (n := bytesWritten) (by omega)
  have heq : rest' = rest := Except.ok.inj (hok.symm.trans _hrest)
  subst heq
  omega

/-- Writes a list of views and returns how many bytes were taken. -/
def write (fd : FileDescriptor) (buffer : BufferViewList) (writeAll : Bool)
    (returned : ℕ → Except UnixError ℕ) : Except Exception (ℕ × List UInt8 × FileDescriptor) :=
  fd.writeLoop writeAll returned 0 buffer 0

end FileDescriptor

/-- What the kernel answers to the system calls of a callback. -/
structure Answers where
  read : Except UnixError (List UInt8) := .ok []
  write : ℕ → Except UnixError ℕ := fun _ ↦ .ok 0
  shutdown : Except UnixError Unit := .ok ()
  close : Except UnixError Unit := .ok ()

/-- An exception for which the kernel is to blame: a system call failed or returned what it must
not return. -/
inductive KernelFault : Exception → Prop
  | failed {attempt : String} (e : UnixError)
      (h : attempt ∈ ["read", "writev", "shutdown", "close", "recvfrom"]) :
      KernelFault (.runtimeError (attempt ++ ": " ++ e.what))
  | readMore : KernelFault (.runtimeError "read() read more than requested")
  | wroteNothing : KernelFault (.runtimeError "write returned 0 given non-empty input buffer")
  | wroteMore : KernelFault (.runtimeError "write wrote more than length of input buffer")
  | oversized : KernelFault (.runtimeError "recvfrom (oversized datagram)")
  | polled : KernelFault (.runtimeError "EventLoop: error on polled file descriptor")

theorem ends_systemCall {α : Type} {attempt : String}
    (h : attempt ∈ ["read", "writev", "shutdown", "close", "recvfrom"])
    (returned : Except UnixError α) :
    Ends KernelFault (fun a ↦ returned = .ok a) (systemCall attempt returned) := by
  cases returned with
  | ok a => exact rfl
  | error e => exact .failed e h

namespace FileDescriptor

/-- A read returns what the kernel does, at most as much as was asked for, and sees the end of
the input when that is nothing. -/
theorem ends_read (fd : FileDescriptor) (limit : ℕ) (returned : Except UnixError (List UInt8)) :
    Ends KernelFault (fun r : List UInt8 × FileDescriptor ↦
      returned = .ok r.1 ∧ r.1.length ≤ limit ∧
        ∃ eof, (eof = true ↔ fd.eof = true ∨ 0 < limit ∧ r.1 = []) ∧
          r.2 = { fd with eof := eof, readCount := fd.readCount + 1 })
      (fd.read limit returned) := by
  refine (ends_systemCall (by simp) returned).bind fun str hstr ↦ ?_
  refine Ends.of_ite (fun _ ↦ .readMore) fun hle ↦ ?_
  refine Ends.of_pure ⟨hstr, show str.length ≤ limit by omega, ?_⟩
  by_cases heof : limit > 0 ∧ str.length = 0
  · refine ⟨true, ?_, by simp only [if_pos heof, registerRead]⟩
    simp [heof.1, List.length_eq_zero_iff.mp heof.2]
  · refine ⟨fd.eof, ?_, by simp only [if_neg heof, registerRead]⟩
    rw [List.length_eq_zero_iff] at heof
    simp [heof]

/-- The system calls of a write, from number `call` on, that took `sizes` bytes of the buffer: there
is at least one, each took something unless there was nothing, and a write of everything goes on
to the end while another one stops after the first call. -/
structure Wrote (writeAll : Bool) (returned : ℕ → Except UnixError ℕ) (call : ℕ)
    (buffer : BufferViewList) (sizes : List ℕ) : Prop where
  ne_nil : sizes ≠ []
  answered : ∀ i n, sizes[i]? = some n → returned (call + i) = .ok n
  sum_le : sizes.sum ≤ buffer.size
  zero_notMem : buffer.size ≠ 0 → 0 ∉ sizes
  once : writeAll = false ∨ buffer.size = 0 → sizes.length = 1
  all : writeAll = true → sizes.sum = buffer.size

section

variable {writeAll : Bool} {returned : ℕ → Except UnixError ℕ} {call n : ℕ}
  {buffer rest : BufferViewList} {sizes : List ℕ}

theorem Wrote.last (hcall : returned call = .ok n) (hle : n ≤ buffer.size)
    (hsome : buffer.size ≠ 0 → n ≠ 0) (hall : writeAll = true → n = buffer.size) :
    Wrote writeAll returned call buffer [n] where
  ne_nil := List.cons_ne_nil _ _
  answered := by
    intro i m hi
    cases i with
    | zero => exact Option.some.inj hi ▸ hcall
    | succ i => cases hi
  sum_le := hle
  zero_notMem := fun hsize hzero ↦ hsome hsize (List.mem_singleton.mp hzero).symm
  once := fun _ ↦ rfl
  all := hall

/-- A call that leaves something is followed by those for the rest. -/
theorem Wrote.cons (hcall : returned call = .ok n) (hn : n ≠ 0)
    (hsize : n + rest.size = buffer.size)
    (h : Wrote true returned (call + 1) rest sizes) (hrest : rest.size ≠ 0) :
    Wrote true returned call buffer (n :: sizes) where
  ne_nil := List.cons_ne_nil _ _
  answered := by
    intro i m hi
    cases i with
    | zero => exact Option.some.inj hi ▸ hcall
    | succ i =>
        rw [← Nat.succ_add_eq_add_succ]
        exact h.answered i m hi
  sum_le := by
    have hsum := h.sum_le
    rw [List.sum_cons]
    omega
  zero_notMem := fun _ hzero ↦
    (List.mem_cons.mp hzero).elim (fun heq ↦ hn heq.symm) (h.zero_notMem hrest)
  once := by
    rintro (hnot | hzero)
    · cases hnot
    · omega
  all := fun _ ↦ by rw [List.sum_cons, h.all rfl, hsize]

end

/-- What the loop of `write` ends with, whatever the kernel answers. -/
theorem ends_writeLoop (writeAll : Bool) (returned : ℕ → Except UnixError ℕ) (call : ℕ)
    (fd : FileDescriptor) (buffer : BufferViewList) (total : ℕ) :
    Ends KernelFault (fun r : ℕ × List UInt8 × FileDescriptor ↦
      ∃ sizes, Wrote writeAll returned call buffer sizes ∧
        r = (total + sizes.sum, buffer.bytes.take sizes.sum,
          { fd with writeCount := fd.writeCount + UInt32.ofNat sizes.length }))
      (fd.writeLoop writeAll returned call buffer total) := by
  induction hn : buffer.size using Nat.strong_induction_on generalizing call fd buffer total with
  | _ n ih =>
      subst hn
      rw [writeLoop]
      have hcall : Ends KernelFault (fun n ↦ returned call = .ok n)
          (systemCall "writev" (returned call)) := ends_systemCall (by simp) _
      generalize systemCall "writev" (returned call) = result at hcall ⊢
      cases result with
      | error e => exact hcall
      | ok bytesWritten =>
          refine Ends.of_ite (fun _ ↦ .wroteNothing) fun hsome ↦ ?_
          refine Ends.of_ite (fun _ ↦ .wroteMore) fun hle ↦ ?_
          obtain ⟨rest, hok, hbytes, hsize⟩ :=
            BufferViewList.removePrefix_of_le (v := buffer) (n := bytesWritten) (by omega)
          split
          · rename_i e herror
            rw [hok] at herror
            cases herror
          · rename_i rest' hrest
            obtain rfl : rest = rest' := Except.ok.inj (hok.symm.trans hrest)
            split
            · rename_i hloop
              obtain ⟨rfl, hleft⟩ := hloop
              refine (ih rest.size (by omega) (call + 1) fd.registerWrite rest _ rfl).bind ?_
              rintro _ ⟨sizes, hsizes, rfl⟩
              refine Ends.of_pure ⟨bytesWritten :: sizes,
                .cons hcall (by omega) (by omega) hsizes hleft, ?_⟩
              simp only [List.sum_cons, List.length_cons, registerWrite, hbytes, Prod.mk.injEq,
                FileDescriptor.mk.injEq, true_and]
              refine ⟨by omega, (List.take_add ..).symm, ?_⟩
              rw [Nat.add_comm, UInt32.ofNat_add, UInt32.add_assoc]
              rfl
            · rename_i hstop
              refine Ends.of_pure ⟨[bytesWritten],
                .last hcall (by omega) (by omega) fun hall ↦ ?_, rfl⟩
              have hzero : rest.size = 0 := by
                by_contra hne
                exact hstop ⟨hall, hne⟩
              omega

end FileDescriptor

/-- A descriptor with the bytes that went through it. -/
structure Channel extends FileDescriptor where
  received : List UInt8 := []
  written : List UInt8 := []
  deriving DecidableEq

namespace Channel

def read (c : Channel) (limit : ℕ) (returned : Except UnixError (List UInt8)) :
    Except Exception (List UInt8 × Channel) := do
  let (str, fd) ← c.toFileDescriptor.read limit returned
  return (str, { c with toFileDescriptor := fd, received := c.received ++ str })

/-- Writes a string and returns how many of its bytes were taken. -/
def write (c : Channel) (str : List UInt8) (writeAll : Bool)
    (returned : ℕ → Except UnixError ℕ) : Except Exception (ℕ × Channel) := do
  let (total, taken, fd) ← c.toFileDescriptor.write [str] writeAll returned
  return (total, { c with toFileDescriptor := fd, written := c.written ++ taken })

/-- `shutdown(SHUT_WR)`. -/
def shutdownWrite (c : Channel) (returned : Except UnixError Unit) :
    Except Exception Channel := do
  systemCall "shutdown" returned
  return { c with toFileDescriptor := c.registerWrite }

def close (c : Channel) (returned : Except UnixError Unit) : Except Exception Channel := do
  let fd ← c.toFileDescriptor.close returned
  return { c with toFileDescriptor := fd }

variable (c : Channel)

theorem ends_read (limit : ℕ) (returned : Except UnixError (List UInt8)) :
    Ends KernelFault (fun r : List UInt8 × Channel ↦ r.1.length ≤ limit ∧
      ∃ eof, (eof = true ↔ c.eof = true ∨ 0 < limit ∧ r.1 = []) ∧
        r.2 = { c with
          eof := eof
          readCount := c.readCount + 1
          received := c.received ++ r.1 }) (c.read limit returned) := by
  refine (FileDescriptor.ends_read _ limit returned).bind_pair ?_
  rintro str fd ⟨-, hle, eof, heof, hfd⟩
  dsimp only at hfd
  exact Ends.of_pure ⟨hle, eof, heof, by rw [hfd]⟩

/-- One write takes a beginning of the string. -/
theorem ends_write (str : List UInt8) (returned : ℕ → Except UnixError ℕ) :
    Ends KernelFault (fun r : ℕ × Channel ↦ r.1 ≤ str.length ∧ (str ≠ [] → r.1 ≠ 0) ∧
      r.2 = { c with
        writeCount := c.writeCount + 1
        written := c.written ++ str.take r.1 }) (c.write str false returned) := by
  refine (FileDescriptor.ends_writeLoop false returned 0 _ [str] 0).bind ?_
  rintro _ ⟨sizes, hsizes, rfl⟩
  have hbytes : BufferViewList.bytes [str] = str := by simp [BufferViewList.bytes]
  have hsize : BufferViewList.size [str] = str.length := by
    rw [BufferViewList.size_eq, hbytes]
  obtain ⟨n, rfl⟩ := List.length_eq_one_iff.mp (hsizes.once (Or.inl rfl))
  have hle := hsizes.sum_le
  have hsome := hsizes.zero_notMem
  rw [hsize] at hle hsome
  simp only [List.sum_singleton, hbytes, Nat.zero_add] at hle ⊢
  refine Ends.of_pure ⟨hle, fun hne hzero ↦ ?_, rfl⟩
  exact hsome (List.length_pos_iff.mpr hne).ne' (List.mem_singleton.mpr hzero.symm)

theorem ends_shutdownWrite (returned : Except UnixError Unit) :
    Ends KernelFault (fun c' ↦ c' = { c with writeCount := c.writeCount + 1 })
      (c.shutdownWrite returned) :=
  (ends_systemCall (by simp) returned).bind fun _ _ ↦ Ends.of_pure rfl

theorem ends_close (returned : Except UnixError Unit) :
    Ends KernelFault (fun c' ↦ c' = { c with eof := true, closed := true }) (c.close returned) :=
  ((ends_systemCall (by simp) returned).bind fun _ _ ↦
    Ends.of_pure rfl : Ends KernelFault (· = _) (c.toFileDescriptor.close returned)).bind
      fun _ h ↦ Ends.of_pure (h ▸ rfl)

end Channel

end Sponge
