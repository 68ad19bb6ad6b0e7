import Sponge.ByteStream
import Sponge.System.EventLoop

/-!
# Copying streams in both directions

`bidirectional_stream_copy` copies its input to a socket and the socket to its
output, through a byte stream for each direction and with one rule of the event
loop for each end of a stream. No byte is lost, repeated or moved, however much
the kernel takes or gives at a time; the socket is shut down and the output
closed only when all that was read has been written.
-/

namespace Sponge

open Lib EventLoop

/-- The variables of `bidirectional_stream_copy`. -/
structure StreamCopy where
  socket : Channel := {}
  input : Channel := {}
  output : Channel := {}
  outbound : ByteStream
  inbound : ByteStream
  outboundShutdown : Bool := false
  inboundShutdown : Bool := false

namespace StreamCopy

def maxCopyLength : ℕ := 65536

def bufferSize : ℕ := 1048576

def new : StreamCopy where
  outbound := .new bufferSize
  inbound := .new bufferSize

/-- The rules, in the order in which they are added. -/
inductive Name where
  | readInput
  | writeSocket
  | readSocket
  | writeOutput
  deriving DecidableEq

/-- Reads from a descriptor into a stream. -/
def fill (source : Channel) (stream : ByteStream) (answers : Answers) :
    Except Exception (Channel × ByteStream) := do
  let (data, source) ← source.read stream.remainingCapacity answers.read
  let stream := stream.write data
  return (source, if source.eof then stream.endInput else stream)

/-- Writes from a stream to a descriptor. -/
def drain (stream : ByteStream) (sink : Channel) (answers : Answers) :
    Except Exception (ByteStream × Channel) := do
  let bytesToWrite := min maxCopyLength stream.bufferSize
  let (bytesWritten, sink) ← sink.write (stream.peekOutput bytesToWrite) false answers.write
  return (stream.popOutput bytesWritten, sink)

def readInput (answers : Answers) (s : StreamCopy) : Except Exception StreamCopy := do
  let (input, outbound) ← fill s.input s.outbound answers
  return { s with input, outbound }

def writeSocket (answers : Answers) (s : StreamCopy) : Except Exception StreamCopy := do
  let (outbound, socket) ← drain s.outbound s.socket answers
  if outbound.eof then
    let socket ← socket.shutdownWrite answers.shutdown
    return { s with outbound, socket, outboundShutdown := true }
  else return { s with outbound, socket }

def readSocket (answers : Answers) (s : StreamCopy) : Except Exception StreamCopy := do
  let (socket, inbound) ← fill s.socket s.inbound answers
  return { s with socket, inbound }

def writeOutput (answers : Answers) (s : StreamCopy) : Except Exception StreamCopy := do
  let (inbound, output) ← drain s.inbound s.output answers
  if inbound.eof then
    let output ← output.close answers.close
    return { s with inbound, output, inboundShutdown := true }
  else return { s with inbound, output }

def rule : Name → Rule StreamCopy Answers
  | .readInput =>
    { fd := fun s ↦ s.input.toFileDescriptor
      direction := .pollIn
      callback := readInput
      interest := fun s ↦
        !s.outbound.error && decide (s.outbound.remainingCapacity > 0) && !s.inbound.error
      cancel := fun s ↦ .ok { s with outbound := s.outbound.endInput } }
  | .writeSocket =>
    { fd := fun s ↦ s.socket.toFileDescriptor
      direction := .pollOut
      callback := writeSocket
      interest := fun s ↦ !s.outbound.bufferEmpty || s.outbound.eof && !s.outboundShutdown
      cancel := fun s ↦ .ok { s with outbound := s.outbound.endInput } }
  | .readSocket =>
    { fd := fun s ↦ s.socket.toFileDescriptor
      direction := .pollIn
      callback := readSocket
      interest := fun s ↦
        !s.inbound.error && decide (s.inbound.remainingCapacity > 0) && !s.outbound.error
      cancel := fun s ↦ .ok { s with inbound := s.inbound.endInput } }
  | .writeOutput =>
    { fd := fun s ↦ s.output.toFileDescriptor
      direction := .pollOut
      callback := writeOutput
      interest := fun s ↦ !s.inbound.bufferEmpty || s.inbound.eof && !s.inboundShutdown
      cancel := fun s ↦ .ok { s with inbound := s.inbound.endInput } }

def rules : List Name := [.readInput, .writeSocket, .readSocket, .writeOutput]

/-- The loop, for as many calls as `poll` answers. -/
def bidirectionalStreamCopy (polls : List (Polled Answers)) :
    Except Exception (Bool × List Name × StreamCopy) :=
  untilExit rule polls rules new

/-- One direction of the copy, with whether its reader and its writer are live. What was written
to the sink, followed by what is buffered, is what was read from the source. The stream of a
live writer ends only after its reader did; when it was shut down it was empty and had no reader
any more. -/
structure Relays (reader writer : Prop) (source : Channel) (stream : ByteStream) (sink : Channel)
    (done : Bool) : Prop where
  bytes : sink.written ++ stream.deq = source.received
  ended : stream.ended = true → writer → reader → source.eof = true
  finished : done = true → stream.deq = [] ∧ (reader → source.eof = true)

namespace Relays

variable {reader writer : Prop} {source source' sink sink' : Channel} {stream : ByteStream}
  {done : Bool}

theorem written_eq (h : Relays reader writer source stream sink done)
    (hempty : stream.deq = []) : sink.written = source.received := by
  rw [← h.bytes, hempty, List.append_nil]

/-- Rules may be given up, and only the bytes and the end of the source count. -/
theorem mono (h : Relays reader writer source stream sink done) {reader' writer' : Prop}
    (hreader : reader' → reader) (hwriter : writer' → writer)
    (hreceived : source'.received = source.received) (heof : source'.eof = source.eof)
    (hwritten : sink'.written = sink.written) :
    Relays reader' writer' source' stream sink' done where
  bytes := by rw [hreceived, hwritten, h.bytes]
  ended hended hw hr := heof ▸ h.ended hended (hwriter hw) (hreader hr)
  finished hdone := ⟨(h.finished hdone).1, fun hr ↦ heof ▸ (h.finished hdone).2 (hreader hr)⟩

/-- A stream may be ended when its reader or its writer is given up. -/
theorem endInput (h : Relays reader writer source stream sink done) {reader' writer' : Prop}
    (hreader : reader' → reader) (hlost : ¬reader' ∨ ¬writer') :
    Relays reader' writer' source stream.endInput sink done where
  bytes := h.bytes
  ended _ hw hr := (hlost.elim (· hr) (· hw)).elim
  finished hdone := ⟨(h.finished hdone).1, fun hr ↦ (h.finished hdone).2 (hreader hr)⟩

/-- A read fits in the stream, so that all of it is kept. -/
theorem ends_fill (h : Relays reader writer source stream sink done) (hreader : reader)
    (heof : source.eof = false) (answers : Answers) :
    Ends KernelFault (fun r : Channel × ByteStream ↦
      Relays reader writer r.1 r.2 sink done ∧ r.1.readCount = source.readCount + 1 ∧
        r.1.written = source.written) (fill source stream answers) := by
  refine (source.ends_read _ answers.read).bind_pair ?_
  rintro data source' ⟨hle, eof, -, hsource⟩
  dsimp only at hle hsource
  subst hsource
  have htake : data.take (stream.writeSize data) = data :=
    List.take_of_length_le (le_min (le_refl _) hle)
  have hopen : ∀ p : Prop, (p → source.eof = true) → p → eof = true := by
    intro p hp hp'
    rw [heof] at hp
    exact absurd (hp hp') Bool.false_ne_true
  refine Ends.of_pure ⟨⟨?_, fun hended hw _ ↦ ?_, fun hdone ↦ ?_⟩, rfl, rfl⟩
  · rw [ByteStream.deq_ite_endInput, ByteStream.write_deq, htake, ← List.append_assoc, h.bytes]
  · rcases (ByteStream.ended_ite_endInput _).mp hended with hnow | hold
    · exact hnow
    · exact hopen _ (fun _ ↦ h.ended hold hw hreader) trivial
  · have hnever := (h.finished hdone).2 hreader
    rw [heof] at hnever
    exact absurd hnever Bool.false_ne_true

/-- What is written is taken off the front of the stream. If the stream is at its end after
that, it may be shut down. -/
theorem ends_drain (h : Relays reader writer source stream sink done) (hwriter : writer)
    (answers : Answers) :
    Ends KernelFault (fun r : ByteStream × Channel ↦
      Relays reader writer source r.1 r.2 done ∧
        (r.1.eof = true → Relays reader writer source r.1 r.2 true) ∧
        r.2 = { sink with
          writeCount := sink.writeCount + 1
          written := r.2.written }) (drain stream sink answers) := by
  refine (sink.ends_write _ answers.write).bind_pair ?_
  rintro n sink' ⟨hle, -, hsink⟩
  dsimp only at hle hsink
  subst hsink
  have hfront : (stream.peekOutput (min maxCopyLength stream.bufferSize)).take n =
      stream.deq.take n := by
    rw [ByteStream.peekOutput_eq, List.length_take] at hle
    rw [ByteStream.peekOutput_eq, List.take_take, min_eq_left (by omega)]
  have hrelays : Relays reader writer source (stream.popOutput n)
      { sink with
        writeCount := sink.writeCount + 1
        written := sink.written ++
          (stream.peekOutput (min maxCopyLength stream.bufferSize)).take n } done := by
    refine ⟨?_, h.ended, fun hdone ↦ ⟨?_, (h.finished hdone).2⟩⟩
    · rw [hfront, ByteStream.popOutput_deq, List.append_assoc, List.take_append_drop, h.bytes]
    · rw [ByteStream.popOutput_deq, (h.finished hdone).1, List.drop_nil]
  refine Ends.of_pure ⟨hrelays, fun heof ↦ ⟨hrelays.bytes, h.ended, fun _ ↦ ?_⟩, rfl⟩
  obtain ⟨hempty, hended⟩ := (ByteStream.eof_iff _).mp heof
  exact ⟨hempty, h.ended hended hwriter⟩

end Relays

/-- What holds between the calls: both directions relay. -/
structure Copies (live : List Name) (s : StreamCopy) : Prop where
  outbound : Relays (.readInput ∈ live) (.writeSocket ∈ live) s.input s.outbound s.socket
    s.outboundShutdown
  inbound : Relays (.readSocket ∈ live) (.writeOutput ∈ live) s.socket s.inbound s.output
    s.inboundShutdown

/-- What is known since a rule was asked: a reader has not come to its end, and a writer without
interest had nothing to write. -/
def noted : Name → Bool → StreamCopy → Prop
  | .readInput, _, s => s.input.eof = false
  | .writeSocket, answer, s => answer = false → s.outbound.deq = []
  | .readSocket, _, s => s.socket.eof = false
  | .writeOutput, answer, s => answer = false → s.inbound.deq = []

theorem noted_interest {s : StreamCopy} {k : Name}
    (heof : ¬((rule k).direction = .pollIn ∧ ((rule k).fd s).eof = true)) :
    noted k ((rule k).interest s) s := by
  cases k with
  | readInput => simpa [rule, noted] using heof
  | readSocket => simpa [rule, noted] using heof
  | writeSocket =>
      intro hno
      have hempty := (Bool.or_eq_false_iff.mp hno).1
      simpa [ByteStream.bufferEmpty] using hempty
  | writeOutput =>
      intro hno
      have hempty := (Bool.or_eq_false_iff.mp hno).1
      simpa [ByteStream.bufferEmpty] using hempty

/-- A writer that was asked for its interest and had it relies on nothing. -/
theorem noted_mono {s s' : StreamCopy} (j : Name) (h : noted j true s)
    (hinput : s'.input.eof = s.input.eof) (hsocket : s'.socket.eof = s.socket.eof) :
    noted j true s' := by
  cases j with
  | readInput => exact hinput.trans h
  | writeSocket => exact fun hno ↦ absurd hno.symm Bool.false_ne_true
  | readSocket => exact hsocket.trans h
  | writeOutput => exact fun hno ↦ absurd hno.symm Bool.false_ne_true

variable {live : List Name} {s : StreamCopy}

theorem Copies.readInput (h : Copies live s) (hmem : .readInput ∈ live)
    (hnoted : noted .readInput true s) (answers : Answers) :
    Ends KernelFault (fun s' ↦ Copies live s' ∧
      ∀ j, j ≠ .readInput → noted j true s → noted j true s')
      ((rule .readInput).service answers s) := by
  refine Rule.ends_service ((h.outbound.ends_fill hmem hnoted answers).bind_pair ?_)
  rintro input outbound ⟨hrelays, hcount, -⟩
  dsimp only at hcount
  refine Ends.of_pure ⟨⟨⟨hrelays, h.inbound⟩, fun j hj hj' ↦ ?_⟩, Or.inl fun heq ↦ ?_⟩
  · cases j with
    | readInput => exact absurd rfl hj
    | writeSocket => exact fun hno ↦ absurd hno.symm Bool.false_ne_true
    | readSocket => exact hj'
    | writeOutput => exact fun hno ↦ absurd hno.symm Bool.false_ne_true
  · have hsame : s.input.readCount = input.readCount := heq
    simp [hcount] at hsame

theorem Copies.readSocket (h : Copies live s) (hmem : .readSocket ∈ live)
    (hnoted : noted .readSocket true s) (answers : Answers) :
    Ends KernelFault (fun s' ↦ Copies live s' ∧
      ∀ j, j ≠ .readSocket → noted j true s → noted j true s')
      ((rule .readSocket).service answers s) := by
  refine Rule.ends_service ((h.inbound.ends_fill hmem hnoted answers).bind_pair ?_)
  rintro socket inbound ⟨hrelays, hcount, hwritten⟩
  dsimp only at hcount
  refine Ends.of_pure ⟨⟨⟨?_, hrelays⟩, fun j hj hj' ↦ ?_⟩, Or.inl fun heq ↦ ?_⟩
  · exact h.outbound.mono id id rfl rfl hwritten
  · cases j with
    | readInput => exact hj'
    | writeSocket => exact fun hno ↦ absurd hno.symm Bool.false_ne_true
    | readSocket => exact absurd rfl hj
    | writeOutput => exact fun hno ↦ absurd hno.symm Bool.false_ne_true
  · have hsame : s.socket.readCount = socket.readCount := heq
    simp [hcount] at hsame

theorem Copies.writeSocket (h : Copies live s) (hmem : .writeSocket ∈ live)
    (answers : Answers) :
    Ends KernelFault (fun s' ↦ Copies live s' ∧
      ∀ j, j ≠ .writeSocket → noted j true s → noted j true s')
      ((rule .writeSocket).service answers s) := by
  refine Rule.ends_service ((h.outbound.ends_drain hmem answers).bind_pair ?_)
  rintro outbound socket ⟨hrelays, hdone, hsocket⟩
  dsimp only at hrelays hdone hsocket
  have hinbound : Relays (.readSocket ∈ live) (.writeOutput ∈ live) socket s.inbound s.output
      s.inboundShutdown := h.inbound.mono id id (by rw [hsocket]) (by rw [hsocket]) rfl
  have heof : socket.eof = s.socket.eof := by rw [hsocket]
  have hcount : socket.writeCount = s.socket.writeCount + 1 := by rw [hsocket]
  refine Ends.of_ite (fun hend ↦ ?_) fun _ ↦ ?_
  · refine (socket.ends_shutdownWrite answers.shutdown).bind ?_
    rintro socket' rfl
    refine Ends.of_pure ⟨⟨⟨?_, ?_⟩, fun j _ hj ↦ noted_mono j hj rfl heof⟩, Or.inl fun heq ↦ ?_⟩
    · exact (hdone hend).mono id id rfl rfl rfl
    · exact hinbound.mono id id rfl rfl rfl
    · have hsame : s.socket.writeCount = socket.writeCount + 1 := heq
      rw [hcount, UInt32.add_assoc] at hsame
      simp at hsame
  · refine Ends.of_pure ⟨⟨⟨hrelays, hinbound⟩, fun j _ hj ↦ noted_mono j hj rfl heof⟩,
      Or.inl fun heq ↦ ?_⟩
    have hsame : s.socket.writeCount = socket.writeCount := heq
    simp [hcount] at hsame

theorem Copies.writeOutput (h : Copies live s) (hmem : .writeOutput ∈ live)
    (answers : Answers) :
    Ends KernelFault (fun s' ↦ Copies live s' ∧
      ∀ j, j ≠ .writeOutput → noted j true s → noted j true s')
      ((rule .writeOutput).service answers s) := by
  refine Rule.ends_service ((h.inbound.ends_drain hmem answers).bind_pair ?_)
  rintro inbound output ⟨hrelays, hdone, houtput⟩
  dsimp only at hrelays hdone houtput
  have hcount : output.writeCount = s.output.writeCount + 1 := by rw [houtput]
  refine Ends.of_ite (fun hend ↦ ?_) fun _ ↦ ?_
  · refine (output.ends_close answers.close).bind ?_
    rintro output' rfl
    refine Ends.of_pure ⟨⟨⟨h.outbound, ?_⟩, fun j _ hj ↦ noted_mono j hj rfl rfl⟩,
      Or.inl fun heq ↦ ?_⟩
    · exact (hdone hend).mono id id rfl rfl rfl
    · have hsame : s.output.writeCount = output.writeCount := heq
      simp [hcount] at hsame
  · refine Ends.of_pure ⟨⟨⟨h.outbound, hrelays⟩, fun j _ hj ↦ noted_mono j hj rfl rfl⟩,
      Or.inl fun heq ↦ ?_⟩
    have hsame : s.output.writeCount = output.writeCount := heq
    simp [hcount] at hsame

theorem keeps : Keeps rule KernelFault Copies noted where
  asks live s k _ _ heof _ := noted_interest heof
  polls := .polled
  calls live k answers s h hmem hnoted := by
    cases k with
    | readInput => exact h.readInput hmem hnoted answers
    | writeSocket => exact h.writeSocket hmem answers
    | readSocket => exact h.readSocket hmem hnoted answers
    | writeOutput => exact h.writeOutput hmem answers
  cancels before k after s hout h := by
    have hsub : ∀ j, j ∈ before ++ after → j ∈ before ++ k :: after := fun j hj ↦ by
      simp only [List.mem_append, List.mem_cons] at hj ⊢
      exact hj.imp_right Or.inr
    cases k with
    | readInput =>
        refine Ends.of_pure ⟨⟨h.outbound.endInput (hsub _) (Or.inl hout),
          h.inbound.mono (hsub _) (hsub _) rfl rfl rfl⟩, fun j _ b hj ↦ ?_,
          fun j _ hj ↦ ?_⟩
        all_goals cases j <;> exact hj
    | writeSocket =>
        refine Ends.of_pure ⟨⟨h.outbound.endInput (hsub _) (Or.inr hout),
          h.inbound.mono (hsub _) (hsub _) rfl rfl rfl⟩, fun j _ b hj ↦ ?_,
          fun j _ hj ↦ ?_⟩
        all_goals cases j <;> exact hj
    | readSocket =>
        refine Ends.of_pure ⟨⟨h.outbound.mono (hsub _) (hsub _) rfl rfl rfl,
          h.inbound.endInput (hsub _) (Or.inl hout)⟩, fun j _ b hj ↦ ?_,
          fun j _ hj ↦ ?_⟩
        all_goals cases j <;> exact hj
    | writeOutput =>
        refine Ends.of_pure ⟨⟨h.outbound.mono (hsub _) (hsub _) rfl rfl rfl,
          h.inbound.endInput (hsub _) (Or.inr hout)⟩, fun j _ b hj ↦ ?_,
          fun j _ hj ↦ ?_⟩
        all_goals cases j <;> exact hj

theorem copies_new : Copies rules new where
  outbound := ⟨rfl, fun h ↦ absurd h Bool.false_ne_true, fun h ↦ absurd h Bool.false_ne_true⟩
  inbound := ⟨rfl, fun h ↦ absurd h Bool.false_ne_true, fun h ↦ absurd h Bool.false_ne_true⟩

/-- However the kernel answers, the copy throws only for its faults, and in every state it
reaches what was written in a direction, followed by what is buffered, is what was read. A side
that was shut down got everything that was ever read. When the copy ends without a signal, so
did every side whose writer was not given up. -/
theorem copies_every_byte (polls : List (Polled Answers)) :
    (∀ e, bidirectionalStreamCopy polls = .error e → KernelFault e) ∧
    ∀ exited live s, bidirectionalStreamCopy polls = .ok (exited, live, s) →
      s.socket.written ++ s.outbound.deq = s.input.received ∧
      s.output.written ++ s.inbound.deq = s.socket.received ∧
      (s.outboundShutdown = true → s.socket.written = s.input.received) ∧
      (s.inboundShutdown = true → s.output.written = s.socket.received) ∧
      (exited = true → (∀ e, .failed e ∈ polls → e.code ≠ eintr) →
        (.writeSocket ∈ live → s.socket.written = s.input.received) ∧
        (.writeOutput ∈ live → s.output.written = s.socket.received)) := by
  have h := keeps.untilExit polls (by decide) copies_new
  refine ⟨fun e he ↦ h.exception he, fun exited live s hok ↦ ?_⟩
  obtain ⟨hcopies, -, hexit⟩ := h.result hok
  dsimp only at hcopies hexit
  refine ⟨hcopies.outbound.bytes, hcopies.inbound.bytes, fun hdone ↦ ?_, fun hdone ↦ ?_, ?_⟩
  · exact hcopies.outbound.written_eq (hcopies.outbound.finished hdone).1
  · exact hcopies.inbound.written_eq (hcopies.inbound.finished hdone).1
  · intro hexited hsignal
    rcases hexit hexited with ⟨e, hmem, hcode⟩ | hidle
    · exact absurd hcode (hsignal e hmem)
    · exact ⟨fun hwriter ↦ hcopies.outbound.written_eq (hidle _ hwriter rfl),
        fun hwriter ↦ hcopies.inbound.written_eq (hidle _ hwriter rfl)⟩

end StreamCopy

end Sponge
