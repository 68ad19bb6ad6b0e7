import Sponge.Connection.Sends
import Sponge.Lib.Runs
import Sponge.Receiver.NextByte

/-!
# The inbound stream of a connection

As long as the inbound stream keeps below the largest index, the receiver of a
connection is regular in every run, whatever segments arrive. When an arriving
segment leaves the inbound stream at its end can then be told from the receiver
before it.
-/

namespace Sponge.TcpConnection

open Lib

variable {c c' : TcpConnection} {s : TcpSender} {r : TcpReceiver} {seg : TcpSegment}

/-- An arriving segment keeps the inbound stream below the largest index. -/
def Bounded (c : TcpConnection) : Op → Prop
  | .segmentReceived seg => c.receiver.Bounded seg
  | _ => True

instance (c : TcpConnection) : (op : Op) → Decidable (c.Bounded op)
  | .segmentReceived seg => inferInstanceAs (Decidable (c.receiver.Bounded seg))
  | .connect | .write _ | .endInputStream | .tick _ | .read _ | .takeSegment =>
    inferInstanceAs (Decidable True)

theorem regular_of_sends (hsends : Sends c c' s r) (h : r.Regular) : c'.receiver.Regular := by
  rcases hsends.receiver with heq | heq <;> rw [heq]
  · exact h
  · exact h.setError

theorem regular_passed (h : c.receiver.Regular) (hbound : c.receiver.Bounded seg) :
    (c.passed seg).Regular := by
  rw [passed]
  split_ifs
  · exact h.segmentReceived hbound
  · exact h

theorem regular_step (h : c.receiver.Regular) (op : Op) (hop : c.Bounded op) :
    (c.step op).receiver.Regular := by
  cases op with
  | connect => exact regular_of_sends (sends_connect c) h
  | write data => exact regular_of_sends (sends_write c data) h
  | endInputStream => exact regular_of_sends (sends_endInputStream c) h
  | tick ms => exact regular_of_sends (sends_tick c ms) h
  | read len => exact h.readOutput len
  | segmentReceived seg =>
      obtain ⟨s, -, hsends⟩ := exists_sends_segmentReceived c seg
      exact regular_of_sends hsends (regular_passed h hop)
  | takeSegment => exact h

theorem regular_run {cfg : TcpConfig} {random : UInt32} {ops : List Op}
    (hcap : 1 ≤ cfg.recvCapacity) (hops : Along step Bounded (new cfg random) ops) :
    (run step (new cfg random) ops).receiver.Regular :=
  run_invariant (I := fun c ↦ c.receiver.Regular) (fun _ op h hop ↦ regular_step h op hop)
    (TcpReceiver.regular_new hcap) hops

theorem eof_passed_iff (h : c.receiver.Regular) (hbound : c.receiver.Bounded seg) :
    (c.passed seg).streamOut.eof = true ↔ c.receiver.AtEndAfter seg := by
  have hempty : c.receiver.streamOut.bufferEmpty = true ↔
      c.receiver.reassembler.output.deq = [] := by
    rw [ByteStream.bufferEmpty, beq_iff_eq, List.length_eq_zero_iff]
    exact Iff.rfl
  rw [TcpReceiver.AtEndAfter, hempty]
  by_cases hproc : c.receiver.Processes seg
  · simp only [hproc, true_imp_iff, true_and]
    rw [passed, if_pos hproc.1]
    exact h.eof_segmentReceived_iff hbound hproc.2
  · have hsame : c.passed seg = c.receiver := by
      rw [passed]
      split_ifs with hlen
      · exact TcpReceiver.segmentReceived_of_unsynced fun hsyn ↦ hproc ⟨hlen, hsyn⟩
      · rfl
    simp only [hproc, false_imp_iff, false_and, or_false, true_and]
    rw [hsame, ByteStream.eof_iff]
    exact Iff.rfl

end Sponge.TcpConnection
