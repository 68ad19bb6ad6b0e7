import Sponge.Reassembler.Excerpts

/-!
# The end of the stream

Excerpts of a byte string are pushed, some of the last ones with the end flag. A
flag that comes with bytes is recorded as the index where the string ends, and the
output ends when it is assembled up to there. A flag that comes without bytes ends
the output at once; so unless everything else is assembled by then, the output
ends too early.
-/

namespace Sponge

open Lib

/-- An excerpt, with the end flag possibly set if it ends where the string ends. -/
structure FlaggedExcerpt (d : List UInt8) extends Excerpt d where
  eof : Bool
  last_of_eof : eof = true → offset + size = d.length

inductive FlaggedOp (d : List UInt8)
  | push (x : FlaggedExcerpt d)
  | read (len : ℕ)

/-- A reassembler, whether some push carried the flag, and whether some push did
with an index that was not past the window when it arrived. -/
structure Ending where
  reassembler : StreamReassembler
  flagged : Bool := false
  timely : Bool := false

namespace Ending

variable {d : List UInt8} {s : Ending} {c : ℕ}

def new (capacity : ℕ) : Ending := { reassembler := StreamReassembler.new capacity }

def step (s : Ending) : FlaggedOp d → Ending
  | .push x =>
    { reassembler := s.reassembler.pushSubstring x.data x.offset x.eof
      flagged := s.flagged || x.eof
      timely := s.timely || (x.eof &&
        decide (x.offset ≤ s.reassembler.streamOut.bytesWritten + s.reassembler.capacity)) }
  | .read len => { s with reassembler := s.reassembler.readOutput len }

/-- A push without bytes carries the flag only if every byte of the string is written or held
when it arrives, and those that are held fit in the output. -/
def EndsInTime (s : Ending) : FlaggedOp d → Prop
  | .push x => x.size = 0 → x.eof = true →
      d.length ≤ s.reassembler.streamOut.bytesWritten +
          s.reassembler.streamOut.remainingCapacity ∧
        ∀ i < d.length, s.reassembler.streamOut.bytesWritten ≤ i → s.reassembler.Held i
  | .read _ => True

instance (s : Ending) : (op : FlaggedOp d) → Decidable (s.EndsInTime op)
  | .push _ => inferInstanceAs (Decidable (_ → _ → _ ∧ _))
  | .read _ => .isTrue trivial

/-- What is known of the end, whether or not a flag came too early. -/
structure Follows (d : List UInt8) (s : Ending) : Prop where
  wf : s.reassembler.Wf
  le_length : ∀ i, s.reassembler.Held i ∨ i < s.reassembler.startAux → i < d.length
  endStream : s.reassembler.endStream = d.length ∧ s.flagged = true ∨
    s.reassembler.endStream = 2 ^ 64 - 1
  ended : s.reassembler.startAux = s.reassembler.endStream → s.reassembler.output.ended = true
  flagged : s.reassembler.output.ended = true → s.flagged = true
  timely : s.timely = true →
    s.reassembler.endStream = d.length ∨ s.reassembler.output.ended = true

theorem Follows.startAux_le (h : s.Follows d) : s.reassembler.startAux ≤ d.length :=
  le_of_forall_lt fun i hi ↦ h.le_length i (.inr hi)

theorem follows_new (hc : 1 ≤ c) : (new c).Follows d where
  wf := StreamReassembler.wf_new hc
  le_length := by
    rintro i (hi | hi)
    · exact absurd hi (StreamReassembler.not_held_new c i)
    · exact absurd hi (Nat.not_lt_zero i)
  endStream := .inr rfl
  ended h := absurd h (show 0 ≠ 2 ^ 64 - 1 by decide)
  flagged h := absurd h Bool.false_ne_true
  timely h := absurd h Bool.false_ne_true

theorem exists_pushed_flagged (hd : d.length < 2 ^ 64 - 1) (h : s.Follows d)
    (x : FlaggedExcerpt d) :
    ∃ m, StreamReassembler.Pushed s.reassembler (s.step (.push x)).reassembler
        x.data x.offset x.eof m ∧
      ((s.step (.push x)).reassembler.output.ended = true ↔
        s.reassembler.output.ended = true ∨
          (s.step (.push x)).reassembler.EndsOutput x.data x.eof) := by
  have hbound := x.bound
  exact StreamReassembler.exists_pushed h.wf (fun _ ↦ by rw [x.length_data]; omega) x.eof

theorem data_eq_nil_iff (x : Excerpt d) : x.data = [] ↔ x.size = 0 := by
  rw [← List.length_eq_zero_iff, x.length_data]

/-- An empty push that comes in time finds all it needs to assemble the string. -/
theorem Follows.fills_of_endsInTime (h : s.Follows d) {x : FlaggedExcerpt d}
    (hop : s.EndsInTime (.push x)) (hsize : x.size = 0) (heof : x.eof = true) :
    s.reassembler.Fills x.data x.offset d.length := by
  obtain ⟨hfits, hheld⟩ := hop hsize heof
  rw [StreamReassembler.streamOut, ByteStream.bytesWritten, ← h.wf.startAux_eq] at hfits hheld
  refine ⟨?_, fun i hi hstart ↦ ?_⟩
  · rwa [ByteStream.remainingCapacity_eq] at hfits
  · have hi' := hheld i hi hstart
    exact ⟨hi'.1, hi'.2.1, .inl hi'⟩

/-- A push with the flag that is not past the window records the end or ends the
output. -/
theorem Follows.meets_of_timely (h : s.Follows d) {x : FlaggedExcerpt d} (heof : x.eof = true)
    (hle : x.offset ≤ s.reassembler.startAux + s.reassembler.capacity) :
    s.reassembler.Meets x.data x.offset := by
  have hlast := x.last_of_eof heof
  have hstart := h.startAux_le
  exact ⟨hle, by rw [x.length_data]; omega⟩

theorem Follows.push (hd : d.length < 2 ^ 64 - 1) (h : s.Follows d) (x : FlaggedExcerpt d) :
    (s.step (.push x)).Follows d := by
  obtain ⟨m, hm, hended⟩ := exists_pushed_flagged hd h x
  have hend := hm.endStream
  have hrecorded : (s.step (.push x)).reassembler.endStream = d.length ∧
      (s.step (.push x)).flagged = true ∨
      (s.step (.push x)).reassembler.endStream = 2 ^ 64 - 1 := by
    rw [hend]
    split_ifs with hrec
    · left
      refine ⟨by rw [x.length_data]; exact x.last_of_eof hrec.2.2, ?_⟩
      simp [step, hrec.2.2]
    · rcases h.endStream with ⟨heq, hflag⟩ | heq
      · exact .inl ⟨heq, by simp [step, hflag]⟩
      · exact .inr heq
  have hle : ∀ i, (s.step (.push x)).reassembler.Held i ∨
      i < (s.step (.push x)).reassembler.startAux → i < d.length := by
    refine hm.forall_held_or_written h.wf h.le_length fun i hi hi' ↦ ?_
    have hbound := x.bound
    rw [x.length_data] at hi'
    omega
  constructor
  case wf => exact hm.wf
  case le_length => exact hle
  case endStream => exact hrecorded
  case ended => exact fun heq ↦ hended.mpr (.inr (.inr heq))
  case flagged =>
    intro hnow
    rcases hended.mp hnow with hbefore | ⟨-, heof⟩ | heq
    · simp [step, h.flagged hbefore]
    · simp [step, heof]
    · rcases hrecorded with ⟨-, hflag⟩ | hnone
      · exact hflag
      · -- the output is never assembled up to the index that stands for no end
        have hstart : (s.step (.push x)).reassembler.startAux ≤ d.length :=
          le_of_forall_lt fun i hi ↦ hle i (.inr hi)
        omega
  case timely =>
    intro htimely
    simp only [step, Bool.or_eq_true, Bool.and_eq_true, decide_eq_true_eq] at htimely
    rcases htimely with hbefore | ⟨heof, hle⟩
    · rcases h.timely hbefore with heq | hout
      · left
        rw [hend]
        split_ifs with hrec
        · rw [x.length_data]
          exact x.last_of_eof hrec.2.2
        · exact heq
      · exact .inr (hended.mpr (.inl hout))
    · by_cases hnil : x.data = []
      · exact .inr (hended.mpr (.inr (.inl ⟨hnil, heof⟩)))
      · left
        have hmeets := h.meets_of_timely heof (by rw [h.wf.startAux_eq]; exact hle)
        rw [hend, if_pos ⟨hnil, hmeets, heof⟩, x.length_data]
        exact x.last_of_eof heof

theorem Follows.step (hd : d.length < 2 ^ 64 - 1) (h : s.Follows d) (op : FlaggedOp d) :
    (s.step op).Follows d := by
  cases op with
  | push x => exact h.push hd x
  | read len =>
      exact ⟨h.wf.readOutput len, h.le_length, h.endStream, h.ended, h.flagged, h.timely⟩

theorem follows_run (hc : 1 ≤ c) (hd : d.length < 2 ^ 64 - 1) (ops : List (FlaggedOp d)) :
    (run step (new c) ops).Follows d :=
  run_invariant_of_step (fun _ op h ↦ h.step hd op) (follows_new hc) ops

/-- Once the output has ended it is assembled up to the end, if no flag came too
early. -/
theorem Follows.startAux_eq_step (hd : d.length < 2 ^ 64 - 1) (h : s.Follows d)
    {op : FlaggedOp d} (hop : s.EndsInTime op)
    (hbefore : s.reassembler.output.ended = true → s.reassembler.startAux = d.length)
    (hnow : (s.step op).reassembler.output.ended = true) :
    (s.step op).reassembler.startAux = d.length := by
  cases op with
  | push x =>
      have hafter := h.push hd x
      obtain ⟨m, hm, hended⟩ := exists_pushed_flagged hd h x
      rcases hended.mp hnow with hended' | ⟨hnil, heof⟩ | heq
      · have hstart := hm.startAux
        have hle := hafter.startAux_le
        have := hbefore hended'
        omega
      · have hfills := h.fills_of_endsInTime hop ((data_eq_nil_iff x.toExcerpt).mp hnil) heof
        exact le_antisymm hafter.startAux_le ((hm.fills_iff h.wf _).mp hfills)
      · have hle := hafter.startAux_le
        rcases hafter.endStream with ⟨hend, -⟩ | hend
        · omega
        · omega
  | read len => exact hbefore hnow

/-- The output ends only after a flag and, in every run in which no push without bytes
carries the flag before the rest has arrived and fits, only when all bytes are written.
Conversely, when all bytes are written and a flag came with an index that was not past
the window, the output has ended. -/
theorem inputEnded_of_flags (hc : 1 ≤ c) (hd : d.length < 2 ^ 64 - 1)
    (ops : List (FlaggedOp d)) :
    (Along step EndsInTime (new c) ops →
      (run step (new c) ops).reassembler.streamOut.inputEnded = true →
      (run step (new c) ops).flagged = true ∧
        (run step (new c) ops).reassembler.streamOut.bytesWritten = d.length) ∧
    ((run step (new c) ops).reassembler.streamOut.bytesWritten = d.length →
      (run step (new c) ops).timely = true →
      (run step (new c) ops).reassembler.streamOut.inputEnded = true) := by
  have hfollows := follows_run hc hd ops
  have hstart := hfollows.wf.startAux_eq
  constructor
  · intro hops hended
    refine ⟨hfollows.flagged hended, hstart.symm.trans ?_⟩
    have hinv : (run step (new c) ops).Follows d ∧
        ((run step (new c) ops).reassembler.output.ended = true →
          (run step (new c) ops).reassembler.startAux = d.length) := by
      refine run_invariant (I := fun s : Ending ↦ s.Follows d ∧
        (s.reassembler.output.ended = true → s.reassembler.startAux = d.length)) ?_ ?_ hops
      · rintro s op ⟨h, hbefore⟩ hop
        exact ⟨h.step hd op, h.startAux_eq_step hd hop hbefore⟩
      · exact ⟨follows_new hc, fun h ↦ absurd h Bool.false_ne_true⟩
    exact hinv.2 hended
  · intro hwritten htimely
    rcases hfollows.timely htimely with hend | hended
    · exact hfollows.ended (by rw [hend, hstart]; exact hwritten)
    · exact hended

/-- The flag arrives with the last byte, before the hole is filled. -/
theorem inputEnded_of_flag_on_b :
    let ops : List (FlaggedOp [97, 98]) := [.push ⟨⟨1, 1, by decide⟩, true, by decide⟩,
      .push ⟨⟨0, 1, by decide⟩, false, by decide⟩]
    (run step (new 8) ops).reassembler.streamOut.inputEnded = true ∧
      (run step (new 8) ops).flagged = true ∧
      (run step (new 8) ops).reassembler.streamOut.bytesWritten = 2 :=
  have h := inputEnded_of_flags (c := 8) (by decide) (by decide)
    ([.push ⟨⟨1, 1, by decide⟩, true, by decide⟩,
      .push ⟨⟨0, 1, by decide⟩, false, by decide⟩] : List (FlaggedOp [97, 98]))
  ⟨h.2 (by decide) (by decide), h.1 (by decide) (by decide)⟩

/-- An empty push at the end of the string `a` ends the output before `a` has
arrived. -/
theorem empty_flag_ends_input_early :
    (run step (new 8) ([.push ⟨⟨1, 0, by decide⟩, true, by decide⟩] :
      List (FlaggedOp [97]))).reassembler.streamOut.inputEnded = true ∧
    (run step (new 8) ([.push ⟨⟨1, 0, by decide⟩, true, by decide⟩] :
      List (FlaggedOp [97]))).reassembler.streamOut.bytesWritten = 0 := by
  decide

end Ending

end Sponge
