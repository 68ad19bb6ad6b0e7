import Sponge.Receiver.PeerStream

/-!
# The end of the inbound stream

The receiver hands its `_eof` flag, once set, to the reassembler with every later
segment, and the reassembler takes it for the end of that segment: an empty
segment ends the inbound stream at once, any other one moves the recorded end.
The stream ends where it should as long as the bytes at hand, those held and those
of the segment, never break off at such an end.
-/

namespace Sponge

open Lib

namespace Reception

variable {p : PeerStream} {t : Reception} {q : ℕ} {seg : TcpSegment}

/-- A segment that comes with or after a FIN completes the stream with what is held, or it has a
payload and the bytes at hand do not break off at the end that is taken for that of the stream. -/
def EndsInOrder (p : PeerStream) (t : Reception) (q : ℕ) (seg : TcpSegment) : Prop :=
  t.receiver.eof = true ∨ seg.header.fin = true →
    t.receiver.reassembler.EndsNotBefore seg.payload (q - 1) p.data.length

/-- A segment arrives that is read right, is stored as it is, makes the flush forget
nothing and ends the stream only where it ends. -/
def ArrivesOrderly (p : PeerStream) (t : Reception) : Arrival → Prop
  | .segment q seg =>
    t.Arrives p (.segment q seg) ∧ p.ReadsRight q seg ∧
      (t.receiver.syn = true ∨ seg.header.syn = true →
        t.receiver.reassembler.StoresCleanly seg.payload (q - 1) ∧
        t.receiver.reassembler.ForgetsNothing seg.payload (q - 1) ∧ t.EndsInOrder p q seg)
  | .read _ => True

instance (p : PeerStream) (t : Reception) : (op : Arrival) → Decidable (t.ArrivesOrderly p op)
  | .segment q seg =>
    haveI : Decidable (t.EndsInOrder p q seg) := inferInstanceAs (Decidable (_ ∨ _ → _))
    inferInstanceAs (Decidable (_ ∧ _ ∧ (_ → _ ∧ _ ∧ _)))
  | .read _ => inferInstanceAs (Decidable True)

/-- The receiver follows the stream and ends it where it ends. -/
structure Closes (p : PeerStream) (t : Reception) : Prop where
  follows : t.Follows p
  carries : t.receiver.reassembler.Carries p.data t.taken
  bytesUnass : t.receiver.reassembler.bytesUnass = t.receiver.reassembler.heldSet.card
  endStream : t.finReceived = false → t.receiver.reassembler.endStream = 2 ^ 64 - 1
  ended_iff : t.receiver.reassembler.output.ended = true ↔
    t.finReceived = true ∧ t.bytesWritten = p.data.length

/-- Where the reassembler ends the output, the FIN has arrived and every byte was written: in an
orderly arrival the flag is only read where the stream ends. -/
theorem full_of_endsOutput (h : t.Closes p) (hop : t.ArrivesOrderly p (.segment q seg))
    (hsyn : t.receiver.syn = true ∨ seg.header.syn = true)
    (hends : (t.receiver.segmentReceived seg).reassembler.EndsOutput seg.payload
      (t.receiver.segmentReceived seg).eof) :
    (t.step (.segment q seg)).finReceived = true ∧
      (t.step (.segment q seg)).bytesWritten = p.data.length := by
  obtain ⟨harr, hread, hin⟩ := hop
  obtain ⟨m, hm⟩ := h.follows.exists_processed harr hread hsyn
  have hnext := follows_segment h.follows harr hread hsyn
  have hwritten := hnext.bytesWritten_eq
  have hend := hm.pushed.endStream
  by_cases hflag : (t.receiver.segmentReceived seg).eof = true
  · refine ⟨hnext.eof_iff.symm.trans hflag, ?_⟩
    have hor : t.receiver.eof = true ∨ seg.header.fin = true := by
      rw [hm.eof, Bool.or_eq_true] at hflag
      exact hflag
    have hpushed := hm.pushed
    rw [hflag] at hpushed hends
    apply le_antisymm hnext.bytesWritten_le
    rw [hwritten]
    exact hpushed.le_startAux_of_endsOutput h.follows.wf hends ((hin hsyn).2.2 hor)
  · -- Without the flag the end is not recorded.
    have heq := hends.resolve_left fun hempty ↦ hflag hempty.2
    rw [Bool.not_eq_true] at hflag
    have hnofin : t.finReceived = false := by
      rw [hm.eof, Bool.or_eq_false_iff, h.follows.eof_iff] at hflag
      exact hflag.1
    rw [hflag] at hend
    simp only [Bool.false_eq_true, and_false, if_false] at hend
    rw [hend, h.endStream hnofin] at heq
    have hle := hnext.bytesWritten_le
    have hlen := p.length_lt
    have : (t.step (.segment q seg)).bytesWritten = 2 ^ 64 - 1 := hwritten.trans heq
    omega

theorem ended_iff_segment (h : t.Closes p) (hop : t.ArrivesOrderly p (.segment q seg))
    (hsyn : t.receiver.syn = true ∨ seg.header.syn = true) :
    (t.step (.segment q seg)).receiver.reassembler.output.ended = true ↔
      (t.step (.segment q seg)).finReceived = true ∧
        (t.step (.segment q seg)).bytesWritten = p.data.length := by
  obtain ⟨m, hm⟩ := h.follows.exists_processed hop.1 hop.2.1 hsyn
  have hnext := follows_segment h.follows hop.1 hop.2.1 hsyn
  have hwritten := hnext.bytesWritten_eq
  have hlenStream := hnext.ckpt_eq_lenStream_iff
  rw [hnext.ckpt, ← hwritten] at hlenStream
  change (t.receiver.segmentReceived seg).reassembler.output.ended = true ↔ _
  rw [hm.ended]
  constructor
  · rintro (hbefore | hends | heq)
    · -- The stream had ended before, and nothing can be written past its end.
      obtain ⟨hfin, hfull⟩ := h.ended_iff.mp hbefore
      have hle := hnext.bytesWritten_le
      have hold := h.follows.bytesWritten_eq
      have hmono : (t.step (.segment q seg)).receiver.reassembler.startAux =
        t.receiver.reassembler.startAux + m := hm.pushed.startAux
      refine ⟨?_, by omega⟩
      rw [finReceived, log_step_of_syn hsyn, List.any_append]
      rw [finReceived] at hfin
      simp [hfin]
    · exact full_of_endsOutput h hop hsyn hends
    · exact hlenStream.mp (hwritten.trans heq)
  · intro hfull
    exact Or.inr (Or.inr (hwritten.symm.trans (hlenStream.mpr hfull)))

theorem closes_segment (h : t.Closes p) (hop : t.ArrivesOrderly p (.segment q seg))
    (hsyn : t.receiver.syn = true ∨ seg.header.syn = true) :
    (t.step (.segment q seg)).Closes p := by
  have hended := ended_iff_segment h hop hsyn
  obtain ⟨harr, hread, hin⟩ := hop
  obtain ⟨hclean, hkeep, -⟩ := hin hsyn
  obtain ⟨m, hm⟩ := h.follows.exists_processed harr hread hsyn
  have hcuts := harr.1
  constructor
  case follows => exact follows_segment h.follows harr hread hsyn
  case carries =>
    refine hm.pushed.carries h.follows.wf h.carries hclean (Or.inl hcuts.bound) fun j hj ↦ ?_
    rw [hcuts.payload, getElem?_substr, if_pos hj]
  case bytesUnass => exact hm.pushed.bytesUnass_eq h.follows.wf hkeep h.bytesUnass
  case endStream =>
    intro hnofin
    rw [finReceived, log_step_of_syn hsyn, List.any_append, Bool.or_eq_false_iff] at hnofin
    have hflag : (t.receiver.segmentReceived seg).eof = false := by
      rw [hm.eof, h.follows.eof_iff, finReceived, hnofin.1]
      simpa using hnofin.2
    have hend := hm.pushed.endStream
    rw [hflag] at hend
    simp only [Bool.false_eq_true, and_false, if_false] at hend
    exact hend.trans (h.endStream hnofin.1)
  case ended_iff => exact hended

theorem closes_step (h : t.Closes p) {op : Arrival} (hop : t.ArrivesOrderly p op) :
    (t.step op).Closes p := by
  cases op with
  | read len =>
      exact
        { follows := follows_read h.follows len
          carries := h.carries.readOutput len
          bytesUnass := h.bytesUnass
          endStream := h.endStream
          ended_iff := h.ended_iff }
  | segment q seg =>
      by_cases hsyn : t.receiver.syn = true ∨ seg.header.syn = true
      · exact closes_segment h hop hsyn
      · rw [step_of_unsynced hsyn]
        exact h

theorem closes_new (p : PeerStream) {c : ℕ} (hc : 1 ≤ c) : (new c).Closes p where
  follows := follows_new p hc
  carries := StreamReassembler.carries_new c p.data
  bytesUnass := StreamReassembler.bytesUnass_new c
  endStream := fun _ ↦ rfl
  ended_iff := by simp [new, TcpReceiver.new, StreamReassembler.new, ByteStream.new, finReceived]

/-- At the end of the inbound stream nothing is left unassembled, and all of the
peer's bytes were delivered. -/
theorem Closes.all_delivered (h : t.Closes p) (heof : t.receiver.streamOut.eof = true) :
    t.receiver.unassembledBytes = 0 ∧ t.taken ++ t.receiver.streamOut.deq = p.data := by
  obtain ⟨-, hended⟩ := (ByteStream.eof_iff _).mp heof
  obtain ⟨-, hfull⟩ := h.ended_iff.mp hended
  have hstart : t.receiver.reassembler.startAux = p.data.length :=
    h.follows.bytesWritten_eq.symm.trans hfull
  constructor
  · have hnone : t.receiver.reassembler.heldSet = ∅ := by
      ext i
      rw [StreamReassembler.mem_heldSet]
      simp only [Finset.notMem_empty, iff_false]
      intro hheld
      have hlt := h.carries.held_lt i hheld
      have hge := hheld.1
      omega
    have hcount := h.bytesUnass
    rw [hnone] at hcount
    exact hcount
  · have hdelivered := h.carries.delivered
    rw [hstart, List.take_length] at hdelivered
    exact hdelivered

/-- In every run of orderly arrivals the inbound stream has ended exactly when the SYN and a
FIN were received and all bytes written, and at its end nothing is missing. -/
theorem inputEnded_iff_of_orderly (p : PeerStream) {c : ℕ} (hc : 1 ≤ c) (ops : List Arrival)
    (hops : Along step (fun t ↦ t.ArrivesOrderly p) (new c) ops) :
    let t := run step (new c) ops
    (t.receiver.streamOut.inputEnded = true ↔
      t.synReceived = true ∧ t.finReceived = true ∧ t.bytesWritten = p.data.length) ∧
    (t.receiver.streamOut.eof = true →
      t.receiver.unassembledBytes = 0 ∧ t.taken ++ t.receiver.streamOut.deq = p.data) := by
  intro t
  have h : t.Closes p :=
    run_invariant (fun t op ht hop ↦ closes_step ht hop) (closes_new p hc) hops
  refine ⟨?_, h.all_delivered⟩
  constructor
  · intro hended
    obtain ⟨hfin, hfull⟩ := h.ended_iff.mp hended
    refine ⟨?_, hfin, hfull⟩
    rw [← h.follows.syn_iff]
    refine h.follows.syn_of_log fun hnil ↦ ?_
    rw [finReceived, hnil] at hfin
    simp at hfin
  · rintro ⟨-, hfin, hfull⟩
    exact h.ended_iff.mpr ⟨hfin, hfull⟩

/-- The stream `abc` with its last byte first: the segment that completes it records its own end,
which is not where the bytes at hand break off. -/
theorem inputEnded_of_abc :
    let t := run step (new 4)
      [.segment 0 { header := { seqno := ⟨7⟩, syn := true } },
        .segment 3 { header := { seqno := ⟨10⟩, fin := true }, payload := [99] },
        .segment 1 { header := { seqno := ⟨8⟩ }, payload := [97, 98] }, .read 3]
    t.receiver.streamOut.inputEnded = true ∧
      t.taken ++ t.receiver.streamOut.deq = [97, 98, 99] :=
  have h := inputEnded_iff_of_orderly ⟨⟨7⟩, [97, 98, 99], by decide⟩ (c := 4) (by decide)
    [.segment 0 { header := { seqno := ⟨7⟩, syn := true } },
      .segment 3 { header := { seqno := ⟨10⟩, fin := true }, payload := [99] },
      .segment 1 { header := { seqno := ⟨8⟩ }, payload := [97, 98] }, .read 3] (by decide)
  ⟨h.1.mpr (by decide), (h.2 (by decide)).2⟩

/-- The stream `abcd`: after `d` with the FIN, the segment `a` records its own end, right
where the bytes at hand break off, and the inbound stream ends with one byte of four. -/
theorem stale_eof_ends_input :
    let ops : List Arrival :=
      [.segment 0 { header := { seqno := ⟨7⟩, syn := true } },
        .segment 4 { header := { seqno := ⟨11⟩, fin := true }, payload := [100] },
        .segment 1 { header := { seqno := ⟨8⟩ }, payload := [97] }]
    Along step (fun t ↦ t.Arrives ⟨⟨7⟩, [97, 98, 99, 100], by decide⟩) (new 4) ops ∧
      (run step (new 4) ops).receiver.streamOut.inputEnded = true ∧
      (run step (new 4) ops).bytesWritten = 1 := by
  decide

end Reception

end Sponge
