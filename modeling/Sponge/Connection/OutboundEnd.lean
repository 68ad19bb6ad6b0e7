import Sponge.Connection.Sends
import Sponge.Sender.Transmission

/-!
# Nothing follows the FIN

The end of the outbound stream is a flag that `write` does not read, and the
loop that fills the window does not ask whether the FIN was sent. The history
of a connection shows what still holds: as long as no byte is accepted after
the end of the input, what is sent first tiles the sequence numbers up to the
FIN, and everything else repeats it.
-/

namespace Sponge

open Lib

/-- What a stamp leaves as it is: the place and the contents of a segment. -/
def TcpSegment.contents (seg : TcpSegment) : WrappingInt32 × Bool × Bool × List UInt8 :=
  (seg.header.seqno, seg.header.syn, seg.header.fin, seg.payload)

/-- The segments that occupy a sequence number. -/
def TcpSegment.occupying (segs : List TcpSegment) : List TcpSegment :=
  segs.filter fun seg ↦ seg.lengthInSequenceSpace ≠ 0

namespace TcpSegment

variable {seg seg' : TcpSegment} {segs : List TcpSegment}

theorem length_of_contents_eq (h : seg.contents = seg'.contents) :
    seg.lengthInSequenceSpace = seg'.lengthInSequenceSpace := by
  simp only [contents, Prod.mk.injEq] at h
  obtain ⟨-, hsyn, hfin, hpayload⟩ := h
  rw [lengthInSequenceSpace, lengthInSequenceSpace, hsyn, hfin, hpayload]

theorem contents_stamp (r : TcpReceiver) (rst : Bool) (seg : TcpSegment) :
    (TcpConnection.stamp r rst seg).contents = seg.contents := by
  obtain ⟨ack, ackno, win, rst', heq⟩ := TcpConnection.exists_stamp r rst seg
  rw [heq]
  rfl

theorem occupying_eq_self (h : ∀ seg ∈ segs, 0 < seg.lengthInSequenceSpace) :
    occupying segs = segs :=
  List.filter_eq_self.mpr fun seg hseg ↦ by simpa using (h seg hseg).ne'

theorem map_contents_occupying {segs' : List TcpSegment}
    (h : segs.map contents = segs'.map contents) :
    (occupying segs).map contents = (occupying segs').map contents := by
  induction segs generalizing segs' with
  | nil =>
      obtain rfl : segs' = [] := List.map_eq_nil_iff.mp h.symm
      rfl
  | cons seg segs ih =>
      obtain ⟨seg', segs', rfl, hhead, hrest⟩ := List.map_eq_cons_iff.mp h.symm
      have hlen := length_of_contents_eq hhead
      have htail := ih hrest.symm
      simp only [occupying, List.filter_cons, hlen] at htail ⊢
      split_ifs
      · rw [List.map_cons, List.map_cons, htail, hhead]
      · exact htail

end TcpSegment

namespace TcpSender

open TcpSegment

variable {s s' : TcpSender} {seg seg' : TcpSegment} {d : List UInt8} {isn : WrappingInt32}
  {ended : Bool} {q : ℕ} {first old : List TcpSegment}

theorem Cut.of_contents_eq (h : Cut isn d ended q seg) (heq : seg.contents = seg'.contents) :
    Cut isn d ended q seg' := by
  simp only [contents, Prod.mk.injEq] at heq
  obtain ⟨hseqno, hsyn, hfin, hpayload⟩ := heq
  constructor
  · exact hseqno ▸ h.seqno
  · exact hsyn ▸ h.header_syn
  · exact hpayload ▸ hfin ▸ h.syn
  · exact hpayload ▸ h.payload
  · exact hpayload ▸ h.bound
  · exact hpayload ▸ h.length_payload_le
  · exact hpayload ▸ hfin ▸ h.nonempty
  · exact hpayload ▸ hfin ▸ h.fin

theorem Cut.length_pos (h : Cut isn d ended q seg) : 0 < seg.lengthInSequenceSpace := by
  rw [lengthInSequenceSpace]
  rcases Nat.eq_zero_or_pos q with hzero | hpos
  · have hsyn : seg.header.syn = true := by simp [h.header_syn, hzero]
    rw [if_pos hsyn]
    omega
  · rcases h.nonempty hpos with hpayload | hfin
    · have := List.length_pos_iff.mpr hpayload
      omega
    · rw [if_pos hfin]
      omega

/-- The number of the FIN follows those of all accepted bytes. -/
theorem Cut.end_of_fin (h : Cut isn d ended q seg) (hfin : seg.header.fin = true) :
    q + seg.lengthInSequenceSpace = d.length + 2 := by
  have hq : q ≠ 0 := fun hzero ↦ by simp [(h.syn hzero).2] at hfin
  have hall := (h.fin hfin).2
  have hsyn : seg.header.syn = false := by simp [h.header_syn, hq]
  rw [lengthInSequenceSpace_of_not_syn hsyn, if_pos hfin]
  omega

theorem Transmits.length_pos (h : s.Transmits d first) :
    ∀ seg ∈ first, 0 < seg.lengthInSequenceSpace := by
  intro seg hseg
  obtain ⟨q, -, hcut, -⟩ := h.tiled.exists_of_mem hseg
  exact hcut.length_pos

theorem Transmits.nextSeqno_le (h : s.Transmits d first) : s.nextSeqno ≤ d.length + 2 := by
  have hlen := h.length_eq
  by_cases hzero : s.nextSeqno = 0
  · omega
  · have hnext := h.counts.of_ne_zero hzero
    split_ifs at hnext <;> omega

/-- What occupies a number in the queue was sent after `old`, for the first time. -/
def Feeds (s : TcpSender) (d : List UInt8) (old : List TcpSegment) : Prop :=
  s.Transmits d (old ++ occupying s.segmentsOut)

theorem Transmits.feeds (h : s.Transmits d old) (hqueue : s.segmentsOut = []) :
    s.Feeds d old := by
  rw [Feeds, hqueue]
  simpa [occupying] using h

theorem feeds_of_append
    (hmore : ∃ segs, s'.Transmits d (old ++ occupying s.segmentsOut ++ segs) ∧
      s'.segmentsOut = s.segmentsOut ++ segs) : s'.Feeds d old := by
  obtain ⟨segs, htrans, hout⟩ := hmore
  have hsegs : occupying segs = segs := by
    refine occupying_eq_self fun seg hseg ↦ htrans.length_pos seg ?_
    exact List.mem_append_right _ hseg
  have hqueue : occupying s'.segmentsOut = occupying s.segmentsOut ++ segs := by
    rw [hout, occupying, List.filter_append]
    exact congrArg _ hsegs
  rwa [Feeds, hqueue, ← List.append_assoc]

theorem Feeds.fillWindow (h : s.Feeds d old) : s.fillWindow.Feeds d old :=
  feeds_of_append (Transmits.fillWindow h)

theorem Feeds.ackReceived (h : s.Feeds d old) (ackno : WrappingInt32) (w : UInt16) :
    (s.ackReceived ackno w).Feeds d old :=
  feeds_of_append (Transmits.ackReceived h ackno w)

theorem Feeds.sendEmptySegment (h : s.Feeds d old) : s.sendEmptySegment.Feeds d old := by
  have hqueue : occupying s.sendEmptySegment.segmentsOut = occupying s.segmentsOut := by
    simp [TcpSender.sendEmptySegment, occupying, lengthInSequenceSpace]
  have htrans : s.Transmits d (old ++ occupying s.segmentsOut) := h
  rw [Feeds, hqueue]
  exact htrans.frame htrans.windowSize_lt rfl ⟨rfl, rfl, rfl⟩ rfl rfl (List.suffix_refl _)

/-- The stream is read further, and its end is kept. -/
structure ReadsOn (s s' : TcpSender) : Prop where
  ended : s.stream.ended = true → s'.stream.ended = true
  bytesReaded_le : s.stream.bytesReaded ≤ s'.stream.bytesReaded

theorem ReadsOn.trans {s'' : TcpSender} (h : s.ReadsOn s') (h' : s'.ReadsOn s'') :
    s.ReadsOn s'' :=
  ⟨fun hended ↦ h'.ended (h.ended hended), h.bytesReaded_le.trans h'.bytesReaded_le⟩

theorem ReadsOn.of_sameBytes (h : s'.stream.SameBytes s.stream) : s.ReadsOn s' :=
  ⟨fun hended ↦ h.ended.trans hended, h.bytesReaded.ge⟩

theorem readsOn_fillWindow (hwin : s.windowSize < 2 ^ 64) : s.ReadsOn s.fillWindow :=
  have hfilled := filled_fillWindow hwin
  ⟨fun hended ↦ hfilled.ended.trans hended, hfilled.bytesReaded_le⟩

theorem readsOn_ackReceived (s : TcpSender) (ackno : WrappingInt32) (w : UInt16) :
    s.ReadsOn (s.ackReceived ackno w) := by
  simp only [TcpSender.ackReceived]
  split_ifs
  · exact ⟨id, le_refl _⟩
  · have hwin := w.toNat_lt
    refine ReadsOn.trans ?_ (readsOn_fillWindow ?_)
    · exact ⟨id, le_refl _⟩
    · simp only [acceptAck]
      omega
  · exact ⟨id, le_refl _⟩

theorem readsOn_tick (s : TcpSender) (ms : ℕ) : s.ReadsOn (s.tick ms) := by
  obtain ⟨out, times, time, consec, rto, heq, -, -⟩ := exists_tick s ms
  rw [heq]
  exact ⟨id, le_refl _⟩

end TcpSender

/-- A connection with the bytes its outbound stream accepted and the history of the segments
that occupy a number, as they were put on its queue. -/
structure Outbound where
  connection : TcpConnection
  accepted : List UInt8
  log : List Emission

namespace Outbound

open TcpConnection TcpSegment Emission

variable {t : Outbound} {s : TcpSender} {d : List UInt8} {c' : TcpConnection} {r : TcpReceiver}

def new (cfg : TcpConfig) (random : UInt32) : Outbound := ⟨.new cfg random, [], []⟩

def step (t : Outbound) (op : Op) : Outbound :=
  let pushed := occupying (emitted t.connection (t.connection.step op))
  { connection := t.connection.step op
    accepted := match op with
      | .write data => t.accepted ++ data.take (t.connection.writeSize data)
      | _ => t.accepted
    log := match op with
      | .tick _ => t.log ++ pushed.map again
      | _ => t.log ++ pushed.map first }

/-- No byte is accepted after the end of the input. -/
def Writable (t : Outbound) : Op → Prop
  | .write data => t.connection.sender.streamIn.inputEnded = false ∨ t.connection.writeSize data = 0
  | _ => True

instance (t : Outbound) : (op : Op) → Decidable (t.Writable op)
  | .write _ => inferInstanceAs (Decidable (_ ∨ _))
  | .connect | .endInputStream | .tick _ | .read _ | .segmentReceived _ | .takeSegment =>
    inferInstanceAs (Decidable True)

/-- The segment was sent first from the absolute number `q` on. -/
def SentFrom (t : Outbound) (q : ℕ) (seg : TcpSegment) : Prop :=
  ∃ before seg' after, firsts t.log = before ++ seg' :: after ∧
    q = tileEnd lengthInSequenceSpace 0 before ∧ seg'.contents = seg.contents

/-- The invariant: up to stamps, the history holds the first transmissions of the sender, and
every repetition in it is of one of them. -/
structure Sound (t : Outbound) : Prop where
  queue : t.connection.sender.segmentsOut = []
  transmits : ∃ segs, t.connection.sender.Transmits t.accepted segs ∧
    segs.map contents = (firsts t.log).map contents
  repeats : ∀ seg, .again seg ∈ t.log → ∃ seg' ∈ firsts t.log, seg'.contents = seg.contents

theorem sound_new (cfg : TcpConfig) (random : UInt32) : (new cfg random).Sound :=
  ⟨rfl, ⟨[], TcpSender.transmits_new _ _ _ _, rfl⟩, by simp [new]⟩

section sends

variable (hsends : Sends t.connection c' s r)

include hsends

theorem map_contents_emitted : (occupying (emitted t.connection c')).map contents =
    (occupying s.segmentsOut).map contents := by
  refine map_contents_occupying ?_
  rw [hsends.emitted_eq, List.map_map]
  exact List.map_congr_left fun seg _ ↦ contents_stamp _ _ seg

theorem transmits_of_sends {segs : List TcpSegment} (h : s.Transmits d segs) :
    c'.sender.Transmits d segs := by
  obtain ⟨stream, hstream, heq⟩ := hsends.exists_sender
  rw [heq]
  exact h.frame h.windowSize_lt rfl hstream rfl rfl (List.suffix_refl _)

theorem readsOn_of_sends (h : t.connection.sender.ReadsOn s) :
    t.connection.sender.ReadsOn c'.sender := by
  obtain ⟨stream, hstream, heq⟩ := hsends.exists_sender
  refine h.trans (.of_sameBytes ?_)
  rw [heq]
  exact hstream

end sends

theorem sound_of_feeds (h : t.Sound)
    (hfeeds : ∀ segs, t.connection.sender.Transmits t.accepted segs →
      ∃ s r, Sends t.connection c' s r ∧ s.Feeds d segs ∧ t.connection.sender.ReadsOn s) :
    Sound ⟨c', d, t.log ++ (occupying (emitted t.connection c')).map first⟩ ∧
      t.connection.sender.ReadsOn c'.sender := by
  obtain ⟨segs, htrans, hsame⟩ := h.transmits
  obtain ⟨s, r, hsends, hs, hreads⟩ := hfeeds segs htrans
  refine ⟨⟨hsends.queue_eq_nil, ⟨_, transmits_of_sends hsends hs, ?_⟩, ?_⟩,
    readsOn_of_sends hsends hreads⟩
  · rw [firsts_append, firsts_map_first, List.map_append, List.map_append, hsame,
      map_contents_emitted hsends]
  · intro seg hseg
    have hold : .again seg ∈ t.log := by simpa using hseg
    obtain ⟨seg', hmem, heq⟩ := h.repeats seg hold
    exact ⟨seg', by simp [hmem], heq⟩

theorem sound_of_quiet (h : t.Sound) (hsender : c'.sender = t.connection.sender)
    (hquiet : emitted t.connection c' = []) :
    Sound ⟨c', t.accepted, t.log ++ (occupying (emitted t.connection c')).map first⟩ ∧
      t.connection.sender.ReadsOn c'.sender := by
  rw [hquiet, hsender]
  refine ⟨⟨?_, ?_, ?_⟩, id, le_refl _⟩
  · rw [hsender]
    exact h.queue
  · simpa [occupying, hsender] using h.transmits
  · simpa [occupying] using h.repeats

theorem sound_tick (h : t.Sound) (ms : ℕ) :
    (t.step (.tick ms)).Sound ∧
      t.connection.sender.ReadsOn (t.step (.tick ms)).connection.sender := by
  obtain ⟨segs, htrans, hsame⟩ := h.transmits
  obtain ⟨hticked, out, hout, hmem⟩ := htrans.tick ms
  rw [h.queue, List.nil_append] at hout
  have hsends := sends_tick t.connection ms
  have hpushed : (occupying (emitted t.connection (t.connection.step (.tick ms)))).map contents =
    _ := map_contents_emitted hsends
  refine ⟨⟨hsends.queue_eq_nil, ⟨segs, transmits_of_sends hsends hticked, ?_⟩, ?_⟩,
    readsOn_of_sends hsends (TcpSender.readsOn_tick _ ms)⟩
  · simpa [step] using hsame
  · -- The timer only sends again what is outstanding.
    intro seg hseg
    have hcontents : ∀ x ∈ segs, ∃ seg' ∈ firsts t.log, seg'.contents = x.contents := by
      intro x hx
      have hx' : x.contents ∈ (firsts t.log).map contents :=
        hsame ▸ List.mem_map_of_mem hx
      exact List.mem_map.mp hx'
    simp only [step, firsts_append, firsts_map_again, List.append_nil]
    rcases List.mem_append.mp hseg with hold | hnew
    · exact h.repeats seg hold
    · have hseg' : seg.contents ∈ (occupying out).map contents := by
        rw [← hout, ← hpushed]
        refine List.mem_map_of_mem ?_
        simpa using hnew
      obtain ⟨x, hx, heq⟩ := List.mem_map.mp hseg'
      rw [← heq]
      exact hcontents x (hmem x (List.mem_of_mem_filter hx))

theorem sound_segmentReceived (h : t.Sound) (seg : TcpSegment) :
    (t.step (.segmentReceived seg)).Sound ∧
      t.connection.sender.ReadsOn (t.step (.segmentReceived seg)).connection.sender := by
  refine sound_of_feeds h fun segs htrans ↦ ?_
  obtain ⟨s, hs, hsends⟩ := exists_sends_segmentReceived t.connection seg
  have hrelayed : (t.connection.relayed seg).Feeds t.accepted segs ∧
      t.connection.sender.ReadsOn (t.connection.relayed seg) := by
    rw [relayed]
    split_ifs
    · exact ⟨(htrans.feeds h.queue).ackReceived _ _, TcpSender.readsOn_ackReceived _ _ _⟩
    · exact ⟨htrans.feeds h.queue, id, le_refl _⟩
  obtain ⟨hfeeds, hreads⟩ := hrelayed
  have hwin : (t.connection.relayed seg).windowSize < 2 ^ 16 := hfeeds.windowSize_lt
  refine ⟨s, _, hsends, ?_⟩
  rcases hs with rfl | rfl | rfl
  · exact ⟨hfeeds, hreads⟩
  · exact ⟨hfeeds.fillWindow, hreads.trans (TcpSender.readsOn_fillWindow (by omega))⟩
  · exact ⟨hfeeds.sendEmptySegment, hreads.trans ⟨id, le_refl _⟩⟩

/-- The stream is changed and the window is filled: three operations do this. -/
theorem sound_of_fill (h : t.Sound) {stream : ByteStream}
    (hsends : Sends t.connection c'
      ({ t.connection.sender with stream := stream } : TcpSender).fillWindow r)
    (htrans : ∀ segs, t.connection.sender.Transmits t.accepted segs →
      ({ t.connection.sender with stream := stream } : TcpSender).Transmits d segs)
    (hreads : t.connection.sender.ReadsOn { t.connection.sender with stream := stream }) :
    Sound ⟨c', d, t.log ++ (occupying (emitted t.connection c')).map first⟩ ∧
      t.connection.sender.ReadsOn c'.sender := by
  refine sound_of_feeds h fun segs hsegs ↦ ⟨_, r, hsends, ?_, ?_⟩
  · exact ((htrans segs hsegs).feeds h.queue).fillWindow
  · have hwin := hsegs.windowSize_lt
    exact hreads.trans (TcpSender.readsOn_fillWindow (by simp only; omega))

theorem sound_step (h : t.Sound) (op : Op) (hop : t.Writable op) :
    (t.step op).Sound ∧ t.connection.sender.ReadsOn (t.step op).connection.sender := by
  cases op with
  | connect => exact sound_of_fill h (sends_connect t.connection) (fun _ ↦ id) ⟨id, le_refl _⟩
  | write data =>
      refine sound_of_fill h (sends_write t.connection data) (fun segs htrans ↦ ?_)
        ⟨id, le_refl _⟩
      rcases hop with hopen | hzero
      · exact htrans.write hopen data
      · -- A write that accepts nothing changes nothing.
        have hsame := ByteStream.write_of_writeSize_eq_zero _ _ hzero
        simpa only [hsame, hzero, List.take_zero, List.append_nil] using htrans
  | endInputStream =>
      exact sound_of_fill h (sends_endInputStream t.connection) (fun _ htrans ↦ htrans.endInput)
        ⟨fun _ ↦ rfl, le_refl _⟩
  | tick ms => exact sound_tick h ms
  | read len => exact sound_of_quiet h rfl (by simp [emitted, TcpConnection.step])
  | segmentReceived seg => exact sound_segmentReceived h seg
  | takeSegment => exact sound_of_quiet h rfl (by simp [emitted, TcpConnection.step])

theorem sound_run (cfg : TcpConfig) (random : UInt32) {ops : List Op}
    (hops : Along step Writable (new cfg random) ops) :
    (run step (new cfg random) ops).Sound :=
  run_invariant (I := Sound) (fun _ op ht hop ↦ (sound_step ht op hop).1)
    (sound_new cfg random) hops

theorem Sound.tiled (h : t.Sound) :
    Tiled lengthInSequenceSpace (TcpSender.Cut t.connection.sender.isn t.accepted
        t.connection.sender.stream.ended) 0 (firsts t.log) ∧
      tileEnd lengthInSequenceSpace 0 (firsts t.log) ≤ t.accepted.length + 2 := by
  obtain ⟨segs, htrans, hsame⟩ := h.transmits
  obtain ⟨htiled, hend⟩ := htrans.tiled.of_map_eq (fun _ _ ↦ length_of_contents_eq)
    (fun _ _ _ heq hcut ↦ hcut.of_contents_eq heq) hsame
  exact ⟨htiled, by rw [hend, htrans.tileEnd_eq]; exact htrans.nextSeqno_le⟩

theorem Sound.bytesWrote (h : t.Sound) :
    t.connection.sender.stream.bytesWrote = t.accepted.length := by
  obtain ⟨segs, htrans, -⟩ := h.transmits
  exact htrans.bytesWrote

/-- Where a segment was sent from, it is a cut of the accepted bytes. -/
theorem Sound.cut_of_sentFrom (h : t.Sound) {q : ℕ} {seg : TcpSegment} (hq : t.SentFrom q seg) :
    TcpSender.Cut t.connection.sender.isn t.accepted t.connection.sender.stream.ended q seg ∧
      q + seg.lengthInSequenceSpace ≤ t.accepted.length + 2 := by
  obtain ⟨before, seg', after, heq, rfl, hsame⟩ := hq
  obtain ⟨htiled, hend⟩ := h.tiled
  rw [heq, tiled_append] at htiled
  rw [heq, tileEnd_append, tileEnd] at hend
  refine ⟨htiled.2.1.of_contents_eq hsame, ?_⟩
  rw [← length_of_contents_eq hsame]
  exact (le_tileEnd _ after).trans hend

theorem Sound.exists_sentFrom (h : t.Sound) {x : Emission} (hx : x ∈ t.log) :
    ∃ q, t.SentFrom q x.seg := by
  have hfirst : ∃ seg' ∈ firsts t.log, seg'.contents = x.seg.contents := by
    cases x with
    | first seg => exact ⟨seg, first_mem_iff.mp hx, rfl⟩
    | again seg => exact h.repeats seg hx
  obtain ⟨seg', hmem, hsame⟩ := hfirst
  obtain ⟨before, after, heq⟩ := List.append_of_mem hmem
  exact ⟨_, before, seg', after, heq, rfl, hsame⟩

theorem ended_run {more : List Op} (h : t.Sound) (hmore : Along step Writable t more)
    (hended : t.connection.sender.stream.ended = true) :
    (run step t more).Sound ∧ (run step t more).accepted = t.accepted ∧
      t.connection.sender.ReadsOn (run step t more).connection.sender := by
  refine run_invariant (I := fun t' ↦ t'.Sound ∧ t'.accepted = t.accepted ∧
    t.connection.sender.ReadsOn t'.connection.sender) ?_ ⟨h, rfl, id, le_refl _⟩ hmore
  rintro t' op ⟨ht', haccepted, hreads⟩ hop
  obtain ⟨hsound, hstep⟩ := sound_step ht' op hop
  refine ⟨hsound, ?_, hreads.trans hstep⟩
  cases op with
  | write data =>
      rcases hop with hopen | hzero
      · exact absurd (hreads.ended hended) (Bool.eq_false_iff.mp hopen)
      · simp [step, hzero, haccepted]
  | _ => exact haccepted

theorem bytesWritten_run {more : List Op} (h : t.Sound) (hmore : Along step Writable t more)
    (hended : t.connection.sender.streamIn.inputEnded = true) :
    (run step t more).connection.sender.streamIn.bytesWritten =
      t.connection.sender.streamIn.bytesWritten := by
  obtain ⟨hsound, haccepted, -⟩ := ended_run h hmore hended
  exact hsound.bytesWrote.trans ((congrArg _ haccepted).trans h.bytesWrote.symm)

theorem eof_run {more : List Op} (h : t.Sound) (hmore : Along step Writable t more)
    (heof : t.connection.sender.streamIn.eof = true) :
    (run step t more).connection.sender.streamIn.eof = true := by
  obtain ⟨hdeq, hended⟩ := (ByteStream.eof_iff _).mp heof
  obtain ⟨hsound, haccepted, hreads⟩ := ended_run h hmore hended
  refine (ByteStream.eof_iff _).mpr ⟨?_, hreads.ended hended⟩
  -- All bytes were read before, and no more were accepted.
  have hwrote := t.connection.sender.stream.bytesWrote_eq
  have hwrote' := (run step t more).connection.sender.stream.bytesWrote_eq
  rw [h.bytesWrote, show t.connection.sender.stream.deq = [] from hdeq] at hwrote
  rw [hsound.bytesWrote, haccepted] at hwrote'
  have hread := hreads.bytesReaded_le
  refine List.length_eq_zero_iff.mp ?_
  rw [List.length_nil] at hwrote
  simp only [TcpSender.streamIn]
  omega

/-- Once the outbound stream has been ended, nothing follows its FIN: no byte is accepted, a
stream at its end stays there, every segment put on the queue was first sent from some number on,
and none of them occupies a number after that of the FIN. -/
theorem nothing_follows_fin (cfg : TcpConfig) (random : UInt32) (ops more : List Op)
    (hops : Along step Writable (new cfg random) (ops ++ more)) :
    let t := run step (new cfg random) ops
    let t' := run step t more
    (t.connection.sender.streamIn.inputEnded = true →
        t'.connection.sender.streamIn.bytesWritten = t.connection.sender.streamIn.bytesWritten) ∧
      (t.connection.sender.streamIn.eof = true → t'.connection.sender.streamIn.eof = true) ∧
      (∀ x ∈ t'.log, ∃ q, t'.SentFrom q x.seg ∧
        x.seg.header.seqno = wrap q t'.connection.sender.isn) ∧
      ∀ q fin q' seg, t'.SentFrom q fin → fin.header.fin = true → t'.SentFrom q' seg →
        q' + seg.lengthInSequenceSpace ≤ q + fin.lengthInSequenceSpace := by
  intro t t'
  obtain ⟨hfront, hmore⟩ := along_append.mp hops
  have ht : t.Sound := sound_run cfg random hfront
  have ht' : t'.Sound := by
    have := sound_run cfg random hops
    rwa [run_append] at this
  refine ⟨bytesWritten_run ht hmore, eof_run ht hmore, fun x hx ↦ ?_, ?_⟩
  · obtain ⟨q, hq⟩ := ht'.exists_sentFrom hx
    exact ⟨q, hq, (ht'.cut_of_sentFrom hq).1.seqno⟩
  · intro q fin q' seg hq hfin hq'
    rw [(ht'.cut_of_sentFrom hq).1.end_of_fin hfin]
    exact (ht'.cut_of_sentFrom hq').2

/-- The FIN, sent again by the timer and then acknowledged. -/
theorem nothing_follows_fin_sent_again :
    let t := run step (new { recvCapacity := 4, sendCapacity := 4, fixedIsn := some ⟨7⟩ } 0)
      [.connect,
        .segmentReceived { header :=
          { seqno := ⟨20⟩, syn := true, ack := true, ackno := ⟨8⟩, win := 2 } },
        .write [97], .endInputStream]
    let t' := run step t [.write [], .tick 1000,
      .segmentReceived { header := { seqno := ⟨21⟩, ack := true, ackno := ⟨10⟩, win := 2 } }]
    t'.log.map (fun x ↦ (x.seg.header.seqno, x.seg.payload, x.seg.header.fin)) =
        [(⟨7⟩, [], false), (⟨8⟩, [97], false), (⟨9⟩, [], true), (⟨8⟩, [97], false)] ∧
      t.connection.sender.streamIn.eof = true ∧ t'.connection.sender.streamIn.eof = true :=
  ⟨by decide +kernel, by decide +kernel,
    (nothing_follows_fin { recvCapacity := 4, sendCapacity := 4, fixedIsn := some ⟨7⟩ } 0 _ _
      (by decide +kernel)).2.1 (by decide +kernel)⟩

/-- Two bytes written after the end of the input are accepted. The first goes out with the
number after that of the FIN, and the second leaves the stream no longer at its end. -/
theorem write_follows_fin :
    let t := run step (new { recvCapacity := 4, sendCapacity := 4, fixedIsn := some ⟨7⟩ } 0)
      [.connect,
        .segmentReceived { header :=
          { seqno := ⟨20⟩, syn := true, ack := true, ackno := ⟨8⟩, win := 2 } },
        .endInputStream]
    let t' := t.step (.write [97, 98])
    t.connection.sender.streamIn.eof = true ∧ t'.connection.sender.streamIn.eof = false ∧
      t.connection.sender.streamIn.bytesWritten = 0 ∧
      t'.connection.sender.streamIn.bytesWritten = 2 ∧
      t'.log.map (fun x ↦ (x.seg.header.seqno, x.seg.payload, x.seg.header.fin)) =
        [(⟨7⟩, [], false), (⟨8⟩, [], true), (⟨9⟩, [97], false)] := by
  decide +kernel

end Outbound

end Sponge
