import Sponge.Reassembler.Flush

/-!
# One push

A push stores its substring and flushes. `Pushed` says what the two together
do to the window, the output stream and the flags; every invariant of the
reassembler is derived from it.
-/

namespace Sponge.StreamReassembler

open Lib

variable {r r' : StreamReassembler} {data : List UInt8} {index m i : ℕ} {eof : Bool}

/-- What a push that writes `m` bytes does. -/
structure Pushed (r r' : StreamReassembler) (data : List UInt8) (index : ℕ) (eof : Bool)
    (m : ℕ) : Prop where
  wf : r'.Wf
  startAux : r'.startAux = r.startAux + m
  capacity : r'.capacity = r.capacity
  aux : r'.aux = (r.storeCells data index).aux
  bytesReaded : r'.output.bytesReaded = r.output.bytesReaded
  deq : r'.output.deq = r.output.deq ++ (r.storeCells data index).cellBytes m
  le_room : m ≤ r.room
  held_of_lt : ∀ i < m, (r.storeCells data index).Held (r.startAux + i)
  not_held : m < r.room → ¬(r.storeCells data index).Held (r.startAux + m)
  held_iff : ∀ i, r'.Held i ↔ r.startAux + m ≤ i ∧ (r.storeCells data index).Held i ∧
    ¬((r.storeCells data index).ReachesEnd ∧ r.ringEnd ≤ i)
  bytesUnass : m ≤ (r.storeCells data index).bytesUnass →
    r'.bytesUnass = (r.storeCells data index).bytesUnass - m
  endStream : r'.endStream =
    if data ≠ [] ∧ r.Meets data index ∧ eof = true then index + data.length else r.endStream

/-- The push ends the output: it is an empty one at the end of the stream, or the first
unassembled index is the recorded end. -/
def EndsOutput (r' : StreamReassembler) (data : List UInt8) (eof : Bool) : Prop :=
  (data = [] ∧ eof = true) ∨ r'.startAux = r'.endStream

/-- A push is the flush of the stored reassembler, up to two flags. -/
theorem pushSubstring_eq (r : StreamReassembler) (data : List UInt8) (index : ℕ) (eof : Bool) :
    ∃ b : Bool, r.pushSubstring data index eof =
      let flushed := (r.writeToAux data index eof).writeToBytestream
      { flushed with
        eofSeen := b
        output := if flushed.startAux = flushed.endStream then flushed.output.endInput
          else flushed.output } := by
  refine ⟨if (r.writeToAux data index eof).writeToBytestream.eofSeen then true else eof, ?_⟩
  simp only [pushSubstring]
  split <;> rfl

/-- A push reads nothing from the output, does not touch its error flag and never reopens it. -/
theorem output_pushSubstring (r : StreamReassembler) (data : List UInt8) (index : ℕ)
    (eof : Bool) :
    (r.pushSubstring data index eof).output.bytesReaded = r.output.bytesReaded ∧
      (r.pushSubstring data index eof).output.error = r.output.error ∧
      (r.output.ended = true → (r.pushSubstring data index eof).output.ended = true) := by
  have hflush : ∀ x : StreamReassembler,
      x.writeToBytestream.output.bytesReaded = x.output.bytesReaded ∧
        x.writeToBytestream.output.error = x.output.error ∧
        x.writeToBytestream.output.ended = x.output.ended := by
    intro x
    rw [writeToBytestream]
    split_ifs <;> exact ⟨rfl, rfl, rfl⟩
  have hstore : (r.writeToAux data index eof).output.bytesReaded = r.output.bytesReaded ∧
      (r.writeToAux data index eof).output.error = r.output.error ∧
      (r.output.ended = true → (r.writeToAux data index eof).output.ended = true) := by
    simp only [writeToAux, copyToAux]
    split_ifs
    all_goals first
      | exact ⟨rfl, rfl, id⟩
      | exact ⟨rfl, rfl, fun _ ↦ rfl⟩
  obtain ⟨flag, hpush⟩ := r.pushSubstring_eq data index eof
  obtain ⟨hread, herror, hended⟩ := hflush (r.writeToAux data index eof)
  rw [hpush]
  refine ⟨(ByteStream.bytesReaded_ite_endInput _).trans (hread.trans hstore.1),
    (ByteStream.error_ite_endInput _).trans (herror.trans hstore.2.1), fun h ↦ ?_⟩
  refine (ByteStream.ended_ite_endInput _).mpr (Or.inr ?_)
  rw [hended]
  exact hstore.2.2 h

theorem exists_pushed (hw : r.Wf)
    (hidx : index ≤ r.startAux + r.capacity → index + data.length < 2 ^ 64) (eof : Bool) :
    ∃ m, Pushed r (r.pushSubstring data index eof) data index eof m ∧
      ((r.pushSubstring data index eof).output.ended = true ↔
        r.output.ended = true ∨ (r.pushSubstring data index eof).EndsOutput data eof) := by
  have hws : (r.storeCells data index).Wf := hw.storeCells
  obtain ⟨b, hb⟩ := pushSubstring_eq r data index eof
  rw [hb, writeToAux_eq hidx]
  -- The flags set by the store do not matter for the flush.
  set stored : StreamReassembler :=
    { r.storeCells data index with
      output := if data = [] ∧ eof = true then r.output.endInput else r.output
      endStream := if data ≠ [] ∧ r.Meets data index ∧ eof = true then
        index + data.length else r.endStream } with hstored
  have hcap : stored.output.cap = r.output.cap := r.output.cap_ite_endInput
  have hdeq : stored.output.deq = r.output.deq := r.output.deq_ite_endInput
  have hs : stored.startAux = r.startAux := storeCells_startAux
  have hc : stored.capacity = r.capacity := storeCells_capacity
  have hwstored : stored.Wf := hws.frame (by simp) (by simp)
  obtain ⟨m, hm⟩ := exists_flushed hwstored
  have hroom : stored.room = r.room := by rw [room, room, hcap, hdeq]
  have hend : stored.ringEnd = r.ringEnd := by rw [ringEnd, ringEnd, hs, hc]
  have hheld : ∀ i, stored.Held i ↔ (r.storeCells data index).Held i := fun _ ↦ Iff.rfl
  have hreach : stored.ReachesEnd ↔ (r.storeCells data index).ReachesEnd := by
    simp only [ReachesEnd, hheld, ringEnd]
    rfl
  set flushed := stored.writeToBytestream with hflushed
  have hsf : flushed.startAux = r.startAux + m := by rw [hm.startAux, hs]
  have hcf : flushed.capacity = r.capacity := by rw [hm.capacity, hc]
  refine ⟨m, ?_, ?_⟩
  constructor
  case wf => exact (hm.wf hwstored).frame (by simp) (by simp)
  case startAux => exact hsf
  case capacity => exact hcf
  case aux => exact hm.aux
  case bytesReaded =>
    rw [ByteStream.bytesReaded_ite_endInput, hm.bytesReaded]
    exact r.output.bytesReaded_ite_endInput
  case deq =>
    rw [ByteStream.deq_ite_endInput, hm.deq, hdeq]
    rfl
  case le_room => exact hroom ▸ hm.le_room
  case held_of_lt =>
    intro i hi
    have h := hm.held_of_lt i hi
    rwa [hheld, hs] at h
  case not_held =>
    intro hlt
    have h := hm.not_held (hroom ▸ hlt)
    rwa [hheld, hs] at h
  case held_iff =>
    intro i
    have h := hm.held_iff i
    rw [hsf, hheld, hreach, hend] at h
    exact h
  case bytesUnass => exact hm.bytesUnass
  case endStream => exact hm.endStream
  · -- The flush keeps the flag that the store may have set.
    have hended : stored.output.ended = true ↔
        r.output.ended = true ∨ (data = [] ∧ eof = true) := by
      simp only [hstored]
      split
      case isTrue hnil => simp [hnil]
      case isFalse hnil => simp [hnil]
    have hflag : flushed.output.ended = stored.output.ended := hm.ended
    simp only [EndsOutput]
    split
    case isTrue heq => simp [heq]
    case isFalse hne => rw [hflag, hended]; simp [hne]

/-- A property of indices that every stored substring has holds of all indices
held or written. -/
theorem Pushed.forall_held_or_written (h : Pushed r r' data index eof m) (hw : r.Wf)
    {P : ℕ → Prop} (hold : ∀ i, r.Held i ∨ i < r.startAux → P i)
    (hnew : ∀ i, index ≤ i → i < index + data.length → P i) :
    ∀ i, r'.Held i ∨ i < r'.startAux → P i := by
  have hstored : ∀ i, (r.storeCells data index).Held i → P i := by
    intro i hi
    rcases (held_storeCells_iff hw).mp hi with hheld | ⟨-, -, hin, hin'⟩
    · exact hold i (Or.inl hheld)
    · exact hnew i hin hin'
  rintro i (hi | hi)
  · exact hstored i ((h.held_iff i).mp hi).2.1
  · rcases lt_or_ge i r.startAux with hlt | hge
    · exact hold i (Or.inr hlt)
    · have hheld := h.held_of_lt (i - r.startAux) (by rw [h.startAux] at hi; omega)
      rw [Nat.add_sub_cancel' hge] at hheld
      exact hstored i hheld

section count

/-- The held indices of the window. -/
def heldSet (r : StreamReassembler) : Finset ℕ :=
  (Finset.Ico r.startAux (r.startAux + r.capacity)).filter r.Held

theorem mem_heldSet : i ∈ r.heldSet ↔ r.Held i := by
  simp only [heldSet, Finset.mem_filter, Finset.mem_Ico]
  exact ⟨fun h ↦ h.2, fun h ↦ ⟨⟨h.1, h.2.1⟩, h⟩⟩

theorem Ico_subset_heldSet {start m : ℕ} (h : ∀ k < m, r.Held (start + k)) :
    Finset.Ico start (start + m) ⊆ r.heldSet := by
  intro i hi
  obtain ⟨hle, hlt⟩ := Finset.mem_Ico.mp hi
  have hheld := h (i - start) (by omega)
  rw [Nat.add_sub_cancel' hle] at hheld
  exact mem_heldSet.mpr hheld

theorem bytesUnass_new (capacity : ℕ) :
    (new capacity).bytesUnass = (new capacity).heldSet.card := by
  have hnone : (new capacity).heldSet = ∅ := by
    ext i
    rw [mem_heldSet]
    simp [not_held_new]
  rw [hnone]
  rfl

/-- Occupied cells and held indices correspond one to one. -/
theorem count_false_empty (hw : r.Wf) : r.empty.count false = r.heldSet.card := by
  rw [count_eq_card_positions, hw.length_empty]
  symm
  apply Finset.card_bij (fun i _ ↦ i % r.capacity)
  · intro i hi
    have hheld := mem_heldSet.mp hi
    exact Finset.mem_filter.mpr
      ⟨Finset.mem_range.mpr (Nat.mod_lt i hw.capacity_pos), hheld.2.2⟩
  · intro i hi j hj hij
    have hi' := mem_heldSet.mp hi
    have hj' := mem_heldSet.mp hj
    exact slot_injective hi'.1 hi'.2.1 hj'.1 hj'.2.1 hij
  · intro k hk
    obtain ⟨hk, hcell⟩ := Finset.mem_filter.mp hk
    obtain ⟨i, hi, hi', rfl⟩ := exists_index_of_slot r.startAux (Finset.mem_range.mp hk)
    exact ⟨i, mem_heldSet.mpr ⟨hi, hi', hcell⟩, rfl⟩

/-- The index is held once `data` is stored at `index`. -/
def Pending (r : StreamReassembler) (data : List UInt8) (index i : ℕ) : Prop :=
  r.startAux ≤ i ∧ i < r.startAux + r.capacity ∧
    (r.Held i ∨ (index ≤ i ∧ i < index + data.length))

theorem held_storeCells_iff_pending (hw : r.Wf) :
    (r.storeCells data index).Held i ↔ r.Pending data index i := by
  rw [held_storeCells_iff hw]
  constructor
  · rintro (h | ⟨h₁, h₂, h⟩)
    · exact ⟨h.1, h.2.1, Or.inl h⟩
    · exact ⟨h₁, h₂, Or.inr h⟩
  · rintro ⟨h₁, h₂, h | h⟩
    · exact Or.inl h
    · exact Or.inr ⟨h₁, h₂, h⟩

instance (r : StreamReassembler) (data : List UInt8) (index i : ℕ) :
    Decidable (r.Pending data index i) :=
  inferInstanceAs (Decidable (_ ∧ _ ∧ _))

/-- Before the push, every byte up to `stop` is written, held or part of `data`, and all of them
fit in the output. -/
def Fills (r : StreamReassembler) (data : List UInt8) (index stop : ℕ) : Prop :=
  stop ≤ r.startAux + r.room ∧ ∀ i < stop, r.startAux ≤ i → r.Pending data index i

instance (r : StreamReassembler) (data : List UInt8) (index stop : ℕ) :
    Decidable (r.Fills data index stop) :=
  inferInstanceAs (Decidable (_ ∧ _))

/-- What fills the stream up to an index is what the push writes. -/
theorem Pushed.fills_iff (h : Pushed r r' data index eof m) (hw : r.Wf) (stop : ℕ) :
    r.Fills data index stop ↔ stop ≤ r'.startAux := by
  have hroom := h.le_room
  rw [h.startAux]
  constructor
  · rintro ⟨hfits, hpending⟩
    by_contra hlt
    have hnot := h.not_held (by omega)
    rw [held_storeCells_iff_pending hw] at hnot
    exact hnot (hpending _ (by omega) (by omega))
  · intro hle
    refine ⟨by omega, fun i hi hstart ↦ ?_⟩
    have hheld := h.held_of_lt (i - r.startAux) (by omega)
    rwa [Nat.add_sub_cancel' hstart, held_storeCells_iff_pending hw] at hheld

/-- The index that a push with the flag takes for the end of the stream: its own end, or the one
recorded before if it misses the window. -/
def recordedEnd (r : StreamReassembler) (data : List UInt8) (index : ℕ) : ℕ :=
  if r.Meets data index then index + data.length else r.endStream

/-- The bytes that are written, held or pushed and fit in the output reach up to `stop`, and not
further. -/
def BreaksOffAt (r : StreamReassembler) (data : List UInt8) (index stop : ℕ) : Prop :=
  r.startAux ≤ stop ∧ r.Fills data index stop ∧ ¬r.Fills data index (stop + 1)

instance (r : StreamReassembler) (data : List UInt8) (index stop : ℕ) :
    Decidable (r.BreaksOffAt data index stop) :=
  inferInstanceAs (Decidable (_ ∧ _ ∧ ¬_))

/-- A push with the flag completes the stream up to `stop`, or it has bytes and those at hand do not
break off at the index that is taken for the end. -/
def EndsNotBefore (r : StreamReassembler) (data : List UInt8) (index stop : ℕ) : Prop :=
  r.Fills data index stop ∨
    (data ≠ [] ∧ ¬r.BreaksOffAt data index (r.recordedEnd data index))

instance (r : StreamReassembler) (data : List UInt8) (index stop : ℕ) :
    Decidable (r.EndsNotBefore data index stop) :=
  inferInstanceAs (Decidable (_ ∨ (_ ∧ ¬_)))

/-- Where the flag ends the output, everything up to `stop` is written. -/
theorem Pushed.le_startAux_of_endsOutput {stop : ℕ} (h : Pushed r r' data index true m)
    (hw : r.Wf) (hends : r'.EndsOutput data true) (hstop : r.EndsNotBefore data index stop) :
    stop ≤ r'.startAux := by
  have hfills := h.fills_iff hw
  rcases hstop with hall | ⟨hne, hnot⟩
  · exact (hfills _).mp hall
  · -- The output would end where the bytes at hand break off.
    have heq := hends.resolve_left fun hempty ↦ hne hempty.1
    have hend := h.endStream
    simp only [ne_eq, hne, not_false_eq_true, and_true, true_and] at hend
    have hstart := h.startAux
    rw [recordedEnd, ← hend, ← heq] at hnot
    refine absurd ⟨by omega, (hfills _).mpr le_rfl, fun hmore ↦ ?_⟩ hnot
    exact Nat.not_succ_le_self _ ((hfills _).mp hmore)

/-- When the stored run reaches the end of the ring, every pending index past
that end is part of the run and fits in the output. -/
def ForgetsNothing (r : StreamReassembler) (data : List UInt8) (index : ℕ) : Prop :=
  (∀ i, r.startAux ≤ i → i < r.ringEnd → r.Pending data index i) →
    ∀ i, r.ringEnd ≤ i → r.Pending data index i →
      i < r.startAux + r.room ∧ ∀ j, r.startAux ≤ j → j < i → r.Pending data index j

instance (r : StreamReassembler) (data : List UInt8) (index : ℕ) :
    Decidable (r.ForgetsNothing data index) :=
  decidable_of_iff
    ((∀ i < r.ringEnd, r.startAux ≤ i → r.Pending data index i) →
      ∀ i < r.startAux + r.capacity, r.ringEnd ≤ i → r.Pending data index i →
        i < r.startAux + r.room ∧ ∀ j < i, r.startAux ≤ j → r.Pending data index j)
    ⟨fun h hall i hi hpend ↦ by
      obtain ⟨hroom, hrun⟩ := h (fun j hj hj' ↦ hall j hj' hj) i hpend.2.1 hi hpend
      exact ⟨hroom, fun j hj hj' ↦ hrun j hj' hj⟩,
    fun h hall i _ hi hpend ↦ by
      obtain ⟨hroom, hrun⟩ := h (fun j hj hj' ↦ hall j hj' hj) i hi hpend
      exact ⟨hroom, fun j hj hj' ↦ hrun j hj' hj⟩⟩

theorem Pushed.held_iff_of_forgetsNothing (h : Pushed r r' data index eof m) (hw : r.Wf)
    (hkeep : r.ForgetsNothing data index) :
    r'.Held i ↔ r.startAux + m ≤ i ∧ r.Pending data index i := by
  have hreach : (r.storeCells data index).ReachesEnd ↔
      ∀ i, r.startAux ≤ i → i < r.ringEnd → r.Pending data index i := by
    simp only [ReachesEnd, held_storeCells_iff_pending hw, ringEnd, storeCells_startAux,
      storeCells_capacity]
  rw [h.held_iff i, hreach, held_storeCells_iff_pending hw]
  constructor
  · rintro ⟨hi, hpend, -⟩
    exact ⟨hi, hpend⟩
  · rintro ⟨hi, hpend⟩
    refine ⟨hi, hpend, ?_⟩
    rintro ⟨hall, hend⟩
    obtain ⟨hroom, hrun⟩ := hkeep hall i hend hpend
    -- The run stops before `i` although the output has room and `i` continues it.
    have hnot := h.not_held (by omega)
    rw [held_storeCells_iff_pending hw] at hnot
    rcases Nat.lt_or_eq_of_le hi with hlt | heq
    · exact hnot (hrun _ (by omega) hlt)
    · exact hnot (heq ▸ hpend)

/-- A push that forgets nothing keeps the counter of unassembled bytes equal to
the number of held indices. -/
theorem Pushed.bytesUnass_eq (h : Pushed r r' data index eof m) (hw : r.Wf)
    (hkeep : r.ForgetsNothing data index) (hcount : r.bytesUnass = r.heldSet.card) :
    r'.bytesUnass = r'.heldSet.card := by
  have hws : (r.storeCells data index).Wf := hw.storeCells
  have hstored : (r.storeCells data index).bytesUnass =
      (r.storeCells data index).heldSet.card := by
    have hunass : (r.storeCells data index).bytesUnass + r.empty.count false =
        r.bytesUnass + (r.storeCells data index).empty.count false := bytesUnass_storeCells hw
    rw [count_false_empty hw, count_false_empty hws] at hunass
    omega
  have hsub : Finset.Ico r.startAux (r.startAux + m) ⊆ (r.storeCells data index).heldSet :=
    Ico_subset_heldSet h.held_of_lt
  have hset : r'.heldSet =
      (r.storeCells data index).heldSet \ Finset.Ico r.startAux (r.startAux + m) := by
    ext i
    rw [Finset.mem_sdiff, mem_heldSet, mem_heldSet, Finset.mem_Ico,
      h.held_iff_of_forgetsNothing hw hkeep, held_storeCells_iff_pending hw]
    constructor
    · rintro ⟨hi, hpend⟩
      exact ⟨hpend, by omega⟩
    · rintro ⟨hpend, hi⟩
      have hstart := hpend.1
      exact ⟨by omega, hpend⟩
  have hm : m ≤ (r.storeCells data index).heldSet.card := by
    have hcard := Finset.card_le_card hsub
    rwa [Nat.card_Ico, Nat.add_sub_cancel_left] at hcard
  rw [h.bytesUnass (by omega), hstored, hset, Finset.card_sdiff_of_subset hsub, Nat.card_Ico,
    Nat.add_sub_cancel_left]

end count

/-- The reassembler carries the bytes of `d`: what was taken from the output
and what is still buffered there is the written part of `d`, and the cell of
every held index holds its byte. -/
structure Carries (r : StreamReassembler) (d taken : List UInt8) : Prop where
  length_aux : r.aux.length = r.capacity
  startAux_le : r.startAux ≤ d.length
  held_lt : ∀ i, r.Held i → i < d.length
  cell : ∀ i, r.Held i → r.aux[i % r.capacity]? = d[i]?
  delivered : taken ++ r.output.deq = d.take r.startAux

theorem carries_new (capacity : ℕ) (d : List UInt8) : (new capacity).Carries d [] where
  length_aux := List.length_replicate
  startAux_le := Nat.zero_le _
  held_lt := fun i hi ↦ absurd hi (not_held_new capacity i)
  cell := fun i hi ↦ absurd hi (not_held_new capacity i)
  delivered := rfl

/-- Bytes appended to the stream later do not matter. -/
theorem Carries.append {d taken : List UInt8} (h : r.Carries d taken) (more : List UInt8) :
    r.Carries (d ++ more) taken where
  length_aux := h.length_aux
  startAux_le := by
    have hle := h.startAux_le
    rw [List.length_append]
    omega
  held_lt := by
    intro i hi
    have hlt := h.held_lt i hi
    rw [List.length_append]
    omega
  cell := by
    intro i hi
    rw [h.cell i hi, List.getElem?_append_left (h.held_lt i hi)]
  delivered := by
    rw [h.delivered, List.take_append_of_le_length h.startAux_le]

/-- Pushing a clean substring of the stream keeps the bytes right. -/
theorem Pushed.carries {d taken : List UInt8} (h : Pushed r r' data index eof m) (hw : r.Wf)
    (hcarries : r.Carries d taken) (hclean : r.StoresCleanly data index)
    (hbound : index + data.length ≤ d.length ∨ data = [])
    (hdata : ∀ j < data.length, data[j]? = d[index + j]?) : r'.Carries d taken := by
  have hlt : ∀ i, (r.storeCells data index).Held i → i < d.length := by
    intro i hi
    rcases (held_storeCells_iff hw).mp hi with hheld | ⟨-, -, hin, hin'⟩
    · exact hcarries.held_lt i hheld
    · rcases hbound with hbound | rfl
      · omega
      · simp at hin'
        omega
  have hcell : ∀ i, (r.storeCells data index).Held i →
      (r.storeCells data index).aux[i % r.capacity]? = d[i]? := by
    intro i hi
    have hwin := hi
    simp only [Held, storeCells_startAux, storeCells_capacity] at hwin
    rw [aux_storeCells hw hcarries.length_aux hclean hwin.1 hwin.2.1]
    split_ifs with hin
    · rw [hdata (i - index) (by omega), Nat.add_sub_cancel' hin.1]
    · rcases (held_storeCells_iff hw).mp hi with hheld | ⟨-, -, hin₁, hin₂⟩
      · exact hcarries.cell i hheld
      · exact absurd ⟨hin₁, hin₂⟩ hin
  have hle : r.startAux + m ≤ d.length := by
    rcases Nat.eq_zero_or_pos m with hzero | hpos
    · rw [hzero]
      exact hcarries.startAux_le
    · have hlast := hlt _ (h.held_of_lt (m - 1) (by omega))
      omega
  constructor
  case length_aux =>
    rw [h.aux, h.capacity]
    exact length_aux_storeCells hw hcarries.length_aux hclean
  case startAux_le => rwa [h.startAux]
  case held_lt => exact fun i hi ↦ hlt i ((h.held_iff i).mp hi).2.1
  case cell =>
    intro i hi
    rw [h.aux, h.capacity]
    exact hcell i ((h.held_iff i).mp hi).2.1
  case delivered =>
    have hbytes : (r.storeCells data index).cellBytes m = (d.drop r.startAux).take m := by
      apply List.ext_getElem?
      intro i
      rw [cellBytes, List.getElem?_map, List.getElem?_take, List.getElem?_drop]
      by_cases hi : i < m
      · have hheld := h.held_of_lt i hi
        rw [if_pos hi, List.getElem?_range hi, Option.map_some, List.getD_eq_getElem?_getD,
          storeCells_startAux, storeCells_capacity, hcell _ hheld,
          List.getElem?_eq_getElem (hlt _ hheld), Option.getD_some]
      · rw [if_neg hi, List.getElem?_eq_none (by simpa using hi), Option.map_none]
    rw [h.deq, ← List.append_assoc, hcarries.delivered, hbytes, h.startAux, List.take_add]

theorem Carries.readOutput {d taken : List UInt8} (h : r.Carries d taken) (len : ℕ) :
    (r.readOutput len).Carries d (taken ++ r.output.peekOutput len) where
  length_aux := h.length_aux
  startAux_le := h.startAux_le
  held_lt := h.held_lt
  cell := h.cell
  delivered := by
    simp only [StreamReassembler.readOutput, ByteStream.peekOutput_eq,
      ByteStream.popOutput_deq, List.append_assoc, List.take_append_drop]
    exact h.delivered

theorem Wf.readOutput (hw : r.Wf) (len : ℕ) : (r.readOutput len).Wf := hw.frame rfl rfl

/-- An empty push does not depend on its index. -/
theorem Pushed.of_nil {j : ℕ} (h : Pushed r r' [] index eof m) : Pushed r r' [] j eof m := by
  have hstore (k : ℕ) : r.storeCells [] k = r := by simp [storeCells]
  obtain ⟨h₁, h₂, h₃, h₄, h₅, h₆, h₇, h₈, h₉, h₁₀, h₁₁, h₁₂⟩ := h
  simp only [hstore] at *
  exact ⟨h₁, h₂, h₃, h₄, h₅, h₆, h₇, h₈, h₉, h₁₀, h₁₁, by simpa using h₁₂⟩

theorem Pushed.endOutput (h : Pushed r r' data index eof m) :
    Pushed r { r' with output := r'.output.endInput } data index eof m :=
  { h with
    wf := h.wf.frame rfl rfl
    held_iff := h.held_iff }

end Sponge.StreamReassembler
