import Sponge.Reassembler.Excerpts

/-!
# What is assembled depends only on what was covered

For a string that fits in the ring, the state of the reassembler is a function
of the set of indices that the pushes so far have covered: the string is
delivered up to the first gap, the covered indices past the gap are the
unassembled bytes, and the input has ended exactly when there is no gap.
-/

namespace Sponge

open Lib

variable {d : List UInt8}

namespace ExcerptOp

def covers (op : ExcerptOp d) (i : ℕ) : Bool :=
  match op with
  | .push x => decide (x.offset ≤ i ∧ i < x.offset + x.size)
  | .read _ => false

/-- Pushes of at least one byte. -/
def nonempty (op : ExcerptOp d) : Bool :=
  match op with
  | .push x => decide (1 ≤ x.size)
  | .read _ => true

/-- The index is covered by one of the pushes. -/
def covered (ops : List (ExcerptOp d)) (i : ℕ) : Bool :=
  ops.any (·.covers i)

/-- The least index of the string that no push covers, or its length. -/
def firstGap (ops : List (ExcerptOp d)) : ℕ :=
  (List.range d.length).findIdx fun i ↦ !covered ops i

theorem lt_length_of_covered {ops : List (ExcerptOp d)} {i : ℕ}
    (h : covered ops i = true) : i < d.length := by
  obtain ⟨op, -, hop⟩ := List.any_eq_true.mp h
  cases op with
  | push x =>
      have hbound := x.bound
      simp only [covers, decide_eq_true_eq] at hop
      omega
  | read len => simp [covers] at hop

theorem firstGap_le (ops : List (ExcerptOp d)) : firstGap ops ≤ d.length := by
  have hle : firstGap ops ≤ (List.range d.length).length := List.findIdx_le_length
  rwa [List.length_range] at hle

theorem covered_of_lt_firstGap {ops : List (ExcerptOp d)} {i : ℕ} (h : i < firstGap ops) :
    covered ops i = true := by
  have hnot := List.not_of_lt_findIdx h
  simpa using hnot

theorem not_covered_firstGap (ops : List (ExcerptOp d)) : covered ops (firstGap ops) = false := by
  by_contra h
  have hcov : covered ops (firstGap ops) = true := by simpa using h
  have hlt := lt_length_of_covered hcov
  have hlt' : (List.range d.length).findIdx (fun i ↦ !covered ops i) <
      (List.range d.length).length := by rwa [List.length_range]
  have hget := List.findIdx_getElem (w := hlt')
  rw [List.getElem_range] at hget
  change (!covered ops (firstGap ops)) = true at hget
  simp [hcov] at hget

/-- The first gap is determined by the covered indices around it. -/
theorem firstGap_eq {ops : List (ExcerptOp d)} {k : ℕ} (hk : ∀ i < k, covered ops i = true)
    (hgap : covered ops k = false) : firstGap ops = k := by
  rcases lt_trichotomy (firstGap ops) k with h | h | h
  · have := hk _ h
    simp [not_covered_firstGap] at this
  · exact h
  · have := covered_of_lt_firstGap h
    simp [hgap] at this

theorem covered_concat (ops : List (ExcerptOp d)) (op : ExcerptOp d) (i : ℕ) :
    covered (ops ++ [op]) i = (covered ops i || op.covers i) := by
  simp [covered]

/-- Only the set of operations matters for what is covered. -/
theorem covered_congr {ops₁ ops₂ : List (ExcerptOp d)}
    (h : ∀ x : Excerpt d, .push x ∈ ops₁ ↔ .push x ∈ ops₂) :
    (covered ops₁ : ℕ → Bool) = covered ops₂ := by
  funext i
  rw [Bool.eq_iff_iff, covered, covered, List.any_eq_true, List.any_eq_true]
  constructor
  · rintro ⟨op, hmem, hop⟩
    cases op with
    | push x => exact ⟨.push x, (h x).mp hmem, hop⟩
    | read len => simp [covers] at hop
  · rintro ⟨op, hmem, hop⟩
    cases op with
    | push x => exact ⟨.push x, (h x).mpr hmem, hop⟩
    | read len => simp [covers] at hop

end ExcerptOp

namespace Reassembly

open ExcerptOp StreamReassembler

/-- The state is the one determined by the covered indices. -/
structure Assembled (c : ℕ) (ops : List (ExcerptOp d)) (s : Reassembly) : Prop where
  wf : s.reassembler.Wf
  capacity : s.reassembler.capacity = c
  carries : s.reassembler.Carries d s.taken
  startAux : s.reassembler.startAux = firstGap ops
  held_iff : ∀ i, s.reassembler.Held i ↔ firstGap ops ≤ i ∧ covered ops i = true
  bytesUnass : s.reassembler.bytesUnass = s.reassembler.heldSet.card
  endStream : s.reassembler.endStream = d.length ∨
    s.reassembler.endStream = 2 ^ 64 - 1 ∧ ∀ x : Excerpt d, .push x ∈ ops → x.last = false
  ended_iff : s.reassembler.output.ended = true ↔ firstGap ops = d.length

theorem assembled_new {c : ℕ} (hc : 1 ≤ c) (hd : d ≠ []) :
    Assembled (d := d) c [] (new c) := by
  have hgap : firstGap ([] : List (ExcerptOp d)) = 0 := firstGap_eq (by simp) (by simp [covered])
  constructor
  case wf => exact wf_new hc
  case capacity => rfl
  case carries => exact carries_new c d
  case startAux => rw [hgap]; rfl
  case held_iff =>
    intro i
    simp [Held, new, StreamReassembler.new, covered, List.getElem?_replicate]
  case bytesUnass => exact bytesUnass_new c
  case endStream => exact Or.inr ⟨rfl, by simp⟩
  case ended_iff =>
    rw [hgap]
    have hpos : 0 < d.length := List.length_pos_iff.mpr hd
    constructor
    · intro h
      cases h
    · intro h
      omega

theorem assembled_read {c : ℕ} {ops : List (ExcerptOp d)} {s : Reassembly}
    (h : Assembled c ops s) (len : ℕ) :
    Assembled c (ops ++ [.read len]) (s.step (.read len : ExcerptOp d)) := by
  have hcov : (covered (ops ++ [.read len]) : ℕ → Bool) = covered ops := by
    funext i
    simp [covered_concat, covers]
  have hgap : firstGap (ops ++ [.read len]) = firstGap ops := by
    simp only [firstGap, hcov]
  constructor
  case wf => exact h.wf.readOutput len
  case capacity => exact h.capacity
  case carries => exact h.carries.readOutput len
  case startAux => exact hgap ▸ h.startAux
  case held_iff =>
    intro i
    rw [hgap, hcov]
    exact h.held_iff i
  case bytesUnass => exact h.bytesUnass
  case endStream =>
    rcases h.endStream with hend | ⟨hend, hnone⟩
    · exact Or.inl hend
    · refine Or.inr ⟨hend, fun x hx ↦ hnone x ?_⟩
      simpa using hx
  case ended_iff => exact hgap ▸ h.ended_iff

/-- A string that fits in the ring never wraps around its end. -/
theorem not_straddles {c : ℕ} {ops : List (ExcerptOp d)} {s : Reassembly}
    (h : Assembled c ops s) (hdc : d.length ≤ c) (x : Excerpt d) :
    ¬s.reassembler.Straddles x.data x.offset := by
  have hgap := firstGap_le ops
  have hbound := x.bound
  have hpos := h.wf.capacity_pos
  have hstart := h.startAux
  have hcap := h.capacity
  simp only [Straddles, startCopy, endCopy, x.length_data, not_lt]
  rcases lt_or_ge (max s.reassembler.startAux x.offset) s.reassembler.capacity with hlt | hge
  · rw [Nat.mod_eq_of_lt hlt]
    omega
  · have heq : max s.reassembler.startAux x.offset = s.reassembler.capacity := by omega
    rw [heq, Nat.mod_self]
    omega

/-- No index of the string lies past the end of the ring. -/
theorem length_le_ringEnd {c : ℕ} {ops : List (ExcerptOp d)} {s : Reassembly}
    (h : Assembled c ops s) (hdc : d.length ≤ c) : d.length ≤ s.reassembler.ringEnd := by
  have hgap := firstGap_le ops
  have hpos := h.wf.capacity_pos
  have hstart := h.startAux
  have hcap := h.capacity
  have hlt := Nat.mod_lt s.reassembler.startAux hpos
  have hmod := Nat.mod_le s.reassembler.startAux s.reassembler.capacity
  simp only [ringEnd]
  omega

/-- Once the push is stored, the pending indices are the covered ones past the
old gap. -/
theorem pending_iff_covered {c : ℕ} {ops : List (ExcerptOp d)} {s : Reassembly}
    (h : Assembled c ops s) (hdc : d.length ≤ c) (x : Excerpt d) (i : ℕ) :
    s.reassembler.Pending x.data x.offset i ↔
      firstGap ops ≤ i ∧ covered (ops ++ [.push x]) i = true := by
  have hbound := x.bound
  have hstart := h.startAux
  have hcap := h.capacity
  rw [covered_concat, Bool.or_eq_true]
  simp only [Pending, h.held_iff, x.length_data, covers, decide_eq_true_eq, hstart, hcap]
  constructor
  · rintro ⟨hi, -, ⟨-, hcov⟩ | hcov⟩
    · exact ⟨hi, Or.inl hcov⟩
    · exact ⟨hi, Or.inr hcov⟩
  · rintro ⟨hi, hcov | hcov⟩
    · have hlt := lt_length_of_covered hcov
      exact ⟨hi, by omega, Or.inl ⟨hi, hcov⟩⟩
    · exact ⟨hi, by omega, Or.inr hcov⟩

theorem forgetsNothing {c : ℕ} {ops : List (ExcerptOp d)} {s : Reassembly}
    (h : Assembled c ops s) (hdc : d.length ≤ c) (x : Excerpt d) :
    s.reassembler.ForgetsNothing x.data x.offset := by
  intro _ i hend hpend
  have hcov := ((pending_iff_covered h hdc x i).mp hpend).2
  have hlt := lt_length_of_covered hcov
  have hle := length_le_ringEnd h hdc
  omega

/-- The flush moves the first unassembled index to the new gap. -/
theorem startAux_add_eq_firstGap {c m : ℕ} {ops : List (ExcerptOp d)} {s : Reassembly}
    {r' : StreamReassembler} (h : Assembled c ops s) (hdc : d.length ≤ c) (x : Excerpt d)
    (hm : Pushed s.reassembler r' x.data x.offset x.last m) :
    firstGap (ops ++ [.push x]) = s.reassembler.startAux + m := by
  have hw := h.wf
  have hstart := h.startAux
  have hrun : ∀ i < m, covered (ops ++ [.push x]) (s.reassembler.startAux + i) = true := by
    intro i hi
    have hheld := hm.held_of_lt i hi
    rw [held_storeCells_iff_pending hw, pending_iff_covered h hdc] at hheld
    exact hheld.2
  apply firstGap_eq
  · intro i hi
    rcases lt_or_ge i s.reassembler.startAux with hlt | hge
    · rw [covered_concat, covered_of_lt_firstGap (by omega), Bool.true_or]
    · have hcov := hrun (i - s.reassembler.startAux) (by omega)
      rwa [Nat.add_sub_cancel' hge] at hcov
  · by_contra hne
    have hcov : covered (ops ++ [.push x]) (s.reassembler.startAux + m) = true := by
      simpa using hne
    have hlt := lt_length_of_covered hcov
    -- The output has room for the whole string, so the flush stopped at a gap.
    have hroom : m < s.reassembler.room := by
      have hcap := hw.output_cap
      have hwrote := s.reassembler.output.bytesWrote_eq
      have hwstart := hw.startAux_eq
      have hc := h.capacity
      simp only [room]
      omega
    apply hm.not_held hroom
    rw [held_storeCells_iff_pending hw, pending_iff_covered h hdc]
    exact ⟨by omega, hcov⟩

/-- The last push that covers the end of the string marks the end of the stream. -/
theorem endStream_push {c m : ℕ} {ops : List (ExcerptOp d)} {s : Reassembly}
    {r' : StreamReassembler} (h : Assembled c ops s) (hdc : d.length ≤ c) (x : Excerpt d)
    (hx : 1 ≤ x.size) (hm : Pushed s.reassembler r' x.data x.offset x.last m) :
    r'.endStream = d.length ∨
      r'.endStream = 2 ^ 64 - 1 ∧
        ∀ y : Excerpt d, .push y ∈ ops ++ [.push x] → y.last = false := by
  have hbound := x.bound
  have hgap := firstGap_le ops
  have hstart := h.startAux
  have hcap := h.capacity
  have hdata : x.data ≠ [] := List.ne_nil_of_length_pos (by rw [x.length_data]; omega)
  cases hlast : x.last with
  | true =>
      have hend : x.offset + x.size = d.length := by simpa [Excerpt.last] using hlast
      have hmeets : s.reassembler.Meets x.data x.offset := by
        rw [Meets, x.length_data]
        omega
      left
      rw [hm.endStream, if_pos ⟨hdata, hmeets, hlast⟩, x.length_data, hend]
  | false =>
      rw [hm.endStream, if_neg (by simp [hlast])]
      rcases h.endStream with hend | ⟨hend, hnone⟩
      · exact Or.inl hend
      · refine Or.inr ⟨hend, fun y hy ↦ ?_⟩
        rcases List.mem_append.mp hy with hy | hy
        · exact hnone y hy
        · have hxy : y = x := by simpa using hy
          rw [hxy, hlast]

theorem assembled_push {c : ℕ} {ops : List (ExcerptOp d)} {s : Reassembly}
    (h : Assembled c ops s) (hd : d ≠ []) (hd' : d.length < 2 ^ 64) (hdc : d.length ≤ c)
    (x : Excerpt d) (hx : 1 ≤ x.size) :
    Assembled c (ops ++ [.push x]) (s.step (.push x)) := by
  have hw := h.wf
  obtain ⟨m, hm, hended⟩ := exists_pushed_excerpt hd' hw x
  have hkeep := forgetsNothing h hdc x
  have hgap := startAux_add_eq_firstGap h hdc x hm
  have hstart := h.startAux
  have hend := endStream_push h hdc x hx hm
  have hle := firstGap_le (ops ++ [.push x])
  have hdata : x.data ≠ [] := List.ne_nil_of_length_pos (by rw [x.length_data]; omega)
  constructor
  case wf => exact hm.wf
  case capacity => exact hm.capacity.trans h.capacity
  case carries =>
    exact carries_step hd' hw h.carries fun hst ↦ absurd hst (not_straddles h hdc x)
  case startAux => rw [hgap]; exact hm.startAux
  case held_iff =>
    intro i
    rw [step, hm.held_iff_of_forgetsNothing hw hkeep, pending_iff_covered h hdc, ← hgap]
    constructor
    · rintro ⟨hi, -, hcov⟩
      exact ⟨hi, hcov⟩
    · rintro ⟨hi, hcov⟩
      exact ⟨hi, by omega, hcov⟩
  case bytesUnass => exact hm.bytesUnass_eq hw hkeep h.bytesUnass
  case endStream => exact hend
  case ended_iff =>
    rw [step, hended, StreamReassembler.EndsOutput, h.ended_iff, hm.startAux, ← hgap]
    constructor
    · rintro (hold | ⟨hnil, -⟩ | heq)
      · omega
      · exact absurd hnil hdata
      · rcases hend with hlen | ⟨hbig, -⟩ <;> omega
    · intro hfull
      right
      right
      -- The last byte is covered by a push that ends the string.
      have hpos : 0 < d.length := List.length_pos_iff.mpr hd
      have hlt : d.length - 1 < firstGap (ops ++ [.push x]) := by omega
      have hcov := covered_of_lt_firstGap hlt
      obtain ⟨op, hmem, hop⟩ := List.any_eq_true.mp hcov
      rcases hend with hlen | ⟨-, hnone⟩
      · rw [hfull, hlen]
      · cases op with
        | read len => simp [covers] at hop
        | push y =>
            have hbound := y.bound
            have hlast := hnone y hmem
            simp only [covers, decide_eq_true_eq] at hop
            simp only [Excerpt.last, beq_eq_false_iff_ne] at hlast
            omega

/-- The state reached is determined by the covered indices. -/
theorem assembled_run {c : ℕ} (hc : 1 ≤ c) (hd : d ≠ []) (hd' : d.length < 2 ^ 64)
    (hdc : d.length ≤ c) (ops : List (ExcerptOp d)) (hops : ∀ op ∈ ops, op.nonempty = true) :
    Assembled c ops (run step (new c) ops) := by
  induction ops using List.reverseRecOn with
  | nil => exact assembled_new hc hd
  | append_singleton ops op ih =>
      have hpast := ih fun op hop ↦ hops op (List.mem_append_left _ hop)
      rw [run_concat]
      cases op with
      | push x =>
          have hx : 1 ≤ x.size := by simpa [nonempty] using hops (.push x) (by simp)
          exact assembled_push hpast hd hd' hdc x hx
      | read len => exact assembled_read hpast len

/-- The held indices are the covered ones past the first gap. -/
theorem Assembled.unassembled {c : ℕ} {ops : List (ExcerptOp d)} {s : Reassembly}
    (h : Assembled c ops s) :
    s.reassembler.unassembledBytes =
      ((Finset.range d.length).filter
        fun i ↦ firstGap ops < i ∧ covered ops i = true).card := by
  have hset : s.reassembler.heldSet =
      (Finset.range d.length).filter fun i ↦ firstGap ops < i ∧ covered ops i = true := by
    ext i
    rw [mem_heldSet, h.held_iff, Finset.mem_filter, Finset.mem_range]
    constructor
    · rintro ⟨hi, hcov⟩
      have hne : firstGap ops ≠ i := by
        rintro rfl
        simp [not_covered_firstGap] at hcov
      exact ⟨lt_length_of_covered hcov, by omega, hcov⟩
    · rintro ⟨-, hi, hcov⟩
      exact ⟨by omega, hcov⟩
  rw [unassembledBytes, h.bytesUnass, hset]

theorem Assembled.delivered_eq {c : ℕ} {ops : List (ExcerptOp d)} {s : Reassembly}
    (h : Assembled c ops s) : s.delivered = d.take (firstGap ops) := by
  rw [← h.startAux]
  exact h.carries.delivered

/-- A string that fits in the ring is delivered up to the first index no push
has covered; the covered indices past it are the unassembled bytes, and the
input has ended when there is no such index. So runs with the same pushes, in
any order and with any repetitions, end alike. -/
theorem assembled_up_to_first_gap {c : ℕ} (hc : 1 ≤ c) (hd : d ≠ [])
    (hd' : d.length < 2 ^ 64) (hdc : d.length ≤ c) :
    (∀ ops : List (ExcerptOp d), (∀ op ∈ ops, op.nonempty = true) →
      (run step (new c) ops).delivered = d.take (firstGap ops) ∧
      (run step (new c) ops).reassembler.unassembledBytes =
        ((Finset.range d.length).filter
          fun i ↦ firstGap ops < i ∧ covered ops i = true).card ∧
      ((run step (new c) ops).reassembler.streamOut.inputEnded = true ↔
        firstGap ops = d.length)) ∧
    ∀ ops₁ ops₂ : List (ExcerptOp d),
      (∀ op ∈ ops₁, op.nonempty = true) → (∀ op ∈ ops₂, op.nonempty = true) →
      (∀ x : Excerpt d, .push x ∈ ops₁ ↔ .push x ∈ ops₂) →
      (run step (new c) ops₁).reassembler.streamOut.bytesWritten =
        (run step (new c) ops₂).reassembler.streamOut.bytesWritten ∧
      (run step (new c) ops₁).reassembler.unassembledBytes =
        (run step (new c) ops₂).reassembler.unassembledBytes ∧
      (run step (new c) ops₁).reassembler.streamOut.inputEnded =
        (run step (new c) ops₂).reassembler.streamOut.inputEnded ∧
      (run step (new c) ops₁).delivered = (run step (new c) ops₂).delivered := by
  refine ⟨fun ops hops ↦ ?_, fun ops₁ ops₂ hops₁ hops₂ hsame ↦ ?_⟩
  · have h := assembled_run hc hd hd' hdc ops hops
    exact ⟨h.delivered_eq, h.unassembled, h.ended_iff⟩
  · have h₁ := assembled_run hc hd hd' hdc ops₁ hops₁
    have h₂ := assembled_run hc hd hd' hdc ops₂ hops₂
    have hcov := covered_congr hsame
    have hgap : firstGap ops₁ = firstGap ops₂ := by simp only [firstGap, hcov]
    refine ⟨?_, ?_, ?_, ?_⟩
    · rw [streamOut, streamOut, ByteStream.bytesWritten, ByteStream.bytesWritten,
        ← h₁.wf.startAux_eq, ← h₂.wf.startAux_eq, h₁.startAux, h₂.startAux, hgap]
    · rw [h₁.unassembled, h₂.unassembled, hgap, hcov]
    · have hended := h₁.ended_iff
      rw [hgap] at hended
      exact Bool.eq_iff_iff.mpr (hended.trans h₂.ended_iff.symm)
    · rw [h₁.delivered_eq, h₂.delivered_eq, hgap]

/-- Three overlapping pushes of `abcd` in a ring of four cells, with `c` missing. -/
theorem assembled_abcd :
    (run step (new 4) ([.push ⟨3, 1, by decide⟩, .push ⟨0, 1, by decide⟩, .read 1,
      .push ⟨0, 2, by decide⟩] : List (ExcerptOp [97, 98, 99, 100]))).delivered =
      [97, 98] :=
  ((assembled_up_to_first_gap (d := [97, 98, 99, 100]) (by decide) (by decide) (by decide)
    (by decide)).1 _ (by decide)).1

end Reassembly

end Sponge
