import Sponge.Receiver.Segment

/-!
# Tracking the stream of a peer

A segment is placed in a stream by its absolute number. A receiver that tracks
the stream reads the index of such a segment off its sequence number, and still
tracks the stream afterwards.
-/

namespace Sponge.TcpReceiver

open Lib

variable {r : TcpReceiver} {isn : WrappingInt32} {len len' q : ℕ} {fin : Bool} {P Q : ℕ → Prop}
  {seg : TcpSegment}

/-- The segment with absolute number `q` lies in a stream of `len` bytes: the SYN has number
zero, the byte at index `i` has number `i + 1`, and a FIN is where the stream ends. -/
structure Placed (isn : WrappingInt32) (len q : ℕ) (seg : TcpSegment) : Prop where
  seqno : seg.header.seqno = wrap q isn
  syn : seg.header.syn = decide (q = 0)
  bound : q - 1 + seg.payload.length ≤ len
  fin : seg.header.fin = true → q - 1 + seg.payload.length = len
  /-- A SYN with payload or FIN is only read right if the initial number is not zero. -/
  reads : q = 0 → (seg.payload = [] ∧ seg.header.fin = false) ∨ isn.rawValue ≠ 0

/-- The receiver has synchronised with `isn` at most, all indices it holds or has written
satisfy `P`, and it knows the length of the stream once a FIN arrived. -/
structure Tracks (r : TcpReceiver) (isn : WrappingInt32) (len : ℕ) (fin : Bool) (P : ℕ → Prop) :
    Prop where
  wf : r.reassembler.Wf
  ckpt : r.ckpt = r.reassembler.startAux
  received : ∀ i, r.reassembler.Held i ∨ i < r.reassembler.startAux → P i
  lenStream : r.lenStream = if fin then len else 2 ^ 64 - 1
  of_syn : r.syn = true → r.isn = isn ∧
    r.ack = wrap (r.ckpt + if r.ckpt = r.lenStream then 2 else 1) isn

theorem Placed.startPayload_eq (h : Placed isn len q seg)
    (hsyn : r.syn = true ∨ seg.header.syn = true) (hisn : r.syn = true → r.isn = isn)
    (hckpt : r.ckpt ≤ 2 ^ 63) (hnear : q < r.ckpt + 2 ^ 31) (hnear' : r.ckpt < q + 2 ^ 31)
    (hcarries : seg.payload ≠ [] ∨ seg.header.fin = true) :
    r.startPayload seg.header = q - 1 := by
  rw [startPayload]
  cases Nat.eq_zero_or_pos q with
  | inl hzero =>
      have hnonzero : isn.rawValue ≠ 0 := by
        rcases h.reads hzero with ⟨hpayload, hfin⟩ | hisn
        · simp [hpayload, hfin] at hcarries
        · exact hisn
      rw [if_pos (by rw [h.syn, hzero]; rfl), h.seqno, hzero, wrap_zero,
        unwrap_isn hnonzero (by omega)]
  | inr hpos =>
      have hnot : seg.header.syn = false := by
        rw [h.syn, decide_eq_false_iff_not]
        omega
      have hsynced : r.syn = true := by simpa [hnot] using hsyn
      rw [if_neg (by simp [hnot]), h.seqno, hisn hsynced,
        unwrap_wrap_of_near isn hpos hnear hnear' hckpt, sub64_of_le hpos]

namespace Tracks

theorem bytesWritten_eq (h : r.Tracks isn len fin P) :
    r.streamOut.bytesWritten = r.reassembler.startAux :=
  h.wf.startAux_eq.symm

/-- What a placed segment does to a receiver that tracks the stream. -/
theorem exists_processed (h : r.Tracks isn len fin P) (hseg : Placed isn len q seg)
    (hlen : len < 2 ^ 63) (hckpt : r.ckpt ≤ len) (hnear : q < r.ckpt + 2 ^ 31)
    (hnear' : r.ckpt < q + 2 ^ 31) (hsyn : r.syn = true ∨ seg.header.syn = true) :
    ∃ m, Processed r (r.segmentReceived seg) seg (q - 1) m := by
  have hbound := hseg.bound
  have hstart : seg.payload ≠ [] ∨ seg.header.fin = true →
      r.startPayload seg.header = q - 1 :=
    hseg.startPayload_eq hsyn (fun hs ↦ (h.of_syn hs).1) (by omega) hnear hnear'
  have hidx : r.startPayload seg.header + seg.payload.length < 2 ^ 64 := by
    by_cases hnil : seg.payload = []
    · rw [hnil]
      exact r.startPayload_lt seg.header
    · rw [hstart (Or.inl hnil)]
      omega
  obtain ⟨m, hm⟩ := TcpReceiver.exists_processed h.wf hsyn fun _ ↦ hidx
  refine ⟨m, ?_⟩
  by_cases hcarries : seg.payload ≠ [] ∨ seg.header.fin = true
  · rw [← hstart hcarries]
    exact hm
  · rw [not_or, not_not, Bool.not_eq_true] at hcarries
    exact hm.of_nil hcarries.1 hcarries.2

theorem processed {r' : TcpReceiver} {m : ℕ} (h : r.Tracks isn len fin P)
    (hseg : Placed isn len q seg) (hlen : len < 2 ^ 63)
    (hsyn : r.syn = true ∨ seg.header.syn = true) (hm : Processed r r' seg (q - 1) m)
    (hold : ∀ i, P i → Q i) (hnew : ∀ i, q - 1 ≤ i → i < q - 1 + seg.payload.length → Q i) :
    r'.Tracks isn len (fin || seg.header.fin) Q := by
  have hbound := hseg.bound
  have hisn : r'.isn = isn := by
    rw [hm.isn]
    split_ifs with hs
    · have hzero : q = 0 := by simpa [hseg.syn] using hs
      rw [hseg.seqno, hzero, wrap_zero]
    · have hsynced : r.syn = true := by simpa [hs] using hsyn
      exact (h.of_syn hsynced).1
  constructor
  case wf => exact hm.pushed.wf
  case ckpt => exact hm.ckpt
  case received =>
    exact hm.pushed.forall_held_or_written h.wf (fun i hi ↦ hold i (h.received i hi)) hnew
  case lenStream =>
    rw [hm.lenStream]
    by_cases hf : seg.header.fin = true
    · have hend := hseg.fin hf
      rw [if_pos hf, hf, Bool.or_true, if_pos rfl, add64_of_lt (by omega)]
      omega
    · rw [Bool.not_eq_true] at hf
      simp only [hf, Bool.or_false, Bool.false_eq_true, if_false]
      exact h.lenStream
  case of_syn =>
    intro _
    refine ⟨hisn, ?_⟩
    rw [← hisn]
    exact hm.ack

theorem mono (h : r.Tracks isn len fin P) (hlen : fin = true → len' = len)
    (hP : ∀ i, P i → Q i) : r.Tracks isn len' fin Q where
  wf := h.wf
  ckpt := h.ckpt
  received i hi := hP i (h.received i hi)
  lenStream := by
    rw [h.lenStream]
    split_ifs with hfin
    · exact (hlen hfin).symm
    · rfl
  of_syn := h.of_syn

theorem readOutput (h : r.Tracks isn len fin P) (n : ℕ) :
    (r.readOutput n).Tracks isn len fin P where
  wf := h.wf.readOutput n
  ckpt := h.ckpt
  received := h.received
  lenStream := h.lenStream
  of_syn := h.of_syn

theorem setError (h : r.Tracks isn len fin P) : r.setError.Tracks isn len fin P where
  wf := h.wf.frame rfl rfl
  ckpt := h.ckpt
  received := h.received
  lenStream := h.lenStream
  of_syn := h.of_syn

end Tracks

theorem tracks_new {c : ℕ} (hc : 1 ≤ c) (isn : WrappingInt32) (len : ℕ) (P : ℕ → Prop) :
    (new c).Tracks isn len false P where
  wf := StreamReassembler.wf_new hc
  ckpt := rfl
  received := by
    rintro i (hi | hi)
    · exact absurd hi (StreamReassembler.not_held_new c i)
    · simp [new, StreamReassembler.new] at hi
  lenStream := rfl
  of_syn := by simp [new]

end Sponge.TcpReceiver
