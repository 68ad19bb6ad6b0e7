import Sponge.Interface.Link

/-!
# A link that loses, repeats and reorders frames

Whatever a link does with the frames of the interfaces on it, as long as it does
not make up any, the mappings that they learn are true. So a datagram is only
ever received by the interface it was handed over for.
-/

namespace Sponge

open Lib Lib.Resolution

/-- Interfaces on a link, with the frames that were put on it and the datagrams that were handed
over, each with its next hop. -/
structure Ether (σ : Type) where
  stations : σ → AsyncNetworkInterface
  wire : List EthernetFrame := []
  handed : List (UInt32 × Ipv4Datagram) := []

namespace Ether

variable {σ : Type} [DecidableEq σ]

inductive Event (σ : Type) where
  | sendDatagram (i : σ) (dgram : Ipv4Datagram) (nextHop : Address)
  /-- The first frame that an interface wants to send is put on the link. -/
  | transmit (i : σ)
  | recvFrame (i : σ) (frame : EthernetFrame)
  | tick (i : σ) (ms : ℕ)

/-- The interface of one station has changed. -/
def set (w : Ether σ) (i : σ) (n : NetworkInterface) : Ether σ :=
  { w with stations := Function.update w.stations i { w.stations i with toNetworkInterface := n } }

def apply (w : Ether σ) : Event σ → Except Exception (Ether σ)
  | .sendDatagram i dgram nextHop => do
    let n ← (w.stations i).sendDatagram dgram nextHop
    return { w.set i n with handed := w.handed ++ [(nextHop.ipv4Numeric, dgram)] }
  | .transmit i =>
    let n := w.stations i
    return { w.set i { n with framesOut := n.framesOut.drop 1 } with
      wire := w.wire ++ n.framesOut.take 1 }
  | .recvFrame i frame => do
    let n ← (w.stations i).recvFrame frame
    return { w with stations := Function.update w.stations i n }
  | .tick i ms => return w.set i ((w.stations i).tick ms)

/-- A frame that arrives was put on the link, now or before. -/
def Allowed (w : Ether σ) : Event σ → Prop
  | .sendDatagram _ dgram _ => dgram.Fits
  | .recvFrame _ frame => frame ∈ w.wire
  | .transmit _ | .tick _ _ => True

instance (w : Ether σ) : (event : Event σ) → Decidable (w.Allowed event)
  | .sendDatagram _ dgram _ => inferInstanceAs (Decidable dgram.Fits)
  | .recvFrame _ frame => inferInstanceAs (Decidable (frame ∈ w.wire))
  | .transmit _ | .tick _ _ => .isTrue trivial

def new (D : Directory σ) : Ether σ where
  stations i := { toNetworkInterface := D.interface i }

variable (D : Directory σ) {w : Ether σ} {i : σ}

/-- The datagram was handed over for the station `k`, but for its checksum. -/
def HandedFor (handed : List (UInt32 × Ipv4Datagram)) (k : σ) (dgram : Ipv4Datagram) : Prop :=
  ∃ original, (D.address k, original) ∈ handed ∧ original.stamped = dgram

/-- The frame is one of a station, with a datagram that was handed over for its receiver. -/
def Genuine (handed : List (UInt32 × Ipv4Datagram)) (frame : EthernetFrame) : Prop :=
  ∃ i m, frame = D.frame i m ∧ Directory.Sound m ∧
    ∀ k dgram, m = .data k dgram → HandedFor D handed k dgram

/-- The interfaces act as stations do, and everything on its way was handed over for the one that
it is on its way to. -/
structure Honest (w : Ether σ) : Prop where
  stations : ∀ i, ∃ s, D.Represents i (w.stations i) s ∧
    s.Holds D.address (HandedFor D w.handed) i
  wire : ∀ frame ∈ w.wire, Genuine D w.handed frame

theorem honest_new : (new D).Honest D where
  stations i := ⟨{}, .new i, by simp [Station.due], by simp⟩
  wire := by simp [new]

variable {D}

namespace Honest

theorem update (h : w.Honest D) {n : AsyncNetworkInterface} {s : Station σ UInt32 Ipv4Datagram}
    (hrep : D.Represents i n s) (hholds : s.Holds D.address (HandedFor D w.handed) i) :
    Honest D { w with stations := Function.update w.stations i n } := by
  refine ⟨fun j ↦ ?_, h.wire⟩
  change ∃ s, D.Represents j (Function.update w.stations i n j) s ∧ _
  by_cases hj : j = i
  · subst hj
    exact ⟨s, by rwa [Function.update_self], hholds⟩
  · rw [Function.update_of_ne hj]
    exact h.stations j

theorem transmit (h : w.Honest D) {frames : List EthernetFrame}
    (hframes : ∀ frame ∈ frames, Genuine D w.handed frame) :
    Honest D { w with wire := w.wire ++ frames } :=
  ⟨h.stations, fun frame hframe ↦ (List.mem_append.mp hframe).elim (h.wire frame)
    (hframes frame)⟩

theorem hand (h : w.Honest D) (dgrams : List (UInt32 × Ipv4Datagram)) :
    Honest D { w with handed := w.handed ++ dgrams } := by
  have hmono : ∀ k dgram, HandedFor D w.handed k dgram →
      HandedFor D (w.handed ++ dgrams) k dgram :=
    fun _ _ ⟨original, hmem, heq⟩ ↦ ⟨original, List.mem_append_left _ hmem, heq⟩
  refine ⟨fun j ↦ ?_, fun frame hframe ↦ ?_⟩
  · obtain ⟨s, hrep, hholds⟩ := h.stations j
    exact ⟨s, hrep, fun k d hd ↦ hmono k d (hholds.due k d hd),
      fun d hd ↦ hmono j d (hholds.got d hd)⟩
  · obtain ⟨k, m, hm, hsound, hdata⟩ := h.wire frame hframe
    exact ⟨k, m, hm, hsound, fun k dgram heq ↦ hmono k dgram (hdata k dgram heq)⟩

/-- Nothing is thrown, whatever happens to the frames. -/
theorem exists_apply (h : w.Honest D) {event : Event σ} (hevent : w.Allowed event) :
    ∃ w', w.apply event = .ok w' ∧ w'.Honest D := by
  cases event with
  | sendDatagram i dgram nextHop =>
      obtain ⟨s, hrep, hholds⟩ := (h.hand [(nextHop.ipv4Numeric, dgram)]).stations i
      obtain ⟨n', s', hsend, hrep', haccepts⟩ := hrep.exists_sendDatagram hevent nextHop
      refine ⟨_, by rw [apply, hsend]; rfl, (h.hand _).update hrep' (haccepts.holds hholds ?_)⟩
      intro k m hm hk
      rw [List.mem_singleton.mp hm] at hk ⊢
      exact ⟨dgram, by simp [← hk], rfl⟩
  | transmit i =>
      obtain ⟨s, hrep, hholds⟩ := h.stations i
      have hframes : ∀ frame ∈ (w.stations i).framesOut.take 1, Genuine D w.handed frame := by
        intro frame hframe
        have hmem := List.mem_of_mem_take hframe
        rw [hrep.out] at hmem
        obtain ⟨m, hm, rfl⟩ := List.mem_map.mp hmem
        refine ⟨i, m, rfl, hrep.sound m hm, fun k dgram heq ↦ hholds.due k dgram ?_⟩
        refine List.mem_append_left _ (List.mem_filterMap.mpr ⟨m, hm, ?_⟩)
        simp [heq, Message.dataFor]
      refine ⟨_, rfl, (h.transmit hframes).update (hrep.drop 1)
        ⟨fun k d hd ↦ hholds.due k d ?_, hholds.got⟩⟩
      rcases List.mem_append.mp hd with hd | hd
      · obtain ⟨m, hm, hdata⟩ := List.mem_filterMap.mp hd
        exact List.mem_append_left _ (List.mem_filterMap.mpr ⟨m, List.mem_of_mem_drop hm, hdata⟩)
      · exact List.mem_append_right _ hd
  | recvFrame i frame =>
      obtain ⟨s, hrep, hholds⟩ := h.stations i
      obtain ⟨j, m, rfl, hsound, hdata⟩ := h.wire frame hevent
      obtain ⟨n', hrecv, hrep'⟩ := hrep.exists_recvFrame j hsound
      exact ⟨_, by rw [apply, hrecv]; rfl, h.update hrep' (hholds.hear D.address_injective hdata)⟩
  | tick i ms =>
      obtain ⟨s, hrep, hholds⟩ := h.stations i
      exact ⟨_, rfl, h.update (hrep.tick ms) hholds⟩

theorem reached {w₀ : Ether σ} (h₀ : w₀.Honest D)
    (h : Relation.ReflTransGen (Moves apply fun w event _ ↦ w.Allowed event) w₀ w) :
    w.Honest D := by
  induction h with
  | refl => exact h₀
  | tail _ hmove ih =>
      obtain ⟨event, hevent, happly⟩ := hmove
      obtain ⟨w', happly', hw'⟩ := ih.exists_apply hevent
      exact Except.ok.inj (happly'.symm.trans happly) ▸ hw'

end Honest

/-- On a link that may lose, repeat and reorder frames, no interface throws, every mapping that an
interface has learned is true, and a datagram is received only by the station it was handed over
for, with the checksum filled in. -/
theorem received_was_handed (D : Directory σ)
    (h : Relation.ReflTransGen (Moves apply fun w event _ ↦ w.Allowed event) (new D) w) :
    (∀ event, w.Allowed event → ∃ w', w.apply event = .ok w') ∧
    (∀ i x e, (w.stations i).ip2eth x = some e →
      ∃ j, D.address j = x ∧ D.ethernetAddress j = e) ∧
    ∀ i, ∀ dgram ∈ (w.stations i).datagramsOut,
      ∃ original, (D.address i, original) ∈ w.handed ∧ original.stamped = dgram := by
  have hw := (honest_new D).reached h
  refine ⟨fun event hevent ↦ ?_, fun i x e hx ↦ ?_, fun i dgram hdgram ↦ ?_⟩
  · obtain ⟨w', happly, -⟩ := hw.exists_apply hevent
    exact ⟨w', happly⟩
  · obtain ⟨s, hrep, -⟩ := hw.stations i
    exact hrep.known hx
  · obtain ⟨s, hrep, hholds⟩ := hw.stations i
    exact hholds.got dgram (hrep.got ▸ hdgram)

/-- Two stations. -/
def couple : Directory Bool where
  ethernetAddress b := .replicate 6 (if b then 4 else 2)
  ipAddress b := ⟨if b then 7 else 5⟩
  ethernetAddress_injective a b := by cases a <;> cases b <;> decide
  ipAddress_injective a b := by cases a <;> cases b <;> decide

/-- The frame with this number arrives. -/
def arrival (i : σ) (k : ℕ) (w : Ether σ) : Event σ :=
  (w.wire[k]?).elim (.tick i 0) (.recvFrame i)

/-- A datagram is received, after a request and a reply that arrives twice. -/
theorem received_was_handed_couple : ∃ w, Relation.ReflTransGen
      (Moves apply fun w event _ ↦ w.Allowed event) (new couple) w ∧
    ∃ dgram ∈ (w.stations true).datagramsOut,
      ∃ original, (7, original) ∈ w.handed ∧ original.stamped = dgram := by
  have h : (replay apply (fun w event _ ↦ w.Allowed event)
      [fun _ ↦ .sendDatagram false { header := { len := 21 }, payload := [9] } ⟨7⟩,
        fun _ ↦ .transmit false, arrival true 0, fun _ ↦ .transmit true, arrival false 1,
        arrival false 1, fun _ ↦ .transmit false, arrival true 2] (new couple)).any
      fun w ↦ !(w.stations true).datagramsOut.isEmpty := by
    decide +kernel
  obtain ⟨w, hw, hgot⟩ := (Option.any_eq_true _ _).mp h
  have hreached := reflTransGen_of_replay hw
  obtain ⟨dgram, hdgram⟩ := List.isEmpty_eq_false_iff_exists_mem.mp (by simpa using hgot)
  exact ⟨w, hreached, dgram, hdgram, (received_was_handed couple hreached).2.2 true dgram hdgram⟩

end Ether
end Sponge
