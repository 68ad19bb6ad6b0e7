import Sponge.Codec.Ipv4Fits
import Sponge.Interface.Wire
import Sponge.Lib.Outcome
import Sponge.Lib.Resolution
import Sponge.Router.Forwarding

/-!
# Interfaces on a link

Interfaces whose addresses differ resolve one another's addresses as stations
do: a request asks, a reply tells, and an IPv4 frame passes data. An interface
represents a station if its frames are the station's messages, its queues what
the station keeps, and the mappings it has learned are true. Every frame of a
station is then received as the message it stands for, and every datagram that
is handed to the interface is sent to the station or kept for it.
-/

namespace Sponge

open Lib Lib.Resolution

/-- The stations of a network, no two of which share an address. -/
structure Directory (σ : Type*) where
  ethernetAddress : σ → EthernetAddress
  ipAddress : σ → Address
  ethernetAddress_injective : Function.Injective ethernetAddress
  ipAddress_injective : Function.Injective ipAddress

/-- A datagram as it comes from the wire. -/
structure Ipv4Datagram.Intact (dgram : Ipv4Datagram) : Prop where
  fits : dgram.Fits
  stamped : dgram.stamped = dgram

theorem Ipv4Datagram.Fits.intact {dgram : Ipv4Datagram} (h : dgram.Fits) :
    dgram.stamped.Intact :=
  ⟨h.stamped, rfl⟩

/-- A datagram is never taken for an ARP message. -/
theorem ArpMessage.parse_datagram_ne {dgram : Ipv4Datagram} (h : dgram.Fits)
    (into : ArpMessage) : (into.parse dgram.bytes).1 ≠ .noError := by
  intro hparse
  have hserialize := into.serialize_parse hparse
  have hsupported : (into.parse dgram.bytes).2.Supported := by
    by_contra hnot
    rw [serialize, if_pos hnot] at hserialize
    cases hserialize
  rw [serialize_eq hsupported] at hserialize
  -- the message begins with its hardware type, the datagram with its version
  have hhead := congrArg List.head? (Except.ok.inj hserialize)
  have htype : NetUnparser.u16 (into.parse dgram.bytes).2.hardwareType = [0, 1] := by
    rw [hsupported.1]
    decide
  have hversion : dgram.stamped.header.firstByte >>> 4 = dgram.header.ver :=
    Ipv4Header.version_firstByte h.ver
  rw [ArpMessage.bytes, htype] at hhead
  have hzero : 0 = dgram.stamped.header.firstByte := by
    simpa [length, Ipv4Datagram.bytes, Ipv4Header.bytes, Ipv4Header.bytesBefore,
      NetUnparser.u8_eq] using hhead
  rw [← hzero, h.ver] at hversion
  exact absurd hversion (by decide)

namespace Directory

variable {σ : Type*} (D : Directory σ)

def address (i : σ) : UInt32 := (D.ipAddress i).ipv4Numeric

theorem address_injective : Function.Injective D.address := by
  intro i j h
  apply D.ipAddress_injective
  exact congrArg Address.mk h

/-- The interface of a station, as it is made. -/
def interface (i : σ) : NetworkInterface where
  ethernetAddress := D.ethernetAddress i
  ipAddress := D.ipAddress i

/-- The frame that stands for a message of the station `i`. -/
def frame (i : σ) : Message σ UInt32 Ipv4Datagram → EthernetFrame
  | .ask x => (D.interface i).arpFrame ArpMessage.opcodeRequest x NetworkInterface.addrBroadcast
  | .tell j =>
    (D.interface i).arpFrame ArpMessage.opcodeReply (D.address j) (D.ethernetAddress j)
  | .data j dgram => (D.interface i).ipv4Frame (D.ethernetAddress j) dgram.bytes

/-- Data is as it comes from the wire. -/
def Sound : Message σ UInt32 Ipv4Datagram → Prop
  | .ask _ | .tell _ => True
  | .data _ dgram => dgram.Intact

/-- The interface acts as the station `i` does in the state `s`. -/
structure Represents (i : σ) (n : AsyncNetworkInterface) (s : Station σ UInt32 Ipv4Datagram) :
    Prop where
  ethernetAddress : n.ethernetAddress = D.ethernetAddress i
  ipAddress : n.ipAddress = D.ipAddress i
  known : ∀ {x e}, n.ip2eth x = some e → ∃ j, D.address j = x ∧ D.ethernetAddress j = e
  unknown : ∀ {x}, n.ip2dgrams x ≠ [] → n.ip2eth x = none
  asked : ∀ x, s.asked x ↔ (n.timestampsArp x).isSome
  queue : ∀ x, s.queue x = (n.ip2dgrams x).map Ipv4Datagram.stamped
  fits : ∀ x, ∀ dgram ∈ n.ip2dgrams x, dgram.Fits
  waits : s.Waits
  out : n.framesOut = s.out.map (D.frame i)
  sound : ∀ m ∈ s.out, Sound m
  got : n.datagramsOut = s.got
  intact : ∀ dgram ∈ s.got, dgram.Intact

variable {D} {i j : σ} {n : AsyncNetworkInterface} {s : Station σ UInt32 Ipv4Datagram}

theorem Represents.new (i : σ) : D.Represents i { toNetworkInterface := D.interface i } {} := by
  constructor <;> first | rfl | simp [interface, Station.Waits]

namespace Represents

theorem resolving (h : D.Represents i n s) : n.toNetworkInterface.Resolving where
  unknown := h.unknown
  asked {x} hx := by
    rw [← h.asked]
    apply h.waits
    rwa [h.queue, ne_eq, List.map_eq_nil_iff]
  serializable dgram hdgram := (h.fits _ dgram hdgram).serializable

/-- The address under which a station is known is its own. -/
theorem ip2eth_remember (h : D.Represents i n s) (j : σ) :
    (n.remember (D.address j) (D.ethernetAddress j)).ip2eth (D.address j) =
      some (D.ethernetAddress j) := by
  cases hknown : n.ip2eth (D.address j) with
  | none =>
      rw [NetworkInterface.remember_of_none hknown]
      exact Function.update_self _ _ _
  | some e =>
      obtain ⟨k, hk, rfl⟩ := h.known hknown
      rw [NetworkInterface.remember_of_some hknown, hknown, D.address_injective hk]

end Represents

end Directory

namespace NetworkInterface

variable {n : NetworkInterface}

theorem unsent_eq_nil {queue : List Ipv4Datagram} (h : ∀ dgram ∈ queue, dgram.Fits) :
    unsent queue = [] ∧ payloads queue = queue.map Ipv4Datagram.bytes := by
  induction queue with
  | nil => exact ⟨rfl, rfl⟩
  | cons dgram rest ih =>
      obtain ⟨hfits, hrest⟩ := List.forall_mem_cons.mp h
      obtain ⟨hunsent, hpayloads⟩ := ih hrest
      rw [unsent, payloads, hfits.serialize_eq]
      exact ⟨hunsent, congrArg _ hpayloads⟩

/-- What an ARP message does to the queues and the frames of an interface that resolves. -/
theorem hear_eq (h : n.Resolving) (hfits : ∀ x, ∀ dgram ∈ n.ip2dgrams x, dgram.Fits)
    (msg : ArpMessage) :
    let ip := msg.senderIpAddress
    let eth := ((n.remember ip msg.senderEthernetAddress).ip2eth ip).getD addrBroadcast
    (n.hear msg).ip2dgrams = Function.update n.ip2dgrams ip [] ∧
      (n.hear msg).framesOut = n.framesOut ++
        ((n.ip2dgrams ip).map fun dgram ↦ n.ipv4Frame eth dgram.bytes) ++ n.answerFrames msg := by
  intro ip eth
  obtain ⟨hunsent, hpayloads⟩ := unsent_eq_nil (hfits ip)
  by_cases hasked : (n.timestampsArp ip).isSome
  · constructor
    · simp only [hear, sendQueuedLeft_eq]
      rw [if_pos hasked, if_pos hunsent, ip2dgrams_answer]
      simp [hunsent, eraseArp, ip]
    · rw [framesOut_hear, hearFrames, if_pos hasked, if_pos hunsent, hpayloads, List.map_map,
        List.append_assoc]
      rfl
  · have hnil := h.queue_eq_nil_of_not_asked hasked
    constructor
    · rw [hear, if_neg hasked, ip2dgrams_answer, remember_ip2dgrams]
      exact (Function.update_eq_self_iff.mpr hnil.symm).symm
    · rw [framesOut_hear, hearFrames, if_neg hasked, hnil]
      simp

theorem recvFrame_of_heard {frame : EthernetFrame} {msg : ArpMessage} (h : n.Resolving)
    (hheard : n.heard frame = some msg) : n.recvFrame frame = .ok (none, n.hear msg) := by
  obtain ⟨n', sent, happly, -⟩ := h.exists_applied_recvFrame frame
  have hafter := after_of_apply happly
  rw [after_recvFrame_of_heard hheard] at hafter
  obtain ⟨⟨optionalDgram, m⟩, hrecv, hm⟩ := exists_of_bind happly
  obtain rfl : m = n' := Except.ok.inj hm
  cases optionalDgram with
  | none => rw [hrecv, hafter]
  | some dgram =>
      obtain ⟨htype, hdst, -⟩ := of_recvFrame_eq_some hrecv
      rw [heard, if_pos ⟨htype, hdst⟩] at hheard
      cases hheard

end NetworkInterface

namespace Directory.Represents

variable {σ : Type*} {D : Directory σ} {i j : σ} {n : AsyncNetworkInterface}
  {s : Station σ UInt32 Ipv4Datagram}

/-- The interface hears a message of the station `j`. -/
theorem hear (h : D.Represents i n s) {msg : ArpMessage} (hip : msg.senderIpAddress = D.address j)
    (heth : msg.senderEthernetAddress = D.ethernetAddress j)
    {told : List (Message σ UInt32 Ipv4Datagram)} (hsound : ∀ m ∈ told, Sound m)
    (htold : n.answerFrames msg = told.map (D.frame i)) :
    D.Represents i { n with toNetworkInterface := n.toNetworkInterface.hear msg }
      { s.learn D.address j with out := (s.learn D.address j).out ++ told } := by
  have hkeeps := n.keepsMappings_hear msg
  obtain ⟨hdgrams, hframes⟩ := NetworkInterface.hear_eq h.resolving h.fits msg
  rw [hip, heth, h.ip2eth_remember, Option.getD_some] at hframes
  rw [hip] at hdgrams
  refine ⟨?_, ?_, fun {x e} hx ↦ ?_, fun {x} hx ↦ ?_, fun x ↦ ?_, fun x ↦ ?_, fun x dgram hx ↦ ?_,
    fun x hx ↦ ?_, ?_, fun m hm ↦ ?_, h.got, h.intact⟩
  · rw [hkeeps.ethernetAddress, NetworkInterface.remember_ethernetAddress, h.ethernetAddress]
  · rw [hkeeps.ipAddress, NetworkInterface.remember_ipAddress, h.ipAddress]
  · rw [hkeeps.ip2eth, hip, heth] at hx
    by_cases hj : x = D.address j
    · subst hj
      rw [h.ip2eth_remember] at hx
      exact ⟨j, rfl, Option.some.inj hx⟩
    · rw [NetworkInterface.remember_ip2eth_of_ne _ _ _ hj] at hx
      exact h.known hx
  · rw [hdgrams] at hx
    by_cases hj : x = D.address j
    · subst hj
      exact absurd (Function.update_self _ _ _) hx
    · rw [Function.update_of_ne hj] at hx
      rw [hkeeps.ip2eth, hip, heth, NetworkInterface.remember_ip2eth_of_ne _ _ _ hj]
      exact h.unknown hx
  · rw [NetworkInterface.timestampsArp_hear, hip]
    by_cases hj : x = D.address j
    · simp [Station.learn, hj]
    · simpa [Station.learn, hj] using h.asked x
  · rw [hdgrams]
    by_cases hj : x = D.address j
    · simp [Station.learn, hj]
    · simpa [Station.learn, hj] using h.queue x
  · rw [hdgrams] at hx
    by_cases hj : x = D.address j
    · simp [hj] at hx
    · rw [Function.update_of_ne hj] at hx
      exact h.fits x dgram hx
  · exact h.waits.learn j x hx
  · rw [hframes, htold, h.out]
    simp [Station.learn, h.queue, frame, NetworkInterface.ipv4Frame, h.ethernetAddress, interface]
  · rcases List.mem_append.mp hm with hm | hm
    · rcases List.mem_append.mp hm with hm | hm
      · exact h.sound m hm
      · obtain ⟨dgram, hdgram, rfl⟩ := List.mem_map.mp hm
        rw [h.queue] at hdgram
        obtain ⟨waiting, hwaiting, rfl⟩ := List.mem_map.mp hdgram
        exact (h.fits _ waiting hwaiting).intact
    · exact hsound m hm

/-- Every frame of a station is received as the message it stands for. -/
theorem exists_recvFrame [DecidableEq σ] (h : D.Represents i n s) (j : σ)
    {m : Message σ UInt32 Ipv4Datagram} (hm : Sound m) :
    ∃ n', n.recvFrame (D.frame j m) = .ok n' ∧
      D.Represents i n' (s.hear D.address i j m) := by
  have hheard : ∀ {opcode : UInt16} {ip : UInt32} {eth : EthernetAddress},
      opcode = ArpMessage.opcodeRequest ∨ opcode = ArpMessage.opcodeReply →
      n.recvFrame ((D.interface j).arpFrame opcode ip eth) =
        .ok { n with
          toNetworkInterface := n.hear ((D.interface j).arpMessage opcode ip eth) } := by
    intro opcode ip eth hopcode
    have hrecv := NetworkInterface.recvFrame_of_heard h.resolving
      ((D.interface j).heard_arpFrame n.toNetworkInterface ip eth hopcode)
    rw [AsyncNetworkInterface.recvFrame, hrecv]
    rfl
  have hsilent : ∀ {opcode : UInt16} {ip : UInt32} {eth : EthernetAddress},
      ¬(opcode = ArpMessage.opcodeRequest ∧ ip = n.ipAddress.ipv4Numeric) →
      D.Represents i
        { n with toNetworkInterface := n.hear ((D.interface j).arpMessage opcode ip eth) }
        (s.learn D.address j) := by
    intro opcode ip eth hnot
    have hnone : n.answerFrames ((D.interface j).arpMessage opcode ip eth) =
        ([] : List (Message σ UInt32 Ipv4Datagram)).map (D.frame i) := if_neg hnot
    have hhear := h.hear (j := j) rfl rfl (List.forall_mem_nil _) hnone
    rwa [List.append_nil] at hhear
  cases m with
  | ask x =>
      refine ⟨_, hheard (Or.inl rfl), ?_⟩
      rw [Station.hear]
      by_cases hx : x = D.address i
      · rw [if_pos hx]
        refine h.hear rfl rfl (List.forall_mem_singleton.mpr trivial) ?_
        rw [NetworkInterface.answerFrames, if_pos ⟨rfl, hx.trans (by rw [address, h.ipAddress])⟩]
        simp [frame, NetworkInterface.arpFrame, NetworkInterface.arpMessage, interface, h.ipAddress,
          h.ethernetAddress, address]
      · rw [if_neg hx]
        refine hsilent fun hasks ↦ hx (hasks.2.trans ?_)
        rw [address, h.ipAddress]
  | tell k => exact ⟨_, hheard (Or.inr rfl), hsilent fun hasks ↦ absurd hasks.1 (by decide)⟩
  | data k dgram =>
      rw [Station.hear]
      by_cases hk : k = i
      · have hmine : D.ethernetAddress k = n.ethernetAddress := by rw [hk, h.ethernetAddress]
        have hrecv : n.toNetworkInterface.recvFrame (D.frame j (.data k dgram)) =
            .ok (some dgram, n.toNetworkInterface) := by
          rw [NetworkInterface.recvFrame, if_pos ⟨rfl, hmine⟩]
          simp only [frame, NetworkInterface.ipv4Frame, hm.fits.parse_bytes, hm.stamped, if_true]
          rfl
        refine ⟨{ n with datagramsOut := n.datagramsOut ++ [dgram] }, ?_, ?_⟩
        · rw [AsyncNetworkInterface.recvFrame, hrecv]
          rfl
        · rw [if_pos hk]
          exact { h with
            got := congrArg (· ++ [dgram]) h.got
            intact := List.forall_mem_append.mpr ⟨h.intact, List.forall_mem_singleton.mpr hm⟩ }
      · have hother : ¬((D.frame j (.data k dgram)).header.type = EthernetHeader.typeIpv4 ∧
            (D.frame j (.data k dgram)).header.dst = n.ethernetAddress) := fun hmine ↦
          hk (D.ethernetAddress_injective (hmine.2.trans h.ethernetAddress))
        have hrecv : n.toNetworkInterface.recvFrame (D.frame j (.data k dgram)) =
            .ok (none, n.toNetworkInterface) := by
          rw [NetworkInterface.recvFrame, if_neg hother]
          simp only [frame, NetworkInterface.ipv4Frame, ne_eq, ArpMessage.parse_datagram_ne hm.fits,
            not_false_eq_true, if_true]
          rfl
        refine ⟨n, ?_, ?_⟩
        · rw [AsyncNetworkInterface.recvFrame, hrecv]
          rfl
        · rwa [if_neg hk]

section send

variable {dgram : Ipv4Datagram} {x : UInt32}

theorem pass (h : D.Represents i n s) (hdgram : dgram.Intact) (j : σ) :
    D.Represents i
      { n with toNetworkInterface := n.pushFrame (n.ipv4Frame (D.ethernetAddress j) dgram.bytes) }
      (s.pass j dgram) := by
  refine { h with out := ?_, sound := ?_ }
  · simp [NetworkInterface.pushFrame, h.out, Station.pass, frame, NetworkInterface.ipv4Frame,
      interface, h.ethernetAddress]
  · exact List.forall_mem_append.mpr ⟨h.sound, List.forall_mem_singleton.mpr hdgram⟩

theorem askFor (h : D.Represents i n s) (x : UInt32) (time : ℕ) :
    D.Represents i
      { n with
        toNetworkInterface := NetworkInterface.pushFrame
          { n with timestampsArp := Function.update n.timestampsArp x (some time) }
          (n.arpFrame ArpMessage.opcodeRequest x NetworkInterface.addrBroadcast) }
      (s.askFor x) := by
  have hasked : ∀ y, (s.askFor x).asked y ↔
      (Function.update n.timestampsArp x (some time) y).isSome := by
    intro y
    by_cases hy : y = x
    · simp [Station.askFor, hy]
    · simpa [Station.askFor, hy] using h.asked y
  refine { h with asked := hasked, waits := fun y hy ↦ ?_, out := ?_, sound := ?_ }
  · by_cases hyx : y = x
    · simp [Station.askFor, hyx]
    · simpa [Station.askFor, hyx] using h.waits y hy
  · simp [NetworkInterface.pushFrame, h.out, Station.askFor, frame, NetworkInterface.arpFrame,
      interface, h.ethernetAddress, h.ipAddress]
  · exact List.forall_mem_append.mpr ⟨h.sound, List.forall_mem_singleton.mpr trivial⟩

theorem keep [DecidableEq σ] (h : D.Represents i n s) (hfits : dgram.Fits)
    (hunknown : n.ip2eth x = none)
    (hasked : s.asked x) :
    D.Represents i { n with toNetworkInterface := n.enqueue x dgram }
      (s.keep x dgram.stamped) := by
  refine { h with
    unknown := fun {y} hy ↦ ?_
    queue := fun y ↦ ?_
    fits := fun y ↦ ?_
    waits := fun y hy ↦ ?_ }
  · by_cases hyx : y = x
    · exact hyx ▸ hunknown
    · rw [NetworkInterface.enqueue_ip2dgrams_of_ne _ hyx] at hy
      exact h.unknown hy
  · by_cases hyx : y = x
    · simp [Station.keep, hyx, h.queue]
    · rw [NetworkInterface.enqueue_ip2dgrams_of_ne _ hyx]
      simpa [Station.keep, hyx] using h.queue y
  · by_cases hyx : y = x
    · subst hyx
      rw [NetworkInterface.enqueue_ip2dgrams_self]
      exact List.forall_mem_append.mpr ⟨h.fits y, List.forall_mem_singleton.mpr hfits⟩
    · rw [NetworkInterface.enqueue_ip2dgrams_of_ne _ hyx]
      exact h.fits y
  · exact (Station.Accepts.keep D.address hasked _).waits h.waits y hy

/-- A datagram that is handed over is sent to the station of the next hop, or kept for it. -/
theorem exists_sendDatagram [DecidableEq σ] (h : D.Represents i n s) (hfits : dgram.Fits)
    (nextHop : Address) :
    ∃ n' s', n.sendDatagram dgram nextHop = .ok n' ∧
      D.Represents i { n with toNetworkInterface := n' } s' ∧
      Station.Accepts D.address s [(nextHop.ipv4Numeric, dgram.stamped)] s' := by
  rw [NetworkInterface.sendDatagram]
  cases hknown : n.ip2eth nextHop.ipv4Numeric with
  | some eth =>
      obtain ⟨j, hj, rfl⟩ := h.known hknown
      have hnil : s.queue (D.address j) = [] := by
        rw [h.queue, List.map_eq_nil_iff, hj]
        by_contra hne
        rw [h.unknown hne] at hknown
        cases hknown
      refine ⟨_, _, ?_, h.pass hfits.intact j, ?_⟩
      · simp only [hfits.serialize_eq]
        rfl
      · rw [← hj]
        exact Station.Accepts.pass D.address_injective hnil _
  | none =>
      by_cases hrecent : ((n.enqueue nextHop.ipv4Numeric dgram).timestampsArp
          nextHop.ipv4Numeric).any fun sent ↦
            sub64 (n.enqueue nextHop.ipv4Numeric dgram).time sent < 5000
      · have hasked : s.asked nextHop.ipv4Numeric := by
          rw [h.asked]
          exact Option.isSome_of_any hrecent
        exact ⟨_, _, if_pos hrecent, h.keep hfits hknown hasked,
          Station.Accepts.keep _ hasked _⟩
      · have hasked : (s.askFor nextHop.ipv4Numeric).asked nextHop.ipv4Numeric := by
          simp [Station.askFor]
        refine ⟨_, _, (if_neg hrecent).trans (NetworkInterface.sendArp_eq _ _ _ (Or.inl rfl)),
          (h.askFor nextHop.ipv4Numeric n.time).keep hfits hknown hasked, ?_⟩
        exact Station.Accepts.keep_askFor _ _ _ _

end send

theorem tick (h : D.Represents i n s) (ms : ℕ) :
    D.Represents i { n with toNetworkInterface := n.tick ms } s := by
  rw [NetworkInterface.tick, NetworkInterface.expire_eq]
  have hforget : ∀ {f : UInt32 → Option EthernetAddress}
      {es : List ((UInt32 × EthernetAddress) × ℕ)} {x : UInt32},
      forget f es x = f x ∨ forget f es x = none := by
    intro f es x
    rw [forget]
    split_ifs
    · exact Or.inr rfl
    · exact Or.inl rfl
  refine { h with known := fun {x e} hx ↦ ?_, unknown := fun {x} hx ↦ ?_ }
  · rcases hforget with hsame | hnone
    · exact h.known (hsame.symm.trans hx)
    · cases hnone.symm.trans hx
  · exact hforget.elim (fun hsame ↦ hsame.trans (h.unknown hx)) id

/-- The first frames are taken. -/
theorem drop (h : D.Represents i n s) (k : ℕ) :
    D.Represents i { n with framesOut := n.framesOut.drop k } { s with out := s.out.drop k } :=
  { h with
    out := by rw [h.out, List.map_drop]
    sound := fun m hm ↦ h.sound m (List.mem_of_mem_drop hm) }

/-- Only part of what the station got is left. -/
theorem withGot (h : D.Represents i n s) {got : List Ipv4Datagram} (hgot : got ⊆ s.got) :
    D.Represents i { n with datagramsOut := got } { s with got := got } :=
  { h with got := rfl, intact := fun dgram hdgram ↦ h.intact dgram (hgot hdgram) }

end Directory.Represents

end Sponge
