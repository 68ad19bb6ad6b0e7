import Sponge.Adapter.Lawful
import Sponge.Router.Forwarding

/-!
# The Ethernet adapter

A datagram may have to wait in the interface for the address of its next hop,
and a frame that is read may make the interface send some of those that waited.
The adapter is lawful all the same: what waits and what is on the wire carries
segments that were written.
-/

namespace Sponge

open Lib

namespace NetworkInterface

variable {n n' : NetworkInterface} {op : Op} {sent : List Ipv4Datagram}

/-- The datagrams that leave and those that stay were waiting or were handed over. -/
theorem Applied.forall_mem (h : n.Applied op n' sent) {P : Ipv4Datagram → Prop}
    (hwaiting : ∀ x, ∀ dgram ∈ n.ip2dgrams x, P dgram) (hhanded : ∀ p ∈ op.handed, P p.2) :
    (∀ dgram ∈ sent, P dgram) ∧ ∀ x, ∀ dgram ∈ n'.ip2dgrams x, P dgram := by
  have hbefore : ∀ x, ∀ dgram ∈ n.ip2dgrams x ++ datagramsFor x op.handed, P dgram := by
    intro x dgram hmem
    rcases List.mem_append.mp hmem with hmem | hmem
    · exact hwaiting x dgram hmem
    · obtain ⟨p, hp, rfl⟩ := List.mem_map.mp hmem
      exact hhanded p (List.mem_of_mem_filter hp)
  constructor
  · intro dgram hmem
    cases hhop : op.nextHop with
    | none =>
        rw [h.nextHop hhop] at hmem
        exact absurd hmem List.not_mem_nil
    | some x =>
        refine hbefore x dgram ?_
        rw [h.queue x, if_pos hhop]
        exact List.mem_append_left _ hmem
  · intro x dgram hmem
    refine hbefore x dgram ?_
    rw [h.queue x]
    exact List.mem_append_right _ hmem

theorem exists_sentIn {frames : List EthernetFrame} {frame : EthernetFrame}
    (h : List.Forall₂ Ipv4Datagram.SentIn sent frames) (hmem : frame ∈ frames) :
    ∃ dgram ∈ sent, dgram.SentIn frame := by
  induction h with
  | nil => exact absurd hmem List.not_mem_nil
  | cons hfirst _ ih =>
      rcases List.mem_cons.mp hmem with rfl | hrest
      · exact ⟨_, List.mem_cons_self, hfirst⟩
      · obtain ⟨dgram, hdgram, hsent⟩ := ih hrest
        exact ⟨dgram, List.mem_cons_of_mem _ hdgram, hsent⟩

/-- A pushed frame of type IPv4 carries one of the datagrams that leave. -/
theorem Applied.exists_sentIn (h : n.Applied op n' sent) (hempty : n.framesOut = [])
    {frame : EthernetFrame} (hmem : frame ∈ n'.framesOut)
    (htype : frame.header.type = EthernetHeader.typeIpv4) :
    ∃ dgram ∈ sent, dgram.SentIn frame := by
  refine NetworkInterface.exists_sentIn h.pushed ?_
  rw [NetworkInterface.pushed, hempty]
  exact List.mem_filter.mpr ⟨hmem, by simpa using htype⟩

end NetworkInterface

namespace TcpOverIpv4OverEthernetAdapter

open NetworkInterface (Op)

variable {a : TcpOverIpv4OverEthernetAdapter} {wire : List (List UInt8)}
  {segs segs' : List TcpSegment} {seg : TcpSegment}

theorem writeFrames_eq (tap : FileDescriptor) (frames : List EthernetFrame) :
    (writeFrames tap frames).2 = frames.map (·.serialize.concatenate) ∧
      (writeFrames tap frames).1.readCount = tap.readCount := by
  induction frames generalizing tap with
  | nil => exact ⟨rfl, rfl⟩
  | cons frame rest ih =>
      obtain ⟨hwritten, hcount⟩ := ih tap.registerWrite
      exact ⟨congrArg (_ :: ·) hwritten, hcount⟩

/-- The datagram carries one of the segments. -/
def CarriesOne (segs : List TcpSegment) (ipDgram : Ipv4Datagram) : Prop :=
  ∃ seg ∈ segs, ipDgram.Carries seg

/-- What waits in the interface carries segments, and so does each packet with an IPv4 frame. -/
structure Holds (a : TcpOverIpv4OverEthernetAdapter) (wire : List (List UInt8))
    (segs : List TcpSegment) : Prop where
  resolving : a.interface.Resolving
  framesOut : a.interface.framesOut = []
  waiting : ∀ x, ∀ ipDgram ∈ a.interface.ip2dgrams x, CarriesOne segs ipDgram
  wire : ∀ packet ∈ wire, ∃ frame : EthernetFrame, packet = frame.serialize.concatenate ∧
    (frame.header.type = EthernetHeader.typeIpv4 → ∃ ipDgram, CarriesOne segs ipDgram ∧
      ipDgram.SentIn frame)

theorem CarriesOne.mono {ipDgram : Ipv4Datagram} (h : CarriesOne segs ipDgram)
    (hsub : segs ⊆ segs') : CarriesOne segs' ipDgram := by
  obtain ⟨seg, hmem, hcarries⟩ := h
  exact ⟨seg, hsub hmem, hcarries⟩

theorem Holds.mono (h : Holds a wire segs) (hsub : segs ⊆ segs') : Holds a wire segs' where
  resolving := h.resolving
  framesOut := h.framesOut
  waiting x ipDgram hmem := (h.waiting x ipDgram hmem).mono hsub
  wire packet hpacket := by
    obtain ⟨frame, hframe, hcarried⟩ := h.wire packet hpacket
    refine ⟨frame, hframe, fun htype ↦ ?_⟩
    obtain ⟨ipDgram, hone, hsent⟩ := hcarried htype
    exact ⟨ipDgram, hone.mono hsub, hsent⟩

/-- After an operation of the interface its frames are written. -/
theorem Holds.sendPending (h : Holds a wire segs) {op : Op} {interface : NetworkInterface}
    {sent : List Ipv4Datagram} (happlied : a.interface.Applied op interface sent)
    (hhanded : ∀ p ∈ op.handed, CarriesOne segs p.2) (base : FdAdapterBase)
    (tap : FileDescriptor) :
    Holds (TcpOverIpv4OverEthernetAdapter.sendPending { a with base, tap, interface }).1
      (wire ++ (TcpOverIpv4OverEthernetAdapter.sendPending { a with base, tap, interface }).2)
      segs := by
  obtain ⟨hsent, hwaiting⟩ := happlied.forall_mem h.waiting hhanded
  constructor
  case resolving => exact happlied.resolving.congr rfl rfl rfl
  case framesOut => rfl
  case waiting => exact hwaiting
  case wire =>
    intro packet hpacket
    rcases List.mem_append.mp hpacket with hold | hnew
    · exact h.wire packet hold
    · change packet ∈ (writeFrames tap interface.framesOut).2 at hnew
      rw [(writeFrames_eq tap interface.framesOut).1] at hnew
      obtain ⟨frame, hframe, rfl⟩ := List.mem_map.mp hnew
      refine ⟨frame, rfl, fun htype ↦ ?_⟩
      obtain ⟨ipDgram, hmem, hin⟩ := happlied.exists_sentIn h.framesOut hframe htype
      exact ⟨ipDgram, hsent ipDgram hmem, hin⟩

theorem Holds.exists_write (h : Holds a wire segs) (hseg : seg.Fits) :
    ∃ a' written, a.write seg = .ok (a', written) ∧
      Holds a' (wire ++ written) (segs ++ [seg]) := by
  obtain ⟨payload, hwrap, hfits, -⟩ := a.base.exists_wrapTcpInIp hseg
  have hcarries : CarriesOne (segs ++ [seg]) ⟨a.base.ipHeader seg, payload⟩ :=
    ⟨seg, List.mem_append_right _ (List.mem_singleton_self seg), hseg, a.base, hwrap⟩
  obtain ⟨interface, sent, hsend, happlied⟩ :=
    h.resolving.exists_applied_sendDatagram hfits.serializable a.nextHop
  refine ⟨_, _, ?_, (h.mono (List.subset_append_left _ _)).sendPending happlied ?_ a.base a.tap⟩
  · rw [write, hwrap]
    change (a.interface.sendDatagram ⟨a.base.ipHeader seg, payload⟩ a.nextHop >>= _) = _
    rw [hsend]
    rfl
  · intro p hp
    rw [List.mem_singleton.mp hp]
    exact hcarries

/-- What is returned was in an IPv4 frame for this interface. -/
theorem Holds.ends_readFrame (h : Holds a wire segs) (frame : EthernetFrame) :
    Ends KernelFault
      (fun r : Option TcpSegment × TcpOverIpv4OverEthernetAdapter × List (List UInt8) ↦
        Holds r.2.1 (wire ++ r.2.2) segs ∧ r.2.1.tap.readCount = a.tap.readCount)
      (a.readFrame frame) := by
  obtain ⟨interface, sent, happly, happlied⟩ := h.resolving.exists_applied_recvFrame frame
  obtain ⟨⟨ipDgram, interface'⟩, hrecv, hsame⟩ := exists_of_bind happly
  obtain rfl := Except.ok.inj hsame
  have hholds := fun base ↦ h.sendPending happlied (fun p hp ↦ absurd hp List.not_mem_nil)
    base a.tap
  have hcount := (writeFrames_eq a.tap interface'.framesOut).2
  rw [readFrame, hrecv]
  cases ipDgram with
  | some ipDgram => exact ⟨hholds (a.base.unwrapTcpInIp ipDgram).2, hcount⟩
  | none => exact ⟨hholds a.base, hcount⟩

theorem Holds.ends_read (h : Holds a wire segs) (returned : Except UnixError (List UInt8)) :
    Ends KernelFault
      (fun r : Option TcpSegment × TcpOverIpv4OverEthernetAdapter × List (List UInt8) ↦
        Holds r.2.1 (wire ++ r.2.2) segs ∧ r.2.1.tap.readCount = a.tap.readCount + 1)
      (a.read returned) := by
  refine (a.tap.ends_read sizeMax returned).bind_pair ?_
  rintro bytes tap ⟨-, -, eof, -, htap⟩
  dsimp only at htap
  subst htap
  have hread : ∀ tap, Holds { a with tap } wire segs := fun _ ↦
    ⟨h.resolving, h.framesOut, h.waiting, h.wire⟩
  refine Ends.of_ite (fun _ ↦ Ends.of_pure ⟨?_, rfl⟩) fun _ ↦ (hread _).ends_readFrame _
  rw [List.append_nil]
  exact hread _

/-- Only a datagram in an IPv4 frame for this interface is unwrapped. -/
theorem exists_of_readFrame {b b' : TcpOverIpv4OverEthernetAdapter} {frame : EthernetFrame}
    {written : List (List UInt8)} (h : b.readFrame frame = .ok (some seg, b', written)) :
    ∃ ipDgram, frame.header.type = EthernetHeader.typeIpv4 ∧
      Ipv4Datagram.parse {} frame.payload = (.noError, ipDgram) ∧
      (b.base.unwrapTcpInIp ipDgram).1 = some seg := by
  obtain ⟨⟨ipDgram, interface⟩, hrecv, hrest⟩ := exists_of_bind h
  cases ipDgram with
  | none => cases hrest
  | some ipDgram =>
      obtain ⟨htype, -, hresult, hdgram⟩ := NetworkInterface.of_recvFrame_eq_some hrecv
      exact ⟨ipDgram, htype, Prod.ext hresult hdgram, congrArg Prod.fst (Except.ok.inj hrest)⟩

theorem exists_of_read {b b' : TcpOverIpv4OverEthernetAdapter} {packet : List UInt8}
    {written : List (List UInt8)} (h : b.read (.ok packet) = .ok (some seg, b', written)) :
    ∃ frame ipDgram, EthernetFrame.parse dummyFrame packet = (.noError, frame) ∧
      frame.header.type = EthernetHeader.typeIpv4 ∧
      Ipv4Datagram.parse {} frame.payload = (.noError, ipDgram) ∧
      (b.base.unwrapTcpInIp ipDgram).1 = some seg := by
  obtain ⟨⟨bytes, tap⟩, hbytes, hrest⟩ := exists_of_bind h
  obtain ⟨hreturned, -⟩ := (b.tap.ends_read sizeMax _).result hbytes
  obtain rfl := Except.ok.inj hreturned
  dsimp only at hrest
  by_cases hresult : (EthernetFrame.parse dummyFrame packet).1 = .noError
  · obtain ⟨ipDgram, htype, hparse, hunwrap⟩ :=
      exists_of_readFrame ((if_neg (not_not.mpr hresult)).symm.trans hrest)
    exact ⟨_, ipDgram, Prod.ext hresult rfl, htype, hparse, hunwrap⟩
  · cases (if_pos hresult).symm.trans hrest

instance : LawfulFdAdapter TcpOverIpv4OverEthernetAdapter where
  Holds := Holds
  Delivers returned packet := returned = .ok packet
  holds_append seg h := h.mono (List.subset_append_left _ [seg])
  holds_setBase _ h := ⟨h.resolving, h.framesOut, h.waiting, h.wire⟩
  exists_write h hseg := h.exists_write hseg
  ends_read returned h := h.ends_read returned
  holds_tick {a wire segs} ms h := by
    obtain ⟨interface, sent, happly, happlied⟩ := h.resolving.exists_applied
      (show (Op.tick ms).Allowed from trivial)
    obtain rfl := Except.ok.inj happly
    exact h.sendPending happlied (fun p hp ↦ absurd hp List.not_mem_nil) a.base a.tap
  alike_of_read {a b b' wire written segs packet returned seg'} h hpacket hdelivers hread := by
    subst hdelivers
    obtain ⟨frame, ipDgram, hframe, htype, hparse, hunwrap⟩ := exists_of_read hread
    obtain ⟨frame', rfl, hcarried⟩ := h.wire packet hpacket
    rw [EthernetFrame.parse_serialize] at hframe
    obtain rfl := congrArg Prod.snd hframe
    obtain ⟨sent, ⟨seg, hmem, hcarries⟩, -, hserialize⟩ := hcarried htype
    obtain rfl := congrArg Prod.snd ((hcarries.parse_eq hserialize {}).symm.trans hparse)
    exact ⟨seg, hmem, hcarries.alike_of_unwrapTcpInIp hunwrap⟩

/-- A new adapter has put only the frame on the wire that primes its device. -/
theorem holds_new (ethAddress : EthernetAddress) (ipAddress nextHop : Address) :
    Holds (new ethAddress ipAddress nextHop).1 (new ethAddress ipAddress nextHop).2 [] where
  resolving := by constructor <;> simp [new]
  framesOut := rfl
  waiting := fun x ipDgram hmem ↦ absurd hmem List.not_mem_nil
  wire packet hpacket := by
    refine ⟨dummyFrame, List.mem_singleton.mp hpacket, fun htype ↦ ?_⟩
    exact absurd htype (by decide)

end TcpOverIpv4OverEthernetAdapter

end Sponge
