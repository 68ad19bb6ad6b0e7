import Sponge.Adapter.Model
import Sponge.Codec.Ipv4Fits
import Sponge.Codec.TcpRoundTrip
import Sponge.Interface.Queue
import Sponge.Lib.Outcome

/-!
# What adapters have in common

A segment that is wrapped at one end and unwrapped at the other comes out with
other ports and another checksum, and is otherwise the same. `LawfulFdAdapter`
says what follows for the devices: whatever an adapter has written stems from
the segments that were given to it, and whoever reads one of its packets gets
one of these segments or none. All adapters of the source are lawful, and the
lossy version of a lawful adapter is.
-/

namespace Sponge

open Lib

namespace TcpSegment

/-- The segment fits in a datagram, and its header in its field. -/
structure Fits (seg : TcpSegment) : Prop where
  doff_ge : 5 ≤ seg.header.doff.toNat
  doff_le : seg.header.doff.toNat ≤ 15
  length_le : 20 + 4 * seg.header.doff.toNat + seg.payload.length ≤ 65535

/-- The segments differ at most in their ports and checksums. -/
def Alike (seg seg' : TcpSegment) : Prop :=
  ∃ sport dport cksum, seg = { seg' with
    header := { seg'.header with sport := sport, dport := dport, cksum := cksum } }

variable {seg : TcpSegment}

theorem Fits.withPorts (h : seg.Fits) (cfg : FdAdapterConfig) : (seg.withPorts cfg).Fits :=
  ⟨h.doff_ge, h.doff_le, h.length_le⟩

/-- The segment as it is read back. -/
def stamped (seg : TcpSegment) (p : UInt32) : TcpSegment :=
  { seg with header := { seg.header with cksum := seg.checksum p } }

theorem alike_stamped (seg : TcpSegment) (cfg : FdAdapterConfig) (p : UInt32) :
    ((seg.withPorts cfg).stamped p).Alike seg :=
  ⟨_, _, _, rfl⟩

/-- A segment that fits survives the wire. -/
theorem Fits.exists_serialize (h : seg.Fits) {p : UInt32} (hp : p.toNat ≤ 5 * 65535 + 255) :
    ∃ bytes, seg.serialize p = .ok bytes ∧
      bytes.length = 4 * seg.header.doff.toNat + seg.payload.length ∧
      ∀ into : TcpSegment, into.parse bytes p = (.noError, seg.stamped p) := by
  have hlen := h.length_le
  refine ⟨_, seg.serialize_eq p h.doff_ge, ?_, fun into ↦ ?_⟩
  · have hbytes := @TcpHeader.length_bytes { seg.header with cksum := seg.checksum p } h.doff_ge
    rw [List.length_append]
    exact congrArg (· + _) hbytes
  · exact seg.parse_serialize into h.doff_ge h.doff_le (by omega) hp

end TcpSegment

namespace FdAdapterBase

variable {a b : FdAdapterBase} {seg : TcpSegment} {ipDgram : Ipv4Datagram}

/-- The header that `wrapTcpInIp` writes. -/
def ipHeader (a : FdAdapterBase) (seg : TcpSegment) : Ipv4Header where
  src := a.cfg.source.ipv4Numeric
  dst := a.cfg.destination.ipv4Numeric
  len := UInt16.ofNat (20 + seg.header.doff.toNat * 4 + seg.payload.length)

/-- A segment that fits is wrapped in a datagram that fits, whose payload is read as the segment
with the ports of the adapter. -/
theorem exists_wrapTcpInIp (a : FdAdapterBase) (h : seg.Fits) :
    ∃ payload, a.wrapTcpInIp seg = .ok ⟨a.ipHeader seg, payload⟩ ∧
      Ipv4Datagram.Fits ⟨a.ipHeader seg, payload⟩ ∧
      ∀ into : TcpSegment, into.parse payload (a.ipHeader seg).pseudoCksum =
        (.noError, (seg.withPorts a.cfg).stamped (a.ipHeader seg).pseudoCksum) := by
  have hle := h.length_le
  obtain ⟨payload, hpayload, hlength, hparse⟩ := (h.withPorts a.cfg).exists_serialize
    (a.ipHeader seg).toNat_pseudoCksum_le
  have hlength : payload.length = 4 * seg.header.doff.toNat + seg.payload.length := hlength
  refine ⟨payload, ?_, ⟨rfl, le_refl 5, show 5 ≤ 15 by decide, show 0 < 2 ^ 13 by decide, ?_⟩,
    hparse⟩
  · change ((seg.withPorts a.cfg).serialize (a.ipHeader seg).pseudoCksum >>= _) = _
    rw [hpayload]
    rfl
  · change (UInt16.ofNat _).toNat = 4 * 5 + payload.length
    rw [UInt16.toNat_ofNat', Nat.mod_eq_of_lt (by omega)]
    omega

/-- The datagram carries the segment to this adapter: from its peer or, while it listens, as the
first segment of a connection. -/
structure Accepts (a : FdAdapterBase) (ipDgram : Ipv4Datagram) (seg : TcpSegment) : Prop where
  proto : ipDgram.header.proto = Ipv4Header.protoTcp
  parse : TcpSegment.parse {} ipDgram.payload ipDgram.header.pseudoCksum = (.noError, seg)
  dport : seg.header.dport = a.cfg.source.port
  listening : a.listen = true → seg.header.syn = true ∧ seg.header.rst = false
  connected : a.listen = false → ipDgram.header.dst = a.cfg.source.ipv4Numeric ∧
    ipDgram.header.src = a.cfg.destination.ipv4Numeric ∧
    seg.header.sport = a.cfg.destination.port

/-- The adapter after a segment that it accepts: no longer listening, and bound to the peer. -/
def boundTo (a : FdAdapterBase) (ipDgram : Ipv4Datagram) (seg : TcpSegment) : FdAdapterBase :=
  { cfg := { a.cfg with
      source := ⟨⟨ipDgram.header.dst⟩, seg.header.dport⟩
      destination := ⟨⟨ipDgram.header.src⟩, seg.header.sport⟩ }
    listen := false }

/-- A segment is returned if it is accepted, and otherwise nothing happens. -/
theorem unwrapTcpInIp_eq (a : FdAdapterBase) (ipDgram : Ipv4Datagram) :
    (∃ seg, a.Accepts ipDgram seg ∧ a.unwrapTcpInIp ipDgram = (some seg, a.boundTo ipDgram seg)) ∨
      (∀ seg, ¬a.Accepts ipDgram seg) ∧ a.unwrapTcpInIp ipDgram = (none, a) := by
  generalize hparse : TcpSegment.parse {} ipDgram.payload ipDgram.header.pseudoCksum = parsed
  obtain ⟨result, tcpSeg⟩ := parsed
  have hsame : ∀ {seg}, a.Accepts ipDgram seg → result = .noError ∧ seg = tcpSeg := fun h ↦ by
    have heq := hparse.symm.trans h.parse
    exact ⟨congrArg Prod.fst heq, (congrArg Prod.snd heq).symm⟩
  cases hlisten : a.listen with
  | false =>
      simp only [unwrapTcpInIp, hparse, hlisten, Bool.not_false, Bool.true_and, Bool.false_and,
        bne_iff_ne, Bool.false_eq_true, if_false]
      split_ifs with hdst hsrc hproto hresult hdport hsport
      · exact .inr ⟨fun seg h ↦ hdst (h.connected hlisten).1, rfl⟩
      · exact .inr ⟨fun seg h ↦ hsrc (h.connected hlisten).2.1, rfl⟩
      · exact .inr ⟨fun seg h ↦ hproto h.proto, rfl⟩
      · exact .inr ⟨fun seg h ↦ hresult (hsame h).1, rfl⟩
      · exact .inr ⟨fun seg h ↦ hdport ((hsame h).2 ▸ h.dport), rfl⟩
      · exact .inr ⟨fun seg h ↦ hsport ((hsame h).2 ▸ (h.connected hlisten).2.2), rfl⟩
      · push Not at hdst hsrc hproto hresult hdport hsport
        refine .inl ⟨tcpSeg, ⟨hproto, hresult ▸ hparse, hdport, fun h ↦ ?_, fun _ ↦
          ⟨hdst, hsrc, hsport⟩⟩, ?_⟩
        · rw [hlisten] at h
          cases h
        · rw [boundTo, hdst, hsrc, hdport, hsport, ← hlisten]
  | true =>
      simp only [unwrapTcpInIp, hparse, hlisten, Bool.not_true, Bool.true_and, Bool.false_and,
        Bool.false_eq_true, if_false, if_true]
      split_ifs with hproto hresult hdport hsyn hsport
      · exact .inr ⟨fun seg h ↦ hproto h.proto, rfl⟩
      · exact .inr ⟨fun seg h ↦ hresult (hsame h).1, rfl⟩
      · exact .inr ⟨fun seg h ↦ hdport ((hsame h).2 ▸ h.dport), rfl⟩
      · refine .inr ⟨fun seg h ↦ ?_, rfl⟩
        obtain ⟨-, rfl⟩ := hsame h
        simp [h.listening hlisten] at hsyn
      · exact absurd rfl hsport
      · push Not at hproto hresult hdport
        refine .inl ⟨tcpSeg, ⟨hproto, hresult ▸ hparse, hdport, fun _ ↦ ?_, fun h ↦ ?_⟩, ?_⟩
        · simpa using hsyn
        · rw [hlisten] at h
          cases h
        · rw [boundTo, hdport]

theorem accepts_of_unwrapTcpInIp (h : (a.unwrapTcpInIp ipDgram).1 = some seg) :
    a.Accepts ipDgram seg := by
  rcases a.unwrapTcpInIp_eq ipDgram with ⟨seg', haccepts, heq⟩ | ⟨-, heq⟩
  · rw [heq] at h
    exact Option.some.inj h ▸ haccepts
  · rw [heq] at h
    cases h

end FdAdapterBase

/-- The datagram carries the segment. -/
def Ipv4Datagram.Carries (ipDgram : Ipv4Datagram) (seg : TcpSegment) : Prop :=
  seg.Fits ∧ ∃ a : FdAdapterBase, a.wrapTcpInIp seg = .ok ipDgram

namespace Ipv4Datagram.Carries

variable {ipDgram : Ipv4Datagram} {seg seg' : TcpSegment}

theorem fits (h : ipDgram.Carries seg) : ipDgram.Fits := by
  obtain ⟨hseg, a, hwrap⟩ := h
  obtain ⟨payload, hwrapped, hfits, -⟩ := a.exists_wrapTcpInIp hseg
  exact Except.ok.inj (hwrapped.symm.trans hwrap) ▸ hfits

/-- Whoever unwraps the datagram gets the segment it carries, up to its ports and its
checksum. -/
theorem alike_of_unwrapTcpInIp (h : ipDgram.Carries seg) {b : FdAdapterBase}
    (hunwrap : (b.unwrapTcpInIp ipDgram.stamped).1 = some seg') : seg'.Alike seg := by
  obtain ⟨hseg, a, hwrap⟩ := h
  obtain ⟨payload, hwrapped, -, hparse⟩ := a.exists_wrapTcpInIp hseg
  obtain rfl := Except.ok.inj (hwrapped.symm.trans hwrap)
  have hread := (FdAdapterBase.accepts_of_unwrapTcpInIp hunwrap).parse
  rw [pseudoCksum_stamped] at hread
  obtain rfl : _ = seg' := congrArg Prod.snd ((hparse {}).symm.trans hread)
  exact seg.alike_stamped a.cfg _

/-- Whoever reads the bytes of the datagram reads it with its checksum. -/
theorem parse_eq (h : ipDgram.Carries seg) {bytes : List UInt8}
    (hbytes : ipDgram.serialize = .ok bytes) (into : Ipv4Datagram) :
    into.parse bytes = (.noError, ipDgram.stamped) := by
  rw [h.fits.serialize_eq] at hbytes
  exact Except.ok.inj hbytes ▸ h.fits.parse_bytes into

end Ipv4Datagram.Carries

/-- Each packet on the wire carries one of the segments. -/
def Stems {ω : Type} (carries : ω → TcpSegment → Prop) (wire : List ω) (segs : List TcpSegment) :
    Prop :=
  ∀ packet ∈ wire, ∃ seg ∈ segs, carries packet seg

namespace Stems

variable {ω : Type} {carries : ω → TcpSegment → Prop} {wire : List ω} {segs : List TcpSegment}

theorem append (h : Stems carries wire segs) (seg : TcpSegment) :
    Stems carries wire (segs ++ [seg]) := by
  intro packet hpacket
  obtain ⟨seg', hmem, hcarries⟩ := h packet hpacket
  exact ⟨seg', List.mem_append_left _ hmem, hcarries⟩

/-- One more segment is written as one more packet. -/
theorem write {packet : ω} {seg : TcpSegment} (h : Stems carries wire segs)
    (hcarries : carries packet seg) : Stems carries (wire ++ [packet]) (segs ++ [seg]) := by
  intro packet' hpacket
  rcases List.mem_append.mp hpacket with hold | hnew
  · exact h.append seg packet' hold
  · rw [List.mem_singleton.mp hnew]
    exact ⟨seg, List.mem_append_right _ (List.mem_singleton_self seg), hcarries⟩

end Stems

/-- Packets are read back as what was written: `Holds a wire segs` says that the packets which
the adapter `a` has put on the wire, and those it still keeps, stem from the segments `segs`, and
`Delivers returned packet` that the kernel hands out this packet. An exception of a read is a
fault of the kernel. -/
class LawfulFdAdapter (α : Type) {ρ ω : outParam Type} [FdAdapter α ρ ω] where
  Holds : α → List ω → List TcpSegment → Prop
  Delivers : ρ → ω → Prop
  holds_append {a : α} {wire : List ω} {segs : List TcpSegment} (seg : TcpSegment) :
    Holds a wire segs → Holds a wire (segs ++ [seg])
  holds_setBase {a : α} {wire : List ω} {segs : List TcpSegment} (base : FdAdapterBase) :
    Holds a wire segs → Holds (FdAdapter.setBase a base) wire segs
  exists_write {a : α} {wire : List ω} {segs : List TcpSegment} {seg : TcpSegment} :
    Holds a wire segs → seg.Fits → ∃ a' written, FdAdapter.write a seg = .ok (a', written) ∧
      Holds a' (wire ++ written) (segs ++ [seg])
  ends_read {a : α} {wire : List ω} {segs : List TcpSegment} (returned : ρ) :
    Holds a wire segs → Ends KernelFault (fun r : Option TcpSegment × α × List ω ↦
      Holds r.2.1 (wire ++ r.2.2) segs ∧
        (FdAdapter.fd r.2.1).readCount = (FdAdapter.fd a).readCount + 1)
      (FdAdapter.read a returned)
  holds_tick {a : α} {wire : List ω} {segs : List TcpSegment} (ms : ℕ) :
    Holds a wire segs → Holds (FdAdapter.tick a ms).1 (wire ++ (FdAdapter.tick a ms).2) segs
  alike_of_read {a b b' : α} {wire written : List ω} {segs : List TcpSegment} {packet : ω}
    {returned : ρ} {seg' : TcpSegment} : Holds a wire segs → packet ∈ wire →
      Delivers returned packet → FdAdapter.read b returned = .ok (some seg', b', written) →
      ∃ seg ∈ segs, seg'.Alike seg

namespace TcpOverIpv4OverTunFdAdapter

/-- Each packet is a datagram that carries a segment. -/
def Holds (wire : List (List UInt8)) (segs : List TcpSegment) : Prop :=
  Stems (fun packet seg ↦ ∃ ipDgram : Ipv4Datagram,
    ipDgram.Carries seg ∧ ipDgram.serialize = .ok packet) wire segs

variable {a : TcpOverIpv4OverTunFdAdapter} {wire : List (List UInt8)} {segs : List TcpSegment}
  {seg : TcpSegment}

theorem Holds.exists_write (h : Holds wire segs) (hseg : seg.Fits)
    (a : TcpOverIpv4OverTunFdAdapter) : ∃ a' written, a.write seg = .ok (a', written) ∧
      Holds (wire ++ written) (segs ++ [seg]) := by
  obtain ⟨payload, hwrap, hfits, -⟩ := a.base.exists_wrapTcpInIp hseg
  have hbytes := hfits.serialize_eq
  refine ⟨{ a with tun := a.tun.registerWrite },
    [Ipv4Datagram.bytes ⟨a.base.ipHeader seg, payload⟩], ?_, ?_⟩
  · rw [write, hwrap]
    change (Ipv4Datagram.serialize ⟨a.base.ipHeader seg, payload⟩ >>= _) = _
    rw [hbytes]
    rfl
  · exact Stems.write h ⟨_, ⟨hseg, a.base, hwrap⟩, hbytes⟩

theorem ends_read (a : TcpOverIpv4OverTunFdAdapter) (returned : Except UnixError (List UInt8)) :
    Ends KernelFault (fun r : Option TcpSegment × TcpOverIpv4OverTunFdAdapter × List (List UInt8) ↦
      r.2.2 = [] ∧ r.2.1.tun.readCount = a.tun.readCount + 1 ∧
        ∀ seg, r.1 = some seg → ∃ bytes ipDgram, returned = .ok bytes ∧
          Ipv4Datagram.parse {} bytes = (.noError, ipDgram) ∧
          (a.base.unwrapTcpInIp ipDgram).1 = some seg) (a.read returned) := by
  refine (a.tun.ends_read sizeMax returned).bind_pair ?_
  rintro bytes tun ⟨hreturned, -, eof, -, htun⟩
  dsimp only at hreturned htun
  subst htun
  refine Ends.of_ite (fun _ ↦ Ends.of_pure ⟨rfl, rfl, fun seg hseg ↦ by cases hseg⟩)
    fun hresult ↦ ?_
  refine Ends.of_pure ⟨rfl, rfl, fun seg hseg ↦ ⟨bytes, _, hreturned, ?_, hseg⟩⟩
  exact Prod.ext (not_not.mp hresult) rfl

instance : LawfulFdAdapter TcpOverIpv4OverTunFdAdapter where
  Holds _ := Holds
  Delivers returned packet := returned = .ok packet
  holds_append seg h := Stems.append h seg
  holds_setBase _ h := h
  exists_write h hseg := h.exists_write hseg _
  ends_read returned h := (ends_read _ returned).imp fun r hr ↦ by
    rw [hr.1, List.append_nil]
    exact ⟨h, hr.2.1⟩
  holds_tick ms h := by
    change Holds (_ ++ []) _
    rw [List.append_nil]
    exact h
  alike_of_read h hpacket hdelivers hread := by
    obtain ⟨-, -, hseg⟩ := (ends_read _ _).result hread
    obtain ⟨bytes, ipDgram, hreturned, hparse, hunwrap⟩ := hseg _ rfl
    obtain ⟨seg, hmem, sent, hcarries, hserialize⟩ := h _ hpacket
    obtain rfl := Except.ok.inj (hreturned.symm.trans hdelivers)
    obtain rfl := congrArg Prod.snd ((hcarries.parse_eq hserialize {}).symm.trans hparse)
    exact ⟨seg, hmem, hcarries.alike_of_unwrapTcpInIp hunwrap⟩

end TcpOverIpv4OverTunFdAdapter

namespace TcpOverUdpSocketAdapter

/-- Each packet is a segment. -/
def Holds (wire : List (SocketAddress × List UInt8)) (segs : List TcpSegment) : Prop :=
  Stems (fun packet seg ↦ seg.Fits ∧ ∃ cfg, (seg.withPorts cfg).serialize 0 = .ok packet.2) wire
    segs

variable {wire : List (SocketAddress × List UInt8)} {segs : List TcpSegment} {seg : TcpSegment}

theorem Holds.exists_write (h : Holds wire segs) (hseg : seg.Fits) (a : TcpOverUdpSocketAdapter) :
    ∃ a' written, a.write seg = .ok (a', written) ∧
      Holds (wire ++ written) (segs ++ [seg]) := by
  obtain ⟨payload, hpayload, -⟩ := (hseg.withPorts a.base.cfg).exists_serialize
    (show (0 : UInt32).toNat ≤ _ by decide)
  refine ⟨{ a with sock := a.sock.registerWrite }, [(a.base.cfg.destination, payload)], ?_, ?_⟩
  · rw [write, hpayload]
    rfl
  · exact Stems.write h ⟨hseg, a.base.cfg, hpayload⟩

theorem ends_read (a : TcpOverUdpSocketAdapter)
    (returned : Except UnixError (SocketAddress × List UInt8)) :
    Ends KernelFault (fun r : Option TcpSegment × TcpOverUdpSocketAdapter ×
        List (SocketAddress × List UInt8) ↦
      r.2.2 = [] ∧ r.2.1.sock.readCount = a.sock.readCount + 1 ∧
        ∀ seg, r.1 = some seg → ∃ datagram, returned = .ok datagram ∧
          TcpSegment.parse {} datagram.2 0 = (.noError, seg)) (a.read returned) := by
  have hrecv : Ends KernelFault (fun r : (SocketAddress × List UInt8) × FileDescriptor ↦
      returned = .ok r.1 ∧ r.2 = a.sock.registerRead) (recv a.sock returned) :=
    (ends_systemCall (by simp) returned).bind fun datagram hdatagram ↦
      Ends.of_ite (fun _ ↦ .oversized) fun _ ↦ Ends.of_pure ⟨hdatagram, rfl⟩
  refine hrecv.bind_pair ?_
  rintro ⟨sourceAddress, payload⟩ sock ⟨hreturned, hsock⟩
  dsimp only at hreturned hsock
  subst hsock
  have hnone : ∀ seg, (none : Option TcpSegment) = some seg → ∃ datagram,
      returned = .ok datagram ∧ TcpSegment.parse {} datagram.2 0 = (.noError, seg) :=
    fun seg hseg ↦ by cases hseg
  refine Ends.of_ite (fun _ ↦ Ends.of_pure ⟨rfl, rfl, hnone⟩) fun _ ↦ ?_
  refine Ends.of_ite (fun _ ↦ Ends.of_pure ⟨rfl, rfl, hnone⟩) fun hresult ↦ ?_
  have hsome : ∀ seg, some (TcpSegment.parse {} payload 0).2 = some seg → ∃ datagram,
      returned = .ok datagram ∧ TcpSegment.parse {} datagram.2 0 = (.noError, seg) :=
    fun seg hseg ↦ ⟨_, hreturned, Prod.ext (not_not.mp hresult) (Option.some.inj hseg)⟩
  refine Ends.of_ite (fun _ ↦ ?_) fun _ ↦ Ends.of_pure ⟨rfl, rfl, hsome⟩
  exact Ends.of_ite (fun _ ↦ Ends.of_pure ⟨rfl, rfl, hsome⟩) fun _ ↦
    Ends.of_pure ⟨rfl, rfl, hnone⟩

instance : LawfulFdAdapter TcpOverUdpSocketAdapter where
  Holds _ := Holds
  Delivers returned packet := ∃ sourceAddress, returned = .ok (sourceAddress, packet.2)
  holds_append seg h := Stems.append h seg
  holds_setBase _ h := h
  exists_write h hseg := h.exists_write hseg _
  ends_read returned h := (ends_read _ returned).imp fun r hr ↦ by
    rw [hr.1, List.append_nil]
    exact ⟨h, hr.2.1⟩
  holds_tick ms h := by
    change Holds (_ ++ []) _
    rw [List.append_nil]
    exact h
  alike_of_read h hpacket hdelivers hread := by
    obtain ⟨-, -, hseg⟩ := (ends_read _ _).result hread
    obtain ⟨datagram, hreturned, hparse⟩ := hseg _ rfl
    obtain ⟨sourceAddress, hdelivers⟩ := hdelivers
    obtain ⟨seg, hmem, hfits, cfg, hserialize⟩ := h _ hpacket
    obtain rfl := Except.ok.inj (hreturned.symm.trans hdelivers)
    obtain ⟨bytes, hbytes, -, hback⟩ := (hfits.withPorts cfg).exists_serialize
      (show (0 : UInt32).toNat ≤ _ by decide)
    obtain rfl := Except.ok.inj (hserialize.symm.trans hbytes)
    obtain rfl := congrArg Prod.snd ((hback {}).symm.trans hparse)
    exact ⟨seg, hmem, seg.alike_stamped cfg 0⟩

instance (returned : Except UnixError (SocketAddress × List UInt8))
    (packet : SocketAddress × List UInt8) :
    Decidable (LawfulFdAdapter.Delivers (α := TcpOverUdpSocketAdapter) returned packet) :=
  match returned with
  | .ok datagram => decidable_of_iff (datagram.2 = packet.2)
      ⟨fun h ↦ ⟨datagram.1, h ▸ rfl⟩, by
        rintro ⟨sourceAddress, h⟩
        rw [Except.ok.inj h]⟩
  | .error _ => .isFalse (by
      rintro ⟨sourceAddress, h⟩
      cases h)

end TcpOverUdpSocketAdapter

namespace LossyFdAdapter

variable {α ρ ω : Type} [FdAdapter α ρ ω]

@[simp] theorem adapter_shouldDrop (a : LossyFdAdapter α) (uplink : Bool) :
    (a.shouldDrop uplink).2.adapter = a.adapter := by
  rw [shouldDrop]
  split_ifs <;> rfl

/-- A read is one of the adapter inside, whose segment may be dropped. -/
theorem ends_read {E : Exception → Prop} {P : Option TcpSegment × α × List ω → Prop}
    (a : LossyFdAdapter α) {returned : ρ} (h : Ends E P (FdAdapter.read a.adapter returned)) :
    Ends E (fun r : Option TcpSegment × LossyFdAdapter α × List ω ↦
      ∃ ret, (r.1 = none ∨ r.1 = ret) ∧ P (ret, r.2.1.adapter, r.2.2)) (a.read returned) := by
  refine h.bind ?_
  rintro ⟨ret, adapter, written⟩ hP
  have hsame := adapter_shouldDrop { a with adapter } false
  generalize hdrop : shouldDrop { a with adapter } false = dropped at hsame
  have hP' : P (ret, dropped.2.adapter, written) := by
    rw [hsame]
    exact hP
  simp only [hdrop]
  exact Ends.of_ite (fun _ ↦ Ends.of_pure ⟨ret, Or.inl rfl, hP'⟩) fun _ ↦
    Ends.of_pure ⟨ret, Or.inr rfl, hP'⟩

variable [LawfulFdAdapter α]

instance : LawfulFdAdapter (LossyFdAdapter α) where
  Holds a := LawfulFdAdapter.Holds a.adapter
  Delivers := LawfulFdAdapter.Delivers α
  holds_append seg h := LawfulFdAdapter.holds_append seg h
  holds_setBase base h := LawfulFdAdapter.holds_setBase base h
  exists_write {a wire segs seg} h hseg := by
    change ∃ a' written, a.write seg = _ ∧ _
    rw [write]
    have hsame := a.adapter_shouldDrop true
    generalize a.shouldDrop true = dropped at hsame ⊢
    by_cases hdrop : dropped.1 = true
    · refine ⟨dropped.2, [], if_pos hdrop, ?_⟩
      rw [hsame, List.append_nil]
      exact LawfulFdAdapter.holds_append seg h
    · obtain ⟨adapter, written, hwrite, hholds⟩ := LawfulFdAdapter.exists_write h hseg
      refine ⟨{ dropped.2 with adapter }, written, (if_neg hdrop).trans ?_, hholds⟩
      rw [hsame, hwrite]
      rfl
  ends_read {a wire segs} returned h := by
    refine (a.ends_read (LawfulFdAdapter.ends_read returned h)).imp ?_
    rintro r ⟨ret, -, hholds, hcount⟩
    exact ⟨hholds, hcount⟩
  holds_tick ms h := LawfulFdAdapter.holds_tick ms h
  alike_of_read {a b b' wire written segs packet returned seg'} h hpacket hdelivers hread := by
    have hinner : Ends (fun _ ↦ True) (fun r ↦ FdAdapter.read b.adapter returned = .ok r)
        (FdAdapter.read b.adapter returned) := by
      cases FdAdapter.read b.adapter returned with
      | ok r => exact rfl
      | error e => exact trivial
    obtain ⟨ret, hret, heq⟩ := (b.ends_read hinner).result hread
    rcases hret with hnone | hsome
    · cases hnone
    · exact LawfulFdAdapter.alike_of_read h hpacket hdelivers (hsome ▸ heq)

end LossyFdAdapter

end Sponge
