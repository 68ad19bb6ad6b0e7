import Sponge.Adapter.Lawful

/-!
# Whose segments an adapter returns

A packet on a TUN device is returned as a segment by the adapter whose addresses
mirror those of the one that wrote it, and by a listening adapter with the right
port if it opens a connection; all others drop it. A listening adapter binds to
the source of the first segment that it returns, and returns only segments of
this peer from then on.
-/

namespace Sponge

open Lib

namespace FdAdapterBase

variable {a : FdAdapterBase} {ipDgram : Ipv4Datagram} {seg : TcpSegment}

/-- The segment that a datagram holds, if it is intact. -/
def segmentIn (ipDgram : Ipv4Datagram) : Option TcpSegment :=
  let (result, seg) := TcpSegment.parse {} ipDgram.payload ipDgram.header.pseudoCksum
  if ipDgram.header.proto = Ipv4Header.protoTcp ∧ result = .noError then some seg else none

theorem segmentIn_eq_some_iff : segmentIn ipDgram = some seg ↔
    ipDgram.header.proto = Ipv4Header.protoTcp ∧
      TcpSegment.parse {} ipDgram.payload ipDgram.header.pseudoCksum = (.noError, seg) := by
  simp only [segmentIn, Option.ite_none_right_eq_some, Option.some.injEq, Prod.ext_iff]
  exact and_assoc

/-- The two ends of a segment: where it goes and where it comes from. -/
def ends (p : Ipv4Datagram × TcpSegment) : SocketAddress × SocketAddress :=
  (⟨⟨p.1.header.dst⟩, p.2.header.dport⟩, ⟨⟨p.1.header.src⟩, p.2.header.sport⟩)

/-- The intact segment in a datagram, if it is between these ends. -/
def segmentBetween (between : SocketAddress × SocketAddress) (ipDgram : Ipv4Datagram) :
    Option (Ipv4Datagram × TcpSegment) :=
  ((segmentIn ipDgram).map (ipDgram, ·)).filter fun p ↦ ends p = between

/-- The datagram holds an intact segment that opens a connection at the port of the adapter. -/
structure Opens (a : FdAdapterBase) (ipDgram : Ipv4Datagram) (seg : TcpSegment) : Prop where
  intact : segmentIn ipDgram = some seg
  dport : seg.header.dport = a.cfg.source.port
  syn : seg.header.syn = true
  not_rst : seg.header.rst = false

theorem accepts_iff_opens (hlisten : a.listen = true) :
    a.Accepts ipDgram seg ↔ a.Opens ipDgram seg := by
  constructor
  · intro h
    obtain ⟨hsyn, hrst⟩ := h.listening hlisten
    exact ⟨segmentIn_eq_some_iff.mpr ⟨h.proto, h.parse⟩, h.dport, hsyn, hrst⟩
  · intro h
    obtain ⟨hproto, hparse⟩ := segmentIn_eq_some_iff.mp h.intact
    refine ⟨hproto, hparse, h.dport, fun _ ↦ ⟨h.syn, h.not_rst⟩, fun hconnected ↦ ?_⟩
    rw [hlisten] at hconnected
    cases hconnected

theorem accepts_iff_ends (hconnected : a.listen = false) : a.Accepts ipDgram seg ↔
    segmentIn ipDgram = some seg ∧ ends (ipDgram, seg) = (a.cfg.source, a.cfg.destination) := by
  rw [segmentIn_eq_some_iff]
  constructor
  · intro h
    obtain ⟨hdst, hsrc, hsport⟩ := h.connected hconnected
    refine ⟨⟨h.proto, h.parse⟩, ?_⟩
    rw [ends, hdst, hsrc, hsport, h.dport]
  · rintro ⟨⟨hproto, hparse⟩, hends⟩
    simp only [ends, Prod.mk.injEq] at hends
    obtain ⟨hsource, hdestination⟩ := hends
    refine ⟨hproto, hparse, ?_, fun hlisten ↦ ?_, fun _ ↦ ?_⟩
    · rw [← hsource]
    · rw [hconnected] at hlisten
      cases hlisten
    · rw [← hsource, ← hdestination]
      exact ⟨rfl, rfl, rfl⟩

/-- An adapter that no longer listens returns what is a segment between its two ends, and stays as
it is. -/
theorem unwrapTcpInIp_of_connected (hconnected : a.listen = false) (ipDgram : Ipv4Datagram) :
    (a.unwrapTcpInIp ipDgram).1.map (ipDgram, ·) =
        segmentBetween (a.cfg.source, a.cfg.destination) ipDgram ∧
      (a.unwrapTcpInIp ipDgram).2 = a := by
  rcases a.unwrapTcpInIp_eq ipDgram with ⟨seg, haccepts, heq⟩ | ⟨hnone, heq⟩
  · obtain ⟨hintact, hends⟩ := (accepts_iff_ends hconnected).mp haccepts
    rw [heq]
    constructor
    · rw [segmentBetween, hintact]
      symm
      exact if_pos (decide_eq_true hends)
    · simp only [ends, Prod.mk.injEq] at hends
      rw [boundTo, hends.1, hends.2, ← hconnected]
  · rw [heq]
    refine ⟨?_, rfl⟩
    symm
    rw [Option.map_none, segmentBetween, Option.filter_eq_none_iff]
    intro p hp hends
    obtain ⟨seg, hintact, rfl⟩ := Option.map_eq_some_iff.mp hp
    exact hnone seg ((accepts_iff_ends hconnected).mpr ⟨hintact, of_decide_eq_true hends⟩)

/-- Datagrams arrive one after the other: those that hold a segment for this adapter, each with
its segment, and the adapter after all of them. -/
def unwrapAll (a : FdAdapterBase) :
    List Ipv4Datagram → List (Ipv4Datagram × TcpSegment) × FdAdapterBase
  | [] => ([], a)
  | ipDgram :: rest =>
    let (seg, a) := a.unwrapTcpInIp ipDgram
    let (returned, a) := a.unwrapAll rest
    (seg.toList.map (ipDgram, ·) ++ returned, a)

theorem unwrapAll_of_connected (hconnected : a.listen = false) (ipDgrams : List Ipv4Datagram) :
    a.unwrapAll ipDgrams =
      (ipDgrams.filterMap (segmentBetween (a.cfg.source, a.cfg.destination)), a) := by
  induction ipDgrams with
  | nil => rfl
  | cons ipDgram rest ih =>
      obtain ⟨hreturned, hsame⟩ := unwrapTcpInIp_of_connected hconnected ipDgram
      simp only [unwrapAll, hsame, ih, List.filterMap_cons, ← hreturned]
      cases (a.unwrapTcpInIp ipDgram).1 <;> rfl

/-- Whatever arrives, a listening adapter stays as it is until a segment with SYN and without RST
arrives for its port. It returns that segment and is bound to its two ends, and from then on it
returns exactly the intact segments between these ends. -/
theorem serves_first_peer (a : FdAdapterBase) (hlisten : a.listen = true)
    (ipDgrams : List Ipv4Datagram) :
    (a.unwrapAll ipDgrams = ([], a) ∧ ∀ ipDgram ∈ ipDgrams, ∀ seg, ¬a.Opens ipDgram seg) ∨
      ∃ before ipDgram after seg, ipDgrams = before ++ ipDgram :: after ∧
        (∀ ipDgram ∈ before, ∀ seg, ¬a.Opens ipDgram seg) ∧ a.Opens ipDgram seg ∧
        a.unwrapAll ipDgrams =
          ((ipDgram, seg) :: after.filterMap (segmentBetween (ends (ipDgram, seg))),
            a.boundTo ipDgram seg) := by
  induction ipDgrams with
  | nil => exact Or.inl ⟨rfl, fun ipDgram hmem ↦ absurd hmem List.not_mem_nil⟩
  | cons ipDgram rest ih =>
      rcases a.unwrapTcpInIp_eq ipDgram with ⟨seg, haccepts, heq⟩ | ⟨hnone, heq⟩
      · -- the adapter is bound to the ends of this segment
        refine Or.inr ⟨[], ipDgram, rest, seg, rfl, fun ipDgram hmem ↦
          absurd hmem List.not_mem_nil, (accepts_iff_opens hlisten).mp haccepts, ?_⟩
        have hrest := unwrapAll_of_connected (a := a.boundTo ipDgram seg) rfl rest
        simp only [unwrapAll, heq, hrest]
        rfl
      · have hnot : ∀ seg, ¬a.Opens ipDgram seg := fun seg hopens ↦
          hnone seg ((accepts_iff_opens hlisten).mpr hopens)
        simp only [unwrapAll, heq, Option.toList_none, List.map_nil, List.nil_append]
        rcases ih with ⟨hsame, hall⟩ | ⟨before, first, after, seg, rfl, hbefore, hopens, hresult⟩
        · exact Or.inl ⟨hsame, List.forall_mem_cons.mpr ⟨hnot, hall⟩⟩
        · exact Or.inr ⟨ipDgram :: before, first, after, seg, rfl,
            List.forall_mem_cons.mpr ⟨hnot, hbefore⟩, hopens, hresult⟩

/-- At a listener on port 9 a byte arrives before the SYN, then the SYN of one host, that of
another one, and the byte again. -/
def hail : List Ipv4Datagram :=
  let fromFirst : Ipv4Header := { src := 0x0a000001, dst := 0x0a000002, len := 40 }
  let byte : Ipv4Datagram :=
    { header := { fromFirst with len := 41 }
      payload := [3, 232, 0, 9, 0, 0, 0, 6, 0, 0, 0, 0, 80, 0, 0, 0, 54, 234, 0, 0, 97] }
  [byte,
    { header := fromFirst
      payload := [3, 232, 0, 9, 0, 0, 0, 5, 0, 0, 0, 0, 80, 2, 0, 0, 151, 234, 0, 0] },
    { header := { fromFirst with src := 0x0a000003 }
      payload := [3, 232, 0, 9, 0, 0, 0, 7, 0, 0, 0, 0, 80, 2, 0, 0, 151, 230, 0, 0] },
    byte]

/-- The listener takes the first SYN, is bound to its ends and then takes the byte. -/
theorem serves_first_peer_hail :
    let a : FdAdapterBase := { cfg := { source := ⟨⟨0⟩, 9⟩ }, listen := true }
    ((a.unwrapAll hail).1.map fun p ↦ (p.2.header.seqno, p.2.header.syn, p.2.payload)) =
        [(⟨5⟩, true, []), (⟨6⟩, false, [97])] ∧
      (a.unwrapAll hail).2 = { cfg := { source := ⟨⟨0x0a000002⟩, 9⟩,
                                        destination := ⟨⟨0x0a000001⟩, 1000⟩ } } ∧
      ∃ before ipDgram after seg, hail = before ++ ipDgram :: after ∧
        (∀ ipDgram ∈ before, ∀ seg, ¬a.Opens ipDgram seg) ∧ a.Opens ipDgram seg ∧
        a.unwrapAll hail =
          ((ipDgram, seg) :: after.filterMap (segmentBetween (ends (ipDgram, seg))),
            a.boundTo ipDgram seg) := by
  intro a
  have hresult : ((a.unwrapAll hail).1.map fun p ↦
      (p.2.header.seqno, p.2.header.syn, p.2.payload)) =
        [(⟨5⟩, true, []), (⟨6⟩, false, [97])] := by decide +kernel
  refine ⟨hresult, by decide +kernel, (serves_first_peer a rfl hail).resolve_left fun h ↦ ?_⟩
  rw [h.1] at hresult
  cases hresult

/-- The adapter `b` is at the other end of a segment that `a` writes. -/
def Hears (b a : FdAdapterBase) (seg : TcpSegment) : Prop :=
  (b.listen = true → b.cfg.source.port = a.cfg.destination.port ∧ seg.header.syn = true ∧
    seg.header.rst = false) ∧
  (b.listen = false → b.cfg.source = a.cfg.destination ∧ b.cfg.destination = a.cfg.source)

instance (b a : FdAdapterBase) (seg : TcpSegment) : Decidable (b.Hears a seg) :=
  inferInstanceAs (Decidable ((_ → _) ∧ (_ → _)))

/-- The adapter at the other end of `a`. -/
def mirror (b a : FdAdapterBase) : FdAdapterBase where
  cfg := { b.cfg with source := a.cfg.destination, destination := a.cfg.source }
  listen := false

theorem accepts_wrapped_iff {b : FdAdapterBase} {payload : List UInt8} {p : UInt32}
    (hparse : TcpSegment.parse {} payload (a.ipHeader seg).pseudoCksum =
      (.noError, (seg.withPorts a.cfg).stamped p)) :
    b.Accepts (Ipv4Datagram.stamped ⟨a.ipHeader seg, payload⟩) ((seg.withPorts a.cfg).stamped p) ↔
      b.Hears a seg := by
  constructor
  · intro h
    refine ⟨fun hlisten ↦ ⟨h.dport.symm, h.listening hlisten⟩, fun hconnected ↦ ?_⟩
    obtain ⟨hdst, hsrc, hsport⟩ := h.connected hconnected
    exact ⟨SocketAddress.ext hdst.symm h.dport.symm, SocketAddress.ext hsrc.symm hsport.symm⟩
  · rintro ⟨hlistening, hconnected⟩
    refine ⟨rfl, ?_, ?_, fun hlisten ↦ (hlistening hlisten).2, fun hlisten ↦ ?_⟩
    · rw [Ipv4Datagram.pseudoCksum_stamped]
      exact hparse
    · cases hlisten : b.listen with
      | true => exact (hlistening hlisten).1.symm
      | false => exact congrArg SocketAddress.port (hconnected hlisten).1.symm
    · rw [(hconnected hlisten).1, (hconnected hlisten).2]
      exact ⟨rfl, rfl, rfl⟩

/-- What is unwrapped of a datagram that `a` wraps. -/
theorem unwrapTcpInIp_wrapped (b : FdAdapterBase) {payload : List UInt8} {p : UInt32}
    (hparse : TcpSegment.parse {} payload (a.ipHeader seg).pseudoCksum =
      (.noError, (seg.withPorts a.cfg).stamped p)) :
    b.unwrapTcpInIp (Ipv4Datagram.stamped ⟨a.ipHeader seg, payload⟩) =
      if b.Hears a seg then (some ((seg.withPorts a.cfg).stamped p), b.mirror a)
      else (none, b) := by
  rcases b.unwrapTcpInIp_eq (Ipv4Datagram.stamped ⟨a.ipHeader seg, payload⟩) with
    ⟨seg', haccepts, heq⟩ | ⟨hnone, heq⟩
  · have hread := haccepts.parse
    rw [Ipv4Datagram.pseudoCksum_stamped] at hread
    obtain rfl := congrArg Prod.snd (hparse.symm.trans hread)
    rw [heq, if_pos ((accepts_wrapped_iff hparse).mp haccepts)]
    rfl
  · rw [heq, if_neg fun h ↦ hnone _ ((accepts_wrapped_iff hparse).mpr h)]

end FdAdapterBase

/-- A short packet is read whole. -/
theorem FileDescriptor.read_of_length_le (fd : FileDescriptor) {packet : List UInt8}
    (hpos : packet ≠ []) (hle : packet.length ≤ 65535) :
    fd.read sizeMax (.ok packet) = .ok (packet, fd.registerRead) := by
  have hempty : ¬(sizeMax > 0 ∧ packet.length = 0) := fun h ↦
    hpos (List.length_eq_zero_iff.mp h.2)
  have hmore : ¬packet.length > min readSize sizeMax := by
    have hsize : min readSize sizeMax = 1048576 := by decide
    omega
  simp only [read, systemCall, Except.mapError]
  change (if packet.length > min readSize sizeMax then _ else _) = _
  rw [if_neg hmore, if_neg hempty]
  rfl

namespace TcpOverIpv4OverTunFdAdapter

/-- What one adapter writes to its TUN device is read by any other as the same segment, up to the
ports and the checksum that the first one filled in, if it is at the other end or opens a
connection at a listening port. The reader is then bound to the addresses of the writer. All other
adapters drop the packet and stay as they are. -/
theorem packet_reaches_its_peer (a b : TcpOverIpv4OverTunFdAdapter) {seg : TcpSegment}
    (h : seg.Fits) :
    ∃ packet a' seg', a.write seg = .ok (a', [packet]) ∧ a'.base = a.base ∧ seg'.Alike seg ∧
      b.read (.ok packet) = .ok (if b.base.Hears a.base seg then
        (some seg', { base := b.base.mirror a.base, tun := b.tun.registerRead }, [])
        else (none, { b with tun := b.tun.registerRead }, [])) := by
  obtain ⟨payload, hwrap, hfits, hparse⟩ := a.base.exists_wrapTcpInIp h
  have hlength := hfits.length_bytes
  have hlen := hfits.len
  have hlt := (a.base.ipHeader seg).len.toNat_lt
  have hmin := hfits.hlen_ge
  dsimp only at hlength hlen hmin
  refine ⟨Ipv4Datagram.bytes ⟨a.base.ipHeader seg, payload⟩, { a with tun := a.tun.registerWrite },
    (seg.withPorts a.base.cfg).stamped (a.base.ipHeader seg).pseudoCksum, ?_, rfl,
    seg.alike_stamped a.base.cfg _, ?_⟩
  · rw [write, hwrap]
    change (Ipv4Datagram.serialize ⟨a.base.ipHeader seg, payload⟩ >>= _) = _
    rw [hfits.serialize_eq]
    rfl
  · have hpos : Ipv4Datagram.bytes ⟨a.base.ipHeader seg, payload⟩ ≠ [] := by
      intro hnil
      rw [hnil, List.length_nil] at hlength
      omega
    rw [read, b.tun.read_of_length_le hpos (by omega)]
    have hunwrap := FdAdapterBase.unwrapTcpInIp_wrapped b.base (hparse {})
    simp only [bind, Except.bind, hfits.parse_bytes, ne_eq, not_true_eq_false, if_false, hunwrap]
    split_ifs <;> rfl

/-- A SYN without ports and addresses at an adapter that listens. -/
theorem packet_reaches_its_peer_syn : ∃ packet a' seg',
    write {} { header := { syn := true } } = .ok (a', [packet]) ∧ a'.base = {} ∧
      seg'.Alike { header := { syn := true } } ∧
      read { base := { listen := true } } (.ok packet) =
        .ok (some seg', { tun := FileDescriptor.registerRead {} }, []) := by
  obtain ⟨packet, a', seg', hwrite, hbase, halike, hread⟩ := packet_reaches_its_peer {}
    { base := { listen := true } } (show TcpSegment.Fits { header := { syn := true } } from
      ⟨by decide, by decide, by decide⟩)
  exact ⟨packet, a', seg', hwrite, hbase, halike, hread.trans (congrArg _ (if_pos (by decide)))⟩

end TcpOverIpv4OverTunFdAdapter

end Sponge
