import Sponge.Network.CleanEnd
import Sponge.Socket.Events

/-!
# Two sockets

Two sockets exchange the packets on their wires. A packet that was written stays
on its wire for good: it may be delivered at any time, any number of times or
never, and so may anything that the adapter does not take for a segment. What
happens to the two sockets then happens to their connections on the network of
segments, and the bytes that go into one pipe come out of the other.
-/

namespace Sponge

open Lib

namespace TcpReceiver

/-- The payload of a segment crosses the end of the ring only if it lies wholly in the window. -/
def StoresCleanly (r : TcpReceiver) (seg : TcpSegment) : Prop :=
  r.reassembler.StoresCleanly seg.payload (r.startPayload seg.header)

instance (r : TcpReceiver) (seg : TcpSegment) : Decidable (r.StoresCleanly seg) :=
  inferInstanceAs (Decidable (r.reassembler.StoresCleanly _ _))

/-- The segment is stored as it is and does not end the stream early. -/
def TakesRight (r : TcpReceiver) (seg : TcpSegment) : Prop := r.StoresCleanly seg ∧ r.EndsTimely seg

instance (r : TcpReceiver) (seg : TcpSegment) : Decidable (r.TakesRight seg) :=
  inferInstanceAs (Decidable (_ ∧ _))

theorem StoresCleanly.of_alike (r : TcpReceiver) (seg seg' : TcpSegment) (h : seg.Alike seg')
    (hclean : r.StoresCleanly seg) : r.StoresCleanly seg' := by
  obtain ⟨sport, dport, cksum, rfl⟩ := h
  exact hclean

theorem TakesRight.of_alike (r : TcpReceiver) (seg seg' : TcpSegment) (h : seg.Alike seg')
    (hright : r.TakesRight seg) : r.TakesRight seg' := by
  obtain ⟨sport, dport, cksum, rfl⟩ := h
  exact hright

end TcpReceiver

namespace Endpoint

/-- What one endpoint does while nothing happens at the other one. -/
theorem Guarded.permits {x y : Endpoint} {op : TcpConnection.Op}
    {Q : Endpoint → TcpSegment → Prop} (h : Guarded Q x op) (hQ : ∀ seg, Q x seg → seg ∈ y.sent) :
    x.Permits y op := by
  cases op with
  | write data => exact h
  | segmentReceived seg => exact hQ seg h
  | _ => trivial

end Endpoint

namespace Network

variable {n : Network} {clean : TcpReceiver → TcpSegment → Prop}

/-- The event is allowed, and a segment that `b` receives has the property. -/
def AllowedIf (clean : TcpReceiver → TcpSegment → Prop) (n : Network) (event : Event) : Prop :=
  n.Allowed event ∧ ∀ seg, event = .atB (.segmentReceived seg) → clean n.b.conn.receiver seg

theorem AllowedIf.cleanlyAllowed {event : Event}
    (h : n.AllowedIf TcpReceiver.StoresCleanly event) : n.CleanlyAllowed event := by
  refine ⟨h.1, ?_⟩
  cases event with
  | atA op => trivial
  | atB op =>
      cases op with
      | segmentReceived seg => exact h.2 seg rfl
      | _ => trivial

theorem along_atA {ops : List TcpConnection.Op}
    (hops : Along Endpoint.step (Endpoint.Guarded fun _ seg ↦ seg ∈ n.b.sent) n.a ops)
    (hvolume : (run Endpoint.step n.a ops).accepted.length + n.b.accepted.length < 2 ^ 30) :
    Along step (AllowedIf clean) n (ops.map .atA) ∧
      run step n (ops.map .atA) = { n with a := run Endpoint.step n.a ops } := by
  have hbounded := (along_and_le Endpoint.length_accepted_le_step hops).2
  have hstep : ∀ x op, step { n with a := x } (.atA op) = { n with a := x.step op } :=
    fun _ _ ↦ rfl
  refine along_map (fun x ↦ { n with a := x }) Event.atA hstep ?_ hbounded
  rintro x op ⟨hop, hle⟩
  refine ⟨⟨hop.permits fun _ hseg ↦ hseg, ?_⟩, fun seg heq ↦ by cases heq⟩
  change (x.step op).accepted.length + n.b.accepted.length < 2 ^ 30
  omega

theorem along_atB {ops : List TcpConnection.Op}
    (hops : Along Endpoint.step
      (Endpoint.Guarded fun x seg ↦ seg ∈ n.a.sent ∧ clean x.conn.receiver seg) n.b ops)
    (hvolume : n.a.accepted.length + (run Endpoint.step n.b ops).accepted.length < 2 ^ 30) :
    Along step (AllowedIf clean) n (ops.map .atB) ∧
      run step n (ops.map .atB) = { n with b := run Endpoint.step n.b ops } := by
  have hbounded := (along_and_le Endpoint.length_accepted_le_step hops).2
  have hstep : ∀ x op, step { n with b := x } (.atB op) = { n with b := x.step op } :=
    fun _ _ ↦ rfl
  refine along_map (fun x ↦ { n with b := x }) Event.atB hstep ?_ hbounded
  rintro x op ⟨hop, hle⟩
  refine ⟨⟨hop.permits fun _ hseg ↦ hseg.1, ?_⟩, fun seg heq ↦ ?_⟩
  · change n.a.accepted.length + (x.step op).accepted.length < 2 ^ 30
    omega
  · cases heq
    exact hop.2

end Network

/-- Two sockets, the wires of which are joined. -/
structure SocketPair (α ω : Type) where
  a : TcpSpongeSocket α ω
  b : TcpSpongeSocket α ω

namespace SocketPair

variable {α ρ ω : Type} [FdAdapter α ρ ω]

inductive Event (ρ : Type)
  | atA (event : TcpSpongeSocket.Event ρ)
  | atB (event : TcpSpongeSocket.Event ρ)

def apply (p : SocketPair α ω) : Event ρ → Except Exception (SocketPair α ω)
  | .atA event => do return { p with a := ← p.a.apply event }
  | .atB event => do return { p with b := ← p.b.apply event }

/-- The bytes that the owners have written into the pipes. -/
def volume (p : SocketPair α ω) : ℕ :=
  p.a.threadData.received.length + p.b.threadData.received.length

variable {p : SocketPair α ω} {n : Network} {clean : TcpReceiver → TcpSegment → Prop}

/-- A segment that arrives has the property. -/
def Arrives (clean : TcpReceiver → TcpSegment → Prop) (s : TcpSpongeSocket α ω) :
    TcpSpongeSocket.Event ρ → Prop
  | .datagramIn packet => ∀ seg ∈ s.segmentOf packet, clean s.tcp.receiver seg
  | _ => True

instance [∀ r seg, Decidable (clean r seg)] (s : TcpSpongeSocket α ω) :
    (event : TcpSpongeSocket.Event ρ) → Decidable (Arrives clean s event)
  | .datagramIn packet =>
    inferInstanceAs (Decidable (∀ seg ∈ s.segmentOf packet, clean s.tcp.receiver seg))
  | .connect | .pipeIn _ | .cancelPipeIn | .pipeOut _ | .datagramOut | .tick _ =>
    inferInstanceAs (Decidable True)

theorem Arrives.brings {s : TcpSpongeSocket α ω} {event : TcpSpongeSocket.Event ρ}
    {Q : TcpSegment → Prop} (h : Arrives clean s event) (hbrings : s.Brings Q event)
    (hclean : ∀ r seg seg', seg.Alike seg' → clean r seg → clean r seg') :
    s.Brings (fun seg ↦ Q seg ∧ clean s.tcp.receiver seg) event := by
  cases event with
  | datagramIn packet =>
      intro seg hseg
      obtain ⟨seg', hseg', halike⟩ := hbrings seg hseg
      exact ⟨seg', ⟨hseg', hclean _ _ _ halike (h seg hseg)⟩, halike⟩
  | _ => trivial

variable [LawfulFdAdapter α]

/-- A packet that arrives is from the wire of the peer, unless the adapter does not take it for a
segment. -/
def Authentic (s peer : TcpSpongeSocket α ω) : TcpSpongeSocket.Event ρ → Prop
  | .datagramIn packet => (∃ sent ∈ peer.wire, LawfulFdAdapter.Delivers (α := α) packet sent) ∨
      s.segmentOf packet = none
  | _ => True

def Allowed (clean : TcpReceiver → TcpSegment → Prop) (p : SocketPair α ω) : Event ρ → Prop
  | .atA event => p.a.Ready event ∧ Authentic p.a p.b event
  | .atB event => p.b.Ready event ∧ Authentic p.b p.a event ∧ Arrives clean p.b event

section decidable

variable [∀ (packet : ρ) (sent : ω), Decidable (LawfulFdAdapter.Delivers (α := α) packet sent)]

instance (s peer : TcpSpongeSocket α ω) :
    (event : TcpSpongeSocket.Event ρ) → Decidable (Authentic s peer event)
  | .datagramIn packet => inferInstanceAs (Decidable ((∃ sent ∈ peer.wire,
      LawfulFdAdapter.Delivers (α := α) packet sent) ∨ s.segmentOf packet = none))
  | .connect | .pipeIn _ | .cancelPipeIn | .pipeOut _ | .datagramOut | .tick _ =>
    inferInstanceAs (Decidable True)

instance [∀ r seg, Decidable (clean r seg)] (p : SocketPair α ω) :
    (event : Event ρ) → Decidable (p.Allowed clean event)
  | .atA event => inferInstanceAs (Decidable (p.a.Ready event ∧ Authentic p.a p.b event))
  | .atB event => inferInstanceAs
      (Decidable (p.b.Ready event ∧ Authentic p.b p.a event ∧ Arrives clean p.b event))

end decidable

/-- Something happens at one of the sockets. -/
def Moves (clean : TcpReceiver → TcpSegment → Prop) : SocketPair α ω → SocketPair α ω → Prop :=
  Lib.Moves (apply (ρ := ρ)) fun p event p' ↦ p.Allowed clean event ∧ p'.volume < 2 ^ 30

structure Represents (p : SocketPair α ω) (n : Network) : Prop where
  a : p.a.Represents n.a
  b : p.b.Represents n.b

/-- Such a packet brings a segment that the peer has sent. -/
theorem Authentic.brings {s peer : TcpSpongeSocket α ω} {event : TcpSpongeSocket.Event ρ}
    {y : Endpoint} (h : Authentic s peer event) (hpeer : peer.Represents y) :
    s.Brings (· ∈ y.sent) event := by
  cases event with
  | datagramIn packet =>
      intro seg hseg
      rcases h with ⟨sent, hmem, hdelivers⟩ | hnone
      · obtain ⟨adapter, written, hread⟩ := TcpSpongeSocket.segmentOf_eq_some_iff.mp hseg
        exact LawfulFdAdapter.alike_of_read hpeer.holds hmem hdelivers hread
      · rw [hnone] at hseg
        exact absurd hseg (Option.not_mem_none seg)
  | _ => trivial

/-- What happens at one of the sockets happens to its connection. -/
theorem Represents.ends_apply (h : p.Represents n) {event : Event ρ}
    (hevent : p.Allowed clean event)
    (hclean : ∀ r seg seg', seg.Alike seg' → clean r seg → clean r seg') :
    Ends KernelFault (fun p' ↦ p'.volume < 2 ^ 30 →
      ∃ events, Along Network.step (Network.AllowedIf clean) n events ∧
        p'.Represents (run Network.step n events)) (p.apply event) := by
  cases event with
  | atA event =>
      obtain ⟨hready, hauthentic⟩ := hevent
      refine (h.a.ends_apply (Q := fun _ seg ↦ seg ∈ n.b.sent) hready
        (hauthentic.brings h.b)).bind ?_
      rintro a ⟨ops, hops, hrep⟩
      refine Ends.of_pure fun hvolume ↦ ?_
      obtain ⟨halong, hrun⟩ := @Network.along_atA n clean ops hops
        (by rw [hrep.accepted, h.b.accepted]; exact hvolume)
      exact ⟨_, halong, hrun ▸ ⟨hrep, h.b⟩⟩
  | atB event =>
      obtain ⟨hready, hauthentic, harrives⟩ := hevent
      have hbrings := harrives.brings (hauthentic.brings h.a) hclean
      rw [← h.b.conn] at hbrings
      refine (h.b.ends_apply (Q := fun x seg ↦ seg ∈ n.a.sent ∧ clean x.conn.receiver seg) hready
        hbrings).bind ?_
      rintro b ⟨ops, hops, hrep⟩
      refine Ends.of_pure fun hvolume ↦ ?_
      obtain ⟨halong, hrun⟩ := Network.along_atB hops
        (by rw [h.a.accepted, hrep.accepted]; exact hvolume)
      exact ⟨_, halong, hrun ▸ ⟨h.a, hrep⟩⟩

/-- Whatever happens to two sockets is a run of the network of segments. -/
theorem Represents.history {p₀ : SocketPair α ω} {n₀ : Network} (h₀ : p₀.Represents n₀)
    (hclean : ∀ r seg seg', seg.Alike seg' → clean r seg → clean r seg')
    (h : Relation.ReflTransGen (Moves clean) p₀ p) :
    ∃ events, Along Network.step (Network.AllowedIf clean) n₀ events ∧
      p.Represents (run Network.step n₀ events) := by
  induction h with
  | refl => exact ⟨[], trivial, h₀⟩
  | tail _ hmove ih =>
      obtain ⟨events, hevents, hrep⟩ := ih
      obtain ⟨event, ⟨hevent, hvolume⟩, happly⟩ := hmove
      obtain ⟨more, hmore, hrep'⟩ := (hrep.ends_apply hevent hclean).result happly hvolume
      refine ⟨events ++ more, along_append.mpr ⟨hevents, hmore⟩, ?_⟩
      rwa [run_append]

theorem Moves.imp {clean' : TcpReceiver → TcpSegment → Prop}
    (h : ∀ r seg, clean r seg → clean' r seg) {p p' : SocketPair α ω} (hmove : Moves clean p p') :
    Moves clean' p p' := by
  obtain ⟨event, ⟨hevent, hvolume⟩, happly⟩ := hmove
  refine ⟨event, ⟨?_, hvolume⟩, happly⟩
  cases event with
  | atA event => exact hevent
  | atB event =>
      refine ⟨hevent.1, hevent.2.1, ?_⟩
      cases event with
      | datagramIn packet => exact fun seg hseg ↦ h _ seg (hevent.2.2 seg hseg)
      | _ => trivial

/-- Two sockets that were just opened. -/
def opened (A B : TcpSpongeSocket.Opening α ω) : SocketPair α ω := ⟨A.socket, B.socket⟩

theorem represents_opened (A B : TcpSpongeSocket.Opening α ω) :
    (opened A B).Represents (Network.new A.cTcp B.cTcp A.random B.random) :=
  ⟨A.represents, B.represents⟩

section exchange

/-- A socket that connects to port 2. -/
def client : TcpSpongeSocket.Opening TcpOverUdpSocketAdapter (SocketAddress × List UInt8) :=
  .udp true 10 { source := ⟨⟨1⟩, 1⟩, destination := ⟨⟨2⟩, 2⟩ }

/-- A socket that listens at port 2. -/
def server : TcpSpongeSocket.Opening TcpOverUdpSocketAdapter (SocketAddress × List UInt8) :=
  .udp false 20 { source := ⟨⟨2⟩, 2⟩ }

variable (i : ℕ) (p : SocketPair TcpOverUdpSocketAdapter (SocketAddress × List UInt8))

/-- The packet with this number arrives at the client. -/
def toClient : Event (Except UnixError (SocketAddress × List UInt8)) :=
  .atA (.datagramIn (.ok (⟨⟨2⟩, 2⟩, (p.b.wire.getD i (⟨⟨0⟩, 0⟩, [])).2)))

def toServer : Event (Except UnixError (SocketAddress × List UInt8)) :=
  .atB (.datagramIn (.ok (⟨⟨1⟩, 1⟩, (p.a.wire.getD i (⟨⟨0⟩, 0⟩, [])).2)))

/-- After the handshake one byte and the end of the pipe are sent, acknowledged and read. -/
theorem exists_exchange (clean : TcpReceiver → TcpSegment → Prop)
    (hclean : ∀ r seg, r.TakesRight seg → clean r seg) :
    ∃ p, Relation.ReflTransGen (Moves clean) (opened client server) p ∧ p.a.fullyAcked = true ∧
      p.b.inboundShutdown = true ∧ p.a.threadData.received = [97] := by
  have h : (replay (apply (ρ := Except UnixError (SocketAddress × List UInt8)))
      (fun p event p' ↦ p.Allowed TcpReceiver.TakesRight event ∧ p'.volume < 2 ^ 30)
      [fun _ ↦ .atA .connect, fun _ ↦ .atA .datagramOut, toServer 0, fun _ ↦ .atB .datagramOut,
        toClient 0, fun _ ↦ .atA (.pipeIn { read := .ok [97] }),
        fun _ ↦ .atA (.pipeIn { read := .ok [] }), fun _ ↦ .atA .datagramOut, toServer 2,
        toServer 3, fun _ ↦ .atB .datagramOut, toClient 2,
        fun _ ↦ .atB (.pipeOut { write := fun _ ↦ .ok 1 })]
      (opened client server)).any fun p ↦
        p.a.fullyAcked && (p.b.inboundShutdown && p.a.threadData.received == [97]) := by
    decide +kernel
  obtain ⟨p, hp, hcheck⟩ := (Option.any_eq_true _ _).mp h
  rw [Bool.and_eq_true, Bool.and_eq_true, beq_iff_eq] at hcheck
  exact ⟨p, (reflTransGen_of_replay hp).lift id fun _ _ ↦ Moves.imp hclean, hcheck⟩

end exchange

/-- Two sockets over a network of packets are two connections over a network of segments. An
exception at one of them is a fault of the kernel. -/
theorem refines_network (A B : TcpSpongeSocket.Opening α ω)
    (h : Relation.ReflTransGen (Moves fun _ _ ↦ True) (opened A B) p) :
    (∀ event e, p.Allowed (fun _ _ ↦ True) event → p.apply event = .error e → KernelFault e) ∧
    ∃ events, Along Network.step Network.Allowed (Network.new A.cTcp B.cTcp A.random B.random)
      events ∧
      let n := run Network.step (Network.new A.cTcp B.cTcp A.random B.random) events
      (p.a.tcp = n.a.conn ∧ p.a.threadData.received = n.a.accepted ∧
        p.a.threadData.written = n.a.taken) ∧
      (p.b.tcp = n.b.conn ∧ p.b.threadData.received = n.b.accepted ∧
        p.b.threadData.written = n.b.taken) := by
  obtain ⟨events, hevents, hrep⟩ := (represents_opened A B).history (fun _ _ _ _ h ↦ h) h
  refine ⟨fun event e hevent he ↦ ?_, events, hevents.imp fun _ _ hok ↦ hok.1, ?_⟩
  · exact (hrep.ends_apply hevent fun _ _ _ _ h ↦ h).exception he
  · exact ⟨⟨hrep.a.conn.symm, hrep.a.accepted.symm, hrep.a.taken.symm⟩,
      ⟨hrep.b.conn.symm, hrep.b.accepted.symm, hrep.b.taken.symm⟩⟩

theorem refines_network_exchange : ∃ p, Relation.ReflTransGen (Moves fun _ _ ↦ True)
    (opened client server) p ∧ ∃ events, Along Network.step Network.Allowed
      (Network.new client.cTcp server.cTcp 0 0) events ∧
      (run Network.step (Network.new client.cTcp server.cTcp 0 0) events).a.accepted = [97] := by
  obtain ⟨p, hp, -, -, hreceived⟩ := exists_exchange (fun _ _ ↦ True) fun _ _ _ ↦ trivial
  obtain ⟨events, hevents, ⟨-, haccepted, -⟩, -⟩ := (refines_network client server hp).2
  exact ⟨p, hp, events, hevents, haccepted.symm.trans hreceived⟩

end SocketPair

end Sponge
