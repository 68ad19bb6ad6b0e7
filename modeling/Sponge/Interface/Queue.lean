import Sponge.Lib.Runs
import Sponge.Interface.Model

/-!
# Datagrams that wait for an address

A datagram handed to an interface is either sent at once or waits in the queue
of its next hop, and a queue is emptied, in order, by the first ARP message of
that next hop. So what was sent for a next hop, followed by what waits for it,
is what was handed over for it.
-/

namespace Sponge

open Lib

/-- The frame carries the bytes of the datagram. -/
def Ipv4Datagram.SentIn (dgram : Ipv4Datagram) (frame : EthernetFrame) : Prop :=
  frame.header.type = EthernetHeader.typeIpv4 ∧ dgram.serialize = .ok frame.payload

namespace NetworkInterface

inductive Op where
  | sendDatagram (dgram : Ipv4Datagram) (nextHop : Address)
  | recvFrame (frame : EthernetFrame)
  | tick (ms : ℕ)
  /-- The owner takes the first frame. -/
  | takeFrame

def Op.Allowed : Op → Prop
  | .sendDatagram dgram _ => dgram.Serializable
  | _ => True

instance : (op : Op) → Decidable op.Allowed
  | .sendDatagram dgram _ => inferInstanceAs (Decidable dgram.Serializable)
  | .recvFrame _ | .tick _ | .takeFrame => .isTrue trivial

def apply (n : NetworkInterface) : Op → Except Exception NetworkInterface
  | .sendDatagram dgram nextHop => n.sendDatagram dgram nextHop
  | .recvFrame frame => do return (← n.recvFrame frame).2
  | .tick ms => return n.tick ms
  | .takeFrame => return { n with framesOut := n.framesOut.tail }

/-- The next hop that an operation sends datagrams to: the one it is given, or
the sender of the ARP message it receives. -/
def Op.nextHop : Op → Option UInt32
  | .sendDatagram _ nextHop => some nextHop.ipv4Numeric
  | .recvFrame frame => some (ArpMessage.parse {} frame.payload).2.senderIpAddress
  | .tick _ | .takeFrame => none

/-- The datagram that an operation hands over, with its next hop. -/
def Op.handed : Op → List (UInt32 × Ipv4Datagram)
  | .sendDatagram dgram nextHop => [(nextHop.ipv4Numeric, dgram)]
  | .recvFrame _ | .tick _ | .takeFrame => []

/-- The datagrams of a list that are for the next hop `x`. -/
def datagramsFor (x : UInt32) (handed : List (UInt32 × Ipv4Datagram)) : List Ipv4Datagram :=
  (handed.filter (·.1 = x)).map (·.2)

/-- The IPv4 frames that `n'` has pushed since `n`. -/
def pushed (n n' : NetworkInterface) : List EthernetFrame :=
  (n'.framesOut.drop n.framesOut.length).filter (·.header.type = EthernetHeader.typeIpv4)

/-- A datagram waits only for a next hop whose address was asked for and is
unknown. -/
structure Resolving (n : NetworkInterface) : Prop where
  unknown : ∀ {x}, n.ip2dgrams x ≠ [] → n.ip2eth x = none
  asked : ∀ {x}, n.ip2dgrams x ≠ [] → (n.timestampsArp x).isSome
  serializable : ∀ {x}, ∀ dgram ∈ n.ip2dgrams x, dgram.Serializable

/-- What an operation does to the datagrams: `sent` leave for its next hop, and for
every next hop the order is kept. -/
structure Applied (n : NetworkInterface) (op : Op) (n' : NetworkInterface)
    (sent : List Ipv4Datagram) : Prop where
  resolving : n'.Resolving
  pushed : List.Forall₂ Ipv4Datagram.SentIn sent (n.pushed n')
  queue : ∀ x, n.ip2dgrams x ++ datagramsFor x op.handed =
    (if op.nextHop = some x then sent else []) ++ n'.ip2dgrams x
  nextHop : op.nextHop = none → sent = []

section

variable {n n' : NetworkInterface} {x ip : UInt32} {eth : EthernetAddress}
  {dgram : Ipv4Datagram}

theorem pushed_append (frames : List EthernetFrame)
    (h : n'.framesOut = n.framesOut ++ frames) :
    n.pushed n' = frames.filter (·.header.type = EthernetHeader.typeIpv4) := by
  rw [pushed, h, List.drop_left]

theorem pushed_of_framesOut_eq (h : n'.framesOut = n.framesOut) : n.pushed n' = [] :=
  pushed_append [] (by rw [h, List.append_nil])

theorem filter_eq_self_of_sentIn {sent : List Ipv4Datagram} {frames : List EthernetFrame}
    (h : List.Forall₂ Ipv4Datagram.SentIn sent frames) :
    frames.filter (·.header.type = EthernetHeader.typeIpv4) = frames := by
  induction h with
  | nil => rfl
  | cons hframe _ ih => rw [List.filter_cons_of_pos (by simp [hframe.1]), ih]

theorem exists_sendArp (n : NetworkInterface) {opcode : UInt16} (ip : UInt32)
    (eth : EthernetAddress)
    (h : opcode = ArpMessage.opcodeRequest ∨ opcode = ArpMessage.opcodeReply) :
    ∃ frame, n.sendArp opcode ip eth = .ok (n.pushFrame frame) ∧
      frame.header.type = EthernetHeader.typeArp :=
  ⟨n.arpFrame opcode ip eth, n.sendArp_eq ip eth h, rfl⟩

theorem pushed_pushFrame_of_arp {frame : EthernetFrame}
    (htype : frame.header.type = EthernetHeader.typeArp)
    (h : n'.framesOut = n.framesOut) : n.pushed (n'.pushFrame frame) = [] := by
  rw [pushed_append [frame] (by rw [pushFrame, h])]
  exact List.filter_cons_of_neg (by rw [htype]; decide)

namespace Resolving

theorem queue_eq_nil_of_known (h : n.Resolving) (hx : n.ip2eth x ≠ none) :
    n.ip2dgrams x = [] :=
  not_not.mp fun hne ↦ hx (h.unknown hne)

theorem queue_eq_nil_of_not_asked (h : n.Resolving) (hx : ¬(n.timestampsArp x).isSome) :
    n.ip2dgrams x = [] :=
  not_not.mp fun hne ↦ hx (h.asked hne)

/-- Only the three maps matter. -/
theorem congr (h : n.Resolving) (heth : n'.ip2eth = n.ip2eth)
    (hdgrams : n'.ip2dgrams = n.ip2dgrams) (harp : n'.timestampsArp = n.timestampsArp) :
    n'.Resolving where
  unknown hx := by
    rw [heth]
    exact h.unknown (hdgrams ▸ hx)
  asked hx := by
    rw [harp]
    exact h.asked (hdgrams ▸ hx)
  serializable := by
    rw [hdgrams]
    exact h.serializable

/-- The maps may change at one next hop, as long as the invariant holds there. -/
theorem of_forall_ne (h : n.Resolving) (ip : UInt32)
    (hne : ∀ y ≠ ip, n'.ip2eth y = n.ip2eth y ∧ n'.ip2dgrams y = n.ip2dgrams y ∧
      n'.timestampsArp y = n.timestampsArp y)
    (hself : n'.ip2dgrams ip ≠ [] → n'.ip2eth ip = none ∧ (n'.timestampsArp ip).isSome)
    (hser : ∀ dgram ∈ n'.ip2dgrams ip, dgram.Serializable) : n'.Resolving := by
  constructor
  case unknown =>
    intro y hy
    by_cases heq : y = ip
    · exact heq ▸ (hself (heq ▸ hy)).1
    · obtain ⟨heth, hdgrams, -⟩ := hne y heq
      rw [heth]
      exact h.unknown (hdgrams ▸ hy)
  case asked =>
    intro y hy
    by_cases heq : y = ip
    · exact heq ▸ (hself (heq ▸ hy)).2
    · obtain ⟨-, hdgrams, harp⟩ := hne y heq
      rw [harp]
      exact h.asked (hdgrams ▸ hy)
  case serializable =>
    intro y
    by_cases heq : y = ip
    · exact heq ▸ hser
    · rw [(hne y heq).2.1]
      exact h.serializable

end Resolving

/-- The datagram waits: nothing is sent for its next hop. -/
theorem Resolving.applied_of_waits (h : n.Resolving) (hdgram : dgram.Serializable)
    {nextHop : Address} (hunknown : n.ip2eth nextHop.ipv4Numeric = none)
    (heth : n'.ip2eth = n.ip2eth)
    (hdgrams : n'.ip2dgrams = (n.enqueue nextHop.ipv4Numeric dgram).ip2dgrams)
    (harp : ∀ y ≠ nextHop.ipv4Numeric, n'.timestampsArp y = n.timestampsArp y)
    (hasked : (n'.timestampsArp nextHop.ipv4Numeric).isSome) (hpushed : n.pushed n' = []) :
    n.Applied (.sendDatagram dgram nextHop) n' [] where
  resolving := by
    apply h.of_forall_ne nextHop.ipv4Numeric
    · intro y hy
      exact ⟨by rw [heth], by rw [hdgrams, enqueue_ip2dgrams_of_ne n hy], harp y hy⟩
    · exact fun _ ↦ ⟨by rw [heth, hunknown], hasked⟩
    · rw [hdgrams, enqueue_ip2dgrams_self]
      intro d hd
      rcases List.mem_append.mp hd with hd | hd
      · exact h.serializable d hd
      · exact List.mem_singleton.mp hd ▸ hdgram
  pushed := by
    rw [hpushed]
    exact .nil
  queue y := by
    rw [ite_self, List.nil_append, hdgrams]
    by_cases hy : nextHop.ipv4Numeric = y
    · subst hy
      simp [datagramsFor, Op.handed]
    · rw [enqueue_ip2dgrams_of_ne n (Ne.symm hy)]
      simp [datagramsFor, Op.handed, hy]
  nextHop _ := rfl

theorem Resolving.exists_applied_sendDatagram (h : n.Resolving) (hdgram : dgram.Serializable)
    (nextHop : Address) : ∃ n' sent, n.sendDatagram dgram nextHop = .ok n' ∧
      n.Applied (.sendDatagram dgram nextHop) n' sent := by
  cases heth : n.ip2eth nextHop.ipv4Numeric with
  | some eth =>
      obtain ⟨bytes, hbytes⟩ := Ipv4Datagram.exists_serialize hdgram
      refine ⟨n.pushFrame (n.ipv4Frame eth bytes), [dgram], ?_, ?_⟩
      · simp only [sendDatagram, heth, hbytes]
        rfl
      have hnil := h.queue_eq_nil_of_known (x := nextHop.ipv4Numeric) (by simp [heth])
      constructor
      case resolving => exact h.congr rfl rfl rfl
      case pushed =>
        have hframe : dgram.SentIn (n.ipv4Frame eth bytes) := ⟨rfl, hbytes⟩
        have hsent : List.Forall₂ Ipv4Datagram.SentIn [dgram] [n.ipv4Frame eth bytes] :=
          .cons hframe .nil
        rw [pushed_append [n.ipv4Frame eth bytes] rfl, filter_eq_self_of_sentIn hsent]
        exact hsent
      case queue =>
        intro y
        by_cases hy : nextHop.ipv4Numeric = y
        · subst hy
          simp [datagramsFor, Op.handed, Op.nextHop, hnil, pushFrame]
        · simp [datagramsFor, Op.handed, Op.nextHop, hy, pushFrame]
      case nextHop => exact fun hnone ↦ by simp [Op.nextHop] at hnone
  | none =>
      by_cases hwait : (n.timestampsArp nextHop.ipv4Numeric).any
          (fun sent ↦ sub64 n.time sent < 5000)
      · refine ⟨n.enqueue nextHop.ipv4Numeric dgram, [], ?_,
          h.applied_of_waits hdgram heth rfl rfl (fun _ _ ↦ rfl) ?_ (pushed_of_framesOut_eq rfl)⟩
        · have hwait' : ((n.enqueue nextHop.ipv4Numeric dgram).timestampsArp
              nextHop.ipv4Numeric).any (fun sent ↦ sub64 n.time sent < 5000) := hwait
          simp only [sendDatagram, heth]
          exact if_pos hwait'
        · exact Option.isSome_of_any hwait
      · let asking : NetworkInterface :=
          { n.enqueue nextHop.ipv4Numeric dgram with
            timestampsArp := Function.update n.timestampsArp nextHop.ipv4Numeric
              (some n.time) }
        obtain ⟨frame, hsend, htype⟩ := exists_sendArp asking nextHop.ipv4Numeric
          addrBroadcast (.inl rfl)
        refine ⟨asking.pushFrame frame, [], ?_, h.applied_of_waits hdgram heth rfl rfl ?_ ?_
          (pushed_pushFrame_of_arp htype rfl)⟩
        · simp only [sendDatagram, heth]
          exact (if_neg hwait).trans hsend
        · exact fun y hy ↦ Function.update_of_ne hy _ _
        · simp [asking, pushFrame]

/-- A queue of serializable datagrams is sent frame by frame. -/
theorem exists_sendQueued (n : NetworkInterface) (ip : UInt32) (eth : EthernetAddress)
    {queue : List Ipv4Datagram} (h : ∀ dgram ∈ queue, dgram.Serializable) :
    ∃ n' frames, n.sendQueued ip eth queue = .ok n' ∧
      List.Forall₂ Ipv4Datagram.SentIn queue frames ∧
      n'.framesOut = n.framesOut ++ frames ∧ n'.ip2eth = n.ip2eth ∧
      n'.timestampsArp = n.timestampsArp ∧
      n'.ip2dgrams = Function.update n.ip2dgrams ip [] := by
  induction queue generalizing n with
  | nil => exact ⟨_, [], rfl, .nil, (List.append_nil _).symm, rfl, rfl, rfl⟩
  | cons dgram rest ih =>
      obtain ⟨bytes, hbytes⟩ := Ipv4Datagram.exists_serialize (h dgram (by simp))
      obtain ⟨n', frames, hok, hsent, hframes, hmaps⟩ :=
        ih (n.pushFrame (n.ipv4Frame eth bytes)) fun d hd ↦ h d (List.mem_cons_of_mem _ hd)
      refine ⟨n', n.ipv4Frame eth bytes :: frames, ?_, .cons ⟨rfl, hbytes⟩ hsent, ?_, hmaps⟩
      · rw [sendQueued, hbytes]
        exact hok
      · rw [hframes, pushFrame, List.append_assoc]
        rfl

/-- What learning the address of `ip` does: `sent` waited for it, and leave. -/
structure Learned (n : NetworkInterface) (ip : UInt32) (n' : NetworkInterface)
    (sent : List Ipv4Datagram) : Prop where
  resolving : n'.Resolving
  frames : ∃ frames, List.Forall₂ Ipv4Datagram.SentIn sent frames ∧
    n'.framesOut = n.framesOut ++ frames
  queue : ∀ x, n.ip2dgrams x = (if ip = x then sent else []) ++ n'.ip2dgrams x

theorem Resolving.exists_learned (h : n.Resolving) (ip : UInt32) (eth : EthernetAddress) :
    ∃ n' sent, n.learn ip eth = .ok n' ∧ n.Learned ip n' sent := by
  by_cases hasked : (n.timestampsArp ip).isSome
  · obtain ⟨n', frames, hok, hsent, hframes, heth, harp, hdgrams⟩ := exists_sendQueued
      ((n.remember ip eth).eraseArp ip) ip (((n.remember ip eth).ip2eth ip).getD addrBroadcast)
      (h.serializable (x := ip))
    simp only [eraseArp, remember_framesOut, remember_ip2dgrams, remember_timestampsArp]
      at hframes heth harp hdgrams
    refine ⟨n', n.ip2dgrams ip, ?_, ?_, ⟨frames, hsent, hframes⟩, ?_⟩
    · simp only [learn, remember_timestampsArp, if_pos hasked]
      rw [← remember_ip2dgrams n ip eth] at hok
      exact hok
    · apply h.of_forall_ne ip
      · intro y hy
        rw [heth, harp, hdgrams, Function.update_of_ne hy, Function.update_of_ne hy]
        exact ⟨remember_ip2eth_of_ne n ip eth hy, rfl, rfl⟩
      · rw [hdgrams, Function.update_self]
        exact fun hne ↦ absurd rfl hne
      · rw [hdgrams, Function.update_self]
        exact List.forall_mem_nil _
    · intro y
      rw [hdgrams]
      by_cases hy : ip = y
      · subst hy
        rw [if_pos rfl, Function.update_self, List.append_nil]
      · rw [if_neg hy, Function.update_of_ne (Ne.symm hy), List.nil_append]
  · have hnil := h.queue_eq_nil_of_not_asked hasked
    refine ⟨n.remember ip eth, [], ?_, ?_, ⟨[], .nil, by simp⟩, fun y ↦ by simp⟩
    · simp only [learn, remember_timestampsArp]
      exact if_neg hasked
    · apply h.of_forall_ne ip
      · exact fun y hy ↦ ⟨remember_ip2eth_of_ne n ip eth hy, by simp, by simp⟩
      · simp [hnil]
      · simp [hnil]

/-- An operation that touches no queue and pushes no datagram. -/
theorem Resolving.applied_of_frame (h : n'.Resolving) {op : Op}
    (hdgrams : n'.ip2dgrams = n.ip2dgrams) (hpushed : n.pushed n' = [])
    (hop : op.handed = []) : n.Applied op n' [] where
  resolving := h
  pushed := by
    rw [hpushed]
    exact .nil
  queue x := by
    rw [hop, hdgrams, ite_self, List.nil_append]
    exact List.append_nil _
  nextHop _ := rfl

theorem Resolving.exists_applied_recvFrame (h : n.Resolving) (frame : EthernetFrame) :
    ∃ n' sent, n.apply (.recvFrame frame) = .ok n' ∧ n.Applied (.recvFrame frame) n' sent := by
  have hsame : n.Applied (.recvFrame frame) n [] :=
    h.applied_of_frame rfl (pushed_of_framesOut_eq rfl) rfl
  rw [apply, recvFrame]
  by_cases hipv4 : frame.header.type = EthernetHeader.typeIpv4 ∧
      frame.header.dst = n.ethernetAddress
  · rw [if_pos hipv4]
    refine ⟨n, [], ?_, hsame⟩
    dsimp only
    split_ifs <;> rfl
  rw [if_neg hipv4]
  by_cases herror : (ArpMessage.parse {} frame.payload).1 ≠ .noError
  · refine ⟨n, [], ?_, hsame⟩
    simp only [if_pos herror]
    rfl
  simp only [if_neg herror]
  -- the interface learns the sender, then answers a request for its own address
  generalize hmsg : (ArpMessage.parse {} frame.payload).2 = msg
  obtain ⟨known, sent, hlearn, hlearned⟩ := h.exists_learned msg.senderIpAddress
    msg.senderEthernetAddress
  obtain ⟨frames, hsent, hframes⟩ := hlearned.frames
  have hqueue : ∀ x, n.ip2dgrams x ++ datagramsFor x (Op.handed (.recvFrame frame)) =
      (if Op.nextHop (.recvFrame frame) = some x then sent else []) ++ known.ip2dgrams x := by
    intro x
    simp only [datagramsFor, Op.handed, Op.nextHop, hmsg, Option.some.injEq, List.filter_nil,
      List.map_nil, List.append_nil]
    exact hlearned.queue x
  by_cases hreply : msg.opcode = ArpMessage.opcodeRequest ∧
      msg.targetIpAddress = known.ipAddress.ipv4Numeric
  · obtain ⟨reply, hsend, htype⟩ := exists_sendArp known msg.senderIpAddress
      msg.senderEthernetAddress (.inr rfl)
    refine ⟨known.pushFrame reply, sent, ?_, hlearned.resolving.congr rfl rfl rfl, ?_, hqueue,
      fun hnone ↦ by simp [Op.nextHop] at hnone⟩
    · rw [hlearn]
      simp only [bind, Except.bind, if_pos hreply, hsend]
      rfl
    · rw [pushed_append (frames ++ [reply]) (by simp [pushFrame, hframes]), List.filter_append,
        filter_eq_self_of_sentIn hsent, List.filter_cons_of_neg (by rw [htype]; decide),
        List.filter_nil, List.append_nil]
      exact hsent
  · refine ⟨known, sent, ?_, hlearned.resolving, ?_, hqueue,
      fun hnone ↦ by simp [Op.nextHop] at hnone⟩
    · rw [hlearn]
      simp only [bind, Except.bind, if_neg hreply]
      rfl
    · rw [pushed_append frames hframes, filter_eq_self_of_sentIn hsent]
      exact hsent

theorem expire_frame (n : NetworkInterface) (pairs : List ((UInt32 × EthernetAddress) × ℕ)) :
    (n.expire pairs).ip2dgrams = n.ip2dgrams ∧
      (n.expire pairs).timestampsArp = n.timestampsArp ∧
      (n.expire pairs).framesOut = n.framesOut := by
  induction pairs generalizing n with
  | nil => exact ⟨rfl, rfl, rfl⟩
  | cons curr rest ih =>
      rw [expire]
      split_ifs
      · exact ih _
      · exact ⟨rfl, rfl, rfl⟩

theorem expire_ip2eth_eq_none (n : NetworkInterface)
    (pairs : List ((UInt32 × EthernetAddress) × ℕ)) (hx : n.ip2eth x = none) :
    (n.expire pairs).ip2eth x = none := by
  induction pairs generalizing n with
  | nil => exact hx
  | cons curr rest ih =>
      rw [expire]
      split_ifs
      · apply ih
        by_cases heq : x = curr.1.1
        · subst heq
          exact Function.update_self _ _ _
        · exact (Function.update_of_ne heq _ _).trans hx
      · exact hx

theorem Resolving.tick (h : n.Resolving) (ms : ℕ) : (n.tick ms).Resolving := by
  obtain ⟨hdgrams, harp, -⟩ := expire_frame { n with time := add64 n.time ms } n.timestampsPair
  constructor
  case unknown =>
    intro x hx
    exact expire_ip2eth_eq_none _ _ (h.unknown (congrFun hdgrams x ▸ hx))
  case asked =>
    intro x hx
    rw [NetworkInterface.tick, harp]
    exact h.asked (congrFun hdgrams x ▸ hx)
  case serializable =>
    intro x
    rw [NetworkInterface.tick, hdgrams]
    exact h.serializable

theorem Resolving.exists_applied (h : n.Resolving) {op : Op} (hop : op.Allowed) :
    ∃ n' sent, n.apply op = .ok n' ∧ n.Applied op n' sent := by
  cases op with
  | sendDatagram dgram nextHop => exact h.exists_applied_sendDatagram hop nextHop
  | recvFrame frame => exact h.exists_applied_recvFrame frame
  | tick ms =>
      obtain ⟨hdgrams, -, hframes⟩ :=
        expire_frame { n with time := add64 n.time ms } n.timestampsPair
      exact ⟨n.tick ms, [], rfl, (h.tick ms).applied_of_frame hdgrams
        (pushed_of_framesOut_eq hframes) rfl⟩
  | takeFrame =>
      let rest : NetworkInterface := { n with framesOut := n.framesOut.tail }
      have hrest : rest.Resolving := h.congr rfl rfl rfl
      refine ⟨rest, [], rfl, hrest.applied_of_frame rfl ?_ rfl⟩
      rw [pushed, List.drop_eq_nil_of_le (by simp [rest])]
      rfl

end

end NetworkInterface

/-- An interface with what was handed to it and the IPv4 frames that it pushed,
both with the next hop they are for. -/
structure Relaying where
  interface : NetworkInterface
  handed : List (UInt32 × Ipv4Datagram) := []
  emitted : List (Option UInt32 × EthernetFrame) := []

namespace Relaying

open NetworkInterface

def start (ethernetAddress : EthernetAddress) (ipAddress : Address) : Relaying :=
  { interface := { ethernetAddress, ipAddress } }

def step (s : Relaying) (op : Op) : Except Exception Relaying := do
  let interface ← s.interface.apply op
  return {
    interface
    handed := s.handed ++ op.handed
    emitted := s.emitted ++ (s.interface.pushed interface).map (op.nextHop, ·) }

/-- The IPv4 frames pushed for the next hop `x`, in order. -/
def emittedFor (s : Relaying) (x : UInt32) : List EthernetFrame :=
  (s.emitted.filter (·.1 = some x)).map (·.2)

/-- Everything handed over was sent, in order, or waits. -/
structure Conserves (s : Relaying) : Prop where
  resolving : s.interface.Resolving
  emitted : ∀ e ∈ s.emitted, e.1.isSome
  handed : ∀ x, ∃ sent, datagramsFor x s.handed = sent ++ s.interface.ip2dgrams x ∧
    List.Forall₂ Ipv4Datagram.SentIn sent (s.emittedFor x)

theorem conserves_start (ethernetAddress : EthernetAddress) (ipAddress : Address) :
    (start ethernetAddress ipAddress).Conserves where
  resolving := by constructor <;> simp [start]
  emitted := by simp [start]
  handed _ := ⟨[], rfl, .nil⟩

theorem Conserves.exists_step {s : Relaying} (h : s.Conserves) {op : Op} (hop : op.Allowed) :
    ∃ s', s.step op = .ok s' ∧ s'.Conserves := by
  obtain ⟨n', sent, happly, happlied⟩ := h.resolving.exists_applied hop
  have hstep : s.step op = .ok
      { interface := n'
        handed := s.handed ++ op.handed
        emitted := s.emitted ++ (s.interface.pushed n').map (op.nextHop, ·) } := by
    rw [step, happly]
    rfl
  refine ⟨_, hstep, happlied.resolving, ?_, ?_⟩
  · intro e he
    rcases List.mem_append.mp he with he | he
    · exact h.emitted e he
    · obtain ⟨frame, hframe, rfl⟩ := List.mem_map.mp he
      by_contra hnone
      have hsent := happlied.nextHop (Option.not_isSome_iff_eq_none.mp hnone)
      have hpushed := happlied.pushed
      rw [hsent, List.forall₂_nil_left_iff] at hpushed
      simp [hpushed] at hframe
  · intro x
    obtain ⟨before, hhanded, hbefore⟩ := h.handed x
    refine ⟨before ++ if op.nextHop = some x then sent else [], ?_, ?_⟩
    · rw [List.append_assoc, ← happlied.queue x, ← List.append_assoc, ← hhanded]
      simp only [datagramsFor, List.filter_append, List.map_append]
    · rw [emittedFor, List.filter_append, List.map_append, ← emittedFor]
      refine List.rel_append hbefore ?_
      by_cases hx : op.nextHop = some x
      · simpa [hx, List.filter_map, Function.comp_def] using happlied.pushed
      · simp [hx, List.filter_map, Function.comp_def]

/-- In every run of serializable datagrams nothing throws, and for every next hop
the frames that carry its datagrams, followed by the datagrams that wait for it,
are the datagrams handed over for it. They wait only while its address is unknown
and a request for it is on record. -/
theorem datagrams_sent_or_waiting (ethernetAddress : EthernetAddress) (ipAddress : Address)
    (ops : List Op) (hops : ∀ op ∈ ops, op.Allowed) :
    ∃ s, ops.foldlM step (start ethernetAddress ipAddress) = .ok s ∧
      (∀ e ∈ s.emitted, e.1.isSome) ∧
      ∀ x, (∃ sent, datagramsFor x s.handed = sent ++ s.interface.ip2dgrams x ∧
          List.Forall₂ Ipv4Datagram.SentIn sent (s.emittedFor x)) ∧
        (s.interface.ip2dgrams x ≠ [] →
          s.interface.ip2eth x = none ∧ (s.interface.timestampsArp x).isSome) := by
  have hstep : ∀ (s : Relaying) (op : Op), s.Conserves → op.Allowed →
      ∃ s', s.step op = .ok s' ∧ s'.Conserves := fun _ _ h hop ↦ h.exists_step hop
  obtain ⟨s, hrun, hs⟩ := exists_foldlM_ok hstep (conserves_start ethernetAddress ipAddress) hops
  exact ⟨s, hrun, hs.emitted, fun x ↦
    ⟨hs.handed x, fun hx ↦ ⟨hs.resolving.unknown hx, hs.resolving.asked hx⟩⟩⟩

/-- Two datagrams for one next hop, and then its reply. -/
def twoDatagramsAndReply : List Op :=
  let neighbour : NetworkInterface := { ethernetAddress := .replicate 6 3, ipAddress := ⟨1⟩ }
  [.sendDatagram { header := { len := 20 } } ⟨1⟩, .tick 10,
    .sendDatagram { header := { len := 21 }, payload := [7] } ⟨1⟩,
    .recvFrame (neighbour.arpFrame ArpMessage.opcodeReply 2 (.replicate 6 4))]

/-- The datagrams wait for the reply and are then sent in order. -/
theorem two_datagrams_sent_or_waiting :
    ∃ s, twoDatagramsAndReply.foldlM step (start (.replicate 6 4) ⟨2⟩) = .ok s ∧
      s.interface.ip2dgrams 1 = [] ∧
      List.Forall₂ Ipv4Datagram.SentIn
        [{ header := { len := 20 } }, { header := { len := 21 }, payload := [7] }]
        (s.emittedFor 1) := by
  obtain ⟨s, hrun, -, hs⟩ := datagrams_sent_or_waiting (.replicate 6 4) ⟨2⟩ twoDatagramsAndReply
    (by decide)
  obtain ⟨sent, hhanded, hsent⟩ := (hs 1).1
  have hnow : (twoDatagramsAndReply.foldlM step (start (.replicate 6 4) ⟨2⟩)).toOption.map
      (fun s ↦ (s.interface.ip2dgrams 1, datagramsFor 1 s.handed)) =
        some ([], [{ header := { len := 20 } }, { header := { len := 21 }, payload := [7] }]) := by
    decide +kernel
  rw [hrun] at hnow
  obtain ⟨hempty, hall⟩ := Prod.mk.inj (Option.some.inj hnow)
  rw [hempty, List.append_nil] at hhanded
  refine ⟨s, hrun, hempty, ?_⟩
  rw [← hall, hhanded]
  exact hsent

end Relaying

end Sponge
