import Sponge.Interface.Mappings

/-!
# Neighbours do not see each other

All next hops share one clock, one queue of frames and the queue of entries. Of
an interface only a part matters for the next hop `x`: the operations on `x`
compute its next state and their frames from it, and the operations on other
next hops leave it alone. Ticks share the scan of the entries, which finds the
same entries of `x` in any company as long as the entries stand by age.
-/

namespace Sponge

open Lib

namespace NetworkInterface

variable {n m : NetworkInterface} {x ip : UInt32}

/-- What matters for one next hop. -/
structure View where
  eth : Option EthernetAddress
  dgrams : List Ipv4Datagram
  arp : Option ℕ
  entries : List ((UInt32 × EthernetAddress) × ℕ)
  time : ℕ
  ethernetAddress : EthernetAddress
  ipAddress : Address

def view (n : NetworkInterface) (x : UInt32) : View where
  eth := n.ip2eth x
  dgrams := n.ip2dgrams x
  arp := n.timestampsArp x
  entries := n.timestampsPair.filter (·.1.1 = x)
  time := n.time
  ethernetAddress := n.ethernetAddress
  ipAddress := n.ipAddress

/-! Operations on other next hops. -/

theorem view_send_of_ne (n : NetworkInterface) (dgram : Ipv4Datagram) (h : ip ≠ x) :
    (n.send dgram ip).view x = n.view x := by
  rw [send]
  cases n.ip2eth ip with
  | some eth => cases dgram.serialize <;> rfl
  | none =>
      dsimp only
      split_ifs <;>
        simp [view, pushFrame, enqueue, Function.update_of_ne (Ne.symm h)]

@[simp] theorem view_answer (n : NetworkInterface) (msg : ArpMessage) :
    (n.answer msg).view x = n.view x := by
  rw [answer]
  split_ifs <;> rfl

theorem view_remember_of_ne (n : NetworkInterface) (h : ip ≠ x) (eth : EthernetAddress) :
    (n.remember ip eth).view x = n.view x := by
  rw [remember]
  split_ifs
  · simp [view, h, Function.update_of_ne (Ne.symm h)]
  · rfl

theorem view_sendQueuedLeft_of_ne (n : NetworkInterface) (h : ip ≠ x) (eth : EthernetAddress)
    (queue : List Ipv4Datagram) :
    ((n.eraseArp ip).sendQueuedLeft ip eth queue).view x = n.view x := by
  rw [sendQueuedLeft_eq]
  simp [view, eraseArp, Function.update_of_ne (Ne.symm h)]

theorem view_hear_of_ne (n : NetworkInterface) {msg : ArpMessage}
    (h : msg.senderIpAddress ≠ x) : (n.hear msg).view x = n.view x := by
  rw [← n.view_remember_of_ne h msg.senderEthernetAddress, hear]
  dsimp only
  split_ifs
  · rw [view_answer, view_sendQueuedLeft_of_ne _ h]
  · rw [view_sendQueuedLeft_of_ne _ h]
  · rw [view_answer]

/-! Operations on the next hop itself. -/

theorem view_send (h : n.view x = m.view x) (dgram : Ipv4Datagram) :
    (n.send dgram x).view x = (m.send dgram x).view x ∧
      n.sendFrames dgram x = m.sendFrames dgram x := by
  simp only [view, View.mk.injEq] at h
  obtain ⟨heth, hdgrams, harp, hentries, htime, hown, hip⟩ := h
  rw [send, send, sendFrames, sendFrames, ← heth, ← harp, ← htime]
  cases hx : n.ip2eth x with
  | some eth =>
      cases dgram.serialize with
      | ok payload => simp [view, pushFrame, ipv4Frame, *]
      | error e => simp [view, *]
  | none =>
      dsimp only
      split_ifs <;> simp [view, pushFrame, enqueue, arpFrame, *]

theorem view_remember (h : n.view x = m.view x) (eth : EthernetAddress) :
    (n.remember x eth).view x = (m.remember x eth).view x := by
  have hfields := h
  simp only [view, View.mk.injEq] at hfields
  obtain ⟨heth, hdgrams, harp, hentries, htime, hown, hip⟩ := hfields
  cases hx : n.ip2eth x with
  | some known => rw [remember_of_some hx, remember_of_some (heth.symm.trans hx), h]
  | none =>
      rw [remember_of_none hx, remember_of_none (heth.symm.trans hx)]
      simp [view, *]

theorem view_sendQueuedLeft (n : NetworkInterface) (x : UInt32) (eth : EthernetAddress)
    (queue : List Ipv4Datagram) :
    ((n.eraseArp x).sendQueuedLeft x eth queue).view x =
      { n.view x with arp := none, dgrams := unsent queue } := by
  rw [sendQueuedLeft_eq]
  simp [view, eraseArp]

theorem answerFrames_congr (hown : n.ethernetAddress = m.ethernetAddress)
    (hip : n.ipAddress = m.ipAddress) (msg : ArpMessage) :
    n.answerFrames msg = m.answerFrames msg := by
  simp only [answerFrames, arpFrame, hown, hip]

theorem view_hear (h : n.view x = m.view x) {msg : ArpMessage} (hx : msg.senderIpAddress = x) :
    (n.hear msg).view x = (m.hear msg).view x ∧ n.hearFrames msg = m.hearFrames msg := by
  subst hx
  have hknown := view_remember h msg.senderEthernetAddress
  have heth := congrArg View.eth hknown
  have hdgrams := congrArg View.dgrams h
  have harp := congrArg View.arp h
  have hown := congrArg View.ethernetAddress h
  have hip := congrArg View.ipAddress h
  simp only [view] at heth hdgrams harp hown hip
  have hframe : ∀ eth, n.ipv4Frame eth = m.ipv4Frame eth := by
    intro eth
    funext payload
    rw [ipv4Frame, ipv4Frame, hown]
  constructor
  · simp only [hear, hdgrams, harp]
    split_ifs <;> simp only [view_answer, view_sendQueuedLeft, hknown]
  · simp only [hearFrames, hdgrams, harp, heth, hframe, answerFrames_congr hown hip]

/-- The scan of `tick` finds the same entries of `x`. -/
theorem Current.view_tick (hn : n.Current) (hm : m.Current) (h : n.view x = m.view x) {ms : ℕ}
    (hfits : ∀ e ∈ n.timestampsPair, n.age e + ms < 2 ^ 64)
    (hfits' : ∀ e ∈ m.timestampsPair, m.age e + ms < 2 ^ 64) :
    (n.tick ms).view x = (m.tick ms).view x := by
  simp only [view, View.mk.injEq] at h
  obtain ⟨heth, hdgrams, harp, hentries, htime, hown, hip⟩ := h
  have hage : n.age = m.age := by
    funext e
    rw [age, age, htime]
  have hcomm : ∀ (es : List ((UInt32 × EthernetAddress) × ℕ)) p,
      (es.filter p).filter (·.1.1 = x) = (es.filter (·.1.1 = x)).filter p := by
    intro es p
    simp only [List.filter_filter, Bool.and_comm]
  rw [hn.tick_eq hfits, hm.tick_eq hfits']
  simp only [view, forget_filter, hcomm, heth, hdgrams, harp, hentries, htime, hown, hip, hage]

/-! What is seen of a next hop. -/

/-- The frame is an ARP request for the address of `x`. -/
def asksFor (x : UInt32) (frame : EthernetFrame) : Bool :=
  let (result, msg) := ArpMessage.parse {} frame.payload
  frame.header.type = EthernetHeader.typeArp ∧ result = .noError ∧
    msg.opcode = ArpMessage.opcodeRequest ∧ msg.targetIpAddress = x

/-- The frame is an IPv4 frame of an operation on `x`, or asks for its address. -/
def visible (x : UInt32) (op : Op) (frame : EthernetFrame) : Bool :=
  frame.header.type = EthernetHeader.typeIpv4 ∧ op.nextHop = some x ∨ asksFor x frame

/-- The IPv4 frames for `x` and the requests for its address that an operation pushes. -/
def seen (n : NetworkInterface) (x : UInt32) (op : Op) : List EthernetFrame :=
  ((n.after op).framesOut.drop n.framesOut.length).filter (visible x op)

@[simp] theorem asksFor_ipv4Frame (n : NetworkInterface) (x : UInt32) (eth : EthernetAddress)
    (payload : List UInt8) : asksFor x (n.ipv4Frame eth payload) = false := by
  have htype : EthernetHeader.typeIpv4 ≠ EthernetHeader.typeArp := by decide
  simp [asksFor, ipv4Frame, htype]

theorem asksFor_arpFrame (n : NetworkInterface) {opcode : UInt16} (x ip : UInt32)
    (eth : EthernetAddress)
    (h : opcode = ArpMessage.opcodeRequest ∨ opcode = ArpMessage.opcodeReply) :
    asksFor x (n.arpFrame opcode ip eth) =
      decide (opcode = ArpMessage.opcodeRequest ∧ ip = x) := by
  rw [asksFor, arpFrame, ArpMessage.parse_bytes {} ⟨rfl, rfl, rfl, rfl, h⟩]
  simp

theorem visible_ipv4Frame (n : NetworkInterface) {op : Op} (h : op.nextHop ≠ some x)
    (eth : EthernetAddress) (payload : List UInt8) :
    visible x op (n.ipv4Frame eth payload) = false := by
  simp [visible, h]

theorem visible_arpFrame (n : NetworkInterface) {opcode : UInt16} (op : Op)
    (eth : EthernetAddress)
    (hop : opcode = ArpMessage.opcodeRequest ∧ ip ≠ x ∨ opcode = ArpMessage.opcodeReply) :
    visible x op (n.arpFrame opcode ip eth) = false := by
  have hreply : ArpMessage.opcodeReply ≠ ArpMessage.opcodeRequest := by decide
  rw [visible, asksFor_arpFrame n x ip eth (hop.imp_left And.left)]
  rcases hop with ⟨rfl, hne⟩ | rfl
  · simp [type_arpFrame_ne, hne]
  · simp [type_arpFrame_ne, hreply]

theorem seen_send_of_ne (n : NetworkInterface) (dgram : Ipv4Datagram) {nextHop : Address}
    (h : nextHop.ipv4Numeric ≠ x) : n.seen x (.sendDatagram dgram nextHop) = [] := by
  have hop : Op.nextHop (.sendDatagram dgram nextHop) ≠ some x := by simpa [Op.nextHop] using h
  rw [seen, drop_framesOut_after, newFrames, sendFrames]
  cases n.ip2eth nextHop.ipv4Numeric with
  | some eth =>
      cases dgram.serialize with
      | ok payload => simp [visible_ipv4Frame n hop]
      | error e => rfl
  | none =>
      dsimp only
      split_ifs
      · rfl
      · simp [visible_arpFrame n _ _ (.inl ⟨rfl, h⟩)]

theorem seen_hear_of_ne (n : NetworkInterface) {frame : EthernetFrame} {msg : ArpMessage}
    (hheard : n.heard frame = some msg) (h : msg.senderIpAddress ≠ x) :
    n.seen x (.recvFrame frame) = [] := by
  have hop : Op.nextHop (.recvFrame frame) ≠ some x := by
    rw [Op.nextHop, eq_of_heard hheard]
    simpa using h
  rw [seen, drop_framesOut_after, newFrames, hheard]
  refine List.filter_eq_nil_iff.mpr fun pushed hpushed ↦ ?_
  rcases eq_of_mem_hearFrames hpushed with ⟨eth, payload, rfl, -⟩ | rfl
  · simp [visible_ipv4Frame n hop]
  · simp [visible_arpFrame n _ _ (.inr rfl)]

/-- An operation on `x`, or on no next hop. -/
def concerns (own : EthernetAddress) (x : UInt32) : Op → Bool
  | .sendDatagram _ nextHop => nextHop.ipv4Numeric = x
  | .recvFrame frame =>
    (heard { ethernetAddress := own, ipAddress := ⟨0⟩ } frame).all (·.senderIpAddress = x)
  | .tick _ | .takeFrame => true

theorem concerns_recvFrame (n : NetworkInterface) (x : UInt32) (frame : EthernetFrame) :
    concerns n.ethernetAddress x (.recvFrame frame) =
      (n.heard frame).all (·.senderIpAddress = x) := rfl

/-- The interface `m` knows of `x` what `n` knows, and nothing of other next hops. -/
structure Mirrors (x : UInt32) (n m : NetworkInterface) : Prop where
  view : n.view x = m.view x
  only : ∀ e ∈ m.timestampsPair, e.1.1 = x
  current : n.Current
  current_mirror : m.Current

namespace Mirrors

theorem heard (h : Mirrors x n m) (frame : EthernetFrame) : n.heard frame = m.heard frame := by
  have hown : n.ethernetAddress = m.ethernetAddress := congrArg View.ethernetAddress h.view
  simp only [NetworkInterface.heard, hown]

theorem mem_of_mem (h : Mirrors x n m) {e : (UInt32 × EthernetAddress) × ℕ}
    (he : e ∈ m.timestampsPair) : e ∈ n.timestampsPair ∧ n.age e = m.age e := by
  have hentries : n.timestampsPair.filter (·.1.1 = x) = m.timestampsPair.filter (·.1.1 = x) :=
    congrArg View.entries h.view
  have htime : n.time = m.time := congrArg View.time h.view
  have hmem : e ∈ m.timestampsPair.filter (·.1.1 = x) :=
    List.mem_filter.mpr ⟨he, decide_eq_true (h.only e he)⟩
  rw [← hentries] at hmem
  exact ⟨List.mem_of_mem_filter hmem, by rw [age, age, htime]⟩

theorem agesFit (h : Mirrors x n m) {op : Op} (hop : n.AgesFit op) : m.AgesFit op := by
  cases op with
  | tick ms =>
      intro e he
      obtain ⟨hmem, hage⟩ := h.mem_of_mem he
      exact hage ▸ hop e hmem
  | _ => trivial

/-- An operation on another next hop is not noticed. -/
theorem skip (h : Mirrors x n m) {op : Op} (hop : n.AgesFit op)
    (hother : concerns n.ethernetAddress x op = false) :
    Mirrors x (n.after op) m ∧ n.seen x op = [] := by
  have hcurrent := h.current.after hop
  cases op with
  | sendDatagram dgram nextHop =>
      have hne : nextHop.ipv4Numeric ≠ x := of_decide_eq_false hother
      refine ⟨⟨?_, h.only, hcurrent, h.current_mirror⟩, n.seen_send_of_ne dgram hne⟩
      rw [after_sendDatagram, n.view_send_of_ne dgram hne, h.view]
  | recvFrame frame =>
      rw [concerns_recvFrame] at hother
      cases hheard : n.heard frame with
      | none => simp [hheard] at hother
      | some msg =>
          have hne : msg.senderIpAddress ≠ x := by simpa [hheard] using hother
          refine ⟨⟨?_, h.only, hcurrent, h.current_mirror⟩, n.seen_hear_of_ne hheard hne⟩
          rw [after_recvFrame_of_heard hheard, n.view_hear_of_ne hne, h.view]
  | tick ms => cases hother
  | takeFrame => cases hother

/-- The mirror hears only of `x`. -/
theorem only_after (h : Mirrors x n m) {op : Op} (hop : m.AgesFit op)
    (hown : concerns m.ethernetAddress x op = true) :
    ∀ e ∈ (m.after op).timestampsPair, e.1.1 = x := by
  cases op with
  | sendDatagram dgram nextHop =>
      rw [after_sendDatagram, (m.keepsMappings_send dgram _).timestampsPair]
      exact h.only
  | recvFrame frame =>
      rw [concerns_recvFrame] at hown
      cases hheard : m.heard frame with
      | none =>
          rw [after_recvFrame_of_heard_eq_none hheard]
          exact h.only
      | some msg =>
          have hx : msg.senderIpAddress = x := by simpa [hheard] using hown
          rw [after_recvFrame_of_heard hheard, (m.keepsMappings_hear msg).timestampsPair]
          cases hip : m.ip2eth msg.senderIpAddress with
          | some known =>
              rw [remember_of_some hip]
              exact h.only
          | none =>
              rw [remember_of_none hip]
              intro e he
              rcases List.mem_append.mp he with he | he
              · exact h.only e he
              · rw [List.mem_singleton.mp he]
                exact hx
  | tick ms =>
      intro e he
      change e ∈ (m.tick ms).timestampsPair at he
      rw [h.current_mirror.tick_eq hop] at he
      exact h.only e (List.mem_of_mem_filter he)
  | takeFrame => exact h.only

/-- An operation on `x` does and shows the same in both. -/
theorem both (h : Mirrors x n m) {op : Op} (hop : n.AgesFit op)
    (hown : concerns n.ethernetAddress x op = true) :
    Mirrors x (n.after op) (m.after op) ∧ n.seen x op = m.seen x op := by
  have haddress : n.ethernetAddress = m.ethernetAddress :=
    congrArg View.ethernetAddress h.view
  have hcurrent := h.current.after hop
  have hcurrent' := h.current_mirror.after (h.agesFit hop)
  have honly := h.only_after (h.agesFit hop) (haddress ▸ hown)
  have hrest : (n.after op).view x = (m.after op).view x ∧ n.newFrames op = m.newFrames op := by
    cases op with
    | sendDatagram dgram nextHop =>
        obtain rfl : nextHop.ipv4Numeric = x := of_decide_eq_true hown
        rw [after_sendDatagram, after_sendDatagram]
        exact view_send h.view dgram
    | recvFrame frame =>
        rw [concerns_recvFrame] at hown
        rw [newFrames, newFrames, ← h.heard]
        cases hheard : n.heard frame with
        | none =>
            rw [after_recvFrame_of_heard_eq_none hheard,
              after_recvFrame_of_heard_eq_none (h.heard frame ▸ hheard)]
            exact ⟨h.view, rfl⟩
        | some msg =>
            have hx : msg.senderIpAddress = x := by simpa [hheard] using hown
            rw [after_recvFrame_of_heard hheard,
              after_recvFrame_of_heard (h.heard frame ▸ hheard)]
            exact view_hear h.view hx
    | tick ms =>
        exact ⟨h.current.view_tick h.current_mirror h.view hop (h.agesFit hop), rfl⟩
    | takeFrame => exact ⟨h.view, rfl⟩
  refine ⟨⟨hrest.1, honly, hcurrent, hcurrent'⟩, ?_⟩
  rw [seen, seen, drop_framesOut_after, drop_framesOut_after, hrest.2]

end Mirrors

end NetworkInterface

/-- An interface with what was seen of one next hop. -/
structure Watching where
  interface : NetworkInterface
  seen : List EthernetFrame := []

namespace Watching

open NetworkInterface

def start (ethernetAddress : EthernetAddress) (ipAddress : Address) : Watching :=
  { interface := { ethernetAddress, ipAddress } }

def step (x : UInt32) (s : Watching) (op : Op) : Watching :=
  { interface := s.interface.after op, seen := s.seen ++ s.interface.seen x op }

/-- Every run shows of the next hop `x`, in the IPv4 frames for it, the requests for its address
and the address itself, what the run shows from which the datagrams for other next hops and the
ARP messages of other senders are left out, provided no tick lets the age of an entry run
over. -/
theorem neighbours_independent (ethernetAddress : EthernetAddress) (ipAddress : Address)
    (x : UInt32) (ops : List Op)
    (hops : Along (step x) (fun s op ↦ s.interface.AgesFit op)
      (start ethernetAddress ipAddress) ops) :
    let s := run (step x) (start ethernetAddress ipAddress) ops
    let t := run (step x) (start ethernetAddress ipAddress)
      (ops.filter (concerns ethernetAddress x))
    s.seen = t.seen ∧ s.interface.ip2eth x = t.interface.ip2eth x := by
  have hstart : Mirrors x (start ethernetAddress ipAddress).interface
      (start ethernetAddress ipAddress).interface := by
    have hcurrent : (start ethernetAddress ipAddress).interface.Current := by
      constructor <;> simp [start, Mapped]
    exact ⟨rfl, by simp [start], hcurrent, hcurrent⟩
  have hrun := run_filter_related (step x)
    (fun s t ↦ Mirrors x s.interface t.interface ∧
      s.interface.ethernetAddress = ethernetAddress ∧ s.seen = t.seen)
    (concerns ethernetAddress x) (fun s t op h hop hkeep ↦ ?_)
    (fun s t op h hop hskip ↦ ?_) ⟨hstart, rfl, rfl⟩ hops
  · exact ⟨hrun.2.2, congrArg View.eth hrun.1.view⟩
  · obtain ⟨hmirrors, rfl, hseen⟩ := h
    obtain ⟨hboth, hsame⟩ := hmirrors.both hop hkeep
    exact ⟨hboth, after_ethernetAddress _ _, by rw [step, step, hseen, hsame]⟩
  · obtain ⟨hmirrors, rfl, hseen⟩ := h
    obtain ⟨hmirror, hnone⟩ := hmirrors.skip hop hskip
    exact ⟨hmirror, after_ethernetAddress _ _, by rw [step, hnone, List.append_nil, hseen]⟩

/-- Two neighbours take turns, and the mapping of the one expires before that of the other. -/
theorem neighbour_of_two_independent :
    let ops := [.recvFrame (replyFrom 3 (.replicate 6 3)),
      .sendDatagram { header := { len := 20 } } ⟨1⟩, .tick 20000,
      .recvFrame (replyFrom 1 (.replicate 6 1)), .tick 20000,
      .sendDatagram { header := { len := 20 } } ⟨3⟩, .sendDatagram { header := { len := 20 } } ⟨1⟩]
    let s := run (step 1) (start ethernetBroadcast ⟨2⟩) ops
    let t := run (step 1) (start ethernetBroadcast ⟨2⟩) (ops.filter (concerns ethernetBroadcast 1))
    s.seen.length = 3 ∧ s.seen = t.seen ∧ s.interface.ip2eth 1 = t.interface.ip2eth 1 :=
  ⟨by decide +kernel, neighbours_independent ethernetBroadcast ⟨2⟩ 1 _ (by decide +kernel)⟩

/-- A tick that lets the age of another neighbour's entry run over stops the scan there, so the
mapping of `1` is kept that would be forgotten without the other. -/
theorem mapping_kept_by_neighbour :
    let ops := [.recvFrame (replyFrom 3 (.replicate 6 3)), .tick 10,
      .recvFrame (replyFrom 1 (.replicate 6 1)), .tick (2 ^ 64 - 5)]
    let s := run (step 1) (start ethernetBroadcast ⟨2⟩) ops
    let t := run (step 1) (start ethernetBroadcast ⟨2⟩) (ops.filter (concerns ethernetBroadcast 1))
    s.interface.ip2eth 1 = some (.replicate 6 1) ∧ t.interface.ip2eth 1 = none := by
  decide +kernel

end Watching

end Sponge
