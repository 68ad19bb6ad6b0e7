import Sponge.Lib.EntryQueue
import Sponge.Interface.After

/-!
# How long mappings last

The entries of `timestamps_pair` stand in the order in which they were learned,
so the scan of `tick`, which stops at the first entry of at most thirty seconds,
finds every older one. What is needed of the clock is that it does not run past
the age of an entry: ages are taken modulo `2 ^ 64`.
-/

namespace Sponge

open Lib

namespace NetworkInterface

variable {n n' : NetworkInterface} {x : UInt32}

/-- The age of an entry as `tick` computes it. -/
def age (n : NetworkInterface) (e : (UInt32 × EthernetAddress) × ℕ) : ℕ := sub64 n.time e.2

theorem age_add {e : (UInt32 × EthernetAddress) × ℕ} {ms : ℕ} (htime : n.time < 2 ^ 64)
    (hstamp : e.2 < 2 ^ 64) (hms : n.age e + ms < 2 ^ 64) :
    sub64 (add64 n.time ms) e.2 = n.age e + ms := by
  rw [sub64_add64 htime hstamp]
  exact Nat.mod_eq_of_lt hms

/-- Mappings, their entries, the clock and the addresses are kept. -/
structure KeepsMappings (n n' : NetworkInterface) : Prop where
  ip2eth : n'.ip2eth = n.ip2eth
  timestampsPair : n'.timestampsPair = n.timestampsPair
  time : n'.time = n.time
  ethernetAddress : n'.ethernetAddress = n.ethernetAddress
  ipAddress : n'.ipAddress = n.ipAddress

theorem keepsMappings_send (n : NetworkInterface) (dgram : Ipv4Datagram) (ip : UInt32) :
    n.KeepsMappings (n.send dgram ip) := by
  rw [send]
  cases n.ip2eth ip with
  | some eth => cases dgram.serialize <;> exact ⟨rfl, rfl, rfl, rfl, rfl⟩
  | none =>
      dsimp only
      split_ifs <;> exact ⟨rfl, rfl, rfl, rfl, rfl⟩

theorem KeepsMappings.answer (h : n.KeepsMappings n') (msg : ArpMessage) :
    n.KeepsMappings (n'.answer msg) := by
  rw [NetworkInterface.answer]
  split_ifs
  · exact ⟨h.ip2eth, h.timestampsPair, h.time, h.ethernetAddress, h.ipAddress⟩
  · exact h

/-- An ARP message does to the mappings what `remember` does. -/
theorem keepsMappings_hear (n : NetworkInterface) (msg : ArpMessage) :
    (n.remember msg.senderIpAddress msg.senderEthernetAddress).KeepsMappings (n.hear msg) := by
  simp only [hear, sendQueuedLeft_eq]
  split_ifs
  · refine KeepsMappings.answer ?_ msg
    exact ⟨rfl, rfl, rfl, rfl, rfl⟩
  · exact ⟨rfl, rfl, rfl, rfl, rfl⟩
  · refine KeepsMappings.answer ?_ msg
    exact ⟨rfl, rfl, rfl, rfl, rfl⟩

theorem remember_of_none {ip : UInt32} (h : n.ip2eth ip = none) (eth : EthernetAddress) :
    n.remember ip eth =
      { n with
        timestampsPair := n.timestampsPair ++ [((ip, eth), n.time)]
        ip2eth := Function.update n.ip2eth ip (some eth) } := by
  rw [remember, h]
  rfl

theorem remember_of_some {ip : UInt32} {known : EthernetAddress} (h : n.ip2eth ip = some known)
    (eth : EthernetAddress) : n.remember ip eth = n := by
  rw [remember, h]
  rfl

theorem expire_eq (n : NetworkInterface) (pairs : List ((UInt32 × EthernetAddress) × ℕ)) :
    n.expire pairs =
      { n with
        ip2eth := forget n.ip2eth (pairs.takeWhile fun e ↦ n.age e > 30000)
        timestampsPair := pairs.dropWhile fun e ↦ n.age e > 30000 } := by
  induction pairs generalizing n with
  | nil => rfl
  | cons curr rest ih =>
      rw [expire, ← age, List.takeWhile_cons, List.dropWhile_cons]
      by_cases hold : n.age curr > 30000
      · rw [if_pos hold, ih, if_pos (decide_eq_true hold), if_pos (decide_eq_true hold),
          ← forget_update_none]
        rfl
      · rw [if_neg hold, if_neg (by simpa using hold), if_neg (by simpa using hold)]
        rfl

@[simp] theorem after_ethernetAddress (n : NetworkInterface) (op : Op) :
    (n.after op).ethernetAddress = n.ethernetAddress := by
  cases op with
  | sendDatagram dgram nextHop =>
      rw [after_sendDatagram, (n.keepsMappings_send dgram _).ethernetAddress]
  | recvFrame frame =>
      cases hheard : n.heard frame with
      | none => rw [after_recvFrame_of_heard_eq_none hheard]
      | some msg =>
          rw [after_recvFrame_of_heard hheard, (n.keepsMappings_hear msg).ethernetAddress,
            remember_ethernetAddress]
  | tick ms =>
      change (n.tick ms).ethernetAddress = _
      rw [tick, expire_eq]
  | takeFrame => rfl

/-- The mappings are those of the entries, oldest first, and none is older than thirty
seconds. -/
structure Current (n : NetworkInterface) : Prop where
  time_lt : n.time < 2 ^ 64
  stamp_lt : ∀ e ∈ n.timestampsPair, e.2 < 2 ^ 64
  mapped : Mapped n.ip2eth n.timestampsPair
  sorted : n.timestampsPair.Pairwise fun a b ↦ n.age b ≤ n.age a
  young : ∀ e ∈ n.timestampsPair, n.age e ≤ 30000

namespace Current

theorem of_keepsMappings (h : n.Current) (hkeeps : n.KeepsMappings n') : n'.Current := by
  have hage : n'.age = n.age := by
    funext e
    rw [age, age, hkeeps.time]
  constructor
  · exact hkeeps.time ▸ h.time_lt
  · exact hkeeps.timestampsPair ▸ h.stamp_lt
  · exact hkeeps.timestampsPair ▸ hkeeps.ip2eth ▸ h.mapped
  · exact hage ▸ hkeeps.timestampsPair ▸ h.sorted
  · exact hage ▸ hkeeps.timestampsPair ▸ h.young

theorem remember (h : n.Current) (ip : UInt32) (eth : EthernetAddress) :
    (n.remember ip eth).Current := by
  cases hip : n.ip2eth ip with
  | some known => exact (remember_of_some hip eth).symm ▸ h
  | none =>
      have hzero : n.age ((ip, eth), n.time) = 0 := by simp [age, sub64]
      rw [remember_of_none hip]
      constructor
      case time_lt => exact h.time_lt
      case stamp_lt =>
        intro e he
        rcases List.mem_append.mp he with he | he
        · exact h.stamp_lt e he
        · exact List.mem_singleton.mp he ▸ h.time_lt
      case mapped => exact h.mapped.append hip eth n.time
      case sorted =>
        refine List.pairwise_append.mpr ⟨h.sorted, List.pairwise_singleton _ _, ?_⟩
        intro a _ b hb
        rw [List.mem_singleton.mp hb]
        exact hzero.trans_le (Nat.zero_le _)
      case young =>
        intro e he
        rcases List.mem_append.mp he with he | he
        · exact h.young e he
        · rw [List.mem_singleton.mp he]
          exact hzero.trans_le (Nat.zero_le _)

theorem hear (h : n.Current) (msg : ArpMessage) : (n.hear msg).Current :=
  (h.remember _ _).of_keepsMappings (n.keepsMappings_hear msg)

theorem age_tick (h : n.Current) {ms : ℕ} {e : (UInt32 × EthernetAddress) × ℕ}
    (he : e ∈ n.timestampsPair) (hms : n.age e + ms < 2 ^ 64) :
    sub64 (add64 n.time ms) e.2 = n.age e + ms :=
  age_add h.time_lt (h.stamp_lt e he) hms

/-- The scan finds all entries of more than thirty seconds. -/
theorem tick_eq (h : n.Current) {ms : ℕ}
    (hms : ∀ e ∈ n.timestampsPair, n.age e + ms < 2 ^ 64) :
    n.tick ms =
      { n with
        time := add64 n.time ms
        ip2eth := forget n.ip2eth (n.timestampsPair.filter fun e ↦ n.age e + ms > 30000)
        timestampsPair := n.timestampsPair.filter fun e ↦ !decide (n.age e + ms > 30000) } := by
  let later : NetworkInterface := { n with time := add64 n.time ms }
  have hage : ∀ e ∈ n.timestampsPair,
      decide (later.age e > 30000) = decide (n.age e + ms > 30000) := by
    intro e he
    rw [age, h.age_tick he (hms e he)]
  have hsorted : n.timestampsPair.Pairwise fun a b ↦
      decide (later.age b > 30000) → decide (later.age a > 30000) := by
    refine h.sorted.imp_of_mem fun ha hb hab hold ↦ ?_
    rw [hage _ hb] at hold
    rw [hage _ ha]
    exact decide_eq_true ((of_decide_eq_true hold).trans_le (Nat.add_le_add_right hab ms))
  have hyoung : ∀ e ∈ n.timestampsPair,
      (!decide (later.age e > 30000)) = !decide (n.age e + ms > 30000) := by
    intro e he
    rw [hage e he]
  rw [← List.filter_congr hage, ← List.filter_congr hyoung, ← takeWhile_eq_filter hsorted,
    ← dropWhile_eq_filter hsorted]
  exact later.expire_eq n.timestampsPair

theorem tick (h : n.Current) {ms : ℕ} (hms : ∀ e ∈ n.timestampsPair, n.age e + ms < 2 ^ 64) :
    (n.tick ms).Current := by
  have hage : ∀ e ∈ n.timestampsPair, sub64 (add64 n.time ms) e.2 = n.age e + ms :=
    fun e he ↦ h.age_tick he (hms e he)
  rw [h.tick_eq hms]
  constructor
  case time_lt => exact add64_lt _ _
  case stamp_lt => exact fun e he ↦ h.stamp_lt e (List.mem_of_mem_filter he)
  case mapped => exact h.mapped.filter _
  case sorted =>
    refine (h.sorted.imp_of_mem fun ha hb hab ↦ ?_).filter _
    rw [age, age, hage _ ha, hage _ hb]
    exact Nat.add_le_add_right hab ms
  case young =>
    intro e he
    obtain ⟨he, hyoung⟩ := List.mem_filter.mp he
    rw [age, hage e he]
    simpa using hyoung

end Current

/-- No tick lets the age of an entry run over. -/
def AgesFit (n : NetworkInterface) : Op → Prop
  | .tick ms => ∀ e ∈ n.timestampsPair, n.age e + ms < 2 ^ 64
  | .sendDatagram _ _ | .recvFrame _ | .takeFrame => True

instance (n : NetworkInterface) : (op : Op) → Decidable (n.AgesFit op)
  | .tick ms => inferInstanceAs (Decidable (∀ e ∈ n.timestampsPair, n.age e + ms < 2 ^ 64))
  | .sendDatagram _ _ | .recvFrame _ | .takeFrame => .isTrue trivial

theorem Current.after (h : n.Current) {op : Op} (hop : n.AgesFit op) : (n.after op).Current := by
  cases op with
  | sendDatagram dgram nextHop =>
      rw [after_sendDatagram]
      exact h.of_keepsMappings (n.keepsMappings_send dgram _)
  | recvFrame frame =>
      cases hheard : n.heard frame with
      | none => exact (after_recvFrame_of_heard_eq_none hheard).symm ▸ h
      | some msg => exact (after_recvFrame_of_heard hheard).symm ▸ h.hear msg
  | tick ms => exact h.tick hop
  | takeFrame => exact h.of_keepsMappings ⟨rfl, rfl, rfl, rfl, rfl⟩

theorem remember_ip2eth_ne_none (n : NetworkInterface) (ip : UInt32) (eth : EthernetAddress) :
    (n.remember ip eth).ip2eth ip ≠ none := by
  cases hip : n.ip2eth ip with
  | some known => simp [remember_of_some hip, hip]
  | none => simp [remember_of_none hip]

theorem type_arpFrame_ne (n : NetworkInterface) (opcode : UInt16) (ip : UInt32)
    (eth : EthernetAddress) : (n.arpFrame opcode ip eth).header.type ≠ EthernetHeader.typeIpv4 :=
  show EthernetHeader.typeArp ≠ EthernetHeader.typeIpv4 by decide

theorem dst_of_mem_sendFrames {dgram : Ipv4Datagram} {ip : UInt32} {frame : EthernetFrame}
    (h : frame ∈ n.sendFrames dgram ip) (htype : frame.header.type = EthernetHeader.typeIpv4) :
    n.ip2eth ip = some frame.header.dst := by
  rw [sendFrames] at h
  cases heth : n.ip2eth ip with
  | some eth =>
      cases hser : dgram.serialize with
      | ok payload =>
          simp only [heth, hser, List.mem_singleton] at h
          rw [h]
          rfl
      | error e => simp [heth, hser] at h
  | none =>
      simp only [heth] at h
      split_ifs at h
      · cases h
      · rw [List.mem_singleton.mp h] at htype
        exact absurd htype (n.type_arpFrame_ne _ _ _)

/-- An ARP message pushes IPv4 frames to the address that is then known for its sender, and a
reply. -/
theorem eq_of_mem_hearFrames {msg : ArpMessage} {frame : EthernetFrame}
    (h : frame ∈ n.hearFrames msg) :
    (∃ eth payload, frame = n.ipv4Frame eth payload ∧
      (n.remember msg.senderIpAddress msg.senderEthernetAddress).ip2eth msg.senderIpAddress =
        some eth) ∨
    frame = n.arpFrame ArpMessage.opcodeReply msg.senderIpAddress msg.senderEthernetAddress := by
  obtain ⟨eth, heth⟩ := Option.ne_none_iff_exists'.mp
    (n.remember_ip2eth_ne_none msg.senderIpAddress msg.senderEthernetAddress)
  have hanswer : frame ∈ n.answerFrames msg → frame = n.arpFrame ArpMessage.opcodeReply
      msg.senderIpAddress msg.senderEthernetAddress := by
    rw [answerFrames]
    split_ifs
    · exact List.mem_singleton.mp
    · exact fun hmem ↦ absurd hmem List.not_mem_nil
  have hqueue : ∀ {payloads : List (List UInt8)}, frame ∈ payloads.map (n.ipv4Frame eth) →
      ∃ eth' payload, frame = n.ipv4Frame eth' payload ∧
        (n.remember msg.senderIpAddress msg.senderEthernetAddress).ip2eth msg.senderIpAddress =
          some eth' := by
    intro payloads hmem
    obtain ⟨payload, -, rfl⟩ := List.mem_map.mp hmem
    exact ⟨eth, payload, rfl, heth⟩
  simp only [hearFrames, heth, Option.getD_some] at h
  split_ifs at h
  · exact (List.mem_append.mp h).imp hqueue hanswer
  · rw [List.append_nil] at h
    exact .inl (hqueue h)
  · exact .inr (hanswer h)

theorem dst_of_mem_hearFrames {msg : ArpMessage} {frame : EthernetFrame}
    (h : frame ∈ n.hearFrames msg) (htype : frame.header.type = EthernetHeader.typeIpv4) :
    (n.remember msg.senderIpAddress msg.senderEthernetAddress).ip2eth msg.senderIpAddress =
      some frame.header.dst := by
  rcases eq_of_mem_hearFrames h with ⟨eth, payload, rfl, heth⟩ | rfl
  · exact heth
  · exact absurd htype (n.type_arpFrame_ne _ _ _)

/-- An IPv4 frame goes to the address that is known for its next hop. -/
theorem dst_of_mem_pushed {op : Op} {frame : EthernetFrame}
    (h : frame ∈ n.pushed (n.after op)) :
    ∃ x, op.nextHop = some x ∧ (n.after op).ip2eth x = some frame.header.dst := by
  rw [pushed, drop_framesOut_after] at h
  obtain ⟨hmem, htype⟩ := List.mem_filter.mp h
  have htype : frame.header.type = EthernetHeader.typeIpv4 := of_decide_eq_true htype
  cases op with
  | sendDatagram dgram nextHop =>
      refine ⟨nextHop.ipv4Numeric, rfl, ?_⟩
      rw [after_sendDatagram, (n.keepsMappings_send dgram _).ip2eth]
      exact dst_of_mem_sendFrames hmem htype
  | recvFrame received =>
      rw [newFrames] at hmem
      cases hheard : n.heard received with
      | none => simp [hheard] at hmem
      | some msg =>
          simp only [hheard] at hmem
          refine ⟨msg.senderIpAddress, by rw [Op.nextHop, eq_of_heard hheard], ?_⟩
          rw [after_recvFrame_of_heard hheard, (n.keepsMappings_hear msg).ip2eth]
          exact dst_of_mem_hearFrames hmem htype
  | tick ms => cases hmem
  | takeFrame => cases hmem

/-- A reply that tells an address. -/
def replyFrom (ip : UInt32) (eth : EthernetAddress) : EthernetFrame :=
  { header := { dst := ethernetBroadcast, src := eth, type := EthernetHeader.typeArp }
    payload := ArpMessage.bytes
      { opcode := ArpMessage.opcodeReply, senderEthernetAddress := eth, senderIpAddress := ip } }

end NetworkInterface

/-- An interface with the mappings it learned, each with its time, and the IPv4 frames it
pushed, each with its next hop and its time. -/
structure Learning where
  interface : NetworkInterface
  learned : List ((UInt32 × EthernetAddress) × ℕ) := []
  emitted : List (Option UInt32 × EthernetFrame × ℕ) := []

namespace Learning

open NetworkInterface

def start (ethernetAddress : EthernetAddress) (ipAddress : Address) : Learning :=
  { interface := { ethernetAddress, ipAddress } }

/-- The mapping that an operation teaches: the sender of an ARP message, unless it is known. -/
def learns (n : NetworkInterface) : Op → List ((UInt32 × EthernetAddress) × ℕ)
  | .recvFrame frame =>
    match n.heard frame with
    | some msg =>
      if (n.ip2eth msg.senderIpAddress).isNone then
        [((msg.senderIpAddress, msg.senderEthernetAddress), n.time)]
      else []
    | none => []
  | .sendDatagram _ _ | .tick _ | .takeFrame => []

def step (s : Learning) (op : Op) : Learning :=
  let interface := s.interface.after op
  { interface
    learned := s.learned ++ learns s.interface op
    emitted := s.emitted ++
      (s.interface.pushed interface).map (op.nextHop, ·, interface.time) }

/-- The clock does not run over. -/
def ClockFits (s : Learning) : Op → Prop
  | .tick ms => s.interface.time + ms < 2 ^ 64
  | .sendDatagram _ _ | .recvFrame _ | .takeFrame => True

instance (s : Learning) : (op : Op) → Decidable (s.ClockFits op)
  | .tick ms => inferInstanceAs (Decidable (s.interface.time + ms < 2 ^ 64))
  | .sendDatagram _ _ | .recvFrame _ | .takeFrame => .isTrue trivial

/-- The entries are the mappings that were learned in the last thirty seconds, and every frame
went to one of those of its time. -/
structure Remembers (s : Learning) : Prop where
  current : s.interface.Current
  stamps : ∀ e ∈ s.learned, e.2 ≤ s.interface.time
  entries : ∀ e, e ∈ s.interface.timestampsPair ↔
    e ∈ s.learned ∧ s.interface.time - e.2 ≤ 30000
  emitted : ∀ sent ∈ s.emitted, ∃ x t, sent.1 = some x ∧
    ((x, sent.2.1.header.dst), t) ∈ s.learned ∧ t ≤ sent.2.2 ∧ sent.2.2 - t ≤ 30000

theorem remembers_start (ethernetAddress : EthernetAddress) (ipAddress : Address) :
    (start ethernetAddress ipAddress).Remembers := by
  constructor
  case current => constructor <;> simp [start, Mapped]
  all_goals simp [start]

namespace Remembers

variable {s : Learning}

theorem age_eq (h : s.Remembers) {e : (UInt32 × EthernetAddress) × ℕ}
    (he : e ∈ s.interface.timestampsPair) : s.interface.age e = s.interface.time - e.2 :=
  sub64_of_le (h.stamps e ((h.entries e).mp he).1)

theorem agesFit (h : s.Remembers) {op : Op} (hop : s.ClockFits op) :
    s.interface.AgesFit op := by
  cases op with
  | tick ms =>
      intro e he
      have hle : s.interface.time - e.2 ≤ s.interface.time := Nat.sub_le _ _
      rw [h.age_eq he]
      exact (Nat.add_le_add_right hle ms).trans_lt hop
  | _ => trivial

/-- Where no mapping is learned or forgotten, nothing is to be shown. -/
theorem entries_of_keepsMappings (h : s.Remembers) {n : NetworkInterface}
    (hkeeps : s.interface.KeepsMappings n) :
    s.interface.time ≤ n.time ∧ ∀ e, e ∈ n.timestampsPair ↔
      e ∈ s.learned ++ [] ∧ n.time - e.2 ≤ 30000 := by
  rw [hkeeps.time, hkeeps.timestampsPair, List.append_nil]
  exact ⟨le_refl _, h.entries⟩

theorem entries_hear (h : s.Remembers) {frame : EthernetFrame} {msg : ArpMessage}
    (hheard : s.interface.heard frame = some msg) :
    s.interface.time ≤ (s.interface.hear msg).time ∧
      ∀ e, e ∈ (s.interface.hear msg).timestampsPair ↔
        e ∈ s.learned ++ learns s.interface (.recvFrame frame) ∧
          (s.interface.hear msg).time - e.2 ≤ 30000 := by
  have hkeeps := s.interface.keepsMappings_hear msg
  cases hip : s.interface.ip2eth msg.senderIpAddress with
  | some known =>
      have hlearns : learns s.interface (.recvFrame frame) = [] := by simp [learns, hheard, hip]
      rw [remember_of_some hip] at hkeeps
      rw [hlearns]
      exact h.entries_of_keepsMappings hkeeps
  | none =>
      have hlearns : learns s.interface (.recvFrame frame) =
          [((msg.senderIpAddress, msg.senderEthernetAddress), s.interface.time)] := by
        simp [learns, hheard, hip]
      rw [remember_of_none hip] at hkeeps
      rw [hkeeps.time, hkeeps.timestampsPair, hlearns]
      refine ⟨le_refl _, fun e ↦ ?_⟩
      simp only [List.mem_append, List.mem_singleton, h.entries e]
      constructor
      · rintro (⟨he, hyoung⟩ | rfl)
        · exact ⟨.inl he, hyoung⟩
        · exact ⟨.inr rfl, by simp⟩
      · rintro ⟨he | he, hyoung⟩
        · exact .inl ⟨he, hyoung⟩
        · exact .inr he

theorem entries_tick (h : s.Remembers) {ms : ℕ} (hms : s.interface.time + ms < 2 ^ 64) :
    s.interface.time ≤ (s.interface.tick ms).time ∧
      ∀ e, e ∈ (s.interface.tick ms).timestampsPair ↔
        e ∈ s.learned ++ [] ∧ (s.interface.tick ms).time - e.2 ≤ 30000 := by
  have hfits : s.ClockFits (.tick ms) := hms
  rw [h.current.tick_eq (h.agesFit hfits), add64_of_lt hms]
  dsimp only
  refine ⟨Nat.le_add_right _ _, fun e ↦ ?_⟩
  rw [List.append_nil, List.mem_filter]
  constructor
  · rintro ⟨he, hyoung⟩
    rw [h.age_eq he] at hyoung
    have hstamp := h.stamps e ((h.entries e).mp he).1
    have hyoung : s.interface.time - e.2 + ms ≤ 30000 := by simpa using hyoung
    exact ⟨((h.entries e).mp he).1, by omega⟩
  · rintro ⟨he, hyoung⟩
    have hstamp := h.stamps e he
    have hmem := (h.entries e).mpr ⟨he, by omega⟩
    refine ⟨hmem, ?_⟩
    rw [h.age_eq hmem]
    simp only [gt_iff_lt, Bool.not_eq_true', decide_eq_false_iff_not, not_lt]
    omega

theorem entries_after (h : s.Remembers) {op : Op} (hop : s.ClockFits op) :
    s.interface.time ≤ (s.interface.after op).time ∧
      ∀ e, e ∈ (s.interface.after op).timestampsPair ↔
        e ∈ s.learned ++ learns s.interface op ∧ (s.interface.after op).time - e.2 ≤ 30000 := by
  cases op with
  | sendDatagram dgram nextHop =>
      rw [after_sendDatagram]
      exact h.entries_of_keepsMappings (s.interface.keepsMappings_send dgram _)
  | recvFrame frame =>
      cases hheard : s.interface.heard frame with
      | none =>
          have hlearns : learns s.interface (.recvFrame frame) = [] := by simp [learns, hheard]
          rw [after_recvFrame_of_heard_eq_none hheard, hlearns]
          exact h.entries_of_keepsMappings ⟨rfl, rfl, rfl, rfl, rfl⟩
      | some msg =>
          rw [after_recvFrame_of_heard hheard]
          exact h.entries_hear hheard
  | tick ms => exact h.entries_tick hop
  | takeFrame => exact h.entries_of_keepsMappings ⟨rfl, rfl, rfl, rfl, rfl⟩

theorem stamp_of_mem_learns {n : NetworkInterface} {op : Op}
    {e : (UInt32 × EthernetAddress) × ℕ} (he : e ∈ learns n op) : e.2 = n.time := by
  cases op with
  | recvFrame frame =>
      rw [learns] at he
      cases hheard : n.heard frame with
      | none => simp [hheard] at he
      | some msg =>
          simp only [hheard] at he
          split_ifs at he
          · rw [List.mem_singleton.mp he]
          · cases he
  | _ => cases he

theorem step (h : s.Remembers) {op : Op} (hop : s.ClockFits op) : (s.step op).Remembers := by
  have hcurrent := h.current.after (h.agesFit hop)
  obtain ⟨htime, hentries⟩ := h.entries_after hop
  have hstamps : ∀ e ∈ s.learned ++ learns s.interface op, e.2 ≤ (s.interface.after op).time := by
    intro e he
    rcases List.mem_append.mp he with he | he
    · exact (h.stamps e he).trans htime
    · exact (stamp_of_mem_learns he).trans_le htime
  refine ⟨hcurrent, hstamps, hentries, ?_⟩
  intro sent hsent
  rcases List.mem_append.mp hsent with hsent | hsent
  · obtain ⟨x, t, hx, hlearned, hyoung⟩ := h.emitted sent hsent
    exact ⟨x, t, hx, List.mem_append_left _ hlearned, hyoung⟩
  · obtain ⟨frame, hframe, rfl⟩ := List.mem_map.mp hsent
    obtain ⟨x, hx, hdst⟩ := dst_of_mem_pushed hframe
    obtain ⟨t, ht⟩ := hcurrent.mapped.exists_mem hdst
    obtain ⟨hlearned, hyoung⟩ := (hentries _).mp ht
    exact ⟨x, t, hx, hlearned, hstamps _ hlearned, hyoung⟩

end Remembers

/-- In every run in which the clock does not run over, whether or not operations throw, the
entries of `timestamps_pair` are those of the mappings, one for each, in the order of their
times, and they are what was learned in the last thirty seconds. Every IPv4 frame went to an
address that its next hop had told in an ARP message at most thirty seconds before. -/
theorem mappings_last_thirty_seconds (ethernetAddress : EthernetAddress) (ipAddress : Address)
    (ops : List Op) (hops : Along step ClockFits (start ethernetAddress ipAddress) ops) :
    let s := run step (start ethernetAddress ipAddress) ops
    (∀ x, (s.interface.timestampsPair.filter (·.1.1 = x)).map (·.1.2) =
        (s.interface.ip2eth x).toList) ∧
      s.interface.timestampsPair.Pairwise (·.2 ≤ ·.2) ∧
      (∀ e ∈ s.interface.timestampsPair, e ∈ s.learned ∧ e.2 ≤ s.interface.time) ∧
      (∀ e ∈ s.learned, (e ∈ s.interface.timestampsPair ↔ s.interface.time - e.2 ≤ 30000) ∧
        (s.interface.time - e.2 ≤ 30000 → s.interface.ip2eth e.1.1 = some e.1.2)) ∧
      (∀ sent ∈ s.emitted, ∃ x t, sent.1 = some x ∧
        ((x, sent.2.1.header.dst), t) ∈ s.learned ∧ t ≤ sent.2.2 ∧ sent.2.2 - t ≤ 30000) := by
  intro s
  have h : s.Remembers := run_invariant (I := Remembers) (fun _ _ h hop ↦ h.step hop)
    (remembers_start ethernetAddress ipAddress) hops
  have hstamps : ∀ e ∈ s.interface.timestampsPair, e ∈ s.learned ∧ e.2 ≤ s.interface.time :=
    fun e he ↦ ⟨((h.entries e).mp he).1, h.stamps e ((h.entries e).mp he).1⟩
  refine ⟨h.current.mapped, ?_, hstamps, ?_, h.emitted⟩
  · refine h.current.sorted.imp_of_mem fun {a b} ha hb hab ↦ ?_
    rw [h.age_eq ha, h.age_eq hb] at hab
    exact (Nat.sub_le_sub_iff_left (hstamps a ha).2).mp hab
  · intro e he
    have hiff : e ∈ s.interface.timestampsPair ↔ s.interface.time - e.2 ≤ 30000 :=
      (h.entries e).trans (and_iff_right he)
    exact ⟨hiff, fun hyoung ↦ h.current.mapped.eq_some_of_mem (hiff.mpr hyoung)⟩

/-- A mapping is used ten seconds after it was learned. -/
theorem mapping_used_after_ten_seconds :
    let s := run step (start ethernetBroadcast ⟨2⟩) [.recvFrame (replyFrom 1 (.replicate 6 7)),
      .tick 10000, .sendDatagram { header := { len := 20 } } ⟨1⟩]
    s.emitted.length = 1 ∧ ∀ sent ∈ s.emitted, ∃ x t, sent.1 = some x ∧
      ((x, sent.2.1.header.dst), t) ∈ s.learned ∧ t ≤ sent.2.2 ∧ sent.2.2 - t ≤ 30000 :=
  ⟨by decide +kernel, (mappings_last_thirty_seconds ethernetBroadcast ⟨2⟩
    [.recvFrame (replyFrom 1 (.replicate 6 7)), .tick 10000,
      .sendDatagram { header := { len := 20 } } ⟨1⟩] (by decide +kernel)).2.2.2.2⟩

/-- When the clock runs over, the entries of before have times above it. -/
theorem stamp_above_clock :
    let s := run step (start ethernetBroadcast ⟨2⟩) [.tick (2 ^ 64 - 1),
      .recvFrame (replyFrom 1 (.replicate 6 7)), .tick 1]
    ∃ e ∈ s.interface.timestampsPair, s.interface.time < e.2 := by
  decide +kernel

end Learning

end Sponge
