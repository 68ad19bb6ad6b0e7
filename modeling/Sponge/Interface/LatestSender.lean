import Sponge.Interface.Mappings

/-!
# Who is believed

An interface records the address of a neighbour when it first hears it, and
forgets it thirty seconds later. What the neighbour says in between is not
heeded: another address does not replace the one recorded, and the same address
does not make it last longer.
-/

namespace Sponge

open Lib

namespace NetworkInterface

variable {n n' : NetworkInterface} {ip : UInt32} {eth : EthernetAddress} {ms : ℕ}

/-- What holds in every run: each mapping has its entry, whatever the clock does. -/
structure Stamped (n : NetworkInterface) : Prop where
  time_lt : n.time < 2 ^ 64
  stamp_lt : ∀ e ∈ n.timestampsPair, e.2 < 2 ^ 64
  mapped : Mapped n.ip2eth n.timestampsPair

namespace Stamped

theorem of_keepsMappings (h : n.Stamped) (hkeeps : n.KeepsMappings n') : n'.Stamped :=
  ⟨hkeeps.time ▸ h.time_lt, hkeeps.timestampsPair ▸ h.stamp_lt,
    hkeeps.timestampsPair ▸ hkeeps.ip2eth ▸ h.mapped⟩

theorem remember (h : n.Stamped) (ip : UInt32) (eth : EthernetAddress) :
    (n.remember ip eth).Stamped := by
  cases hip : n.ip2eth ip with
  | some known => exact (remember_of_some hip eth).symm ▸ h
  | none =>
      rw [remember_of_none hip]
      refine ⟨h.time_lt, ?_, h.mapped.append hip eth n.time⟩
      intro e he
      rcases List.mem_append.mp he with he | he
      · exact h.stamp_lt e he
      · exact List.mem_singleton.mp he ▸ h.time_lt

theorem tick (h : n.Stamped) (ms : ℕ) : (n.tick ms).Stamped := by
  rw [NetworkInterface.tick, expire_eq]
  refine ⟨add64_lt _ _, ?_, ?_⟩
  · exact fun e he ↦ h.stamp_lt e ((List.dropWhile_sublist _).subset he)
  · apply Mapped.of_append
    rw [List.takeWhile_append_dropWhile]
    exact h.mapped

theorem after (h : n.Stamped) (op : Op) : (n.after op).Stamped := by
  cases op with
  | sendDatagram dgram nextHop =>
      rw [after_sendDatagram]
      exact h.of_keepsMappings (n.keepsMappings_send dgram _)
  | recvFrame frame =>
      cases hheard : n.heard frame with
      | none => exact (after_recvFrame_of_heard_eq_none hheard).symm ▸ h
      | some msg =>
          rw [after_recvFrame_of_heard hheard]
          exact (h.remember _ _).of_keepsMappings (n.keepsMappings_hear msg)
  | tick ms => exact h.tick ms
  | takeFrame => exact h.of_keepsMappings ⟨rfl, rfl, rfl, rfl, rfl⟩

end Stamped

theorem stamped_run (ethernetAddress : EthernetAddress) (ipAddress : Address) (ops : List Op) :
    (run after { ethernetAddress, ipAddress } ops).Stamped :=
  run_invariant_of_step (I := Stamped) (fun _ op h ↦ h.after op)
    ⟨by norm_num, List.forall_mem_nil _, fun _ ↦ rfl⟩ ops

/-- How far an operation moves the clock. -/
def Op.duration : Op → ℕ
  | .tick ms => ms
  | .sendDatagram _ _ | .recvFrame _ | .takeFrame => 0

def elapsed (ops : List Op) : ℕ := (ops.map Op.duration).sum

/-- The address is known and will still be after `ms`. -/
def Lasts (n : NetworkInterface) (ip : UInt32) (eth : EthernetAddress) (ms : ℕ) : Prop :=
  ∃ e ∈ n.timestampsPair, e.1 = (ip, eth) ∧ n.age e + ms ≤ 30000

instance (n : NetworkInterface) (ip : UInt32) (eth : EthernetAddress) (ms : ℕ) :
    Decidable (n.Lasts ip eth ms) :=
  inferInstanceAs (Decidable (∃ e ∈ n.timestampsPair, _))

theorem Lasts.ip2eth_eq (h : n.Lasts ip eth ms) (hn : n.Stamped) : n.ip2eth ip = some eth := by
  obtain ⟨⟨⟨x, v⟩, t⟩, he, hpair, -⟩ := h
  obtain ⟨rfl, rfl⟩ := Prod.mk.inj hpair
  exact hn.mapped.eq_some_of_mem he

theorem Lasts.of_keepsMappings (h : n.Lasts ip eth ms) (hkeeps : n.KeepsMappings n') :
    n'.Lasts ip eth ms := by
  obtain ⟨e, he, hpair, hage⟩ := h
  refine ⟨e, hkeeps.timestampsPair ▸ he, hpair, ?_⟩
  rw [age, hkeeps.time]
  exact hage

/-- No message replaces or removes an entry. -/
theorem Lasts.remember (h : n.Lasts ip eth ms) (x : UInt32) (other : EthernetAddress) :
    (n.remember x other).Lasts ip eth ms := by
  cases hx : n.ip2eth x with
  | some known => exact (remember_of_some hx other).symm ▸ h
  | none =>
      obtain ⟨e, he, hpair, hage⟩ := h
      rw [remember_of_none hx]
      exact ⟨e, List.mem_append_left _ he, hpair, hage⟩

theorem Lasts.tick (hn : n.Stamped) {later : ℕ} (h : n.Lasts ip eth (ms + later)) :
    (n.tick ms).Lasts ip eth later := by
  obtain ⟨e, he, hpair, hage⟩ := h
  have hnow : sub64 (add64 n.time ms) e.2 = n.age e + ms :=
    age_add hn.time_lt (hn.stamp_lt e he) (by omega)
  rw [NetworkInterface.tick, expire_eq]
  refine ⟨e, ?_, hpair, ?_⟩
  · rw [← List.takeWhile_append_dropWhile (l := n.timestampsPair)
      (p := fun e ↦ decide (sub64 (add64 n.time ms) e.2 > 30000))] at he
    -- The scan stops at the first young entry, and this one is young.
    rcases List.mem_append.mp he with hold | hyoung
    · have hexpired := of_decide_eq_true (List.all_eq_true.mp List.all_takeWhile e hold)
      omega
    · exact hyoung
  · rw [age]
    dsimp only
    omega

theorem Lasts.after (hn : n.Stamped) {op : Op} {later : ℕ}
    (h : n.Lasts ip eth (op.duration + later)) : (n.after op).Lasts ip eth later := by
  cases op with
  | sendDatagram dgram nextHop =>
      rw [Op.duration, Nat.zero_add] at h
      rw [after_sendDatagram]
      exact h.of_keepsMappings (n.keepsMappings_send dgram _)
  | recvFrame frame =>
      rw [Op.duration, Nat.zero_add] at h
      cases hheard : n.heard frame with
      | none => exact (after_recvFrame_of_heard_eq_none hheard).symm ▸ h
      | some msg =>
          rw [after_recvFrame_of_heard hheard]
          exact (h.remember _ _).of_keepsMappings (n.keepsMappings_hear msg)
  | tick ms => exact h.tick hn
  | takeFrame =>
      rw [Op.duration, Nat.zero_add] at h
      exact h.of_keepsMappings ⟨rfl, rfl, rfl, rfl, rfl⟩

theorem Lasts.run (hn : n.Stamped) {ops : List Op} (h : n.Lasts ip eth (elapsed ops)) :
    (Lib.run NetworkInterface.after n ops).Lasts ip eth 0 := by
  induction ops generalizing n with
  | nil => exact h
  | cons op ops ih => exact ih (hn.after op) (h.after hn)

/-- The interface heeds the message: its sender is unknown, or known under the same address for
at least `ms` more. -/
def Heeds (n : NetworkInterface) (msg : ArpMessage) (ms : ℕ) : Prop :=
  n.ip2eth msg.senderIpAddress = none ∨
    n.Lasts msg.senderIpAddress msg.senderEthernetAddress ms

instance (n : NetworkInterface) (msg : ArpMessage) (ms : ℕ) : Decidable (n.Heeds msg ms) :=
  inferInstanceAs (Decidable (_ ∨ _))

theorem Heeds.lasts_hear {msg : ArpMessage} (h : n.Heeds msg ms) (hms : ms ≤ 30000) :
    (n.hear msg).Lasts msg.senderIpAddress msg.senderEthernetAddress ms := by
  apply Lasts.of_keepsMappings _ (n.keepsMappings_hear msg)
  rcases h with hnone | hlasts
  · rw [remember_of_none hnone]
    refine ⟨_, List.mem_append_right _ (List.mem_singleton_self _), rfl, ?_⟩
    rw [age, sub64_of_le (le_refl _)]
    omega
  · exact hlasts.remember _ _

/-- In every reachable state, after an ARP message that the interface heeds, and for thirty
seconds, a datagram for its sender is emitted at once in a frame to the address it told. -/
theorem datagrams_follow_sender (ethernetAddress : EthernetAddress) (ipAddress : Address)
    (before between : List Op) (frame : EthernetFrame) (dgram : Ipv4Datagram)
    (payload : List UInt8) (htype : frame.header.type = EthernetHeader.typeArp)
    (hvalid : (ArpMessage.parse {} frame.payload).1 = .noError)
    (hms : elapsed between ≤ 30000)
    (hheeds : (run after { ethernetAddress, ipAddress } before).Heeds
      (ArpMessage.parse {} frame.payload).2 (elapsed between))
    (hser : dgram.serialize = .ok payload) :
    let msg := (ArpMessage.parse {} frame.payload).2
    let n := run after { ethernetAddress, ipAddress } (before ++ .recvFrame frame :: between)
    (n.after (.sendDatagram dgram ⟨msg.senderIpAddress⟩)).framesOut =
      n.framesOut ++ [n.ipv4Frame msg.senderEthernetAddress payload] := by
  intro msg n
  have hstart := stamped_run ethernetAddress ipAddress before
  have hlearned := hheeds.lasts_hear hms
  rw [← after_recvFrame_of_heard (heard_of_arp htype hvalid)] at hlearned
  have hlasts : n.Lasts msg.senderIpAddress msg.senderEthernetAddress 0 := by
    have hend := hlearned.run (hstart.after _)
    simpa only [n, run_append, run_cons] using hend
  have hknown := hlasts.ip2eth_eq (stamped_run ethernetAddress ipAddress _)
  rw [after_sendDatagram, framesOut_send, sendFrames]
  simp only [hknown, hser]

/-- A datagram sent twenty seconds after the message of an unknown neighbour. -/
theorem datagram_follows_new_sender :
    let n := run after { ethernetAddress := ethernetBroadcast, ipAddress := ⟨2⟩ }
      [.recvFrame (replyFrom 1 (.replicate 6 7)), .tick 20000]
    ∃ payload, (n.after (.sendDatagram { header := { len := 20 } } ⟨1⟩)).framesOut =
      n.framesOut ++ [n.ipv4Frame (.replicate 6 7) payload] :=
  ⟨_, datagrams_follow_sender ethernetBroadcast ⟨2⟩ [] [.tick 20000]
    (replyFrom 1 (.replicate 6 7)) { header := { len := 20 } } _ rfl (by decide +kernel)
    (by decide) (by decide +kernel) rfl⟩

/-- A neighbour tells another address, and the datagram goes to the old one. A neighbour repeats
its address after twenty seconds, and twenty seconds later it is unknown: the datagram waits, and
a request goes out. -/
theorem latest_sender_not_followed :
    let start : NetworkInterface := { ethernetAddress := ethernetBroadcast, ipAddress := ⟨2⟩ }
    let moved := run after start
      [.recvFrame (replyFrom 1 (.replicate 6 7)), .recvFrame (replyFrom 1 (.replicate 6 8)),
        .sendDatagram { header := { len := 20 } } ⟨1⟩]
    let repeated := run after start
      [.recvFrame (replyFrom 1 (.replicate 6 7)), .tick 20000,
        .recvFrame (replyFrom 1 (.replicate 6 7)), .tick 20000,
        .sendDatagram { header := { len := 20 } } ⟨1⟩]
    moved.framesOut.map (·.header.dst) = [.replicate 6 7] ∧
      repeated.framesOut.map (·.header.type) = [EthernetHeader.typeArp] := by
  decide +kernel

end NetworkInterface

end Sponge
