import Sponge.Interface.LatestSender
import Sponge.Interface.Neighbours

/-!
# How often an address is asked for

An interface asks for the address of a next hop when a datagram has to wait for
it, but not again in the five seconds after. An answer takes the request off the
records; the address is then known for thirty seconds, so that the next request
is late enough as well. Requests are never too early, although the clock of the
interface starts again after `2 ^ 64` milliseconds. They may be too late then:
an old request is taken for a recent one.
-/

namespace Sponge

open Lib

namespace NetworkInterface

/-- By the clock, the address was asked for less than five seconds ago. -/
def Awaits (n : NetworkInterface) (ip : UInt32) : Prop :=
  (n.timestampsArp ip).any fun sent ↦ sub64 n.time sent < 5000

instance (n : NetworkInterface) (ip : UInt32) : Decidable (n.Awaits ip) :=
  inferInstanceAs (Decidable (_ = true))

/-- The requests for the address of `x` that an operation pushes. -/
def requests (n : NetworkInterface) (x : UInt32) (op : Op) : List EthernetFrame :=
  ((n.after op).framesOut.drop n.framesOut.length).filter (asksFor x)

/-- The operation puts a datagram into the queue of `x`. -/
def Queues (n : NetworkInterface) (x : UInt32) (op : Op) : Prop :=
  (n.ip2dgrams x).length < ((n.after op).ip2dgrams x).length

instance (n : NetworkInterface) (x : UInt32) (op : Op) : Decidable (n.Queues x op) :=
  inferInstanceAs (Decidable (_ < _))

/-! What a datagram does. -/

theorem timestampsArp_send (n : NetworkInterface) (dgram : Ipv4Datagram) (ip : UInt32) :
    (n.send dgram ip).timestampsArp =
      if n.ip2eth ip = none ∧ ¬n.Awaits ip then
        Function.update n.timestampsArp ip (some n.time)
      else n.timestampsArp := by
  rw [send]
  cases n.ip2eth ip with
  | some eth => cases dgram.serialize <;> simp [pushFrame]
  | none =>
      dsimp only
      split_ifs with hwait hasks hasks
      · exact absurd hwait hasks.2
      · rfl
      · rfl
      · exact absurd ⟨rfl, hwait⟩ hasks

theorem requests_sendDatagram (n : NetworkInterface) (x : UInt32) (dgram : Ipv4Datagram)
    (nextHop : Address) :
    n.requests x (.sendDatagram dgram nextHop) =
      if nextHop.ipv4Numeric = x ∧ n.ip2eth x = none ∧ ¬n.Awaits x then
        [n.arpFrame ArpMessage.opcodeRequest x addrBroadcast]
      else [] := by
  rw [requests, drop_framesOut_after, newFrames, sendFrames]
  generalize nextHop.ipv4Numeric = ip
  cases heth : n.ip2eth ip with
  | some eth =>
      have hnot : ¬(ip = x ∧ n.ip2eth x = none ∧ ¬n.Awaits x) := by
        rintro ⟨rfl, hnone, -⟩
        simp [heth] at hnone
      rw [if_neg hnot]
      cases dgram.serialize <;> simp
  | none =>
      dsimp only
      split_ifs with hwait hasks hasks
      · exact absurd hwait (hasks.1 ▸ hasks.2.2)
      · rfl
      · obtain ⟨rfl, -⟩ := hasks
        simp [asksFor_arpFrame]
      · have hne : ip ≠ x := by
          rintro rfl
          exact hasks ⟨rfl, heth, hwait⟩
        simp [asksFor_arpFrame, hne]

theorem queues_sendDatagram_iff (n : NetworkInterface) (x : UInt32) (dgram : Ipv4Datagram)
    (nextHop : Address) :
    n.Queues x (.sendDatagram dgram nextHop) ↔
      nextHop.ipv4Numeric = x ∧ n.ip2eth x = none := by
  rw [Queues, after_sendDatagram, send]
  generalize nextHop.ipv4Numeric = ip
  cases heth : n.ip2eth ip with
  | some eth =>
      have hnot : ¬(ip = x ∧ n.ip2eth x = none) := by
        rintro ⟨rfl, hnone⟩
        simp [heth] at hnone
      cases dgram.serialize <;> simp [pushFrame, hnot]
  | none =>
      by_cases hx : ip = x
      · subst hx
        dsimp only
        split_ifs <;> simp [pushFrame, enqueue, heth]
      · dsimp only
        split_ifs <;> simp [pushFrame, enqueue, Function.update_of_ne (Ne.symm hx), hx]

/-! What a frame does. -/

theorem requests_recvFrame (n : NetworkInterface) (x : UInt32) (frame : EthernetFrame) :
    n.requests x (.recvFrame frame) = [] := by
  rw [requests, drop_framesOut_after, newFrames]
  cases n.heard frame with
  | none => rfl
  | some msg =>
      have hreply : ArpMessage.opcodeReply ≠ ArpMessage.opcodeRequest := by decide
      refine List.filter_eq_nil_iff.mpr fun pushed hpushed ↦ ?_
      rcases eq_of_mem_hearFrames hpushed with ⟨eth, payload, rfl, -⟩ | rfl
      · simp
      · simp [asksFor_arpFrame, hreply]

theorem length_unsent_le (queue : List Ipv4Datagram) : (unsent queue).length ≤ queue.length := by
  induction queue with
  | nil => exact le_rfl
  | cons dgram rest ih =>
      rw [unsent]
      cases dgram.serialize with
      | ok payload => exact ih.trans (Nat.le_succ _)
      | error e => exact le_rfl

theorem not_queues_recvFrame (n : NetworkInterface) (x : UInt32) (frame : EthernetFrame) :
    ¬n.Queues x (.recvFrame frame) := by
  rw [Queues, Nat.not_lt]
  cases hheard : n.heard frame with
  | none => rw [after_recvFrame_of_heard_eq_none hheard]
  | some msg =>
      have hle : ((Function.update n.ip2dgrams msg.senderIpAddress
          (unsent (n.ip2dgrams msg.senderIpAddress))) x).length ≤ (n.ip2dgrams x).length := by
        by_cases hx : x = msg.senderIpAddress
        · subst hx
          rw [Function.update_self]
          exact length_unsent_le _
        · rw [Function.update_of_ne hx]
      rw [after_recvFrame_of_heard hheard]
      simp only [hear, sendQueuedLeft_eq]
      split_ifs
      · simpa [eraseArp] using hle
      · simpa [eraseArp] using hle
      · simp

end NetworkInterface

/-- An interface with the time that has passed, and the times at which it asked for the address of
a next hop and put a datagram into its queue. -/
structure Asking where
  interface : NetworkInterface
  clock : ℕ := 0
  requests : List ℕ := []
  queued : List ℕ := []

namespace Asking

open NetworkInterface

def start (ethernetAddress : EthernetAddress) (ipAddress : Address) : Asking :=
  { interface := { ethernetAddress, ipAddress } }

def step (x : UInt32) (s : Asking) (op : Op) : Asking :=
  let clock := s.clock + op.duration
  { interface := s.interface.after op
    clock
    requests := s.requests ++ (s.interface.requests x op).map fun _ ↦ clock
    queued := s.queued ++ if s.interface.Queues x op then [clock] else [] }

/-- The requests for `x` are five seconds apart. The last one is on the records until the address
is known, and five seconds have passed when neither the request nor the address is. -/
structure Paced (x : UInt32) (s : Asking) : Prop where
  stamped : s.interface.Stamped
  time_eq : s.interface.time = s.clock % 2 ^ 64
  past : ∀ request ∈ s.requests, request ≤ s.clock
  pending : ∀ sent, s.interface.timestampsArp x = some sent → s.interface.ip2eth x = none ∧
    ∃ last ∈ s.requests, sent = last % 2 ^ 64 ∧ ∀ request ∈ s.requests, request ≤ last
  known : ∀ e ∈ s.interface.timestampsPair, e.1.1 = x →
    ∃ learned ≤ s.clock, e.2 = learned % 2 ^ 64 ∧ ∀ request ∈ s.requests, request ≤ learned
  idle : s.interface.timestampsArp x = none → s.interface.ip2eth x = none →
    ∀ request ∈ s.requests, request + 5000 ≤ s.clock
  spaced : s.requests.Pairwise fun earlier later ↦ earlier + 5000 ≤ later
  recent : ∀ queued ∈ s.queued, queued < 2 ^ 64 →
    ∃ request ∈ s.requests, request ≤ queued ∧ queued < request + 5000

theorem paced_start (x : UInt32) (ethernetAddress : EthernetAddress) (ipAddress : Address) :
    (start ethernetAddress ipAddress).Paced x := by
  refine ⟨stamped_run ethernetAddress ipAddress [], rfl, ?_, ?_, ?_, ?_, .nil, ?_⟩ <;>
    simp [start]

namespace Paced

variable {x : UInt32} {s : Asking}

/-- Only the mappings and the request for `x` matter. -/
theorem of_keepsMappings (h : s.Paced x) {n : NetworkInterface}
    (hkeeps : s.interface.KeepsMappings n)
    (harp : n.timestampsArp x = s.interface.timestampsArp x) :
    Paced x { s with interface := n } where
  stamped := h.stamped.of_keepsMappings hkeeps
  time_eq := hkeeps.time.trans h.time_eq
  past := h.past
  pending := by
    rw [harp, hkeeps.ip2eth]
    exact h.pending
  known := by
    rw [hkeeps.timestampsPair]
    exact h.known
  idle := by
    rw [harp, hkeeps.ip2eth]
    exact h.idle
  spaced := h.spaced
  recent := h.recent

/-- The time between a point in the past and now is at least what the clock tells. -/
theorem sub64_le (h : s.Paced x) {past : ℕ} (hpast : past ≤ s.clock) :
    sub64 s.interface.time (past % 2 ^ 64) ≤ s.clock - past := by
  rw [h.time_eq, sub64_mod hpast]
  exact Nat.mod_le _ _

/-- When the interface does not wait for an answer, five seconds have passed. -/
theorem add_le_clock (h : s.Paced x) (heth : s.interface.ip2eth x = none)
    (hwait : ¬s.interface.Awaits x) {request : ℕ} (hrequest : request ∈ s.requests) :
    request + 5000 ≤ s.clock := by
  cases harp : s.interface.timestampsArp x with
  | none => exact h.idle harp heth request hrequest
  | some sent =>
      obtain ⟨-, last, hlast, rfl, hle⟩ := h.pending sent harp
      have hage : ¬sub64 s.interface.time (last % 2 ^ 64) < 5000 := by
        simpa [Awaits, harp] using hwait
      have hclock := h.sub64_le (h.past last hlast)
      have hbefore := hle request hrequest
      omega

/-- When the interface waits for an answer, it has asked in the last five seconds, unless its clock
has started again. -/
theorem exists_recent (h : s.Paced x) (hwait : s.interface.Awaits x) (hclock : s.clock < 2 ^ 64) :
    ∃ request ∈ s.requests, request ≤ s.clock ∧ s.clock < request + 5000 := by
  obtain ⟨sent, harp, hage⟩ := (Option.any_eq_true _ _).mp hwait
  obtain ⟨-, last, hlast, rfl, -⟩ := h.pending sent harp
  have hpast := h.past last hlast
  have hless := of_decide_eq_true hage
  rw [h.time_eq, sub64_mod hpast, Nat.mod_eq_of_lt (by omega)] at hless
  exact ⟨last, hlast, hpast, by omega⟩

theorem ask (h : s.Paced x) (heth : s.interface.ip2eth x = none)
    (hwait : ¬s.interface.Awaits x) :
    Paced x
      { s with
        interface :=
          { s.interface with
            timestampsArp :=
              Function.update s.interface.timestampsArp x (some s.interface.time) }
        requests := s.requests ++ [s.clock] } where
  stamped := h.stamped.of_keepsMappings ⟨rfl, rfl, rfl, rfl, rfl⟩
  time_eq := h.time_eq
  past := by
    rw [List.forall_mem_append, List.forall_mem_singleton]
    exact ⟨h.past, le_rfl⟩
  pending := by
    intro sent hsent
    obtain rfl : s.interface.time = sent := by simpa using hsent
    refine ⟨heth, s.clock, List.mem_append_right _ List.mem_cons_self, h.time_eq, ?_⟩
    rw [List.forall_mem_append, List.forall_mem_singleton]
    exact ⟨h.past, le_rfl⟩
  known := by
    rintro ⟨⟨y, eth⟩, t⟩ he rfl
    have hsome := h.stamped.mapped.eq_some_of_mem he
    rw [heth] at hsome
    cases hsome
  idle := by
    intro hnone
    simp at hnone
  spaced := by
    refine List.pairwise_append.mpr ⟨h.spaced, List.pairwise_singleton _ _, ?_⟩
    intro request hrequest later hlater
    rw [List.mem_singleton.mp hlater]
    exact h.add_le_clock heth hwait hrequest
  recent := by
    intro queued hqueued hlt
    obtain ⟨request, hrequest, hnear⟩ := h.recent queued hqueued hlt
    exact ⟨request, List.mem_append_left _ hrequest, hnear⟩

theorem queue (h : s.Paced x)
    (hrecent : s.clock < 2 ^ 64 →
      ∃ request ∈ s.requests, request ≤ s.clock ∧ s.clock < request + 5000) :
    Paced x { s with queued := s.queued ++ [s.clock] } where
  stamped := h.stamped
  time_eq := h.time_eq
  past := h.past
  pending := h.pending
  known := h.known
  idle := h.idle
  spaced := h.spaced
  recent := by
    rw [List.forall_mem_append, List.forall_mem_singleton]
    exact ⟨h.recent, hrecent⟩

/-- A neighbour has spoken: if it is `x`, its address is known from now on. -/
theorem learn (h : s.Paced x) (ip : UInt32) (eth : EthernetAddress) :
    Paced x { s with interface := (s.interface.remember ip eth).eraseArp ip } where
  stamped := (h.stamped.remember ip eth).of_keepsMappings ⟨rfl, rfl, rfl, rfl, rfl⟩
  time_eq := by
    refine Eq.trans ?_ h.time_eq
    cases hip : s.interface.ip2eth ip with
    | some known => rw [remember_of_some hip, eraseArp]
    | none => rw [remember_of_none hip, eraseArp]
  past := h.past
  pending := by
    intro sent hsent
    by_cases hx : x = ip
    · simp [eraseArp, hx] at hsent
    · simp only [eraseArp, remember_timestampsArp, Function.update_of_ne hx] at hsent
      exact ⟨(remember_ip2eth_of_ne _ _ _ hx).trans (h.pending sent hsent).1,
        (h.pending sent hsent).2⟩
  known := by
    intro e he hx
    cases hip : s.interface.ip2eth ip with
    | some known =>
        rw [remember_of_some hip] at he
        exact h.known e he hx
    | none =>
        rw [remember_of_none hip] at he
        rcases List.mem_append.mp he with hold | hnew
        · exact h.known e hold hx
        · rw [List.mem_singleton.mp hnew]
          exact ⟨s.clock, le_rfl, h.time_eq, h.past⟩
  idle := by
    intro hnone heth
    by_cases hx : x = ip
    · exact absurd (hx ▸ heth) (s.interface.remember_ip2eth_ne_none ip eth)
    · simp only [eraseArp, remember_timestampsArp, Function.update_of_ne hx] at hnone
      exact h.idle hnone ((remember_ip2eth_of_ne _ _ _ hx).symm.trans heth)
  spaced := h.spaced
  recent := h.recent

theorem hear (h : s.Paced x) (msg : ArpMessage) :
    Paced x { s with interface := s.interface.hear msg } := by
  refine (h.learn msg.senderIpAddress msg.senderEthernetAddress).of_keepsMappings ?_ ?_
  · obtain ⟨heth, hpairs, htime, hown, hip⟩ := s.interface.keepsMappings_hear msg
    exact ⟨heth, hpairs, htime, hown, hip⟩
  · rw [timestampsArp_hear, eraseArp, remember_timestampsArp]

theorem tick (h : s.Paced x) (ms : ℕ) :
    Paced x { s with interface := s.interface.tick ms, clock := s.clock + ms } := by
  have htime : add64 s.interface.time ms = (s.clock + ms) % 2 ^ 64 := by
    rw [add64, h.time_eq, Nat.mod_add_mod]
  have hstamped := h.stamped.tick ms
  rw [NetworkInterface.tick, expire_eq] at hstamped ⊢
  refine ⟨hstamped, htime, ?_, ?_, ?_, ?_, h.spaced, h.recent⟩
  · exact fun request hrequest ↦ (h.past request hrequest).trans (Nat.le_add_right _ _)
  · intro sent hsent
    obtain ⟨heth, hlast⟩ := h.pending sent hsent
    refine ⟨?_, hlast⟩
    dsimp only
    rw [forget, heth, ite_self]
  · intro e he hx
    obtain ⟨learned, hle, hrest⟩ := h.known e ((List.dropWhile_sublist _).subset he) hx
    exact ⟨learned, hle.trans (Nat.le_add_right _ _), hrest⟩
  · intro harp heth request hrequest
    by_cases hbefore : s.interface.ip2eth x = none
    · exact (h.idle harp hbefore request hrequest).trans (Nat.le_add_right _ _)
    · -- The address was forgotten just now, so its entry is old, and the request is older.
      obtain ⟨e, he, hx⟩ : ∃ e ∈ s.interface.timestampsPair.takeWhile
          (fun e ↦ sub64 (add64 s.interface.time ms) e.2 > 30000), e.1.1 = x := by
        by_contra hnone
        refine hbefore (Eq.trans ?_ heth)
        dsimp only
        rw [forget, if_neg]
        simpa [age] using hnone
      have hold := of_decide_eq_true (List.all_eq_true.mp List.all_takeWhile e he)
      obtain ⟨learned, hle, hstamp, hrequests⟩ :=
        h.known e ((List.takeWhile_sublist _).subset he) hx
      rw [hstamp, htime, sub64_mod (hle.trans (Nat.le_add_right _ _))] at hold
      have hmod := Nat.mod_le (s.clock + ms - learned) (2 ^ 64)
      have hrequest' := hrequests request hrequest
      dsimp only
      omega

theorem step_of_quiet {op : Op} (hrequests : s.interface.requests x op = [])
    (hqueues : ¬s.interface.Queues x op)
    (h : Paced x { s with interface := s.interface.after op, clock := s.clock + op.duration }) :
    (s.step x op).Paced x := by
  rw [step, hrequests, if_neg hqueues, List.map_nil, List.append_nil, List.append_nil]
  exact h

theorem step_sendDatagram (h : s.Paced x) (dgram : Ipv4Datagram) (nextHop : Address) :
    (s.step x (.sendDatagram dgram nextHop)).Paced x := by
  have hkeeps := s.interface.keepsMappings_send dgram nextHop.ipv4Numeric
  have hrequests := s.interface.requests_sendDatagram x dgram nextHop
  have hqueues := s.interface.queues_sendDatagram_iff x dgram nextHop
  have harp := s.interface.timestampsArp_send dgram nextHop.ipv4Numeric
  by_cases hx : nextHop.ipv4Numeric = x ∧ s.interface.ip2eth x = none
  · obtain ⟨hhop, heth⟩ := hx
    rw [hhop] at hkeeps harp
    rw [step, after_sendDatagram, hhop, hrequests, if_pos (hqueues.mpr ⟨hhop, heth⟩)]
    by_cases hwait : s.interface.Awaits x
    · rw [if_neg fun hasks ↦ hasks.2.2 hwait, List.map_nil, List.append_nil]
      rw [if_neg fun hasks ↦ hasks.2 hwait] at harp
      exact (h.of_keepsMappings hkeeps (congrFun harp x)).queue (h.exists_recent hwait)
    · rw [if_pos ⟨hhop, heth, hwait⟩, List.map_singleton]
      rw [if_pos ⟨heth, hwait⟩] at harp
      obtain ⟨hsame, hpairs, htime, hown, hip⟩ := hkeeps
      refine ((h.ask heth hwait).of_keepsMappings ⟨hsame, hpairs, htime, hown, hip⟩
        (congrFun harp x)).queue fun _ ↦ ?_
      exact ⟨s.clock, List.mem_append_right _ List.mem_cons_self, le_rfl,
        Nat.lt_add_of_pos_right (by norm_num)⟩
  · refine step_of_quiet ?_ (hqueues.not.mpr hx) ?_
    · rw [hrequests, if_neg fun hasks ↦ hx ⟨hasks.1, hasks.2.1⟩]
    · rw [after_sendDatagram]
      refine h.of_keepsMappings hkeeps ?_
      rw [harp]
      split_ifs with hasks
      · refine Function.update_of_ne ?_ _ _
        rintro rfl
        exact hx ⟨rfl, hasks.1⟩
      · rfl

theorem step (h : s.Paced x) (op : Op) : (s.step x op).Paced x := by
  cases op with
  | sendDatagram dgram nextHop => exact h.step_sendDatagram dgram nextHop
  | recvFrame frame =>
      refine step_of_quiet (requests_recvFrame _ x frame) (not_queues_recvFrame _ x frame) ?_
      cases hheard : s.interface.heard frame with
      | none => exact (after_recvFrame_of_heard_eq_none hheard).symm ▸ h
      | some msg => exact (after_recvFrame_of_heard hheard).symm ▸ h.hear msg
  | tick ms =>
      refine step_of_quiet ?_ ?_ (h.tick ms)
      · rw [NetworkInterface.requests, drop_framesOut_after]
        rfl
      · change ¬_ < ((s.interface.tick ms).ip2dgrams x).length
        rw [NetworkInterface.tick, expire_eq]
        exact lt_irrefl _
  | takeFrame =>
      refine step_of_quiet ?_ (lt_irrefl _) (h.of_keepsMappings ⟨rfl, rfl, rfl, rfl, rfl⟩ rfl)
      rw [NetworkInterface.requests, drop_framesOut_after]
      rfl

end Paced

/-- In every run, any two requests for the address of `x` are at least five seconds apart, and
whenever a datagram is put into the queue of `x`, its address was asked for less than five seconds
before, as long as the clock has not started again. -/
theorem requests_five_seconds_apart (ethernetAddress : EthernetAddress) (ipAddress : Address)
    (x : UInt32) (ops : List Op) :
    let s := run (step x) (start ethernetAddress ipAddress) ops
    s.requests.Pairwise (fun earlier later ↦ earlier + 5000 ≤ later) ∧
      ∀ queued ∈ s.queued, queued < 2 ^ 64 →
        ∃ request ∈ s.requests, request ≤ queued ∧ queued < request + 5000 := by
  have hpaced : (run (step x) (start ethernetAddress ipAddress) ops).Paced x :=
    run_invariant_of_step (I := Paced x) (fun _ op h ↦ h.step op)
      (paced_start x ethernetAddress ipAddress) ops
  exact ⟨hpaced.spaced, hpaced.recent⟩

/-- The clock has started again when the second datagram comes, so the only request, which is
`2 ^ 64` milliseconds old, is taken for one of the same millisecond. -/
theorem queued_without_request :
    let s := run (step 1) (start (.replicate 6 2) ⟨2⟩)
      [.sendDatagram { header := { len := 20 } } ⟨1⟩, .tick (2 ^ 64 - 1), .tick 1,
        .sendDatagram { header := { len := 20 } } ⟨1⟩]
    s.requests = [0] ∧ s.queued = [0, 2 ^ 64] := by
  decide +kernel

end Asking

end Sponge
