import Sponge.Socket.Pair

/-!
# Bytes from pipe to pipe

What the owner of one socket writes into its pipe is what the owner of the other
one reads: a prefix of it at any time, and all of it once the outbound stream
is reported to be fully acknowledged or the inbound one to have finished cleanly.
-/

namespace Sponge

open Lib

namespace TcpSpongeSocket

variable {α ρ ω : Type} [FdAdapter α ρ ω] {s s' : TcpSpongeSocket α ω} {event : Event ρ}

/-- The end of the pipe ends the outbound stream. -/
def Told (s : TcpSpongeSocket α ω) : Prop :=
  s.threadData.eof = true → s.outboundShutdown = true

/-- What an event can do to the flags: the end of the pipe is noticed by ending the stream, the
acknowledgment of everything is reported when nothing is in flight, and the inbound stream is shut
down at its end or when it failed. -/
structure Reports (s s' : TcpSpongeSocket α ω) : Prop where
  told : s.Told → s'.Told
  acked : s'.fullyAcked = true →
    s.fullyAcked = true ∨ s'.threadData.eof = true ∧ s'.tcp.bytesInFlight = 0
  shut : s'.inboundShutdown = true → s.inboundShutdown = true ∨
    s'.tcp.inboundStream.eof = true ∨ s'.tcp.inboundStream.error = true

theorem reports_pipeOut {answers : Answers} (h : s.pipeOut answers = .ok s') : s.Reports s' := by
  have hends := s.threadData.ends_write
    (s.tcp.inboundStream.peekOutput (min 65536 s.tcp.inboundStream.bufferSize)) answers.write
  obtain ⟨⟨n, threadData⟩, hwrite, hrest⟩ := exists_of_bind h
  obtain ⟨-, -, hthread⟩ := hends.result hwrite
  dsimp only at hthread hrest
  subst hthread
  split_ifs at hrest with hend
  · obtain ⟨threadData, hshutdown, hpure⟩ := exists_of_bind hrest
    have hthread := (Channel.ends_shutdownWrite _ answers.shutdown).result hshutdown
    subst hthread
    cases hpure
    exact ⟨id, Or.inl, fun _ ↦ Or.inr (Bool.or_eq_true_iff.mp hend)⟩
  · cases hrest
    exact ⟨id, Or.inl, Or.inl⟩

theorem reports_apply (h : s.apply event = .ok s') : s.Reports s' := by
  cases event with
  | connect => cases h; exact ⟨id, Or.inl, Or.inl⟩
  | cancelPipeIn => cases h; exact ⟨fun _ _ ↦ rfl, Or.inl, Or.inl⟩
  | tick ms => cases h; exact ⟨id, Or.inl, Or.inl⟩
  | datagramOut =>
      obtain ⟨⟨adapter, written⟩, -, hpure⟩ := exists_of_bind h
      cases hpure
      exact ⟨id, Or.inl, Or.inl⟩
  | datagramIn packet =>
      obtain ⟨⟨seg, adapter, written⟩, -, hpure⟩ := exists_of_bind h
      cases hpure
      refine ⟨id, fun hacked ↦ ?_, Or.inl⟩
      simpa only [Bool.or_eq_true, Bool.and_eq_true, beq_iff_eq] using hacked
  | pipeIn answers =>
      obtain ⟨⟨data, threadData⟩, -, hrest⟩ := exists_of_bind h
      dsimp only at hrest
      by_cases hless : s.tcp.writeSize data ≠ data.length
      · rw [if_pos hless] at hrest
        cases hrest
      rw [if_neg hless] at hrest
      by_cases heof : threadData.eof = true
      · rw [if_pos heof] at hrest
        cases hrest
        exact ⟨fun _ _ ↦ rfl, Or.inl, Or.inl⟩
      · rw [if_neg heof] at hrest
        cases hrest
        exact ⟨fun _ hend ↦ absurd hend heof, Or.inl, Or.inl⟩
  | pipeOut answers => exact reports_pipeOut h

end TcpSpongeSocket

namespace SocketPair

variable {α ρ ω : Type} [FdAdapter α ρ ω] {p p' : SocketPair α ω}

/-- An event changes the flags of the sockets only as it may. -/
theorem reports_apply {event : Event ρ} (h : p.apply event = .ok p') :
    p.a.Reports p'.a ∧ p.b.Reports p'.b := by
  have hsame : ∀ s : TcpSpongeSocket α ω, s.Reports s := fun _ ↦ ⟨id, Or.inl, Or.inl⟩
  cases event with
  | atA event =>
      obtain ⟨a, ha, hpure⟩ := exists_of_bind h
      cases hpure
      exact ⟨TcpSpongeSocket.reports_apply ha, hsame p.b⟩
  | atB event =>
      obtain ⟨b, hb, hpure⟩ := exists_of_bind h
      cases hpure
      exact ⟨hsame p.a, TcpSpongeSocket.reports_apply hb⟩

variable [LawfulFdAdapter α] (A B : TcpSpongeSocket.Opening α ω)

/-- The bytes that come out of one pipe are a prefix of those that went into the other, as long as
no segment arrives that crosses the end of the ring while it sticks out of the window. -/
theorem written_isPrefix_received (hcap : 1 ≤ B.cTcp.recvCapacity)
    (h : Relation.ReflTransGen (Moves TcpReceiver.StoresCleanly) (opened A B) p) :
    p.b.threadData.written <+: p.a.threadData.received := by
  obtain ⟨events, hevents, hrep⟩ :=
    (represents_opened A B).history TcpReceiver.StoresCleanly.of_alike h
  have hbrings := Network.brings_of_clean A.cTcp B.cTcp A.random B.random hcap
    (hevents.imp fun _ _ hok ↦ hok.cleanlyAllowed)
  rw [← hrep.a.accepted, ← hrep.b.taken]
  exact (List.prefix_append _ _).trans hbrings.isPrefix_accepted

theorem written_isPrefix_received_exchange : ∃ p,
    Relation.ReflTransGen (Moves TcpReceiver.StoresCleanly) (opened client server) p ∧
      p.b.threadData.written <+: [97] := by
  obtain ⟨p, hp, -, -, hreceived⟩ :=
    exists_exchange TcpReceiver.StoresCleanly fun _ _ hright ↦ hright.1
  exact ⟨p, hp, hreceived ▸ written_isPrefix_received client server (by decide) hp⟩

/-- The same for any arrivals, if the bytes fit into the ring of the receiver. -/
theorem written_isPrefix_received_of_fits (hcap : 1 ≤ B.cTcp.recvCapacity)
    (h : Relation.ReflTransGen (Moves fun _ _ ↦ True) (opened A B) p)
    (hfits : p.a.threadData.received.length ≤ B.cTcp.recvCapacity) :
    p.b.threadData.written <+: p.a.threadData.received := by
  obtain ⟨events, hevents, hrep⟩ := (represents_opened A B).history (fun _ _ _ _ h ↦ h) h
  rw [← hrep.a.accepted] at hfits
  have hbrings := Network.brings_of_fits A.cTcp B.cTcp A.random B.random hcap
    (hevents.imp fun _ _ hok ↦ hok.1) hfits
  rw [← hrep.a.accepted, ← hrep.b.taken]
  exact (List.prefix_append _ _).trans hbrings.isPrefix_accepted

theorem written_isPrefix_received_of_fits_exchange : ∃ p,
    Relation.ReflTransGen (Moves fun _ _ ↦ True) (opened client server) p ∧
      p.b.threadData.written <+: [97] := by
  obtain ⟨p, hp, -, -, hreceived⟩ := exists_exchange (fun _ _ ↦ True) fun _ _ _ ↦ trivial
  have hfits : p.a.threadData.received.length ≤ server.cTcp.recvCapacity := by
    rw [hreceived]
    decide
  exact ⟨p, hp, hreceived ▸ written_isPrefix_received_of_fits client server (by decide) hp hfits⟩

/-- What is known of two sockets and the network of their connections. -/
structure Transfers (p : SocketPair α ω) (n : Network) : Prop where
  represents : p.Represents n
  settled : n.Settled
  brings : n.a.Brings n.b
  told : p.a.Told
  acked : p.a.fullyAcked = true → n.Complete

theorem transfers_opened (hcap : 1 ≤ B.cTcp.recvCapacity) :
    (opened A B).Transfers (Network.new A.cTcp B.cTcp A.random B.random) where
  represents := represents_opened A B
  settled := Network.settled_new _ _ _ _ hcap
  brings := Endpoint.brings_new _ _ _ _
  told := fun h ↦ absurd h.symm Bool.true_eq_false_eq_False
  acked := fun h ↦ absurd h.symm Bool.true_eq_false_eq_False

variable {n : Network} {events : List Network.Event}

/-- One event of the sockets, as a run of the network. -/
theorem Transfers.run (h : p.Transfers n) (hreports : p.a.Reports p'.a)
    (hevents : Along Network.step (Network.AllowedIf TcpReceiver.StoresCleanly) n events)
    (hrep : p'.Represents (run Network.step n events)) :
    p'.Transfers (run Network.step n events) := by
  have hsettled := run_invariant (I := Network.Settled) (fun _ _ hn hok ↦ hn.step hok.1) h.settled
    hevents
  have hbrings := run_invariant (I := fun n : Network ↦ n.Settled ∧ n.a.Brings n.b)
    (fun n _ hn hok ↦ ⟨hn.1.step hok.1, Network.brings_step hn.1.direction hn.2 hok.cleanlyAllowed⟩)
    ⟨h.settled, h.brings⟩ hevents
  refine ⟨hrep, hsettled, hbrings.2, hreports.told h.told, fun hacked ↦ ?_⟩
  rcases hreports.acked hacked with hold | ⟨heof, hflight⟩
  · exact (run_invariant (I := fun n : Network ↦ n.Settled ∧ n.Complete)
      (fun n _ hn hok ↦ ⟨hn.1.step hok.1, hn.2.step hn.1 hok.1⟩)
      ⟨h.settled, h.acked hold⟩ hevents).2
  · have hended := hrep.a.ended.trans (hreports.told h.told heof)
    rw [← hrep.a.conn] at hended hflight
    exact hsettled.complete hended hflight

variable {A B} in
theorem exists_transfers (hcap : 1 ≤ B.cTcp.recvCapacity)
    (h : Relation.ReflTransGen (Moves TcpReceiver.StoresCleanly) (opened A B) p) :
    ∃ n, p.Transfers n := by
  induction h with
  | refl => exact ⟨_, transfers_opened A B hcap⟩
  | tail _ hmove ih =>
      obtain ⟨n, hn⟩ := ih
      obtain ⟨event, ⟨hevent, hvolume⟩, happly⟩ := hmove
      obtain ⟨events, hevents, hrep⟩ := (hn.represents.ends_apply hevent
        TcpReceiver.StoresCleanly.of_alike).result happly hvolume
      exact ⟨_, hn.run (reports_apply happly).1 hevents hrep⟩

/-- When the outbound stream of one socket is reported to be fully acknowledged, the end of its
pipe was read, and all bytes before it were handed to the owner of the other one or wait there to
be read. -/
theorem fullyAcked_complete (hcap : 1 ≤ B.cTcp.recvCapacity)
    (h : Relation.ReflTransGen (Moves TcpReceiver.StoresCleanly) (opened A B) p)
    (hacked : p.a.fullyAcked = true) :
    p.a.outboundShutdown = true ∧
      p.b.threadData.written ++ p.b.tcp.inboundStream.deq = p.a.threadData.received := by
  obtain ⟨n, hn⟩ := exists_transfers hcap h
  have hcomplete := hn.acked hacked
  have hended := hcomplete.1
  rw [hn.represents.a.conn] at hended
  refine ⟨hn.represents.a.ended.symm.trans hended, ?_⟩
  rw [← hn.represents.a.accepted, ← hn.represents.b.taken, ← hn.represents.b.conn]
  exact hn.settled.delivered_eq hn.brings hcomplete.2

theorem fullyAcked_complete_exchange : ∃ p,
    Relation.ReflTransGen (Moves TcpReceiver.StoresCleanly) (opened client server) p ∧
      p.b.threadData.written ++ p.b.tcp.inboundStream.deq = [97] := by
  obtain ⟨p, hp, hacked, -, hreceived⟩ :=
    exists_exchange TcpReceiver.StoresCleanly fun _ _ hright ↦ hright.1
  exact ⟨p, hp, (fullyAcked_complete client server (by decide) hp hacked).2.trans hreceived⟩

/-- What is known at the end of the inbound stream, in addition. -/
structure Concludes (p : SocketPair α ω) (n : Network) : Prop where
  transfers : p.Transfers n
  closes : n.a.Closes n.b
  shut : p.b.inboundShutdown = true → n.b.conn.inboundStream.error = true ∨ n.Finished

theorem Concludes.run (h : p.Concludes n) (hreports : p.a.Reports p'.a ∧ p.b.Reports p'.b)
    (hevents : Along Network.step (Network.AllowedIf TcpReceiver.TakesRight) n events)
    (hrep : p'.Represents (run Network.step n events)) :
    p'.Concludes (run Network.step n events) := by
  have hclean : Along Network.step (Network.AllowedIf TcpReceiver.StoresCleanly) n events :=
    hevents.imp fun _ _ hok ↦ hok.imp_right fun hseg seg heq ↦ (hseg seg heq).1
  have htransfers := h.transfers.run hreports.1 hclean hrep
  -- the two invariants of the run, with what their steps rely on
  have hcloses := run_invariant (I := fun n : Network ↦ n.Settled ∧ n.a.Closes n.b)
    (fun n _ hn hok ↦ ⟨hn.1.step hok.1, Network.closes_step hn.1.direction hn.2 hok.1
      fun seg heq ↦ (hok.2 seg heq).2⟩) ⟨h.transfers.settled, h.closes⟩ hevents
  refine ⟨htransfers, hcloses.2, fun hshut ↦ ?_⟩
  rcases hreports.2.shut hshut with hold | heof | herror
  · refine (h.shut hold).imp (fun herror ↦ ?_) fun hfinished ↦ ?_
    · exact run_invariant_of_step (I := fun n : Network ↦ n.b.conn.inboundStream.error = true)
        (fun _ event hn ↦ Network.error_step hn event) herror events
    · refine (run_invariant (I := fun n : Network ↦ n.Settled ∧ n.a.Brings n.b ∧ n.Finished) ?_
        ⟨h.transfers.settled, h.transfers.brings, hfinished⟩ hclean).2.2
      rintro n event ⟨hsettled, hbrings, hn⟩ hok
      have hbrings' := Network.brings_step hsettled.direction hbrings hok.cleanlyAllowed
      exact ⟨hsettled.step hok.1, hbrings', hn.step hsettled hok.1 hbrings'⟩
  · exact Or.inr (Network.finished_of_eof htransfers.settled htransfers.brings hcloses.2
      (hrep.b.conn ▸ heof))
  · exact Or.inl (hrep.b.conn ▸ herror)

variable {A B} in
theorem exists_concludes (hcap : 1 ≤ B.cTcp.recvCapacity)
    (h : Relation.ReflTransGen (Moves TcpReceiver.TakesRight) (opened A B) p) :
    ∃ n, p.Concludes n := by
  induction h with
  | refl =>
      refine ⟨_, transfers_opened A B hcap, Endpoint.closes_new _ _ _ _, fun hshut ↦ ?_⟩
      exact absurd hshut.symm Bool.true_eq_false_eq_False
  | tail _ hmove ih =>
      obtain ⟨n, hn⟩ := ih
      obtain ⟨event, ⟨hevent, hvolume⟩, happly⟩ := hmove
      obtain ⟨events, hevents, hrep⟩ := (hn.transfers.represents.ends_apply hevent
        TcpReceiver.TakesRight.of_alike).result happly hvolume
      exact ⟨_, hn.run (reports_apply happly) hevents hrep⟩

/-- When the inbound stream of one socket has finished, it was reset or failed, or the owner of
the other one has closed its pipe and all bytes written into it can be read. -/
theorem inboundShutdown_complete (hcap : 1 ≤ B.cTcp.recvCapacity)
    (h : Relation.ReflTransGen (Moves TcpReceiver.TakesRight) (opened A B) p)
    (hshut : p.b.inboundShutdown = true) :
    p.b.tcp.inboundStream.error = true ∨
      p.a.outboundShutdown = true ∧ p.b.threadData.written = p.a.threadData.received := by
  obtain ⟨n, hn⟩ := exists_concludes hcap h
  have hrep := hn.transfers.represents
  refine (hn.shut hshut).imp (fun herror ↦ hrep.b.conn ▸ herror) fun hfinished ↦ ?_
  obtain ⟨⟨hended, -⟩, htaken⟩ := hfinished
  rw [hrep.a.conn] at hended
  exact ⟨hrep.a.ended.symm.trans hended, hrep.b.taken.symm.trans (htaken.trans hrep.a.accepted)⟩

theorem inboundShutdown_complete_exchange : ∃ p,
    Relation.ReflTransGen (Moves TcpReceiver.TakesRight) (opened client server) p ∧
      (p.b.tcp.inboundStream.error = true ∨ p.b.threadData.written = [97]) := by
  obtain ⟨p, hp, -, hshut, hreceived⟩ := exists_exchange TcpReceiver.TakesRight fun _ _ h ↦ h
  refine ⟨p, hp, (inboundShutdown_complete client server (by decide) hp hshut).imp_right ?_⟩
  exact fun hall ↦ hall.2.trans hreceived

end SocketPair

end Sponge
