import Sponge.Connection.Closed
import Sponge.Socket.Events

/-!
# The loop of a socket

The event loop calls the callbacks of a socket in such a way that the pipe is
never read after the outbound stream was ended, and every callback does
something about the readiness it is called for. So the thread of a socket drives
its connection by operations only, whatever the kernel and the network do, and
the exceptions it ends with are faults of the kernel. When the loop exits without
a signal there is nothing left to do.
-/

namespace Sponge

open Lib EventLoop

/-- A sender that sends nothing is left as it is. -/
theorem TcpSender.fillWindow_eq_self_of_quiet {s : TcpSender} (hwin : s.windowSize < 2 ^ 64)
    (h : s.fillWindow.segmentsOut = []) : s.fillWindow = s := by
  obtain ⟨segs, -, heq⟩ := TcpSender.exists_emissions hwin
  rw [heq, s.segmentsOut_run_emit] at h
  rw [heq, (List.append_eq_nil_iff.mp h).2]
  rfl

namespace TcpConnection

variable {c : TcpConnection}

/-- A connection that is not active stays so when its input is ended, unless it has something to
send then. -/
theorem Short.inactive_endInputStream (h : c.Short) (hinactive : c.active = false) :
    c.endInputStream.active = false ∨ c.endInputStream.segmentsOut ≠ [] := by
  by_cases hquiet : c.endInputStream.segmentsOut = []
  · left
    rcases (active_eq_false_iff c).mp hinactive with hreset | ⟨hshut, hdone⟩
    · exact (active_eq_false_iff _).mpr (Or.inl hreset)
    · have hwin := h.sender.windowSize_lt
      rw [c.sends_endInputStream.segmentsOut, List.append_eq_nil_iff, List.map_eq_nil_iff] at hquiet
      have hsame := @TcpSender.fillWindow_eq_self_of_quiet
        { c.sender with stream := c.sender.stream.endInput }
        (show c.sender.windowSize < 2 ^ 64 by omega) hquiet.2
      refine (active_eq_false_iff _).mpr (Or.inr ⟨⟨hshut.inbound, ?_, ?_⟩, hdone⟩)
      · exact (congrArg TcpSender.bytesFlying hsame).trans hshut.bytesFlying
      · have hempty := (ByteStream.eof_iff _).mp hshut.outbound
        refine (congrArg (fun s : TcpSender ↦ s.stream.eof) hsame).trans ?_
        exact (ByteStream.eof_iff _).mpr ⟨hempty.1, rfl⟩
  · exact Or.inr hquiet

end TcpConnection

namespace TcpSpongeSocket

variable {α ρ ω : Type} [FdAdapter α ρ ω] {s₀ s : TcpSpongeSocket α ω} {x₀ : Endpoint}
  {live : List Name}

/-- What is known since a rule was asked for its interest. -/
def noted : Name → Bool → TcpSpongeSocket α ω → Prop
  | .datagramIn, answer, s => answer = false → s.tcp.active = false ∨ s.tcp.segmentsOut ≠ []
  | .pipeIn, answer, s => answer = true → s.outboundShutdown = false
  | .pipeOut, answer, s => answer = false → s.tcp.inboundStream.deq = [] ∧
      (s.tcp.inboundStream.ended = true ∨ s.tcp.inboundStream.error = true →
        s.inboundShutdown = true)
  | .datagramOut, answer, s => answer = false → s.tcp.segmentsOut = []

theorem noted_interest (k : Name) : noted k ((rule k).interest s) s := by
  cases k with
  | datagramIn => exact Or.inl
  | pipeIn =>
      intro hyes
      simp only [rule, Bool.and_eq_true, Bool.not_eq_true'] at hyes
      exact hyes.1.2
  | pipeOut =>
      intro hno
      simp only [rule, Bool.or_eq_false_iff, Bool.not_eq_false', Bool.and_eq_false_iff] at hno
      have hempty : s.tcp.inboundStream.deq = [] := by
        simpa [ByteStream.bufferEmpty] using hno.1
      refine ⟨hempty, fun hend ↦ ?_⟩
      rcases hno.2 with hopen | hshut
      · rcases hend with hended | herror
        · have heof := (ByteStream.eof_iff _).mpr ⟨hempty, hended⟩
          exact absurd (heof.symm.trans hopen.1) Bool.true_eq_false_eq_False
        · exact absurd (herror.symm.trans hopen.2) Bool.true_eq_false_eq_False
      · exact hshut
  | datagramOut =>
      intro hno
      simpa [rule] using hno

/-- Only the rule for the pipe relies on its answer. -/
theorem noted_mono {s' : TcpSpongeSocket α ω} (j : Name) (h : noted j true s)
    (hshutdown : s'.outboundShutdown = s.outboundShutdown) : noted j true s' := by
  cases j with
  | pipeIn => exact fun hyes ↦ hshutdown.trans (h hyes)
  | datagramIn | pipeOut | datagramOut => exact fun hno ↦ absurd hno.symm Bool.false_ne_true

/-- The rules are live in their order, and the socket was driven by events since `s₀`. -/
structure Driven (s₀ : TcpSpongeSocket α ω) (live : List Name) (s : TcpSpongeSocket α ω) :
    Prop where
  order : live.Sublist rules
  reached : Relation.ReflTransGen Moves s₀ s

variable [LawfulFdAdapter α]

namespace Driven

/-- The callback of each rule, as the loop runs it. -/
theorem service (h₀ : Represents s₀ x₀) (h : Driven s₀ live s) (k : Name)
    (hnoted : noted k true s) (input : SocketInput ρ) :
    Ends KernelFault (fun s' ↦ Driven s₀ live s' ∧ ∀ j, j ≠ k → noted j true s → noted j true s')
      ((rule k).service input s) := by
  obtain ⟨ops, -, hrep⟩ := h₀.history h.reached
  have hdriven : ∀ (event : Event ρ) {s'}, s.Ready event → s.apply event = .ok s' →
      Driven s₀ live s' := fun event _ hready happly ↦
    ⟨h.order, h.reached.tail ⟨event, hready, happly⟩⟩
  refine Rule.ends_service ?_
  cases k with
  | datagramIn =>
      refine (hrep.ends_datagramIn (Q := fun _ _ ↦ True) input.packet fun seg _ ↦
        ⟨seg, trivial, ⟨_, _, _, rfl⟩⟩).with_eq.imp ?_
      rintro s' ⟨⟨-, hshutdown, hcount⟩, happly⟩
      refine ⟨⟨hdriven (.datagramIn input.packet) trivial happly,
        fun j _ hj ↦ noted_mono j hj hshutdown⟩, Or.inl fun heq ↦ ?_⟩
      have hsame : (FdAdapter.fd s.datagramAdapter).readCount =
        (FdAdapter.fd s'.datagramAdapter).readCount := heq
      simp [hcount] at hsame
  | pipeIn =>
      refine (hrep.ends_pipeIn (Q := fun _ _ ↦ True) (hnoted rfl) input.toAnswers).with_eq.imp ?_
      rintro s' ⟨⟨-, hcount⟩, happly⟩
      refine ⟨⟨hdriven (.pipeIn input.toAnswers) (hnoted rfl) happly, fun j hj hj' ↦ ?_⟩,
        Or.inl fun heq ↦ ?_⟩
      · cases j with
        | pipeIn => exact absurd rfl hj
        | datagramIn | pipeOut | datagramOut =>
            exact fun hno ↦ absurd hno.symm Bool.false_ne_true
      · have hsame : s.threadData.readCount = s'.threadData.readCount := heq
        simp [hcount] at hsame
  | pipeOut =>
      refine (hrep.ends_pipeOut (Q := fun _ _ ↦ True) input.toAnswers).with_eq.imp ?_
      rintro s' ⟨⟨-, hshutdown, hcount⟩, happly⟩
      exact ⟨⟨hdriven (.pipeOut input.toAnswers) trivial happly,
        fun j _ hj ↦ noted_mono j hj hshutdown⟩, Or.inl (Ne.symm hcount)⟩
  | datagramOut =>
      refine (hrep.ends_datagramOut (Q := fun _ _ ↦ True)).with_eq.imp ?_
      rintro s' ⟨⟨-, hshutdown, hempty⟩, happly⟩
      refine ⟨⟨hdriven .datagramOut trivial happly,
        fun j _ hj ↦ noted_mono j hj hshutdown⟩, Or.inr ?_⟩
      simp [rule, hempty]

/-- Ending the input does not give the rule before it anything to do without showing it in the
queue. -/
theorem cancelPipeIn (h₀ : Represents s₀ x₀) {before after : List Name}
    (h : Driven s₀ (before ++ .pipeIn :: after) s) (hout : .pipeIn ∉ before ++ after) :
    Driven s₀ (before ++ after) s.cancelPipeIn ∧
      (∀ j ∈ before, ∀ b, noted j b s → noted j b s.cancelPipeIn) ∧
      ∀ j ∈ after, noted j true s → noted j true s.cancelPipeIn := by
  obtain ⟨ops, -, hrep⟩ := h₀.history h.reached
  have horder : (before ++ after).Sublist rules :=
    (List.Sublist.append_left (List.sublist_cons_self .pipeIn after) before).trans h.order
  refine ⟨⟨horder, h.reached.tail ⟨.cancelPipeIn, trivial, rfl⟩⟩, fun j hj b hb ↦ ?_,
    fun j hj hj' ↦ ?_⟩
  · -- only the first rule is before this one
    have hsorted : rules.Pairwise fun i j ↦ j = .pipeIn → i = .datagramIn := by decide
    have hfirst := (List.pairwise_append.mp (hsorted.sublist h.order)).2.2 j hj .pipeIn
      List.mem_cons_self rfl
    subst hfirst
    intro hno
    rcases hb hno with hinactive | hqueue
    · exact hrep.short.inactive_endInputStream hinactive
    · right
      change s.tcp.endInputStream.segmentsOut ≠ []
      rw [s.tcp.sends_endInputStream.segmentsOut]
      exact List.append_ne_nil_of_left_ne_nil hqueue _
  · cases j with
    | pipeIn => exact absurd (List.mem_append_right before hj) hout
    | datagramIn | pipeOut | datagramOut => exact fun hno ↦ absurd hno.symm Bool.false_ne_true

end Driven

theorem keeps (h₀ : Represents s₀ x₀) :
    Keeps (rule : Name → Rule (TcpSpongeSocket α ω) (SocketInput ρ)) KernelFault (Driven s₀)
      noted where
  asks live s k _ _ _ _ := noted_interest k
  polls := .polled
  calls live k input s h _ hnoted := h.service h₀ k hnoted input
  cancels before k after s hout h := by
    have horder : (before ++ after).Sublist rules :=
      (List.Sublist.append_left (List.sublist_cons_self k after) before).trans h.order
    cases k with
    | datagramIn | pipeOut | datagramOut =>
        exact Ends.of_pure ⟨⟨horder, h.reached⟩, fun j _ b hj ↦ hj, fun j _ hj ↦ hj⟩
    | pipeIn => exact Ends.of_pure (h.cancelPipeIn h₀ hout)

/-- Some turn of the loop met a signal. -/
def Interrupted (turns : List (Turn ρ)) : Prop :=
  ∃ turn ∈ turns, ∃ e, turn.polled = .failed e ∧ e.code = eintr

/-- Any number of turns keeps the invariant, and when the event loop exits without a signal no
rule that is live has anything to do. -/
theorem Driven.tcpLoop (h₀ : Represents s₀ x₀) (condition : TcpSpongeSocket α ω → Bool)
    (turns : List (Turn ρ)) (h : Driven s₀ live s) :
    Ends KernelFault (fun r : LoopEnd × List Name × TcpSpongeSocket α ω ↦ Driven s₀ r.2.1 r.2.2 ∧
      (r.1 = .exit .exit → Interrupted turns ∨ ∀ k ∈ r.2.1, noted k false r.2.2))
      (tcpLoop condition turns live s) := by
  induction turns generalizing live s with
  | nil =>
      refine ⟨h, fun hexit ↦ ?_⟩
      split_ifs at hexit
  | cons turn rest ih =>
      rw [TcpSpongeSocket.tcpLoop]
      refine Ends.of_ite (fun _ ↦ ?_) fun _ ↦ ⟨h, fun hexit ↦ by cases hexit⟩
      have hnodup : live.Nodup := (show rules.Nodup by decide).sublist h.order
      refine ((keeps h₀).waitNextEvent turn.polled hnodup h).bind ?_
      rintro ⟨result, live', s'⟩ ⟨hdriven, -, hidle⟩
      dsimp only at hdriven hidle
      refine Ends.of_ite (fun _ ↦ Ends.of_pure ⟨hdriven, fun hexit ↦ ?_⟩) fun _ ↦ ?_
      · refine (hidle (LoopEnd.exit.inj hexit)).imp_left ?_
        rintro ⟨e, hpolled, hcode⟩
        exact ⟨turn, List.mem_cons_self, e, hpolled, hcode⟩
      · have hnext : Driven s₀ live' (if s'.tcp.active then s'.tick turn.elapsed else s') := by
          split_ifs
          · exact ⟨hdriven.order, hdriven.reached.tail ⟨.tick turn.elapsed, trivial, rfl⟩⟩
          · exact hdriven
        refine (ih hnext).imp ?_
        rintro r ⟨hr, hexit⟩
        refine ⟨hr, fun hend ↦ (hexit hend).imp_left ?_⟩
        rintro ⟨turn', hmem, hsignal⟩
        exact ⟨turn', List.mem_cons_of_mem _ hmem, hsignal⟩

/-- A connection that was told to connect has sent its SYN and nothing else. -/
theorem state_connect_new (cfg : TcpConfig) (random : UInt32) :
    (TcpConnection.new cfg random).connect.state = TcpState.ofState .synSent := by
  have hsender : (TcpConnection.new cfg random).connect.sender =
      { (TcpSender.new cfg.sendCapacity cfg.rtTimeout cfg.fixedIsn random).sendSyn with
        segmentsOut := [] } := rfl
  rw [TcpConnection.state, TcpState.new, hsender]
  rfl

/-- A socket from its opening on. -/
def Opening.thread (o : Opening α ω) (opening turns : List (Turn ρ)) :
    Except Exception (LoopEnd × List Name × TcpSpongeSocket α ω) :=
  openAndRun o.active o.adapter o.wire o.cTcp o.random o.cAd opening turns

/-- However a socket is opened and whatever happens to it. -/
theorem driven_thread (o : Opening α ω) (opening turns : List (Turn ρ)) :
    Ends KernelFault (fun r : LoopEnd × List Name × TcpSpongeSocket α ω ↦
      Driven o.socket r.2.1 r.2.2 ∧
        (r.1 = .exit .exit → Interrupted turns ∨ ∀ k ∈ r.2.1, noted k false r.2.2))
      (o.thread opening turns) := by
  have h₀ := o.represents
  have horder := List.Sublist.refl rules
  have hstart : Ends KernelFault (fun r : LoopEnd × List Name × TcpSpongeSocket α ω ↦
      Driven o.socket r.2.1 r.2.2)
      (if o.active then connect none o.adapter o.wire o.cTcp o.random o.cAd opening
        else listenAndAccept none o.adapter o.wire o.cTcp o.random o.cAd opening) := by
    obtain ⟨active, adapter, wire, holds, cTcp, random, cAd⟩ := o
    cases active with
    | true =>
        change Ends KernelFault _ (connect none adapter wire cTcp random cAd opening)
        refine Ends.of_ite (fun hold ↦ by cases hold) fun _ ↦
          Ends.of_ite (fun hstate ↦ absurd (state_connect_new cTcp random) hstate) fun _ ↦ ?_
        have hconnect := Driven.tcpLoop h₀ (fun s ↦ s.tcp.state = TcpState.ofState .synSent) opening
          ⟨horder, .single ⟨.connect, trivial, rfl⟩⟩
        exact hconnect.imp fun _ hr ↦ hr.1
    | false =>
        change Ends KernelFault _ (listenAndAccept none adapter wire cTcp random cAd opening)
        refine Ends.of_ite (fun hold ↦ by cases hold) fun _ ↦ ?_
        exact (Driven.tcpLoop h₀ _ opening ⟨horder, .refl⟩).imp fun _ hr ↦ hr.1
  refine hstart.bind ?_
  rintro ⟨loopEnd, live, s⟩ hdriven
  exact Driven.tcpLoop h₀ _ turns hdriven

/-- Whatever the kernel and the network do, the thread of a socket throws only for the kernel's
faults: it is never found waiting busily, a packet is never refused by the adapter, all bytes read
from the pipe are accepted, and a new connection is in the state it has to be in. It drives its
connection by operations without writing after the end of the input. The bytes accepted are those
that the owner wrote into the pipe, and the bytes read are those that the owner can read from it. -/
theorem thread_drives_connection (o : Opening α ω) (opening turns : List (Turn ρ)) :
    (∀ e, o.thread opening turns = .error e → KernelFault e) ∧
    ∀ loopEnd live s, o.thread opening turns = .ok (loopEnd, live, s) →
      ∃ ops, Along Endpoint.step Orderly (Endpoint.new o.cTcp o.random) ops ∧
        let x := run Endpoint.step (Endpoint.new o.cTcp o.random) ops
        s.tcp = x.conn ∧ s.threadData.received = x.accepted ∧ s.threadData.written = x.taken ∧
          s.outboundShutdown = x.conn.sender.streamIn.inputEnded := by
  have hends := driven_thread o opening turns
  refine ⟨fun e he ↦ hends.exception he, fun loopEnd live s hok ↦ ?_⟩
  obtain ⟨hdriven, -⟩ := hends.result hok
  obtain ⟨ops, hops, hrep⟩ := o.represents.history hdriven.reached
  exact ⟨ops, hops, hrep.conn.symm, hrep.accepted.symm, hrep.taken.symm,
    hrep.conn ▸ hrep.ended.symm⟩

/-- When the event loop exits without a signal, nothing is left to do: no segment is queued and
the connection is inactive, all bytes that arrived were handed to the owner, and the end of the
inbound stream was passed on. A connection that was not reset has then closed both streams and has
got everything acknowledged. A rule whose descriptor hung up is not there to say so. -/
theorem exits_when_finished (o : Opening α ω) (opening turns : List (Turn ρ)) {live : List Name}
    {s : TcpSpongeSocket α ω} (hrun : o.thread opening turns = .ok (.exit .exit, live, s))
    (hsignal : ¬Interrupted turns) :
    (.datagramOut ∈ live → s.tcp.segmentsOut = []) ∧
    (.pipeOut ∈ live → s.tcp.inboundStream.deq = [] ∧
      (s.tcp.inboundStream.ended = true ∨ s.tcp.inboundStream.error = true →
        s.inboundShutdown = true)) ∧
    (.datagramIn ∈ live → .datagramOut ∈ live → s.tcp.active = false ∧
      (¬s.tcp.Reset → s.tcp.Shut ∧ s.outboundShutdown = true ∧
        (.pipeOut ∈ live → s.inboundShutdown = true))) := by
  obtain ⟨hdriven, hexit⟩ := (driven_thread o opening turns).result hrun
  have hidle := (hexit rfl).resolve_left hsignal
  obtain ⟨ops, -, hrep⟩ := o.represents.history hdriven.reached
  refine ⟨fun hout ↦ hidle _ hout rfl, fun hpipe ↦ hidle _ hpipe rfl, fun hin hout ↦ ?_⟩
  have hinactive : s.tcp.active = false :=
    (hidle _ hin rfl).resolve_right fun hqueue ↦ hqueue (hidle _ hout rfl)
  refine ⟨hinactive, fun hreset ↦ ?_⟩
  obtain ⟨hshut, -⟩ := ((TcpConnection.active_eq_false_iff _).mp hinactive).resolve_left hreset
  have hinbound := ((ByteStream.eof_iff _).mp hshut.inbound).2
  have houtbound := ((ByteStream.eof_iff _).mp hshut.outbound).2
  exact ⟨hshut, hrep.ended.symm.trans houtbound,
    fun hpipe ↦ (hidle _ hpipe rfl).2 (Or.inl hinbound)⟩

/-- A packet arrives in which the peer at port 2 sends this segment. -/
def fromPeer (seg : TcpSegment) :
    Revents × SocketInput (Except UnixError (SocketAddress × List UInt8)) :=
  ({ pollIn := true }, { packet := .ok (⟨⟨2⟩, 2⟩, (seg.serialize 0).toOption.getD []) })

/-- A descriptor has these events. It takes one byte, and its input has come to the end. -/
def ready (revents : Revents) :
    Revents × SocketInput (Except UnixError (SocketAddress × List UInt8)) :=
  (revents, { packet := .ok (⟨⟨0⟩, 0⟩, []), write := fun _ ↦ .ok 1 })

/-- The peer answers the SYN, sends a byte and closes. The byte is passed on, the owner closes too,
and the peer acknowledges the FIN. -/
theorem exits_when_finished_passiveClose :
    let opening : List (Turn (Except UnixError (SocketAddress × List UInt8))) :=
      [{ polled := .reported [ready {}, ready {}, ready {}, ready { pollOut := true }] },
        { polled := .reported [fromPeer { header :=
          { seqno := ⟨20⟩, syn := true, ack := true, ackno := ⟨11⟩, win := 4 } }] }]
    let turns : List (Turn (Except UnixError (SocketAddress × List UInt8))) :=
      [{ polled := .reported [fromPeer
          { header := { seqno := ⟨21⟩, fin := true, ack := true, ackno := ⟨11⟩, win := 4 }
            payload := [120] }] },
        { polled := .reported [ready {}, ready { pollIn := true }, ready { pollOut := true },
          ready { pollOut := true }] },
        { polled := .reported [ready {}, ready {}, ready { pollOut := true }] },
        { polled := .reported [fromPeer { header :=
          { seqno := ⟨23⟩, ack := true, ackno := ⟨12⟩, win := 4 } }] },
        { polled := .timeout }]
    ∃ s, (Opening.udp true 10 { source := ⟨⟨1⟩, 1⟩, destination := ⟨⟨2⟩, 2⟩ }).thread opening
        turns = .ok (.exit .exit, [.datagramIn, .pipeOut, .datagramOut], s) ∧
      s.threadData.written = [120] ∧ s.tcp.segmentsOut = [] ∧ s.tcp.active = false ∧ s.tcp.Shut ∧
      s.outboundShutdown = true ∧ s.inboundShutdown = true := by
  intro opening turns
  have hclosed : ((Opening.udp true 10 { source := ⟨⟨1⟩, 1⟩, destination := ⟨⟨2⟩, 2⟩ }).thread
      opening turns).toOption.any (fun r ↦ decide (r.1 = .exit .exit ∧
        r.2.1 = [.datagramIn, .pipeOut, .datagramOut] ∧ r.2.2.threadData.written = [120] ∧
        ¬r.2.2.tcp.Reset)) = true := by
    decide +kernel
  obtain ⟨⟨loopEnd, live, s⟩, hrun, hcheck⟩ := (Option.any_eq_true _ _).mp hclosed
  obtain ⟨rfl, rfl, hwritten, hreset⟩ := of_decide_eq_true hcheck
  replace hrun := eq_ok_of_toOption hrun
  have hsignal : ¬Interrupted turns := by simp [Interrupted, turns]
  obtain ⟨hqueue, -, hfinished⟩ := exits_when_finished _ opening turns hrun hsignal
  obtain ⟨hactive, hclean⟩ := hfinished (by decide) (by decide)
  obtain ⟨hshut, houtbound, hinbound⟩ := hclean hreset
  exact ⟨s, hrun, hwritten, hqueue (by decide), hactive, hshut, houtbound, hinbound (by decide)⟩

end TcpSpongeSocket

end Sponge
