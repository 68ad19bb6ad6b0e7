import Sponge.Simulator.Rounds

/-!
# What the simulator checks

A program drives the network by sending, expecting and simulating. Its ledger
records, for every host, the datagrams that the routes lead there and those that
are expected. The program runs through if and only if the two agree for every
host each time it simulates; otherwise a host complains, and nothing else is
ever thrown.
-/

namespace Sponge.NetworkSimulator

open Lib Lib.Resolution

/-- A complaint of a host. -/
def Failure.Complaint {ν : Type} : Failure ν → Prop
  | .thrown _ => False
  | .receivedUnexpected _ _ | .didNotReceive _ _ => True

/-- The datagrams are the same up to order, as they are on the wire. -/
def Agrees (received expected : List Ipv4Datagram) : Prop :=
  (received.map Ipv4Datagram.bytes).Perm (expected.map Ipv4Datagram.bytes)

namespace Host

variable {ν : Type} (name : ν) {dgram : Ipv4Datagram} {received expected : List Ipv4Datagram}

theorem expecting_eq (hdgram : dgram.Fits) (h : ∀ x ∈ expected, x.Fits) :
    expecting dgram expected = .ok (decide (dgram.bytes ∈ expected.map Ipv4Datagram.bytes)) := by
  induction expected with
  | nil => rfl
  | cons x rest ih =>
      obtain ⟨hx, hrest⟩ := List.forall_mem_cons.mp h
      rw [expecting, hx.serialize_eq, hdgram.serialize_eq, ih hrest]
      by_cases heq : x.bytes = dgram.bytes
      · simp [bind, Except.bind, pure, Except.pure, heq]
      · simp [bind, Except.bind, heq, Ne.symm heq]

theorem exists_removeExpectation (hdgram : dgram.Fits) (h : ∀ x ∈ expected, x.Fits) :
    ∃ left, removeExpectation dgram expected = .ok left ∧ left ⊆ expected ∧
      left.map Ipv4Datagram.bytes = (expected.map Ipv4Datagram.bytes).erase dgram.bytes := by
  induction expected with
  | nil => exact ⟨[], rfl, List.Subset.refl _, rfl⟩
  | cons x rest ih =>
      obtain ⟨hx, hrest⟩ := List.forall_mem_cons.mp h
      obtain ⟨left, hremove, hsubset, hleft⟩ := ih hrest
      by_cases heq : x.bytes = dgram.bytes
      · refine ⟨rest, ?_, List.subset_cons_self _ _, ?_⟩
        · rw [removeExpectation, hx.serialize_eq, hdgram.serialize_eq]
          simp only [bind, Except.bind, heq, if_true]
          rfl
        · rw [List.map_cons, heq, List.erase_cons_head]
      · refine ⟨x :: left, ?_, List.cons_subset_cons _ hsubset, ?_⟩
        · rw [removeExpectation, hx.serialize_eq, hdgram.serialize_eq]
          simp only [bind, Except.bind, heq, if_false, hremove]
          rfl
        · rw [List.map_cons, List.map_cons, hleft, List.erase_cons_tail (by simpa using heq)]

/-- What is received is struck off the list; the first datagram that is not on it is an error. -/
theorem ends_checkReceived (hreceived : ∀ x ∈ received, x.Fits)
    (hexpected : ∀ x ∈ expected, x.Fits) :
    Ends
      (fun e ↦ e.Complaint ∧
        ¬(received.map Ipv4Datagram.bytes).Subperm (expected.map Ipv4Datagram.bytes))
      (fun left ↦ (expected.map Ipv4Datagram.bytes).Perm
        (received.map Ipv4Datagram.bytes ++ left.map Ipv4Datagram.bytes))
      (checkReceived name received expected) := by
  induction received generalizing expected with
  | nil => exact List.Perm.refl _
  | cons dgram rest ih =>
      obtain ⟨hdgram, hrest⟩ := List.forall_mem_cons.mp hreceived
      rw [checkReceived, expecting_eq hdgram hexpected]
      by_cases hmem : dgram.bytes ∈ expected.map Ipv4Datagram.bytes
      · obtain ⟨left, hremove, hsubset, hleft⟩ := exists_removeExpectation hdgram hexpected
        have hperm := List.perm_cons_erase hmem
        have hih := @ih left hrest fun x hx ↦ hexpected x (hsubset hx)
        rw [hremove]
        simp only [hmem, decide_true, Except.mapError, Bool.not_true, bind, Except.bind]
        refine hih.mono ?_ ?_
        · rintro e ⟨hcomplaint, hnot⟩
          refine ⟨hcomplaint, fun hsubperm ↦ hnot ?_⟩
          rw [hleft]
          exact List.subperm_cons _ |>.mp (hsubperm.trans hperm.subperm)
        · intro remaining hremaining
          rw [hleft] at hremaining
          exact hperm.trans (hremaining.cons _)
      · simp only [hmem, decide_false]
        exact ⟨trivial, fun hsubperm ↦ hmem (hsubperm.subset List.mem_cons_self)⟩

/-- The host as `check` leaves it. -/
def checked (host : Host) : Host :=
  { host with
    interface := { host.interface with datagramsOut := [] }
    expectingToReceive := [] }

theorem ends_check (host : Host) (hreceived : ∀ x ∈ host.interface.datagramsOut, x.Fits)
    (hexpected : ∀ x ∈ host.expectingToReceive, x.Fits) :
    Ends
      (fun e ↦ e.Complaint ∧
        ¬Agrees host.interface.datagramsOut host.expectingToReceive)
      (fun host' ↦ Agrees host.interface.datagramsOut host.expectingToReceive ∧
        host' = host.checked)
      (host.check name) := by
  rw [check]
  have hends := ends_checkReceived name hreceived hexpected
  cases hcheck : checkReceived name host.interface.datagramsOut host.expectingToReceive with
  | error e =>
      obtain ⟨hcomplaint, hnot⟩ := hends.exception hcheck
      exact ⟨hcomplaint, fun hagrees ↦ hnot hagrees.subperm⟩
  | ok left =>
      have hperm := hends.result hcheck
      cases left with
      | nil =>
          rw [List.map_nil, List.append_nil] at hperm
          exact ⟨hperm.symm, rfl⟩
      | cons missing rest =>
          refine ⟨trivial, fun hagrees ↦ ?_⟩
          have hlength := (hperm.symm.trans hagrees.symm).length_eq
          simp at hlength

end Host

/-- What a program asks the network to do. -/
inductive Command (ν : Type) where
  | send (name : ν) (destination : Address) (ttl : UInt8) (payload : List UInt8)
  | expect (name : ν) (expected : Ipv4Datagram)
  | simulate

def Network.apply {m : ℕ} {ν : Type} [DecidableEq ν] (links : List (Link m ν)) (names : List ν)
    (net : Network ν) : Command ν → Except (Failure ν) (Network ν)
  | .send name destination ttl payload => do
    let (_, net) ← (net.sendTo name destination ttl payload).mapError .thrown
    return net
  | .expect name expected => return net.setHost name ((net.hosts name).expect expected)
  | .simulate => net.simulate links names

/-- For every host, what should arrive and what is expected. -/
structure Ledger (ν : Type) where
  arriving : ν → List Ipv4Datagram := fun _ ↦ []
  expected : ν → List Ipv4Datagram := fun _ ↦ []

namespace Layout

variable {m : ℕ} {ν : Type} [DecidableEq ν] (W : Layout m ν)

/-- The network as it is constructed. -/
def fresh : Network ν := W.network (fun _ ↦ []) fun i ↦ { toNetworkInterface := W.interface i }

/-- The interface with this number and the host are on one link. -/
def Connected (num : ℕ) (name : ν) : Prop :=
  ∃ link ∈ W.links, link.id.val = num ∧ .inr name ∈ link.members

instance (num : ℕ) (name : ν) : Decidable (W.Connected num name) :=
  inferInstanceAs (Decidable (∃ link ∈ W.links, _))

/-- A host may send if its next hop is the interface on its link, a payload if it fits into a
datagram. -/
def Allowed : Command ν → Prop
  | .send name _ _ payload => 20 + payload.length < 2 ^ 16 ∧
    ∃ id : Fin m, W.Connected id name ∧ W.nextHop name = W.ipAddress (.inl id)
  | .expect _ expected => expected.Fits
  | .simulate => True

/-- The datagram that `send_to` makes. -/
def datagram (name : ν) (destination : Address) (ttl : UInt8) (payload : List UInt8) :
    Ipv4Datagram :=
  (W.fresh.hosts name).datagram destination ttl payload

/-- What a host gets of a datagram that the router gets: it is led to the host if the routes name
the interface on the link of the host and its address as the next hop. -/
def led (name : ν) (dgram : Ipv4Datagram) : Option Ipv4Datagram :=
  let exit := Route.exit W.routes dgram.header.dst
  if 2 ≤ dgram.header.ttl ∧ W.Connected exit.1 name ∧ exit.2 = W.ipAddress (.inr name) then
    some dgram.decrementTtl
  else none

/-- The program runs through according to the ledger. -/
def Passes (ledger : Ledger ν) : List (Command ν) → Prop
  | [] => True
  | .send name destination ttl payload :: commands =>
    Passes
      { ledger with
        arriving := fun host ↦ ledger.arriving host ++
          (W.led host (W.datagram name destination ttl payload)).toList }
      commands
  | .expect name expected :: commands =>
    Passes
      { ledger with
        expected := Function.update ledger.expected name (ledger.expected name ++ [expected]) }
      commands
  | .simulate :: commands =>
    (∀ name, Agrees (ledger.arriving name) (ledger.expected name)) ∧ Passes {} commands

variable {W} {name : ν}

theorem mem_neighbours_iff_connected {id : Fin m} :
    .inl id ∈ W.neighbours (.inr name) ↔ W.Connected id name := by
  rw [mem_neighbours]
  simp [Connected, Link.inl_mem_members, Fin.ext_iff, eq_comm]

/-- The routes see what the sender wrote, and what they lead to a host is the same on the wire. -/
theorem map_bytes_reach (name : ν) (dgram : Ipv4Datagram) :
    (W.site.internet.reach (.inr name) dgram.stamped).map Ipv4Datagram.bytes =
      (W.led name dgram).map Ipv4Datagram.bytes := by
  let exit := Route.exit W.routes dgram.header.dst
  have hcall : Router.call { root := W.site.root } dgram.stamped =
      ⟨exit.1, dgram.stamped.decrementTtl, exit.2⟩ :=
    Router.call_addRoutes [] W.prefixLength_le dgram.stamped
  have hid : exit.1 < m := by
    have hlt := W.site.interfaceNum_lt dgram.stamped
    rwa [hcall] at hlt
  have hforward : W.site.internet.forward dgram.stamped =
      if dgram.header.ttl < 2 then none
      else some (.inl ⟨exit.1, hid⟩, exit.2.ipv4Numeric, dgram.decrementTtl.stamped) := by
    change W.site.forward dgram.stamped = _
    simp only [Site.forward, hcall]
    rfl
  have hhop : exit.2.ipv4Numeric = W.address (.inr name) ↔ exit.2 = W.ipAddress (.inr name) :=
    ⟨congrArg Address.mk, congrArg Address.ipv4Numeric⟩
  have hneighbour : .inl ⟨exit.1, hid⟩ ∈ W.site.internet.neighbours (.inr name) ↔
      W.Connected exit.1 name :=
    mem_neighbours_iff_connected
  rw [Internet.reach, hforward, led]
  by_cases httl : dgram.header.ttl < 2
  · have hnot : ¬2 ≤ dgram.header.ttl := UInt8.not_le.mpr httl
    simp [httl, hnot]
  · have hle : 2 ≤ dgram.header.ttl := UInt8.not_lt.mp httl
    have hiff : (.inl ⟨exit.1, hid⟩ ∈ W.site.internet.neighbours (.inr name) ∧
        exit.2.ipv4Numeric = W.site.internet.address (.inr name)) ↔
        2 ≤ dgram.header.ttl ∧ W.Connected exit.1 name ∧ exit.2 = W.ipAddress (.inr name) := by
      rw [hneighbour]
      exact (and_congr_right fun _ ↦ hhop).trans (and_iff_right hle).symm
    rw [if_neg httl, Option.bind_some]
    by_cases hled : 2 ≤ dgram.header.ttl ∧ W.Connected exit.1 name ∧
        exit.2 = W.ipAddress (.inr name)
    · rw [if_pos hled, if_pos (hiff.mpr hled)]
      rfl
    · rw [if_neg hled, if_neg fun hreach ↦ hled (hiff.mp hreach)]

variable (W) in
theorem fits_datagram (name : ν) (destination : Address) (ttl : UInt8) {payload : List UInt8}
    (h : 20 + payload.length < 2 ^ 16) : (W.datagram name destination ttl payload).Fits := by
  have hlen : (UInt16.ofNat (20 + payload.length)).toNat = 20 + payload.length :=
    UInt16.toNat_ofNat_of_lt h
  exact ⟨rfl, Nat.le_refl 5, Nat.le_of_ble_eq_true rfl, Nat.two_pow_pos 13, hlen⟩

/-- The network is as the ledger has it. -/
structure Tracks (W : Layout m ν) (ledger : Ledger ν) (net : Network ν) : Prop where
  fits : ∀ name, ∀ dgram ∈ ledger.expected name, dgram.Fits
  stations : ∃ n S, net = W.network ledger.expected n ∧ W.site.Represents n S ∧
    W.site.internet.Stage S 0 ∧
    ∀ name, (W.site.internet.destined S (.inr name)).map Ipv4Datagram.bytes =
      ((ledger.arriving name).map Ipv4Datagram.bytes : List (List UInt8))

theorem tracks_fresh : W.Tracks {} W.fresh where
  fits _ := List.forall_mem_nil _
  stations := by
    refine ⟨_, fun _ ↦ {}, rfl, fun i ↦ Directory.Represents.new i, ?_, fun name ↦ ?_⟩
    · refine Internet.Stage.zero (fun i x hx ↦ absurd rfl hx) fun j i _ hasked ↦ hasked.elim
    · simp [Internet.destined, Internet.owed, Internet.inbound, Station.due]

variable {ledger : Ledger ν} {net : Network ν}

theorem Tracks.exists_send (h : W.Tracks ledger net) (destination : Address) (ttl : UInt8)
    {payload : List UInt8} (hlength : 20 + payload.length < 2 ^ 16) {id : Fin m}
    (hid : W.Connected id name) (hhop : W.nextHop name = W.ipAddress (.inl id)) :
    ∃ net', net.sendTo name destination ttl payload =
        .ok (W.datagram name destination ttl payload, net') ∧
      W.Tracks { ledger with
        arriving := fun host ↦ ledger.arriving host ++
          (W.led host (W.datagram name destination ttl payload)).toList } net' := by
  obtain ⟨n, S, rfl, hrep, hstage, hdestined⟩ := h.stations
  have hfits := W.fits_datagram name destination ttl hlength
  obtain ⟨n', s', hsend, hrep', haccepts⟩ :=
    (hrep (.inr name)).exists_sendDatagram hfits (W.nextHop name)
  rw [hhop] at haccepts
  refine ⟨W.network ledger.expected (Function.update n (.inr name)
    { n (.inr name) with toNetworkInterface := n' }), ?_, h.fits, _, _, rfl, hrep.update hrep',
    hstage.update haccepts, fun host ↦ ?_⟩
  · rw [← setHostInterface_network]
    have hsend' : ((W.network ledger.expected n).hosts name).sendTo destination ttl payload =
        .ok (W.datagram name destination ttl payload,
          { (W.network ledger.expected n).hosts name with
            interface := { n (.inr name) with toNetworkInterface := n' } }) := by
      change (n (.inr name)).sendDatagram (W.datagram name destination ttl payload)
        (W.nextHop name) >>= _ = _
      rw [hsend]
      rfl
    rw [Network.sendTo, hsend']
    rfl
  · have hport : .inl id ∈ W.site.internet.ports := List.mem_ofFn.mpr ⟨id, rfl⟩
    have hneighbour : .inr name ∈ W.site.internet.neighbours (.inl id) :=
      W.site.internet.symm (mem_neighbours_iff_connected.mpr hid)
    rw [Internet.destined_update hport hneighbour haccepts (by simp [Site.internet, site]),
      Multiset.map_add, hdestined, List.map_append, ← Multiset.coe_add, Multiset.map_coe,
      ← Option.toList_map, ← Option.toList_map, map_bytes_reach]

section check

variable {expecting : ν → List Ipv4Datagram} {n : Fin m ⊕ ν → AsyncNetworkInterface}

/-- The interfaces after the hosts in `names` were checked. -/
def cleared (names : List ν) (n : Fin m ⊕ ν → AsyncNetworkInterface) :
    Fin m ⊕ ν → AsyncNetworkInterface
  | .inl id => n (.inl id)
  | .inr name =>
    if name ∈ names then { n (.inr name) with datagramsOut := [] } else n (.inr name)

/-- What is still expected after the hosts in `names` were checked. -/
def remaining (names : List ν) (expecting : ν → List Ipv4Datagram) (name : ν) :
    List Ipv4Datagram :=
  if name ∈ names then [] else expecting name

theorem cleared_cons (name : ν) (names : List ν) (n : Fin m ⊕ ν → AsyncNetworkInterface) :
    cleared names (Function.update n (.inr name) { n (.inr name) with datagramsOut := [] }) =
      cleared (name :: names) n := by
  funext j
  rcases j with id | other
  · simp [cleared]
  · by_cases hother : other = name
    · subst hother
      simp [cleared]
    · simp [cleared, hother]

theorem remaining_cons (name : ν) (names : List ν) (expecting : ν → List Ipv4Datagram) :
    remaining names (Function.update expecting name []) = remaining (name :: names) expecting := by
  funext other
  by_cases hother : other = name
  · subst hother
    simp [remaining]
  · simp [remaining, hother]

theorem setHost_checked (expecting : ν → List Ipv4Datagram)
    (n : Fin m ⊕ ν → AsyncNetworkInterface) (name : ν) :
    (W.network expecting n).setHost name ((W.network expecting n).hosts name).checked =
      W.network (Function.update expecting name [])
        (Function.update n (.inr name) { n (.inr name) with datagramsOut := [] }) := by
  have hhosts : Function.update (W.network expecting n).hosts name
      ((W.network expecting n).hosts name).checked =
        (W.network (Function.update expecting name []) (Function.update n (.inr name)
          { n (.inr name) with datagramsOut := [] })).hosts := by
    funext other
    by_cases hother : other = name
    · subst hother
      simp [network, Host.checked]
    · simp [network, Function.update_of_ne hother]
  rw [Network.setHost, hhosts]
  rfl

theorem ends_checkHost (hreceived : ∀ x ∈ (n (.inr name)).datagramsOut, x.Fits)
    (hexpected : ∀ x ∈ expecting name, x.Fits) :
    Ends
      (fun e ↦ e.Complaint ∧ ¬Agrees (n (.inr name)).datagramsOut (expecting name))
      (fun net ↦ Agrees (n (.inr name)).datagramsOut (expecting name) ∧
        net = W.network (Function.update expecting name [])
          (Function.update n (.inr name) { n (.inr name) with datagramsOut := [] }))
      ((W.network expecting n).checkHost name) := by
  have hcheck := Host.ends_check name ((W.network expecting n).hosts name) hreceived hexpected
  refine hcheck.bind fun host' hhost' ↦ Ends.of_pure ?_
  obtain ⟨hagrees, rfl⟩ := hhost'
  exact ⟨hagrees, setHost_checked expecting n name⟩

theorem ends_checkHosts (names : List ν)
    (hreceived : ∀ name, ∀ x ∈ (n (.inr name)).datagramsOut, x.Fits)
    (hexpected : ∀ name, ∀ x ∈ expecting name, x.Fits) :
    Ends
      (fun e ↦ e.Complaint ∧
        ¬∀ name ∈ names, Agrees (n (.inr name)).datagramsOut (expecting name))
      (fun net ↦ (∀ name ∈ names, Agrees (n (.inr name)).datagramsOut (expecting name)) ∧
        net = W.network (remaining names expecting) (cleared names n))
      (names.foldlM Network.checkHost (W.network expecting n)) := by
  induction names generalizing expecting n with
  | nil =>
      have hn : cleared [] n = n := by
        funext j
        cases j <;> simp [cleared]
      have hexpecting : remaining [] expecting = expecting := by
        funext name
        simp [remaining]
      refine ⟨List.forall_mem_nil _, ?_⟩
      rw [hn, hexpecting]
  | cons name rest ih =>
      have hhead := ends_checkHost (W := W) (hreceived name) (hexpected name)
      refine Ends.bind (hhead.mono (fun e he ↦ ⟨he.1, fun hall ↦ he.2 (hall name ?_)⟩)
        fun _ ↦ id) ?_
      · exact List.mem_cons_self
      rintro net₁ ⟨hagrees, rfl⟩
      -- a host is as it was, or has nothing left
      have hcases : ∀ (P : List Ipv4Datagram → List Ipv4Datagram → Prop), P [] [] → ∀ other,
          P (n (.inr other)).datagramsOut (expecting other) →
          P (Function.update n (.inr name) { n (.inr name) with datagramsOut := [] }
            (.inr other)).datagramsOut (Function.update expecting name [] other) := by
        intro P hnil other hother
        by_cases heq : other = name
        · subst heq
          simpa using hnil
        · simpa [heq] using hother
      have hrest := ih (fun other ↦ hcases (fun got _ ↦ ∀ x ∈ got, x.Fits)
        (List.forall_mem_nil _) other (hreceived other)) fun other ↦
          hcases (fun _ expected ↦ ∀ x ∈ expected, x.Fits) (List.forall_mem_nil _) other
            (hexpected other)
      rw [cleared_cons, remaining_cons] at hrest
      refine hrest.mono (fun e he ↦ ⟨he.1, fun hall ↦ he.2 fun other hother ↦ ?_⟩) fun net hnet ↦
        ⟨List.forall_mem_cons.mpr ⟨hagrees, fun other hother ↦ ?_⟩, hnet.2⟩
      · exact hcases Agrees (List.Perm.refl _) other (hall other (List.mem_cons_of_mem _ hother))
      · by_cases heq : other = name
        · exact heq ▸ hagrees
        · simpa [heq] using hnet.1 other hother

end check

/-- The hosts were checked when nothing was on its way any more. -/
theorem tracks_cleared {names : List ν} (hnames : ∀ name, name ∈ names)
    {n : Fin m ⊕ ν → AsyncNetworkInterface}
    {S : Fin m ⊕ ν → Station (Fin m ⊕ ν) UInt32 Ipv4Datagram} (hrep : W.site.Represents n S)
    {k : ℕ} (hstage : W.site.internet.Stage S k) (hk : 6 ≤ k) :
    W.Tracks {} (W.network (fun _ ↦ []) (cleared names n)) := by
  let S' : Fin m ⊕ ν → Station (Fin m ⊕ ν) UInt32 Ipv4Datagram :=
    Sum.elim (fun id ↦ S (.inl id)) fun name ↦ { S (.inr name) with got := [] }
  have hports : ∀ p ∈ W.site.internet.ports, S' p = S p := by
    intro p hp
    obtain ⟨id, rfl⟩ := List.mem_ofFn.mp hp
    rfl
  have hhosts : ∀ i ∉ W.site.internet.ports, S' i = { S i with got := [] } := by
    intro i hi
    rcases i with id | name
    · exact absurd (List.mem_ofFn.mpr ⟨id, rfl⟩) hi
    · rfl
  obtain ⟨hstage', hdestined⟩ := hstage.collect hk hports hhosts
  refine ⟨fun _ ↦ List.forall_mem_nil _, _, S', rfl, fun i ↦ ?_, hstage', fun name ↦ ?_⟩
  · rcases i with id | name
    · exact hrep (.inl id)
    · rw [cleared, if_pos (hnames name)]
      exact (hrep (.inr name)).withGot (List.nil_subset _)
  · rw [hdestined _ (by simp [Site.internet, site])]
    rfl

theorem Tracks.ends_simulate {names : List ν} (hnames : ∀ name, name ∈ names)
    (h : W.Tracks ledger net) :
    Ends
      (fun e ↦ e.Complaint ∧ ¬∀ name, Agrees (ledger.arriving name) (ledger.expected name))
      (fun net' ↦ (∀ name, Agrees (ledger.arriving name) (ledger.expected name)) ∧
        W.Tracks {} net')
      (net.simulate W.links names) := by
  obtain ⟨n, S, rfl, hrep, hstage, hdestined⟩ := h.stations
  obtain ⟨n', S', hrounds, hrep', hstage', hdestined'⟩ :=
    exists_rounds ledger.expected hrep hstage 256
  have hgot : ∀ name, (n' (.inr name)).datagramsOut = (S' (.inr name)).got :=
    fun name ↦ (hrep' (.inr name)).got
  -- after so many rounds everything has arrived
  have harrived : ∀ name, Agrees (n' (.inr name)).datagramsOut (ledger.arriving name) := by
    intro name
    rw [hgot]
    apply Multiset.coe_eq_coe.mp
    rw [← Multiset.map_coe, hstage'.got_eq_destined (by decide), hdestined', hdestined]
  have hiff : (∀ name ∈ names, Agrees (n' (.inr name)).datagramsOut (ledger.expected name)) ↔
      ∀ name, Agrees (ledger.arriving name) (ledger.expected name) :=
    ⟨fun hall name ↦ (harrived name).symm.trans (hall name (hnames name)),
      fun hall name _ ↦ (harrived name).trans (hall name)⟩
  have hchecks := ends_checkHosts (W := W) names (fun name x hx ↦
    ((hrep' (.inr name)).intact x (hgot name ▸ hx)).fits) h.fits
  rw [hiff] at hchecks
  rw [Network.simulate, hrounds]
  refine hchecks.imp ?_
  rintro net' ⟨hagrees, rfl⟩
  have hnone : remaining names ledger.expected = fun _ ↦ [] := by
    funext name
    rw [remaining, if_pos (hnames name)]
  rw [hnone]
  exact ⟨hagrees, tracks_cleared hnames hrep' hstage' (by decide)⟩

theorem Tracks.expect (h : W.Tracks ledger net) {expected : Ipv4Datagram} (hfits : expected.Fits)
    (name : ν) :
    W.Tracks { ledger with
        expected := Function.update ledger.expected name (ledger.expected name ++ [expected]) }
      (net.setHost name ((net.hosts name).expect expected)) := by
  obtain ⟨n, S, rfl, hrep, hstage, hdestined⟩ := h.stations
  refine ⟨fun other ↦ ?_, n, S, ?_, hrep, hstage, hdestined⟩
  · dsimp only
    by_cases hother : other = name
    · subst hother
      rw [Function.update_self]
      exact List.forall_mem_append.mpr ⟨h.fits other, List.forall_mem_singleton.mpr hfits⟩
    · rw [Function.update_of_ne hother]
      exact h.fits other
  · rw [Network.setHost, network, network]
    congr 1
    funext other
    by_cases hother : other = name
    · subst hother
      simp [Host.expect]
    · simp [hother]

theorem ends_commands {names : List ν} (hnames : ∀ name, name ∈ names)
    {commands : List (Command ν)} (hcommands : ∀ command ∈ commands, W.Allowed command)
    (h : W.Tracks ledger net) :
    Ends (fun e ↦ e.Complaint ∧ ¬W.Passes ledger commands)
      (fun _ ↦ W.Passes ledger commands)
      (commands.foldlM (Network.apply W.links names) net) := by
  induction commands generalizing ledger net with
  | nil => exact trivial
  | cons command rest ih =>
      obtain ⟨hcommand, hrest⟩ := List.forall_mem_cons.mp hcommands
      rw [List.foldlM_cons]
      cases command with
      | send name destination ttl payload =>
          obtain ⟨hlength, id, hid, hhop⟩ := hcommand
          obtain ⟨net', hsend, h'⟩ := h.exists_send destination ttl hlength hid hhop
          rw [Network.apply, hsend]
          exact ih hrest h'
      | expect name expected => exact ih hrest (h.expect hcommand name)
      | simulate =>
          refine ((h.ends_simulate hnames).mono (fun e he ↦ ⟨he.1, fun hpasses ↦ he.2 hpasses.1⟩)
            fun _ ↦ id).bind ?_
          rintro net' ⟨hagrees, h'⟩
          exact (ih hrest h').mono (fun e he ↦ ⟨he.1, fun hpasses ↦ he.2 hpasses.2⟩)
            fun _ hpasses ↦ ⟨hagrees, hpasses⟩

/-- A program runs through if and only if, whenever it simulates, every host expects what the routes
lead to it. If it does not, a host complains. -/
theorem returns_iff_passes {names : List ν} (hnames : ∀ name, name ∈ names)
    {commands : List (Command ν)} (hcommands : ∀ command ∈ commands, W.Allowed command) :
    ((∃ net, commands.foldlM (Network.apply W.links names) W.fresh = .ok net) ↔
      W.Passes {} commands) ∧
      ∀ e, commands.foldlM (Network.apply W.links names) W.fresh ≠ .error (.thrown e) := by
  have hends := ends_commands hnames hcommands tracks_fresh
  refine ⟨⟨fun hreturns ↦ ?_, fun hpasses ↦ ?_⟩, fun e hthrown ↦ ?_⟩
  · obtain ⟨net, hnet⟩ := hreturns
    exact hends.result hnet
  · obtain ⟨net, hnet, -⟩ := hends.exists_result fun e he ↦ he.2 hpasses
    exact ⟨net, hnet⟩
  · exact (hends.exception hthrown).1

/-- Two hosts on the link of the only interface of a router that has no routes. -/
def couple : Layout 1 Bool where
  ethernetAddress := Sum.elim (fun _ ↦ #v[2, 0, 0, 0, 0, 1]) fun name ↦
    if name then #v[2, 0, 0, 0, 0, 2] else #v[2, 0, 0, 0, 0, 3]
  ipAddress := Sum.elim (fun _ ↦ ⟨1⟩) fun name ↦ if name then ⟨2⟩ else ⟨3⟩
  ethernetAddress_injective := by
    unfold Function.Injective
    decide
  ipAddress_injective := by
    unfold Function.Injective
    decide
  nextHop _ := ⟨1⟩
  links := [.triple 0 false true]
  disjoint := by decide
  routes := []
  prefixLength_le := by simp
  nonempty := by decide
  names := by simp

/-- What one host sends to the other arrives there once, with one hop less to live. -/
theorem returns_iff_passes_couple :
    ∃ net, [Command.send false ⟨2⟩ 64 [7], .expect true (couple.datagram false ⟨2⟩ 63 [7]),
      .simulate].foldlM (Network.apply couple.links [true, false]) couple.fresh = .ok net := by
  refine (returns_iff_passes (by decide) ?_).1.mpr ?_
  · simp only [List.forall_mem_cons]
    exact ⟨⟨by decide, 0, by decide, rfl⟩, fits_datagram _ _ _ _ (by decide), trivial,
      List.forall_mem_nil _⟩
  · refine ⟨fun name ↦ ?_, trivial⟩
    cases name
    · exact List.Perm.refl _
    · exact List.Perm.refl _

end Layout

end Sponge.NetworkSimulator
