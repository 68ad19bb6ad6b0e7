import Sponge.Interface.Mappings
import Sponge.Router.LongestMatch

/-!
# Forwarding without exceptions

A router throws if it is asked for an interface that it does not have or if a
datagram cannot be written. The first does not happen if every route names an
interface; the second is up to the datagrams that arrive. The parser checks the
size of the payload, as `serialize` does, but it lets through datagrams that say
another version, or a header length below five, and on those `serialize` throws.
-/

namespace Sponge

open Lib

namespace Ipv4Datagram

variable {dgram : Ipv4Datagram} {b : List UInt8}

/-- One hop less to live. -/
def decrementTtl (dgram : Ipv4Datagram) : Ipv4Datagram :=
  { dgram with header := { dgram.header with ttl := dgram.header.ttl - 1 } }

theorem serializable_of_serialize {bytes : List UInt8} (h : dgram.serialize = .ok bytes) :
    dgram.Serializable := by
  simp only [serialize, Ipv4Header.serialize, Ipv4Header.length] at h
  by_cases hsize : dgram.payload.length = dgram.header.payloadLength.toNat
  · by_cases hver : dgram.header.ver = 4
    · by_cases hlen : 4 * dgram.header.hlen.toNat < 20
      · simp [hsize, hver, hlen, bind, Except.bind, throw, throwThe, MonadExceptOf.throw] at h
      · refine ⟨hver, UInt8.le_iff_toNat_le.mpr ?_, hsize⟩
        change 5 ≤ _
        omega
    · simp [hsize, hver, bind, Except.bind, throw, throwThe, MonadExceptOf.throw] at h
  · simp [hsize, bind, Except.bind, throw, throwThe, MonadExceptOf.throw] at h

theorem length_of_parse (h : (parse {} b).1 = .noError) :
    (parse {} b).2.payload.length = (parse {} b).2.header.payloadLength.toNat := by
  rw [parse] at h ⊢
  generalize Ipv4Header.parse _ _ = parsed at h ⊢
  dsimp only at h ⊢
  split_ifs at h ⊢ with hsize
  exact not_not.mp hsize

/-- The router drops the datagram or can write it. -/
def Forwardable (dgram : Ipv4Datagram) : Prop :=
  dgram.header.ttl < 2 ∨ dgram.Serializable

end Ipv4Datagram

/-- Routing needs no exception: what waits for an address can be written, and so can what the
router has not looked at yet. -/
structure AsyncNetworkInterface.Ready (interface : AsyncNetworkInterface) : Prop where
  resolving : interface.toNetworkInterface.Resolving
  forwardable : ∀ dgram ∈ interface.datagramsOut, dgram.Forwardable

/-- A datagram comes only out of an IPv4 frame for the interface. -/
theorem NetworkInterface.of_recvFrame_eq_some {n n' : NetworkInterface} {frame : EthernetFrame}
    {dgram : Ipv4Datagram} (h : n.recvFrame frame = .ok (some dgram, n')) :
    frame.header.type = EthernetHeader.typeIpv4 ∧ frame.header.dst = n.ethernetAddress ∧
      (Ipv4Datagram.parse {} frame.payload).1 = .noError ∧
      (Ipv4Datagram.parse {} frame.payload).2 = dgram := by
  rw [recvFrame] at h
  split_ifs at h with hipv4
  · dsimp only at h
    split_ifs at h with hok
    · cases h
      exact ⟨hipv4.1, hipv4.2, hok, rfl⟩
    · cases h
  -- an ARP message yields no datagram
  · dsimp only at h
    split_ifs at h with herror
    · cases h
    · cases hlearn : n.learn (ArpMessage.parse {} frame.payload).2.senderIpAddress
        (ArpMessage.parse {} frame.payload).2.senderEthernetAddress with
      | error e =>
          rw [hlearn] at h
          cases h
      | ok known =>
          rw [hlearn] at h
          simp only [bind, Except.bind] at h
          split_ifs at h
          · rw [sendArp_eq _ _ _ (.inr rfl)] at h
            cases h
          · cases h

theorem AsyncNetworkInterface.Ready.exists_recvFrame {interface : AsyncNetworkInterface}
    (h : interface.Ready) {frame : EthernetFrame}
    (hframe : frame.header.type = EthernetHeader.typeIpv4 →
      frame.header.dst = interface.ethernetAddress →
      (Ipv4Datagram.parse {} frame.payload).1 = .noError →
      let header := (Ipv4Datagram.parse {} frame.payload).2.header
      header.ttl < 2 ∨ header.ver = 4 ∧ 5 ≤ header.hlen) :
    ∃ interface', interface.recvFrame frame = .ok interface' ∧ interface'.Ready ∧
      interface'.ethernetAddress = interface.ethernetAddress := by
  obtain ⟨n, sent, happly, happlied⟩ := h.resolving.exists_applied_recvFrame frame
  have haddress := interface.toNetworkInterface.after_ethernetAddress (.recvFrame frame)
  rw [NetworkInterface.after_of_apply happly] at haddress
  rw [NetworkInterface.apply] at happly
  cases hrecv : interface.toNetworkInterface.recvFrame frame with
  | error e =>
      rw [hrecv] at happly
      cases happly
  | ok received =>
      obtain ⟨optionalDgram, n'⟩ := received
      rw [hrecv] at happly
      obtain rfl : n' = n := Except.ok.inj happly
      cases optionalDgram with
      | none =>
          refine ⟨{ interface with toNetworkInterface := n' }, ?_,
            ⟨happlied.resolving, h.forwardable⟩, haddress⟩
          rw [recvFrame, hrecv]
          rfl
      | some dgram =>
          obtain ⟨htype, hdst, hparse, hdgram⟩ := NetworkInterface.of_recvFrame_eq_some hrecv
          have hsize := Ipv4Datagram.length_of_parse hparse
          have hheader := hframe htype hdst hparse
          rw [hdgram] at hsize hheader
          refine ⟨⟨n', interface.datagramsOut ++ [dgram]⟩, ?_, ⟨happlied.resolving, ?_⟩, haddress⟩
          · rw [recvFrame, hrecv]
            rfl
          · intro other hother
            rcases List.mem_append.mp hother with hother | hother
            · exact h.forwardable other hother
            · rw [List.mem_singleton.mp hother]
              exact hheader.imp_right fun hheader ↦ ⟨hheader.1, hheader.2, hsize⟩

namespace Router

variable {r : Router} {addresses : List EthernetAddress} {k : ℕ}

theorem all_walk {P : NodeData → Prop} (ip : UInt32) (i : ℕ) {curr validParent : Node}
    (h : curr.All P) (hvalid : validParent.All P) : (walk ip i curr validParent).All P := by
  have hnext : ∀ {data : NodeData} {left right valid : Node},
      (BitTrie.node data left right).All P → valid.All P →
      (if data.hasData then .node data left right else valid : Node).All P := by
    intro data left right valid hnode hvalid
    split_ifs
    · exact hnode
    · exact hvalid
  fun_induction walk ip i curr validParent with
  | case1 => exact h
  | case2 => trivial
  | case3 => exact h
  | case4 => exact hvalid
  | case5 _ _ _ _ _ _ _ _ ih => exact ih h.2.1 (hnext h.2.1 hvalid)
  | case6 => exact h
  | case7 => exact hvalid
  | case8 _ _ _ _ _ _ _ _ ih => exact ih h.2.2 (hnext h.2.2 hvalid)

/-- The lookup finds an interface number of the tree, or the first one. -/
theorem numInterface_lt {n : ℕ} (h : r.root.All (·.numInterface < n)) (hn : 0 < n)
    (dst : UInt32) : (nodeData (walk dst 32 r.root r.root)).numInterface < n := by
  have hall := all_walk dst 32 h h
  cases hnode : walk dst 32 r.root r.root with
  | null => exact hn
  | node data left right => exact (hnode ▸ hall).1

/-- Every node names an interface, and the interfaces are ready. -/
structure Forwards (addresses : List EthernetAddress) (r : Router) : Prop where
  names : r.root.All (·.numInterface < addresses.length)
  nonempty : 0 < addresses.length
  addresses : r.interfaces.map (·.ethernetAddress) = addresses
  ready : ∀ interface ∈ r.interfaces, interface.Ready

namespace Forwards

theorem length_interfaces (h : Forwards addresses r) :
    r.interfaces.length = addresses.length := by
  rw [← h.addresses, List.length_map]

theorem exists_interface (h : Forwards addresses r) (hk : k < addresses.length) :
    ∃ interface, r.interfaces[k]? = some interface ∧ interface.Ready ∧
      addresses[k]? = some interface.ethernetAddress := by
  have hlt : k < r.interfaces.length := h.length_interfaces ▸ hk
  refine ⟨r.interfaces[k], List.getElem?_eq_getElem hlt, h.ready _ (List.getElem_mem hlt), ?_⟩
  rw [← h.addresses, List.getElem?_map, List.getElem?_eq_getElem hlt]
  rfl

theorem set (h : Forwards addresses r) {interface interface' : AsyncNetworkInterface}
    (hk : r.interfaces[k]? = some interface) (hready : interface'.Ready)
    (haddress : interface'.ethernetAddress = interface.ethernetAddress) :
    Forwards addresses { r with interfaces := r.interfaces.set k interface' } where
  names := h.names
  nonempty := h.nonempty
  addresses := by
    obtain ⟨hlt, rfl⟩ := List.getElem?_eq_some_iff.mp hk
    rw [← h.addresses, List.map_set, haddress, ← List.map_set, List.set_getElem_self]
  ready := by
    intro other hother
    rcases List.mem_or_eq_of_mem_set hother with hother | rfl
    · exact h.ready other hother
    · exact hready

end Forwards

/-- Replacing an interface by one with the same queue leaves all queues. -/
theorem datagramsOut_set {interface interface' : AsyncNetworkInterface}
    (hk : r.interfaces[k]? = some interface)
    (hqueue : interface'.datagramsOut = interface.datagramsOut) (j : ℕ) :
    datagramsOut { r with interfaces := r.interfaces.set k interface' } j = r.datagramsOut j := by
  obtain ⟨hlt, rfl⟩ := List.getElem?_eq_some_iff.mp hk
  rw [datagramsOut, datagramsOut, List.getElem?_set]
  split_ifs with hj
  · subst hj
    simp [hlt, hqueue]
  · rfl

theorem Forwards.exists_sendOn (h : Forwards addresses r) (hk : k < addresses.length)
    {dgram : Ipv4Datagram} (hdgram : dgram.Serializable) (nextHop : Address) :
    ∃ r', r.sendOn k dgram nextHop = .ok r' ∧ Forwards addresses r' ∧
      ∀ j, r'.datagramsOut j = r.datagramsOut j := by
  obtain ⟨interface, hinterface, hready, -⟩ := h.exists_interface hk
  obtain ⟨n, sent, hsend, happlied⟩ :=
    hready.resolving.exists_applied_sendDatagram hdgram nextHop
  have happly : interface.toNetworkInterface.apply (.sendDatagram dgram nextHop) = .ok n := hsend
  have haddress := interface.toNetworkInterface.after_ethernetAddress
    (.sendDatagram dgram nextHop)
  rw [NetworkInterface.after_of_apply happly] at haddress
  refine ⟨{ r with interfaces := r.interfaces.set k { interface with toNetworkInterface := n } },
    ?_, h.set hinterface ⟨happlied.resolving, hready.forwardable⟩ haddress,
    datagramsOut_set hinterface rfl⟩
  rw [sendOn, hinterface]
  simp only [hsend]
  rfl

theorem Forwards.exists_routeOneDatagram (h : Forwards addresses r) {dgram : Ipv4Datagram}
    (hdgram : dgram.Forwardable) :
    ∃ r', r.routeOneDatagram dgram = .ok r' ∧ Forwards addresses r' ∧
      ∀ j, r'.datagramsOut j = r.datagramsOut j := by
  rw [routeOneDatagram]
  by_cases httl : dgram.header.ttl < 2
  · rw [if_pos httl]
    exact ⟨r, rfl, h, fun _ ↦ rfl⟩
  · have hserializable : dgram.decrementTtl.Serializable := hdgram.resolve_left httl
    have hnum := numInterface_lt h.names h.nonempty dgram.header.dst
    rw [if_neg httl]
    cases (nodeData (walk dgram.header.dst 32 r.root r.root)).data with
    | some nextHop => exact h.exists_sendOn hnum hserializable nextHop
    | none => exact h.exists_sendOn hnum hserializable ⟨dgram.header.dst⟩

theorem popDatagram_eq (r : Router) (k : ℕ) :
    r.popDatagram k = { r with interfaces := r.interfaces.modify k fun interface ↦
      { interface with datagramsOut := interface.datagramsOut.tail } } := by
  rw [popDatagram, List.modify_eq_set_getElem?]
  cases r.interfaces[k]? <;> rfl

theorem datagramsOut_popDatagram (r : Router) (j k : ℕ) :
    (r.popDatagram k).datagramsOut j =
      if j = k then (r.datagramsOut j).tail else r.datagramsOut j := by
  rw [popDatagram_eq, datagramsOut, datagramsOut, List.getElem?_modify]
  cases r.interfaces[j]? with
  | none => simp
  | some interface =>
      simp only [Option.map_eq_map, Option.map_some, Option.elim_some]
      split_ifs with h₁ h₂ h₂
      · rfl
      · exact absurd h₁.symm h₂
      · exact absurd h₂.symm h₁
      · rfl

theorem Forwards.popDatagram (h : Forwards addresses r) (k : ℕ) :
    Forwards addresses (r.popDatagram k) := by
  rw [Router.popDatagram]
  cases hk : r.interfaces[k]? with
  | none => exact h
  | some interface =>
      have hready := h.ready interface (List.mem_of_getElem? hk)
      refine h.set hk ⟨hready.resolving, ?_⟩ rfl
      exact fun dgram hdgram ↦ hready.forwardable dgram (List.mem_of_mem_tail hdgram)

theorem Forwards.forwardable (h : Forwards addresses r) :
    ∀ dgram ∈ r.datagramsOut k, dgram.Forwardable := by
  rw [datagramsOut]
  cases hk : r.interfaces[k]? with
  | none => exact List.forall_mem_nil _
  | some interface => exact (h.ready interface (List.mem_of_getElem? hk)).forwardable

/-- The loop over a queue empties it and leaves the others. -/
theorem Forwards.exists_routeQueue (h : Forwards addresses r) {queue : List Ipv4Datagram}
    (hqueue : r.datagramsOut k = queue) :
    ∃ r', r.routeQueue k queue = .ok r' ∧ Forwards addresses r' ∧
      ∀ j, r'.datagramsOut j = if j = k then [] else r.datagramsOut j := by
  induction queue generalizing r with
  | nil =>
      refine ⟨r, rfl, h, fun j ↦ ?_⟩
      split_ifs with hj
      · exact hj ▸ hqueue
      · rfl
  | cons dgram rest ih =>
      have hdgram := h.forwardable dgram (hqueue ▸ List.mem_cons_self)
      obtain ⟨routed, hroute, hrouted, hkept⟩ := h.exists_routeOneDatagram hdgram
      have hrest : (routed.popDatagram k).datagramsOut k = rest := by
        rw [datagramsOut_popDatagram, if_pos rfl, hkept, hqueue]
        rfl
      obtain ⟨r', hloop, hforwards, hothers⟩ := ih (hrouted.popDatagram k) hrest
      refine ⟨r', ?_, hforwards, fun j ↦ ?_⟩
      · rw [routeQueue, hroute]
        exact hloop
      · rw [hothers]
        split_ifs with hj
        · rfl
        · rw [datagramsOut_popDatagram, if_neg hj, hkept]

/-- The loop over the interfaces empties the queues of the first of them. -/
theorem Forwards.exists_routeFirst (h : Forwards addresses r) (m : ℕ) :
    ∃ r', (List.range m).foldlM (fun r k ↦ r.routeQueue k (r.datagramsOut k)) r = .ok r' ∧
      Forwards addresses r' ∧
      ∀ j, r'.datagramsOut j = if j < m then [] else r.datagramsOut j := by
  induction m with
  | zero => exact ⟨r, rfl, h, fun j ↦ rfl⟩
  | succ m ih =>
      obtain ⟨r₁, hfirst, hforwards, hqueues⟩ := ih
      obtain ⟨r₂, hloop, hforwards', hqueues'⟩ := hforwards.exists_routeQueue (k := m) rfl
      refine ⟨r₂, foldlM_range_succ hfirst hloop, hforwards', fun j ↦ ?_⟩
      rw [hqueues', hqueues]
      split_ifs <;> first | rfl | omega

theorem Forwards.exists_route (h : Forwards addresses r) :
    ∃ r', r.route = .ok r' ∧ Forwards addresses r' ∧ ∀ j, r'.datagramsOut j = [] := by
  obtain ⟨r', hroute, hforwards, hqueues⟩ := h.exists_routeFirst r.interfaces.length
  refine ⟨r', hroute, hforwards, fun j ↦ ?_⟩
  rw [hqueues]
  split_ifs with hj
  · rfl
  · rw [datagramsOut, List.getElem?_eq_none (not_lt.mp hj)]
    rfl

/-! The operations of a router at work. -/

inductive Op where
  | recvFrame (k : ℕ) (frame : EthernetFrame)
  | tick (k : ℕ) (ms : ℕ)
  | route
  /-- The owner takes the first frame of interface `k`. -/
  | takeFrame (k : ℕ)

/-- `interface(k)` with an operation on it. -/
def onInterface (r : Router) (k : ℕ)
    (f : AsyncNetworkInterface → Except Exception AsyncNetworkInterface) :
    Except Exception Router :=
  match r.interfaces[k]? with
  | none => throw (.outOfRange "vector::at")
  | some interface => do return { r with interfaces := r.interfaces.set k (← f interface) }

def apply (r : Router) : Op → Except Exception Router
  | .recvFrame k frame => r.onInterface k (·.recvFrame frame)
  | .tick k ms => r.onInterface k fun interface ↦
    return { interface with toNetworkInterface := interface.toNetworkInterface.tick ms }
  | .route => r.route
  | .takeFrame k => r.onInterface k fun interface ↦
    return { interface with framesOut := interface.framesOut.tail }

/-- The interface exists, and an IPv4 frame for it that is accepted carries a datagram of
version four with a header of at least five words, or one that is not passed on. -/
def Op.Admissible (addresses : List EthernetAddress) : Op → Prop
  | .recvFrame k frame => ∃ own, addresses[k]? = some own ∧
    (frame.header.type = EthernetHeader.typeIpv4 → frame.header.dst = own →
      (Ipv4Datagram.parse {} frame.payload).1 = .noError →
      let header := (Ipv4Datagram.parse {} frame.payload).2.header
      header.ttl < 2 ∨ header.ver = 4 ∧ 5 ≤ header.hlen)
  | .tick k _ | .takeFrame k => k < addresses.length
  | .route => True

theorem Forwards.exists_onInterface (h : Forwards addresses r) {own : EthernetAddress}
    (hk : addresses[k]? = some own)
    {f : AsyncNetworkInterface → Except Exception AsyncNetworkInterface}
    (hf : ∀ interface, interface.Ready → interface.ethernetAddress = own →
      ∃ interface', f interface = .ok interface' ∧ interface'.Ready ∧
        interface'.ethernetAddress = own) :
    ∃ r', r.onInterface k f = .ok r' ∧ Forwards addresses r' := by
  obtain ⟨hlt, -⟩ := List.getElem?_eq_some_iff.mp hk
  obtain ⟨interface, hinterface, hready, haddress⟩ := h.exists_interface hlt
  have hown : interface.ethernetAddress = own := Option.some.inj (haddress.symm.trans hk)
  obtain ⟨interface', hok, hready', hown'⟩ := hf interface hready hown
  refine ⟨_, ?_, h.set hinterface hready' (hown'.trans hown.symm)⟩
  rw [onInterface, hinterface]
  simp only [hok]
  rfl

theorem Forwards.exists_apply (h : Forwards addresses r) {op : Op}
    (hop : op.Admissible addresses) : ∃ r', r.apply op = .ok r' ∧ Forwards addresses r' := by
  cases op with
  | recvFrame k frame =>
      obtain ⟨own, hk, hsound⟩ := hop
      refine h.exists_onInterface hk fun interface hready hown ↦ ?_
      exact hown ▸ hready.exists_recvFrame (hown ▸ hsound)
  | tick k ms =>
      refine h.exists_onInterface (List.getElem?_eq_getElem hop) fun interface hready hown ↦ ?_
      refine ⟨_, rfl, ⟨hready.resolving.tick ms, hready.forwardable⟩, ?_⟩
      exact (interface.toNetworkInterface.after_ethernetAddress (.tick ms)).trans hown
  | route =>
      obtain ⟨r', hroute, hforwards, -⟩ := h.exists_route
      exact ⟨r', hroute, hforwards⟩
  | takeFrame k =>
      refine h.exists_onInterface (List.getElem?_eq_getElem hop) fun interface hready hown ↦ ?_
      exact ⟨_, rfl, ⟨hready.resolving.congr rfl rfl rfl, hready.forwardable⟩, hown⟩

theorem Forwards.addRoutes {routes : List Route} (h : Forwards addresses r)
    (hroutes : ∀ route ∈ routes, route.interfaceNum < addresses.length) :
    Forwards addresses (r.addRoutes routes) := by
  have hinterfaces := addRoutes_interfaces r routes
  refine ⟨all_addRoutes h.names h.nonempty hroutes, h.nonempty, ?_, ?_⟩
  · rw [hinterfaces, h.addresses]
  · rw [hinterfaces]
    exact h.ready

/-- A router with its interfaces in order, as they are added to it. -/
def withInterfaces (stations : List (EthernetAddress × Address)) : Router :=
  { interfaces := stations.map fun station ↦
      { ethernetAddress := station.1, ipAddress := station.2 } }

theorem forwards_withInterfaces {stations : List (EthernetAddress × Address)}
    (h : stations ≠ []) : Forwards (stations.map Prod.fst) (withInterfaces stations) := by
  have hpos : 0 < (stations.map Prod.fst).length := by
    rw [List.length_map]
    exact List.length_pos_iff.mpr h
  refine ⟨⟨hpos, trivial, trivial⟩, hpos, by simp [withInterfaces], ?_⟩
  intro interface hinterface
  obtain ⟨station, -, rfl⟩ := List.mem_map.mp hinterface
  exact ⟨by constructor <;> simp, by simp⟩

/-- If all frames are admissible then no call throws and every call of `route` leaves all queues
empty, whatever else the frames hold. A datagram that the parser accepts can be written after
a hop if and only if it says version four and a header of at least five words. -/
theorem routes_without_exception (stations : List (EthernetAddress × Address))
    (routes : List Route) (hroutes : ∀ route ∈ routes, route.interfaceNum < stations.length)
    (hdefault : ∃ route ∈ routes, route.prefixLength = 0) (ops : List Op)
    (hops : ∀ op ∈ ops, op.Admissible (stations.map Prod.fst)) :
    (∃ r r', ops.foldlM apply (addRoutes (withInterfaces stations) routes) = .ok r ∧
      r.route = .ok r' ∧ ∀ interface ∈ r'.interfaces, interface.datagramsOut = []) ∧
    ∀ b, (Ipv4Datagram.parse {} b).1 = .noError →
      let dgram := (Ipv4Datagram.parse {} b).2
      (∃ bytes, dgram.decrementTtl.serialize = .ok bytes) ↔
        dgram.header.ver = 4 ∧ 5 ≤ dgram.header.hlen := by
  constructor
  · obtain ⟨route, hroute, -⟩ := hdefault
    have hne : stations ≠ [] := by
      rintro rfl
      exact Nat.not_lt_zero _ (hroutes route hroute)
    have hstart : Forwards (stations.map Prod.fst)
        (addRoutes (withInterfaces stations) routes) := by
      refine (forwards_withInterfaces hne).addRoutes fun route hroute ↦ ?_
      rw [List.length_map]
      exact hroutes route hroute
    have hstep : ∀ (r : Router) (op : Op), Forwards (stations.map Prod.fst) r →
        op.Admissible (stations.map Prod.fst) →
        ∃ r', r.apply op = .ok r' ∧ Forwards (stations.map Prod.fst) r' :=
      fun _ _ h hop ↦ h.exists_apply hop
    obtain ⟨r, hrun, hforwards⟩ := exists_foldlM_ok hstep hstart hops
    obtain ⟨r', hroute', -, hempty⟩ := hforwards.exists_route
    refine ⟨r, r', hrun, hroute', fun interface hinterface ↦ ?_⟩
    obtain ⟨k, hk⟩ := List.mem_iff_getElem?.mp hinterface
    have hqueue := hempty k
    rw [datagramsOut, hk] at hqueue
    exact hqueue
  · intro b hparse dgram
    constructor
    · rintro ⟨bytes, hbytes⟩
      obtain ⟨hver, hlen, -⟩ := Ipv4Datagram.serializable_of_serialize hbytes
      exact ⟨hver, hlen⟩
    · rintro ⟨hver, hlen⟩
      exact Ipv4Datagram.exists_serialize ⟨hver, hlen, Ipv4Datagram.length_of_parse hparse⟩

/-- A frame for the station `2`. -/
def ipv4FrameFor (payload : List UInt8) : EthernetFrame :=
  { header := { dst := .replicate 6 2, src := .replicate 6 1, type := EthernetHeader.typeIpv4 }
    payload }

/-- A datagram waits for the address of the default router and leaves when it is told. -/
theorem routes_one_datagram_without_exception :
    ∃ r r', [Op.recvFrame 0 (ipv4FrameFor
          [0x45, 0, 0, 20, 0, 0, 0, 0, 128, 6, 0x3a, 0xe2, 0, 0, 0, 1, 0, 0, 0, 2]), .tick 0 10,
        .route, .recvFrame 0 (NetworkInterface.replyFrom 1 (.replicate 6 1))].foldlM apply
          (addRoutes (withInterfaces [(.replicate 6 2, ⟨2⟩)]) [⟨0, 0, some ⟨1⟩, 0⟩]) = .ok r ∧
      r.route = .ok r' ∧ ∀ interface ∈ r'.interfaces, interface.datagramsOut = [] := by
  refine (routes_without_exception [(.replicate 6 2, ⟨2⟩)] [⟨0, 0, some ⟨1⟩, 0⟩] (by decide)
    ⟨_, List.mem_singleton_self _, rfl⟩ _ fun op hop ↦ ?_).1
  simp only [List.mem_cons, List.not_mem_nil, or_false] at hop
  rcases hop with rfl | rfl | rfl | rfl
  · exact ⟨.replicate 6 2, rfl, fun _ _ _ ↦ by decide⟩
  · exact Nat.zero_lt_one
  · trivial
  · exact ⟨.replicate 6 2, rfl, fun htype ↦ absurd htype (by decide)⟩

/-- A datagram that says version six is accepted. If its next hop is known then `route` throws;
if not, the ARP message that tells it makes `recv_frame` throw. -/
theorem throws_on_version_six :
    (Ipv4Datagram.parse {}
      [0x65, 0, 0, 20, 0, 0, 0, 0, 128, 6, 0, 0, 0, 0, 0, 1, 0, 0, 0, 2]).1 = .noError ∧
    ([Op.recvFrame 0 (NetworkInterface.replyFrom 1 (.replicate 6 1)), .recvFrame 0 (ipv4FrameFor
        [0x65, 0, 0, 20, 0, 0, 0, 0, 128, 6, 0, 0, 0, 0, 0, 1, 0, 0, 0, 2]), .route].foldlM apply
      (addRoutes (withInterfaces [(.replicate 6 2, ⟨2⟩)])
        [⟨0, 0, some ⟨1⟩, 0⟩])).toOption.isNone ∧
    ([Op.recvFrame 0 (ipv4FrameFor
        [0x65, 0, 0, 20, 0, 0, 0, 0, 128, 6, 0, 0, 0, 0, 0, 1, 0, 0, 0, 2]), .route].foldlM apply
      (addRoutes (withInterfaces [(.replicate 6 2, ⟨2⟩)])
        [⟨0, 0, some ⟨1⟩, 0⟩])).toOption.isSome ∧
    ([Op.recvFrame 0 (ipv4FrameFor
        [0x65, 0, 0, 20, 0, 0, 0, 0, 128, 6, 0, 0, 0, 0, 0, 1, 0, 0, 0, 2]), .route,
        .recvFrame 0 (NetworkInterface.replyFrom 1 (.replicate 6 1))].foldlM apply
      (addRoutes (withInterfaces [(.replicate 6 2, ⟨2⟩)])
        [⟨0, 0, some ⟨1⟩, 0⟩])).toOption.isNone := by
  decide +kernel

end Router

end Sponge
