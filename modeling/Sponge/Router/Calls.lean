import Sponge.Lib.Ranges
import Sponge.Router.Forwarding

/-!
# What a router hands to its interfaces

The calls of `send_datagram` that a router makes. Routing one datagram is one
call, or none if the datagram has used up its hops. A destination that no route
matches is not told apart from the others: the walk ends at the root, whose data
are those of a new node, and the datagram is sent on the first interface. The
loop over the queues makes one call for each datagram that may live on, in order.
-/

namespace Sponge

open Lib

/-- A call of `send_datagram` on the interface with this number. -/
structure Call where
  interfaceNum : ℕ
  dgram : Ipv4Datagram
  nextHop : Address
  deriving DecidableEq

namespace Router

variable {r r' : Router} {routes : List Route} {dgram : Ipv4Datagram} {k : ℕ}

/-- The data of the node where the walk ends. -/
def found (r : Router) (dst : UInt32) : NodeData := nodeData (walk dst 32 r.root r.root)

/-- The call that `route_one_datagram` is about to make. -/
def call (r : Router) (dgram : Ipv4Datagram) : Call where
  interfaceNum := (r.found dgram.header.dst).numInterface
  dgram := dgram.decrementTtl
  nextHop := (r.found dgram.header.dst).data.getD ⟨dgram.header.dst⟩

/-- The calls that `route_one_datagram` makes: without the interface `at` throws before. -/
def calls (r : Router) (dgram : Ipv4Datagram) : List Call :=
  if dgram.header.ttl < 2 then []
  else if (r.call dgram).interfaceNum < r.interfaces.length then [r.call dgram] else []

theorem routeOneDatagram_eq (r : Router) (dgram : Ipv4Datagram) :
    r.routeOneDatagram dgram =
      if dgram.header.ttl < 2 then .ok r
      else r.sendOn (r.call dgram).interfaceNum (r.call dgram).dgram (r.call dgram).nextHop := by
  rw [routeOneDatagram]
  split_ifs with httl
  · rfl
  · simp only [call, found, Ipv4Datagram.decrementTtl]
    cases (nodeData (walk dgram.header.dst 32 r.root r.root)).data <;> rfl

/-! ### Without a route -/

/-- A node that holds no route is as it was made. -/
def Plain (data : NodeData) : Prop := data.hasData = false → data = {}

/-- Where no route matches the walk ends at data of a new node. -/
theorem target_found_of_unmatched (interfaces : List AsyncNetworkInterface)
    (hlen : ∀ route ∈ routes, route.prefixLength ≤ 32) {dst : UInt32}
    (hmatch : ∀ route ∈ routes, ¬route.Matches dst) :
    ((addRoutes { interfaces } routes).found dst).target = (0, none) := by
  by_cases hnil : routes = []
  · subst hnil
    have hwalk := walk_succ dst (show 31 < 32 by omega) {} .null .null Bst.root
    rw [found]
    change (nodeData (walk dst 32 Bst.root Bst.root)).target = _
    rw [Bst.root] at hwalk ⊢
    rw [hwalk]
    cases dst.toNat.testBit 31 <;> rfl
  · have hroutes := routes_addRoutes interfaces hnil hlen
    obtain ⟨data, left, right, hroot⟩ := hroutes.isNode
    have hplain : (addRoutes { interfaces } routes).root.All Plain :=
      all_addRoutes ⟨fun _ ↦ rfl, trivial, trivial⟩ (fun _ ↦ rfl) fun _ _ hdata ↦ by cases hdata
    have hnone : Route.longestMatch routes dst = none := by
      have hspec := Route.longestMatch_spec routes dst
      cases hbest : Route.longestMatch routes dst with
      | none => rfl
      | some route =>
          rw [hbest] at hspec
          obtain ⟨i, hlongest⟩ := hspec
          exact absurd hlongest.isMatch (hmatch route (List.mem_of_getElem? hlongest.getElem))
    have hdeepest := hroutes.deepest dst
    have htrimmed := hroutes.trimmed
    have hbounded := hroutes.bounded
    rw [hnone] at hdeepest
    rw [hroot] at hdeepest htrimmed hbounded hplain
    have hdata : data = {} := by
      apply hplain.1
      simpa [NodeData.route] using BitTrie.val_eq_none_of_deepest hdeepest
    rw [found, hroot, target_walk dst le_rfl data left right htrimmed hbounded fun _ ↦ rfl,
      hdeepest]
    exact congrArg NodeData.target hdata

theorem call_of_unmatched (interfaces : List AsyncNetworkInterface)
    (hlen : ∀ route ∈ routes, route.prefixLength ≤ 32)
    (hmatch : ∀ route ∈ routes, ¬route.Matches dgram.header.dst) :
    (addRoutes { interfaces } routes).call dgram =
      ⟨0, dgram.decrementTtl, ⟨dgram.header.dst⟩⟩ := by
  have htarget := target_found_of_unmatched interfaces hlen hmatch
  rw [NodeData.target, Prod.mk.injEq] at htarget
  rw [call, htarget.1, htarget.2]
  rfl

/-- A datagram that no route matches is not passed on exactly if it has used up its hops, or if
there is no interface. -/
theorem unmatched_not_sent (interfaces : List AsyncNetworkInterface) (routes : List Route)
    (hlen : ∀ route ∈ routes, route.prefixLength ≤ 32) (dgram : Ipv4Datagram)
    (hmatch : ∀ route ∈ routes, ¬route.Matches dgram.header.dst) :
    let r := addRoutes { interfaces } routes
    (r.calls dgram = [] ∧ ((r.routeOneDatagram dgram).toOption.getD r).interfaces = interfaces) ↔
      dgram.header.ttl < 2 ∨ interfaces = [] := by
  intro r
  have hcall : r.call dgram = _ := call_of_unmatched interfaces hlen hmatch
  have hinterfaces : r.interfaces = interfaces := addRoutes_interfaces _ routes
  rw [calls, routeOneDatagram_eq, hcall, hinterfaces]
  by_cases httl : dgram.header.ttl < 2
  · rw [if_pos httl, if_pos httl]
    exact iff_of_true ⟨rfl, hinterfaces⟩ (.inl httl)
  · rw [if_neg httl, if_neg httl, or_iff_right httl]
    constructor
    · -- With an interface the first one is called.
      rintro ⟨hnone, -⟩
      by_contra hne
      rw [if_pos (List.length_pos_iff.mpr hne)] at hnone
      exact List.cons_ne_nil _ _ hnone
    · rintro rfl
      have hthrow : ∀ dgram' nextHop, r.sendOn 0 dgram' nextHop =
          .error (.outOfRange "vector::at") := by
        intro dgram' nextHop
        rw [sendOn, hinterfaces]
        rfl
      rw [hthrow]
      exact ⟨rfl, hinterfaces⟩

/-- The last hop, with a route to another network. -/
theorem unmatched_not_sent_last_hop :
    let interfaces : List AsyncNetworkInterface :=
      [{ ethernetAddress := .replicate 6 1, ipAddress := ⟨1⟩ }]
    let r := addRoutes { interfaces } [⟨0x0a000000, 8, none, 0⟩]
    let dgram : Ipv4Datagram := { header := { ttl := 1, dst := 0x0b000001 } }
    r.calls dgram = [] ∧ ((r.routeOneDatagram dgram).toOption.getD r).interfaces = interfaces :=
  (unmatched_not_sent _ [⟨0x0a000000, 8, none, 0⟩] (by decide)
    { header := { ttl := 1, dst := 0x0b000001 } } (by decide)).mpr (.inl (by decide))

/-- The only route leads to another network through the second interface; the datagram is sent on
the first one, which asks for the address of its destination. -/
theorem unmatched_sent_on_first_interface :
    let r := addRoutes (withInterfaces [(.replicate 6 1, ⟨1⟩), (.replicate 6 2, ⟨2⟩)])
      [⟨0x0a000000, 8, none, 1⟩]
    let dgram : Ipv4Datagram := { header := { len := 20, dst := 0x0b000001 } }
    ¬Route.Matches ⟨0x0a000000, 8, none, 1⟩ dgram.header.dst ∧
      r.calls dgram = [⟨0, dgram.decrementTtl, ⟨0x0b000001⟩⟩] ∧
      (r.routeOneDatagram dgram).toOption.map
          (fun r' ↦ r'.interfaces.map (·.framesOut.length)) = some [1, 0] ∧
      (r.routeOneDatagram dgram).toOption.map
          (fun r' ↦ r'.interfaces.map (·.ip2dgrams 0x0b000001)) =
        some [[dgram.decrementTtl], []] := by
  decide +kernel

/-! ### The loop over the queues -/

/-- The datagram at the front of the queue of interface `k` is changed in place. -/
def setFront (r : Router) (k : ℕ) (dgram : Ipv4Datagram) : Router :=
  { r with interfaces := r.interfaces.modify k fun interface ↦
      { interface with datagramsOut := dgram :: interface.datagramsOut.tail } }

/-- Interface `k` after an operation that left it with this network side. -/
def connect (r : Router) (k : ℕ) (n : NetworkInterface) : Router :=
  { r with interfaces := r.interfaces.modify k fun interface ↦
      { interface with toNetworkInterface := n } }

theorem popDatagram_setFront (r : Router) (k : ℕ) (dgram : Ipv4Datagram) :
    (r.setFront k dgram).popDatagram k = r.popDatagram k := by
  rw [popDatagram_eq, popDatagram_eq, setFront, List.modify_modify_eq]
  rfl

theorem connect_setFront (r : Router) (j k : ℕ) (dgram : Ipv4Datagram) (n : NetworkInterface) :
    (r.setFront k dgram).connect j n = (r.connect j n).setFront k dgram := by
  simp only [connect, setFront]
  by_cases h : k = j
  · subst h
    rw [List.modify_modify_eq, List.modify_modify_eq]
    rfl
  · rw [List.modify_modify_ne _ _ _ h]

theorem sendOn_eq_connect {num : ℕ} {m n : NetworkInterface} {nextHop : Address}
    (hm : r.interfaces[num]?.map (·.toNetworkInterface) = some m)
    (hsend : m.sendDatagram dgram nextHop = .ok n) :
    r.sendOn num dgram nextHop = .ok (r.connect num n) := by
  obtain ⟨interface, hinterface, rfl⟩ := Option.map_eq_some_iff.mp hm
  rw [sendOn, hinterface, connect, List.modify_eq_set_getElem?, hinterface]
  simp only [hsend]
  rfl

/-- The front of a queue is no part of the network side. -/
theorem toNetworkInterface_setFront (r : Router) (j k : ℕ) (dgram : Ipv4Datagram) :
    (r.setFront k dgram).interfaces[j]?.map (·.toNetworkInterface) =
      r.interfaces[j]?.map (·.toNetworkInterface) := by
  rw [setFront, List.getElem?_modify]
  cases r.interfaces[j]? with
  | none => rfl
  | some interface =>
      simp only [Option.map_eq_map, Option.map_some]
      split_ifs <;> rfl

theorem exists_sendDatagram (m : NetworkInterface) (hdgram : dgram.Serializable)
    (nextHop : Address) : ∃ n, m.sendDatagram dgram nextHop = .ok n := by
  obtain ⟨bytes, hbytes⟩ := Ipv4Datagram.exists_serialize hdgram
  rw [NetworkInterface.sendDatagram]
  cases m.ip2eth nextHop.ipv4Numeric with
  | some eth => exact ⟨_, by simp only [hbytes]; rfl⟩
  | none =>
      simp only
      split_ifs
      · exact ⟨_, rfl⟩
      · exact ⟨_, NetworkInterface.sendArp_eq _ _ _ (.inl rfl)⟩

/-- Sending on an interface that exists, with the front of a queue changed or not. -/
theorem exists_sendOn {num : ℕ} (hnum : num < r.interfaces.length) (hdgram : dgram.Serializable)
    (nextHop : Address) :
    ∃ n, r.sendOn num dgram nextHop = .ok (r.connect num n) ∧
      ∀ k front, (r.setFront k front).sendOn num dgram nextHop =
        .ok ((r.connect num n).setFront k front) := by
  have hm : r.interfaces[num]?.map (·.toNetworkInterface) =
      some r.interfaces[num].toNetworkInterface := by
    rw [List.getElem?_eq_getElem hnum]
    rfl
  obtain ⟨n, hn⟩ := exists_sendDatagram r.interfaces[num].toNetworkInterface hdgram nextHop
  refine ⟨n, sendOn_eq_connect hm hn, fun k front ↦ ?_⟩
  rw [← connect_setFront]
  exact sendOn_eq_connect ((toNetworkInterface_setFront r num k front).trans hm) hn

theorem datagramsOut_connect (r : Router) (j k : ℕ) (n : NetworkInterface) :
    (r.connect k n).datagramsOut j = r.datagramsOut j := by
  rw [datagramsOut, datagramsOut, connect, List.getElem?_modify]
  cases r.interfaces[j]? with
  | none => rfl
  | some interface =>
      simp only [Option.map_eq_map, Option.map_some, Option.elim_some]
      split_ifs <;> rfl

/-- Every node names an interface. -/
structure Names (r : Router) : Prop where
  all : r.root.All (·.numInterface < r.interfaces.length)
  nonempty : 0 < r.interfaces.length

theorem Names.interfaceNum_call (h : r.Names) (dgram : Ipv4Datagram) :
    (r.call dgram).interfaceNum < r.interfaces.length :=
  numInterface_lt h.all h.nonempty dgram.header.dst

/-- The routers have the same routes and equally many interfaces. -/
structure Alike (r r' : Router) : Prop where
  root : r'.root = r.root
  length : r'.interfaces.length = r.interfaces.length

theorem Alike.call (h : Alike r r') (dgram : Ipv4Datagram) : r'.call dgram = r.call dgram := by
  rw [Router.call, Router.call, found, found, h.root]

theorem Alike.connect (h : Alike r r') (k : ℕ) (n : NetworkInterface) :
    Alike r (r'.connect k n) :=
  ⟨h.root, (List.length_modify _ _ _).trans h.length⟩

theorem Alike.popDatagram (h : Alike r r') (k : ℕ) : Alike r (r'.popDatagram k) := by
  rw [popDatagram_eq]
  exact ⟨h.root, (List.length_modify _ _ _).trans h.length⟩

/-- One call for each datagram of a queue that may live on, in order. -/
def forwarded (r : Router) (queue : List Ipv4Datagram) : List Call :=
  (queue.filter fun dgram ↦ 2 ≤ dgram.header.ttl).map r.call

theorem forwarded_cons (r : Router) (dgram : Ipv4Datagram) (rest : List Ipv4Datagram) :
    r.forwarded (dgram :: rest) =
      (if dgram.header.ttl < 2 then [] else [r.call dgram]) ++ r.forwarded rest := by
  rw [forwarded, forwarded]
  by_cases httl : dgram.header.ttl < 2
  · rw [if_pos httl, List.filter_cons_of_neg (by simpa using httl)]
    rfl
  · rw [if_neg httl, List.filter_cons_of_pos (by simpa using httl)]
    rfl

end Router

/-- A router in `route`, with the calls it has made. -/
structure Routing where
  router : Router
  calls : List Call := []

namespace Routing

def sendOn (s : Routing) (call : Call) : Except Exception Routing := do
  let router ← s.router.sendOn call.interfaceNum call.dgram call.nextHop
  return { router, calls := s.calls ++ [call] }

/-- `route_one_datagram(queue.front())` on the queue of interface `k`. -/
def routeFront (s : Routing) (k : ℕ) (dgram : Ipv4Datagram) : Except Exception Routing :=
  let call := s.router.call dgram
  if dgram.header.ttl < 2 then return s
  else sendOn { s with router := s.router.setFront k call.dgram } call

/-- The loop over the queue of interface `k`. -/
def drainQueue (k : ℕ) : ℕ → Routing → Except Exception Routing
  | 0, s => return s
  | fuel + 1, s =>
    match s.router.datagramsOut k with
    | [] => return s
    | dgram :: _ => do
      let s ← s.routeFront k dgram
      drainQueue k fuel { s with router := s.router.popDatagram k }

def route (fuel : ℕ) (r : Router) : Except Exception Routing :=
  (List.range r.interfaces.length).foldlM (fun s k ↦ drainQueue k fuel s) { router := r }

variable {r : Router} {s : Routing} {dgram : Ipv4Datagram} {k : ℕ}

/-- The turn of the loop for one datagram, with what `route_one_datagram` alone does. -/
theorem exists_routeFront (hnames : r.Names) (hr : r.Alike s.router)
    (hdgram : dgram.Serializable) (k : ℕ) :
    ∃ routed s', s.router.routeOneDatagram dgram = .ok routed ∧ r.Alike routed ∧
      (∀ j, routed.datagramsOut j = s.router.datagramsOut j) ∧
      s.routeFront k dgram = .ok s' ∧ s'.router.popDatagram k = routed.popDatagram k ∧
      s'.calls = s.calls ++ if dgram.header.ttl < 2 then [] else [r.call dgram] := by
  rw [Router.routeOneDatagram_eq, routeFront]
  by_cases httl : dgram.header.ttl < 2
  · simp only [if_pos httl]
    exact ⟨s.router, s, rfl, hr, fun _ ↦ rfl, rfl, rfl, (List.append_nil _).symm⟩
  · simp only [if_neg httl, hr.call]
    have hnum := hnames.interfaceNum_call dgram
    rw [← hr.length] at hnum
    have hserializable : (r.call dgram).dgram.Serializable := hdgram
    obtain ⟨n, hsend, hfront⟩ := Router.exists_sendOn hnum hserializable (r.call dgram).nextHop
    have hsent : sendOn { s with router := s.router.setFront k (r.call dgram).dgram }
        (r.call dgram) = .ok
        ⟨(s.router.connect (r.call dgram).interfaceNum n).setFront k (r.call dgram).dgram,
          s.calls ++ [r.call dgram]⟩ := by
      rw [sendOn, hfront]
      rfl
    exact ⟨_, _, hsend, hr.connect _ n, fun j ↦ Router.datagramsOut_connect _ j _ n, hsent,
      Router.popDatagram_setFront _ k _, rfl⟩

/-- The loop over a queue ends, with the queue empty and one call for each datagram that may
live on. -/
theorem exists_drainQueue (hnames : r.Names) (hr : r.Alike s.router) {queue : List Ipv4Datagram}
    (hqueue : s.router.datagramsOut k = queue) (h : ∀ dgram ∈ queue, dgram.Serializable) :
    ∃ s', (∀ fuel, queue.length ≤ fuel → drainQueue k fuel s = .ok s') ∧
      s.router.routeQueue k queue = .ok s'.router ∧ r.Alike s'.router ∧
      s'.calls = s.calls ++ r.forwarded queue ∧
      ∀ j, s'.router.datagramsOut j = if j = k then [] else s.router.datagramsOut j := by
  induction queue generalizing s with
  | nil =>
      refine ⟨s, fun fuel _ ↦ ?_, rfl, hr, (List.append_nil _).symm, fun j ↦ ?_⟩
      · cases fuel with
        | zero => rfl
        | succ fuel =>
            rw [drainQueue, hqueue]
            rfl
      · split_ifs with hj
        · exact hj ▸ hqueue
        · rfl
  | cons dgram rest ih =>
      obtain ⟨routed, s₁, hrouted, halike, hkept, hfront, hpop, hcalls⟩ :=
        exists_routeFront hnames hr (h dgram List.mem_cons_self) k
      have hrest : (routed.popDatagram k).datagramsOut k = rest := by
        rw [Router.datagramsOut_popDatagram, if_pos rfl, hkept, hqueue]
        rfl
      obtain ⟨s', hdrain, hloop, halike', hcalls', hothers⟩ :=
        @ih { router := routed.popDatagram k, calls := s₁.calls } (halike.popDatagram k) hrest
          fun other hother ↦ h other (List.mem_cons_of_mem _ hother)
      refine ⟨s', fun fuel hfuel ↦ ?_, ?_, halike', ?_, fun j ↦ ?_⟩
      · obtain ⟨fuel, rfl⟩ := Nat.exists_eq_add_of_le' (Nat.one_le_of_lt hfuel)
        rw [drainQueue, hqueue]
        simp only [hfront, bind, Except.bind, hpop]
        exact hdrain fuel (Nat.le_of_succ_le_succ hfuel)
      · rw [Router.routeQueue, hrouted]
        exact hloop
      · rw [hcalls', hcalls, Router.forwarded_cons, List.append_assoc]
      · rw [hothers]
        split_ifs with hj
        · rfl
        · rw [Router.datagramsOut_popDatagram, if_neg hj, hkept]

/-- The loop over the first interfaces. -/
theorem exists_routeFirst (hnames : r.Names)
    (h : ∀ k, ∀ dgram ∈ r.datagramsOut k, dgram.Serializable) (m : ℕ) :
    ∃ s', (∀ fuel, (∀ k, (r.datagramsOut k).length ≤ fuel) →
        (List.range m).foldlM (fun s k ↦ drainQueue k fuel s) { router := r } = .ok s') ∧
      (List.range m).foldlM (fun r k ↦ r.routeQueue k (r.datagramsOut k)) r = .ok s'.router ∧
      r.Alike s'.router ∧
      s'.calls = (List.range m).flatMap (fun k ↦ r.forwarded (r.datagramsOut k)) ∧
      ∀ j, s'.router.datagramsOut j = if j < m then [] else r.datagramsOut j := by
  induction m with
  | zero => exact ⟨{ router := r }, fun _ _ ↦ rfl, rfl, ⟨rfl, rfl⟩, rfl, fun j ↦ rfl⟩
  | succ m ih =>
      obtain ⟨s₁, hfirst, hroute, halike, hcalls, hqueues⟩ := ih
      have hqueue : s₁.router.datagramsOut m = r.datagramsOut m := by
        rw [hqueues, if_neg (lt_irrefl m)]
      obtain ⟨s₂, hdrain, hloop, halike', hcalls', hqueues'⟩ :=
        exists_drainQueue hnames halike hqueue (h m)
      refine ⟨s₂, fun fuel hfuel ↦ ?_, ?_, halike', ?_, fun j ↦ ?_⟩
      · exact foldlM_range_succ (hfirst fuel hfuel) (hdrain fuel (hfuel m))
      · exact foldlM_range_succ hroute (hqueue.symm ▸ hloop)
      · rw [hcalls', hcalls, List.range_succ, List.flatMap_append, List.flatMap_singleton]
      · rw [hqueues', hqueues]
        split_ifs <;> first | rfl | omega

theorem names_addRoutes {interfaces : List AsyncNetworkInterface} {routes : List Route}
    (hroutes : ∀ route ∈ routes, route.interfaceNum < interfaces.length)
    (hpos : 0 < interfaces.length) : (Router.addRoutes { interfaces } routes).Names := by
  have hinterfaces := Router.addRoutes_interfaces { interfaces } routes
  refine ⟨?_, by rwa [hinterfaces]⟩
  rw [hinterfaces]
  exact Router.all_addRoutes ⟨hpos, trivial, trivial⟩ hpos hroutes

theorem decrementTtl_spec {dgram : Ipv4Datagram} (h : 2 ≤ dgram.header.ttl) :
    dgram.decrementTtl.header.ttl.toNat + 1 = dgram.header.ttl.toNat := by
  have hle : 2 ≤ dgram.header.ttl.toNat := UInt8.le_iff_toNat_le.mp h
  have hone : (1 : UInt8) ≤ dgram.header.ttl := UInt8.le_iff_toNat_le.mpr (Nat.le_of_succ_le hle)
  change (dgram.header.ttl - 1).toNat + 1 = _
  rw [UInt8.toNat_sub_of_le _ _ hone]
  exact Nat.sub_add_cancel (Nat.le_of_succ_le hle)

/-- With routes that name interfaces, one of them for all destinations, and queues of datagrams
that can be written, `route` ends with all queues empty. It makes one call for each datagram with
two hops or more to live, interface by interface and in the order of the queue, with that datagram
and one hop less. -/
theorem route_calls_each_once (interfaces : List AsyncNetworkInterface) (routes : List Route)
    (hroutes : ∀ route ∈ routes, route.interfaceNum < interfaces.length)
    (hdefault : ∃ route ∈ routes, route.prefixLength = 0)
    (hqueues : ∀ interface ∈ interfaces, ∀ dgram ∈ interface.datagramsOut, dgram.Serializable) :
    let r := Router.addRoutes { interfaces } routes
    ∃ s : Routing,
      (∀ fuel, (∀ interface ∈ interfaces, interface.datagramsOut.length ≤ fuel) →
        route fuel r = .ok s) ∧
      r.route = .ok s.router ∧
      (∀ interface ∈ s.router.interfaces, interface.datagramsOut = []) ∧
      s.calls = interfaces.flatMap (fun interface ↦
        (interface.datagramsOut.filter fun dgram ↦ 2 ≤ dgram.header.ttl).map r.call) ∧
      ∀ dgram : Ipv4Datagram, 2 ≤ dgram.header.ttl →
        (r.call dgram).dgram =
            { dgram with header := { dgram.header with ttl := dgram.header.ttl - 1 } } ∧
          (dgram.header.ttl - 1).toNat + 1 = dgram.header.ttl.toNat := by
  intro r
  obtain ⟨route, hroute, -⟩ := hdefault
  have hinterfaces : r.interfaces = interfaces := Router.addRoutes_interfaces _ routes
  have hnames : r.Names := names_addRoutes hroutes ((Nat.zero_le _).trans_lt (hroutes route hroute))
  -- the queue of a number without an interface is empty
  have hqueue : ∀ P : List Ipv4Datagram → Prop, P [] →
      (∀ interface ∈ interfaces, P interface.datagramsOut) → ∀ k, P (r.datagramsOut k) := by
    intro P hnil h k
    rw [Router.datagramsOut, hinterfaces]
    cases hk : interfaces[k]? with
    | none => exact hnil
    | some interface => exact h interface (List.mem_of_getElem? hk)
  obtain ⟨s, hfuel, hall, halike, hcalls, hempty⟩ :=
    exists_routeFirst hnames
      (hqueue (fun queue ↦ ∀ dgram ∈ queue, dgram.Serializable) (List.forall_mem_nil _) hqueues)
      r.interfaces.length
  refine ⟨s, fun fuel h ↦ hfuel fuel (hqueue (·.length ≤ fuel) (Nat.zero_le _) h), hall, ?_, ?_,
    fun dgram h ↦ ⟨rfl, decrementTtl_spec h⟩⟩
  · intro interface hinterface
    obtain ⟨k, hk⟩ := List.mem_iff_getElem?.mp hinterface
    have hlt : k < r.interfaces.length := halike.length ▸ (List.getElem?_eq_some_iff.mp hk).1
    have hnil := hempty k
    rw [if_pos hlt, Router.datagramsOut, hk] at hnil
    exact hnil
  · rw [hcalls, hinterfaces, ← flatMap_range_elim interfaces]
    apply List.flatMap_congr
    intro k hk
    have hlt : k < interfaces.length := List.mem_range.mp hk
    rw [Router.datagramsOut, hinterfaces, List.getElem?_eq_getElem hlt]
    rfl

/-- Two datagrams wait at the first interface, one of them on its last hop, and one at the second;
the default route leads through the first. -/
theorem route_calls_each_once_three :
    ∃ s : Routing, s.calls.map (fun call ↦ (call.interfaceNum, call.dgram.header.ttl)) =
        [(0, 1), (0, 63)] ∧
      ∀ interface ∈ s.router.interfaces, interface.datagramsOut = [] := by
  obtain ⟨s, -, -, hempty, hcalls, -⟩ := route_calls_each_once
    [{ ethernetAddress := .replicate 6 1, ipAddress := ⟨1⟩, datagramsOut :=
        [{ header := { len := 20, ttl := 2 } }, { header := { len := 20, ttl := 1 } }] },
      { ethernetAddress := .replicate 6 2, ipAddress := ⟨2⟩, datagramsOut :=
        [{ header := { len := 20, ttl := 64 } }] }]
    [⟨0, 0, some ⟨7⟩, 0⟩] (by decide) ⟨_, List.mem_singleton_self _, rfl⟩ (by decide)
  refine ⟨s, ?_, hempty⟩
  rw [hcalls]
  decide +kernel

end Routing

end Sponge
