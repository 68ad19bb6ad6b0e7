import Sponge.Interface.Link
import Sponge.Lib.Internet
import Sponge.Router.Calls

/-!
# A router among its neighbours

The interfaces of a router are stations of the links they are on. What `route`
does to them is to hand over to each, in order, the datagrams that the routes
send there, with one hop less to live.
-/

namespace Sponge

open Lib Lib.Resolution

/-- Stations, some of which are the interfaces of one router, with its routes. Every station is on
at most one link, and no link has two interfaces of the router. -/
structure Site (σ : Type) (m : ℕ) extends Directory σ where
  neighbours : σ → List σ
  symm : ∀ {i j}, i ∈ neighbours j → j ∈ neighbours i
  nodup : ∀ j, (neighbours j).Nodup
  port : Fin m → σ
  port_injective : Function.Injective port
  apart : ∀ k l, port k ∉ neighbours (port l)
  root : Node
  nonempty : 0 < m
  names : root.All (·.numInterface < m)

/-- Where the routes send a destination: the interface and the next hop of the longest match. What
no route matches goes straight out of the first interface. -/
def Route.exit (routes : List Route) (dst : UInt32) : ℕ × Address :=
  (Route.longestMatch routes dst).elim (0, ⟨dst⟩) fun route ↦
    (route.interfaceNum, route.nextHop.getD ⟨dst⟩)

theorem Router.call_addRoutes (interfaces : List AsyncNetworkInterface) {routes : List Route}
    (hlen : ∀ route ∈ routes, route.prefixLength ≤ 32) (dgram : Ipv4Datagram) :
    (addRoutes { interfaces } routes).call dgram =
      ⟨(Route.exit routes dgram.header.dst).1, dgram.decrementTtl,
        (Route.exit routes dgram.header.dst).2⟩ := by
  have hspec := Route.longestMatch_spec routes dgram.header.dst
  cases hbest : Route.longestMatch routes dgram.header.dst with
  | none =>
      rw [hbest] at hspec
      rw [call_of_unmatched interfaces hlen hspec, Route.exit, hbest]
      rfl
  | some route =>
      have hne : routes ≠ [] := by
        rintro rfl
        cases hbest
      have htarget := (routes_addRoutes interfaces hne hlen).target_walk hbest
      rw [NodeData.target, Prod.mk.injEq] at htarget
      rw [call, found, htarget.1, htarget.2, Route.exit, hbest]
      rfl

theorem Ipv4Datagram.Fits.decrementTtl {dgram : Ipv4Datagram} (h : dgram.Fits) :
    dgram.decrementTtl.Fits :=
  ⟨h.ver, h.hlen_ge, h.hlen_le, h.offset_lt, h.len⟩

namespace Site

variable {σ : Type} {m : ℕ} (N : Site σ m)

/-- The router with the interfaces of its stations. -/
def router (n : σ → AsyncNetworkInterface) : Router where
  root := N.root
  interfaces := List.ofFn fun k ↦ n (N.port k)

theorem interfaceNum_lt (dgram : Ipv4Datagram) :
    (Router.call { root := N.root } dgram).interfaceNum < m :=
  Router.numInterface_lt N.names N.nonempty dgram.header.dst

/-- The datagram that the router sends on, as it comes from the wire, with where it is sent. -/
def forward (dgram : Ipv4Datagram) : Option (σ × UInt32 × Ipv4Datagram) :=
  let call := Router.call { root := N.root } dgram
  if dgram.header.ttl < 2 then none
  else some (N.port ⟨call.interfaceNum, N.interfaceNum_lt dgram⟩, call.nextHop.ipv4Numeric,
    call.dgram.stamped)

def internet : Internet σ UInt32 Ipv4Datagram where
  address := N.address
  injective := N.address_injective
  neighbours := N.neighbours
  symm := N.symm
  nodup := N.nodup
  ports := List.ofFn N.port
  ports_nodup := List.nodup_ofFn.mpr N.port_injective
  apart p hp q hq := by
    obtain ⟨k, rfl⟩ := List.mem_ofFn.mp hp
    obtain ⟨l, rfl⟩ := List.mem_ofFn.mp hq
    exact N.apart l k
  forward := N.forward
  forward_mem {d p x d'} h := by
    rw [forward] at h
    split_ifs at h
    obtain ⟨rfl, -⟩ := Prod.mk.inj (Option.some.inj h)
    exact List.mem_ofFn.mpr ⟨_, rfl⟩

variable [DecidableEq σ] {N} {n : σ → AsyncNetworkInterface} {S : σ → Station σ UInt32 Ipv4Datagram}
  {dgram : Ipv4Datagram} {k : Fin m}

theorem interfaces_set (n : σ → AsyncNetworkInterface) (k : Fin m) (x : AsyncNetworkInterface) :
    (List.ofFn fun l ↦ n (N.port l)).set k x =
      List.ofFn fun l ↦ Function.update n (N.port k) x (N.port l) := by
  refine List.ext_getElem (by simp) fun l hl hl' ↦ ?_
  simp only [List.getElem_set, List.getElem_ofFn]
  by_cases hk : k.val = l
  · subst hk
    simp
  · have hne : N.port ⟨l, by simpa using hl'⟩ ≠ N.port k := fun heq ↦
      hk (congrArg Fin.val (N.port_injective heq)).symm
    rw [if_neg hk, Function.update_of_ne hne]

theorem sendOn_router {n' : NetworkInterface} {nextHop : Address}
    (h : (n (N.port k)).sendDatagram dgram nextHop = .ok n') :
    (N.router n).sendOn k dgram nextHop = .ok (N.router
      (Function.update n (N.port k) { n (N.port k) with toNetworkInterface := n' })) := by
  have hk : (N.router n).interfaces[k.val]? = some (n (N.port k)) := by
    simp [router]
  rw [Router.sendOn, hk]
  simp only [h, bind, Except.bind]
  rw [router, router, interfaces_set]
  rfl

theorem popDatagram_router (n : σ → AsyncNetworkInterface) (k : Fin m) :
    (N.router n).popDatagram k = N.router (Function.update n (N.port k)
      { n (N.port k) with datagramsOut := (n (N.port k)).datagramsOut.tail }) := by
  have hk : (N.router n).interfaces[k.val]? = some (n (N.port k)) := by
    simp [router]
  rw [Router.popDatagram, hk]
  simp only [router, interfaces_set]

omit [DecidableEq σ] in
theorem datagramsOut_router (n : σ → AsyncNetworkInterface) (k : Fin m) :
    (N.router n).datagramsOut k = (n (N.port k)).datagramsOut := by
  simp [router, Router.datagramsOut]

/-- Every interface acts as its station does. -/
def Represents (N : Site σ m) (n : σ → AsyncNetworkInterface)
    (S : σ → Station σ UInt32 Ipv4Datagram) : Prop :=
  ∀ i, N.toDirectory.Represents i (n i) (S i)

theorem Represents.update (h : N.Represents n S) {i : σ} {x : AsyncNetworkInterface}
    {s : Station σ UInt32 Ipv4Datagram} (hx : N.toDirectory.Represents i x s) :
    N.Represents (Function.update n i x) (Function.update S i s) := by
  intro j
  by_cases hj : j = i
  · subst hj
    rwa [Function.update_self, Function.update_self]
  · rw [Function.update_of_ne hj, Function.update_of_ne hj]
    exact h j

/-- What the router makes of one datagram. -/
theorem Represents.exists_routeOneDatagram (h : N.Represents n S) (hdgram : dgram.Intact) :
    ∃ n' S', (N.router n).routeOneDatagram dgram = .ok (N.router n') ∧ N.Represents n' S' ∧
      (∀ i, Station.Accepts N.address (S i) (N.internet.sentAt i dgram).toList (S' i)) ∧
      ∀ i ∉ N.internet.ports, n' i = n i ∧ S' i = S i := by
  rw [Router.routeOneDatagram_eq]
  by_cases httl : dgram.header.ttl < 2
  · rw [if_pos httl]
    refine ⟨n, S, rfl, h, fun i ↦ ?_, fun _ _ ↦ ⟨rfl, rfl⟩⟩
    have hnone : N.internet.sentAt i dgram = none := by
      simp [Internet.sentAt, internet, forward, httl]
    rw [hnone]
    exact Station.Accepts.refl _ _
  · rw [if_neg httl]
    -- the routes alone decide where it is sent
    let call := Router.call { root := N.root } dgram
    let k : Fin m := ⟨call.interfaceNum, N.interfaceNum_lt dgram⟩
    have hfits : call.dgram.Fits := hdgram.fits.decrementTtl
    obtain ⟨n', s', hsend, hrep, haccepts⟩ :=
      (h (N.port k)).exists_sendDatagram hfits call.nextHop
    refine ⟨_, _, sendOn_router hsend, h.update hrep, fun i ↦ ?_, fun i hi ↦ ?_⟩
    · have hsent : N.internet.sentAt i dgram =
          if N.port k = i then some (call.nextHop.ipv4Numeric, call.dgram.stamped) else none := by
        simp [Internet.sentAt, internet, forward, httl, k, call]
      by_cases hi : N.port k = i
      · subst hi
        rw [hsent, if_pos rfl, Function.update_self]
        exact haccepts
      · rw [hsent, if_neg hi, Function.update_of_ne (Ne.symm hi)]
        exact Station.Accepts.refl _ _
    · have hne : i ≠ N.port k := fun heq ↦ hi (heq ▸ List.mem_ofFn.mpr ⟨k, rfl⟩)
      exact ⟨Function.update_of_ne hne _ _, Function.update_of_ne hne _ _⟩

/-- The loop over the queue of one interface. -/
theorem Represents.exists_routeQueue (h : N.Represents n S) (k : Fin m)
    {queue : List Ipv4Datagram} (hqueue : (S (N.port k)).got = queue) :
    ∃ n' S', (N.router n).routeQueue k queue = .ok (N.router n') ∧ N.Represents n' S' ∧
      (∀ i, Station.Accepts N.address
        { S i with got := if i = N.port k then [] else (S i).got }
        (queue.filterMap (N.internet.sentAt i)) (S' i)) ∧
      ∀ i ∉ N.internet.ports, n' i = n i ∧ S' i = S i := by
  induction queue generalizing n S with
  | nil =>
      refine ⟨n, S, rfl, h, fun i ↦ ?_, fun _ _ ↦ ⟨rfl, rfl⟩⟩
      have hsame : (if i = N.port k then [] else (S i).got) = (S i).got := by
        split_ifs with hi
        · rw [hi, hqueue]
        · rfl
      rw [hsame]
      exact Station.Accepts.refl _ _
  | cons dgram rest ih =>
      have hdgram := (h (N.port k)).intact dgram (hqueue ▸ List.mem_cons_self)
      obtain ⟨n₁, S₁, hroute, hrep₁, haccepts₁, hhosts₁⟩ := h.exists_routeOneDatagram hdgram
      have hgot : ∀ i, (S₁ i).got = (S i).got := fun i ↦ (haccepts₁ i).got
      have htail : (n₁ (N.port k)).datagramsOut.tail = rest := by
        rw [(hrep₁ (N.port k)).got, hgot, hqueue, List.tail_cons]
      have hrest : rest ⊆ (S₁ (N.port k)).got := by
        rw [hgot, hqueue]
        exact List.subset_cons_self _ _
      obtain ⟨n', S', hloop, hrep', haccepts', hhosts'⟩ :=
        ih (hrep₁.update ((hrep₁ (N.port k)).withGot hrest)) (by rw [Function.update_self])
      refine ⟨n', S', ?_, hrep', fun i ↦ ?_, fun i hi ↦ ?_⟩
      · rw [Router.routeQueue, hroute]
        simp only [bind, Except.bind, popDatagram_router, htail]
        exact hloop
      · have hsent : (dgram :: rest).filterMap (N.internet.sentAt i) =
            (N.internet.sentAt i dgram).toList ++ rest.filterMap (N.internet.sentAt i) := by
          cases hat : N.internet.sentAt i dgram <;> simp [hat]
        rw [hsent]
        refine ((haccepts₁ i).withGot _).trans ?_
        have hnext := haccepts' i
        by_cases hi : i = N.port k
        · subst hi
          simpa using hnext
        · rw [Function.update_of_ne hi, if_neg hi] at hnext
          rwa [if_neg hi, ← hgot]
      · have hne : i ≠ N.port k := fun heq ↦ hi (heq ▸ List.mem_ofFn.mpr ⟨k, rfl⟩)
        obtain ⟨hn', hS'⟩ := hhosts' i hi
        rw [Function.update_of_ne hne] at hn' hS'
        exact ⟨hn'.trans (hhosts₁ i hi).1, hS'.trans (hhosts₁ i hi).2⟩

/-- The loop over the first interfaces. -/
theorem Represents.exists_routeFirst (h : N.Represents n S) {j : ℕ} (hj : j ≤ m) :
    ∃ n' S', (List.range j).foldlM (fun r k ↦ r.routeQueue k (r.datagramsOut k)) (N.router n) =
        .ok (N.router n') ∧ N.Represents n' S' ∧
      (∀ i, Station.Accepts N.address
        { S i with got := if i ∈ N.internet.ports.take j then [] else (S i).got }
        (((N.internet.ports.take j).flatMap fun q ↦ (S q).got).filterMap (N.internet.sentAt i))
        (S' i)) ∧
      ∀ i ∉ N.internet.ports, n' i = n i ∧ S' i = S i := by
  induction j with
  | zero =>
      refine ⟨n, S, rfl, h, fun i ↦ ?_, fun _ _ ↦ ⟨rfl, rfl⟩⟩
      simpa using Station.Accepts.refl _ _
  | succ j ih =>
      obtain ⟨n₁, S₁, hfirst, hrep₁, haccepts₁, hhosts₁⟩ := ih (Nat.le_of_succ_le hj)
      let k : Fin m := ⟨j, hj⟩
      have htake : N.internet.ports.take (j + 1) = N.internet.ports.take j ++ [N.port k] := by
        rw [List.take_add_one]
        simpa [internet, k] using Nat.lt_of_succ_le hj
      -- the queue of this interface is as it was
      have hnew : N.port k ∉ N.internet.ports.take j := by
        have hnodup := (List.take_sublist (j + 1) _).nodup N.internet.ports_nodup
        rw [htake] at hnodup
        exact fun hmem ↦ List.disjoint_of_nodup_append hnodup hmem (List.mem_singleton_self _)
      have hgot : (S₁ (N.port k)).got = (S (N.port k)).got := by
        rw [(haccepts₁ _).got]
        exact if_neg hnew
      obtain ⟨n', S', hloop, hrep', haccepts', hhosts'⟩ := hrep₁.exists_routeQueue k hgot
      refine ⟨n', S', foldlM_range_succ hfirst ?_, hrep', fun i ↦ ?_, fun i hi ↦ ?_⟩
      · have hout := datagramsOut_router (N := N) n₁ k
        rw [(hrep₁ _).got, hgot] at hout
        exact (congrArg _ hout).trans hloop
      · rw [htake, List.flatMap_append, List.filterMap_append, List.flatMap_singleton]
        have hfirst := (haccepts₁ i).withGot
          (if i ∈ N.internet.ports.take j ++ [N.port k] then [] else (S i).got)
        refine hfirst.trans ?_
        have hleft : (if i ∈ N.internet.ports.take j ++ [N.port k] then [] else (S i).got) =
            if i = N.port k then [] else (S₁ i).got := by
          rw [(haccepts₁ i).got]
          by_cases hi : i = N.port k
          · simp [hi]
          · simp [hi]
        rw [hleft]
        exact haccepts' i
      · exact ⟨(hhosts' i hi).1.trans (hhosts₁ i hi).1, (hhosts' i hi).2.trans (hhosts₁ i hi).2⟩

/-- The router passes on what its interfaces have got. -/
theorem Represents.exists_route (h : N.Represents n S) :
    ∃ n' S', (N.router n).route = .ok (N.router n') ∧ N.Represents n' S' ∧
      N.internet.Routes S S' ∧ ∀ i ∉ N.internet.ports, n' i = n i := by
  obtain ⟨n', S', hroute, hrep, haccepts, hhosts⟩ := h.exists_routeFirst (le_refl m)
  have hall : N.internet.ports.take m = N.internet.ports :=
    List.take_of_length_le (by simp [internet])
  refine ⟨n', S', ?_, hrep, ⟨fun p hp ↦ ?_, fun i hi ↦ (hhosts i hi).2⟩,
    fun i hi ↦ (hhosts i hi).1⟩
  · have hlength : (N.router n).interfaces.length = m := by simp [router]
    rw [Router.route, hlength]
    exact hroute
  · have hport := haccepts p
    rw [hall, if_pos hp] at hport
    exact hport

end Site

end Sponge
