import Sponge.Router.Passing
import Sponge.Simulator.Model

/-!
# Rounds of the simulator

A layout says which addresses the stations have, which of them share a link and
which routes were added to the router. One turn of the loop of `simulate` is then one
round of the stations: nothing is thrown, the router passes on what its
interfaces have got, and everyone hears what the others on its link have said.
-/

namespace Sponge.NetworkSimulator

open Lib Lib.Resolution

section deliver

variable {σ : Type} [DecidableEq σ] {D : Directory σ} {i j k : σ} {x y z : AsyncNetworkInterface}
  {s t u : Station σ UInt32 Ipv4Datagram}

/-- Frames that are delivered are heard. -/
theorem exists_deliver (hy : D.Represents j y t) (i : σ)
    {said : List (Message σ UInt32 Ipv4Datagram)} (hsaid : ∀ m ∈ said, Directory.Sound m) :
    ∃ y', deliver (said.map (D.frame i)) y = .ok y' ∧
      D.Represents j y' (t.hearAll D.address j (said.map (i, ·))) := by
  induction said generalizing y t with
  | nil => exact ⟨y, rfl, hy⟩
  | cons m rest ih =>
      obtain ⟨hm, hrest⟩ := List.forall_mem_cons.mp hsaid
      obtain ⟨y₁, hrecv, hy₁⟩ := hy.exists_recvFrame i hm
      obtain ⟨y', hdeliver, hy'⟩ := ih hy₁ hrest
      refine ⟨y', ?_, hy'⟩
      rw [deliver, List.map_cons, List.foldlM_cons, hrecv]
      exact hdeliver

/-- The frames of a station that others have heard are cleared. -/
theorem represents_clear {heard : List (σ × Message σ UInt32 Ipv4Datagram)}
    (hx : D.Represents i x (s.hearAll D.address i heard)) :
    D.Represents i (clear (s.out.map (D.frame i)) x)
      ({ s with out := [] }.hearAll D.address i heard) := by
  rw [Station.hearAll_out_nil, clear, List.length_map]
  exact hx.drop s.out.length

theorem exists_exchangeFrames (hx : D.Represents i x s) (hy : D.Represents j y t) :
    ∃ x' y', exchangeFrames x y = .ok (x', y') ∧
      D.Represents i x' ({ s with out := [] }.hearAll D.address i (t.out.map (j, ·))) ∧
      D.Represents j y' ({ t with out := [] }.hearAll D.address j (s.out.map (i, ·))) := by
  obtain ⟨y', hdeliver₁, hy'⟩ := exists_deliver hy i hx.sound
  obtain ⟨x', hdeliver₂, hx'⟩ := exists_deliver hx j hy.sound
  refine ⟨_, _, ?_, represents_clear hx', represents_clear hy'⟩
  rw [← hx.out] at hdeliver₁ ⊢
  rw [← hy.out] at hdeliver₂ ⊢
  simp only [exchangeFrames, hdeliver₁, hdeliver₂, bind, Except.bind]
  rfl

theorem exists_exchangeFrames₃ (hx : D.Represents i x s) (hy : D.Represents j y t)
    (hz : D.Represents k z u) :
    ∃ x' y' z', exchangeFrames₃ x y z = .ok (x', y', z') ∧
      D.Represents i x' ({ s with out := [] }.hearAll D.address i
        (t.out.map (j, ·) ++ u.out.map (k, ·))) ∧
      D.Represents j y' ({ t with out := [] }.hearAll D.address j
        (s.out.map (i, ·) ++ u.out.map (k, ·))) ∧
      D.Represents k z' ({ u with out := [] }.hearAll D.address k
        (s.out.map (i, ·) ++ t.out.map (j, ·))) := by
  obtain ⟨y₁, hdeliver₁, hy₁⟩ := exists_deliver hy i hx.sound
  obtain ⟨z₁, hdeliver₂, hz₁⟩ := exists_deliver hz i hx.sound
  obtain ⟨x₁, hdeliver₃, hx₁⟩ := exists_deliver hx j hy.sound
  obtain ⟨z', hdeliver₄, hz'⟩ := exists_deliver hz₁ j hy.sound
  obtain ⟨x', hdeliver₅, hx'⟩ := exists_deliver hx₁ k hz.sound
  obtain ⟨y', hdeliver₆, hy'⟩ := exists_deliver hy₁ k hz.sound
  rw [← Station.hearAll_append] at hx' hy' hz'
  refine ⟨_, _, _, ?_, represents_clear hx', represents_clear hy', represents_clear hz'⟩
  rw [← hx.out] at hdeliver₁ hdeliver₂ ⊢
  rw [← hy.out] at hdeliver₃ hdeliver₄ ⊢
  rw [← hz.out] at hdeliver₅ hdeliver₆ ⊢
  simp only [exchangeFrames₃, hdeliver₁, hdeliver₂, hdeliver₃, hdeliver₄, hdeliver₅, hdeliver₆,
    bind, Except.bind]
  rfl

end deliver

namespace Link

variable {m : ℕ} {ν : Type}

/-- The stations of a link, in the order in which they are heard. -/
def members : Link m ν → List (Fin m ⊕ ν)
  | .pair id host => [.inl id, .inr host]
  | .triple id host host' => [.inl id, .inr host, .inr host']

def id : Link m ν → Fin m
  | .pair id _ => id
  | .triple id _ _ => id

theorem inl_mem_members {link : Link m ν} {k : Fin m} : .inl k ∈ link.members ↔ k = link.id := by
  cases link <;> simp [members, id]

instance [DecidableEq ν] (j : Fin m ⊕ ν) (link : Link m ν) : Decidable (j ∈ link.members) :=
  decidable_of_iff (link.members.any (· = j)) (by simp)

end Link

/-- The stations of a network are the interfaces of the router and the hosts. Each is on one link at
most, and the routes name interfaces. -/
structure Layout (m : ℕ) (ν : Type) extends Directory (Fin m ⊕ ν) where
  nextHop : ν → Address
  links : List (Link m ν)
  disjoint : (links.flatMap Link.members).Nodup
  routes : List Route
  prefixLength_le : ∀ route ∈ routes, route.prefixLength ≤ 32
  nonempty : 0 < m
  names : ∀ route ∈ routes, route.interfaceNum < m

namespace Layout

variable {m : ℕ} {ν : Type} [DecidableEq ν] (W : Layout m ν)

/-- The link that a station is on. -/
def linkOf (j : Fin m ⊕ ν) : Option (Link m ν) :=
  W.links.find? fun link ↦ decide (j ∈ link.members)

/-- The others on the link of a station. -/
def neighbours (j : Fin m ⊕ ν) : List (Fin m ⊕ ν) :=
  (W.linkOf j).elim [] fun link ↦ link.members.filter (· ≠ j)

variable {W} {link link' : Link m ν} {i j : Fin m ⊕ ν}

omit [DecidableEq ν] in
theorem link_unique (h : link ∈ W.links) (h' : link' ∈ W.links) (hj : j ∈ link.members)
    (hj' : j ∈ link'.members) : link = link' := by
  by_contra hne
  have hdisjoint := (List.nodup_flatMap.mp W.disjoint).2
  have hsymm : Std.Symm (Function.onFun List.Disjoint (Link.members : Link m ν → _)) :=
    ⟨fun _ _ hd ↦ List.Disjoint.symm hd⟩
  exact hdisjoint.forall h h' hne hj hj'

theorem linkOf_eq_some_iff : W.linkOf j = some link ↔ link ∈ W.links ∧ j ∈ link.members := by
  constructor
  · intro h
    have hj := List.find?_some h
    exact ⟨List.mem_of_find?_eq_some h, of_decide_eq_true hj⟩
  · rintro ⟨hlink, hj⟩
    cases hfind : W.linkOf j with
    | none => exact absurd (decide_eq_true hj) (List.find?_eq_none.mp hfind link hlink)
    | some link' =>
        have hj' := List.find?_some hfind
        rw [link_unique hlink (List.mem_of_find?_eq_some hfind) hj (of_decide_eq_true hj')]

theorem neighbours_of_mem (h : link ∈ W.links) (hj : j ∈ link.members) :
    W.neighbours j = link.members.filter (· ≠ j) := by
  rw [neighbours, linkOf_eq_some_iff.mpr ⟨h, hj⟩]
  rfl

theorem mem_neighbours : i ∈ W.neighbours j ↔
    ∃ link ∈ W.links, i ∈ link.members ∧ j ∈ link.members ∧ i ≠ j := by
  constructor
  · intro h
    rw [neighbours] at h
    cases hlink : W.linkOf j with
    | none => simp [hlink] at h
    | some link =>
        rw [hlink] at h
        obtain ⟨hi, hne⟩ := List.mem_filter.mp h
        obtain ⟨hmem, hj⟩ := linkOf_eq_some_iff.mp hlink
        exact ⟨link, hmem, hi, hj, of_decide_eq_true hne⟩
  · rintro ⟨link, hlink, hi, hj, hne⟩
    rw [neighbours_of_mem hlink hj]
    exact List.mem_filter.mpr ⟨hi, decide_eq_true hne⟩

variable (W) in
def site : Site (Fin m ⊕ ν) m where
  toDirectory := W.toDirectory
  neighbours := W.neighbours
  symm h := by
    obtain ⟨link, hlink, hi, hj, hne⟩ := mem_neighbours.mp h
    exact mem_neighbours.mpr ⟨link, hlink, hj, hi, hne.symm⟩
  nodup j := by
    rw [neighbours]
    cases hlink : W.linkOf j with
    | none => exact List.nodup_nil
    | some link =>
        obtain ⟨hmem, -⟩ := linkOf_eq_some_iff.mp hlink
        exact ((List.nodup_flatMap.mp W.disjoint).1 link hmem).filter _
  port := .inl
  port_injective := Sum.inl_injective
  apart k l h := by
    obtain ⟨link, hlink, hk, hl, hne⟩ := mem_neighbours.mp h
    exact hne (congrArg _ ((Link.inl_mem_members.mp hk).trans (Link.inl_mem_members.mp hl).symm))
  root := (Router.addRoutes {} W.routes).root
  nonempty := W.nonempty
  names := Router.all_addRoutes ⟨W.nonempty, trivial, trivial⟩ W.nonempty W.names

@[simp] theorem site_toDirectory : W.site.toDirectory = W.toDirectory := rfl

/-- The network with the interfaces of its stations. -/
def network (W : Layout m ν) (expecting : ν → List Ipv4Datagram)
    (n : Fin m ⊕ ν → AsyncNetworkInterface) : Network ν where
  router := W.site.router n
  hosts name :=
    { myAddress := W.ipAddress (.inr name)
      interface := n (.inr name)
      nextHop := W.nextHop name
      expectingToReceive := expecting name }

section connection

variable (expecting : ν → List Ipv4Datagram) {n : Fin m ⊕ ν → AsyncNetworkInterface}
  {S T : Fin m ⊕ ν → Station (Fin m ⊕ ν) UInt32 Ipv4Datagram}

theorem interface_network (id : Fin m) :
    (W.network expecting n).interface id = .ok (n (.inl id)) := by
  have hid : (W.network expecting n).router.interfaces[id.val]? = some (n (.inl id)) := by
    simp [network, Site.router, site]
  rw [Network.interface, hid]
  rfl

theorem setInterface_network (id : Fin m) (x : AsyncNetworkInterface) :
    (W.network expecting n).setInterface id x =
      W.network expecting (Function.update n (.inl id) x) := by
  have hset := W.site.interfaces_set n id x
  rw [network, network, Network.setInterface, Site.router, Site.router, hset]
  rfl

theorem setHostInterface_network (name : ν) (y : AsyncNetworkInterface) :
    (W.network expecting n).setHostInterface name y =
      W.network expecting (Function.update n (.inr name) y) := by
  have hhosts : Function.update (W.network expecting n).hosts name
      { (W.network expecting n).hosts name with interface := y } =
        (W.network expecting (Function.update n (.inr name) y)).hosts := by
    funext other
    by_cases hother : other = name
    · subst hother
      simp [network]
    · simp [network, Function.update_of_ne hother]
  rw [Network.setHostInterface, Network.setHost, hhosts]
  rfl

/-- What the stations of a link hear in a round. -/
theorem exchange_of_link (hlink : link ∈ W.links) (hj : j ∈ link.members) :
    W.site.internet.exchange S j = { S j with out := [] }.hearAll W.address j
      ((link.members.filter (· ≠ j)).flatMap fun i ↦ (S i).out.map (i, ·)) := by
  have hneighbours : W.site.internet.neighbours j = link.members.filter (· ≠ j) :=
    neighbours_of_mem hlink hj
  have hne : link.members.filter (· ≠ j) ≠ [] := by
    cases link <;> rcases j with k | name <;> simp_all [Link.members]
  rw [Wiring.exchange, hneighbours, if_neg hne, Wiring.heardBy, hneighbours]
  rfl

/-- The stations of one link exchange their frames. -/
theorem exists_simulatePhysicalConnection (hlink : link ∈ W.links) (h : W.site.Represents n T)
    (hT : ∀ j ∈ link.members, T j = S j) :
    ∃ n', (W.network expecting n).simulatePhysicalConnection link = .ok (W.network expecting n') ∧
      W.site.Represents n' fun j ↦
        if j ∈ link.members then W.site.internet.exchange S j else T j := by
  have hrep : ∀ j ∈ link.members, W.toDirectory.Represents j (n j) (S j) :=
    fun j hj ↦ hT j hj ▸ h j
  have hnodup := (List.nodup_flatMap.mp W.disjoint).1 link hlink
  cases link with
  | pair id host =>
      obtain ⟨x, y, hexchange, hx, hy⟩ := exists_exchangeFrames
        (hrep (.inl id) (by simp [Link.members])) (hrep (.inr host) (by simp [Link.members]))
      refine ⟨Function.update (Function.update n (.inl id) x) (.inr host) y, ?_, fun j ↦ ?_⟩
      · rw [← setHostInterface_network, ← setInterface_network,
          Network.simulatePhysicalConnection, interface_network]
        simp only [bind, Except.bind, network, hexchange]
        rfl
      · dsimp only
        split_ifs with hj
        · rw [exchange_of_link hlink hj]
          rcases List.mem_pair.mp hj with rfl | rfl
          · simpa [Link.members] using hx
          · simpa [Link.members] using hy
        · have hne : j ≠ .inl id ∧ j ≠ .inr host := by simpa [Link.members] using hj
          rw [Function.update_of_ne hne.2, Function.update_of_ne hne.1]
          exact h j
  | triple id host host' =>
      obtain ⟨x, y, z, hexchange, hx, hy, hz⟩ := exists_exchangeFrames₃
        (hrep (.inl id) (by simp [Link.members])) (hrep (.inr host) (by simp [Link.members]))
        (hrep (.inr host') (by simp [Link.members]))
      have hhosts : host ≠ host' := by simpa [Link.members] using hnodup
      refine ⟨Function.update (Function.update (Function.update n (.inl id) x) (.inr host) y)
        (.inr host') z, ?_, fun j ↦ ?_⟩
      · rw [← setHostInterface_network, ← setHostInterface_network, ← setInterface_network,
          Network.simulatePhysicalConnection, interface_network]
        simp only [bind, Except.bind, network, hexchange]
        rfl
      · dsimp only
        split_ifs with hj
        · rw [exchange_of_link hlink hj]
          have hcases : j = .inl id ∨ j = .inr host ∨ j = .inr host' := by
            simpa [Link.members] using hj
          rcases hcases with rfl | rfl | rfl
          · simpa [Link.members] using hx
          · simpa [Link.members, hhosts, Ne.symm hhosts] using hy
          · simpa [Link.members, hhosts, Ne.symm hhosts] using hz
        · have hne : j ≠ .inl id ∧ j ≠ .inr host ∧ j ≠ .inr host' := by
            simpa [Link.members] using hj
          rw [Function.update_of_ne hne.2.2, Function.update_of_ne hne.2.1,
            Function.update_of_ne hne.1]
          exact h j

/-- The links are served one after the other, and each finds its stations as they were. -/
theorem exists_connections {links : List (Link m ν)} (hlinks : links ⊆ W.links)
    (hnodup : (links.flatMap Link.members).Nodup) (h : W.site.Represents n T)
    (hbefore : ∀ link ∈ links, ∀ j ∈ link.members, T j = S j)
    (hafter : ∀ j, (∀ link ∈ links, j ∉ link.members) → T j = W.site.internet.exchange S j) :
    ∃ n', (W.network expecting n).simulatePhysicalConnections links =
        .ok (W.network expecting n') ∧
      W.site.Represents n' (W.site.internet.exchange S) := by
  induction links generalizing n T with
  | nil =>
      have heq : T = W.site.internet.exchange S := funext fun j ↦ hafter j (List.forall_mem_nil _)
      exact ⟨n, rfl, heq ▸ h⟩
  | cons link rest ih =>
      obtain ⟨hlink, hrest⟩ := List.cons_subset.mp hlinks
      obtain ⟨hlinkBefore, hrestBefore⟩ := List.forall_mem_cons.mp hbefore
      rw [List.flatMap_cons] at hnodup
      have hapart := List.disjoint_of_nodup_append hnodup
      obtain ⟨n₁, hconnection, h₁⟩ :=
        exists_simulatePhysicalConnection expecting hlink h hlinkBefore
      obtain ⟨n', hconnections, h'⟩ : ∃ n', (W.network expecting n₁).simulatePhysicalConnections
          rest = .ok (W.network expecting n') ∧
          W.site.Represents n' (W.site.internet.exchange S) := by
        refine ih hrest (List.Nodup.of_append_right hnodup) h₁ (fun link' hlink' j hj ↦ ?_)
          fun j hj ↦ ?_
        · rw [if_neg fun hmem ↦ hapart hmem (List.mem_flatMap.mpr ⟨link', hlink', hj⟩)]
          exact hrestBefore link' hlink' j hj
        · split_ifs with hmem
          · rfl
          · exact hafter j (List.forall_mem_cons.mpr ⟨hmem, hj⟩)
      refine ⟨n', ?_, h'⟩
      rw [Network.simulatePhysicalConnections, List.foldlM_cons, hconnection]
      exact hconnections

/-- One turn of the loop is one round of the stations. -/
theorem exists_round (h : W.site.Represents n S) :
    ∃ n' S', (W.network expecting n).round W.links = .ok (W.network expecting n') ∧
      W.site.Represents n' S' ∧ W.site.internet.Round S S' := by
  obtain ⟨n₁, S₁, hroute, h₁, hroutes, hhosts⟩ := h.exists_route
  have hnet : { W.network expecting n with router := W.site.router n₁ } =
      W.network expecting n₁ := by
    have hsame : ∀ name, n₁ (.inr name) = n (.inr name) := fun name ↦
      hhosts _ (by simp [Site.internet, site])
    simp only [network, hsame]
  -- who is on no link hears nothing
  have hsilent : ∀ j, (∀ link ∈ W.links, j ∉ link.members) →
      S₁ j = W.site.internet.exchange S₁ j := by
    intro j hj
    have hnone : W.site.internet.neighbours j = [] :=
      List.eq_nil_iff_forall_not_mem.mpr fun i hi ↦ by
        obtain ⟨link, hlink, -, hmem, -⟩ := mem_neighbours.mp hi
        exact hj link hlink hmem
    rw [Wiring.exchange, if_pos hnone]
  obtain ⟨n', hconnections, h'⟩ := exists_connections expecting
    (List.Subset.refl _) W.disjoint h₁ (fun _ _ _ _ ↦ rfl) hsilent
  refine ⟨n', _, ?_, h', S₁, hroutes, rfl⟩
  have hrouter : (W.network expecting n).router.route = .ok (W.site.router n₁) := hroute
  rw [Network.round, hrouter]
  simp only [bind, Except.bind, hnet, hconnections]

/-- Rounds bring the stations nearer to having nothing left to say. -/
theorem exists_rounds (h : W.site.Represents n S) {k : ℕ} (hstage : W.site.internet.Stage S k)
    (l : ℕ) :
    ∃ n' S', (W.network expecting n).rounds W.links l = .ok (W.network expecting n') ∧
      W.site.Represents n' S' ∧ W.site.internet.Stage S' (k + l) ∧
      ∀ name, W.site.internet.destined S' (.inr name) =
        W.site.internet.destined S (.inr name) := by
  induction l generalizing n S k with
  | zero => exact ⟨n, S, rfl, h, hstage, fun _ ↦ rfl⟩
  | succ l ih =>
      obtain ⟨n₁, S₁, hround, h₁, hstep⟩ := exists_round expecting h
      obtain ⟨n', S', hrounds, h', hstage', hdestined⟩ := ih h₁ (hstage.round hstep)
      refine ⟨n', S', ?_, h', ?_, fun name ↦ ?_⟩
      · rw [Network.rounds, hround]
        exact hrounds
      · rwa [show k + (l + 1) = k + 1 + l by omega]
      · exact (hdestined name).trans (hstep.destined_eq (by simp [Site.internet, site]))

end connection

end Layout

end Sponge.NetworkSimulator
