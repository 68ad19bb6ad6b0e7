import Sponge.Simulator.Delivery

/-!
# The program of the network simulator

The network that the program constructs and what it tests: traffic between hosts,
to the default router and to the router of another network, and datagrams that
have used up their hops. Whatever the random Ethernet addresses are, as long as
they differ, whatever the payloads are and in whatever order the hosts are
checked, the program runs through.
-/

namespace Sponge

/-- The number of the new interface and the router with it. -/
def Router.addInterface (r : Router) (interface : AsyncNetworkInterface) : ℕ × Router :=
  (r.interfaces.length, { r with interfaces := r.interfaces ++ [interface] })

namespace NetworkSimulator

open Lib Lib.Resolution

inductive HostName where
  | applesauce
  | defaultRouter
  | cherrypie
  | hsRouter
  | dm42
  | dm43
  deriving DecidableEq

instance : Fintype HostName where
  elems := {.applesauce, .defaultRouter, .cherrypie, .hsRouter, .dm42, .dm43}
  complete name := by cases name <;> decide

/-- The number that the dotted address stands for. -/
def ip (a b c d : ℕ) : UInt32 := UInt32.ofNat (((a * 256 + b) * 256 + c) * 256 + d)

def routerAddress : Fin 7 → Address
  | 0 => ⟨ip 171 67 76 46⟩
  | 1 => ⟨ip 10 0 0 1⟩
  | 2 => ⟨ip 172 16 0 1⟩
  | 3 => ⟨ip 192 168 0 1⟩
  | 4 => ⟨ip 198 178 229 1⟩
  | 5 => ⟨ip 143 195 0 2⟩
  | 6 => ⟨ip 128 30 76 255⟩

namespace HostName

def address : HostName → Address
  | applesauce => ⟨ip 10 0 0 2⟩
  | defaultRouter => ⟨ip 171 67 76 1⟩
  | cherrypie => ⟨ip 192 168 0 2⟩
  | hsRouter => ⟨ip 143 195 0 1⟩
  | dm42 => ⟨ip 198 178 229 42⟩
  | dm43 => ⟨ip 198 178 229 43⟩

/-- The hosts that are routers themselves send nothing; their next hop is `"0"`. -/
def nextHop : HostName → Address
  | applesauce => ⟨ip 10 0 0 1⟩
  | defaultRouter | hsRouter => ⟨0⟩
  | cherrypie => ⟨ip 192 168 0 1⟩
  | dm42 | dm43 => ⟨ip 198 178 229 1⟩

end HostName

def links : List (Link 7 HostName) :=
  [.pair 0 .defaultRouter, .pair 1 .applesauce, .pair 3 .cherrypie, .pair 5 .hsRouter,
    .triple 4 .dm42 .dm43]

/-- The constructor of the network; the Ethernet addresses are random. -/
def Network.new (ethernetAddress : Fin 7 ⊕ HostName → EthernetAddress) : Network HostName :=
  let interface (k : Fin 7) : AsyncNetworkInterface :=
    { ethernetAddress := ethernetAddress (.inl k), ipAddress := routerAddress k }
  let (defaultId, r) := Router.addInterface {} (interface 0)
  let (eth0Id, r) := r.addInterface (interface 1)
  let (eth1Id, r) := r.addInterface (interface 2)
  let (eth2Id, r) := r.addInterface (interface 3)
  let (uun3Id, r) := r.addInterface (interface 4)
  let (hs4Id, r) := r.addInterface (interface 5)
  let (mit5Id, r) := r.addInterface (interface 6)
  let r := r.addRoute (ip 0 0 0 0) 0 (some HostName.defaultRouter.address) defaultId
  let r := r.addRoute (ip 10 0 0 0) 8 none eth0Id
  let r := r.addRoute (ip 172 16 0 0) 16 none eth1Id
  let r := r.addRoute (ip 192 168 0 0) 24 none eth2Id
  let r := r.addRoute (ip 198 178 229 0) 24 none uun3Id
  let r := r.addRoute (ip 143 195 0 0) 17 (some HostName.hsRouter.address) hs4Id
  let r := r.addRoute (ip 143 195 128 0) 18 (some HostName.hsRouter.address) hs4Id
  let r := r.addRoute (ip 143 195 192 0) 19 (some HostName.hsRouter.address) hs4Id
  let r := r.addRoute (ip 128 30 76 255) 16 (some ⟨ip 128 30 0 1⟩) mit5Id
  { router := r
    hosts := fun name ↦
      { myAddress := name.address
        interface := { ethernetAddress := ethernetAddress (.inr name), ipAddress := name.address }
        nextHop := name.nextHop } }

/-- One test: `sender` sends a datagram, `receiver` expects it with one hop less to live, if
anyone does. -/
def Network.test (names : List HostName) (net : Network HostName) (sender : HostName)
    (destination : Address) (ttl : UInt8) (payload : List UInt8) (receiver : Option HostName) :
    Except (Failure HostName) (Network HostName) := do
  let (dgramSent, net) ← (net.sendTo sender destination ttl payload).mapError .thrown
  let net := receiver.elim net fun name ↦
    net.setHost name ((net.hosts name).expect dgramSent.decrementTtl)
  net.simulate links names

/-- The program; `names` is the order in which the hosts are checked. -/
def networkSimulator (ethernetAddress : Fin 7 ⊕ HostName → EthernetAddress)
    (payload : Fin 10 → List UInt8) (names : List HostName) :
    Except (Failure HostName) (Network HostName) := do
  let net := Network.new ethernetAddress
  let net ← net.test names .applesauce HostName.cherrypie.address 64 (payload 0) (some .cherrypie)
  let net ← net.test names .cherrypie HostName.applesauce.address 64 (payload 1) (some .applesauce)
  let net ← net.test names .applesauce ⟨ip 1 2 3 4⟩ 64 (payload 2) (some .defaultRouter)
  let net ← net.test names .applesauce ⟨ip 143 195 131 17⟩ 64 (payload 3) (some .hsRouter)
  let net ← net.test names .cherrypie ⟨ip 143 195 193 52⟩ 64 (payload 4) (some .hsRouter)
  let net ← net.test names .cherrypie ⟨ip 143 195 223 255⟩ 64 (payload 5) (some .hsRouter)
  let net ← net.test names .cherrypie ⟨ip 143 195 224 0⟩ 64 (payload 6) (some .defaultRouter)
  let net ← net.test names .dm42 HostName.dm43.address 64 (payload 7) (some .dm43)
  let net ← net.test names .applesauce ⟨ip 1 2 3 4⟩ 1 (payload 8) none
  net.test names .applesauce ⟨ip 1 2 3 4⟩ 0 (payload 9) none

def routes : List Route :=
  [⟨ip 0 0 0 0, 0, some HostName.defaultRouter.address, 0⟩, ⟨ip 10 0 0 0, 8, none, 1⟩,
    ⟨ip 172 16 0 0, 16, none, 2⟩, ⟨ip 192 168 0 0, 24, none, 3⟩, ⟨ip 198 178 229 0, 24, none, 4⟩,
    ⟨ip 143 195 0 0, 17, some HostName.hsRouter.address, 5⟩,
    ⟨ip 143 195 128 0, 18, some HostName.hsRouter.address, 5⟩,
    ⟨ip 143 195 192 0, 19, some HostName.hsRouter.address, 5⟩,
    ⟨ip 128 30 76 255, 16, some ⟨ip 128 30 0 1⟩, 6⟩]

/-- The network as a layout. -/
def layout (ethernetAddress : Fin 7 ⊕ HostName → EthernetAddress)
    (h : Function.Injective ethernetAddress) : Layout 7 HostName where
  ethernetAddress := ethernetAddress
  ipAddress := Sum.elim routerAddress HostName.address
  ethernetAddress_injective := h
  ipAddress_injective := by
    unfold Function.Injective
    decide +kernel
  nextHop := HostName.nextHop
  links := links
  disjoint := by decide
  routes := routes
  prefixLength_le := by
    unfold routes
    decide
  nonempty := by decide
  names := by
    unfold routes
    decide

theorem fresh_layout {ethernetAddress : Fin 7 ⊕ HostName → EthernetAddress}
    (h : Function.Injective ethernetAddress) :
    (layout ethernetAddress h).fresh = Network.new ethernetAddress :=
  rfl

/-- The routes lead a datagram to the receiver and to nobody else. -/
def Leads (destination : Address) (ttl : UInt8) (receiver : Option HostName) : Prop :=
  ∀ name, receiver = some name ↔ 2 ≤ ttl ∧
    (∃ link ∈ links, link.id.val = (Route.exit routes destination.ipv4Numeric).1 ∧
      .inr name ∈ link.members) ∧
    (Route.exit routes destination.ipv4Numeric).2 = name.address

instance (destination : Address) (ttl : UInt8) (receiver : Option HostName) :
    Decidable (Leads destination ttl receiver) :=
  inferInstanceAs (Decidable (∀ _, _))

/-- The next hop of the sender is the interface of the router on its link. -/
def Sends (sender : HostName) : Prop :=
  ∃ id : Fin 7, (∃ link ∈ links, link.id.val = id.val ∧ .inr sender ∈ link.members) ∧
    sender.nextHop = routerAddress id

instance (sender : HostName) : Decidable (Sends sender) := inferInstanceAs (Decidable (∃ _, _))

section test

variable {ethernetAddress : Fin 7 ⊕ HostName → EthernetAddress}
  {h : Function.Injective ethernetAddress} {names : List HostName} {net : Network HostName}
  {sender : HostName} {destination : Address} {ttl : UInt8} {payload : List UInt8}
  {receiver : Option HostName}

theorem led_layout (hleads : Leads destination ttl receiver) (name : HostName) :
    let dgram := (layout ethernetAddress h).datagram sender destination ttl payload
    (layout ethernetAddress h).led name dgram =
      if receiver = some name then some dgram.decrementTtl else none := by
  intro dgram
  by_cases hname : receiver = some name
  · rw [if_pos hname]
    exact if_pos ((hleads name).mp hname)
  · rw [if_neg hname]
    exact if_neg fun hled ↦ hname ((hleads name).mpr hled)

/-- A test succeeds if the routes lead the datagram where it is expected. -/
theorem ends_test (hnames : ∀ name, name ∈ names)
    (htracks : (layout ethernetAddress h).Tracks {} net) (hlength : 20 + payload.length < 2 ^ 16)
    (hsends : Sends sender) (hleads : Leads destination ttl receiver) :
    Ends (fun _ ↦ False) (fun net' ↦ (layout ethernetAddress h).Tracks {} net')
      (net.test names sender destination ttl payload receiver) := by
  obtain ⟨id, hid, hhop⟩ := hsends
  have hconnected : (layout ethernetAddress h).Connected id sender := hid
  obtain ⟨net₁, hsend, h₁⟩ := htracks.exists_send destination ttl hlength hconnected hhop
  have hled := @led_layout ethernetAddress h sender destination ttl payload receiver hleads
  have hsimulate : ∀ {ledger : Ledger HostName} {net₂ : Network HostName},
      (layout ethernetAddress h).Tracks ledger net₂ →
      (∀ name, ledger.arriving name = ledger.expected name) →
      Ends (fun _ ↦ False) (fun net' ↦ (layout ethernetAddress h).Tracks {} net')
        (net₂.simulate links names) := by
    intro ledger net₂ h₂ heq
    refine (h₂.ends_simulate hnames).mono (fun e he ↦ he.2 fun name ↦ ?_) fun _ ↦ And.right
    rw [heq]
    exact List.Perm.refl _
  rw [Network.test, hsend]
  cases receiver with
  | none =>
      refine hsimulate h₁ fun name ↦ ?_
      simp [hled name]
  | some name =>
      have hfits := (layout ethernetAddress h).fits_datagram sender destination ttl hlength
      refine hsimulate (h₁.expect hfits.decrementTtl name) fun other ↦ ?_
      by_cases hother : other = name
      · subst hother
        simp [hled other]
      · simp [hled other, hother, Ne.symm hother]

end test

/-- The program runs through for all Ethernet addresses that differ, all payloads that fit into a
datagram and every order in which the hosts are checked. -/
theorem networkSimulator_returns (ethernetAddress : Fin 7 ⊕ HostName → EthernetAddress)
    (h : Function.Injective ethernetAddress) (payload : Fin 10 → List UInt8)
    (hpayload : ∀ i, 20 + (payload i).length < 2 ^ 16) (names : List HostName)
    (hnames : ∀ name, name ∈ names) :
    ∃ net, networkSimulator ethernetAddress payload names = .ok net := by
  have h₀ : (layout ethernetAddress h).Tracks {} (Network.new ethernetAddress) := by
    rw [← fresh_layout h]
    exact Layout.tracks_fresh
  have hends : Ends (fun _ ↦ False) (fun net' ↦ (layout ethernetAddress h).Tracks {} net')
      (networkSimulator ethernetAddress payload names) := by
    rw [networkSimulator]
    -- what the routes say of each destination is computed
    refine (ends_test hnames h₀ (hpayload 0) (by decide) (by decide +kernel)).bind fun _ h₁ ↦ ?_
    refine (ends_test hnames h₁ (hpayload 1) (by decide) (by decide +kernel)).bind fun _ h₂ ↦ ?_
    refine (ends_test hnames h₂ (hpayload 2) (by decide) (by decide +kernel)).bind fun _ h₃ ↦ ?_
    refine (ends_test hnames h₃ (hpayload 3) (by decide) (by decide +kernel)).bind fun _ h₄ ↦ ?_
    refine (ends_test hnames h₄ (hpayload 4) (by decide) (by decide +kernel)).bind fun _ h₅ ↦ ?_
    refine (ends_test hnames h₅ (hpayload 5) (by decide) (by decide +kernel)).bind fun _ h₆ ↦ ?_
    refine (ends_test hnames h₆ (hpayload 6) (by decide) (by decide +kernel)).bind fun _ h₇ ↦ ?_
    refine (ends_test hnames h₇ (hpayload 7) (by decide) (by decide +kernel)).bind fun _ h₈ ↦ ?_
    refine (ends_test hnames h₈ (hpayload 8) (by decide) (by decide +kernel)).bind fun _ h₉ ↦ ?_
    exact ends_test hnames h₉ (hpayload 9) (by decide) (by decide +kernel)
  obtain ⟨net, hnet, -⟩ := hends.exists_result fun _ ↦ id
  exact ⟨net, hnet⟩

/-- Addresses that count the stations. -/
theorem networkSimulator_returns_numbered :
    ∃ net, networkSimulator
      (Sum.elim (fun k ↦ #v[2, 0, 0, 0, 0, UInt8.ofNat k]) fun name ↦
        #v[2, 1, 0, 0, 0, UInt8.ofNat name.ctorIdx])
      (fun i ↦ [UInt8.ofNat i])
      [.dm43, .dm42, .hsRouter, .cherrypie, .defaultRouter, .applesauce] = .ok net := by
  refine networkSimulator_returns _ ?_ _ (by simp) _ (by decide)
  unfold Function.Injective
  decide

end NetworkSimulator

end Sponge
