import Mathlib.Data.Nat.Bitwise
import Sponge.Router.Model

/-!
# Routing is longest-prefix match

The walk ends at the deepest node on the path of the destination that holds a
route: every leaf of the trie holds one, so the walk can only get stuck without a
route of its own at an inner node, and there it falls back. Adding a route is one
round of a linear scan over the routes.
-/

namespace Sponge

open Lib

structure Route where
  routePrefix : UInt32
  prefixLength : UInt8
  nextHop : Option Address
  interfaceNum : ℕ

namespace Route

/-- What a scan reads of a route. -/
def entry (route : Route) : ℕ × ℕ × Option Address :=
  (route.prefixLength.toNat, route.interfaceNum, route.nextHop)

/-- The leading bits of the route and of the destination agree. -/
def Matches (route : Route) (dst : UInt32) : Prop :=
  route.routePrefix.toNat / 2 ^ (32 - route.prefixLength.toNat) =
    dst.toNat / 2 ^ (32 - route.prefixLength.toNat)

instance (route : Route) (dst : UInt32) : Decidable (route.Matches dst) :=
  inferInstanceAs (Decidable (_ = _))

/-- One step of the scan: a later route wins a tie. -/
def prefer (dst : UInt32) (best : Option Route) (route : Route) : Option Route :=
  if route.Matches dst ∧ best.elim 0 (·.prefixLength.toNat) ≤ route.prefixLength.toNat then
    some route
  else best

/-- Linear longest-prefix scan over the routes. -/
def longestMatch (routes : List Route) (dst : UInt32) : Option Route :=
  routes.foldl (prefer dst) none

/-- The route at index `i` is the longest match, and the latest of that length. -/
structure IsLongest (routes : List Route) (dst : UInt32) (i : ℕ) (route : Route) : Prop where
  getElem : routes[i]? = some route
  isMatch : route.Matches dst
  longest : ∀ (j : ℕ) (other : Route), routes[j]? = some other → other.Matches dst →
    other.prefixLength ≤ route.prefixLength
  latest : ∀ (j : ℕ) (other : Route), routes[j]? = some other → other.Matches dst →
    other.prefixLength = route.prefixLength → j ≤ i

section

variable {routes : List Route} {dst : UInt32} {route : Route} {i : ℕ}

theorem IsLongest.append_of_not_prefer (h : IsLongest routes dst i route) {next : Route}
    (hnext : ¬(next.Matches dst ∧ route.prefixLength.toNat ≤ next.prefixLength.toNat)) :
    IsLongest (routes ++ [next]) dst i route := by
  have hi : i < routes.length := (List.getElem?_eq_some_iff.mp h.getElem).1
  -- what is added at the end is not a match of this length
  have hnew : ∀ (j : ℕ) (other : Route), routes.length ≤ j → (routes ++ [next])[j]? = some other →
      other.Matches dst → other.prefixLength < route.prefixLength := by
    intro j other hj hother hmatch
    rw [List.getElem?_append_right hj, List.getElem?_singleton] at hother
    split_ifs at hother
    obtain rfl := Option.some.inj hother
    rw [not_and, not_le] at hnext
    exact UInt8.lt_iff_toNat_lt.mpr (hnext hmatch)
  constructor
  case getElem => rw [List.getElem?_append_left hi, h.getElem]
  case isMatch => exact h.isMatch
  case longest =>
    intro j other hother hmatch
    rcases lt_or_ge j routes.length with hj | hj
    · rw [List.getElem?_append_left hj] at hother
      exact h.longest j other hother hmatch
    · exact UInt8.le_of_lt (hnew j other hj hother hmatch)
  case latest =>
    intro j other hother hmatch heq
    rcases lt_or_ge j routes.length with hj | hj
    · rw [List.getElem?_append_left hj] at hother
      exact h.latest j other hother hmatch heq
    · exact absurd heq (UInt8.ne_of_lt (hnew j other hj hother hmatch))

/-- A match that is not shorter than any earlier match becomes the longest. -/
theorem isLongest_append_self (hmatch : route.Matches dst)
    (hle : ∀ (j : ℕ) (other : Route), routes[j]? = some other → other.Matches dst →
      other.prefixLength ≤ route.prefixLength) :
    IsLongest (routes ++ [route]) dst routes.length route := by
  have hlast : (routes ++ [route])[routes.length]? = some route := by simp
  have hsplit : ∀ (j : ℕ) (other : Route), (routes ++ [route])[j]? = some other →
      routes[j]? = some other ∨ j = routes.length ∧ other = route := by
    intro j other hother
    rcases lt_trichotomy j routes.length with hj | hj | hj
    · left
      rwa [List.getElem?_append_left hj] at hother
    · right
      rw [hj, hlast] at hother
      exact ⟨hj, (Option.some.inj hother).symm⟩
    · rw [List.getElem?_eq_none (by simp; omega)] at hother
      cases hother
  constructor
  case getElem => exact hlast
  case isMatch => exact hmatch
  case longest =>
    intro j other hother hother'
    rcases hsplit j other hother with h | ⟨-, rfl⟩
    · exact hle j other h hother'
    · exact UInt8.le_refl _
  case latest =>
    intro j other hother _ _
    rcases hsplit j other hother with h | ⟨rfl, -⟩
    · exact (List.getElem?_eq_some_iff.mp h).1.le
    · exact le_refl _

theorem longestMatch_append (routes : List Route) (route : Route) (dst : UInt32) :
    longestMatch (routes ++ [route]) dst = prefer dst (longestMatch routes dst) route := by
  simp [longestMatch]

/-- The scan finds nothing only where nothing matches, and otherwise the longest
match. -/
theorem longestMatch_spec (routes : List Route) (dst : UInt32) :
    match longestMatch routes dst with
    | none => ∀ route ∈ routes, ¬route.Matches dst
    | some route => ∃ i, IsLongest routes dst i route := by
  induction routes using List.reverseRecOn with
  | nil => simp [longestMatch]
  | append_singleton routes next ih =>
      rw [longestMatch_append]
      cases hbest : longestMatch routes dst with
      | none =>
          rw [hbest] at ih
          by_cases hnext : next.Matches dst
          · have hprefer : prefer dst none next = some next := if_pos ⟨hnext, Nat.zero_le _⟩
            rw [hprefer]
            refine ⟨_, isLongest_append_self hnext fun j other hother hmatch ↦ ?_⟩
            exact absurd hmatch (ih other (List.mem_of_getElem? hother))
          · have hprefer : prefer dst none next = none := if_neg fun h ↦ hnext h.1
            rw [hprefer]
            intro route hroute
            rcases List.mem_append.mp hroute with hroute | hroute
            · exact ih route hroute
            · exact List.mem_singleton.mp hroute ▸ hnext
      | some route =>
          rw [hbest] at ih
          obtain ⟨i, hlongest⟩ := ih
          by_cases hnext : next.Matches dst ∧
              route.prefixLength.toNat ≤ next.prefixLength.toNat
          · have hprefer : prefer dst (some route) next = some next := if_pos hnext
            rw [hprefer]
            refine ⟨_, isLongest_append_self hnext.1 fun j other hother hmatch ↦ ?_⟩
            exact UInt8.le_trans (hlongest.longest j other hother hmatch)
              (UInt8.le_iff_toNat_le.mpr hnext.2)
          · have hprefer : prefer dst (some route) next = some route := if_neg hnext
            rw [hprefer]
            exact ⟨i, hlongest.append_of_not_prefer hnext⟩

end

end Route

/-! ### Bits -/

/-- The lowest `i` bits, the highest of them first. -/
def lowBits (ip : UInt32) : ℕ → List Bool
  | 0 => []
  | i + 1 => ip.toNat.testBit i :: lowBits ip i

/-- The leading bits as `insert` reads them, by shifting the prefix to the left. -/
def leadingBits (routePrefix : UInt32) : ℕ → List Bool
  | 0 => []
  | len + 1 => decide (routePrefix >>> 31 ≠ 0) :: leadingBits (routePrefix <<< 1) len

@[simp] theorem length_leadingBits (routePrefix : UInt32) (len : ℕ) :
    (leadingBits routePrefix len).length = len := by
  induction len generalizing routePrefix with
  | zero => rfl
  | succ len ih => rw [leadingBits, List.length_cons, ih]

theorem and_shiftLeft_eq_zero_iff (ip : UInt32) {i : ℕ} (hi : i < 32) :
    ip &&& (1 <<< UInt32.ofNat i) = 0 ↔ ip.toNat.testBit i = false := by
  have hshift : ((1 : UInt32) <<< UInt32.ofNat i).toNat = 2 ^ i := by
    rw [UInt32.toNat_shiftLeft, UInt32.toNat_ofNat', Nat.shiftLeft_eq, UInt32.toNat_one, one_mul,
      show i % 2 ^ 32 % 32 = i by omega,
      Nat.mod_eq_of_lt (Nat.pow_lt_pow_right (by norm_num) hi)]
  rw [← UInt32.toNat_inj, UInt32.toNat_and, hshift, Nat.and_two_pow]
  cases ip.toNat.testBit i <;> simp

theorem shiftRight_ne_zero_iff (p : UInt32) :
    p >>> 31 ≠ 0 ↔ p.toNat.testBit 31 = true := by
  have hlt := p.toNat_lt
  rw [Ne, ← UInt32.toNat_inj, UInt32.toNat_shiftRight]
  simp only [UInt32.reduceToNat, Nat.reduceMod, Nat.testBit, Nat.shiftRight_eq_div_pow,
    Nat.one_and_eq_mod_two, bne_iff_ne]
  omega

theorem testBit_shiftLeft_one (p : UInt32) {j : ℕ} (hj : j < 31) :
    (p <<< 1).toNat.testBit (j + 1) = p.toNat.testBit j := by
  have hlt : j + 1 < 32 := by omega
  rw [UInt32.toNat_shiftLeft, Nat.testBit_mod_two_pow]
  simp [Nat.testBit_shiftLeft, hlt]

/-- Shifting the prefix brings its bits to the front one by one. -/
theorem leadingBits_isPrefix_iff (p ip : UInt32) {len i : ℕ} (hlen : len ≤ i) (hi : i ≤ 32) :
    leadingBits p len <+: lowBits ip i ↔
      ∀ j < len, p.toNat.testBit (31 - j) = ip.toNat.testBit (i - 1 - j) := by
  induction len generalizing p i with
  | zero => simp [leadingBits]
  | succ len ih =>
      obtain ⟨i, rfl⟩ : ∃ k, i = k + 1 := ⟨i - 1, by omega⟩
      have hhead : decide (p >>> 31 ≠ 0) = p.toNat.testBit 31 := by
        rw [Bool.eq_iff_iff, decide_eq_true_iff]
        exact shiftRight_ne_zero_iff p
      rw [leadingBits, lowBits, List.cons_prefix_cons, ih (p <<< 1) (by omega) (by omega), hhead]
      constructor
      · rintro ⟨hzero, hsucc⟩ j hj
        cases j with
        | zero => exact hzero
        | succ j =>
            have h := hsucc j (by omega)
            rw [show 31 - j = 30 - j + 1 by omega, testBit_shiftLeft_one p (by omega)] at h
            rw [show 31 - (j + 1) = 30 - j by omega, h]
            congr 1
            omega
      · intro h
        refine ⟨h 0 (by omega), fun j hj ↦ ?_⟩
        rw [show 31 - j = 30 - j + 1 by omega, testBit_shiftLeft_one p (by omega),
          show 30 - j = 31 - (j + 1) by omega, h (j + 1) (by omega)]
        congr 1
        omega

/-- Numbers agree in their leading bits when their quotients do. -/
theorem testBit_leading_iff (p ip : UInt32) {len : ℕ} (hlen : len ≤ 32) :
    (∀ j < len, p.toNat.testBit (31 - j) = ip.toNat.testBit (31 - j)) ↔
      p.toNat / 2 ^ (32 - len) = ip.toNat / 2 ^ (32 - len) := by
  constructor
  · intro h
    refine Nat.eq_of_testBit_eq fun k ↦ ?_
    rw [Nat.testBit_div_two_pow, Nat.testBit_div_two_pow]
    rcases lt_or_ge k len with hk | hk
    · have hj := h (len - 1 - k) (by omega)
      rwa [show 31 - (len - 1 - k) = k + (32 - len) by omega] at hj
    · have hpow : 2 ^ 32 ≤ 2 ^ (k + (32 - len)) := Nat.pow_le_pow_right (by norm_num) (by omega)
      rw [Nat.testBit_lt_two_pow (p.toNat_lt.trans_le hpow),
        Nat.testBit_lt_two_pow (ip.toNat_lt.trans_le hpow)]
  · intro h j hj
    have hbit := congrArg (·.testBit (len - 1 - j)) h
    simp only [Nat.testBit_div_two_pow] at hbit
    rwa [show len - 1 - j + (32 - len) = 31 - j by omega] at hbit

theorem Route.leadingBits_isPrefix_iff {route : Route} (hlen : route.prefixLength ≤ 32)
    (dst : UInt32) :
    leadingBits route.routePrefix route.prefixLength.toNat <+: lowBits dst 32 ↔
      route.Matches dst := by
  have hle : route.prefixLength.toNat ≤ 32 := UInt8.le_iff_toNat_le.mp hlen
  rw [Sponge.leadingBits_isPrefix_iff _ _ hle le_rfl]
  exact testBit_leading_iff _ _ hle

/-! ### The trie of a router -/

namespace NodeData

/-- Where a node sends datagrams. -/
def target (data : NodeData) : ℕ × Option Address := (data.numInterface, data.data)

/-- The route of a node, if it holds one. -/
def route (data : NodeData) : Option (ℕ × Option Address) :=
  if data.hasData then some data.target else none

end NodeData

theorem Bst.insert_eq_update (routePrefix : UInt32) (len num : ℕ) (addr : Option Address)
    (t : Node) :
    Bst.insert t routePrefix len num addr =
      t.update {} (fun _ ↦ { numInterface := num, data := addr, hasData := true })
        (leadingBits routePrefix len) := by
  induction len generalizing routePrefix t with
  | zero =>
      cases t with
      | null => rfl
      | node data left right => rfl
  | succ len ih =>
      cases t with
      | null => cases h : leadingBits routePrefix (len + 1) <;> rfl
      | node data left right =>
          rw [Bst.insert, leadingBits]
          by_cases hbit : routePrefix >>> 31 = 0
          · rw [if_pos hbit, ih]
            simp [hbit, BitTrie.update]
          · rw [if_neg hbit, ih]
            simp [hbit, BitTrie.update]

namespace Router

open BitTrie

/-- One turn of the walk: the bit picks the child, and the sibling decides what a
missing child means. -/
theorem walk_succ (ip : UInt32) {i : ℕ} (hi : i < 32) (data : NodeData) (left right : Node)
    (validParent : Node) :
    walk ip (i + 1) (.node data left right) validParent =
      match bif ip.toNat.testBit i then right else left with
      | .null =>
        match bif ip.toNat.testBit i then left else right with
        | .null => .node data left right
        | .node .. => validParent
      | .node data' l r =>
        walk ip i (.node data' l r) (if data'.hasData then .node data' l r else validParent) := by
  have hiff := and_shiftLeft_eq_zero_iff ip hi
  cases hbit : ip.toNat.testBit i with
  | false =>
      rw [hbit, eq_self_iff_true, iff_true] at hiff
      cases left <;> cases right <;> simp [walk, hiff]
  | true =>
      rw [hbit, Bool.true_eq_false, iff_false] at hiff
      cases left <;> cases right <;> simp [walk, hiff]

/-- The walk ends at the deepest route on the path, or where it may fall back to. -/
theorem target_walk (ip : UInt32) {i : ℕ} (hi : i ≤ 32) (data : NodeData) (left right : Node)
    {validParent : Node}
    (htrimmed : (node data left right).Trimmed (·.hasData = true))
    (hbounded : (node data left right).Bounded i)
    (hvalid : data.hasData = true → nodeData validParent = data) :
    (nodeData (walk ip i (.node data left right) validParent)).target =
      match deepest NodeData.route (.node data left right) (lowBits ip i) with
      | some (_, target) => target
      | none => (nodeData validParent).target := by
  induction i generalizing data left right validParent with
  | zero =>
      -- at full depth there are no children, so the node holds a route
      obtain ⟨rfl, rfl⟩ := hbounded
      have hdata : data.hasData = true := by simpa [Trimmed] using htrimmed
      simp [walk, nodeData, deepest, lowBits, NodeData.route, hdata]
  | succ i ih =>
      obtain ⟨hleaf, hleft, hright⟩ := htrimmed
      rw [walk_succ ip (by omega), lowBits, deepest]
      cases hchild : bif ip.toNat.testBit i then right else left with
      | null =>
          cases hsibling : bif ip.toNat.testBit i then left else right with
          | null =>
              have hdata : data.hasData = true := by
                cases hbit : ip.toNat.testBit i <;> simp_all
              cases lowBits ip i <;> simp [nodeData, deepest, NodeData.route, hdata]
          | node data' l r =>
              cases hdata : data.hasData with
              | false => cases lowBits ip i <;> simp [deepest, NodeData.route, hdata]
              | true =>
                  cases lowBits ip i <;>
                    simp [deepest, NodeData.route, hdata, hvalid hdata]
      | node data' l r =>
          have htrimmed' : (node data' l r).Trimmed (·.hasData = true) := by
            rw [← hchild]
            cases ip.toNat.testBit i
            · exact hleft
            · exact hright
          have hbounded' : (node data' l r).Bounded i := by
            rw [← hchild]
            cases ip.toNat.testBit i
            · exact hbounded.1
            · exact hbounded.2
          simp only
          rw [ih (by omega) data' l r htrimmed' hbounded' fun h ↦ by rw [if_pos h]; rfl]
          cases hbest : deepest NodeData.route (.node data' l r) (lowBits ip i) with
          | some best => rfl
          | none =>
              have hdata' : data'.hasData = false := by
                simpa [NodeData.route] using val_eq_none_of_deepest hbest
              simp only [hdata']
              cases hdata : data.hasData with
              | false => simp [NodeData.route, hdata]
              | true => simp [NodeData.route, hdata, hvalid hdata]

/-- The router after `add_route` was called for each route in order. -/
def addRoutes (r : Router) (routes : List Route) : Router :=
  routes.foldl (fun r route ↦
    r.addRoute route.routePrefix route.prefixLength route.nextHop route.interfaceNum) r

/-- What the trie of a router is after at least one route was added. -/
structure Routes (r : Router) (routes : List Route) : Prop where
  trimmed : r.root.Trimmed (·.hasData = true)
  bounded : r.root.Bounded 32
  isNode : ∃ data left right, r.root = .node data left right
  deepest : ∀ dst, deepest NodeData.route r.root (lowBits dst 32) =
    (Route.longestMatch routes dst).map Route.entry

section

variable {r : Router} {routes : List Route} {route : Route}

/-- Adding a route to a trie is one step of the scan. -/
theorem deepest_addRoute (hlen : route.prefixLength ≤ 32) (dst : UInt32) {data : NodeData}
    {left right : Node} (hroot : r.root = .node data left right) {best : Option Route}
    (hbest : BitTrie.deepest NodeData.route r.root (lowBits dst 32) = best.map Route.entry) :
    BitTrie.deepest NodeData.route
        (r.addRoute route.routePrefix route.prefixLength route.nextHop route.interfaceNum).root
        (lowBits dst 32) =
      (Route.prefer dst best route).map Route.entry := by
  have hfresh : NodeData.route {} = none := rfl
  have hset : ∀ _ : NodeData, NodeData.route ⟨route.interfaceNum, route.nextHop, true⟩ =
      some (route.interfaceNum, route.nextHop) := fun _ ↦ rfl
  have hupdate := deepest_update hfresh hset
    (leadingBits route.routePrefix route.prefixLength.toNat) (lowBits dst 32) data left right
  rw [← hroot, hbest] at hupdate
  rw [addRoute, Bst.insert_eq_update]
  refine hupdate.trans ?_
  have helim : (best.map Route.entry).elim 0 Prod.fst = best.elim 0 (·.prefixLength.toNat) := by
    cases best <;> rfl
  have hbits := Route.leadingBits_isPrefix_iff hlen dst
  by_cases hwin : route.Matches dst ∧
      best.elim 0 (·.prefixLength.toNat) ≤ route.prefixLength.toNat
  · rw [outmatch, if_pos ⟨hbits.mpr hwin.1, by rw [helim, length_leadingBits]; exact hwin.2⟩,
      Route.prefer, if_pos hwin, length_leadingBits]
    rfl
  · rw [outmatch, if_neg, Route.prefer, if_neg hwin]
    rw [helim, length_leadingBits]
    exact fun h ↦ hwin ⟨hbits.mp h.1, h.2⟩

theorem Routes.addRoute_of_children (hlen : route.prefixLength ≤ 32) {data : NodeData}
    {left right : Node} (hroot : r.root = .node data left right)
    (hleft : left.Trimmed (·.hasData = true)) (hright : right.Trimmed (·.hasData = true))
    (hbounded : r.root.Bounded 32)
    (hdeepest : ∀ dst, BitTrie.deepest NodeData.route r.root (lowBits dst 32) =
      (Route.longestMatch routes dst).map Route.entry) :
    (r.addRoute route.routePrefix route.prefixLength route.nextHop route.interfaceNum).Routes
      (routes ++ [route]) := by
  have hle : route.prefixLength.toNat ≤ 32 := UInt8.le_iff_toNat_le.mp hlen
  constructor
  case trimmed =>
    rw [addRoute, Bst.insert_eq_update, hroot]
    refine trimmed_update (fun _ ↦ ?_) _ _ hleft hright
    rfl
  case bounded =>
    rw [addRoute, Bst.insert_eq_update]
    exact hbounded.update (by rw [length_leadingBits]; exact hle)
  case isNode =>
    rw [addRoute, Bst.insert_eq_update, hroot]
    cases hnew : update {} (fun _ ↦ ⟨route.interfaceNum, route.nextHop, true⟩)
        (leadingBits route.routePrefix route.prefixLength.toNat) (node data left right) with
    | null => exact absurd hnew (update_node_ne_null _ _ _ _)
    | node data' left' right' => exact ⟨data', left', right', rfl⟩
  case deepest =>
    intro dst
    rw [Route.longestMatch_append]
    exact deepest_addRoute hlen dst hroot (hdeepest dst)

theorem routes_addRoutes (interfaces : List AsyncNetworkInterface) (hne : routes ≠ [])
    (hlen : ∀ route ∈ routes, route.prefixLength ≤ 32) :
    (addRoutes { interfaces } routes).Routes routes := by
  induction routes using List.reverseRecOn with
  | nil => exact absurd rfl hne
  | append_singleton routes route ih =>
      have hlen' : ∀ route ∈ routes, route.prefixLength ≤ 32 :=
        fun other hother ↦ hlen other (List.mem_append_left _ hother)
      have hstep : addRoutes { interfaces } (routes ++ [route]) =
          (addRoutes { interfaces } routes).addRoute route.routePrefix route.prefixLength
            route.nextHop route.interfaceNum := by
        simp [addRoutes]
      rw [hstep]
      by_cases hnil : routes = []
      · subst hnil
        refine Routes.addRoute_of_children (hlen route (by simp)) rfl trivial trivial
          ⟨trivial, trivial⟩ fun dst ↦ ?_
        exact (deepest_grow rfl .null _).trans (by cases lowBits dst 32 <;> rfl)
      · have h := ih hnil hlen'
        obtain ⟨data, left, right, hroot⟩ := h.isNode
        have htrimmed := h.trimmed
        rw [hroot] at htrimmed
        exact Routes.addRoute_of_children (hlen route (by simp)) hroot htrimmed.2.1 htrimmed.2.2
          h.bounded h.deepest

theorem addRoutes_interfaces (r : Router) (routes : List Route) :
    (addRoutes r routes).interfaces = r.interfaces := by
  induction routes generalizing r with
  | nil => rfl
  | cons route routes ih => exact ih _

/-- What holds of a new node and of every node with a route holds of all nodes. -/
theorem all_addRoutes {P : NodeData → Prop} (h : r.root.All P) (hfresh : P {})
    (hroutes : ∀ route ∈ routes, P ⟨route.interfaceNum, route.nextHop, true⟩) :
    (r.addRoutes routes).root.All P := by
  induction routes generalizing r with
  | nil => exact h
  | cons route routes ih =>
      refine ih ?_ fun other hother ↦ hroutes other (List.mem_cons_of_mem _ hother)
      change (Bst.insert r.root route.routePrefix route.prefixLength.toNat route.interfaceNum
        route.nextHop).All P
      rw [Bst.insert_eq_update]
      exact h.update hfresh (fun _ ↦ hroutes route List.mem_cons_self) _

theorem Routes.target_walk (h : r.Routes routes) {dst : UInt32}
    (hbest : Route.longestMatch routes dst = some route) :
    (nodeData (walk dst 32 r.root r.root)).target = (route.interfaceNum, route.nextHop) := by
  obtain ⟨data, left, right, hroot⟩ := h.isNode
  have htrimmed := h.trimmed
  have hbounded := h.bounded
  have hdeepest := h.deepest dst
  rw [hroot] at htrimmed hbounded hdeepest ⊢
  rw [Router.target_walk dst le_rfl data left right htrimmed hbounded fun _ ↦ rfl, hdeepest,
    hbest]
  rfl

end

/-- A datagram that some route matches leaves, with one hop less to live, through
the interface of the longest matching route, the latest one among equals, for the
next hop of that route or for the destination itself. -/
theorem routeOneDatagram_eq_longestMatch (interfaces : List AsyncNetworkInterface)
    (routes : List Route) (hlen : ∀ route ∈ routes, route.prefixLength ≤ 32)
    (dgram : Ipv4Datagram) (httl : 2 ≤ dgram.header.ttl)
    (hmatch : ∃ route ∈ routes, route.Matches dgram.header.dst) :
    ∃ i route, Route.longestMatch routes dgram.header.dst = some route ∧
      Route.IsLongest routes dgram.header.dst i route ∧
      (addRoutes { interfaces } routes).interfaces = interfaces ∧
      (addRoutes { interfaces } routes).routeOneDatagram dgram =
        (addRoutes { interfaces } routes).sendOn route.interfaceNum
          { dgram with header := { dgram.header with ttl := dgram.header.ttl - 1 } }
          (route.nextHop.getD ⟨dgram.header.dst⟩) := by
  obtain ⟨witness, hwitness, hmatches⟩ := hmatch
  have hroutes := routes_addRoutes interfaces (List.ne_nil_of_mem hwitness) hlen
  have hspec := Route.longestMatch_spec routes dgram.header.dst
  cases hbest : Route.longestMatch routes dgram.header.dst with
  | none =>
      rw [hbest] at hspec
      exact absurd hmatches (hspec witness hwitness)
  | some route =>
      rw [hbest] at hspec
      obtain ⟨i, hlongest⟩ := hspec
      refine ⟨i, route, rfl, hlongest, addRoutes_interfaces _ _, ?_⟩
      have htarget := hroutes.target_walk hbest
      rw [NodeData.target, Prod.mk.injEq] at htarget
      rw [routeOneDatagram, if_neg (UInt8.not_lt.mpr httl)]
      simp only [htarget.1, htarget.2]
      cases route.nextHop <;> rfl

/-- A default route, a network and a host inside it. -/
def threeRoutes : List Route :=
  [⟨0, 0, some ⟨7⟩, 0⟩, ⟨0x0a000000, 8, none, 1⟩, ⟨0x0a000001, 32, none, 2⟩]

def threeInterfaces : List AsyncNetworkInterface :=
  [{ ethernetAddress := .replicate 6 1, ipAddress := ⟨1⟩ },
    { ethernetAddress := .replicate 6 2, ipAddress := ⟨2⟩ },
    { ethernetAddress := .replicate 6 3, ipAddress := ⟨3⟩ }]

/-- A datagram for another host of the network leaves through the second interface, which asks for
the address of that host. -/
theorem routeOneDatagram_of_three_routes :
    let r := addRoutes { interfaces := threeInterfaces } threeRoutes
    let dgram : Ipv4Datagram := { header := { len := 20, dst := 0x0a000005 } }
    (∃ i route, Route.IsLongest threeRoutes 0x0a000005 i route ∧
      r.routeOneDatagram dgram = r.sendOn route.interfaceNum
        { header := { len := 20, ttl := 127, dst := 0x0a000005 } }
        (route.nextHop.getD ⟨0x0a000005⟩)) ∧
      (r.routeOneDatagram dgram).toOption.map
        (fun r' ↦ r'.interfaces.map (·.framesOut.length)) = some [0, 1, 0] := by
  refine ⟨?_, by decide +kernel⟩
  obtain ⟨i, route, -, hlongest, -, hsend⟩ := routeOneDatagram_eq_longestMatch threeInterfaces
    threeRoutes (by decide) { header := { len := 20, dst := 0x0a000005 } } (by decide)
    ⟨⟨0, 0, some ⟨7⟩, 0⟩, by simp [threeRoutes], by decide⟩
  exact ⟨i, route, hlongest, hsend⟩

end Router

end Sponge
