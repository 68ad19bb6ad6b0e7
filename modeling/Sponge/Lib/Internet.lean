import Sponge.Lib.Resolution

/-!
# Data passed on by a router

Some stations are the ports of a router: it passes on what they got, each datum
changed and sent at some port to some address, or dropped. Rounds of passing on
and exchanging lose nothing: counted with what is still on its way, every host is
destined to get the same data before and after a round. After six rounds nothing
is on its way any more.
-/

namespace Sponge.Lib.Resolution

variable {σ α δ : Type*}

/-- Some stations, no two of which hear each other, belong to a router. -/
structure Internet (σ α δ : Type*) extends Wiring σ α where
  nodup : ∀ j, (neighbours j).Nodup
  ports : List σ
  ports_nodup : ports.Nodup
  apart : ∀ p ∈ ports, ∀ q ∈ ports, q ∉ neighbours p
  /-- What becomes of a datum: the port it is sent at, the address it is sent to, and the datum
  that is sent. -/
  forward : δ → Option (σ × α × δ)
  forward_mem : ∀ {d p x d'}, forward d = some (p, x, d') → p ∈ ports

namespace Internet

variable (T : Internet σ α δ) [DecidableEq σ] [DecidableEq α]

/-- Everything the router got. -/
def pending (S : σ → Station σ α δ) : List δ := T.ports.flatMap fun q ↦ (S q).got

/-- What is sent for a datum at the port `p`. -/
def sentAt (p : σ) (d : δ) : Option (α × δ) :=
  (T.forward d).bind fun r ↦ if r.1 = p then some r.2 else none

def passedOn (S : σ → Station σ α δ) (p : σ) : List (α × δ) :=
  (T.pending S).filterMap (T.sentAt p)

/-- The router has passed on what it got. -/
structure Routes (S S' : σ → Station σ α δ) : Prop where
  port : ∀ p ∈ T.ports,
    Station.Accepts T.address { S p with got := [] } (T.passedOn S p) (S' p)
  host : ∀ i ∉ T.ports, S' i = S i

/-- The router passes on what it got, then everyone hears what the neighbours said. -/
def Round (S S' : σ → Station σ α δ) : Prop :=
  ∃ routed, T.Routes S routed ∧ S' = T.exchange routed

/-- What becomes of a datum at the router, if the host `b` gets it. -/
def reach (b : σ) (d : δ) : Option δ :=
  (T.forward d).bind fun r ↦
    if r.1 ∈ T.neighbours b ∧ r.2.1 = T.address b then some r.2.2 else none

/-- What the neighbours of `j` owe to it. -/
def owed (S : σ → Station σ α δ) (j : σ) : Multiset δ :=
  ((T.neighbours j).map fun i ↦ (((S i).due T.address j : List δ) : Multiset δ)).sum

/-- What the router got or is owed. -/
def inbound (S : σ → Station σ α δ) : Multiset δ :=
  (T.ports.map fun p ↦ ((S p).got : Multiset δ) + T.owed S p).sum

/-- What the host `b` has got or will get. -/
def destined (S : σ → Station σ α δ) (b : σ) : Multiset δ :=
  (S b).got + T.owed S b + (T.inbound S).filterMap (T.reach b)

variable {T} {S S' : σ → Station σ α δ}

theorem sum_map_coe {ι : Type*} (l : List ι) (f : ι → List δ) :
    (l.map fun i ↦ ((f i : List δ) : Multiset δ)).sum = (l.flatMap f : List δ) := by
  induction l with
  | nil => rfl
  | cons i l ih => rw [List.map_cons, List.sum_cons, ih, List.flatMap_cons, Multiset.coe_add]

theorem flatMap_ite_eq {l : List σ} (hl : l.Nodup) (p : σ) (ds : List δ) :
    (l.flatMap fun i ↦ if p = i then ds else []) = if p ∈ l then ds else [] := by
  induction hl with
  | nil => rfl
  | @cons i l hi _ ih =>
      rw [List.flatMap_cons, ih]
      by_cases hp : p = i
      · have hnot : p ∉ l := fun hmem ↦ hi p hmem hp.symm
        simp [hp, hp ▸ hnot]
      · simp [hp]

section exchange

/-- A round brings what was owed before and is not owed after it. -/
theorem got_add_owed_exchange (S : σ → Station σ α δ) (j : σ) :
    ((T.exchange S j).got : Multiset δ) + T.owed (T.exchange S) j = (S j).got + T.owed S j := by
  have howed : T.owed S j = ((T.neighbours j).flatMap fun i ↦ dataFor j (S i).out : List δ) +
      T.owed (T.exchange S) j := by
    rw [← sum_map_coe, owed, owed, ← List.sum_map_add]
    refine congrArg List.sum (List.map_congr_left fun i hi ↦ ?_)
    rw [Wiring.due_exchange hi, Multiset.coe_add]
  rw [howed, Wiring.got_exchange, ← Multiset.coe_add, add_assoc]

theorem destined_exchange (S : σ → Station σ α δ) (b : σ) :
    T.destined (T.exchange S) b = T.destined S b := by
  have hinbound : T.inbound (T.exchange S) = T.inbound S :=
    congrArg List.sum (List.map_congr_left fun p _ ↦ got_add_owed_exchange S p)
  rw [destined, destined, got_add_owed_exchange, hinbound]

end exchange

namespace Routes

omit [DecidableEq α] in
theorem passedOn_of_notMem {i : σ} (hi : i ∉ T.ports) : T.passedOn S i = [] := by
  rw [passedOn, List.filterMap_eq_nil_iff]
  intro d _
  cases hforward : T.forward d with
  | none => simp [sentAt, hforward]
  | some r =>
      have hne : r.1 ≠ i := fun heq ↦ hi (heq ▸ T.forward_mem hforward)
      simp [sentAt, hforward, hne]

theorem due_eq (h : T.Routes S S') (i j : σ) : (S' i).due T.address j =
    (S i).due T.address j ++ ((T.passedOn S i).filter (·.1 = T.address j)).map Prod.snd := by
  by_cases hi : i ∈ T.ports
  · exact (h.port i hi).due j
  · rw [h.host i hi, passedOn_of_notMem hi]
    simp

theorem out_subset (h : T.Routes S S') (i : σ) : (S i).out ⊆ (S' i).out := by
  by_cases hi : i ∈ T.ports
  · exact (h.port i hi).out
  · rw [h.host i hi]
    exact List.Subset.refl _

theorem got_eq_nil (h : T.Routes S S') {p : σ} (hp : p ∈ T.ports) : (S' p).got = [] :=
  (h.port p hp).got

/-- What reaches `b` is sent to it at one of its neighbours. -/
theorem sum_passedOn (S : σ → Station σ α δ) (b : σ) :
    ((T.neighbours b).map fun i ↦
      ((((T.passedOn S i).filter (·.1 = T.address b)).map Prod.snd : List δ) : Multiset δ)).sum =
      ((T.pending S).filterMap (T.reach b) : List δ) := by
  simp only [passedOn]
  induction T.pending S with
  | nil => simp
  | cons d rest ih =>
      cases hforward : T.forward d with
      | none => simpa [hforward, sentAt, reach, List.filterMap_cons] using ih
      | some r =>
          obtain ⟨p, x, d'⟩ := r
          -- the port that `d` is sent at is at most once among the neighbours
          have hfirst : ∀ i, ((d :: rest).filterMap (T.sentAt i)).filter (·.1 = T.address b) =
              (if p = i then if x = T.address b then [(x, d')] else [] else []) ++
                (rest.filterMap (T.sentAt i)).filter (·.1 = T.address b) := by
            intro i
            by_cases hp : p = i <;> by_cases hx : x = T.address b <;>
              simp [hforward, sentAt, hp, hx]
          have hreach : (d :: rest).filterMap (T.reach b) =
              (if p ∈ T.neighbours b then if x = T.address b then [d'] else [] else []) ++
                rest.filterMap (T.reach b) := by
            by_cases hp : p ∈ T.neighbours b <;> by_cases hx : x = T.address b <;>
              simp [hforward, reach, hp, hx]
          simp only [hfirst, List.map_append, ← Multiset.coe_add]
          rw [List.sum_map_add, ih, sum_map_coe, ← List.map_flatMap, flatMap_ite_eq (T.nodup b),
            hreach, ← Multiset.coe_add]
          split_ifs <;> rfl

/-- The router passes on what it got, and nothing else changes what a host is destined to get. -/
theorem destined_eq (h : T.Routes S S') {b : σ} (hb : b ∉ T.ports) :
    T.destined S' b = T.destined S b := by
  have howed : T.owed S' b = T.owed S b + ((T.pending S).filterMap (T.reach b) : List δ) := by
    rw [← sum_passedOn, owed, owed, ← List.sum_map_add]
    refine congrArg List.sum (List.map_congr_left fun i _ ↦ ?_)
    rw [h.due_eq, Multiset.coe_add]
  -- nobody who is near a port is one
  have hports : ∀ p ∈ T.ports, T.owed S' p = T.owed S p := by
    intro p hp
    refine congrArg List.sum (List.map_congr_left fun i hi ↦ ?_)
    rw [h.host i fun hport ↦ T.apart p hp i hport hi]
  have hinbound : T.inbound S = T.pending S + T.inbound S' := by
    rw [inbound, List.sum_map_add, sum_map_coe, inbound]
    refine congrArg _ (congrArg List.sum (List.map_congr_left fun p hp ↦ ?_))
    rw [h.got_eq_nil hp, hports p hp, Multiset.coe_nil, zero_add]
  rw [destined, destined, h.host b hb, howed, hinbound, Multiset.filterMap_add,
    Multiset.filterMap_coe, add_assoc, add_assoc, add_assoc]

/-- As long as `i` asks for nothing new and owes nothing more, its debts to `j` are as settled as
they were. -/
theorem settled (h : T.Routes S S') {i j : σ} (hsent : T.passedOn S i = []) {n : ℕ}
    (hn : T.Settled S i j n) : T.Settled S' i j n := by
  have hasked : ∀ x, (S' i).asked x → (S i).asked x := by
    by_cases hi : i ∈ T.ports
    · intro x hx
      rcases (h.port i hi).asked x hx with hx | ⟨⟨m, hm, -⟩, -⟩
      · exact hx
      · rw [hsent] at hm
        cases hm
    · rw [h.host i hi]
      exact fun _ ↦ id
  have hdue : (S' i).due T.address j = (S i).due T.address j := by
    rw [h.due_eq, hsent]
    simp
  have hspeaks : (∃ m ∈ (S j).out, m.Speaks) → ∃ m ∈ (S' j).out, m.Speaks := by
    rintro ⟨m, hm, hspeaks⟩
    exact ⟨m, h.out_subset j hm, hspeaks⟩
  rcases n with _ | _ | _ | n
  · exact fun hx ↦ (hn (hasked _ hx)).imp (fun hask ↦ h.out_subset i hask) hspeaks
  · exact fun hx ↦ hspeaks (hn (hasked _ hx))
  · exact fun hx ↦ hn (hasked _ hx)
  · exact ⟨fun hx ↦ hn.1 (hasked _ hx), hdue.trans hn.2⟩

theorem attended (h : T.Routes S S') {i j : σ} (h₀ : T.Settled S i j 0) :
    T.Settled S' i j 0 := by
  refine Wiring.attended_of_asked (fun x hx ↦ ?_) (h.out_subset i) (h.out_subset j) h₀
  by_cases hi : i ∈ T.ports
  · exact ((h.port i hi).asked x hx).imp_right And.right
  · exact Or.inl (h.host i hi ▸ hx)

end Routes

/-- What holds after `n` rounds in which no host sends anything: the debts of the hosts are settled
after three rounds, and those of the router three rounds later. -/
structure Stage (T : Internet σ α δ) (S : σ → Station σ α δ) (n : ℕ) : Prop where
  waits : ∀ i, (S i).Waits
  attended : ∀ j, ∀ i ∈ T.neighbours j, T.Settled S i j 0
  hosts : ∀ j, ∀ i ∈ T.neighbours j, i ∉ T.ports → T.Settled S i j n
  got : 4 ≤ n → ∀ p ∈ T.ports, (S p).got = []
  ports : ∀ j, ∀ p ∈ T.neighbours j, p ∈ T.ports → T.Settled S p j (n - 3)

omit [DecidableEq α] in
theorem Stage.zero (hwaits : ∀ i, (S i).Waits)
    (hattended : ∀ j, ∀ i ∈ T.neighbours j, T.Settled S i j 0) : T.Stage S 0 :=
  ⟨hwaits, hattended, fun j i hi _ ↦ hattended j i hi, fun h ↦ absurd h (by decide),
    fun j p hp _ ↦ hattended j p hp⟩

theorem Stage.round {n : ℕ} (h : T.Stage S n) (hround : T.Round S S') : T.Stage S' (n + 1) := by
  obtain ⟨routed, hroutes, rfl⟩ := hround
  have hwaits : ∀ i, (routed i).Waits := by
    intro i
    by_cases hi : i ∈ T.ports
    · exact (hroutes.port i hi).waits (h.waits i)
    · exact hroutes.host i hi ▸ h.waits i
  have hattended : ∀ j, ∀ i ∈ T.neighbours j, T.Settled routed i j 0 :=
    fun j i hi ↦ hroutes.attended (h.attended j i hi)
  have hhosts : ∀ j, ∀ i ∈ T.neighbours j, i ∉ T.ports → T.Settled routed i j n :=
    fun j i hi hport ↦ hroutes.settled (Routes.passedOn_of_notMem hport) (h.hosts j i hi hport)
  refine ⟨fun i ↦ Wiring.waits_exchange (hwaits i), fun j i hi ↦ ?_, fun j i hi hport ↦ ?_,
    fun hn p hp ↦ ?_, fun j p hp hport ↦ ?_⟩
  · exact fun hasked ↦ Or.inr (Wiring.settled_exchange (hwaits i) hi (hattended j i hi) hasked)
  · exact Wiring.settled_exchange (hwaits i) hi (hhosts j i hi hport)
  · -- the hosts have nothing left for the router
    rw [Wiring.got_exchange, hroutes.got_eq_nil hp, List.nil_append, List.flatMap_eq_nil_iff]
    intro i hi
    obtain ⟨m, rfl⟩ := Nat.exists_eq_add_of_le' (show 3 ≤ n by omega)
    exact (List.append_eq_nil_iff.mp (hhosts p i hi fun hport ↦ T.apart p hp i hport hi).2).1
  · rcases Nat.lt_or_ge n 3 with hlt | hge
    · rw [show n + 1 - 3 = 0 by omega]
      exact fun hasked ↦ Or.inr
        (Wiring.settled_exchange (hwaits p) hp (hattended j p hp) hasked)
    · rw [show n + 1 - 3 = n - 3 + 1 by omega]
      refine Wiring.settled_exchange (hwaits p) hp ?_
      rcases Nat.eq_or_lt_of_le hge with rfl | hgt
      · exact hattended j p hp
      · -- the router has nothing to pass on any more
        have hnone : T.passedOn S p = [] := by
          have hpending : T.pending S = [] := List.flatMap_eq_nil_iff.mpr (h.got hgt)
          rw [passedOn, hpending]
          rfl
        exact hroutes.settled hnone (h.ports j p hp hport)

section settled

variable {n : ℕ}

omit [DecidableEq α] in
theorem Stage.owed_eq_zero (h : T.Stage S n) (hn : 6 ≤ n) (j : σ) : T.owed S j = 0 := by
  refine List.sum_eq_zero fun ds hds ↦ ?_
  obtain ⟨i, hi, rfl⟩ := List.mem_map.mp hds
  obtain ⟨m, rfl⟩ := Nat.exists_eq_add_of_le' hn
  by_cases hport : i ∈ T.ports
  · exact congrArg _ (h.ports j i hi hport).2
  · exact congrArg _ (h.hosts j i hi hport).2

omit [DecidableEq α] in
theorem Stage.inbound_eq_zero (h : T.Stage S n) (hn : 6 ≤ n) : T.inbound S = 0 := by
  refine List.sum_eq_zero fun ds hds ↦ ?_
  obtain ⟨p, hp, rfl⟩ := List.mem_map.mp hds
  rw [h.got (by omega) p hp, h.owed_eq_zero hn]
  rfl

/-- After six rounds every host has got all that it was destined to get. -/
theorem Stage.got_eq_destined (h : T.Stage S n) (hn : 6 ≤ n) (b : σ) :
    ((S b).got : Multiset δ) = T.destined S b := by
  rw [destined, h.owed_eq_zero hn, h.inbound_eq_zero hn, add_zero, Multiset.filterMap_zero,
    add_zero]

/-- The hosts have taken what they got. -/
theorem Stage.collect (h : T.Stage S n) (hn : 6 ≤ n)
    (hports : ∀ p ∈ T.ports, S' p = S p) (hhosts : ∀ i ∉ T.ports, S' i = { S i with got := [] }) :
    T.Stage S' 0 ∧ ∀ b ∉ T.ports, T.destined S' b = 0 := by
  -- only what the hosts got is not as it was
  have hsame : ∀ i, ∃ got, S' i = { S i with got := got } := by
    intro i
    by_cases hi : i ∈ T.ports
    · exact ⟨(S i).got, hports i hi⟩
    · exact ⟨[], hhosts i hi⟩
  choose got hgot using hsame
  have howed : ∀ j, T.owed S' j = 0 := by
    intro j
    rw [← h.owed_eq_zero hn j]
    refine congrArg List.sum (List.map_congr_left fun i _ ↦ ?_)
    rw [hgot i]
    rfl
  refine ⟨Stage.zero (fun i ↦ ?_) fun j i hi ↦ ?_, fun b hb ↦ ?_⟩
  · rw [hgot i]
    exact h.waits i
  · rw [Wiring.Settled, hgot i, hgot j]
    exact h.attended j i hi
  · have hinbound : T.inbound S' = 0 := by
      rw [← h.inbound_eq_zero hn]
      refine congrArg List.sum (List.map_congr_left fun p hp ↦ ?_)
      rw [hports p hp, howed, h.owed_eq_zero hn]
    rw [destined, hhosts b hb, howed, hinbound]
    rfl

end settled

theorem Round.destined_eq (h : T.Round S S') {b : σ} (hb : b ∉ T.ports) :
    T.destined S' b = T.destined S b := by
  obtain ⟨routed, hroutes, rfl⟩ := h
  exact (destined_exchange routed b).trans (hroutes.destined_eq hb)

section send

variable {i p : σ} {s : Station σ α δ} {d : δ}

/-- A host owes the router what it sends to it. -/
theorem owed_update (hi : i ∈ T.neighbours p)
    (h : Station.Accepts T.address (S i) [(T.address p, d)] s) (j : σ) :
    T.owed (Function.update S i s) j = T.owed S j + (if p = j then [d] else [] : List δ) := by
  have hdue : ∀ k, (Function.update S i s k).due T.address j = (S k).due T.address j ++
      if i = k then if p = j then [d] else [] else [] := by
    intro k
    by_cases hk : i = k
    · subst hk
      rw [Function.update_self, h.due j]
      by_cases hp : p = j <;> simp [hp, T.injective.eq_iff]
    · simp [Function.update_of_ne (Ne.symm hk), hk]
  simp only [owed, hdue, ← Multiset.coe_add]
  rw [List.sum_map_add, sum_map_coe _ fun k ↦ if i = k then if p = j then [d] else [] else [],
    flatMap_ite_eq (T.nodup j)]
  by_cases hp : p = j
  · subst hp
    simp [hi]
  · simp [hp]

/-- What a host sends to the router is destined for the host that it reaches. -/
theorem destined_update (hp : p ∈ T.ports) (hi : i ∈ T.neighbours p)
    (h : Station.Accepts T.address (S i) [(T.address p, d)] s) {b : σ} (hb : b ∉ T.ports) :
    T.destined (Function.update S i s) b = T.destined S b + ((T.reach b d).toList : List δ) := by
  have hgot : ∀ j, (Function.update S i s j).got = (S j).got := by
    intro j
    by_cases hj : j = i
    · rw [hj, Function.update_self, h.got]
    · rw [Function.update_of_ne hj]
  have hinbound : T.inbound (Function.update S i s) = T.inbound S + ([d] : List δ) := by
    simp only [inbound, hgot, owed_update hi h, ← add_assoc]
    rw [List.sum_map_add, sum_map_coe _ fun j ↦ if p = j then [d] else [],
      flatMap_ite_eq T.ports_nodup, if_pos hp]
  have howed : T.owed (Function.update S i s) b = T.owed S b := by
    have hne : p ≠ b := fun heq ↦ hb (heq ▸ hp)
    simp [owed_update hi h, hne]
  rw [destined, destined, hgot, howed, hinbound, Multiset.filterMap_add, Multiset.filterMap_coe,
    ← add_assoc]
  cases hreach : T.reach b d <;> simp [hreach]

theorem Stage.update {n : ℕ} (hS : T.Stage S n) {sent : List (α × δ)}
    (h : Station.Accepts T.address (S i) sent s) : T.Stage (Function.update S i s) 0 := by
  have hcase : ∀ {P : Station σ α δ → Station σ α δ → Prop} (j : σ), P (S i) s →
      P (S j) (S j) → P (S j) (Function.update S i s j) := by
    intro P j hs hsame
    by_cases hj : j = i
    · subst hj
      rwa [Function.update_self]
    · rwa [Function.update_of_ne hj]
  have hout : ∀ j, (S j).out ⊆ (Function.update S i s j).out := fun j ↦
    hcase (P := fun s s' ↦ s.out ⊆ s'.out) j h.out (List.Subset.refl _)
  refine Stage.zero (fun j ↦ ?_) fun j k hk ↦ ?_
  · exact hcase (P := fun _ s' ↦ s'.Waits) j (h.waits (hS.waits i)) (hS.waits j)
  · refine Wiring.attended_of_asked (fun x ↦ ?_) (hout k) (hout j) (hS.attended j k hk)
    exact hcase (P := fun s s' ↦ s'.asked x → s.asked x ∨ .ask x ∈ s'.out) k
      (fun hx ↦ (h.asked x hx).imp_right And.right) Or.inl

end send

end Internet
end Sponge.Lib.Resolution
