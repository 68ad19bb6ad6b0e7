import Sponge.System.EventLoop

/-!
# What the event loop calls

The rules of an application are made to log what is called. A call of the loop
gives rules up while it sets up the poll and then serves the rest, both times in
the order in which the rules were added; no rule is touched twice in a call.
Over any number of calls a rule that was given up is never touched again.
-/

namespace Sponge.EventLoop

open Lib

variable {κ σ ι : Type}

/-- What is called of a rule. -/
inductive Act (κ ι : Type) where
  | cancelled (k : κ)
  | called (k : κ) (input : ι)

def Act.name : Act κ ι → κ
  | .cancelled k => k
  | .called k _ => k

/-- Calls of the loop, one after the other. -/
def calls (rule : κ → Rule σ ι) : List (Polled ι) → List κ → σ → Except Exception (List κ × σ)
  | [], live, s => .ok (live, s)
  | polled :: rest, live, s => do
    let (_, live, s) ← waitNextEvent rule polled live s
    calls rule rest live s

variable {rule : κ → Rule σ ι}

/-- What is called of a rule, given whether it had interest, by its own entry of the poll: its
callback if the event it waits for is reported, and else its cancellation after a hangup. -/
def turn (rule : κ → Rule σ ι) (p : (κ × Bool) × Revents × ι) : Option (Act κ ι) :=
  if !p.1.2 then none
  else if p.2.1.has (rule p.1.1).direction then some (.called p.1.1 p.2.2)
  else if p.2.1.pollHup then some (.cancelled p.1.1)
  else none

/-- What serving the rules does, each at most once and in order. -/
structure Served (rule : κ → Rule σ ι) (kept : List (κ × Bool)) (results : List (Revents × ι))
    (live : List κ) (acts : List (Act κ ι)) : Prop where
  order : (acts.map Act.name).Sublist (kept.map Prod.fst)
  live_sublist : live.Sublist (kept.map Prod.fst)
  live_iff : (kept.map Prod.fst).Nodup →
    ∀ k ∈ kept.map Prod.fst, k ∈ live ↔ .cancelled k ∉ acts
  acts_eq : acts = (kept.zip results).filterMap (turn rule)

namespace Served

variable {kept : List (κ × Bool)} {results : List (Revents × ι)} {live : List κ}
  {acts : List (Act κ ι)} {k : κ} {asked : Bool} {revents : Revents} {input : ι}

theorem name_mem (h : Served rule kept results live acts) {act : Act κ ι} (hact : act ∈ acts) :
    act.name ∈ kept.map Prod.fst :=
  h.order.subset (List.mem_map_of_mem hact)

/-- The first rule is given up. -/
theorem cancelled (h : Served rule kept results live acts)
    (hturn : turn rule ((k, asked), revents, input) = some (.cancelled k)) :
    Served rule ((k, asked) :: kept) ((revents, input) :: results) live
      (.cancelled k :: acts) where
  order := h.order.cons_cons k
  live_sublist := h.live_sublist.cons k
  live_iff hnodup j hj := by
    rw [List.map_cons, List.nodup_cons] at hnodup
    rw [List.mem_cons, not_or]
    by_cases hjk : j = k
    · subst hjk
      have hout : j ∉ live := fun hmem ↦ hnodup.1 (h.live_sublist.subset hmem)
      simp [hout]
    · rw [List.map_cons, List.mem_cons] at hj
      simp [h.live_iff hnodup.2 j (hj.resolve_left hjk), hjk]
  acts_eq := by rw [List.zip_cons_cons, List.filterMap_cons_some hturn, h.acts_eq]

end Served

/-- What `poll` reported, if it did. -/
def results : Polled ι → List (Revents × ι)
  | .reported results => results
  | _ => []

/-- In one call some of the live rules are given up in order, then the others are served in order,
each by its own entry of the poll, and none is touched twice. -/
structure Orderly (rule : κ → Rule σ ι) (live : List κ) (polled : Polled ι)
    (block : List (Act κ ι)) : Prop where
  order : ∃ (gone : List κ) (kept : List (κ × Bool)), gone.Sublist live ∧
    (kept.map Prod.fst).Sublist live ∧ live.Perm (gone ++ kept.map Prod.fst) ∧
    block = gone.map .cancelled ++ (kept.zip (results polled)).filterMap (turn rule)
  once : (block.map Act.name).Nodup
  name_mem : ∀ act ∈ block, act.name ∈ live

/-- The live rules after a call are those that were not given up. -/
structure Leaves (live : List κ) (block : List (Act κ ι)) (live' : List κ) : Prop where
  sublist : live'.Sublist live
  mem_iff : ∀ k ∈ live, k ∈ live' ↔ .cancelled k ∉ block

theorem Leaves.nil (live : List κ) : Leaves live ([] : List (Act κ ι)) live :=
  ⟨List.Sublist.refl live, fun k hk ↦ by simpa using hk⟩

/-- Calls one after the other: what the first gave up is out of reach of the others. -/
theorem Leaves.append {live live₁ live₂ : List κ} {block acts : List (Act κ ι)}
    (h : Leaves live block live₁) (h' : Leaves live₁ acts live₂) :
    Leaves live (block ++ acts) live₂ where
  sublist := h'.sublist.trans h.sublist
  mem_iff k hk := by
    rw [List.mem_append, not_or, ← h.mem_iff k hk]
    constructor
    · intro hmem
      have hlive := h'.sublist.subset hmem
      exact ⟨hlive, (h'.mem_iff k hlive).mp hmem⟩
    · rintro ⟨hlive, hnot⟩
      exact (h'.mem_iff k hlive).mpr hnot

end Sponge.EventLoop
