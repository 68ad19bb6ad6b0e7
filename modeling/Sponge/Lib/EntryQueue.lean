import Mathlib.Tactic

/-!
# Maps whose entries stand in a queue

A map from keys to values is accompanied by a queue of its entries, each with
a stamp, so that old entries can be found at the front. The queue describes the
map if it holds one entry for every key that is mapped and none for the others.
Taking entries off the front as long as they are old takes all old entries if
every entry behind a young one is young.
-/

namespace Sponge.Lib

section

variable {α : Type*} {p : α → Bool} {l : List α}

theorem takeWhile_eq_filter (h : l.Pairwise fun a b ↦ p b → p a) :
    l.takeWhile p = l.filter p := by
  induction h with
  | nil => rfl
  | @cons a l ha _ ih =>
      cases hp : p a with
      | true => simp [hp, ih]
      | false =>
          have hnone : l.filter p = [] := by
            refine List.filter_eq_nil_iff.mpr fun b hb hpb ↦ ?_
            simp [ha b hb hpb] at hp
          simp [hp, hnone]

theorem dropWhile_eq_filter (h : l.Pairwise fun a b ↦ p b → p a) :
    l.dropWhile p = l.filter (!p ·) := by
  induction h with
  | nil => rfl
  | @cons a l ha _ ih =>
      cases hp : p a with
      | true => simp [hp, ih]
      | false =>
          have hall : l.filter (!p ·) = l := by
            refine List.filter_eq_self.mpr fun b hb ↦ ?_
            cases hpb : p b with
            | true => simp [ha b hb hpb] at hp
            | false => rfl
          simp [hp, hall]

end

variable {κ ν τ : Type*} [DecidableEq κ] {f : κ → Option ν} {es : List ((κ × ν) × τ)} {x : κ}
  {v : ν} {t : τ}

/-- The queue holds the entry of every key, once. -/
def Mapped (f : κ → Option ν) (es : List ((κ × ν) × τ)) : Prop :=
  ∀ x, (es.filter (·.1.1 = x)).map (·.1.2) = (f x).toList

/-- The map without the keys of the entries. -/
def forget (f : κ → Option ν) (es : List ((κ × ν) × τ)) : κ → Option ν :=
  fun x ↦ if es.any (·.1.1 = x) then none else f x

theorem forget_update_none (f : κ → Option ν) (e : (κ × ν) × τ) (es : List ((κ × ν) × τ)) :
    forget (Function.update f e.1.1 none) es = forget f (e :: es) := by
  funext x
  by_cases hx : e.1.1 = x
  · subst hx
    simp [forget]
  · rw [forget, forget, Function.update_of_ne (Ne.symm hx), List.any_cons, decide_eq_false hx,
      Bool.false_or]

/-- Only the entries of a key decide whether it is forgotten. -/
theorem forget_filter (f : κ → Option ν) (es : List ((κ × ν) × τ)) (p : (κ × ν) × τ → Bool)
    (x : κ) :
    forget f (es.filter p) x = if (es.filter (·.1.1 = x)).any p then none else f x := by
  simp only [forget, List.any_filter, Bool.and_comm]

namespace Mapped

theorem exists_mem (h : Mapped f es) (hx : f x = some v) : ∃ t, ((x, v), t) ∈ es := by
  have hmem : v ∈ (es.filter (·.1.1 = x)).map (·.1.2) := by
    rw [h x, hx]
    exact List.mem_singleton_self v
  obtain ⟨⟨⟨y, w⟩, t⟩, hfilter, rfl⟩ := List.mem_map.mp hmem
  obtain ⟨he, hy⟩ := List.mem_filter.mp hfilter
  obtain rfl : y = x := of_decide_eq_true hy
  exact ⟨t, he⟩

theorem eq_some_of_mem (h : Mapped f es) (he : ((x, v), t) ∈ es) : f x = some v := by
  have hmem : v ∈ (f x).toList := by
    rw [← h x]
    exact List.mem_map.mpr ⟨_, List.mem_filter.mpr ⟨he, by simp⟩, rfl⟩
  exact Option.mem_toList.mp hmem

theorem filter_eq_nil (h : Mapped f es) (hx : f x = none) : es.filter (·.1.1 = x) = [] := by
  have hnil := h x
  rw [hx] at hnil
  exact List.map_eq_nil_iff.mp hnil

theorem filter_eq_nil_or (h : Mapped f es) (x : κ) :
    es.filter (·.1.1 = x) = [] ∨ ∃ e, es.filter (·.1.1 = x) = [e] := by
  have hx := h x
  cases hf : f x with
  | none => exact .inl (h.filter_eq_nil hf)
  | some v =>
      rw [hf] at hx
      obtain ⟨e, he, -⟩ := List.map_eq_singleton_iff.mp hx
      exact .inr ⟨e, he⟩

/-- A new key is mapped and its entry is put at the end. -/
theorem append (h : Mapped f es) (hx : f x = none) (v : ν) (t : τ) :
    Mapped (Function.update f x (some v)) (es ++ [((x, v), t)]) := by
  intro y
  rw [List.filter_append, List.map_append]
  by_cases hy : x = y
  · subst hy
    rw [h.filter_eq_nil hx]
    simp
  · rw [h y, Function.update_of_ne (Ne.symm hy)]
    simp [hy]

/-- Entries are taken off the front of the queue and their keys out of the map. -/
theorem of_append {xs ys : List ((κ × ν) × τ)} (h : Mapped f (xs ++ ys)) :
    Mapped (forget f xs) ys := by
  intro x
  have hx := h x
  rw [List.filter_append, List.map_append] at hx
  cases hxs : xs.filter (·.1.1 = x) with
  | nil =>
      have hnone : xs.any (·.1.1 = x) = false := by
        simpa [List.filter_eq_nil_iff] using hxs
      rw [hxs] at hx
      rw [forget, hnone]
      exact hx
  | cons e rest =>
      have hany : xs.any (·.1.1 = x) = true := by
        have hmem : e ∈ xs.filter (·.1.1 = x) := hxs ▸ List.mem_cons_self
        exact List.any_eq_true.mpr ⟨e, List.mem_filter.mp hmem⟩
      -- A key has one entry at most, so there is none behind.
      have hlen := congrArg List.length hx
      rw [hxs, List.length_append, List.length_map, List.length_map, List.length_cons] at hlen
      have hle : (f x).toList.length ≤ 1 := Option.length_toList_le
      rw [forget, hany, if_pos rfl, List.eq_nil_of_length_eq_zero (l := ys.filter _) (by omega)]
      rfl

/-- Entries are taken out of the queue and their keys out of the map. -/
theorem filter (h : Mapped f es) (p : (κ × ν) × τ → Bool) :
    Mapped (forget f (es.filter p)) (es.filter (!p ·)) := by
  intro x
  have hcomm : (es.filter (!p ·)).filter (·.1.1 = x) =
      (es.filter (·.1.1 = x)).filter (!p ·) := by
    simp only [List.filter_filter, Bool.and_comm]
  rw [forget_filter, hcomm]
  have hx := h x
  rcases h.filter_eq_nil_or x with hnil | ⟨e, he⟩
  · rw [hnil] at hx ⊢
    exact hx
  · rw [he] at hx ⊢
    cases hp : p e with
    | true => simp [hp]
    | false => simpa [hp] using hx

end Mapped

end Sponge.Lib
