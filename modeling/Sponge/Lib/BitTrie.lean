import Mathlib.Tactic

/-!
# Binary tries

The path of a node is the list of turns that leads to it, `false` to the left and
`true` to the right. Updating a label creates the nodes that are missing on its
path. Seen through the deepest marked label on a path, an update that marks its
label is one round of a contest for the longest matching path, in which a tie
goes to the newcomer.
-/

namespace Sponge.Lib

inductive BitTrie (α : Type*) where
  | null
  | node (label : α) (left right : BitTrie α)

namespace BitTrie

variable {α β : Type*} {val : α → Option β} {marked : α → Prop} {fresh : α} {f : α → α}

/-- A missing node is created. -/
def grow (fresh : α) : BitTrie α → BitTrie α
  | null => node fresh null null
  | node a l r => node a l r

/-- The label at the end of the path, changed by `f`. -/
def update (fresh : α) (f : α → α) : List Bool → BitTrie α → BitTrie α
  | _, null => null
  | [], node a l r => node (f a) l r
  | false :: p, node a l r => node a (update fresh f p (l.grow fresh)) r
  | true :: p, node a l r => node a l (update fresh f p (r.grow fresh))

/-- The deepest marked label on the path, with its depth. -/
def deepest (val : α → Option β) : BitTrie α → List Bool → Option (ℕ × β)
  | null, _ => none
  | node a _ _, [] => (val a).map (0, ·)
  | node a l r, b :: path =>
    match deepest val (bif b then r else l) path with
    | some (d, v) => some (d + 1, v)
    | none => (val a).map (0, ·)

/-- The newcomer `v` on the path `p` wins if `p` starts the path and no longer
match is known. -/
def outmatch (path : List Bool) (best : Option (ℕ × β)) (p : List Bool) (v : β) :
    Option (ℕ × β) :=
  if p <+: path ∧ best.elim 0 Prod.fst ≤ p.length then some (p.length, v) else best

@[simp] theorem deepest_grow (hfresh : val fresh = none) (t : BitTrie α) (path : List Bool) :
    deepest val (t.grow fresh) path = deepest val t path := by
  cases t with
  | null => cases path <;> simp [grow, deepest, hfresh]
  | node a l r => rfl

/-- Every label on the path is a candidate. -/
theorem val_eq_none_of_deepest {a : α} {l r : BitTrie α} {path : List Bool}
    (h : deepest val (node a l r) path = none) : val a = none := by
  cases path with
  | nil => simpa [deepest] using h
  | cons b path =>
      rw [deepest] at h
      cases hbest : deepest val (bif b then r else l) path with
      | none => simpa [hbest] using h
      | some best => simp [hbest] at h

theorem exists_grow (fresh : α) (t : BitTrie α) :
    ∃ a l r, t.grow fresh = node a l r := by
  cases t with
  | null => exact ⟨fresh, null, null, rfl⟩
  | node a l r => exact ⟨a, l, r, rfl⟩

/-- One level down, the contest is the contest of the child on the path. -/
theorem deepest_node_outmatch {a : α} {l r : BitTrie α} {b : Bool} {p path : List Bool} {v : β}
    {t : BitTrie α}
    (h : deepest val t path = outmatch path (deepest val (bif b then r else l) path) p v) :
    (match deepest val t path with
      | some (d, w) => some (d + 1, w)
      | none => (val a).map (0, ·)) =
      outmatch (b :: path) (deepest val (node a l r) (b :: path)) (b :: p) v := by
  rw [h, outmatch, outmatch, deepest]
  simp only [List.cons_prefix_cons, true_and, List.length_cons]
  cases hbest : deepest val (bif b then r else l) path with
  | none =>
      have hzero : ((val a).map (0, ·)).elim 0 Prod.fst = 0 := by cases val a <;> rfl
      by_cases hp : p <+: path <;> simp [hp, hzero]
  | some best =>
      by_cases hp : p <+: path ∧ best.1 ≤ p.length <;> simp [hp]

/-- The other child is out of the contest. -/
theorem outmatch_cons_of_ne {b c : Bool} (h : c ≠ b) (path p : List Bool)
    (best : Option (ℕ × β)) (v : β) : outmatch (b :: path) best (c :: p) v = best := by
  rw [outmatch, if_neg]
  rintro ⟨hp, -⟩
  exact h (List.cons_prefix_cons.mp hp).1

theorem deepest_update (hfresh : val fresh = none) {v : β} (hf : ∀ a, val (f a) = some v)
    (p path : List Bool) (a : α) (l r : BitTrie α) :
    deepest val (update fresh f p (node a l r)) path =
      outmatch path (deepest val (node a l r) path) p v := by
  induction p generalizing path a l r with
  | nil =>
      cases path with
      | nil => cases h : val a <;> simp [update, deepest, outmatch, hf, h]
      | cons b path =>
          cases h : deepest val (bif b then r else l) path with
          | none => cases h' : val a <;> simp [update, deepest, outmatch, hf, h, h']
          | some best => simp [update, deepest, outmatch, h]
  | cons c p ih =>
      cases path with
      | nil => cases c <;> simp [update, deepest, outmatch]
      | cons b path =>
          by_cases hb : c = b
          · subst hb
            cases c with
            | false =>
                obtain ⟨a', l', r', hl⟩ := exists_grow fresh l
                have h := ih path a' l' r'
                rw [← hl, deepest_grow hfresh] at h
                exact deepest_node_outmatch h
            | true =>
                obtain ⟨a', l', r', hr⟩ := exists_grow fresh r
                have h := ih path a' l' r'
                rw [← hr, deepest_grow hfresh] at h
                exact deepest_node_outmatch h
          · rw [outmatch_cons_of_ne hb]
            cases c <;> cases b <;> first | rfl | exact absurd rfl hb

/-- No node is deeper than `n`. -/
def Bounded : ℕ → BitTrie α → Prop
  | _, null => True
  | 0, node _ l r => l = null ∧ r = null
  | n + 1, node _ l r => Bounded n l ∧ Bounded n r

/-- Every leaf is marked. -/
def Trimmed (marked : α → Prop) : BitTrie α → Prop
  | null => True
  | node a l r => (marked a ∨ l ≠ null ∨ r ≠ null) ∧ Trimmed marked l ∧ Trimmed marked r

theorem Bounded.grow {n : ℕ} {t : BitTrie α} (h : t.Bounded n) : (t.grow fresh).Bounded n := by
  cases t with
  | null => cases n <;> simp [BitTrie.grow, Bounded]
  | node a l r => exact h

theorem Bounded.update {n : ℕ} {p : List Bool} {t : BitTrie α} (h : t.Bounded n)
    (hp : p.length ≤ n) : (t.update fresh f p).Bounded n := by
  induction p generalizing n t with
  | nil =>
      cases t with
      | null => exact h
      | node a l r => cases n <;> exact h
  | cons b p ih =>
      cases n with
      | zero => simp at hp
      | succ n =>
          have hp' : p.length ≤ n := Nat.le_of_succ_le_succ hp
          cases t with
          | null => exact h
          | node a l r =>
              cases b with
              | false => exact ⟨ih h.1.grow hp', h.2⟩
              | true => exact ⟨h.1, ih h.2.grow hp'⟩

theorem update_node_ne_null (p : List Bool) (a : α) (l r : BitTrie α) :
    update fresh f p (node a l r) ≠ null := by
  rcases p with _ | ⟨_ | _, p⟩ <;> simp [update]

/-- An update leaves no unmarked leaf on its path, not even the one it started from. -/
theorem trimmed_update (hf : ∀ a, marked (f a)) (p : List Bool) (a : α) {l r : BitTrie α}
    (hl : l.Trimmed marked) (hr : r.Trimmed marked) :
    (update fresh f p (node a l r)).Trimmed marked := by
  have hgrow : ∀ t : BitTrie α, t.Trimmed marked → ∃ a' l' r', t.grow fresh = node a' l' r' ∧
      l'.Trimmed marked ∧ r'.Trimmed marked := by
    intro t ht
    cases t with
    | null => exact ⟨fresh, null, null, rfl, trivial, trivial⟩
    | node a' l' r' => exact ⟨a', l', r', rfl, ht.2⟩
  induction p generalizing a l r with
  | nil => exact ⟨.inl (hf a), hl, hr⟩
  | cons b p ih =>
      cases b with
      | false =>
          obtain ⟨a', l', r', heq, hl', hr'⟩ := hgrow l hl
          rw [update, heq]
          exact ⟨.inr (.inl (update_node_ne_null p a' l' r')), ih a' hl' hr', hr⟩
      | true =>
          obtain ⟨a', l', r', heq, hl', hr'⟩ := hgrow r hr
          rw [update, heq]
          exact ⟨.inr (.inr (update_node_ne_null p a' l' r')), hl, ih a' hl' hr'⟩

/-- Every label of the trie has the property. -/
def All (P : α → Prop) : BitTrie α → Prop
  | null => True
  | node a l r => P a ∧ l.All P ∧ r.All P

theorem All.grow {P : α → Prop} {t : BitTrie α} (h : t.All P) (hfresh : P fresh) :
    (t.grow fresh).All P := by
  cases t with
  | null => exact ⟨hfresh, trivial, trivial⟩
  | node a l r => exact h

theorem All.update {P : α → Prop} {t : BitTrie α} (h : t.All P) (hfresh : P fresh)
    (hf : ∀ a, P (f a)) (p : List Bool) : (update fresh f p t).All P := by
  induction p generalizing t with
  | nil =>
      cases t with
      | null => trivial
      | node a l r => exact ⟨hf a, h.2⟩
  | cons b p ih =>
      cases t with
      | null => cases b <;> trivial
      | node a l r =>
          obtain ⟨ha, hl, hr⟩ := h
          cases b with
          | false => exact ⟨ha, ih (hl.grow hfresh), hr⟩
          | true => exact ⟨ha, hl, ih (hr.grow hfresh)⟩

end BitTrie

end Sponge.Lib
