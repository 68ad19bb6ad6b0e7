import Mathlib.Tactic

/-!
# How a computation ends

A computation that may throw ends with a result or with an exception. `Ends E P`
says that a result has the property `P` and an exception the property `E`, so
that one judgment bounds both what a program computes and what it can throw.
-/

namespace Sponge.Lib

universe u

variable {ε : Type*} {α β γ : Type u}

/-- A result has the property `P`, an exception the property `E`. -/
def Ends (E : ε → Prop) (P : α → Prop) : Except ε α → Prop
  | .ok a => P a
  | .error e => E e

namespace Ends

variable {E : ε → Prop} {P Q : α → Prop} {m : Except ε α}

theorem of_pure {a : α} (h : P a) : Ends E P (pure a : Except ε α) := h

theorem result {a : α} (h : Ends E P m) (hm : m = .ok a) : P a := by
  rw [hm] at h
  exact h

theorem exception {e : ε} (h : Ends E P m) (hm : m = .error e) : E e := by
  rw [hm] at h
  exact h

/-- What cannot throw has a result. -/
theorem exists_result (h : Ends E P m) (hE : ∀ e, ¬E e) : ∃ a, m = .ok a ∧ P a := by
  cases m with
  | ok a => exact ⟨a, rfl, h⟩
  | error e => exact absurd h (hE e)

theorem imp (h : Ends E P m) (himp : ∀ a, P a → Q a) : Ends E Q m := by
  cases m with
  | ok a => exact himp a h
  | error e => exact h

theorem mono {E' : ε → Prop} (h : Ends E P m) (hE : ∀ e, E e → E' e) (hP : ∀ a, P a → Q a) :
    Ends E' Q m := by
  cases m with
  | ok a => exact hP a h
  | error e => exact hE e h

/-- A result may be remembered by where it comes from. -/
theorem with_eq (h : Ends E P m) : Ends E (fun a ↦ P a ∧ m = .ok a) m := by
  cases m with
  | ok a => exact ⟨h, rfl⟩
  | error e => exact h

theorem bind {k : α → Except ε β} {R : β → Prop} (h : Ends E P m)
    (hk : ∀ a, P a → Ends E R (k a)) : Ends E R (m >>= k) := by
  cases m with
  | ok a => exact hk a h
  | error e => exact h

/-- A computation that returns a result beside the state it leaves. -/
theorem bind_pair {m : Except ε (α × γ)} {P : α × γ → Prop} {k : α × γ → Except ε β}
    {R : β → Prop} (h : Ends E P m) (hk : ∀ a c, P (a, c) → Ends E R (k (a, c))) :
    Ends E R (m >>= k) :=
  h.bind fun r ↦ hk r.1 r.2

theorem of_ite {c : Prop} [Decidable c] {m' : Except ε α} (h : c → Ends E P m)
    (h' : ¬c → Ends E P m') : Ends E P (if c then m else m') := by
  by_cases hc : c
  · rw [if_pos hc]
    exact h hc
  · rw [if_neg hc]
    exact h' hc

end Ends

theorem eq_ok_of_toOption {m : Except ε α} {a : α} (h : m.toOption = some a) : m = .ok a := by
  cases m with
  | error e => cases h
  | ok b => exact congrArg Except.ok (Option.some.inj h)

/-- A chain that returned did so at each link. -/
theorem exists_of_bind {m : Except ε α} {k : α → Except ε β} {b : β} (h : m >>= k = .ok b) :
    ∃ a, m = .ok a ∧ k a = .ok b := by
  cases m with
  | ok a => exact ⟨a, rfl, h⟩
  | error e => cases h

section replay

variable {σ ε κ : Type*} (apply : σ → ε → Except κ σ) (ok : σ → ε → σ → Prop)

/-- A step of a machine whose operations may fail. -/
def Moves (s s' : σ) : Prop := ∃ e, ok s e s' ∧ apply s e = .ok s'

/-- The state after operations that may depend on the state before each, if none fails and all
are allowed. -/
def replay [∀ s e s', Decidable (ok s e s')] : List (σ → ε) → σ → Option σ
  | [], s => some s
  | e :: es, s =>
    match apply s (e s) with
    | .ok s' => if ok s (e s) s' then replay es s' else none
    | .error _ => none

variable {apply ok} in
theorem reflTransGen_of_replay [∀ s e s', Decidable (ok s e s')] {es : List (σ → ε)} {s s' : σ}
    (h : s' ∈ replay apply ok es s) : Relation.ReflTransGen (Moves apply ok) s s' := by
  induction es generalizing s with
  | nil => exact Option.some.inj h ▸ .refl
  | cons e es ih =>
      rw [replay] at h
      cases happly : apply s (e s) with
      | error _ => simp [happly] at h
      | ok t =>
          rw [happly] at h
          dsimp only at h
          split_ifs at h with hok
          · exact (ih h).head ⟨e s, hok, happly⟩
          · cases h

end replay

end Sponge.Lib
