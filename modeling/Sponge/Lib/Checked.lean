import Sponge.Lib.Ranges

/-!
# Checked operations

What a program leaves to its own arithmetic is made explicit: a difference of
unsigned numbers is a fault if it would be negative, and so are a sum that does
not fit in an `int` and a range that does not lie in its sequence. Strings check
the positions they are given themselves, and throw. A computation that returns
has met with none of these.
-/

namespace Sponge.Lib

universe u

variable {ε : Type*} {α β γ : Type u}

inductive Fault where
  | outOfRange (what : String)
  | underflow
  | overflow
  | invalidRange
  deriving DecidableEq

def checkedSub (a b : ℕ) : Except Fault ℕ :=
  if b ≤ a then .ok (a - b) else .error .underflow

/-- Whether `[first, last)` is a range of a sequence of `n` elements. -/
def checkedRange (n first last : ℕ) : Except Fault Unit :=
  if first ≤ last ∧ last ≤ n then .ok () else .error .invalidRange

/-- A non-negative number that was summed up in an `int`. -/
def checkedInt (n : ℕ) : Except Fault ℕ :=
  if n < 2 ^ 31 then .ok n else .error .overflow

def checkedSubstr (s : List α) (pos len : ℕ) : Except Fault (List α) :=
  if pos ≤ s.length then .ok (substr s pos len)
  else .error (.outOfRange "basic_string::substr")

def checkedReplace (s : List α) (pos len : ℕ) (t : List α) : Except Fault (List α) :=
  if pos ≤ s.length then .ok (replaceRange s pos len t)
  else .error (.outOfRange "basic_string::replace")

def checkedFill (l : List α) (first last : ℕ) (v : α) : Except Fault (List α) :=
  (checkedRange l.length first last).map fun _ ↦ fillRange l first last v

def checkedFind [BEq α] (l : List α) (first last : ℕ) (v : α) : Except Fault ℕ :=
  (checkedRange l.length first last).map fun _ ↦ findRange l first last v

/-- The cells of a range summed up, each `true` one as one. -/
def checkedCount (l : List Bool) (first last : ℕ) : Except Fault ℕ :=
  (checkedRange l.length first last).bind fun _ ↦ checkedInt (countRange l first last)

theorem checkedSub_of_le {a b : ℕ} (h : b ≤ a) : checkedSub a b = .ok (a - b) := if_pos h

theorem checkedRange_of_le {n first last : ℕ} (h : first ≤ last) (h' : last ≤ n) :
    checkedRange n first last = .ok () := if_pos ⟨h, h'⟩

theorem checkedInt_of_lt {n : ℕ} (h : n < 2 ^ 31) : checkedInt n = .ok n := if_pos h

theorem checkedSubstr_of_le {s : List α} {pos : ℕ} (h : pos ≤ s.length) (len : ℕ) :
    checkedSubstr s pos len = .ok (substr s pos len) := if_pos h

theorem checkedReplace_of_le {s : List α} {pos : ℕ} (h : pos ≤ s.length) (len : ℕ)
    (t : List α) : checkedReplace s pos len t = .ok (replaceRange s pos len t) := if_pos h

theorem checkedFill_of_le {l : List α} {first last : ℕ} (h : first ≤ last)
    (h' : last ≤ l.length) (v : α) :
    checkedFill l first last v = .ok (fillRange l first last v) := by
  rw [checkedFill, checkedRange_of_le h h']
  rfl

theorem checkedFind_of_le [BEq α] {l : List α} {first last : ℕ} (h : first ≤ last)
    (h' : last ≤ l.length) (v : α) :
    checkedFind l first last v = .ok (findRange l first last v) := by
  rw [checkedFind, checkedRange_of_le h h']
  rfl

theorem checkedCount_of_le {l : List Bool} {first last : ℕ} (h : first ≤ last)
    (h' : last ≤ l.length) : checkedCount l first last = checkedInt (countRange l first last) := by
  rw [checkedCount, checkedRange_of_le h h']
  rfl

theorem countRange_le (l : List Bool) (first last : ℕ) : countRange l first last ≤ last - first :=
  List.count_le_length.trans (List.length_take_le _ _)

theorem bind_of_eq {m : Except ε α} {a : α} {k : α → Except ε β} (h : m = .ok a) :
    m >>= k = k a := by
  rw [h]
  rfl

/-- The computation returns, and what it returns has the property. -/
def Returns (m : Except ε α) (P : α → Prop) : Prop := ∃ a, m = .ok a ∧ P a

namespace Returns

variable {m : Except ε α} {P : α → Prop}

theorem of_pure {a : α} (h : P a) : Returns (pure a : Except ε α) P := ⟨a, rfl, h⟩

theorem of_eq {a : α} (hm : m = .ok a) (h : P a) : Returns m P := ⟨a, hm, h⟩

theorem bind {k : α → Except ε β} {Q : β → Prop} (h : Returns m P)
    (hk : ∀ a, P a → Returns (k a) Q) : Returns (m >>= k) Q := by
  obtain ⟨a, rfl, ha⟩ := h
  exact hk a ha

/-- A computation that returns a result and what is left for the next one. -/
theorem bind_pair {m : Except ε (α × γ)} {P : α × γ → Prop} {k : α × γ → Except ε β}
    {Q : β → Prop} (h : Returns m P) (hk : ∀ a c, P (a, c) → Returns (k (a, c)) Q) :
    Returns (m >>= k) Q :=
  h.bind fun r ↦ hk r.1 r.2

/-- Two computations that branch alike. -/
theorem of_ite {c : Prop} [Decidable c] {m' : Except ε α} {f : α → β} {b b' : β}
    (h : c → Returns m (f · = b)) (h' : ¬c → Returns m' (f · = b')) :
    Returns (if c then m else m') (f · = if c then b else b') := by
  by_cases hc : c
  · rw [if_pos hc, if_pos hc]
    exact h hc
  · rw [if_neg hc, if_neg hc]
    exact h' hc

theorem eq {a : α} (h : Returns m (· = a)) : m = .ok a := by
  obtain ⟨a', hm, rfl⟩ := h
  exact hm

end Returns

end Sponge.Lib
