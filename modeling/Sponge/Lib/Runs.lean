import Mathlib.Tactic

/-!
# Runs of a machine

A machine is a step function on a state type. A run applies a list of
operations in order, and a guard restricts the operations that may be applied
in each state. An invariant of the guarded steps holds after every guarded run;
since every prefix of a guarded run is a guarded run, it holds in every state
on the way.
-/

namespace Sponge.Lib

variable {σ ε : Type*}

/-- The state reached from `s` by applying the operations in order. -/
def run (step : σ → ε → σ) (s : σ) (ops : List ε) : σ :=
  ops.foldl step s

/-- Every operation of the list meets the guard in the state it is applied to. -/
def Along (step : σ → ε → σ) (ok : σ → ε → Prop) : σ → List ε → Prop
  | _, [] => True
  | s, e :: es => ok s e ∧ Along step ok (step s e) es

instance Along.instDecidable (step : σ → ε → σ) (ok : σ → ε → Prop)
    [∀ s e, Decidable (ok s e)] : ∀ s es, Decidable (Along step ok s es)
  | _, [] => .isTrue trivial
  | s, e :: es =>
    haveI := Along.instDecidable step ok (step s e) es
    inferInstanceAs (Decidable (ok s e ∧ Along step ok (step s e) es))

section

variable {step : σ → ε → σ} {ok : σ → ε → Prop}

@[simp] theorem run_nil (s : σ) : run step s [] = s := rfl

@[simp] theorem run_cons (s : σ) (e : ε) (es : List ε) :
    run step s (e :: es) = run step (step s e) es := rfl

theorem run_append (s : σ) (xs ys : List ε) :
    run step s (xs ++ ys) = run step (run step s xs) ys :=
  List.foldl_append

@[simp] theorem run_concat (s : σ) (es : List ε) (e : ε) :
    run step s (es ++ [e]) = step (run step s es) e := by
  simp [run_append]

theorem along_append {s : σ} {xs ys : List ε} :
    Along step ok s (xs ++ ys) ↔
      Along step ok s xs ∧ Along step ok (run step s xs) ys := by
  induction xs generalizing s with
  | nil => simp [Along]
  | cons e xs ih => simp [Along, ih, and_assoc]

theorem Along.imp {ok' : σ → ε → Prop} (h : ∀ s e, ok s e → ok' s e) {s : σ} {es : List ε}
    (hes : Along step ok s es) : Along step ok' s es := by
  induction es generalizing s with
  | nil => exact trivial
  | cons e es ih => exact ⟨h s e hes.1, ih hes.2⟩

theorem along_of_forall {es : List ε} (h : ∀ e ∈ es, ∀ s, ok s e) (s : σ) :
    Along step ok s es := by
  induction es generalizing s with
  | nil => exact trivial
  | cons e es ih =>
      exact ⟨h e List.mem_cons_self s, ih (fun e' he' ↦ h e' (List.mem_cons_of_mem e he')) _⟩

/-- A run of one machine inside another: its states are embedded by `f`, its operations by `g`. -/
theorem along_map {τ δ : Type*} {stepₜ : τ → δ → τ} {okₜ : τ → δ → Prop} {s : σ} {es : List ε}
    (f : σ → τ) (g : ε → δ) (hstep : ∀ s e, stepₜ (f s) (g e) = f (step s e))
    (hok : ∀ s e, ok s e → okₜ (f s) (g e)) (h : Along step ok s es) :
    Along stepₜ okₜ (f s) (es.map g) ∧ run stepₜ (f s) (es.map g) = f (run step s es) := by
  induction es generalizing s with
  | nil => exact ⟨trivial, rfl⟩
  | cons e es ih =>
      obtain ⟨hrest, hrun⟩ := ih h.2
      rw [← hstep] at hrest hrun
      exact ⟨⟨hok s e h.1, hrest⟩, hrun⟩

/-- A measure that no step decreases stays below what it is at the end. -/
theorem along_and_le {f : σ → ℕ} (hf : ∀ s e, f s ≤ f (step s e)) {s : σ} {es : List ε}
    (h : Along step ok s es) :
    f s ≤ f (run step s es) ∧
      Along step (fun s' e ↦ ok s' e ∧ f (step s' e) ≤ f (run step s es)) s es := by
  induction es generalizing s with
  | nil => exact ⟨le_refl _, trivial⟩
  | cons e es ih =>
      obtain ⟨hle, hrest⟩ := ih h.2
      exact ⟨(hf s e).trans hle, ⟨h.1, hle⟩, hrest⟩

theorem run_invariant_of_step {I : σ → Prop} {s : σ} (hstep : ∀ s e, I s → I (step s e))
    (hs : I s) (es : List ε) : I (run step s es) := by
  induction es generalizing s with
  | nil => exact hs
  | cons e es ih => exact ih (hstep s e hs)

/-- An invariant of the guarded steps holds at the end of every guarded run. -/
theorem run_invariant {I : σ → Prop} {s : σ} {es : List ε}
    (hstep : ∀ s e, I s → ok s e → I (step s e)) (hs : I s)
    (hes : Along step ok s es) : I (run step s es) := by
  induction es generalizing s with
  | nil => exact hs
  | cons e es ih => exact ih (hstep s e hs hes.1) hes.2

/-- A relation that the steps of two machines keep relates the ends of their runs. -/
theorem run_related {τ : Type*} {stepₜ : τ → ε → τ} {R : σ → τ → Prop} {s : σ} {t : τ}
    (hstep : ∀ s t e, R s t → R (step s e) (stepₜ t e)) (h : R s t) (es : List ε) :
    R (run step s es) (run stepₜ t es) := by
  induction es generalizing s t with
  | nil => exact h
  | cons e es ih => exact ih (hstep s t e h)

/-- A relation between two machines of which the second leaves out some operations: it is kept
by the operations that both do and by those that only the first does. -/
theorem run_filter_related {τ : Type*} (stepₜ : τ → ε → τ) (R : σ → τ → Prop) (keep : ε → Bool)
    (hboth : ∀ s t e, R s t → ok s e → keep e = true → R (step s e) (stepₜ t e))
    (hskip : ∀ s t e, R s t → ok s e → keep e = false → R (step s e) t) {s : σ} {t : τ}
    {es : List ε} (h : R s t) (hes : Along step ok s es) :
    R (run step s es) (run stepₜ t (es.filter keep)) := by
  induction es generalizing s t with
  | nil => exact h
  | cons e es ih =>
      cases hkeep : keep e with
      | true =>
          rw [List.filter_cons_of_pos hkeep]
          exact ih (hboth s t e h hes.1 hkeep) hes.2
      | false =>
          rw [List.filter_cons_of_neg (by simp [hkeep])]
          exact ih (hskip s t e h hes.1 hkeep) hes.2

/-- A measure that no guarded step decreases does not decrease along a
guarded run that starts in a state of the invariant. -/
theorem run_monotone {I : σ → Prop} {f : σ → ℕ} {s : σ} {es : List ε}
    (hstep : ∀ s e, I s → ok s e → I (step s e))
    (hf : ∀ s e, I s → ok s e → f s ≤ f (step s e)) (hs : I s)
    (hes : Along step ok s es) : f s ≤ f (run step s es) := by
  induction es generalizing s with
  | nil => exact le_refl _
  | cons e es ih =>
      exact (hf s e hs hes.1).trans (ih (hstep s e hs hes.1) hes.2)

end

/-- An operation that may throw: if no allowed step from a state of the invariant
throws or leaves the invariant, no run of allowed steps does. -/
theorem exists_foldlM_ok {ι : Type*} {step : σ → ε → Except ι σ} {I : σ → Prop} {ok : ε → Prop}
    (hstep : ∀ s e, I s → ok e → ∃ s', step s e = .ok s' ∧ I s') {s : σ} {es : List ε}
    (hs : I s) (hes : ∀ e ∈ es, ok e) : ∃ s', es.foldlM step s = .ok s' ∧ I s' := by
  induction es generalizing s with
  | nil => exact ⟨s, rfl, hs⟩
  | cons e es ih =>
      obtain ⟨s₁, h₁, hs₁⟩ := hstep s e hs (hes e (by simp))
      obtain ⟨s₂, h₂, hs₂⟩ := ih hs₁ fun e' he' ↦ hes e' (List.mem_cons_of_mem e he')
      refine ⟨s₂, ?_, hs₂⟩
      rw [List.foldlM_cons, h₁]
      exact h₂

/-- A loop over the numbers below `m + 1` does its last turn after those below `m`. -/
theorem foldlM_range_succ {ι : Type*} {step : σ → ℕ → Except ι σ} {m : ℕ} {s s₁ s₂ : σ}
    (hfirst : (List.range m).foldlM step s = .ok s₁) (hlast : step s₁ m = .ok s₂) :
    (List.range (m + 1)).foldlM step s = .ok s₂ := by
  rw [List.range_succ, List.foldlM_append, hfirst]
  change (step s₁ m >>= pure) = _
  rw [hlast]
  rfl

end Sponge.Lib
