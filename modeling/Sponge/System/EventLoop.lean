import Sponge.System.FileDescriptor
import Mathlib.Data.List.Nodup

/-!
# The event loop

A rule says which descriptor to watch, whether there is interest in it, what to
do when it is ready and what to do when it is given up. One call of the loop
drops the rules whose descriptor is finished, asks the others for their
interest, polls, and runs the callbacks of those that are ready. The rules are
kept by name: `rule` gives the rule of each name and the loop holds the names of
those that are live, in the order in which they were added.

An application proves an invariant of its cancellations and callbacks; the loop
keeps it. What the answer of a rule's `interest` says may be relied on in its
callback as long as no other rule takes it away.
-/

namespace Sponge

open Lib

/-- The events that a rule can wait for. -/
inductive Direction where
  | pollIn
  | pollOut
  deriving DecidableEq

/-- A rule of an application with state `σ`; `ι` is what the kernel tells a callback. -/
structure Rule (σ ι : Type) where
  fd : σ → FileDescriptor
  direction : Direction
  callback : ι → σ → Except Exception σ
  interest : σ → Bool := fun _ ↦ true
  cancel : σ → Except Exception σ := .ok

/-- The events that `poll` reports for a descriptor. -/
structure Revents where
  pollIn : Bool := false
  pollOut : Bool := false
  pollErr : Bool := false
  pollHup : Bool := false
  pollNval : Bool := false
  deriving DecidableEq

def Revents.has (revents : Revents) : Direction → Bool
  | .pollIn => revents.pollIn
  | .pollOut => revents.pollOut

/-- How the system call `poll` ends. A report comes with what the kernel will tell the
callbacks; descriptors after its end have no events. -/
inductive Polled (ι : Type) where
  | timeout
  | failed (e : UnixError)
  | reported (results : List (Revents × ι))

namespace Rule

variable {σ ι : Type}

/-- The number of times the descriptor has been read or written. -/
def serviceCount (r : Rule σ ι) (s : σ) : UInt32 :=
  match r.direction with
  | .pollIn => (r.fd s).readCount
  | .pollOut => (r.fd s).writeCount

/-- The callback, and the check that it did something about the readiness. -/
def service (r : Rule σ ι) (input : ι) (s : σ) : Except Exception σ := do
  let countBefore := r.serviceCount s
  let s ← r.callback input s
  if countBefore = r.serviceCount s ∧ r.interest s = true then
    throw (.runtimeError
      "EventLoop: busy wait detected: callback did not read/write fd and is still interested")
  return s

/-- A callback that does something about the readiness passes the check. -/
theorem ends_service {E : Exception → Prop} {P : σ → Prop} {r : Rule σ ι} {input : ι} {s : σ}
    (h : Ends E (fun s' ↦ P s' ∧ (r.serviceCount s ≠ r.serviceCount s' ∨ r.interest s' = false))
      (r.callback input s)) : Ends E P (r.service input s) := by
  refine h.bind ?_
  rintro s' ⟨hP, hdone⟩
  refine Ends.of_ite (fun hbusy ↦ ?_) fun _ ↦ Ends.of_pure hP
  rcases hdone with hcount | hinterest
  · exact absurd hbusy.1 hcount
  · exact absurd (hinterest.symm.trans hbusy.2) Bool.false_ne_true

end Rule

namespace EventLoop

inductive Result where
  | success
  | timeout
  | exit
  deriving DecidableEq

/-- The number of the error of a system call that a signal interrupted. -/
def eintr : ℕ := 4

variable {κ σ ι : Type} (rule : κ → Rule σ ι)

/-- The loop that sets up what is polled: the names of the rules that stay, each with the answer
to whether it has interest. -/
def setup : List κ → σ → Except Exception (List (κ × Bool) × σ)
  | [], s => .ok ([], s)
  | k :: rest, s =>
    if (rule k).direction = .pollIn ∧ ((rule k).fd s).eof = true then do
      let s ← (rule k).cancel s
      setup rest s
    else if ((rule k).fd s).closed = true then do
      let s ← (rule k).cancel s
      setup rest s
    else do
      let (kept, s') ← setup rest s
      return ((k, (rule k).interest s) :: kept, s')

/-- The loop over the results of the poll: the names of the rules that stay. -/
def serve : List (κ × Bool) → List (Revents × ι) → σ → Except Exception (List κ × σ)
  | [], _, s => .ok ([], s)
  | polled, [], s => .ok (polled.map Prod.fst, s)
  | (k, asked) :: rest, (revents, input) :: results, s =>
    if revents.pollErr || revents.pollNval then
      throw (.runtimeError "EventLoop: error on polled file descriptor")
    else
      let pollReady := asked && revents.has (rule k).direction
      -- if the only condition was a hangup, the descriptor is defunct
      if revents.pollHup && asked && !pollReady then do
        let s ← (rule k).cancel s
        serve rest results s
      else do
        let s ← (if pollReady then (rule k).service input s else pure s)
        let (live, s) ← serve rest results s
        return (k :: live, s)

/-- One call of the loop. An error of `poll` other than an interruption goes unnoticed. -/
def waitNextEvent (polled : Polled ι) (live : List κ) (s : σ) :
    Except Exception (Result × List κ × σ) := do
  let (kept, s) ← setup rule live s
  if kept.all (!·.2) then return (.exit, kept.map Prod.fst, s)
  match polled with
  | .timeout => return (.timeout, kept.map Prod.fst, s)
  | .failed e =>
    if e.code = eintr then return (.exit, kept.map Prod.fst, s)
    else return (.success, ← serve rule kept [] s)
  | .reported results => return (.success, ← serve rule kept results s)

/-- Calls of the loop until it exits, one for each answer of `poll`; whether it has exited, the
live rules and the state. -/
def untilExit : List (Polled ι) → List κ → σ → Except Exception (Bool × List κ × σ)
  | [], live, s => .ok (false, live, s)
  | polled :: rest, live, s => do
    let (result, live, s) ← waitNextEvent rule polled live s
    if result = .exit then return (true, live, s) else untilExit rest live s

/-- An invariant of the application. `I` relates the live rules and the state; `noted k b` is
what is known since rule `k` answered `b` when asked for its interest. Giving up a rule must not
take away what the rules before it answered, nor that a rule after it had interest. -/
structure Keeps (E : Exception → Prop) (I : List κ → σ → Prop)
    (noted : κ → Bool → σ → Prop) : Prop where
  asks : ∀ live s k, I live s → k ∈ live →
    ¬((rule k).direction = .pollIn ∧ ((rule k).fd s).eof = true) → ((rule k).fd s).closed ≠ true →
    noted k ((rule k).interest s) s
  cancels : ∀ before k after s, k ∉ before ++ after → I (before ++ k :: after) s →
    Ends E (fun s' ↦ I (before ++ after) s' ∧ (∀ j ∈ before, ∀ b, noted j b s → noted j b s') ∧
      ∀ j ∈ after, noted j true s → noted j true s') ((rule k).cancel s)
  calls : ∀ live k input s, I live s → k ∈ live → noted k true s →
    Ends E (fun s' ↦ I live s' ∧ ∀ j, j ≠ k → noted j true s → noted j true s')
      ((rule k).service input s)
  polls : E (.runtimeError "EventLoop: error on polled file descriptor")

namespace Keeps

variable {rule} {E : Exception → Prop} {I : List κ → σ → Prop} {noted : κ → Bool → σ → Prop}

/-- Dropping a rule from a list without repetitions leaves the others apart from it. -/
theorem nodup_drop {before after : List κ} {k : κ} (h : (before ++ k :: after).Nodup) :
    (before ++ after).Nodup ∧ k ∉ before ++ after := by
  have hperm : (before ++ k :: after).Perm (k :: (before ++ after)) := List.perm_middle
  exact (List.nodup_cons.mp (hperm.nodup_iff.mp h)).symm

/-- The rules before the ones that are set up are those asked already. -/
theorem setup (h : Keeps rule E I noted) (asked : List (κ × Bool)) {live : List κ} {s : σ}
    (hnodup : (asked.map Prod.fst ++ live).Nodup) (hinv : I (asked.map Prod.fst ++ live) s)
    (hnoted : ∀ p ∈ asked, noted p.1 p.2 s) :
    Ends E (fun r : List (κ × Bool) × σ ↦
      I ((asked ++ r.1).map Prod.fst) r.2 ∧ (∀ p ∈ asked ++ r.1, noted p.1 p.2 r.2) ∧
        (r.1.map Prod.fst).Sublist live) (EventLoop.setup rule live s) := by
  induction live generalizing asked s with
  | nil =>
      rw [EventLoop.setup]
      simp only [List.append_nil] at hinv
      exact ⟨by simpa using hinv, by simpa using hnoted, List.Sublist.refl _⟩
  | cons k rest ih =>
      obtain ⟨hdrop, hout⟩ := nodup_drop hnodup
      have hcancel : Ends E (fun r : List (κ × Bool) × σ ↦
          I ((asked ++ r.1).map Prod.fst) r.2 ∧ (∀ p ∈ asked ++ r.1, noted p.1 p.2 r.2) ∧
            (r.1.map Prod.fst).Sublist (k :: rest))
          ((rule k).cancel s >>= fun s ↦ EventLoop.setup rule rest s) := by
        refine (h.cancels _ k rest s hout hinv).bind ?_
        rintro s' ⟨hinv', hstable, -⟩
        refine (ih asked hdrop hinv' fun p hp ↦
          hstable p.1 (List.mem_map_of_mem hp) p.2 (hnoted p hp)).imp ?_
        rintro r ⟨hkept, hanswers, hsub⟩
        exact ⟨hkept, hanswers, hsub.cons k⟩
      rw [EventLoop.setup]
      refine Ends.of_ite (fun _ ↦ hcancel) fun heof ↦
        Ends.of_ite (fun _ ↦ hcancel) fun hclosed ↦ ?_
      -- the rule stays, with its answer
      have hanswer := h.asks _ s k hinv (by simp) heof hclosed
      have hrest := ih (asked ++ [(k, (rule k).interest s)]) (by simpa using hnodup)
        (by simpa using hinv) (by
          intro p hp
          rcases List.mem_append.mp hp with hp | hp
          · exact hnoted p hp
          · rw [List.mem_singleton.mp hp]
            exact hanswer)
      refine hrest.bind_pair ?_
      rintro kept s' ⟨hkept, hanswers, hsub⟩
      refine Ends.of_pure ⟨by simpa using hkept, by simpa using hanswers, ?_⟩
      simpa using hsub

/-- The rules before the ones that are served are those served already. -/
theorem serve (h : Keeps rule E I noted) (served : List κ) {kept : List (κ × Bool)}
    {results : List (Revents × ι)} {s : σ} (hnodup : (served ++ kept.map Prod.fst).Nodup)
    (hinv : I (served ++ kept.map Prod.fst) s)
    (hnoted : ∀ p ∈ kept, p.2 = true → noted p.1 true s) :
    Ends E (fun r : List κ × σ ↦ I (served ++ r.1) r.2 ∧ r.1.Sublist (kept.map Prod.fst))
      (EventLoop.serve rule kept results s) := by
  induction kept generalizing served results s with
  | nil =>
      rw [EventLoop.serve]
      exact ⟨by simpa using hinv, List.Sublist.refl _⟩
  | cons p rest ih =>
      obtain ⟨k, asked⟩ := p
      cases results with
      | nil =>
          rw [EventLoop.serve]
          · exact ⟨hinv, List.Sublist.refl _⟩
          · simp
      | cons r results =>
          obtain ⟨revents, input⟩ := r
          rw [List.map_cons] at hnodup hinv
          obtain ⟨hdrop, hout⟩ := nodup_drop hnodup
          have hothers : ∀ s', (∀ j, j ≠ k → noted j true s → noted j true s') →
              ∀ p ∈ rest, p.2 = true → noted p.1 true s' := by
            intro s' hstable p hp hasked
            refine hstable p.1 ?_ (hnoted p (List.mem_cons_of_mem _ hp) hasked)
            exact fun heq ↦ hout (List.mem_append_right _ (List.mem_map.mpr ⟨p, hp, heq⟩))
          rw [EventLoop.serve]
          refine Ends.of_ite (fun _ ↦ h.polls) fun _ ↦ ?_
          refine Ends.of_ite (fun _ ↦ ?_) fun _ ↦ ?_
          · -- the rule is given up
            refine (h.cancels served k _ s hout hinv).bind ?_
            rintro s' ⟨hinv', -, hstable⟩
            refine (ih served hdrop hinv' fun p hp hasked ↦ hstable p.1 (List.mem_map_of_mem hp)
              (hnoted p (List.mem_cons_of_mem _ hp) hasked)).imp ?_
            rintro r ⟨hlive, hsub⟩
            exact ⟨hlive, hsub.cons k⟩
          · have hturn : Ends E
                (fun s' ↦ I (served ++ k :: rest.map Prod.fst) s' ∧
                  ∀ p ∈ rest, p.2 = true → noted p.1 true s')
                (if (asked && revents.has (rule k).direction) = true then
                  (rule k).service input s else pure s) := by
              refine Ends.of_ite (fun hready ↦ ?_) fun _ ↦ ?_
              · have hanswer : noted k true s :=
                  hnoted (k, asked) List.mem_cons_self (Bool.and_eq_true_iff.mp hready).1
                refine (h.calls _ k input s hinv (by simp) hanswer).imp ?_
                rintro s' ⟨hinv', hstable⟩
                exact ⟨hinv', hothers s' hstable⟩
              · exact ⟨hinv, fun p hp ↦ hnoted p (List.mem_cons_of_mem _ hp)⟩
            refine hturn.bind ?_
            rintro s' ⟨hinv', hnoted'⟩
            refine (ih (served ++ [k]) (by simpa using hnodup) (by simpa using hinv')
              hnoted').bind_pair ?_
            rintro live s'' ⟨hlive, hsub⟩
            exact Ends.of_pure ⟨by simpa using hlive, hsub.cons_cons k⟩

/-- A call of the loop keeps the invariant. It exits when it is interrupted or when no rule that
is left had interest. -/
theorem waitNextEvent (h : Keeps rule E I noted) (polled : Polled ι) {live : List κ} {s : σ}
    (hnodup : live.Nodup) (hinv : I live s) :
    Ends E (fun r : Result × List κ × σ ↦ I r.2.1 r.2.2 ∧ r.2.1.Sublist live ∧
      (r.1 = .exit → (∃ e, polled = .failed e ∧ e.code = eintr) ∨
        ∀ k ∈ r.2.1, noted k false r.2.2)) (EventLoop.waitNextEvent rule polled live s) := by
  rw [EventLoop.waitNextEvent]
  refine (h.setup [] (by simpa using hnodup) (by simpa using hinv) (by simp)).bind_pair ?_
  rintro kept s' ⟨hkept, hanswers, hsub⟩
  rw [List.nil_append] at hkept hanswers
  have hserve : ∀ results, Ends E (fun r : Result × List κ × σ ↦ I r.2.1 r.2.2 ∧
      r.2.1.Sublist live ∧ (r.1 = .exit → (∃ e, polled = .failed e ∧ e.code = eintr) ∨
        ∀ k ∈ r.2.1, noted k false r.2.2))
      (EventLoop.serve rule kept results s' >>= fun r ↦ pure (.success, r)) := by
    intro results
    refine (h.serve [] (by simpa using hnodup.sublist hsub) (by simpa using hkept) fun p hp hasked ↦
      hasked ▸ hanswers p hp).bind_pair ?_
    rintro live' s'' ⟨hlive, hsub'⟩
    exact Ends.of_pure ⟨by simpa using hlive, hsub'.trans hsub, fun hexit ↦ by cases hexit⟩
  refine Ends.of_ite (fun hall ↦ ?_) fun _ ↦ ?_
  · refine Ends.of_pure ⟨hkept, hsub, fun _ ↦ Or.inr ?_⟩
    intro k hk
    obtain ⟨⟨k', answer⟩, hp, rfl⟩ := List.mem_map.mp hk
    have hno : answer = false := by simpa using List.all_eq_true.mp hall _ hp
    exact hno ▸ hanswers _ hp
  · cases polled with
    | timeout => exact Ends.of_pure ⟨hkept, hsub, fun hexit ↦ by cases hexit⟩
    | failed e =>
        refine Ends.of_ite (fun hcode ↦ ?_) fun _ ↦ hserve []
        exact Ends.of_pure ⟨hkept, hsub, fun _ ↦ Or.inl ⟨e, rfl, hcode⟩⟩
    | reported results => exact hserve results

/-- Any number of calls keeps the invariant. -/
theorem untilExit (h : Keeps rule E I noted) (polls : List (Polled ι)) {live : List κ} {s : σ}
    (hnodup : live.Nodup) (hinv : I live s) :
    Ends E (fun r : Bool × List κ × σ ↦ I r.2.1 r.2.2 ∧ r.2.1.Sublist live ∧
      (r.1 = true → (∃ e, .failed e ∈ polls ∧ e.code = eintr) ∨
        ∀ k ∈ r.2.1, noted k false r.2.2)) (EventLoop.untilExit rule polls live s) := by
  induction polls generalizing live s with
  | nil => exact ⟨hinv, List.Sublist.refl _, fun hexit ↦ by cases hexit⟩
  | cons polled rest ih =>
      refine (h.waitNextEvent polled hnodup hinv).bind ?_
      rintro ⟨result, live', s'⟩ ⟨hinv', hsub, hexit⟩
      refine Ends.of_ite (fun hresult ↦ ?_) fun _ ↦ ?_
      · refine Ends.of_pure ⟨hinv', hsub, fun _ ↦ (hexit hresult).imp_left ?_⟩
        rintro ⟨e, rfl, hcode⟩
        exact ⟨e, List.mem_cons_self, hcode⟩
      · refine (ih (hnodup.sublist hsub) hinv').imp ?_
        rintro r ⟨hlast, hsub', hexit'⟩
        refine ⟨hlast, hsub'.trans hsub, fun hr ↦ (hexit' hr).imp_left ?_⟩
        rintro ⟨e, hmem, hcode⟩
        exact ⟨e, List.mem_cons_of_mem _ hmem, hcode⟩

end Keeps

end EventLoop

end Sponge
