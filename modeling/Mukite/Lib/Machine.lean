import Mathlib.Tactic.Common

/-!
# Machines that handle one event at a time

A machine takes an event in a state and either gets stuck or moves to a new state with some
output. What holds of every state of a run is proved with two rules: `Reach.invariant` for a
property that every step keeps, and `Reach.invariant_of` for one that needs an invariant
already proved.
-/

namespace Machine

variable {σ ε ο : Type*}

/-- One step of a machine. `none` says that the machine has no next state. -/
abbrev Step (σ ε ο : Type*) := σ → ε → Option (σ × ο)

variable {step : Step σ ε ο} {ok ok' : σ → ε → Prop} {s₀ : σ}

/-- The states of the runs from `s₀` in which every event is one that `ok` admits. -/
inductive Reach (step : Step σ ε ο) (ok : σ → ε → Prop) (s₀ : σ) : σ → Prop
  | start : Reach step ok s₀ s₀
  | next {s s' : σ} {e : ε} {o : ο} (hr : Reach step ok s₀ s) (he : ok s e)
      (hs : step s e = some (s', o)) : Reach step ok s₀ s'

namespace Reach

/-- **What the start has and every step keeps, every reachable state has.** -/
theorem invariant {I : σ → Prop} (h₀ : I s₀)
    (hstep : ∀ s e s' o, I s → ok s e → step s e = some (s', o) → I s') {s : σ}
    (h : Reach step ok s₀ s) : I s := by
  induction h with
  | start => exact h₀
  | next _ he hs ih => exact hstep _ _ _ _ ih he hs

/-- As `invariant`, with an invariant `J` that the steps may use. -/
theorem invariant_of {I J : σ → Prop} (hJ : ∀ s, Reach step ok s₀ s → J s) (h₀ : I s₀)
    (hstep : ∀ s e s' o, J s → I s → ok s e → step s e = some (s', o) → I s') {s : σ}
    (h : Reach step ok s₀ s) : I s := by
  induction h with
  | start => exact h₀
  | next hr he hs ih => exact hstep _ _ _ _ (hJ _ hr) ih he hs

/-- A weaker admission test reaches at least as much. -/
theorem mono (hok : ∀ s e, ok s e → ok' s e) {s : σ} (h : Reach step ok s₀ s) :
    Reach step ok' s₀ s := by
  induction h with
  | start => exact .start
  | next _ he hs ih => exact .next ih (hok _ _ he) hs

end Reach

/-! ## Runs on given events -/

/-- The state after the given events, if the machine does not get stuck on them. -/
def run (step : Step σ ε ο) : σ → List ε → Option σ
  | s, [] => some s
  | s, e :: es =>
    match step s e with
    | none => none
    | some (s', _) => run step s' es

/-- A run on admitted events ends in a reachable state. -/
theorem Reach.run : ∀ {es : List ε} {s s' : σ}, Reach step ok s₀ s →
    (∀ s, ∀ e ∈ es, ok s e) → Machine.run step s es = some s' → Reach step ok s₀ s'
  | [], s, s', hr, _, h => by
    cases h
    exact hr
  | e :: es, s, s', hr, hok, h => by
    rw [Machine.run] at h
    split at h
    · cases h
    · next s₁ o hs =>
      exact Reach.run (.next hr (hok s e List.mem_cons_self) hs)
        (fun s e he => hok s e (List.mem_cons_of_mem _ he)) h

/-- As `run`, as long as the events are admitted. -/
def runAdmitted (step : Step σ ε ο) (ok : σ → ε → Prop) [∀ s e, Decidable (ok s e)] :
    σ → List ε → Option σ
  | s, [] => some s
  | s, e :: es =>
    if ok s e then
      match step s e with
      | none => none
      | some (s', _) => runAdmitted step ok s' es
    else none

theorem Reach.runAdmitted [∀ s e, Decidable (ok s e)] : ∀ {es : List ε} {s s' : σ},
    Reach step ok s₀ s → Machine.runAdmitted step ok s es = some s' → Reach step ok s₀ s'
  | [], s, s', hr, h => by
    cases h
    exact hr
  | e :: es, s, s', hr, h => by
    rw [Machine.runAdmitted] at h
    split at h
    · next he =>
      split at h
      · cases h
      · next s₁ o hs => exact Reach.runAdmitted (.next hr he hs) h
    · cases h

/-- As `runAdmitted`, with something more that all the events have. -/
theorem Reach.runAdmitted_of [∀ s e, Decidable (ok s e)] {A : ε → Prop} :
    ∀ {es : List ε} {s s' : σ}, Reach step (fun s e => A e ∧ ok s e) s₀ s → (∀ e ∈ es, A e) →
      Machine.runAdmitted step ok s es = some s' → Reach step (fun s e => A e ∧ ok s e) s₀ s'
  | [], s, s', hr, _, h => by
    cases h
    exact hr
  | e :: es, s, s', hr, hA, h => by
    rw [Machine.runAdmitted] at h
    split at h
    · next he =>
      split at h
      · cases h
      · next s₁ o hs =>
        exact Reach.runAdmitted_of (.next hr ⟨hA e List.mem_cons_self, he⟩ hs)
          (fun e he => hA e (List.mem_cons_of_mem _ he)) h
    · cases h

end Machine
