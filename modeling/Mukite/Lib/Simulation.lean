import Mukite.Lib.Machine

/-!
# Machines that do what others do

A machine simulates another one if it can follow each of its steps with the same output. It may also
look at some of the events only, in its own words: then it stands still while the others are
handled, and its outputs are those that belong to the events it looks at (`outputs_project`).
-/

namespace Machine

variable {σ τ ε δ ο : Type*}

/-- The outputs of a run on given events, if the machine does not get stuck on them. -/
def outputs (step : Step σ ε ο) : σ → List ε → Option (List ο)
  | _, [] => some []
  | s, e :: es =>
    match step s e with
    | none => none
    | some (s', o) => (outputs step s' es).map (o :: ·)

/-- The outputs that belong to the events which `f` keeps. -/
def kept (f : ε → Option δ) : List ε → List ο → List ο
  | e :: es, o :: os => if (f e).isSome then o :: kept f es os else kept f es os
  | _, _ => []

variable {step : Step σ ε ο} {step' : Step τ δ ο} {f : ε → Option δ} {R : σ → τ → Prop}

theorem outputs_cons {s : σ} {e : ε} {es : List ε} {os : List ο}
    (h : outputs step s (e :: es) = some os) : ∃ s' o os', step s e = some (s', o) ∧
      outputs step s' es = some os' ∧ os = o :: os' := by
  rw [outputs] at h
  cases hs : step s e with
  | none =>
    simp only [hs] at h
    cases h
  | some r =>
    obtain ⟨s', o⟩ := r
    simp only [hs] at h
    obtain ⟨os', hos, rfl⟩ := Option.map_eq_some_iff.mp h
    exact ⟨s', o, os', rfl, hos, rfl⟩

/-- A machine that never gets stuck has outputs for all events. -/
theorem outputs_total (htotal : ∀ s e, (step s e).isSome) :
    ∀ (es : List ε) (s : σ), ∃ os, outputs step s es = some os
  | [], _ => ⟨[], rfl⟩
  | e :: es, s => by
    obtain ⟨⟨s', o⟩, hs⟩ := Option.isSome_iff_exists.mp (htotal s e)
    obtain ⟨os, hos⟩ := outputs_total htotal es s'
    exact ⟨o :: os, by rw [outputs, hs]; simp only [hos, Option.map_some]⟩

/-- Every event of a run is one that `ok` admits in the state in which it comes. -/
def Admitted (step : Step σ ε ο) (ok : σ → ε → Prop) : σ → List ε → Prop
  | _, [] => True
  | s, e :: es => ok s e ∧ ∀ s' o, step s e = some (s', o) → Admitted step ok s' es

theorem admitted_of_all {ok : σ → ε → Prop} (hok : ∀ s e, ok s e) :
    ∀ (es : List ε) (s : σ), Admitted step ok s es
  | [], _ => trivial
  | e :: es, s => ⟨hok s e, fun s' _ _ => admitted_of_all hok es s'⟩

/-- What is admitted can be computed along the run. -/
def admittedBool (step : Step σ ε ο) (ok : σ → ε → Bool) : σ → List ε → Bool
  | _, [] => true
  | s, e :: es => ok s e && (step s e).all (fun r => admittedBool step ok r.1 es)

theorem admitted_of_bool {ok : σ → ε → Prop} {test : σ → ε → Bool}
    (hok : ∀ s e, test s e = true → ok s e) :
    ∀ {es : List ε} {s : σ}, admittedBool step test s es = true → Admitted step ok s es
  | [], _, _ => trivial
  | e :: es, s, h => by
    rw [admittedBool, Bool.and_eq_true] at h
    refine ⟨hok s e h.1, fun s' o hs => admitted_of_bool hok ?_⟩
    have hrest := h.2
    rw [hs, Option.all_some] at hrest
    exact hrest

section Project

variable {ok : σ → ε → Prop}
  (hmove : ∀ s t e e' s' o, R s t → ok s e → f e = some e' → step s e = some (s', o) →
    ∃ t', step' t e' = some (t', o) ∧ R s' t')
  (hstay : ∀ s t e s' o, R s t → ok s e → f e = none → step s e = some (s', o) → R s' t)

include hmove hstay

/-- **A machine that follows some of the events has the outputs of these.** -/
theorem outputs_project : ∀ {es : List ε} {s : σ} {t : τ} {os : List ο}, R s t →
    Admitted step ok s es → outputs step s es = some os →
      outputs step' t (es.filterMap f) = some (kept f es os)
  | [], _, _, _, _, _, h => by
    cases h
    rfl
  | e :: es, s, t, os, hR, hok, h => by
    obtain ⟨s', o, os', hs, hos, rfl⟩ := outputs_cons h
    have hok' := hok.2 s' o hs
    cases hf : f e with
    | none =>
      have hrest := outputs_project (hstay s t e s' o hR hok.1 hf hs) hok' hos
      rw [List.filterMap_cons_none hf, kept, hf, if_neg (by simp), hrest]
    | some e' =>
      obtain ⟨t', ht, hR'⟩ := hmove s t e e' s' o hR hok.1 hf hs
      have hrest := outputs_project hR' hok' hos
      rw [List.filterMap_cons_some hf, outputs, ht, kept, hf, if_pos (by simp)]
      simp only [hrest, Option.map_some]

/-- It also ends in a state that belongs to theirs. -/
theorem run_project : ∀ {es : List ε} {s s' : σ} {t : τ}, R s t → Admitted step ok s es →
    run step s es = some s' → ∃ t', run step' t (es.filterMap f) = some t' ∧ R s' t'
  | [], _, _, t, hR, _, h => by
    cases h
    exact ⟨t, rfl, hR⟩
  | e :: es, s, s', t, hR, hok, h => by
    rw [run] at h
    cases hs : step s e with
    | none =>
      simp only [hs] at h
      cases h
    | some r =>
      obtain ⟨s₁, o⟩ := r
      simp only [hs] at h
      have hok' := hok.2 s₁ o hs
      cases hf : f e with
      | none =>
        rw [List.filterMap_cons_none hf]
        exact run_project (hstay s t e s₁ o hR hok.1 hf hs) hok' h
      | some e' =>
        obtain ⟨t₁, ht, hR'⟩ := hmove s t e e' s₁ o hR hok.1 hf hs
        rw [List.filterMap_cons_some hf, run]
        simp only [ht]
        exact run_project hR' hok' h

end Project

theorem kept_some : ∀ {es : List ε} {s : σ} {os : List ο}, outputs step s es = some os →
    kept some es os = os
  | [], _, _, h => by
    cases h
    rfl
  | e :: es, s, os, h => by
    obtain ⟨s', o, os', -, hos, rfl⟩ := outputs_cons h
    rw [kept, if_pos (by simp), kept_some hos]

/-- **A machine that follows every step has the same outputs.** -/
theorem outputs_refine {step' : Step τ ε ο}
    (hmove : ∀ s t e s' o, R s t → step s e = some (s', o) →
      ∃ t', step' t e = some (t', o) ∧ R s' t') {es : List ε} {s : σ} {t : τ} {os : List ο}
    (hR : R s t) (h : outputs step s es = some os) : outputs step' t es = some os := by
  have hproject := @outputs_project σ τ ε ε ο step step' some R (fun _ _ => True)
    (fun s t e e' s' o hR _ he hs => by
      cases he
      exact hmove s t e s' o hR hs)
    (fun _ _ _ _ _ _ _ he => by cases he) es s t os hR (admitted_of_all (fun _ _ => trivial) es s) h
  rw [kept_some h, List.filterMap_some] at hproject
  exact hproject

end Machine
