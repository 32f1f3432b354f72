import Mathlib.Tactic.Common

/-!
# While loops with a measure

The body of a loop either does something undefined (`none`), goes round again with a new state,
or leaves with a result. `whileLoop` runs it with a bound on the number of rounds. When the body
decreases a measure the bound does not matter (`whileLoop_unfold`): a loop that is given more
rounds than the measure of its state is the loop without a bound.
-/

namespace WhileLoop

variable {σ ρ : Type*}

/-- Run `body` until it leaves, for at most the given number of rounds. -/
def whileLoop (body : σ → Option (σ ⊕ ρ)) : Nat → σ → Option ρ
  | 0, _ => none
  | n + 1, s =>
    match body s with
    | none => none
    | some (.inl s') => whileLoop body n s'
    | some (.inr r) => some r

variable {body : σ → Option (σ ⊕ ρ)} {μ : σ → Nat}

/-- The body of the loop decreases `μ` whenever it goes round again. -/
def Decreases (body : σ → Option (σ ⊕ ρ)) (μ : σ → Nat) : Prop :=
  ∀ s s', body s = some (.inl s') → μ s' < μ s

/-- Two bounds above the measure give the same result. -/
theorem whileLoop_stable (hμ : Decreases body μ) :
    ∀ (n m : Nat) (s : σ), μ s < n → μ s < m → whileLoop body n s = whileLoop body m s
  | 0, _, _, hn, _ => absurd hn (Nat.not_lt_zero _)
  | _ + 1, 0, _, _, hm => absurd hm (Nat.not_lt_zero _)
  | n + 1, m + 1, s, hn, hm => by
    rw [whileLoop, whileLoop]
    cases hb : body s with
    | none => rfl
    | some x =>
      cases x with
      | inr r => rfl
      | inl s' =>
        have hlt := hμ s s' hb
        exact whileLoop_stable hμ n m s' (by omega) (by omega)

/-- **Above the measure the loop is its own unfolding: the bound never cuts it short.** -/
theorem whileLoop_unfold (hμ : Decreases body μ) {n : Nat} {s : σ} (hn : μ s < n) :
    whileLoop body n s =
      match body s with
      | none => none
      | some (.inl s') => whileLoop body n s'
      | some (.inr r) => some r := by
  obtain ⟨m, rfl⟩ : ∃ m, n = m + 1 := ⟨n - 1, by omega⟩
  rw [whileLoop]
  cases hb : body s with
  | none => rfl
  | some x =>
    cases x with
    | inr r => rfl
    | inl s' =>
      have hlt := hμ s s' hb
      exact whileLoop_stable hμ m (m + 1) s' (by omega) (by omega)

/-- **The rule for loops**: an invariant of the body holds where the loop leaves. -/
theorem whileLoop_rule {I : σ → Prop} {Q : ρ → Prop}
    (hgo : ∀ s s', I s → body s = some (.inl s') → I s')
    (hleave : ∀ s r, I s → body s = some (.inr r) → Q r) :
    ∀ (n : Nat) (s : σ) (r : ρ), I s → whileLoop body n s = some r → Q r
  | 0, _, _, _, h => by simp [whileLoop] at h
  | n + 1, s, r, hI, h => by
    rw [whileLoop] at h
    cases hb : body s with
    | none => simp [hb] at h
    | some x =>
      cases x with
      | inr r' =>
        simp only [hb, Option.some.injEq] at h
        exact h ▸ hleave s r' hI hb
      | inl s' =>
        simp only [hb] at h
        exact whileLoop_rule hgo hleave n s' r (hgo s s' hI hb) h

/-- **A loop that follows another one leaves where it leaves**, with as many rounds or more. It has
to follow only where the other one leaves with a result that is wanted. -/
theorem whileLoop_sim_where {σ' ρ' : Type*} {body' : σ' → Option (σ' ⊕ ρ')} {R : σ → σ' → Prop}
    {S : ρ → ρ' → Prop} {P : ρ → Prop}
    (hgo : ∀ s t s₁, R s t → body s = some (.inl s₁) → ∃ t₁, body' t = some (.inl t₁) ∧ R s₁ t₁)
    (hleave : ∀ s t r, R s t → P r → body s = some (.inr r) →
      ∃ r', body' t = some (.inr r') ∧ S r r') :
    ∀ {n m : Nat} {s : σ} {t : σ'} {r : ρ}, n ≤ m → R s t → P r → whileLoop body n s = some r →
      ∃ r', whileLoop body' m t = some r' ∧ S r r'
  | 0, _, _, _, _, _, _, _, h => by simp [whileLoop] at h
  | _ + 1, 0, _, _, _, hnm, _, _, _ => absurd hnm (Nat.not_succ_le_zero _)
  | n + 1, m + 1, s, t, r, hnm, hR, hP, h => by
    rw [whileLoop] at h ⊢
    cases hb : body s with
    | none => simp [hb] at h
    | some x =>
      cases x with
      | inr r₁ =>
        simp only [hb, Option.some.injEq] at h
        obtain ⟨r', hb', hS⟩ := hleave s t r₁ hR (h ▸ hP) hb
        simp only [hb']
        exact ⟨r', rfl, h ▸ hS⟩
      | inl s₁ =>
        obtain ⟨t₁, hb', hR₁⟩ := hgo s t s₁ hR hb
        simp only [hb] at h
        simp only [hb']
        exact whileLoop_sim_where hgo hleave (Nat.le_of_succ_le_succ hnm) hR₁ hP h

theorem whileLoop_sim {σ' ρ' : Type*} {body' : σ' → Option (σ' ⊕ ρ')} {R : σ → σ' → Prop}
    {S : ρ → ρ' → Prop}
    (hgo : ∀ s t s₁, R s t → body s = some (.inl s₁) → ∃ t₁, body' t = some (.inl t₁) ∧ R s₁ t₁)
    (hleave : ∀ s t r, R s t → body s = some (.inr r) → ∃ r', body' t = some (.inr r') ∧ S r r')
    {n m : Nat} {s : σ} {t : σ'} {r : ρ} (hnm : n ≤ m) (hR : R s t)
    (h : whileLoop body n s = some r) : ∃ r', whileLoop body' m t = some r' ∧ S r r' :=
  whileLoop_sim_where (P := fun _ => True) hgo (fun s t r hR _ hb => hleave s t r hR hb) hnm hR
    trivial h

/-- **Two loops whose turns keep a relation end alike.** -/
theorem whileLoop_agree {σ' ρ' : Type*} {body' : σ' → Option (σ' ⊕ ρ')} {R : σ → σ' → Prop}
    {S : ρ → ρ' → Prop}
    (hstep : ∀ s t x y, R s t → body s = some x → body' t = some y → Sum.LiftRel R S x y) :
    ∀ {n m : Nat} {s : σ} {t : σ'} {r : ρ} {r' : ρ'}, R s t → whileLoop body n s = some r →
      whileLoop body' m t = some r' → S r r'
  | 0, _, _, _, _, _, _, h, _ => by simp [whileLoop] at h
  | _ + 1, 0, _, _, _, _, _, _, h' => by simp [whileLoop] at h'
  | n + 1, m + 1, s, t, r, r', hR, h, h' => by
    rw [whileLoop] at h h'
    cases hb : body s with
    | none => simp [hb] at h
    | some x =>
      cases hb' : body' t with
      | none => simp [hb'] at h'
      | some y =>
        simp only [hb] at h
        simp only [hb'] at h'
        cases hstep s t x y hR hb hb' with
        | inl hR₁ => exact whileLoop_agree hstep hR₁ h h'
        | inr hS =>
          cases h
          cases h'
          exact hS

end WhileLoop
