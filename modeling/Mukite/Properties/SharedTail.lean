import Mukite.Properties.Siblings

/-!
# Two blocks that end alike

The walks of `xmlfsm.c` never look back. So they read the same in two blocks of memory whose ends
are the same: what they find lies at the same distance from where these ends begin.
-/

namespace Mukite

open WhileLoop

/-! ## Places behind a beginning -/

section Shift

variable {mem : Bytes} {k d : Nat}

theorem drop_tail (mem : Bytes) (k d : Nat) : mem.drop (k + d) = (mem.drop k).drop d :=
  List.drop_drop.symm

theorem getElem?_tail (mem : Bytes) (k i : Nat) : mem[k + i]? = (mem.drop k)[i]? :=
  List.getElem?_drop.symm

/-- What `xmlfsm_next_attr` reads depends on what is behind its place only. -/
theorem xmlfsmNextAttr_tail (mem : Bytes) (k d : Nat) : xmlfsmNextAttr mem (k + d)
    = (xmlfsmNextAttr (mem.drop k) d).map (fun r => (r.1.shift k, k + r.2)) := by
  unfold xmlfsmNextAttr
  simp only [Nat.add_assoc, drop_tail mem k, getElem?_tail mem k, Option.bind_eq_bind]
  generalize mem.drop k = tail
  cases skip whitespace (tail.drop d) with
  | none => rfl
  | some w =>
    simp only [Option.bind_some]
    cases tail[d + w]? with
    | none => rfl
    | some c =>
      simp only [Option.bind_some]
      split
      · rfl
      · split
        · rfl
        · cases skip (fun c => !whitespace c && c != ch '=') (tail.drop (d + w)) with
          | none => rfl
          | some n =>
            simp only [Option.bind_some]
            cases skip (fun c => c != quote2 && c != quote1) (tail.drop (d + (w + n))) with
            | none => rfl
            | some q =>
              simp only [Option.bind_some]
              cases tail[d + (w + (n + q))]? with
              | none => rfl
              | some quote =>
                simp only [Option.bind_some]
                cases skip (fun c => c != quote) (tail.drop (d + (w + (n + (q + 1))))) with
                | none => rfl
                | some v => rfl

theorem bytes_tail (mem : Bytes) (k : Nat) (s : Span) :
    (s.shift k).bytes mem = s.bytes (mem.drop k) := by
  show (mem.drop (k + s.data)).take (k + s.stop - (k + s.data)) = _
  rw [drop_tail, Nat.add_sub_add_left]
  rfl

theorem xmlfsmSkipNode_tail (mem : Bytes) (k : Nat) (s : Span) : xmlfsmSkipNode mem (s.shift k)
    = (xmlfsmSkipNode (mem.drop k) s).map (Option.map (k + ·)) := by
  have hshift : ∀ (bytes : Bytes), skipNodeLoop {} (k + s.data) bytes
      = (skipNodeLoop {} s.data bytes).map (k + ·) := by
    intro bytes
    have h := skipNodeLoop_shift k bytes {} s.data
    rw [SkipState.shift_start, Nat.add_comm] at h
    rw [h]
    simp only [Nat.add_comm]
  have hle : (s.shift k).data ≤ (s.shift k).stop ↔ s.data ≤ s.stop := Nat.add_le_add_iff_left
  unfold xmlfsmSkipNode
  by_cases h : s.data ≤ s.stop
  · rw [if_pos (hle.mpr h), if_pos h, bytes_tail]
    exact congrArg some (hshift _)
  · rw [if_neg (fun hs => h (hle.mp hs)), if_neg h]
    show (skipNodeLoop {} (k + s.data) (mem.drop (k + s.data))).map some = _
    rw [hshift, drop_tail]
    cases skipNodeLoop {} s.data ((mem.drop k).drop s.data) <;> rfl

theorem xmlfsmNodeName_tail (mem : Bytes) (k : Nat) (s : Span) : xmlfsmNodeName mem (s.shift k)
    = (xmlfsmNodeName (mem.drop k) s).map (fun r => (r.1.shift k, k + r.2)) := by
  unfold xmlfsmNodeName
  rw [bytes_tail]
  show ((s.bytes (mem.drop k)).findIdx? (· == ch '<')).bind _ = _
  cases (s.bytes (mem.drop k)).findIdx? (· == ch '<') with
  | none => rfl
  | some lt =>
    have hpos : (s.shift k).data + lt + 1 = k + (s.data + lt + 1) := by
      show k + s.data + lt + 1 = _
      omega
    simp only [Option.bind_some, Option.bind_eq_bind, hpos, drop_tail mem k, Option.pure_def]
    cases skip (fun c => !whitespace c && c != ch '>' && c != ch '/')
        ((mem.drop k).drop (s.data + lt + 1)) with
    | none => rfl
    | some n =>
      simp only [Option.bind_some, Option.map_some, Span.shift, Nat.add_assoc]

/-- The places in a node that stands `k` characters further on. -/
def XmlNodeTraverser.shift (k : Nat) (nodes : XmlNodeTraverser) : XmlNodeTraverser where
  buffer := nodes.buffer.shift k
  node := nodes.node.shift k
  nodeName := nodes.nodeName.shift k
  nodeStart := k + nodes.nodeStart

theorem xmlfsmNextSibling_tail (mem : Bytes) (k : Nat) (s : Span) :
    xmlfsmNextSibling mem (s.shift k)
      = (xmlfsmNextSibling (mem.drop k) s).map (Option.map (XmlNodeTraverser.shift k)) := by
  unfold xmlfsmNextSibling
  rw [xmlfsmSkipNode_tail]
  cases xmlfsmSkipNode (mem.drop k) s with
  | none => rfl
  | some found =>
    cases found with
    | none => rfl
    | some stop =>
      have hname := xmlfsmNodeName_tail mem k { data := s.data, stop := stop }
      show (xmlfsmNodeName mem { data := k + s.data, stop := k + stop }).bind _ = _
      rw [show xmlfsmNodeName mem { data := k + s.data, stop := k + stop } = _ from hname]
      show _ = ((xmlfsmNodeName (mem.drop k) { data := s.data, stop := stop }).bind _).map _
      cases xmlfsmNodeName (mem.drop k) { data := s.data, stop := stop } with
      | none => rfl
      | some r => rfl

end Shift

/-! ## Loops -/

section Loops

variable {mem₁ mem₂ : Bytes} {k₁ k₂ : Nat} {σ₁ σ₂ ρ₁ ρ₂ : Type} {R : σ₁ → σ₂ → Prop}
  {S : ρ₁ → ρ₂ → Prop}

/-- Two loops over attributes that end alike, `k₁` and `k₂` characters into their blocks. -/
def ExitsAlong (k₁ k₂ : Nat) (R : σ₁ → σ₂ → Prop) (S : ρ₁ → ρ₂ → Prop) :
    (AttrState × Nat × σ₁) ⊕ (ρ₁ × Nat) → (AttrState × Nat × σ₂) ⊕ (ρ₂ × Nat) → Prop :=
  Sum.LiftRel
    (fun x y => (∃ state d, (x.1 = AttrState.shift k₁ state ∧ y.1 = AttrState.shift k₂ state) ∧
      x.2.1 = k₁ + d ∧ y.2.1 = k₂ + d) ∧ R x.2.2 y.2.2)
    (fun x y => (∃ d, x.2 = k₁ + d ∧ y.2 = k₂ + d) ∧ S x.1 y.1)

/-- Loops over the attributes of the same text end alike. -/
theorem attrLoop_agree (htail : mem₁.drop k₁ = mem₂.drop k₂)
    {body₁ : σ₁ → XmlAttr → Option (σ₁ ⊕ ρ₁)} {body₂ : σ₂ → XmlAttr → Option (σ₂ ⊕ ρ₂)}
    (hbody : ∀ s t (attr : XmlAttr) x y, R s t → body₁ s (attr.shift k₁) = some x →
      body₂ t (attr.shift k₂) = some y → Sum.LiftRel R S x y)
    {d : Nat} {s : σ₁} {t : σ₂} {x : (AttrState × Nat × σ₁) ⊕ (ρ₁ × Nat)}
    {y : (AttrState × Nat × σ₂) ⊕ (ρ₂ × Nat)} (hR : R s t)
    (h₁ : attrLoop mem₁ body₁ (k₁ + d) s = some x)
    (h₂ : attrLoop mem₂ body₂ (k₂ + d) t = some y) : ExitsAlong k₁ k₂ R S x y := by
  unfold attrLoop at h₁ h₂
  refine whileLoop_agree (R := fun (x : Nat × σ₁) (y : Nat × σ₂) =>
    (∃ d, x.1 = k₁ + d ∧ y.1 = k₂ + d) ∧ R x.2 y.2) ?_ ⟨⟨d, rfl, rfl⟩, hR⟩ h₁ h₂
  rintro ⟨_, s⟩ ⟨_, t⟩ x y ⟨⟨d, rfl, rfl⟩, hR⟩ hx hy
  dsimp only at hx hy
  rw [xmlfsmNextAttr_tail] at hx hy
  rw [← htail] at hy
  cases hnext : xmlfsmNextAttr (mem₁.drop k₁) d with
  | none =>
    rw [hnext] at hx
    cases hx
  | some r =>
    obtain ⟨state, next⟩ := r
    rw [hnext] at hx hy
    simp only [Option.map_some, Option.bind_eq_bind, Option.bind_some] at hx hy
    cases state with
    | empty =>
      cases hx
      cases hy
      exact .inr (.inl ⟨⟨.empty, next, ⟨rfl, rfl⟩, rfl, rfl⟩, hR⟩)
    | noattr =>
      cases hx
      cases hy
      exact .inr (.inl ⟨⟨.noattr, next, ⟨rfl, rfl⟩, rfl, rfl⟩, hR⟩)
    | success attr =>
      obtain ⟨x₁, hx₁, hx⟩ := Option.bind_eq_some_iff.mp hx
      obtain ⟨y₁, hy₁, hy⟩ := Option.bind_eq_some_iff.mp hy
      cases hbody s t attr x₁ y₁ hR hx₁ hy₁ with
      | inl hs =>
        cases hx
        cases hy
        exact .inl ⟨⟨next, rfl, rfl⟩, hs⟩
      | inr hr =>
        cases hx
        cases hy
        exact .inr (.inr ⟨⟨next, rfl, rfl⟩, hr⟩)

/-- Loops over the nodes of the same text end alike. -/
theorem siblingLoop_agree (htail : mem₁.drop k₁ = mem₂.drop k₂)
    {body₁ : σ₁ → XmlNodeTraverser → Option (σ₁ ⊕ ρ₁)}
    {body₂ : σ₂ → XmlNodeTraverser → Option (σ₂ ⊕ ρ₂)}
    (hbody : ∀ s t (nodes : XmlNodeTraverser) x y, R s t → body₁ s (nodes.shift k₁) = some x →
      body₂ t (nodes.shift k₂) = some y → Sum.LiftRel R S x y)
    {buffer : Span} {s : σ₁} {t : σ₂} {x : σ₁ ⊕ ρ₁} {y : σ₂ ⊕ ρ₂} (hR : R s t)
    (h₁ : siblingLoop mem₁ body₁ (buffer.shift k₁) s = some x)
    (h₂ : siblingLoop mem₂ body₂ (buffer.shift k₂) t = some y) : Sum.LiftRel R S x y := by
  unfold siblingLoop at h₁ h₂
  refine whileLoop_agree (R := fun (x : Span × σ₁) (y : Span × σ₂) =>
    (∃ buffer : Span, x.1 = buffer.shift k₁ ∧ y.1 = buffer.shift k₂) ∧ R x.2 y.2) ?_
    ⟨⟨buffer, rfl, rfl⟩, hR⟩ h₁ h₂
  rintro ⟨_, s⟩ ⟨_, t⟩ x y ⟨⟨buffer, rfl, rfl⟩, hR⟩ hx hy
  dsimp only at hx hy
  rw [xmlfsmNextSibling_tail] at hx hy
  rw [← htail] at hy
  cases hnext : xmlfsmNextSibling (mem₁.drop k₁) buffer with
  | none =>
    rw [hnext] at hx
    cases hx
  | some found =>
    rw [hnext] at hx hy
    simp only [Option.map_some, Option.bind_eq_bind, Option.bind_some] at hx hy
    cases found with
    | none =>
      cases hx
      cases hy
      exact .inr (.inl hR)
    | some nodes =>
      obtain ⟨x₁, hx₁, hx⟩ := Option.bind_eq_some_iff.mp hx
      obtain ⟨y₁, hy₁, hy⟩ := Option.bind_eq_some_iff.mp hy
      cases hbody s t nodes x₁ y₁ hR hx₁ hy₁ with
      | inl hs =>
        cases hx
        cases hy
        exact .inl ⟨⟨nodes.buffer, rfl, rfl⟩, hs⟩
      | inr hr =>
        cases hx
        cases hy
        exact .inr (.inr hr)

end Loops

/-! ## What is read -/

section Nodes

variable {mem₁ mem₂ : Bytes} {k₁ k₂ d : Nat}

theorem size_shift (k : Nat) (s : Span) : (s.shift k).size = s.size := by
  unfold Span.size Span.shift
  dsimp only
  omega

/-! A place in the same text, `k₁` and `k₂` characters into two blocks. -/

theorem bytes_along (htail : mem₁.drop k₁ = mem₂.drop k₂) (s : Span) :
    (s.shift k₁).bytes mem₁ = (s.shift k₂).bytes mem₂ := by
  rw [bytes_tail, bytes_tail, htail]

theorem eqBin_along (htail : mem₁.drop k₁ = mem₂.drop k₂) (s : Span) (b : Bytes) :
    (s.shift k₁).eqBin mem₁ b = (s.shift k₂).eqBin mem₂ b := by
  unfold Span.eqBin
  rw [size_shift, size_shift, bytes_along htail]

theorem eqLit_along (htail : mem₁.drop k₁ = mem₂.drop k₂) (s : Span) (literal : String) :
    (s.shift k₁).eqLit mem₁ literal = (s.shift k₂).eqLit mem₂ literal :=
  eqBin_along htail s _

theorem copy_along (htail : mem₁.drop k₁ = mem₂.drop k₂) (s : Span) :
    (s.shift k₁).copy mem₁ = (s.shift k₂).copy mem₂ := by
  unfold Span.copy
  rw [bytes_along htail]
  simp only [Span.shift, Nat.add_lt_add_iff_left]

theorem xmlfsmSkipAttrs_along (htail : mem₁.drop k₁ = mem₂.drop k₂) {x y : Bool × Nat}
    (h₁ : xmlfsmSkipAttrs mem₁ (k₁ + d) = some x) (h₂ : xmlfsmSkipAttrs mem₂ (k₂ + d) = some y) :
    x.1 = y.1 ∧ ∃ d', x.2 = k₁ + d' ∧ y.2 = k₂ + d' := by
  obtain ⟨x', hx', h₁⟩ := Option.bind_eq_some_iff.mp h₁
  obtain ⟨y', hy', h₂⟩ := Option.bind_eq_some_iff.mp h₂
  have hagree := attrLoop_agree (R := fun _ _ => True) (S := fun _ _ => True) htail
    (fun _ _ _ x y _ hx hy => by
      cases hx
      cases hy
      exact .inl trivial) trivial hx' hy'
  cases hagree with
  | inr _ => exact Empty.elim ‹Empty × Nat›.1
  | @inl r s hr =>
    obtain ⟨⟨state, d', ⟨hs₁, hs₂⟩, hd₁, hd₂⟩, -⟩ := hr
    cases h₁
    cases h₂
    refine ⟨?_, d', hd₁, hd₂⟩
    dsimp only
    rw [hs₁, hs₂]
    cases state <;> rfl

theorem xmlfsmSkiptoAttr_along (htail : mem₁.drop k₁ = mem₂.drop k₂) {attrName : String}
    {x y : Option XmlAttr × Nat} (h₁ : xmlfsmSkiptoAttr mem₁ (k₁ + d) attrName = some x)
    (h₂ : xmlfsmSkiptoAttr mem₂ (k₂ + d) attrName = some y) :
    ∃ (found : Option XmlAttr) (d' : Nat), x = (found.map (XmlAttr.shift k₁), k₁ + d') ∧
      y = (found.map (XmlAttr.shift k₂), k₂ + d') := by
  obtain ⟨x', hx', h₁⟩ := Option.bind_eq_some_iff.mp h₁
  obtain ⟨y', hy', h₂⟩ := Option.bind_eq_some_iff.mp h₂
  have hagree := attrLoop_agree (R := fun _ _ => True)
    (S := fun a b => ∃ attr : XmlAttr, a = attr.shift k₁ ∧ b = attr.shift k₂) htail
    (fun s t attr x y _ hx hy => by
      have heq : (attr.shift k₁).name.eqLit mem₁ attrName = (attr.shift k₂).name.eqLit mem₂ attrName :=
        eqLit_along htail attr.name attrName
      rw [heq] at hx
      split at hx <;> split at hy
      · cases hx
        cases hy
        exact .inr ⟨attr, rfl, rfl⟩
      · next h h' => exact absurd h h'
      · next h h' => exact absurd h' h
      · cases hx
        cases hy
        exact .inl trivial) trivial hx' hy'
  cases hagree with
  | @inl r s hr =>
    obtain ⟨⟨state, d', -, hd₁, hd₂⟩, -⟩ := hr
    cases h₁
    cases h₂
    exact ⟨none, d', by rw [hd₁]; rfl, by rw [hd₂]; rfl⟩
  | @inr r s hr =>
    obtain ⟨⟨d', hd₁, hd₂⟩, attr, ha₁, ha₂⟩ := hr
    cases h₁
    cases h₂
    exact ⟨some attr, d', by rw [hd₁, ha₁]; rfl, by rw [hd₂, ha₂]; rfl⟩

theorem xmlfsmSkiptoNode_along (htail : mem₁.drop k₁ = mem₂.drop k₂) {buffer : Span}
    {nodeName : String} {x y : Option Span}
    (h₁ : xmlfsmSkiptoNode mem₁ (buffer.shift k₁) nodeName = some x)
    (h₂ : xmlfsmSkiptoNode mem₂ (buffer.shift k₂) nodeName = some y) :
    ∃ found : Option Span, x = found.map (Span.shift k₁) ∧ y = found.map (Span.shift k₂) := by
  obtain ⟨x', hx', h₁⟩ := Option.bind_eq_some_iff.mp h₁
  obtain ⟨y', hy', h₂⟩ := Option.bind_eq_some_iff.mp h₂
  have hagree := siblingLoop_agree (R := fun _ _ => True)
    (S := fun a b => ∃ s : Span, a = s.shift k₁ ∧ b = s.shift k₂) htail
    (fun s t nodes x y _ hx hy => by
      have heq : (nodes.shift k₁).nodeName.eqLit mem₁ nodeName
          = (nodes.shift k₂).nodeName.eqLit mem₂ nodeName := eqLit_along htail nodes.nodeName nodeName
      rw [heq] at hx
      split at hx <;> split at hy
      · cases hx
        cases hy
        exact .inr ⟨{ data := nodes.nodeStart, stop := nodes.node.stop }, rfl, rfl⟩
      · next h h' => exact absurd h h'
      · next h h' => exact absurd h' h
      · cases hx
        cases hy
        exact .inl trivial) trivial hx' hy'
  cases hagree with
  | inl _ =>
    cases h₁
    cases h₂
    exact ⟨none, rfl, rfl⟩
  | inr hr =>
    obtain ⟨s, rfl, rfl⟩ := hr
    cases h₁
    cases h₂
    exact ⟨some s, rfl, rfl⟩

end Nodes

end Mukite
