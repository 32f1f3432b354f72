import Mukite.Properties.Readdressed
import Mukite.Room.Route

/-!
# What a room reads of a stanza from another sender

Everything a room does with a stanza depends on its name, its type, its receiver and on what stands
behind the header: the payload, the subject, the password, whether a query asks for a vCard. So a
room handles two stanzas alike that differ in their sender only (`SameButSender.alike`), as far as
it does not look at the sender itself.
-/

namespace Mukite

open HeaderPiece WhileLoop

/-! ## Behind the header -/

section Tail

variable {mem mem₁ mem₂ : Bytes} {k k₁ k₂ : Nat}

/-- There are no nodes in nothing. -/
theorem xmlfsmNextSibling_of_none (mem : Bytes) : xmlfsmNextSibling mem (spanOf none) = some none := by
  unfold xmlfsmNextSibling xmlfsmSkipNode
  rw [if_pos (show (spanOf none).data ≤ (spanOf none).stop from Nat.le_refl 0)]
  rfl

theorem siblingLoop_none {σ ρ : Type} (mem : Bytes)
    (body : σ → XmlNodeTraverser → Option (σ ⊕ ρ)) (s : σ) :
    siblingLoop mem body (spanOf none) s = some (.inl s) := by
  unfold siblingLoop rounds
  rw [whileLoop, xmlfsmNextSibling_of_none]
  rfl

theorem memcpy_tail (hk : k ≤ mem.length) (d : Nat) (b : Bytes) :
    (memcpy mem (k + d) b).drop k = memcpy (mem.drop k) d b := by
  have htake : k ≤ (mem.take (k + d)).length := by
    rw [List.length_take]
    omega
  unfold memcpy
  rw [List.append_assoc, List.append_assoc, List.drop_append_of_le_length htake, List.drop_take,
    Nat.add_sub_cancel_left, List.drop_drop, Nat.add_assoc]

theorem le_length_memcpy (hk : k ≤ mem.length) (d : Nat) (b : Bytes) :
    k ≤ (memcpy mem (k + d) b).length := by
  unfold memcpy
  rw [List.length_append, List.length_append, List.length_take]
  omega

theorem blankNode_tail (hk : k ≤ mem.length) (s : Option Span) :
    (blankNode mem (s.map (Span.shift k))).drop k = blankNode (mem.drop k) s ∧
      k ≤ (blankNode mem (s.map (Span.shift k))).length := by
  cases s with
  | none => exact ⟨rfl, hk⟩
  | some s =>
    have hsize : (s.shift k).stop - (s.shift k).data = s.stop - s.data :=
      Nat.add_sub_add_left _ _ _
    refine ⟨?_, le_length_memcpy hk _ _⟩
    show (memcpy mem (k + s.data) (List.replicate ((s.shift k).stop - (s.shift k).data) _)).drop k
      = _
    rw [hsize, memcpy_tail hk]
    rfl

end Tail

/-- Behind their headers two stanzas are the same, and what has been found there lies at the same
places. -/
structure SameBehind (i₁ i₂ : IncomingPacket) : Prop where
  tail : i₁.mem.drop i₁.header.stop = i₂.mem.drop i₂.header.stop
  inner : ∃ s : Option Span, i₁.inner = s.map (Span.shift i₁.header.stop) ∧
    i₂.inner = s.map (Span.shift i₂.header.stop)
  muc : ∃ s : Option Span, i₁.muc = s.map (Span.shift i₁.header.stop) ∧
    i₂.muc = s.map (Span.shift i₂.header.stop)
  mucUser : ∃ s : Option Span, i₁.mucUser = s.map (Span.shift i₁.header.stop) ∧
    i₂.mucUser = s.map (Span.shift i₂.header.stop)

section Behind

variable {i₁ i₂ : IncomingPacket} {before after : List AttrText} {a₁ a₂ : AttrText}

/-- A payload that can be copied does not end before it starts. -/
theorem inner_le {ingress : IncomingPacket} {inner : Span} (hdef : ingress.innerBytes.isSome)
    (hinner : ingress.inner = some inner) : inner.data ≤ inner.stop := by
  unfold IncomingPacket.innerBytes Span.copy at hdef
  rw [hinner] at hdef
  by_contra hlt
  simp [Nat.not_le.mp hlt] at hdef

theorem Aligned.inner (h : Aligned i₁.mem i₂.mem i₁ i₂ before a₁ a₂ after)
    (hacc₁ : Accepted i₁) (hacc₂ : Accepted i₂) (hdef₁ : i₁.innerBytes.isSome)
    (hdef₂ : i₂.innerBytes.isSome) : ∃ s : Option Span,
      i₁.inner = s.map (Span.shift i₁.header.stop) ∧
        i₂.inner = s.map (Span.shift i₂.header.stop) := by
  obtain ⟨word, hword₁, hword₂⟩ := h.word
  obtain ⟨word₁, hw₁, -, state₁, next₁, hnext₁, hend₁, hinner₁⟩ := h.read₁.name
  obtain ⟨word₂, hw₂, -, state₂, next₂, hnext₂, hend₂, hinner₂⟩ := h.read₂.name
  obtain rfl : word = word₁ := congrArg Prod.fst (Option.some.inj (hword₁.symm.trans hw₁))
  obtain rfl : word = word₂ := congrArg Prod.fst (Option.some.inj (hword₂.symm.trans hw₂))
  have hlen₁ := hacc₁.headerLaid.1.header.2
  have hlen₂ := hacc₂.headerLaid.1.header.2
  have hsize : i₁.mem.length - i₁.header.stop = i₂.mem.length - i₂.header.stop := by
    rw [← List.length_drop, ← List.length_drop, h.tail]
  rw [← Nat.add_zero i₁.header.stop, xmlfsmNextAttr_tail] at hnext₁
  rw [← Nat.add_zero i₂.header.stop, xmlfsmNextAttr_tail, ← h.tail] at hnext₂
  obtain ⟨⟨state, d⟩, hr, he₁⟩ := Option.map_eq_some_iff.mp hnext₁
  obtain ⟨r₂, hr₂, he₂⟩ := Option.map_eq_some_iff.mp hnext₂
  obtain rfl : (state, d) = r₂ := Option.some.inj (hr.symm.trans hr₂)
  cases he₁
  cases he₂
  cases state with
  | success attr => rcases hend₁ with he | he <;> cases he
  | empty => exact ⟨none, hinner₁, hinner₂⟩
  | noattr =>
    have hle₁ := inner_le hdef₁ hinner₁
    have hle₂ := inner_le hdef₂ hinner₂
    dsimp only at hle₁ hle₂
    obtain ⟨stop, hstop⟩ :
      ∃ stop, stop = i₁.mem.length - i₁.header.stop - (word.stop - word.data) - 3 := ⟨_, rfl⟩
    have hstop₁ : i₁.mem.length - (word.stop - word.data) - 3 = i₁.header.stop + stop := by omega
    have hstop₂ : i₂.mem.length - (word.stop - word.data) - 3 = i₂.header.stop + stop := by omega
    refine ⟨some { data := d, stop := stop }, ?_, ?_⟩
    · rw [hinner₁, hstop₁]
      rfl
    · rw [hinner₂, hstop₂]
      rfl

/-- Two packets with the same nodes found. -/
structure FoundAlong (mem₁ mem₂ : Bytes) (k₁ k₂ : Nat) (p₁ p₂ : IncomingPacket) : Prop where
  memory₁ : p₁.mem = mem₁
  memory₂ : p₂.mem = mem₂
  muc : ∃ s : Option Span, p₁.muc = s.map (Span.shift k₁) ∧ p₂.muc = s.map (Span.shift k₂)
  mucUser : ∃ s : Option Span, p₁.mucUser = s.map (Span.shift k₁) ∧
    p₂.mucUser = s.map (Span.shift k₂)

theorem presenceChild_along {mem₁ mem₂ : Bytes} {k₁ k₂ : Nat} {p₁ p₂ : IncomingPacket}
    (htail : mem₁.drop k₁ = mem₂.drop k₂) (h : FoundAlong mem₁ mem₂ k₁ k₂ p₁ p₂)
    (nodes : XmlNodeTraverser) {x y : IncomingPacket ⊕ Unit}
    (hx : presenceChild p₁ (nodes.shift k₁) = some x)
    (hy : presenceChild p₂ (nodes.shift k₂) = some y) :
    Sum.LiftRel (FoundAlong mem₁ mem₂ k₁ k₂) (fun _ _ => True) x y := by
  obtain ⟨rfl, rfl, hmuc, huser⟩ := h
  have hsame : FoundAlong p₁.mem p₂.mem k₁ k₂ p₁ p₂ := ⟨rfl, rfl, hmuc, huser⟩
  have hisSome : ∀ {u v : Option Span}, (∃ s : Option Span, u = s.map (Span.shift k₁) ∧
      v = s.map (Span.shift k₂)) → u.isSome = v.isSome := by
    rintro u v ⟨s, rfl, rfl⟩
    cases s <;> rfl
  unfold presenceChild at hx hy
  have hname : (nodes.shift k₁).nodeName.eqLit p₁.mem "x"
      = (nodes.shift k₂).nodeName.eqLit p₂.mem "x" := eqLit_along htail nodes.nodeName "x"
  rw [hname] at hx
  split at hx
  · next hne =>
    rw [if_pos hne] at hy
    cases hx
    cases hy
    exact .inl hsame
  · next hne =>
    rw [if_neg hne] at hy
    obtain ⟨⟨attr₁, d₁⟩, ha₁, hx⟩ := Option.bind_eq_some_iff.mp hx
    obtain ⟨⟨attr₂, d₂⟩, ha₂, hy⟩ := Option.bind_eq_some_iff.mp hy
    obtain ⟨found, d, he₁, he₂⟩ := xmlfsmSkiptoAttr_along htail
      (show xmlfsmSkiptoAttr p₁.mem (k₁ + nodes.node.data) "xmlns" = _ from ha₁)
      (show xmlfsmSkiptoAttr p₂.mem (k₂ + nodes.node.data) "xmlns" = _ from ha₂)
    cases he₁
    cases he₂
    cases found with
    | none =>
      cases hx
      cases hy
      exact .inl hsame
    | some attr =>
      simp only [Option.map_some] at hx hy
      have hvalue : ∀ word : String, (attr.shift k₁).value.eqLit p₁.mem word
          = (attr.shift k₂).value.eqLit p₂.mem word := eqLit_along htail attr.value
      rw [hvalue, hvalue, hisSome huser, hisSome hmuc] at hx
      split at hx
      · next huserAttr =>
        rw [if_pos huserAttr] at hy
        split at hx
        · next hdup =>
          rw [if_pos hdup] at hy
          cases hx
          cases hy
          exact .inr trivial
        · next hdup =>
          rw [if_neg hdup] at hy
          cases hx
          cases hy
          exact .inl ⟨rfl, rfl, hmuc,
            some { data := nodes.nodeStart, stop := nodes.node.stop }, rfl, rfl⟩
      · next huserAttr =>
        rw [if_neg huserAttr] at hy
        split at hx
        · next hmucAttr =>
          rw [if_pos hmucAttr] at hy
          split at hx
          · next hdup =>
            rw [if_pos hdup] at hy
            cases hx
            cases hy
            exact .inr trivial
          · next hdup =>
            rw [if_neg hdup] at hy
            cases hx
            cases hy
            exact .inl ⟨rfl, rfl,
              ⟨some { data := nodes.nodeStart, stop := nodes.node.stop }, rfl, rfl⟩, huser⟩
        · next hmucAttr =>
          rw [if_neg hmucAttr] at hy
          cases hx
          cases hy
          exact .inl hsame

/-- What the search for `<x/>` nodes starts from. -/
theorem presence_parsed {mem : Bytes} {ingress : IncomingPacket}
    (h : packetParse mem = some (some ingress)) (hname : ingress.name = .presence) :
    parsePresenceInner { ingress with muc := none, mucUser := none } = some (some ingress) := by
  obtain ⟨packet, hp, -, ⟨-, hpre⟩ | ⟨hne, rfl⟩⟩ := packetParse_spec h
  · obtain ⟨muc, mucUser, rfl⟩ := parsePresenceInner_eq hpre
    obtain ⟨hmuc, huser⟩ := hp.found
    have heq : { packet with muc := none, mucUser := none } = packet := by
      cases packet
      cases hmuc
      cases huser
      rfl
    rw [← heq] at hpre
    exact hpre
  · exact absurd hname hne

theorem found_along (htail : i₁.mem.drop i₁.header.stop = i₂.mem.drop i₂.header.stop)
    {s : Option Span} (hs₁ : i₁.inner = s.map (Span.shift i₁.header.stop))
    (hs₂ : i₂.inner = s.map (Span.shift i₂.header.stop))
    (h₁ : parsePresenceInner { i₁ with muc := none, mucUser := none } = some (some i₁))
    (h₂ : parsePresenceInner { i₂ with muc := none, mucUser := none } = some (some i₂)) :
    FoundAlong i₁.mem i₂.mem i₁.header.stop i₂.header.stop i₁ i₂ := by
  have hstart : FoundAlong i₁.mem i₂.mem i₁.header.stop i₂.header.stop
      { i₁ with muc := none, mucUser := none } { i₂ with muc := none, mucUser := none } :=
    ⟨rfl, rfl, ⟨none, rfl, rfl⟩, none, rfl, rfl⟩
  unfold parsePresenceInner at h₁ h₂
  obtain ⟨x, hx, h₁⟩ := Option.bind_eq_some_iff.mp h₁
  obtain ⟨y, hy, h₂⟩ := Option.bind_eq_some_iff.mp h₂
  have hrel : Sum.LiftRel (FoundAlong i₁.mem i₂.mem i₁.header.stop i₂.header.stop)
      (fun _ _ => True) x y := by
    dsimp only at hx hy
    rw [show spanOf i₁.inner = _ from congrArg spanOf hs₁] at hx
    rw [show spanOf i₂.inner = _ from congrArg spanOf hs₂] at hy
    cases s with
    | none =>
      rw [Option.map_none, siblingLoop_none] at hx hy
      cases hx
      cases hy
      exact .inl hstart
    | some s =>
      exact siblingLoop_agree htail (fun p₁ p₂ nodes x y h hx hy =>
        presenceChild_along htail h nodes hx hy) hstart hx hy
  cases hrel with
  | inl h =>
    cases h₁
    cases h₂
    exact h
  | inr _ => cases h₁

/-- **What stands behind the header does not depend on the sender.** -/
theorem SameButSender.behind (h : SameButSender i₁ i₂) (hdef₁ : i₁.innerBytes.isSome)
    (hdef₂ : i₂.innerBytes.isSome) : SameBehind i₁ i₂ := by
  obtain ⟨front, rest, sender₁, sender₂, ⟨hparsed₁, -⟩, ⟨hparsed₂, -⟩⟩ := id h
  obtain ⟨before, a₁, a₂, after, ha⟩ := h.aligned
  have hacc₁ : Accepted i₁ := ⟨_, hparsed₁⟩
  have hacc₂ : Accepted i₂ := ⟨_, hparsed₂⟩
  obtain ⟨s, hs₁, hs₂⟩ := ha.inner hacc₁ hacc₂ hdef₁ hdef₂
  by_cases hname : i₁.name = .presence
  · have hfound := found_along ha.tail hs₁ hs₂ (presence_parsed hparsed₁ hname)
      (presence_parsed hparsed₂ (ha.name ▸ hname))
    exact ⟨ha.tail, ⟨s, hs₁, hs₂⟩, hfound.muc, hfound.mucUser⟩
  · obtain ⟨hmuc₁, huser₁⟩ := hacc₁.found_none hname
    obtain ⟨hmuc₂, huser₂⟩ := hacc₂.found_none (ha.name ▸ hname)
    exact ⟨ha.tail, ⟨s, hs₁, hs₂⟩, ⟨none, hmuc₁, hmuc₂⟩, none, huser₁, huser₂⟩

/-! ## What the room reads of it -/

theorem SameBehind.payload (h : SameBehind i₁ i₂) : i₁.innerBytes = i₂.innerBytes := by
  obtain ⟨s, hs₁, hs₂⟩ := h.inner
  unfold IncomingPacket.innerBytes
  rw [hs₁, hs₂]
  cases s with
  | none => rfl
  | some s => exact congrArg (Option.map some) (copy_along h.tail s)

theorem SameBehind.blanked (h : SameBehind i₁ i₂) (hlen₁ : i₁.header.stop ≤ i₁.mem.length)
    (hlen₂ : i₂.header.stop ≤ i₂.mem.length) :
    (blankedMem i₁).drop i₁.header.stop = (blankedMem i₂).drop i₂.header.stop := by
  obtain ⟨muc, hmuc₁, hmuc₂⟩ := h.muc
  obtain ⟨user, huser₁, huser₂⟩ := h.mucUser
  obtain ⟨hm₁, hl₁⟩ := blankNode_tail hlen₁ muc
  obtain ⟨hm₂, hl₂⟩ := blankNode_tail hlen₂ muc
  unfold blankedMem
  rw [hmuc₁, hmuc₂, huser₁, huser₂, (blankNode_tail hl₁ user).1, (blankNode_tail hl₂ user).1, hm₁,
    hm₂, h.tail]

/-- Behind the header a clean-up blanks the nodes that have been found. -/
theorem Accepted.cleaned_tail {ingress : IncomingPacket} (h : Accepted ingress)
    (hdef : ingress.innerBytes.isSome) (mode : Nat) :
    (packetCleanup ingress mode).mem.drop ingress.header.stop
      = (blankedMem ingress).drop ingress.header.stop :=
  (packetCleanup_editedBelow h.headerLaid.1 mode (h.blankedMem_front hdef).1).drop

/-- Two stanzas that are the same behind their headers still are after a clean-up. -/
theorem SameBehind.cleaned (h : SameBehind i₁ i₂) (hacc₁ : Accepted i₁) (hacc₂ : Accepted i₂)
    (hdef₁ : i₁.innerBytes.isSome) (hdef₂ : i₂.innerBytes.isSome) (mode : Nat) :
    SameBehind (packetCleanup i₁ mode) (packetCleanup i₂ mode) := by
  refine ⟨?_, h.inner, h.muc, h.mucUser⟩
  show (packetCleanup i₁ mode).mem.drop i₁.header.stop
    = (packetCleanup i₂ mode).mem.drop i₂.header.stop
  rw [hacc₁.cleaned_tail hdef₁, hacc₂.cleaned_tail hdef₂]
  exact h.blanked hacc₁.headerLaid.1.header.2 hacc₂.headerLaid.1.header.2

theorem SameBehind.subject (h : SameBehind i₁ i₂) {x y : Option Span}
    (hx : getSubjectNode i₁ = some x) (hy : getSubjectNode i₂ = some y) :
    ∃ s : Option Span, x = s.map (Span.shift i₁.header.stop) ∧
      y = s.map (Span.shift i₂.header.stop) := by
  obtain ⟨s, hs₁, hs₂⟩ := h.inner
  unfold getSubjectNode at hx hy
  rw [hs₁] at hx
  rw [hs₂] at hy
  cases s with
  | none =>
    unfold xmlfsmSkiptoNode at hx hy
    dsimp only at hx hy
    rw [Option.map_none, siblingLoop_none] at hx hy
    cases hx
    cases hy
    exact ⟨none, rfl, rfl⟩
  | some s => exact xmlfsmSkiptoNode_along h.tail hx hy

theorem SameBehind.vcard (h : SameBehind i₁ i₂) (htype : i₁.type = i₂.type) {x y : Bool}
    (hx : asksForVcard i₁ = some x) (hy : asksForVcard i₂ = some y) : x = y := by
  obtain ⟨s, hs₁, hs₂⟩ := h.inner
  unfold asksForVcard at hx hy
  rw [htype, hs₁] at hx
  rw [hs₂] at hy
  split at hx
  · next hget =>
    rw [if_pos hget] at hy
    exact Option.some.inj (hx.symm.trans hy)
  · next hget =>
    rw [if_neg hget] at hy
    cases s with
    | none =>
      rw [Option.map_none, xmlfsmNextSibling_of_none] at hx hy
      exact Option.some.inj (hx.symm.trans hy)
    | some s =>
      have htail := h.tail
      have hn₁ : xmlfsmNextSibling i₁.mem (s.shift i₁.header.stop) = _ :=
        xmlfsmNextSibling_tail _ _ _
      have hn₂ : xmlfsmNextSibling i₂.mem (s.shift i₂.header.stop) = _ :=
        xmlfsmNextSibling_tail _ _ _
      rw [show spanOf ((some s).map (Span.shift i₁.header.stop)) = s.shift i₁.header.stop from rfl,
        hn₁] at hx
      rw [show spanOf ((some s).map (Span.shift i₂.header.stop)) = s.shift i₂.header.stop from rfl,
        hn₂, ← htail] at hy
      cases hfound : xmlfsmNextSibling (i₁.mem.drop i₁.header.stop) s with
      | none =>
        rw [hfound] at hx
        cases hx
      | some found =>
        rw [hfound] at hx hy
        cases found with
        | none => exact Option.some.inj (hx.symm.trans hy)
        | some nodes =>
          have heq : (nodes.shift i₁.header.stop).nodeName.eqLit i₁.mem "vCard"
              = (nodes.shift i₂.header.stop).nodeName.eqLit i₂.mem "vCard" :=
            eqLit_along htail nodes.nodeName "vCard"
          simp only [Option.map_some, Option.bind_eq_bind, Option.bind_some, Option.pure_def,
            Option.some.injEq] at hx hy
          rw [← hx, ← hy, heq]

end Behind

/-! ## The password -/

/-- A text node without its end tag. -/
def passwordSpan (s : Span) : Span := { s with stop := s.stop - endTagSize "password" }

/-- Two nodes with the same password. -/
def PasswordAlong (k₁ k₂ : Nat) (m₁ m₂ : MucNode) : Prop :=
  ∃ s : Option Span, m₁.password = s.map (fun s => passwordSpan (s.shift k₁)) ∧
    m₂.password = s.map (fun s => passwordSpan (s.shift k₂))

theorem passwordAlong_same {m₁ m₂ m₁' m₂' : MucNode} {k₁ k₂ : Nat} (h : PasswordAlong k₁ k₂ m₁ m₂)
    (h₁ : m₁'.password = m₁.password) (h₂ : m₂'.password = m₂.password) :
    PasswordAlong k₁ k₂ m₁' m₂' := by
  obtain ⟨s, hs₁, hs₂⟩ := h
  exact ⟨s, h₁.trans hs₁, h₂.trans hs₂⟩

theorem historyAttr_password (mem : Bytes) (m : MucNode) (attr : XmlAttr) :
    (historyAttr mem m attr).password = m.password := by
  unfold historyAttr
  split
  · rfl
  · split
    · rfl
    · split <;> rfl

/-- The attributes of `<history/>` leave the password alone. -/
theorem historyLoop_password {mem : Bytes} {data : Nat} {m : MucNode}
    {x : (AttrState × Nat × MucNode) ⊕ (Empty × Nat)}
    (h : attrLoop (ρ := Empty) mem (fun m attr => some (.inl (historyAttr mem m attr))) data m
      = some x) : ∀ r, x = .inl r → r.2.2.password = m.password := by
  have hrule := attrLoop_rule (I := fun m' => m'.password = m.password) (Q := fun _ => True)
    (fun s attr s' hs hb => by
      cases hb
      exact (historyAttr_password mem s attr).trans hs)
    (fun _ _ _ _ _ => trivial) rfl h
  rintro r rfl
  exact hrule

section Password

variable {mem₁ mem₂ : Bytes} {k₁ k₂ : Nat}

theorem mucChild_along (htail : mem₁.drop k₁ = mem₂.drop k₂) {m₁ m₂ : MucNode}
    (h : PasswordAlong k₁ k₂ m₁ m₂) (nodes : XmlNodeTraverser) {x y : MucNode}
    (hx : mucChild mem₁ m₁ (nodes.shift k₁) = some x)
    (hy : mucChild mem₂ m₂ (nodes.shift k₂) = some y) : PasswordAlong k₁ k₂ x y := by
  have hname : ∀ word : String, (nodes.shift k₁).nodeName.eqLit mem₁ word
      = (nodes.shift k₂).nodeName.eqLit mem₂ word := eqLit_along htail nodes.nodeName
  unfold mucChild at hx hy
  rw [hname, hname] at hx
  split at hx
  · next hpassword =>
    rw [if_pos hpassword] at hy
    obtain ⟨⟨content₁, d₁⟩, hs₁, hx⟩ := Option.bind_eq_some_iff.mp hx
    obtain ⟨⟨content₂, d₂⟩, hs₂, hy⟩ := Option.bind_eq_some_iff.mp hy
    obtain ⟨hcontent, d, hd₁, hd₂⟩ := xmlfsmSkipAttrs_along htail
      (show xmlfsmSkipAttrs mem₁ (k₁ + nodes.node.data) = _ from hs₁)
      (show xmlfsmSkipAttrs mem₂ (k₂ + nodes.node.data) = _ from hs₂)
    dsimp only at hcontent hd₁ hd₂ hx hy
    subst hcontent hd₁ hd₂
    split at hx
    · next hc =>
      rw [if_pos hc] at hy
      cases hx
      cases hy
      exact ⟨some { data := d, stop := nodes.node.stop }, rfl, rfl⟩
    · next hc =>
      rw [if_neg hc] at hy
      cases hx
      cases hy
      exact h
  · next hpassword =>
    rw [if_neg hpassword] at hy
    split at hx
    · next hhistory =>
      rw [if_pos hhistory] at hy
      obtain ⟨r₁, hr₁, hx⟩ := Option.bind_eq_some_iff.mp hx
      obtain ⟨r₂, hr₂, hy⟩ := Option.bind_eq_some_iff.mp hy
      cases r₁ with
      | inr r => exact nomatch r.1
      | inl r₁ =>
        cases r₂ with
        | inr r => exact nomatch r.1
        | inl r₂ =>
          cases hx
          cases hy
          exact passwordAlong_same h (historyLoop_password hr₁ _ rfl)
            (historyLoop_password hr₂ _ rfl)
    · next hhistory =>
      rw [if_neg hhistory] at hy
      cases hx
      cases hy
      exact h

theorem parseMucNode_along (htail : mem₁.drop k₁ = mem₂.drop k₂) {s : Option Span} {x y : MucNode}
    (hx : parseMucNode mem₁ (s.map (Span.shift k₁)) = some x)
    (hy : parseMucNode mem₂ (s.map (Span.shift k₂)) = some y) : PasswordAlong k₁ k₂ x y := by
  have hstart : PasswordAlong k₁ k₂ {} {} := ⟨none, rfl, rfl⟩
  unfold parseMucNode at hx hy
  cases s with
  | none =>
    cases hx
    cases hy
    exact hstart
  | some s =>
    dsimp only [Option.map_some] at hx hy
    have hempty : ∀ k, (s.shift k).stop = (s.shift k).data ↔ s.stop = s.data := by
      intro k
      show k + s.stop = k + s.data ↔ _
      exact Nat.add_left_cancel_iff
    by_cases hs : s.stop = s.data
    · rw [if_pos ((hempty k₁).mpr hs)] at hx
      rw [if_pos ((hempty k₂).mpr hs)] at hy
      cases hx
      cases hy
      exact hstart
    · rw [if_neg (fun h => hs ((hempty k₁).mp h)), xmlfsmNodeName_tail] at hx
      rw [if_neg (fun h => hs ((hempty k₂).mp h)), xmlfsmNodeName_tail, ← htail] at hy
      cases hname : xmlfsmNodeName (mem₁.drop k₁) s with
      | none =>
        rw [hname] at hx
        cases hx
      | some r =>
        rw [hname] at hx hy
        simp only [Option.map_some, Option.bind_eq_bind, Option.bind_some] at hx hy
        obtain ⟨⟨content₁, d₁⟩, hs₁, hx⟩ := Option.bind_eq_some_iff.mp hx
        obtain ⟨⟨content₂, d₂⟩, hs₂, hy⟩ := Option.bind_eq_some_iff.mp hy
        obtain ⟨hcontent, d, hd₁, hd₂⟩ := xmlfsmSkipAttrs_along htail hs₁ hs₂
        dsimp only at hcontent hd₁ hd₂ hx hy
        subst hcontent hd₁ hd₂
        split at hx
        · next hc =>
          rw [if_pos hc] at hy
          cases hx
          cases hy
          exact hstart
        · next hc =>
          rw [if_neg hc] at hy
          obtain ⟨u, hu, hx⟩ := Option.bind_eq_some_iff.mp hx
          obtain ⟨v, hv, hy⟩ := Option.bind_eq_some_iff.mp hy
          have hrel : Sum.LiftRel (PasswordAlong k₁ k₂) (fun (_ _ : Empty) => True) u v := by
            refine siblingLoop_agree htail ?_ hstart
              (show siblingLoop mem₁ _ (Span.shift k₁ { data := d, stop := s.stop }) {} = some u
                from hu)
              (show siblingLoop mem₂ _ (Span.shift k₂ { data := d, stop := s.stop }) {} = some v
                from hv)
            intro m₁ m₂ nodes x y h hx hy
            obtain ⟨x', hx', rfl⟩ := Option.map_eq_some_iff.mp hx
            obtain ⟨y', hy', rfl⟩ := Option.map_eq_some_iff.mp hy
            exact .inl (mucChild_along htail h nodes hx' hy')
          cases hrel with
          | inl h =>
            cases hx
            cases hy
            exact h
          | inr _ => exact nomatch ‹Empty›

theorem passwordSpan_eqBin (htail : mem₁.drop k₁ = mem₂.drop k₂) (hk₁ : 11 ≤ k₁) (hk₂ : 11 ≤ k₂)
    (s : Span) (b : Bytes) : (passwordSpan (s.shift k₁)).eqBin mem₁ b
      = (passwordSpan (s.shift k₂)).eqBin mem₂ b := by
  have heleven : endTagSize "password" = 11 := by decide
  have hsize : ∀ k, 11 ≤ k → (passwordSpan (s.shift k)).size = (s.stop : Int) - 11 - s.data := by
    intro k hk
    unfold passwordSpan Span.size Span.shift
    rw [heleven]
    dsimp only
    omega
  have hbytes : ∀ (mem : Bytes) k, (passwordSpan (s.shift k)).bytes mem
      = ((mem.drop k).drop s.data).take (s.stop - 11 - s.data) := by
    intro mem k
    unfold passwordSpan Span.bytes Span.shift
    rw [heleven, List.drop_drop]
    dsimp only
    congr 1
    omega
  unfold Span.eqBin
  rw [hsize k₁ hk₁, hsize k₂ hk₂, hbytes, hbytes, htail]

/-- **Both nodes have the password, or none has.** -/
theorem PasswordAlong.any_eqBin {m₁ m₂ : MucNode} (h : PasswordAlong k₁ k₂ m₁ m₂)
    (htail : mem₁.drop k₁ = mem₂.drop k₂) (hk₁ : 11 ≤ k₁) (hk₂ : 11 ≤ k₂) (b : Bytes) :
    m₁.password.any (fun s => s.eqBin mem₁ b) = m₂.password.any (fun s => s.eqBin mem₂ b) := by
  obtain ⟨s, hs₁, hs₂⟩ := h
  rw [hs₁, hs₂]
  cases s with
  | none => rfl
  | some s => exact passwordSpan_eqBin htail hk₁ hk₂ s b

end Password

/-- The header of a presence takes more room than the end tag of a password. -/
theorem StanzaRead.presence_stop {mem : Bytes} {before after : List AttrText} {a : AttrText}
    {ingress : IncomingPacket} (h : StanzaRead mem (before ++ a :: after) ingress)
    (hname : ingress.name = .presence) (ha : a.name = lit "from") : 11 ≤ ingress.header.stop := by
  obtain ⟨word, hword, hkind, -⟩ := h.name
  have hstop := xmlfsmNodeName_stop hword
  have heq : word.eqLit mem "presence" = true := by
    rw [hname] at hkind
    unfold stanzaNameOf at hkind
    split at hkind
    · cases hkind
    · split at hkind
      · assumption
      · split at hkind <;> cases hkind
  unfold Span.eqLit Span.eqBin at heq
  rw [Bool.and_eq_true, beq_iff_eq] at heq
  have height : (lit "presence").length = 8 := by decide
  have hfour : a.name.length = 4 := by
    rw [ha]
    decide
  have hsize := heq.1
  unfold Span.size at hsize
  rw [height] at hsize
  rw [h.read.header]
  dsimp only
  rw [attrsText_append, attrsText_cons, List.length_append, List.length_append,
    AttrText.length_text]
  omega

/-! ## The result -/

/-- A stanza as it is passed on. -/
def passedOn (ingress : IncomingPacket) : IncomingPacket :=
  packetCleanup ingress (packetCleanupFrom ||| packetCleanupTo)

/-- What a room reads and sends of two stanzas is the same, but for blanks in the header. -/
structure SameContent (i₁ i₂ : IncomingPacket) : Prop where
  header : ∃ (front back : Bytes) (m n : Nat),
    (passedOn i₁).headerBytes = front ++ List.replicate m (ch ' ') ++ back ∧
      (passedOn i₂).headerBytes = front ++ List.replicate n (ch ' ') ++ back
  payload : i₁.innerBytes = i₂.innerBytes
  passedOn : (passedOn i₁).innerBytes = (passedOn i₂).innerBytes
  subject : ∀ x y, getSubjectNode i₁ = some x → getSubjectNode i₂ = some y →
    x.map Span.size = y.map Span.size ∧ x.map (Span.copy i₁.mem) = y.map (Span.copy i₂.mem)
  vcard : ∀ x y, asksForVcard (Mukite.passedOn i₁) = some x →
    asksForVcard (Mukite.passedOn i₂) = some y → x = y
  password : i₁.name = .presence → ∀ m₁ m₂, parseMucNode i₁.mem i₁.muc = some m₁ →
    parseMucNode i₂.mem i₂.muc = some m₂ → ∀ b, m₁.password.any (fun s => s.eqBin i₁.mem b)
      = m₂.password.any (fun s => s.eqBin i₂.mem b)

/-- Two stanzas that a room tells apart by their senders only. -/
structure Alike (i₁ i₂ : IncomingPacket) : Prop where
  name : i₁.name = i₂.name
  type : i₁.type = i₂.type
  proxyTo : i₁.proxyTo = i₂.proxyTo
  content : i₁.innerBytes.isSome → i₂.innerBytes.isSome → SameContent i₁ i₂

theorem SameContent.refl (ingress : IncomingPacket) : SameContent ingress ingress where
  header := ⟨(Mukite.passedOn ingress).headerBytes, [], 0, 0, by simp, by simp⟩
  payload := rfl
  passedOn := rfl
  subject := by
    intro x y hx hy
    obtain rfl : x = y := Option.some.inj (hx.symm.trans hy)
    exact ⟨rfl, rfl⟩
  vcard := fun x y hx hy => Option.some.inj (hx.symm.trans hy)
  password := by
    intro _ x y hx hy b
    obtain rfl : x = y := Option.some.inj (hx.symm.trans hy)
    rfl

theorem Alike.refl (ingress : IncomingPacket) : Alike ingress ingress where
  name := rfl
  type := rfl
  proxyTo := rfl
  content := fun _ _ => .refl ingress

section Readdressed

variable {i₁ i₂ : IncomingPacket}

theorem SameButSender.content (h : SameButSender i₁ i₂) (hdef₁ : i₁.innerBytes.isSome)
    (hdef₂ : i₂.innerBytes.isSome) : SameContent i₁ i₂ := by
  obtain ⟨front, rest, sender₁, sender₂, ⟨hparsed₁, -⟩, ⟨hparsed₂, -⟩⟩ := id h
  obtain ⟨before, a₁, a₂, after, ha⟩ := h.aligned
  have hacc₁ : Accepted i₁ := ⟨_, hparsed₁⟩
  have hacc₂ : Accepted i₂ := ⟨_, hparsed₂⟩
  have hbehind := h.behind hdef₁ hdef₂
  have htype := ha.type (packetParse_typeRead hparsed₁) (packetParse_typeRead hparsed₂)
  have hpassed := hbehind.cleaned hacc₁ hacc₂ hdef₁ hdef₂ (packetCleanupFrom ||| packetCleanupTo)
  refine ⟨?_, hbehind.payload, hpassed.payload, fun x y hx hy => ?_,
    fun x y hx hy => hpassed.vcard htype hx hy, fun hname m₁ m₂ hm₁ hm₂ b => ?_⟩
  · obtain ⟨front, back, hheader⟩ := @relayedHeader_sender before _ ha.last
    have h₁ : (passedOn i₁).headerBytes = _ := ha.read₁.relayed hacc₁ hdef₁
    have h₂ : (passedOn i₂).headerBytes = _ := ha.read₂.relayed hacc₂ hdef₂
    rw [hheader a₁ ha.name₁, ha.lead, ← List.append_assoc front] at h₁
    rw [hheader a₂ ha.name₂, ← List.append_assoc front] at h₂
    exact ⟨front ++ a₂.lead, back, _, _, h₁, h₂⟩
  · obtain ⟨s, rfl, rfl⟩ := hbehind.subject hx hy
    cases s with
    | none => exact ⟨rfl, rfl⟩
    | some s =>
      simp only [Option.map_some]
      exact ⟨by rw [size_shift, size_shift], by rw [copy_along hbehind.tail]⟩
  · obtain ⟨s, hs₁, hs₂⟩ := hbehind.muc
    rw [hs₁] at hm₁
    rw [hs₂] at hm₂
    exact (parseMucNode_along hbehind.tail hm₁ hm₂).any_eqBin hbehind.tail
      (ha.read₁.presence_stop hname ha.name₁)
      (ha.read₂.presence_stop (ha.name ▸ hname) ha.name₂) b

/-- **A stanza from another sender is handled alike.** -/
theorem SameButSender.alike (h : SameButSender i₁ i₂) : Alike i₁ i₂ := by
  obtain ⟨front, rest, sender₁, sender₂, ⟨hparsed₁, -⟩, ⟨hparsed₂, -⟩⟩ := id h
  obtain ⟨before, a₁, a₂, after, ha⟩ := h.aligned
  exact ⟨ha.name, ha.type (packetParse_typeRead hparsed₁) (packetParse_typeRead hparsed₂),
    ha.receiver (packetParse_receiver hparsed₁) (packetParse_receiver hparsed₂), h.content⟩

end Readdressed

end Mukite
