import Mukite.Properties.SharedTail
import Mukite.Properties.HeaderText

/-!
# A stanza from another sender

Two stanzas whose texts differ only in the value of their `from` attribute have the same name, type
and receiver, and behind their headers they are the same (`Aligned`). The headers that are passed
on, with the `from` attribute blanked, differ in the number of blanks only
(`relayedHeader_sender`).
-/

namespace Mukite

open HeaderPiece

theorem LastAttr.getLast? {word : Bytes} {attrs : List AttrText} {x : AttrText}
    (h : LastAttr word attrs x) : (attrs.filter (fun a => a.name == word)).getLast? = some x := by
  obtain ⟨pre, post, rfl, hname, hpost⟩ := h
  have hnone : post.filter (fun a => a.name == word) = [] := by
    rw [List.filter_eq_nil_iff]
    intro b hb he
    exact hpost b hb (by simpa using he)
  rw [List.filter_append, List.filter_cons_of_pos (by simpa using hname), hnone]
  simp

theorem lastNamed_split {word : Bytes} : ∀ {attrs : List AttrText} {start : Nat} {attr : XmlAttr},
    lastNamed word start (attrs.map .kept) = some attr → ∃ pre a post,
      attrs = pre ++ a :: post ∧ a.name = word ∧ (∀ b ∈ post, b.name ≠ word) ∧
        attr = a.spans (start + (attrsText pre).length)
  | [], _, _, h => by cases h
  | b :: attrs, start, attr, h => by
    rw [List.map_cons, lastNamed] at h
    cases hrest : lastNamed word (start + (HeaderPiece.kept b).attr.text.length)
        (attrs.map .kept) with
    | some found =>
      rw [hrest] at h
      cases h
      obtain ⟨pre, a, post, rfl, hname, hpost, rfl⟩ := lastNamed_split hrest
      refine ⟨b :: pre, a, post, rfl, hname, hpost, ?_⟩
      rw [attrsText_cons, List.length_append, Nat.add_assoc]
      rfl
    | none =>
      rw [hrest, Option.none_or] at h
      split at h
      · next hb =>
        cases h
        refine ⟨[], b, attrs, rfl, by simpa [named] using hb, fun c hc he => ?_, rfl⟩
        have hnone := lastNamed_eq_none.mp hrest
        rw [List.any_eq_false] at hnone
        exact hnone (.kept c) (List.mem_map_of_mem hc) (by simp [named, he])
      · cases h

theorem skip_of_append {p : UInt8 → Bool} : ∀ {b x : Bytes} {n : Nat},
    skip p (b ++ x) = some n → n < b.length → skip p b = some n
  | [], _, _, _, hn => absurd hn (Nat.not_lt_zero _)
  | c :: b, x, n, h, hn => by
    rw [List.cons_append, skip] at h
    rw [skip]
    split at h
    · next hc =>
      obtain ⟨m, hm, rfl⟩ := Option.map_eq_some_iff.mp h
      rw [if_pos hc, skip_of_append hm (Nat.lt_of_succ_lt_succ hn)]
      rfl
    · next hc =>
      rw [if_neg hc]
      exact h

theorem bytes_whole (mem : Bytes) : Span.bytes mem { data := 0, stop := mem.length } = mem := by
  unfold Span.bytes
  rw [List.drop_zero, Nat.sub_zero, List.take_length]

/-- The name of a node depends on what stands before its end only. -/
theorem xmlfsmNodeName_front {front x : Bytes} {word : Span} {s : Nat}
    (h : xmlfsmNodeName (front ++ x) { data := 0, stop := (front ++ x).length } = some (word, s))
    (hs : s < front.length) (y : Bytes) :
    xmlfsmNodeName (front ++ y) { data := 0, stop := (front ++ y).length } = some (word, s) := by
  unfold xmlfsmNodeName at h ⊢
  rw [bytes_whole] at h ⊢
  obtain ⟨lt, hlt, h⟩ := Option.bind_eq_some_iff.mp h
  obtain ⟨n, hn, h⟩ := Option.bind_eq_some_iff.mp h
  cases h
  dsimp only at hn hs
  have hfind : front.findIdx? (· == ch '<') = some lt := by
    rw [List.findIdx?_append] at hlt
    cases hf : front.findIdx? (· == ch '<') with
    | some i =>
      rw [hf] at hlt
      exact hlt
    | none =>
      rw [hf, Option.none_or] at hlt
      obtain ⟨i, -, rfl⟩ := Option.map_eq_some_iff.mp hlt
      omega
  have hstart : 0 + lt + 1 ≤ front.length := by omega
  rw [List.drop_append_of_le_length hstart] at hn
  have hskip := skip_of_append hn (by rw [List.length_drop]; omega)
  rw [List.findIdx?_append, hfind]
  simp only [Option.some_or, Option.bind_eq_bind, Option.bind_some]
  rw [List.drop_append_of_le_length hstart, skip_prefix (List.prefix_append _ y) hskip]
  rfl

/-! ## Two stanzas -/

/-- The stanza whose text is `front`, the value of the `from` attribute that counts, and `rest`. -/
structure SentBy (front sender rest : Bytes) (ingress : IncomingPacket) : Prop where
  parsed : packetParse (front ++ (sender ++ rest)) = some (some ingress)
  place : ∃ attr, ingress.fromAttr = some attr ∧
    attr.value = { data := front.length, stop := front.length + sender.length }

/-- Two stanzas whose texts differ in their sender only. -/
def SameButSender (i₁ i₂ : IncomingPacket) : Prop :=
  ∃ front rest sender₁ sender₂, SentBy front sender₁ rest i₁ ∧ SentBy front sender₂ rest i₂

/-- The `from` attribute of a stanza, in its header and in its text. -/
structure SenderRead (front sender rest : Bytes) (ingress : IncomingPacket)
    (before : List AttrText) (a : AttrText) (after : List AttrText) : Prop where
  read : StanzaRead (front ++ (sender ++ rest)) (before ++ a :: after) ingress
  name : a.name = lit "from"
  last : ∀ b ∈ after, b.name ≠ lit "from"
  value : a.value = sender
  start : ingress.header.data < front.length
  upTo : front.drop ingress.header.data
    = attrsText before ++ (a.lead ++ (a.name ++ (a.gap ++ [a.quote])))
  behind : rest = a.quote :: (attrsText after ++
    (front ++ (sender ++ rest)).drop ingress.header.stop)

theorem SentBy.read {front sender rest : Bytes} {ingress : IncomingPacket}
    (h : SentBy front sender rest ingress) :
    ∃ before a after, SenderRead front sender rest ingress before a after := by
  obtain ⟨attrs, hread⟩ := packetParse_read h.parsed
  obtain ⟨attr, hattr, hvalue⟩ := h.place
  have hplace : ingress.fromAttr = lastNamed (lit "from") ingress.header.data (attrs.map .kept) :=
    hread.read.places .sender
  obtain ⟨before, a, after, rfl, hname, hlast, rfl⟩ := lastNamed_split (hplace.symm.trans hattr)
  have hdata := congrArg Span.data hvalue
  have hstop := congrArg Span.stop hvalue
  simp only [AttrText.spans] at hdata hstop
  have htext := hread.read.text
  rw [attrsText_append, attrsText_cons] at htext
  have hsplit : (front ++ (sender ++ rest)).drop ingress.header.data
      = front.drop ingress.header.data ++ (sender ++ rest) :=
    List.drop_append_of_le_length (by omega)
  have hcut : front.drop ingress.header.data ++ (sender ++ rest)
      = (attrsText before ++ (a.lead ++ (a.name ++ (a.gap ++ [a.quote])))) ++
        (a.value ++ (a.quote :: (attrsText after ++
          (front ++ (sender ++ rest)).drop ingress.header.stop))) := by
    rw [← hsplit, htext]
    simp [AttrText.text, AttrText.rest]
  obtain ⟨hfront, hrest⟩ := List.append_inj hcut (by
    simp only [List.length_drop, List.length_append, List.length_singleton]
    omega)
  obtain ⟨hsender, hrest⟩ := List.append_inj hrest (by omega)
  exact ⟨before, a, after, hread, hname, hlast, hsender.symm, by omega, hfront, hrest⟩

theorem StanzaRead.tagEnds {mem : Bytes} {attrs : List AttrText} {ingress : IncomingPacket}
    (h : StanzaRead mem attrs ingress) : TagEnds (mem.drop ingress.header.stop) := by
  obtain ⟨word, -, -, state, next, hnext, hend, -⟩ := h.name
  exact exists_end_of_nextAttr hnext hend

/-- What two such stanzas have in common. -/
structure Aligned (mem₁ mem₂ : Bytes) (i₁ i₂ : IncomingPacket) (before : List AttrText)
    (a₁ a₂ : AttrText) (after : List AttrText) : Prop where
  read₁ : StanzaRead mem₁ (before ++ a₁ :: after) i₁
  read₂ : StanzaRead mem₂ (before ++ a₂ :: after) i₂
  name₁ : a₁.name = lit "from"
  name₂ : a₂.name = lit "from"
  lead : a₁.lead = a₂.lead
  last : ∀ b ∈ after, b.name ≠ lit "from"
  tail : mem₁.drop i₁.header.stop = mem₂.drop i₂.header.stop
  word : ∃ word, xmlfsmNodeName mem₁ { data := 0, stop := mem₁.length } = some (word, i₁.header.data)
    ∧ xmlfsmNodeName mem₂ { data := 0, stop := mem₂.length } = some (word, i₂.header.data)
  name : i₁.name = i₂.name

theorem bytes_of_front {front : Bytes} {s : Span} (hs : s.stop ≤ front.length) (x : Bytes) :
    s.bytes (front ++ x) = s.bytes front := by
  apply List.ext_getElem?
  intro i
  rw [Span.getElem?_bytes, Span.getElem?_bytes]
  split
  · rw [List.getElem?_append_left (by omega)]
  · rfl

theorem xmlfsmNodeName_stop {mem : Bytes} {buffer word : Span} {s : Nat}
    (h : xmlfsmNodeName mem buffer = some (word, s)) : word.stop = s := by
  obtain ⟨lt, -, h⟩ := Option.bind_eq_some_iff.mp h
  obtain ⟨n, -, h⟩ := Option.bind_eq_some_iff.mp h
  cases h
  rfl

theorem stanzaNameOf_front {front : Bytes} {word : Span} (hs : word.stop ≤ front.length)
    (x y : Bytes) : stanzaNameOf (front ++ x) word = stanzaNameOf (front ++ y) word := by
  have heq : ∀ literal, word.eqLit (front ++ x) literal = word.eqLit (front ++ y) literal := by
    intro literal
    unfold Span.eqLit Span.eqBin
    rw [bytes_of_front hs, bytes_of_front hs]
  unfold stanzaNameOf
  rw [heq, heq, heq]

theorem SameButSender.aligned {i₁ i₂ : IncomingPacket} (h : SameButSender i₁ i₂) :
    ∃ before a₁ a₂ after, Aligned i₁.mem i₂.mem i₁ i₂ before a₁ a₂ after := by
  obtain ⟨front, rest, sender₁, sender₂, h₁, h₂⟩ := h
  obtain ⟨before₁, a₁, after₁, hr₁⟩ := h₁.read
  obtain ⟨before₂, a₂, after₂, hr₂⟩ := h₂.read
  have hmem₁ := hr₁.read.read.memory
  have hmem₂ := hr₂.read.read.memory
  obtain ⟨word, hword₁, hname₁, -⟩ := hr₁.read.name
  obtain ⟨word₂, hword₂, hname₂, -⟩ := hr₂.read.name
  have hsame := xmlfsmNodeName_front hword₁ hr₁.start (sender₂ ++ rest)
  rw [hword₂] at hsame
  obtain ⟨rfl, hdata⟩ := Prod.mk.inj (Option.some.inj hsame)
  have hstop : word₂.stop ≤ front.length := by
    rw [xmlfsmNodeName_stop hword₂]
    exact Nat.le_of_lt hr₂.start
  -- the attribute of the second stanza with the value of the first one
  have hquote : a₁.quote = a₂.quote ∧ attrsText after₁ ++
      (front ++ (sender₁ ++ rest)).drop i₁.header.stop = attrsText after₂ ++
        (front ++ (sender₂ ++ rest)).drop i₂.header.stop :=
    List.cons.inj (hr₁.behind.symm.trans hr₂.behind)
  have hscan₂ := hr₂.read.read.scannable
  have hscan₁ := hr₁.read.read.scannable
  let b : AttrText := { a₂ with value := a₁.value }
  have hb : b.Scannable := by
    have ha := hscan₂ a₂ (List.mem_append_right _ List.mem_cons_self)
    refine ⟨ha.lead, ha.start, ha.name, ha.gapStart, ha.gap, ha.quote, ?_⟩
    show ∀ c ∈ a₁.value, (c != a₂.quote) = true
    rw [← hquote.1]
    exact (hscan₁ a₁ (List.mem_append_right _ List.mem_cons_self)).value
  have hscan : ∀ x ∈ before₂ ++ b :: after₂, x.Scannable := by
    intro x hx
    rcases List.mem_append.mp hx with hx | hx
    · exact hscan₂ x (List.mem_append_left _ hx)
    · rcases List.mem_cons.mp hx with rfl | hx
      · exact hb
      · exact hscan₂ x (List.mem_append_right _ (List.mem_cons_of_mem _ hx))
  have htext : attrsText (before₁ ++ a₁ :: after₁) ++
      (front ++ (sender₁ ++ rest)).drop i₁.header.stop
        = attrsText (before₂ ++ b :: after₂) ++
          (front ++ (sender₂ ++ rest)).drop i₂.header.stop := by
    have hfront : attrsText before₁ ++ (a₁.lead ++ (a₁.name ++ (a₁.gap ++ [a₁.quote])))
        = attrsText before₂ ++ (a₂.lead ++ (a₂.name ++ (a₂.gap ++ [a₂.quote]))) := by
      rw [← hr₁.upTo, ← hr₂.upTo, hdata]
    have hsides : ∀ (attrs more : List AttrText) (a : AttrText) (r : Bytes),
        attrsText (attrs ++ a :: more) ++ r
          = (attrsText attrs ++ (a.lead ++ (a.name ++ (a.gap ++ [a.quote])))) ++
            (a.value ++ (a.quote :: (attrsText more ++ r))) := by
      intro attrs more a r
      simp [AttrText.text, AttrText.rest]
    rw [hsides, hsides, hfront, hquote.1, hquote.2]
  obtain ⟨heq, htail⟩ := attrsText_inj hscan₁ hscan hr₁.read.tagEnds hr₂.read.tagEnds htext
  refine ⟨before₂, b, a₂, after₂, ?_⟩
  rw [hmem₁, hmem₂]
  exact ⟨heq ▸ hr₁.read, hr₂.read, hr₂.name, hr₂.name, rfl, hr₂.last, htail,
    ⟨word₂, hword₁, hword₂⟩, hname₁.symm.trans ((stanzaNameOf_front hstop _ _).trans hname₂)⟩

/-! ## The type and the receiver -/

/-- The type is what the attribute that has been kept says. -/
def TypeRead (packet : IncomingPacket) : Prop :=
  packet.typeAttr = none ∧ packet.type = 0 ∨
    ∃ a, packet.typeAttr = some a ∧ setType (a.value.bytes packet.mem) packet.name = some packet.type

theorem packetAttr_typeRead {packet packet' : IncomingPacket} {attr : XmlAttr}
    (h : TypeRead packet) (hp : packetAttr packet attr = .inl packet') : TypeRead packet' := by
  unfold packetAttr at hp
  dsimp only at hp
  split at hp
  · split at hp <;> cases hp
    exact h
  · split at hp
    · split at hp <;> cases hp
      exact h
    · split at hp
      · split at hp
        · cases hp
        · next type htype =>
          cases hp
          exact .inr ⟨attr, rfl, htype⟩
      · split at hp <;> cases hp <;> exact h

theorem packetParse_typeRead {mem : Bytes} {ingress : IncomingPacket}
    (h : packetParse mem = some (some ingress)) : TypeRead ingress := by
  unfold packetParse at h
  obtain ⟨⟨word, data⟩, -, h⟩ := Option.bind_eq_some_iff.mp h
  dsimp only at h
  split at h
  · cases h
  · obtain ⟨x, hx, h⟩ := Option.bind_eq_some_iff.mp h
    have hrule := attrLoop_rule (I := TypeRead) (Q := fun _ => True)
      (fun s attr s' hs hb => packetAttr_typeRead hs (Option.some.inj hb))
      (fun _ _ _ _ _ => trivial) (.inl ⟨rfl, rfl⟩) hx
    cases x with
    | inr _ => cases h
    | inl r =>
      obtain ⟨state, data', packet⟩ := r
      have hread : TypeRead packet := hrule
      dsimp only at h
      generalize (if state = .empty then none else some (Span.mk data' (mem.length -
        (word.stop - word.data) - 3)) : Option Span) = inner at h
      split at h
      · cases h
      · split at h
        · obtain ⟨muc, mucUser, rfl⟩ := parsePresenceInner_eq h
          exact hread
        · cases h
          exact hread

theorem packetParse_receiver {mem : Bytes} {ingress : IncomingPacket}
    (h : packetParse mem = some (some ingress)) : ingress.proxyTo ≠ jidInit := by
  have hne : ∀ packet : IncomingPacket, routable packet = true → packet.proxyTo ≠ jidInit := by
    intro packet hr he
    rw [routable, he] at hr
    simp [jidEmpty, jidInit] at hr
  obtain ⟨packet, -, hr, ⟨-, hpre⟩ | ⟨-, rfl⟩⟩ := packetParse_spec h
  · obtain ⟨muc, mucUser, rfl⟩ := parsePresenceInner_eq hpre
    exact hne packet hr
  · exact hne _ hr

section Aligned

variable {i₁ i₂ : IncomingPacket} {before after : List AttrText} {a₁ a₂ : AttrText}

theorem filter_beside {word : Bytes} (h : a₁.name ≠ word) :
    (before ++ a₁ :: after).filter (fun a => a.name == word)
      = before.filter (fun a => a.name == word) ++ after.filter (fun a => a.name == word) := by
  rw [List.filter_append, List.filter_cons_of_neg (by simpa using h)]

/-- The last attribute with a name is the same if it is none of those that differ. -/
theorem lastAttr_beside {word : Bytes} (h₁ : a₁.name ≠ word) (h₂ : a₂.name ≠ word)
    {x y : AttrText} (hx : LastAttr word (before ++ a₁ :: after) x)
    (hy : LastAttr word (before ++ a₂ :: after) y) : x = y := by
  have hxl := hx.getLast?
  have hyl := hy.getLast?
  rw [filter_beside h₁] at hxl
  rw [filter_beside h₂, hxl] at hyl
  exact Option.some.inj hyl

theorem Aligned.receiver (h : Aligned i₁.mem i₂.mem i₁ i₂ before a₁ a₂ after)
    (hne₁ : i₁.proxyTo ≠ jidInit) (hne₂ : i₂.proxyTo ≠ jidInit) : i₁.proxyTo = i₂.proxyTo := by
  have hto : lit "from" ≠ lit "to" := by decide
  obtain ⟨x, hx, hx'⟩ := h.read₁.read.recipient.resolve_left hne₁
  obtain ⟨y, hy, hy'⟩ := h.read₂.read.recipient.resolve_left hne₂
  obtain rfl := lastAttr_beside (h.name₁ ▸ hto) (h.name₂ ▸ hto) hx hy
  exact Option.some.inj (hx'.symm.trans hy')

/-- The text of the value that has been kept for a name. -/
theorem StanzaRead.kept_value {mem : Bytes} {attrs : List AttrText} {ingress : IncomingPacket}
    (h : StanzaRead mem attrs ingress) {k : AttrKey} {attr : XmlAttr}
    (hk : ingress.attr k = some attr) :
    ∃ x, LastAttr k.word attrs x ∧ attr.value.bytes mem = x.value := by
  obtain ⟨pre, x, post, rfl, hname, hpost, rfl⟩ :=
    lastNamed_split ((h.read.places k).symm.trans hk)
  refine ⟨x, ⟨pre, post, rfl, hname, hpost⟩, ?_⟩
  have htext := h.read.text
  rw [attrsText_append, attrsText_cons, List.append_assoc, List.append_assoc] at htext
  exact value_bytes_spans (drop_add_of_drop htext)

/-- There is none if there is none in the other stanza. -/
theorem StanzaRead.kept_none {mem : Bytes} {attrs : List AttrText} {ingress : IncomingPacket}
    (h : StanzaRead mem attrs ingress) {k : AttrKey} : ingress.attr k = none ↔
      attrs.filter (fun a => a.name == k.word) = [] := by
  rw [h.read.places k, lastNamed_eq_none, List.any_eq_false, List.filter_eq_nil_iff]
  constructor
  · intro hn a ha he
    exact hn (.kept a) (List.mem_map_of_mem ha) he
  · rintro hn p hp
    obtain ⟨a, ha, rfl⟩ := List.mem_map.mp hp
    exact hn a ha

theorem Aligned.type (h : Aligned i₁.mem i₂.mem i₁ i₂ before a₁ a₂ after) (ht₁ : TypeRead i₁)
    (ht₂ : TypeRead i₂) : i₁.type = i₂.type := by
  have htype : lit "from" ≠ AttrKey.type.word := by decide
  have hnone : i₁.typeAttr = none ↔ i₂.typeAttr = none := by
    have hn₁ := h.read₁.kept_none (k := .type)
    have hn₂ := h.read₂.kept_none (k := .type)
    rw [filter_beside (h.name₁ ▸ htype)] at hn₁
    rw [filter_beside (h.name₂ ▸ htype)] at hn₂
    exact hn₁.trans hn₂.symm
  rcases ht₁ with ⟨hn₁, ht₁⟩ | ⟨x, hx, ht₁⟩
  · rcases ht₂ with ⟨-, ht₂⟩ | ⟨y, hy, -⟩
    · rw [ht₁, ht₂]
    · rw [hnone.mp hn₁] at hy
      cases hy
  · rcases ht₂ with ⟨hn₂, -⟩ | ⟨y, hy, ht₂⟩
    · rw [hnone.mpr hn₂] at hx
      cases hx
    · obtain ⟨u, hu, hxu⟩ := h.read₁.kept_value (k := .type) hx
      obtain ⟨v, hv, hyv⟩ := h.read₂.kept_value (k := .type) hy
      obtain rfl := lastAttr_beside (h.name₁ ▸ htype) (h.name₂ ▸ htype) hu hv
      rw [hxu, h.name] at ht₁
      rw [hyv, ht₁] at ht₂
      exact Option.some.inj ht₂

end Aligned

/-! ## The header that is passed on -/

theorem markLast_unnamed {word w : Bytes} {f : AttrText → HeaderPiece}
    (hf : ∀ a, (f a).named w = false) : ∀ {ps : List HeaderPiece},
    ps.any (named w) = false → (markLast word f ps).any (named w) = false
  | [], h => h
  | p :: ps, h => by
    rw [List.any_cons, Bool.or_eq_false_iff] at h
    rw [markLast]
    split
    · rw [List.any_cons, h.1, markLast_unnamed hf h.2, Bool.or_false]
    · split
      · rw [List.any_cons, hf, h.2, Bool.or_false]
      · rw [List.any_cons, h.1, h.2, Bool.or_false]

/-- A piece with another name does not count when the last one with a name is marked. -/
theorem markLast_beside {word w : Bytes} {f : AttrText → HeaderPiece}
    (hf : ∀ a, (f a).named w = false) {qs : List HeaderPiece} (hqs : qs.any (named w) = false) :
    ∀ ps : List HeaderPiece, ∃ ps' qs', qs'.any (named w) = false ∧ ∀ p : HeaderPiece,
      p.named word = false → markLast word f (ps ++ p :: qs) = ps' ++ p :: qs'
  | [] => by
    cases hany : qs.any (named word) with
    | true =>
      refine ⟨[], markLast word f qs, markLast_unnamed hf hqs, fun p _ => ?_⟩
      rw [List.nil_append, markLast, if_pos hany]
      rfl
    | false =>
      refine ⟨[], qs, hqs, fun p hp => ?_⟩
      rw [List.nil_append, markLast, if_neg (by simp [hany]), if_neg (by simp [hp])]
  | q :: ps => by
    obtain ⟨ps', qs', hqs', hmark⟩ := @markLast_beside word w f hf qs hqs ps
    have hany : ∀ p : HeaderPiece, p.named word = false →
        (ps ++ p :: qs).any (named word) = (ps.any (named word) || qs.any (named word)) := by
      intro p hp
      rw [List.any_append, List.any_cons, hp, Bool.false_or]
    by_cases hothers : (ps.any (named word) || qs.any (named word)) = true
    · refine ⟨q :: ps', qs', hqs', fun p hp => ?_⟩
      rw [List.cons_append, markLast, hany p hp, if_pos hothers, hmark p hp, List.cons_append]
    · by_cases hq : q.named word = true
      · refine ⟨f q.attr :: ps, qs, hqs, fun p hp => ?_⟩
        rw [List.cons_append, markLast, hany p hp, if_neg hothers, if_pos hq]
        rfl
      · refine ⟨q :: ps, qs, hqs, fun p hp => ?_⟩
        rw [List.cons_append, markLast, hany p hp, if_neg hothers, if_neg hq]

theorem markLast_here {word : Bytes} {f : AttrText → HeaderPiece} {p : HeaderPiece}
    {qs : List HeaderPiece} (hp : p.named word = true) (hqs : qs.any (named word) = false) :
    ∀ ps : List HeaderPiece, markLast word f (ps ++ p :: qs) = ps ++ f p.attr :: qs
  | [] => by
    rw [List.nil_append, List.nil_append, markLast, if_neg (by simp [hqs]), if_pos hp]
  | q :: ps => by
    have hany : (ps ++ p :: qs).any (named word) = true := by
      rw [List.any_append, List.any_cons, hp, Bool.true_or, Bool.or_true]
    rw [List.cons_append, markLast, if_pos hany, markLast_here hp hqs ps]
    rfl

/-- **The header of a stanza that is passed on has only blanks of its sender.** -/
theorem relayedHeader_sender {before after : List AttrText}
    (hlast : ∀ b ∈ after, b.name ≠ lit "from") : ∃ front back : Bytes, ∀ a : AttrText,
      a.name = lit "from" → piecesText (relayedHeader (before ++ a :: after))
        = front ++ (a.lead ++ List.replicate (a.name ++ a.rest).length (ch ' ')) ++ back := by
  have hafter : (after.map HeaderPiece.kept).any (named (lit "from")) = false := by
    rw [List.any_eq_false]
    intro p hp
    obtain ⟨b, hb, rfl⟩ := List.mem_map.mp hp
    simpa [named] using hlast b hb
  obtain ⟨ps₁, qs₁, hqs₁, hmark₁⟩ := @markLast_beside AttrKey.type.word _ HeaderPiece.blanked
    (fun _ => rfl) _ hafter (before.map .kept)
  obtain ⟨ps₂, qs₂, hqs₂, hmark₂⟩ := @markLast_beside AttrKey.recipient.word _ HeaderPiece.blanked
    (fun _ => rfl) _ hqs₁ ps₁
  refine ⟨piecesText ps₂, piecesText qs₂, fun a ha => ?_⟩
  have hne : ∀ {k : AttrKey}, k ≠ .sender → (HeaderPiece.kept a).named k.word = false := by
    intro k hk
    show (a.name == k.word) = false
    rw [ha, beq_eq_false_iff_ne]
    exact (AttrKey.word_ne hk).symm
  have hhere : (HeaderPiece.kept a).named AttrKey.sender.word = true := beq_iff_eq.mpr ha
  unfold relayedHeader nameless
  rw [List.map_append, List.map_cons, hmark₁ _ (hne (by decide)), hmark₂ _ (hne (by decide)),
    markLast_here hhere hqs₂]
  simp [piecesText, HeaderPiece.text, HeaderPiece.attr]

end Mukite
