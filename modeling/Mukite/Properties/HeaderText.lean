import Mukite.Properties.Forged
import Mukite.Properties.StartTag

/-!
# The header of a stanza as text

The header of an accepted stanza is a list of attributes (`Accepted.headerRead`), and
`packet_cleanup` overwrites some of them: each is one piece of the header, and stays one
(`HeaderPiece`).

* `overwriteLast`: writing at the place that `packet_parse` has kept changes the last piece with
  that name. The induction is on the pieces; where a later piece has the name, the first stays.
* `StanzaRead.relayed`, `StanzaRead.answered`: the header of a stanza that is passed on, and of one
  that is answered.
-/

namespace Mukite

/-- The name under which `packet_parse` keeps an attribute. -/
def AttrKey.word : AttrKey → Bytes
  | .sender => lit "from"
  | .recipient => lit "to"
  | .type => lit "type"
  | .id => lit "id"

theorem AttrKey.word_ne {k l : AttrKey} (h : k ≠ l) : k.word ≠ l.word := by
  cases k <;> cases l <;> first | exact absurd rfl h | decide

/-! ## Pieces of a header -/

/-- What becomes of an attribute of a header. -/
inductive HeaderPiece
  | kept (a : AttrText)
  /-- blanked, with its closing quote -/
  | blanked (a : AttrText)
  /-- `from`, with the name turned into `to` -/
  | switched (a : AttrText)

namespace HeaderPiece

/-- The attribute as the stanza had it. -/
def attr : HeaderPiece → AttrText
  | .kept a => a
  | .blanked a => a
  | .switched a => a

def text : HeaderPiece → Bytes
  | .kept a => a.text
  | .blanked a => a.lead ++ List.replicate (a.name ++ a.rest).length (ch ' ')
  | .switched a => a.lead ++ (lit "  to" ++ a.rest)

/-- Whether it is an attribute with the given name. -/
def named (word : Bytes) : HeaderPiece → Bool
  | .kept a => a.name == word
  | .blanked _ => false
  | .switched _ => false

/-- It takes as much room as the attribute did. -/
def Fits (p : HeaderPiece) : Prop := p.text.length = p.attr.text.length

theorem fits_kept (a : AttrText) : (HeaderPiece.kept a).Fits := rfl

theorem fits_blanked (a : AttrText) : (HeaderPiece.blanked a).Fits := by
  show (a.lead ++ List.replicate (a.name ++ a.rest).length (ch ' ')).length
    = (a.lead ++ (a.name ++ a.rest)).length
  simp only [List.length_append, List.length_replicate]

theorem fits_switched {a : AttrText} (h : a.name = lit "from") :
    (HeaderPiece.switched a).Fits := by
  have hfour : (lit "  to").length = (lit "from").length := by decide
  show (a.lead ++ (lit "  to" ++ a.rest)).length = (a.lead ++ (a.name ++ a.rest)).length
  rw [h, List.length_append, List.length_append, List.length_append, List.length_append, hfour]

end HeaderPiece

open HeaderPiece

def piecesText (ps : List HeaderPiece) : Bytes := (ps.map HeaderPiece.text).flatten

@[simp] theorem piecesText_nil : piecesText [] = [] := rfl

@[simp] theorem piecesText_cons (p : HeaderPiece) (ps : List HeaderPiece) :
    piecesText (p :: ps) = p.text ++ piecesText ps := rfl

theorem piecesText_kept (attrs : List AttrText) :
    piecesText (attrs.map .kept) = attrsText attrs := by
  unfold piecesText attrsText
  rw [List.map_map]
  rfl

/-- The place of the last attribute with a name, in a header that begins at `start`. -/
def lastNamed (word : Bytes) : Nat → List HeaderPiece → Option XmlAttr
  | _, [] => none
  | start, p :: ps =>
    (lastNamed word (start + p.attr.text.length) ps).or
      (if p.named word then some (p.attr.spans start) else none)

/-- The pieces with another one in the place of the last attribute with a name. -/
def markLast (word : Bytes) (f : AttrText → HeaderPiece) : List HeaderPiece → List HeaderPiece
  | [] => []
  | p :: ps =>
    if ps.any (named word) then p :: markLast word f ps
    else if p.named word then f p.attr :: ps
    else p :: ps

theorem lastNamed_isSome {word : Bytes} : ∀ {ps : List HeaderPiece} {start : Nat},
    (lastNamed word start ps).isSome = ps.any (named word)
  | [], _ => rfl
  | p :: ps, start => by
    rw [lastNamed, Option.isSome_or, lastNamed_isSome, List.any_cons, Bool.or_comm]
    cases p.named word <;> rfl

theorem lastNamed_concat {word : Bytes} {p : HeaderPiece} : ∀ {ps : List HeaderPiece}
    {start : Nat}, lastNamed word start (ps ++ [p]) =
      if p.named word then some (p.attr.spans (start + (attrsText (ps.map attr)).length))
      else lastNamed word start ps
  | [], start => by simp [lastNamed]
  | q :: ps, start => by
    rw [List.cons_append, lastNamed, lastNamed, lastNamed_concat]
    split
    · rw [List.map_cons, attrsText_cons, List.length_append, Nat.add_assoc]
      rfl
    · rfl

theorem lastNamed_eq_none {word : Bytes} {ps : List HeaderPiece} {start : Nat} :
    lastNamed word start ps = none ↔ ps.any (named word) = false := by
  rw [← @lastNamed_isSome word ps start, Option.isSome_eq_false_iff, Option.isNone_iff_eq_none]

/-- **Writing where the last attribute with a name is changes that piece.** -/
theorem overwriteLast {word : Bytes} {f : AttrText → HeaderPiece}
    {write : Bytes → Option XmlAttr → Bytes} (hnone : ∀ mem, write mem none = mem)
    (hwrite : ∀ (a : AttrText) (pre post : Bytes), a.name = word →
      write (pre ++ (a.text ++ post)) (some (a.spans pre.length)) = pre ++ ((f a).text ++ post)) :
    ∀ {ps : List HeaderPiece} {pre post : Bytes}, (∀ p ∈ ps, p.Fits) →
      write (pre ++ (piecesText ps ++ post)) (lastNamed word pre.length ps)
        = pre ++ (piecesText (markLast word f ps) ++ post)
  | [], pre, post, _ => by rw [lastNamed, hnone]; rfl
  | p :: ps, pre, post, hfits => by
    have hp : p.text.length = p.attr.text.length := hfits p List.mem_cons_self
    rw [lastNamed, markLast, piecesText_cons, List.append_assoc]
    cases hany : ps.any (named word) with
    | true =>
      have hsome := @lastNamed_isSome word ps (pre.length + p.attr.text.length)
      rw [hany] at hsome
      obtain ⟨attr, hattr⟩ := Option.isSome_iff_exists.mp hsome
      have ih := @overwriteLast word f write hnone hwrite ps (pre ++ p.text) post
        (fun q hq => hfits q (List.mem_cons_of_mem _ hq))
      rw [List.length_append, hp, hattr, List.append_assoc, List.append_assoc] at ih
      rw [hattr, if_pos rfl, Option.some_or, piecesText_cons, List.append_assoc]
      exact ih
    | false =>
      rw [lastNamed_eq_none.mpr hany, Option.none_or, if_neg Bool.false_ne_true]
      cases p with
      | kept a =>
        by_cases ha : a.name = word
        · rw [if_pos (by simp [named, ha]), if_pos (by simp [named, ha]), piecesText_cons,
            List.append_assoc]
          exact hwrite a pre (piecesText ps ++ post) ha
        · rw [if_neg (by simp [named, ha]), if_neg (by simp [named, ha]), hnone, piecesText_cons,
            List.append_assoc]
      | blanked a =>
        rw [if_neg (by simp [named]), if_neg (by simp [named]), hnone, piecesText_cons,
          List.append_assoc]
      | switched a =>
        rw [if_neg (by simp [named]), if_neg (by simp [named]), hnone, piecesText_cons,
          List.append_assoc]

/-! ## Marks -/

variable {word word' : Bytes} {f : AttrText → HeaderPiece}

theorem fits_markLast (hf : ∀ a : AttrText, a.name = word → (f a).Fits) :
    ∀ {ps : List HeaderPiece}, (∀ p ∈ ps, p.Fits) → ∀ p ∈ markLast word f ps, p.Fits
  | [], _, p, hp => absurd hp List.not_mem_nil
  | q :: ps, hfits, p, hp => by
    rw [markLast] at hp
    split at hp
    · rcases List.mem_cons.mp hp with rfl | hp
      · exact hfits _ List.mem_cons_self
      · exact fits_markLast hf (fun x hx => hfits x (List.mem_cons_of_mem _ hx)) p hp
    · split at hp
      · next hnamed =>
        rcases List.mem_cons.mp hp with rfl | hp
        · cases q with
          | kept a => exact hf a (by simpa [named] using hnamed)
          | blanked a => cases hnamed
          | switched a => cases hnamed
        · exact hfits p (List.mem_cons_of_mem _ hp)
      · exact hfits p hp

/-- A mark takes away no attribute with another name. -/
theorem lastNamed_markLast (hne : word ≠ word') (hattr : ∀ a, (f a).attr = a)
    (hgone : ∀ a w, (f a).named w = false) : ∀ {ps : List HeaderPiece} {start : Nat},
    lastNamed word' start (markLast word f ps) = lastNamed word' start ps
  | [], _ => rfl
  | p :: ps, start => by
    rw [markLast]
    split
    · rw [lastNamed, lastNamed, lastNamed_markLast hne hattr hgone]
    · split
      · next hnamed =>
        have hother : p.named word' = false := by
          cases p with
          | kept a =>
            have ha : a.name = word := by simpa [named] using hnamed
            simp [named, ha, hne]
          | blanked a => rfl
          | switched a => rfl
        rw [lastNamed, lastNamed, hattr, hgone, hother]
      · rfl

/-! ## What the clean-up writes -/

theorem memcpy_append {pre old post bytes : Bytes} (h : bytes.length = old.length) :
    memcpy (pre ++ (old ++ post)) pre.length bytes = pre ++ (bytes ++ post) := by
  unfold memcpy
  rw [List.take_left, h, ← List.append_assoc pre old, ← List.length_append, List.drop_left,
    List.append_assoc]

theorem blankAttr_text (a : AttrText) (pre post : Bytes) :
    blankAttr (pre ++ (a.text ++ post)) (some (a.spans pre.length))
      = pre ++ ((HeaderPiece.blanked a).text ++ post) := by
  have hsize : (a.spans pre.length).value.stop - (a.spans pre.length).name.data + 1
      = (a.name ++ a.rest).length := by
    show pre.length + a.lead.length + a.name.length + a.gap.length + 1 + a.value.length
      - (pre.length + a.lead.length) + 1 = (a.name ++ (a.gap ++ a.quote :: (a.value ++ [a.quote]))).length
    simp only [List.length_append, List.length_cons, List.length_nil]
    omega
  have hpos : (a.spans pre.length).name.data = (pre ++ a.lead).length := by
    rw [List.length_append]
    rfl
  show memcpy (pre ++ (a.lead ++ (a.name ++ a.rest) ++ post)) (a.spans pre.length).name.data
    (List.replicate _ (ch ' ')) = pre ++ (a.lead ++ List.replicate _ (ch ' ') ++ post)
  rw [hsize, hpos, List.append_assoc, ← List.append_assoc pre,
    memcpy_append List.length_replicate, List.append_assoc, List.append_assoc]

theorem switchFromTo_text {a : AttrText} (ha : a.name = lit "from") (pre post : Bytes) :
    switchFromTo (pre ++ (a.text ++ post)) (some (a.spans pre.length))
      = pre ++ ((HeaderPiece.switched a).text ++ post) := by
  have hfour : (lit "  to").length = (lit "from").length := by decide
  have hpos : (a.spans pre.length).name.data = (pre ++ a.lead).length := by
    rw [List.length_append]
    rfl
  show memcpy (pre ++ (a.lead ++ (a.name ++ a.rest) ++ post)) (a.spans pre.length).name.data
    (lit "  to") = pre ++ (a.lead ++ (lit "  to" ++ a.rest) ++ post)
  rw [hpos, ha, List.append_assoc, List.append_assoc, ← List.append_assoc pre,
    memcpy_append hfour]
  simp only [List.append_assoc]

/-- Blanking the attribute under a key. -/
theorem blankAttr_pieces (k : AttrKey) {ps : List HeaderPiece} {pre post : Bytes}
    (hfits : ∀ p ∈ ps, p.Fits) :
    blankAttr (pre ++ (piecesText ps ++ post)) (lastNamed k.word pre.length ps)
      = pre ++ (piecesText (markLast k.word .blanked ps) ++ post) :=
  overwriteLast (fun _ => rfl) (fun a pre post _ => blankAttr_text a pre post) hfits

theorem switchFromTo_pieces {ps : List HeaderPiece} {pre post : Bytes}
    (hfits : ∀ p ∈ ps, p.Fits) :
    switchFromTo (pre ++ (piecesText ps ++ post))
        (lastNamed AttrKey.sender.word pre.length ps)
      = pre ++ (piecesText (markLast AttrKey.sender.word .switched ps) ++ post) :=
  overwriteLast (fun _ => rfl) (fun _ pre post ha => switchFromTo_text ha pre post) hfits

/-- The header without the type and the receiver. -/
def nameless (attrs : List AttrText) : List HeaderPiece :=
  markLast AttrKey.recipient.word .blanked
    (markLast AttrKey.type.word .blanked (attrs.map .kept))

/-- The header of a stanza that is passed on. -/
def relayedHeader (attrs : List AttrText) : List HeaderPiece :=
  markLast AttrKey.sender.word .blanked (nameless attrs)

/-- The header of a stanza that is answered. -/
def answeredHeader (attrs : List AttrText) : List HeaderPiece :=
  markLast AttrKey.sender.word .switched (nameless attrs)

theorem fits_blankedLast (k : AttrKey) {ps : List HeaderPiece} (h : ∀ p ∈ ps, p.Fits) :
    ∀ p ∈ markLast k.word .blanked ps, p.Fits :=
  fits_markLast (fun a _ => fits_blanked a) h

theorem fits_map_kept {attrs : List AttrText} : ∀ p ∈ attrs.map HeaderPiece.kept, p.Fits := by
  intro p hp
  obtain ⟨a, -, rfl⟩ := List.mem_map.mp hp
  exact fits_kept a

theorem fits_nameless {attrs : List AttrText} : ∀ p ∈ nameless attrs, p.Fits :=
  fits_blankedLast .recipient (fits_blankedLast .type fits_map_kept)

theorem lastNamed_blankedLast {k l : AttrKey} (hne : k ≠ l) {ps : List HeaderPiece}
    {start : Nat} : lastNamed l.word start (markLast k.word .blanked ps) = lastNamed l.word start ps :=
  lastNamed_markLast (AttrKey.word_ne hne) (fun _ => rfl) (fun _ _ => rfl)

/-! ## What `packet_parse` reads -/

theorem name_bytes_spans {mem : Bytes} {data : Nat} {a : AttrText} {tail : Bytes}
    (hmem : mem.drop data = a.text ++ tail) : (a.spans data).name.bytes mem = a.name := by
  have hlead : mem.drop (data + a.lead.length) = a.name ++ (a.rest ++ tail) := by
    refine drop_add_of_drop ?_
    rw [hmem, AttrText.text, List.append_assoc, List.append_assoc]
  show (mem.drop (data + a.lead.length)).take
    (data + a.lead.length + a.name.length - (data + a.lead.length)) = a.name
  rw [hlead, Nat.add_sub_cancel_left, List.take_left]

theorem value_bytes_spans {mem : Bytes} {data : Nat} {a : AttrText} {tail : Bytes}
    (hmem : mem.drop data = a.text ++ tail) : (a.spans data).value.bytes mem = a.value := by
  have hopen : mem.drop (data + (a.lead ++ (a.name ++ a.gap)).length)
      = a.quote :: (a.value ++ ([a.quote] ++ tail)) := by
    refine drop_add_of_drop ?_
    rw [hmem, AttrText.text, AttrText.rest]
    simp only [List.append_assoc, List.cons_append]
  have hvalue := drop_succ_of_drop hopen
  have hpos : data + (a.lead ++ (a.name ++ a.gap)).length + 1
      = data + a.lead.length + a.name.length + a.gap.length + 1 := by
    simp only [List.length_append]
    omega
  rw [hpos] at hvalue
  show (mem.drop (data + a.lead.length + a.name.length + a.gap.length + 1)).take
    (data + a.lead.length + a.name.length + a.gap.length + 1 + a.value.length
      - (data + a.lead.length + a.name.length + a.gap.length + 1)) = a.value
  rw [hvalue, Nat.add_sub_cancel_left, List.take_left]

theorem eqLit_spans {mem : Bytes} {data : Nat} {a : AttrText} {tail : Bytes} {word : String}
    (hmem : mem.drop data = a.text ++ tail) :
    (a.spans data).name.eqLit mem word = true ↔ a.name = lit word := by
  have hsize : (a.spans data).name.size = a.name.length := by
    show ((data + a.lead.length + a.name.length : Nat) : Int) - ((data + a.lead.length : Nat) : Int)
      = (a.name.length : Int)
    omega
  unfold Span.eqLit Span.eqBin
  rw [hsize, name_bytes_spans hmem, Bool.and_eq_true, beq_iff_eq, beq_iff_eq]
  constructor
  · exact fun h => h.2
  · intro h
    exact ⟨by rw [h], h⟩

/-- What a packet knows of the attributes that have been read. -/
structure HeaderRead (mem : Bytes) (start : Nat) (attrs : List AttrText)
    (packet : IncomingPacket) : Prop where
  scannable : ∀ a ∈ attrs, a.Scannable
  header : packet.header = { data := start, stop := start + (attrsText attrs).length }
  text : mem.drop start = attrsText attrs ++ mem.drop packet.header.stop
  memory : packet.mem = mem
  places : ∀ k, packet.attr k = lastNamed k.word start (attrs.map .kept)
  sender : packet.realFrom = jidInit ∨
    ∃ a, LastAttr (lit "from") attrs a ∧ jidStruct a.value = some packet.realFrom
  recipient : packet.proxyTo = jidInit ∨
    ∃ a, LastAttr (lit "to") attrs a ∧ jidStruct a.value = some packet.proxyTo
  type : (∀ a ∈ attrs, a.name ≠ lit "type") ∧ packet.type = 0 ∨
    ∃ a ∈ attrs, a.name = lit "type" ∧ setType a.value packet.name = some packet.type

/-- One attribute more. -/
theorem HeaderRead.attr {mem : Bytes} {start next : Nat} {attrs : List AttrText}
    {packet packet' : IncomingPacket} {attr : XmlAttr} (h : HeaderRead mem start attrs packet)
    (hnext : xmlfsmNextAttr mem packet.header.stop = some (.success attr, next))
    (hp : packetAttr packet attr = .inl packet') :
    ∃ a, HeaderRead mem start (attrs ++ [a]) packet' ∧ packet'.header.stop = next ∧
      packet'.name = packet.name := by
  obtain ⟨a, hscan, htext, rfl, rfl⟩ := exists_text_of_nextAttr hnext
  obtain ⟨hall, hheader, hmem, rfl, hattrs, hfrom, hto, htype⟩ := h
  have hstop : packet.header.stop = start + (attrsText attrs).length := by rw [hheader]
  have hdata : packet.header.data = start := by rw [hheader]
  refine ⟨a, ?_⟩
  have hscans : ∀ x ∈ attrs ++ [a], x.Scannable := by
    intro x hx
    rcases List.mem_append.mp hx with hx | hx
    · exact hall x hx
    · rw [List.mem_singleton.mp hx]
      exact hscan
  have hlen : (attrsText (attrs ++ [a])).length = (attrsText attrs).length + a.text.length := by
    simp
  have hlast : ∀ k : AttrKey, lastNamed k.word start ((attrs ++ [a]).map .kept)
      = if a.name = k.word then some (a.spans packet.header.stop) else packet.attr k := by
    intro k
    rw [List.map_append, List.map_singleton, lastNamed_concat, hattrs k, hstop, List.map_map]
    show (if (a.name == k.word) = true then some (a.spans (start + (attrsText (attrs.map id)).length))
      else _) = _
    rw [List.map_id]
    by_cases ha : a.name = k.word
    · rw [if_pos (by simpa using ha), if_pos ha]
    · rw [if_neg (by simpa using ha), if_neg ha]
  have hnew : ({ packet.header with stop := (a.spans packet.header.stop).value.stop + 1 } : Span)
      = { data := start, stop := start + (attrsText (attrs ++ [a])).length } := by
    rw [a.spans_stop, hlen, hstop, Nat.add_assoc]
    show Span.mk packet.header.data _ = _
    rw [hdata]
  have hafter : packet.mem.drop start = attrsText (attrs ++ [a]) ++
      packet.mem.drop ((a.spans packet.header.stop).value.stop + 1) := by
    rw [hmem, htext, a.spans_stop, attrsText_append, attrsText_cons, attrsText_nil,
      List.append_nil, List.append_assoc]
  have hold : ∀ {P : AttrText → Prop}, (∃ x ∈ attrs, P x) → ∃ x ∈ attrs ++ [a], P x :=
    fun ⟨x, hx, hP⟩ => ⟨x, List.mem_append_left _ hx, hP⟩
  have hlater : ∀ {word : Bytes} {P : AttrText → Prop}, a.name ≠ word →
      (∃ x, LastAttr word attrs x ∧ P x) → ∃ x, LastAttr word (attrs ++ [a]) x ∧ P x :=
    fun hne ⟨x, hx, hP⟩ => ⟨x, hx.concat_ne hne, hP⟩
  have hself : a ∈ attrs ++ [a] := List.mem_append_right _ List.mem_cons_self
  have hkeep : a.name ≠ lit "type" →
      ((∀ x ∈ attrs ++ [a], x.name ≠ lit "type") ∧ packet.type = 0 ∨
        ∃ x ∈ attrs ++ [a], x.name = lit "type" ∧
          setType x.value packet.name = some packet.type) := by
    intro hne
    refine htype.imp (fun ⟨hnone, hzero⟩ => ⟨fun x hx => ?_, hzero⟩) hold
    rcases List.mem_append.mp hx with hx | hx
    · exact hnone x hx
    · rw [List.mem_singleton.mp hx]
      exact hne
  -- which name the attribute has decides which field it sets; the others stay
  unfold packetAttr at hp
  dsimp only at hp
  rw [value_bytes_spans htext] at hp
  split at hp
  · next hname =>
    have hname := (eqLit_spans htext).mp hname
    split at hp
    · cases hp
    · next jid hjid =>
      cases hp
      refine ⟨⟨hscans, hnew, hafter, rfl, fun k => ?_, .inr ⟨a, .concat_self hname, hjid⟩,
        hto.imp_right (hlater (by rw [hname]; decide)), hkeep (by rw [hname]; decide)⟩,
        a.spans_stop _, rfl⟩
      rw [hlast k, hname]
      cases k <;> rfl
  · split at hp
    · next hname =>
      have hname := (eqLit_spans htext).mp hname
      split at hp
      · cases hp
      · next jid hjid =>
        cases hp
        refine ⟨⟨hscans, hnew, hafter, rfl, fun k => ?_,
          hfrom.imp_right (hlater (by rw [hname]; decide)), .inr ⟨a, .concat_self hname, hjid⟩,
          hkeep (by rw [hname]; decide)⟩, a.spans_stop _, rfl⟩
        rw [hlast k, hname]
        cases k <;> rfl
    · split at hp
      · next hname =>
        have hname := (eqLit_spans htext).mp hname
        split at hp
        · cases hp
        · next type hset =>
          cases hp
          refine ⟨⟨hscans, hnew, hafter, rfl, fun k => ?_,
            hfrom.imp_right (hlater (by rw [hname]; decide)),
            hto.imp_right (hlater (by rw [hname]; decide)),
            .inr ⟨a, hself, hname, hset⟩⟩, a.spans_stop _, rfl⟩
          rw [hlast k, hname]
          cases k <;> rfl
      · next hfrom' hto' htype' =>
        have hne : a.name ≠ lit "type" := fun he => htype' ((eqLit_spans htext).mpr he)
        have hnefrom : a.name ≠ lit "from" := fun he => hfrom' ((eqLit_spans htext).mpr he)
        have hneto : a.name ≠ lit "to" := fun he => hto' ((eqLit_spans htext).mpr he)
        split at hp
        · next hname =>
          have hname := (eqLit_spans htext).mp hname
          cases hp
          refine ⟨⟨hscans, hnew, hafter, rfl, fun k => ?_, hfrom.imp_right (hlater hnefrom),
            hto.imp_right (hlater hneto), hkeep hne⟩,
            a.spans_stop _, rfl⟩
          rw [hlast k, hname]
          cases k <;> rfl
        · next hid =>
          cases hp
          refine ⟨⟨hscans, hnew, hafter, rfl, fun k => ?_, hfrom.imp_right (hlater hnefrom),
            hto.imp_right (hlater hneto), hkeep hne⟩,
            a.spans_stop _, rfl⟩
          rw [hlast k, if_neg]
          · cases k <;> rfl
          · intro he
            cases k with
            | sender => exact hnefrom he
            | recipient => exact hneto he
            | type => exact hne he
            | id => exact hid ((eqLit_spans htext).mpr he)

/-- **What `packet_parse` has read of a stanza that it accepts.** -/
structure StanzaRead (mem : Bytes) (attrs : List AttrText) (ingress : IncomingPacket) : Prop where
  read : HeaderRead mem ingress.header.data attrs ingress
  name : ∃ word, xmlfsmNodeName mem { data := 0, stop := mem.length }
      = some (word, ingress.header.data) ∧ stanzaNameOf mem word = ingress.name ∧
    ∃ state next, xmlfsmNextAttr mem ingress.header.stop = some (state, next) ∧
      (state = .empty ∨ state = .noattr) ∧
      ingress.inner = if state = .empty then none
        else some { data := next, stop := mem.length - (word.stop - word.data) - 3 }
  named : ingress.name ≠ .unset

/-- Before the first attribute. -/
theorem headerRead_start {mem : Bytes} {start : Nat} {packet : IncomingPacket}
    (hheader : packet.header = { data := start, stop := start }) (hmem : packet.mem = mem)
    (hattrs : ∀ k, packet.attr k = none) (hfrom : packet.realFrom = jidInit)
    (hto : packet.proxyTo = jidInit) (htype : packet.type = 0) :
    HeaderRead mem start [] packet where
  scannable := by simp
  header := hheader
  text := by
    rw [hheader]
    rfl
  memory := hmem
  places := hattrs
  sender := .inl hfrom
  recipient := .inl hto
  type := .inl ⟨by simp, htype⟩

theorem packetParse_read {mem : Bytes} {ingress : IncomingPacket}
    (h : packetParse mem = some (some ingress)) : ∃ attrs, StanzaRead mem attrs ingress := by
  unfold packetParse at h
  obtain ⟨⟨word, data⟩, hword, h⟩ := Option.bind_eq_some_iff.mp h
  dsimp only at h
  split at h
  · cases h
  · next hunset =>
    obtain ⟨x, hx, hout⟩ := Option.bind_eq_some_iff.mp h
    cases x with
    | inr _ => cases hout
    | inl r =>
      obtain ⟨state, next, packet⟩ := r
      dsimp only at hout
      have hstart : HeaderRead mem data []
          { name := stanzaNameOf mem word, type := 0, realFrom := jidInit, proxyTo := jidInit
            mem := mem, header := { data := data, stop := data }, inner := none
            fromAttr := none, toAttr := none, idAttr := none, typeAttr := none
            muc := none, mucUser := none } :=
        headerRead_start rfl rfl (by rintro (_ | _ | _ | _) <;> rfl) rfl rfl rfl
      obtain ⟨last, ⟨⟨attrs, hread⟩, hlast, hname⟩, hend, hstate⟩ := attrLoop_rule_next
        (I := fun last packet => (∃ attrs, HeaderRead mem data attrs packet) ∧
          packet.header.stop = last ∧ packet.name = stanzaNameOf mem word)
        (fun last packet attr next packet' hI hn hb => by
          obtain ⟨⟨attrs, hread⟩, rfl, hname⟩ := hI
          obtain ⟨a, hread', hstop, hname'⟩ := hread.attr hn (Option.some.inj hb)
          exact ⟨⟨_, hread'⟩, hstop, hname'.trans hname⟩)
        ⟨⟨[], hstart⟩, rfl, rfl⟩ hx
      obtain rfl : packet.header.stop = last := hlast
      generalize hinner : (if state = .empty then none else some (Span.mk next (mem.length -
        (word.stop - word.data) - 3)) : Option Span) = inner at hout
      obtain rfl : packet.header.data = data := by rw [hread.header]
      have hstanza : StanzaRead mem attrs { packet with inner := inner } :=
        ⟨⟨hread.scannable, hread.header, hread.text, hread.memory, hread.places, hread.sender,
            hread.recipient, hread.type⟩,
          ⟨word, hword, hname.symm, state, next, hend, hstate, hinner.symm⟩,
          fun he => hunset (hname.symm.trans he)⟩
      split at hout
      · cases hout
      · split at hout
        · obtain ⟨muc, mucUser, rfl⟩ := parsePresenceInner_eq hout
          exact ⟨attrs, ⟨⟨hstanza.read.scannable, hstanza.read.header, hstanza.read.text,
            hstanza.read.memory, hstanza.read.places, hstanza.read.sender,
            hstanza.read.recipient, hstanza.read.type⟩, hstanza.name, hstanza.named⟩⟩
        · cases hout
          exact ⟨attrs, hstanza⟩

/-! ## A stanza that has been cleaned up -/

theorem map_attr_markLast (hattr : ∀ a, (f a).attr = a) : ∀ {ps : List HeaderPiece},
    (markLast word f ps).map attr = ps.map attr
  | [] => rfl
  | p :: ps => by
    rw [markLast]
    split
    · rw [List.map_cons, List.map_cons, map_attr_markLast hattr]
    · split
      · rw [List.map_cons, List.map_cons, hattr]
      · rfl

theorem length_piecesText : ∀ {ps : List HeaderPiece}, (∀ p ∈ ps, p.Fits) →
    (piecesText ps).length = (attrsText (ps.map attr)).length
  | [], _ => rfl
  | p :: ps, h => by
    have hp : p.text.length = p.attr.text.length := h p List.mem_cons_self
    rw [piecesText_cons, List.map_cons, attrsText_cons, List.length_append, List.length_append, hp,
      length_piecesText fun q hq => h q (List.mem_cons_of_mem _ hq)]

theorem map_attr_kept (attrs : List AttrText) : (attrs.map HeaderPiece.kept).map attr = attrs := by
  rw [List.map_map]
  exact List.map_id attrs

/-- Pieces that take the place of the attributes. -/
structure Replaces (attrs : List AttrText) (ps : List HeaderPiece) : Prop where
  fits : ∀ p ∈ ps, p.Fits
  attrs : ps.map attr = attrs

theorem Replaces.length {attrs : List AttrText} {ps : List HeaderPiece} (h : Replaces attrs ps) :
    (piecesText ps).length = (attrsText attrs).length := by
  rw [length_piecesText h.fits, h.attrs]

theorem replaces_nameless (attrs : List AttrText) : Replaces attrs (nameless attrs) where
  fits := fits_nameless
  attrs := by
    unfold nameless
    rw [map_attr_markLast fun _ => rfl, map_attr_markLast fun _ => rfl, map_attr_kept]

theorem replaces_relayedHeader (attrs : List AttrText) : Replaces attrs (relayedHeader attrs) where
  fits := fits_blankedLast .sender fits_nameless
  attrs := by
    unfold relayedHeader
    rw [map_attr_markLast fun _ => rfl, (replaces_nameless attrs).attrs]

theorem replaces_answeredHeader (attrs : List AttrText) :
    Replaces attrs (answeredHeader attrs) where
  fits := fits_markLast (fun _ ha => fits_switched ha) fits_nameless
  attrs := by
    unfold answeredHeader
    rw [map_attr_markLast fun _ => rfl, (replaces_nameless attrs).attrs]

section Cleaned

variable {mem : Bytes} {attrs : List AttrText} {ingress : IncomingPacket}

/-- The nodes that are blanked lie behind the header. -/
theorem Accepted.blankedMem_front (h : Accepted ingress) (hdef : ingress.innerBytes.isSome) :
    (blankedMem ingress).length = ingress.mem.length ∧ ∀ s : Span,
      s.stop ≤ ingress.header.stop → s.bytes (blankedMem ingress) = s.bytes ingress.mem := by
  have hnone : ingress.muc = none ∧ ingress.mucUser = none →
      blankedMem ingress = ingress.mem := by
    rintro ⟨hmuc, huser⟩
    unfold blankedMem
    rw [hmuc, huser]
    rfl
  by_cases hname : ingress.name = .presence
  · cases hinner : ingress.inner with
    | none =>
      rw [hnone (h.found_none_of_inner hinner)]
      exact ⟨rfl, fun _ _ => rfl⟩
    | some inner =>
      have hle : inner.data ≤ inner.stop := by
        unfold IncomingPacket.innerBytes Span.copy at hdef
        rw [hinner] at hdef
        by_contra hlt
        simp [Nat.not_le.mp hlt] at hdef
      obtain ⟨hstart, hstop⟩ := h.headerLaid.2 inner hinner
      obtain ⟨nodes, last, hf⟩ := h.nodesFound hname hinner hle
      refine ⟨hf.length_blankedMem hstop, fun s hs => ?_⟩
      have hapart : ∀ n ∈ nodes, s.stop ≤ n.extent.data ∧ n.extent.data < n.extent.stop := by
        intro n hn
        have hw := hf.laid.within n hn
        omega
      rw [hf.bytes_blankedMem hstop fun n hn => .inr (.inr (hapart n hn).1), if_neg]
      rintro (he | he)
      · obtain ⟨n, hn, -, rfl⟩ := hf.muc s he
        have := hapart n hn
        omega
      · obtain ⟨n, hn, -, rfl⟩ := hf.mucUser s he
        have := hapart n hn
        omega
  · rw [hnone (h.found_none hname)]
    exact ⟨rfl, fun _ _ => rfl⟩

/-- What has been written over the header, as far as the rest of the block is concerned. -/
theorem bytes_middle {pre mid post : Bytes} {s : Span} (hdata : s.data = pre.length)
    (hstop : s.stop = pre.length + mid.length) : s.bytes (pre ++ (mid ++ post)) = mid := by
  unfold Span.bytes
  rw [hdata, hstop, List.drop_left, Nat.add_sub_cancel_left, List.take_left]

/-- The block of an accepted stanza, cut at the ends of its header. -/
theorem StanzaRead.split (h : StanzaRead mem attrs ingress) (hacc : Accepted ingress)
    (hdef : ingress.innerBytes.isSome) : ∃ pre post, pre.length = ingress.header.data ∧
      blankedMem ingress = pre ++ (attrsText attrs ++ post) := by
  have hhead := hacc.headerLaid.1.header
  obtain ⟨hlen, hfront⟩ := hacc.blankedMem_front hdef
  have hheader := hfront ingress.header (Nat.le_refl _)
  have hstop : ingress.header.stop = ingress.header.data + (attrsText attrs).length := by
    rw [h.read.header]
  have hattrs : ingress.header.bytes ingress.mem = attrsText attrs := by
    unfold Span.bytes
    rw [h.read.memory, h.read.text, hstop, Nat.add_sub_cancel_left, List.take_left]
  refine ⟨(blankedMem ingress).take ingress.header.data,
    (blankedMem ingress).drop ingress.header.stop, ?_, ?_⟩
  · rw [List.length_take, hlen]
    omega
  · have hcut : (blankedMem ingress).drop ingress.header.data
        = attrsText attrs ++ (blankedMem ingress).drop ingress.header.stop := by
      rw [← hattrs, ← hheader]
      unfold Span.bytes
      rw [hstop, Nat.add_sub_cancel_left, ← List.drop_drop, List.take_append_drop]
    rw [← hcut, List.take_append_drop]

/-- The block without the type and the receiver. -/
def namelessMem (ingress : IncomingPacket) : Bytes :=
  blankAttr (blankAttr (blankedMem ingress) ingress.typeAttr) ingress.toAttr

/-- What is left then, and where the sender is. -/
theorem StanzaRead.nameless (h : StanzaRead mem attrs ingress) (hacc : Accepted ingress)
    (hdef : ingress.innerBytes.isSome) : ∃ pre post, pre.length = ingress.header.data ∧
      namelessMem ingress = pre ++ (piecesText (nameless attrs) ++ post) ∧
      ingress.fromAttr = lastNamed AttrKey.sender.word pre.length (Mukite.nameless attrs) := by
  obtain ⟨pre, post, hpre, hsplit⟩ := h.split hacc hdef
  have hplace : ∀ k, ingress.attr k = lastNamed k.word pre.length (attrs.map .kept) := by
    intro k
    rw [hpre]
    exact h.read.places k
  have htype : ingress.typeAttr = _ := hplace .type
  have hto : ingress.toAttr = _ := hplace .recipient
  have hfrom : ingress.fromAttr = _ := hplace .sender
  refine ⟨pre, post, hpre, ?_, ?_⟩
  · unfold namelessMem
    rw [hsplit, ← piecesText_kept, htype, hto, blankAttr_pieces .type fits_map_kept,
      ← @lastNamed_blankedLast .type .recipient (by decide)]
    exact blankAttr_pieces .recipient (fits_blankedLast .type fits_map_kept)
  · unfold Mukite.nameless
    rw [lastNamed_blankedLast (by decide), lastNamed_blankedLast (by decide)]
    exact hfrom

/-- The header between the same ends. -/
theorem StanzaRead.header_bytes (h : StanzaRead mem attrs ingress) {ps : List HeaderPiece}
    (hps : Replaces attrs ps) {pre post : Bytes} (hpre : pre.length = ingress.header.data) :
    ingress.header.bytes (pre ++ (piecesText ps ++ post)) = piecesText ps := by
  have hstop : ingress.header.stop = ingress.header.data + (attrsText attrs).length := by
    rw [h.read.header]
  exact bytes_middle hpre.symm (by rw [hstop, hpre, hps.length])

/-- **The header of a stanza that is passed on.** -/
theorem StanzaRead.relayed (h : StanzaRead mem attrs ingress) (hacc : Accepted ingress)
    (hdef : ingress.innerBytes.isSome) :
    (packetCleanup ingress (packetCleanupFrom ||| packetCleanupTo)).headerBytes
      = piecesText (relayedHeader attrs) := by
  obtain ⟨pre, post, hpre, hsplit, hfrom⟩ := h.nameless hacc hdef
  have hmem : (packetCleanup ingress (packetCleanupFrom ||| packetCleanupTo)).mem
      = blankAttr (namelessMem ingress) ingress.fromAttr := rfl
  show ingress.header.bytes _ = _
  rw [hmem, hsplit, hfrom, blankAttr_pieces .sender fits_nameless]
  exact h.header_bytes (replaces_relayedHeader attrs) hpre

/-- **The header of a stanza that is answered.** -/
theorem StanzaRead.answered (h : StanzaRead mem attrs ingress) (hacc : Accepted ingress)
    (hdef : ingress.innerBytes.isSome) :
    (packetCleanup ingress (packetCleanupTo ||| packetCleanupSwitchFromTo)).headerBytes
      = piecesText (answeredHeader attrs) := by
  obtain ⟨pre, post, hpre, hsplit, hfrom⟩ := h.nameless hacc hdef
  have hmem : (packetCleanup ingress (packetCleanupTo ||| packetCleanupSwitchFromTo)).mem
      = switchFromTo (namelessMem ingress) ingress.fromAttr := rfl
  show ingress.header.bytes _ = _
  rw [hmem, hsplit, hfrom, switchFromTo_pieces fits_nameless]
  exact h.header_bytes (replaces_answeredHeader attrs) hpre

/-- **The payload is cleaned of the nodes that were found, and of nothing else.** -/
theorem Accepted.innerBytes_cleaned (h : Accepted ingress) (hdef : ingress.innerBytes.isSome)
    (mode : Nat) : (packetCleanup ingress mode).innerBytes
      = { ingress with mem := blankedMem ingress : IncomingPacket }.innerBytes := by
  have hedited := packetCleanup_editedBelow h.headerLaid.1 mode (h.blankedMem_front hdef).1
  have hsame : (packetCleanup ingress mode).inner = ingress.inner := rfl
  unfold IncomingPacket.innerBytes
  rw [hsame]
  dsimp only
  cases hinner : ingress.inner with
  | none => rfl
  | some inner =>
    have hstart := (h.headerLaid.2 inner hinner).1
    dsimp only [Span.copy]
    rw [hedited.bytes hstart]
    rfl

end Cleaned

end Mukite
