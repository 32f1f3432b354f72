import Mukite.Properties.Traversal

/-!
# A stanza is what the document says

`packet_parse` scans a block of memory. Where a printed element stands in it, with character data
before it, the function accepts it exactly when it is a stanza that a room can handle
(`Acceptable`), and the packet says what the element says (`Says`, `packetParse_document`).

The loop over the attributes is followed attribute by attribute, with the ones read so far in the
invariant (`AttrsSaid`): of two with the same name the later counts. The loop over the children of
a presence is followed along what a traversal reads (`ChildrenSaid`).
-/

namespace Mukite

open WhileLoop TextScan

/-! ## What an element says -/

/-- The stanza name that the name of an element is. -/
def stanzaNamed (name : Bytes) : StanzaName :=
  if name = lit "message" then .message
  else if name = lit "presence" then .presence
  else if name = lit "iq" then .iq
  else .unset

/-- The value of the last attribute with a name. -/
def saidValue (word : String) (attrs : List AttrText) : Option Bytes :=
  attrs.foldl (fun last a => if a.name = lit word then some a.value else last) none

/-- The value of the first one. -/
def firstValue (word : String) (attrs : List AttrText) : Option Bytes :=
  (attrs.find? (·.name == lit word)).map AttrText.value

def saidJid (word : String) (attrs : List AttrText) : Option Jid :=
  (saidValue word attrs).bind jidStruct

def saidType (name : StanzaName) (attrs : List AttrText) : Nat :=
  ((saidValue "type" attrs).bind (setType · name)).getD 0

/-- An attribute that does not drop the stanza. -/
def attrOk (name : StanzaName) (a : AttrText) : Bool :=
  if a.name = lit "from" ∨ a.name = lit "to" then (jidStruct a.value).isSome
  else if a.name = lit "type" then (setType a.value name).isSome
  else true

/-- The elements of a content, each with the character data before it. -/
def XmlContent.children : Bytes → XmlContent → List (Bytes × XmlElement)
  | _, .nil => []
  | run, .chars text rest => rest.children (run ++ text)
  | run, .empty tag rest => (run, .empty tag) :: rest.children []
  | run, .node tag inner space rest => (run, .node tag inner space) :: rest.children []

/-- What stands between the tags of an element. -/
def XmlElement.inside : XmlElement → XmlContent
  | .empty _ => .nil
  | .node _ inner _ => inner

/--
The payload of an element: what stands between the tags. The parser takes the end tag for one
without white space, so the payload reaches as far into it as there is white space.
-/
def XmlElement.payload : XmlElement → Buffer
  | .empty _ => none
  | .node tag inner space =>
    some (inner.text ++ (XmlToken.stop tag.name space).text.take space.length)

/-- An `<x/>` with the given namespace. -/
def isForm (ns : String) (child : Bytes × XmlElement) : Bool :=
  child.2.tag.name == lit "x" && firstValue "xmlns" child.2.tag.attrs == some (lit ns)

/-- The top-level forms of an element. -/
def XmlElement.forms (ns : String) (element : XmlElement) : List (Bytes × XmlElement) :=
  (element.inside.children []).filter (isForm ns)

/-- The form that a presence comes with, and the character data before it. -/
def XmlElement.form (ns : String) (element : XmlElement) : Option Bytes :=
  if stanzaNamed element.tag.name = .presence then
    (element.forms ns).head?.map (fun child => child.1 ++ child.2.text)
  else none

/-- A stanza that a room can handle. -/
structure Acceptable (element : XmlElement) : Prop where
  name : stanzaNamed element.tag.name ≠ .unset
  attrs : element.tag.attrs.all (attrOk (stanzaNamed element.tag.name)) = true
  sender : (saidJid "from" element.tag.attrs).isSome = true
  recipient : ∃ jid, saidJid "to" element.tag.attrs = some jid ∧
    (stanzaNamed element.tag.name ≠ .iq → bptBlank jid.node = false) ∧
    (stanzaNamed element.tag.name = .message → jid.resource = none →
      saidType .message element.tag.attrs = stanzaMessageGroupchat)
  forms : stanzaNamed element.tag.name = .presence →
    (element.forms xmlnsMuc).length ≤ 1 ∧ (element.forms xmlnsMucUser).length ≤ 1

/-- A packet says what an element says. -/
structure Says (element : XmlElement) (ingress : IncomingPacket) : Prop where
  name : ingress.name = stanzaNamed element.tag.name
  type : ingress.type = saidType (stanzaNamed element.tag.name) element.tag.attrs
  realFrom : saidJid "from" element.tag.attrs = some ingress.realFrom
  proxyTo : saidJid "to" element.tag.attrs = some ingress.proxyTo
  id : ingress.idAttr.map (fun a => a.value.bytes ingress.mem) = saidValue "id" element.tag.attrs
  header : ingress.headerBytes = attrsText element.tag.attrs
  inner : ingress.innerBytes = some element.payload
  muc : ingress.muc.map (Span.bytes ingress.mem) = element.form xmlnsMuc
  mucUser : ingress.mucUser.map (Span.bytes ingress.mem) = element.form xmlnsMucUser

/-- An attribute more is the last one. -/
theorem saidValue_concat (word : String) (attrs : List AttrText) (a : AttrText) :
    saidValue word (attrs ++ [a]) = if a.name = lit word then some a.value
      else saidValue word attrs := by
  unfold saidValue
  rw [List.foldl_append]
  rfl

theorem saidValue_concat_of_ne {word : String} {attrs : List AttrText} {a : AttrText}
    (h : a.name ≠ lit word) : saidValue word (attrs ++ [a]) = saidValue word attrs := by
  rw [saidValue_concat, if_neg h]

theorem saidJid_concat {word : String} {attrs : List AttrText} {a : AttrText} {jid : Jid}
    (h : a.name = lit word) (hj : jidStruct a.value = some jid) :
    saidJid word (attrs ++ [a]) = some jid := by
  unfold saidJid
  rw [saidValue_concat, if_pos h, Option.bind_some, hj]

theorem saidJid_concat_of_ne {word : String} {attrs : List AttrText} {a : AttrText}
    (h : a.name ≠ lit word) : saidJid word (attrs ++ [a]) = saidJid word attrs := by
  unfold saidJid
  rw [saidValue_concat_of_ne h]

theorem saidType_concat_of_ne {name : StanzaName} {attrs : List AttrText} {a : AttrText}
    (h : a.name ≠ lit "type") : saidType name (attrs ++ [a]) = saidType name attrs := by
  unfold saidType
  rw [saidValue_concat_of_ne h]

theorem attrOk_jid {name : StanzaName} {a : AttrText}
    (h : a.name = lit "from" ∨ a.name = lit "to") :
    attrOk name a = (jidStruct a.value).isSome := if_pos h

theorem attrOk_type {name : StanzaName} {a : AttrText} (h : a.name = lit "type") :
    attrOk name a = (setType a.value name).isSome := by
  unfold attrOk
  rw [if_neg (by rw [h]; decide), if_pos h]

theorem stanzaNameOf_spanIs {mem name : Bytes} {s : Span} (h : SpanIs mem s name) :
    stanzaNameOf mem s = stanzaNamed name := by
  unfold stanzaNameOf stanzaNamed
  simp only [h.eqLit, beq_iff_eq]

/-! ## Turns of a loop -/

section Turns

variable {σ ρ : Type} {mem : Bytes} {data next : Nat} {s : σ}

/-- **A loop over attributes goes round where there is one**, or leaves with what its body says. -/
theorem attrLoop_turn {body : σ → XmlAttr → Option (σ ⊕ ρ)} {attr : XmlAttr} {x : σ ⊕ ρ}
    (h : xmlfsmNextAttr mem data = some (.success attr, next)) (hbody : body s attr = some x) :
    attrLoop mem body data s
      = x.elim (attrLoop mem body next) (fun r => some (.inr (r, next))) := by
  unfold attrLoop
  rw [@whileLoop_unfold _ _ _ fun y => mem.length - y.1]
  · dsimp only
    simp only [h, hbody, Option.bind_eq_bind, Option.bind_some]
    cases x <;> rfl
  · rintro ⟨data, s⟩ ⟨data', s'⟩ hb
    obtain ⟨⟨state, next⟩, hnext, hb⟩ := Option.bind_eq_some_iff.mp hb
    cases state with
    | empty | noattr => cases hb
    | success attr =>
      obtain ⟨y, -, hb⟩ := Option.bind_eq_some_iff.mp hb
      cases y with
      | inr r => cases hb
      | inl s₁ =>
        cases hb
        obtain ⟨h₁, h₂, h₃, h₄, h₅, h₆⟩ := xmlfsmNextAttr_laid hnext
        dsimp only
        omega
  · unfold rounds
    omega

/-- It ends where the tag ends. -/
theorem attrLoop_end {body : σ → XmlAttr → Option (σ ⊕ ρ)} {state : AttrState}
    (h : xmlfsmNextAttr mem data = some (state, next)) (hend : state = .empty ∨ state = .noattr) :
    attrLoop mem body data s = some (.inl (state, next, s)) := by
  unfold attrLoop rounds
  rw [whileLoop]
  rcases hend with rfl | rfl
  · simp only [h, Option.bind_eq_bind, Option.bind_some, Option.pure_def]
  · simp only [h, Option.bind_eq_bind, Option.bind_some, Option.pure_def]

/-- A traversal moves forward. -/
theorem nextSibling_forward {buffer : Span} {nodes : XmlNodeTraverser}
    (h : xmlfsmNextSibling mem buffer = some (some nodes)) :
    buffer.data < nodes.buffer.data ∧ nodes.buffer.data ≤ mem.length := by
  unfold xmlfsmNextSibling at h
  obtain ⟨found, hskip, h⟩ := Option.bind_eq_some_iff.mp h
  cases found with
  | none => cases h
  | some stop =>
    obtain ⟨⟨name, data⟩, -, h⟩ := Option.bind_eq_some_iff.mp h
    cases h
    obtain ⟨bytes, hloop, hlen⟩ : ∃ bytes, skipNodeLoop {} buffer.data bytes = some stop ∧
        bytes.length ≤ mem.length - buffer.data := by
      unfold xmlfsmSkipNode at hskip
      split at hskip
      · refine ⟨_, Option.some.inj hskip, ?_⟩
        unfold Span.bytes
        rw [List.length_take, List.length_drop]
        omega
      · obtain ⟨stop', hstop, he⟩ := Option.map_eq_some_iff.mp hskip
        cases he
        exact ⟨_, hstop, Nat.le_of_eq List.length_drop⟩
    obtain ⟨node, rest, rfl, hne, rfl, -⟩ := skipNodeLoop_split hloop
    have hpos := List.length_pos_iff.mpr hne
    rw [List.length_append] at hlen
    dsimp only
    omega

/-- **A loop over siblings goes round where there is one**, or leaves with what its body says. -/
theorem siblingLoop_turn {body : σ → XmlNodeTraverser → Option (σ ⊕ ρ)} {buffer : Span}
    {nodes : XmlNodeTraverser} {x : σ ⊕ ρ} (h : xmlfsmNextSibling mem buffer = some (some nodes))
    (hbody : body s nodes = some x) : siblingLoop mem body buffer s
      = x.elim (siblingLoop mem body nodes.buffer) (fun r => some (.inr r)) := by
  unfold siblingLoop
  rw [@whileLoop_unfold _ _ _ fun y => mem.length - y.1.data]
  · dsimp only
    simp only [h, hbody, Option.bind_eq_bind, Option.bind_some]
    cases x <;> rfl
  · rintro ⟨buffer, s⟩ ⟨buffer', s'⟩ hb
    obtain ⟨found, hnext, hb⟩ := Option.bind_eq_some_iff.mp hb
    cases found with
    | none => cases hb
    | some nodes =>
      obtain ⟨y, -, hb⟩ := Option.bind_eq_some_iff.mp hb
      cases y with
      | inr r => cases hb
      | inl s₁ =>
        cases hb
        have hforward := nextSibling_forward hnext
        dsimp only at hforward ⊢
        omega
  · unfold rounds
    omega

theorem siblingLoop_end {body : σ → XmlNodeTraverser → Option (σ ⊕ ρ)} {buffer : Span}
    (h : xmlfsmNextSibling mem buffer = some none) :
    siblingLoop mem body buffer s = some (.inl s) := by
  unfold siblingLoop rounds
  rw [whileLoop]
  simp only [h, Option.bind_eq_bind, Option.bind_some, Option.pure_def]

end Turns

/-! ## Attributes -/

/-- What a packet says of the attributes that have been read. -/
structure AttrsSaid (mem : Bytes) (name : StanzaName) (start : Nat) (attrs : List AttrText)
    (stop : Nat) (packet : IncomingPacket) : Prop where
  ok : attrs.all (attrOk name) = true
  memory : packet.mem = mem
  named : packet.name = name
  header : packet.header = { data := start, stop := stop }
  realFrom : packet.realFrom = (saidJid "from" attrs).getD jidInit
  proxyTo : packet.proxyTo = (saidJid "to" attrs).getD jidInit
  type : packet.type = saidType name attrs
  id : packet.idAttr.map (fun a => a.value.bytes mem) = saidValue "id" attrs
  muc : packet.muc = none
  mucUser : packet.mucUser = none

section Attributes

variable {mem rest : Bytes} {name : StanzaName} {start data next : Nat} {done : List AttrText}
  {packet : IncomingPacket} {state : AttrState}

/-- One attribute more. -/
theorem packetAttr_said {a : AttrText} (h : AttrsSaid mem name start done data packet)
    (hmem : mem.drop data = a.text ++ rest) :
    (∃ packet', packetAttr packet (a.spans data) = .inl packet' ∧
      AttrsSaid mem name start (done ++ [a]) (data + a.text.length) packet') ∨
    (packetAttr packet (a.spans data) = .inr () ∧ attrOk name a = false) := by
  obtain ⟨hok, rfl, rfl, hheader, hfrom, hto, htype, hid, hmuc, hmucUser⟩ := h
  have hstop : ({ packet.header with stop := (a.spans data).value.stop + 1 } : Span)
      = { data := start, stop := data + a.text.length } := by
    rw [a.spans_stop, hheader]
  have hall : attrOk packet.name a = true → (done ++ [a]).all (attrOk packet.name) = true := by
    intro ha
    rw [List.all_append, hok, List.all_cons, ha]
    rfl
  have hlit : ∀ word : String, ((a.spans data).name.eqLit packet.mem word = true) =
      (a.name = lit word) := fun word => propext (eqLit_spans hmem)
  have hvalue := value_bytes_spans hmem
  -- an attribute with one name says nothing under another
  have hother : ∀ word word' : String, a.name = lit word → lit word ≠ lit word' →
      a.name ≠ lit word' := fun _ _ hname hne he => hne (hname.symm.trans he)
  unfold packetAttr
  dsimp only
  rw [hstop, hvalue]
  simp only [hlit]
  split
  · next hname =>
    cases hj : jidStruct a.value with
    | none => exact .inr ⟨rfl, by rw [attrOk_jid (.inl hname), hj]; rfl⟩
    | some jid =>
      have hok := hall (by rw [attrOk_jid (.inl hname), hj]; rfl)
      refine .inl ⟨_, rfl, hok, rfl, rfl, rfl, ?_, ?_, ?_, ?_, hmuc, hmucUser⟩
      · rw [saidJid_concat hname hj]
        rfl
      · rw [saidJid_concat_of_ne (hother "from" "to" hname (by decide))]
        exact hto
      · rw [saidType_concat_of_ne (hother "from" "type" hname (by decide))]
        exact htype
      · rw [saidValue_concat_of_ne (hother "from" "id" hname (by decide))]
        exact hid
  · next hnefrom =>
    rw [← saidJid_concat_of_ne hnefrom] at hfrom
    split
    · next hname =>
      cases hj : jidStruct a.value with
      | none => exact .inr ⟨rfl, by rw [attrOk_jid (.inr hname), hj]; rfl⟩
      | some jid =>
        have hok := hall (by rw [attrOk_jid (.inr hname), hj]; rfl)
        refine .inl ⟨_, rfl, hok, rfl, rfl, rfl, hfrom, ?_, ?_, ?_, hmuc, hmucUser⟩
        · rw [saidJid_concat hname hj]
          rfl
        · rw [saidType_concat_of_ne (hother "to" "type" hname (by decide))]
          exact htype
        · rw [saidValue_concat_of_ne (hother "to" "id" hname (by decide))]
          exact hid
    · next hneto =>
      rw [← saidJid_concat_of_ne hneto] at hto
      split
      · next hname =>
        cases hset : setType a.value packet.name with
        | none => exact .inr ⟨rfl, by rw [attrOk_type hname, hset]; rfl⟩
        | some type =>
          have hok := hall (by rw [attrOk_type hname, hset]; rfl)
          refine .inl ⟨_, rfl, hok, rfl, rfl, rfl, hfrom, hto, ?_, ?_, hmuc, hmucUser⟩
          · unfold saidType
            rw [saidValue_concat, if_pos hname, Option.bind_some, hset]
            rfl
          · rw [saidValue_concat_of_ne (hother "type" "id" hname (by decide))]
            exact hid
      · next hnetype =>
        have hok : attrOk packet.name a = true := by simp [attrOk, hnefrom, hneto, hnetype]
        rw [← saidType_concat_of_ne hnetype] at htype
        split
        · next hname =>
          refine .inl ⟨_, rfl, hall hok, rfl, rfl, rfl, hfrom, hto, htype, ?_, hmuc, hmucUser⟩
          rw [saidValue_concat, if_pos hname]
          exact congrArg some hvalue
        · next hneid =>
          rw [← saidValue_concat_of_ne hneid] at hid
          exact .inl ⟨_, rfl, hall hok, rfl, rfl, rfl, hfrom, hto, htype, hid, hmuc, hmucUser⟩

/-- **The attributes are read one by one**, up to the first that drops the stanza. -/
theorem attrLoop_said (hend : state = .empty ∨ state = .noattr) :
    ∀ {attrs done : List AttrText} {data : Nat} {packet : IncomingPacket},
    (∀ a ∈ attrs, a.Printed) → mem.drop data = attrsText attrs ++ rest →
    xmlfsmNextAttr mem (data + (attrsText attrs).length) = some (state, next) →
    AttrsSaid mem name start done data packet →
    (∃ packet', attrLoop mem (fun packet attr => some (packetAttr packet attr)) data packet
        = some (.inl (state, next, packet')) ∧
      AttrsSaid mem name start (done ++ attrs) (data + (attrsText attrs).length) packet') ∨
    ((∃ r, attrLoop mem (fun packet attr => some (packetAttr packet attr)) data packet
        = some (.inr r)) ∧ attrs.all (attrOk name) = false)
  | [], done, data, packet, _, _, hnext, hsaid =>
    .inl ⟨packet, attrLoop_end hnext hend, by rw [List.append_nil]; exact hsaid⟩
  | a :: attrs, done, data, packet, h, hmem, hnext, hsaid => by
    have htext : attrsText (a :: attrs) = a.text ++ attrsText attrs := rfl
    rw [htext, List.append_assoc] at hmem
    rw [htext, List.length_append, ← Nat.add_assoc] at hnext ⊢
    have hfound := (h a List.mem_cons_self).scannable.nextAttr hmem
    rcases packetAttr_said hsaid hmem with ⟨packet₁, hone, hsaid₁⟩ | ⟨hone, hbad⟩
    · rw [attrLoop_turn hfound (congrArg some hone), Sum.elim_inl]
      have hrest := attrLoop_said hend (fun b hb => h b (List.mem_cons_of_mem _ hb))
        (drop_add_of_drop hmem) hnext hsaid₁
      rw [List.append_assoc, List.singleton_append] at hrest
      refine hrest.imp_right fun ⟨hdropped, hbad⟩ => ⟨hdropped, ?_⟩
      rw [List.all_cons, hbad, Bool.and_false]
    · rw [attrLoop_turn hfound (congrArg some hone), Sum.elim_inr]
      exact .inr ⟨⟨_, rfl⟩, by rw [List.all_cons, hbad, Bool.false_and]⟩

/-- A search goes round at an attribute with another name. -/
theorem skiptoAttr_turn {word : String} {attr : XmlAttr}
    (h : xmlfsmNextAttr mem data = some (.success attr, next)) : xmlfsmSkiptoAttr mem data word
      = if attr.name.eqLit mem word then some (some attr, next)
        else xmlfsmSkiptoAttr mem next word := by
  unfold xmlfsmSkiptoAttr
  dsimp only
  split
  · next hname =>
    rw [attrLoop_turn h (if_pos hname)]
    rfl
  · next hname =>
    rw [attrLoop_turn h (if_neg hname)]
    rfl

/-- **A search finds the first attribute with the name**, if there is one. -/
theorem skiptoAttr_read {attrs : List AttrText} {word : String} {stop : Nat}
    (h : AttrsRead mem data attrs state stop) :
    ∃ found d, xmlfsmSkiptoAttr mem data word = some (found, d) ∧
      (found = none ∧ firstValue word attrs = none ∨
        ∃ attr value, found = some attr ∧ firstValue word attrs = some value ∧
          SpanIs mem attr.value value) := by
  induction h with
  | done h hend =>
    unfold xmlfsmSkiptoAttr
    dsimp only
    rw [attrLoop_end h hend]
    exact ⟨_, _, rfl, .inl ⟨rfl, rfl⟩⟩
  | @next data next last attr a attrs state h hname hvalue _ ih =>
    rw [skiptoAttr_turn h, hname.eqLit]
    unfold firstValue
    rw [List.find?_cons]
    split
    · next ha =>
      rw [ha]
      exact ⟨_, _, rfl, .inr ⟨attr, a.value, rfl, rfl, hvalue⟩⟩
    · next ha =>
      rw [Bool.not_eq_true] at ha
      rw [ha]
      exact ih

end Attributes

/-! ## Children of a presence -/

/-- At most one form with the namespace among these children, and where it has been found. -/
structure FormFound (mem : Bytes) (ns : String) (children : List (Bytes × XmlElement))
    (found : Option Span) : Prop where
  once : (children.filter (isForm ns)).length ≤ 1
  place : found.map (Span.bytes mem)
    = (children.filter (isForm ns)).head?.map (fun child => child.1 ++ child.2.text)

/-- What a packet says of the children that have been read. -/
structure ChildrenSaid (start : IncomingPacket) (children : List (Bytes × XmlElement))
    (packet : IncomingPacket) : Prop where
  rest : packet = { start with muc := packet.muc, mucUser := packet.mucUser }
  muc : FormFound start.mem xmlnsMuc children packet.muc
  mucUser : FormFound start.mem xmlnsMucUser children packet.mucUser

/-- More than one form of a kind. -/
def TwoForms (children : List (Bytes × XmlElement)) : Prop :=
  1 < (children.filter (isForm xmlnsMuc)).length ∨
    1 < (children.filter (isForm xmlnsMucUser)).length

/-- What comes of these children: they are read, or there are two forms of a kind. -/
def ChildrenOutcome (start : IncomingPacket) (children : List (Bytes × XmlElement))
    (x : Option (IncomingPacket ⊕ Unit)) : Prop :=
  (∃ packet, x = some (.inl packet) ∧ ChildrenSaid start children packet) ∨
    (x = some (.inr ()) ∧ TwoForms children)

section Children

variable {mem : Bytes} {ns : String} {children : List (Bytes × XmlElement)}
  {child : Bytes × XmlElement} {found : Option Span} {start packet : IncomingPacket}

theorem FormFound.other (h : FormFound mem ns children found) (hc : isForm ns child = false) :
    FormFound mem ns (children ++ [child]) found := by
  have hsame : (children ++ [child]).filter (isForm ns) = children.filter (isForm ns) := by
    rw [List.filter_append, List.filter_cons_of_neg (by rw [hc]; decide), List.filter_nil,
      List.append_nil]
  exact ⟨hsame ▸ h.once, hsame ▸ h.place⟩

theorem filter_form_concat (hc : isForm ns child = true) :
    (children ++ [child]).filter (isForm ns) = children.filter (isForm ns) ++ [child] := by
  rw [List.filter_append, List.filter_cons_of_pos hc, List.filter_nil]

/-- The first form is found. -/
theorem FormFound.first {s : Span} (h : FormFound mem ns children none)
    (hc : isForm ns child = true) (hs : s.bytes mem = child.1 ++ child.2.text) :
    FormFound mem ns (children ++ [child]) (some s) := by
  have hnil : children.filter (isForm ns) = [] :=
    List.head?_eq_none_iff.mp (Option.map_eq_none_iff.mp h.place.symm)
  constructor
  · rw [filter_form_concat hc, hnil]
    exact Nat.le_refl 1
  · rw [filter_form_concat hc, hnil]
    exact congrArg some hs

/-- Another one is one too many. -/
theorem FormFound.second {s : Span} (h : FormFound mem ns children (some s))
    (hc : isForm ns child = true) : 1 < ((children ++ [child]).filter (isForm ns)).length := by
  rw [filter_form_concat hc, List.length_append]
  have hne : children.filter (isForm ns) ≠ [] := by
    intro hnil
    have hplace := h.place
    rw [hnil] at hplace
    cases hplace
  exact Nat.succ_lt_succ (List.length_pos_iff.mpr hne)

theorem TwoForms.append (h : TwoForms children) (more : List (Bytes × XmlElement)) :
    TwoForms (children ++ more) := by
  unfold TwoForms at h ⊢
  simp only [List.filter_append, List.length_append]
  omega

/-- One child more. -/
theorem presenceChild_said {buffer : Span} {run : Bytes} {element : XmlElement}
    {nodes : XmlNodeTraverser} {state : AttrState} {stop : Nat}
    (h : ChildrenSaid start children packet)
    (hfound : FoundNode start.mem buffer run element nodes)
    (hattrs : AttrsRead start.mem nodes.node.data element.tag.attrs state stop) :
    ChildrenOutcome start (children ++ [(run, element)]) (presenceChild packet nodes) := by
  obtain ⟨hrest, hmuc, hmucUser⟩ := h
  have hmem : packet.mem = start.mem := by rw [hrest]
  -- a child that is no form changes nothing
  have hother : (∀ ns, isForm ns (run, element) = true → ns ≠ xmlnsMuc ∧ ns ≠ xmlnsMucUser) →
      ChildrenSaid start (children ++ [(run, element)]) packet := by
    intro hno
    refine ⟨hrest, hmuc.other ?_, hmucUser.other ?_⟩
    · exact Bool.eq_false_iff.mpr fun he => (hno _ he).1 rfl
    · exact Bool.eq_false_iff.mpr fun he => (hno _ he).2 rfl
  unfold presenceChild
  rw [hmem, hfound.name.eqLit]
  by_cases hx : (element.tag.name == lit "x") = true
  · obtain ⟨attr, d, hskip, hvalue⟩ := @skiptoAttr_read _ _ _ _ "xmlns" _ hattrs
    have hform : ∀ ns, isForm ns (run, element) =
        (firstValue "xmlns" element.tag.attrs == some (lit ns)) := by
      intro ns
      unfold isForm
      rw [hx, Bool.true_and]
    rw [hx, hskip]
    rcases hvalue with ⟨rfl, hnone⟩ | ⟨attr, value, rfl, hsome, hspan⟩
    · refine .inl ⟨packet, rfl, hother fun ns he => ?_⟩
      rw [hform, hnone] at he
      cases he
    · have hextent := hfound.extent.bytes
      have hns : ∀ ns, isForm ns (run, element) = (value == lit ns) := by
        intro ns
        rw [hform, hsome]
        rfl
      simp only [Bool.not_true, Bool.false_eq_true, if_false, Option.bind_eq_bind,
        Option.bind_some, hspan.eqLit]
      split
      · next huser =>
        have hnomuc : isForm xmlnsMuc (run, element) = false := by
          rw [hns, eq_of_beq huser]
          decide
        split
        · next hsecond =>
          obtain ⟨s, hs⟩ := Option.isSome_iff_exists.mp hsecond
          rw [hs] at hmucUser
          exact .inr ⟨rfl, .inr (hmucUser.second (by rw [hns]; exact huser))⟩
        · next hfirst =>
          rw [Option.not_isSome_iff_eq_none.mp hfirst] at hmucUser
          refine .inl ⟨_, rfl, ?_, hmuc.other hnomuc, ?_⟩
          · rw [hrest]
          · exact hmucUser.first (by rw [hns]; exact huser) hextent
      · next hnouser =>
        have hnouser : isForm xmlnsMucUser (run, element) = false := by
          rw [hns]
          exact Bool.eq_false_iff.mpr hnouser
        split
        · next hismuc =>
          split
          · next hsecond =>
            obtain ⟨s, hs⟩ := Option.isSome_iff_exists.mp hsecond
            rw [hs] at hmuc
            exact .inr ⟨rfl, .inl (hmuc.second (by rw [hns]; exact hismuc))⟩
          · next hfirst =>
            rw [Option.not_isSome_iff_eq_none.mp hfirst] at hmuc
            refine .inl ⟨_, rfl, ?_, ?_, hmucUser.other hnouser⟩
            · rw [hrest]
            · exact hmuc.first (by rw [hns]; exact hismuc) hextent
        · next hnomuc =>
          refine .inl ⟨packet, rfl, hother fun ns he => ?_⟩
          rw [hns] at he
          constructor
          · rintro rfl
            exact hnomuc he
          · rintro rfl
            rw [hns] at hnouser
            exact Bool.eq_false_iff.mp hnouser he
  · rw [Bool.not_eq_true] at hx
    refine .inl ⟨packet, by rw [hx]; rfl, hother fun ns he => ?_⟩
    unfold isForm at he
    rw [hx] at he
    cases he

/-- The loop at one child, if it is known what comes of the others. -/
theorem siblingLoop_child {buffer : Span} {run : Bytes} {element : XmlElement}
    {nodes : XmlNodeTraverser} {state : AttrState} {stop : Nat} {more : List (Bytes × XmlElement)}
    (h : xmlfsmNextSibling start.mem buffer = some (some nodes))
    (hfound : FoundNode start.mem buffer run element nodes)
    (hattrs : AttrsRead start.mem nodes.node.data element.tag.attrs state stop)
    (hsaid : ChildrenSaid start children packet)
    (hmore : ∀ packet, ChildrenSaid start (children ++ [(run, element)]) packet →
      ChildrenOutcome start (children ++ [(run, element)] ++ more)
        (siblingLoop start.mem presenceChild nodes.buffer packet)) :
    ChildrenOutcome start (children ++ (run, element) :: more)
      (siblingLoop start.mem presenceChild buffer packet) := by
  rw [List.append_cons]
  rcases presenceChild_said hsaid hfound hattrs with ⟨packet₁, hone, hsaid₁⟩ | ⟨hone, htwo⟩
  · rw [siblingLoop_turn h hone]
    exact hmore packet₁ hsaid₁
  · rw [siblingLoop_turn h hone]
    exact .inr ⟨rfl, htwo.append more⟩

/-- **The children are read one by one**, up to a second form of a kind. -/
theorem siblingLoop_said {buffer : Span} {run : Bytes} {content : XmlContent}
    (h : ContentRead start.mem buffer run content) (hsaid : ChildrenSaid start children packet) :
    ChildrenOutcome start (children ++ content.children run)
      (siblingLoop start.mem presenceChild buffer packet) := by
  induction h generalizing children packet with
  | nil h =>
    rw [siblingLoop_end h]
    refine .inl ⟨packet, rfl, ?_⟩
    unfold XmlContent.children
    rw [List.append_nil]
    exact hsaid
  | chars _ ih => exact ih hsaid
  | empty h hfound hattrs _ ih =>
    exact siblingLoop_child h hfound hattrs hsaid fun packet hsaid => ih hsaid
  | node h hfound hattrs _ _ _ ih =>
    exact siblingLoop_child h hfound hattrs hsaid fun packet hsaid => ih hsaid

/-- **A presence has at most one form of each kind**, or is dropped. -/
theorem parsePresenceInner_said {content : XmlContent}
    (h : ContentRead start.mem (spanOf start.inner) [] content) (hmuc : start.muc = none)
    (hmucUser : start.mucUser = none) :
    (∃ packet, parsePresenceInner start = some (some packet) ∧
      ChildrenSaid start (content.children []) packet) ∨
    (parsePresenceInner start = some none ∧ TwoForms (content.children [])) := by
  have hsaid : ChildrenSaid start [] start := by
    refine ⟨rfl, ⟨Nat.zero_le 1, ?_⟩, ⟨Nat.zero_le 1, ?_⟩⟩
    · rw [hmuc]
      rfl
    · rw [hmucUser]
      rfl
  unfold parsePresenceInner
  rcases siblingLoop_said h hsaid with ⟨packet, hloop, hread⟩ | ⟨hloop, htwo⟩
  · rw [hloop]
    exact .inl ⟨packet, rfl, hread⟩
  · rw [hloop]
    exact .inr ⟨rfl, htwo⟩

end Children

/-! ## The stanza -/

section Stanza

variable {mem run : Bytes} {element : XmlElement} {name : StanzaName} {attrs : List AttrText}
  {start stop : Nat} {packet : IncomingPacket}

/-- What a JID says it says with a host. -/
theorem jidEmpty_said (word : String) :
    jidEmpty ((saidJid word attrs).getD jidInit) = !(saidJid word attrs).isSome := by
  cases hj : saidJid word attrs with
  | none => rfl
  | some jid =>
    obtain ⟨value, -, hparsed⟩ := Option.bind_eq_some_iff.mp hj
    have hsize := (ParsedJid.sizes ⟨value, hparsed⟩).1
    cases hhost : jid.host with
    | none =>
      rw [hhost] at hsize
      exact absurd hsize (Nat.lt_irrefl 0)
    | some host =>
      unfold jidEmpty
      rw [Option.getD_some, hhost]
      rfl

/-- **What is asked of the attributes**, of their values. -/
theorem AttrsSaid.routable_iff (h : AttrsSaid mem name start attrs stop packet) :
    routable packet = true ↔ (saidJid "from" attrs).isSome = true ∧
      ∃ jid, saidJid "to" attrs = some jid ∧ (name ≠ .iq → bptBlank jid.node = false) ∧
        (name = .message → jid.resource = none →
          saidType .message attrs = stanzaMessageGroupchat) := by
  obtain ⟨-, -, rfl, -, hfrom, hto, htype, -, -, -⟩ := h
  unfold routable
  rw [hfrom, hto, htype, jidEmpty_said, jidEmpty_said, Bool.not_not, Bool.not_not]
  cases saidJid "to" attrs with
  | none => simp
  | some jid =>
    cases hresource : jid.resource with
    | none => cases packet.name <;> simp [hresource]
    | some resource => cases packet.name <;> simp [hresource]

/-- No node ends in a part of an end tag. -/
theorem skip_stop_take {name space : Bytes} (hname : name ≠ [] ∧ name.all nameChar = true)
    (hspace : ∀ c ∈ space, whitespace c = true) (hrun : Escaped run) (n : Nat) :
    skipNodeLoop {} 0 (run ++ (XmlToken.stop name space).text.take n) = none := by
  have hnone := skip_stop hname hspace hrun
  rw [← List.take_append_drop n (XmlToken.stop name space).text, ← List.append_assoc,
    skipNodeLoop_text] at hnone
  rw [skipNodeLoop_text]
  refine skip_eq_none_iff.mpr fun hzero => skip_eq_none_iff.mp hnone ?_
  rw [levels_append]
  exact List.mem_append_left _ hzero

/-- Where the parser puts the payload of a stanza. -/
def innerOf (mem name : Bytes) (state : AttrState) (next : Nat) : Option Span :=
  if state = .empty then none else some { data := next, stop := mem.length - name.length - 3 }

/-- What there is to read of an element behind its name. -/
structure TagRead (mem : Bytes) (element : XmlElement) (start : Nat) (state : AttrState)
    (next : Nat) : Prop where
  attrs : mem.drop start = attrsText element.tag.attrs ++
    mem.drop (start + (attrsText element.tag.attrs).length)
  behind : xmlfsmNextAttr mem (start + (attrsText element.tag.attrs).length) = some (state, next)
  ends : state = .empty ∨ state = .noattr
  payload : ∀ packet : IncomingPacket, packet.mem = mem →
    packet.inner = innerOf mem element.tag.name state next →
    packet.innerBytes = some element.payload
  content : ContentRead mem (spanOf (innerOf mem element.tag.name state next)) [] element.inside

/-- **Behind its name an element is read as it is printed.** -/
theorem XmlElement.Printed.tagRead {k : Nat} (h : element.Printed)
    (hmem : mem.drop k = element.text) : ∃ state next,
      TagRead mem element (k + 1 + element.tag.name.length) state next := by
  have htag := h.tag
  cases element with
  | empty tag =>
    rw [XmlElement.text_empty] at hmem
    have hattrs := drop_add_of_drop (drop_succ_of_drop hmem)
    have hspace := drop_add_of_drop hattrs
    have hnext := nextAttr_of_end hspace htag.space (.inl rfl)
    refine ⟨_, _, hattrs.trans (congrArg _ hspace.symm), hnext, .inl rfl, fun packet _ hinner => ?_,
      .nil (@nextSibling_none _ _ [] 0 rfl rfl)⟩
    unfold IncomingPacket.innerBytes
    rw [hinner]
    rfl
  | node tag inner space =>
    have hwhole := XmlElement.printed_content.mpr h
    obtain ⟨-, hinner, hwhite, -⟩ := printed_node.mp hwhole
    have hlen := congrArg List.length hmem
    rw [XmlElement.text_node] at hmem hlen
    have hattrs := drop_add_of_drop (drop_succ_of_drop hmem)
    have hspace := drop_add_of_drop hattrs
    have hnext := nextAttr_of_end hspace htag.space (.inr rfl)
    rw [if_neg (by decide)] at hnext
    have hsize : (XmlToken.stop tag.name space).text.length
        = tag.name.length + space.length + 3 := by
      have hgt : lit ">" = [ch '>'] := rfl
      simp only [XmlToken.text, hgt, List.length_cons, List.length_append, List.length_nil]
    -- the payload ends as many characters into the end tag as there is white space in it
    obtain ⟨part, tail, hparts, hpart⟩ : ∃ part tail,
        (XmlToken.stop tag.name space).text = part ++ tail ∧ part.length = space.length ∧
          part = (XmlToken.stop tag.name space).text.take space.length := by
      refine ⟨_, _, (List.take_append_drop space.length _).symm, ?_, rfl⟩
      rw [List.length_take]
      omega
    have hinside := drop_succ_of_drop (drop_add_of_drop hspace)
    have hstop : mem.length - tag.name.length - 3 = k + 1 + tag.name.length +
        (attrsText tag.attrs).length + tag.space.length + 1 + (inner.text ++ part).length := by
      simp only [List.length_drop, List.length_cons, List.length_append] at hlen ⊢
      omega
    refine ⟨_, _, hattrs.trans (congrArg _ hspace.symm), hnext, .inr rfl,
      fun packet hm hfound => ?_, ?_⟩
    · rw [hparts, ← List.append_assoc] at hinside
      have hcopy := (spanIs_of_drop hinside).copy
      rw [← hstop] at hcopy
      have hpayload : (XmlElement.node tag inner space).payload = some (inner.text ++ part) := by
        rw [hpart.2]
        rfl
      unfold IncomingPacket.innerBytes
      rw [hfound, hm, hpayload]
      exact congrArg (Option.map some) hcopy
    · show ContentRead mem { data := _, stop := mem.length - tag.name.length - 3 } [] inner
      rw [hparts] at hinside
      refine contentRead_text hinner rfl (fun run hrun => ?_) hinside ?_
      · rw [hpart.2]
        exact skip_stop_take htag.name hwhite hrun _
      · rw [hstop, List.length_append, List.length_nil, Nat.add_zero, ← Nat.add_assoc]

/-- What the parser makes of an element. -/
inductive Judged (element : XmlElement) : Option IncomingPacket → Prop
  | dropped (h : ¬ Acceptable element) : Judged element none
  | kept {ingress : IncomingPacket} (h : Acceptable element) (hs : Says element ingress)
    (hread : ContentRead ingress.mem (spanOf ingress.inner) [] element.inside) :
    Judged element (some ingress)

/-- The name of an element is found where it stands. -/
theorem XmlElement.Printed.nodeName (h : element.Printed) (hrun : Escaped run) :
    ∃ word, xmlfsmNodeName (run ++ element.text) { data := 0, stop := (run ++ element.text).length }
        = some (word, run.length + 1 + element.tag.name.length) ∧
      SpanIs (run ++ element.text) word element.tag.name := by
  have hlen : (run ++ element.text).length = 0 + run.length + element.text.length := by
    rw [List.length_append, Nat.zero_add]
  obtain ⟨hnext, hfound⟩ := @foundNode (run ++ element.text) run [] 0 element
    (run ++ element.text).length h hrun (by rw [List.append_nil]; rfl) (Nat.le_of_eq hlen.symm)
  have hname := (xmlfsmNextSibling_laid (Nat.zero_le _) hnext).name
  refine ⟨_, ?_, hfound.name⟩
  unfold XmlNodeTraverser.extent ledNodeAt at hname
  dsimp only at hname
  rw [← hlen, Nat.zero_add] at hname
  rw [hname]
  unfold ledNodeAt
  rw [Nat.zero_add]

/-- A packet with the attributes, the payload and the forms of an element says what it says. -/
theorem AttrsSaid.faithful {packet' : IncomingPacket} {state : AttrState} {next : Nat}
    (h : AttrsSaid mem (stanzaNamed element.tag.name) start element.tag.attrs
      (start + (attrsText element.tag.attrs).length) packet)
    (hread : TagRead mem element start state next) (hroutable : routable packet = true)
    (hsame : packet' = { packet with
      inner := innerOf mem element.tag.name state next
      muc := packet'.muc
      mucUser := packet'.mucUser })
    (hmuc : packet'.muc.map (Span.bytes mem) = element.form xmlnsMuc)
    (hmucUser : packet'.mucUser.map (Span.bytes mem) = element.form xmlnsMucUser) :
    Says element packet' := by
  obtain ⟨hfrom, jid, hto, -⟩ := h.routable_iff.mp hroutable
  obtain ⟨sender, hsender⟩ := Option.isSome_iff_exists.mp hfrom
  have hmem : packet'.mem = mem := by
    rw [hsame]
    exact h.memory
  have hbytes : Span.bytes packet'.mem = Span.bytes mem := by rw [hmem]
  refine ⟨?_, ?_, ?_, ?_, ?_, ?_, ?_, ?_, ?_⟩
  · rw [hsame]
    exact h.named
  · rw [hsame]
    exact h.type
  · rw [hsame, hsender]
    exact congrArg some (by rw [h.realFrom, hsender]; rfl)
  · rw [hsame, hto]
    exact congrArg some (by rw [h.proxyTo, hto]; rfl)
  · rw [hbytes, hsame]
    exact h.id
  · have hheader := (spanIs_of_drop hread.attrs).bytes
    unfold IncomingPacket.headerBytes
    rw [hbytes, hsame]
    exact h.header ▸ hheader
  · exact hread.payload packet' hmem (by rw [hsame])
  · rw [hbytes]
    exact hmuc
  · rw [hbytes]
    exact hmucUser

section Admitted

variable {state : AttrState} {next : Nat}

/-- A presence with valid attributes is judged by the forms in it. -/
theorem AttrsSaid.judged_presence
    (h : AttrsSaid mem (stanzaNamed element.tag.name) start element.tag.attrs
      (start + (attrsText element.tag.attrs).length) packet)
    (hread : TagRead mem element start state next) (hr : routable packet = true)
    (hpresence : stanzaNamed element.tag.name = .presence) :
    ∃ r, parsePresenceInner { packet with inner := innerOf mem element.tag.name state next }
      = some r ∧ Judged element r := by
  have hadmitted := h.routable_iff.mp hr
  have hnamed : stanzaNamed element.tag.name ≠ .unset := by rw [hpresence]; decide
  have hform : ∀ ns, element.form ns = (element.forms ns).head?.map
      (fun child => child.1 ++ child.2.text) := fun ns => if_pos hpresence
  have hcontent : ContentRead packet.mem (spanOf (innerOf mem element.tag.name state next)) []
      element.inside := by
    rw [h.memory]
    exact hread.content
  rcases @parsePresenceInner_said
    { packet with inner := innerOf mem element.tag.name state next } _ hcontent h.muc h.mucUser
    with ⟨packet', hinner, hrest, hmuc, hmucUser⟩ | ⟨hinner, htwo⟩
  · have hsays : Says element packet' := by
      refine h.faithful hread hr ?_ ?_ ?_
      · rw [hrest]
      · rw [hform, ← h.memory]
        exact hmuc.place
      · rw [hform, ← h.memory]
        exact hmucUser.place
    refine ⟨_, hinner, .kept ⟨hnamed, h.ok, hadmitted.1, hadmitted.2,
      fun _ => ⟨hmuc.once, hmucUser.once⟩⟩ hsays ?_⟩
    rw [hrest]
    exact hcontent
  · refine ⟨none, hinner, .dropped fun ha => ?_⟩
    obtain ⟨hmuc, hmucUser⟩ := ha.forms hpresence
    rcases htwo with htwo | htwo
    · exact Nat.not_lt.mpr hmuc htwo
    · exact Nat.not_lt.mpr hmucUser htwo

/-- Nobody looks into a message or a query. -/
theorem AttrsSaid.judged_other
    (h : AttrsSaid mem (stanzaNamed element.tag.name) start element.tag.attrs
      (start + (attrsText element.tag.attrs).length) packet)
    (hread : TagRead mem element start state next) (hr : routable packet = true)
    (hnamed : stanzaNamed element.tag.name ≠ .unset)
    (hpresence : stanzaNamed element.tag.name ≠ .presence) :
    Judged element (some { packet with inner := innerOf mem element.tag.name state next }) := by
  have hadmitted := h.routable_iff.mp hr
  have hform : ∀ ns, element.form ns = none := fun ns => if_neg hpresence
  refine .kept ⟨hnamed, h.ok, hadmitted.1, hadmitted.2, fun he => absurd he hpresence⟩
    (h.faithful hread hr rfl ?_ ?_) ?_
  · rw [hform]
    exact congrArg (Option.map _) h.muc
  · rw [hform]
    exact congrArg (Option.map _) h.mucUser
  · rw [h.memory]
    exact hread.content

end Admitted

/-- **An element is judged by what it says.** -/
theorem packetParse_judged (h : element.Printed) (hrun : Escaped run) :
    ∃ r, packetParse (run ++ element.text) = some r ∧ Judged element r := by
  obtain ⟨word, hword, hspan⟩ := h.nodeName hrun
  obtain ⟨state, next, hread⟩ := @XmlElement.Printed.tagRead (run ++ element.text) element _ h
    (@List.drop_left _ run element.text)
  have hsize : word.stop - word.data = element.tag.name.length := by
    have := hspan.size
    unfold Span.size at this
    omega
  have hstart : AttrsSaid (run ++ element.text) (stanzaNamed element.tag.name)
      (run.length + 1 + element.tag.name.length) [] (run.length + 1 + element.tag.name.length)
      { name := stanzaNamed element.tag.name, type := 0, realFrom := jidInit, proxyTo := jidInit
        mem := run ++ element.text
        header := { data := run.length + 1 + element.tag.name.length
                    stop := run.length + 1 + element.tag.name.length }
        inner := none, fromAttr := none, toAttr := none, idAttr := none, typeAttr := none
        muc := none, mucUser := none } :=
    ⟨rfl, rfl, rfl, rfl, rfl, rfl, rfl, rfl, rfl, rfl⟩
  unfold packetParse
  rw [hword]
  dsimp only [Option.bind_eq_bind, Option.bind_some]
  rw [stanzaNameOf_spanIs hspan, hsize]
  split
  · next hunset => exact ⟨none, rfl, .dropped fun ha => ha.name hunset⟩
  · next hnamed =>
    rcases attrLoop_said hread.ends h.tag.attrs hread.attrs hread.behind hstart with
      ⟨packet, hloop, hsaid⟩ | ⟨⟨r, hloop⟩, hbad⟩
    · rw [List.nil_append] at hsaid
      -- the payload is no matter for the checks of the attributes
      have hroutable : ∀ inner, routable { packet with inner := inner } = routable packet :=
        fun _ => rfl
      have hinnerOf : (if state = .empty then none else some (Span.mk next
          ((run ++ element.text).length - element.tag.name.length - 3)) : Option Span)
            = innerOf (run ++ element.text) element.tag.name state next := rfl
      rw [hloop]
      dsimp only [Option.bind_some]
      rw [hinnerOf, hroutable]
      cases hr : routable packet with
      | false =>
        refine ⟨none, rfl, .dropped fun ha => ?_⟩
        rw [hsaid.routable_iff.mpr ⟨ha.sender, ha.recipient⟩] at hr
        cases hr
      | true =>
        split
        · next hno => cases hno
        split
        · next hpresence =>
          exact hsaid.judged_presence hread hr (hsaid.named.symm.trans hpresence)
        · next hpresence =>
          have hother : stanzaNamed element.tag.name ≠ .presence :=
            fun he => hpresence (hsaid.named.trans he)
          exact ⟨_, rfl, hsaid.judged_other hread hr hnamed hother⟩
    · rw [hloop]
      exact ⟨none, rfl, .dropped fun ha => by rw [ha.attrs] at hbad; cases hbad⟩

/--
**A stanza is what the document says.** Where a printed element stands in the memory, with character
data before it, `packet_parse` never leaves the block, accepts the element if and only if it is a
stanza that a room can handle, and the packet says what the element says.
-/
theorem packetParse_document (h : element.Printed) (hrun : Escaped run) :
    (Acceptable element → ∃ ingress, packetParse (run ++ element.text) = some (some ingress) ∧
      Says element ingress) ∧
    (¬ Acceptable element → packetParse (run ++ element.text) = some none) := by
  obtain ⟨r, hparse, hjudged⟩ := packetParse_judged h hrun
  cases hjudged with
  | dropped hno => exact ⟨fun ha => absurd ha hno, fun _ => hparse⟩
  | @kept ingress ha hs _ => exact ⟨fun _ => ⟨ingress, hparse, hs⟩, fun hno => absurd ha hno⟩

/-- The payload of an accepted element is read where it stands. -/
theorem packetParse_contentRead {ingress : IncomingPacket} (h : element.Printed)
    (hrun : Escaped run) (hp : packetParse (run ++ element.text) = some (some ingress)) :
    Says element ingress ∧ ContentRead ingress.mem (spanOf ingress.inner) [] element.inside := by
  obtain ⟨r, hparse, hjudged⟩ := packetParse_judged h hrun
  rw [hp] at hparse
  obtain rfl := Option.some.inj hparse
  cases hjudged with
  | kept _ hs hread => exact ⟨hs, hread⟩

end Stanza

/-! ## One form, and two -/

/-- An attribute in single quotes. -/
def quotedAttr (name value : String) : AttrText where
  lead := lit " "
  name := lit name
  gap := lit "="
  quote := quote1
  value := lit value

theorem printed_quotedAttr {name value : String}
    (hname : lit name ≠ [] ∧ (lit name).all nameChar = true) (hvalue : quote1 ∉ lit value) :
    (quotedAttr name value).Printed where
  lead := by
    refine ⟨List.cons_ne_nil _ _, fun c hc => ?_⟩
    obtain rfl : c = ch ' ' := by simpa [quotedAttr, lit] using hc
    rfl
  name := hname
  gap := ⟨[], [], fun _ hc => absurd hc List.not_mem_nil, rfl⟩
  quote := .inl rfl
  value := hvalue

/-- `<x xmlns='http://jabber.org/protocol/muc'/>`. -/
def mucTag : XmlTag where
  name := lit "x"
  attrs := [quotedAttr "xmlns" xmlnsMuc]
  space := []

def arrivalTag : XmlTag where
  name := lit "presence"
  attrs := [quotedAttr "from" "carol@i/pc", quotedAttr "to" "room@conf/ca"]
  space := []

/-- Somebody comes, with these children. -/
def arrivalElement (content : XmlContent) : XmlElement := .node arrivalTag content []

theorem printed_arrivalElement {content : XmlContent} (h : content.Printed) :
    (arrivalElement content).Printed := by
  have htag : arrivalTag.Printed := by
    refine ⟨by decide, fun a ha => ?_, fun _ hc => absurd hc List.not_mem_nil⟩
    simp only [arrivalTag, List.mem_cons, List.not_mem_nil, or_false] at ha
    rcases ha with rfl | rfl
    · exact printed_quotedAttr (by decide) (by decide)
    · exact printed_quotedAttr (by decide) (by decide)
  exact XmlElement.printed_content.mp (printed_node.mpr ⟨htag, h,
    fun _ hc => absurd hc List.not_mem_nil, fun _ ht => absurd ht List.not_mem_nil⟩)

theorem printed_mucTag {rest : XmlContent} (h : rest.Printed) :
    (XmlContent.empty mucTag rest).Printed := by
  refine printed_empty.mpr ⟨⟨by decide, fun a ha => ?_, fun _ hc => absurd hc List.not_mem_nil⟩, h⟩
  rw [List.mem_singleton.mp ha]
  exact printed_quotedAttr (by decide) (by decide)

/-- A presence with one form behind some text is accepted, one with two forms is not. -/
theorem packetParse_document_forms :
    (∃ ingress, packetParse (lit "t" ++
        (arrivalElement (.chars (lit "t") (.empty mucTag .nil))).text) = some (some ingress) ∧
      Says (arrivalElement (.chars (lit "t") (.empty mucTag .nil))) ingress) ∧
    packetParse ([] ++ (arrivalElement (.empty mucTag (.empty mucTag .nil))).text) = some none := by
  have hnil : XmlContent.nil.Printed := fun _ ht => absurd ht List.not_mem_nil
  have hone : (XmlContent.empty mucTag .nil).Printed := printed_mucTag hnil
  refine ⟨(packetParse_document (printed_arrivalElement (printed_chars.mpr ⟨by decide, hone⟩))
      (by decide)).1 ?_,
    (@packetParse_document [] _ (printed_arrivalElement (printed_mucTag hone)) rfl).2 fun ha => ?_⟩
  · refine ⟨by decide, by decide, by decide, ⟨_, rfl, fun _ => by decide, fun he => ?_⟩,
      fun _ => ?_⟩
    · exact absurd he (by decide)
    · decide
  · have hforms := (ha.forms (by decide)).1
    exact absurd hforms (by decide)

end Mukite
