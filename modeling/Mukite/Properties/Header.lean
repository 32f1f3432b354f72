import Mukite.Packet

/-!
# The header of a stanza

`packet_parse` goes through the attributes once, so those it keeps lie one after the other, and
`packet_cleanup` can overwrite one of them without touching another.

* `Accepted.headerLaid`: where the attributes of an accepted stanza lie.
* `HeaderLaid.id_switched`, `HeaderLaid.sender_switched`: what the clean-up for an answer leaves of
  the header.
-/

namespace Mukite

/-- The attributes that `packet_parse` keeps. -/
inductive AttrKey
  | sender
  | recipient
  | type
  | id
deriving DecidableEq

def IncomingPacket.attr (packet : IncomingPacket) : AttrKey → Option XmlAttr
  | .sender => packet.fromAttr
  | .recipient => packet.toAttr
  | .type => packet.typeAttr
  | .id => packet.idAttr

/-- An attribute with its closing quote. -/
def XmlAttr.extent (attr : XmlAttr) : Span := { data := attr.name.data, stop := attr.value.stop + 1 }

/-- Two extents have no byte in common. -/
def Span.Apart (s t : Span) : Prop := s.stop ≤ t.data ∨ t.stop ≤ s.data

theorem Span.Apart.symm {s t : Span} (h : s.Apart t) : t.Apart s := Or.symm h

/-- Where the attributes of a packet lie. -/
structure HeaderLaid (packet : IncomingPacket) : Prop where
  header : packet.header.data ≤ packet.header.stop ∧ packet.header.stop ≤ packet.mem.length
  attrs : ∀ k a, packet.attr k = some a → packet.header.data ≤ a.name.data ∧
    a.name.data ≤ a.name.stop ∧ a.name.stop < a.value.data ∧ a.value.data ≤ a.value.stop ∧
    a.value.stop < packet.header.stop
  apart : ∀ k l a b, k ≠ l → packet.attr k = some a → packet.attr l = some b →
    a.extent.Apart b.extent
  fromName : ∀ a, packet.fromAttr = some a → a.name.bytes packet.mem = lit "from"
  fromAttr : packet.realFrom = jidInit ∨ packet.fromAttr.isSome = true

/-! ## Parsing -/

/-- What one attribute does to a packet. -/
structure AttrParsed (packet packet' : IncomingPacket) (attr : XmlAttr) : Prop where
  mem : packet'.mem = packet.mem
  header : packet'.header = { packet.header with stop := attr.value.stop + 1 }
  attrs : ∃ kept : Option AttrKey, ∀ k,
    packet'.attr k = if kept = some k then some attr else packet.attr k
  sender : (packet'.fromAttr = some attr ∧ attr.name.bytes packet.mem = lit "from") ∨
    (packet'.fromAttr = packet.fromAttr ∧ packet'.realFrom = packet.realFrom)
  found : packet'.muc = packet.muc ∧ packet'.mucUser = packet.mucUser

theorem bytes_of_eqLit {mem : Bytes} {s : Span} {literal : String}
    (h : s.eqLit mem literal = true) : s.bytes mem = lit literal := by
  unfold Span.eqLit Span.eqBin at h
  rw [Bool.and_eq_true, beq_iff_eq, beq_iff_eq] at h
  exact h.2

theorem packetAttr_parsed {packet packet' : IncomingPacket} {attr : XmlAttr}
    (h : packetAttr packet attr = .inl packet') : AttrParsed packet packet' attr := by
  unfold packetAttr at h
  dsimp only at h
  split at h
  · next hname =>
    split at h
    · cases h
    · cases h
      exact ⟨rfl, rfl, ⟨some .sender, fun k => by cases k <;> rfl⟩,
        .inl ⟨rfl, bytes_of_eqLit hname⟩, rfl, rfl⟩
  · split at h
    · split at h
      · cases h
      · cases h
        exact ⟨rfl, rfl, ⟨some .recipient, fun k => by cases k <;> rfl⟩, .inr ⟨rfl, rfl⟩, rfl, rfl⟩
    · split at h
      · split at h
        · cases h
        · cases h
          exact ⟨rfl, rfl, ⟨some .type, fun k => by cases k <;> rfl⟩, .inr ⟨rfl, rfl⟩, rfl, rfl⟩
      · split at h
        · cases h
          exact ⟨rfl, rfl, ⟨some .id, fun k => by cases k <;> rfl⟩, .inr ⟨rfl, rfl⟩, rfl, rfl⟩
        · cases h
          exact ⟨rfl, rfl, ⟨none, fun k => rfl⟩, .inr ⟨rfl, rfl⟩, rfl, rfl⟩

/-- **The next attribute lies behind those that have been kept.** -/
theorem HeaderLaid.parsed {packet packet' : IncomingPacket} {attr : XmlAttr} {data next : Nat}
    (h : HeaderLaid packet) (hdata : packet.header.stop ≤ data)
    (ha : AttrLaid packet.mem data attr next) (hp : AttrParsed packet packet' attr) :
    HeaderLaid packet' ∧ packet'.header.stop = next := by
  obtain ⟨h₁, h₂, h₃, h₄, h₅, h₆⟩ := ha
  obtain ⟨hhead, hlen⟩ := h.header
  obtain ⟨kept, hkept⟩ := hp.attrs
  have hfrom : ∀ k a, packet'.attr k = some a →
      a = attr ∨ packet.attr k = some a ∧ kept ≠ some k := by
    intro k a hk
    rw [hkept] at hk
    split at hk
    · exact .inl (Option.some.inj hk).symm
    · next hne => exact .inr ⟨hk, hne⟩
  refine ⟨⟨?_, ?_, ?_, ?_, ?_⟩, by rw [hp.header, h₅]⟩
  · rw [hp.header, hp.mem]
    dsimp only
    omega
  · intro k a hk
    rw [hp.header]
    dsimp only
    rcases hfrom k a hk with rfl | ⟨hk, -⟩
    · omega
    · have := h.attrs k a hk
      omega
  · intro k l a b hkl hk hl
    have hold : ∀ m c, packet.attr m = some c → c.extent.Apart attr.extent := by
      intro m c hm
      have := (h.attrs m c hm).2.2.2.2
      exact .inl (by show c.value.stop + 1 ≤ attr.name.data; omega)
    rcases hfrom k a hk with rfl | ⟨hk', hknot⟩
    · rcases hfrom l b hl with rfl | ⟨hl', hlnot⟩
      · -- the attribute cannot be kept under two keys
        exfalso
        rw [hkept] at hk hl
        split at hk
        · next hk₀ =>
          split at hl
          · next hl₀ => exact hkl (Option.some.inj (hk₀.symm.trans hl₀))
          · have := (h.attrs l b hl).2.2.2.2
            omega
        · have := (h.attrs k b hk).2.2.2.2
          omega
      · exact (hold l b hl').symm
    · rcases hfrom l b hl with rfl | ⟨hl', -⟩
      · exact hold k a hk'
      · exact h.apart k l a b hkl hk' hl'
  · intro a hsender
    rw [hp.mem]
    rcases hp.sender with ⟨hs, hname⟩ | ⟨hs, -⟩
    · rw [hs] at hsender
      cases hsender
      exact hname
    · exact h.fromName a (hs ▸ hsender)
  · rcases hp.sender with ⟨hs, -⟩ | ⟨hs, hjid⟩
    · exact .inr (by rw [hs]; rfl)
    · rw [hs, hjid]
      exact h.fromAttr

/-- The search for `<x/>` nodes in a presence leaves everything else. -/
theorem parsePresenceInner_eq {packet packet' : IncomingPacket}
    (h : parsePresenceInner packet = some (some packet')) :
    ∃ muc mucUser, packet' = { packet with muc := muc, mucUser := mucUser } := by
  unfold parsePresenceInner at h
  obtain ⟨x, hx, h⟩ := Option.bind_eq_some_iff.mp h
  cases x with
  | inr _ => cases h
  | inl p =>
    cases h
    refine siblingLoop_rule
      (I := fun p => ∃ muc mucUser, p = { packet with muc := muc, mucUser := mucUser })
      (Q := fun _ => True) ?_ (fun _ _ _ _ _ => trivial) ⟨packet.muc, packet.mucUser, rfl⟩ hx
    rintro p nodes p' ⟨muc, mucUser, rfl⟩ hb
    unfold presenceChild at hb
    split at hb
    · cases hb
      exact ⟨_, _, rfl⟩
    · obtain ⟨⟨attr, data⟩, -, hb⟩ := Option.bind_eq_some_iff.mp hb
      cases attr with
      | none =>
        cases hb
        exact ⟨_, _, rfl⟩
      | some attr =>
        dsimp only at hb
        split at hb
        · split at hb <;> cases hb
          exact ⟨_, _, rfl⟩
        · split at hb
          · split at hb <;> cases hb
            exact ⟨_, _, rfl⟩
          · cases hb
            exact ⟨_, _, rfl⟩

/-- What is known about a packet once its header has been parsed. -/
structure HeaderParsed (mem : Bytes) (packet : IncomingPacket) : Prop where
  laid : HeaderLaid packet
  memory : packet.mem = mem
  found : packet.muc = none ∧ packet.mucUser = none
  inner : ∀ inner, packet.inner = some inner →
    packet.header.stop ≤ inner.data ∧ inner.stop ≤ mem.length

theorem xmlfsmNodeName_lt {mem : Bytes} {buffer name : Span} {data : Nat}
    (h : xmlfsmNodeName mem buffer = some (name, data)) : data < mem.length := by
  obtain ⟨lt, -, h⟩ := Option.bind_eq_some_iff.mp h
  obtain ⟨n, hn, h⟩ := Option.bind_eq_some_iff.mp h
  have hlt := skip_lt hn
  rw [List.length_drop] at hlt
  cases h
  omega

/-- A packet while its attributes are parsed. -/
structure ScannedTo (mem : Bytes) (data : Nat) (packet : IncomingPacket) : Prop where
  laid : HeaderLaid packet
  stop : packet.header.stop ≤ data
  memory : packet.mem = mem
  found : packet.muc = none ∧ packet.mucUser = none

theorem ScannedTo.attr {mem : Bytes} {data next : Nat} {packet packet' : IncomingPacket}
    {attr : XmlAttr} (h : ScannedTo mem data packet) (ha : AttrLaid mem data attr next)
    (hp : AttrParsed packet packet' attr) : ScannedTo mem next packet' := by
  obtain ⟨hlaid, hstop, rfl, hfound⟩ := h
  obtain ⟨hlaid', hstop'⟩ := hlaid.parsed hstop ha hp
  exact ⟨hlaid', Nat.le_of_eq hstop', hp.mem, hp.found.1.trans hfound.1,
    hp.found.2.trans hfound.2⟩

/-- A packet without attributes. -/
theorem headerLaid_start {packet : IncomingPacket} (hattr : ∀ k, packet.attr k = none)
    (hjid : packet.realFrom = jidInit) (hheader : packet.header.data = packet.header.stop)
    (hlen : packet.header.stop ≤ packet.mem.length) : HeaderLaid packet := by
  refine ⟨⟨Nat.le_of_eq hheader, hlen⟩, fun k a hk => ?_, fun k _ a _ _ hk => ?_, fun a ha => ?_,
    .inl hjid⟩
  · rw [hattr k] at hk
    cases hk
  · rw [hattr k] at hk
    cases hk
  · have hnone : packet.fromAttr = none := hattr .sender
    rw [hnone] at ha
    cases ha

/-- **What `packet_parse` accepts**: the header, and for a presence the search for `<x/>`. -/
theorem packetParse_spec {mem : Bytes} {ingress : IncomingPacket}
    (h : packetParse mem = some (some ingress)) : ∃ packet, HeaderParsed mem packet ∧
      routable packet = true ∧
      ((packet.name = .presence ∧ parsePresenceInner packet = some (some ingress)) ∨
        (packet.name ≠ .presence ∧ ingress = packet)) := by
  unfold packetParse at h
  obtain ⟨⟨stanzaName, data⟩, hname, h⟩ := Option.bind_eq_some_iff.mp h
  have hdata := xmlfsmNodeName_lt hname
  dsimp only at h
  split at h
  · cases h
  · obtain ⟨x, hx, h⟩ := Option.bind_eq_some_iff.mp h
    cases x with
    | inr _ => cases h
    | inl r =>
      obtain ⟨state, next, packet⟩ := r
      dsimp only at h
      have hstart : ScannedTo mem data
          { name := stanzaNameOf mem stanzaName, type := 0, realFrom := jidInit
            proxyTo := jidInit, mem := mem, header := { data := data, stop := data }
            inner := none, fromAttr := none, toAttr := none, idAttr := none, typeAttr := none
            muc := none, mucUser := none } :=
        ⟨headerLaid_start (fun k => by cases k <;> rfl) rfl rfl (Nat.le_of_lt hdata),
          Nat.le_refl _, rfl, rfl, rfl⟩
      obtain ⟨last, hle, hlaid, hlast, hmem, hfound⟩ := attrLoop_rule_at
        (fun data packet attr next packet' (hI : ScannedTo mem data packet) ha hb =>
          hI.attr ha (packetAttr_parsed (Option.some.inj hb))) hstart hx
      have hinner : ∀ inner, (if state = .empty then none else some (Span.mk next (mem.length -
          (stanzaName.stop - stanzaName.data) - 3)) : Option Span) = some inner →
          packet.header.stop ≤ inner.data ∧ inner.stop ≤ mem.length := by
        intro inner hi
        split at hi <;> cases hi
        exact ⟨by dsimp only; omega, by dsimp only; omega⟩
      generalize (if state = .empty then none else some (Span.mk next (mem.length -
        (stanzaName.stop - stanzaName.data) - 3)) : Option Span) = inner at h hinner
      split at h
      · cases h
      · next hr =>
        have hr : routable { packet with inner := inner } = true := by
          rwa [Bool.not_eq_true, Bool.not_eq_false'] at hr
        have hlaid' : HeaderLaid { packet with inner := inner } :=
          ⟨hlaid.header, hlaid.attrs, hlaid.apart, hlaid.fromName, hlaid.fromAttr⟩
        refine ⟨{ packet with inner := inner }, ⟨hlaid', hmem, hfound, hinner⟩, hr, ?_⟩
        split at h
        · next hp => exact .inl ⟨hp, h⟩
        · next hp =>
          cases h
          exact .inr ⟨hp, rfl⟩

/-- **Where the attributes and the payload of an accepted stanza lie.** -/
theorem Accepted.headerLaid {ingress : IncomingPacket} (h : Accepted ingress) :
    HeaderLaid ingress ∧ ∀ inner, ingress.inner = some inner →
      ingress.header.stop ≤ inner.data ∧ inner.stop ≤ ingress.mem.length := by
  obtain ⟨mem, h⟩ := h
  obtain ⟨packet, hp, -, ⟨-, hpre⟩ | ⟨-, rfl⟩⟩ := packetParse_spec h
  · obtain ⟨muc, mucUser, rfl⟩ := parsePresenceInner_eq hpre
    have hlaid := hp.laid
    refine ⟨⟨hlaid.header, hlaid.attrs, hlaid.apart, hlaid.fromName, hlaid.fromAttr⟩, ?_⟩
    show ∀ inner, packet.inner = some inner →
      packet.header.stop ≤ inner.data ∧ inner.stop ≤ packet.mem.length
    rw [hp.memory]
    exact hp.inner
  · refine ⟨hp.laid, ?_⟩
    rw [hp.memory]
    exact hp.inner

/-- Only a presence is searched for `<x/>` nodes. -/
theorem Accepted.found_none {ingress : IncomingPacket} (h : Accepted ingress)
    (hname : ingress.name ≠ .presence) : ingress.muc = none ∧ ingress.mucUser = none := by
  obtain ⟨mem, h⟩ := h
  obtain ⟨packet, hp, -, ⟨hpresence, hpre⟩ | ⟨-, rfl⟩⟩ := packetParse_spec h
  · obtain ⟨muc, mucUser, rfl⟩ := parsePresenceInner_eq hpre
    exact absurd hpresence hname
  · exact hp.found

/-! ## Cleaning up -/

/-- An extent inside the extent of a header, relative to it. -/
def Span.within (s outer : Span) : Span := { data := s.data - outer.data, stop := s.stop - outer.data }

theorem bytes_within {mem : Bytes} {s outer : Span} (hdata : outer.data ≤ s.data)
    (hstop : s.stop ≤ outer.stop) : (s.within outer).bytes (outer.bytes mem) = s.bytes mem := by
  apply List.ext_getElem?
  intro i
  rw [Span.getElem?_bytes, Span.getElem?_bytes, Span.getElem?_bytes]
  unfold Span.within
  dsimp only
  have hsize : s.stop - outer.data - (s.data - outer.data) = s.stop - s.data := by omega
  rw [hsize]
  by_cases hi : i < s.stop - s.data
  · have hpos : outer.data + (s.data - outer.data + i) = s.data + i := by omega
    rw [if_pos hi, if_pos hi, if_pos (by omega), hpos]
  · rw [if_neg hi, if_neg hi]

theorem length_blankAttr {mem : Bytes} {attr : Option XmlAttr}
    (h : ∀ a, attr = some a → a.name.data ≤ a.value.stop ∧ a.value.stop < mem.length) :
    (blankAttr mem attr).length = mem.length := by
  cases attr with
  | none => rfl
  | some a =>
    obtain ⟨hle, hlt⟩ := h a rfl
    exact length_memcpy (by rw [List.length_replicate]; omega)

/-- Blanking an attribute leaves what is apart from it. -/
theorem bytes_blankAttr {mem : Bytes} {attr : Option XmlAttr} {s : Span}
    (h : ∀ a, attr = some a → a.name.data ≤ a.value.stop ∧ a.value.stop < mem.length ∧
      a.extent.Apart s) : s.bytes (blankAttr mem attr) = s.bytes mem := by
  cases attr with
  | none => rfl
  | some a =>
    obtain ⟨hle, hlt, hapart⟩ := h a rfl
    refine Span.bytes_memcpy (by rw [List.length_replicate]; omega) ?_
    rw [List.length_replicate]
    rcases hapart with hb | hb
    · exact .inl (by change a.value.stop + 1 ≤ s.data at hb; omega)
    · exact .inr hb

/-- `PACKET_CLEANUP_TO | PACKET_CLEANUP_SWITCH_FROM_TO` in a packet without `<x/>` nodes. -/
def switchedMem (ingress : IncomingPacket) : Bytes :=
  switchFromTo (blankAttr (blankAttr ingress.mem ingress.typeAttr) ingress.toAttr) ingress.fromAttr

theorem packetCleanup_switch {ingress : IncomingPacket} (hmuc : ingress.muc = none)
    (huser : ingress.mucUser = none) :
    packetCleanup ingress (packetCleanupTo ||| packetCleanupSwitchFromTo)
      = { ingress with mem := switchedMem ingress } := by
  unfold packetCleanup switchedMem
  rw [hmuc, huser]
  rfl

/-- Only the pointers decide whether a payload can be copied. -/
theorem innerBytes_isSome_mem (ingress : IncomingPacket) (mem : Bytes) :
    ({ ingress with mem := mem } : IncomingPacket).innerBytes.isSome
      = ingress.innerBytes.isSome := by
  unfold IncomingPacket.innerBytes
  cases ingress.inner with
  | none => rfl
  | some inner =>
    dsimp only [Span.copy]
    rw [Option.isSome_map, Option.isSome_map]
    split <;> rfl

namespace HeaderLaid

variable {ingress : IncomingPacket}

theorem blankable (h : HeaderLaid ingress) {k : AttrKey} {a : XmlAttr}
    (hk : ingress.attr k = some a) :
    a.name.data ≤ a.value.stop ∧ a.value.stop < ingress.mem.length := by
  have := h.attrs k a hk
  have := h.header
  omega

theorem length_blanked (h : HeaderLaid ingress) :
    (blankAttr (blankAttr ingress.mem ingress.typeAttr) ingress.toAttr).length
      = ingress.mem.length := by
  have htype : (blankAttr ingress.mem ingress.typeAttr).length = ingress.mem.length :=
    length_blankAttr (fun _ ha => h.blankable (k := .type) ha)
  rw [length_blankAttr, htype]
  intro a ha
  rw [htype]
  exact h.blankable (k := .recipient) ha

/-- The other attributes are not touched before `from` is. -/
theorem bytes_blanked (h : HeaderLaid ingress) {k : AttrKey} {a : XmlAttr}
    (hk : ingress.attr k = some a) (htype : k ≠ .type) (hto : k ≠ .recipient) :
    a.extent.bytes (blankAttr (blankAttr ingress.mem ingress.typeAttr) ingress.toAttr)
      = a.extent.bytes ingress.mem := by
  have hlen : (blankAttr ingress.mem ingress.typeAttr).length = ingress.mem.length :=
    length_blankAttr (fun _ ha => h.blankable (k := .type) ha)
  rw [bytes_blankAttr, bytes_blankAttr]
  · intro b hb
    have hapart := h.apart _ _ b a htype.symm (show ingress.attr .type = some b from hb) hk
    exact ⟨(h.blankable (k := .type) hb).1, (h.blankable (k := .type) hb).2, hapart⟩
  · intro b hb
    have hapart := h.apart _ _ b a hto.symm (show ingress.attr .recipient = some b from hb) hk
    rw [hlen]
    exact ⟨(h.blankable (k := .recipient) hb).1, (h.blankable (k := .recipient) hb).2, hapart⟩

/-- `from` has four characters, and its name and value do not overlap. -/
theorem sender_size (h : HeaderLaid ingress) {a : XmlAttr} (ha : ingress.fromAttr = some a) :
    a.name.data + 4 ≤ a.value.stop := by
  have hattrs := h.attrs .sender a ha
  have hhead := h.header
  have hlen := @Span.length_bytes ingress.mem a.name (by omega)
  rw [h.fromName a ha] at hlen
  have hfour : (lit "from").length = 4 := by decide
  omega

theorem length_switched (h : HeaderLaid ingress) :
    (switchedMem ingress).length = ingress.mem.length := by
  unfold switchedMem
  cases hf : ingress.fromAttr with
  | none => exact h.length_blanked
  | some f =>
    have hattrs := h.attrs .sender f hf
    have hhead := h.header
    have hsize := h.sender_size hf
    have hfour : (lit "  to").length = 4 := by decide
    exact (length_memcpy (by rw [h.length_blanked]; omega)).trans h.length_blanked

/-- **The id survives**: the header of a reply carries the `id` of the request. -/
theorem id_switched (h : HeaderLaid ingress) {a : XmlAttr} (ha : ingress.idAttr = some a) :
    a.extent.bytes (switchedMem ingress) = a.extent.bytes ingress.mem := by
  have hb := h.bytes_blanked (k := .id) ha AttrKey.noConfusion AttrKey.noConfusion
  unfold switchedMem
  cases hf : ingress.fromAttr with
  | none => exact hb
  | some f =>
    have hattrs := h.attrs .sender f hf
    have hhead := h.header
    have hsize := h.sender_size hf
    have hapart := h.apart .sender .id f a AttrKey.noConfusion hf ha
    have hfour : (lit "  to").length = 4 := by decide
    rw [← hb]
    refine Span.bytes_memcpy (by rw [h.length_blanked]; omega) ?_
    rcases hapart with hx | hx
    · exact .inl (by change f.value.stop + 1 ≤ a.extent.data at hx; omega)
    · exact .inr hx

/-- **The sender becomes the receiver**: `from` is `to` in the header of a reply. -/
theorem sender_switched (h : HeaderLaid ingress) {a : XmlAttr} (ha : ingress.fromAttr = some a) :
    a.extent.bytes (switchedMem ingress) = lit "  to" ++ (a.extent.bytes ingress.mem).drop 4 := by
  have hb := h.bytes_blanked (k := .sender) ha AttrKey.noConfusion AttrKey.noConfusion
  have hattrs := h.attrs .sender a ha
  have hhead := h.header
  have hsize := h.sender_size ha
  have hfour : (lit "  to").length = 4 := by decide
  have hfit : a.name.data + (lit "  to").length
      ≤ (blankAttr (blankAttr ingress.mem ingress.typeAttr) ingress.toAttr).length := by
    rw [h.length_blanked]
    omega
  have hext : a.extent.stop - a.extent.data = a.value.stop + 1 - a.name.data := rfl
  rw [← hb]
  unfold switchedMem
  rw [ha]
  apply List.ext_getElem?
  intro i
  show (a.extent.bytes (memcpy _ a.name.data (lit "  to")))[i]? = _
  rw [Span.getElem?_bytes, getElem?_memcpy hfit]
  by_cases hi : i < 4
  · have hpos : a.extent.data + i - a.name.data = i := Nat.add_sub_cancel_left ..
    rw [if_pos (by omega), if_pos ⟨Nat.le_add_right .., by show a.name.data + i < _; omega⟩, hpos,
      List.getElem?_append_left (by omega)]
  · rw [List.getElem?_append_right (by omega), List.getElem?_drop, Span.getElem?_bytes]
    have hpos : 4 + (i - (lit "  to").length) = i := by omega
    rw [hpos]
    split
    · rw [if_neg (by show ¬ (_ ∧ a.name.data + i < _); omega)]
    · rfl

end HeaderLaid

end Mukite
