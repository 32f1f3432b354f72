import Mukite.Jid
import Mukite.Xmlfsm

/-!
# Incoming packets

`src/packet.h`, `src/packet.c`. A packet keeps the memory block of its stanza, which
`packet_cleanup` overwrites in place, and pointers into it. The JIDs are kept by value: no
function reads them after a clean-up.
-/

namespace Mukite

/-- The stanza names of `builder.h`. A zeroed packet has none of them. -/
inductive StanzaName
  | unset
  | iq
  | message
  | presence
deriving DecidableEq, Repr

def stanzaIqGet : Nat := 1
def stanzaIqSet : Nat := 2
def stanzaIqResult : Nat := 3
def stanzaMessageChat : Nat := 1
def stanzaMessageGroupchat : Nat := 2
def stanzaPresenceUnavailable : Nat := 1
def stanzaError : Nat := 100

structure IncomingPacket where
  name : StanzaName
  type : Nat
  realFrom : Jid
  proxyTo : Jid
  mem : Bytes
  header : Span
  inner : Option Span
  fromAttr : Option XmlAttr
  toAttr : Option XmlAttr
  idAttr : Option XmlAttr
  typeAttr : Option XmlAttr
  muc : Option Span
  mucUser : Option Span
deriving DecidableEq, Repr

/-- A null `BufferPtr` has equal `data` and `end`, so a scan over it finds nothing. -/
def spanOf (s : Option Span) : Span := s.getD { data := 0, stop := 0 }

/-! ## `packet_cleanup` -/

def packetCleanupFrom : Nat := 1
def packetCleanupTo : Nat := 2
def packetCleanupSwitchFromTo : Nat := packetCleanupFrom ||| 4
def packetCleanupId : Nat := 8

/-- `memset(..., ' ', ...)`. -/
def blank (mem : Bytes) (pos size : Nat) : Bytes := memcpy mem pos (List.replicate size (ch ' '))

/-- Blank a node that was found. -/
def blankNode (mem : Bytes) : Option Span → Bytes
  | none => mem
  | some node => blank mem node.data (node.stop - node.data)

/-- Blank an attribute with its closing quote. -/
def blankAttr (mem : Bytes) : Option XmlAttr → Bytes
  | none => mem
  | some attr => blank mem attr.name.data (attr.value.stop - attr.name.data + 1)

/-- Turn `from` into `to`. -/
def switchFromTo (mem : Bytes) : Option XmlAttr → Bytes
  | none => mem
  | some attr => memcpy mem attr.name.data (lit "  to")

/-- `packet_cleanup`. -/
def packetCleanup (packet : IncomingPacket) (mode : Nat) : IncomingPacket :=
  let mem := blankNode packet.mem packet.muc
  let mem := blankNode mem packet.mucUser
  let mem := blankAttr mem packet.typeAttr
  let mem := if mode &&& packetCleanupId ≠ 0 then blankAttr mem packet.idAttr else mem
  let mem := if mode &&& packetCleanupTo ≠ 0 then blankAttr mem packet.toAttr else mem
  let mem :=
    if mode &&& packetCleanupSwitchFromTo = packetCleanupSwitchFromTo then
      switchFromTo mem packet.fromAttr
    else if mode &&& packetCleanupFrom ≠ 0 then blankAttr mem packet.fromAttr
    else mem
  { packet with mem := mem }

/-! ## Contents by value -/

/-- The header as `builder_build` copies it. -/
def IncomingPacket.headerBytes (packet : IncomingPacket) : Bytes := packet.header.bytes packet.mem

/-- The payload as `builder_build` copies it; undefined when its size is negative. -/
def IncomingPacket.innerBytes (packet : IncomingPacket) : Option Buffer :=
  match packet.inner with
  | none => some none
  | some inner => (inner.copy packet.mem).map some

/-! ## `packet_parse` -/

/-- `set_type`, `none` when it returns `FALSE`. -/
def setType (value : Bytes) (name : StanzaName) : Option Nat :=
  if value = lit "error" then some stanzaError
  else
    match name with
    | .message =>
      if value = lit "chat" then some stanzaMessageChat
      else if value = lit "groupchat" then some stanzaMessageGroupchat
      else none
    | .presence => if value = lit "unavailable" then some stanzaPresenceUnavailable else none
    | .iq =>
      if value = lit "get" then some stanzaIqGet
      else if value = lit "set" then some stanzaIqSet
      else if value = lit "result" then some stanzaIqResult
      else none
    | .unset => none

/-- One attribute of the stanza; `inr` drops the stanza. -/
def packetAttr (packet : IncomingPacket) (attr : XmlAttr) : IncomingPacket ⊕ Unit :=
  let packet := { packet with header := { packet.header with stop := attr.value.stop + 1 } }
  let value := attr.value.bytes packet.mem
  if attr.name.eqLit packet.mem "from" then
    match jidStruct value with
    | none => .inr ()
    | some jid => .inl { packet with realFrom := jid, fromAttr := some attr }
  else if attr.name.eqLit packet.mem "to" then
    match jidStruct value with
    | none => .inr ()
    | some jid => .inl { packet with proxyTo := jid, toAttr := some attr }
  else if attr.name.eqLit packet.mem "type" then
    match setType value packet.name with
    | none => .inr ()
    | some type => .inl { packet with type := type, typeAttr := some attr }
  else if attr.name.eqLit packet.mem "id" then .inl { packet with idAttr := some attr }
  else .inl packet

def xmlnsMuc : String := "http://jabber.org/protocol/muc"
def xmlnsMucUser : String := "http://jabber.org/protocol/muc#user"
def xmlnsMucAdmin : String := "http://jabber.org/protocol/muc#admin"
def xmlnsMucOwner : String := "http://jabber.org/protocol/muc#owner"

/-- One child of a presence; `inr` drops the stanza. -/
def presenceChild (packet : IncomingPacket) (nodes : XmlNodeTraverser) :
    Option (IncomingPacket ⊕ Unit) := do
  if !nodes.nodeName.eqLit packet.mem "x" then return .inl packet
  let (attr, _) ← xmlfsmSkiptoAttr packet.mem nodes.node.data "xmlns"
  let found : Span := { data := nodes.nodeStart, stop := nodes.node.stop }
  match attr with
  | none => return .inl packet
  | some attr =>
    if attr.value.eqLit packet.mem xmlnsMucUser then
      if packet.mucUser.isSome then return .inr ()
      return .inl { packet with mucUser := some found }
    else if attr.value.eqLit packet.mem xmlnsMuc then
      if packet.muc.isSome then return .inr ()
      return .inl { packet with muc := some found }
    else return .inl packet

/-- `parse_presence_inner`, `some none` when it returns `FALSE`. -/
def parsePresenceInner (packet : IncomingPacket) : Option (Option IncomingPacket) := do
  match ← siblingLoop packet.mem presenceChild (spanOf packet.inner) packet with
  | .inl packet => return some packet
  | .inr () => return none

def stanzaNameOf (mem : Bytes) (name : Span) : StanzaName :=
  if name.eqLit mem "message" then .message
  else if name.eqLit mem "presence" then .presence
  else if name.eqLit mem "iq" then .iq
  else .unset

/-- The checks of `packet_parse` after the attributes. -/
def routable (packet : IncomingPacket) : Bool :=
  !jidEmpty packet.realFrom && !jidEmpty packet.proxyTo &&
    (packet.name == .iq ||
      -- Messages and presences MUST contain room node name
      !bptBlank packet.proxyTo.node &&
        !(packet.name == .message && packet.proxyTo.resource.isNone &&
          packet.type != stanzaMessageGroupchat))

/-- `packet_parse`, `some none` when it returns `FALSE`. -/
def packetParse (mem : Bytes) : Option (Option IncomingPacket) := do
  let (stanzaName, data) ← xmlfsmNodeName mem { data := 0, stop := mem.length }
  let name := stanzaNameOf mem stanzaName
  if name = .unset then return none
  let packet : IncomingPacket :=
    { name := name, type := 0, realFrom := jidInit, proxyTo := jidInit, mem := mem
      header := { data := data, stop := data }, inner := none
      fromAttr := none, toAttr := none, idAttr := none, typeAttr := none
      muc := none, mucUser := none }
  match ← attrLoop mem (fun packet attr => some (packetAttr packet attr)) data packet with
  | .inr _ => return none
  | .inl (state, data, packet) =>
    let inner :=
      if state = .empty then none
      else some { data := data, stop := mem.length - (stanzaName.stop - stanzaName.data) - 3 }
    let packet := { packet with inner := inner }
    if !routable packet then return none
    if packet.name = .presence then parsePresenceInner packet
    else return some packet

/-- The stanzas that reach the rooms: those `packet_parse` accepts. -/
def Accepted (ingress : IncomingPacket) : Prop := ∃ mem, packetParse mem = some (some ingress)

/-- What the rooms receive when a stanza with the given text arrives. -/
def received (text : String) : Option IncomingPacket := (packetParse (lit text)).join

theorem accepted_of_received {text : String} {ingress : IncomingPacket}
    (h : received text = some ingress) : Accepted ingress :=
  ⟨lit text, Option.join_eq_some_iff.mp h⟩

/-! ## What every accepted stanza has -/

/-- The JIDs of a packet are those that have been parsed, if any. -/
structure JidsParsed (packet : IncomingPacket) : Prop where
  realFrom : packet.realFrom = jidInit ∨ ParsedJid packet.realFrom
  proxyTo : packet.proxyTo = jidInit ∨ ParsedJid packet.proxyTo

theorem packetAttr_jidsParsed {packet packet' : IncomingPacket} {attr : XmlAttr}
    (hp : JidsParsed packet) (h : packetAttr packet attr = .inl packet') : JidsParsed packet' := by
  unfold packetAttr at h
  simp only at h
  split at h
  · split at h
    · cases h
    · next jid hj =>
      cases h
      exact ⟨.inr ⟨_, hj⟩, hp.proxyTo⟩
  · split at h
    · split at h
      · cases h
      · next jid hj =>
        cases h
        exact ⟨hp.realFrom, .inr ⟨_, hj⟩⟩
    · split at h
      · split at h <;> cases h
        exact ⟨hp.realFrom, hp.proxyTo⟩
      · split at h <;> cases h <;> exact ⟨hp.realFrom, hp.proxyTo⟩

theorem presenceChild_jids {packet packet' : IncomingPacket} {nodes : XmlNodeTraverser}
    (h : presenceChild packet nodes = some (.inl packet')) :
    packet'.realFrom = packet.realFrom ∧ packet'.proxyTo = packet.proxyTo := by
  unfold presenceChild at h
  split at h
  · cases h
    exact ⟨rfl, rfl⟩
  · obtain ⟨⟨attr, data⟩, -, h⟩ := Option.bind_eq_some_iff.mp h
    cases attr with
    | none =>
      cases h
      exact ⟨rfl, rfl⟩
    | some attr =>
      dsimp only at h
      split at h
      · split at h <;> cases h
        exact ⟨rfl, rfl⟩
      · split at h
        · split at h <;> cases h
          exact ⟨rfl, rfl⟩
        · cases h
          exact ⟨rfl, rfl⟩

theorem parsePresenceInner_jids {packet packet' : IncomingPacket}
    (h : parsePresenceInner packet = some (some packet')) :
    packet'.realFrom = packet.realFrom ∧ packet'.proxyTo = packet.proxyTo := by
  unfold parsePresenceInner at h
  obtain ⟨x, hx, h⟩ := Option.bind_eq_some_iff.mp h
  cases x with
  | inr _ => cases h
  | inl p =>
    cases h
    exact siblingLoop_rule
      (I := fun p => p.realFrom = packet.realFrom ∧ p.proxyTo = packet.proxyTo)
      (Q := fun _ => True)
      (fun s nodes s' hs hb => by
        have := presenceChild_jids hb
        exact ⟨this.1.trans hs.1, this.2.trans hs.2⟩)
      (fun _ _ _ _ _ => trivial) ⟨rfl, rfl⟩ hx

theorem parsed_of_routable {packet : IncomingPacket} (hp : JidsParsed packet)
    (h : routable packet = true) : ParsedJid packet.realFrom ∧ ParsedJid packet.proxyTo := by
  simp only [routable, Bool.and_eq_true] at h
  refine ⟨hp.realFrom.resolve_left fun he => ?_, hp.proxyTo.resolve_left fun he => ?_⟩
  · simp [he, jidEmpty, jidInit] at h
  · simp [he, jidEmpty, jidInit] at h

/-- **Both addresses of an accepted stanza have been parsed.** -/
theorem Accepted.parsed {ingress : IncomingPacket} (h : Accepted ingress) :
    ParsedJid ingress.realFrom ∧ ParsedJid ingress.proxyTo := by
  obtain ⟨mem, h⟩ := h
  unfold packetParse at h
  obtain ⟨⟨stanzaName, data⟩, -, h⟩ := Option.bind_eq_some_iff.mp h
  dsimp only at h
  split at h
  · cases h
  · obtain ⟨x, hx, h⟩ := Option.bind_eq_some_iff.mp h
    have hrule := attrLoop_rule (I := JidsParsed) (Q := fun _ => True)
      (fun s attr s' hs hb => packetAttr_jidsParsed hs (Option.some.inj hb))
      (fun _ _ _ _ _ => trivial) ⟨.inl rfl, .inl rfl⟩ hx
    cases x with
    | inr _ => cases h
    | inl r =>
      obtain ⟨state, data', packet⟩ := r
      dsimp only at h
      generalize (if state = .empty then none else some (Span.mk data' (mem.length -
        (stanzaName.stop - stanzaName.data) - 3)) : Option Span) = inner at h
      split at h
      · cases h
      · next hr =>
        have hj : JidsParsed { packet with inner := inner } := ⟨hrule.realFrom, hrule.proxyTo⟩
        have hr := parsed_of_routable hj (by simpa using hr)
        split at h
        · have hj := parsePresenceInner_jids h
          rw [hj.1, hj.2]
          exact hr
        · cases h
          exact hr

end Mukite
