import Mukite.Properties.Groupchat
import Mukite.Properties.Identity
import Mukite.Properties.CleanedHeader

/-!
# Messages are relayed as they were written

A message is written as a start tag with single-quoted attributes, a content and an end tag
(`WrittenMessage`). What `route_message` sends for it, apart from a bounce, is such a text again:
the attributes it came with, without the three that the room replaces, then those three, then the
content, byte for byte (`message_relayed`).

The names in the addresses come from single-quoted attributes themselves, so none of them ends the
attribute it is written into (`Addressed`, kept in every run by `addressed_of_reach`).
-/

namespace Mukite

/-! ## The name of a stanza -/

/-- Where the name in a start tag ends. -/
def NameEnds (c : UInt8) : Prop := (!whitespace c && c != ch '>' && c != ch '/') = false

theorem nameEnds_of_white {c : UInt8} (h : whitespace c = true) : NameEnds c := by
  unfold NameEnds
  rw [h]
  rfl

/-- **A start tag has the name that `builder_build` has written.** -/
theorem nodeName_of_tagStart {name : StanzaName} {c : UInt8} {rest : Bytes}
    (hname : name ≠ .unset) (hc : NameEnds c) :
    xmlfsmNodeName (tagStart name ++ c :: rest)
        { data := 0, stop := (tagStart name ++ c :: rest).length }
      = some ({ data := 1, stop := (tagStart name).length }, (tagStart name).length) ∧
    stanzaNameOf (tagStart name ++ c :: rest) { data := 1, stop := (tagStart name).length }
      = name := by
  have hstart : tagStart name = ch '<' :: stanzaWord name := if_neg hname
  have hlength : (tagStart name).length = 1 + (stanzaWord name).length := by
    rw [hstart, List.length_cons, Nat.add_comm]
  have hbytes : ∀ text : Bytes, Span.bytes text { data := 0, stop := text.length } = text := by
    intro text
    unfold Span.bytes
    rw [Nat.sub_zero, List.drop_zero, List.take_length]
  have hword : Span.bytes (tagStart name ++ c :: rest)
      { data := 1, stop := (tagStart name).length } = stanzaWord name := by
    unfold Span.bytes
    rw [hlength, Nat.add_sub_cancel_left, hstart]
    exact List.take_left
  have hall : ∀ x ∈ stanzaWord name, (!whitespace x && x != ch '>' && x != ch '/') = true :=
    List.all_eq_true.mp (by cases name <;> decide)
  constructor
  · unfold NameEnds at hc
    unfold xmlfsmNodeName
    rw [hbytes, hlength, hstart, List.cons_append, List.findIdx?_cons, if_pos (by decide)]
    simp only [Option.bind_eq_bind, Option.bind_some]
    rw [show (0 + 0 + 1 : Nat) = 1 from rfl, List.drop_one, List.tail_cons, skip_append hc hall]
    rfl
  · unfold stanzaNameOf Span.eqLit Span.eqBin Span.size
    rw [hword]
    dsimp only
    rw [hlength]
    cases name with
    | unset => exact absurd rfl hname
    | message => decide
    | presence => decide
    | iq => decide

/-! ## Messages as text -/

/-- An attribute as the server writes it. -/
structure AttrText.Written (a : AttrText) : Prop where
  lead : a.lead ≠ [] ∧ ∀ c ∈ a.lead, whitespace c = true
  name : a.name ≠ [] ∧ a.name.all nameChar = true
  gap : a.gap = lit "="
  quote : a.quote = quote1
  value : quote1 ∉ a.value

theorem AttrText.Written.scannable {a : AttrText} (h : a.Written) : a.Scannable where
  lead := h.lead.2
  start := by
    intro c hc
    obtain ⟨hne, hall⟩ := h.name
    cases hname : a.name with
    | nil => exact absurd hname hne
    | cons x xs =>
      rw [hname] at hc
      cases hc
      obtain ⟨hwhite, hmark⟩ := not_mem_of_nameChar (List.all_eq_true.mp hall c (by simp [hname]))
      exact ⟨hwhite, fun he => hmark (he ▸ by decide), fun he => hmark (he ▸ by decide)⟩
  name := by
    intro c hc
    obtain ⟨hwhite, hmark⟩ := not_mem_of_nameChar (List.all_eq_true.mp h.name.2 c hc)
    have heq : c ≠ ch '=' := fun he => hmark (he ▸ by decide)
    simp [hwhite, heq]
  gapStart := by
    rw [h.gap]
    exact ⟨ch '=', rfl, by decide⟩
  gap := by
    rw [h.gap]
    exact List.all_eq_true.mp (by decide)
  quote := by
    rw [h.quote]
    decide
  value := by
    intro c hc
    rw [h.quote, bne_iff_ne]
    rintro rfl
    exact h.value hc

/-- A message as the server writes it. `content` is `none` for a tag that closes itself. -/
structure WrittenMessage where
  attrs : List AttrText
  written : ∀ a ∈ attrs, a.Written
  once : (attrs.map AttrText.name).Nodup
  space : Bytes
  white : ∀ c ∈ space, whitespace c = true
  content : Option Bytes

namespace WrittenMessage

/-- What follows the attributes. -/
def ending (message : WrittenMessage) : Bytes :=
  match message.content with
  | none => lit "/>"
  | some content => ch '>' :: (content ++ lit "</message>")

def text (message : WrittenMessage) : Bytes :=
  lit "<message" ++ (attrsText message.attrs ++ (message.space ++ message.ending))

/-- The content, nothing for a tag that closes itself. -/
def payload (message : WrittenMessage) : Bytes := message.content.getD []

/-- Names and values of the attributes. -/
def pairs (message : WrittenMessage) : List (Bytes × Bytes) := message.attrs.map AttrText.pair

variable {message : WrittenMessage} {ingress : IncomingPacket}

theorem exists_ending (message : WrittenMessage) :
    ∃ c rest, message.ending = c :: rest ∧ (c = ch '/' ∨ c = ch '>') := by
  unfold ending
  cases message.content with
  | none => exact ⟨ch '/', lit ">", by decide, .inl rfl⟩
  | some content => exact ⟨ch '>', _, rfl, .inr rfl⟩

theorem tagEnds (message : WrittenMessage) : TagEnds (message.space ++ message.ending) := by
  obtain ⟨c, rest, hend, hc⟩ := message.exists_ending
  exact ⟨message.space, c, rest, by rw [hend], message.white, hc⟩

/-- The name of the tag is not longer. -/
theorem exists_behind (message : WrittenMessage) : ∃ c rest,
    attrsText message.attrs ++ (message.space ++ message.ending) = c :: rest ∧ NameEnds c := by
  cases hattrs : message.attrs with
  | nil =>
    cases hspace : message.space with
    | nil =>
      obtain ⟨c, rest, hend, hc⟩ := message.exists_ending
      rw [hend]
      refine ⟨c, rest, rfl, ?_⟩
      unfold NameEnds
      rcases hc with rfl | rfl <;> decide
    | cons c rest => exact ⟨c, _, rfl, nameEnds_of_white (message.white c (by simp [hspace]))⟩
  | cons a attrs =>
    obtain ⟨hne, hlead⟩ := (message.written a (by simp [hattrs])).lead
    cases ha : a.lead with
    | nil => exact absurd ha hne
    | cons c rest =>
      rw [attrsText_cons, AttrText.text, ha]
      exact ⟨c, _, rfl, nameEnds_of_white (hlead c (by simp [ha]))⟩

theorem nodeName (message : WrittenMessage) :
    xmlfsmNodeName message.text { data := 0, stop := message.text.length }
      = some ({ data := 1, stop := 8 }, 8) ∧
    stanzaNameOf message.text { data := 1, stop := 8 } = .message := by
  obtain ⟨c, rest, hbehind, hc⟩ := message.exists_behind
  unfold text
  rw [hbehind]
  exact @nodeName_of_tagStart .message c rest (by decide) hc

/-- A message ends with its content and the end tag. -/
theorem payload_suffix {payload : Bytes} {c : UInt8} (h : message.payload = c :: payload) :
    c :: payload ++ lit "</message>" <:+ message.text := by
  have hcontent : message.content = some (c :: payload) := by
    unfold WrittenMessage.payload at h
    cases hc : message.content with
    | none =>
      rw [hc] at h
      cases h
    | some content =>
      rw [hc] at h
      rw [← h]
      rfl
  refine ⟨lit "<message" ++ (attrsText message.attrs ++ (message.space ++ [ch '>'])), ?_⟩
  unfold text ending
  rw [hcontent]
  simp

/-- **What the parser reads of a message is what has been written.** -/
theorem read (h : packetParse message.text = some (some ingress)) :
    StanzaRead message.text message.attrs ingress ∧ ingress.name = .message ∧
      bptBytes <$> ingress.innerBytes = some message.payload := by
  obtain ⟨attrs, hread⟩ := packetParse_read h
  obtain ⟨word, hword, hname, state, next, hend, hstate, hinner⟩ := hread.name
  rw [message.nodeName.1, Option.some.injEq, Prod.mk.injEq] at hword
  obtain ⟨rfl, hdata⟩ := hword
  have hdrop : message.text.drop 8
      = attrsText message.attrs ++ (message.space ++ message.ending) := rfl
  have htext := hread.read.text
  rw [← hdata, hdrop] at htext
  obtain ⟨space, c, rest, hstop, hspace, hc⟩ := exists_end_of_nextAttr hend hstate
  obtain ⟨rfl, hrest⟩ := attrsText_inj (fun a ha => (message.written a ha).scannable)
    hread.read.scannable message.tagEnds ⟨space, c, rest, hstop, hspace, hc⟩ htext
  have hmessage : ingress.name = .message := hname.symm.trans message.nodeName.2
  refine ⟨hread, hmessage, ?_⟩
  -- where the tag ends
  have hmem : ingress.mem = message.text := hread.read.memory
  unfold IncomingPacket.innerBytes payload
  rw [hinner, hmem]
  cases hcontent : message.content with
  | none =>
    have hslash : message.text.drop ingress.header.stop
        = message.space ++ ch '/' :: lit ">" := by
      rw [← hrest, ending, hcontent]
      rfl
    rw [nextAttr_of_end hslash message.white (.inl rfl)] at hend
    cases hend
    rfl
  | some content =>
    have hgt : message.text.drop ingress.header.stop
        = message.space ++ ch '>' :: (content ++ lit "</message>") := by
      rw [← hrest, ending, hcontent]
    rw [nextAttr_of_end hgt message.white (.inr rfl)] at hend
    rw [if_neg (by decide)] at hend
    cases hend
    have hinside : message.text.drop (ingress.header.stop + message.space.length + 1)
        = content ++ lit "</message>" := drop_succ_of_drop (drop_add_of_drop hgt)
    have hlen := congrArg List.length hinside
    rw [List.length_drop, List.length_append] at hlen
    have hten : (lit "</message>").length = 10 := by decide
    have hsize : message.text.length - (8 - 1) - 3
        = ingress.header.stop + message.space.length + 1 + content.length := by omega
    rw [if_neg (by decide), hsize]
    dsimp only [Span.copy]
    rw [if_neg (by omega)]
    show some (bptBytes (some ((message.text.drop _).take _))) = _
    dsimp only
    rw [hinside, Nat.add_sub_cancel_left, List.take_left]
    rfl

end WrittenMessage

/-! ## Addresses without quotes -/

/-- No part of a JID has a quote in it. -/
structure UnquotedJid (jid : Jid) : Prop where
  node : quote1 ∉ bptBytes jid.node
  host : quote1 ∉ bptBytes jid.host
  resource : quote1 ∉ bptBytes jid.resource

/-- What a packet takes from the participants it is about. -/
structure AddressedOccupant (p : Participant) : Prop where
  nick : ∃ nick, p.nick = some nick ∧ quote1 ∉ nick
  host : p.jid.host.isSome = true
  jid : UnquotedJid p.jid

/-- The names in a room fit into single-quoted attributes. -/
structure Addressed (room : Room) : Prop where
  node : ∃ node, room.node = some node ∧ quote1 ∉ node
  occupants : ∀ addr p, (addr, p) ∈ room.occupants → AddressedOccupant p

/-- A stanza whose addresses were written in single quotes. -/
structure PlainlyAddressed (ingress : IncomingPacket) : Prop where
  accepted : Accepted ingress
  sender : UnquotedJid ingress.realFrom
  recipient : UnquotedJid ingress.proxyTo

theorem jidStructLoop_mem {c : UInt8} : ∀ (s : Bytes) (node : Buffer) (part : Bytes),
    c ∉ bptBytes node → c ∉ part → c ∉ s →
    c ∉ bptBytes (jidStructLoop node part s).node ∧
      c ∉ bptBytes (jidStructLoop node part s).host ∧
      c ∉ bptBytes (jidStructLoop node part s).resource
  | [], node, part, hnode, hpart, _ => ⟨hnode, hpart, List.not_mem_nil⟩
  | d :: rest, node, part, hnode, hpart, hs => by
    rw [List.mem_cons, not_or] at hs
    unfold jidStructLoop
    split
    · exact jidStructLoop_mem rest (some part) [] hpart List.not_mem_nil hs.2
    · split
      · exact ⟨hnode, hpart, hs.2⟩
      · refine jidStructLoop_mem rest node (part ++ [d]) hnode ?_ hs.2
        rw [List.mem_append, List.mem_singleton, not_or]
        exact ⟨hpart, hs.1⟩

theorem unquotedJid_of_struct {s : Bytes} {jid : Jid} (h : jidStruct s = some jid)
    (hs : quote1 ∉ s) : UnquotedJid jid := by
  have hmem := jidStructLoop_mem s none [] List.not_mem_nil List.not_mem_nil hs
  unfold jidStruct at h
  dsimp only at h
  split at h
  · cases h
  · cases h
    exact ⟨hmem.1, hmem.2.1, hmem.2.2⟩

theorem UnquotedJid.set {jid : Jid} (h : UnquotedJid jid) (parts : Nat) :
    UnquotedJid (jidSet jid parts) := by
  have hpart : ∀ {wanted : Bool} {part : Buffer}, quote1 ∉ bptBytes part →
      quote1 ∉ bptBytes (jidSetPart wanted part) := by
    intro wanted part hp
    unfold jidSetPart
    split
    · exact hp
    · exact List.not_mem_nil
  exact ⟨hpart h.node, h.host, hpart h.resource⟩

theorem UnquotedJid.text {jid : Jid} (h : UnquotedJid jid) : quote1 ∉ jidStr jid := by
  obtain ⟨hnode, hhost, hresource⟩ := h
  unfold jidStr
  rw [List.mem_append, List.mem_append, not_or, not_or]
  refine ⟨⟨?_, hhost⟩, ?_⟩
  · cases hn : jid.node with
    | none => exact List.not_mem_nil
    | some node =>
      rw [hn] at hnode
      rw [List.mem_append, not_or]
      exact ⟨hnode, by decide⟩
  · split
    · exact List.not_mem_nil
    · rw [List.mem_cons, not_or]
      exact ⟨by decide, hresource⟩

/-- **What is written in single quotes has no quote in it.** -/
theorem StanzaRead.plainlyAddressed {mem : Bytes} {attrs : List AttrText}
    {ingress : IncomingPacket} (h : StanzaRead mem attrs ingress) (hacc : Accepted ingress)
    (hquote : ∀ a ∈ attrs, quote1 ∉ a.value) : PlainlyAddressed ingress := by
  have hinit : UnquotedJid jidInit :=
    ⟨List.not_mem_nil, List.not_mem_nil, List.not_mem_nil⟩
  refine ⟨hacc, ?_, ?_⟩
  · rcases h.read.sender with he | ⟨a, ha, hjid⟩
    · rw [he]
      exact hinit
    · exact unquotedJid_of_struct hjid (hquote a ha.mem)
  · rcases h.read.recipient with he | ⟨a, ha, hjid⟩
    · rw [he]
      exact hinit
    · exact unquotedJid_of_struct hjid (hquote a ha.mem)

namespace Addressed

variable {room room' : Room}

theorem roomInit {node : Bytes} (h : quote1 ∉ node) : Addressed (roomInit node) where
  node := ⟨node, rfl, h⟩
  occupants := by
    intro addr p hm
    cases hm

/-- Changes beside the list. -/
theorem of_occupants (h : Addressed room) (hnode : room'.node = room.node)
    (hlist : room'.occupants = room.occupants) : Addressed room' where
  node := by
    rw [hnode]
    exact h.node
  occupants := by
    intro addr p hm
    rw [hlist] at hm
    exact h.occupants addr p hm

theorem modify (h : Addressed room) {addr : Nat} {f : Participant → Participant}
    (hf : ∀ p, AddressedOccupant p → AddressedOccupant (f p)) : Addressed (room.modify addr f) where
  node := h.node
  occupants := by
    intro b q hm
    obtain ⟨p, hp, rfl⟩ := Room.mem_occupants_modify.mp hm
    split
    · exact hf p (h.occupants b p hp)
    · exact h.occupants b p hp

theorem mapVals (h : Addressed room) {f : Participant → Participant}
    (hf : ∀ p, AddressedOccupant p → AddressedOccupant (f p)) : Addressed (room.mapVals f) where
  node := h.node
  occupants := by
    intro b q hm
    obtain ⟨p, hp, rfl⟩ := Room.mem_occupants_mapVals.mp hm
    exact hf p (h.occupants b p hp)

theorem affectEach (st : AdminState) (h : Addressed st.room) {reasonNode : Buffer}
    {f : Participant → Option Participant}
    (hf : ∀ p q, f p = some q → q.jid = p.jid ∧ q.nick = p.nick) :
    Addressed (affectEach st reasonNode f).room := by
  refine h.mapVals fun p hp => ?_
  obtain ⟨hjid, hnick⟩ := names_affected hf p
  exact ⟨by rw [hnick]; exact hp.nick, by rw [hjid]; exact hp.host, by rw [hjid]; exact hp.jid⟩

theorem join (h : Addressed room) {ingress : IncomingPacket} (hok : PlainlyAddressed ingress)
    (hres : ingress.proxyTo.resource.isSome) (affiliation : Int) :
    Addressed (roomJoin room ingress.realFrom ingress.proxyTo.resource affiliation).1 where
  node := h.node
  occupants := by
    intro b q hm
    rcases NodeList.mem_cons.mp hm with ⟨-, rfl⟩ | hm
    · obtain ⟨nick, hnick⟩ := Option.isSome_iff_exists.mp hres
      refine ⟨⟨nick, ?_, ?_⟩, rfl, hok.sender.set jidFull⟩
      · rw [nick_joiner hok.accepted.parsed.2.resource_le, hnick]
      · have hquote := hok.recipient.resource
        rw [hnick] at hquote
        exact hquote
    · exact h.occupants b q hm

theorem leave (h : Addressed room) (addr : Nat) : Addressed (roomLeave room addr) where
  node := by
    have hnode : (roomLeave room addr).node = room.node := by
      unfold roomLeave
      dsimp only
      split <;> rfl
    rw [hnode]
    exact h.node
  occupants := by
    intro b p hm
    exact h.occupants b p (mem_occupants_roomLeave.mp hm).1

/-- **Every small change keeps the names.** -/
theorem change (h : Addressed room) (hc : Change PlainlyAddressed room room') :
    Addressed room' := by
  have hsame : ∀ {p q : Participant}, SamePlace p q → AddressedOccupant p →
      AddressedOccupant q := by
    intro p q hs hp
    exact ⟨by rw [hs.nick]; exact hp.nick, by rw [hs.jid]; exact hp.host,
      by rw [hs.jid]; exact hp.jid⟩
  cases hc with
  | adjust addr f hf => exact h.modify fun p => hsame (hf p)
  | adjustAll f hf => exact h.mapVals fun p => hsame (hf p)
  | subject addr sender node hm hsize => exact h.of_occupants rfl rfl
  | store inner history hs => exact h.of_occupants rfl rfl
  | creator ingress hok => exact h.of_occupants rfl rfl
  | join ingress mucNode acl affiliation hok hjid hres hnick hadmission =>
    have hcreator : Addressed (withCreator room ingress.realFrom) := h.of_occupants rfl rfl
    exact (hcreator.join hok hres affiliation).of_occupants rfl rfl
  | rename ingress addr hok hnick =>
    exact h.modify fun p hp => ⟨⟨_, rfl, hok.recipient.resource⟩, hp.host, hp.jid⟩
  | leave addr hm => exact h.leave addr
  | opened => exact h.of_occupants rfl rfl
  | option room' ho => cases ho <;> exact h.of_occupants rfl rfl
  | affiliate ingress addr sender acl target affiliation affiliations hok hitem hjid hm hadmin
      hadd =>
    refine affectEach _ (h.of_occupants rfl rfl) fun p q hq => ?_
    unfold reaffiliate at hq
    simp only at hq
    split at hq <;> cases hq
    exact ⟨rfl, rfl⟩
  | evict =>
    refine affectEach _ (h.of_occupants rfl rfl) fun p q hq => ?_
    cases hq
    exact ⟨rfl, rfl⟩

end Addressed

/-- **The names stay so in every run.** -/
theorem addressed_of_reach {start room : Room} (hstart : Addressed start)
    (h : Machine.Reach roomStep (fun _ stanza => PlainlyAddressed stanza.ingress) start room) :
    Addressed room :=
  keeps_of_reach (fun _ _ hs hc => hs.change hc) hstart h

/-! ## What `route_message` sends -/

/-- A packet is the message for one occupant. -/
structure RelayedTo (room : Room) (ingress : IncomingPacket) (sender receiver : Participant)
    (packet : BuilderPacket) : Prop where
  isSender : ∃ addr,
    participantsFindByJid room.participants ingress.realFrom = some (addr, sender)
  isReceiver : ∃ addr, (addr, receiver) ∈ room.occupants
  isMessage : ∃ inner,
    (packetCleanup ingress (packetCleanupFrom ||| packetCleanupTo)).innerBytes = some inner ∧
      packet = messagePacket room
        (packetCleanup ingress (packetCleanupFrom ||| packetCleanupTo)) inner sender receiver

section Routes

variable {room room' : Room} {ingress : IncomingPacket} {sent : List BuilderPacket}
  {packet : BuilderPacket} {sender : Participant} {addr : Nat}

/-- `worker_bounce` has made the packet. -/
def BouncedBy (room : Room) (ingress : IncomingPacket) (packet : BuilderPacket) : Prop :=
  ∃ error, workerBounce ingress error room.node = some packet

theorem bounce_sent {room₁ : Room} {error : XMPPError}
    (h : bounce room₁ ingress error = some (room', sent)) (hp : packet ∈ sent)
    (hnode : room₁.node = room.node) : BouncedBy room ingress packet := by
  unfold bounce at h
  obtain ⟨packet', hb, he⟩ := Option.map_eq_some_iff.mp h
  cases he
  rw [List.mem_singleton.mp hp]
  exact ⟨error, hnode ▸ hb⟩

theorem publish_sent
    (hs : participantsFindByJid room.participants ingress.realFrom = some (addr, sender))
    {room₁ : Room} (h : publish room₁ ingress sender = some (room', sent)) (hp : packet ∈ sent)
    (hnode : room₁.node = room.node)
    (hlist : ∀ b q, (b, q) ∈ room₁.occupants → ∃ p, (b, p) ∈ room.occupants ∧ q.jid = p.jid) :
    ∃ receiver, RelayedTo room ingress sender receiver packet := by
  unfold publish at h
  dsimp only at h
  obtain ⟨inner, hinner, h⟩ := Option.bind_eq_some_iff.mp h
  obtain ⟨history, -, h⟩ := Option.bind_eq_some_iff.mp h
  cases h
  obtain ⟨⟨b, q⟩, hm, rfl⟩ := List.mem_map.mp hp
  obtain ⟨p, hm', hjid⟩ := hlist b q hm
  refine ⟨p, ⟨addr, hs⟩, ⟨b, hm'⟩, inner, hinner, ?_⟩
  unfold messagePacket
  dsimp only
  rw [hnode, hjid]

theorem routePublicMessage_sent {limit ticks : Int}
    (hs : participantsFindByJid room.participants ingress.realFrom = some (addr, sender))
    (h : routePublicMessage room ingress addr sender limit ticks = some (room', sent))
    (hp : packet ∈ sent) : BouncedBy room ingress packet ∨
      ∃ receiver, RelayedTo room ingress sender receiver packet := by
  have hlist : ∀ b q,
      (b, q) ∈ (room.modify addr (fun p => { p with lastMessageTime := ticks })).occupants →
        ∃ p, (b, p) ∈ room.occupants ∧ q.jid = p.jid := by
    intro b q hm
    obtain ⟨p, hm', rfl⟩ := Room.mem_occupants_modify.mp hm
    refine ⟨p, hm', ?_⟩
    split <;> rfl
  unfold routePublicMessage at h
  split at h
  · exact .inl (bounce_sent h hp rfl)
  · split at h
    · exact .inl (bounce_sent h hp rfl)
    · obtain ⟨subject, -, h⟩ := Option.bind_eq_some_iff.mp h
      cases subject with
      | none => exact .inr (publish_sent hs h hp rfl hlist)
      | some newSubject =>
        dsimp only at h
        split at h
        · exact .inl (bounce_sent h hp rfl)
        · split at h
          · exact .inl (bounce_sent h hp rfl)
          · obtain ⟨node, -, h⟩ := Option.bind_eq_some_iff.mp h
            exact .inr (publish_sent hs h hp rfl hlist)

theorem routePrivateMessage_sent
    (hs : participantsFindByJid room.participants ingress.realFrom = some (addr, sender))
    (h : routePrivateMessage room ingress sender = some (room', sent)) (hp : packet ∈ sent) :
    BouncedBy room ingress packet ∨ ∃ receiver, RelayedTo room ingress sender receiver packet := by
  unfold routePrivateMessage at h
  split at h
  · exact .inl (bounce_sent h hp rfl)
  · next b receiver hfound =>
    split at h
    · exact .inl (bounce_sent h hp rfl)
    · split at h
      · exact .inl (bounce_sent h hp rfl)
      · obtain ⟨inner, hinner, h⟩ := Option.bind_eq_some_iff.mp h
        cases h
        rw [List.mem_singleton.mp hp]
        exact .inr ⟨receiver, ⟨addr, hs⟩, ⟨b, (findByNick_spec hfound).1⟩, inner, hinner, rfl⟩

/-- **`route_message` bounces or sends the message to occupants.** -/
theorem routeMessage_sent {limit ticks : Int}
    (h : routeMessage room ingress limit ticks = some (room', sent)) (hp : packet ∈ sent) :
    BouncedBy room ingress packet ∨
      ∃ sender receiver, RelayedTo room ingress sender receiver packet := by
  unfold routeMessage at h
  split at h
  · exact .inl (bounce_sent h hp rfl)
  · next addr sender hs =>
    split at h
    · exact (routePublicMessage_sent hs h hp).imp_right fun hr => ⟨sender, hr⟩
    · exact (routePrivateMessage_sent hs h hp).imp_right fun hr => ⟨sender, hr⟩

end Routes

/-! ## The relayed text -/

/-- An attribute that `builder_build` writes. -/
def builtAttr (lead : Bytes) (name : String) (value : Bytes) : AttrText where
  lead := lead
  name := lit name
  gap := lit "="
  quote := quote1
  value := value

/-- The three attributes that the room replaces. -/
def replacedWords : List Bytes := [lit "from", lit "to", lit "type"]

theorem builtAttr_written {lead value : Bytes} {name : String}
    (hlead : ∀ c ∈ lead, whitespace c = true)
    (hname : lit name ≠ [] ∧ (lit name).all nameChar = true)
    (hvalue : quote1 ∉ value) : (builtAttr (lead ++ lit " ") name value).Written where
  lead := by
    refine ⟨by simp [builtAttr, lit], fun c hc => ?_⟩
    rcases List.mem_append.mp hc with hc | hc
    · exact hlead c hc
    · rw [List.mem_singleton.mp hc]
      rfl
  name := hname
  gap := rfl
  quote := rfl
  value := hvalue

/-- The attributes of a message that survive. -/
theorem survivors_relayedHeader {attrs : List AttrText} (h : (attrs.map AttrText.name).Nodup) :
    survivors (relayedHeader attrs)
      = (attrs.map AttrText.pair).filter (fun x => !replacedWords.contains x.1) := by
  have hfirst : ((survivors (attrs.map .kept)).map Prod.fst).Nodup := by
    rw [survivors_map_kept, List.map_map]
    exact h
  have htype := @survivors_markLast AttrKey.type.word _ (blanks_map_kept attrs) hfirst
  have hsecond : ((survivors (markLast AttrKey.type.word .blanked (attrs.map .kept))).map
      Prod.fst).Nodup := by
    rw [htype]
    exact hfirst.sublist (List.filter_sublist.map _)
  have hto := @survivors_markLast AttrKey.recipient.word _ (blanks_map_kept attrs).markLast hsecond
  have hthird : ((survivors (nameless attrs)).map Prod.fst).Nodup := by
    unfold nameless
    rw [hto]
    exact hsecond.sublist (List.filter_sublist.map _)
  have hfrom := @survivors_markLast AttrKey.sender.word _ (blanks_nameless attrs) hthird
  unfold relayedHeader
  rw [hfrom]
  unfold nameless
  rw [hto, htype, survivors_map_kept, List.filter_filter, List.filter_filter]
  refine List.filter_congr fun x _ => ?_
  simp [replacedWords, AttrKey.word, Bool.and_assoc, bne, beq_eq_decide]

/-- An attribute that is passed on has only white space more before it. -/
theorem written_of_comes {attrs : List AttrText} (h : ∀ a ∈ attrs, a.Written) {x : AttrText}
    (hx : Comes (relayedHeader attrs) x) : x.Written := by
  cases hx with
  | kept a space hm hspace he =>
    have ha : a ∈ attrs := by
      rw [← (replaces_relayedHeader attrs).attrs]
      exact List.mem_map.mpr ⟨_, hm, rfl⟩
    obtain ⟨⟨hne, hwhite⟩, hname, hgap, hquote, hvalue⟩ := h a ha
    subst he
    exact ⟨⟨by simp [hne], white_append hspace hwhite⟩, hname, hgap, hquote, hvalue⟩
  | switched a space hm hspace he => exact absurd rfl ((blanks_nameless attrs).markLast _ hm a)

theorem relayedHeader_lead {attrs : List AttrText} (h : ∀ a ∈ attrs, a.Written) :
    ∀ p ∈ relayedHeader attrs, ∀ c ∈ p.attr.lead, whitespace c = true := by
  intro p hp
  have ha : p.attr ∈ attrs := by
    rw [← (replaces_relayedHeader attrs).attrs]
    exact List.mem_map_of_mem hp
  exact (h _ ha).lead.2

/-- The type of a message is the name that it came with. -/
theorem typeName_of_setType {value : Bytes} {type : Nat}
    (h : setType value .message = some type) : type ≠ 0 ∧ typeName .message type = value := by
  unfold setType at h
  split at h
  · next he =>
    cases h
    exact ⟨by decide, by rw [he]; rfl⟩
  · dsimp only at h
    split at h
    · next he =>
      cases h
      exact ⟨by decide, by rw [he]; rfl⟩
    · split at h
      · next he =>
        cases h
        exact ⟨by decide, by rw [he]; rfl⟩
      · cases h

/-- The type that a message had, as `builder_build` writes it again. -/
def typeAttrs (type : Nat) : List AttrText :=
  if type = 0 then [] else [builtAttr (lit " ") "type" (typeName .message type)]

theorem typeAttrs_written {type : Nat} : ∀ a ∈ typeAttrs type, a.Written := by
  have hvalue : quote1 ∉ typeName .message type := by
    unfold typeName
    split
    · decide
    · dsimp only
      split
      · decide
      · split <;> decide
  unfold typeAttrs
  intro a ha
  split at ha
  · cases ha
  · rw [List.mem_singleton.mp ha]
    exact builtAttr_written (List.forall_mem_nil _) (by decide) hvalue

/-- A name that stands once has the one value. -/
theorem filter_name_of_mem {word value : Bytes} : ∀ {pairs : List (Bytes × Bytes)},
    (pairs.map Prod.fst).Nodup → (word, value) ∈ pairs →
    pairs.filter (fun x => x.1 == word) = [(word, value)]
  | [], _, h => by cases h
  | x :: pairs, hnodup, h => by
    rw [List.map_cons, List.nodup_cons] at hnodup
    obtain ⟨hfresh, hnodup⟩ := hnodup
    rcases List.mem_cons.mp h with rfl | h
    · rw [List.filter_cons_of_pos (by simp), List.filter_eq_nil_iff.mpr]
      intro y hy hname
      exact hfresh (List.mem_map.mpr ⟨y, hy, by simpa using hname⟩)
    · have hne : x.1 ≠ word := by
        rintro rfl
        exact hfresh (List.mem_map.mpr ⟨_, h, rfl⟩)
      rw [List.filter_cons_of_neg (by simpa using hne), filter_name_of_mem hnodup h]

theorem map_fst_pairs (message : WrittenMessage) :
    message.pairs.map Prod.fst = message.attrs.map AttrText.name := by
  unfold WrittenMessage.pairs
  rw [List.map_map]
  rfl

/-- **The type is passed on.** -/
theorem pairs_typeAttrs {message : WrittenMessage} {ingress : IncomingPacket}
    (hread : StanzaRead message.text message.attrs ingress) (hname : ingress.name = .message) :
    (typeAttrs ingress.type).map AttrText.pair
      = message.pairs.filter (fun x => x.1 == lit "type") := by
  unfold typeAttrs
  rcases hread.read.type with ⟨hnone, hzero⟩ | ⟨a, ha, hword, hset⟩
  · rw [if_pos hzero, eq_comm, List.map_nil, List.filter_eq_nil_iff]
    intro x hx hw
    obtain ⟨a, ha, rfl⟩ := List.mem_map.mp hx
    exact hnone a ha (by simpa [AttrText.pair] using hw)
  · rw [hname] at hset
    obtain ⟨hne, hvalue⟩ := typeName_of_setType hset
    rw [if_neg hne, hvalue]
    refine (filter_name_of_mem (by rw [map_fst_pairs]; exact message.once) ?_).symm
    exact List.mem_map.mpr ⟨a, ha, by rw [AttrText.pair, hword]; rfl⟩

/-- What the receiver sees as the sender of a message. -/
def nickAddress (fromHost : Bytes) (room : Room) (sender : Participant) : Bytes :=
  bptBytes room.node ++ lit "@" ++ fromHost ++ lit "/" ++ bptBytes sender.nick

/--
The text that is sent is the message of an occupant for an occupant: its attributes, each once,
are those of the message with the three of the room in the place of the old ones, and its content
is that of the message.
-/
def RelayOf (fromHost : Bytes) (room : Room) (message : WrittenMessage)
    (ingress : IncomingPacket) (packet : BuilderPacket) : Prop :=
  ∃ sender receiver, RelayedTo room ingress sender receiver packet ∧
    ∃ relayed : WrittenMessage, builderBuild fromHost packet = some relayed.text ∧
      relayed.pairs = message.pairs.filter (fun x => !replacedWords.contains x.1) ++
        [(lit "from", nickAddress fromHost room sender), (lit "to", jidStr receiver.jid)] ++
        message.pairs.filter (fun x => x.1 == lit "type") ∧
      relayed.payload = message.payload

/-- The names stay different when the three are replaced. -/
theorem nodup_replaced {pairs : List (Bytes × Bytes)} (h : (pairs.map Prod.fst).Nodup)
    (sender recipient : Bytes) :
    ((pairs.filter (fun x => !replacedWords.contains x.1) ++
        [(lit "from", sender), (lit "to", recipient)] ++
        pairs.filter (fun x => x.1 == lit "type")).map Prod.fst).Nodup := by
  have hkept : ∀ w ∈ (pairs.filter (fun x => !replacedWords.contains x.1)).map Prod.fst,
      w ∉ replacedWords := by
    intro w hw
    obtain ⟨x, hx, rfl⟩ := List.mem_map.mp hw
    simpa using (List.mem_filter.mp hx).2
  have htype : ∀ w ∈ (pairs.filter (fun x => x.1 == lit "type")).map Prod.fst,
      w = lit "type" := by
    intro w hw
    obtain ⟨x, hx, rfl⟩ := List.mem_map.mp hw
    simpa using (List.mem_filter.mp hx).2
  have hto : lit "to" ∈ replacedWords := by decide
  have hfrom : lit "from" ∈ replacedWords := by decide
  have hwords : [lit "from", lit "to"].Nodup := by decide
  rw [List.map_append, List.map_append, List.append_assoc]
  refine List.nodup_append'.mpr ⟨h.sublist (List.filter_sublist.map _),
    List.nodup_append'.mpr ⟨hwords, h.sublist (List.filter_sublist.map _), ?_⟩, ?_⟩
  · intro w hw hw'
    rw [htype w hw'] at hw
    exact absurd hw (by simp; decide)
  · intro w hw hw'
    refine hkept w hw ?_
    rcases List.mem_append.mp hw' with hw' | hw'
    · rcases List.mem_cons.mp hw' with rfl | hw'
      · exact hfrom
      · rw [List.mem_singleton.mp hw']
        exact hto
    · rw [htype w hw']
      decide

theorem AddressedOccupant.not_empty {p : Participant} (h : AddressedOccupant p) :
    jidEmpty p.jid = false := by
  unfold jidEmpty
  rw [Option.isNone_eq_false_iff]
  exact h.host

/-- The start tag that `builder_build` writes, as attributes. -/
theorem builderHead_message {fromHost : Bytes} {packet : BuilderPacket} {attrs : List AttrText}
    {rest : Bytes} (hname : packet.name = .message)
    (hheader : bptBytes packet.header = attrsText attrs ++ rest)
    (hto : jidEmpty packet.toJid = false) :
    builderHead fromHost packet = lit "<message" ++ (attrsText (attrs ++
      [builtAttr (rest ++ lit " ") "from" (fromText fromHost packet),
        builtAttr (lit " ") "to" (jidStr packet.toJid)] ++ typeAttrs packet.type) ++ lit ">") := by
  have hstart : tagStart .message = lit "<message" := by decide
  have hfrom : lit " from='" = lit " " ++ (lit "from" ++ (lit "=" ++ [quote1])) := by decide
  have hto' : lit "' to='" = quote1 :: (lit " " ++ (lit "to" ++ (lit "=" ++ [quote1]))) := by
    decide
  have htype : lit "' type='" = quote1 :: (lit " " ++ (lit "type" ++ (lit "=" ++ [quote1]))) := by
    decide
  have hend : lit "'>" = quote1 :: lit ">" := by decide
  unfold builderHead typeAttrs
  rw [hname, hheader, hstart, hfrom, hto', htype, hend, hto, if_neg Bool.false_ne_true]
  split <;> simp [builtAttr, AttrText.text, AttrText.rest]

theorem fromText_relayed {fromHost : Bytes} {packet : BuilderPacket} {node nick : Bytes}
    (hnode : packet.fromNode = some node) (hnick : packet.fromNick = some nick) :
    fromText fromHost packet = node ++ lit "@" ++ fromHost ++ lit "/" ++ nick := by
  unfold fromText
  rw [hnode, hnick, ← List.append_assoc]

/-- The payload of a message is passed on as it is. -/
theorem innerBytes_relayed {message : WrittenMessage} {ingress : IncomingPacket}
    (hparse : packetParse message.text = some (some ingress)) {mode : Nat} {inner : Buffer}
    (h : (packetCleanup ingress mode).innerBytes = some inner) :
    ingress.innerBytes.isSome ∧ bptBytes inner = message.payload := by
  have hacc : Accepted ingress := ⟨_, hparse⟩
  obtain ⟨-, hmessage, hpayload⟩ := message.read hparse
  obtain ⟨old, hold, hbytes⟩ := Option.map_eq_some_iff.mp hpayload
  have hdef : ingress.innerBytes.isSome := by rw [hold]; rfl
  -- no node of a message is blanked
  have hblanked : blankedMem ingress = ingress.mem := by
    obtain ⟨hmuc, huser⟩ := hacc.found_none (by rw [hmessage]; decide)
    unfold blankedMem
    rw [hmuc, huser]
    rfl
  rw [hacc.innerBytes_cleaned hdef, hblanked] at h
  have hsame : ingress.innerBytes = some inner := h
  rw [hold, Option.some.injEq] at hsame
  rw [← hsame]
  exact ⟨hdef, hbytes⟩

/-- The attributes that are passed on, and what is left of the others. -/
theorem exists_left (message : WrittenMessage) : ∃ attrs rest,
    piecesText (relayedHeader message.attrs) = attrsText attrs ++ rest ∧
      (∀ a ∈ attrs, a.Written) ∧ (∀ c ∈ rest, whitespace c = true) ∧
      attrs.map AttrText.pair = message.pairs.filter (fun x => !replacedWords.contains x.1) := by
  obtain ⟨hcomes, hwhite⟩ :=
    absorb_comes (relayedHeader_lead message.written) (List.forall_mem_nil _)
  refine ⟨_, _, (attrsText_absorb (relayedHeader message.attrs) []).symm,
    fun a ha => written_of_comes message.written (hcomes a ha), hwhite, ?_⟩
  rw [pairs_absorb, survivors_relayedHeader message.once]
  rfl

/-- **A message for an occupant is the message that has been received.** -/
theorem RelayedTo.relayOf {fromHost : Bytes} {room : Room} {message : WrittenMessage}
    {ingress : IncomingPacket} {sender receiver : Participant} {packet : BuilderPacket}
    (hhost : quote1 ∉ fromHost) (hroom : Addressed room)
    (hparse : packetParse message.text = some (some ingress))
    (h : RelayedTo room ingress sender receiver packet) :
    RelayOf fromHost room message ingress packet := by
  obtain ⟨hread, hmessage, -⟩ := message.read hparse
  obtain ⟨addr, hs⟩ := h.isSender
  obtain ⟨b, hb⟩ := h.isReceiver
  obtain ⟨inner, hinner, hpacket⟩ := h.isMessage
  have hto := hroom.occupants b receiver hb
  obtain ⟨node, hnode, hnodequote⟩ := hroom.node
  obtain ⟨nick, hnick, hnickquote⟩ := (hroom.occupants addr sender (findByJid_mem hs)).nick
  obtain ⟨hdef, hcontent⟩ := innerBytes_relayed hparse hinner
  obtain ⟨attrs, rest, hleft, hwritten, hwhite, hpairs⟩ := exists_left message
  -- the fields of the packet
  have hheader : bptBytes packet.header = attrsText attrs ++ rest := by
    rw [hpacket, ← hleft, ← hread.relayed ⟨_, hparse⟩ hdef]
    rfl
  have hfrom : fromText fromHost packet = nickAddress fromHost room sender := by
    have hnode' : packet.fromNode = some node := by rw [hpacket, ← hnode]; rfl
    have hnick' : packet.fromNick = some nick := by rw [hpacket, ← hnick]; rfl
    rw [fromText_relayed hnode' hnick', nickAddress, hnode, hnick]
    rfl
  have hname : packet.name = .message := by rw [hpacket]; rfl
  have htype : packet.type = ingress.type := by rw [hpacket]; rfl
  have hjid : packet.toJid = receiver.jid := by rw [hpacket]; rfl
  have hdata : bptBytes packet.userData = message.payload := by rw [hpacket, ← hcontent]; rfl
  have hsys : packet.sysData = .zero := by rw [hpacket]; rfl
  -- the message that is sent
  have hquote : quote1 ∉ nickAddress fromHost room sender := by
    have hmarks : quote1 ∉ lit "@" ∧ quote1 ∉ lit "/" := by decide
    unfold nickAddress
    rw [hnode, hnick]
    simp only [bptBytes, List.mem_append, not_or]
    exact ⟨⟨⟨⟨hnodequote, hmarks.1⟩, hhost⟩, hmarks.2⟩, hnickquote⟩
  have hsent : ∀ a ∈ attrs ++
      [builtAttr (rest ++ lit " ") "from" (nickAddress fromHost room sender),
        builtAttr (lit " ") "to" (jidStr receiver.jid)] ++ typeAttrs ingress.type,
      a.Written := by
    intro a ha
    rcases List.mem_append.mp ha with ha | ha
    · rcases List.mem_append.mp ha with ha | ha
      · exact hwritten a ha
      · rcases List.mem_cons.mp ha with rfl | ha
        · exact builtAttr_written hwhite (by decide) hquote
        · rw [List.mem_singleton.mp ha]
          exact builtAttr_written (List.forall_mem_nil _) (by decide) hto.jid.text
    · exact typeAttrs_written a ha
  have hnames : ((attrs ++
      [builtAttr (rest ++ lit " ") "from" (nickAddress fromHost room sender),
        builtAttr (lit " ") "to" (jidStr receiver.jid)] ++ typeAttrs ingress.type).map
          AttrText.pair)
      = message.pairs.filter (fun x => !replacedWords.contains x.1) ++
        [(lit "from", nickAddress fromHost room sender), (lit "to", jidStr receiver.jid)] ++
        message.pairs.filter (fun x => x.1 == lit "type") := by
    rw [List.map_append, List.map_append, hpairs, pairs_typeAttrs hread hmessage]
    rfl
  have honce := nodup_replaced (by rw [map_fst_pairs]; exact message.once)
    (nickAddress fromHost room sender) (jidStr receiver.jid)
  rw [← hnames, List.map_map] at honce
  refine ⟨sender, receiver, h,
    ⟨_, hsent, honce, [], List.forall_mem_nil _, some message.payload⟩, ?_, hnames, rfl⟩
  have hadd : builderAddition fromHost packet = some [] := by
    unfold builderAddition presenceAddition
    rw [hname, hsys, if_neg (show ¬ StanzaName.message = .iq by decide)]
    split
    · next hc => rw [if_pos (hc.resolve_left (by decide))]
    · rfl
  have hendTag : endTag .message = lit "</message>" := by decide
  unfold builderBuild
  rw [hadd, Option.map_some, builderHead_message hname hheader (by rw [hjid]; exact hto.not_empty),
    hfrom, hjid, htype, hdata, hname, hendTag]
  simp [WrittenMessage.text, WrittenMessage.ending, lit, ch]

/-! ## The result -/

/--
**Every message is relayed as it was written.** In every run of stanzas whose addresses are
written in single quotes, `route_message` answers a message with a bounce, or sends it on.
-/
theorem message_relayed {fromHost : Bytes} (hhost : quote1 ∉ fromHost) {start room : Room}
    (hstart : Addressed start)
    (hreach : Machine.Reach roomStep (fun _ stanza => PlainlyAddressed stanza.ingress) start room)
    {message : WrittenMessage} {ingress : IncomingPacket}
    (hparse : packetParse message.text = some (some ingress)) {limit ticks : Int} {room' : Room}
    {sent : List BuilderPacket}
    (h : routeMessage room ingress limit ticks = some (room', sent)) {packet : BuilderPacket}
    (hp : packet ∈ sent) (hbounce : ¬ BouncedBy room ingress packet) :
    RelayOf fromHost room message ingress packet := by
  rcases routeMessage_sent h hp with hb | ⟨sender, receiver, hr⟩
  · exact absurd hb hbounce
  · exact hr.relayOf hhost (addressed_of_reach hstart hreach) hparse

theorem no_space : ∀ c ∈ ([] : Bytes), whitespace c = true := List.forall_mem_nil _

/-- A message with an identifier for bob, its attributes in an unusual order. -/
def tellBobMessage (sender : String) (hsender : quote1 ∉ lit sender) : WrittenMessage where
  attrs := [builtAttr (lit " ") "type" (lit "chat"), builtAttr (lit " ") "to" (lit "room@conf/bob"),
    builtAttr (lit " ") "id" (lit "m1"), builtAttr (lit " ") "from" (lit sender)]
  written := by
    intro a ha
    simp only [List.mem_cons, List.not_mem_nil, or_false] at ha
    rcases ha with rfl | rfl | rfl | rfl
    · exact builtAttr_written no_space (by decide) (by decide)
    · exact builtAttr_written no_space (by decide) (by decide)
    · exact builtAttr_written no_space (by decide) (by decide)
    · exact builtAttr_written no_space (by decide) hsender
  once := (by decide : [lit "type", lit "to", lit "id", lit "from"].Nodup)
  space := []
  white := no_space
  content := some (lit "<body>hi</body>")

/-- What becomes of a message in a room. -/
def messageSent (room : Room) (message : WrittenMessage) :
    Option (IncomingPacket × Room × List BuilderPacket) := do
  let ingress ← (packetParse message.text).join
  let (room', sent) ← routeMessage room ingress 0 0
  return (ingress, room', sent)

theorem messageSent_spec {room room' : Room} {message : WrittenMessage} {ingress : IncomingPacket}
    {sent : List BuilderPacket} (h : messageSent room message = some (ingress, room', sent)) :
    packetParse message.text = some (some ingress) ∧
      routeMessage room ingress 0 0 = some (room', sent) := by
  unfold messageSent at h
  obtain ⟨ingress₁, hi, h⟩ := Option.bind_eq_some_iff.mp h
  obtain ⟨⟨room₁, sent₁⟩, hr, h⟩ := Option.bind_eq_some_iff.mp h
  cases h
  exact ⟨Option.join_eq_some_iff.mp hi, hr⟩

theorem stranger_unquoted : quote1 ∉ lit "eve@h/pc" := by decide

theorem alice_unquoted : quote1 ∉ lit "alice@h/pc" := by decide

set_option maxRecDepth 100000 in
/-- A message of a stranger comes back with an error in it. -/
theorem bounced_message_not_relayed :
    ¬ ∀ (message : WrittenMessage) (ingress : IncomingPacket) (room' : Room)
      (sent : List BuilderPacket), packetParse message.text = some (some ingress) →
      routeMessage (roomInit (lit "room")) ingress 0 0 = some (room', sent) →
      ∀ packet ∈ sent, RelayOf (lit "conf") (roomInit (lit "room")) message ingress packet := by
  intro hall
  have hsent : (messageSent (roomInit (lit "room"))
      (tellBobMessage "eve@h/pc" stranger_unquoted)).any (fun r => r.2.2.any (fun packet =>
        (builderBuild (lit "conf") packet).any (fun text =>
          !decide (lit "<body>hi</body></message>" <:+ text)))) = true := by decide +kernel
  obtain ⟨⟨ingress, room', sent⟩, hs, hany⟩ := (Option.any_eq_true _ _).mp hsent
  obtain ⟨packet, hp, hany⟩ := List.any_eq_true.mp hany
  obtain ⟨text, htext, hno⟩ := (Option.any_eq_true _ _).mp hany
  obtain ⟨hparse, hr⟩ := messageSent_spec hs
  obtain ⟨-, -, -, relayed, hbuilt, -, hpayload⟩ := hall _ _ _ _ hparse hr packet hp
  rw [htext, Option.some.injEq] at hbuilt
  rw [Bool.not_eq_true', decide_eq_false_iff_not, hbuilt] at hno
  have hsuffix : lit "<body>hi</body>" ++ lit "</message>" <:+ relayed.text :=
    WrittenMessage.payload_suffix hpayload
  exact hno hsuffix

/-- What alice's message for bob looks like to bob. -/
def bobReceives : Bytes :=
  lit "<message" ++ List.replicate 32 (ch ' ') ++ lit "id='m1'" ++ List.replicate 19 (ch ' ') ++
    lit "from='room@conf/al' to='bob@h/pc' type='chat'><body>hi</body></message>"

set_option maxRecDepth 100000 in
/-- The result at a private message of alice to bob. -/
theorem message_relayed_tellBob : ∃ room ingress packet, aliceAndBob = some room ∧
    packetParse (tellBobMessage "alice@h/pc" alice_unquoted).text = some (some ingress) ∧
    builderBuild (lit "conf") packet = some bobReceives ∧
    RelayOf (lit "conf") room (tellBobMessage "alice@h/pc" alice_unquoted) ingress packet := by
  have hsent : aliceAndBob.any (fun room =>
      (messageSent room (tellBobMessage "alice@h/pc" alice_unquoted)).any (fun r =>
        r.2.2.any (fun packet => packet.type == stanzaMessageChat &&
          builderBuild (lit "conf") packet == some bobReceives))) = true := by decide +kernel
  have hplain : ∀ stanza ∈ stanzasOfTexts openAcl 0 0
      ["<presence from='alice@h/pc' to='room@conf/al'/>",
        "<presence from='bob@h/pc' to='room@conf/bob'/>"],
      quote1 ∉ bptBytes stanza.ingress.realFrom.node ∧
        quote1 ∉ bptBytes stanza.ingress.realFrom.host ∧
        quote1 ∉ bptBytes stanza.ingress.realFrom.resource ∧
        quote1 ∉ bptBytes stanza.ingress.proxyTo.node ∧
        quote1 ∉ bptBytes stanza.ingress.proxyTo.host ∧
        quote1 ∉ bptBytes stanza.ingress.proxyTo.resource := by decide +kernel
  obtain ⟨room, hroom, hany⟩ := (Option.any_eq_true _ _).mp hsent
  obtain ⟨⟨ingress, room', sent⟩, hs, hany⟩ := (Option.any_eq_true _ _).mp hany
  obtain ⟨packet, hp, hchecks⟩ := List.any_eq_true.mp hany
  obtain ⟨hparse, hr⟩ := messageSent_spec hs
  rw [Bool.and_eq_true, beq_iff_eq, beq_iff_eq] at hchecks
  refine ⟨room, ingress, packet, hroom, hparse, hchecks.2,
    message_relayed (by decide) (.roomInit (by decide)) (.run .start ?_ hroom) hparse hr hp ?_⟩
  · intro _ stanza hm
    obtain ⟨h₁, h₂, h₃, h₄, h₅, h₆⟩ := hplain stanza hm
    exact ⟨accepted_of_texts hm, ⟨h₁, h₂, h₃⟩, ⟨h₄, h₅, h₆⟩⟩
  · rintro ⟨error, hb⟩
    obtain ⟨inner, -, he⟩ := Option.bind_eq_some_iff.mp hb
    cases he
    have hne : stanzaError ≠ stanzaMessageChat := by decide
    exact hne hchecks.1

end Mukite
