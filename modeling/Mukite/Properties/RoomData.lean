import Mukite.Properties.Forged
import Mukite.Properties.Presences

/-!
# Whose room data a presence carries

Whatever presence the room sends or keeps, its user data has no `<x/>` of the namespaces muc and
muc#user at the top, so the one in the stanza is the room's own (`presences_unforged`). There are
two ways past `packet_cleanup`. A nick change is announced without it (`renamed_forged`). And what
the parser has not found is not blanked: a node behind a stray quote in character data, one with a
label before its name, one whose namespace is written with references (`hidden_forged`).
`NoForgedData` says which presences bring no such node into the room.
-/

namespace Mukite

/-! ## The stanza that is built -/

/-- The tag of the node that the builder adds. -/
def mucadmTagText : Bytes := lit "x xmlns='http://jabber.org/protocol/muc#user'"

/-- **The node that the builder adds is one of the room's**, whatever the header declares. -/
theorem startsRoomData_mucadmTag (header : Buffer) : startsRoomData header mucadmTagText = true := by
  have hname : XmlReader.localPart (XmlReader.tagName mucadmTagText) = lit "x" := by decide +kernel
  have hlabel : XmlReader.declares (XmlReader.label (XmlReader.tagName mucadmTagText))
      = lit "xmlns" := by decide +kernel
  have hattrs : XmlReader.attrs mucadmTagText = [(lit "xmlns", lit xmlnsMucUser)] := by
    decide +kernel
  have hvalue : XmlReader.resolved none (lit xmlnsMucUser) = lit xmlnsMucUser := by decide +kernel
  have hfound : XmlReader.namespaceOf (XmlReader.attrsFrom [] none (bptBytes header)) mucadmTagText
      = some (lit xmlnsMucUser) := by
    unfold XmlReader.namespaceOf
    rw [hattrs, hlabel, List.cons_append, List.find?_cons_of_pos (by exact beq_self_eq_true _),
      Option.map_some, hvalue]
  unfold startsRoomData
  rw [hname, beq_self_eq_true, Bool.true_and, hfound, Option.any_some, beq_self_eq_true,
    Bool.or_true]

/-- A reader finds it first in what the builder adds. -/
theorem elements_mucadmTag (tail : Bytes) :
    ∃ rest, XmlReader.elements (mucadmTag ++ tail) = mucadmTagText :: rest := by
  have hrun : XmlReader.run XmlReader.atTop mucadmTag
      = ({ depth := 1, tag := none }, [mucadmTagText]) := by decide +kernel
  unfold XmlReader.elements
  rw [XmlReader.run_append, hrun]
  exact ⟨_, rfl⟩

theorem mucadmTag_prefix {item : MucAdminItem} {statusCodes : Nat} {resume : Buffer}
    {addition : Bytes} (h : buildPresenceMucadm item statusCodes resume = some addition) :
    ∃ tail, addition = mucadmTag ++ tail := by
  unfold buildPresenceMucadm at h
  obtain ⟨affiliation, -, h⟩ := Option.bind_eq_some_iff.mp h
  obtain ⟨role, -, h⟩ := Option.bind_eq_some_iff.mp h
  exact ⟨_, (Option.some.inj h).symm⟩

/-- The elements at the top of a text that are room data. -/
def roomData (header : Buffer) (text : Bytes) : List Bytes :=
  (XmlReader.elements text).filter (startsRoomData header)

/-- What holds of a presence whose room data is the room's. -/
structure RoomsOwn (packet : BuilderPacket) : Prop where
  userData : Unforged packet.header packet.userData
  /-- in the stanza, an element of the namespaces is not one of the user data -/
  rendered : ∀ fromHost text, builderBuildPresence fromHost packet = some text →
    ∃ addition, presenceAddition packet = some addition ∧
      text = presenceHead fromHost packet ++ (bptBytes packet.userData ++ addition) ++
        lit "</presence>" ∧
      (XmlReader.Closed (bptBytes packet.userData) →
        roomData packet.header (bptBytes packet.userData ++ addition)
          = roomData packet.header addition)
  /-- and there is just one, if what the builder adds is one element -/
  only : packet.type ≠ stanzaError → XmlReader.Closed (bptBytes packet.userData) →
    ∀ addition, presenceAddition packet = some addition →
      (XmlReader.elements addition).length = 1 →
      roomData packet.header (bptBytes packet.userData ++ addition) = [mucadmTagText]

/-- Behind user data that is closed, the room data is what has been added. -/
theorem Unforged.roomData_append {header payload : Buffer} (h : Unforged header payload)
    (hclosed : XmlReader.Closed (bptBytes payload)) (addition : Bytes) :
    roomData header (bptBytes payload ++ addition) = roomData header addition := by
  have hnone : (XmlReader.elements (bptBytes payload)).filter (startsRoomData header) = [] :=
    List.filter_eq_nil_iff.mpr fun tag hm => by rw [h tag hm]; exact Bool.false_ne_true
  unfold roomData
  rw [XmlReader.elements_append hclosed, List.filter_append, hnone, List.nil_append]

theorem Unforged.roomsOwn {packet : BuilderPacket} (h : Unforged packet.header packet.userData) :
    RoomsOwn packet where
  userData := h
  rendered := by
    intro fromHost text ht
    obtain ⟨addition, hadd, rfl⟩ := Option.map_eq_some_iff.mp ht
    exact ⟨addition, hadd, rfl, fun hclosed => h.roomData_append hclosed addition⟩
  only := by
    intro htype hclosed addition hadd hone
    have hfirst : ∃ rest, XmlReader.elements addition = mucadmTagText :: rest := by
      unfold presenceAddition at hadd
      rw [if_neg htype] at hadd
      split at hadd
      · obtain ⟨tail, rfl⟩ := mucadmTag_prefix hadd
        exact elements_mucadmTag tail
      · cases hadd
    obtain ⟨rest, hrest⟩ := hfirst
    rw [hrest, List.length_cons, Nat.add_eq_right, List.length_eq_zero_iff] at hone
    rw [h.roomData_append hclosed]
    unfold roomData
    rw [hrest, hone, List.filter_cons_of_pos (startsRoomData_mucadmTag _), List.filter_nil]

/-! ## Which presences bring no room data -/

/-- The header with which a stanza goes back to its sender. -/
def returnedHeader (ingress : IncomingPacket) : Bytes :=
  (packetCleanup ingress (packetCleanupTo ||| packetCleanupSwitchFromTo)).headerBytes

/-- What is shown of the payload has no `<x/>` of the room. -/
def PayloadUse.Clean (ingress : IncomingPacket) : PayloadUse → Prop
  | unused => True
  | returned => Unforged (some (returnedHeader ingress)) (leftOver ingress)
  | relayed => Unforged none (leftOver ingress)
  | renamed => ∀ inner ∈ ingress.innerBytes, Unforged none inner

instance (ingress : IncomingPacket) : ∀ use, Decidable (PayloadUse.Clean ingress use)
  | .unused => inferInstanceAs (Decidable True)
  | .returned => inferInstanceAs (Decidable (Unforged _ _))
  | .relayed => inferInstanceAs (Decidable (Unforged _ _))
  | .renamed => inferInstanceAs (Decidable (∀ inner ∈ ingress.innerBytes, Unforged none inner))

/-- A presence that brings no `<x/>` of muc or muc#user into a room. -/
def NoForgedData (room : Room) (ingress : IncomingPacket) (acl : ACLConfig) : Prop :=
  (payloadUse room ingress acl).Clean ingress

instance (room : Room) (ingress : IncomingPacket) (acl : ACLConfig) :
    Decidable (NoForgedData room ingress acl) := inferInstanceAs (Decidable (PayloadUse.Clean _ _))

section

variable {room room' : Room} {ingress : IncomingPacket} {acl : ACLConfig}
  {sent : List BuilderPacket}

theorem NoForgedData.payloadHas (hcond : NoForgedData room ingress acl) (ha : Accepted ingress)
    (hname : ingress.name = .presence) : PayloadHas (Unforged none) room ingress acl := by
  intro inner hi
  unfold NoForgedData at hcond
  cases huse : payloadUse room ingress acl with
  | unused | returned =>
    rw [huse] at hi
    cases hi
  | relayed =>
    rw [huse] at hi hcond
    rw [cleaned_leftOver ha hname _ hi]
    exact hcond
  | renamed =>
    rw [huse] at hi hcond
    exact hcond inner hi

/-- What goes back is the stanza with what has not been found in its payload. -/
theorem workerBounce_leftOver {error : XMPPError} {node : Buffer} {packet : BuilderPacket}
    (ha : Accepted ingress) (hname : ingress.name = .presence)
    (h : workerBounce ingress error node = some packet) :
    packet.name = .presence ∧ packet.header = some (returnedHeader ingress) ∧
      packet.userData = leftOver ingress := by
  unfold workerBounce at h
  obtain ⟨inner, hi, h⟩ := Option.bind_eq_some_iff.mp h
  cases h
  exact ⟨hname, rfl, cleaned_leftOver ha hname _ hi⟩

/-- **What is sent for a presence without room data shows none.** -/
theorem NoForgedData.unforged (hcond : NoForgedData room ingress acl) (ha : Accepted ingress)
    (hname : ingress.name = .presence) (h : AllPresences (Unforged none) room)
    (hc : PayloadCase room ingress acl room' sent) :
    ∀ packet ∈ sent, packet.name = .presence → Unforged packet.header packet.userData := by
  have hpayload := hcond.payloadHas ha hname
  cases hc with
  | ignored huse => exact fun _ hm => absurd hm List.not_mem_nil
  | returned room' error packet huse hocc hb =>
    intro packet' hm _
    obtain rfl := List.mem_singleton.mp hm
    obtain ⟨-, hheader, hdata⟩ := workerBounce_leftOver ha hname hb
    unfold NoForgedData at hcond
    rw [huse] at hcond
    rw [hheader, hdata]
    exact hcond
  | announced room₁ room' sent₁ sent addr p ingress₁ inner justJoined hgo hinner hc =>
    have hkept := hgo.kept (Unforged none) (unforged_none none) h
    have hshows : Shows (Unforged none) (sent₁ ++ sent) := by
      refine (hgo.shows (Unforged none) (unforged_none none) h).append ?_
      refine .announce (hkept addr p hgo.mem) (fun hmay => hpayload inner ?_) hc
      rw [hgo.payload hmay, hinner]
    intro packet hm hp
    obtain ⟨hheader, hdata⟩ := hshows packet hm hp
    rw [hheader]
    exact hdata

/-- **Room data that a presence brings is sent**, to its sender at least. -/
theorem noForgedData_of_sent (ha : Accepted ingress) (hname : ingress.name = .presence)
    (hc : PayloadCase room ingress acl room' sent)
    (h : ∀ packet ∈ sent, packet.name = .presence → Unforged packet.header packet.userData) :
    NoForgedData room ingress acl := by
  unfold NoForgedData
  cases hc with
  | ignored huse =>
    rw [huse]
    exact trivial
  | returned room' error packet huse hocc hb =>
    obtain ⟨hpresence, hheader, hdata⟩ := workerBounce_leftOver ha hname hb
    have hclean := h packet (List.mem_singleton_self _) hpresence
    rw [hheader, hdata] at hclean
    rw [huse]
    exact hclean
  | announced room₁ room' sent₁ sent addr p ingress₁ inner justJoined hgo hinner hc =>
    -- what may be shown is shown to the sender at least
    by_cases hmay : mayShow room₁ p = true
    · have hannounced := hgo.payload hmay
      obtain ⟨packet, hm, hpresence, hheader, hdata⟩ := hc.shown hgo.mem hmay
      have hclean := h packet (List.mem_append_right _ hm) hpresence
      rw [hheader, hdata] at hclean
      rw [hinner] at hannounced
      cases huse : payloadUse room ingress acl with
      | unused => exact trivial
      | returned => exact absurd huse hgo.relayed
      | relayed =>
        rw [huse] at hannounced
        rw [cleaned_leftOver ha hname _ hannounced] at hclean
        exact hclean
      | renamed =>
        rw [huse] at hannounced
        intro inner' hi
        obtain rfl : inner = inner' := Option.some.inj (hannounced.symm.trans hi)
        exact hclean
    · rw [hgo.unused (by simpa using hmay)]
      exact trivial

/-! ## Runs -/

/-- A stanza that is no presence with room data. -/
def BringsNoData (room : Room) (stanza : Stanza) : Prop :=
  stanza.ingress.name = .presence → NoForgedData room stanza.ingress stanza.acl

instance (room : Room) (stanza : Stanza) : Decidable (BringsNoData room stanza) :=
  inferInstanceAs (Decidable (_ → _))

/-- Who is kicked for an error is announced with a fixed text. -/
theorem kickPresence_unforged : Unforged none (some kickPresence) := by decide +kernel

/-- Nothing of a presence of type error is passed on. -/
theorem routeError_sent (hr : routeError room ingress = (room', sent)) :
    Shows (Unforged none) sent := by
  unfold routeError at hr
  split at hr
  · cases hr
    exact .nil
  · next addr sender hs =>
    cases hr
    exact .broadcast kickPresence_unforged

theorem presence_step_iff {stanza : Stanza} (h : AllPresences (Unforged none) room)
    (ha : Accepted stanza.ingress) (hname : stanza.ingress.name = .presence)
    (hr : roomStep room stanza = some (room', sent)) :
    (∀ packet ∈ sent, packet.name = .presence → Unforged packet.header packet.userData) ↔
      NoForgedData room stanza.ingress stanza.acl := by
  unfold roomStep roomRoute at hr
  split at hr
  · next herror =>
    have hunused : payloadUse room stanza.ingress stanza.acl = .unused := if_pos herror
    have hshows := routeError_sent (Option.some.inj hr)
    unfold NoForgedData
    rw [hunused]
    refine ⟨fun _ => trivial, fun _ packet hm hp => ?_⟩
    obtain ⟨hheader, hdata⟩ := hshows packet hm hp
    rw [hheader]
    exact hdata
  · next herror =>
    rw [hname] at hr
    have hc := routePresence_case (by simpa using herror) hr
    exact ⟨noForgedData_of_sent ha hname hc, fun hcond => hcond.unforged ha hname h hc⟩

end

/-- A presence of `alice@h` for a nick. -/
def alicePresence (nick payload : String) : String :=
  "<presence from='alice@h/pc' to='room@conf/" ++ nick ++ "'>" ++ payload ++ "</presence>"

/-- The first one joins, the second one takes another nick and claims to come from the room. -/
def forgingRun : List Stanza :=
  stanzasOfTexts openAcl 0 0
    [alicePresence "al" "<x xmlns='http://jabber.org/protocol/muc'/>",
      alicePresence "alice"
        "<x xmlns='http://jabber.org/protocol/muc#user'><status code='110'/></x>"]

/-- What the parser does not find: a node behind a stray quote, one with a label before its name,
one whose namespace is written with a reference. -/
def hiddenJoins : List Stanza :=
  stanzasOfTexts openAcl 0 0
    [alicePresence "al" "it's<x xmlns='http://jabber.org/protocol/muc#user'/>'",
      alicePresence "al" "<a:x xmlns:a='http://jabber.org/protocol/muc#user'/>",
      alicePresence "al" "<x xmlns='http://jabber.org/protocol/muc&#35;user'/>"]

set_option maxRecDepth 100000 in
example : hiddenJoins.length = 3 ∧ hiddenJoins.all (fun stanza =>
    (roomStep (roomInit (lit "room")) stanza).any (fun r =>
      r.1.occupants.any (fun n => !decide (Unforged none n.2.presence)))) = true := by
  decide +kernel

/-- The same nick change without such a node, and a join of somebody else. -/
def honestRun : List Stanza :=
  stanzasOfTexts openAcl 0 0
    [alicePresence "al" "<show>away</show><x xmlns='http://jabber.org/protocol/muc'/>",
      "<presence from='bob@g/pc' to='room@conf/bob'/>",
      alicePresence "alice" "<show>chat</show>"]

end Mukite
