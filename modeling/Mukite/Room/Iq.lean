import Mukite.Room.Admin
import Mukite.Room.Config

/-!
# Queries

`route_iq` of `src/room/room.c`. A query to an occupant is passed on (`proxyIq`). A query to the
room is answered or refused (`answerIq`), and what it did to the occupants is announced after
the answer (`announceAffected`).
-/

namespace Mukite

/-! ## Queries to an occupant -/

/-- Whether a query asks for a vCard, which goes to the bare JID. -/
def asksForVcard (ingress : IncomingPacket) : Option Bool := do
  if ingress.type ≠ stanzaIqGet then return false
  match ← xmlfsmNextSibling ingress.mem (spanOf ingress.inner) with
  | none => return false
  | some nodes => return nodes.nodeName.eqLit ingress.mem "vCard"

/-- The branch of `route_iq` for a query to an occupant. -/
def proxyIq (room : Room) (ingress : IncomingPacket) : Option (Room × List BuilderPacket) :=
  match participantsFindByJid room.participants ingress.realFrom with
  | none => bounce room ingress errorExternalIq
  | some (_, sender) =>
    if !room.hasFlag mucFlagIqProxy then bounce room ingress errorIqProhibited
    else
      match participantsFindByNick room.participants ingress.proxyTo.resource with
      | none => bounce room ingress errorRecipientNotInRoom
      | some (_, receiver) => do
        let ingress := packetCleanup ingress (packetCleanupFrom ||| packetCleanupTo)
        let inner ← ingress.innerBytes
        let vcard ← asksForVcard ingress
        let toJid := if vcard then { receiver.jid with resource := none } else receiver.jid
        return (room, [{ fromNick := sender.nick, userData := inner, toJid := toJid }])

/-! ## Queries to the room -/

/-- The `<query/>` node: its namespace, and the extent that is left behind its tag. -/
structure QueryNode where
  xmlns : Span
  node : Span
  empty : Bool

/-- One child of the stanza in the search for a `<query/>` with a namespace. -/
def queryNode (mem : Bytes) (nodes : XmlNodeTraverser) : Option (Unit ⊕ QueryNode) := do
  if !nodes.nodeName.eqLit mem "query" then return .inl ()
  let (xmlns, data) ← xmlfsmSkiptoAttr mem nodes.node.data "xmlns"
  match xmlns with
  | none => return .inl ()
  | some xmlns =>
    let (content, data) ← xmlfsmSkipAttrs mem data
    return .inr { xmlns := xmlns.value, node := { data := data, stop := nodes.node.stop },
                  empty := !content }

/-- The search for the `<query/>` node. -/
def findQuery (ingress : IncomingPacket) : Option (Option QueryNode) := do
  match ← siblingLoop ingress.mem (fun (_ : Unit) nodes => queryNode ingress.mem nodes)
      (spanOf ingress.inner) () with
  | .inl _ => return none
  | .inr query => return some query

/-- What `route_iq` decides about a query: `egress` and the affected list, or a bounce. -/
inductive IqAnswer
  | refused (room : Room) (error : XMPPError)
  | answered (st : AdminState) (iqType : Nat) (sysData : SysData)

/-- The room as `route_iq` leaves it before the affected list. -/
def IqAnswer.room : IqAnswer → Room
  | .refused room _ => room
  | .answered st _ _ => st.room

/-- A query that has no effect on the occupants. -/
def IqAnswer.reply (room : Room) (iqType : Nat) (sysData : SysData) : IqAnswer :=
  .answered { room := room, affected := [] } iqType sysData

/-- A query that `route_iq` has no branch for: `egress.iq_type` stays 0. -/
def IqAnswer.unknown (room : Room) : IqAnswer := .reply room 0 .zero

/-- A get query for the entries of one affiliation. -/
def getAffiliations (room : Room) (mem : Bytes) (query : QueryNode)
    (sender : Option (Nat × Participant)) : Option IqAnswer :=
  if query.empty then some (.refused room errorIqBad)
  else
    match sender with
    | none => some (.refused room errorExternalIq)
    | some (_, sender) =>
      if sender.affiliation < affilAdmin then some (.refused room errorPrivilegeLevel)
      else do
        match ← nextMucAdminItem mem query.node with
        | .item { affiliation := some affiliation, .. } _ =>
          if affiliation = listNone then return .refused room errorIqBad
          return .reply room buildIqRoomAffiliations
            (.mucItems affiliation.toInt (room.affiliations affiliation).items)
        | _ => return .refused room errorIqBad

/-- A get query for the configuration form. -/
def getConfig (room : Room) (sender : Option (Nat × Participant)) : IqAnswer :=
  match sender with
  | none => .refused room errorExternalIq
  | some (_, sender) =>
    if sender.affiliation < affilOwner then .refused room errorPrivilegeLevel
    else .reply room buildIqRoomConfig (.room room)

/-- The branches for `STANZA_IQ_GET`. -/
def getIq (room : Room) (mem : Bytes) (query : QueryNode)
    (sender : Option (Nat × Participant)) : Option IqAnswer :=
  if query.xmlns.eqLit mem "http://jabber.org/protocol/disco#info" then
    some (.reply room buildIqRoomDiscoInfo (.room room))
  else if query.xmlns.eqLit mem "http://jabber.org/protocol/disco#items" then
    if room.hasFlag mucFlagPublicparticipants then
      some (.reply room buildIqRoomDiscoItems (.room room))
    else some (.refused room errorNotImplemented)
  else if query.xmlns.eqLit mem xmlnsMucAdmin then getAffiliations room mem query sender
  else if query.xmlns.eqLit mem xmlnsMucOwner then some (getConfig room sender)
  else some (.unknown room)

/-- A set query with muc#admin items. -/
def setAffiliations (room : Room) (mem : Bytes) (query : QueryNode) (acl : ACLConfig)
    (sender : Option (Nat × Participant)) : Option IqAnswer :=
  if query.empty then some (.refused room errorIqBad)
  else
    match sender with
    | none => some (.refused room errorExternalIq)
    | some (addr, sender) =>
      if sender.role < roleModerator then some (.refused room errorPrivilegeLevel)
      else
        match adminLoop acl addr { room := room, affected := [] }
            (itemReads mem (rounds mem) query.node) with
        | none => none
        | some (.refused st error) => some (.refused st.room error)
        | some (.done st) => some (.answered st buildIqRoomAffiliations (.mucItems 0 []))

/-- `<destroy/>`: every occupant is affected. `resume` is the node itself. -/
def destroyRoom (room : Room) (resume : Bytes) : IqAnswer :=
  let item : MucAdminItem :=
    { affiliation := 0, role := 0, jid := jidInit, nick := none, reasonNode := none }
  .answered
    (affectEach { room := room.setFlag mucFlagDestroyed true, affected := [] } none
      (fun p => some { p with role := roleNone, affiliation := affilNone }))
    buildIqEmpty
    (if room.occupants.isEmpty then .zero else .presence item 0 (some resume))

/-- The reason that is given to those who are no members. -/
def membersOnlyReason : Bytes := lit "<reason>Room policy switched to members-only</reason>"

/-- Who has to go from a members-only room. -/
def excludeNonMember (p : Participant) : Option Participant :=
  if p.affiliation < affilMember then some { p with role := roleNone } else none

/-- The options of an `<x/>`. -/
def submitForm (room : Room) (mem : Bytes) (node : Span) (acl : Int) : Option Room := do
  let (content, data) ← xmlfsmSkipAttrs mem node.data
  if content then roomConfigParse room mem { data := data, stop := node.stop } acl
  else return room

/-- In a members-only room those who are no members are put on the affected list. -/
def excludeNonMembers (room : Room) : AdminState :=
  if room.hasFlag mucFlagMembersonly then
    affectEach { room := room, affected := [] } (some membersOnlyReason) excludeNonMember
  else { room := room, affected := [] }

/-- `<x/>`: the options, then the exclusion of those who are no members. -/
def configureRoom (room : Room) (mem : Bytes) (node : Span) (acl : Int) : Option IqAnswer :=
  (submitForm room mem node acl).map
    (fun room => .answered (excludeNonMembers room) buildIqEmpty .zero)

/-- One child of a muc#owner query; the first one that is known ends the search. -/
def ownerNode (room : Room) (mem : Bytes) (acl : Int) (nodes : XmlNodeTraverser) :
    Option (Unit ⊕ IqAnswer) :=
  if nodes.nodeName.eqLit mem "destroy" then
    some (.inr (destroyRoom room
      (Span.bytes mem { data := nodes.nodeStart, stop := nodes.node.stop })))
  else if nodes.nodeName.eqLit mem "x" then (configureRoom room mem nodes.node acl).map .inr
  else some (.inl ())

/-- A set query of the owner. -/
def setConfig (room : Room) (mem : Bytes) (query : QueryNode) (acl : ACLConfig)
    (sender : Option (Nat × Participant)) : Option IqAnswer :=
  if query.empty then some (.refused room errorIqBad)
  else
    match sender with
    | none => some (.refused room errorExternalIq)
    | some (_, sender) =>
      if sender.affiliation < affilOwner then some (.refused room errorPrivilegeLevel)
      else do
        match ← siblingLoop mem
            (fun (_ : Unit) nodes => ownerNode room mem (aclRole acl sender.jid) nodes)
            query.node () with
        | .inl _ => return .unknown room
        | .inr answer => return answer

/-- The branches for `STANZA_IQ_SET`. -/
def setIq (room : Room) (mem : Bytes) (query : QueryNode) (acl : ACLConfig)
    (sender : Option (Nat × Participant)) : Option IqAnswer :=
  if query.xmlns.eqLit mem xmlnsMucAdmin then setAffiliations room mem query acl sender
  else if query.xmlns.eqLit mem xmlnsMucOwner then setConfig room mem query acl sender
  else some (.unknown room)

/-- What `route_iq` decides about a query to the room. -/
def answerIq (room : Room) (ingress : IncomingPacket) (acl : ACLConfig) : Option IqAnswer := do
  let sender := participantsFindByJid room.participants ingress.realFrom
  match ← findQuery ingress with
  | none => return .refused room errorIqBad
  | some query =>
    if ingress.type = stanzaIqGet then getIq room ingress.mem query sender
    else if ingress.type = stanzaIqSet then setIq room ingress.mem query acl sender
    else return .unknown room

/-! ## The affected list, after the answer -/

/-- The role and the status codes with which an affected participant is announced. -/
def affectedOutcome (room : Room) (p : Participant) : Int × Nat :=
  if room.hasFlag mucFlagDestroyed then (roleNone, 0)
  else if p.affiliation = affilOutcast then (roleNone, statusBanned)
  else if room.hasFlag mucFlagMembersonly && p.affiliation < affilMember then
    (roleNone, statusNonmemberRemoved)
  else if p.role = roleNone then (roleNone, statusKicked)
  else (p.role, 0)

/-- An affected participant as it is announced. -/
def announced (room : Room) (p : Participant) : Participant :=
  let role := (affectedOutcome room p).1
  { p with
    affectedList := { p.affectedList with included := false }
    role := role
    presence := if role = roleNone then none else p.presence }

/-- `BPT_INIT` of the reason. -/
def clearReason (p : Participant) : Participant :=
  { p with affectedList := { p.affectedList with reasonNode := none } }

/-- One turn of the loop over the affected list: announce, then remove who has no role. -/
def announceOne (room : Room) (addr : Nat) (p : Participant) : Room × List BuilderPacket :=
  let room₁ := room.modify addr (announced room)
  let sent := roomBroadcastPresence room₁ (addr, announced room p) none (affectedOutcome room p).2
  let room₂ := room₁.modify addr clearReason
  (if (announced room p).role = roleNone then roomLeave room₂ addr else room₂, sent)

/-- The loop over the affected list. -/
def announceAffected (room : Room) : List Nat → Room × List BuilderPacket
  | [] => (room, [])
  | addr :: rest =>
    match room.participants.nodes.get? addr with
    | none => announceAffected room rest
    | some p =>
      let (room, sent) := announceOne room addr p
      let (room, more) := announceAffected room rest
      (room, sent ++ more)

/-- `route_iq`. -/
def routeIq (room : Room) (ingress : IncomingPacket) (acl : ACLConfig) :
    Option (Room × List BuilderPacket) :=
  if ingress.proxyTo.resource.isSome then proxyIq room ingress
  else do
    match ← answerIq room ingress acl with
    | .refused room error => bounce room ingress error
    | .answered st iqType sysData =>
      if iqType = 0 then bounce st.room ingress errorNotImplemented
      else
        let egress : BuilderPacket :=
          { type := stanzaIqResult, iqType := iqType, sysData := sysData }
        let (room, sent) := announceAffected st.room st.affected
        return (room, egress :: sent)

end Mukite
