import Mukite.Room.Broadcast

/-!
# Presences

`route_presence` of `src/room/room.c`: joins, presence updates, nick changes and leaves. The first
half decides whether the presence is let in and finds or creates its participant
(`presenceSender`), the second half announces it (`presenceAnnounce`).
-/

namespace Mukite

/-! ## The `<x/>` node of a join -/

/-- `MucNode`. The password points into the stanza. -/
structure MucNode where
  maxStanzas : Int := -1
  maxChars : Int := -1
  seconds : Int := -1
  password : Option Span := none
deriving DecidableEq, Repr

/-- The length of the end tag that is cut off a text node. -/
def endTagSize (name : String) : Nat := name.toList.length + 3

/-- One attribute of `<history/>`. -/
def historyAttr (mem : Bytes) (mucNode : MucNode) (attr : XmlAttr) : MucNode :=
  if attr.name.eqLit mem "maxstanzas" then { mucNode with maxStanzas := btoi mem attr.value }
  else if attr.name.eqLit mem "maxchars" then { mucNode with maxChars := btoi mem attr.value }
  else if attr.name.eqLit mem "seconds" then { mucNode with seconds := btoi mem attr.value }
  else mucNode

/-- One child of the `<x/>` node. -/
def mucChild (mem : Bytes) (mucNode : MucNode) (nodes : XmlNodeTraverser) : Option MucNode := do
  if nodes.nodeName.eqLit mem "password" then
    let (content, data) ← xmlfsmSkipAttrs mem nodes.node.data
    if content then
      return { mucNode with
        password := some { data := data, stop := nodes.node.stop - endTagSize "password" } }
    return mucNode
  else if nodes.nodeName.eqLit mem "history" then
    match ← attrLoop (ρ := Empty) mem (fun m attr => some (.inl (historyAttr mem m attr)))
        nodes.node.data mucNode with
    | .inl (_, _, mucNode) => return mucNode
    | .inr (r, _) => nomatch r
  else return mucNode

/-- `parse_muc_node`. -/
def parseMucNode (mem : Bytes) (buffer : Option Span) : Option MucNode := do
  match buffer with
  | none => return {}
  | some buffer =>
    if buffer.stop = buffer.data then return {}
    let (_, data) ← xmlfsmNodeName mem buffer
    let (content, data) ← xmlfsmSkipAttrs mem data
    if !content then return {}
    match ← siblingLoop (ρ := Empty) mem (fun m nodes => (mucChild mem m nodes).map .inl)
        { buffer with data := data } {} with
    | .inl mucNode => return mucNode
    | .inr r => nomatch r

/-! ## Who may enter -/

/--
The affiliation with which a newcomer enters, or the error that keeps it out. An ACL admin
passes every check.
-/
def admission (room : Room) (ingress : IncomingPacket) (mucNode : MucNode) (acl : ACLConfig) :
    Except XMPPError Int :=
  if aclRole acl ingress.realFrom ≥ aclMucAdmin then .ok affilOwner
  else if room.participants.size ≥ room.participants.maxSize then .error errorOccupantsLimit
  else
    let affiliation := affiliationssGetByJid room.affiliations acl ingress.realFrom
    if affiliation = affilOutcast then .error errorBanned
    else if affiliation < affilOwner && room.hasFlag mucFlagPasswordprotectedroom &&
        room.password.isSome &&
        !(mucNode.password.any (fun p => p.eqBin ingress.mem (bptBytes room.password))) then
      .error errorPassword
    else if room.hasFlag mucFlagMembersonly && affiliation < affilMember then
      .error errorMembersOnly
    else .ok affiliation

/-- The lists after a creator's entry: the first to enter a new room becomes its owner. -/
def creatorAffiliations (room : Room) (jid : Jid) : Affiliations :=
  if room.hasFlag mucFlagJustCreated then
    (affiliationssAdd room.affiliations none listOwner jid none).getD room.affiliations
  else room.affiliations

/-! ## The two halves -/

/-- What the first half of `route_presence` leads to. -/
inductive PresenceSender
  /-- `return`, perhaps after a bounce -/
  | done (room : Room) (sent : List BuilderPacket)
  /-- the second half, with the stanza as it stands in memory by then -/
  | go (room : Room) (sent : List BuilderPacket) (addr : Nat) (ingress : IncomingPacket)
      (justJoined : Bool)

def PresenceSender.bounce (room : Room) (ingress : IncomingPacket) (error : XMPPError) :
    Option PresenceSender :=
  (Mukite.bounce room ingress error).map (fun r => .done r.1 r.2)

/-- A presence of somebody in the room. -/
def occupantPresence (room : Room) (ingress : IncomingPacket) (addr : Nat)
    (sender : Participant) : Option PresenceSender :=
  let cleaned := packetCleanup ingress (packetCleanupFrom ||| packetCleanupTo)
  if ingress.type ≠ stanzaPresenceUnavailable ∧ ingress.proxyTo.resource.isSome then
    match participantsFindByNick room.participants ingress.proxyTo.resource with
    | some (addr', _) =>
      if addr = addr' then some (.go room [] addr cleaned false)
      else PresenceSender.bounce room ingress errorOccupantConflict
    | none =>
      if sender.role ≤ roleVisitor && !room.hasFlag mucFlagVisitorpresence then
        -- Ignore nick changes from visitors
        some (.done room [])
      else
        -- there is no clean-up on this path
        let newNick := some (bptBytes ingress.proxyTo.resource)
        some (.go (room.modify addr (fun p => { p with nick := newNick }))
          (broadcastAt room addr newNick statusNicknameChanged) addr ingress false)
  else some (.go room [] addr cleaned false)

/-- A presence of somebody who is not in the room. -/
def newcomerPresence (room : Room) (ingress : IncomingPacket) (mucNode : MucNode)
    (acl : ACLConfig) : Option PresenceSender :=
  if ingress.type = stanzaPresenceUnavailable then some (.done room [])
  else if ingress.proxyTo.resource.isNone then
    PresenceSender.bounce room ingress errorJidMalformed
  else if (participantsFindByNick room.participants ingress.proxyTo.resource).isSome then
    PresenceSender.bounce room ingress errorOccupantConflict
  else
    let room := { room with affiliations := creatorAffiliations room ingress.realFrom }
    match admission room ingress mucNode acl with
    | .error error => PresenceSender.bounce room ingress error
    | .ok affiliation =>
      let (joined, addr) := roomJoin room ingress.realFrom ingress.proxyTo.resource affiliation
      some (.go joined
        (roomPresencesSend joined
          (addr, joiner room ingress.realFrom ingress.proxyTo.resource affiliation))
        addr (packetCleanup ingress (packetCleanupFrom ||| packetCleanupTo)) true)

/-- The first half of `route_presence`. -/
def presenceSender (room : Room) (ingress : IncomingPacket) (acl : ACLConfig) :
    Option PresenceSender := do
  let mucNode ← parseMucNode ingress.mem ingress.muc
  match participantsFindByJid room.participants ingress.realFrom with
  | some (addr, sender) => occupantPresence room ingress addr sender
  | none => newcomerPresence room ingress mucNode acl

/-- The presence that is kept for newcomers after a broadcast of `presence`. -/
def cachedPresence (presence : Buffer) : Buffer :=
  if bptSize presence ≤ reasonableRawLimit then
    if bptBlank presence then none else presence
  else none

/-- The second half of `route_presence`. -/
def presenceAnnounce (room : Room) (addr : Nat) (ingress : IncomingPacket) (justJoined : Bool) :
    Option (Room × List BuilderPacket) := do
  let inner ← ingress.innerBytes
  let unavailable := ingress.type = stanzaPresenceUnavailable
  let room := room.modify addr (fun p =>
    let p := if p.role > roleVisitor || room.hasFlag mucFlagVisitorpresence then
        { p with presence := inner }
      else p
    if unavailable then { p with role := roleNone } else p)
  let sent := broadcastAt room addr none 0
  let (room, sent) :=
    if unavailable then (roomLeave room addr, sent)
    else
      let subject := match room.participants.nodes.get? addr with
        | some receiver => if justJoined then roomSubjectSend room receiver else []
        | none => []
      (room.modify addr (fun p => { p with presence := cachedPresence p.presence }),
        sent ++ subject)
  return (room.setFlag mucFlagJustCreated false, sent)

/-- `route_presence`. -/
def routePresence (room : Room) (ingress : IncomingPacket) (acl : ACLConfig) :
    Option (Room × List BuilderPacket) := do
  match ← presenceSender room ingress acl with
  | .done room sent => return (room, sent)
  | .go room sent addr ingress justJoined =>
    let (room, announced) ← presenceAnnounce room addr ingress justJoined
    return (room, sent ++ announced)

end Mukite
