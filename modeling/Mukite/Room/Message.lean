import Mukite.Room.Broadcast

/-!
# Messages

`route_message` of `src/room/room.c`. A message without a resource in its address goes to
everybody, one with a resource to that occupant.

The packet is set up before `packet_cleanup` and points into the stanza, so what is sent is the
cleaned header.
-/

namespace Mukite

/-- `get_subject_node`. -/
def getSubjectNode (ingress : IncomingPacket) : Option (Option Span) :=
  xmlfsmSkiptoNode ingress.mem (spanOf ingress.inner) "subject"

/-- The packet of `route_message` for one receiver; `ingress` has been cleaned up. -/
def messagePacket (room : Room) (ingress : IncomingPacket) (inner : Buffer)
    (sender receiver : Participant) : BuilderPacket where
  name := .message
  type := ingress.type
  header := some ingress.headerBytes
  fromNode := room.node
  fromNick := sender.nick
  userData := inner
  toJid := receiver.jid

/-- The part of `route_message` that stores a message and sends it to every occupant. -/
def publish (room : Room) (ingress : IncomingPacket) (sender : Participant) :
    Option (Room × List BuilderPacket) := do
  let ingress := packetCleanup ingress (packetCleanupFrom ||| packetCleanupTo)
  let inner ← ingress.innerBytes
  let history ← historyStore room.history inner
  let room := { room with history := history }
  return (room, room.occupants.map (fun receiver =>
    messagePacket room ingress inner sender receiver.2))

/-- The public branch of `route_message`. -/
def routePublicMessage (room : Room) (ingress : IncomingPacket) (addr : Nat)
    (sender : Participant) (decisecondsLimit ticks : Int) : Option (Room × List BuilderPacket) :=
  if room.hasFlag mucFlagModeratedroom && sender.role < roleParticipant then
    bounce room ingress errorNoVisitorsPublic
  else if ticks - sender.lastMessageTime < decisecondsLimit then
    bounce room ingress errorTrafficRate
  else do
    let room := room.modify addr (fun p => { p with lastMessageTime := ticks })
    match ← getSubjectNode ingress with
    | none => publish room ingress sender
    | some newSubject =>
      if sender.role < roleModerator && !room.hasFlag mucFlagChangesubject then
        bounce room ingress errorPrivilegeLevel
      else if (userStringOptionLimit : Int) < newSubject.size then bounce room ingress errorIqBad
      else
        let node ← newSubject.copy ingress.mem
        publish { room with subject := { node := some node, nick := some (bptBytes sender.nick) } }
          ingress sender

/-- The private branch of `route_message`. -/
def routePrivateMessage (room : Room) (ingress : IncomingPacket) (sender : Participant) :
    Option (Room × List BuilderPacket) :=
  match participantsFindByNick room.participants ingress.proxyTo.resource with
  | none => bounce room ingress errorRecipientNotInRoom
  | some (_, receiver) =>
    if sender.role = roleVisitor && !room.hasFlag mucFlagVisitorspm then
      bounce room ingress errorNoVisitorsPm
    else if !room.hasFlag mucFlagAllowpm then bounce room ingress errorNoPm
    else do
      let ingress := packetCleanup ingress (packetCleanupFrom ||| packetCleanupTo)
      let inner ← ingress.innerBytes
      return (room, [messagePacket room ingress inner sender receiver])

/-- `route_message`. `ticks` is what `timer_ticks` reads. -/
def routeMessage (room : Room) (ingress : IncomingPacket) (decisecondsLimit ticks : Int) :
    Option (Room × List BuilderPacket) :=
  match participantsFindByJid room.participants ingress.realFrom with
  | none => bounce room ingress errorExternalMessage
  | some (addr, sender) =>
    if ingress.proxyTo.resource.isNone then
      routePublicMessage room ingress addr sender decisecondsLimit ticks
    else routePrivateMessage room ingress sender

end Mukite
