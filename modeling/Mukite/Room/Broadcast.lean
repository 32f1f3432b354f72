import Mukite.Builder

/-!
# Broadcasts

The functions of `src/room/room.c` that send to one or all occupants of a room: presences, the
roster for a newcomer, the subject, bounces.
-/

namespace Mukite

/-- `room_config_status_codes`. -/
def roomConfigStatusCodes (room : Room) : Nat :=
  (if room.hasFlag mucFlagSemianonymous then 0 else statusNonAnonymous) |||
    (if room.hasFlag mucFlagEnablelogging then statusLoggingEnabled else 0) |||
    (if room.hasFlag mucFlagJustCreated then statusRoomCreated else 0)

/-- The JID of `sender` as `receiver` may see it. -/
def visibleJid (room : Room) (sender receiver : Participant) : Jid :=
  if receiver.role = roleModerator || !room.hasFlag mucFlagSemianonymous then sender.jid
  else jidInit

/-- The packet that `room_broadcast_presence` sends to one receiver. -/
def presencePacket (room : Room) (sender : Nat × Participant) (newNick : Buffer)
    (statusCodes : Nat) (receiver : Nat × Participant) : BuilderPacket where
  name := .presence
  type :=
    if sender.2.role = roleNone ∨ statusCodes &&& statusNicknameChanged ≠ 0 then
      stanzaPresenceUnavailable
    else 0
  userData := sender.2.presence
  fromNick := sender.2.nick
  fromNode := room.node
  toJid := receiver.2.jid
  sysData :=
    .presence
      { affiliation := sender.2.affiliation
        role := sender.2.role
        jid := visibleJid room sender.2 receiver.2
        nick := newNick
        reasonNode := sender.2.affectedList.reasonNode }
      -- Set 'self-presence' code (and include room codes).
      (if receiver.1 = sender.1 then
        roomConfigStatusCodes room ||| statusSelfPresence ||| statusCodes
      else statusCodes)
      none

/-- `room_broadcast_presence`. -/
def roomBroadcastPresence (room : Room) (sender : Nat × Participant) (newNick : Buffer)
    (statusCodes : Nat) : List BuilderPacket :=
  room.occupants.map (presencePacket room sender newNick statusCodes)

/-- The broadcast for the participant at an address, as it stands in the room. -/
def broadcastAt (room : Room) (addr : Nat) (newNick : Buffer) (statusCodes : Nat) :
    List BuilderPacket :=
  match room.participants.nodes.get? addr with
  | none => []
  | some sender => roomBroadcastPresence room (addr, sender) newNick statusCodes

/-- The packet that `room_presences_send` sends about one occupant. -/
def rosterPacket (room : Room) (receiver : Participant) (sender : Participant) :
    BuilderPacket where
  name := .presence
  fromNode := room.node
  fromNick := sender.nick
  userData := sender.presence
  toJid := receiver.jid
  sysData :=
    .presence
      { affiliation := sender.affiliation
        role := sender.role
        jid := visibleJid room sender receiver
        nick := none
        reasonNode := none }
      0 none

/-- `room_presences_send`. -/
def roomPresencesSend (room : Room) (receiver : Nat × Participant) : List BuilderPacket :=
  (room.occupants.filter (fun sender => sender.1 != receiver.1)).map
    (fun sender => rosterPacket room receiver.2 sender.2)

/-- `room_subject_send`. -/
def roomSubjectSend (room : Room) (receiver : Participant) : List BuilderPacket :=
  if room.subject.node.isNone then []
  else
    [{ name := .message
       type := stanzaMessageGroupchat
       toJid := receiver.jid
       fromNick := room.subject.nick
       fromNode := room.node
       userData := room.subject.node }]

/-- `worker_bounce(...); return;`: the room as it stands and the error packet. -/
def bounce (room : Room) (ingress : IncomingPacket) (error : XMPPError) :
    Option (Room × List BuilderPacket) :=
  (workerBounce ingress error room.node).map (fun packet => (room, [packet]))

theorem bounce_room {room room' : Room} {ingress : IncomingPacket} {error : XMPPError}
    {sent : List BuilderPacket} (h : bounce room ingress error = some (room', sent)) :
    room' = room := by
  obtain ⟨packet, -, he⟩ := Option.map_eq_some_iff.mp h
  exact (congrArg Prod.fst he).symm

/-! ## `error_definitions` -/

def errorExternalMessage : XMPPError where
  code := "406"
  name := "not-acceptable"
  type := "modify"
  text := "Only participants are allowed to send messages to this conference"

def errorRecipientNotInRoom : XMPPError where
  code := "404"
  name := "item-not-found"
  type := "cancel"
  text := "Recipient is not in the conference room"

def errorNoVisitorsPm : XMPPError where
  code := "403"
  name := "forbidden"
  type := "cancel"
  text := "Visitors are not allowed to send private messages in this room"

def errorNoVisitorsPublic : XMPPError where
  code := "403"
  name := "forbidden"
  type := "cancel"
  text := "Visitors are not allowed to send messages to the public chat in a moderated room"

def errorOccupantConflict : XMPPError where
  code := ""
  name := "conflict"
  type := "modify"
  text := "This nickname is already in use by another occupant"

def errorOccupantsLimit : XMPPError where
  code := ""
  name := "not-allowed"
  type := "wait"
  text := "Maximum number of occupants has been reached for this room"

def errorBanned : XMPPError where
  code := "403"
  name := "forbidden"
  type := "cancel"
  text := "You are banned from this room"

def errorMembersOnly : XMPPError where
  code := "403"
  name := "forbidden"
  type := "cancel"
  text := "Only members are allowed to enter this room"

def errorExternalIq : XMPPError where
  code := "406"
  name := "not-acceptable"
  type := "modify"
  text := "Only occupants are allowed to send queries to the conference"

def errorIqProhibited : XMPPError where
  code := "405"
  name := "not-allowed"
  type := "cancel"
  text := "Queries to the conference occupants are not allowed in this room"

def errorIqBad : XMPPError where
  code := "400"
  name := "bad-request"
  type := "modify"
  text := ""

def errorPrivilegeLevel : XMPPError where
  code := "403"
  name := "forbidden"
  type := "cancel"
  text := "This kind of action requires higher privileges than you have"

def errorTrafficRate : XMPPError where
  code := "500"
  name := "resource-constraint"
  type := "wait"
  text := "Traffic rate limit exceeded"

def errorPassword : XMPPError where
  code := "403"
  name := "not-authorized"
  type := "modify"
  text := "This room is password protected and the password was not supplied or is incorrect"

def errorNoPm : XMPPError where
  code := "403"
  name := "forbidden"
  type := "cancel"
  text := "Private messages are not allowed in this room"

def errorNotImplemented : XMPPError where
  code := "501"
  name := "feature-not-implemented"
  type := "cancel"
  text := "This service does not provide the requested feature"

def errorJidMalformed : XMPPError where
  code := "400"
  name := "jid-malformed"
  type := "modify"
  text := "You should specify a room nickname"

end Mukite
