import Mukite.Room.Message
import Mukite.Room.Iq
import Mukite.Lib.Machine

/-!
# Stanzas through a room

`room_route` of `src/room/room.c`, and a room as a machine that handles one stanza at a time.
-/

namespace Mukite

/-- The presence with which a sender of an error is announced for the last time. -/
def kickPresence : Bytes :=
  lit "<status>This occupant is kicked from the room because he sent an error stanza</status>"

/-- The sender of an error as it is announced. -/
def errorKicked (p : Participant) : Participant :=
  { p with presence := some kickPresence, role := roleNone }

/-- The branch of `room_route` for messages and presences of type error. -/
def routeError (room : Room) (ingress : IncomingPacket) : Room × List BuilderPacket :=
  match participantsFindByJid room.participants ingress.realFrom with
  | none => (room, [])
  | some (addr, sender) =>
    let room := room.modify addr errorKicked
    let sent := roomBroadcastPresence room (addr, errorKicked sender) none 0
    (roomLeave room addr, sent)

/-- Whether `room_route` takes the branch for errors. -/
def isErrorStanza (ingress : IncomingPacket) : Bool :=
  ingress.type == stanzaError && ingress.name != .iq

/-- `room_route`. -/
def roomRoute (room : Room) (ingress : IncomingPacket) (acl : ACLConfig)
    (decisecondsLimit ticks : Int) : Option (Room × List BuilderPacket) :=
  if isErrorStanza ingress then some (routeError room ingress)
  else
    match ingress.name with
    | .message => routeMessage room ingress decisecondsLimit ticks
    | .presence => routePresence room ingress acl
    | .iq => routeIq room ingress acl
    | .unset => some (room, [])

/-- A stanza on its way into a room, with what `room_route` finds around it. -/
structure Stanza where
  ingress : IncomingPacket
  acl : ACLConfig
  decisecondsLimit : Int
  ticks : Int

/-- The stanza with the given text, if the parser accepts it. -/
def stanzaOfText (acl : ACLConfig) (decisecondsLimit ticks : Int) (text : String) :
    Option Stanza :=
  (received text).map (fun ingress =>
    { ingress := ingress, acl := acl, decisecondsLimit := decisecondsLimit, ticks := ticks })

/-- The stanzas with the given texts, those that the parser accepts. -/
def stanzasOfTexts (acl : ACLConfig) (decisecondsLimit ticks : Int) (texts : List String) :
    List Stanza :=
  texts.filterMap (stanzaOfText acl decisecondsLimit ticks)

theorem accepted_of_text {acl : ACLConfig} {limit ticks : Int} {text : String} {stanza : Stanza}
    (h : stanzaOfText acl limit ticks text = some stanza) : Accepted stanza.ingress := by
  obtain ⟨ingress, hi, rfl⟩ := Option.map_eq_some_iff.mp h
  exact accepted_of_received hi

theorem accepted_of_texts {acl : ACLConfig} {limit ticks : Int} {texts : List String}
    {stanza : Stanza} (h : stanza ∈ stanzasOfTexts acl limit ticks texts) :
    Accepted stanza.ingress := by
  obtain ⟨text, -, ht⟩ := List.mem_filterMap.mp h
  exact accepted_of_text ht

/-- A room handles one stanza. -/
def roomStep : Machine.Step Room Stanza (List BuilderPacket) := fun room stanza =>
  roomRoute room stanza.ingress stanza.acl stanza.decisecondsLimit stanza.ticks

end Mukite
