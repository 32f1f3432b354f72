import Mukite.RoomsLocks
import Mukite.Serializer

/-!
# The table of rooms

`src/room/rooms.c` with one worker, the registered nicks it is saved with, and `deserialize_data`
of `src/mukite.c`. The `HASHS_` macros keep the rooms in the order in which they were added and
count them as the `DLS_` macros do.
-/

namespace Mukite

/-! ## Registered nicks -/

structure RegisteredNick where
  jid : Jid
  nick : Buffer
deriving DecidableEq, Repr

abbrev RegisteredNicksList := Dls RegisteredNick

/-- `registered_nick_serialize`. -/
def registeredNickSerialize (registeredNick : RegisteredNick) : Bytes :=
  [jidSerialize registeredNick.jid, bufferSerialize registeredNick.nick].flatten

/-- `registered_nick_deserialize`. -/
def registeredNickDeserialize : Input RegisteredNick := do
  let jid ← jidDeserialize
  let nick ← bufferDeserialize maxJidPartSize
  return { jid := jid, nick := nick }

/-- `registered_nicks_serialize`. -/
def registeredNicksSerialize (registeredNicks : RegisteredNicksList) : Bytes :=
  containerSerialize registeredNickSerialize registeredNicks.maxSize registeredNicks.items

/-- `registered_nicks_deserialize`. -/
def registeredNicksDeserialize (registeredNicks : RegisteredNicksList) :
    Input RegisteredNicksList :=
  containerDeserialize registeredNickDeserialize registeredNicks

/-! ## The table -/

/-- `Rooms`, less its lock and its limits for intervals. -/
structure Rooms where
  table : Dls Room
  registeredNicks : RegisteredNicksList

/-- `rooms_init`. -/
def roomsInit : Rooms := { table := .init 0, registeredNicks := .init 0 }

def errorRoomNotFound : XMPPError where
  code := "405"
  name := "item-not-found"
  type := "cancel"
  text := "Room does not exist"

def errorRoomCreatePermission : XMPPError where
  code := "403"
  name := "forbidden"
  type := "auth"
  text := "Room creation is denied by the service policy"

/--
`HASHS_FIND`: the place of a room with the given key, if there is one. Which one it is, when a
data file has brought in several, is left open.
-/
structure HashsFind where
  find : List Room → Bytes → Option Nat
  found : ∀ {rooms node i}, find rooms node = some i →
    ∃ room, rooms[i]? = some room ∧ bptBytes room.node = node
  missing : ∀ {rooms node}, find rooms node = none → ∀ room ∈ rooms, bptBytes room.node ≠ node

/-- `rooms_create_room`. -/
def roomsCreateRoom (rooms : Rooms) (node : Bytes) : Rooms :=
  { rooms with table := rooms.table.append (roomInit node) }

/-- `rooms_destroy_room` of the room at position `i`. -/
def roomsDestroyRoom (rooms : Rooms) (i : Nat) : Rooms :=
  { rooms with table := rooms.table.delete i }

/-- The table with another state of the room at position `i`. -/
def setRoom (rooms : Rooms) (i : Nat) (room : Room) : Rooms :=
  { rooms with table := { rooms.table with items := rooms.table.items.set i room } }

/-- The end of `rooms_process`, with the room at position `i`. -/
def routeAt (rooms : Rooms) (i : Nat) (stanza : Stanza) :
    Option (Rooms × List BuilderPacket) := do
  let room ← rooms.table.items[i]?
  let (room, sent) ← roomStep room stanza
  let rooms := setRoom rooms i room
  if room.hasFlag mucFlagDestroyed then return (roomsDestroyRoom rooms i, sent)
  else return (rooms, sent)

/-- `worker_bounce(...); return;` in `rooms_process`. -/
def bounceRoomless (rooms : Rooms) (ingress : IncomingPacket) (error : XMPPError) (node : Buffer) :
    Option (Rooms × List BuilderPacket) :=
  (workerBounce ingress error node).map (fun packet => (rooms, [packet]))

/-- `rooms_process`. -/
def roomsProcess (hash : HashsFind) : Machine.Step Rooms Stanza (List BuilderPacket) :=
  fun rooms stanza =>
    let ingress := stanza.ingress
    match hash.find rooms.table.items (roomKey ingress) with
    | some i => routeAt rooms i stanza
    | none =>
      if ignoredWithoutRoom ingress then some (rooms, [])
      else if ingress.name != .presence || ingress.type == stanzaPresenceUnavailable then
        bounceRoomless rooms ingress errorRoomNotFound none
      else if aclRole stanza.acl ingress.realFrom ≥ aclMucCreate then
        routeAt (roomsCreateRoom rooms (roomKey ingress)) rooms.table.items.length stanza
      else
        bounceRoomless rooms ingress errorRoomCreatePermission (some (roomKey ingress))

/-! ## The data file -/

/-- `rooms_serialize`. -/
def roomsSerialize (rooms : Rooms) : Bytes :=
  registeredNicksSerialize rooms.registeredNicks ++
    containerSerialize roomSerialize rooms.table.maxSize rooms.table.items

/-- `rooms_deserialize`. -/
def roomsDeserialize (rooms : Rooms) : Input Rooms := do
  let registeredNicks ← registeredNicksDeserialize rooms.registeredNicks
  let table ← containerDeserialize roomDeserialize rooms.table
  return { table := table, registeredNicks := registeredNicks }

/-- `rooms.max_size`, and that of the registered nicks, once a data file has been opened. -/
def loadedRoomsLimit : Int := 10240
def loadedNicksLimit : Int := 102400

/-- The table before the data file is read. -/
def limitedRooms (rooms : Rooms) : Rooms :=
  { table := { rooms.table with maxSize := loadedRoomsLimit }
    registeredNicks := { rooms.registeredNicks with maxSize := loadedNicksLimit } }

/--
`deserialize_data` with the contents of the data file, if it can be opened. `none` when the file
is rejected and the program ends.
-/
def deserializeData (rooms : Rooms) (file : Option Bytes) : Option Rooms :=
  match file with
  | none => some rooms
  | some input => ((roomsDeserialize (limitedRooms rooms)).run input).map Prod.fst

end Mukite
