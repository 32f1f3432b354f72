import Mukite.Room.Leftover
import Mukite.Rooms
import Mukite.Worker

/-!
# A worker and all the rooms

The loop of `worker_thread_entry` in `src/worker.c` for one worker. An entry of the queue is parsed
and goes to the component or to the room its address names.
-/

namespace Mukite

/-- A `StanzaEntry`, with the configuration and the clock while it is handled. -/
structure WorkerEntry where
  buffer : Bytes
  acl : ACLConfig
  decisecondsLimit : Int
  ticks : Int

/-- The stanza in an entry, `some none` if there is none or if it is rejected. -/
def entryStanza (entry : WorkerEntry) : Option (Option Stanza) :=
  if entry.buffer = [] then some none
  else
    (packetParse entry.buffer).map (Option.map (fun ingress =>
      { ingress := ingress
        acl := entry.acl
        decisecondsLimit := entry.decisecondsLimit
        ticks := entry.ticks }))

/-- `component_process` or `rooms_process`. -/
def dispatch (hash : HashsFind) (rooms : Rooms) (stanza : Stanza) :
    Option (Rooms × List BuilderPacket) :=
  if stanza.ingress.proxyTo.node.isNone then
    (componentProcess stanza.ingress).map (fun sent => (rooms, sent))
  else roomsProcess hash rooms stanza

/-- One turn of the loop. -/
def workerTurn (hash : HashsFind) : Machine.Step Rooms WorkerEntry (List BuilderPacket) :=
  fun rooms entry =>
    (entryStanza entry).bind fun stanza =>
      match stanza with
      | none => some (rooms, [])
      | some stanza => dispatch hash rooms stanza

/-- The rooms, where other bytes stand by now in the places of the reasons that are left in them. -/
def Rooms.reread (left : Bytes → Leftover) (rooms : Rooms) : Rooms :=
  { rooms with
    table :=
      { rooms.table with
        items := rooms.table.items.map (fun room => room.reread (left (bptBytes room.node))) } }

/-- One turn of the loop, with an entry in a block that has been used before. -/
def workerTurnIn (hash : HashsFind) :
    Machine.Step Rooms (WorkerEntry × (Bytes → Leftover)) (List BuilderPacket) := fun rooms e =>
  workerTurn hash (rooms.reread e.2) e.1

end Mukite
