import Mukite.Component
import Mukite.Pushes
import Mukite.Room.Route

/-!
# A worker

`worker_send` of `src/worker.c`, and the dispatch in `worker_thread_entry` for a stanza whose room
exists if it is for a room.
-/

namespace Mukite

/-- What the system says to the process while it builds a stanza. -/
structure Surroundings where
  clock : Clock
  uname : Utsname
  stray : Stray

/-- `WorkerThreadStorage`, without the ring buffer that the stanzas are written to. -/
structure WorkerThreadStorage where
  builderBuffer : BuilderBuffer
  hostname : Buffer
  le : builderBuffer.data ≤ builderBuffer.stop
  allocated : builderBuffer.stop ≤ builderBuffer.mem.length

namespace WorkerThreadStorage

/-- The size of the buffer that stanzas are built in. -/
def size (storage : WorkerThreadStorage) : Nat :=
  storage.builderBuffer.stop - storage.builderBuffer.data

/-- `data_end = data`. -/
def emptied (storage : WorkerThreadStorage) : BuilderBuffer :=
  { storage.builderBuffer with dataEnd := storage.builderBuffer.data }

/-- A packet with the name of the host, as it is built. No answer to a query has a delay, and no
statistics are at hand. -/
def outgoing (storage : WorkerThreadStorage) (surroundings : Surroundings)
    (packet : BuilderPacket) : OutgoingPacket :=
  { packet with
    fromHost := storage.hostname
    delay := 0
    uname := surroundings.uname
    stats := none }

end WorkerThreadStorage

/-- `worker_send`: whether the packet is written to the ring buffer. What is left behind in the
buffer is never read. -/
def workerSend (surroundings : Surroundings) (storage : WorkerThreadStorage)
    (packet : BuilderPacket) : Option Bool :=
  (builderBuildInto surroundings.stray surroundings.clock (storage.outgoing surroundings packet)
    storage.emptied).map Prod.snd

/-- The packets that go out, of those that are sent one after another. -/
def workerSends (surroundings : Surroundings) (storage : WorkerThreadStorage) :
    List BuilderPacket → Option (List BuilderPacket)
  | [] => some []
  | packet :: rest => do
    let sent ← workerSend surroundings storage packet
    let more ← workerSends surroundings storage rest
    return if sent then packet :: more else more

/-- What a worker sends for a stanza. -/
def workerProcess (room : Room) (stanza : Stanza) : Option (List BuilderPacket) :=
  if stanza.ingress.proxyTo.node.isNone then componentProcess stanza.ingress
  else
    (roomRoute room stanza.ingress stanza.acl stanza.decisecondsLimit stanza.ticks).map Prod.snd

end Mukite
