import Mukite.Xmcomp.RingBuffer

/-!
# The writer thread

`xmcomp/src/writer.c`, with what `net_send` of `xmcomp/src/network.c` may return. The thread hands
the result to `ringbuffer_release_chunk` before it tests whether it is an error, so the size that
is released is signed here, and so is the read position.
-/

namespace Mukite

/-- `RingBuffer` with positions that may lie before `start`, as the writer thread can leave it. -/
structure RawRing where
  mem : Bytes
  readPosition : Int
  dataSize : Int
  writePosition : Int
deriving DecidableEq, Repr

def RawRing.bufferSize (ring : RawRing) : Nat := ring.mem.length

/-- A position that has been moved, back at `start` if it has reached `end`. -/
def RawRing.cycle (ring : RawRing) (position : Int) : Int :=
  if position = ring.bufferSize then 0 else position

/-- `ringbuffer_clear`. -/
def rawClear (ring : RawRing) : RawRing :=
  { ring with readPosition := 0, dataSize := 0, writePosition := 0 }

/-- The `continuous_block_size` of `ringbuffer_write`. -/
def rawBlockSize (ring : RawRing) : Int :=
  if ring.writePosition ≤ ring.readPosition ∧ ring.dataSize > 0 then
    ring.readPosition - ring.writePosition
  else ring.bufferSize - ring.writePosition

/-- The `write_size` of a segment of `buffer`. -/
def rawWriteSize (ring : RawRing) (buffer : Bytes) : Int :=
  if rawBlockSize ring > buffer.length then buffer.length else rawBlockSize ring

/-- The body of the loop of `ringbuffer_write` once there is room. -/
def rawCopy (ring : RawRing) (buffer : Bytes) : RawRing where
  mem := memcpy ring.mem ring.writePosition.toNat (buffer.take (rawWriteSize ring buffer).toNat)
  readPosition := ring.readPosition
  dataSize := ring.dataSize + rawWriteSize ring buffer
  writePosition := ring.cycle (ring.writePosition + rawWriteSize ring buffer)

/-- What `ringbuffer_get_chunk` returns when there is data. -/
def rawGetChunk (ring : RawRing) : Int :=
  if ring.bufferSize - ring.readPosition > ring.dataSize then ring.dataSize
  else ring.bufferSize - ring.readPosition

/-- `ringbuffer_release_chunk` of any `int`. -/
def rawReleaseChunk (ring : RawRing) (size : Int) : RawRing :=
  { ring with
    readPosition := ring.cycle (ring.readPosition + size)
    dataSize := ring.dataSize - size }

/-- The writer thread and the buffer it reads; `offered` is the chunk it is sending. -/
structure Writer where
  ring : RawRing
  offered : Option Int
  enabled : Bool
deriving DecidableEq, Repr

inductive WriterEvent
  /-- a worker copies a segment of what it has left -/
  | write (buffer : Bytes)
  | getChunk
  /-- `net_send` has returned -/
  | sent (result : Int) (connected : Bool)
  /-- the thread has been joined, the buffer is cleared and the thread of the next connection runs -/
  | reconnect

/--
The loop of `writer_thread_entry` in two steps, from one `ringbuffer_get_chunk` to the next.
`net_send` returns a number of bytes it has been given, or -1.
-/
def writerStep : Machine.Step Writer WriterEvent Unit := fun s e =>
  match e with
  | .write buffer =>
    if buffer = [] ∨ rawBlockSize s.ring = 0 then none
    else some ({ s with ring := rawCopy s.ring buffer }, ())
  | .getChunk =>
    if s.enabled = false ∨ s.offered ≠ none ∨ s.ring.dataSize = 0 then none
    else some ({ s with offered := some (rawGetChunk s.ring) }, ())
  | .sent result connected =>
    match s.offered with
    | none => none
    | some chunk =>
      if -1 ≤ result ∧ result ≤ chunk then
        some ({ ring := rawReleaseChunk s.ring result
                offered := none
                enabled := !(result < 0 || !connected) }, ())
      else none
  | .reconnect =>
    if s.offered = none then
      some ({ ring := rawClear s.ring, offered := none, enabled := true }, ())
    else none

/-- The first connection, with a block of memory for the buffer. -/
def writerStart (mem : Bytes) : Writer where
  ring := { mem := mem, readPosition := 0, dataSize := 0, writePosition := 0 }
  offered := none
  enabled := true

end Mukite
