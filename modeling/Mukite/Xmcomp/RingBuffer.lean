import Mukite.Buffer
import Mukite.Lib.Circle
import Mukite.Lib.Machine

/-!
# The output ring buffer

`xmcomp/src/ringbuffer.h`, `xmcomp/src/ringbuffer.c`. Pointers are offsets from `start`;
`buffer_size` is the length of the memory block and `end` is the offset behind it.

The workers write into the buffer and one writer thread reads it. `ringbuffer_write` gives up the
mutex only where it waits for free space, so its loop body between two waits is one step.
-/

namespace Mukite

/-- `RingBuffer`, less its locks and statistics. -/
structure RingBuffer where
  mem : Bytes
  readPosition : Nat
  dataSize : Int
  writePosition : Nat
deriving DecidableEq, Repr

/-- `buffer_size`, also the offset of `end`. -/
def RingBuffer.bufferSize (ringbuffer : RingBuffer) : Nat := ringbuffer.mem.length

/-- `ringbuffer_init` with a block of memory. -/
def ringbufferInit (buffer : Bytes) : RingBuffer where
  mem := buffer
  readPosition := 0
  dataSize := 0
  writePosition := 0

/-- The `continuous_block_size` of `ringbuffer_write`. It waits while this is zero. -/
def continuousBlockSize (ringbuffer : RingBuffer) : Int :=
  if ringbuffer.writePosition ≤ ringbuffer.readPosition ∧ ringbuffer.dataSize > 0 then
    ringbuffer.readPosition - ringbuffer.writePosition
  else ringbuffer.bufferSize - ringbuffer.writePosition

/-- The `write_size` of a segment of `buffer`. -/
def writeSize (ringbuffer : RingBuffer) (buffer : Bytes) : Int :=
  if continuousBlockSize ringbuffer > buffer.length then buffer.length
  else continuousBlockSize ringbuffer

/-- A position that has been moved, back at `start` if it has reached `end`. -/
def RingBuffer.cycle (ringbuffer : RingBuffer) (position : Nat) : Nat :=
  if position = ringbuffer.bufferSize then 0 else position

/-- The body of the loop of `ringbuffer_write` once there is room: the bytes copied. -/
def segmentOf (ringbuffer : RingBuffer) (buffer : Bytes) : Bytes :=
  buffer.take (writeSize ringbuffer buffer).toNat

/-- The body of the loop of `ringbuffer_write` once there is room: the ring buffer after it. -/
def ringbufferCopy (ringbuffer : RingBuffer) (buffer : Bytes) : RingBuffer where
  mem := memcpy ringbuffer.mem ringbuffer.writePosition (segmentOf ringbuffer buffer)
  readPosition := ringbuffer.readPosition
  dataSize := ringbuffer.dataSize + writeSize ringbuffer buffer
  writePosition := ringbuffer.cycle
    (ringbuffer.writePosition + (writeSize ringbuffer buffer).toNat)

/--
`ringbuffer_write` of `buffer` from where it holds the mutex to where it gives it up: the ring
buffer, and what is left to write if it has to wait. The first argument bounds the recursion.
-/
def ringbufferWrite : Nat → RingBuffer → Bytes → RingBuffer × Bytes
  | 0, ringbuffer, buffer => (ringbuffer, buffer)
  | n + 1, ringbuffer, buffer =>
    if buffer.length > 0 then
      if continuousBlockSize ringbuffer = 0 then (ringbuffer, buffer)
      else ringbufferWrite n (ringbufferCopy ringbuffer buffer)
        (buffer.drop (writeSize ringbuffer buffer).toNat)
    else (ringbuffer, buffer)

/-- What `ringbuffer_get_chunk` returns when there is data. -/
def ringbufferGetChunk (ringbuffer : RingBuffer) : Int :=
  if (ringbuffer.bufferSize : Int) - ringbuffer.readPosition > ringbuffer.dataSize then
    ringbuffer.dataSize
  else ringbuffer.bufferSize - ringbuffer.readPosition

/-- The `n` bytes from `read_position` on, as the writer thread hands them to the socket. -/
def chunkBytes (ringbuffer : RingBuffer) (n : Nat) : Bytes :=
  (ringbuffer.mem.drop ringbuffer.readPosition).take n

/-- `ringbuffer_release_chunk`. -/
def ringbufferReleaseChunk (ringbuffer : RingBuffer) (size : Nat) : RingBuffer :=
  { ringbuffer with
    readPosition := ringbuffer.cycle (ringbuffer.readPosition + size)
    dataSize := ringbuffer.dataSize - size }

end Mukite
