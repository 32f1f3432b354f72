import Mukite.Xmlfsm
import Mukite.Lib.Machine

/-!
# The reader thread

`xmcomp/src/reader.c`, with `xmlfsm_skip_node` on a ring buffer. Pointers are offsets into the
block of memory of the network buffer, and both pointers of `network_data` may stand behind its
last byte. What `malloc` and `realloc` return is a parameter; undefined behaviour is `none`.
-/

namespace Mukite

/-- `network_buffer`, a block of memory, with the `data` and the `end` of `network_data`. -/
structure NetworkBuffer where
  mem : Bytes
  data : Nat
  stop : Nat
deriving DecidableEq, Repr

/-- `network_buffer_size`, also the offset of `network_buffer.end`. -/
def NetworkBuffer.size (buffer : NetworkBuffer) : Nat := buffer.mem.length

/-! ## `xmlfsm_skip_node` on the ring buffer -/

/-- One round of the loop of `xmlfsm_skip_node`. `none` says that the node ends here. -/
def skipChar (st : SkipState) (pos : Nat) (c : UInt8) : Option SkipState :=
  match st.quoteChar with
  | some q => some (if c == q then { st with quoteChar := none } else st)
  | none =>
    if c == ch '<' then some { st with nestingLevel := st.nestingLevel + 1, tag := true }
    else if c == ch '/' then some (if st.tag then { st with tagClosingPos := some pos } else st)
    else if c == ch '>' then
      match st.tag, st.tagClosingPos with
      | true, some closing =>
        let level := closeTag st pos closing
        if level = 0 then none
        else some { st with nestingLevel := level, tagClosingPos := none, tag := false }
      | _, _ => some { st with tag := false }
    else if c == quote2 || c == quote1 then some { st with quoteChar := some c }
    else some st

/-- The loop up to `current_end`: its variables there, or the position after the node. -/
def skipStretch (st : SkipState) (pos : Nat) : Bytes → SkipState ⊕ Nat
  | [] => .inl st
  | c :: rest =>
    match skipChar st pos c with
    | some st => skipStretch st (pos + 1) rest
    | none => .inr (pos + 1)

/-- Where `xmlfsm_skip_node` has stopped, and whether it has gone past the end of the buffer. -/
structure Skipped where
  data : Nat
  passed : Bool
deriving DecidableEq, Repr

/--
`xmlfsm_skip_node(&network_data, &network_buffer)`: the node, or `some none` on failure.

After the border nothing compares `data` with the end again before the first character. If the end
is there, the scan runs on over what is behind it, unless a `memchr` for a quote stops it.
-/
def xmlfsmSkipNodeRing (buffer : NetworkBuffer) : Option (Option Skipped) :=
  if buffer.data ≤ buffer.stop then
    match skipStretch {} buffer.data
        ((buffer.mem.drop buffer.data).take (buffer.stop - buffer.data)) with
    | .inr data => some (some { data := data, passed := false })
    | .inl _ => some none
  else
    match skipStretch {} buffer.data (buffer.mem.drop buffer.data) with
    | .inr data => some (some { data := data, passed := false })
    | .inl st =>
      if buffer.stop = 0 then
        if st.quoteChar.isSome then some none
        else
          match skipStretch st 0 buffer.mem with
          | .inr data => some (some { data := data, passed := true })
          | .inl _ => none
      else
        match skipStretch st 0 (buffer.mem.take buffer.stop) with
        | .inr data => some (some { data := data, passed := true })
        | .inl _ => some none

/-! ## Stanza entries -/

/-- `StanzaEntry`, less its place in a list. A null buffer has no bytes. -/
structure StanzaEntry where
  buffer : Buffer
  dataSize : Int
  bufferSize : Int
  sized : (bptSize buffer : Int) = bufferSize

/-- `malloc` and `realloc`: a block of the given size, from the old one. -/
abbrev Allocator := Buffer → (size : Nat) → Option { block : Bytes // block.length = size }

/-- `current_stanza_size`, from two pointers. -/
def currentStanzaSize (networkBufferSize currentStanza data : Nat) : Int :=
  let size := cInt (data - currentStanza)
  if size < 0 then cInt (networkBufferSize - size) else size

/-- An entry that has lost its buffer. -/
def StanzaEntry.unbuffered (entry : StanzaEntry) : StanzaEntry :=
  { entry with buffer := none, bufferSize := 0, sized := rfl }

/-- The entry with a buffer of the desired size. No memory has a negative size. -/
def StanzaEntry.fit (entry : StanzaEntry) (alloc : Allocator) (desired : Int) : StanzaEntry :=
  if entry.bufferSize = desired then entry
  else if h : desired < 0 then entry.unbuffered
  else
    match alloc entry.buffer desired.toNat with
    | none => entry.unbuffered
    | some block =>
      { entry with
        buffer := some block.1
        bufferSize := desired
        sized := by rw [bptSize_some, block.2, Int.toNat_of_nonneg (Int.not_lt.mp h)] }

/-- What is copied out of the network buffer, in one piece or in two. -/
def stanzaBytes (buffer : NetworkBuffer) (data : Nat) (size : Int) : Bytes :=
  if data > buffer.data then (buffer.mem.drop buffer.data).take size.toNat
  else buffer.mem.drop buffer.data ++ buffer.mem.take data

/-- The entry with a stanza of the given size in it, dropped if the buffer is too small. -/
def StanzaEntry.fill (entry : StanzaEntry) (bytes : Bytes) (size : Int) : Option StanzaEntry :=
  if entry.bufferSize < size then some { entry with dataSize := 0 }
  else
    match entry with
    | { buffer := none, .. } => none
    | { buffer := some block, dataSize := _, bufferSize := bufferSize, sized := sized } =>
      if h : 0 + bytes.length ≤ block.length then
        some {
          buffer := some (memcpy block 0 bytes)
          dataSize := size
          bufferSize := bufferSize
          sized := by rw [bptSize_some, length_memcpy h]; exact sized }
      else none

/-- The body of the loop over stanzas: the entry that is pushed. -/
def stanzaEntry (alloc : Allocator) (fixedBlockBufferSize : Int) (entry : StanzaEntry)
    (buffer : NetworkBuffer) (data : Nat) : Option StanzaEntry :=
  let size := currentStanzaSize buffer.size buffer.data data
  let desired := if fixedBlockBufferSize = 0 then size else fixedBlockBufferSize
  (entry.fit alloc desired).fill (stanzaBytes buffer data size) size

/--
The loop over the stanzas of the network buffer: the entries that are pushed, and the buffer
without them. `free` are the entries that `queue_pop_free` returns one after the other. The first
argument bounds the number of rounds.
-/
def readStanzas (alloc : Allocator) (fixedBlockBufferSize : Int) :
    Nat → (Nat → StanzaEntry) → NetworkBuffer → Option (List StanzaEntry × NetworkBuffer)
  | 0, _, _ => none
  | n + 1, free, buffer =>
    match xmlfsmSkipNodeRing buffer with
    | none => none
    | some none => some ([], buffer)
    | some (some skipped) =>
      match stanzaEntry alloc fixedBlockBufferSize (free 0) buffer skipped.data with
      | none => none
      | some entry =>
        match readStanzas alloc fixedBlockBufferSize n (fun i => free (i + 1))
            { buffer with data := skipped.data } with
        | none => none
        | some (pushed, buffer) => some (entry :: pushed, buffer)

/-- A loop that has more rounds than this is back where it was before, and never ends. -/
def NetworkBuffer.rounds (buffer : NetworkBuffer) : Nat := buffer.size + 2

/-! ## The network buffer -/

/-- `get_continuous_block`: the pointers after it, and the block. -/
def getContinuousBlock (buffer : NetworkBuffer) : NetworkBuffer × Span :=
  if buffer.stop = buffer.data then
    ({ buffer with data := 0, stop := 0 }, { data := 0, stop := buffer.size })
  else if buffer.stop = buffer.size then (buffer, { data := 0, stop := buffer.data })
  else if buffer.stop > buffer.data then (buffer, { data := buffer.stop, stop := buffer.size })
  else (buffer, { data := buffer.stop, stop := buffer.data })

/-- `net_recv` into the block, and `network_data.end` behind it. -/
def receiveBlock (buffer : NetworkBuffer) (bytes : Bytes) : NetworkBuffer :=
  let (buffer, block) := getContinuousBlock buffer
  { buffer with
    mem := memcpy buffer.mem block.data bytes
    stop := block.data + bytes.length }

/-- The `data_size` of `realloc_ring_buffer`. -/
def NetworkBuffer.dataSize (buffer : NetworkBuffer) : Int :=
  if buffer.stop > buffer.data then (buffer.stop : Int) - buffer.data
  else cInt (buffer.size - ((buffer.stop : Int) - buffer.data))

/-- The stored bytes at the beginning of a new block. -/
def NetworkBuffer.moved (buffer : NetworkBuffer) (block : Bytes) : Bytes :=
  if buffer.data = buffer.stop then block
  else if buffer.data > buffer.stop then
    memcpy (memcpy block 0 (buffer.mem.drop buffer.data)) (buffer.size - buffer.data)
      (buffer.mem.take buffer.stop)
  else memcpy block 0 ((buffer.mem.drop buffer.data).take (buffer.stop - buffer.data))

/--
`realloc_ring_buffer`. `block` is the block of memory for the new size, if there is one. A
negative `data_size`, after an overflow, sends `end` out of the buffer.
-/
def reallocRingBuffer (buffer : NetworkBuffer) (newSize : Int) (block : Option Bytes) :
    Option NetworkBuffer :=
  let newSize := if newSize < buffer.dataSize then buffer.dataSize else newSize
  match block with
  | none => some buffer
  | some block =>
    if buffer.dataSize < 0 ∨ (block.length : Int) ≠ newSize then none
    else some { mem := buffer.moved block, data := 0, stop := buffer.dataSize.toNat }

/-! ## The loop of the reader -/

/-- Where the reader is in its loop. -/
inductive ReaderPhase
  | resizing
  | parsing
  | receiving
  | terminated
deriving DecidableEq, Repr

/-- The reader thread with `queue->network_buffer_size`, which others may change. -/
structure Reader where
  buffer : NetworkBuffer
  networkBufferSize : Int
  phase : ReaderPhase
deriving DecidableEq, Repr

inductive ReaderEvent
  /-- another desired size of the network buffer -/
  | configure (networkBufferSize : Int)
  /-- `realloc_ring_buffer` with the block it gets, if the sizes differ -/
  | resize (block : Option Bytes)
  /-- the loop over stanzas, with the free entries -/
  | parse (fixedBlockBufferSize : Int) (free : Nat → StanzaEntry)
  /-- `get_continuous_block` and `net_recv`, which fails or receives some bytes -/
  | receive (bytes : Option Bytes)

def readerStep (alloc : Allocator) : Machine.Step Reader ReaderEvent (List StanzaEntry) :=
  fun reader event =>
    match event with
    | .configure networkBufferSize =>
      some ({ reader with networkBufferSize := networkBufferSize }, [])
    | .resize block =>
      if reader.phase ≠ .resizing then none
      else if reader.networkBufferSize = reader.buffer.size then
        some ({ reader with phase := .parsing }, [])
      else
        match reallocRingBuffer reader.buffer reader.networkBufferSize block with
        | none => none
        | some buffer => some ({ reader with buffer := buffer, phase := .parsing }, [])
    | .parse fixedBlockBufferSize free =>
      if reader.phase ≠ .parsing then none
      else
        match readStanzas alloc fixedBlockBufferSize reader.buffer.rounds free reader.buffer with
        | none => none
        | some (pushed, buffer) =>
          some ({ reader with buffer := buffer, phase := .receiving }, pushed)
    | .receive bytes =>
      if reader.phase ≠ .receiving then none
      else if (getContinuousBlock reader.buffer).2.size = 0 then
        if reader.networkBufferSize < 2 ^ 20 then
          some ({ reader with
            buffer := (getContinuousBlock reader.buffer).1
            networkBufferSize := 2 ^ 20
            phase := .resizing }, [])
        else some ({ reader with phase := .terminated }, [])
      else
        match bytes with
        | none => some ({ reader with phase := .terminated }, [])
        | some bytes =>
          if bytes.length ≤ (getContinuousBlock reader.buffer).2.size then
            some ({ reader with
              buffer := receiveBlock reader.buffer bytes
              phase := .resizing }, [])
          else none

/-- The reader with the network buffer that it has allocated. -/
def readerStart (mem : Bytes) : Reader where
  buffer := { mem := mem, data := 0, stop := 0 }
  networkBufferSize := mem.length
  phase := .resizing

end Mukite
