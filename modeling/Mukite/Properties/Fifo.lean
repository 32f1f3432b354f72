import Mukite.Xmcomp.RingBuffer

/-!
# The output ring buffer is a FIFO

Segments are written, chunks are offered and released in any order. Every reachable ring buffer
is `Valid`, which ties the redundant write position to the size of the data, and its `stored`
bytes continue what has been released to what has been written (`ring_fifo`).
-/

namespace Mukite

open Machine Circle

namespace RingBuffer

variable {ringbuffer : RingBuffer} {buffer : Bytes}

/-- The bytes between the read position and the write position. -/
def stored (ringbuffer : RingBuffer) : Bytes :=
  segment ringbuffer.mem ringbuffer.readPosition ringbuffer.dataSize.toNat

/-- Both positions lie inside of the buffer, and the data ends at the write position. -/
structure Valid (ringbuffer : RingBuffer) : Prop where
  nonneg : 0 ≤ ringbuffer.dataSize
  le : ringbuffer.dataSize ≤ ringbuffer.bufferSize
  read : ringbuffer.readPosition < ringbuffer.bufferSize
  write : (ringbuffer.writePosition : Int)
    = (ringbuffer.readPosition + ringbuffer.dataSize) % ringbuffer.bufferSize

theorem valid_init (h : buffer ≠ []) : (ringbufferInit buffer).Valid where
  nonneg := Int.le_refl 0
  le := Int.natCast_nonneg _
  read := List.length_pos_iff.mpr h
  write := by
    show (0 : Int) = (0 + 0) % _
    rw [Int.add_zero, Int.zero_emod]

/-- The write position, one round or none ahead of the read position. -/
theorem Valid.write_cases (h : ringbuffer.Valid) :
    (ringbuffer.readPosition + ringbuffer.dataSize < ringbuffer.bufferSize ∧
        (ringbuffer.writePosition : Int) = ringbuffer.readPosition + ringbuffer.dataSize) ∨
      (ringbuffer.bufferSize ≤ ringbuffer.readPosition + ringbuffer.dataSize ∧
        (ringbuffer.writePosition : Int)
          = ringbuffer.readPosition + ringbuffer.dataSize - ringbuffer.bufferSize) := by
  obtain ⟨hnonneg, hle, hread, hwrite⟩ := h
  rw [hwrite]
  by_cases hlt : ringbuffer.readPosition + ringbuffer.dataSize < ringbuffer.bufferSize
  · left
    exact ⟨hlt, Int.emod_eq_of_lt (by omega) hlt⟩
  · right
    refine ⟨by omega, ?_⟩
    rw [← Int.sub_emod_right]
    exact Int.emod_eq_of_lt (by omega) (by omega)

theorem Valid.write_lt (h : ringbuffer.Valid) :
    ringbuffer.writePosition < ringbuffer.bufferSize := by
  have hread := h.read
  have hle := h.le
  rcases h.write_cases with ⟨hlt, hw⟩ | ⟨hge, hw⟩ <;> omega

/-! ## Room for a segment -/

/-- **There is room unless the buffer is full, and what fits does not touch the data.** -/
theorem Valid.block (h : ringbuffer.Valid) :
    0 ≤ continuousBlockSize ringbuffer ∧
      (continuousBlockSize ringbuffer = 0 ↔ ringbuffer.dataSize = ringbuffer.bufferSize) ∧
      ringbuffer.dataSize + continuousBlockSize ringbuffer ≤ ringbuffer.bufferSize ∧
      ringbuffer.writePosition + continuousBlockSize ringbuffer ≤ ringbuffer.bufferSize := by
  have hnonneg := h.nonneg
  have hle := h.le
  have hread := h.read
  have hlt := h.write_lt
  unfold continuousBlockSize
  rcases h.write_cases with ⟨hend, hw⟩ | ⟨hend, hw⟩
  · by_cases hz : ringbuffer.dataSize > 0
    · rw [if_neg (by omega)]
      omega
    · rw [if_neg (by omega)]
      omega
  · rw [if_pos (by omega)]
    omega

theorem Valid.writeSize_le (h : ringbuffer.Valid) (buffer : Bytes) :
    0 ≤ writeSize ringbuffer buffer ∧ writeSize ringbuffer buffer ≤ buffer.length ∧
      writeSize ringbuffer buffer ≤ continuousBlockSize ringbuffer := by
  obtain ⟨hblock, -⟩ := h.block
  unfold writeSize
  split <;> omega

theorem Valid.length_segmentOf (h : ringbuffer.Valid) (buffer : Bytes) :
    ((segmentOf ringbuffer buffer).length : Int) = writeSize ringbuffer buffer := by
  obtain ⟨hpos, hle, -⟩ := h.writeSize_le buffer
  unfold segmentOf
  rw [List.length_take]
  omega

/-- A segment copies something when there is room. -/
theorem Valid.writeSize_pos (h : ringbuffer.Valid) (hne : buffer ≠ [])
    (hroom : continuousBlockSize ringbuffer ≠ 0) : 0 < writeSize ringbuffer buffer := by
  obtain ⟨hblock, -⟩ := h.block
  have hlen := List.length_pos_iff.mpr hne
  unfold writeSize
  split <;> omega

theorem cycle_eq_mod {position : Nat} (h : position ≤ ringbuffer.bufferSize) :
    ringbuffer.cycle position = position % ringbuffer.bufferSize := wrap_eq_mod h

/-- **A segment keeps the buffer valid and is appended to the data.** -/
theorem Valid.copy (h : ringbuffer.Valid) (buffer : Bytes) :
    (ringbufferCopy ringbuffer buffer).Valid ∧
      (ringbufferCopy ringbuffer buffer).bufferSize = ringbuffer.bufferSize ∧
      (ringbufferCopy ringbuffer buffer).stored
        = ringbuffer.stored ++ segmentOf ringbuffer buffer := by
  obtain ⟨hw0, -, hwb⟩ := h.writeSize_le buffer
  obtain ⟨-, -, hroom, hfit⟩ := h.block
  have hlen := h.length_segmentOf buffer
  have hnonneg := h.nonneg
  have hread := h.read
  have hfits : ringbuffer.writePosition + (segmentOf ringbuffer buffer).length
      ≤ ringbuffer.mem.length := by
    have : (ringbuffer.mem.length : Int) = ringbuffer.bufferSize := rfl
    omega
  have hsize : (ringbufferCopy ringbuffer buffer).bufferSize = ringbuffer.bufferSize :=
    length_overwrite hfits
  refine ⟨⟨?_, ?_, ?_, ?_⟩, hsize, ?_⟩
  · show 0 ≤ ringbuffer.dataSize + writeSize ringbuffer buffer
    omega
  · rw [hsize]
    show ringbuffer.dataSize + writeSize ringbuffer buffer ≤ _
    omega
  · rw [hsize]
    exact hread
  · rw [hsize]
    show ((ringbuffer.cycle _ : Nat) : Int)
      = (ringbuffer.readPosition + (ringbuffer.dataSize + writeSize ringbuffer buffer)) % _
    rw [cycle_eq_mod (by omega), Int.natCast_emod, Int.natCast_add, Int.toNat_of_nonneg hw0,
      h.write, Int.emod_add_emod, Int.add_assoc]
  · show segment (overwrite ringbuffer.mem ringbuffer.writePosition (segmentOf ringbuffer buffer))
      ringbuffer.readPosition (ringbuffer.dataSize + writeSize ringbuffer buffer).toNat = _
    have hsum : (ringbuffer.dataSize + writeSize ringbuffer buffer).toNat
        = ringbuffer.dataSize.toNat + (segmentOf ringbuffer buffer).length := by omega
    have hmem : (ringbuffer.mem.length : Int) = ringbuffer.bufferSize := rfl
    rw [hsum]
    refine segment_overwrite (Nat.le_of_lt hread) ?_ (by omega) hfits
    rcases h.write_cases with ⟨-, hw⟩ | ⟨-, hw⟩ <;> omega

/-! ## Chunks -/

/-- **A chunk is not empty, and runs neither past the data nor past the end of the buffer.** -/
theorem Valid.chunk (h : ringbuffer.Valid) (hdata : ringbuffer.dataSize ≠ 0) :
    0 < ringbufferGetChunk ringbuffer ∧
      ringbufferGetChunk ringbuffer ≤ ringbuffer.dataSize ∧
      ringbuffer.readPosition + ringbufferGetChunk ringbuffer ≤ ringbuffer.bufferSize := by
  have hnonneg := h.nonneg
  have hread := h.read
  unfold ringbufferGetChunk
  split <;> omega

/-- **A release keeps the buffer valid and takes the chunk off the data.** -/
theorem Valid.release {n : Nat} (h : ringbuffer.Valid) (hn : n ≤ ringbuffer.dataSize)
    (hend : ringbuffer.readPosition + n ≤ ringbuffer.bufferSize) :
    (ringbufferReleaseChunk ringbuffer n).Valid ∧
      ringbuffer.stored
        = chunkBytes ringbuffer n ++ (ringbufferReleaseChunk ringbuffer n).stored := by
  have hnonneg := h.nonneg
  have hle := h.le
  have hread := h.read
  have hmem : ringbuffer.mem.length = ringbuffer.bufferSize := rfl
  refine ⟨⟨?_, ?_, ?_, ?_⟩, ?_⟩
  · show 0 ≤ ringbuffer.dataSize - n
    omega
  · show ringbuffer.dataSize - n ≤ ringbuffer.bufferSize
    omega
  · exact wrap_lt hend (by omega)
  · show (ringbuffer.writePosition : Int)
      = (((ringbuffer.cycle (ringbuffer.readPosition + n) : Nat) : Int)
        + (ringbuffer.dataSize - n)) % ringbuffer.bufferSize
    have hsum : (ringbuffer.readPosition : Int) + n + (ringbuffer.dataSize - n)
        = ringbuffer.readPosition + ringbuffer.dataSize := by omega
    rw [cycle_eq_mod hend, Int.natCast_emod, Int.natCast_add, Int.emod_add_emod, hsum, h.write]
  · show segment ringbuffer.mem _ _ = _ ++ segment ringbuffer.mem
      (wrap ringbuffer.mem.length (ringbuffer.readPosition + n)) (ringbuffer.dataSize - n).toNat
    have hsub : (ringbuffer.dataSize - n).toNat = ringbuffer.dataSize.toNat - n := by omega
    have hin : ringbuffer.readPosition + n ≤ ringbuffer.mem.length := hend
    rw [hsub, segment_wrap, segment_split (Nat.le_of_lt hread) (by omega)
      (show n ≤ ringbuffer.dataSize.toNat by omega), if_pos hin, segment_contiguous hin]
    rfl

end RingBuffer

/-! ## Runs -/

/-- The ring buffer with what has gone through it; `offered` is a chunk not yet released. -/
structure RingRun where
  ring : RingBuffer
  written : Bytes
  released : Bytes
  offered : Option Int

/-- What the threads do to the ring buffer. -/
inductive RingEvent
  /-- a worker copies a segment of what it has left -/
  | write (buffer : Bytes)
  | getChunk
  | release (n : Nat)

/-- The workers wait while there is no room, the writer thread while there is no data. -/
def ringStep : Machine.Step RingRun RingEvent Unit := fun s e =>
  match e with
  | .write buffer =>
    if buffer = [] ∨ continuousBlockSize s.ring = 0 then none
    else some ({ s with ring := ringbufferCopy s.ring buffer
                        written := s.written ++ segmentOf s.ring buffer }, ())
  | .getChunk =>
    if s.ring.dataSize = 0 then none
    else some ({ s with offered := some (ringbufferGetChunk s.ring) }, ())
  | .release n =>
    match s.offered with
    | none => none
    | some chunk =>
      if n ≤ chunk then
        some ({ s with ring := ringbufferReleaseChunk s.ring n, offered := none
                       released := s.released ++ chunkBytes s.ring n }, ())
      else none

/-- The ring buffer before the first byte. -/
def ringStart (mem : Bytes) : RingRun :=
  { ring := ringbufferInit mem, written := [], released := [], offered := none }

/-- The bytes released, followed by those stored, are the bytes written. -/
structure Fifo (size : Nat) (s : RingRun) : Prop where
  valid : s.ring.Valid
  bufferSize : s.ring.bufferSize = size
  order : s.released ++ s.ring.stored = s.written
  offered : ∀ chunk ∈ s.offered, 0 < chunk ∧ chunk ≤ s.ring.dataSize ∧
    s.ring.readPosition + chunk ≤ s.ring.bufferSize

theorem fifo_start {mem : Bytes} (h : mem ≠ []) : Fifo mem.length (ringStart mem) where
  valid := RingBuffer.valid_init h
  bufferSize := rfl
  order := rfl
  offered := by simp [ringStart]

theorem Fifo.step {size : Nat} {s s' : RingRun} {e : RingEvent} {o : Unit} (h : Fifo size s)
    (hs : ringStep s e = some (s', o)) : Fifo size s' := by
  cases e with
  | write buffer =>
    unfold ringStep at hs
    dsimp only at hs
    split at hs
    · cases hs
    · cases hs
      obtain ⟨hvalid, hsize, hstored⟩ := h.valid.copy buffer
      refine ⟨hvalid, hsize.trans h.bufferSize, ?_, ?_⟩
      · show s.released ++ RingBuffer.stored _ = s.written ++ _
        rw [hstored, ← h.order, List.append_assoc]
      · intro chunk hc
        obtain ⟨hpos, hle, hend⟩ := h.offered chunk hc
        obtain ⟨hw0, -⟩ := h.valid.writeSize_le buffer
        refine ⟨hpos, ?_, ?_⟩
        · show chunk ≤ s.ring.dataSize + writeSize s.ring buffer
          omega
        · rw [hsize]
          exact hend
  | getChunk =>
    unfold ringStep at hs
    dsimp only at hs
    split at hs
    · cases hs
    · next hne =>
      cases hs
      refine ⟨h.valid, h.bufferSize, h.order, ?_⟩
      intro chunk hc
      cases hc
      exact h.valid.chunk hne
  | release n =>
    unfold ringStep at hs
    dsimp only at hs
    split at hs
    · cases hs
    · next chunk hc =>
      split at hs
      · next hn =>
        cases hs
        obtain ⟨-, hle, hend⟩ := h.offered chunk hc
        obtain ⟨hvalid, hstored⟩ := h.valid.release (n := n) (by omega) (by omega)
        refine ⟨hvalid, h.bufferSize, ?_, ?_⟩
        · show (s.released ++ chunkBytes s.ring n) ++ RingBuffer.stored _ = s.written
          rw [List.append_assoc, ← hstored, h.order]
        · intro c hc'
          cases hc'
      · cases hs

/--
**The output ring buffer is a FIFO.** In every reachable state of a buffer that is not empty: the
size of the data is in range, both positions lie inside of the buffer and agree with it, what has
been released and what is stored is what has been written in order, a segment has room unless the
buffer is full, and a chunk is there whenever there is data and ends with it or before it.
-/
theorem ring_fifo {mem : Bytes} (hmem : 1 ≤ mem.length) {s : RingRun}
    (h : Reach ringStep (fun _ _ => True) (ringStart mem) s) :
    s.ring.bufferSize = mem.length ∧
      (0 ≤ s.ring.dataSize ∧ s.ring.dataSize ≤ s.ring.bufferSize) ∧
      (s.ring.readPosition < s.ring.bufferSize ∧ s.ring.writePosition < s.ring.bufferSize) ∧
      (s.ring.writePosition : Int)
        = (s.ring.readPosition + s.ring.dataSize) % s.ring.bufferSize ∧
      s.released ++ s.ring.stored = s.written ∧ s.ring.stored.length = s.ring.dataSize ∧
      (s.ring.dataSize ≠ s.ring.bufferSize → 0 < continuousBlockSize s.ring) ∧
      (s.ring.dataSize ≠ 0 → 0 < ringbufferGetChunk s.ring ∧
        ringbufferGetChunk s.ring ≤ s.ring.dataSize ∧
        s.ring.readPosition + ringbufferGetChunk s.ring ≤ s.ring.bufferSize) := by
  have hne : mem ≠ [] := List.length_pos_iff.mp hmem
  have hfifo : Fifo mem.length s :=
    h.invariant (fifo_start hne) (fun _ _ _ _ hi _ hs => hi.step hs)
  have hv := hfifo.valid
  have hread := hv.read
  have hle := hv.le
  have hnonneg := hv.nonneg
  refine ⟨hfifo.bufferSize, ⟨hnonneg, hle⟩, ⟨hread, hv.write_lt⟩, hv.write, hfifo.order, ?_, ?_,
    hv.chunk⟩
  · have hmemlen : s.ring.mem.length = s.ring.bufferSize := rfl
    unfold RingBuffer.stored
    rw [length_segment (by omega) (by omega), Int.toNat_of_nonneg hnonneg]
  · intro hfull
    obtain ⟨hblock, hzero, -⟩ := hv.block
    have hnz : continuousBlockSize s.ring ≠ 0 := fun h0 => hfull (hzero.mp h0)
    omega

/-- A buffer of three bytes whose data goes round its end. -/
def wrappedRun : RingRun where
  ring := { mem := [4, 2, 3], readPosition := 2, dataSize := 2, writePosition := 1 }
  written := [1, 2, 3, 4]
  released := [1, 2]
  offered := none

theorem wrappedRun_reached : Reach ringStep (fun _ _ => True) (ringStart [0, 0, 0]) wrappedRun := by
  have h : Machine.run ringStep (ringStart [0, 0, 0])
      [.write [1, 2], .getChunk, .release 2, .write [3, 4], .write [4]] = some wrappedRun := rfl
  exact Reach.run .start (fun _ _ _ => trivial) h

theorem ring_fifo_wrappedRun :
    wrappedRun.released ++ wrappedRun.ring.stored = wrappedRun.written ∧
      wrappedRun.ring.stored.length = wrappedRun.ring.dataSize := by
  obtain ⟨-, -, -, -, horder, hlength, -⟩ := ring_fifo (by decide) wrappedRun_reached
  exact ⟨horder, hlength⟩

end Mukite
