import Mukite.Properties.Received

/-!
# A network buffer of another size

`realloc_ring_buffer` computes the number of stored bytes from the two pointers. It is right when
`end` is behind `data`. When the bytes go round the end the distance is added instead of
subtracted, and an empty buffer counts as a full one.

* **`resized_kept_iff`**: the stored bytes are moved to the new buffer as they are if and only if
  they lie in one piece.
* `resized_empty`: an empty buffer that is enlarged.
-/

namespace Mukite

/-- What should be found in the new buffer: the stored bytes at its beginning and nothing else. -/
structure Resized (buffer after : NetworkBuffer) : Prop where
  content : after.content = buffer.content
  data : after.data = 0
  stop : after.stop = buffer.content.length
  size : buffer.content.length ≤ after.size

/-- The size that `realloc_ring_buffer` asks `malloc` for. -/
def NetworkBuffer.desiredSize (buffer : NetworkBuffer) (newSize : Int) : Int :=
  if newSize < buffer.dataSize then buffer.dataSize else newSize

section Resize

variable {buffer : NetworkBuffer} {newSize : Int} {block : Bytes}

theorem dataSize_le_desiredSize : buffer.dataSize ≤ buffer.desiredSize newSize := by
  unfold NetworkBuffer.desiredSize
  split <;> omega

/-- With a block of that size, the end of the data is put at `data_size`. -/
theorem reallocRingBuffer_eq (hblock : (block.length : Int) = buffer.desiredSize newSize) :
    reallocRingBuffer buffer newSize (some block) = if buffer.dataSize < 0 then none
      else some { mem := buffer.moved block, data := 0, stop := buffer.dataSize.toNat } := by
  have hsize : ¬ (block.length : Int) ≠ buffer.desiredSize newSize := not_not.mpr hblock
  unfold NetworkBuffer.desiredSize at hsize
  unfold reallocRingBuffer
  dsimp only
  simp only [hsize, or_false]

/-- **`data_size` is the number of stored bytes if and only if they lie in one piece.** -/
theorem dataSize_eq_iff (hv : buffer.Valid) (hpos : 0 ≤ buffer.dataSize) :
    buffer.dataSize = buffer.stored ↔ buffer.data < buffer.stop ∨ buffer.size = 0 := by
  have hdata := hv.data
  have hstop := hv.stop
  have hsize := hv.size
  unfold NetworkBuffer.dataSize at hpos ⊢
  rcases Nat.lt_trichotomy buffer.data buffer.stop with hlt | heq | hgt
  · rw [if_pos hlt, NetworkBuffer.stored_of_le (Nat.le_of_lt hlt)]
    exact iff_of_true (by omega) (.inl hlt)
  · -- an empty buffer
    rw [if_neg (by omega)] at hpos ⊢
    rw [cInt_of_nonneg (by omega) (by omega) hpos, NetworkBuffer.stored_of_le (Nat.le_of_eq heq)]
    omega
  · -- the distance is counted twice
    rw [if_neg (by omega)] at hpos ⊢
    rw [cInt_of_nonneg (by omega) (by omega) hpos, NetworkBuffer.stored_of_lt hgt]
    omega

/-- The stored bytes, when they lie in one piece, are the first ones of the new block. -/
theorem take_moved (h : buffer.data ≤ buffer.stop) :
    (buffer.moved block).take buffer.content.length = buffer.content := by
  have hcontent : buffer.content = (buffer.mem.drop buffer.data).take (buffer.stop - buffer.data) :=
    if_pos h
  unfold NetworkBuffer.moved
  by_cases heq : buffer.data = buffer.stop
  · rw [hcontent, heq, Nat.sub_self, List.take_zero]
    rfl
  · rw [if_neg heq, if_neg (by omega), ← hcontent]
    unfold memcpy
    rw [List.take_zero, List.nil_append]
    exact List.take_left

/--
**The stored bytes are kept if and only if they lie in one piece**, for every buffer that is not
full and every size, when `malloc` returns a block.
-/
theorem resized_kept_iff (hv : buffer.Valid)
    (hblock : (block.length : Int) = buffer.desiredSize newSize) :
    (∃ after, reallocRingBuffer buffer newSize (some block) = some after ∧ Resized buffer after) ↔
      buffer.data < buffer.stop ∨ buffer.size = 0 := by
  have hpos : 0 ≤ buffer.desiredSize newSize := by omega
  have hlen := hv.length_content
  rw [reallocRingBuffer_eq hblock]
  constructor
  · rintro ⟨after, hafter, hr⟩
    split at hafter
    · cases hafter
    · next hneg =>
      cases hafter
      have hstop : buffer.dataSize.toNat = buffer.content.length := hr.stop
      exact (dataSize_eq_iff hv (by omega)).mp (by omega)
  · intro h
    have hdata := hv.data
    have hstop := hv.stop
    have hle : buffer.data ≤ buffer.stop := by omega
    have hnonneg : 0 ≤ buffer.dataSize := by
      unfold NetworkBuffer.dataSize
      rcases h with h | h
      · rw [if_pos h]
        omega
      · have hd : buffer.data = 0 := by omega
        have hs : buffer.stop = 0 := by omega
        rw [hd, hs, h]
        decide
    have hsize := (dataSize_eq_iff hv hnonneg).mpr h
    have hfit : buffer.stored ≤ block.length := by
      have := @dataSize_le_desiredSize buffer newSize
      omega
    have hstored : buffer.dataSize.toNat = buffer.content.length := by omega
    rw [if_neg (by omega)]
    refine ⟨_, rfl, ?_, rfl, hstored, ?_⟩
    · show (((buffer.moved block).drop 0).take _) = _
      rw [List.drop_zero, Nat.sub_zero, hstored]
      exact take_moved hle
    · show buffer.content.length ≤ (buffer.moved block).length
      rw [length_moved hv hfit, hlen]
      exact hfit

end Resize

/-- Three bytes in one piece, in a buffer of eight. -/
def unwrappedBuffer : NetworkBuffer where
  mem := lit "..<a>..."
  data := 2
  stop := 5

/-- The result for three bytes that get a smaller buffer. -/
theorem resized_kept_iff_unwrapped : ∃ after,
    reallocRingBuffer unwrappedBuffer 4 (some (lit "....")) = some after ∧
      Resized unwrappedBuffer after :=
  (resized_kept_iff (by constructor <;> decide) (by decide)).mpr (.inl (by decide))

/-- Two bytes that go round the end of a buffer of three. -/
def wrappedBuffer : NetworkBuffer where
  mem := lit "b.a"
  data := 2
  stop := 1

/-- An empty buffer of one byte. -/
def emptyBuffer : NetworkBuffer where
  mem := lit "."
  data := 0
  stop := 0

/-- In a new buffer of four bytes the empty one has one byte, and the wrapped one has four. -/
theorem resized_empty :
    ¬ (∃ after, reallocRingBuffer emptyBuffer 4 (some (lit "....")) = some after ∧
      Resized emptyBuffer after) ∧
    ¬ ∃ after, reallocRingBuffer wrappedBuffer 4 (some (lit "....")) = some after ∧
      Resized wrappedBuffer after := by
  constructor
  · rintro ⟨after, hafter, hr⟩
    cases hafter
    exact absurd hr.stop (by decide)
  · rintro ⟨after, hafter, hr⟩
    cases hafter
    exact absurd hr.stop (by decide)

end Mukite
