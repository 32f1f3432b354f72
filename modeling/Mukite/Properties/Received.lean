import Mukite.Xmcomp.Reader

/-!
# What the reader receives

The bytes that the reader has received and not yet parsed go round the end of its buffer, and
only the two pointers say which they are. Equal pointers stand for an empty buffer, so a buffer
that a block has filled to the last byte counts as empty, unless the bytes start at its beginning.

* **`received_kept_iff`**: what is received into a block is appended to what is stored if and only
  if the block does not fill the buffer that way.
* `filled_buffer_lost`: four bytes that fill a buffer of six.
-/

namespace Mukite

open Circle Machine

/-- The bytes from `data` to `end`, around the end of the buffer. -/
def NetworkBuffer.content (buffer : NetworkBuffer) : Bytes :=
  if buffer.data ≤ buffer.stop then (buffer.mem.drop buffer.data).take (buffer.stop - buffer.data)
  else buffer.mem.drop buffer.data ++ buffer.mem.take buffer.stop

/-- The number of these bytes. -/
def NetworkBuffer.stored (buffer : NetworkBuffer) : Nat :=
  if buffer.data ≤ buffer.stop then buffer.stop - buffer.data
  else buffer.size - buffer.data + buffer.stop

/-- The positions of these bytes. -/
def NetworkBuffer.Stores (buffer : NetworkBuffer) (pos : Nat) : Prop :=
  if buffer.data ≤ buffer.stop then buffer.data ≤ pos ∧ pos < buffer.stop
  else buffer.data ≤ pos ∨ pos < buffer.stop

/-- Both pointers are inside the buffer or behind its last byte. -/
structure NetworkBuffer.Valid (buffer : NetworkBuffer) : Prop where
  data : buffer.data ≤ buffer.size
  stop : buffer.stop ≤ buffer.size
  size : buffer.size < 2 ^ 31

variable {buffer : NetworkBuffer} {bytes : Bytes}

namespace NetworkBuffer

theorem stored_of_le (h : buffer.data ≤ buffer.stop) :
    buffer.stored = buffer.stop - buffer.data :=
  if_pos h

theorem stored_of_lt (h : buffer.stop < buffer.data) :
    buffer.stored = buffer.size - buffer.data + buffer.stop :=
  if_neg (Nat.not_le.mpr h)

theorem Valid.stored_le (hv : buffer.Valid) : buffer.stored ≤ buffer.size := by
  have := hv.data
  have := hv.stop
  unfold stored
  split <;> omega

/-- The content is a segment of the circle of positions. -/
theorem Valid.content_eq (hv : buffer.Valid) :
    buffer.content = segment buffer.mem buffer.data buffer.stored := by
  have hstop : buffer.stop ≤ buffer.mem.length := hv.stop
  unfold content
  by_cases h : buffer.data ≤ buffer.stop
  · rw [if_pos h, stored_of_le h, segment_contiguous (by omega)]
  · have hlt : buffer.stop < buffer.data := Nat.not_le.mp h
    have hdata : buffer.data ≤ buffer.mem.length := hv.data
    have hsize : buffer.size = buffer.mem.length := rfl
    have hcut : buffer.data + (buffer.mem.length - buffer.data + buffer.stop)
        - buffer.mem.length = buffer.stop := by omega
    rw [if_neg h, stored_of_lt hlt, hsize, segment_wrapped hdata (by omega) (by omega), hcut]

theorem Valid.length_content (hv : buffer.Valid) : buffer.content.length = buffer.stored := by
  rw [hv.content_eq]
  exact length_segment hv.data hv.stored_le

end NetworkBuffer

/-! ## The block for new bytes -/

/-- What is stored, before and after the pointers of an empty buffer have been reset. -/
structure Offers (buffer : NetworkBuffer) (after : NetworkBuffer) (block : Span) : Prop where
  mem : after.mem = buffer.mem
  valid : after.Valid
  content : after.content = buffer.content
  /-- the block begins where the stored bytes end -/
  behind : block.data = after.data + after.stored ∨
    block.data + after.size = after.data + after.stored
  inside : block.data ≤ block.stop ∧ block.stop ≤ after.size
  room : after.stored + (block.stop - block.data) ≤ after.size
  apart : ∀ pos, block.data ≤ pos → pos < block.stop → ¬ buffer.Stores pos

/-- The cases of `get_continuous_block`. -/
theorem getContinuousBlock_offers (hv : buffer.Valid) :
    Offers buffer (getContinuousBlock buffer).1 (getContinuousBlock buffer).2 := by
  obtain ⟨hdata, hstop, hsize⟩ := hv
  have hv : buffer.Valid := ⟨hdata, hstop, hsize⟩
  unfold getContinuousBlock
  by_cases hempty : buffer.stop = buffer.data
  · rw [if_pos hempty]
    refine ⟨rfl, ⟨Nat.zero_le _, Nat.zero_le _, hsize⟩, ?_, .inl rfl, ⟨Nat.zero_le _, Nat.le_refl _⟩,
      ?_, ?_⟩
    · simp [NetworkBuffer.content, hempty]
    · simp [NetworkBuffer.stored, NetworkBuffer.size]
    · intro pos _ _ hs
      rw [NetworkBuffer.Stores, if_pos (by omega)] at hs
      omega
  · rw [if_neg hempty]
    by_cases hend : buffer.stop = buffer.size
    · have hle : buffer.data ≤ buffer.stop := by omega
      rw [if_pos hend]
      refine ⟨rfl, hv, rfl, .inr ?_, ⟨Nat.zero_le _, hdata⟩, ?_, ?_⟩
      · show 0 + buffer.size = buffer.data + buffer.stored
        rw [NetworkBuffer.stored_of_le hle]
        omega
      · show buffer.stored + (buffer.data - 0) ≤ buffer.size
        rw [NetworkBuffer.stored_of_le hle]
        omega
      · intro pos _ hlt hs
        change pos < buffer.data at hlt
        rw [NetworkBuffer.Stores, if_pos hle] at hs
        omega
    · rw [if_neg hend]
      by_cases hgt : buffer.stop > buffer.data
      · have hle : buffer.data ≤ buffer.stop := by omega
        rw [if_pos hgt]
        refine ⟨rfl, hv, rfl, .inl ?_, ⟨hstop, Nat.le_refl _⟩, ?_, ?_⟩
        · show buffer.stop = buffer.data + buffer.stored
          rw [NetworkBuffer.stored_of_le hle]
          omega
        · show buffer.stored + (buffer.size - buffer.stop) ≤ buffer.size
          rw [NetworkBuffer.stored_of_le hle]
          omega
        · intro pos hpos _ hs
          change buffer.stop ≤ pos at hpos
          rw [NetworkBuffer.Stores, if_pos hle] at hs
          omega
      · have hlt : buffer.stop < buffer.data := by omega
        rw [if_neg hgt]
        refine ⟨rfl, hv, rfl, .inr ?_, ⟨by show buffer.stop ≤ buffer.data; omega, hdata⟩, ?_, ?_⟩
        · show buffer.stop + buffer.size = buffer.data + buffer.stored
          rw [NetworkBuffer.stored_of_lt hlt]
          omega
        · show buffer.stored + (buffer.data - buffer.stop) ≤ buffer.size
          rw [NetworkBuffer.stored_of_lt hlt]
          omega
        · intro pos hpos hlt' hs
          change buffer.stop ≤ pos at hpos
          change pos < buffer.data at hlt'
          rw [NetworkBuffer.Stores, if_neg (by omega)] at hs
          omega

/-! ## Receiving -/

/-- The bytes do not fill the buffer behind stored bytes that start after its beginning. -/
def LeavesGap (buffer : NetworkBuffer) (bytes : Bytes) : Prop :=
  buffer.stop = buffer.data ∨ buffer.data = 0 ∨ buffer.stored + bytes.length < buffer.size

/-- The buffer with bytes at a position, and `end` behind them. -/
def NetworkBuffer.put (buffer : NetworkBuffer) (pos : Nat) (bytes : Bytes) : NetworkBuffer :=
  { buffer with mem := memcpy buffer.mem pos bytes, stop := pos + bytes.length }

theorem receiveBlock_eq (buffer : NetworkBuffer) (bytes : Bytes) :
    receiveBlock buffer bytes =
      (getContinuousBlock buffer).1.put (getContinuousBlock buffer).2.data bytes :=
  rfl

section

variable {after : NetworkBuffer} {block : Span}

theorem Offers.size_put (ho : Offers buffer after block)
    (hfit : (bytes.length : Int) ≤ block.size) :
    (after.put block.data bytes).size = after.size := by
  have hin := ho.inside
  have hmem : after.size = after.mem.length := rfl
  unfold Span.size at hfit
  exact length_memcpy (by omega)

theorem Offers.valid_put (ho : Offers buffer after block)
    (hfit : (bytes.length : Int) ≤ block.size) : (after.put block.data bytes).Valid := by
  have hin := ho.inside
  have hsize := ho.size_put hfit
  unfold Span.size at hfit
  refine ⟨?_, ?_, ?_⟩
  · rw [hsize]
    exact ho.valid.data
  · rw [hsize]
    show block.data + bytes.length ≤ after.size
    omega
  · rw [hsize]
    exact ho.valid.size

/-- With a gap, the bytes that are put into the block are stored behind the others. -/
theorem Offers.content_put (ho : Offers buffer after block) (hpos : bytes ≠ [])
    (hfit : (bytes.length : Int) ≤ block.size)
    (hgap : after.data = 0 ∨ after.stored + bytes.length < after.size) :
    (after.put block.data bytes).content = buffer.content ++ bytes := by
  have hin := ho.inside
  have hroom := ho.room
  have hbehind := ho.behind
  have hdata := ho.valid.data
  have hmem : after.size = after.mem.length := rfl
  have hlen : 0 < bytes.length := List.length_pos_iff.mpr hpos
  have hsize := ho.size_put hfit
  have hv := ho.valid_put hfit
  unfold Span.size at hfit
  have hstored : (after.put block.data bytes).stored = after.stored + bytes.length := by
    unfold NetworkBuffer.stored at hgap hroom hbehind ⊢
    rw [hsize]
    show (if after.data ≤ block.data + bytes.length then block.data + bytes.length - after.data
      else after.size - after.data + (block.data + bytes.length)) = _
    generalize (if after.data ≤ after.stop then after.stop - after.data
      else after.size - after.data + after.stop) = stored at *
    split <;> omega
  rw [hv.content_eq, hstored, ← ho.content, ho.valid.content_eq]
  exact segment_overwrite hdata hbehind (by omega) (by omega)

/-- Without a gap, both pointers end up equal. -/
theorem Offers.content_put_full (ho : Offers buffer after block)
    (hfit : (bytes.length : Int) ≤ block.size)
    (hgap : ¬ (after.data = 0 ∨ after.stored + bytes.length < after.size)) :
    (after.put block.data bytes).content = [] := by
  have hin := ho.inside
  have hroom := ho.room
  have hbehind := ho.behind
  unfold Span.size at hfit
  have hstop : block.data + bytes.length = after.data := by omega
  unfold NetworkBuffer.content NetworkBuffer.put
  dsimp only
  rw [hstop, if_pos (Nat.le_refl _), Nat.sub_self, List.take_zero]

end

theorem getContinuousBlock_of_ne (h : buffer.stop ≠ buffer.data) :
    (getContinuousBlock buffer).1 = buffer := by
  unfold getContinuousBlock
  rw [if_neg h]
  split
  · rfl
  · split <;> rfl

/-- The gap, at the pointers that `get_continuous_block` leaves. -/
theorem leavesGap_iff : LeavesGap buffer bytes ↔ (getContinuousBlock buffer).1.data = 0 ∨
    (getContinuousBlock buffer).1.stored + bytes.length < (getContinuousBlock buffer).1.size := by
  by_cases hempty : buffer.stop = buffer.data
  · have hreset : (getContinuousBlock buffer).1.data = 0 := by
      unfold getContinuousBlock
      rw [if_pos hempty]
    exact iff_of_true (.inl hempty) (.inl hreset)
  · rw [getContinuousBlock_of_ne hempty]
    exact or_iff_right hempty

theorem receiveBlock_valid (hv : buffer.Valid)
    (hfit : (bytes.length : Int) ≤ (getContinuousBlock buffer).2.size) :
    (receiveBlock buffer bytes).Valid :=
  (getContinuousBlock_offers hv).valid_put hfit

/-- **With a gap, what is received is behind what was stored; without, all of it is lost.** -/
theorem content_receiveBlock (hv : buffer.Valid) (hpos : bytes ≠ [])
    (hfit : (bytes.length : Int) ≤ (getContinuousBlock buffer).2.size) :
    (receiveBlock buffer bytes).content = buffer.content ++ bytes ↔ LeavesGap buffer bytes := by
  have ho := getContinuousBlock_offers hv
  rw [leavesGap_iff, receiveBlock_eq]
  constructor
  · intro hc
    by_contra hgap
    rw [ho.content_put_full hfit hgap] at hc
    exact hpos (List.append_eq_nil_iff.mp hc.symm).2
  · exact ho.content_put hpos hfit

/-! ## The states of the reader -/

theorem skipStretch_bounds : ∀ {bytes : Bytes} {st : SkipState} {pos data : Nat},
    skipStretch st pos bytes = .inr data → pos < data ∧ data ≤ pos + bytes.length
  | [], _, _, _, h => by cases h
  | c :: rest, st, pos, data, h => by
    unfold skipStretch at h
    rw [List.length_cons]
    split at h
    · have := skipStretch_bounds h
      omega
    · cases h
      omega

/-- Where a node ends, before the border or behind it. -/
structure SkippedTo (buffer : NetworkBuffer) (skipped : Skipped) : Prop where
  inside : skipped.data ≤ buffer.size
  before : skipped.passed = false → buffer.data < skipped.data ∧
    (buffer.data ≤ buffer.stop → skipped.data ≤ buffer.stop)
  behind : skipped.passed = true → buffer.stop < buffer.data ∧ 0 < skipped.data ∧
    (buffer.stop ≠ 0 → skipped.data ≤ buffer.stop)

theorem xmlfsmSkipNodeRing_spec {skipped : Skipped} (hv : buffer.Valid)
    (h : xmlfsmSkipNodeRing buffer = some (some skipped)) : SkippedTo buffer skipped := by
  have hdata : buffer.data ≤ buffer.mem.length := hv.data
  have hstop : buffer.stop ≤ buffer.mem.length := hv.stop
  have hsize : buffer.size = buffer.mem.length := rfl
  unfold xmlfsmSkipNodeRing at h
  split at h
  · next hle =>
    split at h
    · next data hskip =>
      have hb := skipStretch_bounds hskip
      rw [List.length_take, List.length_drop] at hb
      cases h
      exact ⟨by show data ≤ _; omega, fun _ => ⟨hb.1, fun _ => by show data ≤ _; omega⟩,
        Bool.noConfusion⟩
    · cases h
  · next hlt =>
    split at h
    · next data hskip =>
      have hb := skipStretch_bounds hskip
      rw [List.length_drop] at hb
      cases h
      exact ⟨by show data ≤ _; omega, fun _ => ⟨hb.1, fun hle => absurd hle hlt⟩,
        Bool.noConfusion⟩
    · split at h
      · next hzero =>
        split at h
        · cases h
        · split at h
          · next data hskip =>
            have hb := skipStretch_bounds hskip
            cases h
            exact ⟨by show data ≤ _; omega, Bool.noConfusion,
              fun _ => ⟨by omega, hb.1, fun hne => absurd hzero hne⟩⟩
          · cases h
      · split at h
        · next data hskip =>
          have hb := skipStretch_bounds hskip
          rw [List.length_take] at hb
          cases h
          exact ⟨by show data ≤ _; omega, Bool.noConfusion,
            fun _ => ⟨by omega, hb.1, fun _ => by show data ≤ _; omega⟩⟩
        · cases h

theorem readStanzas_valid {alloc : Allocator} {fixed : Int} :
    ∀ {n : Nat} {free : Nat → StanzaEntry} {buffer after : NetworkBuffer}
      {pushed : List StanzaEntry}, buffer.Valid →
      readStanzas alloc fixed n free buffer = some (pushed, after) → after.Valid
  | 0, _, _, _, _, _, h => by cases h
  | n + 1, free, buffer, after, pushed, hv, h => by
    unfold readStanzas at h
    split at h
    · cases h
    · cases h
      exact hv
    · next skipped hskip =>
      split at h
      · cases h
      · split at h
        · cases h
        · next pushed' after' hread =>
          cases h
          have hs := xmlfsmSkipNodeRing_spec hv hskip
          have hv' : NetworkBuffer.Valid { buffer with data := skipped.data } :=
            ⟨hs.inside, hv.stop, hv.size⟩
          exact readStanzas_valid hv' hread

theorem cInt_isInt (v : Int) : IsInt (cInt v) := by
  have h1 := @Int.bmod_lt v (2 ^ 32) (by decide)
  have h2 := @Int.le_bmod v (2 ^ 32) (by decide)
  exact ⟨by unfold cInt; omega, by unfold cInt; omega⟩

/-- An `int` result that has not become negative is the right one. -/
theorem cInt_of_nonneg {v : Int} (hv : 0 ≤ v) (hlt : v < 2 ^ 32) (h : 0 ≤ cInt v) : cInt v = v := by
  unfold cInt Int.bmod at *
  dsimp only at *
  split at h <;> split <;> omega

theorem dataSize_isInt (hv : buffer.Valid) : IsInt buffer.dataSize := by
  have hsize := hv.size
  have hstop := hv.stop
  unfold NetworkBuffer.dataSize
  split
  · exact ⟨by omega, by omega⟩
  · exact cInt_isInt _

/-- The stored bytes fit into the new block. -/
theorem stored_le_dataSize (hv : buffer.Valid) (h : 0 ≤ buffer.dataSize) :
    (buffer.stored : Int) ≤ buffer.dataSize := by
  have hdata := hv.data
  have hsize := hv.size
  unfold NetworkBuffer.dataSize at h ⊢
  by_cases hgt : buffer.stop > buffer.data
  · rw [if_pos hgt, NetworkBuffer.stored_of_le (by omega)]
    omega
  · rw [if_neg hgt] at h ⊢
    rw [cInt_of_nonneg (by omega) (by omega) h]
    by_cases heq : buffer.stop = buffer.data
    · rw [NetworkBuffer.stored_of_le (by omega)]
      omega
    · rw [NetworkBuffer.stored_of_lt (by omega)]
      omega

theorem length_moved (hv : buffer.Valid) {block : Bytes} (h : buffer.stored ≤ block.length) :
    (buffer.moved block).length = block.length := by
  have hdata : buffer.data ≤ buffer.mem.length := hv.data
  have hstop : buffer.stop ≤ buffer.mem.length := hv.stop
  have hsize : buffer.size = buffer.mem.length := rfl
  unfold NetworkBuffer.moved
  split
  · rfl
  · split
    · next hgt =>
      rw [NetworkBuffer.stored_of_lt hgt] at h
      have hfirst : (memcpy block 0 (buffer.mem.drop buffer.data)).length = block.length :=
        length_memcpy (by rw [List.length_drop]; omega)
      rw [length_memcpy (by rw [List.length_take, hfirst]; omega), hfirst]
    · next hle =>
      rw [NetworkBuffer.stored_of_le (by omega)] at h
      exact length_memcpy (by rw [List.length_take, List.length_drop]; omega)

theorem reallocRingBuffer_valid (hv : buffer.Valid) {newSize : Int} (hnew : IsInt newSize)
    {block : Option Bytes} {after : NetworkBuffer}
    (h : reallocRingBuffer buffer newSize block = some after) : after.Valid := by
  have hmax : ∀ size, (if newSize < buffer.dataSize then buffer.dataSize else newSize) = size →
      buffer.dataSize ≤ size ∧ size < 2 ^ 31 := by
    rintro size rfl
    split
    · exact ⟨Int.le_refl _, (dataSize_isInt hv).2⟩
    · exact ⟨by omega, hnew.2⟩
  unfold reallocRingBuffer at h
  dsimp only at h
  generalize (if newSize < buffer.dataSize then buffer.dataSize else newSize) = size at h hmax
  cases block with
  | none =>
    cases h
    exact hv
  | some block =>
    dsimp only at h
    split at h
    · cases h
    · next hfit =>
      rw [not_or, not_not, Int.not_lt] at hfit
      obtain ⟨hnonneg, hlen⟩ := hfit
      have hmax := hmax size rfl
      have hmoved : (buffer.moved block).length = block.length := by
        have := stored_le_dataSize hv hnonneg
        exact length_moved hv (by omega)
      cases h
      refine ⟨Nat.zero_le _, ?_, ?_⟩
      · show buffer.dataSize.toNat ≤ (buffer.moved block).length
        omega
      · show (buffer.moved block).length < 2 ^ 31
        omega

/-- The desired size is always an `int`. -/
def ReaderEvent.InRange (_ : Reader) : ReaderEvent → Prop
  | .configure networkBufferSize => IsInt networkBufferSize
  | _ => True

/-- The pointers of the reader are inside its buffer, and sizes are `int`s. -/
structure Reader.Valid (reader : Reader) : Prop where
  buffer : reader.buffer.Valid
  networkBufferSize : IsInt reader.networkBufferSize

theorem Reader.Valid.step {alloc : Allocator} {reader after : Reader} {event : ReaderEvent}
    {pushed : List StanzaEntry} (h : reader.Valid) (hin : event.InRange reader)
    (hs : readerStep alloc reader event = some (after, pushed)) : after.Valid := by
  cases event with
  | configure networkBufferSize =>
    cases hs
    exact ⟨h.buffer, hin⟩
  | resize block =>
    unfold readerStep at hs
    dsimp only at hs
    split at hs
    · cases hs
    · split at hs
      · cases hs
        exact ⟨h.buffer, h.networkBufferSize⟩
      · split at hs
        · cases hs
        · next hr =>
          cases hs
          exact ⟨reallocRingBuffer_valid h.buffer h.networkBufferSize hr, h.networkBufferSize⟩
  | parse fixed free =>
    unfold readerStep at hs
    dsimp only at hs
    split at hs
    · cases hs
    · split at hs
      · cases hs
      · next hr =>
        cases hs
        exact ⟨readStanzas_valid h.buffer hr, h.networkBufferSize⟩
  | receive bytes =>
    unfold readerStep at hs
    dsimp only at hs
    split at hs
    · cases hs
    · split at hs
      · split at hs <;> cases hs
        · exact ⟨(getContinuousBlock_offers h.buffer).valid, show IsInt (2 ^ 20) by decide⟩
        · exact ⟨h.buffer, h.networkBufferSize⟩
      · split at hs
        · cases hs
          exact ⟨h.buffer, h.networkBufferSize⟩
        · split at hs
          · next hfit =>
            cases hs
            exact ⟨receiveBlock_valid h.buffer hfit, h.networkBufferSize⟩
          · cases hs

/-! ## No received byte is lost -/

/-- What a block of received bytes should do to the stored ones. -/
structure Received (buffer : NetworkBuffer) (bytes : Bytes) : Prop where
  apart : ∀ pos, (getContinuousBlock buffer).2.data ≤ pos →
    pos < (getContinuousBlock buffer).2.stop → ¬ buffer.Stores pos
  content : (receiveBlock buffer bytes).content = buffer.content ++ bytes

/--
**What is received is kept**, in every state that the reader can reach and for every number of
bytes up to the size of the block, if and only if the bytes do not fill the buffer around its end.
-/
theorem received_kept_iff {alloc : Allocator} {mem : Bytes} (hmem : mem.length < 2 ^ 31)
    {reader : Reader} (h : Reach (readerStep alloc) ReaderEvent.InRange (readerStart mem) reader)
    (hpos : bytes ≠ [])
    (hfit : (bytes.length : Int) ≤ (getContinuousBlock reader.buffer).2.size) :
    Received reader.buffer bytes ↔ LeavesGap reader.buffer bytes := by
  have hsize : IsInt mem.length := ⟨by omega, by omega⟩
  have hstart : (readerStart mem).Valid := ⟨⟨Nat.zero_le _, Nat.zero_le _, hmem⟩, hsize⟩
  have hv := h.invariant hstart (fun _ _ _ _ hi hin hs => hi.step hin hs)
  have ho := getContinuousBlock_offers hv.buffer
  have hc := content_receiveBlock hv.buffer hpos hfit
  exact ⟨fun hr => hc.mp hr.content, fun hg => ⟨ho.apart, hc.mpr hg⟩⟩

theorem bptSize_null : (bptSize none : Int) = 0 := by
  rw [bptSize_none]
  rfl

/-- An entry as `queue_init` leaves it. -/
def freshEntry : StanzaEntry where
  buffer := none
  dataSize := 0
  bufferSize := 0
  sized := bptSize_null

/-- Memory that keeps what fits and is zero elsewhere. -/
def zeroedMemory : Allocator := fun old size =>
  some ⟨(bptBytes old ++ List.replicate size 0).take size, by
    rw [List.length_take, List.length_append, List.length_replicate]
    omega⟩

/-- A buffer of six bytes receives a stanza and the first two bytes of another. -/
def fillingRun : List ReaderEvent :=
  [.resize none, .parse 0 (fun _ => freshEntry), .receive (some (lit "<a/><b")), .resize none,
    .parse 0 (fun _ => freshEntry)]

/-- The reader with the two bytes at the end of its buffer. -/
def filledReader : Reader where
  buffer := { mem := lit "<a/><b", data := 4, stop := 6 }
  networkBufferSize := 6
  phase := .receiving

theorem filledReader_reach :
    Reach (readerStep zeroedMemory) ReaderEvent.InRange (readerStart (List.replicate 6 0))
      filledReader := by
  have hrun : run (readerStep zeroedMemory) (readerStart (List.replicate 6 0)) fillingRun
      = some filledReader := by decide +kernel
  refine Reach.run .start (fun _ e he => ?_) hrun
  simp only [fillingRun, List.mem_cons, List.not_mem_nil, or_false] at he
  rcases he with rfl | rfl | rfl | rfl | rfl <;> trivial

/-- The rest of the second stanza and the start of a third one: all four are lost. -/
theorem filled_buffer_lost :
    ¬ ∀ (alloc : Allocator) (mem : Bytes) (reader : Reader) (bytes : Bytes),
      mem.length < 2 ^ 31 →
      Reach (readerStep alloc) ReaderEvent.InRange (readerStart mem) reader → bytes ≠ [] →
      (bytes.length : Int) ≤ (getContinuousBlock reader.buffer).2.size →
      Received reader.buffer bytes := by
  intro h
  have hr := h zeroedMemory (List.replicate 6 0) filledReader (lit "/><c") (by decide)
    filledReader_reach (by decide) (by decide)
  have hlost : (receiveBlock filledReader.buffer (lit "/><c")).content
      ≠ filledReader.buffer.content ++ lit "/><c" := by decide
  exact hlost hr.content

/-- The result where one byte less arrives. -/
theorem received_kept_iff_gap : Received filledReader.buffer (lit "/><") :=
  (received_kept_iff (by decide) filledReader_reach (by decide) (by decide)).mpr
    (.inr (.inr (by decide)))

end Mukite
