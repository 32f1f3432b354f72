import Mukite.Xmcomp.Writer
import Mukite.Properties.Fifo

/-!
# A failed send and the output ring buffer

A sound buffer is one of the valid buffers of `Fifo`, so segments and chunks keep it sound. What
is left is the release of an error: `Sound.release_error` says when the buffer is sound after it,
and `writer_sound` puts the two together over all the runs.
-/

namespace Mukite

open Machine

/-- The buffer as the writer thread sees it. -/
def RingBuffer.raw (ringbuffer : RingBuffer) : RawRing where
  mem := ringbuffer.mem
  readPosition := ringbuffer.readPosition
  dataSize := ringbuffer.dataSize
  writePosition := ringbuffer.writePosition

namespace RawRing

variable {ring : RawRing} {ringbuffer : RingBuffer} {buffer : Bytes}

/-- Both positions lie inside of the buffer, and the data ends at the write position. -/
structure Sound (ring : RawRing) : Prop where
  nonneg : 0 ≤ ring.dataSize
  le : ring.dataSize ≤ ring.bufferSize
  start : 0 ≤ ring.readPosition
  read : ring.readPosition < ring.bufferSize
  inside : 0 ≤ ring.writePosition ∧ ring.writePosition < ring.bufferSize
  write : ring.writePosition = (ring.readPosition + ring.dataSize) % ring.bufferSize

/-! ## The valid buffers -/

theorem sound_raw (h : ringbuffer.Valid) : ringbuffer.raw.Sound where
  nonneg := h.nonneg
  le := h.le
  start := Int.natCast_nonneg _
  read := Int.ofNat_lt.mpr h.read
  inside := ⟨Int.natCast_nonneg _, Int.ofNat_lt.mpr h.write_lt⟩
  write := h.write

theorem Sound.valid (h : ring.Sound) :
    ∃ ringbuffer : RingBuffer, ring = ringbuffer.raw ∧ ringbuffer.Valid := by
  obtain ⟨mem, readPosition, dataSize, writePosition⟩ := ring
  obtain ⟨n, rfl⟩ := Int.eq_ofNat_of_zero_le h.start
  obtain ⟨m, rfl⟩ := Int.eq_ofNat_of_zero_le h.inside.1
  exact ⟨⟨mem, n, dataSize, m⟩, rfl, h.nonneg, h.le, Int.ofNat_lt.mp h.read, h.write⟩

theorem rawBlockSize_raw (ringbuffer : RingBuffer) :
    rawBlockSize ringbuffer.raw = continuousBlockSize ringbuffer := by
  simp [rawBlockSize, continuousBlockSize, RingBuffer.raw, RawRing.bufferSize,
    RingBuffer.bufferSize]

theorem rawWriteSize_raw (ringbuffer : RingBuffer) (buffer : Bytes) :
    rawWriteSize ringbuffer.raw buffer = writeSize ringbuffer buffer := by
  simp [rawWriteSize, writeSize, rawBlockSize_raw]

theorem rawGetChunk_raw (ringbuffer : RingBuffer) :
    rawGetChunk ringbuffer.raw = ringbufferGetChunk ringbuffer := rfl

theorem cycle_raw (ringbuffer : RingBuffer) (position : Nat) :
    ringbuffer.raw.cycle position = ringbuffer.cycle position := by
  have hsize : ringbuffer.raw.bufferSize = ringbuffer.bufferSize := rfl
  unfold RawRing.cycle RingBuffer.cycle
  rw [hsize]
  split <;> split <;> omega

theorem rawCopy_raw (h : ringbuffer.Valid) (buffer : Bytes) :
    rawCopy ringbuffer.raw buffer = (ringbufferCopy ringbuffer buffer).raw := by
  obtain ⟨hpos, -⟩ := h.writeSize_le buffer
  have hcycle := cycle_raw ringbuffer
    (ringbuffer.writePosition + (writeSize ringbuffer buffer).toNat)
  rw [Int.natCast_add, Int.toNat_of_nonneg hpos] at hcycle
  unfold rawCopy
  rw [rawWriteSize_raw]
  exact congrArg (RawRing.mk _ _ _) hcycle

theorem rawReleaseChunk_raw (ringbuffer : RingBuffer) (n : Nat) :
    rawReleaseChunk ringbuffer.raw n = (ringbufferReleaseChunk ringbuffer n).raw := by
  have hcycle := cycle_raw ringbuffer (ringbuffer.readPosition + n)
  rw [Int.natCast_add] at hcycle
  exact congrArg (RawRing.mk _ · _ _) hcycle

/-! ## What the threads do -/

/-- What is left of soundness after any release: nothing is behind the end. -/
structure Bounded (ring : RawRing) : Prop where
  read : ring.readPosition < ring.bufferSize
  inside : 0 ≤ ring.writePosition ∧ ring.writePosition < ring.bufferSize

theorem Sound.bounded (h : ring.Sound) : ring.Bounded := ⟨h.read, h.inside⟩

theorem Bounded.block (h : ring.Bounded) :
    0 ≤ rawBlockSize ring ∧ ring.writePosition + rawBlockSize ring ≤ ring.bufferSize := by
  have hread := h.read
  have hwrite := h.inside
  unfold rawBlockSize
  split <;> omega

theorem Bounded.writeSize_le (h : ring.Bounded) (buffer : Bytes) :
    0 ≤ rawWriteSize ring buffer ∧ rawWriteSize ring buffer ≤ buffer.length ∧
      rawWriteSize ring buffer ≤ rawBlockSize ring := by
  have hblock := h.block
  unfold rawWriteSize
  split <;> omega

/-- No segment is copied out of the buffer. -/
theorem Bounded.copy (h : ring.Bounded) (buffer : Bytes) :
    (rawCopy ring buffer).Bounded ∧ (rawCopy ring buffer).bufferSize = ring.bufferSize := by
  obtain ⟨hpos, hlen, hle⟩ := h.writeSize_le buffer
  obtain ⟨-, hfit⟩ := h.block
  obtain ⟨hin, -⟩ := h.inside
  have hmem : (ring.mem.length : Int) = ring.bufferSize := rfl
  have hsize : (rawCopy ring buffer).bufferSize = ring.bufferSize := by
    refine Circle.length_overwrite ?_
    rw [List.length_take]
    omega
  refine ⟨⟨?_, ?_⟩, hsize⟩
  · rw [hsize]
    exact h.read
  · rw [hsize]
    show 0 ≤ ring.cycle (ring.writePosition + rawWriteSize ring buffer) ∧
      ring.cycle (ring.writePosition + rawWriteSize ring buffer) < ring.bufferSize
    have hread := h.inside
    unfold RawRing.cycle
    split <;> omega

/-- The same holds of a release that does not run past the end. -/
theorem Bounded.release {size : Int} (h : ring.Bounded)
    (hend : ring.readPosition + size ≤ ring.bufferSize) : (rawReleaseChunk ring size).Bounded where
  read := by
    show ring.cycle (ring.readPosition + size) < ring.bufferSize
    have hwrite := h.inside
    unfold RawRing.cycle
    split <;> omega
  inside := h.inside

theorem Sound.copy (h : ring.Sound) (buffer : Bytes) :
    (rawCopy ring buffer).Sound ∧ (rawCopy ring buffer).bufferSize = ring.bufferSize ∧
      ring.dataSize ≤ (rawCopy ring buffer).dataSize := by
  obtain ⟨ringbuffer, rfl, hv⟩ := h.valid
  obtain ⟨hcopy, hsize, -⟩ := hv.copy buffer
  obtain ⟨hpos, -⟩ := hv.writeSize_le buffer
  rw [rawCopy_raw hv]
  refine ⟨sound_raw hcopy, hsize, ?_⟩
  show ringbuffer.dataSize ≤ ringbuffer.dataSize + _
  omega

/-- A chunk that may be released: it runs neither past the data nor past the end. -/
def Offers (ring : RawRing) (chunk : Int) : Prop :=
  0 < chunk ∧ chunk ≤ ring.dataSize ∧ ring.readPosition + chunk ≤ ring.bufferSize

theorem Sound.chunk (h : ring.Sound) (hdata : ring.dataSize ≠ 0) :
    ring.Offers (rawGetChunk ring) := by
  obtain ⟨ringbuffer, rfl, hv⟩ := h.valid
  exact hv.chunk hdata

theorem Offers.copy {chunk : Int} (h : ring.Offers chunk) (hs : ring.Sound) (buffer : Bytes) :
    (rawCopy ring buffer).Offers chunk := by
  obtain ⟨hpos, hle, hend⟩ := h
  obtain ⟨-, hsize, hdata⟩ := hs.copy buffer
  refine ⟨hpos, by omega, ?_⟩
  rw [hsize]
  exact hend

theorem Sound.release {n : Nat} {chunk : Int} (h : ring.Sound) (hc : ring.Offers chunk)
    (hn : n ≤ chunk) : (rawReleaseChunk ring n).Sound := by
  obtain ⟨ringbuffer, rfl, hv⟩ := h.valid
  obtain ⟨-, hdata, hend⟩ := hc
  rw [rawReleaseChunk_raw]
  have hle : (n : Int) ≤ ringbuffer.dataSize := Int.le_trans hn hdata
  have hin : (ringbuffer.readPosition : Int) + n ≤ ringbuffer.bufferSize :=
    Int.le_trans (Int.add_le_add_left hn _) hend
  exact sound_raw (hv.release hle (by omega)).1

/--
**An error takes one byte back.** That leaves a sound buffer if there is a byte before the read
position that is not stored.
-/
theorem Sound.release_error (h : ring.Sound) :
    (rawReleaseChunk ring (-1)).Sound ↔
      0 < ring.readPosition ∧ ring.dataSize < ring.bufferSize := by
  have hread := h.read
  have hnonneg := h.nonneg
  have hback : ring.cycle (ring.readPosition + -1) = ring.readPosition - 1 :=
    if_neg (by omega)
  constructor
  · intro hs
    have hstart : 0 ≤ ring.cycle (ring.readPosition + -1) := hs.start
    have hle : ring.dataSize - -1 ≤ ring.bufferSize := hs.le
    omega
  · intro hroom
    refine ⟨?_, ?_, ?_, ?_, h.inside, ?_⟩
    · show 0 ≤ ring.dataSize - -1
      omega
    · show ring.dataSize - -1 ≤ ring.bufferSize
      omega
    · show 0 ≤ ring.cycle (ring.readPosition + -1)
      omega
    · show ring.cycle (ring.readPosition + -1) < ring.bufferSize
      omega
    · show ring.writePosition
        = (ring.cycle (ring.readPosition + -1) + (ring.dataSize - -1)) % ring.bufferSize
      have hsum : ring.readPosition - 1 + (ring.dataSize - -1)
          = ring.readPosition + ring.dataSize := by omega
      rw [hback, hsum, h.write]

theorem sound_clear (hsize : 0 < ring.bufferSize) : (rawClear ring).Sound where
  nonneg := Int.le_refl 0
  le := Int.natCast_nonneg _
  start := Int.le_refl 0
  read := Int.ofNat_lt.mpr hsize
  inside := ⟨Int.le_refl 0, Int.ofNat_lt.mpr hsize⟩
  write := by
    show (0 : Int) = (0 + 0) % _
    rw [Int.add_zero, Int.zero_emod]

end RawRing

/-! ## Runs -/

/-- Only a thread that runs has offered a chunk, and what it has offered is there. -/
def Writer.Sending (s : Writer) : Prop :=
  ∀ chunk ∈ s.offered, s.enabled = true ∧ s.ring.Offers chunk

/-- An error that the release turns into a buffer still sound. -/
def HarmlessResult (ring : RawRing) (result : Int) : Prop :=
  0 ≤ result ∨ (0 < ring.readPosition ∧ ring.dataSize < ring.bufferSize)

theorem RawRing.Sound.result {ring : RawRing} {chunk result : Int} (h : ring.Sound)
    (hc : ring.Offers chunk) (hlow : -1 ≤ result) (hhigh : result ≤ chunk) :
    (rawReleaseChunk ring result).Sound ↔ HarmlessResult ring result := by
  by_cases hneg : result < 0
  · obtain rfl : result = -1 := by omega
    rw [h.release_error]
    exact (or_iff_right (by decide)).symm
  · obtain ⟨n, rfl⟩ := Int.eq_ofNat_of_zero_le (Int.not_lt.mp hneg)
    exact iff_of_true (h.release hc hhigh) (.inl (Int.natCast_nonneg n))

/-- What every step keeps, whatever `net_send` returns: a running thread has a sound buffer. -/
structure Writer.Kept (size : Nat) (s : Writer) : Prop where
  bufferSize : s.ring.bufferSize = size
  bounded : s.ring.Bounded
  sound : s.enabled = true → s.ring.Sound
  sending : s.Sending

theorem writer_kept_start {mem : Bytes} (h : 1 ≤ mem.length) :
    (writerStart mem).Kept mem.length := by
  have hsound : (writerStart mem).ring.Sound := @RawRing.sound_clear (writerStart mem).ring h
  exact ⟨rfl, hsound.bounded, fun _ => hsound, by simp [Writer.Sending, writerStart]⟩

/-- What a step can do, with its guards. -/
theorem writerStep_cases {s s' : Writer} {e : WriterEvent} {o : Unit}
    (h : writerStep s e = some (s', o)) :
    (∃ buffer, e = .write buffer ∧ s' = { s with ring := rawCopy s.ring buffer }) ∨
      (e = .getChunk ∧ s.enabled = true ∧ s.ring.dataSize ≠ 0 ∧
        s' = { s with offered := some (rawGetChunk s.ring) }) ∨
      (∃ result connected chunk, e = .sent result connected ∧ s.offered = some chunk ∧
        -1 ≤ result ∧ result ≤ chunk ∧
        s' = ⟨rawReleaseChunk s.ring result, none, !(result < 0 || !connected)⟩) ∨
      (e = .reconnect ∧ s' = ⟨rawClear s.ring, none, true⟩) := by
  cases e with
  | write buffer =>
    simp only [writerStep] at h
    split at h
    · cases h
    · cases h
      exact .inl ⟨buffer, rfl, rfl⟩
  | getChunk =>
    simp only [writerStep] at h
    split at h
    · cases h
    · next hno =>
      cases h
      simp only [not_or, Bool.not_eq_false] at hno
      exact .inr (.inl ⟨rfl, hno.1, hno.2.2, rfl⟩)
  | sent result connected =>
    simp only [writerStep] at h
    split at h
    · cases h
    · next chunk hoffered =>
      split at h
      · next hres =>
        cases h
        exact .inr (.inr (.inl ⟨result, connected, chunk, rfl, hoffered, hres.1, hres.2, rfl⟩))
      · cases h
  | reconnect =>
    simp only [writerStep] at h
    split at h
    · cases h
      exact .inr (.inr (.inr ⟨rfl, rfl⟩))
    · cases h

theorem Writer.Kept.step {size : Nat} (hsize : 1 ≤ size) {s s' : Writer} {e : WriterEvent}
    {o : Unit} (h : s.Kept size) (hs : writerStep s e = some (s', o)) : s'.Kept size := by
  rcases writerStep_cases hs with ⟨buffer, -, rfl⟩ | ⟨-, hrun, hdata, rfl⟩ |
    ⟨result, connected, chunk, -, hoffered, hlow, hhigh, rfl⟩ | ⟨-, rfl⟩
  · obtain ⟨hbounded, hlen⟩ := h.bounded.copy buffer
    refine ⟨hlen.trans h.bufferSize, hbounded, ?_, ?_⟩
    · intro hrun
      exact ((h.sound hrun).copy buffer).1
    · intro chunk hc
      obtain ⟨hrun, hoffers⟩ := h.sending chunk hc
      exact ⟨hrun, hoffers.copy (h.sound hrun) buffer⟩
  · refine ⟨h.bufferSize, h.bounded, h.sound, ?_⟩
    intro chunk hc
    cases hc
    exact ⟨hrun, (h.sound hrun).chunk hdata⟩
  · obtain ⟨hrun, hoffers⟩ := h.sending chunk hoffered
    have hend := hoffers.2.2
    refine ⟨h.bufferSize, h.bounded.release (by omega), ?_, ?_⟩
    · -- the thread goes on only after a send that has not failed
      intro hgoes
      refine ((h.sound hrun).result hoffers hlow hhigh).mpr (.inl ?_)
      by_contra hneg
      have hstop : decide (result < 0) = true := decide_eq_true (Int.not_le.mp hneg)
      simp [hstop] at hgoes
    · simp [Writer.Sending]
  · have hpos : 0 < s.ring.bufferSize := by
      have := h.bufferSize
      omega
    have hsound := RawRing.sound_clear hpos
    exact ⟨h.bufferSize, hsound.bounded, fun _ => hsound, by simp [Writer.Sending]⟩

theorem writer_kept {mem : Bytes} (hmem : 1 ≤ mem.length) {ok : Writer → WriterEvent → Prop}
    {s : Writer} (h : Reach writerStep ok (writerStart mem) s) : s.Kept mem.length :=
  h.invariant (writer_kept_start hmem) (fun _ _ _ _ hi _ hs => hi.step hmem hs)

/-- The results of `net_send` that the release turns into a sound buffer. -/
def HarmlessEvent (s : Writer) (e : WriterEvent) : Prop :=
  ∀ result connected, e = .sent result connected → HarmlessResult s.ring result

theorem RawRing.Sound.step {size : Nat} (hsize : 1 ≤ size) {s s' : Writer} {e : WriterEvent}
    {o : Unit} (hk : s.Kept size) (h : s.ring.Sound) (he : HarmlessEvent s e)
    (hs : writerStep s e = some (s', o)) : s'.ring.Sound := by
  rcases writerStep_cases hs with ⟨buffer, -, rfl⟩ | ⟨-, -, -, rfl⟩ |
    ⟨result, connected, chunk, rfl, hoffered, hlow, hhigh, rfl⟩ | ⟨-, rfl⟩
  · exact (h.copy buffer).1
  · exact h
  · obtain ⟨-, hoffers⟩ := hk.sending chunk hoffered
    exact (h.result hoffers hlow hhigh).mpr (he result connected rfl)
  · refine RawRing.sound_clear ?_
    have := hk.bufferSize
    omega

/-- A worker writes, whatever the writer thread does. -/
def IsWrite (_ : Writer) (e : WriterEvent) : Prop := ∃ buffer, e = .write buffer

/--
**When a send leaves the output ring buffer sound.** In every run in which each result of
`net_send` is harmless, the buffer is sound in every state and every block has a size that is not
negative. And in whatever state of any run `net_send` returns, the iteration leaves a sound
buffer, in which later segments never see a negative size, if and only if the result is harmless:
no error, or an error while the read position is not at the start and the buffer is not full.
-/
theorem writer_sound {mem : Bytes} (hmem : 1 ≤ mem.length) :
    (∀ s, Reach writerStep HarmlessEvent (writerStart mem) s →
      s.ring.Sound ∧ 0 ≤ rawBlockSize s.ring) ∧
    ∀ s s' result connected, Reach writerStep (fun _ _ => True) (writerStart mem) s →
      writerStep s (.sent result connected) = some (s', ()) →
      ((s'.ring.Sound ∧ ∀ s'', Reach writerStep IsWrite s' s'' → 0 ≤ rawBlockSize s''.ring) ↔
        0 ≤ result ∨ (0 < s.ring.readPosition ∧ s.ring.dataSize < s.ring.bufferSize)) := by
  constructor
  · intro s h
    have hstart : (writerStart mem).ring.Sound := (writer_kept_start hmem).sound rfl
    have hsound : s.ring.Sound :=
      h.invariant_of (I := fun s => s.ring.Sound) (fun _ hr => writer_kept hmem hr) hstart
        (fun _ _ _ _ hk hi he hs => hi.step hmem hk he hs)
    exact ⟨hsound, hsound.bounded.block.1⟩
  · intro s s' result connected h hs
    have hk := writer_kept hmem h
    have hk' := hk.step hmem hs
    have hblock : ∀ s'', Reach writerStep IsWrite s' s'' → 0 ≤ rawBlockSize s''.ring := by
      intro s'' hw
      have hk'' : s''.Kept mem.length :=
        hw.invariant hk' (fun _ _ _ _ hi _ hstep => hi.step hmem hstep)
      exact hk''.bounded.block.1
    rw [and_iff_left hblock]
    rcases writerStep_cases hs with ⟨_, he, -⟩ | ⟨he, -⟩ |
      ⟨_, _, chunk, he, hoffered, hlow, hhigh, rfl⟩ | ⟨he, -⟩
    · cases he
    · cases he
    · cases he
      obtain ⟨hrun, hoffers⟩ := hk.sending chunk hoffered
      exact (hk.sound hrun).result hoffers hlow hhigh
    · cases he

/-- The first byte of the connection is offered, and `net_send` fails. -/
def firstByteSent : Writer where
  ring := { mem := [60, 0], readPosition := 0, dataSize := 1, writePosition := 1 }
  offered := some 1
  enabled := true

theorem firstByteSent_reached :
    Reach writerStep HarmlessEvent (writerStart [0, 0]) firstByteSent := by
  have hwrite : writerStep (writerStart [0, 0]) (.write [60])
      = some ({ firstByteSent with offered := none }, ()) := rfl
  have hchunk : writerStep { firstByteSent with offered := none } .getChunk
      = some (firstByteSent, ()) := rfl
  have hstart : Reach writerStep HarmlessEvent (writerStart [0, 0]) (writerStart [0, 0]) := .start
  have hharmless : ∀ s e, (∀ result connected, e ≠ .sent result connected) →
      HarmlessEvent s e := fun s e h result connected he => absurd he (h result connected)
  exact (hstart.next (hharmless _ _ (by simp)) hwrite).next (hharmless _ _ (by simp)) hchunk

theorem writer_sound_firstByteSent :
    0 ≤ rawBlockSize firstByteSent.ring ∧ (rawReleaseChunk firstByteSent.ring 1).Sound := by
  have hmem : 1 ≤ ([0, 0] : Bytes).length := by decide
  obtain ⟨hall, hone⟩ := writer_sound hmem
  have hr := firstByteSent_reached
  have hone := hone firstByteSent ⟨rawReleaseChunk firstByteSent.ring 1, none, true⟩ 1 true
    (hr.mono fun _ _ _ => trivial) rfl
  exact ⟨(hall _ hr).2, (hone.mpr (.inl (by decide))).1⟩

/-- The read position ends up before the buffer. -/
theorem firstByteSent_unsound : ∃ s', Reach writerStep (fun _ _ => True) (writerStart [0, 0])
    firstByteSent ∧ writerStep firstByteSent (.sent (-1) true) = some (s', ()) ∧
    s'.ring.readPosition = -1 ∧ ¬ s'.ring.Sound := by
  refine ⟨_, firstByteSent_reached.mono fun _ _ _ => trivial, rfl, rfl, ?_⟩
  intro hsound
  have hstart := hsound.start
  revert hstart
  decide

end Mukite
