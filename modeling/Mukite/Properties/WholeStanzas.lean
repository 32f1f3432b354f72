import Mukite.Properties.Fifo
import Mathlib.Logic.Function.Basic
import Mathlib.Data.List.Permutation

/-!
# Several workers on one ring buffer

`ringbuffer_write` holds the mutex while it copies, but gives it up where it waits for free space,
and that may be in the middle of a stanza. A step of a worker is what it does from taking the
mutex to giving it up.

* **`whole_stanzas`**: as long as no worker copies while another one waits in the middle of its
  stanza, the bytes in the buffer are whole stanzas, one after the other.
* `stanza_split`: two workers and a stanza larger than the buffer, where it does not hold.
-/

namespace Mukite

open Machine Circle

/-! ## One turn of a worker -/

/-- What `ringbuffer_write` does while it holds the mutex. -/
structure Wrote (before after : RingBuffer) (copied left : Bytes) : Prop where
  valid : after.Valid
  bufferSize : after.bufferSize = before.bufferSize
  readPosition : after.readPosition = before.readPosition
  dataSize : before.dataSize ≤ after.dataSize
  stored : after.stored = before.stored ++ copied
  /-- it gives the mutex up when it is done, or when the buffer is full -/
  gaveUp : left = [] ∨ continuousBlockSize after = 0

/-- **A turn copies the front of the buffer.** The induction is on the bound of the loop. -/
theorem ringbufferWrite_spec : ∀ {n : Nat} {ringbuffer : RingBuffer} {buffer : Bytes},
    ringbuffer.Valid → buffer.length < n →
    ∃ copied, buffer = copied ++ (ringbufferWrite n ringbuffer buffer).2 ∧
      Wrote ringbuffer (ringbufferWrite n ringbuffer buffer).1 copied
        (ringbufferWrite n ringbuffer buffer).2
  | 0, _, _, _, hn => absurd hn (Nat.not_lt_zero _)
  | n + 1, ringbuffer, buffer, h, hn => by
    have hstop : buffer = [] ∨ continuousBlockSize ringbuffer = 0 →
        Wrote ringbuffer ringbuffer [] buffer := fun hg =>
      ⟨h, rfl, rfl, Int.le_refl _, (List.append_nil _).symm, hg⟩
    unfold ringbufferWrite
    by_cases hlen : buffer.length > 0
    · rw [if_pos hlen]
      by_cases hblock : continuousBlockSize ringbuffer = 0
      · rw [if_pos hblock]
        exact ⟨[], rfl, hstop (.inr hblock)⟩
      · rw [if_neg hblock]
        have hpos := h.writeSize_pos (List.length_pos_iff.mp hlen) hblock
        obtain ⟨hvalid, hsize, hstored⟩ := h.copy buffer
        have hdrop : (buffer.drop (writeSize ringbuffer buffer).toNat).length < n := by
          rw [List.length_drop]
          omega
        obtain ⟨copied, heq, hw⟩ := ringbufferWrite_spec hvalid hdrop
        refine ⟨segmentOf ringbuffer buffer ++ copied, ?_, hw.valid, hw.bufferSize.trans hsize,
          hw.readPosition, ?_, ?_, hw.gaveUp⟩
        · rw [List.append_assoc, ← heq]
          exact (List.take_append_drop _ buffer).symm
        · have hdata : (ringbufferCopy ringbuffer buffer).dataSize
              = ringbuffer.dataSize + writeSize ringbuffer buffer := rfl
          have := hw.dataSize
          omega
        · rw [hw.stored, hstored, List.append_assoc]
    · have hnil : buffer = [] := List.eq_nil_of_length_eq_zero (by omega)
      rw [if_neg hlen]
      exact ⟨[], rfl, hstop (.inl hnil)⟩

/-- Without room, or without bytes, a turn changes nothing. -/
theorem ringbufferWrite_idle {n : Nat} {ringbuffer : RingBuffer} {buffer : Bytes}
    (h : buffer = [] ∨ continuousBlockSize ringbuffer = 0) :
    ringbufferWrite n ringbuffer buffer = (ringbuffer, buffer) := by
  cases n with
  | zero => rfl
  | succ n =>
    unfold ringbufferWrite
    rcases h with rfl | hblock
    · rfl
    · rw [if_pos hblock, ite_self]

/-! ## Workers and the writer thread -/

variable {ω : Type} [DecidableEq ω]

/--
The ring buffer among workers. A worker that waits has copied the first part of its stanza and has
the second one left. `completed` are the stanzas whose `ringbuffer_write` has returned.
-/
structure WireState (ω : Type) where
  run : RingRun
  waiting : ω → Option (Bytes × Bytes)
  completed : List Bytes

inductive WireEvent (ω : Type)
  /-- a worker calls `ringbuffer_write` and takes the mutex -/
  | send (w : ω) (stanza : Bytes)
  /-- a waiting worker wakes up and takes the mutex again -/
  | resume (w : ω)
  | getChunk
  | release (n : Nat)

/-- A turn of `ringbuffer_write`: the ring buffer after it and what is left to write. -/
def turnResult (ringbuffer : RingBuffer) (buffer : Bytes) : RingBuffer × Bytes :=
  ringbufferWrite (buffer.length + 1) ringbuffer buffer

/-- The bytes that a turn takes off the front of `buffer`. -/
def turnCopied (ringbuffer : RingBuffer) (buffer : Bytes) : Bytes :=
  buffer.take (buffer.length - (turnResult ringbuffer buffer).2.length)

/-- A turn of worker `w`, which has copied the first part of its stanza already. -/
def WireState.turn (s : WireState ω) (w : ω) (copied buffer : Bytes) : WireState ω where
  run := { s.run with
    ring := (turnResult s.run.ring buffer).1
    written := s.run.written ++ turnCopied s.run.ring buffer }
  waiting := Function.update s.waiting w
    (if (turnResult s.run.ring buffer).2 = [] then none
    else some (copied ++ turnCopied s.run.ring buffer, (turnResult s.run.ring buffer).2))
  completed :=
    if (turnResult s.run.ring buffer).2 = [] then
      s.completed ++ [copied ++ turnCopied s.run.ring buffer]
    else s.completed

def wireStep : Machine.Step (WireState ω) (WireEvent ω) Unit := fun s e =>
  match e with
  | .send w stanza => if s.waiting w = none then some (s.turn w [] stanza, ()) else none
  | .resume w => (s.waiting w).map (fun part => (s.turn w part.1 part.2, ()))
  | .getChunk => (ringStep s.run .getChunk).map (fun r => ({ s with run := r.1 }, ()))
  | .release n => (ringStep s.run (.release n)).map (fun r => ({ s with run := r.1 }, ()))

def wireStart (ω : Type) (mem : Bytes) : WireState ω :=
  { run := ringStart mem, waiting := fun _ => none, completed := [] }

/-- The part of its stanza that a waiting worker has in the buffer. -/
def WireState.part (s : WireState ω) (w : ω) : Bytes := ((s.waiting w).map Prod.fst).getD []

/--
The bytes that have been read out, and those that will be read next, are whole stanzas one after
the other; the last one may be still on its way.
-/
def WholeStanzas (s : WireState ω) : Prop :=
  ∃ (done : List Bytes) (part : Bytes), done.Perm s.completed ∧
    s.run.released ++ s.run.ring.stored = done.flatten ++ part ∧
    (part = [] ∨ ∃ w, part = s.part w)

/-- A worker copies nothing while another one waits in the middle of its stanza. -/
def Undisturbed (s : WireState ω) : WireEvent ω → Prop
  | .send w stanza =>
    stanza ≠ [] → continuousBlockSize s.run.ring ≠ 0 → ∀ w', w' ≠ w → s.part w' = []
  | .resume w => continuousBlockSize s.run.ring ≠ 0 → ∀ w', w' ≠ w → s.part w' = []
  | .getChunk => True
  | .release _ => True

/-! ## One step -/

/-- At most one worker is in the middle of its stanza, and the rest of the bytes is complete. -/
structure Tidy (size : Nat) (s : WireState ω) : Prop where
  fifo : Fifo size s.run
  single : ∀ w w', s.part w ≠ [] → s.part w' ≠ [] → w = w'
  middle : ∀ w, s.part w ≠ [] → s.run.written = s.completed.flatten ++ s.part w
  whole : (∀ w, s.part w = []) → s.run.written = s.completed.flatten

section Turn

variable {size : Nat} {s : WireState ω} {w : ω} {copied buffer : Bytes}

theorem turn_wrote {ringbuffer : RingBuffer} (h : ringbuffer.Valid) (buffer : Bytes) :
    Wrote ringbuffer (turnResult ringbuffer buffer).1 (turnCopied ringbuffer buffer)
      (turnResult ringbuffer buffer).2 := by
  obtain ⟨bytes, heq, hw⟩ := @ringbufferWrite_spec _ _ buffer h (Nat.lt_succ_self _)
  have hlen := congrArg List.length heq
  rw [List.length_append] at hlen
  have hbytes : turnCopied ringbuffer buffer = bytes := by
    refine Eq.trans (congrArg (List.take _) heq) ?_
    refine List.take_left' ?_
    show bytes.length = buffer.length - (ringbufferWrite buffer.length.succ ringbuffer buffer).2.length
    omega
  rw [hbytes]
  exact hw

theorem part_turn_self (s : WireState ω) (w : ω) (copied buffer : Bytes) :
    (s.turn w copied buffer).part w =
      if (turnResult s.run.ring buffer).2 = [] then []
      else copied ++ turnCopied s.run.ring buffer := by
  unfold WireState.part WireState.turn
  simp only [Function.update_self]
  split <;> rfl

theorem part_turn_of_ne {w' : ω} (hne : w' ≠ w) :
    (s.turn w copied buffer).part w' = s.part w' := by
  unfold WireState.part WireState.turn
  simp only [Function.update_of_ne hne]

theorem written_turn : (s.turn w copied buffer).run.written
    = s.run.written ++ turnCopied s.run.ring buffer := rfl

theorem completed_turn : (s.turn w copied buffer).completed =
    if (turnResult s.run.ring buffer).2 = [] then
      s.completed ++ [copied ++ turnCopied s.run.ring buffer]
    else s.completed := rfl

theorem Fifo.turn (h : Fifo size s.run) : Fifo size (s.turn w copied buffer).run := by
  have hw := turn_wrote h.valid buffer
  refine ⟨hw.valid, hw.bufferSize.trans h.bufferSize, ?_, ?_⟩
  · show s.run.released ++ (turnResult s.run.ring buffer).1.stored = _
    rw [hw.stored, written_turn, ← h.order, List.append_assoc]
  · intro chunk hc
    obtain ⟨hpos, hle, hend⟩ := h.offered chunk hc
    refine ⟨hpos, Int.le_trans hle hw.dataSize, ?_⟩
    show ((turnResult s.run.ring buffer).1.readPosition : Int) + chunk
      ≤ (turnResult s.run.ring buffer).1.bufferSize
    rw [hw.readPosition, hw.bufferSize]
    exact hend

/-- The bytes before a turn of a worker that is undisturbed. -/
theorem Tidy.alone (h : Tidy size s) (hpart : s.part w = copied)
    (hothers : ∀ w', w' ≠ w → s.part w' = []) :
    s.run.written = s.completed.flatten ++ copied := by
  by_cases hc : copied = []
  · rw [hc, List.append_nil]
    refine h.whole fun w' => ?_
    by_cases hw : w' = w
    · rw [hw, hpart, hc]
    · exact hothers w' hw
  · rw [← hpart]
    exact h.middle w (hpart ▸ hc)

/-- A turn of a worker while no other one is in the middle of its stanza. -/
theorem Tidy.turn_alone (h : Tidy size s) (hpart : s.part w = copied)
    (hothers : ∀ w', w' ≠ w → s.part w' = []) : Tidy size (s.turn w copied buffer) := by
  have hwritten := h.alone hpart hothers
  have hself := part_turn_self s w copied buffer
  have hparts : ∀ w', (s.turn w copied buffer).part w' ≠ [] → w' = w := by
    intro w' hw'
    by_contra hne
    rw [part_turn_of_ne hne] at hw'
    exact hw' (hothers w' hne)
  refine ⟨h.fifo.turn, fun v v' hv hv' => (hparts v hv).trans (hparts v' hv').symm, ?_, ?_⟩
  · intro v hv
    have hvw := hparts v hv
    subst hvw
    rw [hself] at hv ⊢
    split at hv
    · exact absurd rfl hv
    · next hleft =>
      rw [if_neg hleft, written_turn, hwritten, completed_turn, if_neg hleft, List.append_assoc]
  · intro hnone
    have hleft := hnone w
    rw [hself] at hleft
    by_cases hl : (turnResult s.run.ring buffer).2 = []
    · rw [written_turn, hwritten, completed_turn, if_pos hl, List.flatten_append,
        List.flatten_singleton, List.append_assoc]
    · rw [if_neg hl] at hleft
      rw [written_turn, hwritten, List.append_assoc, hleft, List.append_nil, completed_turn,
        if_neg hl]

/-- A turn of a worker that copies nothing, while another one is in the middle of its stanza. -/
theorem Tidy.turn_idle (h : Tidy size s) (hpart : s.part w = copied) {v : ω} (hvw : v ≠ w)
    (hv : s.part v ≠ []) (hidle : buffer = [] ∨ continuousBlockSize s.run.ring = 0) :
    Tidy size (s.turn w copied buffer) := by
  have hcopied : copied = [] := by
    by_contra hc
    exact hvw (h.single v w hv (hpart ▸ hc))
  have hresult : turnResult s.run.ring buffer = (s.run.ring, buffer) := ringbufferWrite_idle hidle
  have hbytes : turnCopied s.run.ring buffer = [] := by
    unfold turnCopied
    rw [hresult, Nat.sub_self, List.take_zero]
  have hparts : ∀ w', (s.turn w copied buffer).part w' = s.part w' := by
    intro w'
    by_cases hw : w' = w
    · rw [hw, part_turn_self, hpart, hcopied, hbytes]
      exact ite_self _
    · exact part_turn_of_ne hw
  have hwritten : (s.turn w copied buffer).run.written = s.run.written := by
    rw [written_turn, hbytes, List.append_nil]
  have hflatten : (s.turn w copied buffer).completed.flatten = s.completed.flatten := by
    rw [completed_turn, hcopied, hbytes, apply_ite List.flatten, List.flatten_append,
      List.flatten_singleton, List.append_nil, List.append_nil, ite_self]
  refine ⟨h.fifo.turn, ?_, ?_, ?_⟩
  · intro u u' hu hu'
    rw [hparts] at hu hu'
    exact h.single u u' hu hu'
  · intro u hu
    rw [hparts] at hu ⊢
    rw [hwritten, hflatten]
    exact h.middle u hu
  · intro hnone
    exact absurd ((hparts v).symm.trans (hnone v)) hv

/-- **A turn keeps the bytes tidy**, when it is undisturbed or copies nothing. -/
theorem Tidy.turn (h : Tidy size s) (hpart : s.part w = copied)
    (hok : buffer ≠ [] → continuousBlockSize s.run.ring ≠ 0 → ∀ w', w' ≠ w → s.part w' = []) :
    Tidy size (s.turn w copied buffer) := by
  by_cases hothers : ∀ w', w' ≠ w → s.part w' = []
  · exact h.turn_alone hpart hothers
  · have hidle : buffer = [] ∨ continuousBlockSize s.run.ring = 0 := by
      by_contra hn
      rw [not_or] at hn
      exact hothers (hok hn.1 hn.2)
    obtain ⟨v, hv⟩ := not_forall.mp hothers
    obtain ⟨hvw, hv⟩ := Classical.not_imp.mp hv
    exact h.turn_idle hpart hvw hv hidle

end Turn

omit [DecidableEq ω] in
/-- The writer thread touches neither the workers nor what has been written. -/
theorem Tidy.reader {size : Nat} {s : WireState ω} {r : RingRun} (h : Tidy size s)
    (hf : Fifo size r) (hw : r.written = s.run.written) : Tidy size { s with run := r } where
  fifo := hf
  single := h.single
  middle := fun w hw' => hw.trans (h.middle w hw')
  whole := fun hn => hw.trans (h.whole hn)

theorem written_ringStep {r r' : RingRun} {e : RingEvent} {o : Unit}
    (h : ringStep r e = some (r', o)) (he : ∀ buffer, e ≠ .write buffer) :
    r'.written = r.written := by
  cases e with
  | write buffer => exact absurd rfl (he buffer)
  | getChunk =>
    unfold ringStep at h
    dsimp only at h
    split at h <;> cases h
    rfl
  | release n =>
    unfold ringStep at h
    dsimp only at h
    split at h
    · cases h
    · split at h <;> cases h
      rfl

theorem Tidy.step {size : Nat} {s s' : WireState ω} {e : WireEvent ω} {o : Unit}
    (h : Tidy size s) (hok : Undisturbed s e) (hs : wireStep s e = some (s', o)) :
    Tidy size s' := by
  cases e with
  | send w stanza =>
    unfold wireStep at hs
    dsimp only at hs
    split at hs
    · next hw =>
      cases hs
      exact h.turn (by rw [WireState.part, hw]; rfl) hok
    · cases hs
  | resume w =>
    obtain ⟨part, hw, hs⟩ := Option.map_eq_some_iff.mp hs
    cases hs
    exact h.turn (by rw [WireState.part, hw]; rfl) (fun _ => hok)
  | getChunk =>
    obtain ⟨⟨r, u⟩, hr, hs⟩ := Option.map_eq_some_iff.mp hs
    cases hs
    exact h.reader (h.fifo.step hr) (written_ringStep hr (fun _ => RingEvent.noConfusion))
  | release n =>
    obtain ⟨⟨r, u⟩, hr, hs⟩ := Option.map_eq_some_iff.mp hs
    cases hs
    exact h.reader (h.fifo.step hr) (written_ringStep hr (fun _ => RingEvent.noConfusion))

omit [DecidableEq ω] in
theorem tidy_start {mem : Bytes} (h : mem ≠ []) : Tidy mem.length (wireStart ω mem) where
  fifo := fifo_start h
  single := fun _ _ hw => absurd rfl hw
  middle := fun _ hw => absurd rfl hw
  whole := fun _ => rfl

/--
**Whole stanzas on the wire**, for any number of workers and any stanzas, in every run in which no
worker copies while another one waits in the middle of its stanza.
-/
theorem whole_stanzas {mem : Bytes} (hmem : 1 ≤ mem.length) {s : WireState ω}
    (h : Reach wireStep Undisturbed (wireStart ω mem) s) : WholeStanzas s := by
  have htidy : Tidy mem.length s :=
    h.invariant (tidy_start (List.length_pos_iff.mp hmem)) (fun _ _ _ _ hi hok hs => hi.step hok hs)
  by_cases hn : ∀ w, s.part w = []
  · refine ⟨s.completed, [], List.Perm.refl _, ?_, .inl rfl⟩
    rw [htidy.fifo.order, htidy.whole hn, List.append_nil]
  · obtain ⟨w, hw⟩ := not_forall.mp hn
    refine ⟨s.completed, s.part w, List.Perm.refl _, ?_, .inr ⟨w, rfl⟩⟩
    rw [htidy.fifo.order, htidy.middle w hw]

/-! ## A stanza that is larger than the buffer -/

/-- What the counterexample looks at in a state of two workers. -/
def settledAs (stream : Bytes) (completed : List Bytes) (s : WireState Bool) : Bool :=
  s.run.released ++ s.run.ring.stored == stream && s.completed == completed &&
    s.part false == [] && s.part true == []

/-- Six bytes through a buffer of four: in the middle, another worker gets its stanza in. -/
def splitRun : Option (WireState Bool) :=
  Machine.run wireStep (wireStart Bool [0, 0, 0, 0])
    [.send false [1, 1, 1, 1, 1, 1], .getChunk, .release 4, .send true [2, 2], .resume false]

theorem splitRun_settled :
    splitRun.any (settledAs [1, 1, 1, 1, 2, 2, 1, 1] [[2, 2], [1, 1, 1, 1, 1, 1]]) = true := by
  decide +kernel

/-- **The first stanza is split by the second one.** -/
theorem stanza_split : ¬ ∀ s : WireState Bool,
    Reach wireStep (fun _ _ => True) (wireStart Bool [0, 0, 0, 0]) s → WholeStanzas s := by
  intro h
  obtain ⟨s, hs, hsettled⟩ := (Option.any_eq_true _ _).mp splitRun_settled
  simp only [settledAs, Bool.and_eq_true, beq_iff_eq] at hsettled
  obtain ⟨⟨⟨hstream, hcompleted⟩, hfalse⟩, htrue⟩ := hsettled
  obtain ⟨done, part, hperm, heq, hpart⟩ := h s (Reach.run .start (fun _ _ _ => trivial) hs)
  have hnil : part = [] := by
    rcases hpart with hnil | ⟨w, hw⟩
    · exact hnil
    · cases w
      · exact hw.trans hfalse
      · exact hw.trans htrue
  rw [hstream, hnil, List.append_nil] at heq
  rw [hcompleted] at hperm
  rcases List.perm_pair.mp hperm with rfl | rfl
  · exact absurd heq (by decide)
  · exact absurd heq (by decide)

instance (s : WireState Bool) : ∀ e, Decidable (Undisturbed s e)
  | .send w stanza => inferInstanceAs (Decidable (stanza ≠ [] → continuousBlockSize s.run.ring ≠ 0 →
      ∀ w', w' ≠ w → s.part w' = []))
  | .resume w => inferInstanceAs (Decidable (continuousBlockSize s.run.ring ≠ 0 →
      ∀ w', w' ≠ w → s.part w' = []))
  | .getChunk => inferInstanceAs (Decidable True)
  | .release _ => inferInstanceAs (Decidable True)

/-- The result for two workers, where the second one comes while the first one waits in the middle
of its stanza, and copies nothing before the first one is through. -/
theorem whole_stanzas_two : ∃ s : WireState Bool, Machine.runAdmitted wireStep Undisturbed
    (wireStart Bool [0, 0, 0, 0])
    [.send false [1, 1, 1, 1, 1, 1], .send true [2, 2], .getChunk, .release 4, .resume false,
      .resume true] = some s ∧
    settledAs [1, 1, 1, 1, 1, 1, 2, 2] [[1, 1, 1, 1, 1, 1], [2, 2]] s = true ∧
      WholeStanzas s := by
  have hany : (Machine.runAdmitted wireStep Undisturbed (wireStart Bool [0, 0, 0, 0])
      [.send false [1, 1, 1, 1, 1, 1], .send true [2, 2], .getChunk, .release 4, .resume false,
        .resume true]).any (settledAs [1, 1, 1, 1, 1, 1, 2, 2] [[1, 1, 1, 1, 1, 1], [2, 2]])
          = true := by decide +kernel
  obtain ⟨s, hs, hsettled⟩ := (Option.any_eq_true _ _).mp hany
  exact ⟨s, hs, hsettled,
    @whole_stanzas Bool _ [0, 0, 0, 0] (by decide) s (Reach.runAdmitted .start hs)⟩

end Mukite
