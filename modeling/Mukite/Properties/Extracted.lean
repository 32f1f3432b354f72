import Mukite.Properties.Received

/-!
# What the reader pushes

The reader cuts its network buffer into the nodes that `xmlfsm_skip_node` finds one after the
other and pushes a copy of each. It computes the size of a node from two pointers, and what it
adds when the difference is negative has the wrong sign.

* **`extracted_iff`**: the entries are the nodes, in order and with their sizes, if and only if no
  node goes past the end of the buffer.
* `split_node_oversized`: a node of four bytes that is pushed as one of eight.
-/

namespace Mukite

/-- A node in the network buffer, with the position where it starts. -/
structure RingNode where
  start : Nat
  skipped : Skipped
deriving DecidableEq, Repr

/-- The bytes that `xmlfsm_skip_node` has gone over. -/
def RingNode.bytes (mem : Bytes) (node : RingNode) : Bytes :=
  if node.skipped.passed then mem.drop node.start ++ mem.take node.skipped.data
  else (mem.drop node.start).take (node.skipped.data - node.start)

/-- The nodes that `xmlfsm_skip_node` finds one after the other, in at most so many rounds. -/
def ringNodes : Nat → NetworkBuffer → Option (List RingNode)
  | 0, _ => none
  | n + 1, buffer =>
    match xmlfsmSkipNodeRing buffer with
    | none => none
    | some none => some []
    | some (some skipped) =>
      (ringNodes n { buffer with data := skipped.data }).map
        ({ start := buffer.data, skipped := skipped } :: ·)

/-- An entry is a copy of a node. -/
structure CopyOf (mem : Bytes) (node : RingNode) (entry : StanzaEntry) : Prop where
  dataSize : entry.dataSize = (node.bytes mem).length
  bytes : (bptBytes entry.buffer).take entry.dataSize.toNat = node.bytes mem

/-- The entries are the nodes, and the nodes are what has been stored before the rest. -/
structure Extracted (buffer : NetworkBuffer) (nodes : List RingNode) (pushed : List StanzaEntry)
    (after : NetworkBuffer) : Prop where
  entries : List.Forall₂ (CopyOf buffer.mem) nodes pushed
  order : buffer.content = (nodes.map (RingNode.bytes buffer.mem)).flatten ++ after.content

/-- The loop over stanzas ends and has pushed what it should. -/
def ExtractsNodes (alloc : Allocator) (free : Nat → StanzaEntry) (buffer : NetworkBuffer) : Prop :=
  ∃ nodes pushed after, ringNodes buffer.rounds buffer = some nodes ∧
    readStanzas alloc 0 buffer.rounds free buffer = some (pushed, after) ∧
    Extracted buffer nodes pushed after

/-- There is always memory. -/
def Allocator.Succeeds (alloc : Allocator) : Prop :=
  ∀ old size, 0 < size → ∃ block, alloc old size = some block

variable {alloc : Allocator} {buffer after : NetworkBuffer} {skipped : Skipped}
  {entry entry' : StanzaEntry} {free : Nat → StanzaEntry}

/-! ## The size of a stanza -/

theorem currentStanzaSize_before (hv : buffer.Valid) (hs : SkippedTo buffer skipped)
    (h : skipped.passed = false) :
    currentStanzaSize buffer.size buffer.data skipped.data
      = (skipped.data : Int) - buffer.data := by
  have hsize := hv.size
  have hin := hs.inside
  have hb := (hs.before h).1
  have hint : cInt ((skipped.data : Int) - buffer.data) = (skipped.data : Int) - buffer.data :=
    cInt_eq ⟨by omega, by omega⟩
  unfold currentStanzaSize
  dsimp only
  rw [hint, if_neg (by omega)]

/-- **Behind the border the size is not that of the node.** -/
theorem currentStanzaSize_behind (hv : buffer.Valid) (hs : SkippedTo buffer skipped)
    (h : skipped.passed = true) :
    currentStanzaSize buffer.size buffer.data skipped.data
      ≠ ((buffer.size - buffer.data + skipped.data : Nat) : Int) := by
  have hsize := hv.size
  have hdata := hv.data
  have hin := hs.inside
  have hb := hs.behind h
  have hint : cInt ((skipped.data : Int) - buffer.data) = (skipped.data : Int) - buffer.data :=
    cInt_eq ⟨by omega, by omega⟩
  unfold currentStanzaSize
  dsimp only
  rw [hint]
  by_cases hneg : (skipped.data : Int) - buffer.data < 0
  · rw [if_pos hneg]
    intro he
    -- the sum has become negative, or it exceeds the size of the node twice as far
    have hsum := @cInt_of_nonneg (buffer.size - ((skipped.data : Int) - buffer.data)) (by omega)
      (by omega) (by omega)
    omega
  · rw [if_neg hneg]
    omega

/-! ## The entry for a node -/

theorem fit_bufferSize (halloc : alloc.Succeeds) {desired : Int} (hpos : 0 < desired) :
    (entry.fit alloc desired).bufferSize = desired := by
  unfold StanzaEntry.fit
  split
  · next he => exact he
  · split
    · next hneg => exact absurd hneg (by omega)
    · obtain ⟨block, hb⟩ := halloc entry.buffer desired.toNat (by omega)
      rw [hb]

/-- Filling never gives an entry another size than the given one, or none at all. -/
theorem fill_dataSize {bytes : Bytes} {size : Int} (h : entry.fill bytes size = some entry') :
    entry'.dataSize = size ∨ entry'.dataSize = 0 := by
  unfold StanzaEntry.fill at h
  split at h
  · cases h
    exact .inr rfl
  · split at h
    · cases h
    · split at h
      · cases h
        exact .inl rfl
      · cases h

/-- A buffer of the right size takes the bytes. -/
theorem fill_eq {bytes : Bytes} {size : Int} (hsize : entry.bufferSize = size)
    (hlen : (bytes.length : Int) = size) (hpos : 0 < size) :
    ∃ entry', entry.fill bytes size = some entry' ∧ entry'.dataSize = size ∧
      bptBytes entry'.buffer = bytes := by
  obtain ⟨data, dataSize, bufferSize, sized⟩ := entry
  change bufferSize = size at hsize
  unfold StanzaEntry.fill
  rw [if_neg (by show ¬ bufferSize < size; omega)]
  cases data with
  | none =>
    rw [bptSize_none] at sized
    omega
  | some block =>
    rw [bptSize_some] at sized
    dsimp only
    rw [dif_pos (by omega)]
    refine ⟨_, rfl, rfl, ?_⟩
    show memcpy block 0 bytes = bytes
    unfold memcpy
    rw [List.take_zero, List.nil_append, List.drop_of_length_le (by omega), List.append_nil]

theorem length_bytes_before {mem : Bytes} {node : RingNode} (hle : node.skipped.data ≤ mem.length)
    (h : node.skipped.passed = false) :
    (node.bytes mem).length = node.skipped.data - node.start := by
  unfold RingNode.bytes
  rw [h, if_neg Bool.false_ne_true, List.length_take, List.length_drop]
  omega

theorem length_bytes_behind {mem : Bytes} {node : RingNode} (hle : node.skipped.data ≤ mem.length)
    (h : node.skipped.passed = true) :
    (node.bytes mem).length = mem.length - node.start + node.skipped.data := by
  unfold RingNode.bytes
  rw [if_pos h, List.length_append, List.length_take, List.length_drop, Nat.min_eq_left hle]

/-- **A node before the border is copied.** -/
theorem stanzaEntry_before (halloc : alloc.Succeeds) (hv : buffer.Valid)
    (hs : SkippedTo buffer skipped) (h : skipped.passed = false) (entry : StanzaEntry) :
    ∃ entry', stanzaEntry alloc 0 entry buffer skipped.data = some entry' ∧
      CopyOf buffer.mem { start := buffer.data, skipped := skipped } entry' := by
  have hb := (hs.before h).1
  have hsize := currentStanzaSize_before hv hs h
  have hlen : (RingNode.bytes buffer.mem { start := buffer.data, skipped := skipped }).length
      = skipped.data - buffer.data :=
    length_bytes_before hs.inside h
  have hbytes : stanzaBytes buffer skipped.data ((skipped.data : Int) - buffer.data)
      = RingNode.bytes buffer.mem { start := buffer.data, skipped := skipped } := by
    have htoNat : ((skipped.data : Int) - buffer.data).toNat = skipped.data - buffer.data := by
      omega
    unfold stanzaBytes RingNode.bytes
    rw [if_pos hb, htoNat]
    dsimp only
    rw [h, if_neg Bool.false_ne_true]
  unfold stanzaEntry
  dsimp only
  rw [if_pos rfl, hsize, hbytes]
  have hpos : 0 < (skipped.data : Int) - buffer.data := by omega
  have hfit : (entry.fit alloc ((skipped.data : Int) - buffer.data)).bufferSize
      = (skipped.data : Int) - buffer.data := fit_bufferSize halloc hpos
  obtain ⟨entry', he, hdata, hbuf⟩ := fill_eq hfit (by rw [hlen]; omega) (by omega)
  refine ⟨entry', he, by rw [hdata, hlen]; omega, ?_⟩
  rw [hbuf, hdata, List.take_of_length_le (by rw [hlen]; omega)]

/-- **A node behind the border is not.** -/
theorem stanzaEntry_behind (hv : buffer.Valid) (hs : SkippedTo buffer skipped)
    (h : skipped.passed = true)
    (he : stanzaEntry alloc 0 entry buffer skipped.data = some entry') :
    ¬ CopyOf buffer.mem { start := buffer.data, skipped := skipped } entry' := by
  intro hc
  have hb := hs.behind h
  have hsize := currentStanzaSize_behind hv hs h
  have hlen : (RingNode.bytes buffer.mem { start := buffer.data, skipped := skipped }).length
      = buffer.size - buffer.data + skipped.data :=
    length_bytes_behind hs.inside h
  have hdata := hc.dataSize
  rw [hlen] at hdata
  unfold stanzaEntry at he
  dsimp only at he
  rw [if_pos rfl] at he
  rcases fill_dataSize he with heq | hzero
  · exact hsize (heq.symm.trans hdata)
  · omega

/-! ## The loop -/

/-- Taking a node off the front leaves the rest. -/
theorem content_before (hv : buffer.Valid) (hs : SkippedTo buffer skipped)
    (h : skipped.passed = false) :
    buffer.content = RingNode.bytes buffer.mem { start := buffer.data, skipped := skipped } ++
      { buffer with data := skipped.data : NetworkBuffer }.content := by
  obtain ⟨hlt, hle⟩ := hs.before h
  have hin : skipped.data ≤ buffer.mem.length := hs.inside
  have hstop : buffer.stop ≤ buffer.mem.length := hv.stop
  unfold NetworkBuffer.content RingNode.bytes
  dsimp only
  rw [h, if_neg Bool.false_ne_true]
  have hdrop : buffer.mem.drop skipped.data
      = (buffer.mem.drop buffer.data).drop (skipped.data - buffer.data) := by
    rw [List.drop_drop]
    congr 1
    omega
  by_cases hc : buffer.data ≤ buffer.stop
  · have hsum : buffer.stop - buffer.data
        = (skipped.data - buffer.data) + (buffer.stop - skipped.data) := by
      have := hle hc
      omega
    rw [if_pos hc, if_pos (hle hc), hdrop, hsum, List.take_add]
  · rw [if_neg hc, if_neg (by omega), hdrop, ← List.append_assoc, List.take_append_drop]

theorem NetworkBuffer.Valid.skip (hv : buffer.Valid) (hs : SkippedTo buffer skipped) :
    NetworkBuffer.Valid { buffer with data := skipped.data } :=
  ⟨hs.inside, hv.stop, hv.size⟩

/-- Entries that are copies of the nodes come from nodes before the border. -/
theorem nodes_before_of_copies : ∀ {n : Nat} {free : Nat → StanzaEntry}
    {buffer after : NetworkBuffer} {nodes : List RingNode} {pushed : List StanzaEntry},
    buffer.Valid → ringNodes n buffer = some nodes →
    readStanzas alloc 0 n free buffer = some (pushed, after) →
    List.Forall₂ (CopyOf buffer.mem) nodes pushed → ∀ node ∈ nodes, node.skipped.passed = false
  | 0, _, _, _, _, _, _, hn, _, _ => by cases hn
  | n + 1, free, buffer, after, nodes, pushed, hv, hn, hr, hcopies => by
    unfold ringNodes at hn
    unfold readStanzas at hr
    split at hn
    · cases hn
    · cases hn
      exact fun node hmem => absurd hmem List.not_mem_nil
    · next skipped hskip =>
      have hs := xmlfsmSkipNodeRing_spec hv hskip
      obtain ⟨rest, hrest, rfl⟩ := Option.map_eq_some_iff.mp hn
      rw [hskip] at hr
      dsimp only at hr
      split at hr
      · cases hr
      · next entry hentry =>
        split at hr
        · cases hr
        · next pushed' after' hread =>
          cases hr
          cases hcopies with
          | cons hcopy htail =>
            intro node hmem
            rcases List.mem_cons.mp hmem with rfl | hmem
            · by_contra hpassed
              exact stanzaEntry_behind hv hs (Bool.not_eq_false _ ▸ hpassed) hentry hcopy
            · exact nodes_before_of_copies (hv.skip hs) hrest hread htail node hmem

/-- **Nodes before the border are pushed, in order.** -/
theorem extracted_of_before (halloc : alloc.Succeeds) : ∀ {n : Nat} {free : Nat → StanzaEntry}
    {buffer : NetworkBuffer} {nodes : List RingNode}, buffer.Valid →
    ringNodes n buffer = some nodes → (∀ node ∈ nodes, node.skipped.passed = false) →
    ∃ pushed after, readStanzas alloc 0 n free buffer = some (pushed, after) ∧
      Extracted buffer nodes pushed after
  | 0, _, _, _, _, hn, _ => by cases hn
  | n + 1, free, buffer, nodes, hv, hn, hbefore => by
    unfold ringNodes at hn
    split at hn
    · cases hn
    · next hskip =>
      cases hn
      unfold readStanzas
      rw [hskip]
      exact ⟨[], buffer, rfl, .nil, rfl⟩
    · next skipped hskip =>
      have hs := xmlfsmSkipNodeRing_spec hv hskip
      obtain ⟨rest, hrest, rfl⟩ := Option.map_eq_some_iff.mp hn
      have hpassed : skipped.passed = false := hbefore _ List.mem_cons_self
      obtain ⟨entry, hentry, hcopy⟩ := stanzaEntry_before halloc hv hs hpassed (free 0)
      obtain ⟨pushed, after, hread, hx⟩ :=
        @extracted_of_before halloc n (fun i => free (i + 1)) _ _ (hv.skip hs) hrest
          (fun node hmem => hbefore node (List.mem_cons_of_mem _ hmem))
      unfold readStanzas
      rw [hskip]
      dsimp only
      rw [hentry]
      dsimp only
      rw [hread]
      refine ⟨entry :: pushed, after, rfl, .cons hcopy hx.entries, ?_⟩
      rw [List.map_cons, List.flatten_cons, List.append_assoc, ← hx.order]
      exact content_before hv hs hpassed

/-- A node takes something off what is stored, unless the scan has gone past its end. -/
theorem stored_skip (hv : buffer.Valid) (hs : SkippedTo buffer skipped)
    (hend : buffer.data ≤ buffer.stop ∨ buffer.stop ≠ 0) :
    { buffer with data := skipped.data : NetworkBuffer }.stored < buffer.stored ∧
      (skipped.data ≤ buffer.stop ∨ buffer.stop ≠ 0) := by
  have hin := hs.inside
  have hdata := hv.data
  have hlt : { buffer with data := skipped.data : NetworkBuffer }.stored
      = if skipped.data ≤ buffer.stop then buffer.stop - skipped.data
        else buffer.size - skipped.data + buffer.stop := rfl
  rw [hlt]
  unfold NetworkBuffer.stored
  cases h : skipped.passed with
  | false =>
    obtain ⟨hlt, hle⟩ := hs.before h
    by_cases hc : buffer.data ≤ buffer.stop
    · have := hle hc
      rw [if_pos hc, if_pos this]
      omega
    · rw [if_neg hc, if_neg (by omega)]
      omega
  | true =>
    obtain ⟨hlt, hpos, hle⟩ := hs.behind h
    have := hle (by omega)
    rw [if_pos this, if_neg (Nat.not_le.mpr hlt)]
    omega

/-- **The loop ends** where there is no gap between the border and the end of what is stored. -/
theorem ringNodes_isSome : ∀ {n : Nat} {buffer : NetworkBuffer}, buffer.Valid →
    (buffer.data ≤ buffer.stop ∨ buffer.stop ≠ 0) → buffer.stored < n →
    (ringNodes n buffer).isSome
  | 0, _, _, _, h => absurd h (Nat.not_lt_zero _)
  | n + 1, buffer, hv, hend, hn => by
    unfold ringNodes
    split
    · next hskip =>
      unfold xmlfsmSkipNodeRing at hskip
      split at hskip
      · split at hskip <;> cases hskip
      · split at hskip
        · cases hskip
        · rw [if_neg (by omega)] at hskip
          split at hskip <;> cases hskip
    · rfl
    · next skipped hskip =>
      have hs := xmlfsmSkipNodeRing_spec hv hskip
      obtain ⟨hlt, hend'⟩ := stored_skip hv hs hend
      rw [Option.isSome_map]
      exact ringNodes_isSome (hv.skip hs) hend' (by omega)

/--
**The stanzas of the network buffer are pushed whole and in order**, for every buffer and every
position of the stored bytes, if and only if every node ends before the border.
-/
theorem extracted_iff (halloc : alloc.Succeeds) (free : Nat → StanzaEntry) (hv : buffer.Valid) :
    ExtractsNodes alloc free buffer ↔ ∃ nodes, ringNodes buffer.rounds buffer = some nodes ∧
      ∀ node ∈ nodes, node.skipped.passed = false := by
  constructor
  · rintro ⟨nodes, pushed, after, hn, hr, hx⟩
    exact ⟨nodes, hn, nodes_before_of_copies hv hn hr hx.entries⟩
  · rintro ⟨nodes, hn, hbefore⟩
    obtain ⟨pushed, after, hr, hx⟩ := extracted_of_before halloc hv hn hbefore
    exact ⟨nodes, pushed, after, hn, hr, hx⟩

/-! ## A stanza around the border -/

theorem zeroedMemory_succeeds : zeroedMemory.Succeeds := fun _ _ _ => ⟨_, rfl⟩

/-- The stanza `<b/>`, two bytes before the border and two behind it. -/
def splitBuffer : NetworkBuffer where
  mem := lit "/>--<b"
  data := 4
  stop := 2

theorem splitBuffer_valid : splitBuffer.Valid := ⟨by decide, by decide, by decide⟩

/-- The node is found, and pushed with eight bytes. -/
theorem split_node_oversized :
    ¬ ∀ (alloc : Allocator) (free : Nat → StanzaEntry) (buffer : NetworkBuffer),
      alloc.Succeeds → buffer.Valid → buffer.stop ≠ 0 → ExtractsNodes alloc free buffer := by
  intro h
  obtain ⟨nodes, pushed, after, hn, hr, hx⟩ := h zeroedMemory (fun _ => freshEntry) splitBuffer
    zeroedMemory_succeeds splitBuffer_valid (by decide)
  have hnodes : ringNodes splitBuffer.rounds splitBuffer
      = some [{ start := 4, skipped := { data := 2, passed := true } }] := by decide +kernel
  have hsizes : (readStanzas zeroedMemory 0 splitBuffer.rounds (fun _ => freshEntry)
      splitBuffer).map (fun r => r.1.map StanzaEntry.dataSize) = some [8] := by decide +kernel
  rw [hnodes, Option.some.injEq] at hn
  subst hn
  rw [hr, Option.map_some, Option.some.injEq] at hsizes
  cases hx.entries with
  | cons hcopy _ =>
    rw [List.map_cons] at hsizes
    have hdata := hcopy.dataSize
    rw [(List.cons.inj hsizes).1] at hdata
    revert hdata
    decide

/-- The result where the stored bytes go round the border behind a whole stanza. -/
theorem extracted_iff_border :
    ExtractsNodes zeroedMemory (fun _ => freshEntry)
      { mem := lit "<c--<b/>", data := 4, stop := 2 } :=
  (extracted_iff zeroedMemory_succeeds _ ⟨by decide, by decide, by decide⟩).mpr
    ⟨[{ start := 4, skipped := { data := 8, passed := false } }], by decide +kernel, by decide⟩

end Mukite
