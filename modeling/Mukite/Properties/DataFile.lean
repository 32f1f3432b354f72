import Mukite.Serializer
import Mukite.Properties.JidText

/-!
# Reading the data file back

What each reader makes of what its writer has written: base values, buffers, JIDs, containers.
A reader takes what is within its limits and rejects anything else, so for each of them there is
a lemma about what it reads and one about what it rejects.
-/

namespace Mukite

open Codec

/-! ## Base values -/

theorem reads_bytes {α : Type} {w : Bytes} {n : Nat} (f : Bytes → α) (h : w.length = n) :
    Reads w (f <$> takeN n) (f w) := by
  subst h
  exact (reads_takeN w).map f

/-- Any integer is read back, as the `int` it is in the file. -/
theorem intDeserialize_wraps (v : Int) : Reads (intSerialize v) intDeserialize (cInt v) := by
  have hr := reads_bytes (fun bs => intValue 4 bs) (length_intBytes 4 v)
  rw [intValue_intBytes_bmod] at hr
  exact hr

theorem intDeserialize_reads {v : Int} (h : IsInt v) : Reads (intSerialize v) intDeserialize v := by
  have hr := intDeserialize_wraps v
  rwa [cInt_eq h] at hr

theorem timeDeserialize_reads {v : Int} (hl : -2 ^ 63 ≤ v) (hu : v < 2 ^ 63) :
    Reads (timeSerialize v) timeDeserialize v := by
  have hw : 256 ^ 8 = 2 ^ 64 := by decide
  have hv : intValue 8 (intBytes 8 v) = v :=
    intValue_intBytes (by rw [hw]; omega) (by rw [hw]; omega)
  have hr := reads_bytes (fun bs => intValue 8 bs) (length_intBytes 8 v)
  rw [hv] at hr
  exact hr

theorem markDeserialize_reads (presenceMark : Bool) :
    Reads (markSerialize presenceMark) markDeserialize presenceMark := by
  have hr := reads_bytes (fun bs => intValue 8 bs != 0)
    (length_intBytes 8 (if presenceMark then 1 else 0))
  cases presenceMark with
  | true =>
    rw [if_pos rfl, intValue_intBytes (by decide) (by decide)] at hr
    exact hr
  | false =>
    rw [if_neg Bool.false_ne_true, intValue_intBytes (by decide) (by decide)] at hr
    exact hr

theorem flagsDeserialize_reads (flags : MucFlags) :
    Reads (flagsSerialize flags) flagsDeserialize flags := by
  have hw : 256 ^ 4 = 2 ^ 32 := by decide
  have hv : leValue (leBytes 4 flags.toNat) = flags.toNat := by
    refine leValue_leBytes ?_
    rw [hw]
    exact flags.isLt
  have hr := reads_bytes (fun bs => BitVec.ofNat 32 (leValue bs)) (length_leBytes 4 flags.toNat)
  rw [hv, BitVec.ofNat_toNat, BitVec.setWidth_eq] at hr
  exact hr

theorem unusedDeserialize_reads (unused : UnusedBytes) :
    Reads unused.val unusedDeserialize unused := by
  intro rest
  show (if h : 48 ≤ (unused.val ++ rest).length then _ else _) = _
  have hlen := unused.property
  rw [dif_pos (by rw [List.length_append]; omega)]
  simp only [List.take_left' hlen, List.drop_left' hlen]

/-! ## Buffers -/

/-- A buffer as it is read back: an empty one is null. -/
def savedBuffer (buffer : Buffer) : Buffer := if bptSize buffer = 0 then none else some (bptBytes buffer)

@[simp] theorem bptBytes_savedBuffer (buffer : Buffer) :
    bptBytes (savedBuffer buffer) = bptBytes buffer := by
  unfold savedBuffer
  split
  · next h => exact (List.length_eq_zero_iff.mp h).symm
  · rfl

@[simp] theorem bptSize_savedBuffer (buffer : Buffer) :
    bptSize (savedBuffer buffer) = bptSize buffer := by
  unfold bptSize
  rw [bptBytes_savedBuffer]

section Buffers

variable {buffer : Buffer} {limit : Nat}

theorem isInt_size (h : bptSize buffer < 2 ^ 31) : IsInt (bptSize buffer) := by
  constructor <;> omega

theorem bufferDeserialize_reads (h : bptSize buffer ≤ limit) (hlimit : limit < 2 ^ 31) :
    Reads (bufferSerialize buffer) (bufferDeserialize limit) (savedBuffer buffer) := by
  unfold bufferSerialize bufferDeserialize
  refine Reads.bind (intDeserialize_reads (isInt_size (Nat.lt_of_le_of_lt h hlimit))) ?_
  rw [if_neg (by omega)]
  unfold savedBuffer
  by_cases hz : bptSize buffer = 0
  · have hb : bptBytes buffer = [] := List.length_eq_zero_iff.mp hz
    rw [if_pos (by omega), if_pos hz, hb]
    exact Reads.pure _
  · rw [if_neg (by omega), if_neg hz, Int.toNat_natCast]
    exact (reads_takeN (bptBytes buffer)).ret some

theorem bufferDeserialize_rejects (h : limit < bptSize buffer) (hint : bptSize buffer < 2 ^ 31) :
    Rejects (bufferSerialize buffer) (bufferDeserialize limit) := by
  unfold bufferSerialize bufferDeserialize
  refine Rejects.bind_right (intDeserialize_reads (isInt_size hint)) ?_
  rw [if_pos (.inr (by omega))]
  exact rejects_fail _

end Buffers

/-! ## JIDs -/

/-- A JID as it is read back. -/
def savedJid (jid : Jid) : Jid := (jidStruct (jidStr jid)).getD jid

theorem savedJid_eq {jid : Jid} (h : SetJid jid)
    (hat : jid.node = none → ch '@' ∉ bptBytes jid.host) : savedJid jid = jid := by
  unfold savedJid
  rw [jidStruct_jidStr h hat]
  rfl

theorem jidDeserialize_reads {jid : Jid} (h : SetJid jid) (hend : ¬ EndsAtSign jid) :
    Reads (jidSerialize jid) jidDeserialize (savedJid jid) := by
  unfold jidSerialize jidDeserialize
  rw [← List.append_nil (bufferSerialize _)]
  refine Reads.bind (bufferDeserialize_reads (length_jidStr h.cut) (by decide)) ?_
  rw [bptBytes_savedBuffer, bptBytes_some]
  cases hs : jidStruct (jidStr jid) with
  | none => exact absurd ((jidStruct_jidStr_none_iff h).mp hs) hend
  | some jid' =>
    have : savedJid jid = jid' := by rw [savedJid, hs, Option.getD_some]
    rw [this]
    exact Reads.pure jid'

theorem jidDeserialize_rejects {jid : Jid} (h : SetJid jid) (hend : EndsAtSign jid) :
    Rejects (jidSerialize jid) jidDeserialize := by
  unfold jidSerialize jidDeserialize
  rw [← List.append_nil (bufferSerialize _)]
  refine Rejects.bind_right
    (bufferDeserialize_reads (length_jidStr h.cut) (by decide)) ?_
  rw [bptBytes_savedBuffer, bptBytes_some, (jidStruct_jidStr_none_iff h).mpr hend]
  exact rejects_fail []

/-! ## Containers -/

section Containers

variable {α β : Type} {f : α → Bytes} {g : Input β} {saved : α → β}

/-- The items of a container as they lie in the file. -/
def markedItems (f : α → Bytes) (items : List α) : Bytes :=
  marked (markSerialize true) (markSerialize false) f items

theorem markedItems_nil (f : α → Bytes) : markedItems f [] = markSerialize false := rfl

theorem markedItems_cons (f : α → Bytes) (x : α) (xs : List α) :
    markedItems f (x :: xs) = markSerialize true ++ (f x ++ markedItems f xs) := marked_cons

theorem containerItems_append (f : α → Bytes) (maxSize : Int) : ∀ (items : List α) (k : Int),
    containerItems f maxSize k items ++ markSerialize false
      = markedItems f (items.take (maxSize - k).toNat)
  | [], k => by rw [List.take_nil]; rfl
  | x :: xs, k => by
    unfold containerItems
    by_cases hk : k + 1 > maxSize
    · have h0 : (maxSize - k).toNat = 0 := by omega
      rw [if_pos hk, h0]
      rfl
    · have h1 : (maxSize - k).toNat = (maxSize - (k + 1)).toNat + 1 := by omega
      rw [if_neg hk, h1, List.take_succ_cons, markedItems_cons,
        ← containerItems_append f maxSize xs, List.append_assoc, List.append_assoc]

/-- **What a container writes: its first `max_size` items.** -/
theorem containerSerialize_eq (f : α → Bytes) (maxSize : Int) (items : List α) :
    containerSerialize f maxSize items = markedItems f (items.take maxSize.toNat) := by
  have h := containerItems_append f maxSize items 0
  rwa [Int.sub_zero] at h

/-- The loop counts every item twice, so it reads the last of `k` items with a size of `2k-1`. -/
theorem containerLoop_reads {limit : Int} : ∀ (xs : List α) (x : α) (n : Nat) (size : Int)
    (acc : List β), (∀ y ∈ x :: xs, Reads (f y) g (saved y)) → xs.length < n →
    size + 2 * xs.length + 1 ≤ limit →
    Reads (f x ++ markedItems f xs) (containerLoop g limit n size acc)
      (acc ++ (x :: xs).map saved, size + 2 * (xs.length + 1))
  | _, _, 0, _, _, _, hn, _ => absurd hn (Nat.not_lt_zero _)
  | [], x, n + 1, size, acc, hread, _, hlimit => by
    rw [List.length_nil] at hlimit
    unfold containerLoop
    rw [if_neg (by omega)]
    refine Reads.bind (hread x List.mem_cons_self) ?_
    rw [markedItems_nil, ← List.append_nil (markSerialize false)]
    exact Reads.bind (markDeserialize_reads false) (Reads.pure _)
  | y :: ys, x, n + 1, size, acc, hread, hn, hlimit => by
    rw [List.length_cons] at hn hlimit
    have hrest := @containerLoop_reads limit ys y n (size + 2) (acc ++ [saved x])
      (fun z hz => hread z (List.mem_cons_of_mem _ hz)) (by omega) (by omega)
    have hsize : size + 2 + 2 * ((ys.length : Int) + 1)
        = size + 2 * (((y :: ys).length : Int) + 1) := by
      rw [List.length_cons]
      omega
    rw [List.append_assoc, hsize] at hrest
    unfold containerLoop
    rw [if_neg (by omega), markedItems_cons]
    refine Reads.bind (hread x List.mem_cons_self) ?_
    exact Reads.bind (markDeserialize_reads true) hrest

/-- The loop gives up at the first item that its reader rejects. -/
theorem containerLoop_rejects {limit : Int} : ∀ (xs : List α) (x : α) (n : Nat) (size : Int)
    (acc : List β), (∀ y ∈ x :: xs, Reads (f y) g (saved y) ∨ Rejects (f y) g) →
    (∃ y ∈ x :: xs, Rejects (f y) g) →
    Rejects (f x ++ markedItems f xs) (containerLoop g limit n size acc)
  | _, _, 0, _, _, _, _ => rejects_fail _
  | xs, x, n + 1, size, acc, heach, hbad => by
    unfold containerLoop
    by_cases hlimit : size + 1 > limit
    · rw [if_pos hlimit]
      exact rejects_fail _
    rw [if_neg hlimit]
    rcases heach x List.mem_cons_self with hx | hx
    · refine Rejects.bind_right hx ?_
      obtain ⟨y, hy, hrej⟩ := hbad
      rcases List.mem_cons.mp hy with rfl | hy
      · exact absurd hrej hx.not_rejects
      cases xs with
      | nil => cases hy
      | cons z zs =>
        rw [markedItems_cons]
        refine Rejects.bind_right (markDeserialize_reads true) ?_
        exact containerLoop_rejects zs z n (size + 2) (acc ++ [saved x])
          (fun w hw => heach w (List.mem_cons_of_mem _ hw)) ⟨y, hy, hrej⟩
    · exact Rejects.bind_left hx

/-- An `int` of twice the limit has room for the items, or there are none. -/
def LimitFits (maxSize : Int) (items : List α) : Prop :=
  items = [] ∨ 2 * (items.length : Int) - 1 ≤ cInt (maxSize * 2)

theorem containerDeserialize_reads {maxSize : Int} {items : List α}
    (hread : ∀ x ∈ items, Reads (f x) g (saved x)) (hfits : LimitFits maxSize items) :
    Reads (markedItems f items) (containerDeserialize g (.init maxSize))
      { items := items.map saved, size := 2 * items.length, maxSize := maxSize } := by
  unfold containerDeserialize
  cases items with
  | nil =>
    rw [markedItems_nil, ← List.append_nil (markSerialize false)]
    exact Reads.bind (markDeserialize_reads false) (Reads.pure _)
  | cons x xs =>
    have hlimit := hfits.resolve_left (List.cons_ne_nil x xs)
    rw [List.length_cons] at hlimit
    rw [markedItems_cons]
    refine Reads.bind (markDeserialize_reads true) ?_
    rw [if_pos rfl]
    have hloop := @containerLoop_reads α β f g saved (cInt (maxSize * 2)) xs x
      ((cInt (maxSize * 2)).toNat + 1) 0 [] hread (by omega) (by omega)
    have hret := hloop.ret
      (fun r => ({ (Dls.init maxSize : Dls β) with items := r.1, size := r.2 } : Dls β))
    rw [Int.zero_add] at hret
    exact hret

theorem containerDeserialize_rejects {maxSize : Int} {items : List α}
    (heach : ∀ x ∈ items, Reads (f x) g (saved x) ∨ Rejects (f x) g)
    (hbad : ∃ x ∈ items, Rejects (f x) g) :
    Rejects (markedItems f items) (containerDeserialize g (.init maxSize)) := by
  unfold containerDeserialize
  cases items with
  | nil => simp at hbad
  | cons x xs =>
    rw [markedItems_cons]
    refine Rejects.bind_right (markDeserialize_reads true) ?_
    rw [if_pos rfl, ← List.append_nil (f x ++ markedItems f xs)]
    exact Rejects.bind_left (containerLoop_rejects xs x _ 0 [] heach hbad)

/-- Once `max_size*2` has overflowed, the first item is one too many. -/
theorem containerDeserialize_overflow {maxSize : Int} {items : List α} (hne : items ≠ [])
    (h : cInt (maxSize * 2) < 1) :
    Rejects (markedItems f items) (containerDeserialize g (.init maxSize)) := by
  unfold containerDeserialize
  cases items with
  | nil => exact absurd rfl hne
  | cons x xs =>
    rw [markedItems_cons]
    refine Rejects.bind_right (markDeserialize_reads true) ?_
    rw [if_pos rfl, ← List.append_nil (f x ++ markedItems f xs)]
    refine Rejects.bind_left ?_
    show Rejects _ (containerLoop g (cInt (maxSize * 2)) _ 0 [])
    unfold containerLoop
    rw [if_pos (by omega)]
    exact rejects_fail _

/-- With the limit below `2^30` twice the limit is an `int`. -/
theorem limitFits_of_lt {maxSize : Int} {items : List α} (hlen : (items.length : Int) ≤ maxSize)
    (hlt : maxSize < 2 ^ 30) : LimitFits maxSize items := by
  right
  rw [cInt_eq ⟨by omega, by omega⟩]
  omega

/-- From `2^30` on, an `int` of twice the limit is negative or zero. -/
theorem cInt_double_nonpos {maxSize : Int} (h : IsInt maxSize) (hge : 2 ^ 30 ≤ maxSize) :
    cInt (maxSize * 2) < 1 := by
  obtain ⟨-, hu⟩ := h
  have hmod : maxSize * 2 % (2 ^ 32 : Nat) = maxSize * 2 := by omega
  unfold cInt
  rw [Int.bmod_def, hmod, if_neg (by omega)]
  omega

end Containers

/-! ## Entries -/

/-- A history entry as it is read back. -/
def savedHistoryEntry (entry : HistoryEntry) : HistoryEntry where
  nick := savedBuffer entry.nick
  header := savedBuffer entry.header
  inner := savedBuffer entry.inner
  delay := entry.delay

/-- The history entries within the limits of their reader. -/
structure StorableEntry (entry : HistoryEntry) : Prop where
  nick : bptSize entry.nick ≤ maxJidPartSize
  header : bptSize entry.header ≤ maxHistoryHeaderSize
  inner : bptSize entry.inner ≤ maxHistoryInnerSize
  delay : -2 ^ 63 ≤ entry.delay ∧ entry.delay < 2 ^ 63

theorem historyEntryDeserialize_reads {entry : HistoryEntry} (h : StorableEntry entry) :
    Reads (historyEntrySerialize entry) historyEntryDeserialize (savedHistoryEntry entry) := by
  simp only [historyEntrySerialize, List.flatten_cons, List.flatten_nil]
  refine Reads.bind (bufferDeserialize_reads h.nick (by decide)) ?_
  refine Reads.bind (bufferDeserialize_reads h.header (by decide)) ?_
  refine Reads.bind (bufferDeserialize_reads h.inner (by decide)) ?_
  exact Reads.bind (timeDeserialize_reads h.delay.1 h.delay.2) (Reads.pure _)

/-- A participant as it is read back. -/
def savedParticipant (participant : Participant) : Participant where
  jid := savedJid participant.jid
  nick := savedBuffer participant.nick
  affiliation := participant.affiliation
  role := participant.role
  presence := savedBuffer participant.presence
  lastMessageTime := 0
  affectedList := { included := false, reasonNode := none }

/-- The participants whose data, but for the presence, is within the limits of their reader. -/
structure StorableParticipant (participant : Participant) : Prop where
  jid : SetJid participant.jid
  nick : bptSize participant.nick ≤ maxJidPartSize
  presence : bptSize participant.presence < 2 ^ 31
  affiliation : IsInt participant.affiliation
  role : IsInt participant.role

/-- Such a participant is read back if the text of its JID is one and its presence is not too big. -/
def LoadableParticipant (participant : Participant) : Prop :=
  ¬ EndsAtSign participant.jid ∧ bptSize participant.presence ≤ maxPresenceSize

section Participants

variable {participant : Participant}

/-- A participant as it is read back, with an `int` for whatever its role and affiliation are. -/
def wrappedParticipant (participant : Participant) : Participant :=
  { savedParticipant participant with
    affiliation := cInt participant.affiliation
    role := cInt participant.role }

theorem participantDeserialize_wraps (hjid : SetJid participant.jid)
    (hnick : bptSize participant.nick ≤ maxJidPartSize)
    (hload : LoadableParticipant participant) :
    Reads (participantSerialize participant) participantDeserialize
      (wrappedParticipant participant) := by
  simp only [participantSerialize, List.flatten_cons, List.flatten_nil]
  refine Reads.bind (jidDeserialize_reads hjid hload.1) ?_
  refine Reads.bind (bufferDeserialize_reads hnick (by decide)) ?_
  refine Reads.bind (bufferDeserialize_reads hload.2 (by decide)) ?_
  refine Reads.bind (intDeserialize_wraps participant.affiliation) ?_
  exact Reads.bind (intDeserialize_wraps participant.role) (Reads.pure _)

theorem participantDeserialize_reads (h : StorableParticipant participant)
    (hload : LoadableParticipant participant) :
    Reads (participantSerialize participant) participantDeserialize
      (savedParticipant participant) := by
  have hr := participantDeserialize_wraps h.jid h.nick hload
  unfold wrappedParticipant at hr
  rwa [cInt_eq h.affiliation, cInt_eq h.role] at hr

theorem participantDeserialize_rejects (hjid : SetJid participant.jid)
    (hnick : bptSize participant.nick ≤ maxJidPartSize)
    (hpresence : bptSize participant.presence < 2 ^ 31)
    (hload : ¬ LoadableParticipant participant) :
    Rejects (participantSerialize participant) participantDeserialize := by
  simp only [participantSerialize, List.flatten_cons, List.flatten_nil]
  by_cases hend : EndsAtSign participant.jid
  · exact Rejects.bind_left (jidDeserialize_rejects hjid hend)
  · have hbig : maxPresenceSize < bptSize participant.presence :=
      Nat.lt_of_not_le fun hle => hload ⟨hend, hle⟩
    refine Rejects.bind_right (jidDeserialize_reads hjid hend) ?_
    refine Rejects.bind_right (bufferDeserialize_reads hnick (by decide)) ?_
    exact Rejects.bind_left (bufferDeserialize_rejects hbig hpresence)

end Participants

/-- An affiliation entry as it is read back. -/
def savedAffiliation (affiliation : Affiliation) : Affiliation where
  jid := savedJid affiliation.jid
  reasonNode := savedBuffer affiliation.reasonNode

/-- The affiliation entries within the limits of their reader. -/
structure StorableAffiliation (affiliation : Affiliation) : Prop where
  jid : SetJid affiliation.jid
  loads : ¬ EndsAtSign affiliation.jid
  reasonNode : bptSize affiliation.reasonNode ≤ maxAffiliationReasonSize

theorem affiliationDeserialize_reads {affiliation : Affiliation}
    (h : StorableAffiliation affiliation) :
    Reads (affiliationSerialize affiliation) affiliationDeserialize
      (savedAffiliation affiliation) := by
  simp only [affiliationSerialize, List.flatten_cons, List.flatten_nil]
  refine Reads.bind (jidDeserialize_reads h.jid h.loads) ?_
  exact Reads.bind (bufferDeserialize_reads h.reasonNode (by decide)) (Reads.pure _)

end Mukite
