import Mukite.Affiliation
import Mukite.Properties.DataFile
import Mukite.Properties.JidGrammar

/-!
# Copies of a JID

The room keeps copies of JIDs (`jid_set`), and the data file has their text. `jid_set` takes an
empty node or resource for one that is not there, `jid_cmp` does not. So a copy is another JID
than its source if and only if the source has such a part: if its text begins with `@`, or ends
with its first `/` (`keptJid_iff`). All other JIDs are kept as they are, in the room and in the file.
-/

namespace Mukite

open Codec

variable {jid stored : Jid} {s : Bytes}

/-! ## What it is to be kept -/

/--
An occupant kept under `stored` is found by a search for `jid`, in every list in which no other
one is.
-/
def FindsOccupant (stored jid : Jid) : Prop :=
  ∀ (list : ParticipantsList) (addr : Nat) (p : Participant), (addr, p) ∈ list.nodes.nodes →
    p.jid = stored → (∀ other ∈ list.nodes.nodes,
      jidCmp other.2.jid jid (findByJidMode jid) = 0 → other = (addr, p)) →
    participantsFindByJid list jid = some (addr, p)

/-- The same for an entry of an affiliations list, which keeps a bare JID. -/
def FindsEntry (stored jid : Jid) : Prop :=
  ∀ (list : AffiliationsList) (i : Nat) (entry : Affiliation), list.items[i]? = some entry →
    entry.jid = stored → (∀ k other, list.items[k]? = some other →
      jidCmp other.jid jid (jidNode ||| jidHost) = 0 → k = i) →
    affiliationsFindByJid list jid (jidNode ||| jidHost) = some i

/-- The JID that is read from the text of `stored`, whatever follows in the file, has a property. -/
def Restored (stored : Jid) (P : Jid → Prop) : Prop :=
  ∃ jid, Reads (jidSerialize stored) jidDeserialize jid ∧ P jid

/-- The copies of a JID are still the same JID, before and after a restart. -/
structure KeptJid (jid : Jid) : Prop where
  copy : jidCmp (jidSet jid jidFull) jid jidFull = 0
  restored : Restored (jidSet jid jidFull) (fun read => jidCmp read jid jidFull = 0)
  occupant : FindsOccupant (jidSet jid jidFull) jid
  restoredOccupant : Restored (jidSet jid jidFull) (fun read => FindsOccupant read jid)
  entry : FindsEntry (jidSet jid (jidNode ||| jidHost)) jid
  restoredEntry : Restored (jidSet jid (jidNode ||| jidHost)) (fun read => FindsEntry read jid)

/-! ## Searches -/

theorem findsOccupant (h : jidCmp stored jid (findByJidMode jid) = 0) : FindsOccupant stored jid := by
  intro list addr p hmem hjid honly
  cases hfound : participantsFindByJid list jid with
  | none =>
    have hne := NodeList.find?_eq_none hfound addr p hmem
    rw [hjid, h] at hne
    cases hne
  | some other =>
    obtain ⟨hother, hcmp⟩ := NodeList.mem_of_find? hfound
    rw [honly other hother (by simpa using hcmp)]

theorem findsEntry (h : jidCmp stored jid (jidNode ||| jidHost) = 0) : FindsEntry stored jid := by
  intro list i entry hentry hjid honly
  cases hfound : affiliationsFindByJid list jid (jidNode ||| jidHost) with
  | none =>
    have hne := List.findIdx?_eq_none_iff.mp hfound entry (List.mem_of_getElem? hentry)
    rw [hjid, h] at hne
    cases hne
  | some k =>
    obtain ⟨hk, hcmp, -⟩ := List.findIdx?_eq_some_iff_getElem.mp hfound
    rw [honly k _ (List.getElem?_eq_getElem hk) (by simpa using hcmp)]

/-- In a list of its own an entry is found only if it is equal. -/
theorem FindsEntry.cmp (h : FindsEntry stored jid) : jidCmp stored jid (jidNode ||| jidHost) = 0 := by
  let entry : Affiliation := { jid := stored, reasonNode := none }
  have honly : ∀ k other, [entry][k]? = some other →
      jidCmp other.jid jid (jidNode ||| jidHost) = 0 → k = 0 := by
    intro k other hk _
    cases k with
    | zero => rfl
    | succ k => cases hk
  have hfound := h { items := [entry], size := 1, maxSize := 1 } 0 entry rfl rfl honly
  obtain ⟨_, hcmp, -⟩ := List.findIdx?_eq_some_iff_getElem.mp hfound
  exact beq_iff_eq.mp hcmp

/-! ## Copies -/

/-- A JID is equal to itself. -/
theorem jidCmp_self_full (jid : Jid) : jidCmp jid jid jidFull = 0 := jidCmp_full.mpr rfl

theorem jidSetPart_full {part : Buffer} (h : part ≠ some []) : jidSetPart true part = part := by
  cases part with
  | none => rfl
  | some b =>
    have hb : b.length ≠ 0 := fun h0 => h (congrArg some (List.length_eq_zero_iff.mp h0))
    simp [jidSetPart, hb]

/-- Without an empty part the copy is the JID itself. -/
theorem jidSet_full (hhost : jid.host.isSome) (hnode : jid.node ≠ some [])
    (hres : jid.resource ≠ some []) : jidSet jid jidFull = jid := by
  obtain ⟨node, host, resource⟩ := jid
  obtain ⟨host, rfl⟩ := Option.isSome_iff_exists.mp hhost
  have hn := jidSetPart_full hnode
  have hr := jidSetPart_full hres
  unfold jidSet
  rw [show modeHas jidFull jidNode = true from rfl,
    show modeHas jidFull jidResource = true from rfl, hn, hr]
  rfl

/-- A copy of a JID with an empty part is another JID. -/
theorem jidCmp_copy_iff (hhost : jid.host.isSome) :
    jidCmp (jidSet jid jidFull) jid jidFull = 0 ↔ jid.node ≠ some [] ∧ jid.resource ≠ some [] := by
  constructor
  · intro h
    have hkey := jidCmp_full.mp h
    simp only [fullKey, bareKey, nodeKey, Prod.mk.injEq] at hkey
    obtain ⟨⟨⟨hnode, -⟩, -⟩, hres⟩ := hkey
    refine ⟨fun he => ?_, fun he => ?_⟩
    · have hnone : (jidSet jid jidFull).node = none := by
        show jidSetPart true jid.node = none
        rw [he]
        rfl
      rw [hnone, he] at hnode
      cases hnode
    · exact jidSetPart_ne_empty (hres.trans he)
  · rintro ⟨hnode, hres⟩
    rw [jidSet_full hhost hnode hres]
    exact jidCmp_self_full jid

/-! ## The text of a copy -/

/-- The parts of a text that are empty but not missing. -/
theorem grammarJid_node_empty_iff (s : Bytes) :
    (grammarJid s).node = some [] ↔ s.head? = some (ch '@') := by
  have hne : ch '@' ≠ ch '/' := by decide
  unfold grammarJid bareText
  dsimp only
  cases s with
  | nil => simp
  | cons c rest =>
    by_cases hat : c = ch '@'
    · subst hat
      rw [Cut.front_cons_ne hne, Cut.back_cons_self, Cut.front_cons_self]
      simp
    · by_cases hslash : c = ch '/'
      · subst hslash
        simp [hat]
      · rw [Cut.front_cons_ne hslash, Cut.front_cons_ne hat]
        simp [hat]

/-- A host without a node before it has no `@`. -/
theorem grammarJid_host_plain (h : (grammarJid s).node = none) :
    ch '@' ∉ bptBytes (grammarJid s).host := by
  have hnone := (grammarJid_node_none s).mp h
  have hback := Cut.back_eq_none_iff.mpr hnone
  unfold grammarJid
  rw [hback]
  exact hnone

/-- What is read back of a copy of a JID whose node is not empty. -/
theorem restored_copy {P : Jid → Prop} {parts : Nat} (h : jidStruct s = some jid)
    (hnode : jid.node ≠ some []) (hparts : modeHas parts jidNode = true)
    (hP : P (jidSet jid parts)) : Restored (jidSet jid parts) P := by
  have hset : SetJid (jidSet jid parts) := .parsed ⟨s, h⟩ parts
  have hat : (jidSet jid parts).node = none → ch '@' ∉ bptBytes (jidSet jid parts).host := by
    intro hn
    have hnone : jid.node = none := by
      have hpart : jidSetPart (modeHas parts jidNode) jid.node = none := hn
      rwa [hparts, jidSetPart_full hnode] at hpart
    obtain rfl := grammarJid_of_struct h
    exact grammarJid_host_plain hnone
  have hend : ¬ EndsAtSign (jidSet jid parts) := by
    rintro ⟨hn, front, -, hhost⟩
    refine hat hn ?_
    rw [hhost]
    exact List.mem_append_right front List.mem_cons_self
  have hreads := jidDeserialize_reads hset hend
  rw [savedJid_eq hset hat] at hreads
  exact ⟨_, hreads, hP⟩

/--
**When a copy is still the same JID.** For every text that `jid_struct` accepts: the copy of the
JID, and what is read back from its text, are equal to the JID, and what is stored under it is
found by it, if and only if the text does not begin with `@` and its first `/` is not its last
character.
-/
theorem keptJid_iff (h : jidStruct s = some jid) :
    KeptJid jid ↔ s.head? ≠ some (ch '@') ∧ Cut.back (ch '/') s ≠ some [] := by
  have hhost : jid.host.isSome := ParsedJid.cut ⟨s, h⟩ |>.isSome
  have hempty : jid.node ≠ some [] ∧ jid.resource ≠ some [] ↔
      s.head? ≠ some (ch '@') ∧ Cut.back (ch '/') s ≠ some [] := by
    obtain rfl := grammarJid_of_struct h
    rw [ne_eq, ne_eq, ne_eq, grammarJid_node_empty_iff]
    exact Iff.rfl
  rw [← hempty]
  refine ⟨fun hkept => (jidCmp_copy_iff hhost).mp hkept.copy, ?_⟩
  rintro ⟨hnode, hres⟩
  have hfull := jidSet_full hhost hnode hres
  have hself := jidCmp_self_full jid
  have hoccupant : FindsOccupant (jidSet jid jidFull) jid := by
    refine findsOccupant ?_
    rw [hfull]
    unfold findByJidMode
    split
    · exact jidCmp_bare.mpr rfl
    · exact hself
  have hentry : FindsEntry (jidSet jid (jidNode ||| jidHost)) jid := by
    refine findsEntry (jidCmp_bare.mpr ?_)
    have hbare : (jidSet jid (jidNode ||| jidHost)).node = jid.node := jidSetPart_full hnode
    unfold bareKey nodeKey
    rw [hbare]
    rfl
  exact ⟨(jidCmp_copy_iff hhost).mpr ⟨hnode, hres⟩,
    restored_copy h hnode rfl ((jidCmp_copy_iff hhost).mpr ⟨hnode, hres⟩), hoccupant,
    restored_copy h hnode rfl hoccupant, hentry, restored_copy h hnode rfl hentry⟩

/-- A JID as the server writes it is kept. -/
theorem keptJid_iff_alice : ∃ jid, jidStruct (lit "alice@h/pc") = some jid ∧ KeptJid jid := by
  obtain ⟨jid, hjid⟩ := Option.isSome_iff_exists.mp
    (show (jidStruct (lit "alice@h/pc")).isSome = true by decide)
  exact ⟨jid, hjid, (keptJid_iff hjid).mpr ⟨by decide, by decide⟩⟩

/-- `@h` is a JID; its copy is another one, and the entry that is filed under it, which stands for
the whole domain `h`, is not found again. -/
theorem emptyNode_lost : ∃ jid, jidStruct (lit "@h") = some jid ∧
    jidCmp (jidSet jid jidFull) jid jidFull = 1 ∧
    ¬ FindsEntry (jidSet jid (jidNode ||| jidHost)) jid := by
  refine ⟨{ node := some [], host := some (lit "h"), resource := none }, by decide, by decide, ?_⟩
  intro hfinds
  have hcmp := hfinds.cmp
  revert hcmp
  decide

end Mukite
