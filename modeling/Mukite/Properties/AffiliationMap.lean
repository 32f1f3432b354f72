import Mukite.Properties.Lookup
import Mukite.Lib.Machine
import Mukite.Lib.Shelves

/-!
# The affiliation lists are a map

The five lists are the shelves of `Lib.Shelves`, and the bare JID of an entry is its key.
`affiliationss_add` takes the entry of its JID off and files it anew under the same key, so no key
ever occurs twice and the entries of the other keys stay (`affiliations_map`).
-/

namespace Mukite

open Machine Shelves

/-- The entries of each list. -/
def Affiliations.shelves (lists : Affiliations) : Affil → List Affiliation := fun a => (lists a).items

/-- What an entry is found by. -/
def entryKey (entry : Affiliation) : (Bool × Nat × Bytes) × Nat × Bytes := bareKey entry.jid

/-- A node that is there is not empty. -/
def NodeFilled (jid : Jid) : Prop := jid.node ≠ some []

instance (jid : Jid) : Decidable (NodeFilled jid) := inferInstanceAs (Decidable (_ ≠ _))

variable {lists lists' : Affiliations} {who : Option Participant} {affiliation a b : Affil}
  {jid : Jid} {reasonNode : Buffer} {entry : Affiliation} {i : Nat}

/-! ## The shelves -/

theorem shelves_delete (lists : Affiliations) (a : Affil) (i : Nat) :
    (setList lists a ((lists a).delete i)).shelves = takeOff lists.shelves a i := by
  funext b
  unfold Affiliations.shelves takeOff setList
  by_cases hb : b = a
  · subst hb
    rw [if_pos rfl, Function.update_self]
    rfl
  · rw [if_neg hb, Function.update_of_ne hb]

theorem shelves_append (lists : Affiliations) (a : Affil) (entry : Affiliation) :
    (setList lists a ((lists a).append entry)).shelves = putOn lists.shelves a entry := by
  funext b
  unfold Affiliations.shelves putOn setList
  by_cases hb : b = a
  · subst hb
    rw [if_pos rfl, Function.update_self]
    rfl
  · rw [if_neg hb, Function.update_of_ne hb]

theorem jidSetPart_filled (h : NodeFilled jid) : jidSetPart true jid.node = jid.node := by
  unfold jidSetPart
  cases hn : jid.node with
  | none => rfl
  | some n =>
    cases n with
    | nil => exact absurd hn h
    | cons c cs => rfl

/-- The copy that is filed has the key of the JID it is filed for. -/
theorem filedEntry_key (h : NodeFilled jid) (entry : Affiliation) :
    NodeFilled (filedEntry entry jid reasonNode).jid ∧
      entryKey (filedEntry entry jid reasonNode) = bareKey jid := by
  have hset : (filedEntry entry jid reasonNode).jid.node = jid.node := jidSetPart_filled h
  have hhost : bptBytes (filedEntry entry jid reasonNode).jid.host = bptBytes jid.host := rfl
  constructor
  · unfold NodeFilled
    rw [hset]
    exact h
  · simp only [entryKey, bareKey, nodeKey, hostKey, caseKey, bptSize, hset, hhost]

/-! ## The search -/

theorem findByJid_entry (h : affiliationsFindByJid (lists a) jid (jidNode ||| jidHost) = some i) :
    ∃ entry, (lists.shelves a)[i]? = some entry ∧ entryKey entry = bareKey jid := by
  obtain ⟨hi, hkey, -⟩ := List.findIdx?_eq_some_iff_getElem.mp h
  exact ⟨_, List.getElem?_eq_getElem hi, jidCmp_bare.mp (beq_iff_eq.mp hkey)⟩

theorem absent_of_findByJid (h : affiliationsFindByJid (lists a) jid (jidNode ||| jidHost) = none)
    (hm : entry ∈ lists.shelves a) : entryKey entry ≠ bareKey jid := by
  intro hkey
  have hno := List.findIdx?_eq_none_iff.mp h entry hm
  rw [beq_eq_false_iff_ne] at hno
  exact hno (jidCmp_bare.mpr hkey)

theorem existingEntry_some (h : existingEntry lists jid = some (a, i)) :
    ∃ entry, (lists.shelves a)[i]? = some entry ∧ entryKey entry = bareKey jid :=
  findByJid_entry (existingEntry_spec h)

theorem existingEntry_none (h : existingEntry lists jid = none) (hm : entry ∈ lists.shelves a) :
    entryKey entry ≠ bareKey jid := by
  have hno := List.findSome?_eq_none_iff.mp h a (mem_affilAll a)
  exact absent_of_findByJid (Option.map_eq_none_iff.mp hno) hm

/-! ## One call -/

/-- What every state has: a map, whose `AFFIL_NONE` list is empty, with counters that are right. -/
structure MapState (lists : Affiliations) : Prop where
  unique : Unique entryKey lists.shelves
  filled : ∀ a, ∀ entry ∈ lists.shelves a, NodeFilled entry.jid
  noneEmpty : (lists listNone).items = []
  counted : ∀ a, (lists a).Counted

theorem mapState_init (limit : Affil → Int) : MapState (fun a => .init (limit a)) where
  unique := unique_empty
  filled := fun _ _ hm => absurd hm List.not_mem_nil
  noneEmpty := rfl
  counted := fun _ => Dls.counted_init _

/-- **Without the entry of a JID the others are left.** -/
theorem MapState.without (h : MapState lists) (jid : Jid) :
    MapState (withoutEntry lists jid) ∧ ∀ b entry, entry ∈ (withoutEntry lists jid).shelves b ↔
      entry ∈ lists.shelves b ∧ entryKey entry ≠ bareKey jid := by
  unfold withoutEntry
  cases hf : existingEntry lists jid with
  | none =>
    refine ⟨h, fun b entry => ?_⟩
    exact ⟨fun hm => ⟨hm, existingEntry_none hf hm⟩, And.left⟩
  | some found =>
    obtain ⟨a, i⟩ := found
    obtain ⟨x, hx, hkey⟩ := existingEntry_some hf
    dsimp only
    refine ⟨⟨?_, ?_, ?_, ?_⟩, fun b entry => ?_⟩
    · rw [shelves_delete]
      exact h.unique.takeOff
    · intro b entry hm
      rw [shelves_delete] at hm
      exact h.filled b entry (mem_of_mem_takeOff hm)
    · have hsub : ∀ entry, entry ∉ (setList lists a ((lists a).delete i)).shelves listNone := by
        intro entry hm
        rw [shelves_delete] at hm
        have := mem_of_mem_takeOff hm
        rw [Affiliations.shelves, h.noneEmpty] at this
        exact List.not_mem_nil this
      exact List.eq_nil_iff_forall_not_mem.mpr hsub
    · intro b
      unfold setList
      split
      · exact (h.counted a).delete (existingEntry_lt hf)
      · exact h.counted b
    · rw [shelves_delete, h.unique.mem_takeOff hx, hkey]

/-- **Filing a fresh entry below another list than `AFFIL_NONE` keeps the map.** -/
theorem MapState.file (h : MapState lists) (ha : a ≠ listNone)
    (hfilled : NodeFilled entry.jid)
    (hfresh : ∀ b, ∀ y ∈ lists.shelves b, entryKey y ≠ entryKey entry) :
    MapState (setList lists a ((lists a).append entry)) where
  unique := by
    rw [shelves_append]
    exact h.unique.putOn hfresh
  filled := by
    intro b other hm
    rw [shelves_append] at hm
    rcases mem_putOn.mp hm with hm | ⟨-, rfl⟩
    · exact h.filled b other hm
    · exact hfilled
  noneEmpty := by
    rw [setList, if_neg (Ne.symm ha)]
    exact h.noneEmpty
  counted := by
    intro b
    unfold setList
    split
    · exact (h.counted a).append entry
    · exact h.counted b

/-- **A call that returns `TRUE` keeps the map and touches no entry of another JID; its own JID has
one entry in the list that was asked for, or none.** -/
theorem MapState.add (h : MapState lists) (hjid : NodeFilled jid)
    (hadd : affiliationssAdd lists who affiliation jid reasonNode = some lists') :
    MapState lists' ∧
      (∀ b entry, entryKey entry ≠ bareKey jid →
        (entry ∈ lists'.shelves b ↔ entry ∈ lists.shelves b)) ∧
      ∀ b, (∃ entry ∈ lists'.shelves b, entryKey entry = bareKey jid) ↔
        b = affiliation ∧ affiliation ≠ listNone := by
  obtain ⟨hstate, hmem⟩ := h.without jid
  obtain rfl := affiliationssAdd_eq hadd
  rw [moveEntry_eq]
  split
  · next hnone =>
    refine ⟨hstate, fun b entry hne => ?_, fun b => ?_⟩
    · rw [hmem, and_iff_left hne]
    · constructor
      · rintro ⟨entry, hm, hkey⟩
        exact absurd hkey ((hmem b entry).mp hm).2
      · rintro ⟨-, hno⟩
        exact absurd hnone hno
  · next hnone =>
    generalize hfiled : filedEntry _ jid reasonNode = filed
    obtain ⟨hfill, hkey⟩ : NodeFilled filed.jid ∧ entryKey filed = bareKey jid := by
      rw [← hfiled]
      exact filedEntry_key hjid _
    have hfresh : ∀ b, ∀ y ∈ (withoutEntry lists jid).shelves b, entryKey y ≠ entryKey filed := by
      intro b y hy
      rw [hkey]
      exact ((hmem b y).mp hy).2
    refine ⟨hstate.file hnone hfill hfresh, fun b entry hne => ?_, fun b => ?_⟩
    · rw [shelves_append, mem_putOn, hmem, and_iff_left hne, or_iff_left]
      rintro ⟨-, rfl⟩
      exact hne hkey
    · rw [shelves_append, and_iff_left hnone]
      constructor
      · rintro ⟨entry, hm, hk⟩
        rcases mem_putOn.mp hm with hm | ⟨hb, -⟩
        · exact absurd hk ((hmem b entry).mp hm).2
        · exact hb
      · rintro rfl
        exact ⟨filed, mem_putOn.mpr (.inr ⟨rfl, rfl⟩), hkey⟩

/-! ## The map -/

/-- The affiliation of an exact match: the first search of `affiliationss_get_by_jid`. -/
def exactAffiliation (lists : Affiliations) (jid : Jid) : Option Affil :=
  firstListWith lists jid (jidNode ||| jidHost)

/-- The exact match that `affiliationss_add` finds, with the reason stored there. -/
def exactEntry (lists : Affiliations) (jid : Jid) : Option (Affil × Buffer) :=
  (existingEntry lists jid).bind fun found =>
    ((lists found.1).items[found.2]?).map fun entry => (found.1, entry.reasonNode)

theorem MapState.exactAffiliation_eq_some (h : MapState lists) :
    exactAffiliation lists jid = some a ↔
      ∃ entry ∈ lists.shelves a, entryKey entry = bareKey jid := by
  unfold exactAffiliation
  rw [firstListWith_bare, lowestList_eq_some_iff]
  unfold Holds ownEntry
  simp only [beq_iff_eq]
  refine ⟨And.left, fun ha => ⟨ha, ?_⟩⟩
  obtain ⟨entry, hm, hkey⟩ := ha
  rintro b ⟨other, hother, hk⟩
  exact le_of_eq (h.unique.entry hm hother (hkey.trans hk.symm)).1

theorem MapState.exactEntry_eq_some (h : MapState lists) {reason : Buffer} :
    exactEntry lists jid = some (a, reason) ↔
      ∃ entry ∈ lists.shelves a, entryKey entry = bareKey jid ∧ entry.reasonNode = reason := by
  unfold exactEntry
  cases hf : existingEntry lists jid with
  | none =>
    constructor
    · intro hn
      cases hn
    · rintro ⟨entry, hm, hkey, -⟩
      exact absurd hkey (existingEntry_none hf hm)
  | some found =>
    obtain ⟨b, i⟩ := found
    obtain ⟨x, hx, hkey⟩ := existingEntry_some hf
    have hget : (lists b).items[i]? = some x := hx
    have hxm : x ∈ lists.shelves b := List.mem_of_getElem? hx
    rw [Option.bind_some, hget, Option.map_some, Option.some.injEq, Prod.mk.injEq]
    constructor
    · rintro ⟨rfl, rfl⟩
      exact ⟨x, hxm, hkey, rfl⟩
    · rintro ⟨entry, hm, hk, rfl⟩
      obtain ⟨rfl, rfl⟩ := h.unique.entry hxm hm (hkey.trans hk.symm)
      exact ⟨rfl, rfl⟩

/-! ## Runs -/

/-- The arguments of a call of `affiliationss_add`. -/
structure AddCall where
  sender : Option Participant
  affiliation : Affil
  jid : Jid
  reasonNode : Buffer

/-- A call with its result; the lists stay as they were when it is `FALSE`. -/
def addStep : Machine.Step Affiliations AddCall Bool := fun lists call =>
  match affiliationssAdd lists call.sender call.affiliation call.jid call.reasonNode with
  | some lists' => some (lists', true)
  | none => some (lists, false)

theorem addStep_cases {call : AddCall} {ok : Bool} (h : addStep lists call = some (lists', ok)) :
    (ok = true ∧
        affiliationssAdd lists call.sender call.affiliation call.jid call.reasonNode
          = some lists') ∨
      (ok = false ∧ lists' = lists) := by
  unfold addStep at h
  split at h
  · next hadd =>
    cases h
    exact .inl ⟨rfl, hadd⟩
  · cases h
    exact .inr ⟨rfl, rfl⟩

theorem mapState_reach {limit : Affil → Int}
    (h : Reach addStep (fun _ call => NodeFilled call.jid) (fun a => .init (limit a)) lists) :
    MapState lists := by
  refine h.invariant (mapState_init limit) fun lists call lists' ok hs hjid hstep => ?_
  rcases addStep_cases hstep with ⟨-, hadd⟩ | ⟨-, rfl⟩
  · exact (hs.add hjid hadd).1
  · exact hs

/--
**The affiliation lists are a map.** After every sequence of calls that starts with empty lists no
two entries have the same bare JID, the list `AFFIL_NONE` is empty and the counters are right. A
further call that returns `TRUE` gives its JID the affiliation and leaves the affiliation and the
reason of every other bare JID; one that returns `FALSE` changes nothing.
-/
theorem affiliations_map {limit : Affil → Int} {lists : Affiliations}
    (h : Reach addStep (fun _ call => NodeFilled call.jid) (fun a => .init (limit a)) lists) :
    (∀ (a b : Affil) (i j : Nat) (entry other : Affiliation), (lists a).items[i]? = some entry →
        (lists b).items[j]? = some other →
        jidCmp entry.jid other.jid (jidNode ||| jidHost) = 0 → a = b ∧ i = j) ∧
      (lists listNone).items = [] ∧ (∀ a, (lists a).Counted) ∧
      ∀ call lists' ok, NodeFilled call.jid → addStep lists call = some (lists', ok) →
        (ok = true →
          exactAffiliation lists' call.jid
              = (if call.affiliation = listNone then none else some call.affiliation) ∧
            ∀ jid, jidCmp jid call.jid (jidNode ||| jidHost) ≠ 0 →
              exactAffiliation lists' jid = exactAffiliation lists jid ∧
                exactEntry lists' jid = exactEntry lists jid) ∧
        (ok = false → lists' = lists) := by
  have hs := mapState_reach h
  refine ⟨?_, hs.noneEmpty, hs.counted, ?_⟩
  · intro a b i j entry other hi hj hcmp
    exact hs.unique.place hi hj (jidCmp_bare.mp hcmp)
  intro call lists' ok hjid hstep
  rcases addStep_cases hstep with ⟨rfl, hadd⟩ | ⟨rfl, rfl⟩
  · obtain ⟨hs', hframe, hown⟩ := hs.add hjid hadd
    refine ⟨fun _ => ⟨?_, fun jid hne => ?_⟩, fun hno => absurd hno.symm Bool.false_ne_true⟩
    · refine Option.ext fun b => ?_
      rw [hs'.exactAffiliation_eq_some, hown b]
      split <;> simp_all [eq_comm]
    · have hkey : bareKey jid ≠ bareKey call.jid := fun he => hne (jidCmp_bare.mpr he)
      have hmem : ∀ b entry, entryKey entry = bareKey jid →
          (entry ∈ lists'.shelves b ↔ entry ∈ lists.shelves b) := by
        intro b entry he
        exact hframe b entry (he ▸ hkey)
      constructor
      · refine Option.ext fun b => ?_
        rw [hs'.exactAffiliation_eq_some, hs.exactAffiliation_eq_some]
        refine exists_congr fun entry => ?_
        rw [and_congr_left_iff]
        exact hmem b entry
      · refine Option.ext fun found => ?_
        obtain ⟨b, reason⟩ := found
        rw [hs'.exactEntry_eq_some, hs.exactEntry_eq_some]
        refine exists_congr fun entry => ?_
        rw [and_congr_left_iff]
        exact fun he => hmem b entry he.1
  · refine ⟨fun hno => absurd hno Bool.false_ne_true, fun _ => rfl⟩

/-- A call of the program's own. -/
def fileFor (affiliation : Affil) (jid : Jid) : AddCall where
  sender := none
  affiliation := affiliation
  jid := jid
  reasonNode := none

/-- `Alice@h` is made an owner, `bob@h` is banned. -/
def filings : List AddCall :=
  [fileFor listOwner (bareJid "Alice" "h"), fileFor listOutcast (bareJid "bob" "h")]

/-- The result for two JIDs: when `bob@h` becomes a member he is in no other list, and `Alice@h`,
who is found as `alice@h` as well, stays an owner. -/
theorem affiliations_map_aliceAndBob : ∃ lists lists',
    Machine.run addStep (fun _ => .init 10) filings = some lists ∧
      exactAffiliation lists (bareJid "bob" "h") = some listOutcast ∧
      addStep lists (fileFor listMember (bareJid "bob" "h")) = some (lists', true) ∧
      exactAffiliation lists' (bareJid "bob" "h") = some listMember ∧
      exactAffiliation lists' (bareJid "alice" "h") = some listOwner ∧
      (lists' listNone).items = [] ∧ (∀ a, (lists' a).Counted) ∧
      ∀ (a b : Affil) (i j : Nat) (entry other : Affiliation), (lists' a).items[i]? = some entry →
        (lists' b).items[j]? = some other →
        jidCmp entry.jid other.jid (jidNode ||| jidHost) = 0 → a = b ∧ i = j := by
  have hany : (Machine.run addStep (fun _ => .init 10) filings).any (fun lists =>
      exactAffiliation lists (bareJid "bob" "h") == some listOutcast &&
        exactAffiliation lists (bareJid "alice" "h") == some listOwner &&
        (affiliationssAdd lists none listMember (bareJid "bob" "h") none).isSome) = true := by
    decide +kernel
  obtain ⟨lists, hrun, hlists⟩ := (Option.any_eq_true _ _).mp hany
  simp only [Bool.and_eq_true, beq_iff_eq, Option.isSome_iff_exists] at hlists
  obtain ⟨⟨hbob, halice⟩, lists', hadd⟩ := hlists
  have hstep : addStep lists (fileFor listMember (bareJid "bob" "h")) = some (lists', true) := by
    unfold addStep fileFor
    rw [hadd]
  have hfilled : ∀ call ∈ filings, NodeFilled call.jid := by decide
  have hreach : Reach addStep (fun _ call => NodeFilled call.jid) (fun _ => .init 10) lists :=
    .run .start (fun _ => hfilled) hrun
  have hjid : NodeFilled (fileFor listMember (bareJid "bob" "h")).jid := by decide
  obtain ⟨-, -, -, hcall⟩ := affiliations_map hreach
  obtain ⟨heffect, hframe⟩ := (hcall _ lists' true hjid hstep).1 rfl
  obtain ⟨honce, hnone, hcounted, -⟩ := affiliations_map (hreach.next hjid hstep)
  exact ⟨lists, lists', hrun, hbob, hstep, heffect,
    (hframe (bareJid "alice" "h") (by decide)).1.trans halice, hnone, hcounted, honce⟩

end Mukite
