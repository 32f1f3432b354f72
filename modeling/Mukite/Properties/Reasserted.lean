import Mukite.Properties.AffiliationMap
import Mukite.Properties.Saved

/-!
# Asserting an affiliation again

A client that edits an affiliation list sends back entries as it received them. An owner may file
an entry in the list it is in already: an entry of its JID is taken off and filed anew. Two things
can go wrong (`reassert_iff`):

* The only owner is refused its own entry, because the guard meant for a demotion does not look at
  the new affiliation.
* The entry that is taken off need not be the one that was sent back. A node that is there and
  empty is filed as none, but not found as none, so the domain of such a JID may have any number of
  entries. The one that is taken off is the first of them, in the lowest list.

The lists are therefore no map here, and the proofs count how many entries of a JID a list has.
-/

namespace Mukite

open Codec Machine Shelves

variable {lists lists' : Affiliations} {who : Option Participant} {sender : Participant}
  {a b c : Affil} {jid other : Jid} {reasonNode : Buffer} {entry : Affiliation} {i : Nat}

/-! ## The states -/

/-- The lists of a room before the first stanza comes to it. -/
inductive FirstLists : Affiliations → Prop
  | empty (limit : Affil → Int) : FirstLists (fun a => .init (limit a))
  | loaded (input rest : Bytes) (room : Room) (h : roomDeserialize input = some (room, rest)) :
      FirstLists room.affiliations

/-- A state of the lists: any calls of `affiliationss_add` may have been made. -/
def ListsState (lists : Affiliations) : Prop :=
  ∃ start, FirstLists start ∧ Reach addStep (fun _ _ => True) start lists

/-- Nothing is ever filed under `AFFIL_NONE`. -/
def NoneEmpty (lists : Affiliations) : Prop := (lists listNone).items = []

theorem roomDeserialize_noneEmpty :
    Yields (fun room => NoneEmpty room.affiliations) roomDeserialize := by
  unfold roomDeserialize
  iterate 17 refine Yields.bind_right fun _ => ?_
  exact Yields.pure rfl

theorem FirstLists.noneEmpty (h : FirstLists lists) : NoneEmpty lists := by
  cases h with
  | empty limit => rfl
  | loaded input rest room hread => exact roomDeserialize_noneEmpty input room rest hread

theorem NoneEmpty.add (h : NoneEmpty lists)
    (hadd : affiliationssAdd lists who a jid reasonNode = some lists') : NoneEmpty lists' := by
  have hwithout : NoneEmpty (withoutEntry lists jid) := by
    unfold withoutEntry
    cases existingEntry lists jid with
    | none => exact h
    | some found =>
      show (setList lists found.1 _ listNone).items = []
      unfold setList
      split
      · next hnone =>
        rw [← hnone, Dls.items_delete, h, List.eraseIdx_nil]
      · exact h
  obtain rfl := affiliationssAdd_eq hadd
  rw [moveEntry_eq]
  split
  · exact hwithout
  · next hne =>
    unfold NoneEmpty setList
    rw [if_neg (Ne.symm hne)]
    exact hwithout

theorem ListsState.noneEmpty (h : ListsState lists) : NoneEmpty lists := by
  obtain ⟨start, hstart, hreach⟩ := h
  refine hreach.invariant hstart.noneEmpty fun lists call lists' ok hs _ hstep => ?_
  rcases addStep_cases hstep with ⟨-, hadd⟩ | ⟨-, rfl⟩
  · exact hs.add hadd
  · exact hs

/-! ## The conditions -/

/-- The entry that is found for the JID is the only one in the owner list, and the sender's own. -/
def SoleOwner (lists : Affiliations) (sender : Participant) (jid : Jid) : Prop :=
  exactAffiliation lists jid = some listOwner ∧ (lists listOwner).items.length = 1 ∧
    jidCmp sender.jid jid (jidNode ||| jidHost) = 0

/-- How many entries of a list have the bare JID. -/
def entriesOf (affiliations : AffiliationsList) (jid : Jid) : Nat :=
  affiliations.items.countP (fun current => jidCmp current.jid jid (jidNode ||| jidHost) == 0)

/--
An entry of list `a` may be filed there again without a change. Either it is in the lowest list
with an entry of its bare JID, and its node is not an empty one; or that lowest list has another
entry of the bare JID, and the JID that is filed has an entry in list `a` or below.
-/
def InPlace (lists : Affiliations) (a : Affil) (jid : Jid) : Prop :=
  (exactAffiliation lists jid = some a ∧ NodeFilled jid) ∨
    ∃ b c, exactAffiliation lists jid = some b ∧ 2 ≤ entriesOf (lists b) jid ∧
      exactAffiliation lists (jidSet jid (jidNode ||| jidHost)) = some c ∧ c ≤ a

/-! ## Counting the entries of a JID -/

/-- How many entries of a list have a key. -/
abbrev Affiliations.count (lists : Affiliations) (a : Affil)
    (k : (Bool × Nat × Bytes) × Nat × Bytes) : Nat :=
  keyCount entryKey lists.shelves a k

theorem entriesOf_eq (lists : Affiliations) (a : Affil) (jid : Jid) :
    entriesOf (lists a) jid = lists.count a (bareKey jid) := by
  unfold entriesOf Affiliations.count keyCount keyTimes List.count
  rw [List.countP_map]
  refine List.countP_congr fun entry _ => ?_
  simp only [Function.comp_apply, beq_iff_eq, jidCmp_bare]
  exact Iff.rfl

theorem count_pos_of_mem (hm : entry ∈ (lists a).items) :
    0 < lists.count a (bareKey entry.jid) := keyCount_pos.mpr ⟨entry, hm, rfl⟩

/-- The affiliation of an exact match is the lowest list with an entry of the key. -/
theorem exactAffiliation_iff : exactAffiliation lists jid = some a ↔
    0 < lists.count a (bareKey jid) ∧ ∀ b, 0 < lists.count b (bareKey jid) → a ≤ b := by
  have hholds : ∀ b, Holds lists (ownEntry jid) b ↔ 0 < lists.count b (bareKey jid) := by
    intro b
    unfold Holds ownEntry
    simp only [beq_iff_eq]
    exact keyCount_pos.symm
  unfold exactAffiliation
  rw [firstListWith_bare, lowestList_eq_some_iff, hholds]
  exact and_congr_right fun _ => forall_congr' fun b => by rw [hholds]

theorem exactAffiliation_le (h : exactAffiliation lists jid = some b)
    (ha : 0 < lists.count a (bareKey jid)) : b ≤ a := (exactAffiliation_iff.mp h).2 a ha

theorem exactAffiliation_congr
    (h : ∀ a, 0 < lists'.count a (bareKey jid) ↔ 0 < lists.count a (bareKey jid)) :
    exactAffiliation lists' jid = exactAffiliation lists jid := by
  refine Option.ext fun b => ?_
  rw [exactAffiliation_iff, exactAffiliation_iff, h]
  exact and_congr_right fun _ => forall_congr' fun c => by rw [h]

/-- It depends on the bare JID only. -/
theorem exactAffiliation_of_key (h : bareKey other = bareKey jid) :
    exactAffiliation lists other = exactAffiliation lists jid := by
  refine Option.ext fun b => ?_
  rw [exactAffiliation_iff, exactAffiliation_iff, h]

/-- The first hit of a search and the list in which it is. -/
theorem map_fst_findSome? {ι β : Type} (g : ι → Option β) : ∀ l : List ι,
    (l.findSome? (fun a => (g a).map (fun x => (a, x)))).map Prod.fst
      = l.find? (fun a => (g a).isSome)
  | [] => rfl
  | a :: l => by
    rw [List.findSome?_cons, List.find?_cons]
    cases hg : g a with
    | none => exact map_fst_findSome? g l
    | some x => rfl

/-- The existing entry is searched for where the exact match is. -/
theorem exactAffiliation_eq_fst :
    exactAffiliation lists jid = (existingEntry lists jid).map Prod.fst :=
  (map_fst_findSome? _ _).symm

theorem existingEntry_of_count (h : 0 < lists.count a (bareKey jid)) :
    ∃ b i, existingEntry lists jid = some (b, i) ∧ b ≤ a := by
  cases hf : existingEntry lists jid with
  | none =>
    obtain ⟨entry, hm, hkey⟩ := keyCount_pos.mp h
    exact absurd hkey (existingEntry_none hf hm)
  | some found =>
    obtain ⟨b, i⟩ := found
    refine ⟨b, i, rfl, exactAffiliation_le ?_ h⟩
    rw [exactAffiliation_eq_fst, hf]
    rfl

theorem exactAffiliation_of_count (h : 0 < lists.count a (bareKey jid)) :
    ∃ b, exactAffiliation lists jid = some b ∧ b ≤ a := by
  obtain ⟨b, i, hf, hle⟩ := existingEntry_of_count h
  refine ⟨b, ?_, hle⟩
  rw [exactAffiliation_eq_fst, hf]
  rfl

/-! ## One entry -/

/-- The key under which an entry is filed is the one it is found by, unless its node is empty. -/
theorem bareKey_jidSet : bareKey (jidSet jid (jidNode ||| jidHost)) = bareKey jid ↔
    NodeFilled jid := by
  constructor
  · rintro hkey hempty
    have hnone := congrArg (fun k => k.1.1) hkey
    simp [bareKey, nodeKey, jidSet, jidSetPart, modeHas, bptSize, hempty] at hnone
  · intro hfilled
    exact (@filedEntry_key jid none hfilled affiliationInit).2

/-- What a call does that finds an entry and files it in another list than `AFFIL_NONE`. -/
theorem shelves_add (hf : existingEntry lists jid = some (b, i)) (hnone : a ≠ listNone)
    (hadd : affiliationssAdd lists who a jid reasonNode = some lists') :
    ∃ entry, lists'.shelves
      = putOn (takeOff lists.shelves b i) a (filedEntry entry jid reasonNode) := by
  have hwithout : (withoutEntry lists jid).shelves = takeOff lists.shelves b i := by
    unfold withoutEntry
    rw [hf]
    exact shelves_delete lists b i
  obtain rfl := affiliationssAdd_eq hadd
  rw [moveEntry_eq, if_neg hnone, shelves_append, hwithout]
  exact ⟨_, rfl⟩

/-- **The counts of such a call.** -/
theorem count_add (hf : existingEntry lists jid = some (b, i)) (hnone : a ≠ listNone)
    (hadd : affiliationssAdd lists who a jid reasonNode = some lists') (c : Affil)
    (k : (Bool × Nat × Bytes) × Nat × Bytes) :
    lists'.count c k + (if c = b ∧ k = bareKey jid then 1 else 0)
      = lists.count c k +
        if c = a ∧ k = bareKey (jidSet jid (jidNode ||| jidHost)) then 1 else 0 := by
  obtain ⟨x, hx, hkey⟩ := existingEntry_some hf
  obtain ⟨entry, hshelves⟩ := shelves_add hf hnone hadd
  have htaken := @keyCount_takeOff _ _ _ entryKey lists.shelves b c x i _ _ k hx
  rw [hkey] at htaken
  unfold Affiliations.count
  rw [hshelves, keyCount_putOn, ← htaken]
  have hfiled : entryKey (filedEntry entry jid reasonNode)
      = bareKey (jidSet jid (jidNode ||| jidHost)) := rfl
  rw [hfiled]
  omega

theorem length_add (hf : existingEntry lists jid = some (b, i)) (hnone : a ≠ listNone)
    (hadd : affiliationssAdd lists who a jid reasonNode = some lists') (c : Affil) :
    (lists' c).items.length + (if c = b then 1 else 0)
      = (lists c).items.length + if c = a then 1 else 0 := by
  obtain ⟨entry, hshelves⟩ := shelves_add hf hnone hadd
  have hlt := existingEntry_lt hf
  have hlist : (lists' c).items = putOn (takeOff lists.shelves b i) a
      (filedEntry entry jid reasonNode) c :=
    congrFun hshelves c
  have htaken : (takeOff lists.shelves b i c).length + (if c = b then 1 else 0)
      = (lists c).items.length := by
    unfold takeOff
    by_cases hc : c = b
    · subst hc
      rw [Function.update_self, if_pos rfl, Affiliations.shelves,
        List.length_eraseIdx_of_lt hlt]
      omega
    · rw [Function.update_of_ne hc, if_neg hc]
      rfl
  rw [hlist, ← htaken]
  unfold putOn
  by_cases hc : c = a
  · subst hc
    rw [Function.update_self, List.length_append, if_pos rfl, List.length_singleton]
    omega
  · rw [Function.update_of_ne hc, if_neg hc]
    rfl

/-- **Filing an entry of list `a` there again changes nobody's affiliation if and only if the entry
stays put.** -/
theorem unchanged_iff (hf : existingEntry lists jid = some (b, i)) (hnone : a ≠ listNone)
    (hadd : affiliationssAdd lists who a jid reasonNode = some lists') :
    (∀ other, exactAffiliation lists' other = exactAffiliation lists other) ↔
      InPlace lists a jid := by
  have hcount := count_add hf hnone hadd
  have hexact : exactAffiliation lists jid = some b := by
    rw [exactAffiliation_eq_fst, hf]
    rfl
  obtain ⟨hpos, -⟩ := exactAffiliation_iff.mp hexact
  constructor
  · intro hsame
    by_cases hput : b = a ∧ bareKey (jidSet jid (jidNode ||| jidHost)) = bareKey jid
    · exact .inl ⟨hput.1 ▸ hexact, bareKey_jidSet.mp hput.2⟩
    · -- the lowest list keeps another entry, and what is filed was there before
      have hkept : 0 < lists'.count b (bareKey jid) :=
        (exactAffiliation_iff.mp ((hsame jid).trans hexact)).1
      have hfiled : 0 < lists'.count a (bareKey (jidSet jid (jidNode ||| jidHost))) := by
        have ha := hcount a (bareKey (jidSet jid (jidNode ||| jidHost)))
        rw [if_neg fun h : a = b ∧ _ => hput ⟨h.1.symm, h.2⟩, if_pos ⟨rfl, rfl⟩] at ha
        omega
      obtain ⟨c, hc, hle⟩ := exactAffiliation_of_count hfiled
      refine .inr ⟨b, c, hexact, ?_, (hsame _).symm.trans hc, hle⟩
      have hb := hcount b (bareKey jid)
      rw [if_pos ⟨rfl, rfl⟩, if_neg fun h : b = a ∧ _ => hput ⟨h.1, h.2.symm⟩] at hb
      rw [entriesOf_eq]
      omega
  -- what is taken off is put in again, or has a like of it below
  · rintro (⟨ha, hfilled⟩ | ⟨b', c, hb', htwo, hc, hle⟩) other
    · rw [hexact] at ha
      cases ha
      rw [bareKey_jidSet.mpr hfilled] at hcount
      exact exactAffiliation_congr fun d => by rw [Nat.add_right_cancel (hcount d _)]
    · rw [hexact] at hb'
      cases hb'
      rw [entriesOf_eq] at htwo
      by_cases hk : bareKey other = bareKey (jidSet jid (jidNode ||| jidHost))
      · rw [exactAffiliation_of_key hk, exactAffiliation_of_key hk, hc, exactAffiliation_iff]
        obtain ⟨hthere, hleast⟩ := exactAffiliation_iff.mp hc
        constructor
        · have hcc := hcount c (bareKey (jidSet jid (jidNode ||| jidHost)))
          split at hcc
          · next htaken =>
            rw [htaken.1, htaken.2] at hcc ⊢
            omega
          · omega
        · intro d hd
          by_cases hda : d = a
          · exact hda ▸ hle
          · have hdd := hcount d (bareKey (jidSet jid (jidNode ||| jidHost)))
            rw [if_neg fun h : d = a ∧ _ => hda h.1] at hdd
            exact hleast d (by omega)
      · refine exactAffiliation_congr fun d => ?_
        have hdd := hcount d (bareKey other)
        rw [if_neg fun h : d = a ∧ _ => hk h.2] at hdd
        split at hdd
        · next htaken =>
          rw [htaken.1, htaken.2] at hdd ⊢
          omega
        · rw [Nat.add_right_cancel hdd]

/-- The last guard, for an entry that is found in the owner list. -/
theorem lastOwnEntry_iff {owners : AffiliationsList} (hi : owners.items[i]? = some entry)
    (hkey : entryKey entry = bareKey jid) : lastOwnEntry sender owners i = true ↔
      owners.items.length = 1 ∧ jidCmp sender.jid jid (jidNode ||| jidHost) = 0 := by
  have hlt : i < owners.items.length := (List.getElem?_eq_some_iff.mp hi).1
  unfold lastOwnEntry
  rw [hi]
  simp only [Bool.and_eq_true, beq_iff_eq, jidCmp_bare]
  rw [← hkey]
  constructor
  · rintro ⟨⟨hcmp, -⟩, hone⟩
    exact ⟨hone, hcmp⟩
  · rintro ⟨hone, hcmp⟩
    exact ⟨⟨hcmp, by omega⟩, hone⟩

/-- **An owner may move an entry unless it is the only owner's own.** -/
theorem passes_iff (hs : sender.affiliation = affilOwner)
    (hf : existingEntry lists jid = some (b, i)) (reasonNode : Buffer) :
    (∃ lists', affiliationssAdd lists (some sender) a jid reasonNode = some lists') ↔
      ¬ SoleOwner lists sender jid := by
  obtain ⟨x, hx, hkey⟩ := existingEntry_some hf
  have howner : (sender.affiliation != affilOwner) = false := by simp [hs]
  have hexact : exactAffiliation lists jid = some b := by
    rw [exactAffiliation_eq_fst, hf]
    rfl
  have hmay : mayChangeEntry lists (some sender) b i = true ↔ ¬ SoleOwner lists sender jid := by
    unfold mayChangeEntry SoleOwner
    rw [hexact]
    simp only [howner, Bool.false_and, Bool.not_false, Bool.true_and, Bool.not_eq_true',
      Bool.and_eq_false_iff, beq_eq_false_iff_ne, not_and, Option.some.injEq]
    constructor
    · rintro hno rfl hone hcmp
      rcases hno with hno | hno
      · exact hno rfl
      · rw [(lastOwnEntry_iff hx hkey).mpr ⟨hone, hcmp⟩] at hno
        cases hno
    · intro hno
      by_cases hb : b = listOwner
      · subst hb
        refine .inr (Bool.eq_false_iff.mpr fun hlast => ?_)
        obtain ⟨hone, hcmp⟩ := (lastOwnEntry_iff hx hkey).mp hlast
        exact hno rfl hone hcmp
      · exact .inl hb
  rw [← hmay]
  unfold affiliationssAdd
  rw [hf]
  by_cases hpass : mayChangeEntry lists (some sender) b i = true <;> simp [howner, hpass]

/-- A list with an entry is not that of `AFFIL_NONE`. -/
theorem NoneEmpty.ne_listNone (h : NoneEmpty lists)
    {k : (Bool × Nat × Bytes) × Nat × Bytes} (ha : 0 < lists.count a k) : a ≠ listNone := by
  rintro rfl
  obtain ⟨entry, hm, -⟩ := keyCount_pos.mp ha
  rw [Affiliations.shelves, h] at hm
  exact List.not_mem_nil hm

/-! ## A whole list -/

/-- The items of a request, one after the other; `none` when one is refused. -/
def reassertAll (sender : Participant) : Affiliations → List AddCall → Option Affiliations
  | lists, [] => some lists
  | lists, item :: rest =>
    (affiliationssAdd lists (some sender) item.affiliation item.jid item.reasonNode).bind
      fun lists' => reassertAll sender lists' rest

/-- How often a request names a JID with the key. -/
abbrev timesNamed (items : List AddCall) (k : (Bool × Nat × Bytes) × Nat × Bytes) : Nat :=
  keyTimes (fun item => bareKey item.jid) items k

/-- The items are sent back for entries of list `a` that are there for each of them. -/
structure ReturnedEntries (lists : Affiliations) (a : Affil) (items : List AddCall) : Prop where
  affiliation : ∀ item ∈ items, item.affiliation = a
  there : ∀ k, timesNamed items k ≤ lists.count a k

theorem ReturnedEntries.head {item : AddCall} {rest : List AddCall}
    (h : ReturnedEntries lists a (item :: rest)) : 0 < lists.count a (bareKey item.jid) := by
  have hle := h.there (bareKey item.jid)
  rw [timesNamed, keyTimes_cons, if_pos rfl] at hle
  omega

/-- What is left of a request when its first item has been accepted. -/
theorem ReturnedEntries.tail {item : AddCall} {rest : List AddCall}
    (h : ReturnedEntries lists a (item :: rest)) (hempty : NoneEmpty lists)
    (hadd : affiliationssAdd lists who a item.jid reasonNode = some lists') :
    ReturnedEntries lists' a rest where
  affiliation := fun other ho => h.affiliation other (List.mem_cons_of_mem _ ho)
  there := by
    intro k
    obtain ⟨b, i, hf, -⟩ := existingEntry_of_count h.head
    have hcount := count_add hf (hempty.ne_listNone h.head) hadd a k
    have hle := h.there k
    rw [timesNamed, keyTimes_cons] at hle
    unfold timesNamed
    by_cases hk : k = bareKey item.jid
    · rw [if_pos hk] at hle
      split at hcount <;> omega
    · rw [if_neg fun h : a = b ∧ _ => hk h.2] at hcount
      omega

/-- Unless the list is that of an only owner, nothing of it is refused when it is sent back. -/
theorem ReturnedEntries.passes (hs : sender.affiliation = affilOwner) :
    ∀ {items : List AddCall} {lists : Affiliations}, ReturnedEntries lists a items → NoneEmpty lists →
      (a = listOwner → 2 ≤ (lists listOwner).items.length) →
      ∃ lists', reassertAll sender lists items = some lists'
  | [], lists, _, _, _ => ⟨lists, rfl⟩
  | item :: rest, lists, h, hempty, htwo => by
    obtain ⟨b, i, hf, hle⟩ := existingEntry_of_count h.head
    have hexact : exactAffiliation lists item.jid = some b := by
      rw [exactAffiliation_eq_fst, hf]
      rfl
    have hno : ¬ SoleOwner lists sender item.jid := by
      rintro ⟨howner, hone, -⟩
      rw [hexact] at howner
      cases howner
      have := htwo (le_antisymm (Fin.le_last a) hle)
      omega
    have haff := h.affiliation item List.mem_cons_self
    obtain ⟨lists₁, hadd⟩ := (passes_iff hs hf item.reasonNode).mpr hno
    have hlength := length_add hf (hempty.ne_listNone h.head) hadd listOwner
    obtain ⟨lists', hall⟩ := ReturnedEntries.passes hs (h.tail hempty hadd) (hempty.add hadd) (by
      intro ha
      have := htwo ha
      rw [if_pos ha.symm] at hlength
      split at hlength <;> omega)
    refine ⟨lists', ?_⟩
    unfold reassertAll
    rw [haff, hadd]
    exact hall

/-- The items of a request are the entries of list `a`, as they were received. -/
def AsReceived (lists : Affiliations) (a : Affil) (items : List AddCall) : Prop :=
  items.map (fun item => (item.affiliation, item.jid))
    = (lists a).items.map (fun entry => (a, entry.jid))

theorem AsReceived.returned {items : List AddCall} (h : AsReceived lists a items) :
    ReturnedEntries lists a items where
  affiliation := by
    intro item hi
    have hm : (item.affiliation, item.jid) ∈ items.map (fun item => (item.affiliation, item.jid)) :=
      List.mem_map_of_mem hi
    rw [h] at hm
    obtain ⟨entry, -, he⟩ := List.mem_map.mp hm
    exact (congrArg Prod.fst he).symm
  there := by
    intro k
    have hkeys := congrArg (List.map (fun n => bareKey n.2)) h
    rw [List.map_map, List.map_map] at hkeys
    exact le_of_eq (keyTimes_congr hkeys)

/-- **A list that is sent back as it was received passes if and only if it is not that of an only
owner, who sends it.** -/
theorem AsReceived.passes_iff (hs : sender.affiliation = affilOwner) (hempty : NoneEmpty lists)
    {items : List AddCall} (h : AsReceived lists a items) :
    (∃ lists', reassertAll sender lists items = some lists') ↔
      ∀ item ∈ items, ¬ SoleOwner lists sender item.jid := by
  have hback := h.returned
  have hlen : items.length = (lists a).items.length := by
    simpa using congrArg List.length h
  -- an only owner's list is a request of one item; any other one always passes
  by_cases hone : a = listOwner ∧ (lists listOwner).items.length ≤ 1
  · obtain ⟨rfl, hle⟩ := hone
    cases items with
    | nil => exact iff_of_true ⟨lists, rfl⟩ fun _ hm => absurd hm List.not_mem_nil
    | cons item rest =>
      have hrest : rest = [] := by
        rw [List.length_cons] at hlen
        exact List.eq_nil_of_length_eq_zero (by omega)
      subst hrest
      obtain ⟨b, i, hf, -⟩ := existingEntry_of_count hback.head
      have hone := @Mukite.passes_iff _ _ listOwner _ _ _ hs hf item.reasonNode
      rw [List.forall_mem_singleton, ← hone]
      unfold reassertAll
      rw [hback.affiliation item List.mem_cons_self]
      exact exists_congr fun lists' => by simp [reassertAll]
  · refine iff_of_true (hback.passes hs hempty fun ha => ?_) fun item hi hsole => hone ?_
    · have hlt := not_and.mp hone ha
      omega
    · obtain ⟨howner, hsize, -⟩ := hsole
      have hm : (lists.count a (bareKey item.jid)) ≠ 0 := by
        have hle := hback.there (bareKey item.jid)
        have hpos : 0 < timesNamed items (bareKey item.jid) :=
          keyTimes_pos.mpr ⟨item, hi, rfl⟩
        omega
      have hle := exactAffiliation_le howner (Nat.pos_of_ne_zero hm)
      exact ⟨le_antisymm (Fin.le_last a) hle, le_of_eq hsize⟩

/-! ## A list of one's own making -/

/-- An item with the affiliation that its JID has. -/
def Reasserts (lists : Affiliations) (item : AddCall) : Prop :=
  NodeFilled item.jid ∧ exactAffiliation lists item.jid = some item.affiliation

/-- **Items with the affiliations that their JIDs have pass, and change nothing, if and only if none
is that of an only owner, who sends it.** -/
theorem reassertAll_iff (hs : sender.affiliation = affilOwner) :
    ∀ {items : List AddCall} {lists : Affiliations}, NoneEmpty lists →
      (∀ item ∈ items, Reasserts lists item) →
      ((∃ lists', reassertAll sender lists items = some lists') ↔
          ∀ item ∈ items, ¬ SoleOwner lists sender item.jid) ∧
        ∀ lists', reassertAll sender lists items = some lists' →
          ∀ jid, exactAffiliation lists' jid = exactAffiliation lists jid
  | [], lists, _, _ => by
    refine ⟨iff_of_true ⟨lists, rfl⟩ fun _ hm => absurd hm List.not_mem_nil, ?_⟩
    rintro lists' hr jid
    cases hr
    rfl
  | item :: rest, lists, hempty, hitems => by
    obtain ⟨hfilled, hexact⟩ := hitems item List.mem_cons_self
    obtain ⟨hpos, -⟩ := exactAffiliation_iff.mp hexact
    obtain ⟨b, i, hf, -⟩ := existingEntry_of_count hpos
    have hone := @passes_iff _ _ item.affiliation _ _ _ hs hf item.reasonNode
    unfold reassertAll
    cases hadd : affiliationssAdd lists (some sender) item.affiliation item.jid item.reasonNode with
    | none =>
      rw [hadd] at hone
      have hsole : SoleOwner lists sender item.jid := by
        by_contra hno
        obtain ⟨lists', hl⟩ := hone.mpr hno
        cases hl
      refine ⟨iff_of_false ?_ fun hall => hall item List.mem_cons_self hsole, ?_⟩
      · rintro ⟨lists', hl⟩
        cases hl
      · intro lists' hl
        cases hl
    | some lists₁ =>
      have hnone := hempty.ne_listNone hpos
      -- an item that passes changes nobody's affiliation, so the others are still assertions
      have hsame := (unchanged_iff hf hnone hadd).mpr (.inl ⟨hexact, hfilled⟩)
      have hlength := length_add hf hnone hadd listOwner
      have hb : b = item.affiliation := by
        rw [exactAffiliation_eq_fst, hf] at hexact
        exact Option.some.inj hexact
      have hno : ¬ SoleOwner lists sender item.jid := hone.mp ⟨lists₁, hadd⟩
      have hrest : ∀ other ∈ rest, Reasserts lists₁ other := by
        intro other ho
        obtain ⟨hj, he⟩ := hitems other (List.mem_cons_of_mem _ ho)
        exact ⟨hj, (hsame _).trans he⟩
      obtain ⟨hpass, hkeep⟩ := reassertAll_iff hs (hempty.add hadd) hrest
      rw [Option.bind_some]
      constructor
      · rw [hpass, List.forall_mem_cons, and_iff_right hno]
        unfold SoleOwner
        rw [hb] at hlength
        simp only [hsame, Nat.add_right_cancel hlength]
      · intro lists' hl jid
        exact (hkeep lists' hl jid).trans (hsame jid)

/-- Alice, at her desk. -/
def ownerAlice : Participant :=
  { participantInit { bareJid "alice" "h" with resource := some (lit "desk") } with
    affiliation := affilOwner }

/-- The lists with `Alice@h` as the owner. -/
def ownedByAlice : Affiliations :=
  setList (fun _ => .init 10) listOwner
    ((Dls.init 10).append { jid := bareJid "Alice" "h", reasonNode := none })

theorem ownedByAlice_reached : ListsState ownedByAlice := by
  have hadd : affiliationssAdd (fun _ => .init 10) none listOwner (bareJid "Alice" "h") none
      = some ownedByAlice := rfl
  have hstep : addStep (fun _ => .init 10) (fileFor listOwner (bareJid "Alice" "h"))
      = some (ownedByAlice, true) := by
    unfold addStep fileFor
    rw [hadd]
  exact ⟨_, .empty _, Reach.start.next trivial hstep⟩

/-- The lists with Alice as the owner and the domain `k`, given as `@k`, as a member and an admin. -/
def domainTwice : Option Affiliations :=
  Machine.run addStep (fun _ => .init 10)
    [fileFor listOwner (bareJid "Alice" "h"), fileFor listMember (bareJid "" "k"),
      fileFor listAdmin (bareJid "" "k")]

/-- The entry of the domain. -/
def domainEntryK : Affiliation where
  jid := { node := none, host := some (lit "k"), resource := none }
  reasonNode := none

end Mukite
