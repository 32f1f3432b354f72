import Mukite.Acl
import Mukite.Utss
import Mukite.Participant
import Mathlib.Data.Fintype.Basic

/-!
# Affiliations

`src/affiliation/affiliation.c`, `src/affiliation/affiliations.c`. A room has five lists of
affiliation entries, one for each affiliation. An entry holds a bare JID: an entry without a node
stands for a whole domain.
-/

namespace Mukite

def maxAffiliationReasonSize : Nat := 65000

def affilOutcast : Int := 0
def affilNone : Int := 1
def affilMember : Int := 2
def affilAdmin : Int := 3
def affilOwner : Int := 4

/-- The index of an affiliation list, `AFFIL_OUTCAST` to `AFFIL_OWNER`. -/
abbrev Affil := Fin 5

abbrev listOutcast : Affil := 0
abbrev listNone : Affil := 1
abbrev listMember : Affil := 2
abbrev listAdmin : Affil := 3
abbrev listOwner : Affil := 4

/-- An index of the lists as the `int` the program compares. -/
def Affil.toInt (a : Affil) : Int := (a.val : Int)

structure Affiliation where
  jid : Jid
  reasonNode : Buffer
deriving DecidableEq, Repr

abbrev AffiliationsList := Dls Affiliation

/-- `Room.affiliations`: the five lists. -/
abbrev Affiliations := Affil → AffiliationsList

/-- `affiliation_names`. -/
def affiliationNames : Affil → String
  | 0 => "outcast"
  | 1 => "none"
  | 2 => "member"
  | 3 => "admin"
  | 4 => "owner"

/-- `affiliation_init`. -/
def affiliationInit : Affiliation := { jid := jidInit, reasonNode := none }

/-- `affiliation_set_reason`; the caller ignores the result. -/
def affiliationSetReason (affiliation : Affiliation) (reasonNode : Buffer) : Affiliation :=
  { affiliation with
    reasonNode := (bptSetter affiliation.reasonNode reasonNode maxAffiliationReasonSize).1 }

/-- `affiliations_find_by_jid`: the position of the first matching entry. -/
def affiliationsFindByJid (affiliations : AffiliationsList) (jid : Jid) (mode : Nat) : Option Nat :=
  affiliations.items.findIdx? (fun current => jidCmp current.jid jid mode == 0)

/-- The loops `for (affiliation = AFFIL_OUTCAST; affiliation <= AFFIL_OWNER; ++affiliation)`. -/
def affilAll : List Affil := [listOutcast, listNone, listMember, listAdmin, listOwner]

/-- The first list with a matching entry, in the order of the loops. -/
def firstListWith (affiliations : Affiliations) (jid : Jid) (mode : Nat) : Option Affil :=
  affilAll.find? (fun a => (affiliationsFindByJid (affiliations a) jid mode).isSome)

/-- `affiliationss_get_by_jid`. -/
def affiliationssGetByJid (affiliations : Affiliations) (acl : ACLConfig) (jid : Jid) : Int :=
  if aclRole acl jid ≥ aclMucAdmin then affilOwner
  else
    -- First search by full JID (node+host).
    match firstListWith affiliations jid (jidNode ||| jidHost) with
    | some a => a.toInt
    | none =>
      -- Then search by host only.
      match firstListWith affiliations jid jidHost with
      | some a => a.toInt
      | none => affilNone

/-- Replace one of the lists. -/
def setList (affiliations : Affiliations) (a : Affil) (l : AffiliationsList) : Affiliations :=
  fun b => if b = a then l else affiliations b

/-- The existing entry that `affiliationss_add` finds: its list and its position there. -/
def existingEntry (affiliations : Affiliations) (jid : Jid) : Option (Affil × Nat) :=
  affilAll.findSome? (fun a =>
    (affiliationsFindByJid (affiliations a) jid (jidNode ||| jidHost)).map (fun i => (a, i)))

/-- Whether the sender is the entry itself and the only one in the list. -/
def lastOwnEntry (sender : Participant) (owners : AffiliationsList) (i : Nat) : Bool :=
  match owners.items[i]? with
  | none => false
  | some entry => jidCmp sender.jid entry.jid (jidNode ||| jidHost) == 0 &&
      i == 0 && owners.items.length == 1

/-- The guards of `affiliationss_add` on the entry it found. -/
def mayChangeEntry (affiliations : Affiliations) (sender : Option Participant) (list : Affil)
    (i : Nat) : Bool :=
  match sender with
  | none => true
  | some sender =>
    -- Only owner may CHANGE an affiliation of admin or higher.
    !(sender.affiliation != affilOwner && affilAdmin ≤ list.toInt) &&
    -- Owner trying to revoke own privilege when there are no other owners.
    !(list == listOwner && lastOwnEntry sender (affiliations listOwner) i)

/-- The entry that is filed under a new affiliation. -/
def filedEntry (entry : Affiliation) (jid : Jid) (reasonNode : Buffer) : Affiliation :=
  affiliationSetReason { entry with jid := jidSet jid (jidNode ||| jidHost) } reasonNode

/--
The part of `affiliationss_add` after its guards: unlink the entry that was found, then append it
to its new list. `AFFIL_NONE` has no entries.
-/
def moveEntry (affiliations : Affiliations) (found : Option (Affil × Nat)) (affiliation : Affil)
    (jid : Jid) (reasonNode : Buffer) : Affiliations :=
  let unlinked := match found with
    | none => affiliations
    | some (list, i) => setList affiliations list ((affiliations list).delete i)
  let entry := match found with
    | none => affiliationInit
    | some (list, i) => (affiliations list).items[i]?.getD affiliationInit
  if affiliation = listNone then unlinked
  else setList unlinked affiliation
    ((unlinked affiliation).append (filedEntry entry jid reasonNode))

/-- `affiliationss_add`, `none` when it returns `FALSE`. A null sender passes every guard. -/
def affiliationssAdd (affiliations : Affiliations) (sender : Option Participant)
    (affiliation : Affil) (jid : Jid) (reasonNode : Buffer) : Option Affiliations :=
  -- Only owner may ADD an affiliation of admin or higher.
  if sender.any (fun s => s.affiliation != affilOwner) && affilAdmin ≤ affiliation.toInt then none
  else
    let found := existingEntry affiliations jid
    if found.all (fun f => mayChangeEntry affiliations sender f.1 f.2) then
      some (moveEntry affiliations found affiliation jid reasonNode)
    else none

/-- The lists without the entry that is found for `target`. -/
def withoutEntry (lists : Affiliations) (target : Jid) : Affiliations :=
  match existingEntry lists target with
  | none => lists
  | some (list, i) => setList lists list ((lists list).delete i)

/-! ## What the searches and the guards say -/

section Guards

variable {lists lists' : Affiliations} {who : Option Participant} {affiliation list : Affil}
  {jid : Jid} {reasonNode : Buffer} {i : Nat}

theorem existingEntry_spec (h : existingEntry lists jid = some (list, i)) :
    affiliationsFindByJid (lists list) jid (jidNode ||| jidHost) = some i := by
  obtain ⟨a, -, ha⟩ := List.exists_of_findSome?_eq_some h
  obtain ⟨j, hj, he⟩ := Option.map_eq_some_iff.mp ha
  cases he
  exact hj

theorem existingEntry_lt (h : existingEntry lists jid = some (list, i)) :
    i < (lists list).items.length :=
  (List.findIdx?_eq_some_iff_getElem.mp (existingEntry_spec h)).1

theorem moveEntry_eq : moveEntry lists (existingEntry lists jid) affiliation jid reasonNode =
    if affiliation = listNone then withoutEntry lists jid
    else setList (withoutEntry lists jid) affiliation
      ((withoutEntry lists jid affiliation).append
        (filedEntry (match existingEntry lists jid with
          | none => affiliationInit
          | some (list, i) => (lists list).items[i]?.getD affiliationInit) jid reasonNode)) := by
  unfold moveEntry withoutEntry
  cases existingEntry lists jid <;> rfl

/-- What `affiliationss_add` does when it returns `TRUE`. -/
theorem affiliationssAdd_eq
    (h : affiliationssAdd lists who affiliation jid reasonNode = some lists') :
    lists' = moveEntry lists (existingEntry lists jid) affiliation jid reasonNode := by
  unfold affiliationssAdd at h
  split at h
  · cases h
  · simp only at h
    split at h
    · exact (Option.some.inj h).symm
    · cases h

/-- Whoever is no owner files below the admins, and moves only entries from there. -/
theorem affiliationssAdd_below {sender : Participant} (hlow : sender.affiliation < affilOwner)
    (h : affiliationssAdd lists (some sender) affiliation jid reasonNode = some lists') :
    affiliation.toInt < affilAdmin ∧
      ∀ list i, existingEntry lists jid = some (list, i) → list.toInt < affilAdmin := by
  have hne : (sender.affiliation != affilOwner) = true := bne_iff_ne.mpr (Int.ne_of_lt hlow)
  unfold affiliationssAdd at h
  split at h
  · cases h
  · next hadd =>
    simp only [Option.any_some, hne, Bool.true_and, decide_eq_true_eq, not_le] at hadd
    refine ⟨hadd, fun list i hf => ?_⟩
    simp only [hf] at h
    split at h
    · next hmay =>
      simp only [Option.all_some, mayChangeEntry, hne, Bool.true_and, Bool.and_eq_true,
        Bool.not_eq_true', decide_eq_false_iff_not, not_le] at hmay
      exact hmay.1
    · cases h

end Guards

/-- `affiliation_by_name`, `none` for `AFFIL_UNCHANGED`. -/
def affiliationByName (name : Bytes) : Option Affil :=
  affilAll.find? (fun a => name == lit (affiliationNames a))

end Mukite
