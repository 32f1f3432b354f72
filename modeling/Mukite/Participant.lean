import Mukite.Jid
import Mukite.Lib.NodeList

/-!
# Participants

`src/participant/participant.c`, `src/participant/participants.c`. The participants of a room are
told apart by the address of their list node: the program keeps pointers to them while it walks
the list and compares such pointers.

The affected list of an IQ is threaded through the participants. Here it is the list of their
addresses, in the order in which they were added; `included` is the flag that keeps it free of
duplicates.
-/

namespace Mukite

def maxPresenceSize : Nat := 65000

/-- `affected_list`, less the link to the next entry. -/
structure AffectedList where
  included : Bool
  reasonNode : Buffer
deriving DecidableEq, Repr

structure Participant where
  jid : Jid
  nick : Buffer
  affiliation : Int
  role : Int
  presence : Buffer
  lastMessageTime : Int
  affectedList : AffectedList
deriving DecidableEq, Repr

/-- `ParticipantsList`. -/
structure ParticipantsList where
  nodes : NodeList Participant
  size : Int
  maxSize : Int

/-- `participant_init`. -/
def participantInit (jid : Jid) : Participant where
  jid := jidSet jid jidFull
  nick := none
  affiliation := 0
  role := 0
  presence := none
  lastMessageTime := 0
  affectedList := { included := false, reasonNode := none }

/-- `participant_set_nick`; the caller ignores the result. -/
def participantSetNick (participant : Participant) (nick : Buffer) : Participant :=
  { participant with nick := (bptSetter participant.nick nick maxJidPartSize).1 }

namespace ParticipantsList

/-- `DLS_PREPEND`. -/
def prepend (l : ParticipantsList) (p : Participant) : ParticipantsList :=
  { l with nodes := l.nodes.cons p, size := l.size + 1 }

/-- `DLS_DELETE`. -/
def delete (l : ParticipantsList) (addr : Nat) : ParticipantsList :=
  { l with nodes := l.nodes.erase addr, size := l.size - 1 }

/-- An assignment through a pointer to a participant. -/
def modify (l : ParticipantsList) (addr : Nat) (f : Participant → Participant) :
    ParticipantsList :=
  { l with nodes := l.nodes.modify addr f }

/-- A `DLS_FOREACH` whose body changes nothing but the current participant. -/
def mapVals (l : ParticipantsList) (f : Participant → Participant) : ParticipantsList :=
  { l with nodes := l.nodes.mapVals f }

@[simp] theorem nodes_mapVals (l : ParticipantsList) (f : Participant → Participant) :
    (l.mapVals f).nodes = l.nodes.mapVals f := rfl
@[simp] theorem size_mapVals (l : ParticipantsList) (f : Participant → Participant) :
    (l.mapVals f).size = l.size := rfl
@[simp] theorem maxSize_mapVals (l : ParticipantsList) (f : Participant → Participant) :
    (l.mapVals f).maxSize = l.maxSize := rfl
@[simp] theorem nodes_prepend (l : ParticipantsList) (p : Participant) :
    (l.prepend p).nodes = l.nodes.cons p := rfl
@[simp] theorem nodes_delete (l : ParticipantsList) (addr : Nat) :
    (l.delete addr).nodes = l.nodes.erase addr := rfl
@[simp] theorem nodes_modify (l : ParticipantsList) (addr : Nat) (f : Participant → Participant) :
    (l.modify addr f).nodes = l.nodes.modify addr f := rfl
@[simp] theorem maxSize_prepend (l : ParticipantsList) (p : Participant) :
    (l.prepend p).maxSize = l.maxSize := rfl
@[simp] theorem maxSize_delete (l : ParticipantsList) (addr : Nat) :
    (l.delete addr).maxSize = l.maxSize := rfl
@[simp] theorem maxSize_modify (l : ParticipantsList) (addr : Nat)
    (f : Participant → Participant) : (l.modify addr f).maxSize = l.maxSize := rfl
@[simp] theorem size_prepend (l : ParticipantsList) (p : Participant) :
    (l.prepend p).size = l.size + 1 := rfl
@[simp] theorem size_delete (l : ParticipantsList) (addr : Nat) :
    (l.delete addr).size = l.size - 1 := rfl
@[simp] theorem size_modify (l : ParticipantsList) (addr : Nat) (f : Participant → Participant) :
    (l.modify addr f).size = l.size := rfl

end ParticipantsList

/-- `participants_find_by_nick`: address and value of the first one with the nick. -/
def participantsFindByNick (list : ParticipantsList) (nick : Buffer) :
    Option (Nat × Participant) :=
  list.nodes.find? (fun current => bptEqBin (bptBytes nick) current.nick)

/-- The comparison mode of `participants_find_by_jid`: bare for a JID without a resource. -/
def findByJidMode (jid : Jid) : Nat :=
  if jid.resource.isNone then jidNode ||| jidHost else jidFull

/-- `participants_find_by_jid`. -/
def participantsFindByJid (list : ParticipantsList) (jid : Jid) : Option (Nat × Participant) :=
  list.nodes.find? (fun current => jidCmp current.jid jid (findByJidMode jid) == 0)

/-- What `participant_set_affected` writes to the participant. The reason is a pointer into the stanza
that is handled; it is kept by value, as it is read until the stanza has been handled. -/
def setAffected (reasonNode : Buffer) (participant : Participant) : Participant :=
  if participant.affectedList.included then participant
  else { participant with affectedList := { included := true, reasonNode := reasonNode } }

theorem findByNick_spec {list : ParticipantsList} {nick : Buffer} {addr : Nat} {p : Participant}
    (h : participantsFindByNick list nick = some (addr, p)) :
    (addr, p) ∈ list.nodes.nodes ∧ bptBytes p.nick = bptBytes nick := by
  obtain ⟨hm, hp⟩ := NodeList.mem_of_find? h
  exact ⟨hm, by simpa [bptEqBin] using hp⟩

theorem findByNick_none {list : ParticipantsList} {nick : Buffer}
    (h : participantsFindByNick list nick = none) {addr : Nat} {p : Participant}
    (hm : (addr, p) ∈ list.nodes.nodes) : bptBytes p.nick ≠ bptBytes nick := by
  have := NodeList.find?_eq_none h addr p hm
  simpa [bptEqBin] using this

theorem findByJid_mem {list : ParticipantsList} {jid : Jid} {addr : Nat} {p : Participant}
    (h : participantsFindByJid list jid = some (addr, p)) : (addr, p) ∈ list.nodes.nodes :=
  (NodeList.mem_of_find? h).1

/-- Whoever is not found has another full JID than every participant. -/
theorem findByJid_none {list : ParticipantsList} {jid : Jid}
    (h : participantsFindByJid list jid = none) {addr : Nat} {p : Participant}
    (hm : (addr, p) ∈ list.nodes.nodes) : fullKey p.jid ≠ fullKey jid := by
  have hne := NodeList.find?_eq_none h addr p hm
  intro he
  unfold findByJidMode at hne
  split at hne
  · have hb : bareKey p.jid = bareKey jid := congrArg Prod.fst he
    simp [jidCmp_bare.mpr hb] at hne
  · simp [jidCmp_full.mpr he] at hne

end Mukite
