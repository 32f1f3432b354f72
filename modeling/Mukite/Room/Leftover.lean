import Mukite.Room.Route

/-!
# Reasons that outlive their stanza

`participant_set_affected` keeps the reason of an item as a pointer into the stanza. A request that
is refused after some of its items leaves such pointers behind, and the block that they point into
is used for other stanzas then. What is sent as the reason of somebody who is announced later is
what stands there by that time.

A room keeps the reason by its value, which is what a pointer is to it while the stanza is handled.
Here the bytes that an earlier stanza has left are read again when the next one comes
(`Room.reread`): they may be anything.
-/

namespace Mukite

/-- What stands by now where the reasons of the occupants have stood, by their addresses. -/
abbrev Leftover := Nat → Bytes

/-- A reason that is still there is read where it points to. -/
def AffectedList.reread (bytes : Bytes) (affected : AffectedList) : AffectedList :=
  { affected with reasonNode := affected.reasonNode.map (fun _ => bytes) }

def Room.reread (left : Leftover) (room : Room) : Room :=
  { room with
    participants :=
      { room.participants with
        nodes := room.participants.nodes.mapNodes (fun addr p =>
          { p with affectedList := p.affectedList.reread (left addr) }) } }

/-- A room handles one stanza, after others have been where the earlier ones were. -/
def roomStepIn : Machine.Step Room (Stanza × Leftover) (List BuilderPacket) := fun room e =>
  roomStep (room.reread e.2) e.1

/-- No earlier stanza has left a reason behind. -/
def NoReasons (room : Room) : Prop :=
  ∀ addr p, (addr, p) ∈ room.occupants → p.affectedList.reasonNode = none

instance (room : Room) : Decidable (NoReasons room) :=
  decidable_of_iff (∀ n ∈ room.occupants, n.2.affectedList.reasonNode = none)
    ⟨fun h addr p hm => h (addr, p) hm, fun h n hm => h n.1 n.2 hm⟩

variable {room : Room} {left : Leftover} {addr : Nat} {p : Participant} {affected : AffectedList}
  {bytes bytes' : Bytes}

theorem AffectedList.reread_none (h : affected.reasonNode = none) :
    affected.reread bytes = affected := by
  unfold AffectedList.reread
  rw [h, Option.map_none, ← h]

/-- Only the last memory is read. -/
@[simp] theorem AffectedList.reread_reread :
    (affected.reread bytes).reread bytes' = affected.reread bytes' := by
  unfold AffectedList.reread
  rw [Option.map_map]
  rfl

/-- An occupant, with its reason read where it points to. -/
def rereadAt (left : Leftover) (n : Nat × Participant) : Nat × Participant :=
  (n.1, { n.2 with affectedList := n.2.affectedList.reread (left n.1) })

theorem findByJid_reread {jid : Jid} :
    participantsFindByJid (room.reread left).participants jid
      = (participantsFindByJid room.participants jid).map (rereadAt left) := by
  show (room.occupants.map (rereadAt left)).find? _ = _
  rw [List.find?_map]
  rfl

theorem findByNick_reread {nick : Buffer} :
    participantsFindByNick (room.reread left).participants nick
      = (participantsFindByNick room.participants nick).map (rereadAt left) := by
  show (room.occupants.map (rereadAt left)).find? _ = _
  rw [List.find?_map]
  rfl

theorem addrs_reread :
    (room.reread left).participants.nodes.addrs = room.participants.nodes.addrs := by
  show (room.occupants.map (rereadAt left)).map Prod.fst = _
  rw [List.map_map]
  rfl

theorem Room.mem_occupants_reread : (addr, p) ∈ (room.reread left).occupants ↔
    ∃ p₀, (addr, p₀) ∈ room.occupants ∧
      p = { p₀ with affectedList := p₀.affectedList.reread (left addr) } :=
  NodeList.mem_mapNodes

/-- **Where nothing is left, nothing is read again.** -/
theorem NoReasons.reread (h : NoReasons room) (left : Leftover) : room.reread left = room := by
  have hnodes : room.participants.nodes.mapNodes (fun addr p =>
      { p with affectedList := p.affectedList.reread (left addr) }) = room.participants.nodes := by
    refine NodeList.mapNodes_eq_self fun addr p hm => ?_
    rw [AffectedList.reread_none (h addr p hm)]
  unfold Room.reread
  rw [hnodes]

/-- So a stanza is handled as in a memory of its own. -/
theorem NoReasons.step (h : NoReasons room) (stanza : Stanza) (left : Leftover) :
    roomStepIn room (stanza, left) = roomStep room stanza := by
  unfold roomStepIn
  rw [h.reread]

end Mukite
