import Mukite.Affiliation
import Mukite.HistoryEntry
import Mukite.Lib.Flags

/-!
# The state of a room

`src/room/room.h` and the operations of `src/room/room.c` that join and remove participants.
-/

namespace Mukite

open Flags

/-! ## Roles, limits and flags -/

def roleNone : Int := 0
def roleVisitor : Int := 1
def roleParticipant : Int := 2
def roleModerator : Int := 3

/-- The roles `ROLE_NONE` to `ROLE_MODERATOR`, as `role_names` lists them. -/
def roleNames : List (Int × String) :=
  [(roleNone, "none"), (roleVisitor, "visitor"), (roleParticipant, "participant"),
    (roleModerator, "moderator")]

def userStringOptionLimit : Nat := 8192
def participantsLimit : Int := 1024
def reasonableRawLimit : Nat := 2 ^ 20

abbrev MucFlags := BitVec 32

def mucFlagAllowpm : MucFlags := 1#32
def mucFlagChangesubject : MucFlags := 1#32 <<< 1
def mucFlagEnablelogging : MucFlags := 1#32 <<< 2
def mucFlagMembersonly : MucFlags := 1#32 <<< 3
def mucFlagModeratedroom : MucFlags := 1#32 <<< 4
def mucFlagPasswordprotectedroom : MucFlags := 1#32 <<< 5
def mucFlagPersistentroom : MucFlags := 1#32 <<< 6
def mucFlagPublicroom : MucFlags := 1#32 <<< 7
def mucFlagPublicparticipants : MucFlags := 1#32 <<< 8
def mucFlagSemianonymous : MucFlags := 1#32 <<< 9
def mucFlagIqProxy : MucFlags := 1#32 <<< 10
def mucFlagInvites : MucFlags := 1#32 <<< 11
def mucFlagVisitorspm : MucFlags := 1#32 <<< 12
def mucFlagVisitorpresence : MucFlags := 1#32 <<< 13
def mucFlagJustCreated : MucFlags := 1#32 <<< 14
def mucFlagDestroyed : MucFlags := 1#32 <<< 15
def mucFlagMewcat : MucFlags := 1#32 <<< 16

def mucFlagsDefault : MucFlags :=
  mucFlagAllowpm ||| mucFlagChangesubject ||| mucFlagModeratedroom ||| mucFlagPublicroom |||
    mucFlagPublicparticipants ||| mucFlagIqProxy ||| mucFlagSemianonymous |||
    mucFlagJustCreated ||| mucFlagInvites

/-! ## Room -/

/-- `Room.subject`. -/
structure Subject where
  node : Buffer
  nick : Buffer
deriving DecidableEq, Repr

/-- `Room._unused`: twelve integers that are saved and loaded, and nothing else. -/
abbrev UnusedBytes := { b : Bytes // b.length = 48 }

/-- `Room`, less its hash handle and its lock. -/
structure Room where
  node : Buffer
  title : Buffer
  description : Buffer
  password : Buffer
  flags : MucFlags
  defaultRole : Int
  unused : UnusedBytes
  participants : ParticipantsList
  affiliations : Affiliations
  history : HistoryEntriesList
  subject : Subject

namespace Room

/-- `room->flags & flag`. -/
def hasFlag (room : Room) (flag : MucFlags) : Bool := isSet room.flags flag

/-- `room->flags |= flag` or `room->flags &= ~flag`. -/
def setFlag (room : Room) (flag : MucFlags) (on : Bool) : Room :=
  { room with flags := put room.flags flag on }

/-- An assignment through a pointer to a participant. -/
def modify (room : Room) (addr : Nat) (f : Participant → Participant) : Room :=
  { room with participants := room.participants.modify addr f }

/-- A loop over the participants that changes nothing but the current one. -/
def mapVals (room : Room) (f : Participant → Participant) : Room :=
  { room with participants := room.participants.mapVals f }

/-- The participants with their addresses, in list order. -/
def occupants (room : Room) : List (Nat × Participant) := room.participants.nodes.nodes

@[simp] theorem occupants_setFlag (room : Room) (flag : MucFlags) (on : Bool) :
    (room.setFlag flag on).occupants = room.occupants := rfl
@[simp] theorem affiliations_setFlag (room : Room) (flag : MucFlags) (on : Bool) :
    (room.setFlag flag on).affiliations = room.affiliations := rfl
@[simp] theorem participants_setFlag (room : Room) (flag : MucFlags) (on : Bool) :
    (room.setFlag flag on).participants = room.participants := rfl
@[simp] theorem flags_modify (room : Room) (addr : Nat) (f : Participant → Participant) :
    (room.modify addr f).flags = room.flags := rfl
@[simp] theorem affiliations_modify (room : Room) (addr : Nat) (f : Participant → Participant) :
    (room.modify addr f).affiliations = room.affiliations := rfl
@[simp] theorem participants_modify (room : Room) (addr : Nat) (f : Participant → Participant) :
    (room.modify addr f).participants = room.participants.modify addr f := rfl
@[simp] theorem flags_mapVals (room : Room) (f : Participant → Participant) :
    (room.mapVals f).flags = room.flags := rfl
@[simp] theorem affiliations_mapVals (room : Room) (f : Participant → Participant) :
    (room.mapVals f).affiliations = room.affiliations := rfl
@[simp] theorem participants_mapVals (room : Room) (f : Participant → Participant) :
    (room.mapVals f).participants = room.participants.mapVals f := rfl
@[simp] theorem hasFlag_mapVals (room : Room) (f : Participant → Participant) (flag : MucFlags) :
    (room.mapVals f).hasFlag flag = room.hasFlag flag := rfl
@[simp] theorem hasFlag_modify (room : Room) (addr : Nat) (f : Participant → Participant)
    (flag : MucFlags) : (room.modify addr f).hasFlag flag = room.hasFlag flag := rfl

theorem hasFlag_setFlag_self {room : Room} {flag : MucFlags} {on : Bool} (h : flag ≠ 0#32) :
    (room.setFlag flag on).hasFlag flag = on := isSet_put_self h

theorem hasFlag_setFlag {room : Room} {flag other : MucFlags} {on : Bool}
    (h : flag &&& other = 0#32) : (room.setFlag flag on).hasFlag other = room.hasFlag other :=
  isSet_put_of_disjoint h

theorem mem_occupants_modify {room : Room} {addr b : Nat} {f : Participant → Participant}
    {q : Participant} : (b, q) ∈ (room.modify addr f).occupants ↔
      ∃ p, (b, p) ∈ room.occupants ∧ q = if b = addr then f p else p :=
  NodeList.mem_modify

theorem mem_occupants_mapVals {room : Room} {b : Nat} {f : Participant → Participant}
    {q : Participant} : (b, q) ∈ (room.mapVals f).occupants ↔
      ∃ p, (b, p) ∈ room.occupants ∧ q = f p :=
  NodeList.mem_mapVals

end Room

/-- `room_init`. -/
def roomInit (node : Bytes) : Room where
  node := some node
  title := none
  description := none
  password := none
  flags := mucFlagsDefault
  defaultRole := roleParticipant
  unused := ⟨List.replicate 48 0, List.length_replicate⟩
  participants := { nodes := .nil, size := 0, maxSize := 100 }
  affiliations := fun _ => .init 0
  history := .init 20
  subject := { node := none, nick := none }

/-- `room_role_for_affiliation`. -/
def roomRoleForAffiliation (room : Room) (affiliation : Int) : Int :=
  if affiliation = affilMember then roleParticipant
  else if affiliation = affilAdmin ∨ affiliation = affilOwner then roleModerator
  else room.defaultRole

/-- The participant that `room_join` links into the list. -/
def joiner (room : Room) (jid : Jid) (nick : Buffer) (affiliation : Int) : Participant :=
  { participantSetNick (participantInit jid) nick with
    affiliation := affiliation
    role := roomRoleForAffiliation room affiliation }

/-- `room_join`: the room and the address of the new participant. -/
def roomJoin (room : Room) (jid : Jid) (nick : Buffer) (affiliation : Int) : Room × Nat :=
  ({ room with participants := room.participants.prepend (joiner room jid nick affiliation) },
    room.participants.nodes.fresh)

/-- `room_leave`. A room that is not persistent is destroyed with its last participant. -/
def roomLeave (room : Room) (addr : Nat) : Room :=
  let room := { room with participants := room.participants.delete addr }
  if !room.hasFlag mucFlagPersistentroom && room.participants.size = 0 then
    room.setFlag mucFlagDestroyed true
  else room

@[simp] theorem participants_roomLeave (room : Room) (addr : Nat) :
    (roomLeave room addr).participants = room.participants.delete addr := by
  unfold roomLeave
  simp only
  split <;> rfl

@[simp] theorem affiliations_roomLeave (room : Room) (addr : Nat) :
    (roomLeave room addr).affiliations = room.affiliations := by
  unfold roomLeave
  simp only
  split <;> rfl

theorem mem_occupants_roomLeave {room : Room} {addr b : Nat} {p : Participant} :
    (b, p) ∈ (roomLeave room addr).occupants ↔ (b, p) ∈ room.occupants ∧ b ≠ addr := by
  unfold Room.occupants
  rw [participants_roomLeave]
  exact NodeList.mem_erase

/-- `room_leave` sets no flag but the one for destruction. -/
theorem hasFlag_roomLeave {room : Room} {addr : Nat} {flag : MucFlags}
    (h : mucFlagDestroyed &&& flag = 0#32) :
    (roomLeave room addr).hasFlag flag = room.hasFlag flag := by
  unfold roomLeave
  simp only
  split
  · exact Room.hasFlag_setFlag h
  · rfl

end Mukite
