import Mukite.Room.Route
import Mukite.Lib.Machine
import Mathlib.Logic.Function.Basic

/-!
# The locks of `rooms_process`

`src/room/rooms.c`, with several workers. Every section under the lock of the table is one step,
and so is every access to a room outside of it; what `room_route` does to the contents of a room
is left out, but for `MUC_FLAG_DESTROYED`. A room is known by the address that `malloc` gives it.
-/

namespace Mukite

/-- `ERROR` stanzas for a room that does not exist are ignored. -/
def ignoredWithoutRoom (ingress : IncomingPacket) : Bool := ingress.type == stanzaError

/-- Whether `rooms_process` creates the room it has not found. -/
def createsRoom (ingress : IncomingPacket) (acl : ACLConfig) : Bool :=
  !ignoredWithoutRoom ingress && ingress.name == .presence &&
    ingress.type != stanzaPresenceUnavailable && aclRole acl ingress.realFrom ≥ aclMucCreate

/-- Where a worker is in `rooms_process`. -/
inductive Place
  | idle
  /-- it has not found the room -/
  | missed (stanza : Stanza)
  /-- before `room_route` -/
  | found (room : Nat)
  /-- in `room_route` -/
  | inside (room : Nat)
  /-- before `pthread_mutex_unlock(&room->sync)` -/
  | routed (room : Nat)
  /-- before the test of `MUC_FLAG_DESTROYED` -/
  | unlocked (room : Nat)
  /-- in `rooms_destroy_room`, before it takes the lock of the table -/
  | doomed (room : Nat)
  /-- before `room_destroy` -/
  | removed (room : Nat)

/-- The room that a worker still has a pointer to and goes on to use. -/
def Place.room : Place → Option Nat
  | .idle => none
  | .missed _ => none
  | .found room => some room
  | .inside room => some room
  | .routed room => some room
  | .unlocked room => some room
  | .doomed room => some room
  | .removed room => some room

/-- The table and its rooms among workers. -/
structure RoomsState (ω : Type) where
  /-- the rooms of the table, with their keys -/
  table : List (Bytes × Nat)
  /-- the next address -/
  fresh : Nat
  /-- the owner of `room->sync` -/
  owner : Nat → Option ω
  /-- `MUC_FLAG_DESTROYED` -/
  flagged : Nat → Bool
  /-- `room_destroy` has been called -/
  destroyed : Nat → Bool
  place : ω → Place

/-- `HASHS_FIND`. -/
def findRoom (table : List (Bytes × Nat)) (node : Bytes) : Option Nat :=
  (table.find? (fun entry => entry.1 == node)).map Prod.snd

/-- The key under which `rooms_process` looks a room up. -/
def roomKey (ingress : IncomingPacket) : Bytes := bptBytes ingress.proxyTo.node

/-- The lock-delimited steps of a worker. -/
inductive RoomsEvent (ω : Type)
  | lookup (w : ω) (stanza : Stanza)
  /-- `rooms_create_room`, or the end of a stanza that creates no room -/
  | create (w : ω)
  | enter (w : ω)
  /-- `room_route` returns, and has set the flag or not -/
  | leave (w : ω) (destroys : Bool)
  | unlock (w : ω)
  | test (w : ω)
  /-- `HASHS_DEL` -/
  | remove (w : ω)
  /-- `room_destroy` -/
  | destroy (w : ω)

variable {ω : Type} [DecidableEq ω]

def RoomsState.goto (s : RoomsState ω) (w : ω) (place : Place) : RoomsState ω :=
  { s with place := Function.update s.place w place }

/-- `rooms_create_room`: the new room is in the table, and its creator has locked it. -/
def RoomsState.create (s : RoomsState ω) (w : ω) (node : Bytes) : RoomsState ω :=
  { table := s.table ++ [(node, s.fresh)]
    fresh := s.fresh + 1
    owner := Function.update s.owner s.fresh (some w)
    flagged := Function.update s.flagged s.fresh false
    destroyed := Function.update s.destroyed s.fresh false
    place := Function.update s.place w (.found s.fresh) }

def roomsStep : Machine.Step (RoomsState ω) (RoomsEvent ω) Unit := fun s e =>
  match e with
  | .lookup w stanza =>
    match s.place w with
    | .idle =>
      match findRoom s.table (roomKey stanza.ingress) with
      | some room => some (s.goto w (.found room), ())
      | none => some (s.goto w (.missed stanza), ())
    | _ => none
  | .create w =>
    match s.place w with
    | .missed stanza =>
      if createsRoom stanza.ingress stanza.acl then
        some (s.create w (roomKey stanza.ingress), ())
      else some (s.goto w .idle, ())
    | _ => none
  | .enter w =>
    match s.place w with
    | .found room => some (s.goto w (.inside room), ())
    | _ => none
  | .leave w destroys =>
    match s.place w with
    | .inside room =>
      some ({ s.goto w (.routed room) with
        flagged := Function.update s.flagged room (s.flagged room || destroys) }, ())
    | _ => none
  | .unlock w =>
    match s.place w with
    | .routed room =>
      some ({ s.goto w (.unlocked room) with owner := Function.update s.owner room none }, ())
    | _ => none
  | .test w =>
    match s.place w with
    | .unlocked room =>
      if s.flagged room then some (s.goto w (.doomed room), ()) else some (s.goto w .idle, ())
    | _ => none
  | .remove w =>
    match s.place w with
    | .doomed room =>
      some ({ s.goto w (.removed room) with
        table := s.table.filter (fun entry => entry.2 != room) }, ())
    | _ => none
  | .destroy w =>
    match s.place w with
    | .removed room =>
      some ({ s.goto w .idle with destroyed := Function.update s.destroyed room true }, ())
    | _ => none

/-- After `rooms_init`. -/
def roomsStart (ω : Type) : RoomsState ω :=
  { table := [], fresh := 0, owner := fun _ => none, flagged := fun _ => false
    destroyed := fun _ => false, place := fun _ => .idle }

end Mukite
