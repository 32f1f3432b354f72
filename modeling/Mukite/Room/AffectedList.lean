import Mukite.Lib.Chain
import Mukite.Lib.WhileLoop
import Mukite.Room.Iq

/-!
# The affected list in memory

`participant_set_affected` links the occupants of an affected list through a field of their own,
and the last loop of `route_iq` follows these links while it removes some of the occupants. Here
the list is what it is in the program: a pointer to its first entry, one to its last, and the
field `affected_list.next` of every participant, whatever an earlier request has left there.

`announceAffected` of `Mukite.Room.Iq` walks the list of addresses instead. The two agree as long
as no entry is met twice and none is used after its removal (`announceLinked_eq`).
-/

namespace Mukite

open WhileLoop

/-- `first_affected_participant`, `current_affected_participant` and the links. -/
structure AffectedLinks where
  firstAffected : Option Nat
  currentAffected : Option Nat
  next : Nat → Option Nat

namespace AffectedLinks

/--
`participant_set_affected` for a participant that is not included yet. `none` is a write through
a null pointer.
-/
def append (links : AffectedLinks) (newAffected : Nat) : Option AffectedLinks :=
  let next := Function.update links.next newAffected none
  match links.firstAffected, links.currentAffected with
  | none, _ =>
    some { firstAffected := some newAffected, currentAffected := some newAffected, next := next }
  | some _, none => none
  | some first, some current =>
    some
      { firstAffected := some first
        currentAffected := some newAffected
        next := Function.update next current (some newAffected) }

/-- The list that a request has built up, one `participant_set_affected` for each address. -/
def build (next : Nat → Option Nat) (affected : List Nat) : Option AffectedLinks :=
  affected.foldlM append { firstAffected := none, currentAffected := none, next := next }

end AffectedLinks

/-- What the last loop of `route_iq` carries from turn to turn. -/
structure AnnounceState where
  room : Room
  sent : List BuilderPacket
  currentAffected : Option Nat

/--
One turn of the loop. A participant that has been removed is freed, and `none` says that one is
used. The link is read while the participant is there: before `room_leave`, or after a turn that
removes nobody.
-/
def announceTurn (next : Nat → Option Nat) (s : AnnounceState) :
    Option (AnnounceState ⊕ (Room × List BuilderPacket)) :=
  match s.currentAffected with
  | none => some (.inr (s.room, s.sent))
  | some addr =>
    match s.room.participants.nodes.get? addr with
    | none => none
    | some p =>
      some (.inl
        { room := (announceOne s.room addr p).1
          sent := s.sent ++ (announceOne s.room addr p).2
          currentAffected := next addr })

/-- The loop over the links, for a given number of turns. -/
def announceLinked (links : AffectedLinks) (turns : Nat) (room : Room) :
    Option (Room × List BuilderPacket) :=
  whileLoop (announceTurn links.next) turns
    { room := room, sent := [], currentAffected := links.firstAffected }

/-! ## Building -/

section Links

variable {links : AffectedLinks} {affected : List Nat} {addr : Nat}

/-- The links run along the addresses. -/
structure Linked (links : AffectedLinks) (affected : List Nat) : Prop where
  chain : Chain links.next links.firstAffected affected
  last : links.currentAffected = affected.getLast?

theorem linked_nil (next : Nat → Option Nat) :
    Linked { firstAffected := none, currentAffected := none, next := next } [] :=
  ⟨.nil, rfl⟩

/-- `participant_set_affected` puts the participant behind the others. -/
theorem Linked.append (h : Linked links affected) (hnodup : affected.Nodup)
    (ha : addr ∉ affected) :
    ∃ links', links.append addr = some links' ∧ Linked links' (affected ++ [addr]) := by
  obtain ⟨first, current, next⟩ := links
  have hchain : Chain next first affected := h.chain
  have hlast : current = affected.getLast? := h.last
  cases first with
  | none =>
    obtain rfl := hchain.eq_nil
    exact ⟨_, rfl, hchain.push_front ha, rfl⟩
  | some first =>
    obtain ⟨rest, rfl, -⟩ := hchain.uncons
    obtain ⟨b, hb⟩ : ∃ b, (first :: rest).getLast? = some b :=
      Option.isSome_iff_exists.mp (by simp)
    rw [hb] at hlast
    subst hlast
    refine ⟨_, rfl, hchain.push_back hnodup ha hb, ?_⟩
    rw [List.getLast?_append]
    rfl

theorem Linked.foldlM : ∀ {more affected : List Nat} {links : AffectedLinks},
    Linked links affected → (affected ++ more).Nodup →
      ∃ links', more.foldlM AffectedLinks.append links = some links' ∧
        Linked links' (affected ++ more)
  | [], affected, links, h, _ => ⟨links, rfl, by rwa [List.append_nil]⟩
  | addr :: more, affected, links, h, hnodup => by
    obtain ⟨hleft, -, hdisj⟩ := List.nodup_append.mp hnodup
    have ha : addr ∉ affected := fun hm => hdisj addr hm addr List.mem_cons_self rfl
    obtain ⟨links₁, happend, h₁⟩ := h.append hleft ha
    rw [List.append_cons] at hnodup
    obtain ⟨links', hfold, h'⟩ := h₁.foldlM hnodup
    refine ⟨links', ?_, by rwa [List.append_cons]⟩
    rw [List.foldlM_cons, happend]
    exact hfold

/-- **The calls of `participant_set_affected` link the participants in the order of the calls.** -/
theorem linked_build (next : Nat → Option Nat) (hnodup : affected.Nodup) :
    ∃ links, AffectedLinks.build next affected = some links ∧ Linked links affected :=
  (linked_nil next).foldlM hnodup

end Links

/-! ## Walking -/

section Walk

variable {room : Room} {addr b : Nat} {p : Participant} {affected : List Nat}

/-- Nobody but the participant of the turn is removed. -/
theorem mem_addrs_announceOne (hb : b ∈ room.participants.nodes.addrs) (hne : b ≠ addr) :
    b ∈ (announceOne room addr p).1.participants.nodes.addrs := by
  unfold announceOne
  dsimp only
  split
  · rw [participants_roomLeave, ParticipantsList.nodes_delete, NodeList.mem_addrs_erase]
    simpa using ⟨hb, hne⟩
  · simpa using hb

theorem announceAffected_cons (hp : room.participants.nodes.get? addr = some p) :
    announceAffected room (addr :: affected) =
      ((announceAffected (announceOne room addr p).1 affected).1,
        (announceOne room addr p).2 ++
          (announceAffected (announceOne room addr p).1 affected).2) := by
  rw [announceAffected, hp]

/-- The walk along a chain of participants that are all there. -/
theorem whileLoop_announceTurn {next : Nat → Option Nat} {current : Option Nat}
    (h : Chain next current affected) : ∀ {room : Room} {sent : List BuilderPacket} {turns : Nat},
    affected.Nodup → (∀ a ∈ affected, a ∈ room.participants.nodes.addrs) →
    affected.length < turns →
    whileLoop (announceTurn next) turns { room := room, sent := sent, currentAffected := current }
      = some ((announceAffected room affected).1, sent ++ (announceAffected room affected).2) := by
  induction h with
  | nil =>
    intro room sent turns _ _ hturns
    obtain ⟨n, rfl⟩ : ∃ n, turns = n + 1 := ⟨turns - 1, by omega⟩
    rw [whileLoop, announceTurn, announceAffected, List.append_nil]
  | @cons a xs _ ih =>
    intro room sent turns hnodup halive hturns
    rw [List.length_cons] at hturns
    obtain ⟨n, rfl⟩ : ∃ n, turns = n + 1 := ⟨turns - 1, by omega⟩
    obtain ⟨ha, hnodup⟩ := List.nodup_cons.mp hnodup
    obtain ⟨p, hp⟩ := NodeList.exists_of_mem_addrs (halive a List.mem_cons_self)
    have hget : room.participants.nodes.get? a = some p := NodeList.get?_eq_some_iff.mpr hp
    -- whoever is still on the list is still in the room
    have halive' : ∀ b ∈ xs, b ∈ (announceOne room a p).1.participants.nodes.addrs := by
      intro b hb
      exact mem_addrs_announceOne (halive b (List.mem_cons_of_mem a hb)) fun he => ha (he ▸ hb)
    rw [whileLoop, announceTurn]
    simp only [hget]
    rw [ih hnodup halive' (by omega), announceAffected_cons hget, List.append_assoc]

/-- **The loop over the links uses nobody who has been removed, and does what the walk along the
addresses does.** -/
theorem announceLinked_eq (next : Nat → Option Nat) {turns : Nat} (hnodup : affected.Nodup)
    (halive : ∀ a ∈ affected, a ∈ room.participants.nodes.addrs) (hturns : affected.length < turns) :
    ∃ links, AffectedLinks.build next affected = some links ∧
      announceLinked links turns room = some (announceAffected room affected) := by
  obtain ⟨links, hbuild, hlinked⟩ := linked_build next hnodup
  refine ⟨links, hbuild, ?_⟩
  unfold announceLinked
  rw [whileLoop_announceTurn hlinked.chain hnodup halive hturns, List.nil_append]

end Walk

end Mukite
