import Mukite.Properties.Identity
import Mukite.Lib.View

/-!
# What the occupants see

Every occupant is told about the others by presences: when it joins, about everybody; later,
about every change. The view it builds from them since its join is the roster of the room
(`view_eq_roster`). A presence of type error is not part of it: that is a stanza of its own which
comes back (`bounced_nick_listed`). Every other one is (`roomStep_heard`).

The proof looks at one stanza at a time. Whatever is sent is true of the room after it, and every
occupant is told about every nick that it does not know as it is then (`Tells`).
-/

namespace Mukite

open View

/-! ## The roster and the view -/

/-- What is known about an occupant: affiliation, role and presence. -/
abbrev Entry := Int × Int × Bytes

def entryOf (p : Participant) : Entry := (p.affiliation, p.role, bptBytes p.presence)

/-- The occupants of a room by their nicks. -/
def roster (room : Room) : Table Bytes Entry := fun nick =>
  (room.participants.nodes.find? (fun p => bptBytes p.nick == nick)).map (fun n => entryOf n.2)

/-- What a presence says about a nick. A presence of type error is about none: it is the stanza of
the occupant itself that comes back, without an affiliation and a role. -/
def eventOf (packet : BuilderPacket) : Option (Event Bytes Entry) :=
  if packet.type = stanzaError then none
  else
    match packet.name, packet.sysData with
    | .presence, .presence item _ _ =>
      some (bptBytes packet.fromNick,
        if packet.type = stanzaPresenceUnavailable then none
        else some (item.affiliation, item.role, bptBytes packet.userData))
    | _, _ => none

/-- The value of the attribute `to` in the header of a packet. -/
def headerTo (packet : BuilderPacket) : Option Bytes := do
  let header ← packet.header
  let found ← attrLoop header (fun (_ : Unit) attr =>
    some (if attr.name.eqLit header "to" then .inr (attr.value.bytes header) else .inl ())) 0 ()
  found.elim (fun _ => none) (fun value => some value.1)

/-- The packets that are sent to a JID: its own field names it, or the header does. -/
def sentTo (jid : Jid) (sent : List BuilderPacket) : List BuilderPacket :=
  sent.filter (fun packet =>
    packet.toJid = jid ∨ packet.toJid = jidInit ∧ headerTo packet = some (jidStr jid))

/-- The view of somebody who has received the given packets. -/
def view (log : List BuilderPacket) : Table Bytes Entry := after unknown (log.filterMap eventOf)

/-! ## Rooms with the logs of their occupants -/

/-- What has been sent to the occupant at an address since it joined. -/
abbrev Logs := Nat → List BuilderPacket

/-- The logs after a stanza. Whoever was not there before it starts a new one. -/
def nextLogs (room room' : Room) (sent : List BuilderPacket) (logs : Logs) : Logs := fun addr =>
  match room'.participants.nodes.get? addr with
  | none => []
  | some r =>
    (if (room.participants.nodes.get? addr).isSome then logs addr else []) ++ sentTo r.jid sent

/-- A room and the logs of its occupants handle one stanza. -/
def loggedStep : Machine.Step (Room × Logs) Stanza (List BuilderPacket) := fun s stanza =>
  (roomStep s.1 stanza).map (fun r => ((r.1, nextLogs s.1 r.1 r.2 s.2), r.2))

/-- The stanzas the result is about: presences and errors, with a payload of reasonable size. -/
structure PresenceOrError (ingress : IncomingPacket) : Prop where
  accepted : Accepted ingress
  kind : ingress.name = .presence ∨ ingress.type = stanzaError
  size : ∀ inner ∈ ingress.inner, inner.size ≤ reasonableRawLimit

/-! ## The roster of a room without namesakes -/

section Roster

variable {room room' : Room} {addr : Nat} {p q : Participant} {nick : Bytes} {e : Entry}

theorem roster_eq_none_iff :
    roster room nick = none ↔ ∀ a q, (a, q) ∈ room.occupants → bptBytes q.nick ≠ nick := by
  unfold roster
  rw [Option.map_eq_none_iff]
  constructor
  · intro h a q hm
    simpa using NodeList.find?_eq_none h a q hm
  · intro h
    cases hf : room.participants.nodes.find? (fun p => bptBytes p.nick == nick) with
    | none => rfl
    | some n =>
      obtain ⟨b, q⟩ := n
      obtain ⟨hm, hn⟩ := NodeList.mem_of_find? hf
      exact absurd (by simpa using hn) (h b q hm)

/-- An occupant is in the roster under its nick. -/
theorem roster_of_mem (h : NoNamesakes room) (hm : (addr, p) ∈ room.occupants) :
    roster room (bptBytes p.nick) = some (entryOf p) := by
  unfold roster
  cases hf : room.participants.nodes.find? (fun q => bptBytes q.nick == bptBytes p.nick) with
  | none => simpa using NodeList.find?_eq_none hf addr p hm
  | some n =>
    obtain ⟨b, q⟩ := n
    obtain ⟨hn, he⟩ := NodeList.mem_of_find? hf
    obtain rfl := h b q addr p hn hm (by simpa using he)
    obtain rfl := NodeList.val_unique hn hm
    rfl

theorem mem_of_roster (h : roster room nick = some e) :
    ∃ a q, (a, q) ∈ room.occupants ∧ bptBytes q.nick = nick ∧ entryOf q = e := by
  unfold roster at h
  obtain ⟨⟨b, q⟩, hf, rfl⟩ := Option.map_eq_some_iff.mp h
  obtain ⟨hm, hn⟩ := NodeList.mem_of_find? hf
  exact ⟨b, q, hm, by simpa using hn, rfl⟩

/-- **The roster holds exactly the occupants.** -/
theorem roster_eq_some_iff (h : NoNamesakes room) : roster room nick = some e ↔
    ∃ a q, (a, q) ∈ room.occupants ∧ bptBytes q.nick = nick ∧ entryOf q = e := by
  refine ⟨mem_of_roster, ?_⟩
  rintro ⟨a, q, hm, rfl, rfl⟩
  exact roster_of_mem h hm

/-- Rooms whose occupants agree on a nick have the same entry for it. -/
theorem roster_congr (h : NoNamesakes room) (h' : NoNamesakes room')
    (hiff : ∀ a q, bptBytes q.nick = nick → ((a, q) ∈ room'.occupants ↔ (a, q) ∈ room.occupants)) :
    roster room' nick = roster room nick := by
  refine Option.ext fun e => ?_
  rw [roster_eq_some_iff h, roster_eq_some_iff h']
  constructor
  · rintro ⟨a, q, hm, hn, he⟩
    exact ⟨a, q, (hiff a q hn).mp hm, hn, he⟩
  · rintro ⟨a, q, hm, hn, he⟩
    exact ⟨a, q, (hiff a q hn).mpr hm, hn, he⟩

end Roster

/-! ## What packets say -/

section Packets

variable {room : Room} {addr : Nat} {p : Participant} {packet : BuilderPacket}

theorem eventOf_presencePacket {newNick : Buffer} {statusCodes : Nat}
    {receiver : Nat × Participant} :
    eventOf (presencePacket room (addr, p) newNick statusCodes receiver) =
      some (bptBytes p.nick, if p.role = roleNone ∨ statusCodes &&& statusNicknameChanged ≠ 0 then
        none else some (entryOf p)) := by
  unfold eventOf presencePacket
  by_cases h : p.role = roleNone ∨ statusCodes &&& statusNicknameChanged ≠ 0
  · simp only [h, if_true]
    rfl
  · simp only [h, if_false]
    rfl

theorem eventOf_rosterPacket {receiver : Participant} :
    eventOf (rosterPacket room receiver p) = some (bptBytes p.nick, some (entryOf p)) := rfl

/-- What is no presence says nothing about a nick. -/
theorem eventOf_of_name (h : packet.name ≠ .presence) : eventOf packet = none := by
  unfold eventOf
  split
  · rfl
  · split
    · next hname _ => exact absurd hname h
    · rfl

theorem name_roomSubjectSend {receiver : Participant}
    (h : packet ∈ roomSubjectSend room receiver) : packet.name ≠ .presence := by
  unfold roomSubjectSend at h
  split at h
  · exact absurd h List.not_mem_nil
  · rw [List.mem_singleton.mp h]
    exact StanzaName.noConfusion

theorem eventOf_bounce {room' : Room} {ingress : IncomingPacket} {error : XMPPError}
    {sent : List BuilderPacket} (h : bounce room ingress error = some (room', sent))
    (hm : packet ∈ sent) : eventOf packet = none := by
  obtain ⟨egress, he, hb⟩ := Option.map_eq_some_iff.mp h
  cases hb
  rw [List.mem_singleton.mp hm]
  obtain ⟨inner, -, he⟩ := Option.bind_eq_some_iff.mp he
  cases he
  rfl

/-- Everybody in a room receives a broadcast. -/
theorem broadcast_reaches (sender : Nat × Participant) (newNick : Buffer) (statusCodes : Nat)
    {r : Participant} {c : Nat} (h : (c, r) ∈ room.occupants) :
    ∃ packet ∈ roomBroadcastPresence room sender newNick statusCodes, packet.toJid = r.jid :=
  ⟨_, List.mem_map_of_mem h, rfl⟩

theorem eventOf_broadcast {newNick : Buffer} {statusCodes : Nat}
    (h : packet ∈ roomBroadcastPresence room (addr, p) newNick statusCodes) :
    eventOf packet =
      some (bptBytes p.nick, if p.role = roleNone ∨ statusCodes &&& statusNicknameChanged ≠ 0 then
        none else some (entryOf p)) := by
  obtain ⟨receiver, -, rfl⟩ := List.mem_map.mp h
  exact eventOf_presencePacket

end Packets

/-! ## The invariant of the room -/

/-- The nicks differ, everybody has a role, and the presences that are kept are within the limit. -/
structure Steady (room : Room) : Prop where
  nicks : NoNamesakes room
  roles : ∀ a p, (a, p) ∈ room.occupants → p.role ≠ roleNone
  sizes : ∀ a p, (a, p) ∈ room.occupants → bptSize p.presence ≤ reasonableRawLimit
  defaultRole : room.defaultRole ≠ roleNone

/-- What an occupant at an address knows when a stanza arrives. -/
def known (room : Room) (addr : Nat) : Table Bytes Entry :=
  if (room.participants.nodes.get? addr).isSome then roster room else unknown

/-- What is sent is true afterwards, and tells everybody all that it does not know. -/
structure Tells (room room' : Room) (sent : List BuilderPacket) : Prop where
  truthful : ∀ packet ∈ sent, ∀ event ∈ eventOf packet, roster room' event.1 = event.2
  covers : ∀ addr r, (addr, r) ∈ room'.occupants → ∀ nick,
    known room addr nick ≠ roster room' nick →
      ∃ packet ∈ sent, packet.toJid = r.jid ∧ ∃ value, eventOf packet = some (nick, value)

theorem known_of_mem {room : Room} {addr : Nat} {p : Participant} (h : (addr, p) ∈ room.occupants) :
    known room addr = roster room := by
  unfold known
  rw [NodeList.get?_eq_some_iff.mpr h]
  rfl

theorem known_fresh {room : Room} : known room room.participants.nodes.fresh = unknown := by
  unfold known
  rw [NodeList.get?_eq_none_iff.mpr NodeList.fresh_notMem]
  rfl

/-- Nothing about the occupants is sent, and they are as they were. -/
theorem Tells.nothing {room room' : Room} {sent : List BuilderPacket}
    (hp : room'.participants = room.participants) (hs : ∀ packet ∈ sent, eventOf packet = none) :
    Tells room room' sent where
  truthful := by
    intro packet hm event he
    rw [hs packet hm] at he
    cases he
  covers := by
    intro addr r hr nick hne
    have hm : (addr, r) ∈ room.occupants := by
      unfold Room.occupants at *
      rwa [← hp]
    have hsame : roster room' = roster room := by
      unfold roster
      rw [hp]
    rw [known_of_mem hm, hsame] at hne
    exact absurd rfl hne

/-! ## Somebody leaves -/

section Leaves

variable {room : Room} {addr : Nat} {p : Participant} {f : Participant → Participant}

theorem mem_left {a : Nat} {q : Participant} :
    (a, q) ∈ (roomLeave (room.modify addr f) addr).occupants ↔
      (a, q) ∈ room.occupants ∧ a ≠ addr := by
  rw [mem_occupants_roomLeave]
  constructor
  · rintro ⟨hm, ha⟩
    obtain ⟨q₀, hq, rfl⟩ := Room.mem_occupants_modify.mp hm
    rw [if_neg ha]
    exact ⟨hq, ha⟩
  · rintro ⟨hm, ha⟩
    exact ⟨Room.mem_occupants_modify.mpr ⟨q, hm, by rw [if_neg ha]⟩, ha⟩

theorem Steady.left (h : Steady room) (hnick : ∀ q, (f q).nick = q.nick) :
    Steady (roomLeave (room.modify addr f) addr) where
  nicks := by
    unfold NoNamesakes
    rw [participants_roomLeave]
    refine NodeList.UniqueBy.erase (NodeList.UniqueBy.modify_keeping h.nicks ?_ ?_)
    · intro x y hr
      rwa [hnick] at hr
    · intro x y hr
      rwa [hnick] at hr
  roles := fun a q hm => h.roles a q (mem_left.mp hm).1
  sizes := fun a q hm => h.sizes a q (mem_left.mp hm).1
  defaultRole := by
    rw [show (roomLeave (room.modify addr f) addr).defaultRole = room.defaultRole by
      unfold roomLeave
      dsimp only
      split <;> rfl]
    exact h.defaultRole

/-- **Who leaves is taken from every view.** -/
theorem Tells.left (h : Steady room) (hm : (addr, p) ∈ room.occupants)
    (hnick : ∀ q, (f q).nick = q.nick)
    (hrole : (f p).role = roleNone) (statusCodes : Nat) :
    Tells room (roomLeave (room.modify addr f) addr)
      (roomBroadcastPresence (room.modify addr f) (addr, f p) none statusCodes) where
  truthful := by
    intro packet hpacket event he
    rw [eventOf_broadcast hpacket, if_pos (.inl hrole), hnick] at he
    obtain rfl := Option.some.inj he
    refine roster_eq_none_iff.mpr fun a q hq hsame => ?_
    obtain ⟨hq, ha⟩ := mem_left.mp hq
    exact ha (h.nicks a q addr p hq hm hsame)
  covers := by
    intro c r hr nick hne
    obtain ⟨hr, hc⟩ := mem_left.mp hr
    rw [known_of_mem hr] at hne
    have hn : bptBytes p.nick = nick := by
      by_contra hother
      refine hne (roster_congr h.nicks (h.left hnick).nicks fun a q hq => ?_).symm
      refine ⟨fun hm' => (mem_left.mp hm').1, fun hm' => mem_left.mpr ⟨hm', ?_⟩⟩
      rintro rfl
      exact hother (NodeList.val_unique hm hm' ▸ hq)
    have hr' : (c, r) ∈ (room.modify addr f).occupants :=
      Room.mem_occupants_modify.mpr ⟨r, hr, by rw [if_neg hc]⟩
    obtain ⟨packet, hpacket, hto⟩ := broadcast_reaches (addr, f p) none statusCodes hr'
    refine ⟨packet, hpacket, hto, none, ?_⟩
    rw [eventOf_broadcast hpacket, if_pos (.inl hrole), hnick, hn]

end Leaves

/-! ## Somebody is announced and stays -/

/-- The room after the second half of a presence of somebody who stays. -/
def announcedRoom (room : Room) (addr : Nat) (inner : Buffer) : Room :=
  ((room.modify addr (refreshed room inner)).modify addr cached).setFlag mucFlagJustCreated false

section Stays

variable {room : Room} {addr : Nat} {p : Participant} {inner : Buffer} {packet : BuilderPacket}

theorem bytes_cachedPresence {b : Buffer} (h : bptSize b ≤ reasonableRawLimit) :
    bptBytes (cachedPresence b) = bptBytes b := by
  unfold cachedPresence
  rw [if_pos h]
  split
  · next hb =>
    rw [bptBytes_none]
    exact (List.length_eq_zero_iff.mp (beq_iff_eq.mp hb)).symm
  · rfl

theorem size_cachedPresence (b : Buffer) : bptSize (cachedPresence b) ≤ reasonableRawLimit := by
  unfold cachedPresence
  split
  · next h =>
    split
    · exact Nat.zero_le _
    · exact h
  · exact Nat.zero_le _

theorem nick_refreshed (q : Participant) : (refreshed room inner q).nick = q.nick :=
  (samePlace_refreshed room inner q).nick

theorem role_refreshed (q : Participant) : (refreshed room inner q).role = q.role := by
  unfold refreshed
  split <;> rfl

theorem size_refreshed {q : Participant} (hi : bptSize inner ≤ reasonableRawLimit)
    (hq : bptSize q.presence ≤ reasonableRawLimit) :
    bptSize (refreshed room inner q).presence ≤ reasonableRawLimit := by
  unfold refreshed
  split
  · exact hi
  · exact hq

theorem mem_announced {a : Nat} {q : Participant} :
    (a, q) ∈ (announcedRoom room addr inner).occupants ↔
      ∃ q₀, (a, q₀) ∈ room.occupants ∧
        q = if a = addr then cached (refreshed room inner q₀) else q₀ := by
  unfold announcedRoom
  rw [Room.occupants_setFlag, Room.mem_occupants_modify]
  constructor
  · rintro ⟨q₁, hq₁, rfl⟩
    obtain ⟨q₀, hq₀, rfl⟩ := Room.mem_occupants_modify.mp hq₁
    refine ⟨q₀, hq₀, ?_⟩
    split <;> rfl
  · rintro ⟨q₀, hq₀, rfl⟩
    refine ⟨_, Room.mem_occupants_modify.mpr ⟨q₀, hq₀, rfl⟩, ?_⟩
    split <;> rfl

/-- Nick and JID are those of before. -/
theorem place_announced {a : Nat} {q : Participant}
    (h : (a, q) ∈ (announcedRoom room addr inner).occupants) :
    ∃ q₀, (a, q₀) ∈ room.occupants ∧ q.nick = q₀.nick ∧ q.jid = q₀.jid := by
  obtain ⟨q₀, hq₀, rfl⟩ := mem_announced.mp h
  have hs := samePlace_refreshed room inner q₀
  refine ⟨q₀, hq₀, ?_⟩
  split
  · exact ⟨hs.nick, hs.jid⟩
  · exact ⟨rfl, rfl⟩

theorem jid_announced {a : Nat} {q : Participant}
    (h : (a, q) ∈ (announcedRoom room addr inner).occupants) :
    ∃ q₀, (a, q₀) ∈ (room.modify addr (refreshed room inner)).occupants ∧ q₀.jid = q.jid := by
  obtain ⟨q₀, hq₀, rfl⟩ := mem_announced.mp h
  refine ⟨_, Room.mem_occupants_modify.mpr ⟨q₀, hq₀, rfl⟩, ?_⟩
  split <;> rfl

theorem Steady.announced (h : Steady room) :
    Steady (announcedRoom room addr inner) where
  nicks := by
    show NoNamesakes ((room.modify addr (refreshed room inner)).modify addr cached)
    refine NodeList.UniqueBy.modify_keeping (NodeList.UniqueBy.modify_keeping h.nicks ?_ ?_)
      (fun _ _ hr => hr) (fun _ _ hr => hr)
    · intro x y hr
      rwa [nick_refreshed] at hr
    · intro x y hr
      rwa [nick_refreshed] at hr
  roles := by
    intro a q hq
    obtain ⟨q₀, hq₀, rfl⟩ := mem_announced.mp hq
    have hr := h.roles a q₀ hq₀
    split
    · show (refreshed room inner q₀).role ≠ roleNone
      rwa [role_refreshed]
    · exact hr
  sizes := by
    intro a q hq
    obtain ⟨q₀, hq₀, rfl⟩ := mem_announced.mp hq
    split
    · exact size_cachedPresence _
    · exact h.sizes a q₀ hq₀
  defaultRole := h.defaultRole

theorem entry_announced (h : Steady room) (hi : bptSize inner ≤ reasonableRawLimit)
    (hm : (addr, p) ∈ room.occupants) :
    roster (announcedRoom room addr inner) (bptBytes p.nick)
      = some (entryOf (refreshed room inner p)) := by
  have hm' : (addr, cached (refreshed room inner p)) ∈ (announcedRoom room addr inner).occupants :=
    mem_announced.mpr ⟨p, hm, by rw [if_pos rfl]⟩
  have hr := roster_of_mem h.announced.nicks hm'
  rw [show (cached (refreshed room inner p)).nick = p.nick from nick_refreshed p] at hr
  rw [hr]
  have hb := bytes_cachedPresence (@size_refreshed room inner p hi (h.sizes addr p hm))
  simp only [entryOf, cached, hb]

/-- Nobody else changes. -/
theorem other_announced (h : Steady room) (hm : (addr, p) ∈ room.occupants) {nick : Bytes}
    (hne : bptBytes p.nick ≠ nick) :
    roster (announcedRoom room addr inner) nick = roster room nick := by
  refine roster_congr h.nicks h.announced.nicks fun a q hq => ?_
  rw [mem_announced]
  constructor
  · rintro ⟨q₀, hq₀, rfl⟩
    split at hq
    · next ha =>
      subst ha
      obtain rfl := NodeList.val_unique hq₀ hm
      exact absurd ((congrArg bptBytes (nick_refreshed q₀)).symm.trans hq) hne
    · next ha =>
      rw [if_neg ha]
      exact hq₀
  · intro hq'
    refine ⟨q, hq', ?_⟩
    rw [if_neg]
    rintro rfl
    exact hne (NodeList.val_unique hm hq' ▸ hq)

/-- **The announcement is true.** -/
theorem announcement_true (h : Steady room) (hi : bptSize inner ≤ reasonableRawLimit)
    (hm : (addr, p) ∈ room.occupants)
    (hpacket : packet ∈ roomBroadcastPresence (room.modify addr (refreshed room inner))
      (addr, refreshed room inner p) none 0) :
    eventOf packet = some (bptBytes p.nick, some (entryOf (refreshed room inner p))) ∧
      ∀ event ∈ eventOf packet, roster (announcedRoom room addr inner) event.1 = event.2 := by
  have hrole : ¬ ((refreshed room inner p).role = roleNone ∨
      0 &&& statusNicknameChanged ≠ 0) := by
    rintro (hr | hr)
    · exact h.roles addr p hm (role_refreshed p ▸ hr)
    · exact hr (Nat.zero_and _)
  have he : eventOf packet = some (bptBytes p.nick, some (entryOf (refreshed room inner p))) := by
    rw [eventOf_broadcast hpacket, if_neg hrole, nick_refreshed]
  refine ⟨he, fun event hevent => ?_⟩
  rw [he] at hevent
  obtain rfl := Option.some.inj hevent
  exact entry_announced h hi hm

/-- **Everybody receives the announcement.** -/
theorem announcement_reaches {c : Nat} {r : Participant}
    (hr : (c, r) ∈ (announcedRoom room addr inner).occupants) :
    ∃ packet ∈ roomBroadcastPresence (room.modify addr (refreshed room inner))
      (addr, refreshed room inner p) none 0, packet.toJid = r.jid := by
  obtain ⟨r₀, hr₀, hjid⟩ := jid_announced hr
  obtain ⟨packet, hpacket, hto⟩ := broadcast_reaches (addr, refreshed room inner p) none 0 hr₀
  exact ⟨packet, hpacket, hto.trans hjid⟩

/-- A presence of somebody who was in the room and keeps its nick. -/
theorem Tells.updated (h : Steady room) (hi : bptSize inner ≤ reasonableRawLimit)
    (hm : (addr, p) ∈ room.occupants) :
    Tells room (announcedRoom room addr inner)
      (roomBroadcastPresence (room.modify addr (refreshed room inner))
        (addr, refreshed room inner p) none 0) where
  truthful := fun packet hpacket => (announcement_true h hi hm hpacket).2
  covers := by
    intro c r hr nick hne
    obtain ⟨r₀, hr₀, -⟩ := mem_announced.mp hr
    rw [known_of_mem hr₀] at hne
    have hn : bptBytes p.nick = nick := by
      by_contra hother
      exact hne (other_announced h hm hother).symm
    obtain ⟨packet, hpacket, hto⟩ := @announcement_reaches room addr p inner c r hr
    exact ⟨packet, hpacket, hto, _, hn ▸ (announcement_true h hi hm hpacket).1⟩

theorem Steady.renamed (h : Steady room) {nick : Buffer}
    (hfree : participantsFindByNick room.participants nick = none) :
    Steady (renamed room addr (some (bptBytes nick))) where
  nicks := NoNamesakes.renamed h.nicks hfree
  roles := by
    intro a q hq
    obtain ⟨q₀, hq₀, rfl⟩ := Room.mem_occupants_modify.mp hq
    have hr := h.roles a q₀ hq₀
    split <;> exact hr
  sizes := by
    intro a q hq
    obtain ⟨q₀, hq₀, rfl⟩ := Room.mem_occupants_modify.mp hq
    have hs := h.sizes a q₀ hq₀
    split <;> exact hs
  defaultRole := h.defaultRole

theorem other_renamed (h : Steady room) (hm : (addr, p) ∈ room.occupants) {nick : Buffer}
    (hfree : participantsFindByNick room.participants nick = none) {k : Bytes}
    (hold : bptBytes p.nick ≠ k) (hnew : bptBytes nick ≠ k) :
    roster (renamed room addr (some (bptBytes nick))) k = roster room k := by
  refine roster_congr h.nicks (h.renamed hfree).nicks fun a q hq => ?_
  unfold renamed
  rw [Room.mem_occupants_modify]
  constructor
  · rintro ⟨q₀, hq₀, rfl⟩
    split at hq
    · exact absurd hq hnew
    · next ha =>
      rw [if_neg ha]
      exact hq₀
  · intro hq'
    refine ⟨q, hq', ?_⟩
    rw [if_neg]
    rintro rfl
    exact hold (NodeList.val_unique hm hq' ▸ hq)

/-- A presence of somebody who takes a free nick. -/
theorem Tells.renamed (h : Steady room) (hi : bptSize inner ≤ reasonableRawLimit)
    (hm : (addr, p) ∈ room.occupants) {nick : Buffer}
    (hfree : participantsFindByNick room.participants nick = none) :
    Tells room (announcedRoom (renamed room addr (some (bptBytes nick))) addr inner)
      (roomBroadcastPresence room (addr, p) (some (bptBytes nick)) statusNicknameChanged ++
        roomBroadcastPresence ((Mukite.renamed room addr (some (bptBytes nick))).modify addr
          (refreshed (Mukite.renamed room addr (some (bptBytes nick))) inner))
          (addr, refreshed (Mukite.renamed room addr (some (bptBytes nick))) inner
            { p with nick := some (bptBytes nick) }) none 0) := by
  have h' : Steady (Mukite.renamed room addr (some (bptBytes nick))) := h.renamed hfree
  have hm' : (addr, { p with nick := some (bptBytes nick) }) ∈
      (Mukite.renamed room addr (some (bptBytes nick))).occupants := mem_occupants_renamed hm
  have hold : ∀ packet ∈ roomBroadcastPresence room (addr, p) (some (bptBytes nick))
      statusNicknameChanged, eventOf packet = some (bptBytes p.nick, none) := by
    intro packet hpacket
    rw [eventOf_broadcast hpacket, if_pos (.inr (by decide))]
  constructor
  · intro packet hpacket event hevent
    rcases List.mem_append.mp hpacket with hpacket | hpacket
    · rw [hold packet hpacket] at hevent
      obtain rfl := Option.some.inj hevent
      refine roster_eq_none_iff.mpr fun a q hq hsame => ?_
      obtain ⟨q₀, hq₀, hnick, -⟩ := place_announced hq
      obtain ⟨q₁, hq₁, rfl⟩ := Room.mem_occupants_modify.mp hq₀
      rw [hnick] at hsame
      split at hsame
      · exact findByNick_none hfree hm hsame.symm
      · next ha => exact ha (h.nicks a q₁ addr p hq₁ hm hsame)
    · exact (announcement_true h' hi hm' hpacket).2 event hevent
  · intro c r hr k hne
    obtain ⟨r₀, hr₀, -, hjid⟩ := place_announced hr
    obtain ⟨r₁, hr₁, rfl⟩ := Room.mem_occupants_modify.mp hr₀
    rw [known_of_mem hr₁] at hne
    -- under the new nick there is the one who took it, under the old one nobody
    by_cases hnew : bptBytes nick = k
    · obtain ⟨packet, hpacket, hto⟩ := @announcement_reaches _ addr
        { p with nick := some (bptBytes nick) } inner c r hr
      subst hnew
      exact ⟨packet, List.mem_append_right _ hpacket, hto, _,
        (announcement_true h' hi hm' hpacket).1⟩
    · have hn : bptBytes p.nick = k := by
        by_contra hother
        refine hne ((other_announced h' hm' hnew).trans ?_).symm
        exact other_renamed h hm hfree hother hnew
      obtain ⟨packet, hpacket, hto⟩ := broadcast_reaches (addr, p) (some (bptBytes nick))
        statusNicknameChanged hr₁
      refine ⟨packet, List.mem_append_left _ hpacket, ?_, none, hn ▸ hold packet hpacket⟩
      rw [hto, hjid]
      split <;> rfl

/-- A presence of somebody who enters under a free nick. `old` is the room before. -/
theorem Tells.joined {old : Room} {receiver : Participant} {subject : List BuilderPacket}
    (hold : NoNamesakes old) (h : Steady room) (hi : bptSize inner ≤ reasonableRawLimit)
    (hocc : ∀ a q, (a, q) ∈ room.occupants ↔
      (a = old.participants.nodes.fresh ∧ q = p) ∨ (a, q) ∈ old.occupants)
    (hjid : receiver.jid = p.jid)
    (hsubject : ∀ packet ∈ subject, eventOf packet = none) :
    Tells old (announcedRoom room old.participants.nodes.fresh inner)
      (roomPresencesSend room (old.participants.nodes.fresh, receiver) ++
        (roomBroadcastPresence (room.modify old.participants.nodes.fresh (refreshed room inner))
          (old.participants.nodes.fresh, refreshed room inner p) none 0 ++ subject)) := by
  have hm : (old.participants.nodes.fresh, p) ∈ room.occupants := (hocc _ _).mpr (.inl ⟨rfl, rfl⟩)
  constructor
  · intro packet hpacket event hevent
    rcases List.mem_append.mp hpacket with hpacket | hpacket
    · obtain ⟨⟨a, q⟩, hq, rfl⟩ := List.mem_map.mp hpacket
      obtain ⟨hq, hne⟩ := List.mem_filter.mp hq
      rw [eventOf_rosterPacket] at hevent
      obtain rfl := Option.some.inj hevent
      have hother : bptBytes p.nick ≠ bptBytes q.nick := by
        intro hsame
        have := h.nicks _ _ _ _ hm hq hsame
        simp [this] at hne
      rw [other_announced h hm hother]
      exact roster_of_mem h.nicks hq
    · rcases List.mem_append.mp hpacket with hpacket | hpacket
      · exact (announcement_true h hi hm hpacket).2 event hevent
      · rw [hsubject packet hpacket] at hevent
        cases hevent
  · intro c r hr k hne
    obtain ⟨r₀, hr₀, -, hjid₀⟩ := place_announced hr
    -- the newcomer is announced to all; of the others only the newcomer has to be told
    by_cases hk : bptBytes p.nick = k
    · obtain ⟨packet, hpacket, hto⟩ := @announcement_reaches _ old.participants.nodes.fresh
        p inner c r hr
      subst hk
      exact ⟨packet, List.mem_append_right _ (List.mem_append_left _ hpacket), hto, _,
        (announcement_true h hi hm hpacket).1⟩
    · rw [other_announced h hm hk] at hne
      rcases (hocc c r₀).mp hr₀ with ⟨rfl, rfl⟩ | hr₀
      · -- the newcomer has been told about everybody
        rw [known_fresh] at hne
        cases hroster : roster room k with
        | none =>
          rw [hroster] at hne
          exact absurd rfl hne
        | some e =>
          obtain ⟨a, q, hq, hqn, rfl⟩ := mem_of_roster hroster
          have ha : a ≠ old.participants.nodes.fresh := by
            rintro rfl
            exact hk (NodeList.val_unique hm hq ▸ hqn)
          refine ⟨rosterPacket room receiver q, List.mem_append_left _ ?_, ?_, some (entryOf q), ?_⟩
          · refine List.mem_map.mpr ⟨(a, q), List.mem_filter.mpr ⟨hq, ?_⟩, rfl⟩
            simpa using ha
          · show receiver.jid = r.jid
            rw [hjid, hjid₀]
          · rw [eventOf_rosterPacket, hqn]
      · -- whoever was there knows everybody else
        rw [known_of_mem hr₀] at hne
        refine absurd (roster_congr hold h.nicks fun a q hq => ?_).symm hne
        rw [hocc]
        refine ⟨fun hq' => hq'.resolve_left ?_, .inr⟩
        rintro ⟨-, rfl⟩
        exact hk hq

end Stays

/-! ## One stanza -/

section Steps

variable {room room' : Room} {ingress : IncomingPacket} {acl : ACLConfig}
  {sent : List BuilderPacket} {inner : Buffer}

/-- A payload of reasonable size is copied as such. -/
theorem innerBytes_size (h : ∀ inner ∈ ingress.inner, inner.size ≤ reasonableRawLimit)
    (hi : ingress.innerBytes = some inner) : bptSize inner ≤ reasonableRawLimit := by
  unfold IncomingPacket.innerBytes at hi
  split at hi
  · cases hi
    exact Nat.zero_le _
  · next span hspan =>
    obtain ⟨b, hb, rfl⟩ := Option.map_eq_some_iff.mp hi
    have hlen := Span.length_of_copy hb
    have hsize := h span hspan
    show b.length ≤ reasonableRawLimit
    omega

/-- A query of type error has no effect. It goes back, or is sent on without a name. -/
theorem routeIq_errorType (htype : ingress.type = stanzaError)
    (hr : routeIq room ingress acl = some (room', sent)) : room' = room ∧
      ((∃ error, bounce room ingress error = some (room', sent)) ∨
        ∀ packet ∈ sent, packet.name = .unset) := by
  unfold routeIq at hr
  split at hr
  · refine ⟨proxyIq_room hr, ?_⟩
    unfold proxyIq at hr
    split at hr
    · exact .inl ⟨_, hr⟩
    · split at hr
      · exact .inl ⟨_, hr⟩
      · split at hr
        · exact .inl ⟨_, hr⟩
        · obtain ⟨inner, -, hr⟩ := Option.bind_eq_some_iff.mp hr
          obtain ⟨vcard, -, hr⟩ := Option.bind_eq_some_iff.mp hr
          cases hr
          exact .inr fun packet hpacket => by rw [List.mem_singleton.mp hpacket]
  · obtain ⟨answer, ha, hr⟩ := Option.bind_eq_some_iff.mp hr
    unfold answerIq at ha
    obtain ⟨query, -, ha⟩ := Option.bind_eq_some_iff.mp ha
    cases query with
    | none =>
      cases ha
      exact ⟨bounce_room hr, .inl ⟨_, hr⟩⟩
    | some query =>
      rw [htype] at ha
      cases ha
      exact ⟨bounce_room hr, .inl ⟨_, hr⟩⟩

theorem Steady.roomJoin (h : Steady room) {jid : Jid} {nick : Buffer} {affiliation : Int}
    (hsize : bptSize nick ≤ maxJidPartSize)
    (hfree : participantsFindByNick room.participants nick = none) :
    Steady (roomJoin room jid nick affiliation).1 where
  nicks := NoNamesakes.join h.nicks hsize hfree
  roles := by
    intro a q hq
    rcases NodeList.mem_cons.mp hq with ⟨-, rfl⟩ | hq
    · exact role_joiner h.defaultRole
    · exact h.roles a q hq
  sizes := by
    intro a q hq
    rcases NodeList.mem_cons.mp hq with ⟨-, rfl⟩ | hq
    · exact Nat.zero_le _
    · exact h.sizes a q hq
  defaultRole := h.defaultRole

/-- Changes beside the participants. -/
theorem Steady.of_participants (h : Steady room) (hp : room'.participants = room.participants)
    (hd : room'.defaultRole = room.defaultRole) : Steady room' where
  nicks := by
    unfold NoNamesakes
    rw [hp]
    exact h.nicks
  roles := by
    unfold Room.occupants
    rw [hp]
    exact h.roles
  sizes := by
    unfold Room.occupants
    rw [hp]
    exact h.sizes
  defaultRole := hd ▸ h.defaultRole

theorem Tells.of_participants {room₁ : Room} (h : Tells room room₁ sent)
    (hp : room'.participants = room₁.participants) : Tells room room' sent where
  truthful := by
    unfold roster
    rw [hp]
    exact h.truthful
  covers := by
    unfold roster Room.occupants
    rw [hp]
    exact h.covers

theorem broadcastAt_of_mem {addr : Nat} {p : Participant} (h : (addr, p) ∈ room.occupants)
    (newNick : Buffer) (statusCodes : Nat) : broadcastAt room addr newNick statusCodes
      = roomBroadcastPresence room (addr, p) newNick statusCodes := by
  unfold broadcastAt
  rw [NodeList.get?_eq_some_iff.mpr h]

theorem routePresence_tells (h : Steady room) (hok : PresenceOrError ingress)
    (hr : routePresence room ingress acl = some (room', sent)) :
    Steady room' ∧ Tells room room' sent := by
  unfold routePresence at hr
  obtain ⟨r, hsender, hr⟩ := Option.bind_eq_some_iff.mp hr
  -- what goes back changes nothing; the rest is an update, a leave, a rename or a join
  cases presenceSender_case hsender with
  | ignored =>
    cases hr
    exact ⟨h, .nothing rfl fun _ hm => absurd hm List.not_mem_nil⟩
  | bounced error sent hb =>
    cases hr
    exact ⟨h, .nothing rfl fun _ hm => eventOf_bounce hb hm⟩
  | turnedAway error sent hjid hb =>
    cases hr
    exact ⟨h.of_participants rfl rfl, .nothing rfl fun _ hm => eventOf_bounce hb hm⟩
  | present addr sender hs =>
    obtain ⟨⟨room₂, sent₂⟩, ha, hr⟩ := Option.bind_eq_some_iff.mp hr
    cases hr
    have hm := findByJid_mem hs
    obtain ⟨inner, hinner, hc⟩ := presenceAnnounce_case hm ha
    have hi := @innerBytes_size (cleanedPresence ingress) inner hok.size hinner
    cases hc with
    | left htype =>
      have hnick : ∀ q, (departed room inner q).nick = q.nick :=
        fun q => (samePlace_departed room inner q).nick
      exact ⟨(h.left hnick).of_participants rfl rfl,
        (Tells.left h hm hnick rfl 0).of_participants rfl⟩
    | stayed htype =>
      refine ⟨h.announced, ?_⟩
      simp only [List.nil_append, Bool.false_eq_true, if_false, List.append_nil]
      exact Tells.updated h hi hm
  | renamed addr sender hs htype hres hnick =>
    obtain ⟨⟨room₂, sent₂⟩, ha, hr⟩ := Option.bind_eq_some_iff.mp hr
    cases hr
    have hm := findByJid_mem hs
    obtain ⟨inner, hinner, hc⟩ := presenceAnnounce_case (mem_occupants_renamed hm) ha
    have hi := innerBytes_size hok.size hinner
    cases hc with
    | left ht => exact absurd ht htype
    | stayed ht =>
      refine ⟨(h.renamed hnick).announced, ?_⟩
      simp only [Bool.false_eq_true, if_false, List.append_nil]
      rw [broadcastAt_of_mem hm]
      exact Tells.renamed h hi hm hnick
  | joined mucNode affiliation hjid htype hres hnick hadmission =>
    obtain ⟨⟨room₂, sent₂⟩, ha, hr⟩ := Option.bind_eq_some_iff.mp hr
    cases hr
    obtain ⟨inner, hinner, hc⟩ := presenceAnnounce_case mem_occupants_roomJoin ha
    have hi := @innerBytes_size (cleanedPresence ingress) inner hok.size hinner
    have hsize := hok.accepted.parsed.2.resource_le
    have hcreated : Steady (withCreator room ingress.realFrom) := h.of_participants rfl rfl
    have hjoined := @Steady.roomJoin _ hcreated ingress.realFrom _ affiliation hsize hnick
    cases hc with
    | left ht => exact absurd ht htype
    | stayed ht =>
      refine ⟨hjoined.announced, ?_⟩
      simp only [if_true]
      exact Tells.joined h.nicks hjoined hi (fun a q => NodeList.mem_cons) rfl
        (fun packet hpacket => eventOf_of_name (name_roomSubjectSend hpacket))

theorem routeError_tells (h : Steady room) (hr : routeError room ingress = (room', sent)) :
    Steady room' ∧ Tells room room' sent := by
  unfold routeError at hr
  split at hr
  · cases hr
    exact ⟨h, .nothing rfl fun _ hm => absurd hm List.not_mem_nil⟩
  · next addr sender hs =>
    cases hr
    exact ⟨h.left fun _ => rfl,
      Tells.left (f := errorKicked) h (findByJid_mem hs) (fun _ => rfl) rfl 0⟩

/-- **Whatever a stanza does to the occupants, they are told.** -/
theorem roomStep_tells {stanza : Stanza} (h : Steady room) (hok : PresenceOrError stanza.ingress)
    (hr : roomStep room stanza = some (room', sent)) : Steady room' ∧ Tells room room' sent := by
  unfold roomStep roomRoute at hr
  split at hr
  · exact routeError_tells h (Option.some.inj hr)
  · next hno =>
    split at hr
    · next hname =>
      have htype : stanza.ingress.type = stanzaError :=
        hok.kind.resolve_left (by rw [hname]; decide)
      simp [isErrorStanza, hname, htype] at hno
    · exact routePresence_tells h hok hr
    · next hname =>
      have htype : stanza.ingress.type = stanzaError :=
        hok.kind.resolve_left (by rw [hname]; decide)
      obtain ⟨rfl, ⟨error, hb⟩ | hunset⟩ := routeIq_errorType htype hr
      · exact ⟨h, .nothing rfl fun _ hm => eventOf_bounce hb hm⟩
      · exact ⟨h, .nothing rfl fun _ hm => eventOf_of_name (by rw [hunset _ hm]; decide)⟩
    · cases hr
      exact ⟨h, .nothing rfl fun _ hm => absurd hm List.not_mem_nil⟩

/-! ## Which presences count -/

/-- A presence says something about a nick, or it is of type error. -/
def Heard (packet : BuilderPacket) : Prop :=
  packet.name = .presence → packet.type = stanzaError ∨ (eventOf packet).isSome = true

theorem heard_broadcast {sender : Nat × Participant} {newNick : Buffer} {statusCodes : Nat}
    {packet : BuilderPacket}
    (h : packet ∈ roomBroadcastPresence room sender newNick statusCodes) : Heard packet := by
  intro _
  rw [eventOf_broadcast h]
  exact .inr rfl

theorem heard_bounce {error : XMPPError} {packet : BuilderPacket}
    (h : bounce room ingress error = some (room', sent)) (hm : packet ∈ sent) : Heard packet := by
  obtain ⟨egress, he, hb⟩ := Option.map_eq_some_iff.mp h
  cases hb
  rw [List.mem_singleton.mp hm]
  obtain ⟨inner, -, he⟩ := Option.bind_eq_some_iff.mp he
  cases he
  exact fun _ => .inl rfl

theorem heard_announce {type : Nat} {inner : Buffer} {justJoined : Bool}
    (h : AnnounceCase room addr p type inner justJoined room' sent) :
    ∀ packet ∈ sent, Heard packet := by
  intro packet hm
  cases h with
  | left htype => exact heard_broadcast hm
  | stayed htype =>
    rcases List.mem_append.mp hm with hm | hm
    · exact heard_broadcast hm
    · intro hname
      split at hm
      · exact .inr (absurd hname (name_roomSubjectSend hm))
      · exact absurd hm List.not_mem_nil

/-- **A presence that is sent for a presence says something about a nick**, if it is no error. -/
theorem routePresence_heard (hr : routePresence room ingress acl = some (room', sent)) :
    ∀ packet ∈ sent, Heard packet := by
  unfold routePresence at hr
  obtain ⟨r, hsender, hr⟩ := Option.bind_eq_some_iff.mp hr
  cases presenceSender_case hsender with
  | ignored =>
    cases hr
    exact fun _ hm => absurd hm List.not_mem_nil
  | bounced error sent hb =>
    cases hr
    exact fun _ hm => heard_bounce hb hm
  | turnedAway error sent hjid hb =>
    cases hr
    exact fun _ hm => heard_bounce hb hm
  | present addr sender hs =>
    obtain ⟨⟨room₂, sent₂⟩, ha, hr⟩ := Option.bind_eq_some_iff.mp hr
    cases hr
    obtain ⟨inner, -, hc⟩ := presenceAnnounce_case (findByJid_mem hs) ha
    exact heard_announce hc
  | renamed addr sender hs htype hres hnick =>
    obtain ⟨⟨room₂, sent₂⟩, ha, hr⟩ := Option.bind_eq_some_iff.mp hr
    cases hr
    have hm := findByJid_mem hs
    obtain ⟨inner, -, hc⟩ := presenceAnnounce_case (mem_occupants_renamed hm) ha
    rw [broadcastAt_of_mem hm]
    intro packet hpacket
    rcases List.mem_append.mp hpacket with hpacket | hpacket
    · exact heard_broadcast hpacket
    · exact heard_announce hc packet hpacket
  | joined mucNode affiliation hjid htype hres hnick hadmission =>
    obtain ⟨⟨room₂, sent₂⟩, ha, hr⟩ := Option.bind_eq_some_iff.mp hr
    cases hr
    obtain ⟨inner, -, hc⟩ := presenceAnnounce_case mem_occupants_roomJoin ha
    intro packet hpacket
    rcases List.mem_append.mp hpacket with hpacket | hpacket
    · obtain ⟨n, -, rfl⟩ := List.mem_map.mp hpacket
      exact fun _ => .inr rfl
    · exact heard_announce hc packet hpacket

/-- Whoever is kicked is announced. -/
theorem routeError_heard (hr : routeError room ingress = (room', sent)) :
    ∀ packet ∈ sent, Heard packet := by
  unfold routeError at hr
  split at hr
  · cases hr
    exact fun _ hm => absurd hm List.not_mem_nil
  · cases hr
    exact fun _ hm => heard_broadcast hm

/-- **Every presence that is sent counts**, but for those of type error. -/
theorem roomStep_heard {stanza : Stanza} (hok : PresenceOrError stanza.ingress)
    (hr : roomStep room stanza = some (room', sent)) : ∀ packet ∈ sent, Heard packet := by
  unfold roomStep roomRoute at hr
  split at hr
  · exact routeError_heard (Option.some.inj hr)
  · next hno =>
    split at hr
    · next hname =>
      have htype : stanza.ingress.type = stanzaError :=
        hok.kind.resolve_left (by rw [hname]; decide)
      simp [isErrorStanza, hname, htype] at hno
    · exact routePresence_heard hr
    · next hname =>
      have htype : stanza.ingress.type = stanzaError :=
        hok.kind.resolve_left (by rw [hname]; decide)
      obtain ⟨-, ⟨error, hb⟩ | hunset⟩ := routeIq_errorType htype hr
      · exact fun _ hm => heard_bounce hb hm
      · exact fun packet hm hname => absurd hname (by rw [hunset packet hm]; decide)
    · cases hr
      exact fun _ hm => absurd hm List.not_mem_nil

end Steps

/-! ## Runs -/

theorem view_append (log sent : List BuilderPacket) :
    view (log ++ sent) = after (view log) (sent.filterMap eventOf) := by
  unfold view
  rw [List.filterMap_append, after_append]

theorem Steady.roomInit (node : Bytes) : Steady (roomInit node) where
  nicks := NodeList.uniqueBy_nil
  roles := fun _ _ hm => absurd hm List.not_mem_nil
  sizes := fun _ _ hm => absurd hm List.not_mem_nil
  defaultRole := show roleParticipant ≠ roleNone by decide

/-- The room is steady and every view of it is right. -/
structure Consistent (s : Room × Logs) : Prop where
  steady : Steady s.1
  views : ∀ addr r, (addr, r) ∈ s.1.occupants → view (s.2 addr) = roster s.1

/-- **A stanza keeps the views right.** -/
theorem Consistent.step {s s' : Room × Logs} {stanza : Stanza} {sent : List BuilderPacket}
    (h : Consistent s) (hok : PresenceOrError stanza.ingress)
    (hstep : loggedStep s stanza = some (s', sent)) : Consistent s' := by
  obtain ⟨⟨room', sent'⟩, hr, he⟩ := Option.map_eq_some_iff.mp hstep
  cases he
  obtain ⟨hsteady, htells⟩ := roomStep_tells h.steady hok hr
  refine ⟨hsteady, fun addr r hm => ?_⟩
  -- before the packets of this stanza the view is what the occupant knows
  have hbefore : view (if (s.1.participants.nodes.get? addr).isSome then s.2 addr else [])
      = known s.1 addr := by
    unfold known
    split
    · next hsome =>
      obtain ⟨p, hp⟩ := Option.isSome_iff_exists.mp hsome
      exact h.views addr p (NodeList.get?_eq_some_iff.mp hp)
    · rfl
  have hlog : nextLogs s.1 room' sent' s.2 addr =
      (if (s.1.participants.nodes.get? addr).isSome then s.2 addr else []) ++ sentTo r.jid sent' := by
    unfold nextLogs
    rw [NodeList.get?_eq_some_iff.mpr hm]
  show view (nextLogs s.1 room' sent' s.2 addr) = roster room'
  rw [hlog, view_append, hbefore]
  refine after_eq ?_ ?_
  · intro event hevent
    obtain ⟨packet, hpacket, he⟩ := List.mem_filterMap.mp hevent
    exact htells.truthful packet (List.mem_filter.mp hpacket).1 event he
  · intro nick hne
    obtain ⟨packet, hpacket, hto, value, he⟩ := htells.covers addr r hm nick hne
    refine ⟨(nick, value), List.mem_filterMap.mpr ⟨packet, ?_, he⟩, rfl⟩
    exact List.mem_filter.mpr ⟨hpacket, decide_eq_true (.inl hto)⟩

/-- **In every run of presences and errors, the view that an occupant has built since it joined
holds exactly the occupants of the room, with their affiliations, roles and presences.** -/
theorem view_eq_roster (node : Bytes) (s : Room × Logs)
    (h : Machine.Reach loggedStep (fun _ stanza => PresenceOrError stanza.ingress)
      (roomInit node, fun _ => []) s) (addr : Nat) (r : Participant)
    (hm : (addr, r) ∈ s.1.occupants) (nick : Bytes) (e : Entry) :
    view (s.2 addr) nick = some e ↔
      ∃ a p, (a, p) ∈ s.1.occupants ∧ bptBytes p.nick = nick ∧ entryOf p = e := by
  have hstart : Consistent (roomInit node, fun _ => []) :=
    ⟨.roomInit node, fun _ _ hm => absurd hm List.not_mem_nil⟩
  have hc : Consistent s := h.invariant hstart fun _ _ _ _ hs hok hstep => hs.step hok hstep
  rw [hc.views addr r hm]
  exact roster_eq_some_iff hc.steady.nicks

set_option maxRecDepth 100000 in
/-- The result for the first occupant after two joins and its own nick change. -/
theorem view_eq_roster_renamingRun :
    ∃ s, Machine.run loggedStep (roomInit (lit "room"), fun _ => []) renamingRun = some s ∧
      ∃ addr r, (addr, r) ∈ s.1.occupants ∧ r.nick = some (lit "alice") ∧
        ∀ nick e, view (s.2 addr) nick = some e ↔
          ∃ a p, (a, p) ∈ s.1.occupants ∧ bptBytes p.nick = nick ∧ entryOf p = e := by
  have hany : (Machine.run loggedStep (roomInit (lit "room"), fun _ => []) renamingRun).any
      (fun s => s.1.occupants.any (fun n => n.2.nick == some (lit "alice"))) = true := by
    decide +kernel
  obtain ⟨s, hrun, hfacts⟩ := (Option.any_eq_true _ _).mp hany
  obtain ⟨⟨addr, r⟩, hm, hnick⟩ := List.any_eq_true.mp hfacts
  have hkind : ∀ stanza ∈ renamingRun, stanza.ingress.name = .presence ∧
      ∀ inner ∈ stanza.ingress.inner, inner.size ≤ reasonableRawLimit := by decide +kernel
  refine ⟨s, hrun, addr, r, hm, beq_iff_eq.mp hnick, fun nick e => ?_⟩
  refine view_eq_roster (lit "room") s (.run .start (fun _ stanza hs => ?_) hrun) addr r hm nick e
  exact ⟨accepted_of_texts hs, .inl (hkind stanza hs).1, (hkind stanza hs).2⟩

/-! ## Presences of type error -/

/-- What a presence says about a nick when errors count as well. They carry no affiliation and no
role, so what is read in their place is left open. -/
def eventOfAny (affiliation role : Int) (packet : BuilderPacket) : Option (Event Bytes Entry) :=
  if packet.name = .presence then
    some (bptBytes packet.fromNick,
      if packet.type = stanzaPresenceUnavailable then none
      else
        match packet.sysData with
        | .presence item _ _ => some (item.affiliation, item.role, bptBytes packet.userData)
        | _ => some (affiliation, role, bptBytes packet.userData))
  else none

/-- An error puts the nick that it does not have into a view. -/
theorem after_error {log : List BuilderPacket} {packet : BuilderPacket} {error : XMPPError}
    (affiliation role : Int) (hname : packet.name = .presence) (htype : packet.type = stanzaError)
    (hdata : packet.sysData = .error error) :
    after unknown ((log ++ [packet]).filterMap (eventOfAny affiliation role))
        (bptBytes packet.fromNick) = some (affiliation, role, bptBytes packet.userData) := by
  have hevent : eventOfAny affiliation role packet = some (bptBytes packet.fromNick,
      some (affiliation, role, bptBytes packet.userData)) := by
    unfold eventOfAny
    rw [if_pos hname, htype, hdata]
    rfl
  rw [List.filterMap_append, after_append, List.filterMap_cons, hevent]
  exact @apply_self Bytes Entry _ _ (bptBytes packet.fromNick, _)

/-- Two occupants join and the first one asks for the nick of the second. -/
def conflictRun : List Stanza :=
  stanzasOfTexts openAcl 0 0
    ["<presence from='alice@h/pc' to='room@conf/al'/>",
      "<presence from='bob@h/pc' to='room@conf/bob'><show/></presence>",
      "<presence from='alice@h/pc' to='room@conf/bob'/>"]

set_option maxRecDepth 100000 in
/-- The refused nick change comes back to the first occupant as a presence of type error, and when
it counts, there is an entry for a nick that nobody has. -/
theorem bounced_nick_listed : (∀ stanza ∈ conflictRun, PresenceOrError stanza.ingress) ∧
    ∃ s, Machine.run loggedStep (roomInit (lit "room"), fun _ => []) conflictRun = some s ∧
      ∃ addr r, (addr, r) ∈ s.1.occupants ∧ r.nick = some (lit "al") ∧
        ∀ affiliation role, ¬ ∀ nick e,
          after unknown ((s.2 addr).filterMap (eventOfAny affiliation role)) nick = some e ↔
            ∃ a p, (a, p) ∈ s.1.occupants ∧ bptBytes p.nick = nick ∧ entryOf p = e := by
  have hkind : ∀ stanza ∈ conflictRun, stanza.ingress.name = .presence ∧
      ∀ inner ∈ stanza.ingress.inner, inner.size ≤ reasonableRawLimit := by decide +kernel
  refine ⟨fun stanza hs => ⟨accepted_of_texts hs, .inl (hkind stanza hs).1, (hkind stanza hs).2⟩, ?_⟩
  have hany : (Machine.run loggedStep (roomInit (lit "room"), fun _ => []) conflictRun).any
      (fun s => s.1.occupants.any (fun n => n.2.nick == some (lit "al") &&
          (s.2 n.1).getLast?.any (fun packet => packet.name == .presence &&
            packet.type == stanzaError && packet.fromNick.isNone &&
            (match packet.sysData with | .error _ => true | _ => false))) &&
        s.1.occupants.all (fun n => bptBytes n.2.nick != [])) = true := by decide +kernel
  obtain ⟨s, hrun, hfacts⟩ := (Option.any_eq_true _ _).mp hany
  obtain ⟨hsome, hnicks⟩ := Bool.and_eq_true_iff.mp hfacts
  obtain ⟨⟨addr, r⟩, hm, hlast⟩ := List.any_eq_true.mp hsome
  obtain ⟨hnick, hlast⟩ := Bool.and_eq_true_iff.mp hlast
  obtain ⟨packet, hpacket, herror⟩ := (Option.any_eq_true _ _).mp hlast
  simp only [Bool.and_eq_true, beq_iff_eq] at herror
  obtain ⟨⟨⟨hname, htype⟩, hfrom⟩, hdata⟩ := herror
  obtain ⟨front, hlog⟩ := List.getLast?_eq_some_iff.mp hpacket
  refine ⟨s, hrun, addr, r, hm, beq_iff_eq.mp hnick, fun affiliation role h => ?_⟩
  cases hsys : packet.sysData with
  | error error =>
    obtain ⟨a, p, hp, hn, -⟩ := (h _ _).mp (hlog ▸ after_error affiliation role hname htype hsys)
    rw [Option.isNone_iff_eq_none.mp hfrom] at hn
    simpa [hn] using List.all_eq_true.mp hnicks (a, p) hp
  | zero | presence | room | mucItems =>
    rw [hsys] at hdata
    cases hdata

end Mukite
