import Mukite.Properties.Groupchat
import Mukite.Properties.Saved
import Mukite.Properties.SmallSteps

/-!
# The pace of the public chat

`route_message` notes when an occupant has got past the check of the message interval, also when it
then refuses to change the subject. Nothing else that happens in the room touches that note
(`Noted.step`). So as long as the occupant stays, whatever else the room handles, a public message
that comes too early is refused (`early_message_refused`). Who leaves and comes back starts anew.
-/

namespace Mukite

open Machine

variable {room room' : Room} {ingress : IncomingPacket} {acl : ACLConfig} {addr b : Nat}
  {since : Int} {p q : Participant} {sent : List BuilderPacket}

/-- The occupant at an address has got past the check at the given time, or later. -/
def Noted (addr : Nat) (since : Int) (room : Room) : Prop :=
  ∀ p, (addr, p) ∈ room.occupants → since ≤ p.lastMessageTime

namespace Noted

theorem of_occupants (h : Noted addr since room) (ho : room'.occupants = room.occupants) :
    Noted addr since room' := fun p hm => h p (ho ▸ hm)

theorem modify (h : Noted addr since room) {f : Participant → Participant}
    (hf : ∀ p, since ≤ p.lastMessageTime → since ≤ (f p).lastMessageTime) :
    Noted addr since (room.modify b f) := by
  intro q hq
  obtain ⟨p, hp, rfl⟩ := Room.mem_occupants_modify.mp hq
  split
  · exact hf p (h p hp)
  · exact h p hp

theorem mapVals (h : Noted addr since room) {f : Participant → Participant}
    (hf : ∀ p, (f p).lastMessageTime = p.lastMessageTime) : Noted addr since (room.mapVals f) := by
  intro q hq
  obtain ⟨p, hp, rfl⟩ := Room.mem_occupants_mapVals.mp hq
  rw [hf]
  exact h p hp

theorem leave (h : Noted addr since room) : Noted addr since (roomLeave room b) :=
  fun q hq => h q (mem_occupants_roomLeave.mp hq).1

theorem time_setAffected (reasonNode : Buffer) (p : Participant) :
    (setAffected reasonNode p).lastMessageTime = p.lastMessageTime := by
  unfold setAffected
  split <;> rfl

theorem affectEach {st : AdminState} {reasonNode : Buffer} {f : Participant → Option Participant}
    (h : Noted addr since st.room)
    (hf : ∀ p q, f p = some q → q.lastMessageTime = p.lastMessageTime) :
    Noted addr since (affectEach st reasonNode f).room := by
  refine h.mapVals fun p => ?_
  cases hq : f p with
  | none => rfl
  | some q =>
    rw [Option.map_some, Option.getD_some, time_setAffected]
    exact hf p q hq

theorem item {st st' : AdminState} {sender : Participant} {target : AdminTarget}
    (h : Noted addr since st.room) (ha : adminItem acl st sender target = .ok st') :
    Noted addr since st'.room := by
  unfold adminItem at ha
  split at ha
  · cases ha
  · split at ha
    · next role _ =>
      unfold roleItem at ha
      split at ha
      · cases ha
      · split at ha
        · cases ha
        · cases ha
          exact h.modify fun p hp => (time_setAffected _ _).symm ▸ hp
    · unfold affiliationItem at ha
      split at ha
      · cases ha
      · split at ha
        · cases ha
        · next lists hadd =>
          cases ha
          refine affectEach (h.of_occupants rfl) fun p q hq => ?_
          unfold reaffiliate at hq
          dsimp only at hq
          split at hq
          · cases hq
          · cases hq
            rfl
    · cases ha
      exact h

theorem announce (h : Noted addr since room) : Noted addr since (announceOne room b p).1 := by
  have h₁ : Noted addr since (room.modify b (announced room)) := h.modify fun _ hp => hp
  have h₂ : Noted addr since ((room.modify b (announced room)).modify b clearReason) :=
    h₁.modify fun _ hp => hp
  unfold announceOne
  dsimp only
  split
  · exact fun q hq => h₂ q (mem_occupants_roomLeave.mp hq).1
  · exact h₂

theorem smallSteps : SmallSteps (since ≤ ·) (Noted addr since) where
  of_occupants := of_occupants
  refresh := by
    intro room b inner h
    refine h.modify fun p hp => ?_
    unfold refreshed
    split <;> exact hp
  cache := by
    intro room b h
    exact h.modify fun _ hp => hp
  rename := by
    intro room b nick h
    exact h.modify fun _ hp => hp
  leave := by
    intro room b f h q hq
    obtain ⟨hq, hne⟩ := mem_occupants_roomLeave.mp hq
    obtain ⟨p, hp, rfl⟩ := Room.mem_occupants_modify.mp hq
    rw [if_neg hne]
    exact h p hp
  talk := by
    intro room b ticks hticks h
    exact h.modify fun _ _ => hticks
  item := item
  announce := by
    intro room b p _ h
    exact h.announce
  evict := by
    intro room h
    refine affectEach (h.of_occupants rfl) fun p q hq => ?_
    cases hq
    rfl
  exclude := by
    intro room h
    unfold excludeNonMembers
    split
    · refine affectEach h fun p q hq => ?_
      unfold excludeNonMember at hq
      split at hq
      · cases hq
        rfl
      · cases hq
    · exact h

/-- **No stanza takes the note back from somebody who is in the room.** -/
theorem step {stanza : Stanza} (h : Noted addr since room)
    (hstays : addr ∈ room.participants.nodes.addrs) (hticks : since ≤ stanza.ticks)
    (hr : roomStep room stanza = some (room', sent)) : Noted addr since room' := by
  refine smallSteps.step h hticks (fun mucNode affiliation _ q hq => ?_) hr
  -- a newcomer gets an address that nobody has
  rcases NodeList.mem_cons.mp hq with ⟨rfl, -⟩ | hq
  · exact absurd hstays NodeList.fresh_notMem
  · exact h q hq

end Noted

/-! ## Two messages -/

/-- A public message of the occupant at an address. -/
structure PublicMessage (room : Room) (stanza : Stanza) (addr : Nat) (p : Participant) : Prop where
  name : stanza.ingress.name = .message
  type : stanza.ingress.type ≠ stanzaError
  everybody : stanza.ingress.proxyTo.resource = none
  sender : participantsFindByJid room.participants stanza.ingress.realFrom = some (addr, p)

/-- The checks before the note: the occupant may speak, and it has waited long enough. -/
structure InTime (room : Room) (stanza : Stanza) (p : Participant) : Prop where
  speaks : room.hasFlag mucFlagModeratedroom = true → roleParticipant ≤ p.role
  interval : stanza.decisecondsLimit ≤ stanza.ticks - p.lastMessageTime

/-- The stanzas of a run in which an occupant stays and the clock does not go back. -/
def Stays (addr : Nat) (since : Int) (room : Room) (stanza : Stanza) : Prop :=
  addr ∈ room.participants.nodes.addrs ∧ since ≤ stanza.ticks

instance (addr : Nat) (since : Int) (room : Room) (stanza : Stanza) :
    Decidable (Stays addr since room stanza) := inferInstanceAs (Decidable (_ ∧ _))

variable {stanza : Stanza}

theorem PublicMessage.step_eq (h : PublicMessage room stanza addr p) :
    roomStep room stanza = routePublicMessage room stanza.ingress addr p stanza.decisecondsLimit
      stanza.ticks := by
  have hnot : isErrorStanza stanza.ingress = false := by
    unfold isErrorStanza
    rw [Bool.and_eq_false_iff]
    exact .inl (by simpa using h.type)
  unfold roomStep roomRoute
  rw [hnot, if_neg Bool.false_ne_true, h.name]
  dsimp only
  unfold routeMessage
  rw [h.sender]
  dsimp only
  rw [h.everybody, if_pos (by rfl)]

/-- A message that passes the checks is noted, also if it is refused then. -/
theorem noted_of_inTime (h : PublicMessage room stanza addr p) (hin : InTime room stanza p)
    (hr : roomStep room stanza = some (room', sent)) : Noted addr stanza.ticks room' := by
  have htalk : Noted addr stanza.ticks (room.modify addr (talked stanza.ticks)) := by
    intro q hq
    obtain ⟨q₀, -, rfl⟩ := Room.mem_occupants_modify.mp hq
    rw [if_pos rfl]
    exact le_rfl
  rw [h.step_eq] at hr
  refine Noted.smallSteps.spoken htalk (fun hmute => ?_) (not_lt.mpr hin.interval) hr
  obtain ⟨hflag, hlow⟩ := Bool.and_eq_true_iff.mp hmute
  exact absurd (hin.speaks hflag) (not_le.mpr (of_decide_eq_true hlow))

/--
**Whoever has spoken has to wait.** An occupant has got past the checks with one message. As long as
it has stayed in the room and the clock has not gone back, its next public message is refused if it
comes before the interval is over, and changes nothing.
-/
theorem early_message_refused {start spoken room : Room} {first second : Stanza} {p q : Participant}
    (hfirst : PublicMessage start first addr p) (hin : InTime start first p)
    (hspoken : roomStep start first = some (spoken, sent))
    (hrun : Reach roomStep (Stays addr first.ticks) spoken room)
    (hsecond : PublicMessage room second addr q)
    (hsoon : second.ticks - first.ticks < second.decisecondsLimit) :
    ∃ error, (error = errorNoVisitorsPublic ∨ error = errorTrafficRate) ∧
      roomStep room second = bounce room second.ingress error := by
  have hnoted : Noted addr first.ticks room :=
    hrun.invariant (noted_of_inTime hfirst hin hspoken)
      fun _ _ _ _ h hok hstep => h.step hok.1 hok.2 hstep
  have hlast := hnoted q (findByJid_mem hsecond.sender)
  have hearly : second.ticks - q.lastMessageTime < second.decisecondsLimit := by omega
  rw [hsecond.step_eq]
  unfold routePublicMessage
  by_cases hmute : (room.hasFlag mucFlagModeratedroom && q.role < roleParticipant) = true
  · rw [if_pos hmute]
    exact ⟨_, .inl rfl, rfl⟩
  · rw [if_neg hmute, if_pos hearly]
    exact ⟨_, .inr rfl, rfl⟩

instance : Decidable (PublicMessage room stanza addr p) :=
  decidable_of_iff (stanza.ingress.name = .message ∧ stanza.ingress.type ≠ stanzaError ∧
      stanza.ingress.proxyTo.resource = none ∧
      participantsFindByJid room.participants stanza.ingress.realFrom = some (addr, p))
    ⟨fun h => ⟨h.1, h.2.1, h.2.2.1, h.2.2.2⟩,
      fun h => ⟨h.name, h.type, h.everybody, h.sender⟩⟩

instance : Decidable (InTime room stanza p) :=
  decidable_of_iff ((room.hasFlag mucFlagModeratedroom = true → roleParticipant ≤ p.role) ∧
      stanza.decisecondsLimit ≤ stanza.ticks - p.lastMessageTime)
    ⟨fun h => ⟨h.1, h.2⟩, fun h => ⟨h.speaks, h.interval⟩⟩

/-- A message to everybody at the given time, where ten ticks have to pass between two messages. -/
def sayAt (ticks : Int) : List Stanza :=
  stanzasOfTexts openAcl 10 ticks
    ["<message from='alice@h/pc' to='room@conf' type='groupchat'><body>hi</body></message>"]

/-- Somebody else comes in. -/
def bobAt (ticks : Int) : List Stanza :=
  stanzasOfTexts openAcl 10 ticks ["<presence from='bob@h/pc' to='room@conf/bob'/>"]

set_option maxRecDepth 100000 in
/-- The result for two messages with a newcomer in between, in a room whose history takes them; no
run from `room_init` leads to one. -/
theorem early_message_refused_alice : ∃ start first spoken sent room second p q,
    PublicMessage start first 1 p ∧ InTime start first p ∧
      roomStep start first = some (spoken, sent) ∧
      Reach roomStep (Stays 1 first.ticks) spoken room ∧ room.occupants.length = 2 ∧
      PublicMessage room second 1 q ∧ second.ticks - first.ticks < second.decisecondsLimit ∧
      ∃ error, (error = errorNoVisitorsPublic ∨ error = errorTrafficRate) ∧
        roomStep room second = bounce room second.ingress error := by
  have hany : (Machine.run roomStep (roomInit (lit "room")) openingRun).any (fun opened =>
      (sayAt 100).any (fun first =>
        (participantsFindByJid (fullHistory opened).participants first.ingress.realFrom).any
          (fun n => decide (PublicMessage (fullHistory opened) first 1 n.2) &&
            decide (InTime (fullHistory opened) first n.2) &&
            (roomStep (fullHistory opened) first).any (fun r =>
              (Machine.runAdmitted roomStep (Stays 1 first.ticks) r.1 (bobAt 105)).any (fun room =>
                room.occupants.length == 2 && (sayAt 108).any (fun second =>
                  (participantsFindByJid room.participants second.ingress.realFrom).any (fun m =>
                    decide (PublicMessage room second 1 m.2) &&
                      decide (second.ticks - first.ticks < second.decisecondsLimit)))))))) = true := by
    decide +kernel
  obtain ⟨opened, -, hopened⟩ := (Option.any_eq_true _ _).mp hany
  obtain ⟨first, -, hfirst⟩ := List.any_eq_true.mp hopened
  obtain ⟨n, -, hn⟩ := (Option.any_eq_true _ _).mp hfirst
  obtain ⟨hn, hstep⟩ := Bool.and_eq_true_iff.mp hn
  obtain ⟨hmessage, hin⟩ := Bool.and_eq_true_iff.mp hn
  obtain ⟨⟨spoken, sent⟩, hspoken, hrest⟩ := (Option.any_eq_true _ _).mp hstep
  obtain ⟨room, hrun, hroom⟩ := (Option.any_eq_true _ _).mp hrest
  obtain ⟨hlen, hsay⟩ := Bool.and_eq_true_iff.mp hroom
  obtain ⟨second, -, hsecond⟩ := List.any_eq_true.mp hsay
  obtain ⟨m, -, hm⟩ := (Option.any_eq_true _ _).mp hsecond
  obtain ⟨hmessage', hsoon⟩ := Bool.and_eq_true_iff.mp hm
  have hreach : Reach roomStep (Stays 1 first.ticks) spoken room := .runAdmitted .start hrun
  exact ⟨fullHistory opened, first, spoken, sent, room, second, n.2, m.2, of_decide_eq_true hmessage,
    of_decide_eq_true hin, hspoken, hreach, beq_iff_eq.mp hlen, of_decide_eq_true hmessage',
    of_decide_eq_true hsoon,
    early_message_refused (of_decide_eq_true hmessage) (of_decide_eq_true hin) hspoken hreach
      (of_decide_eq_true hmessage') (of_decide_eq_true hsoon)⟩

end Mukite
