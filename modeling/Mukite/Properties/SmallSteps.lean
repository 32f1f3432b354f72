import Mukite.Properties.Changes

/-!
# What the routing functions do to the occupants

`Change` says what a small change leaves alone. A property of the occupants that depends on what a
change does (their roles, the time of their last message) is kept by every stanza if it is kept by
what the routing functions do to the occupants one at a time (`SmallSteps.step`).
-/

namespace Mukite

variable {room room' : Room} {ingress : IncomingPacket} {acl : ACLConfig} {addr : Nat}
  {p : Participant} {sent : List BuilderPacket} {stanza : Stanza}

/-- An occupant that has got past the check of the message interval. -/
def talked (ticks : Int) (p : Participant) : Participant := { p with lastMessageTime := ticks }

/-- The property of rooms depends on the occupants, and none of the small steps breaks it. Only joins
are left out: they have to be looked at where they happen. -/
structure SmallSteps (Time : Int → Prop) (I : Room → Prop) : Prop where
  of_occupants : ∀ {room room' : Room}, I room → room'.occupants = room.occupants → I room'
  refresh : ∀ {room : Room} (addr : Nat) (inner : Buffer), I room →
    I (room.modify addr (refreshed room inner))
  cache : ∀ {room : Room} (addr : Nat), I room → I (room.modify addr cached)
  rename : ∀ {room : Room} (addr : Nat) (nick : Buffer), I room → I (renamed room addr nick)
  /-- whoever leaves may have been changed before -/
  leave : ∀ {room : Room} (addr : Nat) (f : Participant → Participant), I room →
    I (roomLeave (room.modify addr f) addr)
  talk : ∀ {room : Room} (addr : Nat) {ticks : Int}, Time ticks → I room →
    I (room.modify addr (talked ticks))
  item : ∀ {acl : ACLConfig} {st st' : AdminState} {sender : Participant} {target : AdminTarget},
    I st.room → adminItem acl st sender target = .ok st' → I st'.room
  announce : ∀ {room : Room} {addr : Nat} {p : Participant}, (addr, p) ∈ room.occupants →
    I room → I (announceOne room addr p).1
  evict : ∀ {room : Room}, I room → I (evicted room)
  exclude : ∀ {room : Room}, I room → I (excludeNonMembers room).room

namespace SmallSteps

variable {Time : Int → Prop} {I : Room → Prop}

theorem announceCase (hI : SmallSteps Time I) {type : Nat} {inner : Buffer} {justJoined : Bool}
    (h : I room) (hc : AnnounceCase room addr p type inner justJoined room' sent) : I room' := by
  cases hc with
  | left htype => exact hI.of_occupants (hI.leave addr (departed room inner) h) rfl
  | stayed htype => exact hI.of_occupants (hI.cache addr (hI.refresh addr inner h)) rfl

theorem presence (hI : SmallSteps Time I) (h : I room)
    (hjoin : ∀ mucNode affiliation,
      admission (withCreator room ingress.realFrom) ingress mucNode acl = .ok affiliation →
      I (roomJoin (withCreator room ingress.realFrom) ingress.realFrom ingress.proxyTo.resource
        affiliation).1)
    (hr : routePresence room ingress acl = some (room', sent)) : I room' := by
  unfold routePresence at hr
  obtain ⟨r, hsender, hr⟩ := Option.bind_eq_some_iff.mp hr
  cases presenceSender_case hsender with
  | ignored =>
    cases hr
    exact h
  | bounced error sent hb =>
    cases hr
    exact h
  | turnedAway error sent hjid hb =>
    cases hr
    exact hI.of_occupants h rfl
  | present addr sender hs =>
    obtain ⟨⟨room₂, sent₂⟩, ha, hr⟩ := Option.bind_eq_some_iff.mp hr
    cases hr
    obtain ⟨inner, -, hc⟩ := presenceAnnounce_case (findByJid_mem hs) ha
    exact hI.announceCase h hc
  | renamed addr sender hs htype hres hnick =>
    obtain ⟨⟨room₂, sent₂⟩, ha, hr⟩ := Option.bind_eq_some_iff.mp hr
    cases hr
    obtain ⟨inner, -, hc⟩ := presenceAnnounce_case (mem_occupants_renamed (findByJid_mem hs)) ha
    exact hI.announceCase (hI.rename addr _ h) hc
  | joined mucNode affiliation hjid htype hres hnick hadmission =>
    obtain ⟨⟨room₂, sent₂⟩, ha, hr⟩ := Option.bind_eq_some_iff.mp hr
    cases hr
    obtain ⟨inner, -, hc⟩ := presenceAnnounce_case mem_occupants_roomJoin ha
    exact hI.announceCase (hjoin mucNode affiliation hadmission) hc

theorem publish (hI : SmallSteps Time I) {sender : Participant} (h : I room)
    (hp : publish room ingress sender = some (room', sent)) : I room' := by
  obtain ⟨inner, -, hp⟩ := Option.bind_eq_some_iff.mp hp
  obtain ⟨history, -, hp⟩ := Option.bind_eq_some_iff.mp hp
  cases hp
  exact hI.of_occupants h rfl

/-- What follows the check of the interval leaves the occupants alone. -/
theorem spoken (hI : SmallSteps Time I) {sender : Participant} {limit ticks : Int}
    (htalk : I (room.modify addr (talked ticks)))
    (hmute : ¬ (room.hasFlag mucFlagModeratedroom && sender.role < roleParticipant) = true)
    (hwait : ¬ ticks - sender.lastMessageTime < limit)
    (hr : routePublicMessage room ingress addr sender limit ticks = some (room', sent)) :
    I room' := by
  unfold routePublicMessage at hr
  rw [if_neg hmute, if_neg hwait] at hr
  obtain ⟨subject, -, hr⟩ := Option.bind_eq_some_iff.mp hr
  cases subject with
  | none => exact hI.publish htalk hr
  | some newSubject =>
    dsimp only at hr
    split at hr
    · exact bounce_room hr ▸ htalk
    · split at hr
      · exact bounce_room hr ▸ htalk
      · obtain ⟨node, -, hr⟩ := Option.bind_eq_some_iff.mp hr
        refine hI.publish ?_ hr
        exact hI.of_occupants htalk rfl

theorem publicMessage (hI : SmallSteps Time I) {sender : Participant} {limit ticks : Int}
    (h : I room) (hticks : Time ticks)
    (hr : routePublicMessage room ingress addr sender limit ticks = some (room', sent)) :
    I room' := by
  by_cases hmute : (room.hasFlag mucFlagModeratedroom && sender.role < roleParticipant) = true
  · unfold routePublicMessage at hr
    rw [if_pos hmute] at hr
    exact bounce_room hr ▸ h
  · by_cases hwait : ticks - sender.lastMessageTime < limit
    · unfold routePublicMessage at hr
      rw [if_neg hmute, if_pos hwait] at hr
      exact bounce_room hr ▸ h
    · exact hI.spoken (hI.talk addr hticks h) hmute hwait hr

theorem message (hI : SmallSteps Time I) {limit ticks : Int} (h : I room) (hticks : Time ticks)
    (hr : routeMessage room ingress limit ticks = some (room', sent)) : I room' := by
  unfold routeMessage at hr
  split at hr
  · exact bounce_room hr ▸ h
  · next addr sender hs =>
    split at hr
    · exact hI.publicMessage h hticks hr
    · unfold routePrivateMessage at hr
      split at hr
      · exact bounce_room hr ▸ h
      · split at hr
        · exact bounce_room hr ▸ h
        · split at hr
          · exact bounce_room hr ▸ h
          · obtain ⟨inner, -, hr⟩ := Option.bind_eq_some_iff.mp hr
            cases hr
            exact h

theorem error (hI : SmallSteps Time I) (h : I room)
    (hr : routeError room ingress = (room', sent)) : I room' := by
  unfold routeError at hr
  split at hr
  · cases hr
    exact h
  · next addr sender hs =>
    cases hr
    exact hI.leave addr errorKicked h

theorem adminLoop (hI : SmallSteps Time I) :
    ∀ {reads : List ItemRead} {st : AdminState} {r : AdminResult}, I st.room →
      adminLoop acl addr st reads = some r → I r.state.room
  | [], st, r, h, hl => by
    cases hl
    exact h
  | .undefined :: _, st, r, h, hl => by cases hl
  | .bad :: _, st, r, h, hl => by
    cases hl
    exact h
  | .item target :: rest, st, r, h, hl => by
    rw [Mukite.adminLoop] at hl
    split at hl
    · cases hl
    · split at hl
      · cases hl
        exact h
      · next st' hst => exact hI.adminLoop (hI.item h hst) hl

theorem announceAffected (hI : SmallSteps Time I) : ∀ {affected : List Nat} {room : Room}, I room →
    I (announceAffected room affected).1
  | [], _, h => h
  | addr :: rest, room, h => by
    rw [Mukite.announceAffected]
    split
    · exact hI.announceAffected h
    · next p hp => exact hI.announceAffected (hI.announce (NodeList.get?_eq_some_iff.mp hp) h)

theorem answer (hI : SmallSteps Time I) {answer : IqAnswer} (h : I room)
    (hc : AnswerCase room ingress acl answer) : I answer.room := by
  cases hc with
  | refused error => exact h
  | reply iqType sysData => exact h
  | items addr sender query reads r hreq hs hquery hreads hloop =>
    have hstart : I (AdminState.mk room []).room := h
    have hr : I r.state.room := hI.adminLoop hstart hloop
    cases r with
    | refused st error => exact hr
    | done st => exact hr
  | destroyed resume => exact hI.evict h
  | configured node level answer hconf =>
    obtain ⟨room₁, hform, rfl⟩ := Option.map_eq_some_iff.mp hconf
    exact hI.exclude (hI.of_occupants h (submitForm_occupants hform).1)

theorem iq (hI : SmallSteps Time I) (h : I room) (hname : ingress.name = .iq)
    (hr : routeIq room ingress acl = some (room', sent)) : I room' := by
  unfold routeIq at hr
  split at hr
  · exact proxyIq_room hr ▸ h
  · next hres =>
    obtain ⟨answer, ha, hr⟩ := Option.bind_eq_some_iff.mp hr
    have hc : I answer.room := hI.answer h (answerIq_case hname (by simpa using hres) ha)
    cases answer with
    | refused room₁ error => exact bounce_room hr ▸ hc
    | answered st iqType sysData =>
      dsimp only at hr
      split at hr
      · exact bounce_room hr ▸ hc
      · cases hr
        exact hI.announceAffected hc

/-- **What the small steps and a join keep, a stanza keeps.** -/
theorem step (hI : SmallSteps Time I) (h : I room) (hticks : Time stanza.ticks)
    (hjoin : ∀ mucNode affiliation, admission (withCreator room stanza.ingress.realFrom)
        stanza.ingress mucNode stanza.acl = .ok affiliation →
      I (roomJoin (withCreator room stanza.ingress.realFrom) stanza.ingress.realFrom
        stanza.ingress.proxyTo.resource affiliation).1)
    (hr : roomStep room stanza = some (room', sent)) : I room' := by
  unfold roomStep roomRoute at hr
  split at hr
  · exact hI.error h (Option.some.inj hr)
  · split at hr
    · exact hI.message h hticks hr
    · exact hI.presence h hjoin hr
    · next hname => exact hI.iq h hname hr
    · cases hr
      exact h

end SmallSteps

end Mukite
