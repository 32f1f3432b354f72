import Mukite.Properties.Changes

/-!
# The presences a room keeps

A participant's cached presence is what it has sent last, or nothing. So a property of presences
that nothing at all has (`P none`) is kept by every stanza but a presence, and by a presence if the
payload that it announces has it (`AllPresences.step`). What becomes of a payload, `payloadUse`
says; a nick change is the one presence that is announced and kept as it came, without a clean-up.

Whatever presence the room sends shows that payload, or one that it keeps (`Shows`).
-/

namespace Mukite

/-- Every cached presence has a property. -/
def AllPresences (P : Buffer → Prop) (room : Room) : Prop :=
  ∀ addr p, (addr, p) ∈ room.occupants → P p.presence

/-! ## What becomes of a payload -/

/-- The presences of a participant are passed on. -/
def mayShow (room : Room) (p : Participant) : Bool :=
  decide (p.role > roleVisitor) || room.hasFlag mucFlagVisitorpresence

/-- The check of a nick change, which nobody passes whose presences are not passed on. -/
theorem not_mayShow (room : Room) (p : Participant) :
    (decide (p.role ≤ roleVisitor) && !room.hasFlag mucFlagVisitorpresence) = !mayShow room p := by
  unfold mayShow
  rw [Bool.not_or, ← decide_not]
  simp only [gt_iff_lt, not_lt]

/-- What becomes of the payload of a presence: nobody gets it; it goes back to the sender; it is
passed on as that of an occupant; it is passed on with a nick change. -/
inductive PayloadUse
  | unused
  | returned
  | relayed
  | renamed
deriving DecidableEq

/-- What becomes of the payload of somebody who is in the room. -/
def occupantUse (room : Room) (ingress : IncomingPacket) (addr : Nat) (sender : Participant) :
    PayloadUse :=
  if ingress.type ≠ stanzaPresenceUnavailable ∧ ingress.proxyTo.resource.isSome = true then
    match participantsFindByNick room.participants ingress.proxyTo.resource with
    | some (other, _) =>
      -- somebody else may have the nick
      if addr ≠ other then .returned
      else if mayShow room sender then .relayed
      else .unused
    | none => if mayShow room sender then .renamed else .unused
  else if mayShow room sender then .relayed
  else .unused

/-- What becomes of the payload of a newcomer. -/
def newcomerUse (room : Room) (ingress : IncomingPacket) (mucNode : MucNode) (acl : ACLConfig) :
    PayloadUse :=
  if ingress.type = stanzaPresenceUnavailable then .unused
  else if ingress.proxyTo.resource.isNone = true ∨
      (participantsFindByNick room.participants ingress.proxyTo.resource).isSome = true then
    .returned
  else
    match admission (withCreator room ingress.realFrom) ingress mucNode acl with
    | .error _ => .returned
    | .ok affiliation =>
      if mayShow room (joiner (withCreator room ingress.realFrom) ingress.realFrom
          ingress.proxyTo.resource affiliation) then .relayed
      else .unused

/-- What becomes of the payload of a presence in a room. -/
def payloadUse (room : Room) (ingress : IncomingPacket) (acl : ACLConfig) : PayloadUse :=
  if isErrorStanza ingress then .unused
  else
    match participantsFindByJid room.participants ingress.realFrom with
    | some (addr, sender) => occupantUse room ingress addr sender
    | none =>
      match parseMucNode ingress.mem ingress.muc with
      | some mucNode => newcomerUse room ingress mucNode acl
      | none => .unused

/-- The payload with which an occupant is announced. -/
def PayloadUse.announced (ingress : IncomingPacket) : PayloadUse → Option Buffer
  | unused | returned => none
  | relayed => (cleanedPresence ingress).innerBytes
  | renamed => ingress.innerBytes

/-- The payload with which an occupant is announced has a property. -/
def PayloadHas (P : Buffer → Prop) (room : Room) (ingress : IncomingPacket) (acl : ACLConfig) :
    Prop := ∀ inner, (payloadUse room ingress acl).announced ingress = some inner → P inner

section

variable {P : Buffer → Prop} {room room' : Room} {ingress : IncomingPacket} {acl : ACLConfig}
  {sent : List BuilderPacket} {addr : Nat} {p : Participant}

namespace AllPresences

theorem of_occupants (h : AllPresences P room) (ho : room'.occupants = room.occupants) :
    AllPresences P room' := fun addr p hm => h addr p (ho ▸ hm)

theorem modify (h : AllPresences P room) {f : Participant → Participant}
    (hf : ∀ p, (addr, p) ∈ room.occupants → P (f p).presence) :
    AllPresences P (room.modify addr f) := by
  intro b q hq
  obtain ⟨p, hp, rfl⟩ := Room.mem_occupants_modify.mp hq
  split
  · next hb => exact hf p (hb ▸ hp)
  · exact h b p hp

theorem mapVals (h : AllPresences P room) {f : Participant → Participant}
    (hf : ∀ p, (f p).presence = p.presence) : AllPresences P (room.mapVals f) := by
  intro b q hq
  obtain ⟨p, hp, rfl⟩ := Room.mem_occupants_mapVals.mp hq
  rw [hf]
  exact h b p hp

/-- Whoever leaves may have been changed before. -/
theorem leave (h : AllPresences P room) (f : Participant → Participant) :
    AllPresences P (roomLeave (room.modify addr f) addr) := by
  intro b q hq
  obtain ⟨hq, hne⟩ := mem_occupants_roomLeave.mp hq
  obtain ⟨p, hp, rfl⟩ := Room.mem_occupants_modify.mp hq
  rw [if_neg hne]
  exact h b p hp

theorem join (h : AllPresences P room) (hnone : P none) {jid : Jid} {nick : Buffer}
    {affiliation : Int} : AllPresences P (roomJoin room jid nick affiliation).1 := by
  intro b q hq
  rcases NodeList.mem_cons.mp hq with ⟨-, rfl⟩ | hq
  · exact hnone
  · exact h b q hq

/-! ## Presences -/

theorem refreshed {inner : Buffer} (hp : P p.presence) (hinner : mayShow room p = true → P inner) :
    P (refreshed room inner p).presence := by
  unfold Mukite.refreshed
  split
  · next hmay => exact hinner hmay
  · exact hp

theorem cached (hnone : P none) (hp : P p.presence) : P (cached p).presence := by
  show P (cachedPresence p.presence)
  unfold cachedPresence
  split
  · split
    · exact hnone
    · exact hp
  · exact hnone

theorem announce {type : Nat} {inner : Buffer} {justJoined : Bool} (h : AllPresences P room)
    (hnone : P none) (hm : (addr, p) ∈ room.occupants) (hinner : mayShow room p = true → P inner)
    (hc : AnnounceCase room addr p type inner justJoined room' sent) : AllPresences P room' := by
  cases hc with
  | left htype => exact (h.leave (departed room inner)).of_occupants rfl
  | stayed htype =>
    have h₁ : AllPresences P (room.modify addr (Mukite.refreshed room inner)) := by
      refine h.modify fun q hq => ?_
      obtain rfl := NodeList.val_unique hq hm
      exact refreshed (h addr q hq) hinner
    have h₂ := h₁.modify fun p hp => cached hnone (h₁ addr p hp)
    exact h₂.of_occupants rfl

end AllPresences

/-! ## The presences that are sent -/

/-- Every presence among some packets is shown without a header, with a property. -/
def Shows (P : Buffer → Prop) (sent : List BuilderPacket) : Prop :=
  ∀ packet ∈ sent, packet.name = .presence → packet.header = none ∧ P packet.userData

namespace Shows

theorem nil : Shows P [] := fun _ hm => absurd hm List.not_mem_nil

theorem append {more : List BuilderPacket} (h : Shows P sent) (h' : Shows P more) :
    Shows P (sent ++ more) := by
  intro packet hm
  rcases List.mem_append.mp hm with hm | hm
  · exact h packet hm
  · exact h' packet hm

theorem broadcast {newNick : Buffer} {statusCodes : Nat} (hp : P p.presence) :
    Shows P (roomBroadcastPresence room (addr, p) newNick statusCodes) := by
  intro packet hm _
  obtain ⟨receiver, -, rfl⟩ := List.mem_map.mp hm
  exact ⟨rfl, hp⟩

theorem broadcastAt (h : AllPresences P room) {newNick : Buffer}
    {statusCodes : Nat} : Shows P (Mukite.broadcastAt room addr newNick statusCodes) := by
  unfold Mukite.broadcastAt
  split
  · exact nil
  · next p hp => exact broadcast (h addr p (NodeList.get?_eq_some_iff.mp hp))

theorem roster (h : AllPresences P room) {receiver : Nat × Participant} :
    Shows P (roomPresencesSend room receiver) := by
  intro packet hm _
  obtain ⟨sender, hs, rfl⟩ := List.mem_map.mp hm
  exact ⟨rfl, h sender.1 sender.2 (List.mem_of_mem_filter hs)⟩

theorem subject {receiver : Participant} : Shows P (roomSubjectSend room receiver) := by
  intro packet hm hname
  unfold roomSubjectSend at hm
  split at hm
  · cases hm
  · obtain rfl := List.mem_singleton.mp hm
    cases hname

theorem announce {type : Nat} {inner : Buffer} {justJoined : Bool}
    (hp : P p.presence) (hinner : mayShow room p = true → P inner)
    (hc : AnnounceCase room addr p type inner justJoined room' sent) : Shows P sent := by
  have href : P (refreshed room inner p).presence := AllPresences.refreshed hp hinner
  cases hc with
  | left htype => exact broadcast href
  | stayed htype =>
    refine append (broadcast href) ?_
    split
    · exact subject
    · exact nil

end Shows

/-- Whoever sends a presence that is passed on gets it as well. -/
theorem AnnounceCase.shown {type : Nat} {inner : Buffer} {justJoined : Bool}
    (hc : AnnounceCase room addr p type inner justJoined room' sent)
    (hm : (addr, p) ∈ room.occupants) (hmay : mayShow room p = true) :
    ∃ packet ∈ sent, packet.name = .presence ∧ packet.header = none ∧ packet.userData = inner := by
  have href : (refreshed room inner p).presence = inner := by
    rw [show refreshed room inner p = { p with presence := inner } from if_pos hmay]
  cases hc with
  | left htype =>
    have hself : (addr, departed room inner p) ∈
        (room.modify addr (departed room inner)).occupants :=
      Room.mem_occupants_modify.mpr ⟨p, hm, (if_pos rfl).symm⟩
    exact ⟨_, List.mem_map.mpr ⟨_, hself, rfl⟩, rfl, rfl, href⟩
  | stayed htype =>
    have hself : (addr, refreshed room inner p) ∈
        (room.modify addr (refreshed room inner)).occupants :=
      Room.mem_occupants_modify.mpr ⟨p, hm, (if_pos rfl).symm⟩
    exact ⟨_, List.mem_append_left _ (List.mem_map.mpr ⟨_, hself, rfl⟩), rfl, rfl, href⟩

/-! ## A presence and its payload -/

/-- What `route_presence` goes on with after its first half, and which payload it announces. -/
structure Going (room : Room) (ingress : IncomingPacket) (acl : ACLConfig) (room₁ : Room)
    (sent₁ : List BuilderPacket) (addr : Nat) (p : Participant) (ingress₁ : IncomingPacket) :
    Prop where
  mem : (addr, p) ∈ room₁.occupants
  kept : ∀ P, P none → AllPresences P room → AllPresences P room₁
  shows : ∀ P, P none → AllPresences P room → Shows P sent₁
  relayed : payloadUse room ingress acl ≠ .returned
  unused : mayShow room₁ p = false → payloadUse room ingress acl = .unused
  payload : mayShow room₁ p = true →
    (payloadUse room ingress acl).announced ingress = ingress₁.innerBytes

/-- What the first half of `route_presence` makes of a payload. -/
inductive FirstUse (room : Room) (ingress : IncomingPacket) (acl : ACLConfig) :
    PresenceSender → Prop
  | ignored (huse : payloadUse room ingress acl = .unused) :
      FirstUse room ingress acl (.done room [])
  | returned (room' : Room) (error : XMPPError) (packet : BuilderPacket)
      (huse : payloadUse room ingress acl = .returned) (hocc : room'.occupants = room.occupants)
      (hb : workerBounce ingress error room'.node = some packet) :
      FirstUse room ingress acl (.done room' [packet])
  | going (room₁ : Room) (sent₁ : List BuilderPacket) (addr : Nat) (p : Participant)
      (ingress₁ : IncomingPacket) (justJoined : Bool)
      (hgo : Going room ingress acl room₁ sent₁ addr p ingress₁) :
      FirstUse room ingress acl (.go room₁ sent₁ addr ingress₁ justJoined)

/-- What `route_presence` does with a payload. -/
inductive PayloadCase (room : Room) (ingress : IncomingPacket) (acl : ACLConfig) :
    Room → List BuilderPacket → Prop
  | ignored (huse : payloadUse room ingress acl = .unused) : PayloadCase room ingress acl room []
  | returned (room' : Room) (error : XMPPError) (packet : BuilderPacket)
      (huse : payloadUse room ingress acl = .returned) (hocc : room'.occupants = room.occupants)
      (hb : workerBounce ingress error room'.node = some packet) :
      PayloadCase room ingress acl room' [packet]
  | announced (room₁ room' : Room) (sent₁ sent : List BuilderPacket) (addr : Nat)
      (p : Participant) (ingress₁ : IncomingPacket) (inner : Buffer) (justJoined : Bool)
      (hgo : Going room ingress acl room₁ sent₁ addr p ingress₁)
      (hinner : ingress₁.innerBytes = some inner)
      (hc : AnnounceCase room₁ addr p ingress₁.type inner justJoined room' sent) :
      PayloadCase room ingress acl room' (sent₁ ++ sent)

section Uses

variable {r : PresenceSender} {sender : Participant}

theorem firstUse_bounce {room' : Room} {error : XMPPError}
    (huse : payloadUse room ingress acl = .returned) (hocc : room'.occupants = room.occupants)
    (h : PresenceSender.bounce room' ingress error = some r) : FirstUse room ingress acl r := by
  obtain ⟨⟨room₁, sent⟩, hb, rfl⟩ := Option.map_eq_some_iff.mp h
  obtain ⟨packet, hw, he⟩ := Option.map_eq_some_iff.mp hb
  cases he
  exact .returned room' error packet huse hocc hw

/-- Somebody in the room is announced with what is left of the payload, or with none of it. -/
theorem going_present (hm : (addr, sender) ∈ room.occupants)
    (huse : payloadUse room ingress acl = if mayShow room sender = true then .relayed else .unused) :
    Going room ingress acl room [] addr sender (cleanedPresence ingress) where
  mem := hm
  kept := fun _ _ h => h
  shows := fun _ _ _ => .nil
  relayed := by rw [huse]; split <;> decide
  unused := fun hno => huse.trans (if_neg (by rw [hno]; exact Bool.false_ne_true))
  payload := fun hmay => by rw [huse, if_pos hmay]; rfl

theorem occupantPresence_use
    (hs : participantsFindByJid room.participants ingress.realFrom = some (addr, sender))
    (hall : payloadUse room ingress acl = occupantUse room ingress addr sender)
    (h : occupantPresence room ingress addr sender = some r) : FirstUse room ingress acl r := by
  have hm := findByJid_mem hs
  unfold occupantUse at hall
  unfold occupantPresence at h
  dsimp only at h
  split at h
  · next hnamed =>
    rw [if_pos hnamed] at hall
    -- somebody has the nick (perhaps the sender), or it is a new one
    cases hn : participantsFindByNick room.participants ingress.proxyTo.resource with
    | some n =>
      obtain ⟨other, q⟩ := n
      simp only [hn] at h hall
      split at h
      · next hsame =>
        cases h
        rw [if_neg (not_not.mpr hsame)] at hall
        exact .going room [] addr sender _ false (going_present hm hall)
      · next hother =>
        rw [if_pos hother] at hall
        exact firstUse_bounce hall rfl h
    | none =>
      simp only [hn] at h hall
      split at h
      · next hno =>
        cases h
        rw [not_mayShow, Bool.not_eq_true'] at hno
        exact .ignored (hall.trans (if_neg (by rw [hno]; exact Bool.false_ne_true)))
      · next hmay =>
        cases h
        have hshows : mayShow room sender = true := by
          rwa [not_mayShow, Bool.not_eq_true', Bool.not_eq_false] at hmay
        rw [if_pos hshows] at hall
        exact .going _ _ addr { sender with nick := some (bptBytes ingress.proxyTo.resource) } _ _ {
          mem := mem_occupants_renamed hm
          kept := fun P _ hP => hP.modify fun p hp => hP addr p hp
          shows := fun P _ hP => .broadcastAt hP
          relayed := by rw [hall]; decide
          unused := fun hno => absurd (hshows.symm.trans hno) (by decide)
          payload := fun _ => by rw [hall]; rfl }
  · next hnamed =>
    cases h
    rw [if_neg hnamed] at hall
    exact .going room [] addr sender _ false (going_present hm hall)

theorem newcomerPresence_use {mucNode : MucNode}
    (hall : payloadUse room ingress acl = newcomerUse room ingress mucNode acl)
    (h : newcomerPresence room ingress mucNode acl = some r) : FirstUse room ingress acl r := by
  unfold newcomerUse at hall
  unfold newcomerPresence at h
  split at h
  · next htype =>
    cases h
    exact .ignored (hall.trans (if_pos htype))
  · next htype =>
    rw [if_neg htype] at hall
    split at h
    · next hres => exact firstUse_bounce (hall.trans (if_pos (.inl hres))) rfl h
    · next hres =>
      split at h
      · next hnick => exact firstUse_bounce (hall.trans (if_pos (.inr hnick))) rfl h
      · next hnick =>
        rw [if_neg (not_or.mpr ⟨hres, hnick⟩)] at hall
        dsimp only at h
        cases ha : admission (withCreator room ingress.realFrom) ingress mucNode acl with
        | error error =>
          have ha' := ha
          simp only [withCreator] at ha'
          simp only [ha] at hall
          simp only [ha'] at h
          exact @firstUse_bounce room ingress acl r (withCreator room ingress.realFrom) error hall
            rfl h
        | ok affiliation =>
          have ha' := ha
          simp only [withCreator] at ha'
          simp only [ha] at hall
          simp only [ha'] at h
          cases h
          have hcreated : ∀ P, AllPresences P room →
              AllPresences P (withCreator room ingress.realFrom) := fun P hP => hP.of_occupants rfl
          exact .going _ _ _ _ _ _ {
            mem := mem_occupants_roomJoin
            kept := fun P hnone hP => (hcreated P hP).join hnone
            shows := fun P hnone hP => .roster ((hcreated P hP).join hnone)
            relayed := by rw [hall]; split <;> decide
            unused := fun hno =>
              hall.trans (if_neg (fun hmay => absurd (hmay.symm.trans hno) (by decide)))
            payload := fun hmay => by rw [hall.trans (if_pos hmay)]; rfl }

/-- **What the first half of `route_presence` makes of a payload** is what `payloadUse` says. -/
theorem presenceSender_use (herror : isErrorStanza ingress = false)
    (h : presenceSender room ingress acl = some r) : FirstUse room ingress acl r := by
  unfold presenceSender at h
  obtain ⟨mucNode, hmuc, h⟩ := Option.bind_eq_some_iff.mp h
  have hall : payloadUse room ingress acl =
      if isErrorStanza ingress = true then .unused
      else
        match participantsFindByJid room.participants ingress.realFrom with
        | some (addr, sender) => occupantUse room ingress addr sender
        | none => newcomerUse room ingress mucNode acl := by
    unfold payloadUse
    simp only [hmuc]
  rw [if_neg (by rw [herror]; exact Bool.false_ne_true)] at hall
  cases hs : participantsFindByJid room.participants ingress.realFrom with
  | some n =>
    simp only [hs] at h hall
    exact occupantPresence_use hs hall h
  | none =>
    simp only [hs] at h hall
    exact newcomerPresence_use hall h

/-- **What `route_presence` does with a payload.** -/
theorem routePresence_case (herror : isErrorStanza ingress = false)
    (hr : routePresence room ingress acl = some (room', sent)) :
    PayloadCase room ingress acl room' sent := by
  unfold routePresence at hr
  obtain ⟨r, hsender, hr⟩ := Option.bind_eq_some_iff.mp hr
  cases presenceSender_use herror hsender with
  | ignored huse =>
    cases hr
    exact .ignored huse
  | returned room' error packet huse hocc hb =>
    cases hr
    exact .returned _ error packet huse hocc hb
  | going room₁ sent₁ addr p ingress₁ justJoined hgo =>
    obtain ⟨⟨room₂, sent₂⟩, ha, hr⟩ := Option.bind_eq_some_iff.mp hr
    cases hr
    obtain ⟨inner, hinner, hc⟩ := presenceAnnounce_case hgo.mem ha
    exact .announced room₁ _ sent₁ _ addr p ingress₁ inner justJoined hgo hinner hc

end Uses

namespace AllPresences

/-- The payload that is announced is one of those that `payloadUse` lets through. -/
theorem presence (h : AllPresences P room) (hnone : P none)
    (hpayload : PayloadHas P room ingress acl) (hc : PayloadCase room ingress acl room' sent) :
    AllPresences P room' := by
  cases hc with
  | ignored huse => exact h
  | returned room' error packet huse hocc hb => exact h.of_occupants hocc
  | announced room₁ room' sent₁ sent addr p ingress₁ inner justJoined hgo hinner hc =>
    refine (hgo.kept P hnone h).announce hnone hgo.mem (fun hmay => hpayload inner ?_) hc
    rw [hgo.payload hmay, hinner]

/-! ## Messages and errors -/

theorem publish {sender : Participant} (h : AllPresences P room)
    (hp : publish room ingress sender = some (room', sent)) : AllPresences P room' := by
  unfold Mukite.publish at hp
  obtain ⟨inner, -, hp⟩ := Option.bind_eq_some_iff.mp hp
  obtain ⟨history, -, hp⟩ := Option.bind_eq_some_iff.mp hp
  cases hp
  exact h.of_occupants rfl

theorem message {limit ticks : Int} (h : AllPresences P room)
    (hr : routeMessage room ingress limit ticks = some (room', sent)) : AllPresences P room' := by
  unfold routeMessage at hr
  split at hr
  · exact bounce_room hr ▸ h
  · next addr sender hs =>
    split at hr
    · unfold routePublicMessage at hr
      split at hr
      · exact bounce_room hr ▸ h
      · split at hr
        · exact bounce_room hr ▸ h
        · obtain ⟨subject, -, hr⟩ := Option.bind_eq_some_iff.mp hr
          have htalk : AllPresences P
              (room.modify addr (fun p => { p with lastMessageTime := ticks })) :=
            h.modify fun p hp => h addr p hp
          cases subject with
          | none => exact htalk.publish hr
          | some newSubject =>
            simp only at hr
            split at hr
            · exact bounce_room hr ▸ htalk
            · split at hr
              · exact bounce_room hr ▸ htalk
              · obtain ⟨node, -, hr⟩ := Option.bind_eq_some_iff.mp hr
                refine AllPresences.publish ?_ hr
                exact htalk.of_occupants rfl
    · unfold routePrivateMessage at hr
      split at hr
      · exact bounce_room hr ▸ h
      · split at hr
        · exact bounce_room hr ▸ h
        · split at hr
          · exact bounce_room hr ▸ h
          · obtain ⟨inner, -, hr⟩ := Option.bind_eq_some_iff.mp hr
            cases hr
            exact h

theorem error (h : AllPresences P room) (hr : routeError room ingress = (room', sent)) :
    AllPresences P room' := by
  unfold routeError at hr
  split at hr
  · cases hr
    exact h
  · next addr sender hs =>
    cases hr
    exact h.leave errorKicked

/-! ## Queries -/

theorem presence_setAffected {reasonNode : Buffer} (p : Participant) :
    (setAffected reasonNode p).presence = p.presence := by
  unfold setAffected
  split <;> rfl

theorem affectEach (st : AdminState) (h : AllPresences P st.room) (reasonNode : Buffer)
    {f : Participant → Option Participant} (hf : ∀ p q, f p = some q → q.presence = p.presence) :
    AllPresences P (affectEach st reasonNode f).room := by
  refine h.mapVals fun p => ?_
  cases hp : f p with
  | none => rfl
  | some q => exact (presence_setAffected q).trans (hf p q hp)

theorem adminItem {st st' : AdminState} {sender : Participant} {target : AdminTarget}
    (h : AllPresences P st.room) (ha : adminItem acl st sender target = .ok st') :
    AllPresences P st'.room := by
  unfold Mukite.adminItem at ha
  split at ha
  · cases ha
  · split at ha
    · unfold roleItem at ha
      split at ha
      · cases ha
      · split at ha
        · cases ha
        · cases ha
          refine h.modify fun p hp => ?_
          rw [presence_setAffected]
          exact h _ p hp
    · unfold affiliationItem at ha
      split at ha
      · cases ha
      · split at ha
        · cases ha
        · next lists hadd =>
          cases ha
          have hset : AllPresences P { st.room with affiliations := lists } := h.of_occupants rfl
          refine AllPresences.affectEach _ hset _ fun p q hq => ?_
          unfold reaffiliate at hq
          simp only at hq
          split at hq <;> cases hq
          rfl
    · cases ha
      exact h

theorem adminLoop : ∀ {reads : List ItemRead} {st : AdminState} {r : AdminResult},
    AllPresences P st.room → adminLoop acl addr st reads = some r → AllPresences P r.state.room
  | [], st, r, h, hl => by
    cases hl
    exact h
  | .undefined :: _, st, r, h, hl => by cases hl
  | .bad :: _, st, r, h, hl => by
    cases hl
    exact h
  | .item target :: rest, st, r, h, hl => by
    rw [Mukite.adminLoop] at hl
    split at hl
    · cases hl
    · split at hl
      · cases hl
        exact h
      · next st' hst => exact AllPresences.adminLoop (h.adminItem hst) hl

theorem announceOne (h : AllPresences P room) (hnone : P none) (p : Participant) :
    AllPresences P (announceOne room addr p).1 := by
  have h₁ : AllPresences P (room.modify addr (announced room)) := by
    refine h.modify fun q hq => ?_
    show P (if (affectedOutcome room q).1 = roleNone then none else q.presence)
    split
    · exact hnone
    · exact h addr q hq
  unfold Mukite.announceOne
  dsimp only
  split
  · exact h₁.leave clearReason
  · exact h₁.modify fun q hq => h₁ addr q hq

theorem announceAffected (hnone : P none) : ∀ {affected : List Nat} {room : Room},
    AllPresences P room → AllPresences P (announceAffected room affected).1
  | [], _, h => h
  | addr :: rest, room, h => by
    rw [Mukite.announceAffected]
    split
    · exact AllPresences.announceAffected hnone h
    · next p hp => exact AllPresences.announceAffected hnone (h.announceOne hnone p)

theorem option (h : AllPresences P room) (hc : ConfigChange room room') : AllPresences P room' := by
  cases hc <;> exact h.of_occupants rfl

theorem excludeNonMembers (h : AllPresences P room) :
    AllPresences P (excludeNonMembers room).room := by
  unfold Mukite.excludeNonMembers
  split
  · refine AllPresences.affectEach { room := room, affected := [] } h _ fun p q hq => ?_
    unfold excludeNonMember at hq
    split at hq <;> cases hq
    rfl
  · exact h

theorem answer {answer : IqAnswer} (h : AllPresences P room)
    (hc : AnswerCase room ingress acl answer) : AllPresences P answer.room := by
  cases hc with
  | refused error => exact h
  | reply iqType sysData => exact h
  | items addr sender query reads r hreq hs hquery hreads hloop =>
    have hstart : AllPresences P (AdminState.mk room []).room := h
    have hr : AllPresences P r.state.room := hstart.adminLoop hloop
    cases r with
    | refused st error => exact hr
    | done st => exact hr
  | destroyed resume =>
    have hset : AllPresences P (room.setFlag mucFlagDestroyed true) := h.of_occupants rfl
    refine AllPresences.affectEach _ hset _ ?_
    intro p q hq
    cases hq
    rfl
  | configured node level answer hconf =>
    obtain ⟨room₁, hform, rfl⟩ := Option.map_eq_some_iff.mp hconf
    refine AllPresences.excludeNonMembers ?_
    unfold submitForm at hform
    obtain ⟨⟨content, data⟩, -, hform⟩ := Option.bind_eq_some_iff.mp hform
    dsimp only at hform
    split at hform
    · exact roomConfigParse_keeps (fun _ _ hr hc => AllPresences.option hr hc) h hform
    · cases hform
      exact h

theorem iq (h : AllPresences P room) (hnone : P none) (hname : ingress.name = .iq)
    (hr : routeIq room ingress acl = some (room', sent)) : AllPresences P room' := by
  unfold routeIq at hr
  split at hr
  · exact proxyIq_room hr ▸ h
  · next hres =>
    obtain ⟨answer, ha, hr⟩ := Option.bind_eq_some_iff.mp hr
    have hc : AllPresences P answer.room :=
      h.answer (answerIq_case hname (by simpa using hres) ha)
    cases answer with
    | refused room₁ error => exact bounce_room hr ▸ hc
    | answered st iqType sysData =>
      simp only at hr
      split at hr
      · exact bounce_room hr ▸ hc
      · cases hr
        exact AllPresences.announceAffected hnone hc

/-! ## All stanzas -/

theorem roomInit (node : Bytes) : AllPresences P (roomInit node) :=
  fun _ _ hm => absurd hm List.not_mem_nil

/-- **What nothing has and every payload that is announced has, every cached presence has.** -/
theorem step {stanza : Stanza} (h : AllPresences P room) (hnone : P none)
    (hpayload : stanza.ingress.name = .presence → PayloadHas P room stanza.ingress stanza.acl)
    (hr : roomStep room stanza = some (room', sent)) : AllPresences P room' := by
  unfold roomStep roomRoute at hr
  split at hr
  · exact h.error (Option.some.inj hr)
  · next herror =>
    split at hr
    · exact h.message hr
    · next hname =>
      exact h.presence hnone (hpayload hname) (routePresence_case (by simpa using herror) hr)
    · next hname => exact h.iq hnone hname hr
    · cases hr
      exact h

end AllPresences

end

end Mukite
