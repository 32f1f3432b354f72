import Mukite.Properties.Changes

/-!
# Whoever has been removed is gone

A participant in a room that is not destroyed has a role, is no outcast, is a member where that
is required, and is not marked as affected (`Settled`). `route_iq` breaks this for a while: it
marks those it affects and removes some of them only when it walks the affected list. What
carries the proof is that everybody who is not on the list is settled (`SettledBut`).

The list is walked only if no item of the request is refused. So the result holds for the runs
in which no request is refused after one of its items has affected somebody
(`occupants_settled`).
-/

namespace Mukite

/-! ## The invariant -/

/-- What holds of a participant that has not been removed. -/
structure Settled (room : Room) (p : Participant) : Prop where
  role : p.role ≠ roleNone
  affiliation : p.affiliation ≠ affilOutcast
  member : room.hasFlag mucFlagMembersonly = true → affilMember ≤ p.affiliation
  notIncluded : p.affectedList.included = false
  noReason : p.affectedList.reasonNode = none

/-- Every occupant of a room is settled, except those on a list. -/
def SettledBut (room : Room) (affected : List Nat) : Prop :=
  ∀ addr p, (addr, p) ∈ room.occupants → addr ∉ affected → Settled room p

/-- Every occupant of a room is settled. -/
def AllSettled (room : Room) : Prop := SettledBut room []

/-- What every stanza leaves behind. -/
structure Orderly (room : Room) : Prop where
  defaultRole : room.defaultRole ≠ roleNone
  settled : room.hasFlag mucFlagDestroyed = false → AllSettled room

/-- No item of a muc#admin request is refused once one has put an occupant on the affected list. -/
def RefusedUntouched (room : Room) (stanza : Stanza) : Prop :=
  ∀ st ∈ refusal room stanza.ingress stanza.acl, st.affected = []

instance (room : Room) (stanza : Stanza) : Decidable (RefusedUntouched room stanza) :=
  inferInstanceAs (Decidable (∀ st ∈ refusal room stanza.ingress stanza.acl, st.affected = []))

variable {room room' : Room} {ingress : IncomingPacket} {acl : ACLConfig}
  {sent : List BuilderPacket} {addr : Nat} {p q : Participant} {affected : List Nat}

theorem Settled.of_flag (h : Settled room p)
    (hf : room'.hasFlag mucFlagMembersonly = room.hasFlag mucFlagMembersonly) :
    Settled room' p where
  role := h.role
  affiliation := h.affiliation
  member := fun hm => h.member (hf ▸ hm)
  notIncluded := h.notIncluded
  noReason := h.noReason

/-- A participant whose standing and marks are those of a settled one is settled. -/
theorem Settled.of_same (h : Settled room p) (hr : q.role = p.role)
    (ha : q.affiliation = p.affiliation) (hl : q.affectedList = p.affectedList) :
    Settled room q where
  role := hr ▸ h.role
  affiliation := ha ▸ h.affiliation
  member := fun hm => ha ▸ h.member hm
  notIncluded := hl ▸ h.notIncluded
  noReason := hl ▸ h.noReason

theorem SettledBut.mono {more : List Nat} (h : SettledBut room affected)
    (hsub : ∀ a ∈ affected, a ∈ more) : SettledBut room more :=
  fun a p hm hn => h a p hm (fun ha => hn (hsub a ha))

/-- Who is marked is on the list. -/
theorem SettledBut.mem_of_included (h : SettledBut room affected)
    (hm : (addr, p) ∈ room.occupants) (hi : p.affectedList.included = true) :
    addr ∈ affected := by
  by_contra hn
  have := (h addr p hm hn).notIncluded
  rw [hi] at this
  cases this

/-- A change of a participant that leaves its standing and its marks alone. -/
theorem AllSettled.modify (h : AllSettled room) (addr : Nat) {f : Participant → Participant}
    (hr : ∀ p, (f p).role = p.role) (ha : ∀ p, (f p).affiliation = p.affiliation)
    (hl : ∀ p, (f p).affectedList = p.affectedList) : AllSettled (room.modify addr f) := by
  intro b q hm hn
  obtain ⟨p, hp, rfl⟩ := Room.mem_occupants_modify.mp hm
  have hs : Settled (room.modify addr f) p := (h b p hp hn).of_flag rfl
  split
  · exact hs.of_same (hr p) (ha p) (hl p)
  · exact hs

theorem AllSettled.of_occupants (h : AllSettled room) (ho : room'.occupants = room.occupants)
    (hf : room'.hasFlag mucFlagMembersonly = room.hasFlag mucFlagMembersonly) :
    AllSettled room' := by
  intro a p hm hn
  exact (h a p (ho ▸ hm) hn).of_flag hf

theorem membersonly_opened : (room.setFlag mucFlagJustCreated false).hasFlag mucFlagMembersonly
    = room.hasFlag mucFlagMembersonly := Room.hasFlag_setFlag (by decide)

theorem destroyed_opened : (room.setFlag mucFlagJustCreated false).hasFlag mucFlagDestroyed
    = room.hasFlag mucFlagDestroyed := Room.hasFlag_setFlag (by decide)

/-! ## Leaving -/

@[simp] theorem defaultRole_roomLeave (room : Room) (addr : Nat) :
    (roomLeave room addr).defaultRole = room.defaultRole := by
  unfold roomLeave
  simp only
  split <;> rfl

/-- A room that is destroyed stays so. -/
theorem destroyed_roomLeave (h : (roomLeave room addr).hasFlag mucFlagDestroyed = false) :
    room.hasFlag mucFlagDestroyed = false := by
  unfold roomLeave at h
  simp only at h
  split at h
  · rw [Room.hasFlag_setFlag_self (by decide)] at h
    cases h
  · exact h

theorem SettledBut.roomLeave (h : SettledBut room (addr :: affected)) :
    SettledBut (roomLeave room addr) affected := by
  intro b q hm hn
  obtain ⟨hq, hne⟩ := mem_occupants_roomLeave.mp hm
  have hs := h b q hq (by simp [hne, hn])
  exact hs.of_flag (hasFlag_roomLeave (by decide))

/-- Whoever leaves may have been changed before. -/
theorem AllSettled.leave (h : AllSettled room) {f : Participant → Participant} :
    AllSettled (Mukite.roomLeave (room.modify addr f) addr) := by
  refine SettledBut.roomLeave fun b q hm hn => ?_
  obtain ⟨p, hp, rfl⟩ := Room.mem_occupants_modify.mp hm
  have hne : b ≠ addr := fun he => hn (by simp [he])
  rw [if_neg hne]
  exact (h b p hp List.not_mem_nil).of_flag rfl

/-! ## Presences -/

theorem refreshed_same (room : Room) (inner : Buffer) (p : Participant) :
    (refreshed room inner p).role = p.role ∧ (refreshed room inner p).affiliation = p.affiliation ∧
      (refreshed room inner p).affectedList = p.affectedList := by
  unfold refreshed
  split <;> exact ⟨rfl, rfl, rfl⟩

/-- The second half of a presence. -/
theorem AllSettled.announce {type : Nat} {inner : Buffer} {justJoined : Bool}
    (h : AllSettled room) (hc : AnnounceCase room addr p type inner justJoined room' sent) :
    AllSettled room' := by
  cases hc with
  | left htype => exact h.leave.of_occupants rfl membersonly_opened
  | stayed htype =>
    have h₁ := h.modify addr (fun p => (refreshed_same room inner p).1)
      (fun p => (refreshed_same room inner p).2.1) (fun p => (refreshed_same room inner p).2.2)
    have h₂ : AllSettled ((room.modify addr (Mukite.refreshed room inner)).modify addr cached) :=
      h₁.modify addr (fun _ => rfl) (fun _ => rfl) (fun _ => rfl)
    exact h₂.of_occupants rfl membersonly_opened

/-- Whoever is let in is no outcast, and a member where that is required. -/
theorem admission_ok {mucNode : MucNode} {affiliation : Int}
    (h : admission room ingress mucNode acl = .ok affiliation) :
    affiliation ≠ affilOutcast ∧
      (room.hasFlag mucFlagMembersonly = true → affilMember ≤ affiliation) := by
  unfold admission at h
  split at h
  · cases h
    exact ⟨by decide, fun _ => by decide⟩
  · split at h
    · cases h
    · simp only at h
      split at h
      · cases h
      · next hout =>
        split at h
        · cases h
        · split at h
          · cases h
          · next hmem =>
            cases h
            refine ⟨hout, fun hm => ?_⟩
            simp only [hm, Bool.true_and, decide_eq_true_eq] at hmem
            omega

theorem joiner_settled {jid : Jid} {nick : Buffer} {affiliation : Int}
    (hd : room.defaultRole ≠ roleNone) (hout : affiliation ≠ affilOutcast)
    (hmem : room.hasFlag mucFlagMembersonly = true → affilMember ≤ affiliation) :
    Settled room (joiner room jid nick affiliation) where
  role := role_joiner hd
  affiliation := hout
  member := hmem
  notIncluded := rfl
  noReason := rfl

theorem AllSettled.join {jid : Jid} {nick : Buffer} {affiliation : Int} (h : AllSettled room)
    (hd : room.defaultRole ≠ roleNone) (hout : affiliation ≠ affilOutcast)
    (hmem : room.hasFlag mucFlagMembersonly = true → affilMember ≤ affiliation) :
    AllSettled (roomJoin room jid nick affiliation).1 := by
  intro b q hm hn
  have hflag : (roomJoin room jid nick affiliation).1.hasFlag mucFlagMembersonly
      = room.hasFlag mucFlagMembersonly := rfl
  rcases NodeList.mem_cons.mp hm with ⟨-, rfl⟩ | hq
  · exact (joiner_settled hd hout hmem).of_flag hflag
  · exact (h b q hq hn).of_flag hflag

theorem announceCase_defaultRole {type : Nat} {inner : Buffer} {justJoined : Bool}
    (h : AnnounceCase room addr p type inner justJoined room' sent) :
    room'.defaultRole = room.defaultRole := by
  cases h with
  | left htype => exact defaultRole_roomLeave _ _
  | stayed htype => rfl

theorem announceCase_destroyed {type : Nat} {inner : Buffer} {justJoined : Bool}
    (h : AnnounceCase room addr p type inner justJoined room' sent)
    (hd : room'.hasFlag mucFlagDestroyed = false) : room.hasFlag mucFlagDestroyed = false := by
  cases h with
  | left htype =>
    rw [destroyed_opened] at hd
    exact Room.hasFlag_modify room addr _ _ ▸ destroyed_roomLeave hd
  | stayed htype => rwa [destroyed_opened] at hd

theorem Orderly.announce {type : Nat} {inner : Buffer} {justJoined : Bool} (h : Orderly room)
    (hc : AnnounceCase room addr p type inner justJoined room' sent) : Orderly room' where
  defaultRole := announceCase_defaultRole hc ▸ h.defaultRole
  settled := fun hd => (h.settled (announceCase_destroyed hc hd)).announce hc

theorem Orderly.presence (h : Orderly room)
    (hr : routePresence room ingress acl = some (room', sent)) : Orderly room' := by
  unfold routePresence at hr
  obtain ⟨r, hsender, hr⟩ := Option.bind_eq_some_iff.mp hr
  cases presenceSender_case hsender with
  | ignored =>
    cases hr
    exact h
  | bounced error sent hb =>
    cases hr
    exact h
  | turnedAway error sent hjid hb =>
    cases hr
    exact ⟨h.defaultRole, fun hd => (h.settled hd).of_occupants rfl rfl⟩
  | present addr sender hs =>
    obtain ⟨⟨room₂, sent₂⟩, ha, hr⟩ := Option.bind_eq_some_iff.mp hr
    cases hr
    obtain ⟨inner, -, hc⟩ := presenceAnnounce_case (findByJid_mem hs) ha
    exact h.announce hc
  | renamed addr sender hs htype hres hnick =>
    obtain ⟨⟨room₂, sent₂⟩, ha, hr⟩ := Option.bind_eq_some_iff.mp hr
    cases hr
    obtain ⟨inner, -, hc⟩ := presenceAnnounce_case
      (mem_occupants_renamed (findByJid_mem hs)) ha
    have hren : Orderly (renamed room addr (some (bptBytes ingress.proxyTo.resource))) :=
      ⟨h.defaultRole, fun hd =>
        (h.settled hd).modify addr (fun _ => rfl) (fun _ => rfl) (fun _ => rfl)⟩
    exact hren.announce hc
  | joined mucNode affiliation hjid htype hres hnick hadmission =>
    obtain ⟨⟨room₂, sent₂⟩, ha, hr⟩ := Option.bind_eq_some_iff.mp hr
    cases hr
    obtain ⟨inner, -, hc⟩ := presenceAnnounce_case mem_occupants_roomJoin ha
    obtain ⟨hout, hmem⟩ := admission_ok hadmission
    have hcreated : Orderly (withCreator room ingress.realFrom) :=
      ⟨h.defaultRole, fun hd => (h.settled hd).of_occupants rfl rfl⟩
    have hjoin : Orderly (roomJoin (withCreator room ingress.realFrom) ingress.realFrom
        ingress.proxyTo.resource affiliation).1 :=
      ⟨h.defaultRole, fun hd => (hcreated.settled hd).join h.defaultRole hout hmem⟩
    exact hjoin.announce hc

/-! ## Messages and errors -/

theorem Orderly.publish {sender : Participant} (h : Orderly room)
    (hp : publish room ingress sender = some (room', sent)) : Orderly room' := by
  unfold Mukite.publish at hp
  obtain ⟨inner, -, hp⟩ := Option.bind_eq_some_iff.mp hp
  obtain ⟨history, -, hp⟩ := Option.bind_eq_some_iff.mp hp
  cases hp
  exact ⟨h.defaultRole, fun hd => (h.settled hd).of_occupants rfl rfl⟩

theorem Orderly.message {limit ticks : Int} (h : Orderly room)
    (hr : routeMessage room ingress limit ticks = some (room', sent)) : Orderly room' := by
  unfold routeMessage at hr
  split at hr
  · exact bounce_room hr ▸ h
  · next addr sender hs =>
    split at hr
    · unfold routePublicMessage at hr
      split at hr
      · exact bounce_room hr ▸ h
      · split at hr
        · exact bounce_room hr ▸ h
        · obtain ⟨subject, -, hr⟩ := Option.bind_eq_some_iff.mp hr
          have htalk : Orderly (room.modify addr (fun p => { p with lastMessageTime := ticks })) :=
            ⟨h.defaultRole, fun hd =>
              (h.settled hd).modify addr (fun _ => rfl) (fun _ => rfl) (fun _ => rfl)⟩
          cases subject with
          | none => exact htalk.publish hr
          | some newSubject =>
            simp only at hr
            split at hr
            · exact bounce_room hr ▸ htalk
            · split at hr
              · exact bounce_room hr ▸ htalk
              · obtain ⟨node, -, hr⟩ := Option.bind_eq_some_iff.mp hr
                refine Orderly.publish ?_ hr
                exact ⟨htalk.defaultRole, fun hd => (htalk.settled hd).of_occupants rfl rfl⟩
    · unfold routePrivateMessage at hr
      split at hr
      · exact bounce_room hr ▸ h
      · split at hr
        · exact bounce_room hr ▸ h
        · split at hr
          · exact bounce_room hr ▸ h
          · obtain ⟨inner, -, hr⟩ := Option.bind_eq_some_iff.mp hr
            cases hr
            exact h

theorem Orderly.error (h : Orderly room) (hr : routeError room ingress = (room', sent)) :
    Orderly room' := by
  unfold routeError at hr
  split at hr
  · cases hr
    exact h
  · next addr sender hs =>
    cases hr
    have hdef : (roomLeave (room.modify addr errorKicked) addr).defaultRole ≠ roleNone := by
      rw [defaultRole_roomLeave]
      exact h.defaultRole
    refine ⟨hdef, fun hd => ?_⟩
    have hd' := destroyed_roomLeave hd
    rw [Room.hasFlag_modify] at hd'
    exact (h.settled hd').leave

/-! ## Items -/

theorem settled_setAffected {reasonNode : Buffer} (hi : p.affectedList.included = true) :
    setAffected reasonNode p = p := by
  unfold setAffected
  rw [if_pos hi]

/-- Whoever an item affects is on the list afterwards. -/
theorem SettledBut.affectOne {st : AdminState} (h : SettledBut st.room st.affected)
    (hm : (addr, p) ∈ st.room.occupants) (reasonNode : Buffer) (f : Participant → Participant) :
    SettledBut (affectOne st (addr, p) reasonNode f).room
      (affectOne st (addr, p) reasonNode f).affected := by
  have hsub : ∀ a ∈ st.affected, a ∈ (Mukite.affectOne st (addr, p) reasonNode f).affected := by
    intro a ha
    unfold Mukite.affectOne
    dsimp only
    split
    · exact ha
    · exact List.mem_append_left _ ha
  have haddr : addr ∈ (Mukite.affectOne st (addr, p) reasonNode f).affected := by
    unfold Mukite.affectOne
    dsimp only
    split
    · next hi => exact h.mem_of_included hm hi
    · exact List.mem_append_right _ List.mem_cons_self
  intro b q hq hn
  obtain ⟨q₀, hq₀, rfl⟩ := Room.mem_occupants_modify.mp hq
  have hne : b ≠ addr := fun he => hn (he ▸ haddr)
  rw [if_neg hne]
  exact (h b q₀ hq₀ (fun hb => hn (hsub b hb))).of_flag rfl

theorem SettledBut.affectEach {st : AdminState} (h : SettledBut st.room st.affected)
    (reasonNode : Buffer) (f : Participant → Option Participant) :
    SettledBut (affectEach st reasonNode f).room (affectEach st reasonNode f).affected := by
  intro b q hq hn
  obtain ⟨q₀, hq₀, rfl⟩ := Room.mem_occupants_mapVals.mp hq
  have hnb : b ∉ st.affected := fun hb => hn (List.mem_append_left _ hb)
  have hs := h b q₀ hq₀ hnb
  cases hf : f q₀ with
  | none => exact hs.of_flag rfl
  | some q₁ =>
    -- changed and not marked: it has just been appended
    refine absurd (List.mem_append_right _ ?_) hn
    refine List.mem_map.mpr ⟨(b, q₀), List.mem_filter.mpr ⟨hq₀, ?_⟩, rfl⟩
    simp [hf, hs.notIncluded]

theorem SettledBut.adminItem {st st' : AdminState} {sender : Participant} {target : AdminTarget}
    (h : SettledBut st.room st.affected) (ha : adminItem acl st sender target = .ok st') :
    SettledBut st'.room st'.affected := by
  unfold Mukite.adminItem at ha
  split at ha
  · cases ha
  · split at ha
    · unfold roleItem at ha
      split at ha
      · cases ha
      · next b receiver hb =>
        split at ha
        · cases ha
        · cases ha
          exact h.affectOne (findByNick_spec hb).1 _ _
    · unfold affiliationItem at ha
      split at ha
      · cases ha
      · split at ha
        · cases ha
        · next affiliations hadd =>
          cases ha
          have hset : SettledBut { st.room with affiliations := affiliations } st.affected :=
            fun b q hq hn => (h b q hq hn).of_flag rfl
          exact SettledBut.affectEach hset _ _
    · cases ha
      exact h

theorem SettledBut.adminLoop : ∀ {reads : List ItemRead} {st : AdminState} {r : AdminResult},
    SettledBut st.room st.affected → adminLoop acl addr st reads = some r →
    SettledBut r.state.room r.state.affected
  | [], st, r, h, hl => by
    cases hl
    exact h
  | .undefined :: _, st, r, h, hl => by cases hl
  | .bad :: _, st, r, h, hl => by
    cases hl
    exact h
  | .item target :: rest, st, r, h, hl => by
    rw [Mukite.adminLoop] at hl
    split at hl
    · cases hl
    · split at hl
      · cases hl
        exact h
      · next st' hst => exact SettledBut.adminLoop (h.adminItem hst) hl

/-- The settings an item leaves alone. -/
structure SameSettings (room room' : Room) : Prop where
  flags : room'.flags = room.flags
  defaultRole : room'.defaultRole = room.defaultRole

theorem adminItem_settings {st st' : AdminState} {sender : Participant} {target : AdminTarget}
    (h : adminItem acl st sender target = .ok st') : SameSettings st.room st'.room := by
  unfold adminItem at h
  split at h
  · cases h
  · split at h
    · unfold roleItem at h
      split at h
      · cases h
      · split at h <;> cases h
        exact ⟨rfl, rfl⟩
    · unfold affiliationItem at h
      split at h
      · cases h
      · split at h <;> cases h
        exact ⟨rfl, rfl⟩
    · cases h
      exact ⟨rfl, rfl⟩

theorem adminLoop_settings : ∀ {reads : List ItemRead} {st : AdminState} {r : AdminResult},
    adminLoop acl addr st reads = some r → SameSettings st.room r.state.room
  | [], st, r, h => by
    cases h
    exact ⟨rfl, rfl⟩
  | .undefined :: _, st, r, h => by cases h
  | .bad :: _, st, r, h => by
    cases h
    exact ⟨rfl, rfl⟩
  | .item target :: rest, st, r, h => by
    rw [adminLoop] at h
    split at h
    · cases h
    · split at h
      · cases h
        exact ⟨rfl, rfl⟩
      · next st' hst =>
        have h₁ := adminItem_settings hst
        have h₂ := adminLoop_settings h
        exact ⟨h₂.flags.trans h₁.flags, h₂.defaultRole.trans h₁.defaultRole⟩

theorem SameSettings.hasFlag (h : SameSettings room room') (flag : MucFlags) :
    room'.hasFlag flag = room.hasFlag flag := by
  unfold Room.hasFlag
  rw [h.flags]

/-! ## The affected list -/

/-- Whom the announcement leaves a role. -/
theorem affectedOutcome_keeps (h : (affectedOutcome room p).1 ≠ roleNone) :
    p.affiliation ≠ affilOutcast ∧
      (room.hasFlag mucFlagMembersonly = true → affilMember ≤ p.affiliation) := by
  unfold affectedOutcome at h
  split at h
  · exact absurd rfl h
  · split at h
    · exact absurd rfl h
    · next hout =>
      split at h
      · exact absurd rfl h
      · next hmem =>
        refine ⟨hout, fun hm => ?_⟩
        simp only [hm, Bool.true_and, decide_eq_true_eq] at hmem
        omega

theorem announced_settled (hrole : (announced room p).role ≠ roleNone) :
    Settled room (clearReason (announced room p)) where
  role := hrole
  affiliation := (affectedOutcome_keeps hrole).1
  member := (affectedOutcome_keeps hrole).2
  notIncluded := rfl
  noReason := rfl

theorem SettledBut.modify_self (h : SettledBut room (addr :: affected))
    {f : Participant → Participant} : SettledBut (room.modify addr f) (addr :: affected) := by
  intro b q hq hn
  obtain ⟨p, hp, rfl⟩ := Room.mem_occupants_modify.mp hq
  have hne : b ≠ addr := fun he => hn (he ▸ List.mem_cons_self)
  rw [if_neg hne]
  exact (h b p hp hn).of_flag rfl

/-- One turn of the loop settles or removes the head of the list. -/
theorem SettledBut.announceOne (h : SettledBut room (addr :: affected))
    (hp : (addr, p) ∈ room.occupants) : SettledBut (announceOne room addr p).1 affected := by
  have hrest : SettledBut ((room.modify addr (announced room)).modify addr clearReason)
      (addr :: affected) := h.modify_self.modify_self
  unfold Mukite.announceOne
  dsimp only
  split
  · exact hrest.roomLeave
  · next hrole =>
    intro b q hq hn
    by_cases hb : b = addr
    · obtain ⟨q₁, hq₁, rfl⟩ := Room.mem_occupants_modify.mp hq
      obtain ⟨q₀, hq₀, rfl⟩ := Room.mem_occupants_modify.mp hq₁
      obtain rfl : q₀ = p := NodeList.val_unique (hb ▸ hq₀) hp
      rw [if_pos hb, if_pos hb]
      exact (announced_settled hrole).of_flag rfl
    · exact hrest b q hq (by simp [hb, hn])

theorem announceOne_destroyed (h : (announceOne room addr p).1.hasFlag mucFlagDestroyed = false) :
    room.hasFlag mucFlagDestroyed = false := by
  unfold announceOne at h
  dsimp only at h
  split at h
  · have hd := destroyed_roomLeave h
    rw [Room.hasFlag_modify, Room.hasFlag_modify] at hd
    exact hd
  · rw [Room.hasFlag_modify, Room.hasFlag_modify] at h
    exact h

theorem announceOne_defaultRole :
    (announceOne room addr p).1.defaultRole = room.defaultRole := by
  unfold announceOne
  dsimp only
  split
  · rw [defaultRole_roomLeave]
    rfl
  · rfl

/-- **Walking the affected list settles everybody on it**, in a room that is not destroyed. -/
theorem announceAffected_settled : ∀ {affected : List Nat} {room : Room},
    (room.hasFlag mucFlagDestroyed = false → SettledBut room affected) →
    (announceAffected room affected).1.hasFlag mucFlagDestroyed = false →
    AllSettled (announceAffected room affected).1
  | [], room, h, hd => h hd
  | addr :: rest, room, h, hd => by
    rw [announceAffected] at hd ⊢
    cases hp : room.participants.nodes.get? addr with
    | none =>
      simp only [hp] at hd ⊢
      refine announceAffected_settled (fun hr b q hq hn => ?_) hd
      have hne : b ≠ addr := by
        rintro rfl
        exact absurd (NodeList.mem_addrs_of_mem hq) (NodeList.get?_eq_none_iff.mp hp)
      exact h hr b q hq (by simp [hne, hn])
    | some p =>
      simp only [hp] at hd ⊢
      exact announceAffected_settled (fun hr => (h (announceOne_destroyed hr)).announceOne
        (NodeList.get?_eq_some_iff.mp hp)) hd

theorem announceAffected_defaultRole : ∀ {affected : List Nat} {room : Room},
    (announceAffected room affected).1.defaultRole = room.defaultRole
  | [], _ => rfl
  | addr :: rest, room => by
    rw [announceAffected]
    split
    · exact announceAffected_defaultRole
    · exact announceAffected_defaultRole.trans announceOne_defaultRole

/-! ## Queries -/

/-- The room as the affected list finds it: the others are settled. -/
structure Announceable (st : AdminState) : Prop where
  defaultRole : st.room.defaultRole ≠ roleNone
  settled : st.room.hasFlag mucFlagDestroyed = false → SettledBut st.room st.affected

theorem Announceable.orderly {st : AdminState} (h : Announceable st) :
    Orderly (announceAffected st.room st.affected).1 where
  defaultRole := by
    rw [announceAffected_defaultRole]
    exact h.defaultRole
  settled := announceAffected_settled h.settled

/-- No option of a form destroys a room. -/
theorem configFlags_disjoint {flag : MucFlags} (h : flag ∈ configFlags) :
    flag &&& mucFlagDestroyed = 0#32 := by
  have hall : configFlags.all (fun flag => flag &&& mucFlagDestroyed == 0#32) = true := by decide
  simpa using List.all_eq_true.mp hall flag h

/-- What a form leaves alone or within bounds. -/
structure FormKeeps (room room' : Room) : Prop where
  occupants : room'.occupants = room.occupants
  destroyed : room'.hasFlag mucFlagDestroyed = room.hasFlag mucFlagDestroyed
  defaultRole : room'.defaultRole ≠ roleNone

theorem FormKeeps.change {room'' : Room} (h : FormKeeps room room')
    (hc : ConfigChange room' room'') : FormKeeps room room'' := by
  cases hc with
  | unchanged => exact h
  | title b hb => exact ⟨h.occupants, h.destroyed, h.defaultRole⟩
  | description b hb => exact ⟨h.occupants, h.destroyed, h.defaultRole⟩
  | password b => exact ⟨h.occupants, h.destroyed, h.defaultRole⟩
  | flag flag hflag on =>
    have hsame := @Room.hasFlag_setFlag room' _ _ on (configFlags_disjoint hflag)
    exact ⟨h.occupants, hsame.trans h.destroyed, h.defaultRole⟩
  | maxUsers n hpos hle => exact ⟨h.occupants, h.destroyed, h.defaultRole⟩
  | defaultRole r hr =>
    refine ⟨h.occupants, h.destroyed, ?_⟩
    show r ≠ roleNone
    rcases hr with rfl | rfl <;> decide

theorem submitForm_keeps {mem : Bytes} {node : Span} {level : Int}
    (hd : room.defaultRole ≠ roleNone) (h : submitForm room mem node level = some room') :
    FormKeeps room room' := by
  unfold submitForm at h
  obtain ⟨⟨content, data⟩, -, h⟩ := Option.bind_eq_some_iff.mp h
  dsimp only at h
  split at h
  · exact roomConfigParse_keeps (fun _ _ hr hc => FormKeeps.change hr hc) ⟨rfl, rfl, hd⟩ h
  · cases h
    exact ⟨rfl, rfl, hd⟩

/-- After the exclusion of those who are no members everybody else is settled. -/
theorem excludeNonMembers_settled
    (h : ∀ addr p, (addr, p) ∈ room'.occupants → Settled room p) :
    SettledBut (excludeNonMembers room').room (excludeNonMembers room').affected := by
  unfold excludeNonMembers
  split
  · intro b q hq hn
    obtain ⟨p, hp, rfl⟩ := Room.mem_occupants_mapVals.mp hq
    have hs := h b p hp
    unfold excludeNonMember
    split
    · next hlow =>
      -- no member: it has just been appended
      refine absurd (List.mem_append_right _ ?_) hn
      refine List.mem_map.mpr ⟨(b, p), List.mem_filter.mpr ⟨hp, ?_⟩, rfl⟩
      simp [excludeNonMember, hlow, hs.notIncluded]
    · next hhigh =>
      exact ⟨hs.role, hs.affiliation, fun _ => not_lt.mp hhigh, hs.notIncluded, hs.noReason⟩
  · next hflag =>
    intro b q hq hn
    have hs := h b q hq
    exact ⟨hs.role, hs.affiliation, fun hm => absurd hm hflag, hs.notIncluded, hs.noReason⟩

theorem excludeNonMembers_room :
    (excludeNonMembers room).room.defaultRole = room.defaultRole ∧
      (excludeNonMembers room).room.hasFlag mucFlagDestroyed = room.hasFlag mucFlagDestroyed := by
  unfold excludeNonMembers
  split <;> exact ⟨rfl, rfl⟩

theorem configureRoom_announceable {mem : Bytes} {node : Span} {level : Int}
    {answer : IqAnswer} (h : Orderly room)
    (hc : configureRoom room mem node level = some answer) :
    ∃ st, answer = .answered st buildIqEmpty .zero ∧ Announceable st := by
  obtain ⟨room₁, hform, rfl⟩ := Option.map_eq_some_iff.mp hc
  have hk := submitForm_keeps h.defaultRole hform
  refine ⟨excludeNonMembers room₁, rfl, ?_, fun hd => ?_⟩
  · rw [excludeNonMembers_room.1]
    exact hk.defaultRole
  · rw [excludeNonMembers_room.2, hk.destroyed] at hd
    refine @excludeNonMembers_settled room _ fun b q hq => ?_
    exact h.settled hd b q (hk.occupants ▸ hq) List.not_mem_nil

/-- A room that is being destroyed: its affected list may hold anybody. -/
theorem destroyRoom_announceable (h : Orderly room) (resume : Bytes) :
    ∃ st iqType sysData, destroyRoom room resume = .answered st iqType sysData ∧
      iqType ≠ 0 ∧ Announceable st := by
  refine ⟨_, _, _, rfl, by decide, h.defaultRole, fun hd => ?_⟩
  have hflag : (affectEach { room := room.setFlag mucFlagDestroyed true, affected := [] } none
      (fun p => some { p with role := roleNone, affiliation := affilNone })).room.hasFlag
        mucFlagDestroyed = true := Room.hasFlag_setFlag_self (by decide)
  rw [hflag] at hd
  cases hd

theorem Orderly.iq {stanza : Stanza} (h : Orderly room) (hname : stanza.ingress.name = .iq)
    (hcond : RefusedUntouched room stanza)
    (hr : routeIq room stanza.ingress stanza.acl = some (room', sent)) : Orderly room' := by
  unfold routeIq at hr
  split at hr
  · exact proxyIq_room hr ▸ h
  · next hres =>
    obtain ⟨answer, ha, hr⟩ := Option.bind_eq_some_iff.mp hr
    cases answerIq_case hname (by simpa using hres) ha with
    | refused error => exact bounce_room hr ▸ h
    | reply iqType sysData =>
      simp only [IqAnswer.reply] at hr
      split at hr
      · exact bounce_room hr ▸ h
      · cases hr
        exact h
    | items addr sender query reads r hreq hs hquery hreads hloop =>
      have hset := adminLoop_settings hloop
      have hdef : r.state.room.defaultRole ≠ roleNone := hset.defaultRole ▸ h.defaultRole
      have hst : r.state.room.hasFlag mucFlagDestroyed = false →
          SettledBut r.state.room r.state.affected := by
        intro hd
        rw [hset.hasFlag] at hd
        have hstart : SettledBut (AdminState.mk room []).room (AdminState.mk room []).affected :=
          h.settled hd
        exact hstart.adminLoop hloop
      cases r with
      | refused st error =>
        have hnone := hcond st (refusal_of_outcome hreq hloop)
        have horderly : Orderly st.room := by
          refine ⟨hdef, fun hd => ?_⟩
          have hs : SettledBut st.room st.affected := hst hd
          rwa [hnone] at hs
        exact bounce_room hr ▸ horderly
      | done st =>
        cases hr
        exact Announceable.orderly ⟨hdef, hst⟩
    | destroyed resume =>
      obtain ⟨st, iqType, sysData, he, hne, hann⟩ := destroyRoom_announceable h resume
      simp only [he, hne, if_false] at hr
      cases hr
      exact hann.orderly
    | configured node level answer hconf =>
      obtain ⟨st, he, hann⟩ := configureRoom_announceable h hconf
      subst he
      cases hr
      exact hann.orderly

/-! ## Runs -/

theorem Orderly.roomInit (node : Bytes) : Orderly (roomInit node) where
  defaultRole := show roleParticipant ≠ roleNone by decide
  settled := fun _ _ _ hm _ => absurd hm List.not_mem_nil

theorem Orderly.step {stanza : Stanza} (h : Orderly room) (hcond : RefusedUntouched room stanza)
    (hr : roomStep room stanza = some (room', sent)) : Orderly room' := by
  unfold roomStep roomRoute at hr
  split at hr
  · exact h.error (Option.some.inj hr)
  · split at hr
    · exact h.message hr
    · exact h.presence hr
    · next hname => exact h.iq hname hcond hr
    · cases hr
      exact h

/-- **In every run in which no request is refused after it has affected somebody, whoever has
been kicked, banned or excluded is gone.** -/
theorem occupants_settled (node : Bytes) (room : Room)
    (h : Machine.Reach roomStep RefusedUntouched (roomInit node) room)
    (hd : room.hasFlag mucFlagDestroyed = false) :
    ∀ addr p, (addr, p) ∈ room.occupants → Settled room p := by
  have horderly : Orderly room :=
    h.invariant (.roomInit node) (fun _ _ _ _ hs hcond hstep => hs.step hcond hstep)
  exact fun addr p hm => horderly.settled hd addr p hm List.not_mem_nil

/-! ## A request that is refused half-way -/

/-- `alice@h` creates a room and `bob@g` joins it. -/
def joins : List String :=
  ["<presence from='alice@h/pc' to='room@conf/alice'/>",
    "<presence from='bob@g/pc' to='room@conf/bob'/>"]

/-- A muc#admin request of somebody with the given items. -/
def adminSet (sender items : String) : String :=
  "<iq from='" ++ sender ++ "/pc' to='room@conf' type='set' id='1'><query xmlns='" ++
    xmlnsMucAdmin ++ "'>" ++ items ++ "</query></iq>"

/-- The room after the joins and a request of `alice@h` with the given items. -/
def afterItems (items : String) : Option Room :=
  Machine.run roomStep (roomInit (lit "room"))
    (stanzasOfTexts openAcl 0 0 (joins ++ [adminSet "alice@h" items]))

set_option maxRecDepth 100000 in
/-- The second item names nobody: the occupant that the first one kicks stays, without a role and
marked as affected. -/
theorem kicked_occupant_stays :
    ∃ room, afterItems "<item nick='bob' role='none'/><item nick='nobody' role='none'/>"
        = some room ∧ room.hasFlag mucFlagDestroyed = false ∧
      ∃ addr p, (addr, p) ∈ room.occupants ∧ p.role = roleNone ∧
        p.affectedList.included = true := by
  have hany : (afterItems "<item nick='bob' role='none'/><item nick='nobody' role='none'/>").any
      (fun room => !room.hasFlag mucFlagDestroyed && room.occupants.any (fun n =>
        n.2.role == roleNone && n.2.affectedList.included)) = true := by decide +kernel
  obtain ⟨room, hroom, hfacts⟩ := (Option.any_eq_true _ _).mp hany
  simp only [Bool.and_eq_true, Bool.not_eq_true', List.any_eq_true, beq_iff_eq] at hfacts
  obtain ⟨hd, ⟨addr, p⟩, hm, hrole, hinc⟩ := hfacts
  exact ⟨room, hroom, hd, addr, p, hm, hrole, hinc⟩

set_option maxRecDepth 100000 in
/-- The result at a request that kicks the occupant and is not refused. -/
theorem occupants_settled_kick :
    ∃ room, Machine.runAdmitted roomStep RefusedUntouched (roomInit (lit "room"))
        (stanzasOfTexts openAcl 0 0 (joins ++ [adminSet "alice@h" "<item nick='bob' role='none'/>"]))
          = some room ∧
      room.occupants.length = 1 ∧ ∀ addr p, (addr, p) ∈ room.occupants → Settled room p := by
  have hany : (Machine.runAdmitted roomStep RefusedUntouched (roomInit (lit "room"))
      (stanzasOfTexts openAcl 0 0 (joins ++ [adminSet "alice@h" "<item nick='bob' role='none'/>"]))).any
      (fun room => !room.hasFlag mucFlagDestroyed && room.occupants.length == 1) = true := by
    decide +kernel
  obtain ⟨room, hroom, hfacts⟩ := (Option.any_eq_true _ _).mp hany
  simp only [Bool.and_eq_true, Bool.not_eq_true', beq_iff_eq] at hfacts
  refine ⟨room, hroom, hfacts.2, ?_⟩
  exact occupants_settled (lit "room") room (.runAdmitted .start hroom) hfacts.1

end Mukite
