import Mukite.Properties.Identity
import Mukite.Properties.Occupancy

/-!
# The affiliation an occupant carries

A participant stores the affiliation that a search of the lists gave when it joined. The lists
change item by item, yet the stored affiliation stays what a search gives now, and an admin or an
owner stays a moderator, in every run under one access list (`affiliations_coherent`).

Most of what a stanza does is tame: it lets participants go, or changes the role of one below the
admins (`Tame`). A join looks the newcomer up, and an item that changes the lists looks everybody
up again. The one change of the lists without a search is that of the creator, who finds the new
room empty.
-/

namespace Mukite

/-! ## The invariant -/

/-- A participant carries what the lists give its JID, and is a moderator if that is high. -/
structure InStep (acl : ACLConfig) (lists : Affiliations) (p : Participant) : Prop where
  affiliation : p.affiliation = affiliationssGetByJid lists acl p.jid
  role : affilAdmin ≤ p.affiliation → p.role = roleModerator

/-- What every stanza leaves behind. -/
structure Coherent (acl : ACLConfig) (room : Room) : Prop where
  occupants : room.hasFlag mucFlagDestroyed = false → ∀ addr p, (addr, p) ∈ room.occupants →
    InStep acl room.affiliations p
  /-- nobody is in a new room -/
  unused : room.hasFlag mucFlagJustCreated = true → ∀ addr p, (addr, p) ∉ room.occupants

variable {room room' room₁ : Room} {ingress : IncomingPacket} {acl : ACLConfig}
  {sent : List BuilderPacket} {addr : Nat} {p q : Participant} {lists : Affiliations}

/-! ## The search -/

/-- The search for a JID looks at its full key only. -/
theorem affiliationssGetByJid_congr {jid1 jid2 : Jid} (h : fullKey jid1 = fullKey jid2) :
    affiliationssGetByJid lists acl jid1 = affiliationssGetByJid lists acl jid2 := by
  have hacl : aclRole acl jid1 = aclRole acl jid2 := by
    unfold aclRole
    simp only [jidCmp_congr h]
  have hlist : ∀ mode, firstListWith lists jid1 mode = firstListWith lists jid2 mode := by
    intro mode
    unfold firstListWith affiliationsFindByJid
    simp only [jidCmp_congr h]
  unfold affiliationssGetByJid
  rw [hacl, hlist, hlist]

/-- No list stands above the owners. -/
theorem affiliationssGetByJid_le (jid : Jid) :
    affiliationssGetByJid lists acl jid ≤ affilOwner := by
  have hlist : ∀ a : Affil, a.toInt ≤ affilOwner := fun a => by
    have := a.isLt
    unfold Affil.toInt affilOwner
    omega
  unfold affiliationssGetByJid
  split
  · exact le_refl _
  · split
    · exact hlist _
    · split
      · exact hlist _
      · decide

/-- A newcomer enters with the affiliation that a search gives. -/
theorem admission_lookup {mucNode : MucNode} {affiliation : Int}
    (h : admission room ingress mucNode acl = .ok affiliation) :
    affiliation = affiliationssGetByJid room.affiliations acl ingress.realFrom := by
  unfold admission at h
  split at h
  · next hacl =>
    cases h
    unfold affiliationssGetByJid
    rw [if_pos hacl]
  · split at h
    · cases h
    · simp only at h
      split at h
      · cases h
      · split at h
        · cases h
        · split at h
          · cases h
          · cases h
            rfl

/-- An admin or an owner enters as a moderator. -/
theorem roomRoleForAffiliation_high {affiliation : Int} (hle : affiliation ≤ affilOwner)
    (h : affilAdmin ≤ affiliation) : roomRoleForAffiliation room affiliation = roleModerator := by
  unfold roomRoleForAffiliation
  unfold affilAdmin affilOwner affilMember at *
  rw [if_neg (by omega), if_pos (by omega)]

theorem joiner_inStep {mucNode : MucNode} {nick : Buffer} {affiliation : Int}
    (hparts : NonEmptyParts ingress.realFrom)
    (h : admission room ingress mucNode acl = .ok affiliation) :
    InStep acl room.affiliations (joiner room ingress.realFrom nick affiliation) where
  affiliation := by
    show affiliation = affiliationssGetByJid room.affiliations acl (jidSet ingress.realFrom jidFull)
    rw [affiliationssGetByJid_congr (fullKey_jidSet hparts)]
    exact admission_lookup h
  role := by
    intro hhigh
    refine roomRoleForAffiliation_high ?_ hhigh
    rw [admission_lookup h]
    exact affiliationssGetByJid_le _

/-- Whoever is looked up again is in step with the new lists. -/
theorem reaffiliate_inStep {reasonNode : Buffer}
    (hrole : affilAdmin ≤ p.affiliation → p.role = roleModerator) :
    InStep acl lists (((reaffiliate lists acl p).map (setAffected reasonNode)).getD p) := by
  have hset : ∀ q : Participant, (setAffected reasonNode q).jid = q.jid ∧
      (setAffected reasonNode q).affiliation = q.affiliation ∧
      (setAffected reasonNode q).role = q.role := by
    intro q
    unfold setAffected
    split <;> exact ⟨rfl, rfl, rfl⟩
  unfold reaffiliate
  simp only
  split
  · next hsame => exact ⟨hsame.symm, hrole⟩
  · obtain ⟨hjid, haff, hr⟩ := hset { p with
      role := roleForChanged (affiliationssGetByJid lists acl p.jid)
      affiliation := affiliationssGetByJid lists acl p.jid }
    refine ⟨?_, fun hhigh => ?_⟩
    · rw [Option.map_some, Option.getD_some, haff, hjid]
    · rw [Option.map_some, Option.getD_some, haff] at hhigh
      rw [Option.map_some, Option.getD_some, hr]
      exact if_pos hhigh

/-! ## Tame changes -/

/-- Where a participant of a room comes from, if it was only its role that could change. -/
structure Follows (p q : Participant) : Prop where
  jid : q.jid = p.jid
  affiliation : q.affiliation = p.affiliation
  role : q.role = p.role ∨ p.affiliation < affilAdmin

/-- A change of a room that looks nobody up and need not. -/
structure Tame (room room' : Room) : Prop where
  affiliations : room'.affiliations = room.affiliations
  created : room'.hasFlag mucFlagJustCreated = true → room.hasFlag mucFlagJustCreated = true
  destroyed : room'.hasFlag mucFlagDestroyed = false → room.hasFlag mucFlagDestroyed = false
  nobodyNew : (∀ addr p, (addr, p) ∉ room.occupants) → ∀ addr p, (addr, p) ∉ room'.occupants
  follows : room'.hasFlag mucFlagDestroyed = false → ∀ addr q, (addr, q) ∈ room'.occupants →
    ∃ p, (addr, p) ∈ room.occupants ∧ Follows p q

theorem Follows.refl (p : Participant) : Follows p p := ⟨rfl, rfl, .inl rfl⟩

theorem Follows.trans {r : Participant} (h : Follows p q) (h' : Follows q r) : Follows p r where
  jid := h'.jid.trans h.jid
  affiliation := h'.affiliation.trans h.affiliation
  role := by
    rcases h'.role with he | hlow
    · rw [he]
      exact h.role
    · exact .inr (h.affiliation ▸ hlow)

theorem Follows.inStep (hf : Follows p q) (h : InStep acl lists p) : InStep acl lists q where
  affiliation := by rw [hf.affiliation, hf.jid, h.affiliation]
  role := by
    intro hhigh
    rw [hf.affiliation] at hhigh
    rcases hf.role with he | hlow
    · exact he.trans (h.role hhigh)
    · exact absurd hhigh (not_le.mpr hlow)

theorem Follows.setAffected {reasonNode : Buffer} (h : Follows p q) :
    Follows p (Mukite.setAffected reasonNode q) := by
  unfold Mukite.setAffected
  split
  · exact h
  · exact ⟨h.jid, h.affiliation, h.role⟩

namespace Tame

theorem refl (room : Room) : Tame room room where
  affiliations := rfl
  created := id
  destroyed := id
  nobodyNew := id
  follows := fun _ _ q hq => ⟨q, hq, .refl q⟩

theorem trans (h : Tame room room₁) (h' : Tame room₁ room') : Tame room room' where
  affiliations := h'.affiliations.trans h.affiliations
  created := fun hc => h.created (h'.created hc)
  destroyed := fun hd => h.destroyed (h'.destroyed hd)
  nobodyNew := fun hn => h'.nobodyNew (h.nobodyNew hn)
  follows := by
    intro hd addr r hr
    obtain ⟨q, hq, hqr⟩ := h'.follows hd addr r hr
    obtain ⟨p, hp, hpq⟩ := h.follows (h'.destroyed hd) addr q hq
    exact ⟨p, hp, hpq.trans hqr⟩

/-- A change beside the participants and the lists. -/
theorem beside (ho : room'.occupants = room.occupants)
    (ha : room'.affiliations = room.affiliations)
    (hc : room'.hasFlag mucFlagJustCreated = true → room.hasFlag mucFlagJustCreated = true)
    (hd : room'.hasFlag mucFlagDestroyed = false → room.hasFlag mucFlagDestroyed = false) :
    Tame room room' where
  affiliations := ha
  created := hc
  destroyed := hd
  nobodyNew := fun hn => ho ▸ hn
  follows := fun _ _ q hq => ⟨q, ho ▸ hq, .refl q⟩

theorem modify {f : Participant → Participant}
    (hf : room.hasFlag mucFlagDestroyed = false → ∀ p, (addr, p) ∈ room.occupants →
      Follows p (f p)) : Tame room (room.modify addr f) where
  affiliations := rfl
  created := id
  destroyed := id
  nobodyNew := by
    intro hn b q hq
    obtain ⟨p, hp, -⟩ := Room.mem_occupants_modify.mp hq
    exact hn b p hp
  follows := by
    intro hd b q hq
    obtain ⟨p, hp, rfl⟩ := Room.mem_occupants_modify.mp hq
    refine ⟨p, hp, ?_⟩
    split
    · next hb => exact hf hd p (hb ▸ hp)
    · exact .refl p

theorem mapVals {f : Participant → Participant}
    (hf : room.hasFlag mucFlagDestroyed = false → ∀ p, Follows p (f p)) :
    Tame room (room.mapVals f) where
  affiliations := rfl
  created := id
  destroyed := id
  nobodyNew := by
    intro hn b q hq
    obtain ⟨p, hp, -⟩ := Room.mem_occupants_mapVals.mp hq
    exact hn b p hp
  follows := by
    intro hd b q hq
    obtain ⟨p, hp, rfl⟩ := Room.mem_occupants_mapVals.mp hq
    exact ⟨p, hp, hf hd p⟩

/-- Whoever leaves may have been changed before. -/
theorem leave (f : Participant → Participant) :
    Tame room (roomLeave (room.modify addr f) addr) where
  affiliations := by rw [affiliations_roomLeave, Room.affiliations_modify]
  created := by
    intro hc
    rw [hasFlag_roomLeave (by decide)] at hc
    exact hc
  destroyed := destroyed_roomLeave
  nobodyNew := by
    intro hn b q hq
    obtain ⟨p, hp, -⟩ := Room.mem_occupants_modify.mp (mem_occupants_roomLeave.mp hq).1
    exact hn b p hp
  follows := by
    intro _ b q hq
    obtain ⟨hq, hne⟩ := mem_occupants_roomLeave.mp hq
    obtain ⟨p, hp, rfl⟩ := Room.mem_occupants_modify.mp hq
    rw [if_neg hne]
    exact ⟨p, hp, .refl p⟩

/-- The room is no longer new. -/
theorem opened : Tame room (room.setFlag mucFlagJustCreated false) := by
  refine beside rfl rfl (fun hc => ?_) (fun hd => destroyed_opened ▸ hd)
  rw [Room.hasFlag_setFlag_self (by decide)] at hc
  cases hc

end Tame

/-- **A tame change keeps a room coherent.** -/
theorem Coherent.tame (h : Coherent acl room) (ht : Tame room room') : Coherent acl room' where
  occupants := by
    intro hd addr q hq
    obtain ⟨p, hp, hpq⟩ := ht.follows hd addr q hq
    rw [ht.affiliations]
    exact hpq.inStep (h.occupants (ht.destroyed hd) addr p hp)
  unused := fun hc => ht.nobodyNew (h.unused (ht.created hc))

/-! ## Presences -/

theorem follows_refreshed (room : Room) (inner : Buffer) (p : Participant) :
    Follows p (refreshed room inner p) := by
  have hsame := refreshed_same room inner p
  exact ⟨(samePlace_refreshed room inner p).jid, hsame.2.1, .inl hsame.1⟩

/-- The second half of a presence. -/
theorem Tame.announce {type : Nat} {inner : Buffer} {justJoined : Bool}
    (hc : AnnounceCase room addr p type inner justJoined room' sent) : Tame room room' := by
  cases hc with
  | left htype => exact (Tame.leave (departed room inner)).trans .opened
  | stayed htype =>
    have h₁ : Tame room (room.modify addr (refreshed room inner)) :=
      .modify fun _ p _ => follows_refreshed room inner p
    have h₂ : Tame (room.modify addr (refreshed room inner))
        ((room.modify addr (refreshed room inner)).modify addr cached) :=
      .modify fun _ p _ => ⟨rfl, rfl, .inl rfl⟩
    exact (h₁.trans h₂).trans .opened

/-- Nobody is there to be looked up when the creator's entry is filed. -/
theorem Coherent.withCreator (h : Coherent acl room) (jid : Jid) :
    Coherent acl (Mukite.withCreator room jid) where
  occupants := by
    intro hd b q hq
    by_cases hc : room.hasFlag mucFlagJustCreated = true
    · exact absurd hq (h.unused hc b q)
    · have hlists : (Mukite.withCreator room jid).affiliations = room.affiliations := if_neg hc
      rw [hlists]
      exact h.occupants hd b q hq
  unused := h.unused

/-- A newcomer is looked up, and the room it enters is no longer new when it has been announced. -/
theorem Coherent.join {type : Nat} {inner : Buffer} {mucNode : MucNode} {nick : Buffer}
    {affiliation : Int} (h : Coherent acl room) (hparts : NonEmptyParts ingress.realFrom)
    (hadmission : admission room ingress mucNode acl = .ok affiliation)
    (hc : AnnounceCase (roomJoin room ingress.realFrom nick affiliation).1 addr p type inner true
      room' sent) : Coherent acl room' := by
  have hopened : Coherent acl
      ((roomJoin room ingress.realFrom nick affiliation).1.setFlag mucFlagJustCreated false) := by
    refine ⟨fun hd b q hq => ?_, fun hc => ?_⟩
    · rw [destroyed_opened] at hd
      rcases NodeList.mem_cons.mp hq with ⟨-, rfl⟩ | hq
      · have hj : InStep acl room.affiliations
            (joiner room ingress.realFrom nick affiliation) := joiner_inStep hparts hadmission
        exact hj
      · exact h.occupants hd b q hq
    · rw [Room.hasFlag_setFlag_self (by decide)] at hc
      cases hc
  -- what the announcement does is tame also if the room is opened before it
  refine hopened.tame ?_
  have ht := Tame.announce hc
  cases hc with
  | left htype =>
    refine ⟨ht.affiliations, fun hc => ?_, fun hd => ?_, ht.nobodyNew, ht.follows⟩
    · rw [Room.hasFlag_setFlag_self (by decide)] at hc
      cases hc
    · rw [destroyed_opened]
      exact ht.destroyed hd
  | stayed htype =>
    refine ⟨ht.affiliations, fun hc => ?_, fun hd => ?_, ht.nobodyNew, ht.follows⟩
    · rw [Room.hasFlag_setFlag_self (by decide)] at hc
      cases hc
    · rw [destroyed_opened]
      exact ht.destroyed hd

theorem Coherent.presence (h : Coherent acl room) (hparts : NonEmptyParts ingress.realFrom)
    (hr : routePresence room ingress acl = some (room', sent)) : Coherent acl room' := by
  unfold routePresence at hr
  obtain ⟨r, hsender, hr⟩ := Option.bind_eq_some_iff.mp hr
  cases presenceSender_case hsender with
  | ignored =>
    cases hr
    exact h
  | bounced error sent hb =>
    cases hr
    exact h
  | turnedAway error sent hjid hb =>
    cases hr
    exact h.withCreator ingress.realFrom
  | present addr sender hs =>
    obtain ⟨⟨room₂, sent₂⟩, ha, hr⟩ := Option.bind_eq_some_iff.mp hr
    cases hr
    obtain ⟨inner, -, hc⟩ := presenceAnnounce_case (findByJid_mem hs) ha
    exact h.tame (.announce hc)
  | renamed addr sender hs htype hres hnick =>
    obtain ⟨⟨room₂, sent₂⟩, ha, hr⟩ := Option.bind_eq_some_iff.mp hr
    cases hr
    obtain ⟨inner, -, hc⟩ := presenceAnnounce_case
      (mem_occupants_renamed (findByJid_mem hs)) ha
    have hren : Tame room (renamed room addr (some (bptBytes ingress.proxyTo.resource))) :=
      .modify fun _ p _ => ⟨rfl, rfl, .inl rfl⟩
    exact (h.tame hren).tame (.announce hc)
  | joined mucNode affiliation hjid htype hres hnick hadmission =>
    obtain ⟨⟨room₂, sent₂⟩, ha, hr⟩ := Option.bind_eq_some_iff.mp hr
    cases hr
    obtain ⟨inner, -, hc⟩ := presenceAnnounce_case mem_occupants_roomJoin ha
    exact (h.withCreator ingress.realFrom).join hparts hadmission hc

/-! ## Messages and errors -/

theorem Tame.publish {sender : Participant}
    (hp : publish room ingress sender = some (room', sent)) : Tame room room' := by
  unfold Mukite.publish at hp
  obtain ⟨inner, -, hp⟩ := Option.bind_eq_some_iff.mp hp
  obtain ⟨history, -, hp⟩ := Option.bind_eq_some_iff.mp hp
  cases hp
  exact .beside rfl rfl id id

theorem Tame.message {limit ticks : Int}
    (hr : routeMessage room ingress limit ticks = some (room', sent)) : Tame room room' := by
  unfold routeMessage at hr
  split at hr
  · exact bounce_room hr ▸ .refl room
  · next addr sender hs =>
    split at hr
    · unfold routePublicMessage at hr
      split at hr
      · exact bounce_room hr ▸ .refl room
      · split at hr
        · exact bounce_room hr ▸ .refl room
        · obtain ⟨subject, -, hr⟩ := Option.bind_eq_some_iff.mp hr
          have htalk : Tame room
              (room.modify addr (fun p => { p with lastMessageTime := ticks })) :=
            .modify fun _ p _ => ⟨rfl, rfl, .inl rfl⟩
          cases subject with
          | none => exact htalk.trans (.publish hr)
          | some newSubject =>
            simp only at hr
            split at hr
            · exact bounce_room hr ▸ htalk
            · split at hr
              · exact bounce_room hr ▸ htalk
              · obtain ⟨node, -, hr⟩ := Option.bind_eq_some_iff.mp hr
                refine htalk.trans (Tame.trans ?_ (.publish hr))
                exact .beside rfl rfl id id
    · unfold routePrivateMessage at hr
      split at hr
      · exact bounce_room hr ▸ .refl room
      · split at hr
        · exact bounce_room hr ▸ .refl room
        · split at hr
          · exact bounce_room hr ▸ .refl room
          · obtain ⟨inner, -, hr⟩ := Option.bind_eq_some_iff.mp hr
            cases hr
            exact .refl room

theorem Tame.error (hr : routeError room ingress = (room', sent)) : Tame room room' := by
  unfold routeError at hr
  split at hr
  · cases hr
    exact .refl room
  · next addr sender hs =>
    cases hr
    exact .leave errorKicked

/-! ## Items -/

/-- A role item is refused for whoever is an admin. -/
theorem Tame.roleItem {st st' : AdminState} {sender : Participant} {role : Int}
    {target : AdminTarget} (h : roleItem st sender role target = .ok st') :
    Tame st.room st'.room := by
  unfold Mukite.roleItem at h
  split at h
  · cases h
  · next b receiver hb =>
    split at h
    · cases h
    · next hmay =>
      cases h
      rw [not_or] at hmay
      refine .modify fun _ p hp => Follows.setAffected ?_
      obtain rfl : p = receiver := NodeList.val_unique hp (findByNick_spec hb).1
      exact ⟨rfl, rfl, .inr (not_le.mp hmay.1)⟩

/-- An item that changes the lists looks every occupant up. -/
theorem Coherent.affiliationItem {st st' : AdminState} {sender : Participant}
    {affiliation : Affil} {target : AdminTarget} (h : Coherent acl st.room)
    (ha : affiliationItem st sender acl affiliation target = .ok st') :
    Coherent acl st'.room := by
  unfold Mukite.affiliationItem at ha
  split at ha
  · cases ha
  · split at ha
    · cases ha
    · next lists hadd =>
      cases ha
      refine ⟨fun hd b q hq => ?_, fun hc b q hq => ?_⟩
      · obtain ⟨p, hp, rfl⟩ := Room.mem_occupants_mapVals.mp hq
        exact reaffiliate_inStep (h.occupants hd b p hp).role
      · obtain ⟨p, hp, -⟩ := Room.mem_occupants_mapVals.mp hq
        exact h.unused hc b p hp

theorem Coherent.adminItem {st st' : AdminState} {sender : Participant} {target : AdminTarget}
    (h : Coherent acl st.room) (ha : adminItem acl st sender target = .ok st') :
    Coherent acl st'.room := by
  unfold Mukite.adminItem at ha
  split at ha
  · cases ha
  · split at ha
    · exact h.tame (.roleItem ha)
    · exact h.affiliationItem ha
    · cases ha
      exact h

/-- However far the loop gets, the room it leaves is coherent. -/
theorem Coherent.adminLoop : ∀ {reads : List ItemRead} {st : AdminState} {r : AdminResult},
    Coherent acl st.room → adminLoop acl addr st reads = some r → Coherent acl r.state.room
  | [], st, r, h, hl => by
    cases hl
    exact h
  | .undefined :: _, st, r, h, hl => by cases hl
  | .bad :: _, st, r, h, hl => by
    cases hl
    exact h
  | .item target :: rest, st, r, h, hl => by
    rw [Mukite.adminLoop] at hl
    split at hl
    · cases hl
    · split at hl
      · cases hl
        exact h
      · next st' hst => exact Coherent.adminLoop (h.adminItem hst) hl

/-! ## The affected list -/

/-- Whom the announcement takes the role, in a room that stays, is no admin. -/
theorem announced_follows (hd : room.hasFlag mucFlagDestroyed = false) (p : Participant) :
    Follows p (announced room p) := by
  refine ⟨rfl, rfl, ?_⟩
  show (affectedOutcome room p).1 = p.role ∨ p.affiliation < affilAdmin
  unfold affectedOutcome
  rw [if_neg (by simp [hd])]
  split
  · next hout =>
    rw [hout]
    exact .inr (by decide)
  · split
    · next hlow =>
      simp only [Bool.and_eq_true, decide_eq_true_eq] at hlow
      refine .inr (lt_of_lt_of_le hlow.2 (by decide))
    · split
      · next hrole => exact .inl hrole.symm
      · exact .inl rfl

theorem Tame.announceOne (p : Participant) : Tame room (announceOne room addr p).1 := by
  have h₁ : Tame room (room.modify addr (announced room)) :=
    .modify fun hd p _ => announced_follows hd p
  have h₂ : Tame (room.modify addr (announced room))
      ((room.modify addr (announced room)).modify addr clearReason) :=
    .modify fun _ p _ => ⟨rfl, rfl, .inl rfl⟩
  unfold Mukite.announceOne
  dsimp only
  split
  · exact h₁.trans (.leave clearReason)
  · exact h₁.trans h₂

theorem Tame.announceAffected : ∀ {affected : List Nat} {room : Room},
    Tame room (announceAffected room affected).1
  | [], room => .refl room
  | addr :: rest, room => by
    rw [Mukite.announceAffected]
    split
    · exact Tame.announceAffected
    · next p hp => exact (Tame.announceOne p).trans Tame.announceAffected

/-! ## Queries -/

/-- No option of a form makes a room new again. -/
theorem configFlags_created {flag : MucFlags} (h : flag ∈ configFlags) :
    flag &&& mucFlagJustCreated = 0#32 := by
  have hall : configFlags.all (fun flag => flag &&& mucFlagJustCreated == 0#32) = true := by decide
  simpa using List.all_eq_true.mp hall flag h

theorem Tame.option (h : ConfigChange room room') : Tame room room' := by
  cases h with
  | flag flag hflag on =>
    refine .beside rfl rfl (fun hc => ?_) (fun hd => ?_)
    · rwa [Room.hasFlag_setFlag (configFlags_created hflag)] at hc
    · rwa [Room.hasFlag_setFlag (configFlags_disjoint hflag)] at hd
  | unchanged => exact .refl room
  | title | description | password | maxUsers | defaultRole => exact .beside rfl rfl id id

theorem Tame.submitForm {mem : Bytes} {node : Span} {level : Int}
    (h : submitForm room mem node level = some room') : Tame room room' := by
  unfold Mukite.submitForm at h
  obtain ⟨⟨content, data⟩, -, h⟩ := Option.bind_eq_some_iff.mp h
  dsimp only at h
  split at h
  · exact roomConfigParse_keeps (fun _ _ hr hc => Tame.trans hr (.option hc)) (.refl room) h
  · cases h
    exact .refl room

theorem Tame.excludeNonMembers : Tame room (excludeNonMembers room).room := by
  unfold Mukite.excludeNonMembers
  split
  · refine .mapVals fun _ p => ?_
    unfold excludeNonMember
    split
    · next hlow =>
      exact Follows.setAffected ⟨rfl, rfl, .inr (lt_trans hlow (by decide))⟩
    · exact .refl p
  · exact .refl room

/-- Nothing is asked of a room that is destroyed. -/
theorem Tame.destroy (reasonNode : Buffer) (f : Participant → Option Participant) :
    Tame room (affectEach { room := room.setFlag mucFlagDestroyed true, affected := [] }
      reasonNode f).room := by
  have hset : Tame room (room.setFlag mucFlagDestroyed true) := by
    refine .beside rfl rfl (fun hc => ?_) (fun hd => ?_)
    · rwa [Room.hasFlag_setFlag (by decide)] at hc
    · rw [Room.hasFlag_setFlag_self (by decide)] at hd
      cases hd
  refine hset.trans (.mapVals fun hd => ?_)
  rw [Room.hasFlag_setFlag_self (by decide)] at hd
  cases hd

theorem Coherent.answer {answer : IqAnswer} (h : Coherent acl room)
    (hc : AnswerCase room ingress acl answer) : Coherent acl answer.room := by
  cases hc with
  | refused error => exact h
  | reply iqType sysData => exact h
  | items addr sender query reads r hreq hs hquery hreads hloop =>
    have hstart : Coherent acl (AdminState.mk room []).room := h
    have hr : Coherent acl r.state.room := hstart.adminLoop hloop
    cases r with
    | refused st error => exact hr
    | done st => exact hr
  | destroyed resume => exact h.tame (.destroy none _)
  | configured node level answer hconf =>
    obtain ⟨room₁, hform, rfl⟩ := Option.map_eq_some_iff.mp hconf
    exact (h.tame (.submitForm hform)).tame .excludeNonMembers

theorem Coherent.iq (h : Coherent acl room) (hname : ingress.name = .iq)
    (hr : routeIq room ingress acl = some (room', sent)) : Coherent acl room' := by
  unfold routeIq at hr
  split at hr
  · exact proxyIq_room hr ▸ h
  · next hres =>
    obtain ⟨answer, ha, hr⟩ := Option.bind_eq_some_iff.mp hr
    have hc : Coherent acl answer.room := h.answer (answerIq_case hname (by simpa using hres) ha)
    cases answer with
    | refused room₁ error => exact bounce_room hr ▸ hc
    | answered st iqType sysData =>
      simp only at hr
      split at hr
      · exact bounce_room hr ▸ hc
      · cases hr
        exact hc.tame .announceAffected

/-! ## Runs -/

theorem Coherent.roomInit (node : Bytes) : Coherent acl (roomInit node) where
  occupants := fun _ _ _ hm => absurd hm List.not_mem_nil
  unused := fun _ _ _ => List.not_mem_nil

theorem Coherent.step {stanza : Stanza} (h : Coherent acl room)
    (hparts : NonEmptyParts stanza.ingress.realFrom) (hacl : stanza.acl = acl)
    (hr : roomStep room stanza = some (room', sent)) : Coherent acl room' := by
  unfold roomStep roomRoute at hr
  rw [hacl] at hr
  split at hr
  · exact h.tame (.error (Option.some.inj hr))
  · split at hr
    · exact h.tame (.message hr)
    · exact h.presence hparts hr
    · next hname => exact h.iq hname hr
    · cases hr
      exact h

/-- **In every run under one access list, every occupant of a room that is not destroyed has the
affiliation that the lists give it now, and the admins and owners among them moderate.** -/
theorem affiliations_coherent (acl : ACLConfig) (node : Bytes) (room : Room)
    (h : Machine.Reach roomStep
      (fun _ stanza => NonEmptyParts stanza.ingress.realFrom ∧ stanza.acl = acl)
      (roomInit node) room)
    (hd : room.hasFlag mucFlagDestroyed = false) (addr : Nat) (p : Participant)
    (hm : (addr, p) ∈ room.occupants) :
    p.affiliation = affiliationssGetByJid room.affiliations acl p.jid ∧
      (p.affiliation = affilAdmin ∨ p.affiliation = affilOwner → p.role = roleModerator) := by
  have hcoherent : Coherent acl room := h.invariant (.roomInit node)
    (fun _ _ _ _ hs hok hstep => hs.step hok.1 hok.2 hstep)
  have hp := hcoherent.occupants hd addr p hm
  refine ⟨hp.affiliation, fun hhigh => hp.role ?_⟩
  rcases hhigh with he | he
  · exact Int.le_of_eq he.symm
  · rw [he]
    decide

/-! ## A request that changes two affiliations -/

/-- `bob@g` joins the room of `alice@h`, who makes him an owner and herself a member, and then
sends an item that is none. -/
def demotingRun : List Stanza :=
  stanzasOfTexts openAcl 0 0 (joins ++ [adminSet "alice@h"
    "<item jid='bob@g' affiliation='owner'/><item jid='alice@h' affiliation='member'/><item/>"])

set_option maxRecDepth 100000 in
/-- The result at a run whose last request is refused after it has changed two affiliations. -/
theorem affiliations_coherent_demotingRun :
    ∃ room, Machine.run roomStep (roomInit (lit "room")) demotingRun = some room ∧
      room.occupants.map (fun n => (n.2.affiliation, n.2.role))
        = [(affilOwner, roleModerator), (affilMember, roleParticipant)] ∧
      ∀ addr p, (addr, p) ∈ room.occupants →
        p.affiliation = affiliationssGetByJid room.affiliations openAcl p.jid ∧
          (p.affiliation = affilAdmin ∨ p.affiliation = affilOwner → p.role = roleModerator) := by
  have hany : (Machine.run roomStep (roomInit (lit "room")) demotingRun).any (fun room =>
      !room.hasFlag mucFlagDestroyed && room.occupants.map (fun n => (n.2.affiliation, n.2.role))
        == [(affilOwner, roleModerator), (affilMember, roleParticipant)]) = true := by
    decide +kernel
  obtain ⟨room, hroom, hfacts⟩ := (Option.any_eq_true _ _).mp hany
  simp only [Bool.and_eq_true, Bool.not_eq_true', beq_iff_eq] at hfacts
  have hok : ∀ stanza ∈ demotingRun,
      NonEmptyParts stanza.ingress.realFrom ∧ stanza.acl = openAcl := by decide +kernel
  refine ⟨room, hroom, hfacts.2, ?_⟩
  exact affiliations_coherent openAcl (lit "room") room
    (.run .start (fun _ stanza hs => hok stanza hs) hroom) hfacts.1

end Mukite
