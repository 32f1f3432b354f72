import Mukite.Properties.Disguise
import Mukite.Properties.Lifecycle

/-!
# The door

Somebody who is not in a room has one way to change something in it: a presence that is let in.
Everything else that an outsider sends comes back to it, at most, or is answered with a packet that
does not say whom it is for, and leaves the room as it was.

* **`outsider_enters_or_nothing`**: this is so in every state of a run.
* **`occupants_admitted`**: so everybody who is in the room was let in once, with the lists, the
  password and the limit as they were then, whatever has happened to the room since.
-/

namespace Mukite

open Machine

variable {room room' : Room} {ingress : IncomingPacket} {acl : ACLConfig} {stanza : Stanza}
  {sent : List BuilderPacket} {ok : IncomingPacket → Prop} {node : Bytes}

/-! ## Who is let in -/

/-- What is asked of a newcomer, unless it is an admin of the service: there is room for it, it is
not banned, it is a member where members only are wanted, and it knows the password where there is
one, unless it is an owner. -/
def Welcome (room : Room) (ingress : IncomingPacket) (mucNode : MucNode) (acl : ACLConfig) :
    Prop :=
  let affiliation := affiliationssGetByJid room.affiliations acl ingress.realFrom
  room.participants.size < room.participants.maxSize ∧ affiliation ≠ affilOutcast ∧
    (room.hasFlag mucFlagMembersonly = true → affilMember ≤ affiliation) ∧
    (room.hasFlag mucFlagPasswordprotectedroom = true → ∀ password, room.password = some password →
      affilOwner ≤ affiliation ∨
        ∃ p, mucNode.password = some p ∧ p.size = password.length ∧ p.bytes ingress.mem = password)

theorem welcome_of_admission {mucNode : MucNode} {affiliation : Int}
    (h : admission room ingress mucNode acl = .ok affiliation) :
    aclMucAdmin ≤ aclRole acl ingress.realFrom ∨ Welcome room ingress mucNode acl := by
  unfold admission at h
  split at h
  · next hadmin => exact .inl hadmin
  · right
    split at h
    · cases h
    · next hsize =>
      dsimp only at h
      split at h
      · cases h
      · next hbanned =>
        split at h
        · cases h
        · next hpassword =>
          split at h
          · cases h
          · next hmembers =>
            refine ⟨not_le.mp hsize, hbanned, fun hflag => ?_, fun hflag password hp => ?_⟩
            · rw [hflag, Bool.true_and, decide_eq_true_eq, not_lt] at hmembers
              exact hmembers
            · rw [or_iff_not_imp_left, not_le]
              intro hlow
              rw [hflag, hp, decide_eq_true hlow] at hpassword
              cases hm : mucNode.password with
              | none =>
                rw [hm] at hpassword
                exact absurd rfl hpassword
              | some p =>
                rw [hm] at hpassword
                simp only [Option.isSome_some, Bool.and_true, Option.any_some, Bool.true_and,
                  Bool.not_eq_true', Bool.not_eq_false, bptBytes_some] at hpassword
                unfold Span.eqBin at hpassword
                rw [Bool.and_eq_true, beq_iff_eq, beq_iff_eq] at hpassword
                exact ⟨p, rfl, hpassword⟩

/-- A presence with which somebody enters who was not there, under a nick that nobody had. -/
structure Enters (room : Room) (stanza : Stanza) (p : Participant) : Prop where
  presence : stanza.ingress.name = .presence
  available : stanza.ingress.type ≠ stanzaPresenceUnavailable
  absent : participantsFindByJid room.participants stanza.ingress.realFrom = none
  named : stanza.ingress.proxyTo.resource.isSome = true
  free : participantsFindByNick room.participants stanza.ingress.proxyTo.resource = none
  jid : p.jid = jidSet stanza.ingress.realFrom jidFull
  allowed : ∃ mucNode, parseMucNode stanza.ingress.mem stanza.ingress.muc = some mucNode ∧
    (aclMucAdmin ≤ aclRole stanza.acl stanza.ingress.realFrom ∨
      Welcome (withCreator room stanza.ingress.realFrom) stanza.ingress mucNode stanza.acl)

/-! ## Nobody new -/

/-- Everybody in the second room was in the first one. -/
def NobodyNew (room room' : Room) : Prop := ∀ addr q, (addr, q) ∈ room'.occupants →
  ∃ p, (addr, p) ∈ room.occupants ∧ q.jid = p.jid

theorem NobodyNew.refl (room : Room) : NobodyNew room room := fun _ q hq => ⟨q, hq, rfl⟩

theorem NobodyNew.trans {room₁ : Room} (h : NobodyNew room room₁) (h' : NobodyNew room₁ room') :
    NobodyNew room room' := by
  intro addr q hq
  obtain ⟨p₁, hp₁, hq₁⟩ := h' addr q hq
  obtain ⟨p, hp, hj⟩ := h addr p₁ hp₁
  exact ⟨p, hp, hq₁.trans hj⟩

theorem nobodyNew_of_occupants (h : room'.occupants = room.occupants) : NobodyNew room room' :=
  fun _ q hq => ⟨q, h ▸ hq, rfl⟩

theorem nobodyNew_mapVals {f : Participant → Participant} (hf : ∀ p, (f p).jid = p.jid) :
    NobodyNew room (room.mapVals f) := by
  intro addr q hq
  obtain ⟨p, hp, rfl⟩ := Room.mem_occupants_mapVals.mp hq
  exact ⟨p, hp, hf p⟩

theorem nobodyNew_modify {addr : Nat} {f : Participant → Participant}
    (hf : ∀ p, (f p).jid = p.jid) : NobodyNew room (room.modify addr f) := by
  intro b q hq
  obtain ⟨p, hp, rfl⟩ := Room.mem_occupants_modify.mp hq
  refine ⟨p, hp, ?_⟩
  split
  · exact hf p
  · rfl

theorem jid_affected {reasonNode : Buffer} {f : Participant → Option Participant} {p : Participant}
    (hf : ∀ q, f p = some q → q.jid = p.jid) :
    (((f p).map (setAffected reasonNode)).getD p).jid = p.jid := by
  cases hq : f p with
  | none => rfl
  | some q =>
    rw [Option.map_some, Option.getD_some, ← hf q hq]
    unfold setAffected
    split <;> rfl

/-- **Without a resource in its address no stanza brings anybody in.** -/
theorem nobodyNew_of_change (hok : ∀ ingress, ok ingress → ingress.proxyTo.resource = none)
    (h : Change ok room room') : NobodyNew room room' := by
  cases h with
  | adjust addr f hf => exact nobodyNew_modify fun p => (hf p).jid
  | adjustAll f hf => exact nobodyNew_mapVals fun p => (hf p).jid
  | subject => exact .refl room
  | store => exact .refl room
  | creator => exact .refl room
  | join ingress mucNode acl affiliation hi hjid hres =>
    rw [hok ingress hi] at hres
    cases hres
  | rename ingress addr => exact nobodyNew_modify fun _ => rfl
  | leave addr =>
    intro b q hq
    exact ⟨q, (mem_occupants_roomLeave.mp hq).1, rfl⟩
  | opened => exact .refl room
  | option room' ho => cases ho <;> exact .refl room
  | affiliate =>
    refine nobodyNew_mapVals fun p => jid_affected fun q hq => ?_
    unfold reaffiliate at hq
    dsimp only at hq
    split at hq
    · cases hq
    · cases hq
      rfl
  | evict =>
    refine nobodyNew_mapVals fun p => @jid_affected none
      (fun p => some { p with role := roleNone, affiliation := affilNone }) p fun q hq => ?_
    cases hq
    rfl

theorem nobodyNew_of_changed (hok : ∀ ingress, ok ingress → ingress.proxyTo.resource = none)
    (h : Changed ok room room') : NobodyNew room room' := by
  refine keeps_of_changed (I := NobodyNew room) (fun r r' hr hc => ?_) h (.refl room)
  exact hr.trans (nobodyNew_of_change hok hc)

/-- A newcomer that is let in has passed the check with the `<x/>` of its presence. -/
theorem presenceSender_newcomer {r : PresenceSender}
    (hjid : participantsFindByJid room.participants ingress.realFrom = none)
    (h : presenceSender room ingress acl = some r) : (∃ room' sent, r = .done room' sent) ∨
      ∃ mucNode affiliation, parseMucNode ingress.mem ingress.muc = some mucNode ∧
        admission (withCreator room ingress.realFrom) ingress mucNode acl = .ok affiliation := by
  obtain ⟨mucNode, hparse, h⟩ := Option.bind_eq_some_iff.mp h
  rw [hjid] at h
  have hnew : newcomerPresence room ingress mucNode acl = some r := h
  cases ha : admission (withCreator room ingress.realFrom) ingress mucNode acl with
  | ok affiliation => exact .inr ⟨mucNode, affiliation, hparse, ha⟩
  | error error =>
    left
    have ha' := ha
    unfold withCreator at ha'
    unfold newcomerPresence at hnew
    split_ifs at hnew
    · cases hnew
      exact ⟨_, _, rfl⟩
    · obtain ⟨sent, -, rfl⟩ := presenceBounce_case hnew
      exact ⟨_, _, rfl⟩
    · obtain ⟨sent, -, rfl⟩ := presenceBounce_case hnew
      exact ⟨_, _, rfl⟩
    · dsimp only at hnew
      rw [ha'] at hnew
      obtain ⟨sent, -, rfl⟩ := presenceBounce_case hnew
      exact ⟨_, _, rfl⟩

/-- The newcomer with whom the second half of `route_presence` goes on has been let in. -/
theorem enters_of_go {joined : Room} {addr : Nat} {cleaned : IncomingPacket} {justJoined : Bool}
    {q : Participant} (hname : stanza.ingress.name = .presence)
    (hjid : participantsFindByJid room.participants stanza.ingress.realFrom = none)
    (htype : stanza.ingress.type ≠ stanzaPresenceUnavailable)
    (hres : stanza.ingress.proxyTo.resource.isSome = true)
    (hnick : participantsFindByNick room.participants stanza.ingress.proxyTo.resource = none)
    (h : presenceSender room stanza.ingress stanza.acl
      = some (.go joined sent addr cleaned justJoined))
    (hq : q.jid = jidSet stanza.ingress.realFrom jidFull) : Enters room stanza q := by
  rcases presenceSender_newcomer hjid h with ⟨room₁, sent₁, hdone⟩ | ⟨mucNode, a, hparse, hok⟩
  · cases hdone
  · exact ⟨hname, htype, hjid, hres, hnick, hq, mucNode, hparse, welcome_of_admission hok⟩

theorem routePresence_occupants (hname : stanza.ingress.name = .presence)
    (h : routePresence room stanza.ingress stanza.acl = some (room', sent)) {addr : Nat}
    {q : Participant} (hq : (addr, q) ∈ room'.occupants) :
    (∃ p, (addr, p) ∈ room.occupants ∧ q.jid = p.jid) ∨ Enters room stanza q := by
  have hno : ∀ ingress : IncomingPacket, False → ingress.proxyTo.resource = none :=
    fun _ hf => hf.elim
  unfold routePresence at h
  obtain ⟨r, hr, h⟩ := Option.bind_eq_some_iff.mp h
  cases presenceSender_case hr with
  | ignored =>
    cases h
    exact .inl ⟨q, hq, rfl⟩
  | bounced error sent hb =>
    cases h
    exact .inl ⟨q, hq, rfl⟩
  | turnedAway error sent hjid hb =>
    cases h
    exact .inl ⟨q, hq, rfl⟩
  | present addr' sender hs =>
    obtain ⟨⟨room₂, announced⟩, ha, h⟩ := Option.bind_eq_some_iff.mp h
    cases h
    obtain ⟨inner, -, hc⟩ := presenceAnnounce_case (findByJid_mem hs) ha
    have hchanged := @announceCase_changed (fun _ => False) _ _ _ _ _ _ _ _ (findByJid_mem hs) hc
    exact .inl (nobodyNew_of_changed hno hchanged.changed addr q hq)
  | renamed addr' sender hs htype hres hnick =>
    obtain ⟨⟨room₂, announced⟩, ha, h⟩ := Option.bind_eq_some_iff.mp h
    cases h
    have hm := @mem_occupants_renamed _ _ _ (some (bptBytes stanza.ingress.proxyTo.resource))
      (findByJid_mem hs)
    obtain ⟨inner, -, hc⟩ := presenceAnnounce_case hm ha
    have hchanged := @announceCase_changed (fun _ => False) _ _ _ _ _ _ _ _ hm hc
    have hrenamed : NobodyNew room
        (renamed room addr' (some (bptBytes stanza.ingress.proxyTo.resource))) :=
      nobodyNew_modify fun _ => rfl
    exact .inl (hrenamed.trans (nobodyNew_of_changed hno hchanged.changed) addr q hq)
  | joined mucNode affiliation hjid htype hres hnick hadmission =>
    obtain ⟨⟨room₂, announced⟩, ha, h⟩ := Option.bind_eq_some_iff.mp h
    cases h
    obtain ⟨inner, -, hc⟩ := presenceAnnounce_case mem_occupants_roomJoin ha
    have hchanged := @announceCase_changed (fun _ => False) _ _ _ _ _ _ _ _ mem_occupants_roomJoin hc
    obtain ⟨p, hp, hpj⟩ := nobodyNew_of_changed hno hchanged.changed addr q hq
    rcases NodeList.mem_cons.mp hp with ⟨-, rfl⟩ | hp
    · exact .inr (enters_of_go hname hjid htype hres hnick hr hpj)
    · exact .inl ⟨p, hp, hpj⟩

/-- **Whoever is new in the room has entered with this stanza.** -/
theorem roomStep_occupants (h : roomStep room stanza = some (room', sent)) {addr : Nat}
    {q : Participant} (hq : (addr, q) ∈ room'.occupants) :
    (∃ p, (addr, p) ∈ room.occupants ∧ q.jid = p.jid) ∨ Enters room stanza q := by
  have hno : ∀ ingress : IncomingPacket, False → ingress.proxyTo.resource = none :=
    fun _ hf => hf.elim
  unfold roomStep roomRoute at h
  split at h
  · have hc := @routeError_changed (fun _ => False) _ _ _ _ (Option.some.inj h)
    exact .inl (nobodyNew_of_changed hno hc.changed addr q hq)
  · split at h
    · have hc := @routeMessage_changed (fun _ => False) _ _ _ _ _ _ h
      exact .inl (nobodyNew_of_changed hno hc.changed addr q hq)
    · next hname => exact routePresence_occupants hname h hq
    · next hname =>
      by_cases hres : stanza.ingress.proxyTo.resource.isSome = true
      · unfold routeIq at h
        rw [if_pos hres] at h
        exact .inl ⟨q, proxyIq_room h ▸ hq, rfl⟩
      · have hnone : stanza.ingress.proxyTo.resource = none := by simpa using hres
        have hc := @routeIq_changed (fun ingress => ingress = stanza.ingress) _ _ _ _ _ rfl hname h
        refine .inl (nobodyNew_of_changed (fun ingress hi => ?_) hc.changed addr q hq)
        rw [hi, hnone]
    · cases h
      exact .inl ⟨q, hq, rfl⟩

/--
**There is no back door**: in every run that starts with nobody in the room, everybody who is in it
has entered with a presence of the run, and was let in by the room of that moment.
-/
theorem occupants_admitted {start : Room} {ok : Room → Stanza → Prop} (hstart : start.occupants = [])
    (h : Reach roomStep ok start room) {addr : Nat} {p : Participant}
    (hp : (addr, p) ∈ room.occupants) :
    ∃ room₀ stanza, Reach roomStep ok start room₀ ∧ ok room₀ stanza ∧ Enters room₀ stanza p := by
  induction h generalizing addr p with
  | start =>
    rw [hstart] at hp
    exact absurd hp List.not_mem_nil
  | @next room room' stanza sent hr hok hs ih =>
    rcases roomStep_occupants hs hp with ⟨p₀, hp₀, hjid⟩ | hentered
    · obtain ⟨room₀, stanza₀, hr₀, hok₀, he⟩ := ih hp₀
      exact ⟨room₀, stanza₀, hr₀, hok₀, { he with jid := hjid.trans he.jid }⟩
    · exact ⟨room, stanza, hr, hok, hentered⟩

set_option maxRecDepth 100000 in
/-- The result for a room that has just been opened. -/
theorem occupants_admitted_openingRun : ∃ room addr p,
    Reach roomStep (fun _ _ => True) (roomInit (lit "room")) room ∧ (addr, p) ∈ room.occupants ∧
      ∃ room₀ stanza, Reach roomStep (fun _ _ => True) (roomInit (lit "room")) room₀ ∧ True ∧
        Enters room₀ stanza p := by
  have hany : (Machine.run roomStep (roomInit (lit "room")) openingRun).any
      (fun room => !room.occupants.isEmpty) = true := by decide +kernel
  obtain ⟨room, hrun, hne⟩ := (Option.any_eq_true _ _).mp hany
  have hreach : Reach roomStep (fun _ _ => True) (roomInit (lit "room")) room :=
    .run .start (fun _ _ _ => trivial) hrun
  cases hocc : room.occupants with
  | nil =>
    rw [hocc] at hne
    cases hne
  | cons occupant others =>
    have hm : (occupant.1, occupant.2) ∈ room.occupants := by
      rw [hocc]
      exact List.mem_cons_self
    exact ⟨room, _, _, hreach, hm, occupants_admitted rfl hreach hm⟩

/-! ## Nothing else -/

/-- A room that is marked as new is as it was made. -/
def AsMade (room : Room) : Prop :=
  room.hasFlag mucFlagJustCreated = true → ∃ node, room = roomInit node

/-- A stanza goes back to its sender as an error: under its own header, from which its `to` has been
taken and in which its `from` has become a `to`. -/
structure SentBack (ingress : IncomingPacket) (packet : BuilderPacket) : Prop where
  name : packet.name = ingress.name
  type : packet.type = stanzaError
  toJid : packet.toJid = jidInit
  header : packet.header = some
    (packetCleanup ingress (packetCleanupTo ||| packetCleanupSwitchFromTo)).headerBytes

/-- What `route_iq` sends itself names no stanza and nobody: it has no header either. -/
structure Unaddressed (packet : BuilderPacket) : Prop where
  name : packet.name = .unset
  toJid : packet.toJid = jidInit
  header : packet.header = none

/-- One packet at most is sent, which is for nobody but the sender of the stanza: the stanza that
comes back, or the reply to a query, which does not say whom it is for. -/
def OnlyAnswered (ingress : IncomingPacket) (sent : List BuilderPacket) : Prop :=
  sent = [] ∨ ∃ packet, sent = [packet] ∧
    (SentBack ingress packet ∨ ingress.name = .iq ∧ Unaddressed packet)

theorem workerBounce_sentBack {error : XMPPError} {node : Buffer} {packet : BuilderPacket}
    (h : workerBounce ingress error node = some packet) : SentBack ingress packet := by
  obtain ⟨inner, -, hp⟩ := Option.bind_eq_some_iff.mp h
  cases hp
  exact ⟨rfl, rfl, rfl, rfl⟩

theorem bounce_answered {error : XMPPError} (h : bounce room ingress error = some (room', sent)) :
    OnlyAnswered ingress sent := by
  obtain ⟨packet, hb, heq⟩ := Option.map_eq_some_iff.mp h
  cases heq
  exact .inr ⟨packet, rfl, .inl (workerBounce_sentBack hb)⟩

theorem withCreator_old (h : room.hasFlag mucFlagJustCreated = false) (jid : Jid) :
    withCreator room jid = room := by
  unfold withCreator creatorAffiliations
  rw [h, if_neg Bool.false_ne_true]

/-- **A presence that is not let in leaves the room alone**, for the creator of a room is let in. -/
theorem presenceSender_done (hmade : AsMade room)
    (hjid : participantsFindByJid room.participants ingress.realFrom = none)
    (h : presenceSender room ingress acl = some (.done room' sent)) : room' = room := by
  cases hnew : room.hasFlag mucFlagJustCreated with
  | false =>
    have hcase := presenceSender_case h
    generalize hr : PresenceSender.done room' sent = r at hcase
    cases hcase with
    | ignored | bounced =>
      cases hr
      rfl
    | turnedAway =>
      cases hr
      exact withCreator_old hnew _
    | present | renamed | joined => cases hr
  | true =>
    obtain ⟨node, rfl⟩ := hmade hnew
    by_cases htype : ingress.type = stanzaPresenceUnavailable
    · obtain ⟨mucNode, -, h⟩ := Option.bind_eq_some_iff.mp h
      rw [hjid] at h
      have hnewcomer : newcomerPresence (roomInit node) ingress mucNode acl = _ := h
      unfold newcomerPresence at hnewcomer
      rw [if_pos htype] at hnewcomer
      cases hnewcomer
      rfl
    · cases hres : ingress.proxyTo.resource with
      | none =>
        obtain ⟨mucNode, -, h⟩ := Option.bind_eq_some_iff.mp h
        rw [hjid] at h
        have hnewcomer : newcomerPresence (roomInit node) ingress mucNode acl = _ := h
        unfold newcomerPresence at hnewcomer
        rw [if_neg htype, hres, if_pos (by rfl)] at hnewcomer
        obtain ⟨bounced, -, hdone⟩ := presenceBounce_case hnewcomer
        cases hdone
        rfl
      | some nick =>
        obtain ⟨affiliation, roster, cleaned, hgo⟩ :=
          presenceSender_creator htype (by rw [hres]; rfl) h
        cases hgo

theorem routePresence_outsider (hmade : AsMade room) (hname : stanza.ingress.name = .presence)
    (hout : participantsFindByJid room.participants stanza.ingress.realFrom = none)
    (h : routePresence room stanza.ingress stanza.acl = some (room', sent)) :
    room' = room ∧ OnlyAnswered stanza.ingress sent ∨
      room'.hasFlag mucFlagJustCreated = false ∧
        ∃ addr p, (addr, p) ∈ room'.occupants ∧ Enters room stanza p := by
  have hwhole := h
  unfold routePresence at h
  obtain ⟨r, hr, h⟩ := Option.bind_eq_some_iff.mp h
  cases presenceSender_case hr with
  | ignored =>
    cases h
    exact .inl ⟨rfl, .inl rfl⟩
  | bounced error sent hb =>
    cases h
    exact .inl ⟨rfl, bounce_answered hb⟩
  | turnedAway error sent hjid hb =>
    cases h
    exact .inl ⟨presenceSender_done hmade hjid hr, bounce_answered hb⟩
  | present addr sender hs | renamed addr sender hs =>
    rw [hs] at hout
    cases hout
  | joined mucNode affiliation hjid htype hres hnick hadmission =>
    obtain ⟨⟨room₂, announced⟩, ha, h⟩ := Option.bind_eq_some_iff.mp h
    cases h
    obtain ⟨inner, -, hc⟩ := presenceAnnounce_case mem_occupants_roomJoin ha
    cases hc with
    | left hleft => exact absurd hleft htype
    | stayed hstayed =>
      refine .inr ⟨Room.hasFlag_setFlag_self (by decide), room.participants.nodes.fresh, _,
        Room.mem_occupants_modify.mpr ⟨_, Room.mem_occupants_modify.mpr
          ⟨_, mem_occupants_roomJoin, rfl⟩, rfl⟩, ?_⟩
      rcases routePresence_occupants hname hwhole (Room.mem_occupants_modify.mpr ⟨_,
        Room.mem_occupants_modify.mpr ⟨_, mem_occupants_roomJoin, rfl⟩, rfl⟩) with ⟨p, hp, -⟩ | hentered
      · exact absurd (mem_addrs_of_occupant hp) NodeList.fresh_notMem
      · exact hentered

/-- A query of an outsider is refused, or answered with what the room shows to everybody. -/
theorem answerIq_public {answer : IqAnswer}
    (hout : participantsFindByJid room.participants ingress.realFrom = none)
    (h : answerIq room ingress acl = some answer) :
    (∃ error, answer = .refused room error) ∨ ∃ iqType sysData, answer = .reply room iqType sysData := by
  unfold answerIq at h
  obtain ⟨found, -, h⟩ := Option.bind_eq_some_iff.mp h
  rw [hout] at h
  cases found with
  | none =>
    cases h
    exact .inl ⟨_, rfl⟩
  | some query =>
    dsimp only at h
    split at h
    · unfold getIq at h
      split_ifs at h
      · cases h
        exact .inr ⟨_, _, rfl⟩
      · cases h
        exact .inr ⟨_, _, rfl⟩
      · cases h
        exact .inl ⟨_, rfl⟩
      · unfold getAffiliations at h
        split_ifs at h <;> cases h <;> exact .inl ⟨_, rfl⟩
      · cases h
        exact .inl ⟨_, rfl⟩
      · cases h
        exact .inr ⟨_, _, rfl⟩
    · split at h
      · unfold setIq at h
        split_ifs at h
        · unfold setAffiliations at h
          split_ifs at h <;> cases h <;> exact .inl ⟨_, rfl⟩
        · unfold setConfig at h
          split_ifs at h <;> cases h <;> exact .inl ⟨_, rfl⟩
        · cases h
          exact .inr ⟨_, _, rfl⟩
      · cases h
        exact .inr ⟨_, _, rfl⟩

theorem routeIq_answered (hname : ingress.name = .iq)
    (hout : participantsFindByJid room.participants ingress.realFrom = none)
    (h : routeIq room ingress acl = some (room', sent)) :
    room' = room ∧ OnlyAnswered ingress sent := by
  unfold routeIq at h
  split at h
  · unfold proxyIq at h
    rw [hout] at h
    exact ⟨bounce_room h, bounce_answered h⟩
  · obtain ⟨answer, ha, h⟩ := Option.bind_eq_some_iff.mp h
    rcases answerIq_public hout ha with ⟨error, rfl⟩ | ⟨iqType, sysData, rfl⟩
    · exact ⟨bounce_room h, bounce_answered h⟩
    · unfold IqAnswer.reply at h
      dsimp only at h
      split at h
      · exact ⟨bounce_room h, bounce_answered h⟩
      · cases h
        exact ⟨rfl, .inr ⟨_, rfl, .inr ⟨hname, rfl, rfl, rfl⟩⟩⟩

/-- **One stanza of an outsider.** -/
theorem roomStep_outsider (hmade : AsMade room)
    (hout : participantsFindByJid room.participants stanza.ingress.realFrom = none)
    (h : roomStep room stanza = some (room', sent)) :
    room' = room ∧ OnlyAnswered stanza.ingress sent ∨
      room'.hasFlag mucFlagJustCreated = false ∧
        ∃ addr p, (addr, p) ∈ room'.occupants ∧ Enters room stanza p := by
  unfold roomStep roomRoute at h
  split at h
  · unfold routeError at h
    rw [hout] at h
    cases h
    exact .inl ⟨rfl, .inl rfl⟩
  · split at h
    · unfold routeMessage at h
      rw [hout] at h
      exact .inl ⟨bounce_room h, bounce_answered h⟩
    · next hname => exact routePresence_outsider hmade hname hout h
    · next hname => exact .inl (routeIq_answered hname hout h)
    · cases h
      exact .inl ⟨rfl, .inl rfl⟩

/-! ## Rooms of a run -/

/-- No change makes a room new. -/
theorem created_of_change (h : Change ok room room')
    (hnew : room'.hasFlag mucFlagJustCreated = true) : room.hasFlag mucFlagJustCreated = true := by
  cases h with
  | leave addr =>
    rw [hasFlag_roomLeave (by decide)] at hnew
    exact hnew
  | join =>
    rw [Room.hasFlag_setFlag_self (by decide)] at hnew
    cases hnew
  | opened =>
    rw [Room.hasFlag_setFlag_self (by decide)] at hnew
    cases hnew
  | option room' ho => exact (Tame.option ho).created hnew
  | evict =>
    have hevicted : (evicted room).hasFlag mucFlagJustCreated = room.hasFlag mucFlagJustCreated :=
      Room.hasFlag_setFlag (by decide)
    exact hevicted ▸ hnew
  | adjust | adjustAll | subject | store | creator | rename | affiliate => exact hnew

theorem created_of_step (hs : roomStep room stanza = some (room', sent))
    (hnew : room'.hasFlag mucFlagJustCreated = true) : room.hasFlag mucFlagJustCreated = true := by
  have hc := @roomStep_changed (fun _ => True) _ _ _ _ trivial hs
  exact keeps_of_changed (I := fun r => r.hasFlag mucFlagJustCreated = true →
    room.hasFlag mucFlagJustCreated = true) (fun _ _ hr hc hn => hr (created_of_change hc hn))
    hc id hnew

/-- A room that has been opened is never new again. -/
theorem opened_step (hopen : room.hasFlag mucFlagJustCreated = false)
    (hs : roomStep room stanza = some (room', sent)) :
    room'.hasFlag mucFlagJustCreated = false := by
  rw [← Bool.not_eq_true] at hopen ⊢
  exact fun hnew => hopen (created_of_step hs hnew)

theorem AsMade.step (h : AsMade room) (hs : roomStep room stanza = some (room', sent)) :
    AsMade room' := by
  intro hnew
  have hold := created_of_step hs hnew
  obtain ⟨node, rfl⟩ := h hold
  -- nobody is in a new room, so the sender is an outsider
  rcases roomStep_outsider h rfl hs with ⟨rfl, -⟩ | ⟨hno, -⟩
  · exact ⟨node, rfl⟩
  · rw [hno] at hnew
    cases hnew

/--
**An outsider enters or changes nothing**, in every state of a run: its stanza is a presence that is
let in, or the room stays exactly as it was and what is sent is addressed to nobody else.
-/
theorem outsider_enters_or_nothing {start : Room} {ok : Room → Stanza → Prop} (hstart : AsMade start)
    (h : Reach roomStep ok start room)
    (hout : participantsFindByJid room.participants stanza.ingress.realFrom = none)
    (hs : roomStep room stanza = some (room', sent)) :
    room' = room ∧ OnlyAnswered stanza.ingress sent ∨
      ∃ addr p, (addr, p) ∈ room'.occupants ∧ Enters room stanza p := by
  have hmade : AsMade room := h.invariant hstart fun _ _ _ _ hi _ hstep => hi.step hstep
  exact (roomStep_outsider hmade hout hs).imp_right And.right

theorem asMade_roomInit (node : Bytes) : AsMade (roomInit node) := fun _ => ⟨node, rfl⟩

/-- Somebody who has not entered writes to the room. -/
def outsideMessage : List Stanza :=
  stanzasOfTexts openAcl 0 0
    ["<message from='bob@h/pc' to='room@conf' type='groupchat'><body>hi</body></message>"]

set_option maxRecDepth 100000 in
/-- The result for a message from outside. -/
theorem outsider_enters_or_nothing_message : ∃ room stanza room' sent,
    Reach roomStep (fun _ _ => True) (roomInit (lit "room")) room ∧ room.occupants ≠ [] ∧
      participantsFindByJid room.participants stanza.ingress.realFrom = none ∧
      roomStep room stanza = some (room', sent) ∧ sent ≠ [] ∧
      (room' = room ∧ OnlyAnswered stanza.ingress sent ∨
        ∃ addr p, (addr, p) ∈ room'.occupants ∧ Enters room stanza p) := by
  have hany : (Machine.run roomStep (roomInit (lit "room")) openingRun).any (fun room =>
      !room.occupants.isEmpty && outsideMessage.any (fun stanza =>
        (participantsFindByJid room.participants stanza.ingress.realFrom).isNone &&
          (roomStep room stanza).any (fun r => !r.2.isEmpty))) = true := by decide +kernel
  obtain ⟨room, hrun, hroom⟩ := (Option.any_eq_true _ _).mp hany
  obtain ⟨hne, hstanza⟩ := Bool.and_eq_true_iff.mp hroom
  obtain ⟨stanza, -, hstanza⟩ := List.any_eq_true.mp hstanza
  obtain ⟨hout, hstep⟩ := Bool.and_eq_true_iff.mp hstanza
  obtain ⟨⟨room', sent⟩, hs, hsent⟩ := (Option.any_eq_true _ _).mp hstep
  have hreach : Reach roomStep (fun _ _ => True) (roomInit (lit "room")) room :=
    .run .start (fun _ _ _ => trivial) hrun
  have hnone := Option.isNone_iff_eq_none.mp hout
  exact ⟨room, stanza, room', sent, hreach, by simpa using hne, hnone, hs, by simpa using hsent,
    outsider_enters_or_nothing (asMade_roomInit _) hreach hnone hs⟩

end Mukite
