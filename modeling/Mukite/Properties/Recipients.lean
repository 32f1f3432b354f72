import Mukite.Properties.Outsiders

/-!
# Whom a packet reaches

A room sends to those who are in it, and to a newcomer that it has let in. Whoever else has sent
the stanza gets one packet at most: the stanza itself, which comes back under its own header, or the
reply to a query (`packets_confined`). In between the room changes, also while it sends, but nobody
comes in then (`NobodyNew`), so that the occupants before the stanza are the ones to look at.
-/

namespace Mukite

variable {room room' room₁ : Room} {ingress : IncomingPacket} {acl : ACLConfig} {stanza : Stanza}
  {sent : List BuilderPacket} {packet : BuilderPacket} {ok : IncomingPacket → Prop}

/-- All the packets are addressed to occupants of the room. -/
def ToOccupants (room : Room) (sent : List BuilderPacket) : Prop :=
  ∀ packet ∈ sent, ∃ addr p, (addr, p) ∈ room.occupants ∧ AddressedTo packet p.jid

/-- A packet is for an occupant of the room, or for somebody who enters it with the stanza. -/
def Confined (room : Room) (stanza : Stanza) (packet : BuilderPacket) : Prop :=
  (∃ addr p, (addr, p) ∈ room.occupants ∧ AddressedTo packet p.jid) ∨
    ∃ p, Enters room stanza p ∧ AddressedTo packet p.jid

theorem ToOccupants.nil : ToOccupants room [] := fun _ h => absurd h List.not_mem_nil

theorem ToOccupants.append {more : List BuilderPacket} (h : ToOccupants room sent)
    (hmore : ToOccupants room more) : ToOccupants room (sent ++ more) := by
  intro packet hp
  rcases List.mem_append.mp hp with hp | hp
  · exact h packet hp
  · exact hmore packet hp

/-- The occupants of a later room were there before. -/
theorem ToOccupants.before (h : ToOccupants room' sent) (hnew : NobodyNew room room') :
    ToOccupants room sent := by
  intro packet hp
  obtain ⟨addr, q, hq, hto⟩ := h packet hp
  obtain ⟨p, hp, hjid⟩ := hnew addr q hq
  exact ⟨addr, p, hp, hjid ▸ hto⟩

/-! ## What is sent to all -/

theorem toOccupants_broadcast (sender : Nat × Participant) (newNick : Buffer) (codes : Nat) :
    ToOccupants room (roomBroadcastPresence room sender newNick codes) := by
  intro packet hp
  obtain ⟨receiver, hr, rfl⟩ := List.mem_map.mp hp
  exact ⟨receiver.1, receiver.2, hr, .inl rfl⟩

theorem toOccupants_broadcastAt (addr : Nat) (newNick : Buffer) (codes : Nat) :
    ToOccupants room (broadcastAt room addr newNick codes) := by
  unfold broadcastAt
  split
  · exact .nil
  · exact toOccupants_broadcast _ _ _

theorem toOccupants_roster {receiver : Nat × Participant} (hm : receiver ∈ room.occupants) :
    ToOccupants room (roomPresencesSend room receiver) := by
  intro packet hp
  obtain ⟨sender, -, rfl⟩ := List.mem_map.mp hp
  exact ⟨receiver.1, receiver.2, hm, .inl rfl⟩

theorem toOccupants_subject {addr : Nat} {p : Participant} (hm : (addr, p) ∈ room.occupants) :
    ToOccupants room (roomSubjectSend room p) := by
  unfold roomSubjectSend
  split
  · exact .nil
  · intro packet hp
    rw [List.mem_singleton.mp hp]
    exact ⟨addr, p, hm, .inl rfl⟩

theorem toOccupants_publish {sender : Participant}
    (h : publish room ingress sender = some (room', sent)) : ToOccupants room sent := by
  obtain ⟨inner, -, h⟩ := Option.bind_eq_some_iff.mp h
  obtain ⟨history, -, h⟩ := Option.bind_eq_some_iff.mp h
  cases h
  intro packet hp
  obtain ⟨receiver, hr, rfl⟩ := List.mem_map.mp hp
  exact ⟨receiver.1, receiver.2, hr, .inl rfl⟩

/-! ## Presences -/

theorem nobodyNew_refreshed (addr : Nat) (inner : Buffer) :
    NobodyNew room (room.modify addr (refreshed room inner)) :=
  nobodyNew_modify fun p => (samePlace_refreshed room inner p).jid

theorem toOccupants_announce {addr : Nat} {p : Participant} {type : Nat} {inner : Buffer}
    {justJoined : Bool} (hm : (addr, p) ∈ room.occupants)
    (h : AnnounceCase room addr p type inner justJoined room' sent) : ToOccupants room sent := by
  cases h with
  | left htype =>
    exact (toOccupants_broadcast _ _ _).before
      (nobodyNew_modify fun q => (samePlace_departed room inner q).jid)
  | stayed htype =>
    have hsubject : (addr, refreshed room inner p)
        ∈ (room.modify addr (refreshed room inner)).occupants :=
      Room.mem_occupants_modify.mpr ⟨p, hm, by rw [if_pos rfl]⟩
    refine ToOccupants.before (.append (toOccupants_broadcast _ _ _) ?_) (nobodyNew_refreshed addr inner)
    split
    · exact toOccupants_subject hsubject
    · exact .nil

/-- One answer at most, then packets for those who are in the room or enter it. -/
def SplitSent (room : Room) (stanza : Stanza) (sent : List BuilderPacket) : Prop :=
  ∃ answers others, sent = answers ++ others ∧ OnlyAnswered stanza.ingress answers ∧
    ∀ packet ∈ others, Confined room stanza packet

theorem ToOccupants.split (h : ToOccupants room sent) : SplitSent room stanza sent :=
  ⟨[], sent, rfl, .inl rfl, fun packet hp => .inl (h packet hp)⟩

theorem OnlyAnswered.split (h : OnlyAnswered stanza.ingress sent) : SplitSent room stanza sent :=
  ⟨sent, [], (List.append_nil sent).symm, h, fun _ hp => absurd hp List.not_mem_nil⟩

theorem routePresence_split (hname : stanza.ingress.name = .presence)
    (h : routePresence room stanza.ingress stanza.acl = some (room', sent)) :
    SplitSent room stanza sent := by
  have hwhole := h
  unfold routePresence at h
  obtain ⟨r, hr, h⟩ := Option.bind_eq_some_iff.mp h
  cases presenceSender_case hr with
  | ignored =>
    cases h
    exact ToOccupants.nil.split
  | bounced error sent hb =>
    cases h
    exact (bounce_answered hb).split
  | turnedAway error sent hjid hb =>
    cases h
    exact (bounce_answered hb).split
  | present addr sender hs =>
    obtain ⟨⟨room₂, announced⟩, ha, h⟩ := Option.bind_eq_some_iff.mp h
    cases h
    obtain ⟨inner, -, hc⟩ := presenceAnnounce_case (findByJid_mem hs) ha
    exact (toOccupants_announce (findByJid_mem hs) hc).split
  | renamed addr sender hs htype hres hnick =>
    obtain ⟨⟨room₂, announced⟩, ha, h⟩ := Option.bind_eq_some_iff.mp h
    cases h
    have hm := @mem_occupants_renamed _ _ _ (some (bptBytes stanza.ingress.proxyTo.resource))
      (findByJid_mem hs)
    obtain ⟨inner, -, hc⟩ := presenceAnnounce_case hm ha
    have hold : NobodyNew room
        (renamed room addr (some (bptBytes stanza.ingress.proxyTo.resource))) :=
      nobodyNew_modify fun _ => rfl
    exact ((toOccupants_broadcastAt _ _ _).append
      ((toOccupants_announce hm hc).before hold)).split
  | joined mucNode affiliation hjid htype hres hnick hadmission =>
    obtain ⟨⟨room₂, announced⟩, ha, h⟩ := Option.bind_eq_some_iff.mp h
    cases h
    obtain ⟨inner, -, hc⟩ := presenceAnnounce_case mem_occupants_roomJoin ha
    have hto := (toOccupants_roster mem_occupants_roomJoin).append
      (toOccupants_announce mem_occupants_roomJoin hc)
    refine ⟨[], _, rfl, .inl rfl, fun packet hp => ?_⟩
    obtain ⟨addr, q, hq, haddr⟩ := hto packet hp
    rcases NodeList.mem_cons.mp hq with ⟨-, rfl⟩ | hq
    · -- the newcomer itself, which was not in the room before
      exact .inr ⟨_, enters_of_go hname hjid htype hres hnick hr rfl, haddr⟩
    · exact .inl ⟨addr, q, hq, haddr⟩

/-! ## Messages and errors -/

theorem nobodyNew_talk (addr : Nat) (ticks : Int) :
    NobodyNew room (room.modify addr fun p => { p with lastMessageTime := ticks }) :=
  nobodyNew_modify fun _ => rfl

theorem routePublicMessage_split {addr : Nat} {sender : Participant} {limit ticks : Int}
    (h : routePublicMessage room stanza.ingress addr sender limit ticks = some (room', sent)) :
    SplitSent room stanza sent := by
  unfold routePublicMessage at h
  split at h
  · exact (bounce_answered h).split
  · split at h
    · exact (bounce_answered h).split
    · obtain ⟨subject, -, h⟩ := Option.bind_eq_some_iff.mp h
      cases subject with
      | none => exact ((toOccupants_publish h).before (nobodyNew_talk addr ticks)).split
      | some newSubject =>
        dsimp only at h
        split at h
        · exact (bounce_answered h).split
        · split at h
          · exact (bounce_answered h).split
          · obtain ⟨node, -, h⟩ := Option.bind_eq_some_iff.mp h
            have hto := (toOccupants_publish h).before (nobodyNew_of_occupants rfl)
            exact (hto.before (nobodyNew_talk addr ticks)).split

theorem routePrivateMessage_split {sender : Participant}
    (h : routePrivateMessage room stanza.ingress sender = some (room', sent)) :
    SplitSent room stanza sent := by
  unfold routePrivateMessage at h
  split at h
  · exact (bounce_answered h).split
  · next addr receiver hreceiver =>
    split at h
    · exact (bounce_answered h).split
    · split at h
      · exact (bounce_answered h).split
      · obtain ⟨inner, -, h⟩ := Option.bind_eq_some_iff.mp h
        cases h
        refine ToOccupants.split fun packet hp => ?_
        rw [List.mem_singleton.mp hp]
        exact ⟨addr, receiver, (findByNick_spec hreceiver).1, .inl rfl⟩

theorem routeError_split (h : routeError room ingress = (room', sent)) :
    SplitSent room stanza sent := by
  unfold routeError at h
  split at h
  · cases h
    exact ToOccupants.nil.split
  · cases h
    exact ((toOccupants_broadcast _ _ _).before (@nobodyNew_modify _ _ errorKicked fun _ => rfl)).split

/-! ## Queries -/

theorem nobodyNew_announceOne {addr : Nat} {p : Participant} (hm : (addr, p) ∈ room.occupants) :
    NobodyNew room (announceOne room addr p).1 := by
  have hc := @announceOne_changed (fun _ => False) _ _ p (mem_addrs_of_occupant hm)
  exact nobodyNew_of_changed (fun _ hf => hf.elim) hc.changed

theorem announceAffected_toOccupants : ∀ {affected : List Nat} {room : Room},
    ToOccupants room (announceAffected room affected).2
  | [], _ => .nil
  | addr :: rest, room => by
    unfold announceAffected
    split
    · exact announceAffected_toOccupants
    · next p hp =>
      have hm := NodeList.get?_eq_some_iff.mp hp
      have hone : ToOccupants room (announceOne room addr p).2 :=
        (toOccupants_broadcast _ _ _).before
          (nobodyNew_modify fun q => (samePlace_announced room q).jid)
      exact hone.append (announceAffected_toOccupants.before (nobodyNew_announceOne hm))

theorem answer_nobodyNew {answer : IqAnswer} (h : AnswerCase room ingress acl answer)
    (hres : ingress.proxyTo.resource = none) : NobodyNew room answer.room := by
  have hc := @answerCase_changed (fun i => i = ingress) _ _ _ _ rfl h
  exact nobodyNew_of_changed (fun i hi => by rw [hi, hres]) hc.changed

theorem proxyIq_split (h : proxyIq room stanza.ingress = some (room', sent)) :
    SplitSent room stanza sent := by
  unfold proxyIq at h
  split at h
  · exact (bounce_answered h).split
  · split at h
    · exact (bounce_answered h).split
    · split at h
      · exact (bounce_answered h).split
      · next addr receiver hreceiver =>
        obtain ⟨inner, -, h⟩ := Option.bind_eq_some_iff.mp h
        obtain ⟨vcard, -, h⟩ := Option.bind_eq_some_iff.mp h
        cases h
        refine ToOccupants.split fun packet hp => ?_
        rw [List.mem_singleton.mp hp]
        refine ⟨addr, receiver, (findByNick_spec hreceiver).1, ?_⟩
        cases vcard
        · exact .inl rfl
        · exact .inr rfl

theorem routeIq_split (hname : stanza.ingress.name = .iq)
    (h : routeIq room stanza.ingress acl = some (room', sent)) : SplitSent room stanza sent := by
  unfold routeIq at h
  split at h
  · exact proxyIq_split h
  · next hres =>
    have hnone : stanza.ingress.proxyTo.resource = none := by simpa using hres
    obtain ⟨answer, ha, h⟩ := Option.bind_eq_some_iff.mp h
    have hcase := answerIq_case hname (by simpa using hres) ha
    cases answer with
    | refused room₁ error => exact (bounce_answered h).split
    | answered st iqType sysData =>
      dsimp only at h
      split at h
      · exact (bounce_answered h).split
      · cases h
        refine ⟨[_], _, rfl, .inr ⟨_, rfl, .inr ⟨hname, rfl, rfl, rfl⟩⟩, fun packet hp => .inl ?_⟩
        exact announceAffected_toOccupants.before (answer_nobodyNew hcase hnone) packet hp

/--
**Nothing leaves the room but to its occupants.** Whatever the state of the room and whatever the
stanza, at most one packet is an answer; every other one is addressed to somebody who is in the
room, or who enters it with this stanza.
-/
theorem packets_confined (h : roomStep room stanza = some (room', sent)) :
    ∃ answers others, sent = answers ++ others ∧ OnlyAnswered stanza.ingress answers ∧
      ∀ packet ∈ others, Confined room stanza packet := by
  unfold roomStep roomRoute at h
  split at h
  · exact routeError_split (Option.some.inj h)
  · split at h
    · unfold routeMessage at h
      split at h
      · exact (bounce_answered h).split
      · split at h
        · exact routePublicMessage_split h
        · exact routePrivateMessage_split h
    · next hname => exact routePresence_split hname h
    · next hname => exact routeIq_split hname h
    · cases h
      exact ToOccupants.nil.split

/-- Somebody else comes to a room that has just been opened. -/
def arrival : List Stanza :=
  stanzasOfTexts openAcl 0 0 ["<presence from='bob@h/pc' to='room@conf/bob'/>"]

set_option maxRecDepth 100000 in
theorem packets_confined_arrival : ∃ room stanza room' sent, stanza ∈ arrival ∧
    roomStep room stanza = some (room', sent) ∧ sent.length = 3 ∧
      ∃ answers others, sent = answers ++ others ∧ OnlyAnswered stanza.ingress answers ∧
        ∀ packet ∈ others, Confined room stanza packet := by
  have hany : (Machine.run roomStep (roomInit (lit "room")) openingRun).any (fun room =>
      arrival.any (fun stanza =>
        (roomStep room stanza).any (fun r => r.2.length == 3))) = true := by decide +kernel
  obtain ⟨room, -, hroom⟩ := (Option.any_eq_true _ _).mp hany
  obtain ⟨stanza, hm, hstep⟩ := List.any_eq_true.mp hroom
  obtain ⟨⟨room', sent⟩, hs, hsent⟩ := (Option.any_eq_true _ _).mp hstep
  exact ⟨room, stanza, room', sent, hm, hs, beq_iff_eq.mp hsent, packets_confined hs⟩

end Mukite
