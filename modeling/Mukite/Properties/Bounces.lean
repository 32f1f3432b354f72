import Mukite.Properties.Relays
import Mukite.Rooms

/-!
# Which packets are bounces

Whatever the table of rooms sends with the type `error` comes from `worker_bounce`, and the node
that it is given is known from the state before the stanza (`roomsProcess_bounced`). A room hands
over its own node, whatever it has done before it refuses the stanza: no change of a room touches
the node (`Change.node`).
-/

namespace Mukite

variable {room room' : Room} {ingress : IncomingPacket} {acl : ACLConfig}
  {sent : List BuilderPacket} {packet : BuilderPacket}

/-! ## The node of a room -/

/-- **A small change leaves the node.** -/
theorem Change.node {ok : IncomingPacket → Prop} (h : Change ok room room') :
    room'.node = room.node := by
  cases h with
  | adjust => rfl
  | adjustAll => rfl
  | subject => rfl
  | store => rfl
  | creator => rfl
  | join => rfl
  | rename => rfl
  | leave addr hm =>
    unfold roomLeave
    dsimp only
    split <;> rfl
  | opened => rfl
  | option room' ho => cases ho <;> rfl
  | affiliate => rfl
  | evict => rfl

theorem node_of_changed {ok : IncomingPacket → Prop} (h : Changed ok room room') :
    room'.node = room.node :=
  keeps_of_changed (I := fun r => r.node = room.node) (fun _ _ hr hc => hc.node.trans hr) h rfl

/-! ## What a room sends with the type `error` -/

theorem broadcast_not_error {sender : Nat × Participant} {newNick : Buffer} {codes : Nat}
    (hp : packet ∈ roomBroadcastPresence room sender newNick codes) :
    packet.type ≠ stanzaError := by
  obtain ⟨receiver, -, rfl⟩ := List.mem_map.mp hp
  unfold presencePacket
  dsimp only
  split <;> decide

theorem roster_not_error {receiver : Nat × Participant}
    (hp : packet ∈ roomPresencesSend room receiver) : packet.type ≠ stanzaError := by
  obtain ⟨sender, -, rfl⟩ := List.mem_map.mp hp
  have hne : (0 : Nat) ≠ stanzaError := by decide
  exact hne

theorem subject_not_error {receiver : Participant} (hp : packet ∈ roomSubjectSend room receiver) :
    packet.type ≠ stanzaError := by
  unfold roomSubjectSend at hp
  split at hp
  · cases hp
  · rw [List.mem_singleton.mp hp]
    have hne : stanzaMessageGroupchat ≠ stanzaError := by decide
    exact hne

theorem announceCase_not_error {addr : Nat} {p : Participant} {type : Nat} {inner : Buffer}
    {justJoined : Bool} (h : AnnounceCase room addr p type inner justJoined room' sent)
    (hp : packet ∈ sent) : packet.type ≠ stanzaError := by
  cases h with
  | left htype => exact broadcast_not_error hp
  | stayed htype =>
    rcases List.mem_append.mp hp with hp | hp
    · exact broadcast_not_error hp
    · split at hp
      · exact subject_not_error hp
      · cases hp

theorem presenceAnnounce_not_error {addr : Nat} {p : Participant} {justJoined : Bool}
    (hm : (addr, p) ∈ room.occupants)
    (h : presenceAnnounce room addr ingress justJoined = some (room', sent)) (hp : packet ∈ sent) :
    packet.type ≠ stanzaError := by
  obtain ⟨inner, -, hann⟩ := presenceAnnounce_case hm h
  exact announceCase_not_error hann hp

theorem routePresence_bounced (h : routePresence room ingress acl = some (room', sent))
    (hp : packet ∈ sent) (herror : packet.type = stanzaError) : BouncedBy room ingress packet := by
  unfold routePresence at h
  obtain ⟨r, hr, h⟩ := Option.bind_eq_some_iff.mp h
  have hcase := presenceSender_case hr
  cases hcase with
  | ignored =>
    cases h
    cases hp
  | bounced error sent' hb =>
    cases h
    exact bounce_sent hb hp rfl
  | turnedAway error sent' hjid hb =>
    cases h
    exact bounce_sent hb hp rfl
  | present addr sender hs =>
    obtain ⟨⟨room₂, announced⟩, ha, h⟩ := Option.bind_eq_some_iff.mp h
    cases h
    exact absurd herror (presenceAnnounce_not_error (findByJid_mem hs) ha hp)
  | renamed addr sender hs htype hres hnick =>
    obtain ⟨⟨room₂, announced⟩, ha, h⟩ := Option.bind_eq_some_iff.mp h
    cases h
    rcases List.mem_append.mp hp with hp | hp
    · unfold broadcastAt at hp
      split at hp
      · cases hp
      · exact absurd herror (broadcast_not_error hp)
    · exact absurd herror (presenceAnnounce_not_error
        (Room.mem_occupants_modify.mpr ⟨sender, findByJid_mem hs, rfl⟩) ha hp)
  | joined mucNode affiliation hjid htype hres hnick hadmission =>
    obtain ⟨⟨room₂, announced⟩, ha, h⟩ := Option.bind_eq_some_iff.mp h
    cases h
    rcases List.mem_append.mp hp with hp | hp
    · exact absurd herror (roster_not_error hp)
    · exact absurd herror (presenceAnnounce_not_error (NodeList.mem_cons.mpr (.inl ⟨rfl, rfl⟩))
        ha hp)

theorem announceOne_not_error {addr : Nat} {p : Participant}
    (hp : packet ∈ (announceOne room addr p).2) : packet.type ≠ stanzaError :=
  broadcast_not_error hp

theorem announceAffected_not_error : ∀ {affected : List Nat} {room : Room},
    packet ∈ (announceAffected room affected).2 → packet.type ≠ stanzaError
  | [], _, hp => by cases hp
  | addr :: rest, room, hp => by
    unfold announceAffected at hp
    split at hp
    · exact announceAffected_not_error hp
    · rcases List.mem_append.mp hp with hp | hp
      · exact announceOne_not_error hp
      · exact announceAffected_not_error hp

theorem proxyIq_bounced (h : proxyIq room ingress = some (room', sent)) (hp : packet ∈ sent)
    (herror : packet.type = stanzaError) : BouncedBy room ingress packet := by
  unfold proxyIq at h
  split at h
  · exact bounce_sent h hp rfl
  · split at h
    · exact bounce_sent h hp rfl
    · split at h
      · exact bounce_sent h hp rfl
      · obtain ⟨inner, -, h⟩ := Option.bind_eq_some_iff.mp h
        obtain ⟨vcard, -, h⟩ := Option.bind_eq_some_iff.mp h
        cases h
        rw [List.mem_singleton.mp hp] at herror
        cases herror

theorem routeIq_bounced (hname : ingress.name = .iq)
    (h : routeIq room ingress acl = some (room', sent)) (hp : packet ∈ sent)
    (herror : packet.type = stanzaError) : BouncedBy room ingress packet := by
  unfold routeIq at h
  split at h
  · exact proxyIq_bounced h hp herror
  · next hres =>
    obtain ⟨answer, ha, h⟩ := Option.bind_eq_some_iff.mp h
    have hchanged : FormThenPlain (fun _ => True) ingress.mem room answer.room :=
      answerCase_changed trivial (answerIq_case hname (by simpa using hres) ha)
    have hnode : answer.room.node = room.node := node_of_changed hchanged.changed
    cases answer with
    | refused room₁ error => exact bounce_sent h hp hnode
    | answered st iqType sysData =>
      dsimp only at h
      split at h
      · exact bounce_sent h hp hnode
      · cases h
        rcases List.mem_cons.mp hp with rfl | hp
        · cases herror
        · exact absurd herror (announceAffected_not_error hp)

/-- **What a room sends with the type `error` is a bounce.** -/
theorem roomStep_bounced {stanza : Stanza} (h : roomStep room stanza = some (room', sent))
    (hp : packet ∈ sent) (herror : packet.type = stanzaError) :
    BouncedBy room stanza.ingress packet := by
  unfold roomStep roomRoute at h
  split at h
  · unfold routeError at h
    split at h
    · cases h
      cases hp
    · cases h
      exact absurd herror (broadcast_not_error hp)
  · next hno =>
    split at h
    · next hname =>
      -- a message that is relayed has its own type
      refine (routeMessage_sent h hp).resolve_right ?_
      rintro ⟨sender, receiver, hr⟩
      obtain ⟨inner, -, rfl⟩ := hr.isMessage
      have htype : stanza.ingress.type = stanzaError := herror
      simp [isErrorStanza, htype, hname] at hno
    · exact routePresence_bounced h hp herror
    · next hname => exact routeIq_bounced hname h hp herror
    · cases h
      cases hp

/-! ## What the table sends with the type `error` -/

/-- The node that `worker_bounce` is given about a stanza. -/
def bounceNode (hash : HashsFind) (rooms : Rooms) (ingress : IncomingPacket) : Buffer :=
  match hash.find rooms.table.items (roomKey ingress) with
  | some i => (rooms.table.items[i]?).bind Room.node
  | none =>
    if ingress.name = .presence ∧ ingress.type ≠ stanzaPresenceUnavailable then
      some (roomKey ingress)
    else none

theorem routeAt_bounced {rooms rooms' : Rooms} {i : Nat} {stanza : Stanza}
    (hroom : rooms.table.items[i]? = some room)
    (h : routeAt rooms i stanza = some (rooms', sent)) (hp : packet ∈ sent)
    (herror : packet.type = stanzaError) : BouncedBy room stanza.ingress packet := by
  unfold routeAt at h
  rw [hroom] at h
  rw [Option.bind_eq_bind, Option.bind_some] at h
  obtain ⟨⟨room₁, sent₁⟩, hstep, h⟩ := Option.bind_eq_some_iff.mp h
  dsimp only at h
  split at h
  · cases h
    exact roomStep_bounced hstep hp herror
  · cases h
    exact roomStep_bounced hstep hp herror

theorem bounceRoomless_bounced {rooms rooms' : Rooms} {error : XMPPError} {node : Buffer}
    (h : bounceRoomless rooms ingress error node = some (rooms', sent)) (hp : packet ∈ sent) :
    workerBounce ingress error node = some packet := by
  obtain ⟨packet', hb, he⟩ := Option.map_eq_some_iff.mp h
  cases he
  rw [List.mem_singleton.mp hp]
  exact hb

/-- **What the table sends with the type `error` is a bounce from the node that is known.** -/
theorem roomsProcess_bounced {hash : HashsFind} {rooms rooms' : Rooms} {stanza : Stanza}
    (h : roomsProcess hash rooms stanza = some (rooms', sent)) (hp : packet ∈ sent)
    (herror : packet.type = stanzaError) : ∃ error,
      workerBounce stanza.ingress error (bounceNode hash rooms stanza.ingress) = some packet := by
  unfold roomsProcess at h
  unfold bounceNode
  dsimp only at h
  cases hfind : hash.find rooms.table.items (roomKey stanza.ingress) with
  | some i =>
    rw [hfind] at h
    obtain ⟨room, hroom, -⟩ := hash.found hfind
    obtain ⟨error, hb⟩ := routeAt_bounced hroom h hp herror
    refine ⟨error, ?_⟩
    dsimp only
    rw [hroom]
    exact hb
  | none =>
    rw [hfind] at h
    dsimp only at h ⊢
    split at h
    · cases h
      cases hp
    · split at h
      · next hother =>
        refine ⟨errorRoomNotFound, ?_⟩
        rw [if_neg]
        · exact bounceRoomless_bounced h hp
        · rintro ⟨hname, htype⟩
          simp [hname, htype] at hother
      · next hpresence =>
        have hknown : stanza.ingress.name = .presence ∧
            stanza.ingress.type ≠ stanzaPresenceUnavailable := by simpa using hpresence
        rw [if_pos hknown]
        split at h
        · -- the room that has just been created
          have hroom : (roomsCreateRoom rooms (roomKey stanza.ingress)).table.items[
              rooms.table.items.length]? = some (roomInit (roomKey stanza.ingress)) :=
            List.getElem?_concat_length
          exact routeAt_bounced hroom h hp herror
        · exact ⟨_, bounceRoomless_bounced h hp⟩

end Mukite
