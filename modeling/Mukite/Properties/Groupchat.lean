import Mukite.Room.Route

/-!
# Groupchat is public

`route_message` copies the type of the stanza and chooses between everybody and one occupant by
the resource of its address. `packet_parse` drops a message without a resource whose type is not
`groupchat`, but lets one with a resource and that type through.

* **`groupchat_public_iff`**: a groupchat packet has passed the checks of the public chat and goes
  to everybody if and only if no such message is let through as a private one.
* `private_groupchat_sent`: a groupchat message for one of two occupants.
-/

namespace Mukite

variable {room room' : Room} {ingress : IncomingPacket} {decisecondsLimit ticks : Int}
  {sent : List BuilderPacket} {sender receiver : Participant}

/-- A packet of type groupchat from the nick of an occupant. -/
structure IsGroupchat (room : Room) (packet : BuilderPacket) : Prop where
  name : packet.name = .message
  type : packet.type = stanzaMessageGroupchat
  nick : ∃ occupant ∈ room.occupants, packet.fromNick = occupant.2.nick

/-- What a message must pass to appear in the public chat. -/
structure PublicChecks (room : Room) (ingress : IncomingPacket) (decisecondsLimit ticks : Int)
    (sender : Participant) : Prop where
  speaks : room.hasFlag mucFlagModeratedroom = true → roleParticipant ≤ sender.role
  interval : decisecondsLimit ≤ ticks - sender.lastMessageTime
  subject : ∀ newSubject, getSubjectNode ingress = some (some newSubject) →
    roleModerator ≤ sender.role ∨ room.hasFlag mucFlagChangesubject = true

/-- Groupchat packets have passed the checks, and each goes to every occupant. -/
def GroupchatPublic (room : Room) (ingress : IncomingPacket) (decisecondsLimit ticks : Int)
    (sent : List BuilderPacket) : Prop :=
  ∀ packet ∈ sent, IsGroupchat room packet →
    (∃ addr sender, participantsFindByJid room.participants ingress.realFrom = some (addr, sender) ∧
      PublicChecks room ingress decisecondsLimit ticks sender) ∧
    ∀ occupant ∈ room.occupants, { packet with toJid := occupant.2.jid } ∈ sent

/-- A message that the private branch sends. -/
structure PrivatelySent (room : Room) (ingress : IncomingPacket) (sender receiver : Participant) :
    Prop where
  resource : ingress.proxyTo.resource.isNone = false
  isSender : ∃ addr, participantsFindByJid room.participants ingress.realFrom = some (addr, sender)
  isReceiver : ∃ addr, participantsFindByNick room.participants ingress.proxyTo.resource
    = some (addr, receiver)
  visitor : sender.role = roleVisitor → room.hasFlag mucFlagVisitorspm = true
  allowed : room.hasFlag mucFlagAllowpm = true

/--
A groupchat message is let through as a private one, and that makes a difference: it has not
passed the checks of the public chat, or there is somebody else in the room.
-/
def Misdirected (room : Room) (ingress : IncomingPacket) (decisecondsLimit ticks : Int) : Prop :=
  ingress.type = stanzaMessageGroupchat ∧
    ∃ sender receiver, PrivatelySent room ingress sender receiver ∧
      ¬ (PublicChecks room ingress decisecondsLimit ticks sender ∧
        ∀ occupant ∈ room.occupants, occupant.2.jid = receiver.jid)

/-! ## What is not groupchat -/

/-- A bounce is not groupchat. -/
theorem bounce_public {room₀ : Room} {error : XMPPError}
    (h : bounce room ingress error = some (room', sent)) :
    GroupchatPublic room₀ ingress decisecondsLimit ticks sent := by
  intro packet hp hg
  obtain ⟨packet', hb, he⟩ := Option.map_eq_some_iff.mp h
  cases he
  cases List.mem_singleton.mp hp
  obtain ⟨inner, -, he⟩ := Option.bind_eq_some_iff.mp hb
  cases he
  exact absurd hg.type (show stanzaError ≠ stanzaMessageGroupchat by decide)

/-! ## The public branch -/

/-- What `publish` sends to one occupant it sends to all. -/
theorem publish_everybody {room₁ : Room} (h : publish room₁ ingress sender = some (room', sent))
    (hjids : ∀ occupant ∈ room.occupants, ∃ other ∈ room₁.occupants,
      other.2.jid = occupant.2.jid) :
    ∀ packet ∈ sent, ∀ occupant ∈ room.occupants, { packet with toJid := occupant.2.jid } ∈ sent := by
  obtain ⟨inner, -, h⟩ := Option.bind_eq_some_iff.mp h
  obtain ⟨history, -, h⟩ := Option.bind_eq_some_iff.mp h
  cases h
  intro packet hp occupant ho
  obtain ⟨receiver, -, rfl⟩ := List.mem_map.mp hp
  obtain ⟨other, hother, hjid⟩ := hjids occupant ho
  rw [← hjid]
  exact List.mem_map_of_mem hother

/-- Marking the time of a message leaves the JIDs. -/
theorem jids_modify {addr : Nat} {f : Participant → Participant} (hf : ∀ p, (f p).jid = p.jid) :
    ∀ occupant ∈ room.occupants, ∃ other ∈ (room.modify addr f).occupants,
      other.2.jid = occupant.2.jid := by
  rintro ⟨b, p⟩ ho
  refine ⟨(b, if b = addr then f p else p), Room.mem_occupants_modify.mpr ⟨p, ho, rfl⟩, ?_⟩
  dsimp only
  split
  · exact hf p
  · rfl

/-- **The public branch sends groupchat packets to everybody, after the checks.** -/
theorem routePublicMessage_public {addr : Nat}
    (hsender : participantsFindByJid room.participants ingress.realFrom = some (addr, sender))
    (h : routePublicMessage room ingress addr sender decisecondsLimit ticks = some (room', sent)) :
    GroupchatPublic room ingress decisecondsLimit ticks sent := by
  unfold routePublicMessage at h
  split at h
  · exact bounce_public h
  · next hspeaks =>
    split at h
    · exact bounce_public h
    · next hinterval =>
      have hspeaks : room.hasFlag mucFlagModeratedroom = true → roleParticipant ≤ sender.role := by
        intro hm
        simpa [hm] using hspeaks
      have hjids := @jids_modify room addr (fun p => { p with lastMessageTime := ticks })
        (fun _ => rfl)
      obtain ⟨subject, hsubject, h⟩ := Option.bind_eq_some_iff.mp h
      cases subject with
      | none =>
        intro packet hp _
        refine ⟨⟨addr, sender, hsender, hspeaks, by omega, fun newSubject hs => ?_⟩,
          publish_everybody h hjids packet hp⟩
        rw [hsubject] at hs
        cases hs
      | some newSubject =>
        dsimp only at h
        split at h
        · exact bounce_public h
        · next hright =>
          split at h
          · exact bounce_public h
          · obtain ⟨node, -, h⟩ := Option.bind_eq_some_iff.mp h
            intro packet hp _
            refine ⟨⟨addr, sender, hsender, hspeaks, by omega, fun _ _ => ?_⟩,
              publish_everybody h hjids packet hp⟩
            by_contra hno
            rw [not_or, Bool.not_eq_true] at hno
            apply hright
            rw [Room.hasFlag_modify, hno.2]
            simpa using Int.not_le.mp hno.1

/-! ## The private branch -/

theorem privatelySent_unique {sender' receiver' : Participant}
    (h : PrivatelySent room ingress sender receiver)
    (h' : PrivatelySent room ingress sender' receiver') : sender' = sender ∧ receiver' = receiver := by
  obtain ⟨_, hs⟩ := h.isSender
  obtain ⟨_, hs'⟩ := h'.isSender
  obtain ⟨_, hr⟩ := h.isReceiver
  obtain ⟨_, hr'⟩ := h'.isReceiver
  rw [hs] at hs'
  rw [hr] at hr'
  cases hs'
  cases hr'
  exact ⟨rfl, rfl⟩

/-- The private branch bounces or sends one packet. -/
theorem routePrivateMessage_cases {addr : Nat}
    (hres : ingress.proxyTo.resource.isNone = false)
    (hsender : participantsFindByJid room.participants ingress.realFrom = some (addr, sender))
    (h : routePrivateMessage room ingress sender = some (room', sent)) :
    (∃ error, bounce room ingress error = some (room', sent) ∧
      ∀ receiver, ¬ PrivatelySent room ingress sender receiver) ∨
    ∃ receiver inner, PrivatelySent room ingress sender receiver ∧
      sent = [messagePacket room (packetCleanup ingress (packetCleanupFrom ||| packetCleanupTo))
        inner sender receiver] := by
  unfold routePrivateMessage at h
  split at h
  · next hnone =>
    refine .inl ⟨_, h, fun receiver hp => ?_⟩
    obtain ⟨_, hr⟩ := hp.isReceiver
    rw [hnone] at hr
    cases hr
  · next b receiver hfound =>
    split at h
    · next hvisitor =>
      rw [Bool.and_eq_true, decide_eq_true_eq, Bool.not_eq_true'] at hvisitor
      refine .inl ⟨_, h, fun _ hp => ?_⟩
      rw [hp.visitor hvisitor.1] at hvisitor
      cases hvisitor.2
    · next hvisitor =>
      split at h
      · next hallow =>
        refine .inl ⟨_, h, fun _ hp => ?_⟩
        rw [hp.allowed] at hallow
        cases hallow
      · next hallow =>
        obtain ⟨inner, -, h⟩ := Option.bind_eq_some_iff.mp h
        cases h
        refine .inr ⟨receiver, inner, ⟨hres, ⟨addr, hsender⟩, ⟨b, hfound⟩, fun hv => ?_, ?_⟩, rfl⟩
        · rw [Bool.and_eq_true, decide_eq_true_eq, Bool.not_eq_true'] at hvisitor
          exact Bool.not_eq_false _ ▸ fun hno => hvisitor ⟨hv, hno⟩
        · simpa using hallow

/--
**Groupchat means public**, for every room and every message, if and only if the message is not a
groupchat message that the private branch lets through.
-/
theorem groupchat_public_iff
    (h : routeMessage room ingress decisecondsLimit ticks = some (room', sent)) :
    GroupchatPublic room ingress decisecondsLimit ticks sent ↔
      ¬ Misdirected room ingress decisecondsLimit ticks := by
  unfold routeMessage at h
  split at h
  · next hnone =>
    refine iff_of_true (bounce_public h) ?_
    rintro ⟨-, sender, receiver, hp, -⟩
    obtain ⟨_, hs⟩ := hp.isSender
    rw [hnone] at hs
    cases hs
  · next addr sender hsender =>
    split at h
    · next hres =>
      refine iff_of_true (routePublicMessage_public hsender h) ?_
      rintro ⟨-, sender, receiver, hp, -⟩
      rw [hp.resource] at hres
      cases hres
    · next hres =>
      rcases routePrivateMessage_cases (Bool.not_eq_true _ ▸ hres) hsender h with
        ⟨error, hb, hno⟩ | ⟨receiver, inner, hp, rfl⟩
      · refine iff_of_true (bounce_public hb) ?_
        rintro ⟨-, sender', receiver, hp, -⟩
        obtain ⟨_, hs⟩ := hp.isSender
        rw [hsender] at hs
        cases hs
        exact hno receiver hp
      · obtain ⟨a, hmem⟩ : ∃ a, (a, sender) ∈ room.occupants :=
          ⟨addr, (NodeList.mem_of_find? hsender).1⟩
        constructor
        · rintro hpublic ⟨htype, sender', receiver', hp', hno⟩
          obtain ⟨rfl, rfl⟩ := privatelySent_unique hp hp'
          obtain ⟨⟨_, sender, hs, hchecks⟩, hall⟩ :=
            hpublic _ List.mem_cons_self ⟨rfl, htype, ⟨_, hmem, rfl⟩⟩
          rw [hsender] at hs
          cases hs
          refine hno ⟨hchecks, fun occupant ho => ?_⟩
          exact congrArg BuilderPacket.toJid (List.mem_singleton.mp (hall occupant ho))
        · intro hno packet hpacket hg
          cases List.mem_singleton.mp hpacket
          have hok : PublicChecks room ingress decisecondsLimit ticks sender ∧
              ∀ occupant ∈ room.occupants, occupant.2.jid = receiver.jid := by
            by_contra hc
            exact hno ⟨hg.type, sender, receiver, hp, hc⟩
          refine ⟨⟨addr, sender, hsender, hok.1⟩, fun occupant ho => ?_⟩
          rw [hok.2 occupant ho]
          exact List.mem_cons_self

/-! ## Two occupants -/

/-- Alice and bob have joined. -/
def aliceAndBob : Option Room :=
  Machine.run roomStep (roomInit (lit "room"))
    (stanzasOfTexts openAcl 0 0
      ["<presence from='alice@h/pc' to='room@conf/al'/>",
        "<presence from='bob@h/pc' to='room@conf/bob'/>"])

/-- A groupchat message of alice, the room before it and what is sent. -/
def aliceSays (start : Option Room) (target : String) :
    Option (Room × IncomingPacket × Room × List BuilderPacket) := do
  let room ← start
  let ingress ← received ("<message from='alice@h/pc' to='room@conf" ++ target ++
    "' type='groupchat'><body>hi</body></message>")
  let (room', sent) ← routeMessage room ingress 0 0
  return (room, ingress, room', sent)

theorem aliceSays_spec {start : Option Room} {target : String}
    (h : aliceSays start target = some (room, ingress, room', sent)) :
    start = some room ∧ Accepted ingress ∧
      routeMessage room ingress 0 0 = some (room', sent) := by
  unfold aliceSays at h
  obtain ⟨room₁, hroom, h⟩ := Option.bind_eq_some_iff.mp h
  obtain ⟨ingress₁, hi, h⟩ := Option.bind_eq_some_iff.mp h
  obtain ⟨⟨room₂, sent₂⟩, hr, h⟩ := Option.bind_eq_some_iff.mp h
  cases h
  exact ⟨hroom, accepted_of_received hi, hr⟩

/-- Whether a groupchat packet is missing for some occupant. -/
def missesOccupant (room : Room) (sent : List BuilderPacket) : Bool :=
  sent.any (fun packet =>
    packet.name == .message && packet.type == stanzaMessageGroupchat &&
      room.occupants.any (fun occupant => packet.fromNick == occupant.2.nick)) &&
    room.occupants.any (fun occupant => sent.all (fun packet => packet.toJid != occupant.2.jid))

theorem not_public_of_missesOccupant (h : missesOccupant room sent = true) :
    ¬ GroupchatPublic room ingress decisecondsLimit ticks sent := by
  intro hpublic
  simp only [missesOccupant, Bool.and_eq_true, List.any_eq_true, beq_iff_eq, List.all_eq_true,
    bne_iff_ne] at h
  obtain ⟨⟨packet, hp, ⟨hname, htype⟩, hnick⟩, occupant, ho, hmiss⟩ := h
  have hall := (hpublic packet hp ⟨hname, htype, hnick⟩).2 occupant ho
  exact hmiss _ hall rfl

set_option maxRecDepth 100000 in
/-- A groupchat message for bob goes to bob only. -/
theorem private_groupchat_sent :
    ¬ ∀ room ingress room' sent, aliceAndBob = some room → Accepted ingress →
      routeMessage room ingress 0 0 = some (room', sent) → GroupchatPublic room ingress 0 0 sent := by
  intro h
  have hsent : (aliceSays aliceAndBob "/bob").any (fun r => missesOccupant r.1 r.2.2.2) = true := by
    decide +kernel
  obtain ⟨⟨room, ingress, room', sent⟩, ht, hmiss⟩ := (Option.any_eq_true _ _).mp hsent
  obtain ⟨hroom, hacc, hr⟩ := aliceSays_spec ht
  exact not_public_of_missesOccupant hmiss (h _ _ _ _ hroom hacc hr)

/--
A room of which one message is kept, and one has been. No run from `room_init` leads to a room that
takes a message (the first one unlinks a null entry), one that is read from a file may be like this.
-/
def fullHistory (room : Room) : Room :=
  { room with history := { items := [historyEntryInit], size := 1, maxSize := 1 } }

set_option maxRecDepth 100000 in
/-- The result at a message for everybody: alice and bob get it. -/
theorem groupchat_public_iff_everybody : ∃ room ingress room' sent,
    aliceAndBob.map fullHistory = some room ∧ room.occupants.length = 2 ∧
      routeMessage room ingress 0 0 = some (room', sent) ∧ sent.length = 2 ∧
      (∀ packet ∈ sent, IsGroupchat room packet) ∧ GroupchatPublic room ingress 0 0 sent := by
  have hsent : (aliceSays (aliceAndBob.map fullHistory) "").any (fun r =>
      (r.1.occupants.length == 2) && (r.2.2.2.length == 2) && r.2.1.proxyTo.resource.isNone &&
        r.2.2.2.all (fun packet => packet.name == .message &&
          packet.type == stanzaMessageGroupchat &&
            r.1.occupants.any (fun n => packet.fromNick == n.2.nick))) = true := by
    decide +kernel
  obtain ⟨⟨room, ingress, room', sent⟩, ht, hchecks⟩ := (Option.any_eq_true _ _).mp hsent
  obtain ⟨hroom, -, hr⟩ := aliceSays_spec ht
  simp only [Bool.and_eq_true, beq_iff_eq, List.all_eq_true, List.any_eq_true] at hchecks
  obtain ⟨⟨⟨htwo, hlen⟩, hres⟩, hall⟩ := hchecks
  refine ⟨room, ingress, room', sent, hroom, htwo, hr, hlen, fun packet hm => ?_,
    (groupchat_public_iff hr).mpr ?_⟩
  · obtain ⟨⟨hname, htype⟩, hnick⟩ := hall packet hm
    exact ⟨hname, htype, hnick⟩
  · rintro ⟨-, sender, receiver, hp, -⟩
    rw [hp.resource] at hres
    cases hres

end Mukite
