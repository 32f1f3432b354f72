import Mukite.Room.Presence

/-!
# The cases of a presence

`route_presence` taken apart once: `SenderCase` lists what its first half can lead to,
`AnnounceCase` what its second half does. Everything that is proved about presences is a case
analysis over these.
-/

namespace Mukite

/-! ## Buffers of a cleaned stanza -/

@[simp] theorem type_packetCleanup (ingress : IncomingPacket) (mode : Nat) :
    (packetCleanup ingress mode).type = ingress.type := rfl

/-! ## The first half -/

/-- The lists a newcomer finds, with its own entry when it creates the room. -/
def withCreator (room : Room) (jid : Jid) : Room :=
  { room with affiliations := creatorAffiliations room jid }

@[simp] theorem participants_withCreator (room : Room) (jid : Jid) :
    (withCreator room jid).participants = room.participants := rfl
@[simp] theorem occupants_withCreator (room : Room) (jid : Jid) :
    (withCreator room jid).occupants = room.occupants := rfl
@[simp] theorem hasFlag_withCreator (room : Room) (jid : Jid) (flag : MucFlags) :
    (withCreator room jid).hasFlag flag = room.hasFlag flag := rfl

/-- Every affiliation comes with a role, if the default role is one. -/
theorem role_joiner {room : Room} {jid : Jid} {nick : Buffer} {affiliation : Int}
    (hd : room.defaultRole ≠ roleNone) : (joiner room jid nick affiliation).role ≠ roleNone := by
  show roomRoleForAffiliation room affiliation ≠ roleNone
  unfold roomRoleForAffiliation
  split
  · decide
  · split
    · decide
    · exact hd

/-- The stanza after the clean-up of a presence. -/
def cleanedPresence (ingress : IncomingPacket) : IncomingPacket :=
  packetCleanup ingress (packetCleanupFrom ||| packetCleanupTo)

/-- The room after a nick change. -/
def renamed (room : Room) (addr : Nat) (nick : Buffer) : Room :=
  room.modify addr (fun p => { p with nick := nick })

/-- What the first half of `route_presence` can lead to. -/
inductive SenderCase (room : Room) (ingress : IncomingPacket) (acl : ACLConfig) :
    PresenceSender → Prop
  | ignored : SenderCase room ingress acl (.done room [])
  | bounced (error : XMPPError) (sent : List BuilderPacket)
      (hb : bounce room ingress error = some (room, sent)) :
      SenderCase room ingress acl (.done room sent)
  | turnedAway (error : XMPPError) (sent : List BuilderPacket)
      (hjid : participantsFindByJid room.participants ingress.realFrom = none)
      (hb : bounce (withCreator room ingress.realFrom) ingress error
        = some (withCreator room ingress.realFrom, sent)) :
      SenderCase room ingress acl (.done (withCreator room ingress.realFrom) sent)
  | present (addr : Nat) (sender : Participant)
      (hs : participantsFindByJid room.participants ingress.realFrom = some (addr, sender)) :
      SenderCase room ingress acl (.go room [] addr (cleanedPresence ingress) false)
  | renamed (addr : Nat) (sender : Participant)
      (hs : participantsFindByJid room.participants ingress.realFrom = some (addr, sender))
      (htype : ingress.type ≠ stanzaPresenceUnavailable)
      (hres : ingress.proxyTo.resource.isSome)
      (hnick : participantsFindByNick room.participants ingress.proxyTo.resource = none) :
      SenderCase room ingress acl
        (.go (renamed room addr (some (bptBytes ingress.proxyTo.resource)))
          (broadcastAt room addr (some (bptBytes ingress.proxyTo.resource))
            statusNicknameChanged) addr ingress false)
  | joined (mucNode : MucNode) (affiliation : Int)
      (hjid : participantsFindByJid room.participants ingress.realFrom = none)
      (htype : ingress.type ≠ stanzaPresenceUnavailable)
      (hres : ingress.proxyTo.resource.isSome)
      (hnick : participantsFindByNick room.participants ingress.proxyTo.resource = none)
      (hadmission : admission (withCreator room ingress.realFrom) ingress mucNode acl
        = .ok affiliation) :
      SenderCase room ingress acl
        (.go (roomJoin (withCreator room ingress.realFrom) ingress.realFrom
            ingress.proxyTo.resource affiliation).1
          (roomPresencesSend (roomJoin (withCreator room ingress.realFrom) ingress.realFrom
              ingress.proxyTo.resource affiliation).1
            (room.participants.nodes.fresh, joiner (withCreator room ingress.realFrom)
              ingress.realFrom ingress.proxyTo.resource affiliation))
          room.participants.nodes.fresh (cleanedPresence ingress) true)

section Sender

variable {room : Room} {ingress : IncomingPacket} {acl : ACLConfig} {r : PresenceSender}

theorem presenceBounce_case {error : XMPPError}
    (h : PresenceSender.bounce room ingress error = some r) :
    ∃ sent, bounce room ingress error = some (room, sent) ∧ r = .done room sent := by
  obtain ⟨⟨room', sent⟩, hb, rfl⟩ := Option.map_eq_some_iff.mp h
  obtain rfl := bounce_room hb
  exact ⟨sent, hb, rfl⟩

theorem occupantPresence_case {addr : Nat} {sender : Participant}
    (hs : participantsFindByJid room.participants ingress.realFrom = some (addr, sender))
    (h : occupantPresence room ingress addr sender = some r) : SenderCase room ingress acl r := by
  unfold occupantPresence at h
  simp only at h
  split at h
  · next hrename =>
    cases hn : participantsFindByNick room.participants ingress.proxyTo.resource with
    | some other =>
      simp only [hn] at h
      split at h
      · cases h
        exact .present addr sender hs
      · obtain ⟨sent, hb, rfl⟩ := presenceBounce_case h
        exact .bounced _ sent hb
    | none =>
      simp only [hn] at h
      split at h
      · cases h
        exact .ignored
      · cases h
        exact .renamed addr sender hs hrename.1 hrename.2 hn
  · cases h
    exact .present addr sender hs

theorem newcomerPresence_case {mucNode : MucNode}
    (hjid : participantsFindByJid room.participants ingress.realFrom = none)
    (h : newcomerPresence room ingress mucNode acl = some r) : SenderCase room ingress acl r := by
  unfold newcomerPresence at h
  split at h
  · cases h
    exact .ignored
  · next htype =>
    split at h
    · obtain ⟨sent, hb, rfl⟩ := presenceBounce_case h
      exact .bounced _ sent hb
    · next hres =>
      split at h
      · obtain ⟨sent, hb, rfl⟩ := presenceBounce_case h
        exact .bounced _ sent hb
      · next hnick =>
        simp only at h
        cases ha : admission (withCreator room ingress.realFrom) ingress mucNode acl with
        | error error =>
          simp only [withCreator] at ha
          simp only [ha] at h
          obtain ⟨sent, hb, rfl⟩ := presenceBounce_case h
          exact .turnedAway _ sent hjid hb
        | ok affiliation =>
          have ha' := ha
          simp only [withCreator] at ha'
          simp only [ha'] at h
          cases h
          exact .joined mucNode affiliation hjid htype
            (Option.isSome_iff_ne_none.mpr (by simpa using hres)) (by simpa using hnick) ha

/-- **The first half leads to one of the cases.** -/
theorem presenceSender_case (h : presenceSender room ingress acl = some r) :
    SenderCase room ingress acl r := by
  unfold presenceSender at h
  obtain ⟨mucNode, -, h⟩ := Option.bind_eq_some_iff.mp h
  cases hs : participantsFindByJid room.participants ingress.realFrom with
  | some n =>
    simp only [hs] at h
    exact occupantPresence_case hs h
  | none =>
    simp only [hs] at h
    exact newcomerPresence_case hs h

end Sender

/-! ## The second half -/

/-- A participant with the presence it sends, unless it may not update it. -/
def refreshed (room : Room) (inner : Buffer) (p : Participant) : Participant :=
  if p.role > roleVisitor || room.hasFlag mucFlagVisitorpresence then { p with presence := inner }
  else p

/-- A participant as it is announced when it leaves. -/
def departed (room : Room) (inner : Buffer) (p : Participant) : Participant :=
  { refreshed room inner p with role := roleNone }

/-- A participant with the presence that is kept. -/
def cached (p : Participant) : Participant := { p with presence := cachedPresence p.presence }

/-- What the second half of `route_presence` does about the participant `p` at `addr`. -/
inductive AnnounceCase (room : Room) (addr : Nat) (p : Participant) (type : Nat) (inner : Buffer)
    (justJoined : Bool) : Room → List BuilderPacket → Prop
  | left (htype : type = stanzaPresenceUnavailable) :
      AnnounceCase room addr p type inner justJoined
        ((roomLeave (room.modify addr (departed room inner)) addr).setFlag mucFlagJustCreated
          false)
        (roomBroadcastPresence (room.modify addr (departed room inner))
          (addr, departed room inner p) none 0)
  | stayed (htype : type ≠ stanzaPresenceUnavailable) :
      AnnounceCase room addr p type inner justJoined
        (((room.modify addr (refreshed room inner)).modify addr cached).setFlag
          mucFlagJustCreated false)
        (roomBroadcastPresence (room.modify addr (refreshed room inner))
            (addr, refreshed room inner p) none 0 ++
          if justJoined then
            roomSubjectSend (room.modify addr (refreshed room inner)) (refreshed room inner p)
          else [])

theorem get?_modify_self {room : Room} {addr : Nat} {p : Participant}
    {f : Participant → Participant} (hp : (addr, p) ∈ room.occupants) :
    (room.modify addr f).participants.nodes.get? addr = some (f p) := by
  rw [NodeList.get?_eq_some_iff]
  exact Room.mem_occupants_modify.mpr ⟨p, hp, by simp⟩

/-- **The second half does one of the two things.** -/
theorem presenceAnnounce_case {room room' : Room} {addr : Nat} {p : Participant}
    {ingress : IncomingPacket} {justJoined : Bool} {sent : List BuilderPacket}
    (hp : (addr, p) ∈ room.occupants)
    (h : presenceAnnounce room addr ingress justJoined = some (room', sent)) :
    ∃ inner, ingress.innerBytes = some inner ∧
      AnnounceCase room addr p ingress.type inner justJoined room' sent := by
  unfold presenceAnnounce at h
  obtain ⟨inner, hi, h⟩ := Option.bind_eq_some_iff.mp h
  refine ⟨inner, hi, ?_⟩
  by_cases ht : ingress.type = stanzaPresenceUnavailable
  · simp only [ht, if_true] at h
    rw [show (fun p : Participant => ({ (if (decide (p.role > roleVisitor) ||
        room.hasFlag mucFlagVisitorpresence) = true then { p with presence := inner } else p) with
        role := roleNone } : Participant)) = departed room inner from rfl] at h
    simp only [broadcastAt, get?_modify_self hp, Option.pure_def, Option.some.injEq,
      Prod.mk.injEq] at h
    obtain ⟨rfl, rfl⟩ := h
    exact .left ht
  · simp only [ht, if_false] at h
    rw [show (fun p : Participant => (if (decide (p.role > roleVisitor) ||
        room.hasFlag mucFlagVisitorpresence) = true then { p with presence := inner } else p))
        = refreshed room inner from rfl] at h
    simp only [broadcastAt, get?_modify_self hp, Option.pure_def, Option.some.injEq,
      Prod.mk.injEq] at h
    obtain ⟨rfl, rfl⟩ := h
    exact .stayed ht

end Mukite
