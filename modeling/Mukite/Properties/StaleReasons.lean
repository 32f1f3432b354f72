import Mukite.Properties.Hidden

/-!
# Reasons that nobody takes back

When `route_iq` announces what a request has done, it takes the reasons back that the items have
given; when it refuses the request after some items, it does not. The occupant that such an item has
named is announced with the reason ever after, and everybody is shown what is read there by then
(`stale_reason_shown`). That may be the stanza that has come into the same block of memory, with the
real JID of its sender in it (`stale_reason_reveals`). Nothing else tells two rooms apart that
differ in one real JID (`hidden_unless_reread`).
-/

namespace Mukite

/-! ## Whom the reason is shown to -/

/-- A presence shows somebody a reason. -/
def ShowsReason (packet : BuilderPacket) (jid : Jid) (reasonNode : Buffer) : Prop :=
  packet.toJid = jid ∧ ∃ presence statusCodes,
    packet.sysData = .presence presence statusCodes none ∧ presence.reasonNode = reasonNode

section Shown

variable {room room' : Room} {addr : Nat} {p : Participant} {ingress : IncomingPacket}
  {stanza : Stanza} {left : Leftover} {sent : List BuilderPacket} {n : Nat × Participant}

/-- Whoever is announced shows its reason to everybody. -/
theorem broadcast_shows {f : Participant → Participant} (hf : Indifferent f) (newNick : Buffer)
    (statusCodes : Nat) (hn : n ∈ room.occupants) :
    ∃ packet ∈ roomBroadcastPresence (room.modify addr f) (addr, f p) newNick statusCodes,
      ShowsReason packet n.2.jid p.affectedList.reasonNode := by
  have hreceiver : (n.1, if n.1 = addr then f n.2 else n.2) ∈ (room.modify addr f).occupants :=
    Room.mem_occupants_modify.mpr ⟨n.2, hn, rfl⟩
  refine ⟨_, List.mem_map_of_mem hreceiver, ?_, _, _, rfl, ?_⟩
  · show (if n.1 = addr then f n.2 else n.2).jid = n.2.jid
    split
    · exact hf.keeps.1
    · rfl
  · show (f p).affectedList.reasonNode = p.affectedList.reasonNode
    rw [hf.keeps.2]

theorem presenceRest_shows {first : List BuilderPacket} {justJoined : Bool}
    (hp : (addr, p) ∈ room.occupants)
    (h : presenceRest (.go room first addr ingress justJoined) = some (room', sent))
    (hn : n ∈ room.occupants) :
    ∃ packet ∈ sent, ShowsReason packet n.2.jid p.affectedList.reasonNode := by
  obtain ⟨⟨room'', rest⟩, hannounce, he⟩ := Option.map_eq_some_iff.mp h
  cases he
  obtain ⟨inner, -, hcase⟩ := presenceAnnounce_case hp hannounce
  cases hcase with
  | left htype =>
    have hshown := @broadcast_shows _ addr p _ _ (indifferent_departed room inner) none 0 hn
    obtain ⟨packet, hm, hshows⟩ := hshown
    exact ⟨packet, List.mem_append_right _ hm, hshows⟩
  | stayed htype =>
    have hshown := @broadcast_shows _ addr p _ _ (indifferent_refreshed room inner) none 0 hn
    obtain ⟨packet, hm, hshows⟩ := hshown
    exact ⟨packet, List.mem_append_right _ (List.mem_append_left _ hm), hshows⟩

theorem occupantPresence_shows (hp : (addr, p) ∈ room.occupants)
    (herror : isErrorStanza ingress = false)
    (hannounces : announces room ingress addr p = true)
    (h : (occupantPresence room ingress addr p).bind presenceRest = some (room', sent))
    (hn : n ∈ room.occupants) :
    ∃ packet ∈ sent, ShowsReason packet n.2.jid p.affectedList.reasonNode := by
  unfold announces at hannounces
  unfold occupantPresence at h
  rw [herror, Bool.false_or, Bool.and_eq_true] at hannounces
  have hannounces := hannounces.2
  split at h
  · next hrename =>
    have htype : (ingress.type == stanzaPresenceUnavailable) = false := beq_false_of_ne hrename.1
    have hres : ingress.proxyTo.resource.isNone = false := by
      rw [← Option.not_isSome, hrename.2]
      rfl
    rw [htype, hres, Bool.false_or, Bool.false_or] at hannounces
    cases hnick : participantsFindByNick room.participants ingress.proxyTo.resource with
    | some other =>
      simp only [hnick, beq_iff_eq] at h hannounces
      rw [if_pos hannounces] at h
      exact presenceRest_shows hp h hn
    | none =>
      simp only [hnick, Bool.not_eq_true'] at h hannounces
      rw [hannounces] at h
      -- the presence with the old nick shows it already
      obtain ⟨⟨room'', rest⟩, -, he⟩ := Option.map_eq_some_iff.mp h
      cases he
      have hget : room.participants.nodes.get? addr = some p := NodeList.get?_eq_some_iff.mpr hp
      let newNick : Buffer := some (bptBytes ingress.proxyTo.resource)
      have hm : presencePacket room (addr, p) newNick statusNicknameChanged n
          ∈ broadcastAt room addr newNick statusNicknameChanged := by
        unfold broadcastAt
        rw [hget]
        exact List.mem_map_of_mem hn
      exact ⟨_, List.mem_append_left _ hm, rfl, _, _, rfl, rfl⟩
  · exact presenceRest_shows hp h hn

theorem announced_shows
    (hfind : participantsFindByJid room.participants stanza.ingress.realFrom = some (addr, p))
    (hannounces : announces room stanza.ingress addr p = true)
    (h : roomStep room stanza = some (room', sent)) (hn : n ∈ room.occupants) :
    ∃ packet ∈ sent, ShowsReason packet n.2.jid p.affectedList.reasonNode := by
  unfold roomStep roomRoute at h
  by_cases herror : isErrorStanza stanza.ingress = true
  · rw [if_pos herror] at h
    unfold routeError at h
    rw [hfind] at h
    cases h
    exact broadcast_shows (fun _ _ _ => rfl) none 0 hn
  · rw [if_neg herror] at h
    have herror : isErrorStanza stanza.ingress = false := Bool.not_eq_true _ ▸ herror
    have hname : stanza.ingress.name = .presence := by
      unfold announces at hannounces
      rw [herror, Bool.false_or, Bool.and_eq_true, beq_iff_eq] at hannounces
      exact hannounces.1
    rw [hname] at h
    simp only at h
    rw [routePresence_eq] at h
    obtain ⟨r, hr, h⟩ := Option.bind_eq_some_iff.mp h
    obtain ⟨mucNode, -, hr⟩ := Option.bind_eq_some_iff.mp hr
    rw [hfind] at hr
    exact occupantPresence_shows (findByJid_mem hfind) herror hannounces
      (Option.bind_eq_some_iff.mpr ⟨r, hr, h⟩) hn

/-- **Whoever is announced with a reason that a refused request has left behind, shows to everybody
what is read there by now.** -/
theorem stale_reason_shown
    (hfind : participantsFindByJid room.participants stanza.ingress.realFrom = some (addr, p))
    (hannounces : announces room stanza.ingress addr p = true)
    (hreason : p.affectedList.reasonNode.isSome)
    (h : roomStepIn room (stanza, left) = some (room', sent)) (hn : n ∈ room.occupants) :
    ∃ packet ∈ sent, ShowsReason packet n.2.jid (some (left addr)) := by
  have hfound : participantsFindByJid (room.reread left).participants stanza.ingress.realFrom
      = some (rereadAt left (addr, p)) := by
    rw [findByJid_reread, hfind]
    rfl
  have hreceiver : rereadAt left n ∈ (room.reread left).occupants := List.mem_map_of_mem hn
  obtain ⟨packet, hm, hshows⟩ := announced_shows hfound (announces_reread.trans hannounces) h
    hreceiver
  obtain ⟨bytes, hbytes⟩ := Option.isSome_iff_exists.mp hreason
  have hread : (rereadAt left (addr, p)).2.affectedList.reasonNode = some (left addr) := by
    show p.affectedList.reasonNode.map _ = _
    rw [hbytes]
    rfl
  exact ⟨packet, hm, hread ▸ hshows⟩

end Shown

/-! ## A request that is refused -/

/-- What stands at a place of a block when another text has been written over its beginning. -/
def rewritten (old new : Bytes) (place size : Nat) : Bytes :=
  ((new ++ old.drop new.length).drop place).take size

/-- A request in three pieces, with the reason of its first item in the middle. The second item
names nobody, for which the request is refused. -/
def calmFront : Bytes :=
  lit ("<iq from='alice@h/pc' to='room@conf' type='set' id='1'><query xmlns='" ++ xmlnsMucAdmin ++
    "'><item nick='ca' role='participant'>")

def calmReason : Bytes := lit "<reason>please calm down</reason>"

def calmBack : Bytes := lit "</item><item nick='nobody' role='none'/></query></iq>"

def calmRequest : Bytes := calmFront ++ (calmReason ++ calmBack)

/-- Whatever the stanza with this text has written over the reason. -/
def leftBy (text : Bytes) : Leftover := fun _ =>
  rewritten calmRequest text calmFront.length calmReason.length

/-- The room of alice and bob, after somebody has entered as `ca` and the request has been
refused. -/
def calmedRoom (sender : String) : Option Room :=
  Machine.run roomStepIn (roomInit (lit "room"))
    ((stanzasOfTexts openAcl 0 0
        (joins ++ ["<presence from='" ++ sender ++ "' to='room@conf/ca'/>"]) ++
      ((packetParse calmRequest).join.map openStanza).toList).map
        (fun stanza => (stanza, fun _ => calmReason)))

/-- A presence with another nick in three pieces, with its sender in the middle. Its id can be any
length. -/
def renameFront (pad : Nat) : Bytes :=
  lit "<presence id='" ++ (List.replicate pad (ch 'x') ++ lit "' from='")

def renameRest : Bytes := lit "' to='room@conf/cassie'/>"

def renameOf (pad : Nat) (sender : String) : Bytes :=
  renameFront pad ++ (lit sender ++ renameRest)

def renameBy (pad : Nat) (sender : String) : Option IncomingPacket :=
  (packetParse (renameOf pad sender)).join

/-- Two rooms that differ at most in their occupants and lists. -/
def sameSettings (room₁ room₂ : Room) : Bool :=
  room₂.node == room₁.node && room₂.title == room₁.title &&
    room₂.description == room₁.description && room₂.password == room₁.password &&
    room₂.flags == room₁.flags && room₂.defaultRole == room₁.defaultRole &&
    room₂.unused == room₁.unused && room₂.participants.size == room₁.participants.size &&
    room₂.participants.maxSize == room₁.participants.maxSize &&
    room₂.history.items == room₁.history.items && room₂.history.size == room₁.history.size &&
    room₂.history.maxSize == room₁.history.maxSize && room₂.subject == room₁.subject

theorem eq_alter {q : Nat} {jid : Jid} {left : Leftover} {room₁ room₂ : Room}
    (hoccupants : room₂.occupants = room₁.occupants.map (altered q jid left))
    (hsettings : sameSettings room₁ room₂ = true) :
    room₂ = alter q jid left room₂.affiliations room₁ := by
  have hnodes : room₂.participants.nodes = room₁.participants.nodes.mapNodes
      (fun addr p => (altered q jid left (addr, p)).2) := NodeList.ext hoccupants
  obtain ⟨node₁, title₁, description₁, password₁, flags₁, role₁, unused₁, ⟨nodes₁, size₁, max₁⟩,
    lists₁, ⟨items₁, count₁, limit₁⟩, subject₁⟩ := room₁
  obtain ⟨node₂, title₂, description₂, password₂, flags₂, role₂, unused₂, ⟨nodes₂, size₂, max₂⟩,
    lists₂, ⟨items₂, count₂, limit₂⟩, subject₂⟩ := room₂
  simp only [sameSettings, Bool.and_eq_true, beq_iff_eq] at hsettings
  obtain ⟨⟨⟨⟨⟨⟨⟨⟨⟨⟨⟨⟨rfl, rfl⟩, rfl⟩, rfl⟩, rfl⟩, rfl⟩, rfl⟩, rfl⟩, rfl⟩, rfl⟩, rfl⟩, rfl⟩, rfl⟩ :=
    hsettings
  obtain rfl : nodes₂ = _ := hnodes
  rfl

/-- What the rooms and the stanzas of carol and dora differ in. -/
def carolAndDora (pad : Nat) (room₁ room₂ : Room) (i₁ i₂ : IncomingPacket) : Bool :=
  room₁.hasFlag mucFlagSemianonymous &&
    (decide (room₂.occupants
        = room₁.occupants.map (altered 3 i₂.realFrom (fun _ => calmReason))) &&
      sameSettings room₁ room₂) &&
    room₁.occupants.all (fun n => if n.1 = 3 then n.2.jid == i₁.realFrom
      else bareKey n.2.jid != bareKey i₁.realFrom && bareKey n.2.jid != bareKey i₂.realFrom) &&
    ((participantsFindByJid room₁.participants i₁.realFrom).any (fun n => n.1 == 3) &&
      (participantsFindByJid room₂.participants i₂.realFrom).any (fun n => n.1 == 3)) &&
    (i₁.fromAttr.map XmlAttr.value == some
        { data := (renameFront pad).length
          stop := (renameFront pad).length + (lit "carol@i/pc").length } &&
      i₂.fromAttr.map XmlAttr.value == some
        { data := (renameFront pad).length
          stop := (renameFront pad).length + (lit "dora@j/lap").length }) &&
    i₁.name == .presence

theorem sentBy_renameBy {pad : Nat} {sender : String} {ingress : IncomingPacket}
    (h : renameBy pad sender = some ingress)
    (hvalue : ingress.fromAttr.map XmlAttr.value = some
      { data := (renameFront pad).length
        stop := (renameFront pad).length + (lit sender).length }) :
    SentBy (renameFront pad) (lit sender) renameRest ingress := by
  obtain ⟨attr, hattr, hv⟩ := Option.map_eq_some_iff.mp hvalue
  exact ⟨Option.join_eq_some_iff.mp h, attr, hattr, hv⟩

theorem carolAndDora_twins {pad : Nat} {room₁ room₂ : Room} {i₁ i₂ : IncomingPacket}
    (h : carolAndDora pad room₁ room₂ i₁ i₂ = true)
    (hi₁ : renameBy pad "carol@i/pc" = some i₁) (hi₂ : renameBy pad "dora@j/lap" = some i₂) :
    room₁.hasFlag mucFlagSemianonymous = true ∧ i₁.name = .presence ∧
      Twins 3 i₁.realFrom i₂.realFrom room₁ (openStanza i₁) room₂ (openStanza i₂) := by
  simp only [carolAndDora, Bool.and_eq_true, beq_iff_eq, decide_eq_true_eq, List.all_eq_true] at h
  obtain ⟨⟨⟨⟨⟨hanon, hoccupants, hsettings⟩, hothers⟩, hfound₁, hfound₂⟩, hv₁, hv₂⟩, hname⟩ := h
  obtain ⟨⟨addr₁, p₁⟩, hfind₁, ha₁⟩ := (Option.any_eq_true _ _).mp hfound₁
  obtain ⟨⟨addr₂, p₂⟩, hfind₂, ha₂⟩ := (Option.any_eq_true _ _).mp hfound₂
  obtain rfl : addr₁ = 3 := beq_iff_eq.mp ha₁
  obtain rfl : addr₂ = 3 := beq_iff_eq.mp ha₂
  refine ⟨hanon, hname, ?_⟩
  exact
    { rooms := ⟨_, _, eq_alter hoccupants hsettings⟩
      others := by
        intro addr p hp hne
        have hdiffers := hothers (addr, p) hp
        rw [if_neg hne] at hdiffers
        simpa using hdiffers
      before := by
        intro p hp
        have hsame := hothers (3, p) hp
        rw [if_pos rfl] at hsame
        exact beq_iff_eq.mp hsame
      senders := .self ⟨_, _, _, _, sentBy_renameBy hi₁ hv₁, sentBy_renameBy hi₂ hv₂⟩ p₁ p₂ hfind₁
        hfind₂
      acl := rfl
      limit := rfl
      ticks := rfl
      level := rfl
      affiliation := fun hnone => by cases hfind₁.symm.trans hnone }

/-- The two rooms with the two stanzas, as far as these come about. -/
def calmedTwins (pad : Nat) (holds : Room → Room → IncomingPacket → IncomingPacket → Bool) : Bool :=
  (calmedRoom "carol@i/pc").any (fun room₁ =>
    (calmedRoom "dora@j/lap").any (fun room₂ =>
      (renameBy pad "carol@i/pc").any (fun i₁ =>
        (renameBy pad "dora@j/lap").any (fun i₂ =>
          carolAndDora pad room₁ room₂ i₁ i₂ && holds room₁ room₂ i₁ i₂))))

theorem calmedTwins_spec {pad : Nat}
    {holds : Room → Room → IncomingPacket → IncomingPacket → Bool}
    (h : calmedTwins pad holds = true) : ∃ room₁ room₂ i₁ i₂,
      calmedRoom "carol@i/pc" = some room₁ ∧ calmedRoom "dora@j/lap" = some room₂ ∧
        renameBy pad "carol@i/pc" = some i₁ ∧ renameBy pad "dora@j/lap" = some i₂ ∧
        carolAndDora pad room₁ room₂ i₁ i₂ = true ∧ holds room₁ room₂ i₁ i₂ = true := by
  obtain ⟨room₁, hroom₁, h⟩ := (Option.any_eq_true _ _).mp h
  obtain ⟨room₂, hroom₂, h⟩ := (Option.any_eq_true _ _).mp h
  obtain ⟨i₁, hi₁, h⟩ := (Option.any_eq_true _ _).mp h
  obtain ⟨i₂, hi₂, h⟩ := (Option.any_eq_true _ _).mp h
  rw [Bool.and_eq_true] at h
  exact ⟨room₁, room₂, i₁, i₂, hroom₁, hroom₂, hi₁, hi₂, h.1, h.2⟩

/-- What a room makes of the presence, if that has taken the place of the request. -/
def afterRename (room : Room) (pad : Nat) (sender : String) (ingress : IncomingPacket) :
    Option (Room × List BuilderPacket) :=
  roomStepIn room (openStanza ingress, leftBy (renameOf pad sender))

/-- Neither of two short presences reaches to the reason. -/
def reasonKept (room₁ room₂ : Room) (i₁ i₂ : IncomingPacket) : Bool :=
  room₁.occupants.any (fun n => n.1 == 3 && n.2.affectedList.reasonNode == some calmReason) &&
    rewritten calmRequest (renameOf 1 "carol@i/pc") calmFront.length calmReason.length ==
      rewritten calmRequest (renameOf 1 "dora@j/lap") calmFront.length calmReason.length &&
    (afterRename room₁ 1 "carol@i/pc" i₁).any (fun r => r.2.length == 6) &&
    (afterRename room₂ 1 "dora@j/lap" i₂).isSome

/-! ## Where reasons read the same -/

/--
**Real JIDs stay hidden where reasons read the same.** A semi-anonymous room in which anything has
happened, and another one that differs in the real JID of `q` only, send packets to the same
occupants for stanzas that differ at most in that JID; and to whoever is neither `q` nor a moderator
they send the same, but for blanks in the header, unless the sender still has a reason from a
refused request and this is read as something else.
-/
theorem hidden_unless_reread {start room₁ room₂ room₁' room₂' : Room} {q : Nat} {jid₁ jid₂ : Jid}
    {stanza₁ stanza₂ : Stanza} {left₁ left₂ : Leftover} {sent₁ sent₂ : List BuilderPacket}
    (hstart : start.occupants = [])
    (hreach : Machine.Reach roomStepIn (fun _ _ => True) start room₁)
    (hanon : room₁.hasFlag mucFlagSemianonymous = true)
    (htwins : Twins q jid₁ jid₂ room₁ stanza₁ room₂ stanza₂)
    (hreason : SameReason q room₁ stanza₁.ingress left₁ left₂)
    (hget : stanza₁.ingress.name = .iq → stanza₁.ingress.type = stanzaIqGet)
    (h₁ : roomStepIn room₁ (stanza₁, left₁) = some (room₁', sent₁))
    (h₂ : roomStepIn room₂ (stanza₂, left₂) = some (room₂', sent₂)) :
    List.Forall₂ (Unrevealing q room₁ room₁' stanza₁.ingress room₂ room₂' stanza₂.ingress) sent₁
      sent₂ :=
  htwins.unrevealing (admins_moderate hstart hreach) hanon hreason hget h₁ h₂

set_option maxRecDepth 100000 in
/-- The result where the reason still stands where it stood. -/
theorem hidden_unless_reread_calm : ∃ room₁ room₂ room₁' room₂' i₁ i₂ sent₁ sent₂,
    calmedRoom "carol@i/pc" = some room₁ ∧ calmedRoom "dora@j/lap" = some room₂ ∧
      renameBy 1 "carol@i/pc" = some i₁ ∧ renameBy 1 "dora@j/lap" = some i₂ ∧
      (∃ p, (3, p) ∈ room₁.occupants ∧ p.affectedList.reasonNode = some calmReason) ∧
      afterRename room₁ 1 "carol@i/pc" i₁ = some (room₁', sent₁) ∧ sent₁.length = 6 ∧
      List.Forall₂ (Unrevealing 3 room₁ room₁' i₁ room₂ room₂' i₂) sent₁ sent₂ := by
  have htwins : calmedTwins 1 reasonKept = true := by decide +kernel
  obtain ⟨room₁, room₂, i₁, i₂, hroom₁, hroom₂, hi₁, hi₂, htwins, hkept⟩ := calmedTwins_spec htwins
  obtain ⟨hanon, hname, htwins⟩ := carolAndDora_twins htwins hi₁ hi₂
  simp only [reasonKept, Bool.and_eq_true, List.any_eq_true, beq_iff_eq] at hkept
  obtain ⟨⟨⟨⟨⟨addr, p⟩, hp, rfl, hstale⟩, hsame⟩, hstep₁⟩, hstep₂⟩ := hkept
  obtain ⟨⟨room₁', sent₁⟩, h₁, hlength⟩ := (Option.any_eq_true _ _).mp hstep₁
  obtain ⟨⟨room₂', sent₂⟩, h₂⟩ := Option.isSome_iff_exists.mp hstep₂
  refine ⟨room₁, room₂, room₁', room₂', i₁, i₂, sent₁, sent₂, hroom₁, hroom₂, hi₁, hi₂,
    ⟨p, hp, hstale⟩, h₁, beq_iff_eq.mp hlength, ?_⟩
  exact hidden_unless_reread rfl (.run .start (fun _ _ _ => trivial) hroom₁) hanon htwins
    (fun _ _ _ _ _ _ => hsame) (fun hiq => by cases hname.symm.trans hiq) h₁ h₂

/-! ## Where they do not -/

section Told

variable {q addr : Nat} {room room' room₁ room₂ room₁' room₂' : Room} {i₁ i₂ : IncomingPacket}
  {a b : BuilderPacket} {who : Option Nat}

/-- A packet with a resource in its address is for the only one who has it. -/
theorem isFor_only (h : IsFor room room' i₁ a who) (hresource : a.toJid.resource.isSome)
    (honly : ∀ n ∈ room.occupants ++ room'.occupants, n.2.jid = a.toJid → n.1 = addr) :
    who = some addr := by
  cases h with
  | occupant addr' jid role hhere hto =>
    have hjid : a.toJid = jid := by
      rcases hto with hto | hto
      · exact hto
      · rw [hto] at hresource
        cases hresource
    have hmem : ∃ p, (addr', p) ∈ room.occupants ++ room'.occupants ∧ p.jid = jid := by
      rcases hhere with ⟨p, hp, hj, -⟩ | ⟨p, hp, hj, -⟩
      · exact ⟨p, List.mem_append_left _ hp, hj⟩
      · exact ⟨p, List.mem_append_right _ hp, hj⟩
    obtain ⟨p, hp, hj⟩ := hmem
    exact congrArg some (honly (addr', p) hp (hj.trans hjid.symm))
  | answer hto =>
    rw [hto] at hresource
    cases hresource

/-- Two packets without a header are the same only if they are built alike. -/
theorem SamePacket.built (h : SamePacket a b) (hheader : a.header = none) (fromHost : Bytes) :
    builderBuild fromHost a = builderBuild fromHost b := by
  cases h with
  | text hname htext =>
    have hbuilt : builderBuild fromHost a = builderBuild fromHost { b with name := a.name } :=
      htext fromHost a.name
    rw [hname] at hbuilt
    exact hbuilt
  | header front back m n ha hb hrest => cases hheader.symm.trans ha

/-- A packet to somebody who is neither `q` nor a moderator tells two rooms apart, if what is built
of it differs. -/
theorem not_unrevealing (hheader : a.header = none) (hresource : a.toJid.resource.isSome)
    (honly : ∀ n ∈ room₁.occupants ++ room₁'.occupants, n.2.jid = a.toJid → n.1 = addr)
    (hne : addr ≠ q) (hplain : ∀ n ∈ room₁'.occupants, n.1 = addr → n.2.role ≠ roleModerator)
    {fromHost : Bytes} (hbuilt : builderBuild fromHost a ≠ builderBuild fromHost b) :
    ¬ Unrevealing q room₁ room₁' i₁ room₂ room₂' i₂ a b := by
  rintro ⟨who, hfor, -, hsame⟩
  refine hbuilt ((hsame addr (isFor_only hfor hresource honly) hne ?_).built hheader fromHost)
  rintro jid ⟨p, hp, -, hrole⟩
  exact hplain (addr, p) hp rfl hrole

end Told

/-- The second packet is for bob, and what is built of it differs. -/
def bobToldApart (room₁ room₂ : Room) (i₁ i₂ : IncomingPacket) : Bool :=
  (afterRename room₁ 120 "carol@i/pc" i₁).any (fun r₁ =>
    (afterRename room₂ 120 "dora@j/lap" i₂).any (fun r₂ =>
      r₁.2[1]?.any (fun a => r₂.2[1]?.any (fun b =>
        a.header.isNone && a.toJid.resource.isSome &&
          (room₁.occupants ++ r₁.1.occupants).all (fun n => n.2.jid != a.toJid || n.1 == 2) &&
          r₁.1.occupants.all (fun n => n.1 != 2 || n.2.role != roleModerator) &&
          builderBuild (lit "conf") a != builderBuild (lit "conf") b))))

set_option maxRecDepth 100000 in
/-- **A request that was refused reveals a real JID.** Carol changes her nick with a presence that
has come where the request stood, and its `from` lies where the reason lay. -/
theorem stale_reason_reveals : ∃ room₁ room₂ room₁' room₂' i₁ i₂ sent₁ sent₂,
    calmedRoom "carol@i/pc" = some room₁ ∧ calmedRoom "dora@j/lap" = some room₂ ∧
      renameBy 120 "carol@i/pc" = some i₁ ∧ renameBy 120 "dora@j/lap" = some i₂ ∧
      room₁.hasFlag mucFlagSemianonymous = true ∧ i₁.name = .presence ∧
      Twins 3 i₁.realFrom i₂.realFrom room₁ (openStanza i₁) room₂ (openStanza i₂) ∧
      afterRename room₁ 120 "carol@i/pc" i₁ = some (room₁', sent₁) ∧
      afterRename room₂ 120 "dora@j/lap" i₂ = some (room₂', sent₂) ∧
      ¬ List.Forall₂ (Unrevealing 3 room₁ room₁' i₁ room₂ room₂' i₂) sent₁ sent₂ := by
  have htwins : calmedTwins 120 bobToldApart = true := by decide +kernel
  obtain ⟨room₁, room₂, i₁, i₂, hroom₁, hroom₂, hi₁, hi₂, htwins, htold⟩ := calmedTwins_spec htwins
  obtain ⟨hanon, hname, htwins⟩ := carolAndDora_twins htwins hi₁ hi₂
  obtain ⟨⟨room₁', sent₁⟩, h₁, htold⟩ := (Option.any_eq_true _ _).mp htold
  obtain ⟨⟨room₂', sent₂⟩, h₂, htold⟩ := (Option.any_eq_true _ _).mp htold
  obtain ⟨a, ha, htold⟩ := (Option.any_eq_true _ _).mp htold
  obtain ⟨b, hb, htold⟩ := (Option.any_eq_true _ _).mp htold
  simp only [Bool.and_eq_true, List.all_eq_true, Bool.or_eq_true, bne_iff_ne, beq_iff_eq,
    Option.isNone_iff_eq_none] at htold
  obtain ⟨⟨⟨⟨hheader, hresource⟩, honly⟩, hplain⟩, hbuilt⟩ := htold
  refine ⟨room₁, room₂, room₁', room₂', i₁, i₂, sent₁, sent₂, hroom₁, hroom₂, hi₁, hi₂, hanon,
    hname, htwins, h₁, h₂, fun hsent => ?_⟩
  obtain ⟨hlt₁, rfl⟩ := List.getElem?_eq_some_iff.mp ha
  obtain ⟨hlt₂, rfl⟩ := List.getElem?_eq_some_iff.mp hb
  have hbob : (2 : Nat) ≠ 3 := by decide
  refine not_unrevealing hheader hresource (fun n hn hj => ?_) hbob (fun n hn hb => ?_) hbuilt
    (hsent.get hlt₁ hlt₂)
  · exact (honly n hn).resolve_left (fun hne => hne hj)
  · exact (hplain n hn).resolve_left (fun hne => hne hb)

end Mukite
