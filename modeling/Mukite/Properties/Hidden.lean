import Mukite.Properties.TwoRuns
import Mukite.Properties.Occupancy

/-!
# Real JIDs stay hidden

In a semi-anonymous room only moderators may learn who is behind a nick. Take two rooms that differ
in the real JID of one occupant, and two stanzas that differ in nothing but this JID, if the
occupant is who sends them: `Twins.unrevealing` says that nobody else in the room can tell the two
apart, unless he is a moderator, as long as a reason that somebody still has from an earlier request
reads the same (`SameReason`); `real_jids_hidden` is about rooms where nobody has one.
-/

namespace Mukite

/-! ## Two rooms that differ in one real JID -/

/-- Where two stanzas come from: from somebody else, from `q`, or from `q` before it is in the
room. -/
inductive TwinSenders (q : Nat) (jid₁ jid₂ : Jid) (room₁ room₂ : Room) (i₁ i₂ : IncomingPacket) :
    Prop
  | other (hsame : i₂ = i₁) (hq : q ∈ room₁.participants.nodes.addrs)
      (hne₁ : bareKey i₁.realFrom ≠ bareKey jid₁) (hne₂ : bareKey i₁.realFrom ≠ bareKey jid₂)
  | self (hread : SameButSender i₁ i₂) (p₁ p₂ : Participant)
      (hfound₁ : participantsFindByJid room₁.participants i₁.realFrom = some (q, p₁))
      (hfound₂ : participantsFindByJid room₂.participants i₂.realFrom = some (q, p₂))
  | joins (hread : SameButSender i₁ i₂) (hq : q = room₁.participants.nodes.fresh)
      (hjid₁ : jid₁ = i₁.realFrom) (hjid₂ : jid₂ = i₂.realFrom)

/-- Two rooms, each with a stanza, that differ in the real JID of `q`, in what stands where reasons
have been left behind, and in lists that give whoever enters the same affiliation. No other bare JID
is that of `q`. -/
structure Twins (q : Nat) (jid₁ jid₂ : Jid) (room₁ : Room) (stanza₁ : Stanza) (room₂ : Room)
    (stanza₂ : Stanza) : Prop where
  rooms : ∃ left lists, room₂ = alter q jid₂ left lists room₁
  others : ∀ addr p, (addr, p) ∈ room₁.occupants → addr ≠ q →
    bareKey p.jid ≠ bareKey jid₁ ∧ bareKey p.jid ≠ bareKey jid₂
  before : ∀ p, (q, p) ∈ room₁.occupants → p.jid = jid₁
  senders : TwinSenders q jid₁ jid₂ room₁ room₂ stanza₁.ingress stanza₂.ingress
  acl : stanza₂.acl = stanza₁.acl
  limit : stanza₂.decisecondsLimit = stanza₁.decisecondsLimit
  ticks : stanza₂.ticks = stanza₁.ticks
  level : aclRole stanza₁.acl stanza₁.ingress.realFrom = aclRole stanza₁.acl stanza₂.ingress.realFrom
  affiliation : participantsFindByJid room₁.participants stanza₁.ingress.realFrom = none →
    affiliationssGetByJid (withCreator room₁ stanza₁.ingress.realFrom).affiliations stanza₁.acl
        stanza₁.ingress.realFrom
      = affiliationssGetByJid (withCreator room₂ stanza₂.ingress.realFrom).affiliations stanza₁.acl
          stanza₂.ingress.realFrom

section Twins

variable {q addr : Nat} {jid jid' jid₁ jid₂ : Jid} {left left₁ left₂ : Leftover}
  {lists : Affiliations} {room room₁ room₂ room₁' room₂' : Room} {i₁ i₂ : IncomingPacket}
  {stanza₁ stanza₂ : Stanza} {p : Participant} {sent₁ sent₂ : List BuilderPacket}
  {a b : BuilderPacket}

theorem findByJid_differs (h : bareKey p.jid ≠ bareKey jid) :
    (jidCmp p.jid jid (findByJidMode jid) == 0) = false := by
  rw [beq_eq_false_iff_ne]
  intro hcmp
  unfold findByJidMode at hcmp
  split at hcmp
  · exact h (jidCmp_bare.mp hcmp)
  · exact h (congrArg Prod.fst (jidCmp_full.mp hcmp))

theorem alter_absent (h : q ∉ room.participants.nodes.addrs) :
    alter q jid left lists room = alter q jid' left lists room := by
  have hnodes : room.participants.nodes.mapNodes (fun addr p => (altered q jid left (addr, p)).2)
      = room.participants.nodes.mapNodes (fun addr p => (altered q jid' left (addr, p)).2) := by
    apply NodeList.ext
    refine List.map_congr_left fun n hn => ?_
    have hne : n.1 ≠ q := fun he => h (he ▸ List.mem_map_of_mem hn)
    exact congrArg (fun m : Nat × Participant => (n.1, m.2)) (altered_absent hne)
  exact congrArg (fun nodes => { room with
    participants := { room.participants with nodes := nodes }
    affiliations := lists }) hnodes

/-- Whoever else sends a stanza is found at the same place. -/
theorem findByJid_alter (hne₁ : ∀ p, (q, p) ∈ room.occupants → bareKey p.jid ≠ bareKey jid)
    (hne₂ : bareKey jid' ≠ bareKey jid) :
    participantsFindByJid (alter q jid' left lists room).participants jid
      = (participantsFindByJid room.participants jid).map (altered q jid' left) := by
  show (room.occupants.map (altered q jid' left)).find? _ = _
  rw [List.find?_map, ← List.head?_filter]
  show _ = Option.map _ (room.occupants.find? _)
  rw [← List.head?_filter]
  congr 2
  refine List.filter_congr fun n hn => ?_
  obtain ⟨addr, p⟩ := n
  rw [Function.comp_apply]
  by_cases haddr : addr = q
  · subst haddr
    refine (findByJid_differs ?_).trans (findByJid_differs (hne₁ p hn)).symm
    rw [altered_self_jid]
    exact hne₂
  · dsimp only
    rw [@altered_jid_of_ne q jid' left (addr, p) haddr]

theorem findByJid_absent (h : ∀ addr p, (addr, p) ∈ room.occupants → bareKey p.jid ≠ bareKey jid) :
    participantsFindByJid room.participants jid = none :=
  List.find?_eq_none.mpr fun n hn => by simp [findByJid_differs (h n.1 n.2 hn)]

theorem Twins.paired (h : Twins q jid₁ jid₂ room₁ stanza₁ room₂ stanza₂)
    (hroom : room₂ = alter q jid₂ left lists room₁)
    (hanon : room₁.hasFlag mucFlagSemianonymous = true)
    (htold : ∀ addr p,
      participantsFindByJid room₁.participants stanza₁.ingress.realFrom = some (addr, p) →
        announces room₁ stanza₁.ingress addr p = true → Bystander q room₁ addr
          (isErrorStanza stanza₁.ingress = true ∨
            stanza₁.ingress.type = stanzaPresenceUnavailable) →
          p.affectedList.reread (left addr) = p.affectedList) :
    ∃ jid, room₂ = alter q jid left lists room₁ ∧
      Paired q jid left room₁ room₂ stanza₁.ingress stanza₂.ingress ∧
      (participantsFindByJid room₁.participants stanza₁.ingress.realFrom = none →
        Entering q jid room₁ room₂ stanza₁.ingress stanza₂.ingress stanza₁.acl) := by
  have hsenders := h.senders
  have hlevel := h.level
  have haffiliation := h.affiliation
  generalize stanza₁.ingress = i₁ at *
  generalize stanza₂.ingress = i₂ at *
  -- a stanza of somebody else, one of `q`, or the one with which `q` joins
  cases hsenders with
  | other hsame hq hne₁ hne₂ =>
    subst hsame
    refine ⟨jid₂, hroom, ⟨⟨lists, hroom⟩, hanon, .refl _, ?_, fun _ _ _ _ => rfl, htold⟩,
      fun hnone => ⟨hlevel, haffiliation hnone, .inl ⟨?_, rfl⟩⟩⟩
    · subst hroom
      refine findByJid_alter (fun p hp he => hne₁ ?_) hne₂.symm
      rw [← he, h.before p hp]
    · rintro rfl
      exact NodeList.fresh_notMem hq
  | self hread p₁ p₂ hfound₁ hfound₂ =>
    refine ⟨jid₂, hroom, ⟨⟨lists, hroom⟩, hanon, hread.alike, ?_, ?_, htold⟩, ?_⟩
    · rw [hfound₁, hfound₂, Option.map_some, ← altered_pair]
      subst hroom
      have hp₂ : (q, (altered q jid₂ left (q, p₁)).2) ∈ (alter q jid₂ left lists room₁).occupants :=
        mem_occupants_alter.mpr ⟨(q, p₁), findByJid_mem hfound₁, altered_pair.symm⟩
      rw [NodeList.val_unique (findByJid_mem hfound₂) hp₂]
    · intro addr p hfind hne
      cases hfound₁.symm.trans hfind
      exact absurd rfl hne
    · intro hnone
      cases hfound₁.symm.trans hnone
  | joins hread hq hjid₁ hjid₂ =>
    have hfresh : q ∉ room₁.participants.nodes.addrs := hq ▸ NodeList.fresh_notMem
    -- nobody in the room has another JID yet: the rooms differ in their lists and reasons only
    have hothers : ∀ addr p, (addr, p) ∈ room₁.occupants → addr ≠ q := by
      rintro addr p hp rfl
      exact hfresh (NodeList.mem_addrs_of_mem hp)
    have hfind₁ : participantsFindByJid room₁.participants i₁.realFrom = none :=
      findByJid_absent fun addr p hp => hjid₁ ▸ (h.others addr p hp (hothers addr p hp)).1
    have hroom' : room₂ = alter q (jidSet i₂.realFrom jidFull) left lists room₁ :=
      hroom.trans (alter_absent hfresh)
    have hfind₂ : participantsFindByJid room₂.participants i₂.realFrom = none := by
      refine findByJid_absent fun addr p hp => ?_
      rw [hroom] at hp
      obtain ⟨n, hn, he⟩ := mem_occupants_alter.mp hp
      have hjid : p.jid = n.2.jid := by
        rw [← altered_jid_of_ne (hothers n.1 n.2 hn), he]
      rw [hjid, ← hjid₂]
      exact (h.others n.1 n.2 hn (hothers n.1 n.2 hn)).2
    refine ⟨jidSet i₂.realFrom jidFull, hroom',
      ⟨⟨lists, hroom'⟩, hanon, hread.alike, ?_, ?_, htold⟩,
      fun hnone => ⟨hlevel, haffiliation hnone, .inr ⟨hq, rfl⟩⟩⟩
    · rw [hfind₁, hfind₂]
      rfl
    · intro addr p hfind
      cases hfind₁.symm.trans hfind

/-! ## What is read again -/

theorem reread_alter :
    (alter q jid left lists room).reread left₂ = alter q jid left₂ lists (room.reread left₁) := by
  have hnodes : (room.participants.nodes.mapNodes
        (fun addr p => (altered q jid left (addr, p)).2)).mapNodes
        (fun addr p => { p with affectedList := p.affectedList.reread (left₂ addr) })
      = (room.participants.nodes.mapNodes
          (fun addr p => { p with affectedList := p.affectedList.reread (left₁ addr) })).mapNodes
          (fun addr p => (altered q jid left₂ (addr, p)).2) := by
    apply NodeList.ext
    show (room.occupants.map _).map _ = (room.occupants.map _).map _
    rw [List.map_map, List.map_map]
    refine List.map_congr_left fun n _ => ?_
    simp only [Function.comp_apply, altered, AffectedList.reread_reread]
  exact congrArg (fun nodes => { room with
    participants := { room.participants with nodes := nodes }
    affiliations := lists }) hnodes

theorem TwinSenders.reread (h : TwinSenders q jid₁ jid₂ room₁ room₂ i₁ i₂)
    (left₁ left₂ : Leftover) :
    TwinSenders q jid₁ jid₂ (room₁.reread left₁) (room₂.reread left₂) i₁ i₂ := by
  cases h with
  | other hsame hq hne₁ hne₂ =>
    exact .other hsame (addrs_reread.symm ▸ hq) hne₁ hne₂
  | self hread p₁ p₂ hfound₁ hfound₂ =>
    refine .self hread (rereadAt left₁ (q, p₁)).2 (rereadAt left₂ (q, p₂)).2 ?_ ?_
    · rw [findByJid_reread, hfound₁]
      rfl
    · rw [findByJid_reread, hfound₂]
      rfl
  | joins hread hq hjid₁ hjid₂ =>
    refine .joins hread ?_ hjid₁ hjid₂
    unfold NodeList.fresh at hq ⊢
    rw [addrs_reread]
    exact hq

/-- What stands where reasons have been left behind makes no difference to twins. -/
theorem Twins.reread (h : Twins q jid₁ jid₂ room₁ stanza₁ room₂ stanza₂) (left₁ left₂ : Leftover) :
    Twins q jid₁ jid₂ (room₁.reread left₁) stanza₁ (room₂.reread left₂) stanza₂ where
  rooms := by
    obtain ⟨left, lists, rfl⟩ := h.rooms
    exact ⟨left₂, lists, reread_alter⟩
  others := by
    intro addr p hm hne
    obtain ⟨p₀, hp₀, rfl⟩ := Room.mem_occupants_reread.mp hm
    exact h.others addr p₀ hp₀ hne
  before := by
    intro p hm
    obtain ⟨p₀, hp₀, rfl⟩ := Room.mem_occupants_reread.mp hm
    exact h.before p₀ hp₀
  senders := h.senders.reread left₁ left₂
  acl := h.acl
  limit := h.limit
  ticks := h.ticks
  level := h.level
  affiliation := fun hnone =>
    h.affiliation (Option.map_eq_none_iff.mp (findByJid_reread.symm.trans hnone))

theorem announces_reread : announces (room.reread left) i₁ addr (rereadAt left (addr, p)).2
    = announces room i₁ addr p := by
  unfold announces
  rw [findByNick_reread]
  cases participantsFindByNick room.participants i₁.proxyTo.resource <;> rfl

theorem bystander_reread {leaving : Prop} (h : Bystander q (room.reread left) addr leaving) :
    Bystander q room addr leaving := by
  obtain ⟨b, p, hm, hne, hplain⟩ := h
  obtain ⟨p₀, hp₀, rfl⟩ := Room.mem_occupants_reread.mp hm
  exact ⟨b, p₀, hp₀, hne, hplain⟩

theorem here_reread {role : Int} (h : Here (room.reread left) addr jid role) :
    Here room addr jid role := by
  obtain ⟨p, hm, hjid, hrole⟩ := h
  obtain ⟨p₀, hp₀, rfl⟩ := Room.mem_occupants_reread.mp hm
  exact ⟨p₀, hp₀, hjid, hrole⟩

theorem isFor_reread {who : Option Nat} (h : IsFor (room.reread left) room₁' i₁ a who) :
    IsFor room room₁' i₁ a who := by
  cases h with
  | occupant addr jid role hhere hto =>
    exact .occupant addr jid role (hhere.imp_left here_reread) hto
  | answer hto =>
    rw [findByJid_reread, Option.map_map]
    exact .answer hto

theorem unrevealing_reread
    (h : Unrevealing q (room₁.reread left₁) room₁' i₁ (room₂.reread left₂) room₂' i₂ a b) :
    Unrevealing q room₁ room₁' i₁ room₂ room₂' i₂ a b := by
  obtain ⟨who, hfor₁, hfor₂, hsame⟩ := h
  exact ⟨who, isFor_reread hfor₁, isFor_reread hfor₂, hsame⟩

/-- The reason that whoever a stanza makes the room announce still has from a request that was
refused, is read as the same, if anybody is told of it who is neither `q` nor a moderator. -/
def SameReason (q : Nat) (room : Room) (ingress : IncomingPacket) (left₁ left₂ : Leftover) : Prop :=
  ∀ addr p, participantsFindByJid room.participants ingress.realFrom = some (addr, p) →
    announces room ingress addr p = true → p.affectedList.reasonNode.isSome →
      Bystander q room addr
        (isErrorStanza ingress = true ∨ ingress.type = stanzaPresenceUnavailable) →
        left₁ addr = left₂ addr

/-- Nobody has a reason that could be read. -/
theorem NoReasons.same (h : NoReasons room) : SameReason q room i₁ left₁ left₂ := by
  intro addr p hfind _ hsome
  rw [h addr p (findByJid_mem hfind)] at hsome
  cases hsome

theorem SameReason.told (h : SameReason q room i₁ left₁ left₂)
    (hfind : participantsFindByJid (room.reread left₁).participants i₁.realFrom = some (addr, p))
    (hannounces : announces (room.reread left₁) i₁ addr p = true)
    (hbystander : Bystander q (room.reread left₁) addr
      (isErrorStanza i₁ = true ∨ i₁.type = stanzaPresenceUnavailable)) :
    p.affectedList.reread (left₂ addr) = p.affectedList := by
  rw [findByJid_reread] at hfind
  obtain ⟨⟨addr', p₀⟩, hfound, he⟩ := Option.map_eq_some_iff.mp hfind
  cases he
  have hannounced : announces room i₁ addr' p₀ = true := announces_reread.symm.trans hannounces
  show (p₀.affectedList.reread (left₁ addr')).reread (left₂ addr')
    = p₀.affectedList.reread (left₁ addr')
  rw [AffectedList.reread_reread]
  cases hreason : p₀.affectedList.reasonNode with
  | none => rw [AffectedList.reread_none hreason, AffectedList.reread_none hreason]
  | some bytes =>
    have hsome : p₀.affectedList.reasonNode.isSome := by
      rw [hreason]
      rfl
    rw [h addr' p₀ hfound hannounced hsome (bystander_reread hbystander)]

/-- **One stanza in each of two rooms.** -/
theorem Twins.unrevealing (h : Twins q jid₁ jid₂ room₁ stanza₁ room₂ stanza₂)
    (hadmins : AdminsModerate room₁) (hanon : room₁.hasFlag mucFlagSemianonymous = true)
    (hreason : SameReason q room₁ stanza₁.ingress left₁ left₂)
    (hget : stanza₁.ingress.name = .iq → stanza₁.ingress.type = stanzaIqGet)
    (h₁ : roomStepIn room₁ (stanza₁, left₁) = some (room₁', sent₁))
    (h₂ : roomStepIn room₂ (stanza₂, left₂) = some (room₂', sent₂)) :
    List.Forall₂ (Unrevealing q room₁ room₁' stanza₁.ingress room₂ room₂' stanza₂.ingress) sent₁
      sent₂ := by
  obtain ⟨left, lists, hroom⟩ := h.rooms
  have hreread : room₂.reread left₂ = alter q jid₂ left₂ lists (room₁.reread left₁) :=
    hroom ▸ reread_alter
  obtain ⟨jid, heq, hpaired, hnew⟩ := (h.reread left₁ left₂).paired hreread hanon
    fun addr p hfind hannounces hbystander => hreason.told hfind hannounces hbystander
  unfold roomStepIn at h₁ h₂
  rw [heq] at hpaired hnew h₂
  have hsent := hpaired.stanza (hadmins.reread left₁) hget h.acl h.limit h.ticks hnew h₁ h₂
  rw [← heq] at hsent
  exact hsent.imp fun _ _ => unrevealing_reread

end Twins

/--
**Real JIDs stay hidden.** A semi-anonymous room in which anything has happened, and another one
that differs in the real JID of `q` only, send packets to the same occupants for stanzas that differ
at most in that JID; and to whoever is neither `q` nor a moderator they send the same, but for
blanks in the header. Only a reason that a request has left behind when it was refused would tell
them apart: it may be read anywhere in the new stanza.
-/
theorem real_jids_hidden {start room₁ room₂ room₁' room₂' : Room} {q : Nat} {jid₁ jid₂ : Jid}
    {stanza₁ stanza₂ : Stanza} {left₁ left₂ : Leftover} {sent₁ sent₂ : List BuilderPacket}
    (hstart : start.occupants = [])
    (hreach : Machine.Reach roomStepIn (fun _ _ => True) start room₁)
    (hanon : room₁.hasFlag mucFlagSemianonymous = true) (hclear : NoReasons room₁)
    (htwins : Twins q jid₁ jid₂ room₁ stanza₁ room₂ stanza₂)
    (hget : stanza₁.ingress.name = .iq → stanza₁.ingress.type = stanzaIqGet)
    (h₁ : roomStepIn room₁ (stanza₁, left₁) = some (room₁', sent₁))
    (h₂ : roomStepIn room₂ (stanza₂, left₂) = some (room₂', sent₂)) :
    List.Forall₂ (Unrevealing q room₁ room₁' stanza₁.ingress room₂ room₂' stanza₂.ingress) sent₁
      sent₂ :=
  htwins.unrevealing (admins_moderate hstart hreach) hanon hclear.same hget h₁ h₂

/-! ## Two newcomers -/

/-- A presence in three pieces, with its sender in the middle. -/
def carolFront : Bytes := lit "<presence from='"

def carolRest : Bytes :=
  lit "' to='room@conf/ca'><x xmlns='http://jabber.org/protocol/muc'/></presence>"

/-- The presence of somebody who wants to be called `ca`. -/
def enteringAs (sender : String) : Option IncomingPacket :=
  (packetParse (carolFront ++ (lit sender ++ carolRest))).join

/-- A stanza under the open access list. -/
def openStanza (ingress : IncomingPacket) : Stanza where
  ingress := ingress
  acl := openAcl
  decisecondsLimit := 0
  ticks := 0

theorem sentBy_enteringAs {sender : String} {ingress : IncomingPacket}
    (h : enteringAs sender = some ingress)
    (hvalue : ingress.fromAttr.map XmlAttr.value = some
      { data := carolFront.length, stop := carolFront.length + (lit sender).length }) :
    SentBy carolFront (lit sender) carolRest ingress := by
  obtain ⟨attr, hattr, hv⟩ := Option.map_eq_some_iff.mp hvalue
  exact ⟨Option.join_eq_some_iff.mp h, attr, hattr, hv⟩

/-- Earlier reasons, if there were any, would have been overwritten. -/
def overwritten : Leftover := fun _ => lit "from='"

/-- The stanzas with which alice and bob come. -/
def joinsIn : List (Stanza × Leftover) :=
  (stanzasOfTexts openAcl 0 0 joins).map (fun stanza => (stanza, overwritten))

/-- What the two newcomers differ in, and what the room makes of them. -/
def carolOrDora (room : Room) (i₁ i₂ : IncomingPacket) : Bool :=
  room.hasFlag mucFlagSemianonymous &&
    (room.occupants.all (fun n => decide (n.1 ≠ 3 ∧ bareKey n.2.jid ≠ bareKey i₁.realFrom ∧
      bareKey n.2.jid ≠ bareKey i₂.realFrom)) && room.participants.nodes.fresh == 3) &&
    (affiliationssGetByJid (withCreator room i₁.realFrom).affiliations openAcl i₁.realFrom ==
      affiliationssGetByJid (withCreator room i₂.realFrom).affiliations openAcl i₂.realFrom) &&
    (i₁.fromAttr.map XmlAttr.value == some
        { data := carolFront.length, stop := carolFront.length + (lit "carol@i/pc").length } &&
      i₂.fromAttr.map XmlAttr.value == some
        { data := carolFront.length, stop := carolFront.length + (lit "dora@j/lap").length }) &&
    ((roomStepIn room (openStanza i₁, overwritten)).any (fun r => r.2.length == 5) &&
      (roomStepIn (alter 3 i₂.realFrom overwritten room.affiliations room)
        (openStanza i₂, overwritten)).isSome) &&
    (i₁.name == .presence && decide (NoReasons room))

set_option maxRecDepth 100000 in
/-- The result for `carol@i` and `dora@j`, who enter the room of alice and bob under one nick. -/
theorem real_jids_hidden_carolOrDora : ∃ room room₁' room₂' i₁ i₂ sent₁ sent₂,
    Machine.run roomStepIn (roomInit (lit "room")) joinsIn = some room ∧
      enteringAs "carol@i/pc" = some i₁ ∧ enteringAs "dora@j/lap" = some i₂ ∧
      roomStepIn room (openStanza i₁, overwritten) = some (room₁', sent₁) ∧ sent₁.length = 5 ∧
      List.Forall₂ (Unrevealing 3 room room₁' i₁
        (alter 3 i₂.realFrom overwritten room.affiliations room) room₂' i₂) sent₁ sent₂ := by
  have hany : (Machine.run roomStepIn (roomInit (lit "room")) joinsIn).any (fun room =>
      (enteringAs "carol@i/pc").any (fun i₁ =>
        (enteringAs "dora@j/lap").any (carolOrDora room i₁))) = true := by
    decide +kernel
  obtain ⟨room, hroom, hany⟩ := (Option.any_eq_true _ _).mp hany
  obtain ⟨i₁, hi₁, hany⟩ := (Option.any_eq_true _ _).mp hany
  obtain ⟨i₂, hi₂, hfacts⟩ := (Option.any_eq_true _ _).mp hany
  simp only [carolOrDora, Bool.and_eq_true, beq_iff_eq, List.all_eq_true, decide_eq_true_eq]
    at hfacts
  obtain ⟨⟨⟨⟨⟨hanon, hothers, hfresh⟩, haffiliation⟩, hv₁, hv₂⟩, hstep₁, hstep₂⟩, hname, hclear⟩ :=
    hfacts
  obtain ⟨⟨room₁', sent₁⟩, h₁, hlength⟩ := (Option.any_eq_true _ _).mp hstep₁
  obtain ⟨⟨room₂', sent₂⟩, h₂⟩ := Option.isSome_iff_exists.mp hstep₂
  have htwins : Twins 3 i₁.realFrom i₂.realFrom room (openStanza i₁)
      (alter 3 i₂.realFrom overwritten room.affiliations room) (openStanza i₂) :=
    { rooms := ⟨_, _, rfl⟩
      others := fun addr p hp _ => (hothers (addr, p) hp).2
      before := fun p hp => absurd rfl (hothers (3, p) hp).1
      senders := .joins ⟨_, _, _, _, sentBy_enteringAs hi₁ hv₁, sentBy_enteringAs hi₂ hv₂⟩
        hfresh.symm rfl rfl
      acl := rfl
      limit := rfl
      ticks := rfl
      level := rfl
      affiliation := fun _ => haffiliation }
  refine ⟨room, room₁', room₂', i₁, i₂, sent₁, sent₂, hroom, hi₁, hi₂, h₁, beq_iff_eq.mp hlength,
    ?_⟩
  exact real_jids_hidden rfl (.run .start (fun _ _ _ => trivial) hroom) hanon hclear htwins
    (fun hiq => by cases hname.symm.trans hiq) h₁ h₂

end Mukite
