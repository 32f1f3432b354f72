import Mukite.Properties.SameContent
import Mukite.Properties.Moderators
import Mukite.Properties.IqReplies
import Mukite.Properties.Answers

/-!
# Rooms that differ in one real JID

`alter` gives one occupant another real JID, and has reasons that were left behind read from another
memory. What a semi-anonymous room shows of its occupants to somebody who is no moderator stays the
same, packet by packet (`SentAt`), as long as whom it announces has the same reason (`Told`); and so
two rooms and two stanzas that differ in the real JID of one occupant only (`Paired`) can be
followed side by side.
-/

namespace Mukite

/-! ## Another real JID -/

/-- An occupant, with another real JID if it is `q`, and with its reason read elsewhere. -/
def altered (q : Nat) (jid : Jid) (left : Leftover) (n : Nat × Participant) : Nat × Participant :=
  (n.1, { n.2 with
    jid := if n.1 = q then jid else n.2.jid
    affectedList := n.2.affectedList.reread (left n.1) })

/-- The room with another real JID for `q`, with other lists, and with other bytes where reasons
have been left behind. -/
def alter (q : Nat) (jid : Jid) (left : Leftover) (lists : Affiliations) (room : Room) : Room :=
  { room with
    participants :=
      { room.participants with
        nodes := room.participants.nodes.mapNodes (fun addr p =>
          (altered q jid left (addr, p)).2) }
    affiliations := lists }

section Alter

variable {q addr : Nat} {jid : Jid} {left : Leftover} {lists : Affiliations} {room : Room}
  {n : Nat × Participant} {p : Participant}

@[simp] theorem altered_fst : (altered q jid left n).1 = n.1 := by
  unfold altered
  rfl

@[simp] theorem altered_nick : (altered q jid left n).2.nick = n.2.nick := by
  unfold altered
  rfl

@[simp] theorem altered_affiliation :
    (altered q jid left n).2.affiliation = n.2.affiliation := by
  unfold altered
  rfl

@[simp] theorem altered_role : (altered q jid left n).2.role = n.2.role := by
  unfold altered
  rfl

@[simp] theorem altered_presence : (altered q jid left n).2.presence = n.2.presence := by
  unfold altered
  rfl

@[simp] theorem altered_lastMessageTime :
    (altered q jid left n).2.lastMessageTime = n.2.lastMessageTime := by
  unfold altered
  rfl

theorem altered_self_jid : (altered q jid left (q, p)).2.jid = jid := if_pos rfl

/-- Whoever is not there has no other real JID. -/
theorem altered_absent {jid' : Jid} (h : n.1 ≠ q) :
    altered q jid left n = altered q jid' left n := by
  unfold altered
  rw [if_neg h, if_neg h]

theorem altered_jid_of_ne (h : n.1 ≠ q) : (altered q jid left n).2.jid = n.2.jid := if_neg h

@[simp] theorem occupants_alter :
    (alter q jid left lists room).occupants = room.occupants.map (altered q jid left) := rfl

@[simp] theorem hasFlag_alter (flag : MucFlags) :
    (alter q jid left lists room).hasFlag flag = room.hasFlag flag := rfl

theorem mem_occupants_alter : n ∈ (alter q jid left lists room).occupants ↔
    ∃ m ∈ room.occupants, altered q jid left m = n := List.mem_map

/-- Nicks are found at the same places. -/
theorem findByNick_alter (nick : Buffer) :
    participantsFindByNick (alter q jid left lists room).participants nick
      = (participantsFindByNick room.participants nick).map (altered q jid left) := by
  have hsame : ((fun n : Nat × Participant => bptEqBin (bptBytes nick) n.2.nick) ∘
      altered q jid left) = fun n => bptEqBin (bptBytes nick) n.2.nick := by
    funext n
    exact congrArg (bptEqBin (bptBytes nick)) altered_nick
  show (room.occupants.map (altered q jid left)).find? _ = _
  rw [List.find?_map, hsame]
  rfl

theorem addrs_alter : (alter q jid left lists room).participants.nodes.addrs
    = room.participants.nodes.addrs := by
  show (room.occupants.map (altered q jid left)).map Prod.fst = _
  rw [List.map_map]
  rfl

theorem get?_alter : (alter q jid left lists room).participants.nodes.get? addr
    = (room.participants.nodes.get? addr).map (fun p => (altered q jid left (addr, p)).2) := by
  cases hg : room.participants.nodes.get? addr with
  | none =>
    rw [Option.map_none, NodeList.get?_eq_none_iff]
    rw [addrs_alter]
    exact NodeList.get?_eq_none_iff.mp hg
  | some p =>
    rw [Option.map_some, NodeList.get?_eq_some_iff]
    refine mem_occupants_alter.mpr ⟨(addr, p), NodeList.get?_eq_some_iff.mp hg, ?_⟩
    exact Prod.ext altered_fst rfl

theorem fresh_alter : (alter q jid left lists room).participants.nodes.fresh
    = room.participants.nodes.fresh := by
  unfold NodeList.fresh
  rw [addrs_alter]

/-- A change to which the real JID and the reason do not matter. -/
def Indifferent (f : Participant → Participant) : Prop := ∀ p jid affected,
  f { p with jid := jid, affectedList := affected }
    = { f p with jid := jid, affectedList := affected }

theorem Indifferent.keeps {f : Participant → Participant} (hf : Indifferent f) :
    (f p).jid = p.jid ∧ (f p).affectedList = p.affectedList := by
  have h := hf p p.jid p.affectedList
  have hjid := congrArg Participant.jid h
  have haffected := congrArg Participant.affectedList h
  exact ⟨hjid, haffected⟩

theorem Indifferent.altered {f : Participant → Participant} (hf : Indifferent f) :
    f (altered q jid left (addr, p)).2 = (altered q jid left (addr, f p)).2 := by
  unfold Mukite.altered
  rw [hf, hf.keeps.1, hf.keeps.2]

/-- The change is the same in both rooms. -/
theorem alter_modify {f : Participant → Participant} (hf : Indifferent f) :
    alter q jid left lists (room.modify addr f) = (alter q jid left lists room).modify addr f := by
  have hnodes : (room.participants.nodes.modify addr f).mapNodes
        (fun addr p => (altered q jid left (addr, p)).2)
      = (room.participants.nodes.mapNodes
          (fun addr p => (altered q jid left (addr, p)).2)).modify addr f := by
    apply NodeList.ext
    show (room.participants.nodes.nodes.map _).map _ = (room.participants.nodes.nodes.map _).map _
    rw [List.map_map, List.map_map]
    refine List.map_congr_left fun n _ => ?_
    obtain ⟨a, p⟩ := n
    by_cases ha : a = addr
    · simp only [Function.comp_apply, ha, if_true]
      exact congrArg (Prod.mk addr) hf.altered.symm
    · simp only [Function.comp_apply, ha, if_false]
  show Room.mk _ _ _ _ _ _ _ _ _ _ _ = Room.mk _ _ _ _ _ _ _ _ _ _ _
  simp only [Room.modify, ParticipantsList.modify, alter, hnodes]

end Alter

/-! ## Packets that do not tell them apart -/

/-- Two packets that differ at most in the number of blanks at one place of the header. The answers
of a room have no name, but would be the same under any. -/
inductive SamePacket (a b : BuilderPacket) : Prop
  | text (hname : a.name = b.name) (htext : ∀ fromHost name,
      builderBuild fromHost { a with name := name } = builderBuild fromHost { b with name := name })
  | header (front back : Bytes) (m n : Nat)
      (ha : a.header = some (front ++ List.replicate m (ch ' ') ++ back))
      (hb : b.header = some (front ++ List.replicate n (ch ' ') ++ back))
      (hrest : b = { a with header := b.header })

theorem SamePacket.of_eq {a b : BuilderPacket} (h : a = b) : SamePacket a b := by
  subst h
  exact .text rfl fun _ _ => rfl

/-- An occupant stands at an address, with its real JID and its role. -/
def Here (room : Room) (addr : Nat) (jid : Jid) (role : Int) : Prop :=
  ∃ p, (addr, p) ∈ room.occupants ∧ p.jid = jid ∧ p.role = role

/-- A packet is addressed to an occupant, with its resource or without. -/
def AddressedTo (packet : BuilderPacket) (jid : Jid) : Prop :=
  packet.toJid = jid ∨ packet.toJid = { jid with resource := none }

/-- Two packets to one occupant, which do not tell the rooms apart unless it is `q` or moderates. -/
def SentAt (q : Nat) (room₁ room₂ : Room) (a b : BuilderPacket) : Prop :=
  ∃ addr jid₁ jid₂ role, Here room₁ addr jid₁ role ∧ Here room₂ addr jid₂ role ∧
    AddressedTo a jid₁ ∧ AddressedTo b jid₂ ∧
    (addr ≠ q → role ≠ roleModerator → SamePacket a b)

section Packets

variable {q addr : Nat} {jid : Jid} {left : Leftover} {lists : Affiliations} {room : Room}
  {n : Nat × Participant} {p : Participant}

theorem here_alter (hm : n ∈ room.occupants) :
    Here (alter q jid left lists room) n.1 (altered q jid left n).2.jid n.2.role :=
  ⟨(altered q jid left n).2, mem_occupants_alter.mpr ⟨n, hm, Prod.ext altered_fst rfl⟩, rfl,
    altered_role⟩

theorem here_of_mem (hm : n ∈ room.occupants) : Here room n.1 n.2.jid n.2.role :=
  ⟨n.2, hm, rfl, rfl⟩

/-- Two lists of packets, one for each occupant. -/
theorem forall₂_altered {R : BuilderPacket → BuilderPacket → Prop}
    {ns : List (Nat × Participant)} {f g : Nat × Participant → BuilderPacket}
    (h : ∀ n ∈ ns, R (f n) (g (altered q jid left n))) :
    List.Forall₂ R (ns.map f) ((ns.map (altered q jid left)).map g) := by
  rw [List.forall₂_map_left_iff, List.forall₂_map_right_iff, List.forall₂_map_right_iff,
    List.forall₂_same]
  exact h

/-- In a semi-anonymous room only moderators are shown a real JID. -/
theorem visibleJid_alter {receiver : Nat × Participant}
    (hanon : room.hasFlag mucFlagSemianonymous = true) (hrole : receiver.2.role ≠ roleModerator) :
    visibleJid (alter q jid left lists room) (altered q jid left n).2
        (altered q jid left receiver).2
      = visibleJid room n.2 receiver.2 := by
  have hhidden : (receiver.2.role = roleModerator || !room.hasFlag mucFlagSemianonymous)
      = false := by
    simp [hanon, hrole]
  unfold visibleJid
  rw [hasFlag_alter, altered_role, hhidden]
  rfl

/-- Whoever is told about an occupant without being `q` or a moderator is told the same reason. -/
def Told (q : Nat) (left : Leftover) (room : Room) (n : Nat × Participant) : Prop :=
  ∀ receiver ∈ room.occupants, receiver.1 ≠ q → receiver.2.role ≠ roleModerator →
    n.2.affectedList.reread (left n.1) = n.2.affectedList

theorem presencePacket_alter {newNick : Buffer} {statusCodes : Nat}
    {receiver : Nat × Participant} (hanon : room.hasFlag mucFlagSemianonymous = true)
    (hreason : n.2.affectedList.reread (left n.1) = n.2.affectedList)
    (hne : receiver.1 ≠ q) (hrole : receiver.2.role ≠ roleModerator) :
    presencePacket (alter q jid left lists room) (altered q jid left n) newNick statusCodes
        (altered q jid left receiver)
      = presencePacket room n newNick statusCodes receiver := by
  unfold presencePacket
  have haffected : (altered q jid left n).2.affectedList = n.2.affectedList := hreason
  rw [altered_jid_of_ne hne, visibleJid_alter hanon hrole, haffected]
  simp only [altered_fst, altered_role, altered_presence, altered_nick, altered_affiliation]
  rfl

theorem broadcast_sentAt (hanon : room.hasFlag mucFlagSemianonymous = true)
    (htold : Told q left room n) (newNick : Buffer) (statusCodes : Nat) :
    List.Forall₂ (SentAt q room (alter q jid left lists room))
      (roomBroadcastPresence room n newNick statusCodes)
      (roomBroadcastPresence (alter q jid left lists room) (altered q jid left n) newNick
        statusCodes) := by
  refine forall₂_altered fun receiver hm => ?_
  refine ⟨receiver.1, _, _, _, here_of_mem hm, here_alter hm, .inl rfl, .inl rfl,
    fun hne hrole => .of_eq ?_⟩
  exact (presencePacket_alter hanon (htold receiver hm hne hrole) hne hrole).symm

theorem roster_sentAt {receiver : Nat × Participant} (hm : receiver ∈ room.occupants)
    (hanon : room.hasFlag mucFlagSemianonymous = true) :
    List.Forall₂ (SentAt q room (alter q jid left lists room)) (roomPresencesSend room receiver)
      (roomPresencesSend (alter q jid left lists room) (altered q jid left receiver)) := by
  unfold roomPresencesSend
  have hfilter : (alter q jid left lists room).occupants.filter
      (fun sender => sender.1 != (altered q jid left receiver).1)
        = (room.occupants.filter (fun sender => sender.1 != receiver.1)).map
            (altered q jid left) := by
    rw [occupants_alter, List.filter_map, altered_fst]
    congr 2
  rw [hfilter]
  refine forall₂_altered fun sender _ => ?_
  refine ⟨receiver.1, _, _, _, here_of_mem hm, here_alter hm, .inl rfl, .inl rfl,
    fun hne hrole => .of_eq ?_⟩
  show rosterPacket room receiver.2 sender.2
    = rosterPacket (alter q jid left lists room) (altered q jid left receiver).2
        (altered q jid left sender).2
  unfold rosterPacket
  rw [altered_jid_of_ne hne, visibleJid_alter hanon hrole]
  simp only [altered_role, altered_presence, altered_nick, altered_affiliation]
  rfl

theorem subject_sentAt (hm : n ∈ room.occupants) :
    List.Forall₂ (SentAt q room (alter q jid left lists room)) (roomSubjectSend room n.2)
      (roomSubjectSend (alter q jid left lists room) (altered q jid left n).2) := by
  unfold roomSubjectSend
  have hsubject : (alter q jid left lists room).subject = room.subject := rfl
  rw [hsubject]
  split
  · exact .nil
  · refine .cons ⟨n.1, _, _, _, here_of_mem hm, here_alter hm, .inl rfl, .inl rfl,
      fun hne _ => .of_eq ?_⟩ .nil
    rw [altered_jid_of_ne hne]
    rfl

end Packets

/-! ## Two runs -/

/-- Whom a packet is for: an occupant whose address it has, or whoever has sent the stanza that it
answers. -/
inductive IsFor (room room' : Room) (ingress : IncomingPacket) (packet : BuilderPacket) :
    Option Nat → Prop
  | occupant (addr : Nat) (jid : Jid) (role : Int)
      (hhere : Here room addr jid role ∨ Here room' addr jid role)
      (hto : AddressedTo packet jid) : IsFor room room' ingress packet (some addr)
  | answer (hto : packet.toJid = jidInit) : IsFor room room' ingress packet
      ((participantsFindByJid room.participants ingress.realFrom).map Prod.fst)

/-- Two packets of two runs are for the same occupant, and tell the runs apart only if that is `q`
or a moderator. -/
def Unrevealing (q : Nat) (room₁ room₁' : Room) (i₁ : IncomingPacket) (room₂ room₂' : Room)
    (i₂ : IncomingPacket) (a b : BuilderPacket) : Prop :=
  ∃ who, IsFor room₁ room₁' i₁ a who ∧ IsFor room₂ room₂' i₂ b who ∧
    ∀ addr, who = some addr → addr ≠ q → (∀ jid, ¬ Here room₁' addr jid roleModerator) →
      SamePacket a b

/-- Somebody who is neither `q` nor a moderator when the occupant at `addr` is announced: a
moderator is none any more when it leaves. -/
def Bystander (q : Nat) (room : Room) (addr : Nat) (leaving : Prop) : Prop :=
  ∃ b p, (b, p) ∈ room.occupants ∧ b ≠ q ∧ (p.role ≠ roleModerator ∨ b = addr ∧ leaving)

/-- Whether `room_route` tells the room about the occupant `p` who has sent a stanza. -/
def announces (room : Room) (ingress : IncomingPacket) (addr : Nat) (p : Participant) : Bool :=
  isErrorStanza ingress ||
    (ingress.name == .presence &&
      (ingress.type == stanzaPresenceUnavailable || ingress.proxyTo.resource.isNone ||
        match participantsFindByNick room.participants ingress.proxyTo.resource with
        | some (addr', _) => addr == addr'
        | none => !(p.role ≤ roleVisitor && !room.hasFlag mucFlagVisitorpresence)))

/-- What the proofs use of two rooms and two stanzas that differ in the real JID of `q`. -/
structure Paired (q : Nat) (jid : Jid) (left : Leftover) (room₁ room₂ : Room)
    (i₁ i₂ : IncomingPacket) : Prop where
  rooms : ∃ lists, room₂ = alter q jid left lists room₁
  anonymous : room₁.hasFlag mucFlagSemianonymous = true
  alike : Alike i₁ i₂
  sender : participantsFindByJid room₂.participants i₂.realFrom
    = (participantsFindByJid room₁.participants i₁.realFrom).map (altered q jid left)
  other : ∀ addr p, participantsFindByJid room₁.participants i₁.realFrom = some (addr, p) →
    addr ≠ q → i₂ = i₁
  told : ∀ addr p, participantsFindByJid room₁.participants i₁.realFrom = some (addr, p) →
    announces room₁ i₁ addr p = true →
      Bystander q room₁ addr (isErrorStanza i₁ = true ∨ i₁.type = stanzaPresenceUnavailable) →
        p.affectedList.reread (left addr) = p.affectedList

/-- Whoever stands in the room when it is sent something, is there before or after the stanza, and a
moderator is a moderator after it. -/
def Stands (room room' t : Room) : Prop := ∀ addr jid role, Here t addr jid role →
  Here room' addr jid role ∨ role ≠ roleModerator ∧ ∃ role', Here room addr jid role'

section Runs

variable {q : Nat} {jid : Jid} {left : Leftover} {room₁ room₂ room₁' room₂' t₁ t₂ : Room}
  {i₁ i₂ : IncomingPacket} {a b : BuilderPacket} {sent₁ sent₂ : List BuilderPacket}

theorem stands_of_occupants {room room' t : Room} (h : room'.occupants = t.occupants) :
    Stands room room' t := by
  rintro addr jid role ⟨p, hp, hjid, hrole⟩
  exact .inl ⟨p, h ▸ hp, hjid, hrole⟩

theorem SentAt.unrevealing (h : SentAt q t₁ t₂ a b) (hs₁ : Stands room₁ room₁' t₁)
    (hs₂ : Stands room₂ room₂' t₂) : Unrevealing q room₁ room₁' i₁ room₂ room₂' i₂ a b := by
  have hfor : ∀ {room room' t : Room} {ingress : IncomingPacket} {packet : BuilderPacket}
      {addr : Nat} {jid : Jid} {role : Int}, Stands room room' t → Here t addr jid role →
        AddressedTo packet jid → IsFor room room' ingress packet (some addr) := by
    intro room room' t ingress packet addr jid role hs hhere hto
    rcases hs addr jid role hhere with h | ⟨-, role', h⟩
    · exact .occupant addr jid role (.inr h) hto
    · exact .occupant addr jid role' (.inl h) hto
  obtain ⟨addr, jid₁, jid₂, role, hh₁, hh₂, hto₁, hto₂, hsame⟩ := h
  refine ⟨some addr, hfor hs₁ hh₁ hto₁, hfor hs₂ hh₂ hto₂, ?_⟩
  intro addr' he hne hmod
  obtain rfl := Option.some.inj he
  refine hsame hne fun hrole => ?_
  rcases hs₁ addr jid₁ role hh₁ with h | ⟨h, -⟩
  · exact hmod jid₁ (hrole ▸ h)
  · exact h hrole

theorem unrevealing_of_sentAt (h : List.Forall₂ (SentAt q t₁ t₂) sent₁ sent₂)
    (hs₁ : Stands room₁ room₁' t₁) (hs₂ : Stands room₂ room₂' t₂) :
    List.Forall₂ (Unrevealing q room₁ room₁' i₁ room₂ room₂' i₂) sent₁ sent₂ :=
  h.imp fun _ _ hab => hab.unrevealing hs₁ hs₂

/-- An answer or an error goes back to the sender. -/
theorem Paired.answer (h : Paired q jid left room₁ room₂ i₁ i₂) (ha : a.toJid = jidInit)
    (hb : b.toJid = jidInit)
    (hsame : ∀ addr p, participantsFindByJid room₁.participants i₁.realFrom = some (addr, p) →
      addr ≠ q → i₂ = i₁ → (∀ jid, ¬ Here room₁' addr jid roleModerator) → SamePacket a b) :
    List.Forall₂ (Unrevealing q room₁ room₁' i₁ room₂ room₂' i₂) [a] [b] := by
  have hwho : (participantsFindByJid room₂.participants i₂.realFrom).map Prod.fst
      = (participantsFindByJid room₁.participants i₁.realFrom).map Prod.fst := by
    rw [h.sender, Option.map_map]
    congr 1
  refine .cons ⟨_, .answer ha, hwho ▸ .answer hb, fun addr he hne hmod => ?_⟩ .nil
  obtain ⟨⟨addr', p⟩, hfind, rfl⟩ := Option.map_eq_some_iff.mp he
  exact hsame addr' p hfind hne (h.other addr' p hfind hne) hmod

theorem bounce_defined {room : Room} {ingress : IncomingPacket} {error : XMPPError}
    {r : Room × List BuilderPacket} (h : bounce room ingress error = some r) :
    ingress.innerBytes.isSome := by
  obtain ⟨packet, hpacket, -⟩ := Option.map_eq_some_iff.mp h
  rw [← @workerBounce_isSome ingress error room.node, hpacket]
  rfl

theorem workerBounce_toJid {ingress : IncomingPacket} {error : XMPPError} {node : Buffer}
    (h : workerBounce ingress error node = some a) : a.toJid = jidInit := by
  obtain ⟨inner, -, h⟩ := Option.bind_eq_some_iff.mp h
  cases h
  rfl

theorem Paired.bounce (h : Paired q jid left room₁ room₂ i₁ i₂) {error : XMPPError} {r₁ r₂ : Room}
    (h₁ : bounce r₁ i₁ error = some (room₁', sent₁))
    (h₂ : bounce r₂ i₂ error = some (room₂', sent₂)) (hnode : r₁.node = r₂.node) :
    List.Forall₂ (Unrevealing q room₁ room₁' i₁ room₂ room₂' i₂) sent₁ sent₂ := by
  obtain ⟨a, ha, he₁⟩ := Option.map_eq_some_iff.mp h₁
  obtain ⟨b, hb, he₂⟩ := Option.map_eq_some_iff.mp h₂
  cases he₁
  cases he₂
  refine h.answer (workerBounce_toJid ha) (workerBounce_toJid hb) fun _ _ _ _ hsame _ => ?_
  subst hsame
  rw [hnode, hb] at ha
  exact .of_eq (Option.some.inj ha).symm

end Runs

end Mukite
