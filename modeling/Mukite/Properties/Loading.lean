import Mukite.Properties.RoomFile
import Mukite.Properties.Settings
import Mukite.Properties.Presences
import Mukite.Properties.Roster
import Mukite.Properties.History
import Mukite.Properties.Header
import Mukite.Properties.Siblings

/-!
# Rooms that can be loaded

Whether `room_deserialize` takes back what `room_serialize` has written of a room. Each field has
a limit where it is set and another one where it is read. They agree for all fields but three: a
password is set whatever its size, a presence is kept up to the limit of a stanza, and a JID is
kept that does not parse from its own text (`loads_iff`).
-/

namespace Mukite

open Codec

/-! ## What should hold, and what it depends on -/

/-- `room_deserialize` takes what `room_serialize` has written, whatever follows in the file. -/
def Loads (room : Room) : Prop := Accepts (roomSerialize room) roomDeserialize

/-- The fields with two limits that do not agree are within the limit of the reader. -/
structure Loadable (room : Room) : Prop where
  password : bptSize room.password ≤ userStringOptionLimit
  participants : ∀ p ∈ writtenParticipants room, LoadableParticipant p

/-- A stanza that the reader and the parser let through. -/
structure Reasonable (stanza : Stanza) : Prop where
  accepted : Accepted stanza.ingress
  size : stanza.ingress.mem.length ≤ reasonableRawLimit

/-! ## What every room keeps -/

/-- The settings are within their limits, the password within a given one. -/
structure Settings.Bounded (limit : Nat) (settings : Settings) : Prop where
  node : bptSize settings.node ≤ maxJidPartSize
  title : bptSize settings.title ≤ userStringOptionLimit
  description : bptSize settings.description ≤ userStringOptionLimit
  password : bptSize settings.password ≤ limit
  defaultRole : settings.defaultRole = roleParticipant ∨ settings.defaultRole = roleVisitor
  maxOccupants : 0 < settings.maxOccupants ∧ settings.maxOccupants ≤ participantsLimit

/-- What the room keeps beside its settings and its presences. Its JIDs are copies with `J`. -/
structure KeptRoom (J : Jid → Prop) (room : Room) : Prop where
  jids : ∀ addr p, (addr, p) ∈ room.occupants → J p.jid
  nicks : ∀ addr p, (addr, p) ∈ room.occupants → bptSize p.nick ≤ maxJidPartSize
  subjectNode : bptSize room.subject.node ≤ userStringOptionLimit
  subjectNick : bptSize room.subject.nick ≤ maxJidPartSize
  /-- no affiliation list is ever given a limit -/
  lists : ∀ a, (room.affiliations a).maxSize = 0
  /-- a history that starts empty stays empty -/
  history : room.history = .init 20

theorem bounded_roomInit {node : Bytes} {limit : Nat} (h : node.length ≤ maxJidPartSize) :
    (roomInit node).settings.Bounded limit where
  node := h
  title := Nat.zero_le _
  description := Nat.zero_le _
  password := Nat.zero_le _
  defaultRole := .inl rfl
  maxOccupants := by
    show 0 < (100 : Int) ∧ (100 : Int) ≤ participantsLimit
    decide

theorem kept_roomInit {J : Jid → Prop} (node : Bytes) : KeptRoom J (roomInit node) where
  jids := fun _ _ hm => absurd hm List.not_mem_nil
  nicks := fun _ _ hm => absurd hm List.not_mem_nil
  subjectNode := Nat.zero_le _
  subjectNick := Nat.zero_le _
  lists := fun _ => rfl
  history := rfl

theorem Span.length_copy_le {mem b : Bytes} {s : Span} (h : s.copy mem = some b) :
    b.length ≤ mem.length := by
  unfold Span.copy at h
  split at h
  · cases h
  · cases h
    unfold Span.bytes
    rw [List.length_take, List.length_drop]
    omega

section Options

variable {mem : Bytes} {acl : Int} {limit : Nat} {room room' : Room} {option : FormOption}

/-- No option of the list asks for a password beyond the limit. -/
def SecretsWithin (mem : Bytes) (limit : Nat) (options : List FormOption) : Prop :=
  ∀ option ∈ options, option.isSecret mem = true →
    ∀ b, option.value.copy mem = some b → b.length ≤ limit

/-- **An option keeps the settings within their limits**, but for the password. -/
theorem Settings.Bounded.set (h : room.settings.Bounded limit)
    (hsecret : option.isSecret mem = true →
      ∀ b, option.value.copy mem = some b → b.length ≤ limit)
    (hset : option.set mem acl room = some room') : room'.settings.Bounded limit := by
  have hpassword : bptSize room'.password ≤ limit := by
    rcases FormOption.set_password room' hset with hsame | ⟨hvar, b, hb, hp⟩
    · exact hsame ▸ h.password
    · rw [hp]
      exact hsecret hvar b hb
  cases roomConfigOptionSet_change _ _ _ _ _ _ hset with
  | unchanged => exact h
  | title b hb => exact ⟨h.node, hb, h.description, h.password, h.defaultRole, h.maxOccupants⟩
  | description b hb => exact ⟨h.node, h.title, hb, h.password, h.defaultRole, h.maxOccupants⟩
  | password b => exact ⟨h.node, h.title, h.description, hpassword, h.defaultRole, h.maxOccupants⟩
  | flag flag hf on => exact h
  | maxUsers n hpos hle =>
    exact ⟨h.node, h.title, h.description, h.password, h.defaultRole, hpos, hle⟩
  | defaultRole r hr => exact ⟨h.node, h.title, h.description, h.password, hr, h.maxOccupants⟩

end Options

section Steps

variable {J : Jid → Prop} {limit : Nat} {room room' : Room} {stanza : Stanza}
  {sent : List BuilderPacket} {ok : IncomingPacket → Prop}

theorem Settings.Bounded.step (h : room.settings.Bounded limit)
    (hsecrets : stanza.ingress.name = .iq → stanza.ingress.type = stanzaIqSet → ∀ options,
      submittedOptions stanza.ingress = some options →
        SecretsWithin stanza.ingress.mem limit options)
    (hs : roomStep room stanza = some (room', sent)) : room'.settings.Bounded limit := by
  rcases roomStep_settings hs with hsame | ⟨hname, htype, options, level, form, ho, happlied, hform⟩
  · exact hsame ▸ h
  · rw [hform]
    have hwithin := hsecrets hname htype options ho
    exact happlied.keeps (I := fun room => room.settings.Bounded limit)
      (fun _ _ option hm hb hset => hb.set (hwithin option hm) hset) h

theorem maxSize_setList {lists : Affiliations} {list : Affil} {l : AffiliationsList}
    (h : l.maxSize = (lists list).maxSize) (a : Affil) :
    (setList lists list l a).maxSize = (lists a).maxSize := by
  unfold setList
  split
  · next ha => rw [h, ha]
  · rfl

theorem maxSize_moveEntry {lists : Affiliations} {found : Option (Affil × Nat)}
    {affiliation : Affil} {jid : Jid} {reasonNode : Buffer} (a : Affil) :
    (moveEntry lists found affiliation jid reasonNode a).maxSize = (lists a).maxSize := by
  rcases found with - | ⟨list, i⟩
  · unfold moveEntry
    split
    · rfl
    · exact maxSize_setList (Dls.maxSize_append _ _) a
  · have hunlinked := @maxSize_setList lists list _ (Dls.maxSize_delete (lists list) i)
    unfold moveEntry
    split
    · exact hunlinked a
    · exact (maxSize_setList (Dls.maxSize_append _ _) a).trans (hunlinked a)

theorem maxSize_affiliationssAdd {lists lists' : Affiliations} {who : Option Participant}
    {affiliation : Affil} {jid : Jid} {reasonNode : Buffer}
    (h : affiliationssAdd lists who affiliation jid reasonNode = some lists') (a : Affil) :
    (lists' a).maxSize = (lists a).maxSize := by
  rw [affiliationssAdd_eq h]
  exact maxSize_moveEntry a

theorem maxSize_creatorAffiliations (room : Room) (jid : Jid) (a : Affil) :
    (creatorAffiliations room jid a).maxSize = (room.affiliations a).maxSize := by
  unfold creatorAffiliations
  split
  · cases h : affiliationssAdd room.affiliations none listOwner jid none with
    | none => rfl
    | some lists => exact maxSize_affiliationssAdd h a
  · rfl

/-- A participant is changed without its JID, and with a nick within the limit. -/
theorem KeptRoom.modify (h : KeptRoom J room) {addr : Nat} {f : Participant → Participant}
    (hjid : ∀ p, (f p).jid = p.jid)
    (hnick : ∀ p, bptSize p.nick ≤ maxJidPartSize → bptSize (f p).nick ≤ maxJidPartSize) :
    KeptRoom J (room.modify addr f) where
  jids := by
    intro b q hq
    obtain ⟨p, hp, rfl⟩ := Room.mem_occupants_modify.mp hq
    split
    · rw [hjid]
      exact h.jids b p hp
    · exact h.jids b p hp
  nicks := by
    intro b q hq
    obtain ⟨p, hp, rfl⟩ := Room.mem_occupants_modify.mp hq
    split
    · exact hnick p (h.nicks b p hp)
    · exact h.nicks b p hp
  subjectNode := h.subjectNode
  subjectNick := h.subjectNick
  lists := h.lists
  history := h.history

theorem KeptRoom.mapVals (h : KeptRoom J room) {f : Participant → Participant}
    (hjid : ∀ p, (f p).jid = p.jid) (hnick : ∀ p, (f p).nick = p.nick) :
    KeptRoom J (room.mapVals f) where
  jids := by
    intro b q hq
    obtain ⟨p, hp, rfl⟩ := Room.mem_occupants_mapVals.mp hq
    rw [hjid]
    exact h.jids b p hp
  nicks := by
    intro b q hq
    obtain ⟨p, hp, rfl⟩ := Room.mem_occupants_mapVals.mp hq
    rw [hnick]
    exact h.nicks b p hp
  subjectNode := h.subjectNode
  subjectNick := h.subjectNick
  lists := h.lists
  history := h.history

/-- Another room with the same occupants, subject and history. -/
theorem KeptRoom.of_lists (h : KeptRoom J room) (ho : room'.occupants = room.occupants)
    (hs : room'.subject = room.subject) (hh : room'.history = room.history)
    (hl : ∀ a, (room'.affiliations a).maxSize = (room.affiliations a).maxSize) : KeptRoom J room' where
  jids := ho ▸ h.jids
  nicks := ho ▸ h.nicks
  subjectNode := hs ▸ h.subjectNode
  subjectNick := hs ▸ h.subjectNick
  lists := fun a => (hl a).trans (h.lists a)
  history := hh.trans h.history

theorem KeptRoom.affectEach (st : AdminState) (h : KeptRoom J st.room) {reasonNode : Buffer}
    {f : Participant → Option Participant}
    (hf : ∀ p q, f p = some q → q.jid = p.jid ∧ q.nick = p.nick) :
    KeptRoom J (affectEach st reasonNode f).room :=
  h.mapVals (fun p => (names_affected hf p).1) (fun p => (names_affected hf p).2)

theorem KeptRoom.join (h : KeptRoom J room) {jid : Jid} {nick : Buffer} {affiliation : Int}
    (hjid : J (jidSet jid jidFull)) :
    KeptRoom J (roomJoin room jid nick affiliation).1 where
  jids := by
    intro b q hq
    rcases NodeList.mem_cons.mp hq with ⟨-, rfl⟩ | hq
    · exact hjid
    · exact h.jids b q hq
  nicks := by
    intro b q hq
    rcases NodeList.mem_cons.mp hq with ⟨-, rfl⟩ | hq
    · exact bptSetter_size (Nat.zero_le _)
    · exact h.nicks b q hq
  subjectNode := h.subjectNode
  subjectNick := h.subjectNick
  lists := h.lists
  history := h.history

theorem KeptRoom.leave (h : KeptRoom J room) (addr : Nat) : KeptRoom J (roomLeave room addr) where
  jids := by
    intro b q hq
    obtain ⟨hq, -⟩ := mem_occupants_roomLeave.mp hq
    exact h.jids b q hq
  nicks := by
    intro b q hq
    obtain ⟨hq, -⟩ := mem_occupants_roomLeave.mp hq
    exact h.nicks b q hq
  subjectNode := by
    unfold roomLeave
    simp only
    split <;> exact h.subjectNode
  subjectNick := by
    unfold roomLeave
    simp only
    split <;> exact h.subjectNick
  lists := by
    rw [affiliations_roomLeave]
    exact h.lists
  history := by
    unfold roomLeave
    simp only
    split <;> exact h.history

/-- **Every small change keeps the rest of the room within the limits of its readers.** -/
theorem KeptRoom.change (h : KeptRoom J room)
    (hok : ∀ ingress, ok ingress → J (jidSet ingress.realFrom jidFull) ∧
      bptSize ingress.proxyTo.resource ≤ maxJidPartSize)
    (hc : Change ok room room') : KeptRoom J room' := by
  cases hc with
  | adjust addr f hf =>
    refine h.modify (fun p => (hf p).jid) fun p hp => ?_
    rw [(hf p).nick]
    exact hp
  | adjustAll f hf => exact h.mapVals (fun p => (hf p).jid) (fun p => (hf p).nick)
  | subject addr sender node hm hsize =>
    exact ⟨h.jids, h.nicks, hsize, h.nicks addr sender hm, h.lists, h.history⟩
  | store inner history hstore =>
    -- the history is empty, so nothing can be stored
    rw [historyStore_empty inner (by rw [h.history]; rfl)] at hstore
    cases hstore
  | creator ingress hi =>
    exact h.of_lists rfl rfl rfl (maxSize_creatorAffiliations room ingress.realFrom)
  | join ingress mucNode acl affiliation hi hjid hres hnick hadmission =>
    have hcreated : KeptRoom J (withCreator room ingress.realFrom) :=
      h.of_lists rfl rfl rfl (maxSize_creatorAffiliations room ingress.realFrom)
    have hjoined : KeptRoom J (roomJoin (withCreator room ingress.realFrom) ingress.realFrom
        ingress.proxyTo.resource affiliation).1 :=
      hcreated.join (hok ingress hi).1
    exact hjoined.of_lists rfl rfl rfl fun _ => rfl
  | rename ingress addr hi hnick =>
    exact h.modify (fun p => rfl) fun p hp => (hok ingress hi).2
  | leave addr hm => exact h.leave addr
  | opened => exact h.of_lists rfl rfl rfl fun _ => rfl
  | option room' hoption =>
    cases hoption <;> exact h.of_lists rfl rfl rfl fun _ => rfl
  | affiliate ingress addr sender acl target affiliation affiliations hi hitem hjid hm hadmin
      hadd =>
    have hlists : KeptRoom J { room with affiliations := affiliations } :=
      h.of_lists rfl rfl rfl (maxSize_affiliationssAdd hadd)
    refine KeptRoom.affectEach _ hlists (fun p q hq => ?_)
    unfold reaffiliate at hq
    simp only at hq
    split at hq <;> cases hq
    exact ⟨rfl, rfl⟩
  | evict =>
    have hflag : KeptRoom J (room.setFlag mucFlagDestroyed true) := h.of_lists rfl rfl rfl fun _ => rfl
    refine KeptRoom.affectEach _ hflag (fun p q hq => ?_)
    cases hq
    exact ⟨rfl, rfl⟩

end Steps

/-! ## One room -/

/-- A room whose JIDs have `J`, with a limit for its password and one for its presences. -/
structure Within (J : Jid → Prop) (password presence : Nat) (room : Room) : Prop where
  kept : KeptRoom J room
  settings : room.settings.Bounded password
  presences : AllPresences (fun p => bptSize p ≤ presence) room

section Rooms

variable {J : Jid → Prop} {password presence : Nat} {room : Room}

theorem mem_occupants_of_written {p : Participant} (h : p ∈ writtenParticipants room) :
    ∃ addr, (addr, p) ∈ room.occupants := by
  obtain ⟨⟨addr, q⟩, hm, rfl⟩ := List.mem_map.mp (mem_of_mem_written h)
  exact ⟨addr, hm⟩

theorem isInt_participantsLimit {n : Int} (h : 0 < n ∧ n ≤ participantsLimit) : IsInt n := by
  have hlimit : participantsLimit = 1024 := rfl
  constructor <;> omega

theorem Within.storableHead (h : Within J password presence room) (hp : password < 2 ^ 31) :
    StorableHead room where
  node := h.settings.node
  title := h.settings.title
  description := h.settings.description
  password := Nat.lt_of_le_of_lt h.settings.password hp
  subjectNode := h.kept.subjectNode
  subjectNick := Nat.le_trans h.kept.subjectNick (by decide)
  defaultRole := by
    have hrole : room.defaultRole = roleParticipant ∨ room.defaultRole = roleVisitor :=
      h.settings.defaultRole
    rcases hrole with hr | hr <;> rw [hr] <;> decide
  participantsMaxSize := isInt_participantsLimit h.settings.maxOccupants
  historyMaxSize := by
    rw [h.kept.history]
    decide

theorem KeptRoom.history_reads (hk : KeptRoom J room) :
    Reads (containerSerialize historyEntrySerialize room.history.maxSize room.history.items)
      (containerDeserialize historyEntryDeserialize (.init room.history.maxSize))
      (savedDls savedHistoryEntry room.history.maxSize room.history.maxSize
        room.history.items) := by
  rw [hk.history]
  exact @Mukite.history_reads { room with history := .init 20 }
    (fun e he => absurd (mem_of_mem_written he) List.not_mem_nil) (.inl rfl)

/-- Nothing is ever written of the affiliation lists: their limit is 0. -/
theorem KeptRoom.storableAffiliations (hk : KeptRoom J room) (a : Affil) :
    StorableAffiliations (room.affiliations a) := by
  have hnone : written (room.affiliations a).maxSize (room.affiliations a).items = [] := by
    rw [hk.lists a]
    exact List.take_zero
  constructor
  · intro x hx
    rw [hnone] at hx
    cases hx
  · rw [hnone]
    decide

/-- A participant that is written is read or rejected. -/
theorem participant_reads_or_rejects (h : Within SetJid password presence room)
    (hp : presence < 2 ^ 31) {p : Participant} (hm : p ∈ writtenParticipants room) :
    (LoadableParticipant p ∧
      Reads (participantSerialize p) participantDeserialize (wrappedParticipant p)) ∨
    (¬ LoadableParticipant p ∧ Rejects (participantSerialize p) participantDeserialize) := by
  obtain ⟨addr, ho⟩ := mem_occupants_of_written hm
  have hjid := h.kept.jids addr p ho
  have hnick := h.kept.nicks addr p ho
  have hsize : bptSize p.presence < 2 ^ 31 := Nat.lt_of_le_of_lt (h.presences addr p ho) hp
  by_cases hload : LoadableParticipant p
  · exact .inl ⟨hload, participantDeserialize_wraps hjid hnick hload⟩
  · exact .inr ⟨hload, participantDeserialize_rejects hjid hnick hsize hload⟩

theorem limitFits_participants (h : room.settings.Bounded password) :
    LimitFits room.participants.maxSize (writtenParticipants room) := by
  have hlimit : participantsLimit = 1024 := rfl
  have hpos : 0 < room.participants.maxSize := h.maxOccupants.1
  have hle : room.participants.maxSize ≤ participantsLimit := h.maxOccupants.2
  have hlen : (writtenParticipants room).length ≤ room.participants.maxSize.toNat :=
    List.length_take_le _ _
  exact limitFits_of_lt (by omega) (by omega)

/-- **A room can be loaded exactly when those three fields are within the limits of the reader.** -/
theorem loads_iff (h : Within SetJid password presence room) (hpassword : password < 2 ^ 31)
    (hpresence : presence < 2 ^ 31) : Loads room ↔ Loadable room := by
  have hhead := h.storableHead hpassword
  have heach := fun p hm => @participant_reads_or_rejects password presence room h hpresence p hm
  constructor
  · intro hloads
    by_contra hbad
    refine hloads.not_rejects (roomDeserialize_rejects hhead ?_)
    by_cases hread : bptSize room.password ≤ userStringOptionLimit
    · -- the password is read, so it is one of the participants
      refine .inr (.inr ⟨⟨_, h.kept.history_reads⟩, ?_⟩)
      rw [containerSerialize_eq]
      refine @containerDeserialize_rejects _ _ _ _ wrappedParticipant _ _ (fun p hm => ?_) ?_
      · rcases heach p hm with ⟨-, hr⟩ | ⟨-, hr⟩
        · exact .inl hr
        · exact .inr hr
      · have hex : ¬ ∀ p ∈ writtenParticipants room, LoadableParticipant p :=
          fun hall => hbad ⟨hread, hall⟩
        simp only [not_forall] at hex
        obtain ⟨p, hm, hload⟩ := hex
        rcases heach p hm with ⟨hl, -⟩ | ⟨-, hr⟩
        · exact absurd hl hload
        · exact ⟨p, hm, hr⟩
    · exact .inl (Nat.lt_of_not_le hread)
  · intro hl
    have hparticipants : ∀ p ∈ writtenParticipants room,
        Reads (participantSerialize p) participantDeserialize (wrappedParticipant p) := by
      intro p hm
      rcases heach p hm with ⟨-, hr⟩ | ⟨hload, -⟩
      · exact hr
      · exact absurd (hl.participants p hm) hload
    have hread := containerDeserialize_reads hparticipants (limitFits_participants h.settings)
    unfold writtenParticipants written at hread
    rw [← containerSerialize_eq] at hread
    exact ⟨_, roomDeserialize_rebuilds hhead hl.password h.kept.history_reads hread
      h.kept.storableAffiliations⟩

end Rooms

/-! ## Runs -/

/-- A stanza that brings nothing into the room that its reader would reject. -/
structure Modest (room : Room) (stanza : Stanza) : Prop where
  /-- a form asks for no password beyond the limit of the reader -/
  secrets : stanza.ingress.name = .iq → stanza.ingress.type = stanzaIqSet → ∀ options,
    submittedOptions stanza.ingress = some options →
      SecretsWithin stanza.ingress.mem userStringOptionLimit options
  /-- no payload that an occupant is announced with is too long -/
  payload : stanza.ingress.name = .presence →
    PayloadHas (fun presence => bptSize presence ≤ maxPresenceSize) room stanza.ingress stanza.acl
  /-- the sender's JID is kept as one whose text is a JID -/
  sender : ¬ EndsAtSign (jidSet stanza.ingress.realFrom jidFull)

section Runs

variable {J : Jid → Prop} {password presence : Nat} {room room' : Room} {stanza : Stanza}
  {sent : List BuilderPacket} {node : Bytes}

/-- A payload is no longer than its stanza. -/
theorem Reasonable.payloadHas (h : Reasonable stanza) (room : Room) :
    PayloadHas (fun presence => bptSize presence ≤ reasonableRawLimit) room stanza.ingress
      stanza.acl := by
  have hinner : ∀ inner ∈ stanza.ingress.inner, inner.size ≤ reasonableRawLimit := by
    intro inner hi
    have hstop := (h.accepted.headerLaid.2 inner hi).2
    have hsize := h.size
    unfold Span.size
    omega
  intro inner hi
  cases huse : payloadUse room stanza.ingress stanza.acl with
  | unused | returned =>
    rw [huse] at hi
    cases hi
  | relayed =>
    rw [huse] at hi
    exact @innerBytes_size (cleanedPresence stanza.ingress) inner hinner hi
  | renamed =>
    rw [huse] at hi
    exact innerBytes_size hinner hi

theorem within_roomInit (hnode : node.length ≤ maxJidPartSize) :
    Within J password presence (roomInit node) :=
  ⟨kept_roomInit node, bounded_roomInit hnode, AllPresences.roomInit node⟩

/-- **A stanza within the limits leaves the room within them.** -/
theorem Within.step (h : Within J password presence room) (hok : Reasonable stanza)
    (hjid : J (jidSet stanza.ingress.realFrom jidFull))
    (hsecrets : stanza.ingress.name = .iq → stanza.ingress.type = stanzaIqSet → ∀ options,
      submittedOptions stanza.ingress = some options →
        SecretsWithin stanza.ingress.mem password options)
    (hpayload : stanza.ingress.name = .presence →
      PayloadHas (fun p => bptSize p ≤ presence) room stanza.ingress stanza.acl)
    (hs : roomStep room stanza = some (room', sent)) : Within J password presence room' where
  kept := by
    have hchanged := @roomStep_changed (fun ingress => ingress = stanza.ingress) _ _ _ _ rfl hs
    refine keeps_of_changed (fun _ _ hk hc => KeptRoom.change hk ?_ hc) hchanged h.kept
    rintro ingress rfl
    exact ⟨hjid, hok.accepted.parsed.2.resource_le⟩
  settings := h.settings.step hsecrets hs
  presences := h.presences.step (Nat.zero_le _) hpayload hs

theorem Reasonable.setJid (h : Reasonable stanza) : SetJid (jidSet stanza.ingress.realFrom jidFull) :=
  .parsed h.accepted.parsed.1 jidFull

/-- In every run the fields are within the limits of a stanza. -/
theorem within_of_reach (hnode : node.length ≤ maxJidPartSize)
    (h : Machine.Reach roomStep (fun _ stanza => Reasonable stanza) (roomInit node) room) :
    Within SetJid reasonableRawLimit reasonableRawLimit room := by
  refine h.invariant (within_roomInit hnode) (fun room stanza room' sent hw hok hs => ?_)
  refine hw.step hok hok.setJid ?_ (fun _ => hok.payloadHas room) hs
  intro _ _ options _ option _ _ b hb
  exact Nat.le_trans (Span.length_copy_le hb) hok.size

/-- In a run of modest stanzas they are within the limits of the reader. -/
theorem within_of_modest (hnode : node.length ≤ maxJidPartSize)
    (h : Machine.Reach roomStep (fun room stanza => Reasonable stanza ∧ Modest room stanza)
      (roomInit node) room) :
    Within (fun jid => SetJid jid ∧ ¬ EndsAtSign jid) userStringOptionLimit maxPresenceSize
      room := by
  refine h.invariant (within_roomInit hnode) (fun room stanza room' sent hw hok hs => ?_)
  obtain ⟨hok, hmodest⟩ := hok
  exact hw.step hok ⟨hok.setJid, hmodest.sender⟩ hmodest.secrets hmodest.payload hs

end Runs

/-! ## A presence of blanks -/

/-- The start tag of a presence with which alice enters a room. -/
def entryTag : Bytes := lit "<presence from='alice@h/pc' to='room@conf/al'>"

/-- The presence with `k` blanks for its payload. -/
def blankPresence (k : Nat) : Bytes :=
  entryTag ++ (List.replicate k (ch ' ') ++ lit "</presence>")

/-- What `packet_parse` makes of it. -/
def blankIngress (k : Nat) : IncomingPacket where
  name := .presence
  type := 0
  realFrom := { node := some (lit "alice"), host := some (lit "h"), resource := some (lit "pc") }
  proxyTo := { node := some (lit "room"), host := some (lit "conf"), resource := some (lit "al") }
  mem := blankPresence k
  header := { data := 9, stop := 45 }
  inner := some { data := 46, stop := 46 + k }
  fromAttr := some { name := { data := 10, stop := 14 }, value := { data := 16, stop := 26 } }
  toAttr := some { name := { data := 28, stop := 30 }, value := { data := 32, stop := 44 } }
  idAttr := none
  typeAttr := none
  muc := none
  mucUser := none

def blankStanza (k : Nat) : Stanza where
  ingress := blankIngress k
  acl := openAcl
  decisecondsLimit := 0
  ticks := 0

theorem length_blankPresence (k : Nat) : (blankPresence k).length = 57 + k := by
  have hhead : entryTag.length = 46 := by decide
  have htail : (lit "</presence>").length = 11 := by decide
  unfold blankPresence
  rw [List.length_append, List.length_append, List.length_replicate, hhead, htail]
  omega

theorem bytes_blankPresence (k : Nat) :
    Span.bytes (blankPresence k) { data := 46, stop := 46 + k } = List.replicate k (ch ' ') := by
  have hhead : entryTag.length = 46 := by decide
  unfold Span.bytes blankPresence
  dsimp only
  rw [← hhead, List.drop_left, Nat.add_sub_cancel_left]
  exact List.take_left' List.length_replicate

/-- No node is found among the blanks. -/
theorem xmlfsmNextSibling_blanks (k : Nat) :
    xmlfsmNextSibling (blankPresence k) { data := 46, stop := 46 + k } = some none := by
  have hskip : xmlfsmSkipNode (blankPresence k) { data := 46, stop := 46 + k } = some none := by
    have hloop := skipNodeLoop_blanks [] k 46
    rw [List.append_nil] at hloop
    unfold xmlfsmSkipNode
    rw [if_pos (Nat.le_add_right 46 k), bytes_blankPresence, hloop]
    rfl
  unfold xmlfsmNextSibling
  rw [hskip]
  rfl

theorem packetParse_blanks (k : Nat) : packetParse (blankPresence k) = some (some (blankIngress k)) := by
  have hinner : 46 + k = (blankPresence k).length - (9 - 1) - 3 := by
    rw [length_blankPresence]
    omega
  have hsearch : parsePresenceInner (blankIngress k) = some (some (blankIngress k)) := by
    have hloop : siblingLoop (blankIngress k).mem presenceChild (spanOf (blankIngress k).inner)
        (blankIngress k) = some (.inl (blankIngress k)) := by
      show siblingLoop (blankPresence k) presenceChild { data := 46, stop := 46 + k } _ = _
      unfold siblingLoop rounds
      rw [WhileLoop.whileLoop]
      simp only [xmlfsmNextSibling_blanks]
      rfl
    unfold parsePresenceInner
    rw [hloop]
    rfl
  have hparse : packetParse (blankPresence k) = parsePresenceInner { blankIngress k with
      inner := some { data := 46, stop := (blankPresence k).length - (9 - 1) - 3 } } := rfl
  rw [hparse, ← hinner]
  exact hsearch

theorem reasonable_blanks {k : Nat} (h : 57 + k ≤ reasonableRawLimit) :
    Reasonable (blankStanza k) where
  accepted := ⟨blankPresence k, packetParse_blanks k⟩
  size := by
    show (blankPresence k).length ≤ reasonableRawLimit
    rw [length_blankPresence]
    exact h

/-- The payload is as long after the clean-up as before. -/
theorem innerBytes_blanks (k : Nat) : ∃ b : Bytes,
    (cleanedPresence (blankIngress k)).innerBytes = some (some b) ∧ b.length = k := by
  have hmem : (cleanedPresence (blankIngress k)).mem
      = memcpy (memcpy (blankPresence k) 28 (List.replicate 17 (ch ' '))) 10
        (List.replicate 17 (ch ' ')) := rfl
  have hlen : (cleanedPresence (blankIngress k)).mem.length = 57 + k := by
    rw [hmem, length_memcpy, length_memcpy, length_blankPresence]
    · rw [length_blankPresence, List.length_replicate]
      omega
    · rw [length_memcpy, length_blankPresence, List.length_replicate]
      · omega
      · rw [length_blankPresence, List.length_replicate]
        omega
  refine ⟨Span.bytes (cleanedPresence (blankIngress k)).mem { data := 46, stop := 46 + k }, ?_, ?_⟩
  · show (Span.copy _ { data := 46, stop := 46 + k }).map some = _
    unfold Span.copy
    rw [if_neg (by simp)]
    rfl
  · rw [Span.length_bytes (by rw [hlen]; simp)]
    simp

/-- Alice as she enters the room that she creates. -/
def creatorParticipant (k : Nat) : Participant :=
  joiner (withCreator (roomInit (lit "room")) (blankIngress k).realFrom)
    (blankIngress k).realFrom (blankIngress k).proxyTo.resource affilOwner

/-- The room before her presence is announced. -/
def enteredRoom (k : Nat) : Room :=
  (roomJoin (withCreator (roomInit (lit "room")) (blankIngress k).realFrom)
    (blankIngress k).realFrom (blankIngress k).proxyTo.resource affilOwner).1

theorem admission_blanks (k : Nat) :
    admission (withCreator (roomInit (lit "room")) (blankIngress k).realFrom) (blankIngress k) {}
      openAcl = .ok affilOwner := by
  have hrole : aclRole openAcl (blankIngress k).realFrom = aclMucCreate := rfl
  have haffiliation : affiliationssGetByJid (withCreator (roomInit (lit "room"))
      (blankIngress k).realFrom).affiliations openAcl (blankIngress k).realFrom = affilOwner := rfl
  unfold admission
  rw [hrole, haffiliation, if_neg (by decide), if_neg (by simp [roomInit, withCreator])]
  simp only [if_neg (show ¬ affilOwner = affilOutcast by decide)]
  rw [if_neg (by simp), if_neg (by simp [affilOwner, affilMember])]

theorem presenceSender_blanks (k : Nat) :
    presenceSender (roomInit (lit "room")) (blankIngress k) openAcl
      = some (.go (enteredRoom k)
          (roomPresencesSend (enteredRoom k) (1, creatorParticipant k)) 1
          (cleanedPresence (blankIngress k)) true) := by
  have hadmission := admission_blanks k
  unfold withCreator at hadmission
  show newcomerPresence (roomInit (lit "room")) (blankIngress k) {} openAcl = _
  unfold newcomerPresence
  rw [if_neg (show ¬ (blankIngress k).type = stanzaPresenceUnavailable by intro h; cases h)]
  simp only [hadmission]
  rfl

/-- **The presence is kept with all its blanks.** -/
theorem blanks_kept {k : Nat} (hpos : 0 < k) (hle : k ≤ reasonableRawLimit) :
    ∃ room sent p, roomStep (roomInit (lit "room")) (blankStanza k) = some (room, sent) ∧
      writtenParticipants room = [p] ∧ bptSize p.presence = k := by
  obtain ⟨b, hinner, hlen⟩ := innerBytes_blanks k
  have hannounce : ∃ room sent, presenceAnnounce (enteredRoom k) 1
      (cleanedPresence (blankIngress k)) true = some (room, sent) := by
    unfold presenceAnnounce
    rw [hinner]
    exact ⟨_, _, rfl⟩
  obtain ⟨room, announced, hannounce⟩ := hannounce
  have hstep : roomStep (roomInit (lit "room")) (blankStanza k)
      = some (room, roomPresencesSend (enteredRoom k) (1, creatorParticipant k) ++ announced) := by
    show routePresence (roomInit (lit "room")) (blankIngress k) openAcl = _
    unfold routePresence
    rw [presenceSender_blanks]
    show (presenceAnnounce _ _ _ _).bind _ = _
    rw [hannounce]
    rfl
  have hm : (1, creatorParticipant k) ∈ (enteredRoom k).occupants := List.mem_cons_self
  obtain ⟨inner, hi, hcase⟩ := presenceAnnounce_case hm hannounce
  obtain rfl : some b = inner := Option.some.inj (hinner.symm.trans hi)
  cases hcase with
  | left htype => cases htype
  | stayed htype =>
    refine ⟨_, _, _, hstep, rfl, ?_⟩
    show bptSize (cachedPresence (some b)) = k
    have hsize : bptSize (some b) = k := hlen
    unfold cachedPresence
    rw [if_pos (by rw [hsize]; exact hle), if_neg, hsize]
    unfold bptBlank
    rw [hsize, beq_iff_eq]
    exact Nat.ne_of_gt hpos

theorem reach_blanks {k : Nat} {room : Room} {sent : List BuilderPacket}
    (h : 57 + k ≤ reasonableRawLimit)
    (hs : roomStep (roomInit (lit "room")) (blankStanza k) = some (room, sent)) :
    Machine.Reach roomStep (fun _ stanza => Reasonable stanza) (roomInit (lit "room")) room :=
  .next .start (reasonable_blanks h) hs

end Mukite
