import Mukite.Properties.DataFile

/-!
# A room in the data file

What `room_deserialize` makes of what `room_serialize` has written.

* `roomDeserialize_reads`: the room it rebuilds, when every part of it can be read.
* `roomDeserialize_rejects`: where it stops otherwise.
* **`roundTrips_iff`**: a room within the limits of the readers comes back as it was, exactly when
  twice the limit of each of its non-empty lists is still an `int`.
-/

namespace Mukite

open Codec

/-! ## What is written of a room -/

/-- The items that a container with the given limit writes. -/
def written {α : Type} (maxSize : Int) (items : List α) : List α := items.take maxSize.toNat

theorem written_eq {α : Type} {maxSize : Int} {items : List α}
    (h : (items.length : Int) ≤ maxSize) : written maxSize items = items :=
  List.take_of_length_le (by omega)

theorem mem_of_mem_written {α : Type} {maxSize : Int} {items : List α} {x : α}
    (h : x ∈ written maxSize items) : x ∈ items := List.mem_of_mem_take h

/-- A list as it is read back: every item has been counted twice. -/
def savedDls {α β : Type} (saved : α → β) (maxSize limit : Int) (items : List α) : Dls β where
  items := (written maxSize items).map saved
  size := 2 * (written maxSize items).length
  maxSize := limit

def savedAffiliations (affiliations : AffiliationsList) : AffiliationsList :=
  savedDls savedAffiliation affiliations.maxSize loadedAffiliationsLimit affiliations.items

def savedParticipants (participants : ParticipantsList) : Dls Participant :=
  savedDls savedParticipant participants.maxSize participants.maxSize participants.nodes.vals

/-- The room that is rebuilt from what a room has written. -/
def savedRoom (room : Room) : Room where
  node := savedBuffer room.node
  title := savedBuffer room.title
  description := savedBuffer room.description
  password := savedBuffer room.password
  flags := room.flags
  defaultRole := room.defaultRole
  unused := room.unused
  participants :=
    { nodes := .ofList (savedParticipants room.participants).items
      size := (savedParticipants room.participants).size
      maxSize := room.participants.maxSize }
  affiliations := loadedAffiliations (savedAffiliations (room.affiliations listOwner))
    (savedAffiliations (room.affiliations listAdmin))
    (savedAffiliations (room.affiliations listMember))
    (savedAffiliations (room.affiliations listOutcast))
  history := savedDls savedHistoryEntry room.history.maxSize room.history.maxSize
    room.history.items
  subject := { node := savedBuffer room.subject.node, nick := savedBuffer room.subject.nick }

/-! ## Reading a room -/

/-- The fields before the lists, all but the password, are within the limits of their readers. -/
structure StorableHead (room : Room) : Prop where
  node : bptSize room.node ≤ maxJidPartSize
  title : bptSize room.title ≤ userStringOptionLimit
  description : bptSize room.description ≤ userStringOptionLimit
  password : bptSize room.password < 2 ^ 31
  subjectNode : bptSize room.subject.node ≤ userStringOptionLimit
  subjectNick : bptSize room.subject.nick ≤ userStringOptionLimit
  defaultRole : IsInt room.defaultRole
  participantsMaxSize : IsInt room.participants.maxSize
  historyMaxSize : IsInt room.history.maxSize

/-- Every entry that a list writes can be read, and there is room for them all. -/
structure StorableAffiliations (affiliations : AffiliationsList) : Prop where
  entries : ∀ x ∈ written affiliations.maxSize affiliations.items, StorableAffiliation x
  fits : (written affiliations.maxSize affiliations.items).length ≤ loadedAffiliationsLimit

theorem affiliationsDeserialize_reads {affiliations : AffiliationsList}
    (h : StorableAffiliations affiliations) :
    Reads (affiliationsSerialize affiliations)
      (affiliationsDeserialize (.init loadedAffiliationsLimit))
      (savedAffiliations affiliations) := by
  unfold affiliationsSerialize affiliationsDeserialize
  rw [containerSerialize_eq]
  exact containerDeserialize_reads (fun x hx => affiliationDeserialize_reads (h.entries x hx))
    (limitFits_of_lt h.fits (by decide))

section Reading

variable {room : Room}

theorem history_reads
    (hentries : ∀ x ∈ written room.history.maxSize room.history.items, StorableEntry x)
    (hfits : LimitFits room.history.maxSize (written room.history.maxSize room.history.items)) :
    Reads (containerSerialize historyEntrySerialize room.history.maxSize room.history.items)
      (containerDeserialize historyEntryDeserialize (.init room.history.maxSize))
      (savedDls savedHistoryEntry room.history.maxSize room.history.maxSize
        room.history.items) := by
  rw [containerSerialize_eq]
  exact containerDeserialize_reads
    (fun x hx => historyEntryDeserialize_reads (hentries x hx)) hfits

/-- The participants that are written. -/
def writtenParticipants (room : Room) : List Participant :=
  written room.participants.maxSize room.participants.nodes.vals

theorem participants_reads
    (hentries : ∀ p ∈ writtenParticipants room, StorableParticipant p ∧ LoadableParticipant p)
    (hfits : LimitFits room.participants.maxSize (writtenParticipants room)) :
    Reads (containerSerialize participantSerialize room.participants.maxSize
        room.participants.nodes.vals)
      (containerDeserialize participantDeserialize (.init room.participants.maxSize))
      (savedParticipants room.participants) := by
  rw [containerSerialize_eq]
  exact containerDeserialize_reads
    (fun p hp => participantDeserialize_reads (hentries p hp).1 (hentries p hp).2) hfits

/-- The room that is rebuilt with the given participants. -/
def rebuiltRoom (room : Room) (participants : Dls Participant) : Room :=
  { savedRoom room with
    participants :=
      { nodes := .ofList participants.items
        size := participants.size
        maxSize := participants.maxSize } }

/-- **A room is read back field by field**, with the participants that are read. -/
theorem roomDeserialize_rebuilds {participants : Dls Participant} (h : StorableHead room)
    (hpassword : bptSize room.password ≤ userStringOptionLimit)
    (hhistory : Reads
      (containerSerialize historyEntrySerialize room.history.maxSize room.history.items)
      (containerDeserialize historyEntryDeserialize (.init room.history.maxSize))
      (savedDls savedHistoryEntry room.history.maxSize room.history.maxSize room.history.items))
    (hparticipants : Reads
      (containerSerialize participantSerialize room.participants.maxSize
        room.participants.nodes.vals)
      (containerDeserialize participantDeserialize (.init room.participants.maxSize))
      participants)
    (haffiliations : ∀ a, StorableAffiliations (room.affiliations a)) :
    Reads (roomSerialize room) roomDeserialize (rebuiltRoom room participants) := by
  simp only [roomSerialize, List.flatten_cons, List.flatten_nil]
  refine Reads.bind (bufferDeserialize_reads h.node (by decide)) ?_
  refine Reads.bind (bufferDeserialize_reads h.title (by decide)) ?_
  refine Reads.bind (bufferDeserialize_reads h.description (by decide)) ?_
  refine Reads.bind (bufferDeserialize_reads hpassword (by decide)) ?_
  refine Reads.bind (bufferDeserialize_reads h.subjectNode (by decide)) ?_
  refine Reads.bind (bufferDeserialize_reads h.subjectNick (by decide)) ?_
  refine Reads.bind (flagsDeserialize_reads room.flags) ?_
  refine Reads.bind (intDeserialize_reads h.defaultRole) ?_
  refine Reads.bind (intDeserialize_reads h.participantsMaxSize) ?_
  refine Reads.bind (intDeserialize_reads h.historyMaxSize) ?_
  refine Reads.bind (unusedDeserialize_reads room.unused) ?_
  refine Reads.bind hhistory ?_
  refine Reads.bind hparticipants ?_
  refine Reads.bind (affiliationsDeserialize_reads (haffiliations listOwner)) ?_
  refine Reads.bind (affiliationsDeserialize_reads (haffiliations listAdmin)) ?_
  refine Reads.bind (affiliationsDeserialize_reads (haffiliations listMember)) ?_
  exact Reads.bind (affiliationsDeserialize_reads (haffiliations listOutcast)) (Reads.pure _)

theorem roomDeserialize_reads (h : StorableHead room)
    (hpassword : bptSize room.password ≤ userStringOptionLimit)
    (hhistory : Reads
      (containerSerialize historyEntrySerialize room.history.maxSize room.history.items)
      (containerDeserialize historyEntryDeserialize (.init room.history.maxSize))
      (savedDls savedHistoryEntry room.history.maxSize room.history.maxSize room.history.items))
    (hparticipants : Reads
      (containerSerialize participantSerialize room.participants.maxSize
        room.participants.nodes.vals)
      (containerDeserialize participantDeserialize (.init room.participants.maxSize))
      (savedParticipants room.participants))
    (haffiliations : ∀ a, StorableAffiliations (room.affiliations a)) :
    Reads (roomSerialize room) roomDeserialize (savedRoom room) :=
  roomDeserialize_rebuilds h hpassword hhistory hparticipants haffiliations

/-- The lists of a room that cannot be read: the history, or the participants after it. -/
def UnreadableLists (room : Room) : Prop :=
  Rejects (containerSerialize historyEntrySerialize room.history.maxSize room.history.items)
      (containerDeserialize historyEntryDeserialize (.init room.history.maxSize)) ∨
    Accepts (containerSerialize historyEntrySerialize room.history.maxSize room.history.items)
        (containerDeserialize historyEntryDeserialize (.init room.history.maxSize)) ∧
      Rejects (containerSerialize participantSerialize room.participants.maxSize
          room.participants.nodes.vals)
        (containerDeserialize participantDeserialize (.init room.participants.maxSize))

/-- **A room is rejected at the first part that cannot be read.** -/
theorem roomDeserialize_rejects (h : StorableHead room)
    (hbad : userStringOptionLimit < bptSize room.password ∨ UnreadableLists room) :
    Rejects (roomSerialize room) roomDeserialize := by
  simp only [roomSerialize, List.flatten_cons, List.flatten_nil]
  refine Rejects.bind_right (bufferDeserialize_reads h.node (by decide)) ?_
  refine Rejects.bind_right (bufferDeserialize_reads h.title (by decide)) ?_
  refine Rejects.bind_right (bufferDeserialize_reads h.description (by decide)) ?_
  by_cases hpassword : userStringOptionLimit < bptSize room.password
  · exact Rejects.bind_left (bufferDeserialize_rejects hpassword h.password)
  have hlists := hbad.resolve_left hpassword
  refine Rejects.bind_right
    (bufferDeserialize_reads (Nat.le_of_not_lt hpassword) (by decide)) ?_
  refine Rejects.bind_right (bufferDeserialize_reads h.subjectNode (by decide)) ?_
  refine Rejects.bind_right (bufferDeserialize_reads h.subjectNick (by decide)) ?_
  refine Rejects.bind_right (flagsDeserialize_reads room.flags) ?_
  refine Rejects.bind_right (intDeserialize_reads h.defaultRole) ?_
  refine Rejects.bind_right (intDeserialize_reads h.participantsMaxSize) ?_
  refine Rejects.bind_right (intDeserialize_reads h.historyMaxSize) ?_
  refine Rejects.bind_right (unusedDeserialize_reads room.unused) ?_
  rcases hlists with hhistory | ⟨⟨history, hhistory⟩, hparticipants⟩
  · exact Rejects.bind_left hhistory
  · refine Rejects.bind_right hhistory ?_
    exact Rejects.bind_left hparticipants

end Reading

/-! ## The round trip -/

/-- Two buffers with the same text. A null string counts as an empty one. -/
def SameText (b₁ b₂ : Buffer) : Prop := bptBytes b₁ = bptBytes b₂

structure SameEntry (e₁ e₂ : HistoryEntry) : Prop where
  nick : SameText e₁.nick e₂.nick
  header : SameText e₁.header e₂.header
  inner : SameText e₁.inner e₂.inner
  delay : e₁.delay = e₂.delay

structure SameParticipant (p₁ p₂ : Participant) : Prop where
  jid : p₁.jid = p₂.jid
  nick : SameText p₁.nick p₂.nick
  presence : SameText p₁.presence p₂.presence
  affiliation : p₁.affiliation = p₂.affiliation
  role : p₁.role = p₂.role

structure SameAffiliation (a₁ a₂ : Affiliation) : Prop where
  jid : a₁.jid = a₂.jid
  reasonNode : SameText a₁.reasonNode a₂.reasonNode

/-- The lists of a room that are saved. -/
def savedLists : List Affil := [listOwner, listAdmin, listMember, listOutcast]

/-- Two rooms that are the same but for what is not saved and the size counters. -/
structure SameRoom (r₁ r₂ : Room) : Prop where
  node : SameText r₁.node r₂.node
  title : SameText r₁.title r₂.title
  description : SameText r₁.description r₂.description
  password : SameText r₁.password r₂.password
  subjectNode : SameText r₁.subject.node r₂.subject.node
  subjectNick : SameText r₁.subject.nick r₂.subject.nick
  flags : r₁.flags = r₂.flags
  defaultRole : r₁.defaultRole = r₂.defaultRole
  participantsMaxSize : r₁.participants.maxSize = r₂.participants.maxSize
  historyMaxSize : r₁.history.maxSize = r₂.history.maxSize
  unused : r₁.unused = r₂.unused
  history : List.Forall₂ SameEntry r₁.history.items r₂.history.items
  participants :
    List.Forall₂ SameParticipant r₁.participants.nodes.vals r₂.participants.nodes.vals
  affiliations : ∀ a ∈ savedLists,
    List.Forall₂ SameAffiliation (r₁.affiliations a).items (r₂.affiliations a).items

/-- Whatever follows in the file, reading takes exactly what was written and gives the room back. -/
def RoundTrips (room : Room) : Prop :=
  ∀ rest, ∃ room', roomDeserialize.run (roomSerialize room ++ rest) = some (room', rest) ∧
    SameRoom room room'

/-- A copy made by `jid_set`, and no `@` in the host if it has no node. -/
def PlainJid (jid : Jid) : Prop := SetJid jid ∧ (jid.node = none → ch '@' ∉ bptBytes jid.host)

/--
A room within the limits of the readers: its strings, its lists (none longer than its own limit)
and its JIDs.
-/
structure Storable (room : Room) : Prop where
  head : StorableHead room
  password : bptSize room.password ≤ userStringOptionLimit
  historyEntries : ∀ e ∈ room.history.items, StorableEntry e
  historyLength : (room.history.items.length : Int) ≤ room.history.maxSize
  participantEntries : ∀ p ∈ room.participants.nodes.vals,
    PlainJid p.jid ∧ bptSize p.nick ≤ maxJidPartSize ∧ bptSize p.presence ≤ maxPresenceSize ∧
      IsInt p.affiliation ∧ IsInt p.role
  participantsLength : (room.participants.nodes.vals.length : Int) ≤ room.participants.maxSize
  affiliationEntries : ∀ a, ∀ x ∈ (room.affiliations a).items,
    PlainJid x.jid ∧ bptSize x.reasonNode ≤ maxAffiliationReasonSize
  affiliationsLength : ∀ a,
    ((room.affiliations a).items.length : Int) ≤ (room.affiliations a).maxSize ∧
      ((room.affiliations a).items.length : Int) ≤ loadedAffiliationsLimit

theorem sameText_saved (buffer : Buffer) : SameText buffer (savedBuffer buffer) :=
  (bptBytes_savedBuffer buffer).symm

theorem PlainJid.loads {jid : Jid} (h : PlainJid jid) : ¬ EndsAtSign jid := by
  rintro ⟨hn, s, -, hhost⟩
  refine h.2 hn ?_
  rw [hhost]
  exact List.mem_append_right s List.mem_cons_self

/-- Every item of a list is the same as the saved one. -/
theorem forall₂_saved {α : Type} {R : α → α → Prop} {saved : α → α} : ∀ {items : List α},
    (∀ x ∈ items, R x (saved x)) → List.Forall₂ R items (items.map saved)
  | [], _ => .nil
  | x :: _, h => .cons (h x List.mem_cons_self)
      (forall₂_saved fun y hy => h y (List.mem_cons_of_mem _ hy))

section RoundTrip

variable {room : Room}

theorem Storable.written_history (h : Storable room) :
    written room.history.maxSize room.history.items = room.history.items :=
  written_eq h.historyLength

theorem Storable.written_participants (h : Storable room) :
    writtenParticipants room = room.participants.nodes.vals := written_eq h.participantsLength

theorem Storable.storableAffiliations (h : Storable room) (a : Affil) :
    StorableAffiliations (room.affiliations a) where
  entries := by
    intro x hx
    have hx := h.affiliationEntries a x (mem_of_mem_written hx)
    exact ⟨hx.1.1, hx.1.loads, hx.2⟩
  fits := by
    rw [written_eq (h.affiliationsLength a).1]
    exact (h.affiliationsLength a).2

theorem Storable.participant (h : Storable room) {p : Participant}
    (hp : p ∈ writtenParticipants room) : StorableParticipant p ∧ LoadableParticipant p := by
  obtain ⟨hjid, hnick, hpresence, haffiliation, hrole⟩ :=
    h.participantEntries p (mem_of_mem_written hp)
  have hlt : bptSize p.presence < 2 ^ 31 := Nat.lt_of_le_of_lt hpresence (by decide)
  exact ⟨⟨hjid.1, hnick, hlt, haffiliation, hrole⟩, hjid.loads, hpresence⟩

/-- The saved lists of a room come back entry by entry. -/
theorem Storable.sameAffiliations (h : Storable room) (a : Affil) :
    List.Forall₂ SameAffiliation (room.affiliations a).items
      (savedAffiliations (room.affiliations a)).items := by
  show List.Forall₂ _ _ ((written _ _).map savedAffiliation)
  rw [written_eq (h.affiliationsLength a).1]
  refine forall₂_saved fun x hx => ⟨?_, sameText_saved _⟩
  obtain ⟨hjid, -⟩ := h.affiliationEntries a x hx
  exact (savedJid_eq hjid.1 hjid.2).symm

/-- **What is rebuilt is the same room.** -/
theorem sameRoom_saved (h : Storable room) : SameRoom room (savedRoom room) where
  node := sameText_saved _
  title := sameText_saved _
  description := sameText_saved _
  password := sameText_saved _
  subjectNode := sameText_saved _
  subjectNick := sameText_saved _
  flags := rfl
  defaultRole := rfl
  participantsMaxSize := rfl
  historyMaxSize := rfl
  unused := rfl
  history := by
    show List.Forall₂ _ _ ((written _ _).map savedHistoryEntry)
    rw [h.written_history]
    exact forall₂_saved fun e _ =>
      ⟨sameText_saved _, sameText_saved _, sameText_saved _, rfl⟩
  participants := by
    show List.Forall₂ _ _ (NodeList.ofList ((writtenParticipants room).map savedParticipant)).vals
    rw [NodeList.vals_ofList, h.written_participants]
    refine forall₂_saved fun p hp => ⟨?_, sameText_saved _, sameText_saved _, rfl, rfl⟩
    obtain ⟨hjid, -⟩ := h.participantEntries p hp
    exact (savedJid_eq hjid.1 hjid.2).symm
  affiliations := by
    intro a ha
    have hsame := h.sameAffiliations
    simp only [savedLists, List.mem_cons, List.not_mem_nil, or_false] at ha
    rcases ha with rfl | rfl | rfl | rfl
    · exact hsame listOwner
    · exact hsame listAdmin
    · exact hsame listMember
    · exact hsame listOutcast

/-- A list is empty, or its limit is small enough to be doubled. -/
def Doubles {α : Type} (maxSize : Int) (items : List α) : Prop :=
  items = [] ∨ maxSize < 2 ^ 30

theorem Doubles.fits {α : Type} {maxSize : Int} {items : List α} (h : Doubles maxSize items)
    (hlen : (items.length : Int) ≤ maxSize) : LimitFits maxSize items := by
  rcases h with h | h
  · exact .inl h
  · exact limitFits_of_lt hlen h

theorem not_doubles {α : Type} {maxSize : Int} {items : List α} (h : ¬ Doubles maxSize items)
    (hint : IsInt maxSize) : items ≠ [] ∧ cInt (maxSize * 2) < 1 := by
  refine ⟨fun he => h (.inl he), cInt_double_nonpos hint ?_⟩
  exact Int.not_lt.mp fun hlt => h (.inr hlt)

theorem Storable.history_reads (h : Storable room)
    (hd : Doubles room.history.maxSize room.history.items) :
    Reads (containerSerialize historyEntrySerialize room.history.maxSize room.history.items)
      (containerDeserialize historyEntryDeserialize (.init room.history.maxSize))
      (savedDls savedHistoryEntry room.history.maxSize room.history.maxSize
        room.history.items) := by
  refine Mukite.history_reads (fun e he => h.historyEntries e (mem_of_mem_written he)) ?_
  rw [h.written_history]
  exact hd.fits h.historyLength

theorem Storable.roundTrips (h : Storable room)
    (hhistory : Doubles room.history.maxSize room.history.items)
    (hparticipants : Doubles room.participants.maxSize room.participants.nodes.vals) :
    RoundTrips room := by
  intro rest
  have hfits : LimitFits room.participants.maxSize (writtenParticipants room) := by
    rw [h.written_participants]
    exact hparticipants.fits h.participantsLength
  have hreads := roomDeserialize_reads h.head h.password (h.history_reads hhistory)
    (participants_reads (fun _ hp => h.participant hp) hfits) h.storableAffiliations
  exact ⟨savedRoom room, hreads rest, sameRoom_saved h⟩

theorem RoundTrips.not_rejects (h : RoundTrips room) :
    ¬ Rejects (roomSerialize room) roomDeserialize := by
  intro hrej
  obtain ⟨room', hrun, -⟩ := h []
  rw [hrej []] at hrun
  cases hrun

theorem Storable.doubles_history (h : Storable room) (htrip : RoundTrips room) :
    Doubles room.history.maxSize room.history.items := by
  by_contra hd
  obtain ⟨hne, hneg⟩ := not_doubles hd h.head.historyMaxSize
  rw [← h.written_history] at hne
  refine htrip.not_rejects (roomDeserialize_rejects h.head (.inr (.inl ?_)))
  rw [containerSerialize_eq]
  exact containerDeserialize_overflow hne hneg

theorem Storable.doubles_participants (h : Storable room) (htrip : RoundTrips room) :
    Doubles room.participants.maxSize room.participants.nodes.vals := by
  by_contra hd
  obtain ⟨hne, hneg⟩ := not_doubles hd h.head.participantsMaxSize
  rw [← h.written_participants] at hne
  have hhistory := h.history_reads (h.doubles_history htrip)
  refine htrip.not_rejects (roomDeserialize_rejects h.head (.inr (.inr ⟨⟨_, hhistory⟩, ?_⟩)))
  rw [containerSerialize_eq]
  exact containerDeserialize_overflow hne hneg

/--
**A room within the limits survives the data file exactly when twice the limit of its history and
of its participants is still an `int`, or the list is empty.**
-/
theorem roundTrips_iff (h : Storable room) :
    RoundTrips room ↔
      Doubles room.history.maxSize room.history.items ∧
        Doubles room.participants.maxSize room.participants.nodes.vals := by
  constructor
  · intro htrip
    exact ⟨h.doubles_history htrip, h.doubles_participants htrip⟩
  · rintro ⟨hhistory, hparticipants⟩
    exact h.roundTrips hhistory hparticipants

end RoundTrip

/-! ## A room of one guest -/

def guestJid : Jid := { node := some (lit "al"), host := some (lit "h"), resource := some (lit "pc") }

/-- A room with a single participant and the given limit for them. -/
def guestRoom (maxSize : Int) : Room :=
  let room := (roomJoin (roomInit (lit "room")) guestJid (some (lit "al")) affilNone).1
  { room with participants := { room.participants with maxSize := maxSize } }

theorem guestJid_parsed : ParsedJid guestJid := ⟨lit "al@h/pc", by decide⟩

theorem guestRoom_storable {maxSize : Int} (hpos : 1 ≤ maxSize) (hint : IsInt maxSize) :
    Storable (guestRoom maxSize) where
  head := {
    node := by show bptSize (some (lit "room")) ≤ _; decide
    title := Nat.zero_le _
    description := Nat.zero_le _
    password := by show 0 < _; decide
    subjectNode := Nat.zero_le _
    subjectNick := Nat.zero_le _
    defaultRole := by show IsInt roleParticipant; decide
    participantsMaxSize := hint
    historyMaxSize := by show IsInt 20; decide }
  password := Nat.zero_le _
  historyEntries := fun e he => absurd he List.not_mem_nil
  historyLength := by show (0 : Int) ≤ 20; decide
  participantEntries := by
    intro p hp
    obtain rfl : p = joiner (roomInit (lit "room")) guestJid (some (lit "al")) affilNone :=
      List.mem_singleton.mp hp
    exact ⟨⟨.parsed guestJid_parsed jidFull, by decide⟩, by decide, by decide, by decide, by decide⟩
  participantsLength := hpos
  affiliationEntries := fun a x hx => absurd hx List.not_mem_nil
  affiliationsLength := fun a => ⟨Int.le_refl 0, by show (0 : Int) ≤ loadedAffiliationsLimit; decide⟩

/-- With a limit of `2^30` the guest is written, but the room is not read back. -/
theorem guestRoom_lost : ¬ ∀ room, Storable room → RoundTrips room := by
  intro h
  have hs := @guestRoom_storable (2 ^ 30) (by decide) (by decide)
  rcases hs.doubles_participants (h _ hs) with hnil | hlt
  · cases hnil
  · exact absurd hlt (Int.lt_irrefl _)

theorem roundTrips_iff_guestRoom : RoundTrips (guestRoom 100) :=
  (roundTrips_iff (guestRoom_storable (by decide) (by decide))).mpr
    ⟨.inl rfl, .inr (by decide)⟩

end Mukite
