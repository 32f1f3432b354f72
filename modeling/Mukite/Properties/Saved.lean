import Mukite.Rooms
import Mukite.Properties.Loading

/-!
# What is saved of the table

`rooms_serialize` writes no more of a container than its limit. The table gets its limit when a
data file is opened, and a room gets those of its affiliation lists when it is read from there.
Nothing gives a limit to what is created later, so of that nothing is written.
-/

namespace Mukite

open Codec

/-! ## What should be written -/

/-- The list with a limit that leaves room for all its entries. -/
def Dls.unlimited {α : Type} (l : Dls α) : Dls α := { l with maxSize := l.items.length }

/-- The room with limits that leave room for all the entries of its affiliation lists. -/
def Room.unlimited (room : Room) : Room :=
  { room with affiliations := fun a => (room.affiliations a).unlimited }

/-- The table with limits that leave room for all its rooms and their affiliations. -/
def Rooms.unlimited (rooms : Rooms) : Rooms :=
  { rooms with
    table := { rooms.table with items := rooms.table.items.map Room.unlimited }.unlimited }

/-- What is written is what would be written if no limit cut it short. -/
def NothingLost (rooms : Rooms) : Prop := roomsSerialize rooms = roomsSerialize rooms.unlimited

section Written

variable {α : Type} {f : α → Bytes}

theorem containerSerialize_unlimited (f : α → Bytes) (l : Dls α) :
    containerSerialize f l.unlimited.maxSize l.unlimited.items = markedItems f l.items := by
  rw [containerSerialize_eq]
  exact congrArg (markedItems f) List.take_length

theorem markSerialize_ne_nil (presenceMark : Bool) : markSerialize presenceMark ≠ [] := by
  intro h
  have hlen : (markSerialize presenceMark).length = 8 := length_intBytes _ _
  rw [h] at hlen
  cases hlen

/-- **A list is written with all its entries if there are no more of them than its limit.** -/
theorem affiliationsSerialize_whole_iff (l : AffiliationsList) :
    affiliationsSerialize l = affiliationsSerialize l.unlimited ↔
      l.items.length ≤ l.maxSize.toNat := by
  unfold affiliationsSerialize
  rw [containerSerialize_unlimited, containerSerialize_eq]
  have h := @marked_take_eq_iff UInt8 _ _ (markSerialize false) _ _ (markSerialize_ne_nil true)
    (fun x => Nat.le_refl (affiliationSerialize x).length) l.items l.maxSize.toNat
  exact h.trans (and_iff_left fun _ _ => rfl)

theorem length_affiliationsSerialize_le (l : AffiliationsList) :
    (affiliationsSerialize l).length ≤ (affiliationsSerialize l.unlimited).length := by
  unfold affiliationsSerialize
  rw [containerSerialize_unlimited, containerSerialize_eq]
  exact length_marked_take_le (fun x => Nat.le_refl (affiliationSerialize x).length) _ _

variable {room : Room} {rooms : Rooms}

theorem length_roomSerialize_le (room : Room) :
    (roomSerialize room).length ≤ (roomSerialize room.unlimited).length := by
  have h := fun a => length_affiliationsSerialize_le (room.affiliations a)
  simp only [roomSerialize, Room.unlimited, List.flatten_cons, List.flatten_nil, List.append_nil,
    List.length_append, Nat.add_le_add_iff_left]
  exact Nat.add_le_add (h listOwner)
    (Nat.add_le_add (h listAdmin) (Nat.add_le_add (h listMember) (h listOutcast)))

/-- **A room is written with all its affiliations if no list is longer than its limit.** -/
theorem roomSerialize_whole_iff (room : Room) :
    roomSerialize room = roomSerialize room.unlimited ↔
      ∀ a ∈ savedLists, (room.affiliations a).items.length ≤ (room.affiliations a).maxSize.toNat := by
  have hle := fun a => length_affiliationsSerialize_le (room.affiliations a)
  have hiff := fun a => affiliationsSerialize_whole_iff (room.affiliations a)
  simp only [roomSerialize, Room.unlimited, List.flatten_cons, List.flatten_nil, List.append_nil,
    List.append_right_inj, savedLists, List.forall_mem_cons]
  rw [append_eq_append_iff_of_le (hle listOwner), append_eq_append_iff_of_le (hle listAdmin),
    append_eq_append_iff_of_le (hle listMember) (hle listOutcast), hiff, hiff, hiff, hiff]
  · simp
  · simp only [List.length_append]
    exact Nat.add_le_add (hle listMember) (hle listOutcast)
  · simp only [List.length_append]
    exact Nat.add_le_add (hle listAdmin) (Nat.add_le_add (hle listMember) (hle listOutcast))

/-- **Nothing is lost if the table and every list are within their limits.** -/
theorem nothingLost_iff_limits : NothingLost rooms ↔
    rooms.table.items.length ≤ rooms.table.maxSize.toNat ∧
      ∀ room ∈ rooms.table.items, ∀ a ∈ savedLists,
        (room.affiliations a).items.length ≤ (room.affiliations a).maxSize.toNat := by
  have hcut := @marked_take_eq_iff UInt8 _ _ (markSerialize false) _ _ (markSerialize_ne_nil true)
    length_roomSerialize_le rooms.table.items rooms.table.maxSize.toNat
  have hwhole : containerSerialize roomSerialize rooms.unlimited.table.maxSize
      rooms.unlimited.table.items
        = markedItems (fun room => roomSerialize room.unlimited) rooms.table.items :=
    (containerSerialize_unlimited _ _).trans marked_map
  unfold NothingLost roomsSerialize
  rw [hwhole, containerSerialize_eq]
  refine List.append_right_inj _ |>.trans (hcut.trans (and_congr_right fun _ => ?_))
  exact forall₂_congr fun room _ => roomSerialize_whole_iff room

end Written

/-! ## The limits after a start -/

/-- All the affiliation lists of the room have the given limit. -/
def ListLimit (limit : Int) (room : Room) : Prop := ∀ a, (room.affiliations a).maxSize = limit

section Start

variable {α : Type} {g : Input α} {P : α → Prop}

theorem containerLoop_yields {limit : Int} (hg : Yields P g) (n : Nat) (size : Int)
    (items : List α) (hitems : ∀ x ∈ items, P x) :
    Yields (fun r => ∀ x ∈ r.1, P x) (containerLoop g limit n size items) := by
  induction n generalizing size items with
  | zero => exact yields_fail _
  | succ n ih =>
    unfold containerLoop
    split
    · exact yields_fail _
    · refine Yields.bind hg fun x hx => Yields.bind_right fun presenceMark => ?_
      have hnext : ∀ y ∈ items ++ [x], P y := by
        intro y hy
        rcases List.mem_append.mp hy with hy | hy
        · exact hitems y hy
        · rw [List.mem_singleton.mp hy]
          exact hx
      split
      · exact ih (size + 2) (items ++ [x]) hnext
      · exact Yields.pure hnext

/-- **What a container reads: it keeps its limit, and its items are what the reader yields.** -/
theorem containerDeserialize_yields {container : Dls α} (hg : Yields P g)
    (hitems : ∀ x ∈ container.items, P x) :
    Yields (fun r => r.maxSize = container.maxSize ∧ ∀ x ∈ r.items, P x)
      (containerDeserialize g container) := by
  unfold containerDeserialize
  refine Yields.bind_right fun presenceMark => ?_
  split
  · have hloop := @containerLoop_yields α g P (cInt (container.maxSize * 2)) hg
      ((cInt (container.maxSize * 2)).toNat + 1) 0 [] (fun x hx => absurd hx List.not_mem_nil)
    exact Yields.bind hloop fun r hr => Yields.pure ⟨rfl, hr⟩
  · exact Yields.pure ⟨rfl, hitems⟩

theorem affiliationsDeserialize_yields :
    Yields (fun l => l.maxSize = loadedAffiliationsLimit)
      (affiliationsDeserialize (.init loadedAffiliationsLimit)) := by
  intro input l rest h
  have hany : Yields (fun _ => True) affiliationDeserialize := fun _ _ _ _ => trivial
  exact (containerDeserialize_yields hany (fun _ _ => trivial) input l rest h).1

/-- **A room that is read from the data file has a limit for its affiliation lists.** -/
theorem roomDeserialize_yields : Yields (ListLimit loadedAffiliationsLimit) roomDeserialize := by
  unfold roomDeserialize
  iterate 13 refine Yields.bind_right fun _ => ?_
  refine affiliationsDeserialize_yields.bind fun owner howner => ?_
  refine affiliationsDeserialize_yields.bind fun admin hadmin => ?_
  refine affiliationsDeserialize_yields.bind fun member hmember => ?_
  refine affiliationsDeserialize_yields.bind fun outcast houtcast => Yields.pure ?_
  intro a
  simp only [loadedAffiliations]
  split_ifs
  · exact howner
  · exact hadmin
  · exact hmember
  · exact houtcast
  · rfl

/-- A room that is created has lists with the limit 0. -/
theorem listLimit_roomInit (node : Bytes) : ListLimit 0 (roomInit node) := fun _ => rfl

end Start

/-! ## The limits in every state -/

section Run

variable {ok : IncomingPacket → Prop} {room room' : Room} {rooms rooms' : Rooms} {stanza : Stanza}
  {sent : List BuilderPacket} {limit : Int}

/-- **No small change of a room touches the limit of a list.** -/
theorem ListLimit.change (h : ListLimit limit room) (hc : Change ok room room') :
    ListLimit limit room' := by
  intro a
  refine Eq.trans ?_ (h a)
  cases hc with
  | adjust addr f hf => rfl
  | adjustAll f hf => rfl
  | subject addr sender node hm hsize => rfl
  | store inner history hstore => rfl
  | creator ingress hi => exact maxSize_creatorAffiliations room ingress.realFrom a
  | join ingress mucNode acl affiliation hi hjid hres hnick hadmission =>
    exact maxSize_creatorAffiliations room ingress.realFrom a
  | rename ingress addr hi hnick => rfl
  | leave addr hm => rw [affiliations_roomLeave]
  | opened => rfl
  | option room' hoption => cases hoption <;> rfl
  | affiliate ingress addr sender acl target affiliation affiliations hi hitem hjid hm hadmin
      hadd => exact maxSize_affiliationssAdd hadd a
  | evict => rfl

theorem ListLimit.step (h : ListLimit limit room)
    (hs : roomStep room stanza = some (room', sent)) : ListLimit limit room' := by
  have hc := @roomStep_changed (fun _ => True) _ _ _ _ trivial hs
  exact keeps_of_changed (fun _ _ => ListLimit.change) hc h

/-- A room that was read from the data file, or one that was created. -/
def Limited (room : Room) : Prop := ListLimit loadedAffiliationsLimit room ∨ ListLimit 0 room

theorem Limited.step (h : Limited room) (hs : roomStep room stanza = some (room', sent)) :
    Limited room' := h.imp (·.step hs) (·.step hs)

/-- The limit of the table is the given one, and every room is `Limited`. -/
structure TableLimit (limit : Int) (rooms : Rooms) : Prop where
  table : rooms.table.maxSize = limit
  rooms : ∀ room ∈ rooms.table.items, Limited room

/-- `rooms.max_size` after a start, with a data file or without one. -/
def startLimit (file : Option Bytes) : Int := if file.isSome then loadedRoomsLimit else 0

theorem tableLimit_start {file : Option Bytes} {start : Rooms}
    (h : deserializeData roomsInit file = some start) : TableLimit (startLimit file) start := by
  cases file with
  | none =>
    cases h
    exact ⟨rfl, fun room hm => absurd hm List.not_mem_nil⟩
  | some input =>
    obtain ⟨⟨rooms, rest⟩, hread, rfl⟩ := Option.map_eq_some_iff.mp h
    have hyields : Yields (TableLimit loadedRoomsLimit)
        (roomsDeserialize (limitedRooms roomsInit)) := by
      refine Yields.bind_right fun registeredNicks => ?_
      refine (containerDeserialize_yields roomDeserialize_yields ?_).bind fun table ht => ?_
      · exact fun room hm => absurd hm List.not_mem_nil
      · exact Yields.pure ⟨ht.1, fun room hm => .inl (ht.2 room hm)⟩
    exact hyields input rooms rest hread

theorem TableLimit.create (h : TableLimit limit rooms) (node : Bytes) :
    TableLimit limit (roomsCreateRoom rooms node) where
  table := h.table
  rooms := by
    intro room hm
    rcases List.mem_append.mp hm with hm | hm
    · exact h.rooms room hm
    · rw [List.mem_singleton.mp hm]
      exact .inr (listLimit_roomInit node)

theorem TableLimit.routeAt {i : Nat} (h : TableLimit limit rooms)
    (hs : routeAt rooms i stanza = some (rooms', sent)) : TableLimit limit rooms' := by
  obtain ⟨room, hroom, hs⟩ := Option.bind_eq_some_iff.mp hs
  obtain ⟨⟨room₁, sent₁⟩, hstep, hs⟩ := Option.bind_eq_some_iff.mp hs
  have hset : TableLimit limit (setRoom rooms i room₁) := by
    constructor
    · exact h.table
    · intro r hm
      rcases List.mem_or_eq_of_mem_set hm with hm | rfl
      · exact h.rooms r hm
      · exact (h.rooms room (List.mem_of_getElem? hroom)).step hstep
  dsimp only at hs
  split at hs <;> cases hs
  · exact ⟨hset.table, fun r hm => hset.rooms r (List.mem_of_mem_eraseIdx hm)⟩
  · exact hset

/-- **A stanza changes no limit, and a room that it creates has none.** -/
theorem TableLimit.step {hash : HashsFind} (h : TableLimit limit rooms)
    (hs : roomsProcess hash rooms stanza = some (rooms', sent)) : TableLimit limit rooms' := by
  unfold roomsProcess at hs
  dsimp only at hs
  split at hs
  · exact h.routeAt hs
  · split_ifs at hs
    · cases hs
      exact h
    · obtain ⟨packet, -, heq⟩ := Option.map_eq_some_iff.mp hs
      cases heq
      exact h
    · exact (h.create _).routeAt hs
    · obtain ⟨packet, -, heq⟩ := Option.map_eq_some_iff.mp hs
      cases heq
      exact h

theorem tableLimit_reach {hash : HashsFind} {file : Option Bytes} {start : Rooms}
    (hstart : deserializeData roomsInit file = some start)
    (h : Machine.Reach (roomsProcess hash) (fun _ _ => True) start rooms) :
    TableLimit (startLimit file) rooms :=
  h.invariant (tableLimit_start hstart) fun _ _ _ _ ht _ hs => ht.step hs

end Run

/-! ## The result -/

/-- A room of the data file whose lists are within their limits, or a new room with no entries. -/
def WrittenWhole (room : Room) : Prop :=
  (ListLimit loadedAffiliationsLimit room ∧
    ∀ a ∈ savedLists, ((room.affiliations a).items.length : Int) ≤ loadedAffiliationsLimit) ∨
  (ListLimit 0 room ∧ ∀ a ∈ savedLists, (room.affiliations a).items = [])

theorem Limited.writtenWhole_iff {room : Room} (h : Limited room) : WrittenWhole room ↔
    ∀ a ∈ savedLists, (room.affiliations a).items.length ≤ (room.affiliations a).maxSize.toNat := by
  constructor
  · rintro (⟨hlimit, hlen⟩ | ⟨hlimit, hnil⟩) a ha
    · have hle := hlen a ha
      rw [hlimit a]
      omega
    · rw [hnil a ha]
      exact Nat.zero_le _
  · intro hlen
    rcases h with hlimit | hlimit
    · refine .inl ⟨hlimit, fun a ha => ?_⟩
      have hle := hlen a ha
      rw [hlimit a] at hle
      exact (Int.le_toNat (by decide)).mp hle
    · refine .inr ⟨hlimit, fun a ha => ?_⟩
      have hle := hlen a ha
      rw [hlimit a] at hle
      exact List.eq_nil_of_length_eq_zero (Nat.le_zero.mp hle)

/--
**In every state after a start with a data file, the file that is written is whole if and only if
the table has no more than 10240 rooms and every room is `WrittenWhole`; after a start without
one, only if there are no rooms.**
-/
theorem nothing_lost_iff {hash : HashsFind} {file : Option Bytes} {start rooms : Rooms}
    (hstart : deserializeData roomsInit file = some start)
    (h : Machine.Reach (roomsProcess hash) (fun _ _ => True) start rooms) :
    NothingLost rooms ↔ (rooms.table.items.length : Int) ≤ startLimit file ∧
      ∀ room ∈ rooms.table.items, WrittenWhole room := by
  have hl := tableLimit_reach hstart h
  have hnonneg : 0 ≤ startLimit file := by
    unfold startLimit
    split <;> decide
  rw [nothingLost_iff_limits, hl.table, Int.le_toNat hnonneg]
  refine and_congr_right fun _ => forall₂_congr fun room hm => ?_
  exact (hl.rooms room hm).writtenWhole_iff.symm

/-! ## A table that is read back -/

/-- The room with the given key that was added first. -/
def firstFind : HashsFind where
  find := fun rooms node => rooms.findIdx? (fun room => bptBytes room.node == node)
  found := by
    intro rooms node i h
    obtain ⟨hi, heq, -⟩ := List.findIdx?_eq_some_iff_getElem.mp h
    exact ⟨rooms[i], List.getElem?_eq_getElem hi, eq_of_beq heq⟩
  missing := by
    intro rooms node h room hm heq
    have hne := List.findIdx?_eq_none_iff.mp h room hm
    rw [heq, beq_self_eq_true] at hne
    cases hne

/-- **A saved table without registered nicks is read back, if each of its rooms is.** -/
theorem deserializeData_saved {rooms : Rooms} {saved : Room → Room}
    (hnicks : rooms.registeredNicks.items = []) (hlimit : rooms.table.maxSize ≤ loadedRoomsLimit)
    (hrooms : ∀ room ∈ rooms.table.items, Reads (roomSerialize room) roomDeserialize (saved room)) :
    deserializeData roomsInit (some (roomsSerialize rooms)) = some
      { table := savedDls saved rooms.table.maxSize loadedRoomsLimit rooms.table.items
        registeredNicks := .init loadedNicksLimit } := by
  have hlen : ((written rooms.table.maxSize rooms.table.items).length : Int)
      ≤ loadedRoomsLimit := by
    have hle : (written rooms.table.maxSize rooms.table.items).length
        ≤ rooms.table.maxSize.toNat := List.length_take_le _ _
    have hpos : 0 ≤ loadedRoomsLimit := by decide
    omega
  have hread : Reads (roomsSerialize rooms) (roomsDeserialize (limitedRooms roomsInit))
      { table := savedDls saved rooms.table.maxSize loadedRoomsLimit rooms.table.items
        registeredNicks := .init loadedNicksLimit } := by
    unfold roomsSerialize registeredNicksSerialize
    rw [hnicks, containerSerialize_eq, containerSerialize_eq, List.take_nil]
    refine Reads.bind (@containerDeserialize_reads _ _ _ registeredNickDeserialize id
      loadedNicksLimit [] (fun x hx => absurd hx List.not_mem_nil) (.inl rfl)) ?_
    have hfits := limitFits_of_lt hlen (by decide)
    exact (containerDeserialize_reads (fun room hm => hrooms room (mem_of_mem_written hm))
      hfits).ret _
  have hrun := hread []
  rw [List.append_nil] at hrun
  unfold deserializeData
  dsimp only
  rw [hrun, Option.map_some]

/-- A room with an owner, and with the limits of a room that has been loaded. -/
def ownedRoom : Room :=
  { roomInit (lit "room") with
    affiliations := setList (fun _ => .init loadedAffiliationsLimit) listOwner
      (Dls.append (.init loadedAffiliationsLimit)
        { jid := jidSet guestJid (jidNode ||| jidHost), reasonNode := none }) }

theorem ownedRoom_reads : Reads (roomSerialize ownedRoom) roomDeserialize (savedRoom ownedRoom) := by
  have hhead : StorableHead ownedRoom := {
    node := by show bptSize (some (lit "room")) ≤ _; decide
    title := Nat.zero_le _
    description := Nat.zero_le _
    password := by show 0 < _; decide
    subjectNode := Nat.zero_le _
    subjectNick := Nat.zero_le _
    defaultRole := by show IsInt roleParticipant; decide
    participantsMaxSize := by show IsInt 100; decide
    historyMaxSize := by show IsInt 20; decide }
  refine roomDeserialize_reads hhead (Nat.zero_le _) ?_ ?_ ?_
  · exact history_reads (fun e he => absurd (mem_of_mem_written he) List.not_mem_nil) (.inl rfl)
  · exact participants_reads (fun p hp => absurd (mem_of_mem_written hp) List.not_mem_nil) (.inl rfl)
  · intro a
    have howner : PlainJid (jidSet guestJid (jidNode ||| jidHost)) :=
      ⟨.parsed guestJid_parsed _, by decide⟩
    by_cases ha : a = listOwner
    · subst ha
      refine ⟨fun x hx => ?_, by decide +kernel⟩
      rw [List.mem_singleton.mp (mem_of_mem_written hx)]
      exact ⟨howner.1, howner.loads, Nat.zero_le _⟩
    · have hempty : ownedRoom.affiliations a = .init loadedAffiliationsLimit := if_neg ha
      rw [hempty]
      exact ⟨fun x hx => absurd (mem_of_mem_written hx) List.not_mem_nil, by decide⟩

/-- The table with that room is loaded with its owner, and nothing is lost when it is saved again. -/
theorem nothing_lost_iff_ownedRoom : ∃ file start,
    deserializeData roomsInit (some file) = some start ∧ start.table.items = [savedRoom ownedRoom] ∧
      ((savedRoom ownedRoom).affiliations listOwner).items.length = 1 ∧ NothingLost start := by
  have hload := @deserializeData_saved
    { table := (Dls.init loadedRoomsLimit).append ownedRoom, registeredNicks := .init 0 }
    savedRoom rfl (Int.le_refl _) (fun room hm => List.mem_singleton.mp hm ▸ ownedRoom_reads)
  refine ⟨_, _, hload, rfl, rfl, ?_⟩
  refine (@nothing_lost_iff firstFind _ _ _ hload .start).mpr ⟨by decide, ?_⟩
  intro room hm
  obtain rfl : room = savedRoom ownedRoom := List.mem_singleton.mp hm
  refine .inl ⟨roomDeserialize_yields _ _ [] (ownedRoom_reads []), fun a ha => ?_⟩
  simp only [savedLists, List.mem_cons, List.not_mem_nil, or_false] at ha
  rcases ha with rfl | rfl | rfl | rfl <;> decide +kernel

/-- Somebody enters a room that does not exist. -/
def openingRun : List Stanza :=
  stanzasOfTexts openAcl 0 0 ["<presence from='alice@h/pc' to='room@conf/al'/>"]

set_option maxRecDepth 100000 in
/-- Without a data file at the start a room is created, and the file that is saved has none. -/
theorem created_room_lost : deserializeData roomsInit none = some roomsInit ∧ ∃ rooms,
    Machine.Reach (roomsProcess firstFind) (fun _ stanza => Accepted stanza.ingress) roomsInit
      rooms ∧ rooms.table.items.length = 1 ∧
    roomsSerialize rooms = markSerialize false ++ markSerialize false ∧ ¬ NothingLost rooms := by
  refine ⟨rfl, ?_⟩
  obtain ⟨rooms, hrun⟩ : ∃ rooms,
      Machine.run (roomsProcess firstFind) roomsInit openingRun = some rooms :=
    Option.isSome_iff_exists.mp (by decide +kernel)
  have hlength : (Machine.run (roomsProcess firstFind) roomsInit openingRun).map
      (fun rooms => (rooms.table.items.length, rooms.registeredNicks.items.length))
        = some (1, 0) := by decide +kernel
  rw [hrun, Option.map_some, Option.some.injEq, Prod.mk.injEq] at hlength
  have hreach : Machine.Reach (roomsProcess firstFind) (fun _ stanza => Accepted stanza.ingress)
      roomsInit rooms := .run .start (fun _ stanza hs => accepted_of_texts hs) hrun
  have hlimit : rooms.table.maxSize = 0 :=
    (@tableLimit_reach _ firstFind none roomsInit rfl (hreach.mono fun _ _ _ => trivial)).table
  refine ⟨rooms, hreach, hlength.1, ?_, ?_⟩
  · unfold roomsSerialize registeredNicksSerialize
    rw [containerSerialize_eq, containerSerialize_eq, hlimit,
      List.eq_nil_of_length_eq_zero hlength.2, List.take_nil]
    rfl
  · intro h
    have hle := (nothingLost_iff_limits.mp h).1
    rw [hlimit, hlength.1] at hle
    exact absurd hle (by decide)

end Mukite
