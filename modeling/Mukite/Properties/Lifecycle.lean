import Mukite.Properties.Occupancy
import Mukite.Properties.Saved

/-!
# The life of a room

A room that is not persistent goes with its last occupant: `room_leave` marks it, and
`rooms_process` takes marked rooms out of the table. Nobody marks a room that has never had an
occupant, and `rooms_process` creates a room before `route_presence` looks for the nick of the
newcomer, whose first presence is bounced if it has none.

* **`rooms_alive`**: every room of the table is alive as long as each one is created with a nick,
  and no longer.
* `empty_room_stays`: a presence without a nick leaves an empty room behind.
-/

namespace Mukite

/-- A room is not marked, and somebody is in it unless it is persistent. -/
structure Alive (room : Room) : Prop where
  unmarked : room.hasFlag mucFlagDestroyed = false
  staffed : room.hasFlag mucFlagPersistentroom = true ∨ room.occupants ≠ []

/-- A room that is alive or marked, and counts its occupants. -/
structure Tended (room : Room) : Prop where
  counted : room.participants.size = room.occupants.length
  staffed : room.hasFlag mucFlagDestroyed = false →
    room.hasFlag mucFlagPersistentroom = true ∨ room.occupants ≠ []

variable {ok : IncomingPacket → Prop} {room room' : Room} {ingress : IncomingPacket}
  {acl : ACLConfig} {sent : List BuilderPacket}

namespace Tended

/-- Changes that neither mark the room nor touch the number of its occupants. -/
theorem of_length (h : Tended room) (hlen : room'.occupants.length = room.occupants.length)
    (hsize : room'.participants.size = room.participants.size)
    (hmark : room'.hasFlag mucFlagDestroyed = room.hasFlag mucFlagDestroyed)
    (hpersistent : room'.hasFlag mucFlagPersistentroom = room.hasFlag mucFlagPersistentroom) :
    Tended room' where
  counted := by rw [hlen, hsize, h.counted]
  staffed := by
    rw [hmark, hpersistent]
    intro hd
    refine (h.staffed hd).imp_right fun hne hnil => hne ?_
    rw [hnil, List.length_nil] at hlen
    exact List.eq_nil_of_length_eq_zero hlen.symm

/-- **Whoever leaves last marks the room**, unless it is persistent. -/
theorem leave (h : Tended room) {addr : Nat} (hm : addr ∈ room.participants.nodes.addrs) :
    Tended (roomLeave room addr) := by
  have hlen : (roomLeave room addr).occupants.length + 1 = room.occupants.length := by
    unfold Room.occupants
    rw [participants_roomLeave]
    exact NodeList.length_erase hm
  have hcounted : (roomLeave room addr).participants.size
      = (roomLeave room addr).occupants.length := by
    have hsize : (roomLeave room addr).participants.size = room.participants.size - 1 := by
      rw [participants_roomLeave]
      rfl
    rw [hsize, h.counted]
    omega
  refine ⟨hcounted, fun hd => ?_⟩
  rw [hasFlag_roomLeave (by decide)]
  by_contra hno
  obtain ⟨hp, hnil⟩ := not_or.mp hno
  rw [not_not] at hnil
  rw [hnil] at hcounted
  have hsize : (room.participants.delete addr).size = 0 := by
    rw [← participants_roomLeave]
    exact hcounted
  have hcond : (!({ room with participants := room.participants.delete addr } : Room).hasFlag
      mucFlagPersistentroom && (room.participants.delete addr).size = 0) = true := by
    have hp' : ({ room with participants := room.participants.delete addr } : Room).hasFlag
        mucFlagPersistentroom = false := Bool.eq_false_iff.mpr hp
    rw [hp', hsize]
    rfl
  unfold roomLeave at hd
  dsimp only at hd
  rw [if_pos hcond, Room.hasFlag_setFlag_self (by decide)] at hd
  cases hd

theorem join (hc : room.participants.size = room.occupants.length) {jid : Jid} {nick : Buffer}
    {affiliation : Int} : Tended (roomJoin room jid nick affiliation).1 where
  counted := by
    show room.participants.size + 1 = ((room.occupants.length + 1 : Nat) : Int)
    omega
  staffed := fun _ => .inr (List.cons_ne_nil _ _)

/-- **Every small change keeps the invariant**, if the room stays as persistent as it was. -/
theorem plain (h : Tended room) (hs : PlainChange ok room room') : Tended room' := by
  obtain ⟨hc, hp⟩ := hs
  cases hc with
  | adjust addr f hf => exact h.of_length NodeList.length_modify rfl rfl hp
  | adjustAll f hf => exact h.of_length NodeList.length_mapVals rfl rfl hp
  | subject addr sender node hm hsize => exact h.of_length rfl rfl rfl hp
  | store inner history hstore => exact h.of_length rfl rfl rfl hp
  | creator ingress hok => exact h.of_length rfl rfl rfl hp
  | join ingress mucNode acl affiliation hok hjid hres hnick hadmission =>
    have hj : Tended (roomJoin (withCreator room ingress.realFrom) ingress.realFrom
        ingress.proxyTo.resource affiliation).1 := @join (withCreator room ingress.realFrom) h.counted _ _ _
    exact hj.of_length rfl rfl (Room.hasFlag_setFlag (by decide)) (Room.hasFlag_setFlag (by decide))
  | rename ingress addr hok hnick => exact h.of_length NodeList.length_modify rfl rfl hp
  | leave addr hm => exact h.leave hm
  | opened => exact h.of_length rfl rfl (Room.hasFlag_setFlag (by decide)) hp
  | option room' ho =>
    cases ho with
    | flag flag hflag on =>
      exact h.of_length rfl rfl (Room.hasFlag_setFlag (configFlags_disjoint hflag)) hp
    | _ => exact h.of_length rfl rfl rfl hp
  | affiliate ingress addr sender acl target affiliation affiliations hok hitem hjid hm hadmin
      hadd => exact h.of_length NodeList.length_mapVals rfl rfl hp
  | evict =>
    refine ⟨?_, fun hd => ?_⟩
    · show room.participants.size = ((room.participants.nodes.mapVals _).nodes.length : Int)
      rw [NodeList.length_mapVals]
      exact h.counted
    · have hmark : (evicted room).hasFlag mucFlagDestroyed = true :=
        Room.hasFlag_setFlag_self (by decide)
      rw [hmark] at hd
      cases hd

theorem plainly (h : Tended room) (hs : PlainlyChanged ok room room') : Tended room' := by
  induction hs with
  | refl => exact h
  | tail _ hc ih => exact ih.plain hc

/-- The options of a form, in a room with somebody in it. -/
theorem form {mem : Bytes} {node : Span} {level : Int} (h : Tended room)
    (hne : room.occupants ≠ []) (hform : submitForm room mem node level = some room') :
    Tended room' := by
  have hkept := submitForm_occupants hform
  refine ⟨?_, fun _ => .inr ?_⟩
  · rw [hkept.1, hkept.2, h.counted]
  · rw [hkept.1]
    exact hne

end Tended

/-! ## Stanzas for a room -/

/-- A query of somebody who is not in the room changes nothing. -/
theorem answerIq_outsider {answer : IqAnswer}
    (hs : participantsFindByJid room.participants ingress.realFrom = none)
    (h : answerIq room ingress acl = some answer) : answer.room = room := by
  unfold answerIq at h
  obtain ⟨found, -, h⟩ := Option.bind_eq_some_iff.mp h
  rw [hs] at h
  cases found with
  | none =>
    cases h
    rfl
  | some query =>
    dsimp only at h
    split at h
    · unfold getIq at h
      split_ifs at h
      · cases h
        rfl
      · cases h
        rfl
      · cases h
        rfl
      · unfold getAffiliations at h
        split_ifs at h <;> cases h <;> rfl
      · cases h
        rfl
      · cases h
        rfl
    · split at h
      · unfold setIq at h
        split_ifs at h
        · unfold setAffiliations at h
          split_ifs at h <;> cases h <;> rfl
        · unfold setConfig at h
          split_ifs at h <;> cases h <;> rfl
        · cases h
          rfl
      · cases h
        rfl

theorem routeIq_outsider (hs : participantsFindByJid room.participants ingress.realFrom = none)
    (h : routeIq room ingress acl = some (room', sent)) : PlainlyChanged ok room room' := by
  unfold routeIq at h
  split at h
  · exact proxyIq_room h ▸ .refl
  · obtain ⟨answer, ha, hsent⟩ := Option.bind_eq_some_iff.mp h
    have hroom := answerIq_outsider hs ha
    cases answer with
    | refused room₁ error => exact (bounce_room hsent).trans hroom ▸ .refl
    | answered st iqType sysData =>
      dsimp only at hsent
      split at hsent
      · exact (bounce_room hsent).trans hroom ▸ .refl
      · cases hsent
        obtain rfl : st.room = room := hroom
        exact announceAffected_changed

/-- **Every stanza keeps the invariant of a room.** -/
theorem Tended.step {stanza : Stanza} (h : Tended room)
    (hs : roomStep room stanza = some (room', sent)) : Tended room' := by
  have hc := @roomStep_formThenPlain (fun _ => True) _ _ _ _ trivial hs
  rcases hc with hc | ⟨-, hiq, hc⟩
  · exact h.plainly hc
  · cases hsender : participantsFindByJid room.participants stanza.ingress.realFrom with
    | none => exact h.plainly (@routeIq_outsider (fun _ => True) _ _ _ _ _ hsender hiq)
    | some found =>
      -- whoever sends a form is in the room
      have hne : room.occupants ≠ [] := List.ne_nil_of_mem (findByJid_mem hsender)
      rcases hc with hc | ⟨node, level, form, hform, hc⟩
      · exact h.plainly hc
      · exact (h.form hne hform).plainly hc

/-! ## The first presence -/

/-- Without bans nobody is banned. -/
theorem affiliationssGetByJid_ne_outcast {lists : Affiliations} {jid : Jid}
    (h : (lists listOutcast).items = []) :
    affiliationssGetByJid lists acl jid ≠ affilOutcast := by
  have hlist : ∀ mode a, firstListWith lists jid mode = some a → a.toInt ≠ affilOutcast := by
    intro mode a ha hzero
    obtain rfl : a = listOutcast := Fin.ext (Int.ofNat_inj.mp hzero)
    have hfound := List.find?_some ha
    unfold affiliationsFindByJid at hfound
    rw [h] at hfound
    cases hfound
  unfold affiliationssGetByJid
  split
  · decide
  · split
    · next a ha => exact hlist _ a ha
    · split
      · next a ha => exact hlist _ a ha
      · decide

/-- The lists of a new room, with its creator as the owner. -/
theorem creatorAffiliations_roomInit (node : Bytes) (jid : Jid) :
    creatorAffiliations (roomInit node) jid
      = moveEntry (fun _ => .init 0) none listOwner jid none := by
  have hnew : (roomInit node).hasFlag mucFlagJustCreated = true := by
    show Flags.isSet mucFlagsDefault mucFlagJustCreated = true
    decide
  unfold creatorAffiliations
  rw [if_pos hnew]
  rfl

/-- The creator of a room is let in: a new room has no password, no bans and room for members. -/
theorem admission_creator (node : Bytes) (mucNode : MucNode) :
    ∃ affiliation, admission (withCreator (roomInit node) ingress.realFrom) ingress mucNode acl
      = .ok affiliation := by
  have hbans : ((withCreator (roomInit node) ingress.realFrom).affiliations listOutcast).items
      = [] := by
    unfold withCreator
    rw [creatorAffiliations_roomInit]
    rfl
  have hpassword : (withCreator (roomInit node) ingress.realFrom).hasFlag
      mucFlagPasswordprotectedroom = false := by
    show Flags.isSet mucFlagsDefault mucFlagPasswordprotectedroom = false
    decide
  have hmembers : (withCreator (roomInit node) ingress.realFrom).hasFlag mucFlagMembersonly
      = false := by
    show Flags.isSet mucFlagsDefault mucFlagMembersonly = false
    decide
  unfold admission
  split
  · exact ⟨_, rfl⟩
  · have hsize : ¬ (withCreator (roomInit node) ingress.realFrom).participants.size ≥
        (withCreator (roomInit node) ingress.realFrom).participants.maxSize := by
      show ¬ (0 : Int) ≥ 100
      decide
    have hne := @affiliationssGetByJid_ne_outcast acl
      (withCreator (roomInit node) ingress.realFrom).affiliations ingress.realFrom hbans
    rw [if_neg hsize]
    dsimp only
    rw [if_neg hne, hpassword, hmembers, Bool.and_false, if_neg (by simp), if_neg (by simp)]
    exact ⟨_, rfl⟩

/-- **The first presence opens a room with one occupant**, if it has a nick. -/
theorem presenceSender_creator {node : Bytes} {r : PresenceSender}
    (htype : ingress.type ≠ stanzaPresenceUnavailable)
    (hres : ingress.proxyTo.resource.isSome = true)
    (h : presenceSender (roomInit node) ingress acl = some r) :
    ∃ affiliation sent cleaned, r = .go
      (roomJoin (withCreator (roomInit node) ingress.realFrom) ingress.realFrom
        ingress.proxyTo.resource affiliation).1 sent 1 cleaned true := by
  obtain ⟨mucNode, -, h⟩ := Option.bind_eq_some_iff.mp h
  obtain ⟨affiliation, hadmission⟩ := @admission_creator ingress acl node mucNode
  have hnew : newcomerPresence (roomInit node) ingress mucNode acl = some r := h
  have hnone : ingress.proxyTo.resource.isNone = false := by
    rw [Option.isNone_eq_false_iff]
    exact hres
  unfold withCreator at hadmission
  unfold newcomerPresence at hnew
  rw [if_neg htype, hnone, if_neg Bool.false_ne_true] at hnew
  have hnick : (participantsFindByNick (roomInit node).participants
      ingress.proxyTo.resource).isSome = false := rfl
  rw [hnick, if_neg Bool.false_ne_true] at hnew
  dsimp only at hnew
  rw [hadmission] at hnew
  cases hnew
  exact ⟨affiliation, _, _, rfl⟩

/-- A stanza that creates a room is a presence. -/
theorem roomStep_creation {node : Bytes} {stanza : Stanza}
    (hcreates : createsRoom stanza.ingress stanza.acl = true) :
    stanza.ingress.type ≠ stanzaPresenceUnavailable ∧
      roomStep (roomInit node) stanza = routePresence (roomInit node) stanza.ingress stanza.acl := by
  simp only [createsRoom, ignoredWithoutRoom, Bool.and_eq_true, Bool.not_eq_true', beq_iff_eq,
    bne_iff_ne, decide_eq_true_eq] at hcreates
  obtain ⟨⟨⟨herror, hname⟩, htype⟩, -⟩ := hcreates
  have hno : isErrorStanza stanza.ingress = false := by
    unfold isErrorStanza
    rw [herror, Bool.false_and]
  refine ⟨htype, ?_⟩
  unfold roomStep roomRoute
  rw [hno, if_neg Bool.false_ne_true, hname]

/-- With a nick, whoever creates the room is in it. -/
theorem creation_tended {node : Bytes} {stanza : Stanza}
    (hcreates : createsRoom stanza.ingress stanza.acl = true)
    (hres : stanza.ingress.proxyTo.resource.isSome = true)
    (hs : roomStep (roomInit node) stanza = some (room', sent)) : Tended room' := by
  obtain ⟨htype, hroute⟩ := @roomStep_creation node stanza hcreates
  rw [hroute] at hs
  obtain ⟨r, hr, hs⟩ := Option.bind_eq_some_iff.mp hs
  obtain ⟨affiliation, roster, cleaned, rfl⟩ := presenceSender_creator htype hres hr
  obtain ⟨⟨room₂, announced⟩, ha, hs⟩ := Option.bind_eq_some_iff.mp hs
  cases hs
  obtain ⟨inner, -, hc⟩ := presenceAnnounce_case mem_occupants_roomJoin ha
  have hjoined : Tended (roomJoin (withCreator (roomInit node) stanza.ingress.realFrom)
      stanza.ingress.realFrom stanza.ingress.proxyTo.resource affiliation).1 := .join rfl
  exact hjoined.plainly (@announceCase_changed (fun _ => True) _ _ _ _ _ _ _ _
    mem_occupants_roomJoin hc)

/-- Without a nick the presence is bounced, and the new room stays as it is. -/
theorem creation_bounced {node : Bytes} {stanza : Stanza}
    (hcreates : createsRoom stanza.ingress stanza.acl = true)
    (hres : stanza.ingress.proxyTo.resource.isSome = false)
    (hs : roomStep (roomInit node) stanza = some (room', sent)) : room' = roomInit node := by
  obtain ⟨htype, hroute⟩ := @roomStep_creation node stanza hcreates
  rw [hroute] at hs
  obtain ⟨r, hr, hs⟩ := Option.bind_eq_some_iff.mp hs
  obtain ⟨mucNode, -, hr⟩ := Option.bind_eq_some_iff.mp hr
  have hnew : newcomerPresence (roomInit node) stanza.ingress mucNode stanza.acl = some r := hr
  unfold newcomerPresence at hnew
  rw [if_neg htype, if_pos (by simpa using hres)] at hnew
  obtain ⟨bounced, -, rfl⟩ := presenceBounce_case hnew
  cases hs
  rfl

/-- Nobody has marked a new room, and nobody is in it. -/
theorem roomInit_unmarked (node : Bytes) : (roomInit node).hasFlag mucFlagDestroyed = false := by
  show Flags.isSet mucFlagsDefault mucFlagDestroyed = false
  decide

theorem roomInit_not_alive (node : Bytes) : ¬ Alive (roomInit node) := by
  intro h
  rcases h.staffed with hp | hne
  · have hpassing : (roomInit node).hasFlag mucFlagPersistentroom = false := by
      show Flags.isSet mucFlagsDefault mucFlagPersistentroom = false
      decide
    rw [hpassing] at hp
    cases hp
  · exact hne rfl

/-! ## The table -/

/-- Every room of the table is alive. -/
def AllAlive (rooms : Rooms) : Prop := ∀ room ∈ rooms.table.items, Alive room

/-- Every room of the table is alive and counts its occupants. -/
def AllTended (rooms : Rooms) : Prop :=
  ∀ room ∈ rooms.table.items, room.hasFlag mucFlagDestroyed = false ∧ Tended room

/-- A stanza that creates a room is addressed to a nick in it. -/
def NamesNick (hash : HashsFind) (rooms : Rooms) (stanza : Stanza) : Prop :=
  hash.find rooms.table.items (roomKey stanza.ingress) = none →
    createsRoom stanza.ingress stanza.acl = true → stanza.ingress.proxyTo.resource.isSome = true

section Table

variable {rooms rooms' : Rooms} {stanza : Stanza} {hash : HashsFind} {i : Nat}

theorem AllTended.alive (h : AllTended rooms) : AllAlive rooms :=
  fun room hm => ⟨(h room hm).1, (h room hm).2.staffed (h room hm).1⟩

/-- The room that a stanza is for is taken out of the table if it is marked. -/
theorem routeAt_tended (hothers : ∀ j room, j ≠ i → rooms.table.items[j]? = some room →
      room.hasFlag mucFlagDestroyed = false ∧ Tended room)
    (hstep : ∀ room room' sent, rooms.table.items[i]? = some room →
      roomStep room stanza = some (room', sent) → Tended room')
    (hs : routeAt rooms i stanza = some (rooms', sent)) : AllTended rooms' := by
  obtain ⟨room, hroom, hs⟩ := Option.bind_eq_some_iff.mp hs
  obtain ⟨⟨room₁, sent₁⟩, hr, hs⟩ := Option.bind_eq_some_iff.mp hs
  have htended := hstep room room₁ sent₁ hroom hr
  dsimp only at hs
  split at hs
  · cases hs
    intro r hm
    obtain ⟨j, hj, hget⟩ := List.mem_eraseIdx_iff_getElem?.mp hm
    rw [show (setRoom rooms i room₁).table.items = rooms.table.items.set i room₁ from rfl,
      List.getElem?_set_ne (Ne.symm hj)] at hget
    exact hothers j r hj hget
  · next hunmarked =>
    cases hs
    intro r hm
    obtain ⟨j, hget⟩ := List.mem_iff_getElem?.mp hm
    rw [show (setRoom rooms i room₁).table.items = rooms.table.items.set i room₁ from rfl] at hget
    by_cases hj : j = i
    · subst hj
      have hlt : j < rooms.table.items.length := (List.getElem?_eq_some_iff.mp hroom).1
      rw [List.getElem?_set_self hlt, Option.some.injEq] at hget
      subst hget
      exact ⟨Bool.eq_false_iff.mpr hunmarked, htended⟩
    · rw [List.getElem?_set_ne (Ne.symm hj)] at hget
      exact hothers j r hj hget

/-- A stanza for a room that is there. -/
theorem AllTended.found (h : AllTended rooms) (hs : routeAt rooms i stanza = some (rooms', sent)) :
    AllTended rooms' :=
  routeAt_tended (fun _ room _ hget => h room (List.mem_of_getElem? hget))
    (fun room _ _ hget hstep => (h room (List.mem_of_getElem? hget)).2.step hstep) hs

/-- A stanza for a room that has just been created. -/
theorem AllTended.create (h : AllTended rooms) {node : Bytes}
    (hcreates : createsRoom stanza.ingress stanza.acl = true)
    (hs : routeAt (roomsCreateRoom rooms node) rooms.table.items.length stanza
      = some (rooms', sent)) :
    (stanza.ingress.proxyTo.resource.isSome = true → AllTended rooms') ∧
      (AllAlive rooms' → stanza.ingress.proxyTo.resource.isSome = true) := by
  have hnew : (roomsCreateRoom rooms node).table.items[rooms.table.items.length]?
      = some (roomInit node) := List.getElem?_concat_length
  constructor
  · intro hres
    refine routeAt_tended (fun j room hj hget => ?_) (fun room room' sent hget hstep => ?_) hs
    · have hitems : (roomsCreateRoom rooms node).table.items = rooms.table.items ++ [roomInit node] :=
        rfl
      rw [hitems, List.getElem?_append] at hget
      split at hget
      · exact h room (List.mem_of_getElem? hget)
      · next hge =>
        have hpos : 1 ≤ j - rooms.table.items.length := by omega
        rw [List.getElem?_eq_none hpos] at hget
        cases hget
    · rw [hnew, Option.some.injEq] at hget
      subst hget
      exact creation_tended hcreates hres hstep
  · intro halive
    by_contra hres
    obtain ⟨room, hroom, hs⟩ := Option.bind_eq_some_iff.mp hs
    obtain ⟨⟨room₁, sent₁⟩, hstep, hs⟩ := Option.bind_eq_some_iff.mp hs
    rw [hnew, Option.some.injEq] at hroom
    subst hroom
    obtain rfl := creation_bounced hcreates (Bool.eq_false_iff.mpr hres) hstep
    dsimp only at hs
    rw [roomInit_unmarked, if_neg Bool.false_ne_true] at hs
    cases hs
    refine roomInit_not_alive node (halive _ (List.mem_iff_getElem?.mpr
      ⟨rooms.table.items.length, ?_⟩))
    exact List.getElem?_set_self (List.getElem?_eq_some_iff.mp hnew).1

/-- **A stanza keeps the rooms of the table alive if and only if it creates none without a nick.** -/
theorem AllTended.step (h : AllTended rooms)
    (hs : roomsProcess hash rooms stanza = some (rooms', sent)) :
    (NamesNick hash rooms stanza → AllTended rooms') ∧
      (AllAlive rooms' → NamesNick hash rooms stanza) := by
  unfold roomsProcess at hs
  dsimp only at hs
  cases hfind : hash.find rooms.table.items (roomKey stanza.ingress) with
  | some i =>
    rw [hfind] at hs
    refine ⟨fun _ => h.found hs, fun _ hnone => ?_⟩
    rw [hfind] at hnone
    cases hnone
  | none =>
    rw [hfind] at hs
    dsimp only at hs
    have hsame : rooms' = rooms → createsRoom stanza.ingress stanza.acl = false →
        (NamesNick hash rooms stanza → AllTended rooms') ∧
          (AllAlive rooms' → NamesNick hash rooms stanza) := by
      rintro rfl hcreates
      refine ⟨fun _ => h, fun _ _ hyes => ?_⟩
      rw [hcreates] at hyes
      cases hyes
    split_ifs at hs with hignored hother hacl
    · cases hs
      exact hsame rfl (by simp [createsRoom, hignored])
    · obtain ⟨packet, -, heq⟩ := Option.map_eq_some_iff.mp hs
      cases heq
      refine hsame rfl ?_
      simp only [Bool.or_eq_true, bne_iff_ne, beq_iff_eq] at hother
      rcases hother with hname | htype
      · simp [createsRoom, hname]
      · simp [createsRoom, htype]
    · have hcreates : createsRoom stanza.ingress stanza.acl = true := by
        simp only [Bool.or_eq_true, bne_iff_ne, beq_iff_eq, not_or, not_not] at hother
        simp [createsRoom, hignored, hother.1, hother.2, hacl]
      have hc := h.create hcreates hs
      exact ⟨fun hok => hc.1 (hok hfind hcreates), fun halive _ _ => hc.2 halive⟩
    · obtain ⟨packet, -, heq⟩ := Option.map_eq_some_iff.mp hs
      cases heq
      exact hsame rfl (by simp [createsRoom, hacl])

/--
**Every room is alive**, for every ACL and all stanzas one after another, in every state of a run
in which each room is created by a presence with a nick; and the next stanza changes that if it
creates a room without one.
-/
theorem rooms_alive (h : Machine.Reach (roomsProcess hash) (NamesNick hash) roomsInit rooms) :
    AllAlive rooms ∧ ∀ stanza rooms' sent, roomsProcess hash rooms stanza = some (rooms', sent) →
      (AllAlive rooms' ↔ NamesNick hash rooms stanza) := by
  have hstart : AllTended roomsInit := fun _ hm => absurd hm List.not_mem_nil
  have htended : AllTended rooms := h.invariant hstart fun _ _ _ _ hi hok hs => (hi.step hs).1 hok
  refine ⟨htended.alive, fun stanza rooms' sent hs => ⟨(htended.step hs).2, fun hok => ?_⟩⟩
  exact ((htended.step hs).1 hok).alive

end Table

/-! ## Two first presences -/

/-- A presence for a room that does not exist, without a nick in it. -/
def namelessRun : List Stanza :=
  stanzasOfTexts openAcl 0 0 ["<presence from='alice@h/pc' to='room@conf'/>"]

set_option maxRecDepth 100000 in
/-- The presence is bounced, and the room that was created for it stays, with nobody in it. -/
theorem empty_room_stays : ¬ ∀ rooms, Machine.Reach (roomsProcess firstFind)
    (fun _ stanza => Accepted stanza.ingress) roomsInit rooms → AllAlive rooms := by
  intro h
  have hany : (Machine.run (roomsProcess firstFind) roomsInit namelessRun).any (fun rooms =>
      rooms.table.items.any (fun room =>
        !room.hasFlag mucFlagPersistentroom && room.occupants.isEmpty)) = true := by
    decide +kernel
  obtain ⟨rooms, hrun, hempty⟩ := (Option.any_eq_true _ _).mp hany
  obtain ⟨room, hm, hroom⟩ := List.any_eq_true.mp hempty
  simp only [Bool.and_eq_true, Bool.not_eq_true', List.isEmpty_iff] at hroom
  have hreach : Machine.Reach (roomsProcess firstFind) (fun _ stanza => Accepted stanza.ingress)
      roomsInit rooms := .run .start (fun _ _ hs => accepted_of_texts hs) hrun
  rcases (h rooms hreach room hm).staffed with hp | hne
  · rw [hroom.1] at hp
    cases hp
  · exact hne hroom.2

instance (hash : HashsFind) (rooms : Rooms) (stanza : Stanza) :
    Decidable (NamesNick hash rooms stanza) := by
  unfold NamesNick
  infer_instance

set_option maxRecDepth 100000 in
/-- The result for a room that is created by a presence with a nick. -/
theorem rooms_alive_openingRun : ∃ rooms,
    Machine.Reach (roomsProcess firstFind) (NamesNick firstFind) roomsInit rooms ∧
      rooms.table.items.length = 1 ∧ AllAlive rooms := by
  have hany : (Machine.runAdmitted (roomsProcess firstFind) (NamesNick firstFind) roomsInit
      openingRun).any (fun rooms => rooms.table.items.length == 1) = true := by decide +kernel
  obtain ⟨rooms, hrun, hlen⟩ := (Option.any_eq_true _ _).mp hany
  have hreach : Machine.Reach (roomsProcess firstFind) (NamesNick firstFind) roomsInit rooms :=
    .runAdmitted .start hrun
  exact ⟨rooms, hreach, beq_iff_eq.mp hlen, (rooms_alive hreach).1⟩

end Mukite
