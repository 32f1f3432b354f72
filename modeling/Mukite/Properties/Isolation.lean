import Mukite.Service
import Mukite.Lib.Keyed
import Mukite.Lib.Simulation
import Mukite.Properties.Bounces
import Mukite.Properties.Saved

/-!
# Each room is on its own

All stanzas go through one table. Yet a room answers as if there was no other room and no
component: what an address says is what a machine says that knows nothing but the room at this
address, if it is there (`addressStep`), and that is given the stanzas for this address only.

* **`rooms_isolated`**: this is so in every run, whatever goes to other addresses in between, and
  whatever they leave behind.
-/

namespace Mukite

open Machine

/-! ## One address -/

/-- The room that is kept after a stanza. -/
def keptRoom (room : Room) : Option Room :=
  if room.hasFlag mucFlagDestroyed then none else some room

/-- A stanza for a room at this address. -/
def routeAlone (room : Room) (stanza : Stanza) : Option (Option Room × List BuilderPacket) :=
  (roomStep room stanza).map (fun r => (keptRoom r.1, r.2))

/-- An address: a room comes with the first presence, and goes when it is destroyed. -/
def addressStep (room : Option Room) (stanza : Stanza) :
    Option (Option Room × List BuilderPacket) :=
  let ingress := stanza.ingress
  match room with
  | some room => routeAlone room stanza
  | none =>
    if ignoredWithoutRoom ingress then some (none, [])
    else if ingress.name != .presence || ingress.type == stanzaPresenceUnavailable then
      (workerBounce ingress errorRoomNotFound none).map (fun packet => (none, [packet]))
    else if aclRole stanza.acl ingress.realFrom ≥ aclMucCreate then
      routeAlone (roomInit (roomKey ingress)) stanza
    else
      (workerBounce ingress errorRoomCreatePermission (some (roomKey ingress))).map
        (fun packet => (none, [packet]))

/-- The stanza in an entry, if it is for the given address. -/
def stanzaFor (node : Bytes) (entry : WorkerEntry) : Option Stanza :=
  (entryStanza entry).join.filter (fun stanza => stanza.ingress.proxyTo.node = some node)

/-! ## The table -/

def nodeOf (room : Room) : Bytes := bptBytes room.node

/-- The table has one room for each node. -/
abbrev DistinctNodes (rooms : Rooms) : Prop := Keyed.Distinct nodeOf rooms.table.items

/-- The room at an address. -/
abbrev roomAt (rooms : Rooms) (node : Bytes) : Option Room :=
  Keyed.entryOf nodeOf rooms.table.items node

variable {hash : HashsFind} {rooms rooms' : Rooms} {stanza : Stanza} {sent : List BuilderPacket}
  {node : Bytes} {i : Nat}

theorem nodeOf_roomStep {room room' : Room} (h : roomStep room stanza = some (room', sent)) :
    nodeOf room' = nodeOf room :=
  congrArg bptBytes (node_of_changed (@roomStep_changed (fun _ => True) _ _ _ _ trivial h))

/-- What `rooms_process` does with a room of the table changes this room only. -/
theorem routeAt_address {room : Room} (hd : DistinctNodes rooms)
    (hi : rooms.table.items[i]? = some room) (h : routeAt rooms i stanza = some (rooms', sent)) :
    DistinctNodes rooms' ∧ ∃ kept, routeAlone room stanza = some (kept, sent) ∧
      ∀ node, roomAt rooms' node = if nodeOf room = node then kept else roomAt rooms node := by
  unfold routeAt at h
  simp only [hi, Option.bind_eq_bind, Option.bind_some] at h
  obtain ⟨⟨room₁, sent₁⟩, hstep, h⟩ := Option.bind_eq_some_iff.mp h
  have hnode := nodeOf_roomStep hstep
  have hset := hd.set hi hnode
  dsimp only at h
  unfold routeAlone keptRoom
  rw [hstep, Option.map_some]
  split at h
  · next hgone =>
    cases h
    refine ⟨hset.eraseIdx, none, by rw [if_pos hgone], fun node => ?_⟩
    have hget : (rooms.table.items.set i room₁)[i]? = some room₁ :=
      List.getElem?_set_self (List.getElem?_eq_some_iff.mp hi).1
    refine (hset.entryOf_eraseIdx hget).trans ?_
    rw [hd.entryOf_set hi hnode, hnode]
    split <;> rfl
  · next hstays =>
    cases h
    refine ⟨hset, some room₁, by rw [if_neg hstays], fun node => ?_⟩
    exact hd.entryOf_set hi hnode

/-- `rooms_process` is the machine of the address of the stanza. -/
theorem roomsProcess_address (hd : DistinctNodes rooms)
    (h : roomsProcess hash rooms stanza = some (rooms', sent)) :
    DistinctNodes rooms' ∧ ∃ kept,
      addressStep (roomAt rooms (roomKey stanza.ingress)) stanza = some (kept, sent) ∧
        ∀ node, roomAt rooms' node =
          if roomKey stanza.ingress = node then kept else roomAt rooms node := by
  unfold roomsProcess at h
  dsimp only at h
  cases hfind : hash.find rooms.table.items (roomKey stanza.ingress) with
  | some i =>
    rw [hfind] at h
    obtain ⟨room, hi, hnode⟩ := hash.found hfind
    have hroom : roomAt rooms (roomKey stanza.ingress) = some room :=
      hd.entryOf_iff.mpr ⟨List.mem_of_getElem? hi, hnode⟩
    obtain ⟨hd', kept, hkept, hall⟩ := routeAt_address hd hi h
    rw [hroom, ← hnode]
    exact ⟨hd', kept, hkept, hall⟩
  | none =>
    rw [hfind] at h
    have hroom : roomAt rooms (roomKey stanza.ingress) = none :=
      Keyed.entryOf_eq_none.mpr (hash.missing hfind)
    rw [hroom]
    unfold addressStep
    dsimp only at h ⊢
    -- whatever does not create a room leaves the table as it is
    have hsame : ∀ node, roomAt rooms node =
        if roomKey stanza.ingress = node then none else roomAt rooms node := by
      intro node
      split
      · next hk => rw [← hk, hroom]
      · rfl
    split_ifs at h ⊢ with hignored hother hacl
    · cases h
      exact ⟨hd, none, rfl, hsame⟩
    · obtain ⟨packet, hb, heq⟩ := Option.map_eq_some_iff.mp h
      cases heq
      exact ⟨hd, none, by rw [hb]; rfl, hsame⟩
    · have hnew : Keyed.entryOf nodeOf rooms.table.items
          (nodeOf (roomInit (roomKey stanza.ingress))) = none := hroom
      have hi : (roomsCreateRoom rooms (roomKey stanza.ingress)).table.items[
          rooms.table.items.length]? = some (roomInit (roomKey stanza.ingress)) :=
        List.getElem?_concat_length
      obtain ⟨hd', kept, hkept, hall⟩ := @routeAt_address
        (roomsCreateRoom rooms (roomKey stanza.ingress)) _ _ _ _ _ (hd.append hnew) hi h
      refine ⟨hd', kept, hkept, fun node => (hall node).trans ?_⟩
      show (if roomKey stanza.ingress = node then kept
        else Keyed.entryOf nodeOf (rooms.table.items ++ [_]) node) = _
      split
      · rfl
      · next hk =>
        rw [Keyed.entryOf_append hnew]
        exact if_neg hk
    · obtain ⟨packet, hb, heq⟩ := Option.map_eq_some_iff.mp h
      cases heq
      exact ⟨hd, none, by rw [hb]; rfl, hsame⟩

/-! ## Whole runs -/

/-- What an address has to do with the table. -/
def IsAt (node : Bytes) (rooms : Rooms) (room : Option Room) : Prop :=
  DistinctNodes rooms ∧ room = roomAt rooms node

variable {entry : WorkerEntry} {room : Option Room}

theorem roomKey_of_node (h : stanza.ingress.proxyTo.node = some node) :
    roomKey stanza.ingress = node := by
  unfold roomKey
  rw [h]
  rfl

/-- **A stanza for the address**: the table follows the machine. -/
theorem IsAt.moves (h : IsAt node rooms room) (hfor : stanzaFor node entry = some stanza)
    (hs : workerTurn hash rooms entry = some (rooms', sent)) :
    ∃ kept, addressStep room stanza = some (kept, sent) ∧ IsAt node rooms' kept := by
  obtain ⟨hd, rfl⟩ := h
  obtain ⟨hjoin, hnode⟩ := Option.filter_eq_some_iff.mp hfor
  rw [decide_eq_true_eq] at hnode
  have hstanza : entryStanza entry = some (some stanza) := Option.join_eq_some_iff.mp hjoin
  unfold workerTurn at hs
  rw [hstanza, Option.bind_some] at hs
  dsimp only at hs
  unfold dispatch at hs
  rw [hnode, if_neg (by simp)] at hs
  obtain ⟨hd', kept, hkept, hall⟩ := roomsProcess_address hd hs
  have hkey := roomKey_of_node hnode
  rw [hkey] at hkept
  refine ⟨kept, hkept, hd', ?_⟩
  rw [hall node, if_pos hkey]

/-- **A stanza for somebody else**: the room of the address stays as it is. -/
theorem IsAt.stays (h : IsAt node rooms room) (hfor : stanzaFor node entry = none)
    (hs : workerTurn hash rooms entry = some (rooms', sent)) : IsAt node rooms' room := by
  obtain ⟨hd, rfl⟩ := h
  obtain ⟨stanza?, hentry, hs⟩ := Option.bind_eq_some_iff.mp hs
  cases stanza? with
  | none =>
    cases hs
    exact ⟨hd, rfl⟩
  | some stanza =>
    dsimp only at hs
    unfold dispatch at hs
    split at hs
    · obtain ⟨sent', -, heq⟩ := Option.map_eq_some_iff.mp hs
      cases heq
      exact ⟨hd, rfl⟩
    · next hsome =>
      obtain ⟨other, hother⟩ := Option.ne_none_iff_exists'.mp (mt Option.isNone_iff_eq_none.mpr hsome)
      obtain ⟨hd', kept, -, hall⟩ := roomsProcess_address hd hs
      have hne : roomKey stanza.ingress ≠ node := by
        rintro rfl
        have hyes : stanzaFor (roomKey stanza.ingress) entry = some stanza := by
          refine Option.filter_eq_some_iff.mpr ⟨by rw [hentry]; rfl, ?_⟩
          rw [roomKey_of_node hother, hother, decide_eq_true_eq]
        rw [hyes] at hfor
        cases hfor
      refine ⟨hd', ?_⟩
      rw [hall node, if_neg hne]

/-! ### Reasons that are read again -/

/-- Nothing is left behind in the room at the address. -/
def ClearAt (node : Bytes) (rooms : Rooms) : Prop :=
  ∀ room, roomAt rooms node = some room → NoReasons room

instance (node : Bytes) (rooms : Rooms) : Decidable (ClearAt node rooms) :=
  inferInstanceAs (Decidable (∀ room, roomAt rooms node = some room → NoReasons room))

/-- What is left in other rooms does not matter to the room at the address. -/
theorem IsAt.reread (h : IsAt node rooms room) (hclear : ClearAt node rooms)
    (left : Bytes → Leftover) : IsAt node (rooms.reread left) room := by
  obtain ⟨hd, rfl⟩ := h
  have hkey : ∀ room : Room, nodeOf (room.reread (left (bptBytes room.node))) = nodeOf room :=
    fun _ => rfl
  refine ⟨hd.map hkey, ?_⟩
  refine Eq.trans ?_ (Keyed.entryOf_map hkey).symm
  show roomAt rooms node = (roomAt rooms node).map _
  cases hroom : roomAt rooms node with
  | none => rfl
  | some room => rw [Option.map_some, (hclear room hroom).reread]

/--
**Each room is on its own**: what is sent for the stanzas to an address, and the room that is there
in the end, are those of the machine of this address alone, given these stanzas only. This is so as
long as no request leaves a reason behind in this room: what is sent for that later may come from
any stanza.
-/
theorem rooms_isolated {entries : List (WorkerEntry × (Bytes → Leftover))}
    {os : List (List BuilderPacket)} (hd : DistinctNodes rooms) (node : Bytes)
    (hclear : Admitted (workerTurnIn hash) (fun rooms _ => ClearAt node rooms) rooms entries)
    (h : outputs (workerTurnIn hash) rooms entries = some os) :
    outputs addressStep (roomAt rooms node) (entries.filterMap (fun e => stanzaFor node e.1))
        = some (kept (fun e => stanzaFor node e.1) entries os) ∧
      ∀ rooms', run (workerTurnIn hash) rooms entries = some rooms' →
        run addressStep (roomAt rooms node) (entries.filterMap (fun e => stanzaFor node e.1))
          = some (roomAt rooms' node) := by
  have hmove : ∀ rooms room (e : WorkerEntry × (Bytes → Leftover)) stanza rooms' sent,
      IsAt node rooms room → ClearAt node rooms → stanzaFor node e.1 = some stanza →
        workerTurnIn hash rooms e = some (rooms', sent) →
          ∃ kept, addressStep room stanza = some (kept, sent) ∧ IsAt node rooms' kept :=
    fun _ _ e _ _ _ hat hclear hfor hs => (hat.reread hclear e.2).moves hfor hs
  have hstay : ∀ rooms room (e : WorkerEntry × (Bytes → Leftover)) rooms' sent,
      IsAt node rooms room → ClearAt node rooms → stanzaFor node e.1 = none →
        workerTurnIn hash rooms e = some (rooms', sent) → IsAt node rooms' room :=
    fun _ _ e _ _ hat hclear hfor hs => (hat.reread hclear e.2).stays hfor hs
  have hat : IsAt node rooms (roomAt rooms node) := ⟨hd, rfl⟩
  refine ⟨outputs_project hmove hstay hat hclear h, fun rooms' hrun => ?_⟩
  obtain ⟨room, hroom, -, rfl⟩ := run_project hmove hstay hat hclear hrun
  exact hroom

/-- A queue of texts, in blocks in which another stanza lies where an earlier one has been. -/
def entriesOfTexts (acl : ACLConfig) (decisecondsLimit ticks : Int) (texts : List String) :
    List (WorkerEntry × (Bytes → Leftover)) :=
  texts.map (fun text =>
    ({ buffer := lit text
       acl := acl
       decisecondsLimit := decisecondsLimit
       ticks := ticks }, fun _ _ => lit "<body>for the hall</body>"))

/-- Two rooms. In the second one a request is refused at its second item, and the occupant that the
first item has named is announced later. -/
def twoRoomsEntries : List (WorkerEntry × (Bytes → Leftover)) :=
  entriesOfTexts openAcl 0 0
    ["<presence from='alice@h/pc' to='room@conf/al'/>", "<presence from='bob@i/pc' to='hall@conf/bo'/>",
      "<presence from='carol@j/pc' to='hall@conf/ca'/>",
      "<iq from='bob@i/pc' to='hall@conf' type='set' id='1'>" ++
        "<query xmlns='http://jabber.org/protocol/muc#admin'>" ++
        "<item nick='ca' role='visitor'><reason>late</reason></item>" ++
        "<item nick='nobody' role='visitor'/></query></iq>",
      "<message from='alice@h/pc' to='room@conf/al' type='chat'><body>note</body></message>",
      "<presence from='carol@j/pc' to='hall@conf/ca'><show>away</show></presence>"]

/-- No room at all. -/
theorem distinctNodes_roomsInit : DistinctNodes roomsInit := List.nodup_nil

/-- A packet that shows a reason. -/
def showsReason (reason : Bytes) (packet : BuilderPacket) : Bool :=
  match packet.sysData with
  | .presence item _ _ => item.reasonNode == some reason
  | _ => false

set_option maxRecDepth 100000 in
/-- The result for two rooms: the first one hears nothing of the other, although what the other one
sends in the end is not its own. -/
theorem rooms_isolated_twoRooms : ∃ os,
    outputs (workerTurnIn firstFind) roomsInit twoRoomsEntries = some os ∧
      (∃ packet ∈ os.flatten, showsReason (lit "<body>for the hall</body>") packet = true) ∧
      outputs addressStep none (twoRoomsEntries.filterMap (fun e => stanzaFor (lit "room") e.1))
        = some (kept (fun e => stanzaFor (lit "room") e.1) twoRoomsEntries os) ∧
      (twoRoomsEntries.filterMap (fun e => stanzaFor (lit "room") e.1)).length = 2 := by
  have hany : (outputs (workerTurnIn firstFind) roomsInit twoRoomsEntries).any (fun os =>
      os.flatten.any (showsReason (lit "<body>for the hall</body>"))) = true := by
    decide +kernel
  have hclear : admittedBool (workerTurnIn firstFind) (fun rooms _ =>
      decide (ClearAt (lit "room") rooms)) roomsInit twoRoomsEntries = true := by
    decide +kernel
  obtain ⟨os, hos, hshown⟩ := (Option.any_eq_true _ _).mp hany
  obtain ⟨packet, hm, hp⟩ := List.any_eq_true.mp hshown
  exact ⟨os, hos, ⟨packet, hm, hp⟩, (rooms_isolated distinctNodes_roomsInit (lit "room")
    (admitted_of_bool (fun _ _ => of_decide_eq_true) hclear) hos).1, by decide +kernel⟩

end Mukite
