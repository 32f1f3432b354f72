import Mukite.Properties.IqReplies
import Mukite.Properties.Saved

/-!
# Answers to answers

An error and the result of a query are answers themselves, and nobody waits for one to them. A
table of rooms takes them in silently only in some of the places where one can arrive:
`rooms_process` drops an error for a room that does not exist, but not a result, and `room_route`
handles messages and presences of type error, but leaves queries to `route_iq`, which bounces all
it does not know.

* **`answer_swallowed_iff`**: exactly when no error is sent back for an answer.
* `error_answered`: an error that is answered with another one.
-/

namespace Mukite

/-- An error, or the result of a query. -/
def IsAnswer (ingress : IncomingPacket) : Prop :=
  ingress.type = stanzaError ∨ ingress.name = .iq ∧ ingress.type = stanzaIqResult

instance (ingress : IncomingPacket) : Decidable (IsAnswer ingress) := by
  unfold IsAnswer
  infer_instance

/-- An error stanza for the sender: the header of the request names the receiver. -/
def ErrorBack (packet : BuilderPacket) : Prop :=
  packet.type = stanzaError ∧ packet.toJid = jidInit

instance (packet : BuilderPacket) : Decidable (ErrorBack packet) := by
  unfold ErrorBack
  infer_instance

/-- Whatever the outcome of a step, no error goes back. -/
def NoErrorBack {σ : Type} (outcome : Option (σ × List BuilderPacket)) : Prop :=
  ∀ r, outcome = some r → ∀ packet ∈ r.2, ¬ ErrorBack packet

/-- A query, or an answer to one, is passed on to an occupant. -/
def PassesOn (room : Room) (ingress : IncomingPacket) : Prop :=
  ingress.proxyTo.resource.isSome = true ∧
    (participantsFindByJid room.participants ingress.realFrom).isSome = true ∧
    room.hasFlag mucFlagIqProxy = true ∧
    (participantsFindByNick room.participants ingress.proxyTo.resource).isSome = true

instance (room : Room) (ingress : IncomingPacket) : Decidable (PassesOn room ingress) := by
  unfold PassesOn
  infer_instance

/-- The payload cannot be read: its size is negative, or its nodes do not come to an end. -/
def Unreadable (ingress : IncomingPacket) : Prop :=
  ingress.innerBytes = none ∨
    ingress.proxyTo.resource.isSome = false ∧ findQuery ingress = none

/-- How a room takes in an answer without a word. -/
def RoomSwallows (room : Room) (ingress : IncomingPacket) : Prop :=
  ingress.name ≠ .iq ∨ PassesOn room ingress ∨ Unreadable ingress

/-- How the table takes in an answer without a word. -/
def Swallows (hash : HashsFind) (rooms : Rooms) (ingress : IncomingPacket) : Prop :=
  match hash.find rooms.table.items (roomKey ingress) with
  | none => ingress.type = stanzaError ∨ ingress.innerBytes = none
  | some i => ∃ room, rooms.table.items[i]? = some room ∧ RoomSwallows room ingress

section Answers

variable {σ : Type} {room room' : Room} {ingress : IncomingPacket} {acl : ACLConfig}
  {error : XMPPError} {node : Buffer}

theorem noErrorBack_none : NoErrorBack (none : Option (σ × List BuilderPacket)) :=
  fun _ h => nomatch h

theorem noErrorBack_some {s : σ} {sent : List BuilderPacket} :
    NoErrorBack (some (s, sent)) ↔ ∀ packet ∈ sent, ¬ ErrorBack packet := by
  constructor
  · intro h
    exact h _ rfl
  · rintro h _ ⟨⟩
    exact h

/-! ## Bounces -/

theorem workerBounce_errorBack {packet : BuilderPacket}
    (h : workerBounce ingress error node = some packet) : ErrorBack packet := by
  obtain ⟨inner, -, h⟩ := Option.bind_eq_some_iff.mp h
  cases h
  exact ⟨rfl, rfl⟩

/-- Only the pointers decide whether a bounce is defined. -/
theorem workerBounce_isSome :
    (workerBounce ingress error node).isSome = ingress.innerBytes.isSome := by
  refine Eq.trans ?_ (innerBytes_isSome_mem ingress
    (packetCleanup ingress (packetCleanupTo ||| packetCleanupSwitchFromTo)).mem)
  show ((packetCleanup ingress (packetCleanupTo ||| packetCleanupSwitchFromTo)).innerBytes.bind
    _).isSome = (packetCleanup ingress (packetCleanupTo ||| packetCleanupSwitchFromTo)).innerBytes.isSome
  cases (packetCleanup ingress (packetCleanupTo ||| packetCleanupSwitchFromTo)).innerBytes <;> rfl

/-- **A bounce sends an error back** unless it cannot read the payload. -/
theorem bounced_iff {s : σ} :
    NoErrorBack ((workerBounce ingress error node).map (fun packet => (s, [packet]))) ↔
      ingress.innerBytes = none := by
  have hsome := @workerBounce_isSome ingress error node
  cases hb : workerBounce ingress error node with
  | none =>
    rw [hb] at hsome
    exact iff_of_true noErrorBack_none
      (Option.isNone_iff_eq_none.mp (Option.isSome_eq_false_iff.mp hsome.symm))
  | some packet =>
    rw [hb] at hsome
    refine iff_of_false ?_ ?_
    · rw [Option.map_some, noErrorBack_some]
      intro h
      exact h packet List.mem_cons_self (workerBounce_errorBack hb)
    · intro hnone
      rw [hnone] at hsome
      cases hsome

/-! ## In a room -/

/-- A broadcast is no error. -/
theorem broadcast_not_errorBack {sender : Nat × Participant} {newNick : Buffer} {codes : Nat} :
    ∀ packet ∈ roomBroadcastPresence room sender newNick codes, ¬ ErrorBack packet := by
  intro packet hp herror
  obtain ⟨receiver, -, rfl⟩ := List.mem_map.mp hp
  have htype := herror.1
  unfold presencePacket at htype
  dsimp only at htype
  split at htype
  · cases htype
  · cases htype

theorem routeError_noErrorBack : NoErrorBack (some (routeError room ingress)) := by
  unfold routeError
  split
  · exact noErrorBack_some.mpr (fun _ h => absurd h List.not_mem_nil)
  · exact noErrorBack_some.mpr broadcast_not_errorBack

/-- An answer to an occupant bounces, or it is passed on. -/
theorem proxyIq_noErrorBack_iff (hres : ingress.proxyTo.resource.isSome = true) :
    NoErrorBack (proxyIq room ingress) ↔ PassesOn room ingress ∨ ingress.innerBytes = none := by
  unfold proxyIq PassesOn
  rw [and_iff_right hres]
  cases participantsFindByJid room.participants ingress.realFrom with
  | none =>
    rw [or_iff_right (by rintro ⟨h, -⟩; cases h)]
    exact bounced_iff
  | some found =>
    obtain ⟨addr, sender⟩ := found
    cases room.hasFlag mucFlagIqProxy with
    | false =>
      rw [or_iff_right (by rintro ⟨-, h, -⟩; cases h)]
      exact bounced_iff
    | true =>
      cases participantsFindByNick room.participants ingress.proxyTo.resource with
      | none =>
        rw [or_iff_right (by rintro ⟨-, -, h⟩; cases h)]
        exact bounced_iff
      | some target =>
        refine iff_of_true ?_ (.inl ⟨rfl, rfl, rfl⟩)
        intro r hr packet hp herror
        obtain ⟨inner, -, hr⟩ := Option.bind_eq_some_iff.mp hr
        obtain ⟨vcard, -, hr⟩ := Option.bind_eq_some_iff.mp hr
        cases hr
        obtain rfl := List.mem_singleton.mp hp
        cases herror.1

/-- An answer to the room itself is a query that `route_iq` does not know. -/
theorem answerIq_of_answer (hans : IsAnswer ingress) : answerIq room ingress acl =
    (findQuery ingress).map (fun query =>
      if query.isSome then .unknown room else .refused room errorIqBad) := by
  have hget : ¬ ingress.type = stanzaIqGet := by
    rintro h
    rcases hans with ht | ⟨-, ht⟩ <;> exact absurd (h.symm.trans ht) (by decide)
  have hset : ¬ ingress.type = stanzaIqSet := by
    rintro h
    rcases hans with ht | ⟨-, ht⟩ <;> exact absurd (h.symm.trans ht) (by decide)
  unfold answerIq
  cases findQuery ingress with
  | none => rfl
  | some query =>
    cases query with
    | none => rfl
    | some query =>
      show (if ingress.type = stanzaIqGet then _ else _) = _
      rw [if_neg hget, if_neg hset]
      rfl

theorem routeIq_noErrorBack_iff (hans : IsAnswer ingress) :
    NoErrorBack (routeIq room ingress acl) ↔ PassesOn room ingress ∨ Unreadable ingress := by
  unfold routeIq Unreadable
  split
  · next hres =>
    rw [proxyIq_noErrorBack_iff hres, hres]
    simp
  · next hres =>
    have hpass : ¬ PassesOn room ingress := fun h => hres h.1
    rw [answerIq_of_answer hans, or_iff_right hpass,
      and_iff_right (by simpa using hres : ingress.proxyTo.resource.isSome = false)]
    cases findQuery ingress with
    | none => exact iff_of_true noErrorBack_none (.inr rfl)
    | some query =>
      rw [or_iff_left (by simp)]
      cases query with
      | none => exact bounced_iff
      | some query => exact bounced_iff

/-- **A room swallows an answer** in one of three ways. -/
theorem roomStep_noErrorBack_iff {stanza : Stanza} (hans : IsAnswer stanza.ingress) :
    NoErrorBack (roomStep room stanza) ↔ RoomSwallows room stanza.ingress := by
  unfold roomStep roomRoute RoomSwallows
  by_cases hname : stanza.ingress.name = .iq
  · have hno : isErrorStanza stanza.ingress = false := by simp [isErrorStanza, hname]
    rw [hno, if_neg Bool.false_ne_true, hname, or_iff_right (not_not.mpr rfl)]
    exact routeIq_noErrorBack_iff hans
  · -- messages and presences of type error
    have htype : stanza.ingress.type = stanzaError := hans.resolve_right fun h => hname h.1
    have hyes : isErrorStanza stanza.ingress = true := by simp [isErrorStanza, hname, htype]
    rw [if_pos hyes]
    exact iff_of_true routeError_noErrorBack (.inl hname)

/-! ## In the table -/

theorem routeAt_noErrorBack_iff {rooms : Rooms} {i : Nat} {stanza : Stanza}
    (hroom : rooms.table.items[i]? = some room) :
    NoErrorBack (routeAt rooms i stanza) ↔ NoErrorBack (roomStep room stanza) := by
  unfold routeAt
  rw [hroom]
  show NoErrorBack ((roomStep room stanza).bind _) ↔ _
  cases roomStep room stanza with
  | none => exact iff_of_true noErrorBack_none noErrorBack_none
  | some r =>
    obtain ⟨room', sent⟩ := r
    rw [Option.bind_some]
    dsimp only
    split
    · exact noErrorBack_some.trans noErrorBack_some.symm
    · exact noErrorBack_some.trans noErrorBack_some.symm

/--
**No error is sent back for an answer if and only if the table swallows it**, for every state of
the table and every error or result.
-/
theorem answer_swallowed_iff (hash : HashsFind) (rooms : Rooms) (stanza : Stanza)
    (hans : IsAnswer stanza.ingress) :
    NoErrorBack (roomsProcess hash rooms stanza) ↔ Swallows hash rooms stanza.ingress := by
  unfold roomsProcess Swallows ignoredWithoutRoom
  dsimp only
  cases hfind : hash.find rooms.table.items (roomKey stanza.ingress) with
  | some i =>
    obtain ⟨room, hroom, -⟩ := hash.found hfind
    have hunique : (∃ room, rooms.table.items[i]? = some room ∧ RoomSwallows room stanza.ingress) ↔
        RoomSwallows room stanza.ingress := by simp [hroom]
    dsimp only
    rw [hunique, routeAt_noErrorBack_iff hroom, roomStep_noErrorBack_iff hans]
  | none =>
    dsimp only
    by_cases htype : stanza.ingress.type = stanzaError
    · rw [if_pos (by simpa using htype)]
      exact iff_of_true (noErrorBack_some.mpr fun _ h => absurd h List.not_mem_nil) (.inl htype)
    · have hname : stanza.ingress.name = .iq := (hans.resolve_left htype).1
      rw [if_neg (by simpa using htype), hname, if_pos (by rfl), or_iff_right htype]
      exact bounced_iff

end Answers

/-! ## Answers that are answered -/

/-- The table after alice has entered a room. -/
def openedRooms : Option Rooms :=
  Machine.run (roomsProcess firstFind) roomsInit openingRun

/-- What is sent for a stanza that arrives then. -/
def arrive (text : String) : Option (Rooms × Stanza × List BuilderPacket) := do
  let rooms ← openedRooms
  let stanza ← stanzaOfText openAcl 0 0 text
  let (_, sent) ← roomsProcess firstFind rooms stanza
  return (rooms, stanza, sent)

theorem arrive_spec {text : String} {rooms : Rooms} {stanza : Stanza} {sent : List BuilderPacket}
    (h : arrive text = some (rooms, stanza, sent)) :
    openedRooms = some rooms ∧ Accepted stanza.ingress ∧
      ∃ rooms', roomsProcess firstFind rooms stanza = some (rooms', sent) := by
  unfold arrive at h
  obtain ⟨rooms₁, hrooms, h⟩ := Option.bind_eq_some_iff.mp h
  obtain ⟨stanza₁, hstanza, h⟩ := Option.bind_eq_some_iff.mp h
  obtain ⟨⟨rooms₂, sent₁⟩, hsent, h⟩ := Option.bind_eq_some_iff.mp h
  cases h
  exact ⟨hrooms, accepted_of_text hstanza, rooms₂, hsent⟩

set_option maxRecDepth 100000 in
/-- An error that a room of another service sends to a room, and the error that it gets. -/
theorem error_answered : ∃ rooms stanza packet rooms', openedRooms = some rooms ∧
    Accepted stanza.ingress ∧ IsAnswer stanza.ingress ∧
    roomsProcess firstFind rooms stanza = some (rooms', [packet]) ∧ ErrorBack packet ∧
    lit "   to='hall@service'" <+: bptBytes packet.header ∧
    ¬ NoErrorBack (roomsProcess firstFind rooms stanza) := by
  have hany : (arrive "<iq from='hall@service' to='room@conf' type='error' id='1'></iq>").any
      (fun (_, stanza, sent) => stanza.ingress.type == stanzaError && sent.length == 1 &&
        sent.all (fun packet => decide (ErrorBack packet) &&
          (lit "   to='hall@service'").isPrefixOf (bptBytes packet.header))) = true := by
    decide +kernel
  obtain ⟨⟨rooms, stanza, sent⟩, h, hfacts⟩ := (Option.any_eq_true _ _).mp hany
  simp only [Bool.and_eq_true, beq_iff_eq, List.length_eq_one_iff] at hfacts
  obtain ⟨⟨htype, packet, rfl⟩, hpacket⟩ := hfacts
  simp only [List.all_cons, List.all_nil, Bool.and_true, Bool.and_eq_true, decide_eq_true_eq,
    List.isPrefixOf_iff_prefix] at hpacket
  obtain ⟨hrooms, hacc, rooms', hsent⟩ := arrive_spec h
  refine ⟨rooms, stanza, packet, rooms', hrooms, hacc, .inl htype, hsent, hpacket.1, hpacket.2,
    fun hno => ?_⟩
  exact hno _ hsent packet List.mem_cons_self hpacket.1

set_option maxRecDepth 100000 in
/-- The result for the answer of an occupant to itself, which is passed on. -/
theorem answer_swallowed_iff_passed : ∃ rooms stanza sent, openedRooms = some rooms ∧
    stanza.ingress.type = stanzaIqResult ∧
    (∃ rooms', roomsProcess firstFind rooms stanza = some (rooms', sent)) ∧ sent.length = 1 ∧
    NoErrorBack (roomsProcess firstFind rooms stanza) := by
  have hany : (arrive "<iq from='alice@h/pc' to='room@conf/al' type='result' id='1'/>").any
      (fun (rooms, stanza, sent) => stanza.ingress.name == .iq &&
        stanza.ingress.type == stanzaIqResult && sent.length == 1 &&
        firstFind.find rooms.table.items (roomKey stanza.ingress) == some 0 &&
        rooms.table.items[0]?.any (fun room => decide (PassesOn room stanza.ingress))) = true := by
    decide +kernel
  obtain ⟨⟨rooms, stanza, sent⟩, h, hfacts⟩ := (Option.any_eq_true _ _).mp hany
  simp only [Bool.and_eq_true, beq_iff_eq, Option.any_eq_true, decide_eq_true_eq] at hfacts
  obtain ⟨⟨⟨⟨hname, htype⟩, hone⟩, hfind⟩, room, hroom, hpass⟩ := hfacts
  obtain ⟨hrooms, -, hsent⟩ := arrive_spec h
  refine ⟨rooms, stanza, sent, hrooms, htype, hsent, hone,
    (answer_swallowed_iff firstFind rooms stanza (.inr ⟨hname, htype⟩)).mpr ?_⟩
  unfold Swallows
  rw [hfind]
  exact ⟨room, hroom, .inr (.inl hpass)⟩

end Mukite
