import Mukite.Room.Route

/-!
# The history of a room

What `history_entries_push` and `route_message` do to the history. The loop that should remove
what is beyond the limit runs while the list is *below* its limit, so it takes entries off until
there is none left to take (`removeExtra_eq_some_iff`). A store is defined only for a history
that has been filled up to its limit by other means (`historyStore_isSome_iff`), and a history
that starts empty never holds a message (`window_iff_nil`).
-/

namespace Mukite

/-! ## One store -/

/-- **The loop is over at once or it never ends well.** -/
theorem removeExtra_eq_some_iff {maxSize : Int} : ∀ {items : List HistoryEntry} {size : Int}
    {r : List HistoryEntry × Int},
    removeExtra maxSize items size = some r ↔ maxSize ≤ size ∧ r = (items, size)
  | [], size, r => by
    rw [removeExtra]
    split
    · simp
      omega
    · next h =>
      rw [Option.some.injEq, eq_comm]
      exact ⟨fun hr => ⟨by omega, hr⟩, fun hr => hr.2⟩
  | e :: rest, size, r => by
    rw [removeExtra]
    split
    · next h =>
      rw [removeExtra_eq_some_iff]
      exact ⟨fun hr => by omega, fun hr => by omega⟩
    · next h =>
      rw [Option.some.injEq, eq_comm]
      exact ⟨fun hr => ⟨by omega, hr⟩, fun hr => hr.2⟩

/-- **When a message can be stored**: the history is full and has an entry to recycle. -/
theorem historyStore_isSome_iff {h : HistoryEntriesList} {inner : Buffer} :
    (historyStore h inner).isSome ↔ h.maxSize ≤ h.size ∧ h.maxSize ≠ 0 ∧ h.items ≠ [] := by
  unfold historyStore historyEntriesPush
  by_cases hle : h.maxSize ≤ h.size
  · rw [removeExtra_eq_some_iff.mpr ⟨hle, rfl⟩]
    by_cases hz : h.maxSize = 0
    · simp [hz]
    · have hlt : ¬ h.size < h.maxSize := by omega
      cases hi : h.items with
      | nil => simp [hz, hlt]
      | cons e rest => simp [hz, hlt, hle]
  · have hnone : removeExtra h.maxSize h.items h.size = none := by
      cases hr : removeExtra h.maxSize h.items h.size with
      | none => rfl
      | some r => exact absurd (removeExtra_eq_some_iff.mp hr).1 hle
    simp [hnone, hle]

theorem historyStore_empty {h : HistoryEntriesList} (inner : Buffer) (hi : h.items = []) :
    historyStore h inner = none := by
  cases hs : historyStore h inner with
  | none => rfl
  | some h' =>
    have hsome := historyStore_isSome_iff.mp (Option.isSome_of_eq_some hs)
    exact absurd hi hsome.2.2

/-! ## Messages that reach the history -/

/-- The message as it is stored: the payload after the clean-up. -/
def storedInner (ingress : IncomingPacket) : Option Buffer :=
  (packetCleanup ingress (packetCleanupFrom ||| packetCleanupTo)).innerBytes

/-- Whether `route_message` lets a subject pass: its size and the rights of the sender. -/
def subjectPasses (room : Room) (sender : Participant) (mem : Bytes) :
    Option (Option Span) → Bool
  | none => false
  | some none => true
  | some (some newSubject) =>
    !(sender.role < roleModerator && !room.hasFlag mucFlagChangesubject) &&
      newSubject.size ≤ userStringOptionLimit && (newSubject.copy mem).isSome

/-- Whether `route_message` accepts a groupchat message: it gets as far as storing it. -/
def acceptsMessage (room : Room) (ingress : IncomingPacket) (decisecondsLimit ticks : Int) :
    Bool :=
  match participantsFindByJid room.participants ingress.realFrom with
  | none => false
  | some (_, sender) =>
    ingress.proxyTo.resource.isNone &&
      !(room.hasFlag mucFlagModeratedroom && sender.role < roleParticipant) &&
      decisecondsLimit ≤ ticks - sender.lastMessageTime &&
      subjectPasses room sender ingress.mem (getSubjectNode ingress) &&
      (storedInner ingress).isSome

/-- **An accepted message goes to `history_entries_push`**, with the history as it was. -/
theorem routeMessage_accepted {room : Room} {ingress : IncomingPacket} {limit ticks : Int}
    (h : acceptsMessage room ingress limit ticks = true) :
    ∃ room₁ sender, room₁.history = room.history ∧
      routeMessage room ingress limit ticks = publish room₁ ingress sender := by
  unfold acceptsMessage at h
  unfold routeMessage
  cases hs : participantsFindByJid room.participants ingress.realFrom with
  | none => simp [hs] at h
  | some found =>
    obtain ⟨addr, sender⟩ := found
    simp only [hs, Bool.and_eq_true, Bool.not_eq_true', decide_eq_true_eq] at h
    obtain ⟨⟨⟨⟨hres, hmod⟩, hrate⟩, hsubj⟩, -⟩ := h
    simp only [hres, if_true]
    unfold routePublicMessage
    simp only [hmod, Bool.false_eq_true, if_false, show ¬ ticks - sender.lastMessageTime < limit by
      omega]
    cases hn : getSubjectNode ingress with
    | none => simp [hn, subjectPasses] at hsubj
    | some subject =>
      cases subject with
      | none =>
        exact ⟨room.modify addr fun p => { p with lastMessageTime := ticks }, sender, rfl, rfl⟩
      | some newSubject =>
        simp only [hn, subjectPasses, Bool.and_eq_true, Bool.not_eq_true',
          decide_eq_true_eq] at hsubj
        obtain ⟨⟨hright, hsize⟩, hcopy⟩ := hsubj
        obtain ⟨node, hnode⟩ := Option.isSome_iff_exists.mp hcopy
        have hright' : (decide (sender.role < roleModerator) &&
            !(room.modify addr fun p => { p with lastMessageTime := ticks }).hasFlag
              mucFlagChangesubject) = false := hright
        simp only [Option.bind_eq_bind, Option.bind_some, hright', Bool.false_eq_true, if_false,
          show ¬ (userStringOptionLimit : Int) < newSubject.size by omega, hnode]
        exact ⟨{ room.modify addr fun p => { p with lastMessageTime := ticks } with
          subject := { node := some node, nick := some (bptBytes sender.nick) } }, sender, rfl, rfl⟩

/-! ## Runs of messages -/

/-- A message, and the limit of the history by the time it arrives. -/
structure Posting where
  maxSize : Int
  stanza : Stanza

/-- The room with the limit of the history set. -/
def withHistoryLimit (room : Room) (maxSize : Int) : Room :=
  { room with history := { room.history with maxSize := maxSize } }

/-- A message is routed under its limit. -/
def postMessage : Machine.Step Room Posting (List BuilderPacket) := fun room posting =>
  routeMessage (withHistoryLimit room posting.maxSize) posting.stanza.ingress
    posting.stanza.decisecondsLimit posting.stanza.ticks

/-- Every message of the run is accepted when its turn comes, under a limit that is not negative. -/
def AllAccepted : Room → List Posting → Prop
  | _, [] => True
  | room, posting :: rest =>
    0 ≤ posting.maxSize ∧
      acceptsMessage (withHistoryLimit room posting.maxSize) posting.stanza.ingress
        posting.stanza.decisecondsLimit posting.stanza.ticks = true ∧
      ∀ room' sent, postMessage room posting = some (room', sent) → AllAccepted room' rest

/-- The history holds the last messages of those that were stored, as many as its limit allows. -/
structure Window (h : HistoryEntriesList) (stored : List Buffer) : Prop where
  latest : h.items.map HistoryEntry.inner = stored.drop (stored.length - h.maxSize.toNat)
  counted : h.size = h.items.length
  limited : h.size ≤ h.maxSize

/-- What the messages of a run have as payload. -/
def storedInners (postings : List Posting) : List Buffer :=
  postings.map (fun posting => (storedInner posting.stanza.ingress).getD none)

theorem postMessage_empty {room : Room} {posting : Posting} (hempty : room.history.items = [])
    (h : acceptsMessage (withHistoryLimit room posting.maxSize) posting.stanza.ingress
      posting.stanza.decisecondsLimit posting.stanza.ticks = true) :
    postMessage room posting = none := by
  obtain ⟨room₁, sender, hhist, he⟩ := routeMessage_accepted h
  unfold postMessage
  rw [he, publish]
  have hstore : ∀ inner, historyStore room₁.history inner = none := by
    intro inner
    rw [hhist]
    exact historyStore_empty inner hempty
  simp [hstore]

/-- **The history of a room that starts empty is the window over the messages of a run only as
long as there are none**: the first one that is stored touches a missing entry. -/
theorem window_iff_nil (room : Room) (postings : List Posting)
    (hempty : room.history.items = []) (hsize : room.history.size = 0)
    (hmax : 0 ≤ room.history.maxSize) (haccepted : AllAccepted room postings) :
    (∃ room', Machine.run postMessage room postings = some room' ∧
      Window room'.history (storedInners postings)) ↔ postings = [] := by
  constructor
  · rintro ⟨room', hrun, -⟩
    cases postings with
    | nil => rfl
    | cons posting rest =>
      rw [Machine.run, postMessage_empty hempty haccepted.2.1] at hrun
      cases hrun
  · rintro rfl
    refine ⟨room, rfl, ?_, ?_, ?_⟩
    · simp [hempty, storedInners]
    · rw [hempty, hsize]
      rfl
    · rw [hsize]
      exact hmax

/-- A room that one occupant has joined. -/
def soloRoom : Option Room :=
  Machine.run roomStep (roomInit (lit "room"))
    (stanzasOfTexts openAcl 0 0 ["<presence from='alice@h/pc' to='room@conf/al'/>"])

/-- What the occupant says. -/
def greetings : List Posting :=
  (stanzasOfTexts openAcl 0 0
    ["<message from='alice@h/pc' to='room@conf' type='groupchat'><body>hi</body></message>"]).map
    (fun stanza => { maxSize := 20, stanza := stanza })

/-- Whether the greetings are one message that is accepted by a room with an empty history. -/
def greetsEmptyHistory (room : Room) : Bool :=
  room.history.items.isEmpty && room.history.size == 0 && room.history.maxSize == 20 &&
    greetings.length == 1 &&
    greetings.all (fun posting => posting.maxSize == 20 &&
      acceptsMessage (withHistoryLimit room posting.maxSize) posting.stanza.ingress
        posting.stanza.decisecondsLimit posting.stanza.ticks)

set_option maxRecDepth 100000 in
theorem soloRoom_greetings : ∃ room posting, soloRoom = some room ∧ greetings = [posting] ∧
    room.history.items = [] ∧ room.history.size = 0 ∧ room.history.maxSize = 20 ∧
    AllAccepted room [posting] := by
  have hall : soloRoom.any greetsEmptyHistory = true := by decide +kernel
  obtain ⟨room, hroom⟩ : ∃ room, soloRoom = some room :=
    Option.isSome_iff_exists.mp (by decide +kernel)
  rw [hroom, Option.any_some] at hall
  simp only [greetsEmptyHistory, Bool.and_eq_true, List.isEmpty_iff, beq_iff_eq] at hall
  obtain ⟨⟨⟨⟨hitems, hsize⟩, hmax⟩, hlen⟩, hposts⟩ := hall
  obtain ⟨posting, hg⟩ := List.length_eq_one_iff.mp hlen
  rw [hg, List.all_cons, List.all_nil, Bool.and_true, Bool.and_eq_true, beq_iff_eq] at hposts
  exact ⟨room, posting, hroom, hg, hitems, hsize, hmax, by omega, hposts.2,
    fun _ _ _ => trivial⟩

/-- The first message of a room is accepted and touches a missing entry. -/
theorem window_lost : ∃ room posting, soloRoom = some room ∧ greetings = [posting] ∧
    room.history.items = [] ∧ room.history.size = 0 ∧ AllAccepted room [posting] ∧
    Machine.run postMessage room [posting] = none := by
  obtain ⟨room, posting, hroom, hg, hitems, hsize, hmax, hacc⟩ := soloRoom_greetings
  refine ⟨room, posting, hroom, hg, hitems, hsize, hacc, ?_⟩
  rw [Machine.run, postMessage_empty hitems hacc.2.1]

/-- The result at a room with one occupant and its first message. -/
theorem window_iff_nil_soloRoom : ∃ room posting, soloRoom = some room ∧ greetings = [posting] ∧
    ¬ ∃ room', Machine.run postMessage room [posting] = some room' ∧
      Window room'.history (storedInners [posting]) := by
  obtain ⟨room, posting, hroom, hg, hitems, hsize, hmax, hacc⟩ := soloRoom_greetings
  refine ⟨room, posting, hroom, hg, fun hw => ?_⟩
  have hnil := (window_iff_nil room [posting] hitems hsize (by omega) hacc).mp hw
  cases hnil

end Mukite
