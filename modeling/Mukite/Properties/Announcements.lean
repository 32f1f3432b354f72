import Mukite.Room.AffectedList

/-!
# What the announcement of a request leaves and sends

The occupants when some of those affected have had their turn (`occupantsAfter`), and the packets
of one turn (`announcement`), read off the room as the request has left it.

* `announceAffected_exact` — the announcement of a whole list: one broadcast for each entry, in
  order, to the occupants who are still there; in the end those without a role are gone, and
  nobody else.

The room is destroyed when its last occupant leaves. So the roles of the later entries, which
depend on that flag, are known from the start: who still has to be announced is an occupant.
-/

namespace Mukite

/-! ## One after the other -/

/-- Whether an affected participant is removed in its turn. -/
def Removed (room : Room) (p : Participant) : Prop := (announced room p).role = roleNone

instance (room : Room) (p : Participant) : Decidable (Removed room p) :=
  inferInstanceAs (Decidable ((announced room p).role = roleNone))

/-- What a turn leaves of a participant. -/
def afterTurn (room : Room) (p : Participant) : Option Participant :=
  if Removed room p then none else some (clearReason (announced room p))

/-- The occupants of `room` after the turns of those in `before`. -/
def occupantsAfter (room : Room) (before : List Nat) : List (Nat × Participant) :=
  room.occupants.filterMap (fun n =>
    if n.1 ∈ before then (afterTurn room n.2).map (Prod.mk n.1) else some n)

/-- To whom the broadcast about `addr` goes, after the turns of those in `before`. -/
def audience (room : Room) (before : List Nat) (addr : Nat) : List (Nat × Participant) :=
  (occupantsAfter room before).map (fun n => if n.1 = addr then (n.1, announced room n.2) else n)

/-- The broadcast about `addr`, after the turns of those in `before`. -/
def announcement (room : Room) (before : List Nat) (addr : Nat) : List BuilderPacket :=
  match room.participants.nodes.get? addr with
  | none => []
  | some p =>
    (audience room before addr).map
      (presencePacket room (addr, announced room p) none (affectedOutcome room p).2)

/-- All broadcasts: each entry of the list after those before it. -/
def announcements (room : Room) (affected : List Nat) : List BuilderPacket :=
  (affected.inits.zip affected).flatMap (fun turn => announcement room turn.1 turn.2)

section

variable {room room₁ : Room} {addr b : Nat} {p q : Participant} {before affected rest : List Nat}

theorem occupantsAfter_nil : occupantsAfter room [] = room.occupants := by
  unfold occupantsAfter
  simp

theorem mem_occupantsAfter : (b, q) ∈ occupantsAfter room before ↔
    ∃ p, (b, p) ∈ room.occupants ∧
      if b ∈ before then ¬ Removed room p ∧ q = clearReason (announced room p) else q = p := by
  unfold occupantsAfter
  rw [List.mem_filterMap]
  constructor
  · rintro ⟨⟨c, p⟩, hm, hq⟩
    by_cases hc : c ∈ before
    · rw [if_pos hc] at hq
      obtain ⟨r, hr, he⟩ := Option.map_eq_some_iff.mp hq
      obtain ⟨rfl, rfl⟩ := Prod.mk.inj he
      unfold afterTurn at hr
      split at hr
      · cases hr
      · next hstays =>
        cases hr
        exact ⟨p, hm, by rw [if_pos hc]; exact ⟨hstays, rfl⟩⟩
    · rw [if_neg hc] at hq
      cases hq
      exact ⟨_, hm, by rw [if_neg hc]⟩
  · rintro ⟨p, hm, h⟩
    refine ⟨(b, p), hm, ?_⟩
    split at h
    · next hb =>
      obtain ⟨hstays, rfl⟩ := h
      rw [if_pos hb, afterTurn, if_neg hstays]
      rfl
    · next hb => rw [if_neg hb, h]

/-- Who has not had a turn is as before. -/
theorem mem_occupantsAfter_of_notMem (hb : b ∉ before) :
    (b, q) ∈ occupantsAfter room before ↔ (b, q) ∈ room.occupants := by
  simp [mem_occupantsAfter, hb]

/-- What one more turn leaves of an occupant. -/
theorem occupantsAfter_concat (hb : addr ∉ before) :
    occupantsAfter room (before ++ [addr]) = (occupantsAfter room before).filterMap (fun n =>
      if n.1 = addr then (afterTurn room n.2).map (Prod.mk n.1) else some n) := by
  unfold occupantsAfter
  rw [List.filterMap_filterMap]
  refine List.filterMap_congr fun n _ => ?_
  by_cases hn : n.1 = addr
  · have hbefore : n.1 ∉ before := hn ▸ hb
    simp [hn, hb]
  · by_cases hbefore : n.1 ∈ before
    · -- this one has had its turn: one without a role is not there any more
      cases h : afterTurn room n.2 with
      | none => simp [hbefore]
      | some r => simp [hbefore, hn]
    · simp [hbefore, hn]

/-! ## The counter of the participants -/

/-- The list of the participants counts no less than it has. -/
def Counted (room : Room) : Prop := room.occupants.length ≤ room.participants.size

namespace Counted

theorem of_length {room' : Room} (h : Counted room)
    (hl : room'.occupants.length = room.occupants.length)
    (hs : room'.participants.size = room.participants.size) : Counted room' := by
  unfold Counted
  rw [hl, hs]
  exact h

theorem modify (h : Counted room) (addr : Nat) (f : Participant → Participant) :
    Counted (room.modify addr f) := h.of_length NodeList.length_modify rfl

theorem mapVals (h : Counted room) (f : Participant → Participant) :
    Counted (room.mapVals f) := h.of_length NodeList.length_mapVals rfl

theorem leave (h : Counted room) (hm : addr ∈ room.participants.nodes.addrs) :
    Counted (roomLeave room addr) := by
  have hlen := NodeList.length_erase hm
  have hcount : (room.participants.nodes.nodes.length : Int) ≤ room.participants.size := h
  show ((roomLeave room addr).participants.nodes.nodes.length : Int)
    ≤ (roomLeave room addr).participants.size
  rw [participants_roomLeave]
  show ((room.participants.nodes.erase addr).nodes.length : Int) ≤ room.participants.size - 1
  omega

end Counted

/-! ## A room in the middle of the announcement -/

/-- A room after the turns of those in `before`, with `rest` still to come. -/
structure Midway (room : Room) (before rest : List Nat) (room₁ : Room) : Prop where
  occupants : room₁.occupants = occupantsAfter room before
  node : room₁.node = room.node
  flags : rest ≠ [] → room₁.flags = room.flags
  counted : Counted room₁

theorem Midway.start (h : Counted room) :
    Midway room [] affected room where
  occupants := occupantsAfter_nil.symm
  node := rfl
  flags := fun _ => rfl
  counted := h

theorem affectedOutcome_of_flags (h : room₁.flags = room.flags) :
    affectedOutcome room₁ p = affectedOutcome room p := by
  unfold affectedOutcome Room.hasFlag
  rw [h]

theorem announced_of_flags (h : room₁.flags = room.flags) :
    announced room₁ p = announced room p := by
  unfold announced
  rw [affectedOutcome_of_flags h]

theorem presencePacket_of_flags {sender receiver : Nat × Participant} {newNick : Buffer}
    {codes : Nat} (hflags : room₁.flags = room.flags) (hnode : room₁.node = room.node) :
    presencePacket room₁ sender newNick codes receiver
      = presencePacket room sender newNick codes receiver := by
  unfold presencePacket visibleJid roomConfigStatusCodes Room.hasFlag
  rw [hflags, hnode]

/-- The packets of a turn are those of `announcement`. -/
theorem Midway.sent (h : Midway room before (addr :: rest) room₁)
    (hp : (addr, p) ∈ room.occupants) :
    (announceOne room₁ addr p).2 = announcement room before addr := by
  have hflags : room₁.flags = room.flags := h.flags (List.cons_ne_nil _ _)
  have hget : room.participants.nodes.get? addr = some p := NodeList.get?_eq_some_iff.mpr hp
  have haudience : (room₁.modify addr (announced room₁)).occupants = audience room before addr := by
    show room₁.occupants.map _ = (occupantsAfter room before).map _
    rw [h.occupants]
    refine List.map_congr_left fun n _ => ?_
    rw [announced_of_flags hflags]
  unfold announceOne announcement
  simp only [hget]
  unfold roomBroadcastPresence
  rw [haudience, affectedOutcome_of_flags hflags, announced_of_flags hflags]
  refine List.map_congr_left fun n _ => ?_
  exact presencePacket_of_flags hflags h.node

/-- The occupants of a room after a turn. -/
theorem occupants_announceOne (hp : (addr, p) ∈ room.occupants) :
    (announceOne room addr p).1.occupants = room.occupants.filterMap (fun n =>
      if n.1 = addr then (afterTurn room n.2).map (Prod.mk n.1) else some n) := by
  have htwice : ((room.modify addr (announced room)).modify addr clearReason).occupants
      = room.occupants.map (fun n =>
          if n.1 = addr then (n.1, clearReason (announced room n.2)) else n) := by
    show (room.occupants.map _).map _ = _
    rw [List.map_map]
    refine List.map_congr_left fun n _ => ?_
    by_cases hn : n.1 = addr <;> simp [hn]
  have hvalue : ∀ n ∈ room.occupants, n.1 = addr → n.2 = p := by
    rintro ⟨c, q⟩ hn rfl
    exact NodeList.val_unique hn hp
  unfold announceOne
  dsimp only
  split
  · next hremoved =>
    show (roomLeave _ addr).participants.nodes.nodes = _
    rw [participants_roomLeave]
    show List.filter _ ((room.modify addr (announced room)).modify addr clearReason).occupants = _
    rw [htwice, List.filter_map, ← List.filterMap_eq_filter, List.map_filterMap]
    refine List.filterMap_congr fun n hn => ?_
    by_cases hc : n.1 = addr
    · have hgone : afterTurn room n.2 = none := by
        rw [hvalue n hn hc]
        exact if_pos hremoved
      simp [Option.guard, hc, hgone]
    · simp [Option.guard, hc]
  · next hstays =>
    rw [htwice, ← List.filterMap_eq_map]
    refine List.filterMap_congr fun n hn => ?_
    by_cases hc : n.1 = addr
    · have hkept : afterTurn room n.2 = some (clearReason (announced room n.2)) := by
        rw [hvalue n hn hc]
        exact if_neg hstays
      simp [hc, hkept]
    · simp [hc]

theorem mem_addrs_iff : b ∈ room.participants.nodes.addrs ↔ ∃ p, (b, p) ∈ room.occupants :=
  ⟨NodeList.exists_of_mem_addrs, fun ⟨_, hp⟩ => NodeList.mem_addrs_of_mem hp⟩

/-- A turn leaves the counter of the list no lower than the list is long. -/
theorem Counted.announceOne (hp : (addr, p) ∈ room.occupants) (h : Counted room) :
    Counted (announceOne room addr p).1 := by
  have hcleared : Counted ((room.modify addr (announced room)).modify addr clearReason) :=
    (h.modify addr _).modify addr _
  unfold Mukite.announceOne
  dsimp only
  split
  · refine hcleared.leave ?_
    simpa using NodeList.mem_addrs_of_mem hp
  · exact hcleared

/-- A room is not destroyed while there is an occupant in it. -/
theorem flags_announceOne (hp : (addr, p) ∈ room.occupants)
    (h : Counted room)
    (hb : b ∈ (announceOne room addr p).1.participants.nodes.addrs) :
    (announceOne room addr p).1.flags = room.flags := by
  have hcount : ((announceOne room addr p).1.occupants.length : Int) ≤
      (announceOne room addr p).1.participants.size := h.announceOne hp
  have hpos : 0 < (announceOne room addr p).1.occupants.length := by
    obtain ⟨q, hq⟩ := mem_addrs_iff.mp hb
    exact List.length_pos_of_mem hq
  unfold announceOne at hcount hpos ⊢
  dsimp only at hcount hpos ⊢
  split at hcount
  · next hremoved =>
    rw [if_pos hremoved] at hpos ⊢
    rw [participants_roomLeave] at hcount
    unfold roomLeave
    dsimp only
    rw [if_neg]
    · rfl
    · simp only [Bool.and_eq_true, decide_eq_true_eq, not_and]
      intro _ hzero
      have hsize : (((room.modify addr (announced room)).modify addr clearReason).participants.delete
        addr).size = 0 := hzero
      omega
  · next hstays =>
    rw [if_neg hstays]
    rfl

theorem node_announceOne : (announceOne room addr p).1.node = room.node := by
  unfold announceOne
  dsimp only
  split
  · unfold roomLeave
    dsimp only
    split <;> rfl
  · rfl

/-- One turn. -/
theorem Midway.turn (h : Midway room before (addr :: rest) room₁)
    (hp : (addr, p) ∈ room.occupants) (haddr : addr ∉ before)
    (hrest : ∀ b ∈ rest, b ∈ room.participants.nodes.addrs ∧ b ∉ before ∧ b ≠ addr) :
    Midway room (before ++ [addr]) rest (announceOne room₁ addr p).1 := by
  have hflags : room₁.flags = room.flags := h.flags (List.cons_ne_nil _ _)
  have hp₁ : (addr, p) ∈ room₁.occupants := by
    rw [h.occupants]
    exact (mem_occupantsAfter_of_notMem haddr).mpr hp
  refine ⟨?_, node_announceOne.trans h.node, fun hne => ?_, h.counted.announceOne hp₁⟩
  · rw [occupants_announceOne hp₁, occupantsAfter_concat haddr, h.occupants]
    refine List.filterMap_congr fun n _ => ?_
    have hafter : afterTurn room₁ n.2 = afterTurn room n.2 := by
      have he : announced room₁ n.2 = announced room n.2 := announced_of_flags hflags
      have hiff : Removed room₁ n.2 ↔ Removed room n.2 := by
        unfold Removed
        rw [he]
      simp only [afterTurn, hiff, he]
    rw [hafter]
  · obtain ⟨b, hb⟩ := List.exists_mem_of_ne_nil rest hne
    obtain ⟨halive, hbefore, hne⟩ := hrest b hb
    obtain ⟨q, hq⟩ := mem_addrs_iff.mp halive
    have hb₁ : b ∈ room₁.participants.nodes.addrs := by
      refine mem_addrs_iff.mpr ⟨q, ?_⟩
      rw [h.occupants]
      exact (mem_occupantsAfter_of_notMem hbefore).mpr hq
    exact (flags_announceOne hp₁ h.counted (mem_addrs_announceOne hb₁ hne)).trans hflags

/-- The turns that are still to come. -/
theorem Midway.announceAffected : ∀ {rest before : List Nat} {room₁ : Room},
    Midway room before rest room₁ → (before ++ rest).Nodup →
    (∀ b ∈ rest, b ∈ room.participants.nodes.addrs) →
    (announceAffected room₁ rest).1.occupants = occupantsAfter room (before ++ rest) ∧
      (announceAffected room₁ rest).2 = (rest.inits.zip rest).flatMap
        (fun turn => announcement room (before ++ turn.1) turn.2)
  | [], before, room₁, h, _, _ => by
    rw [List.append_nil]
    exact ⟨h.occupants, rfl⟩
  | addr :: rest, before, room₁, h, hnodup, halive => by
    obtain ⟨-, hright, hdisj⟩ := List.nodup_append.mp hnodup
    obtain ⟨hnot, -⟩ := List.nodup_cons.mp hright
    have haddr : addr ∉ before := fun hm => hdisj addr hm addr List.mem_cons_self rfl
    obtain ⟨p, hp⟩ := mem_addrs_iff.mp (halive addr List.mem_cons_self)
    have hrest : ∀ b ∈ rest, b ∈ room.participants.nodes.addrs ∧ b ∉ before ∧ b ≠ addr := by
      intro b hb
      have hb' : b ∈ addr :: rest := List.mem_cons_of_mem addr hb
      exact ⟨halive b hb', fun hm => hdisj b hm b hb' rfl, fun he => hnot (he ▸ hb)⟩
    have hget : room₁.participants.nodes.get? addr = some p := by
      refine NodeList.get?_eq_some_iff.mpr ?_
      show (addr, p) ∈ room₁.occupants
      rw [h.occupants]
      exact (mem_occupantsAfter_of_notMem haddr).mpr hp
    have hturn := h.turn hp haddr hrest
    have hnodup' : (before ++ [addr] ++ rest).Nodup := by rwa [← List.append_cons]
    obtain ⟨hocc, hsent⟩ := hturn.announceAffected hnodup' fun b hb => (hrest b hb).1
    rw [announceAffected_cons hget, List.append_cons]
    refine ⟨hocc, ?_⟩
    -- the first turn comes after `before`, the others also after `addr`
    dsimp only
    rw [hsent, h.sent hp, List.inits_cons, List.zip_cons_cons, List.flatMap_cons, List.append_nil,
      List.zip_map_left, List.flatMap_map]
    refine congrArg _ (List.flatMap_congr fun turn _ => ?_)
    simp

/-- **The announcement of a list of occupants, each of them once**: who is left, and what has been
sent. -/
theorem announceAffected_exact (hcount : Counted room)
    (hnodup : affected.Nodup) (halive : ∀ b ∈ affected, b ∈ room.participants.nodes.addrs) :
    (announceAffected room affected).1.occupants = occupantsAfter room affected ∧
      (announceAffected room affected).2 = announcements room affected :=
  (Midway.start hcount).announceAffected hnodup halive

end

end Mukite
