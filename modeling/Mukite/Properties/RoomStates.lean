import Mukite.Properties.Announcements
import Mukite.Properties.Saved
import Mukite.Properties.SmallSteps
import Mukite.Room.Leftover

/-!
# The states of a room

A room is created or read from the data file (`FirstState`), and then it handles stanzas. Two
things that the program relies on hold in every state it comes to:

* `RoomState.counted` — the list of the participants counts at least as many as it has. It may count
  more: `_CONTAINER_DESERIALIZE` counts twice what it reads.
* `RoomState.clean` — whoever is not on an affected list has no reason.
-/

namespace Mukite

open Codec Machine

/-- A room before the first stanza comes to it. -/
inductive FirstState : Room → Prop
  | created (node : Bytes) : FirstState (roomInit node)
  | loaded (input rest : Bytes) (room : Room) (h : roomDeserialize input = some (room, rest)) :
      FirstState room

/-- A state of a room, between two stanzas. -/
def RoomState (room : Room) : Prop :=
  ∃ start, FirstState start ∧ Reach roomStepIn (fun _ _ => True) start room

/-- A participant that is not on an affected list has no reason. -/
def Clean (p : Participant) : Prop :=
  p.affectedList.included = false → p.affectedList.reasonNode = none

def AllClean (room : Room) : Prop := ∀ addr p, (addr, p) ∈ room.occupants → Clean p

variable {ok : IncomingPacket → Prop} {room room' : Room} {stanza : Stanza} {acl : ACLConfig}
  {sent : List BuilderPacket} {left : Leftover} {addr : Nat} {p q : Participant}

/-! ## What is read from the data file -/

section Loaded

variable {α : Type} {g : Input α}

theorem containerLoop_counted {limit : Int} : ∀ (n : Nat) (size : Int) (items : List α),
    items.length ≤ size →
      Yields (fun r => (r.1.length : Int) ≤ r.2) (containerLoop g limit n size items)
  | 0, _, _, _ => yields_fail _
  | n + 1, size, items, h => by
    unfold containerLoop
    split
    · exact yields_fail _
    · refine Yields.bind_right fun x => Yields.bind_right fun presenceMark => ?_
      have hnext : ((items ++ [x]).length : Int) ≤ size + 2 := by
        rw [List.length_append, List.length_singleton]
        omega
      split
      · exact containerLoop_counted n (size + 2) (items ++ [x]) hnext
      · exact Yields.pure hnext

/-- A container that has been read counts no less than it has. -/
theorem containerDeserialize_counted {maxSize : Int} :
    Yields (fun r => (r.items.length : Int) ≤ r.size)
      (containerDeserialize g (.init maxSize)) := by
  unfold containerDeserialize
  refine Yields.bind_right fun presenceMark => ?_
  split
  · exact (containerLoop_counted _ 0 [] (Int.le_refl 0)).bind fun r hr => Yields.pure hr
  · exact Yields.pure (Int.le_refl 0)

theorem participantDeserialize_clean : Yields Clean participantDeserialize := by
  unfold participantDeserialize
  iterate 5 refine Yields.bind_right fun _ => ?_
  exact Yields.pure fun _ => rfl

/-- What is read into the list of the participants. -/
theorem participants_counted {maxSize : Int} :
    Yields (fun l => (l.items.length : Int) ≤ l.size ∧ ∀ p ∈ l.items, Clean p)
      (containerDeserialize participantDeserialize (.init maxSize)) := by
  intro input l rest h
  have hclean := containerDeserialize_yields participantDeserialize_clean
    (fun p hp => absurd hp List.not_mem_nil) input l rest h
  exact ⟨containerDeserialize_counted input l rest h, hclean.2⟩

/--
**In a room that is read from the data file the counter is high enough and nobody has a reason.**
-/
theorem roomDeserialize_counted :
    Yields (fun room => Counted room ∧ AllClean room) roomDeserialize := by
  unfold roomDeserialize
  iterate 12 refine Yields.bind_right fun _ => ?_
  refine participants_counted.bind fun participants hparts => ?_
  iterate 4 refine Yields.bind_right fun _ => ?_
  have hvals : (NodeList.ofList participants.items).nodes.map Prod.snd = participants.items :=
    NodeList.vals_ofList _
  have hlen := congrArg List.length hvals
  rw [List.length_map] at hlen
  refine Yields.pure ⟨?_, fun addr p hm => hparts.2 p ?_⟩
  · show ((NodeList.ofList participants.items).nodes.length : Int) ≤ participants.size
    rw [hlen]
    exact hparts.1
  · rw [← hvals]
    exact List.mem_map_of_mem hm

end Loaded

theorem FirstState.counted (h : FirstState room) : Counted room ∧ AllClean room := by
  cases h with
  | created node => exact ⟨Int.le_refl 0, fun addr p hm => absurd hm List.not_mem_nil⟩
  | loaded input rest room hread => exact roomDeserialize_counted input room rest hread

/-! ## The counter -/

namespace Counted

theorem join (h : Counted room) {jid : Jid} {nick : Buffer} {affiliation : Int} :
    Counted (roomJoin room jid nick affiliation).1 := by
  show ((room.participants.nodes.cons _).nodes.length : Int) ≤ room.participants.size + 1
  rw [NodeList.length_cons, Int.natCast_succ]
  exact Int.add_le_add_right h 1

theorem change (h : Counted room) (hc : Change ok room room') : Counted room' := by
  cases hc with
  | adjust addr f hf => exact h.modify addr f
  | adjustAll f hf => exact h.mapVals f
  | subject addr sender node hm hsize => exact h
  | store inner history hstore => exact h
  | creator ingress hi => exact h
  | join ingress mucNode acl affiliation hi hjid hres hnick hadmission =>
    have hcreated : Counted (withCreator room ingress.realFrom) := h
    exact hcreated.join
  | rename ingress addr hi hnick => exact h.modify addr _
  | leave addr hm => exact h.leave hm
  | opened => exact h
  | option room' hoption => cases hoption <;> exact h
  | affiliate ingress addr sender acl target affiliation affiliations hi hitem hjid hm hadmin
      hadd =>
    have hfiled : Counted { room with affiliations := affiliations } := h
    exact hfiled.mapVals _
  | evict =>
    have hflag : Counted (room.setFlag mucFlagDestroyed true) := h
    exact hflag.mapVals _

theorem reread (h : Counted room) (left : Leftover) : Counted (room.reread left) :=
  h.of_length (List.length_map _) rfl

theorem step (h : Counted room) (hr : roomStep room stanza = some (room', sent)) :
    Counted room' := by
  have hc := @roomStep_changed (fun _ => True) _ _ _ _ trivial hr
  exact keeps_of_changed (fun _ _ => change) hc h

end Counted

/-! ## The reasons -/

theorem Clean.same (h : Clean p) (hl : q.affectedList = p.affectedList) : Clean q := by
  unfold Clean
  rw [hl]
  exact h

/-- Whoever is put on an affected list may have a reason. -/
theorem clean_setAffected (reasonNode : Buffer) (p : Participant) :
    Clean (setAffected reasonNode p) := by
  intro hout
  have hin : (setAffected reasonNode p).affectedList.included = true := by
    unfold setAffected
    split
    · assumption
    · rfl
  rw [hin] at hout
  cases hout

namespace AllClean

theorem of_occupants (h : AllClean room) (ho : room'.occupants = room.occupants) :
    AllClean room' := fun addr p hm => h addr p (ho ▸ hm)

theorem modify (h : AllClean room) {f : Participant → Participant}
    (hf : ∀ p, Clean p → Clean (f p)) : AllClean (room.modify addr f) := by
  intro b q hq
  obtain ⟨p, hp, rfl⟩ := Room.mem_occupants_modify.mp hq
  split
  · exact hf p (h b p hp)
  · exact h b p hp

theorem affectEach {st : AdminState} (h : AllClean st.room) (reasonNode : Buffer)
    (f : Participant → Option Participant) : AllClean (affectEach st reasonNode f).room := by
  intro b q hq
  obtain ⟨p, hp, rfl⟩ := Room.mem_occupants_mapVals.mp hq
  cases f p with
  | none => exact h b p hp
  | some r => exact clean_setAffected reasonNode r

/-- Whoever leaves may have been changed before. -/
theorem leave (h : AllClean room) (f : Participant → Participant) :
    AllClean (roomLeave (room.modify addr f) addr) := by
  intro b q hq
  obtain ⟨hq, hne⟩ := mem_occupants_roomLeave.mp hq
  obtain ⟨p, hp, rfl⟩ := Room.mem_occupants_modify.mp hq
  rw [if_neg hne]
  exact h b p hp

theorem join (h : AllClean room) {jid : Jid} {nick : Buffer} {affiliation : Int} :
    AllClean (roomJoin room jid nick affiliation).1 := by
  intro b q hq
  rcases NodeList.mem_cons.mp hq with ⟨-, rfl⟩ | hq
  · exact fun _ => rfl
  · exact h b q hq

theorem item {st st' : AdminState} {sender : Participant} {target : AdminTarget}
    (h : AllClean st.room) (ha : adminItem acl st sender target = .ok st') :
    AllClean st'.room := by
  unfold adminItem at ha
  split at ha
  · cases ha
  · split at ha
    · next role _ =>
      unfold roleItem at ha
      split at ha
      · cases ha
      · split at ha
        · cases ha
        · cases ha
          exact h.modify fun p _ => clean_setAffected _ _
    · unfold affiliationItem at ha
      split at ha
      · cases ha
      · split at ha
        · cases ha
        · cases ha
          exact AllClean.affectEach (h.of_occupants rfl) _ _
    · cases ha
      exact h

/-- The mark of an occupant is taken away with its reason. -/
theorem announce (h : AllClean room) : AllClean (announceOne room addr p).1 := by
  unfold announceOne
  dsimp only
  have hcleared : AllClean ((room.modify addr (announced room)).modify addr clearReason) := by
    intro b q hq
    obtain ⟨q₁, hq₁, rfl⟩ := Room.mem_occupants_modify.mp hq
    obtain ⟨q₀, hq₀, rfl⟩ := Room.mem_occupants_modify.mp hq₁
    split
    · exact fun _ => rfl
    · exact h b q₀ hq₀
  split
  · intro b q hq
    exact hcleared b q (mem_occupants_roomLeave.mp hq).1
  · exact hcleared

theorem smallSteps : SmallSteps (fun _ => True) AllClean where
  of_occupants := of_occupants
  refresh := by
    intro room addr inner h
    refine h.modify fun p hp => hp.same ?_
    unfold refreshed
    split <;> rfl
  cache := by
    intro room addr h
    exact h.modify fun p hp => hp.same rfl
  rename := by
    intro room addr nick h
    exact h.modify fun p hp => hp.same rfl
  leave := by
    intro room addr f h
    exact h.leave f
  talk := by
    intro room addr ticks _ h
    exact h.modify fun p hp => hp.same rfl
  item := item
  announce := by
    intro room addr p hm h
    exact h.announce
  evict := by
    intro room h
    exact AllClean.affectEach (h.of_occupants rfl) _ _
  exclude := by
    intro room h
    unfold excludeNonMembers
    split
    · exact AllClean.affectEach h _ _
    · exact h

theorem step (h : AllClean room) (hr : roomStep room stanza = some (room', sent)) :
    AllClean room' := by
  refine smallSteps.step h trivial (fun mucNode affiliation hadmission => ?_) hr
  have hcreated : AllClean (withCreator room stanza.ingress.realFrom) := h.of_occupants rfl
  exact hcreated.join

/-- A reason that is read again is still a reason. -/
theorem reread (h : AllClean room) (left : Leftover) : AllClean (room.reread left) := by
  intro addr p hm hout
  obtain ⟨p₀, hp₀, rfl⟩ := Room.mem_occupants_reread.mp hm
  show p₀.affectedList.reasonNode.map _ = none
  rw [h addr p₀ hp₀ hout]
  rfl

end AllClean

/-! ## Every state -/

/-- **The counter of the participants never falls behind their list.** -/
theorem RoomState.counted (h : RoomState room) : Counted room := by
  obtain ⟨start, hstart, hreach⟩ := h
  exact hreach.invariant hstart.counted.1 fun _ _ _ _ hs _ hstep => (hs.reread _).step hstep

/-- **Whoever is on no affected list has no reason.** -/
theorem RoomState.clean (h : RoomState room) : AllClean room := by
  obtain ⟨start, hstart, hreach⟩ := h
  exact hreach.invariant hstart.counted.2 fun _ _ _ _ hs _ hstep => (hs.reread _).step hstep

/-- So no earlier stanza has left anything behind in a room in which nobody is marked. -/
theorem RoomState.noReasons (h : RoomState room)
    (hunmarked : ∀ b p, (b, p) ∈ room.occupants → p.affectedList.included = false) :
    NoReasons room := fun addr p hm => h.clean addr p hm (hunmarked addr p hm)

end Mukite
