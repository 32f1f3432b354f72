import Mukite.Properties.Exclusive

/-!
# One room for each node

Between the lookup that misses a room and the creation of that room the lock of the table is
released, and the creation does not look again. So two workers can create one room each for the
same node.

* **`one_room_each`**: as long as nobody has created the room in between, no node has two rooms;
  the first creation that somebody else has preceded gives its node a second one.
* `node_with_two_rooms`: two presences for one new room.
-/

namespace Mukite

open Machine

variable {ω : Type} {s s' : RoomsState ω} {w : ω}

/-- The table holds at most one room for each node. -/
def OneRoomEach (s : RoomsState ω) : Prop := (s.table.map Prod.fst).Nodup

/-- A worker that goes on to create a room would still not find it. -/
def StillMissing (s : RoomsState ω) : RoomsEvent ω → Prop
  | .create w => ∀ stanza, s.place w = .missed stanza →
      createsRoom stanza.ingress stanza.acl = true →
      findRoom s.table (roomKey stanza.ingress) = none
  | _ => True

theorem findRoom_eq_none {table : List (Bytes × Nat)} {node : Bytes} :
    findRoom table node = none ↔ node ∉ table.map Prod.fst := by
  unfold findRoom
  rw [Option.map_eq_none_iff, List.find?_eq_none]
  constructor
  · intro h hm
    obtain ⟨entry, he, rfl⟩ := List.mem_map.mp hm
    exact h entry he (beq_self_eq_true _)
  · intro h entry he heq
    exact h (List.mem_map.mpr ⟨entry, he, eq_of_beq heq⟩)

/-- A table without two rooms for one node finds each of its rooms. -/
theorem OneRoomEach.findRoom (h : OneRoomEach s) {node : Bytes} {room : Nat}
    (hm : (node, room) ∈ s.table) : findRoom s.table node = some room := by
  unfold Mukite.findRoom
  cases hf : s.table.find? (fun entry => entry.1 == node) with
  | none => exact absurd (beq_self_eq_true _) (List.find?_eq_none.mp hf _ hm)
  | some entry =>
    have hkey : entry.1 = node := by simpa using List.find?_some hf
    have hsame := List.inj_on_of_nodup_map h (List.mem_of_find?_eq_some hf) hm hkey
    rw [Option.map_some, hsame]

variable [DecidableEq ω]

/-- A created room is the only one of its node if and only if the table had none. -/
theorem oneRoomEach_create (h : OneRoomEach s) (node : Bytes) :
    OneRoomEach (s.create w node) ↔ findRoom s.table node = none := by
  unfold OneRoomEach RoomsState.create
  rw [List.map_append, findRoom_eq_none]
  constructor
  · intro hd hm
    exact (List.nodup_append.mp hd).2.2 node hm node List.mem_cons_self rfl
  · intro hm
    refine List.nodup_append.mpr ⟨h, List.nodup_singleton _, ?_⟩
    intro a ha b hb hab
    obtain rfl : b = node := List.mem_singleton.mp hb
    exact hm (hab ▸ ha)

/-- **A step keeps one room for each node if and only if it creates none that is there already.** -/
theorem OneRoomEach.step_iff {e : RoomsEvent ω} {o : Unit} (h : OneRoomEach s)
    (hs : roomsStep s e = some (s', o)) : OneRoomEach s' ↔ StillMissing s e := by
  cases e with
  | create w =>
    unfold roomsStep at hs
    dsimp only at hs
    split at hs
    · next stanza hplace =>
      split at hs
      · next hcreates =>
        cases hs
        refine (oneRoomEach_create h _).trans ⟨fun hnone stanza' hplace' _ => ?_, fun hok => ?_⟩
        · rw [hplace] at hplace'
          cases hplace'
          exact hnone
        · exact hok stanza hplace hcreates
      · next hcreates =>
        cases hs
        refine iff_of_true h fun stanza' hplace' hcreates' => ?_
        rw [hplace] at hplace'
        cases hplace'
        exact absurd hcreates' hcreates
    · cases hs
  | remove w =>
    unfold roomsStep at hs
    dsimp only at hs
    split at hs
    · cases hs
      exact iff_of_true (h.sublist (List.filter_sublist.map _)) trivial
    · cases hs
  | lookup w stanza =>
    unfold roomsStep at hs
    dsimp only at hs
    split at hs
    · split at hs <;> cases hs <;> exact iff_of_true h trivial
    · cases hs
  | test w =>
    unfold roomsStep at hs
    dsimp only at hs
    split at hs
    · split at hs <;> cases hs <;> exact iff_of_true h trivial
    · cases hs
  | enter w | leave w destroys | unlock w | destroy w =>
    unfold roomsStep at hs
    dsimp only at hs
    split at hs
    · cases hs
      exact iff_of_true h trivial
    · cases hs

/--
**One room for each node**, for any number of workers and any stanzas, in every state of a run in
which no room is created that is there already, so that whoever looks for a node finds the same
room; and the next step breaks it if it does create a room that is there.
-/
theorem one_room_each (h : Reach roomsStep StillMissing (roomsStart ω) s) :
    (OneRoomEach s ∧ ∀ node room, (node, room) ∈ s.table → findRoom s.table node = some room) ∧
      ∀ e s' o, roomsStep s e = some (s', o) → (OneRoomEach s' ↔ StillMissing s e) := by
  have hstart : OneRoomEach (roomsStart ω) := List.nodup_nil
  have hone : OneRoomEach s := h.invariant hstart fun _ _ _ _ hi hok hs => (hi.step_iff hs).mpr hok
  exact ⟨⟨hone, fun _ _ hm => hone.findRoom hm⟩, fun _ _ _ hs => hone.step_iff hs⟩

/-! ## Two presences for one new room -/

/-- Two workers look the same new room up and create it one after the other. -/
def rivalRun (stanza : Stanza) : List (RoomsEvent Bool) :=
  [.lookup false stanza, .lookup true stanza, .create false, .create true]

set_option maxRecDepth 100000 in
theorem rivalRun_table : creation.any (fun stanza =>
    (run roomsStep (roomsStart Bool) (rivalRun stanza)).any (fun s =>
      s.table == [(lit "room", 0), (lit "room", 1)])) = true := by
  decide +kernel

/-- Two workers that have both missed the room create one each, under the same key. -/
theorem node_with_two_rooms :
    ¬ ∀ s, Reach roomsStep LooksUpAccepted (roomsStart Bool) s → OneRoomEach s := by
  intro h
  obtain ⟨stanza, hstanza, hrun⟩ := (Option.any_eq_true _ _).mp rivalRun_table
  obtain ⟨s, hs, htable⟩ := (Option.any_eq_true _ _).mp hrun
  have hacc : Accepted stanza.ingress := accepted_of_text hstanza
  have hreach : Reach roomsStep LooksUpAccepted (roomsStart Bool) s := by
    refine Reach.run .start (fun _ e he => ?_) hs
    simp only [rivalRun, List.mem_cons, List.not_mem_nil, or_false] at he
    rcases he with rfl | rfl | rfl | rfl <;> first | exact hacc | trivial
  have hone := h s hreach
  rw [OneRoomEach, eq_of_beq htable] at hone
  exact absurd hone (by decide)

/-- A worker creates the room that it has not found. -/
def aloneRun (stanza : Stanza) : List (RoomsEvent Bool) := [.lookup false stanza, .create false]

/-- What `StillMissing` asks of a worker in a given place. -/
def missingAt (table : List (Bytes × Nat)) : Place → Bool
  | .missed stanza =>
    !createsRoom stanza.ingress stanza.acl || (findRoom table (roomKey stanza.ingress)).isNone
  | _ => true

omit [DecidableEq ω] in
theorem stillMissing_create_iff : StillMissing s (.create w) ↔ missingAt s.table (s.place w) = true := by
  show (∀ stanza, s.place w = .missed stanza → _) ↔ _
  generalize s.place w = place
  cases place with
  | missed stanza =>
    simp only [missingAt, Place.missed.injEq, forall_eq']
    cases createsRoom stanza.ingress stanza.acl <;> simp
  | _ => simp [missingAt]

instance : ∀ (s : RoomsState ω) (e : RoomsEvent ω), Decidable (StillMissing s e)
  | _, .create _ => decidable_of_iff _ stillMissing_create_iff.symm
  | _, .lookup _ _ | _, .enter _ | _, .leave _ _ | _, .unlock _ | _, .test _ | _, .remove _
  | _, .destroy _ => .isTrue trivial

set_option maxRecDepth 100000 in
theorem aloneRun_table : creation.any (fun stanza =>
    (runAdmitted roomsStep StillMissing (roomsStart Bool) (aloneRun stanza)).any (fun s =>
      s.table == [(lit "room", 0)])) = true := by
  decide +kernel

/-- The result at a run in which a worker creates the room that it has not found. -/
theorem one_room_each_aloneRun : ∃ s, Reach roomsStep StillMissing (roomsStart Bool) s ∧
    s.table = [(lit "room", 0)] ∧ OneRoomEach s := by
  obtain ⟨stanza, hstanza, hrun⟩ := (Option.any_eq_true _ _).mp aloneRun_table
  obtain ⟨s, hs, htable⟩ := (Option.any_eq_true _ _).mp hrun
  have hreach : Reach roomsStep StillMissing (roomsStart Bool) s := .runAdmitted .start hs
  exact ⟨s, hreach, eq_of_beq htable, (one_room_each hreach).1.1⟩

end Mukite
