import Mukite.RoomsLocks

/-!
# Who has a room to itself

A worker that creates a room locks it; one that finds a room does not. So a room belongs to one
worker exactly as long as nobody finds it.

* **`rooms_exclusive`**: as long as no lookup finds a room, no room is shared, only owners unlock
  and nobody uses a destroyed room.
* `found_room_shared`: two stanzas for one room.
-/

namespace Mukite

open Machine

variable {ω : Type} {s s' : RoomsState ω} {w : ω}

/-- Whether a worker is at a point where it should have the lock of its room. -/
def Place.locked : Place → Bool
  | .found _ => true
  | .inside _ => true
  | .routed _ => true
  | _ => false

/--
No two workers are in `room_route` for one room, a worker about to unlock a room has its lock, and
nobody is about to use a room that has been destroyed.
-/
structure Exclusive (s : RoomsState ω) : Prop where
  single : ∀ w w' room, s.place w = .inside room → s.place w' = .inside room → w = w'
  owned : ∀ w room, s.place w = .routed room → s.owner room = some w
  alive : ∀ w room, (s.place w).room = some room → s.destroyed room = false

/-- A lookup does not find a room. -/
def FindsNothing (s : RoomsState ω) : RoomsEvent ω → Prop
  | .lookup _ stanza => findRoom s.table (roomKey stanza.ingress) = none
  | _ => True

/-- Every worker has its room to itself, and its lock where it needs it. -/
structure Apart (s : RoomsState ω) : Prop where
  single : ∀ w w' room, (s.place w).room = some room → (s.place w').room = some room → w = w'
  below : ∀ w room, (s.place w).room = some room → room < s.fresh
  alive : ∀ w room, (s.place w).room = some room → s.destroyed room = false
  owned : ∀ w room, (s.place w).room = some room → (s.place w).locked = true →
    s.owner room = some w

theorem Apart.exclusive (h : Apart s) : Exclusive s where
  single := by
    intro w w' room hw hw'
    exact h.single w w' room (by rw [hw]; rfl) (by rw [hw']; rfl)
  owned := by
    intro w room hw
    exact h.owned w room (by rw [hw]; rfl) (by rw [hw]; rfl)
  alive := h.alive

variable [DecidableEq ω]

theorem place_goto_self (s : RoomsState ω) (w : ω) (place : Place) :
    (s.goto w place).place w = place :=
  Function.update_self ..

theorem place_goto_of_ne (s : RoomsState ω) (place : Place) {v : ω} (h : v ≠ w) :
    (s.goto w place).place v = s.place v :=
  Function.update_of_ne h ..

/-- A worker moves on without taking up a room that it did not have. -/
theorem Apart.goto (h : Apart s) (place : Place)
    (hroom : ∀ room, place.room = some room → (s.place w).room = some room)
    (hlocked : place.locked = true → (s.place w).locked = true) : Apart (s.goto w place) := by
  have hplace : ∀ v room, ((s.goto w place).place v).room = some room →
      (s.place v).room = some room := by
    intro v room hv
    by_cases hvw : v = w
    · rw [hvw] at hv ⊢
      rw [place_goto_self] at hv
      exact hroom room hv
    · rwa [place_goto_of_ne s place hvw] at hv
  refine ⟨fun v v' room hv hv' => ?_, fun v room hv => ?_, fun v room hv => ?_,
    fun v room hv hl => ?_⟩
  · exact h.single v v' room (hplace v room hv) (hplace v' room hv')
  · exact h.below v room (hplace v room hv)
  · exact h.alive v room (hplace v room hv)
  · refine h.owned v room (hplace v room hv) ?_
    by_cases hvw : v = w
    · rw [hvw] at hl ⊢
      rw [place_goto_self] at hl
      exact hlocked hl
    · rwa [place_goto_of_ne s place hvw] at hl

/-- **A created room belongs to its creator alone.** -/
theorem Apart.create (h : Apart s) (node : Bytes) : Apart (s.create w node) := by
  have hself : (s.create w node).place w = .found s.fresh := Function.update_self ..
  have hother : ∀ v, v ≠ w → (s.create w node).place v = s.place v :=
    fun v hvw => Function.update_of_ne hvw ..
  -- the room of anybody else is older than the new one
  have hold : ∀ v room, v ≠ w → ((s.create w node).place v).room = some room →
      (s.place v).room = some room ∧ room < s.fresh := by
    intro v room hvw hv
    rw [hother v hvw] at hv
    exact ⟨hv, h.below v room hv⟩
  have hnew : ∀ room, ((s.create w node).place w).room = some room → room = s.fresh := by
    intro room hw
    rw [hself] at hw
    exact (Option.some.inj hw).symm
  refine ⟨?_, ?_, ?_, ?_⟩
  · intro v v' room hv hv'
    by_cases hvw : v = w <;> by_cases hvw' : v' = w
    · exact hvw.trans hvw'.symm
    · subst hvw
      have := (hold v' room hvw' hv').2
      exact absurd (hnew room hv) (by omega)
    · subst hvw'
      have := (hold v room hvw hv).2
      exact absurd (hnew room hv') (by omega)
    · exact h.single v v' room (hold v room hvw hv).1 (hold v' room hvw' hv').1
  · intro v room hv
    show room < s.fresh + 1
    by_cases hvw : v = w
    · subst hvw
      rw [hnew room hv]
      exact Nat.lt_succ_self _
    · exact Nat.lt_succ_of_lt (hold v room hvw hv).2
  · intro v room hv
    show Function.update s.destroyed s.fresh false room = false
    by_cases hvw : v = w
    · subst hvw
      rw [hnew room hv, Function.update_self]
    · obtain ⟨hv, hlt⟩ := hold v room hvw hv
      rw [Function.update_of_ne (Nat.ne_of_lt hlt)]
      exact h.alive v room hv
  · intro v room hv hl
    show Function.update s.owner s.fresh (some w) room = some v
    by_cases hvw : v = w
    · subst hvw
      rw [hnew room hv, Function.update_self]
    · rw [hother v hvw] at hl
      obtain ⟨hv, hlt⟩ := hold v room hvw hv
      rw [Function.update_of_ne (Nat.ne_of_lt hlt)]
      exact h.owned v room hv hl

theorem Apart.step {e : RoomsEvent ω} {o : Unit} (h : Apart s) (hok : FindsNothing s e)
    (hs : roomsStep s e = some (s', o)) : Apart s' := by
  -- most steps only move a worker; to give a lock back or destroy a room nobody else may have it
  cases e with
  | lookup w stanza =>
    unfold roomsStep at hs
    dsimp only at hs
    split at hs
    · change findRoom s.table (roomKey stanza.ingress) = none at hok
      rw [hok] at hs
      cases hs
      exact h.goto _ (fun _ hr => nomatch hr) Bool.noConfusion
    · cases hs
  | create w =>
    unfold roomsStep at hs
    dsimp only at hs
    split at hs
    · split at hs
      · cases hs
        exact h.create _
      · cases hs
        exact h.goto _ (fun _ hr => nomatch hr) Bool.noConfusion
    · cases hs
  | enter w =>
    unfold roomsStep at hs
    dsimp only at hs
    split at hs
    · next room hw =>
      cases hs
      exact h.goto _ (fun r hr => by rw [hw]; exact hr) (fun _ => by rw [hw]; rfl)
    · cases hs
  | leave w destroys =>
    unfold roomsStep at hs
    dsimp only at hs
    split at hs
    · next room hw =>
      cases hs
      have hg := h.goto (.routed room) (fun r hr => by rw [hw]; exact hr)
        (fun _ => by rw [hw]; rfl)
      exact ⟨hg.single, hg.below, hg.alive, hg.owned⟩
    · cases hs
  | unlock w =>
    unfold roomsStep at hs
    dsimp only at hs
    split at hs
    · next room hw =>
      cases hs
      have hg := h.goto (.unlocked room) (fun r hr => by rw [hw]; exact hr)
        Bool.noConfusion
      refine ⟨hg.single, hg.below, hg.alive, fun v r hv hl => ?_⟩
      -- the owner of another room is still its owner
      have hne : r ≠ room := by
        intro he
        have hvw : v = w := hg.single v w r hv (by
          rw [he, place_goto_self]
          rfl)
        rw [hvw] at hl
        change ((s.goto w (.unlocked room)).place w).locked = true at hl
        rw [place_goto_self] at hl
        cases hl
      show Function.update s.owner room none r = some v
      rw [Function.update_of_ne hne]
      exact hg.owned v r hv hl
    · cases hs
  | test w =>
    unfold roomsStep at hs
    dsimp only at hs
    split at hs
    · next room hw =>
      split at hs
      · cases hs
        exact h.goto _ (fun r hr => by rw [hw]; exact hr) Bool.noConfusion
      · cases hs
        exact h.goto _ (fun _ hr => nomatch hr) Bool.noConfusion
    · cases hs
  | remove w =>
    unfold roomsStep at hs
    dsimp only at hs
    split at hs
    · next room hw =>
      cases hs
      have hg := h.goto (.removed room) (fun r hr => by rw [hw]; exact hr)
        Bool.noConfusion
      exact ⟨hg.single, hg.below, hg.alive, hg.owned⟩
    · cases hs
  | destroy w =>
    unfold roomsStep at hs
    dsimp only at hs
    split at hs
    · next room hw =>
      cases hs
      have hg := @Apart.goto _ _ w _ h .idle (fun _ hr => nomatch hr) Bool.noConfusion
      refine ⟨hg.single, hg.below, fun v r hv => ?_, hg.owned⟩
      -- nobody else has had the room
      have hne : r ≠ room := by
        intro he
        by_cases hvw : v = w
        · rw [hvw] at hv
          change ((s.goto w .idle).place w).room = _ at hv
          rw [place_goto_self] at hv
          cases hv
        · change ((s.goto w .idle).place v).room = _ at hv
          rw [place_goto_of_ne s .idle hvw] at hv
          exact hvw (h.single v w r hv (by rw [hw, he]; rfl))
      show Function.update s.destroyed room true r = false
      rw [Function.update_of_ne hne]
      exact hg.alive v r hv
    · cases hs

omit [DecidableEq ω] in
theorem apart_start : Apart (roomsStart ω) where
  single := fun _ _ _ hw => nomatch hw
  below := fun _ _ hw => nomatch hw
  alive := fun _ _ _ => rfl
  owned := fun _ _ hw => nomatch hw

/--
**Exclusive access to a room**, for any number of workers and any stanzas, in every run in which no
lookup finds a room.
-/
theorem rooms_exclusive (h : Reach roomsStep FindsNothing (roomsStart ω) s) : Exclusive s :=
  (h.invariant apart_start (fun _ _ _ _ hi hok hs => hi.step hok hs)).exclusive

/-! ## A room that is created, and a room that is found -/

/-- Every stanza is one that the parser has accepted. -/
def LooksUpAccepted (_ : RoomsState ω) : RoomsEvent ω → Prop
  | .lookup _ stanza => Accepted stanza.ingress
  | _ => True

/-- The presence that creates a room. -/
def creation : Option Stanza :=
  stanzaOfText openAcl 0 0 "<presence from='alice@h/pc' to='room@conf/al'/>"

/-- A worker handles the stanza that creates a room, and then two workers find it. -/
def findingRun (stanza : Stanza) : List (RoomsEvent Bool) :=
  [.lookup false stanza, .create false, .enter false, .leave false false, .unlock false,
    .test false, .lookup false stanza, .lookup true stanza, .enter false, .enter true]

/-- Two workers that have both missed the room create one each. -/
def creatingRun (stanza : Stanza) : List (RoomsEvent Bool) :=
  [.lookup false stanza, .lookup true stanza, .create false, .create true, .enter false,
    .enter true]

/-- The room whose contents a worker is handling. -/
def Place.entered : Place → Option Nat
  | .inside room => some room
  | _ => none

theorem entered_eq_some {place : Place} {room : Nat} (h : place.entered = some room) :
    place = .inside room := by
  cases place with
  | inside r => exact congrArg Place.inside (Option.some.inj h)
  | _ => cases h

set_option maxRecDepth 100000 in
/-- Both workers are in the room that they have found. -/
theorem findingRun_entered : creation.any (fun stanza =>
    (run roomsStep (roomsStart Bool) (findingRun stanza)).any (fun s =>
      (s.place false).entered == some 0 && (s.place true).entered == some 0)) = true := by
  decide +kernel

/-- Two workers that have found one room handle their stanzas at the same time. -/
theorem found_room_shared :
    ¬ ∀ s, Reach roomsStep LooksUpAccepted (roomsStart Bool) s → Exclusive s := by
  intro h
  obtain ⟨stanza, hstanza, hrun⟩ := (Option.any_eq_true _ _).mp findingRun_entered
  obtain ⟨s, hs, hplaces⟩ := (Option.any_eq_true _ _).mp hrun
  rw [Bool.and_eq_true, beq_iff_eq, beq_iff_eq] at hplaces
  have hacc : Accepted stanza.ingress := accepted_of_text hstanza
  have hreach : Reach roomsStep LooksUpAccepted (roomsStart Bool) s := by
    refine Reach.run .start (fun _ e he => ?_) hs
    simp only [findingRun, List.mem_cons, List.not_mem_nil, or_false] at he
    rcases he with rfl | rfl | rfl | rfl | rfl | rfl | rfl | rfl | rfl | rfl <;>
      first | exact hacc | trivial
  have := (h s hreach).single false true 0 (entered_eq_some hplaces.1) (entered_eq_some hplaces.2)
  cases this

instance : ∀ (s : RoomsState ω) (e : RoomsEvent ω), Decidable (FindsNothing s e)
  | s, .lookup _ stanza =>
    inferInstanceAs (Decidable (findRoom s.table (roomKey stanza.ingress) = none))
  | _, .create _ | _, .enter _ | _, .leave _ _ | _, .unlock _ | _, .test _ | _, .remove _
  | _, .destroy _ => .isTrue trivial

set_option maxRecDepth 100000 in
theorem creatingRun_entered : creation.any (fun stanza =>
    (runAdmitted roomsStep FindsNothing (roomsStart Bool) (creatingRun stanza)).any (fun s =>
      (s.place false).entered == some 0 && (s.place true).entered == some 1)) = true := by
  decide +kernel

/-- The result at a run in which two workers create two rooms with one node. -/
theorem rooms_exclusive_creatingRun : ∃ stanza s, creation = some stanza ∧
    runAdmitted roomsStep FindsNothing (roomsStart Bool) (creatingRun stanza) = some s ∧
    (s.place false).entered = some 0 ∧ (s.place true).entered = some 1 ∧ Exclusive s := by
  obtain ⟨stanza, hstanza, hrun⟩ := (Option.any_eq_true _ _).mp creatingRun_entered
  obtain ⟨s, hs, hplaces⟩ := (Option.any_eq_true _ _).mp hrun
  rw [Bool.and_eq_true, beq_iff_eq, beq_iff_eq] at hplaces
  exact ⟨stanza, s, hstanza, hs, hplaces.1, hplaces.2,
    rooms_exclusive (.runAdmitted .start hs)⟩

end Mukite
