import Mukite.Properties.Coherence
import Mukite.Properties.SmallSteps
import Mukite.Room.Leftover

/-!
# Admins are moderators

Whatever lists are in use and whoever configures the room, an occupant with the affiliation of an
admin or an owner has the role of a moderator (`admins_moderate`). `Coherent` says it for rooms
that stay under one access list; here every small change is looked at once more, for the role
alone.
-/

namespace Mukite

/-- An admin or an owner has the role of a moderator. -/
def Ranked (p : Participant) : Prop := affilAdmin ≤ p.affiliation → p.role = roleModerator

/-- All the admins and owners in the room have. -/
def AdminsModerate (room : Room) : Prop := ∀ addr p, (addr, p) ∈ room.occupants → Ranked p

variable {room room' : Room} {ingress : IncomingPacket} {acl : ACLConfig} {addr : Nat}
  {p q : Participant} {sent : List BuilderPacket}

theorem ranked_of_low (h : p.affiliation < affilAdmin) : Ranked p :=
  fun hhigh => absurd hhigh (not_le.mpr h)

theorem Ranked.same (h : Ranked p) (ha : q.affiliation = p.affiliation) (hr : q.role = p.role) :
    Ranked q := by
  intro hhigh
  rw [hr]
  exact h (ha ▸ hhigh)

theorem Ranked.setAffected {reasonNode : Buffer} (h : Ranked p) :
    Ranked (setAffected reasonNode p) := by
  unfold Mukite.setAffected
  split
  · exact h
  · exact h.same rfl rfl

theorem Ranked.follows (h : Ranked p) (hf : Follows p q) : Ranked q := by
  intro hhigh
  rw [hf.affiliation] at hhigh
  rcases hf.role with hr | hlow
  · exact hr.trans (h hhigh)
  · exact absurd hhigh (not_le.mpr hlow)

/-- An occupant that is not removed when it is announced has the role that it had. -/
theorem affectedOutcome_role (h : (announced room p).role ≠ roleNone) :
    (announced room p).role = p.role := by
  change (affectedOutcome room p).1 ≠ roleNone at h
  show (affectedOutcome room p).1 = p.role
  unfold affectedOutcome at h ⊢
  split
  · next hd => exact absurd (by rw [if_pos hd]) h
  · next hd =>
    rw [if_neg hd] at h
    split
    · next ho => exact absurd (by rw [if_pos ho]) h
    · next ho =>
      rw [if_neg ho] at h
      split
      · next hm => exact absurd (by rw [if_pos hm]) h
      · next hm =>
        split
        · next hn => exact hn.symm
        · rfl

namespace AdminsModerate

theorem of_occupants (h : AdminsModerate room) (ho : room'.occupants = room.occupants) :
    AdminsModerate room' := fun addr p hm => h addr p (ho ▸ hm)

theorem modify (h : AdminsModerate room) {f : Participant → Participant}
    (hf : ∀ p, (addr, p) ∈ room.occupants → Ranked p → Ranked (f p)) :
    AdminsModerate (room.modify addr f) := by
  intro b q hq
  obtain ⟨p, hp, rfl⟩ := Room.mem_occupants_modify.mp hq
  split
  · next hb => exact hf p (hb ▸ hp) (h b p hp)
  · exact h b p hp

theorem mapVals (h : AdminsModerate room) {f : Participant → Participant}
    (hf : ∀ p, Ranked p → Ranked (f p)) : AdminsModerate (room.mapVals f) := by
  intro b q hq
  obtain ⟨p, hp, rfl⟩ := Room.mem_occupants_mapVals.mp hq
  exact hf p (h b p hp)

/-- Whoever leaves may have been changed before. -/
theorem leave (h : AdminsModerate room) (f : Participant → Participant) :
    AdminsModerate (roomLeave (room.modify addr f) addr) := by
  intro b q hq
  obtain ⟨hq, hne⟩ := mem_occupants_roomLeave.mp hq
  obtain ⟨p, hp, rfl⟩ := Room.mem_occupants_modify.mp hq
  rw [if_neg hne]
  exact h b p hp

theorem join (h : AdminsModerate room) {jid : Jid} {nick : Buffer} {affiliation : Int}
    (hle : affiliation ≤ affilOwner) : AdminsModerate (roomJoin room jid nick affiliation).1 := by
  intro b q hq
  rcases NodeList.mem_cons.mp hq with ⟨-, rfl⟩ | hq
  · exact fun hhigh => roomRoleForAffiliation_high hle hhigh
  · exact h b q hq

theorem item {st st' : AdminState} {sender : Participant} {target : AdminTarget}
    (h : AdminsModerate st.room) (ha : adminItem acl st sender target = .ok st') :
    AdminsModerate st'.room := by
  unfold adminItem at ha
  split at ha
  · cases ha
  · split at ha
    · next role _ =>
      unfold roleItem at ha
      split at ha
      · cases ha
      · next b receiver hb =>
        split at ha
        · cases ha
        · next hmay =>
          cases ha
          rw [not_or] at hmay
          refine h.modify fun p hp _ => Ranked.setAffected (ranked_of_low ?_)
          obtain rfl : p = receiver := NodeList.val_unique hp (findByNick_spec hb).1
          exact not_le.mp hmay.1
    · unfold affiliationItem at ha
      split at ha
      · cases ha
      · split at ha
        · cases ha
        · next lists hadd =>
          cases ha
          exact AdminsModerate.mapVals (h.of_occupants rfl) fun p hp =>
            (reaffiliate_inStep hp).role
    · cases ha
      exact h

/-- Whoever keeps a role when it is announced keeps its own. -/
theorem announce (h : AdminsModerate room) (hp : (addr, p) ∈ room.occupants) :
    AdminsModerate (announceOne room addr p).1 := by
  have hleave : ∀ {f g : Participant → Participant},
      AdminsModerate (roomLeave ((room.modify addr f).modify addr g) addr) := by
    intro f g b q hq
    obtain ⟨hq, hne⟩ := mem_occupants_roomLeave.mp hq
    obtain ⟨q₁, hq₁, rfl⟩ := Room.mem_occupants_modify.mp hq
    obtain ⟨q₀, hq₀, rfl⟩ := Room.mem_occupants_modify.mp hq₁
    rw [if_neg hne, if_neg hne]
    exact h b q₀ hq₀
  unfold announceOne
  dsimp only
  split
  · exact hleave
  · next hrole =>
    have h₁ : AdminsModerate (room.modify addr (announced room)) := by
      refine h.modify fun q hq hr => ?_
      obtain rfl : q = p := NodeList.val_unique hq hp
      exact hr.same rfl (affectedOutcome_role hrole)
    exact h₁.modify fun q _ hq => hq.same rfl rfl

theorem smallSteps : SmallSteps (fun _ => True) AdminsModerate where
  of_occupants := of_occupants
  refresh := by
    intro room addr inner h
    exact h.modify fun p _ hp => hp.follows (follows_refreshed room inner p)
  cache := by
    intro room addr h
    exact h.modify fun p _ hp => hp.same rfl rfl
  rename := by
    intro room addr nick h
    exact h.modify fun p _ hp => hp.same rfl rfl
  leave := by
    intro room addr f h
    exact h.leave f
  talk := by
    intro room addr ticks _ h
    exact h.modify fun p _ hp => hp.same rfl rfl
  item := item
  announce := by
    intro room addr p hm h
    exact h.announce hm
  evict := by
    intro room h
    refine AdminsModerate.mapVals (h.of_occupants rfl) fun p _ => Ranked.setAffected ?_
    exact ranked_of_low (show affilNone < affilAdmin by decide)
  exclude := by
    intro room h
    unfold excludeNonMembers
    split
    · refine h.mapVals fun p hp => ?_
      unfold excludeNonMember
      split
      · next hlow => exact Ranked.setAffected (ranked_of_low (lt_trans hlow (by decide)))
      · exact hp
    · exact h

theorem step {stanza : Stanza} (h : AdminsModerate room)
    (hr : roomStep room stanza = some (room', sent)) : AdminsModerate room' := by
  refine smallSteps.step h trivial (fun mucNode affiliation hadmission => ?_) hr
  have hle : affiliation ≤ affilOwner := by
    rw [admission_lookup hadmission]
    exact affiliationssGetByJid_le _
  have hcreated : AdminsModerate (withCreator room stanza.ingress.realFrom) := h.of_occupants rfl
  exact hcreated.join hle

end AdminsModerate

/-- Reasons that are read again have nothing to do with it. -/
theorem AdminsModerate.reread (h : AdminsModerate room) (left : Leftover) :
    AdminsModerate (room.reread left) := by
  intro addr p hm
  obtain ⟨p₀, hp₀, rfl⟩ := Room.mem_occupants_reread.mp hm
  exact (h addr p₀ hp₀).same rfl rfl

/-- **In every run that starts with an empty room, the admins and owners in it moderate.** -/
theorem admins_moderate {start : Room} (hstart : start.occupants = [])
    (h : Machine.Reach roomStepIn (fun _ _ => True) start room) : AdminsModerate room := by
  refine h.invariant (fun addr p hm => ?_) (fun _ _ _ _ hs _ hstep => (hs.reread _).step hstep)
  rw [hstart] at hm
  exact absurd hm List.not_mem_nil

end Mukite
