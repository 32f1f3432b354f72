import Mukite.Properties.Lookup
import Mukite.Room.Route

/-!
# The role after a change of affiliation

`room_role_for_affiliation` gives a newcomer its role, and the loop over the occupants in
`route_iq` has a mapping of its own for those whose affiliation an item changes. The two agree on
members, admins and owners. Without an affiliation a newcomer gets the default role of the room,
and an occupant always a voice (`roleAfterItem_iff`).
-/

namespace Mukite

variable {lists : Affiliations} {acl : ACLConfig} {room : Room} {st st' : AdminState}
  {sender : Participant} {affiliation : Affil} {target : AdminTarget}

/-- A search gives one of the five affiliations. -/
theorem affiliationssGetByJid_mem (lists : Affiliations) (acl : ACLConfig) (jid : Jid) :
    ∃ a : Affil, affiliationssGetByJid lists acl jid = a.toInt := by
  unfold affiliationssGetByJid
  split
  · exact ⟨listOwner, rfl⟩
  · split
    · next a _ => exact ⟨a, rfl⟩
    · split
      · next a _ => exact ⟨a, rfl⟩
      · exact ⟨listNone, rfl⟩

/-- **The two mappings differ at `AFFIL_NONE` only, and there by the default role.** -/
theorem roleForChanged_eq_iff (room : Room) (a : Affil) (h : a.toInt ≠ affilOutcast) :
    roleForChanged a.toInt = roomRoleForAffiliation room a.toInt ↔
      room.defaultRole = roleParticipant ∨ a.toInt ≠ affilNone := by
  have hcases : a.toInt = affilOutcast ∨ a.toInt = affilNone ∨ a.toInt = affilMember ∨
      a.toInt = affilAdmin ∨ a.toInt = affilOwner := by
    revert a
    decide
  rcases hcases with ha | ha | ha | ha | ha
  · exact absurd ha h
  · rw [ha]
    have hleft : roleForChanged affilNone = roleParticipant := rfl
    have hright : roomRoleForAffiliation room affilNone = room.defaultRole := rfl
    simp [hleft, hright, eq_comm]
  · rw [ha]
    exact iff_of_true rfl (.inr (by decide))
  · rw [ha]
    exact iff_of_true rfl (.inr (by decide))
  · rw [ha]
    exact iff_of_true rfl (.inr (by decide))

/-! ## One item -/

/-- Everybody whose affiliation has changed, not to that of an outcast, has the role that somebody
who joins with it gets. -/
def RolesAsOnEntry (room room' : Room) : Prop :=
  ∀ addr p q, (addr, p) ∈ room.occupants → (addr, q) ∈ room'.occupants →
    q.affiliation ≠ p.affiliation → q.affiliation ≠ affilOutcast →
    q.role = roomRoleForAffiliation room' q.affiliation

/-- What an item of the loop with an affiliation does when it succeeds. -/
theorem adminItem_relooked (ha : target.affiliation = some affiliation)
    (h : adminItem acl st sender target = .ok st') :
    st' = affectEach { st with room := { st.room with
        affiliations := moveEntry st.room.affiliations
          (existingEntry st.room.affiliations target.jid) affiliation target.jid
          target.reasonNode } }
      target.reasonNode (reaffiliate (moveEntry st.room.affiliations
        (existingEntry st.room.affiliations target.jid) affiliation target.jid
        target.reasonNode) acl) := by
  unfold adminItem at h
  split at h
  · cases h
  · next hgood =>
    have hrole : target.role = none := by
      cases hr : target.role with
      | none => rfl
      | some role => simp [badItem, ha, hr] at hgood
    rw [hrole, ha] at h
    dsimp only at h
    unfold affiliationItem at h
    split at h
    · cases h
    · split at h
      · cases h
      · next lists hadd =>
        cases h
        rw [affiliationssAdd_eq hadd]

/-- What the loop over the occupants makes of one of them. -/
def relooked (lists : Affiliations) (acl : ACLConfig) (reasonNode : Buffer) (p : Participant) :
    Participant :=
  ((reaffiliate lists acl p).map (setAffected reasonNode)).getD p

theorem relooked_spec (p : Participant) (reasonNode : Buffer) :
    (relooked lists acl reasonNode p).affiliation = affiliationssGetByJid lists acl p.jid ∧
      (affiliationssGetByJid lists acl p.jid ≠ p.affiliation →
        (relooked lists acl reasonNode p).role
          = roleForChanged (affiliationssGetByJid lists acl p.jid)) := by
  have hset : ∀ q : Participant, (setAffected reasonNode q).affiliation = q.affiliation ∧
      (setAffected reasonNode q).role = q.role := by
    intro q
    unfold setAffected
    split <;> exact ⟨rfl, rfl⟩
  unfold relooked reaffiliate
  by_cases hsame : affiliationssGetByJid lists acl p.jid = p.affiliation
  · simp [hsame]
  · simp [hsame, hset]

/-- For one occupant: the role agrees unless the affiliation has become `AFFIL_NONE`. -/
theorem relooked_role_iff (room : Room) (p : Participant) (reasonNode : Buffer) :
    ((relooked lists acl reasonNode p).affiliation ≠ p.affiliation →
      (relooked lists acl reasonNode p).affiliation ≠ affilOutcast →
      (relooked lists acl reasonNode p).role
        = roomRoleForAffiliation room (relooked lists acl reasonNode p).affiliation) ↔
      room.defaultRole = roleParticipant ∨
        (p.affiliation ≠ affilNone → affiliationssGetByJid lists acl p.jid ≠ affilNone) := by
  obtain ⟨haff, hrole⟩ := @relooked_spec lists acl p reasonNode
  obtain ⟨a, ha⟩ := affiliationssGetByJid_mem lists acl p.jid
  rw [haff]
  rw [ha] at hrole ⊢
  by_cases hsame : a.toInt = p.affiliation
  · rw [← hsame]
    exact iff_of_true (fun hne => absurd rfl hne) (.inr id)
  rw [hrole hsame]
  by_cases hout : a.toInt = affilOutcast
  · refine iff_of_true (fun _ hne => absurd hout hne) (.inr fun _ => ?_)
    rw [hout]
    decide
  · have hone := roleForChanged_eq_iff room a hout
    constructor
    · intro h
      exact (hone.mp (h hsame hout)).imp_right fun hne _ => hne
    · rintro (hdefault | hne) - -
      · exact hone.mpr (.inl hdefault)
      · refine hone.mpr (.inr fun hnone => ?_)
        exact hne (fun hp => hsame (hnone.trans hp.symm)) hnone

/--
**When the role after an item agrees with the role on entry.** For every room and every item with
an affiliation that succeeds: if and only if the default role of the room is that of a
participant, or nobody who has an affiliation is left without one by the lists with the item
entered.
-/
theorem roleAfterItem_iff (ha : target.affiliation = some affiliation)
    (h : adminItem acl st sender target = .ok st') :
    RolesAsOnEntry st.room st'.room ↔
      st.room.defaultRole = roleParticipant ∨
        ∀ addr p, (addr, p) ∈ st.room.occupants → p.affiliation ≠ affilNone →
          affiliationssGetByJid (moveEntry st.room.affiliations
            (existingEntry st.room.affiliations target.jid) affiliation target.jid
            target.reasonNode) acl p.jid ≠ affilNone := by
  obtain rfl := adminItem_relooked ha h
  generalize moveEntry st.room.affiliations _ affiliation target.jid target.reasonNode = lists
  have hmem : ∀ addr q, (addr, q) ∈ (affectEach
      { st with room := { st.room with affiliations := lists } } target.reasonNode
      (reaffiliate lists acl)).room.occupants ↔
        ∃ p, (addr, p) ∈ st.room.occupants ∧ q = relooked lists acl target.reasonNode p :=
    fun addr q => Room.mem_occupants_mapVals
  have hone := fun p => @relooked_role_iff lists acl st.room p target.reasonNode
  constructor
  · intro hroles
    rw [or_iff_not_imp_left]
    intro hdefault addr p hp
    refine ((hone p).mp fun hne hout => ?_).resolve_left hdefault
    exact hroles addr p _ hp ((hmem addr _).mpr ⟨p, hp, rfl⟩) hne hout
  · intro hall addr p q hp hq hne hout
    obtain ⟨p', hp', rfl⟩ := (hmem addr q).mp hq
    obtain rfl := NodeList.val_unique hp hp'
    exact (hone p).mpr (hall.imp_right fun h => h addr p hp) hne hout

/-! ## A member without a voice -/

/-- Alice opens a room in which nobody who comes has a voice, makes Bob a member, and he comes. -/
def quietRun : List Stanza :=
  stanzasOfTexts openAcl 0 0 ["<presence from='alice@k/pc' to='room@conf/al'/>",
    "<iq type='set' from='alice@k/pc' to='room@conf' id='1'>" ++
      "<query xmlns='http://jabber.org/protocol/muc#owner'><x xmlns='jabber:x:data' type='submit'>" ++
      "<field var='members_by_default'><value>0</value></field></x></query></iq>",
    "<iq type='set' from='alice@k/pc' to='room@conf' id='2'>" ++
      "<query xmlns='http://jabber.org/protocol/muc#admin'>" ++
      "<item affiliation='member' jid='bob@h'/></query></iq>",
    "<presence from='bob@h/pc' to='room@conf/bob'/>"]

/-- The room of them both, and Alice in it, who sends an item about Bob. -/
def quietRoom : Option (AdminState × Participant) := do
  let room ← Machine.run roomStep (roomInit (lit "room")) quietRun
  let (_, alice) ← participantsFindByJid room.participants
    { node := some (lit "alice"), host := some (lit "k"), resource := some (lit "pc") }
  return ({ room := room, affected := [] }, alice)

theorem quietRoom_spec (h : quietRoom = some (st, sender)) :
    Machine.run roomStep (roomInit (lit "room")) quietRun = some st.room ∧
      ∃ addr, (addr, sender) ∈ st.room.occupants := by
  unfold quietRoom at h
  obtain ⟨room, hroom, h⟩ := Option.bind_eq_some_iff.mp h
  obtain ⟨⟨addr, alice⟩, halice, h⟩ := Option.bind_eq_some_iff.mp h
  cases h
  exact ⟨hroom, addr, findByJid_mem halice⟩

/-- The item that gives Bob another affiliation. -/
def itemForBob (affiliation : Affil) : AdminTarget where
  affiliation := some affiliation
  jid := bareJid "bob" "h"

/-- Somebody has not the role that comes with the new affiliation. -/
def keepsOtherRole (room room' : Room) : Bool :=
  room.occupants.any (fun n => room'.occupants.any (fun m => n.1 == m.1 &&
    m.2.affiliation != n.2.affiliation && m.2.affiliation != affilOutcast &&
      m.2.role != roomRoleForAffiliation room' m.2.affiliation))

theorem keepsOtherRole_spec {room' : Room} (h : keepsOtherRole room room' = true) :
    ¬ RolesAsOnEntry room room' := by
  intro hroles
  obtain ⟨⟨addr, p⟩, hp, h⟩ := List.any_eq_true.mp h
  obtain ⟨⟨addr', q⟩, hq, h⟩ := List.any_eq_true.mp h
  simp only [Bool.and_eq_true, beq_iff_eq, bne_iff_ne, ne_eq] at h
  obtain ⟨⟨⟨rfl, hchanged⟩, hout⟩, hrole⟩ := h
  exact hrole (hroles addr p q hp hq hchanged hout)

theorem adminItem_of_any {P : AdminState → Bool}
    (h : (adminItem acl st sender target).toOption.any P = true) :
    ∃ st', adminItem acl st sender target = .ok st' ∧ P st' = true := by
  cases hitem : adminItem acl st sender target with
  | error error =>
    rw [hitem] at h
    cases h
  | ok st' =>
    rw [hitem] at h
    exact ⟨st', rfl, h⟩

set_option maxRecDepth 100000 in
/-- What the two items about Bob lead to. -/
theorem quietRoom_items : quietRoom.any (fun start =>
    start.1.room.defaultRole == roleVisitor &&
      (adminItem openAcl start.1 start.2 (itemForBob listNone)).toOption.any (fun st' =>
        keepsOtherRole start.1.room st'.room) &&
      (adminItem openAcl start.1 start.2 (itemForBob listAdmin)).toOption.any (fun _ => true) &&
      start.1.room.occupants.all (fun n => affiliationssGetByJid (moveEntry
        start.1.room.affiliations (existingEntry start.1.room.affiliations (bareJid "bob" "h"))
        listAdmin (bareJid "bob" "h") none) openAcl n.2.jid != affilNone)) = true := by
  decide +kernel

/-- Bob keeps a voice without an affiliation, which he would not get if he joined now. -/
theorem droppedMember_keepsVoice : ∃ st alice st',
    Machine.run roomStep (roomInit (lit "room")) quietRun = some st.room ∧
      (∃ addr, (addr, alice) ∈ st.room.occupants) ∧
      adminItem openAcl st alice (itemForBob listNone) = .ok st' ∧
      ¬ RolesAsOnEntry st.room st'.room := by
  obtain ⟨⟨st, alice⟩, hstart, hchecks⟩ := (Option.any_eq_true _ _).mp quietRoom_items
  simp only [Bool.and_eq_true] at hchecks
  obtain ⟨st', hitem, hrole⟩ := adminItem_of_any hchecks.1.1.2
  obtain ⟨hrun, halice⟩ := quietRoom_spec hstart
  exact ⟨st, alice, st', hrun, halice, hitem, keepsOtherRole_spec hrole⟩

/-- As an admin he has the role of one. -/
theorem roleAfterItem_iff_promoted : ∃ st alice st',
    Machine.run roomStep (roomInit (lit "room")) quietRun = some st.room ∧
      st.room.defaultRole = roleVisitor ∧
      adminItem openAcl st alice (itemForBob listAdmin) = .ok st' ∧
      RolesAsOnEntry st.room st'.room := by
  obtain ⟨⟨st, alice⟩, hstart, hchecks⟩ := (Option.any_eq_true _ _).mp quietRoom_items
  simp only [Bool.and_eq_true, beq_iff_eq, List.all_eq_true, bne_iff_ne] at hchecks
  obtain ⟨⟨⟨hdefault, -⟩, hitem⟩, hall⟩ := hchecks
  obtain ⟨st', hitem, -⟩ := adminItem_of_any hitem
  exact ⟨st, alice, st', (quietRoom_spec hstart).1, hdefault, hitem,
    (@roleAfterItem_iff openAcl st st' alice listAdmin (itemForBob listAdmin) rfl hitem).mpr
      (.inr fun addr p hp _ => hall (addr, p) hp)⟩

end Mukite
