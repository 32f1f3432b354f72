import Mukite.Properties.Lookup
import Mukite.Properties.Atomicity

/-!
# Who may make an admin

A muc#admin request of somebody below an owner touches neither the admin list nor the owner
list. But an occupant whose affiliation no entry of its own decides is looked up through the
entries of its host, so filing or removing an entry below the admins can change what those lists
grant.

* `lookup_filed_iff` — when filing an entry leaves the admins and owners among the JIDs alone
* `adminLoop_top` — the loop over the items under that condition
* `request_guarded` — a whole request
-/

namespace Mukite

/-! ## One entry more -/

/-- `lists` holds what `rest` holds, and an entry of `jid` in the list `a`. -/
def Adds (rest lists : Affiliations) (a : Affil) (jid : Jid) : Prop :=
  ∀ q b, Holds lists q b ↔ Holds rest q b ∨ (b = a ∧ q jid = true)

/-- Whether an entry decides about `who` when it is added to `rest`: it is an entry of its own, or
one of its host when it has no entry of its own. -/
def Decides (rest : Affiliations) (entry who : Jid) : Prop :=
  hostKey entry = hostKey who ∧
    (bareKey entry = bareKey who ∨ lowestList rest (ownEntry who) = none)

section Adds

variable {rest lists : Affiliations} {acl : ACLConfig} {a : Affil} {entry who : Jid}

theorem lowestList_congr {p : Jid → Bool} (h : ∀ a, Holds lists p a ↔ Holds rest p a) :
    lowestList lists p = lowestList rest p := by
  refine Option.ext fun a => ?_
  rw [lowestList_eq_some_iff, lowestList_eq_some_iff, h a]
  exact and_congr_right fun _ => forall_congr' fun b => by rw [h b]

/-- An entry that does not satisfy `p` does not matter to `p`. -/
theorem Adds.lowestList_eq (h : Adds rest lists a entry) {p : Jid → Bool} (hp : p entry = false) :
    lowestList lists p = lowestList rest p :=
  lowestList_congr fun b => by simp [h p b, hp]

/-- An entry that satisfies `p` bounds the lowest list. -/
theorem Adds.lowestList_le (h : Adds rest lists a entry) {p : Jid → Bool} (hp : p entry = true) :
    ∃ b ≤ a, lowestList lists p = some b := by
  have ha : Holds lists p a := (h p a).mpr (.inr ⟨rfl, hp⟩)
  cases hl : lowestList lists p with
  | none => exact absurd ha (lowestList_none hl a)
  | some b => exact ⟨b, (lowestList_some hl).2 a ha, rfl⟩

theorem ownEntry_eq_true : ownEntry who entry = true ↔ bareKey entry = bareKey who := beq_iff_eq

theorem hostEntry_eq_true : hostEntry who entry = true ↔ hostKey entry = hostKey who := beq_iff_eq

theorem host_of_bare (h : bareKey entry = bareKey who) : hostKey entry = hostKey who :=
  congrArg Prod.snd h

theorem toInt_mono {b : Affil} (h : b ≤ a) : b.toInt ≤ a.toInt := by
  unfold Affil.toInt
  exact Int.ofNat_le.mpr h

/-- An ACL admin is an owner whatever the lists hold. -/
theorem lookup_acl_admin (h : ¬ aclRole acl who < aclMucAdmin) :
    affiliationssGetByJid lists acl who = affilOwner := by
  unfold affiliationssGetByJid
  rw [if_pos (not_lt.mp h)]

/-- An entry that does not decide makes no difference. -/
theorem lookup_of_not_decides (h : Adds rest lists a entry) (hd : ¬ Decides rest entry who) :
    affiliationssGetByJid lists acl who = affiliationssGetByJid rest acl who := by
  by_cases hacl : aclRole acl who < aclMucAdmin
  · rw [affiliationssGetByJid_eq hacl, affiliationssGetByJid_eq hacl]
    have hown : ownEntry who entry = false := by
      cases ho : ownEntry who entry with
      | false => rfl
      | true =>
        have hb := ownEntry_eq_true.mp ho
        exact absurd ⟨host_of_bare hb, .inl hb⟩ hd
    rw [h.lowestList_eq hown]
    cases hl : lowestList rest (ownEntry who) with
    | some b => rfl
    | none =>
      have hhost : hostEntry who entry = false := by
        cases hh : hostEntry who entry with
        | false => rfl
        | true => exact absurd ⟨hostEntry_eq_true.mp hh, .inr hl⟩ hd
      rw [h.lowestList_eq hhost]
  · rw [lookup_acl_admin hacl, lookup_acl_admin hacl]

/-- An entry below the admins that decides keeps its JID below the admins. -/
theorem lookup_of_decides (h : Adds rest lists a entry) (hacl : aclRole acl who < aclMucAdmin)
    (ha : a.toInt < affilAdmin) (hd : Decides rest entry who) :
    affiliationssGetByJid lists acl who < affilAdmin := by
  rw [affiliationssGetByJid_eq hacl]
  obtain ⟨hhost, hown⟩ := hd
  by_cases hb : bareKey entry = bareKey who
  · obtain ⟨b, hba, hl⟩ := h.lowestList_le (ownEntry_eq_true.mpr hb)
    rw [hl, rankOr_some]
    exact lt_of_le_of_lt (toInt_mono hba) ha
  · have hne : ownEntry who entry = false := by
      cases ho : ownEntry who entry with
      | false => rfl
      | true => exact absurd (ownEntry_eq_true.mp ho) hb
    obtain ⟨b, hba, hl⟩ := h.lowestList_le (hostEntry_eq_true.mpr hhost)
    rw [h.lowestList_eq hne, hown.resolve_left hb, hl, rankOr_none, rankOr_some]
    exact lt_of_le_of_lt (toInt_mono hba) ha

end Adds

/-! ## Filing an entry -/

/-- Whether the entry of `target` decides about `who` before it is filed anew. -/
def DecidedBefore (lists : Affiliations) (target who : Jid) : Prop :=
  ∃ found ∈ existingEntry lists target, ∃ entry ∈ (lists found.1).items[found.2]?,
    Decides (withoutEntry lists target) entry.jid who

/-- Whether it does after it has been filed. -/
def DecidedAfter (lists : Affiliations) (affiliation : Affil) (target who : Jid) : Prop :=
  affiliation ≠ listNone ∧
    Decides (withoutEntry lists target) (jidSet target (jidNode ||| jidHost)) who

/-- The other entries make no admin of `who`, or the entry of `target` decides about it before and
after, or neither before nor after. -/
def Harmless (lists : Affiliations) (acl : ACLConfig) (affiliation : Affil) (target who : Jid) :
    Prop :=
  aclRole acl who < aclMucAdmin →
    affilAdmin ≤ affiliationssGetByJid (withoutEntry lists target) acl who →
    (DecidedBefore lists target who ↔ DecidedAfter lists affiliation target who)

section Filing

variable {lists : Affiliations} {acl : ACLConfig} {affiliation list : Affil} {target who : Jid}
  (reasonNode : Buffer) {i : Nat}

theorem adds_append {entry : Affiliation} :
    Adds lists (setList lists affiliation ((lists affiliation).append entry)) affiliation
      entry.jid := by
  intro q b
  unfold Holds
  by_cases hb : b = affiliation
  · subst hb
    simp only [setList, if_true, Dls.items_append, List.mem_append, List.mem_singleton, true_and]
    constructor
    · rintro ⟨e, he | rfl, hq⟩
      · exact .inl ⟨e, he, hq⟩
      · exact .inr hq
    · rintro (⟨e, he, hq⟩ | hq)
      · exact ⟨e, .inl he, hq⟩
      · exact ⟨entry, .inr rfl, hq⟩
  · simp [setList, hb]

theorem adds_delete {entry : Affiliation} (he : (lists list).items[i]? = some entry) :
    Adds (setList lists list ((lists list).delete i)) lists list entry.jid := by
  intro q b
  unfold Holds
  by_cases hb : b = list
  · subst hb
    have hsplit : ∀ e, e ∈ (lists b).items ↔ e ∈ (lists b).items.eraseIdx i ∨ e = entry := by
      intro e
      obtain ⟨hi, hget⟩ := List.getElem?_eq_some_iff.mp he
      have hl : (lists b).items = (lists b).items.take i ++ entry :: (lists b).items.drop (i + 1) := by
        rw [← hget, List.getElem_cons_drop, List.take_append_drop]
      rw [List.eraseIdx_eq_take_drop_succ]
      conv_lhs => rw [hl]
      simp only [List.mem_append, List.mem_cons]
      tauto
    simp only [setList, if_true, Dls.items_delete, true_and]
    constructor
    · rintro ⟨e, hm, hq⟩
      rcases (hsplit e).mp hm with hm | rfl
      · exact .inl ⟨e, hm, hq⟩
      · exact .inr hq
    · rintro (⟨e, hm, hq⟩ | hq)
      · exact ⟨e, (hsplit e).mpr (.inl hm), hq⟩
      · exact ⟨entry, (hsplit entry).mpr (.inr rfl), hq⟩
  · simp [setList, hb]

/-- Before the entry is filed: it decides, or the other entries do. -/
theorem lookup_before (hbelow : ∀ list i, existingEntry lists target = some (list, i) →
      list.toInt < affilAdmin) (hacl : aclRole acl who < aclMucAdmin) :
    (DecidedBefore lists target who → affiliationssGetByJid lists acl who < affilAdmin) ∧
      (¬ DecidedBefore lists target who → affiliationssGetByJid lists acl who
        = affiliationssGetByJid (withoutEntry lists target) acl who) := by
  unfold DecidedBefore
  cases hf : existingEntry lists target with
  | none =>
    have hw : withoutEntry lists target = lists := by simp [withoutEntry, hf]
    rw [hw]
    exact ⟨fun ⟨found, hfound, _⟩ => (nomatch hfound), fun _ => rfl⟩
  | some found =>
    obtain ⟨list, i⟩ := found
    have he := List.getElem?_eq_getElem (existingEntry_lt hf)
    have hadds := adds_delete he
    have hw : withoutEntry lists target = setList lists list ((lists list).delete i) := by
      simp [withoutEntry, hf]
    rw [hw]
    constructor
    · rintro ⟨found, hfound, entry, hentry, hd⟩
      obtain rfl := Option.some.inj hfound
      rw [he] at hentry
      obtain rfl := Option.some.inj hentry
      exact lookup_of_decides hadds hacl (hbelow list i hf) hd
    · intro hnot
      refine lookup_of_not_decides hadds fun hd => hnot ?_
      exact ⟨(list, i), rfl, _, he, hd⟩

/-- After it has been filed: it decides, or the other entries do. -/
theorem lookup_after (ha : affiliation.toInt < affilAdmin) (hacl : aclRole acl who < aclMucAdmin) :
    (DecidedAfter lists affiliation target who → affiliationssGetByJid
        (moveEntry lists (existingEntry lists target) affiliation target reasonNode) acl who
          < affilAdmin) ∧
      (¬ DecidedAfter lists affiliation target who → affiliationssGetByJid
        (moveEntry lists (existingEntry lists target) affiliation target reasonNode) acl who
          = affiliationssGetByJid (withoutEntry lists target) acl who) := by
  unfold DecidedAfter
  rw [moveEntry_eq]
  by_cases hnone : affiliation = listNone
  · rw [if_pos hnone]
    exact ⟨fun hd => absurd hnone hd.1, fun _ => rfl⟩
  · rw [if_neg hnone]
    constructor
    · rintro ⟨-, hd⟩
      exact lookup_of_decides adds_append hacl ha hd
    · intro hnot
      exact lookup_of_not_decides adds_append fun hd => hnot ⟨hnone, hd⟩

/-- **Filing an entry below the admins leaves alone whether somebody is an admin or owner exactly
when it is harmless to it.** -/
theorem lookup_filed_iff (hbelow : ∀ list i, existingEntry lists target = some (list, i) →
      list.toInt < affilAdmin) (ha : affiliation.toInt < affilAdmin) :
    (affilAdmin ≤ affiliationssGetByJid lists acl who ∨ affilAdmin ≤ affiliationssGetByJid
        (moveEntry lists (existingEntry lists target) affiliation target reasonNode) acl who →
      affiliationssGetByJid
        (moveEntry lists (existingEntry lists target) affiliation target reasonNode) acl who
        = affiliationssGetByJid lists acl who) ↔
      Harmless lists acl affiliation target who := by
  unfold Harmless
  by_cases hacl : aclRole acl who < aclMucAdmin
  · obtain ⟨hb, hb'⟩ := lookup_before hbelow hacl
    obtain ⟨hc, hc'⟩ := @lookup_after lists acl affiliation target who reasonNode ha hacl
    by_cases hbefore : DecidedBefore lists target who <;>
      by_cases hafter : DecidedAfter lists affiliation target who
    · have h₁ := hb hbefore
      have h₂ := hc hafter
      refine ⟨fun _ _ _ => iff_of_true hbefore hafter, fun _ htop => ?_⟩
      omega
    · have h₁ := hb hbefore
      rw [hc' hafter]
      refine ⟨fun h _ hle => ?_, fun h htop => ?_⟩
      · have := h (.inr hle)
        omega
      · rcases htop with htop | htop
        · omega
        · exact absurd ((h hacl htop).mp hbefore) hafter
    · have h₂ := hc hafter
      rw [hb' hbefore]
      refine ⟨fun h _ hle => ?_, fun h htop => ?_⟩
      · have := h (.inl hle)
        omega
      · rcases htop with htop | htop
        · exact absurd ((h hacl htop).mpr hafter) hbefore
        · omega
    · rw [hb' hbefore, hc' hafter]
      exact ⟨fun _ _ _ => iff_of_false hbefore hafter, fun _ _ => rfl⟩
  · rw [lookup_acl_admin hacl, lookup_acl_admin hacl]
    simp [hacl]

end Filing

/-! ## Protected occupants -/

/-- The admins and the owners. -/
def Top (p : Participant) : Prop := affilAdmin ≤ p.affiliation

/-- The moderators. -/
def Moderates (p : Participant) : Prop := roleModerator ≤ p.role

/-- Nothing happens to the occupants with a property, and nobody gets it. -/
structure Spared (P : Participant → Prop) (room room' : Room) : Prop where
  kept : ∀ addr p, (addr, p) ∈ room.occupants → P p → (addr, p) ∈ room'.occupants
  origin : ∀ addr q, (addr, q) ∈ room'.occupants → P q → ∃ p, (addr, p) ∈ room.occupants ∧ P p

/-- Nobody with a property is on a list. -/
def Clear (P : Participant → Prop) (room : Room) (affected : List Nat) : Prop :=
  ∀ addr p, (addr, p) ∈ room.occupants → P p → addr ∉ affected

section Spared

variable {P : Participant → Prop} {room room' room₁ : Room} {addr : Nat} {p : Participant}
  {affected : List Nat} {st : AdminState}

theorem Spared.refl (room : Room) : Spared P room room where
  kept := fun _ _ hm _ => hm
  origin := fun _ q hm hq => ⟨q, hm, hq⟩

theorem Spared.trans (h : Spared P room room₁) (h' : Spared P room₁ room') :
    Spared P room room' where
  kept := fun a p hm hp => h'.kept a p (h.kept a p hm hp) hp
  origin := fun a q hm hq =>
    have ⟨p, hp, hP⟩ := h'.origin a q hm hq
    h.origin a p hp hP

/-- Who has the property in the end is as it was. -/
theorem Spared.same (h : Spared P room room') (hm : (addr, p) ∈ room'.occupants) (hp : P p) :
    (addr, p) ∈ room.occupants := by
  obtain ⟨q, hq, hQ⟩ := h.origin addr p hm hp
  have hq' := h.kept addr q hq hQ
  rwa [NodeList.val_unique hm hq']

/-- Changes of an occupant without the property that do not give it. -/
theorem Spared.modify {f : Participant → Participant} (hm : (addr, p) ∈ room.occupants)
    (hp : ¬ P p) (hf : ¬ P (f p)) : Spared P room (room.modify addr f) where
  kept := by
    intro b q hq hQ
    have hb : b ≠ addr := by
      rintro rfl
      exact hp (NodeList.val_unique hq hm ▸ hQ)
    exact Room.mem_occupants_modify.mpr ⟨q, hq, by rw [if_neg hb]⟩
  origin := by
    intro b q hq hQ
    obtain ⟨q₀, hq₀, rfl⟩ := Room.mem_occupants_modify.mp hq
    by_cases hb : b = addr
    · subst hb
      rw [if_pos rfl, NodeList.val_unique hq₀ hm] at hQ
      exact absurd hQ hf
    · rw [if_neg hb] at hQ
      exact ⟨q₀, hq₀, hQ⟩

theorem Spared.roomLeave (hm : (addr, p) ∈ room.occupants) (hp : ¬ P p) :
    Spared P room (roomLeave room addr) where
  kept := by
    intro b q hq hQ
    refine mem_occupants_roomLeave.mpr ⟨hq, ?_⟩
    rintro rfl
    exact hp (NodeList.val_unique hq hm ▸ hQ)
  origin := fun b q hq hQ => ⟨q, (mem_occupants_roomLeave.mp hq).1, hQ⟩

/-- `affectOne` on an occupant without the property. -/
theorem Spared.affectOne (reasonNode : Buffer) {f : Participant → Participant}
    (hm : (addr, p) ∈ st.room.occupants) (hp : ¬ P p) (hf : ¬ P (setAffected reasonNode (f p))) (hc : Clear P st.room st.affected) :
    Spared P st.room (affectOne st (addr, p) reasonNode f).room ∧
      Clear P (affectOne st (addr, p) reasonNode f).room
        (affectOne st (addr, p) reasonNode f).affected := by
  have hs : Spared P st.room (Mukite.affectOne st (addr, p) reasonNode f).room :=
    Spared.modify hm hp hf
  refine ⟨hs, fun b q hq hQ hb => ?_⟩
  have hq₀ := hs.same hq hQ
  have hb' : b ∈ st.affected ∨ b = addr := by
    unfold Mukite.affectOne at hb
    dsimp only at hb
    split at hb
    · exact .inl hb
    · rcases List.mem_append.mp hb with hb | hb
      · exact .inl hb
      · exact .inr (List.mem_singleton.mp hb)
  rcases hb' with hb' | rfl
  · exact hc b q hq₀ hQ hb'
  · exact hp (NodeList.val_unique hq₀ hm ▸ hQ)

/-- `affectEach` when it leaves alone who has the property, and gives it to nobody. -/
theorem Spared.affectEach (st : AdminState) (reasonNode : Buffer)
    {f : Participant → Option Participant}
    (hP : ∀ a p, (a, p) ∈ st.room.occupants → P p → f p = none)
    (hf : ∀ a p q, (a, p) ∈ st.room.occupants → f p = some q → ¬ P (setAffected reasonNode q))
    (hc : Clear P st.room st.affected) :
    Spared P st.room (affectEach st reasonNode f).room ∧
      Clear P (affectEach st reasonNode f).room (affectEach st reasonNode f).affected := by
  have hs : Spared P st.room (Mukite.affectEach st reasonNode f).room := by
    constructor
    · intro a p hm hp
      refine Room.mem_occupants_mapVals.mpr ⟨p, hm, ?_⟩
      rw [hP a p hm hp, Option.map_none, Option.getD_none]
    · intro a q hq hQ
      obtain ⟨p, hm, rfl⟩ := Room.mem_occupants_mapVals.mp hq
      cases hp : f p with
      | none =>
        rw [hp, Option.map_none, Option.getD_none] at hQ
        exact ⟨p, hm, hQ⟩
      | some q =>
        rw [hp, Option.map_some, Option.getD_some] at hQ
        exact absurd hQ (hf a p q hm hp)
  refine ⟨hs, fun a q hq hQ ha => ?_⟩
  have hq₀ := hs.same hq hQ
  unfold Mukite.affectEach at ha
  rcases List.mem_append.mp ha with ha | ha
  · exact hc a q hq₀ hQ ha
  · obtain ⟨⟨b, p⟩, hm, rfl⟩ := List.mem_map.mp ha
    obtain ⟨hm, hsome⟩ := List.mem_filter.mp hm
    obtain rfl := NodeList.val_unique hm hq₀
    simp [hP b p hm hQ] at hsome

/-- One turn of the loop over the affected list. -/
theorem Spared.announceOne (hm : (addr, p) ∈ room.occupants) (hp : ¬ P p)
    (hP : ∀ q, P (announced room q) → P q) (hP' : ∀ q, P (clearReason q) → P q) :
    Spared P room (announceOne room addr p).1 := by
  have h₁ : Spared P room (room.modify addr (announced room)) :=
    .modify hm hp fun h => hp (hP p h)
  have hm₁ : (addr, announced room p) ∈ (room.modify addr (announced room)).occupants :=
    Room.mem_occupants_modify.mpr ⟨p, hm, by simp⟩
  have hp₁ : ¬ P (announced room p) := fun h => hp (hP p h)
  have h₂ : Spared P (room.modify addr (announced room))
      ((room.modify addr (announced room)).modify addr clearReason) :=
    .modify hm₁ hp₁ fun h => hp₁ (hP' _ h)
  have hm₂ : (addr, clearReason (announced room p)) ∈
      ((room.modify addr (announced room)).modify addr clearReason).occupants :=
    Room.mem_occupants_modify.mpr ⟨_, hm₁, by simp⟩
  unfold Mukite.announceOne
  dsimp only
  split
  · exact (h₁.trans h₂).trans (.roomLeave hm₂ fun h => hp₁ (hP' _ h))
  · exact h₁.trans h₂

/-- **Who is not on the affected list is spared when it is walked.** -/
theorem Spared.announceAffected (hP : ∀ room q, P (announced room q) → P q)
    (hP' : ∀ q, P (clearReason q) → P q) : ∀ {affected : List Nat} {room : Room},
    Clear P room affected → Spared P room (announceAffected room affected).1
  | [], room, _ => .refl room
  | addr :: rest, room, hc => by
    rw [Mukite.announceAffected]
    cases hg : room.participants.nodes.get? addr with
    | none =>
      exact Spared.announceAffected hP hP'
        (fun a q hq hQ ha => hc a q hq hQ (List.mem_cons_of_mem _ ha))
    | some p =>
      have hm : (addr, p) ∈ room.occupants := NodeList.get?_eq_some_iff.mp hg
      have hp : ¬ P p := fun hp => hc addr p hm hp List.mem_cons_self
      have h₁ := Spared.announceOne hm hp (hP room) hP'
      refine h₁.trans (Spared.announceAffected hP hP' fun a q hq hQ ha => ?_)
      exact hc a q (h₁.same hq hQ) hQ (List.mem_cons_of_mem _ ha)

@[simp] theorem affiliations_announceAffected : ∀ {affected : List Nat} {room : Room},
    (announceAffected room affected).1.affiliations = room.affiliations
  | [], room => rfl
  | addr :: rest, room => by
    rw [Mukite.announceAffected]
    split
    · exact affiliations_announceAffected
    · refine affiliations_announceAffected.trans ?_
      unfold Mukite.announceOne
      dsimp only
      split
      · exact affiliations_roomLeave _ _
      · rfl

end Spared

theorem top_announced (room : Room) (q : Participant) (h : Top (announced room q)) : Top q := h

theorem moderates_announced (room : Room) (q : Participant) (h : Moderates (announced room q)) :
    Moderates q := by
  have hr : (announced room q).role = roleNone ∨ (announced room q).role = q.role := by
    show (affectedOutcome room q).1 = roleNone ∨ (affectedOutcome room q).1 = q.role
    unfold affectedOutcome
    split
    · exact .inl rfl
    · split
      · exact .inl rfl
      · split
        · exact .inl rfl
        · split
          · exact .inl rfl
          · exact .inr rfl
  unfold Moderates at *
  rcases hr with hr | hr
  · rw [hr] at h
    exact absurd h (by decide)
  · rwa [hr] at h

theorem top_setAffected {reasonNode : Buffer} {q : Participant}
    (h : Top (setAffected reasonNode q)) : Top q := by
  unfold Top setAffected at *
  split at h <;> exact h

theorem moderates_setAffected {reasonNode : Buffer} {q : Participant}
    (h : Moderates (setAffected reasonNode q)) : Moderates q := by
  unfold Moderates setAffected at *
  split at h <;> exact h

/-! ## The condition -/

/-- If an occupant is an admin or owner, or its JID is one by now, it has the affiliation of its
JID. -/
def Current (acl : ACLConfig) (room : Room) (p : Participant) : Prop :=
  affilAdmin ≤ p.affiliation ∨ affilAdmin ≤ affiliationssGetByJid room.affiliations acl p.jid →
    affiliationssGetByJid room.affiliations acl p.jid = p.affiliation

/-- An item that sets an affiliation is harmless to every occupant, and all are current. -/
def ItemSafe (acl : ACLConfig) (room : Room) (target : AdminTarget) : Prop :=
  ∀ affiliation ∈ target.affiliation, target.role = none → ∀ n ∈ room.occupants,
    Current acl room n.2 ∧ Harmless room.affiliations acl affiliation target.jid n.2.jid

instance (rest : Affiliations) (entry who : Jid) : Decidable (Decides rest entry who) :=
  inferInstanceAs (Decidable (_ ∧ _))

instance (lists : Affiliations) (target who : Jid) : Decidable (DecidedBefore lists target who) :=
  inferInstanceAs (Decidable (∃ found ∈ existingEntry lists target,
    ∃ entry ∈ (lists found.1).items[found.2]?, Decides (withoutEntry lists target) entry.jid who))

instance (lists : Affiliations) (affiliation : Affil) (target who : Jid) :
    Decidable (DecidedAfter lists affiliation target who) :=
  inferInstanceAs (Decidable (_ ∧ _))

instance (lists : Affiliations) (acl : ACLConfig) (affiliation : Affil) (target who : Jid) :
    Decidable (Harmless lists acl affiliation target who) :=
  inferInstanceAs (Decidable (_ → _ → (_ ↔ _)))

instance (acl : ACLConfig) (room : Room) (p : Participant) : Decidable (Current acl room p) :=
  inferInstanceAs (Decidable (_ ∨ _ → _))

instance (acl : ACLConfig) (room : Room) (target : AdminTarget) :
    Decidable (ItemSafe acl room target) :=
  inferInstanceAs (Decidable (∀ affiliation ∈ target.affiliation, target.role = none →
    ∀ n ∈ room.occupants, Current acl room n.2 ∧
      Harmless room.affiliations acl affiliation target.jid n.2.jid))

/-- Every item that the loop accepts is safe in the room it finds. -/
def LoopSafe (acl : ACLConfig) (addr : Nat) : AdminState → List ItemRead → Prop
  | _, [] => True
  | _, .undefined :: _ => True
  | _, .bad :: _ => True
  | st, .item target :: rest =>
    match st.room.participants.nodes.get? addr with
    | none => True
    | some sender =>
      match adminItem acl st sender target with
      | .error _ => True
      | .ok st' => ItemSafe acl st.room target ∧ LoopSafe acl addr st' rest

instance LoopSafe.decidable (acl : ACLConfig) (addr : Nat) :
    ∀ (st : AdminState) (reads : List ItemRead), Decidable (LoopSafe acl addr st reads)
  | _, [] => .isTrue trivial
  | _, .undefined :: _ => .isTrue trivial
  | _, .bad :: _ => .isTrue trivial
  | st, .item target :: rest =>
    match hg : st.room.participants.nodes.get? addr with
    | none => .isTrue (by simp [LoopSafe, hg])
    | some sender =>
      match hi : adminItem acl st sender target with
      | .error _ => .isTrue (by simp [LoopSafe, hg, hi])
      | .ok st' =>
        have := LoopSafe.decidable acl addr st' rest
        decidable_of_iff (ItemSafe acl st.room target ∧ LoopSafe acl addr st' rest)
          (by simp [LoopSafe, hg, hi])

/-- Every item that a muc#admin request gets accepted is safe in the room it finds. -/
def RequestSafe (room : Room) (ingress : IncomingPacket) (acl : ACLConfig) : Prop :=
  ∀ request ∈ adminRequest room ingress,
    LoopSafe acl request.1 { room := room, affected := [] } request.2

instance (room : Room) (ingress : IncomingPacket) (acl : ACLConfig) :
    Decidable (RequestSafe room ingress acl) :=
  inferInstanceAs (Decidable (∀ request ∈ adminRequest room ingress,
    LoopSafe acl request.1 { room := room, affected := [] } request.2))

/-! ## One item -/

section Items

variable {acl : ACLConfig} {st st' : AdminState} {sender : Participant} {target : AdminTarget}
  {affiliation : Affil} {addr : Nat} {room : Room} {r : AdminResult}

/-- The lists of the admins and of the owners are as they were. -/
def SameTop (room room' : Room) : Prop :=
  ∀ a : Affil, affilAdmin ≤ a.toInt → room'.affiliations a = room.affiliations a

theorem moveEntry_top {lists : Affiliations} {jid : Jid} {reasonNode : Buffer} {a : Affil}
    (hbelow : ∀ list i, existingEntry lists jid = some (list, i) → list.toInt < affilAdmin)
    (hlow : affiliation.toInt < affilAdmin) (ha : affilAdmin ≤ a.toInt) :
    moveEntry lists (existingEntry lists jid) affiliation jid reasonNode a = lists a := by
  have hne : a ≠ affiliation := by
    rintro rfl
    omega
  have hrest : withoutEntry lists jid a = lists a := by
    unfold withoutEntry
    cases hf : existingEntry lists jid with
    | none => rfl
    | some found =>
      have hlist := hbelow found.1 found.2 hf
      have hne' : a ≠ found.1 := by
        rintro rfl
        omega
      simp [setList, hne']
  rw [moveEntry_eq]
  split
  · exact hrest
  · simp only [setList, if_neg hne]
    exact hrest

/-- **A safe item touches no admin and no owner, and makes none.** -/
theorem adminItem_top (hlow : sender.affiliation < affilOwner)
    (hsafe : ItemSafe acl st.room target) (hc : Clear Top st.room st.affected)
    (h : adminItem acl st sender target = .ok st') :
    Spared Top st.room st'.room ∧ Clear Top st'.room st'.affected ∧ SameTop st.room st'.room := by
  unfold adminItem at h
  split at h
  · cases h
  · split at h
    · next _ role hr =>
      unfold roleItem at h
      split at h
      · cases h
      · next b receiver hb =>
        split at h
        · cases h
        · next hguard =>
          cases h
          have hlow : ¬ Top receiver := fun htop => hguard (.inl htop)
          have hs := Spared.affectOne target.reasonNode (f := fun p => { p with role := role })
            (findByNick_spec hb).1 hlow (fun h => hlow (top_setAffected h :)) hc
          exact ⟨hs.1, hs.2, fun a _ => rfl⟩
    · next affiliation hr ha =>
      unfold affiliationItem at h
      split at h
      · cases h
      · split at h
        · cases h
        · next lists hadd =>
          cases h
          have hlists := affiliationssAdd_eq hadd
          obtain ⟨hnew, hbelow⟩ := affiliationssAdd_below hlow hadd
          -- whoever is at the top before or after has the affiliation it is looked up with
          have hkeep : ∀ a p, (a, p) ∈ st.room.occupants →
              affilAdmin ≤ p.affiliation ∨ affilAdmin ≤ affiliationssGetByJid lists acl p.jid →
              affiliationssGetByJid lists acl p.jid = p.affiliation := by
            intro a p hm htop
            obtain ⟨hcur, hharm⟩ := hsafe affiliation ha hr (a, p) hm
            have hiff := (lookup_filed_iff target.reasonNode hbelow hnew).mpr hharm
            rw [← hlists] at hiff
            unfold Current at hcur
            rcases htop with htop | htop
            · have hold := hcur (.inl htop)
              rw [hiff (.inl (hold ▸ htop)), hold]
            · have hold := hiff (.inr htop)
              rw [hold, hcur (.inr (hold ▸ htop))]
          have hs := Spared.affectEach (P := Top)
            { st with room := { st.room with affiliations := lists } } target.reasonNode
            (f := reaffiliate lists acl)
            (fun a p hm hp => by
              unfold reaffiliate
              simp only [hkeep a p hm (.inl hp), if_true])
            (fun a p q hm hq hQ => by
              unfold reaffiliate at hq
              dsimp only at hq
              split at hq
              · cases hq
              · next hne =>
                cases hq
                exact hne (hkeep a p hm (.inr (top_setAffected hQ))))
            hc
          refine ⟨⟨hs.1.kept, hs.1.origin⟩, hs.2, fun a htop => ?_⟩
          rw [show (affectEach { st with room := { st.room with affiliations := lists } }
            target.reasonNode (reaffiliate lists acl)).room.affiliations = lists from rfl, hlists]
          exact moveEntry_top hbelow hnew htop
    · cases h
      exact ⟨.refl _, hc, fun _ _ => rfl⟩

/-- An item of somebody below the admins sets a role below the moderators on somebody below
them. -/
theorem adminItem_moderates (hlow : sender.affiliation < affilAdmin)
    (hc : Clear Moderates st.room st.affected) (h : adminItem acl st sender target = .ok st') :
    Spared Moderates st.room st'.room ∧ Clear Moderates st'.room st'.affected ∧
      ∀ b q, (b, q) ∈ st'.room.occupants → ∃ p, (b, p) ∈ st.room.occupants ∧
        q.affiliation = p.affiliation := by
  unfold adminItem at h
  split at h
  · cases h
  · split at h
    · next _ role hr =>
      unfold roleItem at h
      split at h
      · cases h
      · next b receiver hb =>
        split at h
        · cases h
        · next hguard =>
          cases h
          have hreceiver : ¬ Moderates receiver := fun hm => hguard (.inr ⟨hlow, .inl hm⟩)
          have hrole : ¬ roleModerator ≤ role := fun hm => hguard (.inr ⟨hlow, .inr hm⟩)
          have hs := Spared.affectOne target.reasonNode (f := fun p => { p with role := role })
            (findByNick_spec hb).1 hreceiver (fun h => hrole (moderates_setAffected h)) hc
          refine ⟨hs.1, hs.2, fun c q hq => ?_⟩
          obtain ⟨p, hp, rfl⟩ := Room.mem_occupants_modify.mp hq
          refine ⟨p, hp, ?_⟩
          split
          · unfold setAffected
            split <;> rfl
          · rfl
    · unfold affiliationItem at h
      rw [if_pos hlow] at h
      cases h
    · cases h
      exact ⟨.refl _, hc, fun b q hq => ⟨q, hq, rfl⟩⟩

/-! ## The loop -/

/-- **Safe items touch no admin and no owner, and make none.** `room` is the room before. -/
theorem adminLoop_top (hsender : ∀ s, (addr, s) ∈ room.occupants → s.affiliation < affilOwner) :
    ∀ {reads : List ItemRead} {st : AdminState}, Spared Top room st.room →
      Clear Top st.room st.affected → SameTop room st.room → LoopSafe acl addr st reads →
      adminLoop acl addr st reads = some r →
      Spared Top room r.state.room ∧ Clear Top r.state.room r.state.affected ∧
        SameTop room r.state.room
  | [], st, hs, hc, ht, _, h => by
    cases h
    exact ⟨hs, hc, ht⟩
  | .undefined :: _, st, _, _, _, _, h => by cases h
  | .bad :: _, st, hs, hc, ht, _, h => by
    cases h
    exact ⟨hs, hc, ht⟩
  | .item target :: rest, st, hs, hc, ht, hsafe, h => by
    rw [adminLoop] at h
    rw [LoopSafe] at hsafe
    cases hg : st.room.participants.nodes.get? addr with
    | none => simp [hg] at h
    | some sender =>
      simp only [hg] at h hsafe
      have hm : (addr, sender) ∈ st.room.occupants := NodeList.get?_eq_some_iff.mp hg
      -- an item could have changed the sender, but not to an owner
      have hlow : sender.affiliation < affilOwner := by
        by_cases htop : Top sender
        · exact hsender sender (hs.same hm htop)
        · exact lt_trans (not_le.mp htop) (by decide)
      cases hi : adminItem acl st sender target with
      | error e =>
        simp only [hi] at h
        cases h
        exact ⟨hs, hc, ht⟩
      | ok st₁ =>
        simp only [hi] at h hsafe
        obtain ⟨hs₁, hc₁, ht₁⟩ := adminItem_top hlow hsafe.1 hc hi
        exact adminLoop_top hsender (hs.trans hs₁) hc₁
          (fun a ha => (ht₁ a ha).trans (ht a ha)) hsafe.2 h

/-- **The items of somebody below the admins touch no moderator, and make none.** -/
theorem adminLoop_moderates : ∀ {reads : List ItemRead} {st : AdminState},
    (∀ s, (addr, s) ∈ st.room.occupants → s.affiliation < affilAdmin) →
    Clear Moderates st.room st.affected → adminLoop acl addr st reads = some r →
    Spared Moderates st.room r.state.room ∧ Clear Moderates r.state.room r.state.affected
  | [], st, _, hc, h => by
    cases h
    exact ⟨.refl _, hc⟩
  | .undefined :: _, st, _, _, h => by cases h
  | .bad :: _, st, _, hc, h => by
    cases h
    exact ⟨.refl _, hc⟩
  | .item target :: rest, st, hsender, hc, h => by
    rw [adminLoop] at h
    cases hg : st.room.participants.nodes.get? addr with
    | none => simp [hg] at h
    | some sender =>
      simp only [hg] at h
      have hlow := hsender sender (NodeList.get?_eq_some_iff.mp hg)
      cases hi : adminItem acl st sender target with
      | error e =>
        simp only [hi] at h
        cases h
        exact ⟨.refl _, hc⟩
      | ok st₁ =>
        simp only [hi] at h
        obtain ⟨hs₁, hc₁, haff⟩ := adminItem_moderates hlow hc hi
        have hsender₁ : ∀ s, (addr, s) ∈ st₁.room.occupants → s.affiliation < affilAdmin := by
          intro s hm
          obtain ⟨p, hp, he⟩ := haff addr s hm
          rw [he]
          exact hsender p hp
        obtain ⟨hs₂, hc₂⟩ := adminLoop_moderates hsender₁ hc₁ h
        exact ⟨hs₁.trans hs₂, hc₂⟩

end Items

/-! ## A whole request -/

/-- What a request of somebody below the owners must leave alone. -/
structure Guarded (room : Room) (ingress : IncomingPacket) (room' : Room) : Prop where
  adminList : room'.affiliations listAdmin = room.affiliations listAdmin
  ownerList : room'.affiliations listOwner = room.affiliations listOwner
  /-- nobody becomes an admin or owner -/
  promoted : ∀ addr q, (addr, q) ∈ room'.occupants → affilAdmin ≤ q.affiliation →
    ∃ p, (addr, p) ∈ room.occupants ∧ affilAdmin ≤ p.affiliation
  kept : ∀ addr p, (addr, p) ∈ room.occupants → affilAdmin ≤ p.affiliation →
    ∃ q, (addr, q) ∈ room'.occupants ∧ q.affiliation = p.affiliation ∧ q.role = p.role
  /-- below the admins: nobody becomes a moderator, and no moderator loses that role -/
  moderators : (∀ n ∈ participantsFindByJid room.participants ingress.realFrom,
      n.2.affiliation < affilAdmin) →
    (∀ addr q, (addr, q) ∈ room'.occupants → q.role = roleModerator →
      ∃ p, (addr, p) ∈ room.occupants ∧ p.role = roleModerator) ∧
    ∀ addr p, (addr, p) ∈ room.occupants → p.role = roleModerator →
      ∃ q, (addr, q) ∈ room'.occupants ∧ q.role = roleModerator

section Requests

variable {room room' : Room} {ingress : IncomingPacket} {acl : ACLConfig}
  {sent : List BuilderPacket} {addr : Nat} {sender : Participant} {target : AdminTarget}
  {st' : AdminState}

theorem guarded_of_spared (ht : SameTop room room') (hs : Spared Top room room')
    (hm : (∀ n ∈ participantsFindByJid room.participants ingress.realFrom,
      n.2.affiliation < affilAdmin) → Spared Moderates room room') : Guarded room ingress room' where
  adminList := ht listAdmin (by decide)
  ownerList := ht listOwner (by decide)
  promoted := fun addr q hq htop => hs.origin addr q hq htop
  kept := fun addr p hp htop => ⟨p, hs.kept addr p hp htop, rfl, rfl⟩
  moderators := by
    intro hlow
    have hspared := hm hlow
    refine ⟨fun addr q hq hrole => ?_, fun addr p hp hrole => ?_⟩
    · exact ⟨q, hspared.same hq (le_of_eq hrole.symm), hrole⟩
    · exact ⟨p, hspared.kept addr p hp (le_of_eq hrole.symm), hrole⟩

theorem clear_nil {P : Participant → Prop} : Clear P room [] :=
  fun _ _ _ _ => List.not_mem_nil

/-- The sender of a request, wherever its address leads. -/
theorem sender_unique (hs : participantsFindByJid room.participants ingress.realFrom
      = some (addr, sender)) {P : Participant → Prop}
    (hP : ∀ n ∈ participantsFindByJid room.participants ingress.realFrom, P n.2) :
    ∀ s, (addr, s) ∈ room.occupants → P s := by
  intro s hm
  rw [NodeList.val_unique hm (findByJid_mem hs)]
  exact hP (addr, sender) hs

/-- What the loop over the items leaves behind, before or after the affected list is walked. -/
theorem guarded_of_loop {reads : List ItemRead} {r : AdminResult}
    (hlow : ∀ n ∈ participantsFindByJid room.participants ingress.realFrom,
      n.2.affiliation < affilOwner)
    (hreq : adminRequest room ingress = some (addr, reads))
    (hsafe : LoopSafe acl addr { room := room, affected := [] } reads)
    (hloop : adminOutcome room acl addr reads = some r) :
    Guarded room ingress r.state.room ∧
      Guarded room ingress (announceAffected r.state.room r.state.affected).1 := by
  obtain ⟨sender, hs⟩ := adminRequest_sender hreq
  have hloop' : adminLoop acl addr { room := room, affected := [] } reads = some r := hloop
  obtain ⟨htop, hclear, hsame⟩ := adminLoop_top (sender_unique hs hlow) (.refl room) clear_nil
    (fun _ _ => rfl) hsafe hloop'
  have hmod : (∀ n ∈ participantsFindByJid room.participants ingress.realFrom,
      n.2.affiliation < affilAdmin) →
      Spared Moderates room r.state.room ∧ Clear Moderates r.state.room r.state.affected :=
    fun hbelow => adminLoop_moderates (sender_unique hs hbelow) clear_nil hloop'
  refine ⟨guarded_of_spared hsame htop fun hb => (hmod hb).1, guarded_of_spared ?_ ?_ fun hb => ?_⟩
  · intro a ha
    rw [affiliations_announceAffected]
    exact hsame a ha
  · exact htop.trans (.announceAffected top_announced (fun _ h => h) hclear)
  · exact (hmod hb).1.trans (.announceAffected moderates_announced (fun _ h => h) (hmod hb).2)

/-- **The room after an accepted item is guarded exactly when the item is safe**, if all occupants
are current. -/
theorem adminItem_guarded_iff
    (hs : participantsFindByJid room.participants ingress.realFrom = some (addr, sender))
    (hlow : sender.affiliation < affilOwner)
    (hcur : ∀ addr p, (addr, p) ∈ room.occupants → Current acl room p)
    (h : adminItem acl { room := room, affected := [] } sender target = .ok st') :
    Guarded room ingress st'.room ↔ ItemSafe acl room target := by
  constructor
  · rintro hg affiliation ha hr ⟨b, p⟩ hm
    refine ⟨hcur b p hm, ?_⟩
    have ha : target.affiliation = some affiliation := ha
    unfold adminItem at h
    split at h
    · cases h
    · simp only [hr, ha] at h
      unfold affiliationItem at h
      split at h
      · cases h
      · split at h
        · cases h
        · next lists hadd =>
          cases h
          have hlists := affiliationssAdd_eq hadd
          obtain ⟨hnew, hbelow⟩ := affiliationssAdd_below hlow hadd
          refine (lookup_filed_iff target.reasonNode hbelow hnew).mp fun htop => ?_
          rw [← hlists] at htop ⊢
          have hp := hcur b p hm
          unfold Current at hp
          by_contra hne
          -- the affiliation with which the occupant is looked up after the item is not its own
          have hother : affiliationssGetByJid lists acl p.jid ≠ p.affiliation := by
            intro he
            rcases htop with htop | htop
            · exact hne (he.trans (hp (.inr htop)).symm)
            · exact hne (he.trans (hp (.inl (he ▸ htop))).symm)
          have hm' : (b, setAffected target.reasonNode { p with
              role := roleForChanged (affiliationssGetByJid lists acl p.jid)
              affiliation := affiliationssGetByJid lists acl p.jid }) ∈
              (affectEach (AdminState.mk { room with affiliations := lists } [])
                target.reasonNode (reaffiliate lists acl)).room.occupants := by
            refine Room.mem_occupants_mapVals.mpr ⟨p, hm, ?_⟩
            unfold reaffiliate
            simp only [hother, if_false, Option.map_some, Option.getD_some]
          have haff : ∀ q : Participant, (setAffected target.reasonNode q).affiliation
              = q.affiliation := by
            intro q
            unfold setAffected
            split <;> rfl
          by_cases hold : affilAdmin ≤ p.affiliation
          · obtain ⟨q, hq, hqa, -⟩ := hg.kept b p hm hold
            rw [NodeList.val_unique hq hm', haff] at hqa
            exact hother hqa
          · have hafter : affilAdmin ≤ affiliationssGetByJid lists acl p.jid := by
              rcases htop with htop | htop
              · exact absurd (hp (.inr htop) ▸ htop) hold
              · exact htop
            obtain ⟨p', hp', htop'⟩ := hg.promoted b _ hm' (by rw [haff]; exact hafter)
            exact hold (NodeList.val_unique hm hp' ▸ htop')
  · intro hsafe
    obtain ⟨htop, -, hsame⟩ := adminItem_top hlow hsafe clear_nil h
    refine guarded_of_spared hsame htop fun hbelow => ?_
    exact (adminItem_moderates (hbelow (addr, sender) hs) clear_nil h).1

/--
**A muc#admin request of somebody below the owners leaves admins, owners and, below the admins,
moderators alone, when every item it gets accepted is safe.** For one item there is no other way:
if all occupants are current, the room after it is guarded exactly when it is safe.
-/
theorem request_guarded (hset : IsAdminSet ingress)
    (hlow : ∀ n ∈ participantsFindByJid room.participants ingress.realFrom,
      n.2.affiliation < affilOwner)
    (hr : routeIq room ingress acl = some (room', sent)) :
    (RequestSafe room ingress acl → Guarded room ingress room') ∧
      ∀ addr sender target st', participantsFindByJid room.participants ingress.realFrom
          = some (addr, sender) →
        (∀ addr p, (addr, p) ∈ room.occupants → Current acl room p) →
        adminItem acl { room := room, affected := [] } sender target = .ok st' →
        (Guarded room ingress st'.room ↔ ItemSafe acl room target) := by
  refine ⟨fun hsafe => ?_, fun addr sender target st' hs hcur h =>
    adminItem_guarded_iff hs (hlow (addr, sender) hs) hcur h⟩
  cases hreq : adminRequest room ingress with
  | none =>
    rw [routeIq_adminSet_none hset hreq hr]
    exact guarded_of_spared (fun _ _ => rfl) (.refl room) fun _ => .refl room
  | some request =>
    obtain ⟨addr, reads⟩ := request
    obtain ⟨-, hres, hanswer⟩ := @answerIq_of_request room ingress acl addr reads hreq
    unfold routeIq at hr
    rw [hres, hanswer] at hr
    cases hloop : adminOutcome room acl addr reads with
    | none =>
      rw [hloop] at hr
      cases hr
    | some r =>
      have hguarded := guarded_of_loop hlow hreq (hsafe (addr, reads) hreq) hloop
      rw [hloop] at hr
      cases r with
      | refused st error => exact bounce_room hr ▸ hguarded.1
      | done st =>
        cases hr
        exact hguarded.2

end Requests

/-! ## The accomplice -/

/-- `alice@h` makes `bob@g` an admin and `carol@h` a member, who then joins. -/
def memberOfHost : List String :=
  joins ++ [adminSet "alice@h"
    "<item jid='bob@g' affiliation='admin'/><item jid='carol@h' affiliation='member'/>",
    "<presence from='carol@h/pc' to='room@conf/carol'/>"]

set_option maxRecDepth 100000 in
/-- The admin `bob@g` removes the member `carol@h`, which the entry of `alice@h` then makes an
owner. -/
theorem removed_member_is_owner :
    ∃ room ingress room' sent,
      Machine.run roomStep (roomInit (lit "room")) (stanzasOfTexts openAcl 0 0 memberOfHost)
        = some room ∧
      received (adminSet "bob@g" "<item jid='carol@h' affiliation='none'/>") = some ingress ∧
      IsAdminSet ingress ∧
      (∀ n ∈ participantsFindByJid room.participants ingress.realFrom,
        n.2.affiliation < affilOwner) ∧
      routeIq room ingress openAcl = some (room', sent) ∧ ¬ Guarded room ingress room' := by
  have hany : (beforeAfter memberOfHost
      (adminSet "bob@g" "<item jid='carol@h' affiliation='none'/>")).any
      (fun (room, ingress, room', _) => decide (IsAdminSet ingress) &&
        decide (∀ n ∈ participantsFindByJid room.participants ingress.realFrom,
          n.2.affiliation < affilOwner) &&
        decide (∃ n ∈ room'.occupants, affilAdmin ≤ n.2.affiliation ∧
          ∀ m ∈ room.occupants, m.1 = n.1 → m.2.affiliation < affilAdmin)) = true := by
    decide +kernel
  obtain ⟨⟨room, ingress, room', sent⟩, h, hfacts⟩ := (Option.any_eq_true _ _).mp hany
  simp only [Bool.and_eq_true, decide_eq_true_eq] at hfacts
  obtain ⟨⟨hset, hlow⟩, ⟨addr, q⟩, hq, htop, hbefore⟩ := hfacts
  obtain ⟨hrun, hi, hr⟩ := beforeAfter_spec h
  refine ⟨room, ingress, room', sent, hrun, hi, hset, hlow, hr, fun hg => ?_⟩
  obtain ⟨p, hp, hptop⟩ := hg.promoted addr q hq htop
  exact absurd hptop (not_le.mpr (hbefore (addr, p) hp rfl))

set_option maxRecDepth 100000 in
/-- The result at a request of the admin for somebody of another host. -/
theorem request_guarded_member :
    ∃ room ingress room' sent, routeIq room ingress openAcl = some (room', sent) ∧
      room'.affiliations listMember ≠ room.affiliations listMember ∧
      Guarded room ingress room' := by
  have hany : (beforeAfter memberOfHost
      (adminSet "bob@g" "<item jid='dave@x' affiliation='member'/>")).any
      (fun (room, ingress, room', _) => decide (IsAdminSet ingress) &&
        decide (∀ n ∈ participantsFindByJid room.participants ingress.realFrom,
          n.2.affiliation < affilOwner) &&
        decide (RequestSafe room ingress openAcl) &&
        (room'.affiliations listMember).items.length
          != (room.affiliations listMember).items.length) = true := by
    decide +kernel
  obtain ⟨⟨room, ingress, room', sent⟩, h, hfacts⟩ := (Option.any_eq_true _ _).mp hany
  simp only [Bool.and_eq_true, decide_eq_true_eq, bne_iff_ne] at hfacts
  obtain ⟨⟨⟨hset, hlow⟩, hsafe⟩, hlen⟩ := hfacts
  obtain ⟨-, -, hr⟩ := beforeAfter_spec h
  refine ⟨room, ingress, room', sent, hr, fun he => hlen (by rw [he]), ?_⟩
  exact (request_guarded hset hlow hr).1 hsafe

end Mukite
