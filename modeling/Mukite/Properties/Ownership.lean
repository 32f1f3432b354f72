import Mukite.Properties.Privilege

/-!
# The last owner

`affiliationss_add` refuses an owner that revokes its own privilege when there is no other owner.
It compares the sender with the entry that is about to go. But an owner need not have an entry of
its own: the entry of its host makes it one, or that of somebody else on its host. Such an owner
can take the only entry out of the list.

* **`owner_kept`**: the list keeps an owner through all requests whose items spare the last one.
* `last_owner_removed`: an owner by its host that removes the entry of the host.
-/

namespace Mukite

/-- There is an entry in the owner list. -/
def Owned (lists : Affiliations) : Prop := (lists listOwner).items ≠ []

instance (lists : Affiliations) : Decidable (Owned lists) := by
  unfold Owned
  infer_instance

/-- An item of an owner moves the only entry of the owner list to another list, and the entry is
not its own. -/
def TakesLastOwner (lists : Affiliations) (sender : Participant) (target : AdminTarget) : Prop :=
  badItem target = false ∧ sender.affiliation = affilOwner ∧
    ∃ affiliation ∈ target.affiliation, affiliation ≠ listOwner ∧
      existingEntry lists target.jid = some (listOwner, 0) ∧
      ∃ entry, (lists listOwner).items = [entry] ∧ bareKey sender.jid ≠ bareKey entry.jid

/-- The owner list has an entry before every item of a request and after the last one. -/
def OwnedAlong (acl : ACLConfig) (addr : Nat) : AdminState → List ItemRead → Prop
  | st, .item target :: rest => Owned st.room.affiliations ∧
    ∀ sender st', st.room.participants.nodes.get? addr = some sender →
      adminItem acl st sender target = .ok st' → OwnedAlong acl addr st' rest
  | st, _ => Owned st.room.affiliations

/-- No item of a request takes the last owner away. -/
def SparesOwner (acl : ACLConfig) (addr : Nat) : AdminState → List ItemRead → Prop
  | st, .item target :: rest =>
    ∀ sender, st.room.participants.nodes.get? addr = some sender →
      ¬ TakesLastOwner st.room.affiliations sender target ∧
      ∀ st', adminItem acl st sender target = .ok st' → SparesOwner acl addr st' rest
  | _, _ => True

/-- A muc#admin set request with such items. -/
def SparingRequest (room : Room) (stanza : Stanza) : Prop :=
  IsAdminSet stanza.ingress ∧ ∀ request ∈ adminRequest room stanza.ingress,
    SparesOwner stanza.acl request.1 { room := room, affected := [] } request.2

/-- The owner list has an entry all through a request. -/
def OwnedThroughout (room : Room) (stanza : Stanza) : Prop :=
  ∀ request ∈ adminRequest room stanza.ingress,
    OwnedAlong stanza.acl request.1 { room := room, affected := [] } request.2

section Items

variable {lists lists' : Affiliations} {sender : Participant} {affiliation list : Affil} {jid : Jid}
  {reasonNode : Buffer} {acl : ACLConfig} {st st' : AdminState} {target : AdminTarget} {addr : Nat}

/-! ## One entry -/

/-- Filing an entry among the owners leaves an owner. -/
theorem owned_moveEntry_owner (found : Option (Affil × Nat)) :
    Owned (moveEntry lists found listOwner jid reasonNode) := by
  unfold Owned moveEntry
  rw [if_neg (by decide)]
  simp [setList]

/-- Filing an entry elsewhere matters to the owners if it was one of theirs. -/
theorem moveEntry_listOwner (h : affiliation ≠ listOwner) (found : Option (Affil × Nat)) :
    (moveEntry lists found affiliation jid reasonNode listOwner).items =
      match found with
      | some (list, i) =>
        if list = listOwner then (lists listOwner).items.eraseIdx i else (lists listOwner).items
      | none => (lists listOwner).items := by
  unfold moveEntry
  cases found with
  | none =>
    dsimp only
    split
    · rfl
    · simp [setList, Ne.symm h]
  | some entry =>
    obtain ⟨list, i⟩ := entry
    dsimp only
    by_cases hl : list = listOwner
    · subst hl
      split
      · simp [setList]
      · simp [setList, Ne.symm h]
    · split
      · simp [setList, Ne.symm hl]
      · simp [setList, Ne.symm hl, Ne.symm h]

/-- **The owner list is empty only after its only entry has been moved elsewhere.** -/
theorem owned_moveEntry_iff (h : Owned lists) :
    Owned (moveEntry lists (existingEntry lists jid) affiliation jid reasonNode) ↔
      ¬ (affiliation ≠ listOwner ∧ existingEntry lists jid = some (listOwner, 0) ∧
        (lists listOwner).items.length = 1) := by
  by_cases ha : affiliation = listOwner
  · subst ha
    exact iff_of_true (owned_moveEntry_owner _) fun hno => hno.1 rfl
  · rw [and_iff_right ha]
    unfold Owned
    rw [moveEntry_listOwner ha]
    cases hfound : existingEntry lists jid with
    | none => exact iff_of_true h fun hno => nomatch hno.1
    | some entry =>
      obtain ⟨list, i⟩ := entry
      dsimp only
      by_cases hl : list = listOwner
      · subst hl
        have hlt := existingEntry_lt hfound
        rw [if_pos rfl, ← List.length_pos_iff, List.length_eraseIdx_of_lt hlt]
        constructor
        · rintro hpos ⟨-, hone⟩
          omega
        · intro hno
          by_contra hzero
          refine hno ⟨?_, by omega⟩
          obtain rfl : i = 0 := by omega
          rfl
      · rw [if_neg hl]
        refine iff_of_true h ?_
        rintro ⟨he, -⟩
        exact hl (congrArg Prod.fst (Option.some.inj he))

/-- What the guards of `affiliationss_add` ask when the only owner is about to be moved. -/
theorem affiliationssAdd_last_iff {entry : Affiliation}
    (hfound : existingEntry lists jid = some (listOwner, 0))
    (hone : (lists listOwner).items = [entry]) :
    (affiliationssAdd lists (some sender) affiliation jid reasonNode).isSome = true ↔
      sender.affiliation = affilOwner ∧ bareKey sender.jid ≠ bareKey entry.jid := by
  have hown : lastOwnEntry sender (lists listOwner) 0 = true ↔
      bareKey sender.jid = bareKey entry.jid := by
    unfold lastOwnEntry
    simp [hone, jidCmp_bare]
  have hmay : mayChangeEntry lists (some sender) listOwner 0 = true ↔
      sender.affiliation = affilOwner ∧ bareKey sender.jid ≠ bareKey entry.jid := by
    have hhigh : affilAdmin ≤ Affil.toInt listOwner := by decide
    rw [ne_eq, ← hown]
    unfold mayChangeEntry
    simp [hhigh]
  rw [← hmay]
  unfold affiliationssAdd
  rw [hfound]
  by_cases hs : sender.affiliation = affilOwner
  · simp [hs]
  · refine iff_of_false ?_ fun h => hs (hmay.mp h).1
    -- either guard refuses whoever is no owner
    have hno : mayChangeEntry lists (some sender) listOwner 0 = false :=
      Bool.eq_false_iff.mpr fun h => hs (hmay.mp h).1
    split
    · simp
    · simp [hno]

/-! ## One item -/

/-- An item that sets an affiliation, and no role. -/
theorem adminItem_affiliation (hgood : badItem target = false)
    (ha : target.affiliation = some affiliation) :
    adminItem acl st sender target = affiliationItem st sender acl affiliation target := by
  have hrole : target.role = none := by
    cases hr : target.role with
    | none => rfl
    | some role => simp [badItem, hr, ha] at hgood
  unfold adminItem
  rw [hgood, if_neg Bool.false_ne_true, hrole, ha]

/-- **The item is accepted, and there is no owner after it.** -/
theorem TakesLastOwner.accepted (h : TakesLastOwner st.room.affiliations sender target) :
    ∃ st', adminItem acl st sender target = .ok st' ∧ ¬ Owned st'.room.affiliations := by
  obtain ⟨hgood, hs, affiliation, ha, hne, hfound, entry, hone, hother⟩ := h
  have hsome : (affiliationssAdd st.room.affiliations (some sender) affiliation target.jid
      target.reasonNode).isSome = true :=
    (affiliationssAdd_last_iff hfound hone).mpr ⟨hs, hother⟩
  obtain ⟨lists', hadd⟩ := Option.isSome_iff_exists.mp hsome
  have hlow : ¬ sender.affiliation < affilAdmin := by
    rw [hs]
    decide
  rw [adminItem_affiliation hgood ha]
  unfold affiliationItem
  rw [if_neg hlow, hadd]
  refine ⟨_, rfl, ?_⟩
  show ¬ Owned lists'
  have hown : Owned st.room.affiliations := by
    unfold Owned
    rw [hone]
    exact List.cons_ne_nil _ _
  rw [affiliationssAdd_eq hadd, owned_moveEntry_iff hown, not_not]
  exact ⟨hne, hfound, by rw [hone]; rfl⟩

/-- **Every other item that is accepted leaves an owner.** -/
theorem owned_adminItem (hown : Owned st.room.affiliations)
    (hspare : ¬ TakesLastOwner st.room.affiliations sender target)
    (h : adminItem acl st sender target = .ok st') : Owned st'.room.affiliations := by
  cases hgood : badItem target with
  | true =>
    unfold adminItem at h
    rw [hgood, if_pos rfl] at h
    cases h
  | false =>
    cases ha : target.affiliation with
    | none =>
      -- a role
      unfold adminItem at h
      rw [hgood, if_neg Bool.false_ne_true, ha] at h
      split at h
      · unfold roleItem at h
        split at h
        · cases h
        · split at h
          · cases h
          · cases h
            exact hown
      · next he => cases he
      · cases h
        exact hown
    | some affiliation =>
      rw [adminItem_affiliation hgood ha] at h
      unfold affiliationItem at h
      split at h
      · cases h
      · split at h
        · cases h
        · next lists' hadd =>
          cases h
          show Owned lists'
          rw [affiliationssAdd_eq hadd, owned_moveEntry_iff hown]
          rintro ⟨hne, hfound, hlen⟩
          obtain ⟨entry, hone⟩ := List.length_eq_one_iff.mp hlen
          have hsome := Option.isSome_of_eq_some hadd
          obtain ⟨hs, hother⟩ := (affiliationssAdd_last_iff hfound hone).mp hsome
          exact hspare ⟨hgood, hs, affiliation, ha, hne, hfound, entry, hone, hother⟩

/-! ## The items of a request -/

theorem OwnedAlong.start : ∀ {reads : List ItemRead} {st : AdminState},
    OwnedAlong acl addr st reads → Owned st.room.affiliations
  | [], _, h => h
  | .undefined :: _, _, h => h
  | .bad :: _, _, h => h
  | .item _ :: _, _, h => h.1

/-- **An owner is left all along the items if and only if each of them spares the last one.** -/
theorem ownedAlong_iff {reads : List ItemRead} (hown : Owned st.room.affiliations) :
    OwnedAlong acl addr st reads ↔ SparesOwner acl addr st reads := by
  induction reads generalizing st with
  | nil => exact iff_of_true hown trivial
  | cons read rest ih =>
    cases read with
    | undefined => exact iff_of_true hown trivial
    | bad => exact iff_of_true hown trivial
    | item target =>
      constructor
      · rintro ⟨-, hrest⟩ sender hs
        refine ⟨fun htakes => ?_, fun st' hst => ?_⟩
        · obtain ⟨st', hst, hno⟩ := @TakesLastOwner.accepted sender acl st target htakes
          exact hno (hrest sender st' hs hst).start
        · have hnext := hrest sender st' hs hst
          exact (ih hnext.start).mp hnext
      · intro hspares
        refine ⟨hown, fun sender st' hs hst => ?_⟩
        obtain ⟨hspare, hrest⟩ := hspares sender hs
        exact (ih (owned_adminItem hown hspare hst)).mpr (hrest st' hst)

/-- The list with which the loop ends. -/
theorem OwnedAlong.result : ∀ {reads : List ItemRead} {st : AdminState} {r : AdminResult},
    OwnedAlong acl addr st reads → adminLoop acl addr st reads = some r →
      Owned r.state.room.affiliations
  | [], st, r, h, hl => by
    cases hl
    exact h
  | .undefined :: _, _, _, _, hl => by cases hl
  | .bad :: _, st, r, h, hl => by
    cases hl
    exact h
  | .item target :: rest, st, r, h, hl => by
    rw [adminLoop] at hl
    split at hl
    · cases hl
    · next sender hs =>
      split at hl
      · cases hl
        exact h.1
      · next st' hst => exact (h.2 sender st' hs hst).result hl

/-! ## Requests -/

variable {room room' start : Room} {stanza : Stanza} {sent : List BuilderPacket}

/-- The announcements of a request leave the lists as the items have made them. -/
theorem roomStep_adminSet (hset : IsAdminSet stanza.ingress)
    (hs : roomStep room stanza = some (room', sent)) :
    room' = room ∨ ∃ addr reads r, adminRequest room stanza.ingress = some (addr, reads) ∧
      adminLoop stanza.acl addr { room := room, affected := [] } reads = some r ∧
      room'.affiliations = r.state.room.affiliations := by
  obtain ⟨hname, htype, -⟩ := id hset
  have hno : isErrorStanza stanza.ingress = false := by simp [isErrorStanza, hname]
  unfold roomStep roomRoute at hs
  rw [hno, if_neg Bool.false_ne_true, hname] at hs
  cases hreq : adminRequest room stanza.ingress with
  | none => exact .inl (routeIq_adminSet_none hset hreq hs)
  | some request =>
    obtain ⟨addr, reads⟩ := request
    obtain ⟨-, hres, hanswer⟩ := @answerIq_of_request room stanza.ingress stanza.acl addr reads hreq
    have hroute : routeIq room stanza.ingress stanza.acl = some (room', sent) := hs
    unfold routeIq at hroute
    rw [hres, hanswer] at hroute
    cases hloop : adminOutcome room stanza.acl addr reads with
    | none =>
      rw [hloop] at hroute
      cases hroute
    | some r =>
      rw [hloop] at hroute
      refine .inr ⟨addr, reads, r, rfl, hloop, ?_⟩
      cases r with
      | refused st error => exact congrArg Room.affiliations (bounce_room hroute)
      | done st =>
        cases hroute
        exact affiliations_announceAffected

theorem ownedThroughout_iff (hown : Owned room.affiliations) (hset : IsAdminSet stanza.ingress) :
    OwnedThroughout room stanza ↔ SparingRequest room stanza := by
  unfold OwnedThroughout SparingRequest
  rw [and_iff_right hset]
  refine forall₂_congr fun request _ => ?_
  exact @ownedAlong_iff stanza.acl { room := room, affected := [] } request.1 request.2 hown

theorem owned_step (hown : Owned room.affiliations) (hspares : SparingRequest room stanza)
    (hs : roomStep room stanza = some (room', sent)) : Owned room'.affiliations := by
  rcases roomStep_adminSet hspares.1 hs with rfl | ⟨addr, reads, r, hreq, hloop, hlists⟩
  · exact hown
  · rw [hlists]
    have halong := (ownedThroughout_iff hown hspares.1).mpr hspares (addr, reads) hreq
    exact halong.result hloop

/--
**The owner list never becomes empty**, for any room with an owner and any muc#admin requests one
after another, as long as their items spare the last owner; and in every room on the way a request
leaves an owner all along its items if and only if they do.
-/
theorem owner_kept (hown : Owned start.affiliations)
    (h : Machine.Reach roomStep SparingRequest start room) :
    Owned room.affiliations ∧ ∀ stanza, IsAdminSet stanza.ingress →
      (OwnedThroughout room stanza ↔ SparingRequest room stanza) := by
  have hroom : Owned room.affiliations := h.invariant (I := fun room => Owned room.affiliations)
    hown fun _ _ _ _ hi hok hs => owned_step hi hok hs
  exact ⟨hroom, fun stanza hset => ownedThroughout_iff hroom hset⟩

end Items

/-! ## The owner by its host -/

/-- A muc#admin request of somebody whose ACL level makes no owner of it. -/
def PlainAdminSet (stanza : Stanza) : Prop :=
  IsAdminSet stanza.ingress ∧ aclRole stanza.acl stanza.ingress.realFrom < aclMucAdmin

instance (stanza : Stanza) : Decidable (PlainAdminSet stanza) := by
  unfold PlainAdminSet
  infer_instance

/-- Alice enters a new room. -/
def foundedByAlice : Option Room :=
  Machine.run roomStep (roomInit (lit "room"))
    (stanzasOfTexts openAcl 0 0 ["<presence from='alice@h/pc' to='room@conf/al'/>"])

/-- She makes her host an owner and revokes her own entry. -/
def hostForAlice : String :=
  adminSet "alice@h" ("<item jid='h' affiliation='owner'/>" ++
    "<item jid='alice@h' affiliation='none'/>")

/-- The requests, and then another one for the entry of the host. -/
def dethroningRun : List Stanza :=
  stanzasOfTexts openAcl 0 0 [hostForAlice, adminSet "alice@h" "<item jid='h' affiliation='none'/>"]

set_option maxRecDepth 100000 in
/-- The entry of the host is the last one, and it is not hers. -/
theorem last_owner_removed : ¬ ∀ start room, Owned start.affiliations →
    Machine.Reach roomStep (fun _ stanza => Accepted stanza.ingress ∧ PlainAdminSet stanza) start
      room → Owned room.affiliations := by
  intro h
  have hany : foundedByAlice.any (fun start => decide (Owned start.affiliations) &&
      (Machine.runAdmitted roomStep (fun _ stanza => PlainAdminSet stanza) start dethroningRun).any
        (fun room => !decide (Owned room.affiliations))) = true := by decide +kernel
  obtain ⟨start, -, hfacts⟩ := (Option.any_eq_true _ _).mp hany
  simp only [Bool.and_eq_true, decide_eq_true_eq, Option.any_eq_true, Bool.not_eq_true',
    decide_eq_false_iff_not] at hfacts
  obtain ⟨hown, room, hrun, hno⟩ := hfacts
  exact hno (h start room hown (.runAdmitted_of .start (fun _ hs => accepted_of_texts hs) hrun))

/-! ## A request that spares the owner -/

instance (lists : Affiliations) (sender : Participant) (target : AdminTarget) :
    Decidable (TakesLastOwner lists sender target) :=
  decidable_of_iff (badItem target = false ∧ sender.affiliation = affilOwner ∧
      target.affiliation.any (fun affiliation => affiliation != listOwner) = true ∧
      existingEntry lists target.jid = some (listOwner, 0) ∧
      (lists listOwner).items.length = 1 ∧
      ∀ entry ∈ (lists listOwner).items, bareKey sender.jid ≠ bareKey entry.jid) <| by
    unfold TakesLastOwner
    refine and_congr_right fun _ => and_congr_right fun _ => ?_
    simp only [Option.any_eq_true, bne_iff_ne, List.length_eq_one_iff]
    constructor
    · rintro ⟨⟨a, ha, hne⟩, hfound, ⟨entry, hone⟩, hother⟩
      exact ⟨a, ha, hne, hfound, entry, hone, hother entry (hone ▸ List.mem_singleton_self _)⟩
    · rintro ⟨a, ha, hne, hfound, entry, hone, hother⟩
      refine ⟨⟨a, ha, hne⟩, hfound, ⟨entry, hone⟩, fun e he => ?_⟩
      rw [hone, List.mem_singleton] at he
      exact he ▸ hother

/-- `SparesOwner` as it is computed. -/
def sparesOwner (acl : ACLConfig) (addr : Nat) : AdminState → List ItemRead → Bool
  | st, .item target :: rest => (st.room.participants.nodes.get? addr).all (fun sender =>
    !decide (TakesLastOwner st.room.affiliations sender target) &&
      (adminItem acl st sender target).toOption.all (fun st' => sparesOwner acl addr st' rest))
  | _, _ => true

theorem sparesOwner_iff {acl : ACLConfig} {addr : Nat} {reads : List ItemRead} {st : AdminState} :
    sparesOwner acl addr st reads = true ↔ SparesOwner acl addr st reads := by
  induction reads generalizing st with
  | nil => exact iff_of_true rfl trivial
  | cons read rest ih =>
    cases read with
    | undefined => exact iff_of_true rfl trivial
    | bad => exact iff_of_true rfl trivial
    | item target =>
      have hok : ∀ sender st', (adminItem acl st sender target).toOption = some st' ↔
          adminItem acl st sender target = .ok st' := by
        intro sender st'
        cases adminItem acl st sender target <;> simp [Except.toOption]
      simp only [sparesOwner, SparesOwner, Option.all_eq_true, Bool.and_eq_true, Bool.not_eq_true',
        decide_eq_false_iff_not, hok, ih]

instance (room : Room) (stanza : Stanza) : Decidable (SparingRequest room stanza) :=
  decidable_of_iff (IsAdminSet stanza.ingress ∧ ∀ request ∈ adminRequest room stanza.ingress,
      sparesOwner stanza.acl request.1 { room := room, affected := [] } request.2 = true) <| by
    simp only [sparesOwner_iff]
    rfl

set_option maxRecDepth 100000 in
/-- The result at the first request, which leaves the entry of the host. -/
theorem owner_kept_hostForAlice : ∃ start room, foundedByAlice = some start ∧
    Machine.Reach roomStep SparingRequest start room ∧
    ((room.affiliations listOwner).items.map (fun entry => entry.jid.node) = [none]) ∧
    Owned room.affiliations := by
  have hany : foundedByAlice.any (fun start => decide (Owned start.affiliations) &&
      (Machine.runAdmitted roomStep SparingRequest start
        (stanzasOfTexts openAcl 0 0 [hostForAlice])).any (fun room =>
          (room.affiliations listOwner).items.map (fun entry => entry.jid.node) == [none]))
        = true := by decide +kernel
  obtain ⟨start, hstart, hfacts⟩ := (Option.any_eq_true _ _).mp hany
  simp only [Bool.and_eq_true, decide_eq_true_eq, Option.any_eq_true, beq_iff_eq] at hfacts
  obtain ⟨hown, room, hrun, hhost⟩ := hfacts
  have hreach : Machine.Reach roomStep SparingRequest start room := .runAdmitted .start hrun
  exact ⟨start, room, hstart, hreach, hhost, (owner_kept hown hreach).1⟩

end Mukite
